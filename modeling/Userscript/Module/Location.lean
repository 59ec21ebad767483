import Userscript.Module.Discovery
import Userscript.Module.Manifest
import Userscript.Settings.Basic

/-!
# The modules of a project

The modules of a project are found in its source folder and put in the order of its
manifest. A manifest that cannot be read counts as none and leads to a warning.

## Main definitions

* `Settings.moduleRule` — which files of a project are modules
* `Module.Located` — the modules in order, the manifest and the warnings
* `Module.locate` — the modules of a project
-/

namespace Userscript

/-- Which files of a project are modules. -/
def Settings.moduleRule (s : Settings) : ModuleRule := ⟨Settings.extension, s.excludedNames⟩

namespace Module

/-- The modules of a project in the order in which they are bundled. -/
structure Located where
  modules : List ModuleFile
  manifest : Option Manifest
  warnings : List Warning

/-- The first manifest of a project, or none and a warning if one cannot be read. -/
def manifestOrWarning (s : Settings) (t : Tree) : Reading (Option Manifest × List Warning) := do
  match ← Manifest.attempt t s.manifestPaths with
  | .ok manifest => return (manifest, [])
  | .error (path, fault) => return (none, [⟨.manifest, path.toString, fault.message⟩])

/-- The modules of a project; there has to be one. -/
def locate (s : Settings) (t : Tree) : Reading Located := do
  let source ← s.findSource t
  s.demandExcludedNames
  let files := discover t s.moduleRule source
  if files.isEmpty then throw (.build (.noModules Settings.extension source))
  Reading.note .debug s!"Found {files.length} module file(s) in {source}"
  s.demand .manifests
  let (manifest, warnings) ← manifestOrWarning s t
  match manifest with
  | none => Reading.note .debug "No order manifest found. Using default ordering."
  | some m =>
    let source := (m.source.map Path.toString).getD "None"
    Reading.note .debug s!"Using order manifest {source}"
  let (modules, irregular) := order files manifest s.entry
  return { modules, manifest, warnings := warnings ++ irregular }

/-- The modules with their texts. -/
def load (t : Tree) (modules : List ModuleFile) : Reading (List (ModuleFile × Option Text)) :=
  modules.mapM fun m => do return (m, ← Reading.textOrNone t m.path)

end Module

end Userscript
