import Userscript.Action
import Userscript.Settings.Basic

/-!
# Loading settings

A settings file assigns values to names in capital letters. A value is converted to what
its setting needs; a value that cannot be converted ends the run. A file that cannot be
evaluated is left out of account.

## Main definitions

* `Settings.ofNames` — the settings that assignments give
* `Settings.load` — the settings that a file gives
* `Settings.resolve` — the settings of a project
-/

namespace Userscript.Settings

open Json (ConversionFault)

/-- The texts of the items of a value. -/
def texts (v : Json) : Except ConversionFault (List String) := do
  return (← v.toList).map Json.display

/-- A value as a path. -/
def path (v : Json) : Except ConversionFault Path := do
  return Path.ofString (← v.toPathText)

/-- The paths that the items of a value are. -/
def paths (v : Json) : Except ConversionFault (List Path) := do
  (← v.toList).mapM path

/-- The settings that assignments give. The first value that cannot be converted, in the
order of the names below, is a fault. -/
def ofNames (names : Table Json) : Except ConversionFault Overrides := do
  let setting {α : Type} (name : String) (convert : Json → Except ConversionFault α) :
      Except ConversionFault (Option α) :=
    match names.get? name with
    | none => return none
    | some v => some <$> convert v
  let text (v : Json) : Except ConversionFault String := return v.display
  let sourceDir ← setting "SOURCE_DIR" path
  let output ← setting "OUTPUT" text
  let metadataFile ← setting "METADATA_FILE" text
  let entry ← setting "ENTRY" text
  let extraExclude ← setting "EXCLUDE" texts
  let manifests ← setting "MANIFESTS" texts
  let headerCandidates ← setting "HEADER_CANDIDATES" paths
  let cacheFile ← setting "CACHE_FILE" text
  let indentLimit ← setting "INDENT_LIMIT" Json.toInt
  let patternKeywords ← setting "PATTERN_KEYWORDS" texts
  let validator ← setting "VALIDATOR" text
  let reservedNames ← setting "RESERVED_NAMES" texts
  let stageTimeout ← setting "STAGE_TIMEOUT" Json.toDouble
  return {
    sourceDir, output, metadataFile, entry, extraExclude, manifests, headerCandidates, cacheFile,
    patternKeywords, validator, reservedNames
    indentLimit := indentLimit.map .columns
    stageTimeout := stageTimeout.map fun x => .seconds (.double x) }

/-- The suffixes of files that can be settings files. -/
def suffixes : List String := [".py", ".pyc", ".so"]

/-- Whether a file can be a settings file, by its name. -/
def isSettingsFile (p : Path) : Bool :=
  suffixes.any fun suffix => Text.endsWith suffix.toList p.toString.toList

/-- The names that a file assigns values to, or why it cannot be evaluated, which names the
file by its absolute path. -/
def evaluate (host : Host) (t : Tree) (p : Path) : Except String (Table Json) :=
  let file := t.here.join p
  match t.read file with
  | .error fault => .error fault.message
  | .ok content => host.evaluate file content

/-- The settings that a file gives. There need not be one. -/
def load (p : Path) : Action Overrides := fun host =>
  Action.read (fun t => do
    if !t.has p || !isSettingsFile p then return {}
    match evaluate host t p with
    | .error reason =>
      Reading.note .warning (s!"Failed to load config from {p}: " ++ reason)
      return {}
    | .ok names =>
      match ofNames names with
      | .ok overrides => return overrides
      | .error fault => throw (.fault (.conversion fault))) host

/-- The usual settings of a project in a folder, changed by some overrides. -/
def settle (root : Path) (overrides : Overrides) : Action Settings := do
  Action.demandPath root
  let settings : Settings := { root := root.normalize (← get).tree.here }
  return settings.apply overrides

/-- The settings of a project in a folder: the usual ones, changed by those of its settings
file and by the overrides. -/
def resolve (root : Path) (file : Option Path) (overrides : Overrides) : Action Settings := do
  let found ← load (file.getD (root.child fileName))
  settle root (overrides.orElse found)

end Userscript.Settings
