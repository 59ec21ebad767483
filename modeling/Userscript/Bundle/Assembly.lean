import Userscript.Failure
import Userscript.Header.Block
import Userscript.Module.Order

/-!
# Assembly

A bundle is one script: a metadata header, and then each module behind a line with its
name. The headers that modules have themselves are taken out. A module that is empty or
cannot be read is skipped.

## Main definitions

* `Bundle.Body` — a module as it stands in a bundle
* `Bundle` — a header, the bodies and the names of the modules that are skipped
* `Bundle.text` — the script
* `Bundle.assemble` — the bundle of some modules, with a warning for each one skipped

## Main results

* `assemble_eq_error_iff` — assembling fails exactly when no module has a body
-/

namespace Userscript

/-- A module as it stands in a bundle. -/
structure Bundle.Body where
  name : String
  path : Path
  text : Text
  deriving DecidableEq

/-- The modules of a bundle under one header. -/
structure Bundle where
  header : Text
  bodies : List Bundle.Body := []
  skipped : List String := []

/-- A module with its text, if that can be read. -/
abbrev Loaded := ModuleFile × Option Text

namespace Bundle

/-- The line before a module. -/
def separator (name : String) : Text :=
  "// --- MODULE: ".toList ++ name.toList ++ " ---".toList

/-- The parts of a bundle, which blank lines separate. -/
def parts (b : Bundle) : List Text :=
  b.header :: b.bodies.flatMap fun body => [separator body.name, body.text]

/-- The script that a bundle is. -/
def text (b : Bundle) : Text := ['\n', '\n'].intercalate b.parts ++ ['\n']

/-- The names of the modules that are merged, in order. -/
def merged (b : Bundle) : List String := b.bodies.map (·.name)

/-- What becomes of a module: its body, or the warning with which it is skipped. -/
def body? (markers : Header.Markers) (m : Loaded) : Except Warning Body :=
  let path := m.1.path
  match m.2 with
  | none => .error ⟨.unreadable, path.toString, "could not read module"⟩
  | some content =>
    match Text.trim (markers.strip content) with
    | [] => .error ⟨.empty, path.toString, "empty module"⟩
    | text => .ok ⟨m.1.name, path, text⟩

/-- The bodies of the modules that have one, in order. -/
def bodies? (markers : Header.Markers) (modules : List Loaded) : List Body :=
  modules.filterMap fun m => (body? markers m).toOption

/-- The modules that have no body, each with its warning, in order. -/
def skips (markers : Header.Markers) (modules : List Loaded) : List (ModuleFile × Warning) :=
  modules.filterMap fun m =>
    match body? markers m with
    | .ok _ => none
    | .error warning => some (m.1, warning)

/-- The bundle of some modules under a header, with a warning for each module that is
skipped. There has to be a module that is not. -/
def assemble (markers : Header.Markers) (header : Text) (modules : List Loaded) :
    Except BuildError (Bundle × List Warning) :=
  let skips := skips markers modules
  match bodies? markers modules with
  | [] => .error .nothingLeft
  | bodies =>
    .ok ({ header := Text.trim header, bodies, skipped := skips.map (·.1.name) }, skips.map (·.2))

/-- Assembling fails exactly when no module has a body. -/
theorem assemble_eq_error_iff {markers : Header.Markers} {header : Text} {modules : List Loaded} :
    assemble markers header modules = .error .nothingLeft ↔
      ∀ m ∈ modules, (body? markers m).toOption = none := by
  rw [← List.filterMap_eq_nil_iff, ← bodies?]
  unfold assemble
  cases bodies? markers modules <;> simp

end Bundle

end Userscript
