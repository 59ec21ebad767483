import Userscript.Bundle.Assembly

/-!
# Sizes of bundles

A bundle has a size budget: a target and two limits. Sizes are shown in bytes, kilobytes
and megabytes, and the share of each module is found by the lines before the modules.

## Main definitions

* `Size.format` — a size as it is shown
* `Size.Limits`, `Size.classify` — a budget, and what it says about a size
* `Size.overTarget`, `Size.savings` — comparisons in percent
* `Size.sections`, `Size.breakdown` — the parts of a bundle by module
* `Size.report` — the report on a bundle in a file
-/

namespace Userscript.Size

/-- A quotient of integers as a floating-point number. -/
def quotient (a b : Int) : Except Fault Binary64 :=
  if b = 0 then .error .divisionByZero
  else
    match Binary64.quotient? a b with
    | some x => .ok x
    | none => .error .hugeQuotient

/-- A small integer as a floating-point number. -/
def small (n : Nat) : Binary64 := .round false n 1

/-- A size as it is shown: whole bytes below a kilobyte, and two places above. -/
def format (size : Int) : Except Fault String := do
  if size < 1024 then return s!"{size} B"
  else if size < 1024 * 1024 then
    return String.ofList ((← quotient size 1024).fixed 2) ++ " KB"
  else return String.ofList ((← quotient size (1024 * 1024)).fixed 2) ++ " MB"

/-- A size budget in bytes. -/
structure Limits where
  target : Int := 250 * 1024
  warning : Int := 350 * 1024
  error : Int := 500 * 1024
  deriving DecidableEq

/-- How a size fits a budget. -/
inductive Status where
  | excellent
  | good
  | warning
  | error
  deriving DecidableEq, Repr

/-- The word for a status. -/
def Status.word : Status → String
  | excellent => "excellent"
  | good => "good"
  | warning => "warning"
  | error => "error"

/-- What is said about a size with a status. -/
def Status.message : Status → String
  | excellent => "Bundle size is excellent!"
  | good => "Bundle size is acceptable"
  | warning => "Bundle size exceeds warning limit"
  | error => "Bundle size exceeds error limit!"

/-- How a size fits a budget. -/
def classify (limits : Limits) (size : Int) : Status :=
  if limits.error < size then .error
  else if limits.warning < size then .warning
  else if limits.target < size then .good
  else .excellent

/-- How far a size is above its target, in percent of the target. -/
def overTarget (limits : Limits) (size : Int) : Except Fault String := do
  let share := (← quotient (size - limits.target) limits.target).mul (small 100)
  let sign := if share.isPositive then "+" else ""
  return sign ++ String.ofList (share.fixed 1) ++ "%"

/-- The saving from one size to another, in kilobytes and in percent. -/
def savings (before after : Int) : Except Fault String := do
  let percent ←
    if before = 0 then pure .zero
    else pure ((Binary64.sub (small 1) (← quotient after before)).mul (small 100))
  let kilobytes (n : Int) : Except Fault String := do
    return String.ofList ((← quotient n 1024).fixed 2) ++ "KB"
  let first ← kilobytes before
  let second ← kilobytes after
  return first ++ " -> " ++ second ++ " (saved " ++ String.ofList (percent.fixed 2) ++ "%)"

/-- The name in the line before a module, at the beginning of a text. It has at least one
character and ends where ` ---` first follows, which has to be on the same line. -/
def separatorName? (t : Text) : Option Text := do
  match ← Text.after? "// --- MODULE: ".toList t with
  | [] => none
  | c :: rest =>
    let (name, _) ← Text.cut " ---".toList rest
    if (c :: name).contains '\n' then none else some (c :: name)

/-- A part of a bundle: a module with the line before it. -/
structure Section where
  name : Text
  text : Text
  deriving DecidableEq

/-- The sections of a text. The section `current` is open and its text stands last
character first; `skip` characters belong to the line before its module. -/
def sectionsFrom (current : Option Section) (skip : Nat) : Text → List Section
  | [] => (current.map fun s => { s with text := s.text.reverse }).toList
  | c :: t =>
    let grown := current.map fun s => { s with text := c :: s.text }
    match skip with
    | n + 1 => sectionsFrom grown n t
    | 0 =>
      match separatorName? (c :: t) with
      | none => sectionsFrom grown 0 t
      | some name =>
        let opened : Section := ⟨name, [c]⟩
        let skip := (Bundle.separator (String.ofList name)).length - 1
        match current with
        | none => sectionsFrom (some opened) skip t
        | some s => { s with text := s.text.reverse } :: sectionsFrom (some opened) skip t

/-- The sections of a text, each from the line before a module to the next such line. -/
def sections (t : Text) : List Section := sectionsFrom none 0 t

/-- The size of a module in a bundle. -/
structure ModuleSize where
  name : String
  size : Nat
  deriving DecidableEq

/-- The size of a section. -/
def Section.size (s : Section) : ModuleSize := ⟨String.ofList s.name, Utf8.size s.text⟩

/-- The sizes of the sections of a text, the largest first; sections of one size keep their
order. -/
def breakdown (t : Text) : List ModuleSize :=
  ((sections t).map Section.size).mergeSort fun a b => decide (b.size ≤ a.size)

/-- A report on a bundle. -/
structure Report where
  path : Path
  size : Int
  limits : Limits
  modules : List ModuleSize

/-- How the bundle fits its budget. -/
def Report.status (r : Report) : Status := classify r.limits r.size

/-- The report on the bundle in a file. -/
def report (limits : Limits) (tree : Tree) (path : Path) : Except Fault Report :=
  match tree.read path with
  | .error _ => .error (.notBuilt path)
  | .ok content =>
    let text := Text.unifyEndings (Utf8.decodeLenient content)
    .ok { path, size := content.length, limits, modules := breakdown text }

end Userscript.Size
