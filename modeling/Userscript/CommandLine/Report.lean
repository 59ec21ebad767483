import Userscript.Build
import Userscript.Review

/-!
# Reports for the user

What the command line prints about a build, a review and the size of a bundle.

## Main definitions

* `Report.ofBuild`, `Report.ofReview`, `Report.ofSize` — printing a report
-/

namespace Userscript.CommandLine.Report

/-- A size as it is shown. -/
def shown (size : Int) : Action String :=
  match Size.format size with
  | .ok text => return text
  | .error fault => Action.fail (.fault fault)

/-- Prints a heading and the items below it, if there are any. -/
def items (heading : String) (lines : List String) : Action Unit := do
  if !lines.isEmpty then
    Action.printLine heading
    lines.forM fun line => Action.printLine s!"   - {line}"

/-- Prints what became of the modules of a build. -/
def modules (r : Build.Result) : Action Unit := do
  if !r.skipped.isEmpty then
    Action.printLine s!"⚠️  Skipped {r.skipped.length} module(s) due to errors or empty content"
  if !r.merged.isEmpty then
    let size ← shown r.bundleSize
    Action.printLine s!"\n📦 Built {r.output.name} from {r.merged.length} modules ({size}):"
    r.merged.forM fun name => Action.printLine s!"  ✓ {name}"

/-- Prints what was written next to the bundle, and how its size has changed. -/
def files (r : Build.Result) : Action Unit := do
  if let some copy := r.debugCopy then
    Action.printLine s!"📝 Unoptimized copy: {copy.name}"
  if let some map := r.sourceMap then
    Action.printLine s!"🗺️  Source map: {map.name}"
  if r.finalSize ≠ 0 ∧ r.finalSize ≠ r.bundleSize then
    let before ← shown r.bundleSize
    let after ← shown r.finalSize
    Action.printLine s!"✂️  {before} → {after}"

/-- Prints how a build has ended; a failure goes to the errors. -/
def ending (r : Build.Result) : Action Unit :=
  match r.error with
  | none => Action.printLine s!"✅ {r.summary} in 0.00s"
  | some error => Action.printError (s!"❌ {r.summary}: " ++ error.message)

/-- Prints a report on a build; a detailed one lists its stages. -/
def ofBuild (isDetailed : Bool) (r : Build.Result) : Action Unit := do
  modules r
  files r
  items s!"⚠️  {r.warnings.length} warning(s)" (r.warnings.map Warning.text)
  ending r
  if isDetailed then
    Action.printLine "\n📊 Performance Summary:"
    r.stages.forM fun stage => Action.printLine s!"  {stage}: 0.00ms"

/-- Prints what a review has found. -/
def ofReview (r : Review) : Action Unit := do
  items "❌ Configuration Errors:" (r.problems.map Review.Problem.message)
  items "\n⚠️  Configuration Warnings:" (r.remarks.map Review.Remark.message)
  if r.problems.isEmpty then Action.printLine "\n✅ Build configuration looks good"

/-- The sign for a status. -/
def icon : Size.Status → String
  | .excellent => "✨"
  | .good => "✅"
  | .warning => "⚠️"
  | .error => "❌"

/-- A name with spaces behind it, so that it takes at least `width` characters. -/
def padded (width : Nat) (name : String) : String :=
  name ++ String.ofList (List.replicate (width - name.length) ' ')

/-- Prints the sizes of the modules of a bundle. -/
def breakdown (sizes : List Size.ModuleSize) : Action Unit := do
  if !sizes.isEmpty then
    Action.printLine "\n━━━ Module Breakdown ━━━\n"
    sizes.forM fun m => do
      let size ← shown m.size
      Action.printLine ("  " ++ padded 40 m.name ++ " " ++ size)

/-- Prints a report on the size of a bundle; a detailed one lists its modules. -/
def ofSize (isDetailed : Bool) (r : Size.Report) : Action Unit := do
  Action.printLine (icon r.status ++ " " ++ r.status.message ++ "\n")
  Action.printLine ("Current size: " ++ (← shown r.size))
  Action.printLine ("Target size:  " ++ (← shown r.limits.target))
  Action.printLine ("Warning at:   " ++ (← shown r.limits.warning))
  Action.printLine ("Error at:     " ++ (← shown r.limits.error))
  if r.limits.target < r.size then
    match Size.overTarget r.limits r.size with
    | .ok text => Action.printLine ("\nOver target by: " ++ text)
    | .error fault => Action.fail (.fault fault)
  if isDetailed then breakdown r.modules

end Userscript.CommandLine.Report
