import Userscript.CommandLine.Arguments
import Userscript.CommandLine.Report
import Userscript.CommandLine.Screen
import Userscript.Watch

/-!
# Commands

The command line builds a project, reviews it, or compares the size of its bundle with a
budget. A command prints a report and ends with an exit code.

## Main definitions

* `Command`, `Command.ofArguments` — a command, and how it is written
* `Command.run` — what a command does
* `CommandLine.execute` — a command line, to what is seen of it
-/

namespace Userscript.CommandLine

/-- Which project a command is about, and where its bundle goes. -/
structure Place where
  root : Option Path := none
  config : Option Path := none
  output : Option Path := none

/-- Whether the file system takes the paths of a place. -/
def Place.isSound (place : Place) : Bool :=
  [place.root, place.config, place.output].all fun path => !path.any Path.hasNul

/-- What the command line is asked for. -/
inductive Command where
  | build (place : Place) (options : Build.Options) (isWatched isDetailed : Bool)
  | validate (place : Place)
  | checkSize (place : Place) (isStrict isDetailed : Bool)

namespace Command

/-- The place that a command is about. -/
def place : Command → Place
  | build place .. | validate place | checkSize place .. => place

/-- The options of `build`. -/
def buildFlags : List Flag := [
  { key := .watch, names := ["--watch"], letter := some 'w' },
  { key := .verbose, names := ["--verbose"], letter := some 'v' },
  { key := .noLint, names := ["--no-eslint"] },
  { key := .optimized, names := ["--optimized"] },
  { key := .minify, names := ["--minify"], letter := some 'm' },
  { key := .pretty, names := ["--pretty", "--minify-pretty"] },
  { key := .sourceMap, names := ["--sourcemap", "--map"] },
  { key := .output, names := ["--out"], letter := some 'o', takesValue := true },
  { key := .root, names := ["--root"], takesValue := true },
  { key := .config, names := ["--config"], takesValue := true }]

/-- The options of `validate`. -/
def validateFlags : List Flag := [
  { key := .root, names := ["--root"], takesValue := true },
  { key := .config, names := ["--config"], takesValue := true }]

/-- The options of `check-size`. -/
def checkSizeFlags : List Flag := [
  { key := .root, names := ["--root"], takesValue := true },
  { key := .output, names := ["--out"], letter := some 'o', takesValue := true },
  { key := .strict, names := ["--strict"] },
  { key := .verbose, names := ["--verbose"], letter := some 'v' }]

/-- The place that options give. -/
def placeOf (a : Arguments) : Place where
  root := a.path? .root
  config := a.path? .config
  output := a.path? .output

/-- What is done in a build according to options. -/
def optionsOf (a : Arguments) : Build.Options where
  optimized := a.has .optimized
  minify := a.has .minify
  pretty := a.has .pretty
  sourceMap := a.has .sourceMap
  lint := !a.has .noLint

/-- The command of a name, with the arguments that follow the name. -/
def ofNamed : List String → Except UsageFault Command
  | [] => .error .noCommand
  | "build" :: rest => do
    let a ← Arguments.read buildFlags rest
    return .build (placeOf a) (optionsOf a) (a.has .watch) (a.has .verbose)
  | "validate" :: rest => do
    let a ← Arguments.read validateFlags rest
    return .validate (placeOf a)
  | "check-size" :: rest => do
    let a ← Arguments.read checkSizeFlags rest
    return .checkSize (placeOf a) (a.has .strict) (a.has .verbose)
  | name :: _ => .error (.unknownCommand name)

/-- The command that a list of arguments asks for. There are no options before the name of the
command, so that their end may be marked first. -/
def ofArguments (arguments : List String) : Except UsageFault Command :=
  match arguments with
  | first :: rest => ofNamed (if first = Arguments.terminator then rest else arguments)
  | [] => ofNamed []

/-- The settings of the project at a place. -/
def settings (place : Place) : Action Settings := do
  let here := (← get).tree.here
  let settings ← Settings.resolve (place.root.getD here) place.config {}
  return match place.output with
    | none => settings
    | some path => { settings with output := (path.normalize here).toString }

/-- Builds the project at a place; when it is watched, also after each batch of edits. A
build that fails ends with the code 2. -/
def runBuild (place : Place) (o : Build.Options) (isWatched isDetailed : Bool)
    (batches : List (List Watch.Edit)) : Action Nat := do
  let s ← settings place
  if o.optimized && isDetailed then
    Action.printLine
      "Optimized build requested: skipping ESLint and stripping comments/whitespace"
  if isWatched then
    let _ ← Watch.run s o (Report.ofBuild isDetailed) batches
    return 0
  let result ← Build.run s o
  Report.ofBuild isDetailed result
  return if result.isSuccess then 0 else 2

/-- Reviews the project at a place. Problems lead to the code 1. -/
def runValidate (place : Place) : Action Nat := do
  Action.printLine "🔍 Running build validation checks...\n"
  let s ← settings place
  let review ← Action.read (Review.ofProject s)
  Report.ofReview review
  return if review.problems.isEmpty then 0 else 1

/-- Reports the size of the bundle of the project at a place. A bundle that is missing leads
to the code 1, and under strict rules so does one that is too large. -/
def runCheckSize (place : Place) (isStrict isDetailed : Bool) : Action Nat := do
  let s ← settings place
  match Size.report {} (← get).tree s.outputPath with
  | .error _ =>
    Action.printError "❌ Build output not found. Run \x60scriptbundle build\x60 first."
    return 1
  | .ok report =>
    Report.ofSize isDetailed report
    return if isStrict && report.status = .error then 1 else 0

/-- What a command does, and its exit code. While a project is watched, the tree is edited in
batches. -/
def run (command : Command) (batches : List (List Watch.Edit)) : Action Nat :=
  match command with
  | build place o isWatched isDetailed => runBuild place o isWatched isDetailed batches
  | validate place => runValidate place
  | checkSize place isStrict isDetailed => runCheckSize place isStrict isDetailed

/-- The note of a log as the user of a command sees it. A build shows notes with their level,
and those for debugging only when it is detailed; other commands show warnings and errors as
they are. -/
def shown? (command : Command) (level : Log.Level) (message : String) : Option String :=
  match command with
  | build _ _ _ isDetailed =>
    if level = .debug ∧ isDetailed = false then none else some s!"[{level.word}] {message}\n"
  | _ => if level = .debug ∨ level = .info then none else some s!"{message}\n"

/-- What a command prints, of what it leaves in the log. -/
def printed (log : Log) : String :=
  Screen.seen <| log.map fun
    | .out text => Screen.plain text
    | _ => ""

/-- What a command prints as errors, of what it leaves in the log. -/
def printedErrors (command : Command) (log : Log) : String :=
  Screen.seen <| log.map fun
    | .out _ => ""
    | .err text => Screen.plain text
    | .note level message => (command.shown? level message).getD ""

end Command

/-- Executes a command line. -/
def execute (arguments : List String) (batches : List (List Watch.Edit)) : Action Screen := do
  match Command.ofArguments arguments with
  | .error fault => return { exit := 2, err := "Error: " ++ fault.message ++ "\n" }
  | .ok command =>
    if !command.place.isSound then Action.fail (.fault .nulInPath)
    let earlier := (← get).log.length
    let exit ← command.run batches
    let log := (← get).log.drop earlier
    return { exit, out := Command.printed log, err := command.printedErrors log }

end Userscript.CommandLine
