import Userscript.Bundle.Size
import Userscript.Checker
import Userscript.Header.Source
import Userscript.Module.Location
import Userscript.Settings.Loading
import Userscript.Tool.Eslint
import Userscript.Tool.Minify

/-!
# Builds

A build finds the modules of a project, writes them as one script, and has the script
checked. Only then may the script be linted, and minified or optimized, and only after all
of that does the project remember the modules as unchanged.

## Main definitions

* `Build.Options` — what is done in a build
* `Build.Result` — what became of a build
* `Build.run` — builds a project
-/

namespace Userscript.Build

/-- What is done in a build. -/
structure Options where
  /-- Comments and superfluous spacing are taken out. -/
  optimized : Bool := false
  /-- The script is minified; this goes before `optimized`. -/
  minify : Bool := false
  /-- The minified script is to be read. -/
  pretty : Bool := false
  /-- A source map of the minified script is written. -/
  sourceMap : Bool := false
  /-- The script is linted, unless `optimized` is set. -/
  lint : Bool := true
  /-- Where the script goes, if not where the settings say. -/
  output : Option Path := none

/-- Whether a script is linted. -/
def Options.lints (o : Options) : Bool := o.lint && !o.optimized

/-- What became of a build. -/
structure Result where
  output : Path
  isSuccess : Bool := false
  merged : List String := []
  skipped : List String := []
  /-- How many modules have changed since the last build. -/
  changed : Nat := 0
  warnings : List Warning := []
  /-- The size of the script before it is minified or optimized. -/
  bundleSize : Nat := 0
  finalSize : Nat := 0
  /-- The copy of the script before it is optimized. -/
  debugCopy : Option Path := none
  sourceMap : Option Path := none
  /-- The file that the header comes from. -/
  headerSource : Option Path := none
  /-- The stages that were reached, in order. -/
  stages : List String := []
  error : Option BuildError := none

/-- The line that sums up a build. -/
def Result.summary (r : Result) : String :=
  let status := if r.isSuccess then "Build succeeded" else "Build failed"
  s!"{status}: merged {r.merged.length}, skipped {r.skipped.length}, changed since last run {r.changed}"

/-- A step of a build, which keeps a record of what has become of the build so far, also
after a failure. -/
abbrev Step (α : Type) := ReaderT Host (ExceptT Failure (StateM (World × Result))) α

namespace Step

/-- An action as a step. -/
def act {α : Type} (action : Action α) : Step α := fun host (world, result) =>
  let (value, world) := action host world
  (value, world, result)

/-- A step that only reads. -/
def read {α : Type} (step : Tree → Reading α) : Step α := act (Action.read step)

/-- Notes a message. -/
def note (level : Log.Level) (message : String) : Step Unit := act (Action.note level message)

/-- Records what has become of the build. -/
def record (f : Result → Result) : Step Unit := modify fun (w, r) => (w, f r)

/-- A step that is a stage of the build: it is recorded and noted whether it fails or
not. -/
def stage {α : Type} (name : String) (step : Step α) : Step α := fun host state =>
  let (value, world, result) := step host state
  let log := world.log ++ [.note .debug s!"{name}: 0.00ms"]
  (value, { world with log }, { result with stages := result.stages ++ [name] })

end Step

/-- The copy of a script that is kept while the script is optimized: it has the same name
with another ending. -/
def debugCopy (output : Path) : Except Fault Path :=
  let name := output.name.toList
  let stem := if Text.endsWith ".js".toList name then name.take (name.length - 3) else name
  match output.withName? (String.ofList (stem ++ ".unoptimized.js".toList)) with
  | some p => .ok p
  | none => .error (.noName output)

/-- The change cache of a project, read with a limit to its nesting. What cannot be read as a cache is
an empty one. -/
def loadCacheWithin (levels : Nat) (path : Path) (t : Tree) : Reading ChangeCache := do
  let empty : ChangeCache := { path }
  let ignored (reason : String) : Reading ChangeCache := do
    Reading.note .debug (s!"Ignoring build cache {path}: " ++ reason)
    return empty
  if !t.has path then return empty
  match t.readText path with
  | .error fault => ignored fault.message
  | .ok raw =>
    match ChangeCache.decode? levels raw with
    | .error (.build error) => ignored error.message
    | .error failure => throw failure
    | .ok (entries, lastBuild) =>
      Reading.note .debug s!"Loaded build cache with {entries.length} entries"
      return { path, entries, lastBuild }

/-- The change cache of a project. -/
def loadCache (path : Path) (t : Tree) : Reading ChangeCache := loadCacheWithin Json.usualLevels path t

/-- The stamp and the size of a file of a tree. -/
def statOf (t : Tree) (p : Path) : Option Stat := (t.stat? p).map fun (stamp, size) => ⟨stamp, size⟩

/-- The stamp and the size of the file that a path leads to, if the file system takes the
path. -/
def stat (p : Path) (t : Tree) : Reading (Option Stat) :=
  if p.hasNul then throw (.fault .nulInPath) else return statOf t p

/-- Each file is asked for and noted, one after the other, up to a path that the file system does not
take. The cache comes back with the notes that were made by then. -/
def refreshFrom (t : Tree) : ChangeCache × List String → List Path → Except Failure (List String) × ChangeCache
  | (c, changed), [] => (.ok changed, c)
  | (c, changed), p :: paths =>
    if p.hasNul then (.error (.fault .nulInPath), c)
    else refreshFrom t (ChangeCache.refreshOne (statOf t) (c, changed) p) paths

/-- The paths of the files that have changed, and the cache with a note of each file. -/
def refreshCache (t : Tree) (c : ChangeCache) (paths : List Path) : Except Failure (List String) × ChangeCache :=
  refreshFrom t (c, []) paths

/-- Writes the change cache with the time of the build. A cache that cannot be written leads
to a note only. -/
def saveCache (cache : ChangeCache) : Action ChangeCache := do
  let cache := { cache with lastBuild := (← read).clock }
  tryCatch (Action.writeBytes cache.path (Utf8.encode cache.encode)) fun failure =>
    match failure with
    | .fault (.file fault) => Action.note .warning ("Failed to save build cache: " ++ fault.message)
    | failure => throw failure
  return cache

/-- The header of a bundle, with a warning if none is found. -/
def header (s : Settings) (output : Path) : Step Header.Resolved := do
  if s.headerCandidates.isNone then s.demand .metadataFile
  let found ← Step.read fun t => Header.resolve {} t (Header.sources (s.headerPaths output))
  match found.source with
  | none =>
    let warning : Warning :=
      ⟨.header, s.metadataFile, "metadata block not found, using default header"⟩
    Step.record fun r => { r with warnings := r.warnings ++ [warning] }
  | some source =>
    Step.record fun r => { r with headerSource := some source }
    Step.note .info s!"Using userscript metadata from: {source}"
  return found

/-- The bundle of the modules, with a note of each module in it. -/
def merge (header : Text) (modules : List ModuleFile) : Step (Bundle × List Warning) := do
  let loaded ← Step.read fun t => Module.load t modules
  (Bundle.bodies? {} loaded).forM fun body => Step.note .debug s!"Merged: {body.name}"
  match Bundle.assemble {} header loaded with
  | .ok found => return found
  | .error error => throw (.build error)

/-- The way in which the bundle is checked. -/
def checker (s : Settings) : Action Checker := do
  s.demand .validator
  tryCatch (Checker.ofName s.validator (some s.stageTimeout)) fun failure =>
    match failure with
    | .fault (.noChecker name) => Action.fail (.build (.checker name))
    | failure => throw failure

/-- The ESLint of a project. -/
def eslint (s : Settings) : Action Eslint := do
  let program := Tool.find? (← read) (← get).tree s.root "eslint"
  return ⟨s.root, program, some s.stageTimeout⟩

/-- The Terser of a project. -/
def terser (s : Settings) : Action Terser := do
  s.demand .reservedNames
  let program := Tool.find? (← read) (← get).tree s.root "terser"
  return ⟨program, s.reservedNames⟩

/-- What was saved from the script as it was assembled to the script as it is. -/
def savings (r : Result) : Step String :=
  match Size.savings r.bundleSize r.finalSize with
  | .ok text => return text
  | .error fault => throw (.fault fault)

/-- Writes a script over the bundle and notes what was saved. -/
def replaceBundle (output : Path) (text : Text) (word : String) : Step Unit := do
  let size ← Step.act (Action.writeText output text)
  Step.record fun r => { r with finalSize := size }
  let saved ← savings (← get).2
  Step.note .info (word ++ ": " ++ saved)

/-- Optimizes the bundle and keeps a copy of it as it was. -/
def optimize (s : Settings) (output : Path) (bundle : Bundle) : Step Unit := do
  let copy ←
    match debugCopy output with
    | .ok copy => pure copy
    | .error fault => throw (.fault fault)
  Step.record fun r => { r with debugCopy := some copy }
  let _ ← Step.act (Action.writeText copy bundle.text)
  Step.note .info s!"Wrote unoptimized code to {copy.name} for debugging"
  let ctx : Script.Context := { keywords := s.patternKeywords.map String.toList }
  Step.note .debug "Comment removal: 0.00ms"
  let unfit := s.fault? .patternKeywords
  match Script.optimizeGiven ctx unfit s.indentLimit {} (some bundle.header) bundle.text with
  | .error fault => throw (.fault fault)
  | .ok text =>
    Step.note .debug "Whitespace normalization: 0.00ms"
    replaceBundle output text "Optimized"

/-- Minifies the bundle and writes the source map if there is one. -/
def minify (s : Settings) (o : Options) (output : Path) (bundle : Bundle) : Step Unit := do
  let body := Text.replaceFirst bundle.header [] bundle.text
  let small ← Step.act do
    let terser ← terser s
    terser.minify s.root (some s.stageTimeout) body output.name
      { pretty := o.pretty, sourceMap := o.sourceMap, preamble := bundle.header }
  if let some map := small.map then
    match output.withName? (output.name ++ ".map") with
    | none => throw (.fault (.noName output))
    | some path =>
      Step.record fun r => { r with sourceMap := some path }
      let _ ← Step.act (Action.writeText path map)
      Step.note .debug s!"Source map written: {path}"
  let code := if Text.endsWith ['\n'] small.code then small.code else small.code ++ ['\n']
  replaceBundle output code "Minified"

/-- Checks the bundle; a bundle that is no valid script is an error. -/
def validate (s : Settings) (output : Path) (text : Text) : Step Unit := do
  let verdict ← Step.stage "validate" <| Step.act do
    let checker ← checker s
    checker.check text (some output)
  if let some fault := verdict then throw (.build (.invalid (some output) fault))

/-- Lints the bundle, with a warning if that is not possible. -/
def lint (s : Settings) (output : Path) : Step Unit := do
  let linted ← Step.stage "lint" <| Step.act do
    let eslint ← eslint s
    eslint.run output
  if !linted then
    let warning : Warning := ⟨.lint, "eslint", "ESLint not available, lint skipped"⟩
    Step.record fun r => { r with warnings := r.warnings ++ [warning] }

/-- All steps of a build. -/
def steps (s : Settings) (o : Options) (output : Path) : Step Unit := do
  if o.output.isNone then s.demand .output
  Step.note .debug s!"Starting build for {output}..."
  s.demand .cacheFile
  let cache ← Step.read (loadCache s.cachePath)
  let located ← Step.stage "collect" (Step.read (Module.locate s))
  Step.record fun r => { r with warnings := r.warnings ++ located.warnings }
  let tree := (← get).1.tree
  let (cache, changed) := cache.refresh (statOf tree) (located.modules.map (·.path))
  Step.record fun r => { r with changed := changed.length }
  let header ← header s output
  let (bundle, warnings) ← Step.stage "merge" (merge header.text located.modules)
  Step.record fun r =>
    { r with
      warnings := r.warnings ++ warnings
      merged := bundle.merged
      skipped := bundle.skipped }
  let size ← Step.stage "write" (Step.act (Action.writeText output bundle.text))
  Step.record fun r => { r with bundleSize := size, finalSize := size }
  Step.note .info s!"Built {output} from {bundle.merged.length} modules"
  (← get).2.warnings.forM fun warning => Step.note .warning warning.text
  validate s output bundle.text
  if o.lints then lint s output
  if o.minify then Step.stage "minify" (minify s o output bundle)
  else if o.optimized then Step.stage "optimize" (optimize s output bundle)
  let _ ← Step.act (saveCache cache)

/-- Where the script of a build goes. -/
def outputPath (s : Settings) (o : Options) : Path := o.output.getD s.outputPath

/-- Builds a project. A build error is part of the result; any other fault ends the
run. -/
def run (s : Settings) (o : Options) : Action Result := fun host world =>
  let output := outputPath s o
  let (ended, world, result) := steps s o output host (world, { output })
  let total (r : Result) : Result := { r with stages := r.stages ++ ["total"] }
  match ended with
  | .ok () => (.ok (total { result with isSuccess := true }), world)
  | .error (.build error) =>
    let log := world.log ++ [.note .error ("Build failed: " ++ error.message)]
    (.ok (total { result with error := some error }), { world with log })
  | .error failure => (.error failure, world)

end Userscript.Build
