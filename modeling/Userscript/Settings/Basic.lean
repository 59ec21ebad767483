import Userscript.Log
import Userscript.Script.Indent

/-!
# Settings

The settings of a project say where its modules, its manifests and its header are, where
the bundle goes, and how it is made. A setting may have been given a value of a kind that some
use of it does not take; such a use is a fault.

## Main definitions

* `Settings` — the settings of a project
* `Settings.Use`, `Settings.demand` — the uses of settings, and the faults that some lead to
* `Settings.sourceRoot`, `Settings.outputPath`, `Settings.cachePath`,
  `Settings.manifestPaths`, `Settings.headerPaths` — the paths they give
* `Settings.excludedNames` — the names of files that are no modules
-/

namespace Userscript

/-- A use of settings. -/
inductive Settings.Use where
  /-- The folder of the modules as a path. -/
  | sourceDir
  /-- The output as the path of the bundle. -/
  | output
  /-- The name of the cache file below the project's folder. -/
  | cacheFile
  /-- The name of the metadata file among those of files that are no modules. -/
  | metadataName
  /-- The names of files that are no modules. -/
  | extraExclude
  /-- The names of manifests below the project's folder. -/
  | manifests
  /-- The name of the metadata file below the project's folder. -/
  | metadataFile
  /-- The words after which a slash opens a pattern literal. -/
  | patternKeywords
  /-- The name of the checker. -/
  | validator
  /-- The names that are not changed. -/
  | reservedNames
  deriving DecidableEq, Repr

/-- The settings of a project. -/
structure Settings where
  /-- The folder of the project, without two dots. -/
  root : Path
  /-- The folder of the modules; if none is given, it is `src` if that exists, and the
  project's folder otherwise. -/
  sourceDir : Option Path := none
  output : String := "bundle.user.js"
  metadataFile : String := "userscript.js"
  /-- The module that comes first if there is no manifest. -/
  entry : String := "main.js"
  extraExclude : List String := []
  /-- The files that may hold a manifest. -/
  manifests : List String := ["build.order.json", "build.order.txt"]
  /-- The files that may hold the header; if none are given, they are the metadata file, the
  same in `src`, and the bundle. -/
  headerCandidates : Option (List Path) := none
  cacheFile : String := ".build-cache.json"
  /-- How many columns of indentation the lines of an optimized script keep. -/
  indentLimit : Script.Indent := .columns Script.defaultIndentLimit
  patternKeywords : List String := ["return", "match", "test", "replace", "split", "exec"]
  validator : String := "auto"
  reservedNames : List String := ["window", "document"]
  /-- How many seconds an outside tool may take. -/
  stageTimeout : Limit := .seconds (.double (.round false 300 1))
  /-- The uses that lead to a fault, as the values they are of do not admit them. -/
  misuses : List (Settings.Use × Fault) := []

namespace Settings

/-- The extension of modules. -/
def extension : String := ".js"

/-- The script that builds a project; it is no module. -/
def buildScript : String := "build.js"

/-- The file with the settings of a project. -/
def fileName : String := "bundle.config.py"

/-- The fault that a use leads to, if it does. -/
def fault? (s : Settings) (use : Use) : Option Fault := (s.misuses.find? (·.1 = use)).map (·.2)

/-- Fails if a use leads to a fault. -/
def demand {m : Type → Type} [Monad m] [MonadExceptOf Failure m] (s : Settings) (use : Use) : m Unit :=
  match s.fault? use with
  | some fault => throw (.fault fault)
  | none => pure ()

/-- Fails if the names of files that are no modules cannot be put together. -/
def demandExcludedNames {m : Type → Type} [Monad m] [MonadExceptOf Failure m] (s : Settings) : m Unit := do
  s.demand .output
  s.demand .metadataName
  s.demand .extraExclude

/-- The folder `src` of a project. -/
def usualSource (s : Settings) : Path := s.root.child "src"

/-- The folder of the modules. -/
def sourceRoot (s : Settings) (t : Tree) : Path :=
  match s.sourceDir with
  | some folder => s.root.join folder
  | none => if t.hasFolder s.usualSource then s.usualSource else s.root

/-- Whether the modules are looked for in the project's folder because there is no other. -/
def lacksSource (s : Settings) (t : Tree) : Bool :=
  s.sourceDir.isNone && !t.hasFolder s.usualSource

/-- The folder of the modules, with a note if it is the project's folder for want of
another. -/
def findSource (s : Settings) (t : Tree) : Reading Path := do
  s.demand .sourceDir
  if s.lacksSource t then
    Reading.note .debug s!"src/ directory not found, scanning {s.root} instead"
  return s.sourceRoot t

/-- The file of the bundle. -/
def outputPath (s : Settings) : Path := s.root.child s.output

/-- The file of the change cache. -/
def cachePath (s : Settings) : Path := s.root.child s.cacheFile

/-- The names of files that are no modules. -/
def excludedNames (s : Settings) : List String :=
  s.outputPath.name :: s.metadataFile :: buildScript :: s.extraExclude

/-- The files that may hold a manifest. -/
def manifestPaths (s : Settings) : List Path := s.manifests.map s.root.child

/-- The files that may hold the header of a bundle in the file `output`. -/
def headerPaths (s : Settings) (output : Path) : List Path :=
  match s.headerCandidates with
  | some paths => paths.map s.root.join
  | none => [s.root.child s.metadataFile, s.usualSource.child s.metadataFile, output]

end Settings

/-- Values for some of the settings. -/
structure Settings.Overrides where
  sourceDir : Option Path := none
  output : Option String := none
  metadataFile : Option String := none
  entry : Option String := none
  extraExclude : Option (List String) := none
  manifests : Option (List String) := none
  headerCandidates : Option (List Path) := none
  cacheFile : Option String := none
  indentLimit : Option Script.Indent := none
  patternKeywords : Option (List String) := none
  validator : Option String := none
  reservedNames : Option (List String) := none
  stageTimeout : Option Limit := none
  misuses : List (Settings.Use × Fault) := []

namespace Settings

/-- The values of `first`, and those of `second` where `first` has none. -/
def Overrides.orElse (first second : Overrides) : Overrides where
  sourceDir := first.sourceDir <|> second.sourceDir
  output := first.output <|> second.output
  metadataFile := first.metadataFile <|> second.metadataFile
  entry := first.entry <|> second.entry
  extraExclude := first.extraExclude <|> second.extraExclude
  manifests := first.manifests <|> second.manifests
  headerCandidates := first.headerCandidates <|> second.headerCandidates
  cacheFile := first.cacheFile <|> second.cacheFile
  indentLimit := first.indentLimit <|> second.indentLimit
  patternKeywords := first.patternKeywords <|> second.patternKeywords
  validator := first.validator <|> second.validator
  reservedNames := first.reservedNames <|> second.reservedNames
  stageTimeout := first.stageTimeout <|> second.stageTimeout
  misuses := first.misuses ++ second.misuses

/-- The settings with other values where some are given. -/
def apply (s : Settings) (o : Overrides) : Settings where
  root := s.root
  sourceDir := o.sourceDir <|> s.sourceDir
  output := o.output.getD s.output
  metadataFile := o.metadataFile.getD s.metadataFile
  entry := o.entry.getD s.entry
  extraExclude := o.extraExclude.getD s.extraExclude
  manifests := o.manifests.getD s.manifests
  headerCandidates := o.headerCandidates <|> s.headerCandidates
  cacheFile := o.cacheFile.getD s.cacheFile
  indentLimit := o.indentLimit.getD s.indentLimit
  patternKeywords := o.patternKeywords.getD s.patternKeywords
  validator := o.validator.getD s.validator
  reservedNames := o.reservedNames.getD s.reservedNames
  stageTimeout := o.stageTimeout.getD s.stageTimeout
  misuses := o.misuses ++ s.misuses

end Settings

end Userscript
