import Userscript.Header.Block
import Userscript.Module.Location

/-!
# Reviews of a project

A review says what stands in the way of a build and what deserves a look, without building
anything.

## Main definitions

* `Review.Problem`, `Review.Remark` — what a review finds
* `Review.ofProject` — the review of a project
-/

namespace Userscript

/-- What stands in the way of a build. -/
inductive Review.Problem where
  | noSource (folder : Path)
  | noModules (extension : String) (folder : Path)
  | manifest (path : Path) (fault : ManifestFault)
  /-- The manifest lists a module that does not exist. -/
  | notFound (manifest : Option Path) (name : String)
  | checker (name : String)

/-- What deserves a look. -/
inductive Review.Remark where
  /-- The modules are looked for in the project's folder. -/
  | usesRoot
  /-- None of the files that may hold a manifest does. -/
  | noManifest (candidates : List String)
  /-- The manifest does not list a module. -/
  | unlisted (manifest : Option Path) (name : String)
  | noMetadata (file : String)
  /-- There is a metadata file, and no header in it. -/
  | noHeader (path : Path)

/-- What is found out about a project. -/
structure Review where
  problems : List Review.Problem := []
  remarks : List Review.Remark := []

namespace Review

/-- How the file of a manifest is named. -/
def manifestName (path : Option Path) : String := (path.map Path.toString).getD "None"

/-- The wording of a problem. -/
def Problem.message : Problem → String
  | noSource folder => s!"Source directory not found: {folder}"
  | noModules extension folder => s!"No {extension} modules found in {folder}"
  | manifest path fault => "Invalid order manifest: " ++ (BuildError.manifest path fault).message
  | notFound path name => manifestName path ++ s!": lists '{name}' which does not exist"
  | checker name => s!"Unknown validator '{name}'"

/-- The wording of a remark. -/
def Remark.message : Remark → String
  | usesRoot => "src/ directory not found - scanning the project root"
  | noManifest candidates =>
    let names := ", ".intercalate candidates
    s!"No order manifest ({names}) - using default ordering"
  | unlisted path name => s!"{name} is not listed in " ++ manifestName path
  | noMetadata file => s!"{file} not found - using fallback metadata"
  | noHeader path => s!"{path}: no ==UserScript== metadata block"

/-- The names in `names` that are not in `others`, each once, in order. -/
def missingFrom (others names : List String) : List String :=
  (names.filter fun name => !others.contains name).eraseDups.mergeSort fun a b => decide (a ≤ b)

/-- What a manifest and the names of the modules say about each other. -/
def ofManifest (m : Manifest) (names : List String) : Review where
  problems := (m.names.filter fun name => !names.contains name).map (.notFound m.source)
  remarks := (missingFrom m.names names).map (.unlisted m.source)

/-- What there is to say about the modules in a folder. -/
def ofModules (s : Settings) (folder : Path) (names : List String) : Review where
  problems := if names.isEmpty then [.noModules Settings.extension folder] else []
  remarks := if folder = s.root then [.usesRoot] else []

/-- What there is to say about the manifest of a project with some modules. -/
def manifestReview (s : Settings) (t : Tree) (names : List String) : Reading Review := do
  s.demand .manifests
  let unordered : Review := { remarks := [.noManifest s.manifests] }
  match ← Manifest.attempt t s.manifestPaths with
  | .ok (some manifest) => return ofManifest manifest names
  | .ok none => return unordered
  | .error (path, fault) => return { unordered with problems := [.manifest path fault] }

/-- What there is to say about the metadata file of a project. -/
def metadataReview (s : Settings) (t : Tree) : Reading Review := do
  s.demand .metadataFile
  let path := s.root.child s.metadataFile
  let markers : Header.Markers := {}
  match ← Reading.textOrNone t path with
  | none => return { remarks := [.noMetadata s.metadataFile] }
  | some content =>
    return { remarks := if (markers.extract? content).isNone then [.noHeader path] else [] }

/-- What there is to say about the checker of a project. -/
def checkerReview (s : Settings) : Review where
  problems := if checkerNames.contains s.validator then [] else [.checker s.validator]

/-- All that some reviews find, in order. -/
def concat (reviews : List Review) : Review where
  problems := reviews.flatMap (·.problems)
  remarks := reviews.flatMap (·.remarks)

/-- The review of a project. If its source folder is missing, there is nothing else to
say. -/
def ofProject (s : Settings) (t : Tree) : Reading Review := do
  let folder ← s.findSource t
  if !t.hasFolder folder then return { problems := [.noSource folder] }
  s.demandExcludedNames
  let names := (Module.discover t s.moduleRule folder).map (·.name)
  return concat [ofModules s folder names, ← manifestReview s t names, ← metadataReview s t,
    checkerReview s]

end Review

end Userscript
