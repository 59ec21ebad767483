import Userscript.Path
import Userscript.Warning

/-!
# Order of modules

The modules of a project are put in the order in which they are bundled. A manifest gives
the order by name; the modules it does not list follow by name. Without a manifest the
entry module comes first and the others follow by name. Of several modules with one name,
the one in the folder with the least path is kept.

## Main definitions

* `ModuleFile` — a module on disk
* `Manifest` — the names of modules in a wanted order
* `Module.order` — the modules in order, with a warning for each irregularity

## Main results

* `name_mem_distinct_iff` — every name is kept
-/

namespace Userscript

/-- A module on disk. -/
structure ModuleFile where
  name : String
  folder : Path
  deriving DecidableEq, Repr

/-- The path of a module. -/
def ModuleFile.path (m : ModuleFile) : Path := m.folder.child m.name

/-- The names of modules in the order in which they are bundled. -/
structure Manifest where
  names : List String
  /-- The file that the manifest was read from. -/
  source : Option Path := none
  deriving DecidableEq, Repr

namespace Module

/-- The modules by name, and those with one name by the path of their folder. -/
def byName (files : List ModuleFile) : List ModuleFile :=
  files.mergeSort fun a b =>
    decide (a.name < b.name) || (a.name == b.name && decide (a.folder.toString ≤ b.folder.toString))

/-- The first module of each name. -/
def distinct : List ModuleFile → List ModuleFile
  | [] => []
  | m :: rest => m :: (distinct rest).filter (·.name ≠ m.name)

/-- The warning that `dropped` is not bundled because `kept` has the same name. -/
def duplicateWarning (kept dropped : ModuleFile) : Warning :=
  ⟨.duplicate, dropped.path.toString, s!"duplicate module name, keeping {kept.path}"⟩

/-- A warning for each module whose name is taken. The modules `taken` come before. -/
def duplicateWarnings (taken : List ModuleFile) : List ModuleFile → List Warning
  | [] => []
  | m :: rest =>
    match taken.find? (·.name = m.name) with
    | some kept => duplicateWarning kept m :: duplicateWarnings taken rest
    | none => duplicateWarnings (taken ++ [m]) rest

/-- What a manifest makes of modules: those it lists, in its order, those it does not
list, and a warning for each name it lists in vain. -/
structure Listed where
  modules : List ModuleFile := []
  rest : List ModuleFile
  warnings : List Warning := []

/-- The warning that a manifest lists a name in vain, with the names it could have
listed. -/
def missingWarning (name : String) (rest : List ModuleFile) : Warning :=
  let available := ", ".intercalate (rest.map (·.name))
  ⟨.missing, name, s!"listed in manifest but not found (available: {available})"⟩

/-- A manifest lists the next name. A name that it has listed before says nothing. -/
def Listed.add (known : List ModuleFile) (l : Listed) (name : String) : Listed :=
  match l.rest.find? (·.name = name) with
  | some m => { l with modules := l.modules ++ [m], rest := l.rest.filter (·.name ≠ name) }
  | none =>
    if known.any (·.name = name) then l
    else { l with warnings := l.warnings ++ [missingWarning name l.rest] }

/-- What a list of names makes of modules, which come by name and have distinct names. -/
def listed (names : List String) (known : List ModuleFile) : Listed :=
  names.foldl (Listed.add known) { rest := known }

/-- The warning that a manifest does not list a module. -/
def unlistedWarning (m : ModuleFile) : Warning := ⟨.unlisted, m.name, "module not in manifest"⟩

/-- The modules with the entry first, if it is among them. -/
def entryFirst (entry : String) (known : List ModuleFile) : List ModuleFile :=
  known.filter (·.name = entry) ++ known.filter (·.name ≠ entry)

/-- The modules in the order in which they are bundled, and a warning for each
irregularity: the modules that are dropped, then the names listed in vain, then the
modules not listed. -/
def order (files : List ModuleFile) (manifest : Option Manifest) (entry : String) :
    List ModuleFile × List Warning :=
  let sorted := byName files
  let known := distinct sorted
  let duplicates := duplicateWarnings [] sorted
  match manifest with
  | none => (entryFirst entry known, duplicates)
  | some manifest =>
    let l := listed manifest.names known
    (l.modules ++ l.rest, duplicates ++ l.warnings ++ l.rest.map unlistedWarning)

/-- Every name is kept. -/
theorem name_mem_distinct_iff {name : String} {files : List ModuleFile} :
    name ∈ (distinct files).map (·.name) ↔ name ∈ files.map (·.name) := by
  induction files with
  | nil => simp [distinct]
  | cons m rest ih =>
    simp only [distinct, List.map_cons, List.mem_cons]
    by_cases h : name = m.name
    · simp [h]
    · rw [← ih]
      simp only [h, false_or, List.mem_map, List.mem_filter, decide_eq_true_eq]
      constructor
      · rintro ⟨a, ⟨ha, -⟩, rfl⟩
        exact ⟨a, ha, rfl⟩
      · rintro ⟨a, ha, rfl⟩
        exact ⟨a, ⟨ha, h⟩, rfl⟩

end Module

end Userscript
