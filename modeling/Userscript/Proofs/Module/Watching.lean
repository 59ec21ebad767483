import Userscript.Proofs.Module.Unique
import Userscript.Proofs.Path.Texts
import Userscript.WatchFilter

/-!
# Modules that a watch takes

A watch sees a change of a file as the text of its path. It takes the change if a discovery finds the file
as a module, unless a folder that it ignores is on the way to it, above the modules or among them, or it ignores
files of this name. Of the folders that are ignored, a discovery knows only those that it skips itself.

## Main results

* `components_toString` — the parts that a watch sees
* `acceptsChange_iff_mem_discover` — which modules a watch takes
* `venv_discovered_not_watched` — a module that a watch does not take
-/

namespace Userscript

namespace Path

variable {p : Path}

/-- The parts that a watch sees of a path are its parts. -/
theorem components_toString (hparts : p.parts ≠ []) (hread : ∀ part ∈ p.parts, IsPart part) :
    WatchFilter.components p.toString = p.parts := by
  obtain ⟨c, rest, hjoined, hc⟩ := exists_cons_of_parts hparts hread
  have hroot : (p.toString.toList).dropWhile (· == '/') = ['/'].intercalate (p.parts.map String.toList) := by
    rw [toList_toString hparts, hjoined]
    cases p.root <;> simp [Root.text, hc]
  rw [WatchFilter.components, hroot, pieces, String.toList_ofList, splitAt_parts hparts hread, List.map_map]
  simp [Function.comp_def]

end Path

namespace Module

variable {t : Tree} {root : Path} {n inner child : Node} {names : List String} {name : String} {content : Bytes}
  {stamp : Int}

/-! ### Where a discovery finds a file -/

theorem Visits.not_mem_skippedFolders (h : Visits n names inner) : ∀ part ∈ names, part ∉ skippedFolders := by
  induction h with
  | here n => exact List.forall_mem_nil _
  | through _ hvisited _ ih =>
    rw [isVisited, Bool.and_eq_true] at hvisited
    exact List.forall_mem_cons.2 ⟨by simpa using hvisited.2, ih⟩

/-- What stands below a folder is reached through the folders on the way if none of them is skipped. -/
theorem exists_visits_of_at? (h : Node.at? (names ++ [name]) n = some child)
    (hkept : ∀ part ∈ names, part ∉ skippedFolders) :
    ∃ inner, Visits n names inner ∧ (name, child) ∈ inner.entries := by
  induction names generalizing n with
  | nil =>
    rw [List.nil_append, Node.at?_cons] at h
    obtain ⟨found, hfound, hat⟩ := Option.bind_eq_some_iff.1 h
    cases hat
    exact ⟨n, .here n, Table.mem_of_get? hfound⟩
  | cons part names ih =>
    obtain ⟨hpart, hkept⟩ := List.forall_mem_cons.1 hkept
    rw [List.cons_append, Node.at?_cons] at h
    obtain ⟨mid, hmid, hat⟩ := Option.bind_eq_some_iff.1 h
    obtain ⟨inner, hvisits, hentry⟩ := ih hat hkept
    have hfolder : mid.isFolder := by
      cases mid with
      | folder contents => rfl
      | file content stamp => cases names <;> simp [Node.at?, Node.entries, Table.get?] at hat
    exact ⟨inner, .through (Table.mem_of_get? hmid) (by simpa [isVisited, hfolder] using hpart) hvisits, hentry⟩

/-- A file is found where it stands by its name, if no folder on the way is skipped. -/
theorem mem_discover_at?_iff (hfolder : t.find? root = some n)
    (hfile : Node.at? (names ++ [name]) n = some (.file content stamp)) (rule : ModuleRule) :
    ⟨name, root.below names⟩ ∈ discover t rule root ↔
      rule.accepts name ∧ ∀ part ∈ names, part ∉ skippedFolders := by
  rw [mem_discover_iff]
  constructor
  · rintro ⟨n', -, -, names', inner, child, hvisits, hbelow, -, -, haccepts⟩
    obtain rfl : names = names' := List.append_cancel_left (congrArg Path.parts hbelow)
    exact ⟨haccepts, hvisits.not_mem_skippedFolders⟩
  · rintro ⟨haccepts, hkept⟩
    obtain ⟨inner, hvisits, hentry⟩ := exists_visits_of_at? hfile hkept
    refine ⟨n, hfolder, ?_, names, inner, _, hvisits, rfl, hentry, rfl, haccepts⟩
    -- Nothing stands below a file.
    cases n with
    | folder contents => rfl
    | file content stamp => cases names <;> simp [Node.at?, Node.entries, Table.get?] at hfile

/-! ### What a watch takes -/

/-- A watch that ignores the folders that a discovery skips takes a change of a file below the source folder
exactly if a discovery finds the file, no part of its path is an ignored folder, and its name is not that of an
ignored file. -/
theorem acceptsChange_iff_mem_discover {filter : WatchFilter} (hskipped : skippedFolders ⊆ filter.folders)
    (hroot : ∀ part ∈ root.parts, Path.IsPart part)
    (hnames : ∀ part ∈ names ++ [name], Path.IsName part) (hfolder : t.find? root = some n)
    (hfile : Node.at? (names ++ [name]) n = some (.file content stamp)) (rule : ModuleRule) :
    rule.acceptsChange filter (root.below (names ++ [name])).toString ↔
      ⟨name, root.below names⟩ ∈ discover t rule root ∧
        (∀ part ∈ root.parts ++ names ++ [name], part ∉ filter.folders) ∧
        filter.isAside name = false := by
  have hread : ∀ part ∈ (root.below (names ++ [name])).parts, Path.IsPart part := by
    intro part hpart
    rcases List.mem_append.1 hpart with hpart | hpart
    · exact hroot part hpart
    · exact (hnames part hpart).isPart
  have hparts : (root.below (names ++ [name])).parts ≠ [] := by simp [Path.below]
  have hlast : (root.below (names ++ [name])).parts.getLastD "" = name := by
    rw [Path.below, ← List.append_assoc, List.getLastD_concat]
  rw [mem_discover_at?_iff hfolder hfile, ModuleRule.acceptsChange, WatchFilter.ignores,
    Path.components_toString hparts hread, Path.ofString_toString hread, hlast]
  have hname : (root.below (names ++ [name])).name = name := hlast
  rw [hname]
  simp only [Path.below, Bool.and_eq_true, Bool.not_eq_true', Bool.or_eq_false_iff, List.any_eq_false,
    List.contains_iff_mem, List.append_assoc]
  constructor
  · rintro ⟨⟨hnone, haside⟩, haccepts⟩
    refine ⟨⟨haccepts, fun part hpart hmem => ?_⟩, hnone, haside⟩
    exact hnone part (List.mem_append_right _ (List.mem_append_left _ hpart)) (hskipped hmem)
  · rintro ⟨⟨haccepts, -⟩, hnone, haside⟩
    exact ⟨⟨hnone, haside⟩, haccepts⟩

/-! ### A module in a folder of a tool -/

/-- A project with a module in the folder of a tool, and with one beside it. -/
def toolProject : Tree where
  root := .folder [("p", .folder [("src", .folder [
    (".venv", .folder [("a.js", .file [] 0)]), ("lib", .folder [("b.js", .file [] 0)])])])]

/-- A filter that ignores the folders of some tools, and files whose names end in a tilde. -/
def toolFilter : WatchFilter where
  folders := [".git", ".venv", "node_modules"]
  isAside name := name.toList.getLast? = some '~'

/-- The source folder of the project. -/
def toolSource : Path := ⟨.slash, ["p", "src"]⟩

/-- A change of the module beside the folder of a tool is taken. -/
theorem acceptsChange_iff_mem_discover_beside :
    let rule : ModuleRule := ⟨".js", []⟩
    let inSource : Node :=
      .folder [(".venv", .folder [("a.js", .file [] 0)]), ("lib", .folder [("b.js", .file [] 0)])]
    (skippedFolders ⊆ toolFilter.folders ∧ (∀ part ∈ toolSource.parts, Path.IsPart part) ∧
      (∀ part ∈ ["lib", "b.js"], Path.IsName part) ∧
      toolProject.find? toolSource = some inSource ∧ Node.at? ["lib", "b.js"] inSource = some (.file [] 0)) ∧
    (rule.acceptsChange toolFilter (toolSource.below ["lib", "b.js"]).toString ↔
      ⟨"b.js", toolSource.below ["lib"]⟩ ∈ discover toolProject rule toolSource ∧
        (∀ part ∈ toolSource.parts ++ ["lib"] ++ ["b.js"], part ∉ toolFilter.folders) ∧
        toolFilter.isAside "b.js" = false) := by
  intro rule inSource
  have hroot : ∀ part ∈ toolSource.parts, Path.IsPart part := by
    simpa [toolSource] using ⟨(show Path.IsName "p" by decide).isPart, (show Path.IsName "src" by decide).isPart⟩
  have hnames : ∀ part ∈ ["lib"] ++ ["b.js"], Path.IsName part := by decide
  have hfolder : toolProject.find? toolSource = some inSource := by rfl
  have hskipped : skippedFolders ⊆ toolFilter.folders := by decide
  exact ⟨⟨hskipped, hroot, hnames, hfolder, rfl⟩,
    acceptsChange_iff_mem_discover hskipped hroot hnames hfolder rfl rule⟩

/-- A module in the folder of a tool is found by a discovery, and a watch does not take a change of it. -/
theorem venv_discovered_not_watched :
    let rule : ModuleRule := ⟨".js", []⟩
    toolProject.hasFile (toolSource.below [".venv", "a.js"]) ∧
      ¬ (rule.acceptsChange toolFilter (toolSource.below [".venv", "a.js"]).toString ↔
        ⟨"a.js", toolSource.below [".venv"]⟩ ∈ discover toolProject rule toolSource) := by
  intro rule
  have hfolder : toolProject.find? toolSource = some (.folder [
      (".venv", .folder [("a.js", .file [] 0)]), ("lib", .folder [("b.js", .file [] 0)])]) := by rfl
  have hfile : Node.at? ([".venv"] ++ ["a.js"]) (.folder [
      (".venv", .folder [("a.js", .file [] 0)]), ("lib", .folder [("b.js", .file [] 0)])]) =
      some (.file [] 0) := by rfl
  have hfound : ⟨"a.js", toolSource.below [".venv"]⟩ ∈ discover toolProject rule toolSource :=
    (mem_discover_at?_iff hfolder hfile rule).2 (by decide +kernel)
  have hnot : rule.acceptsChange toolFilter (toolSource.below [".venv", "a.js"]).toString = false := by decide +kernel
  refine ⟨by decide +kernel, fun hiff => ?_⟩
  cases hnot.symm.trans (hiff.2 hfound)

end Module

end Userscript
