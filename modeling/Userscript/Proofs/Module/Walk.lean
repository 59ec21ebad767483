import Userscript.Module.Discovery

/-!
# What a discovery finds

The walk through the folders of a project finds the files with the right names in a folder and in
those below it that are not skipped, and no others.

## Main definitions

* `Module.Visits` — a folder is reached through folders that are visited
* `Module.Finds` — a module stands in a folder or below it

## Main results

* `mem_walk_iff` — the modules in the folders of a stack
* `mem_discover_iff` — the modules below a folder of a tree
-/

namespace Userscript

/-- The path of what has these names in a folder, one below the other. -/
def Path.below (folder : Path) (names : List String) : Path :=
  { folder with parts := folder.parts ++ names }

theorem Path.below_nil (folder : Path) : folder.below [] = folder := by
  rw [below, List.append_nil]

theorem Path.below_cons (folder : Path) (name : String) (names : List String) :
    folder.below (name :: names) = (folder.under name).below names := by
  simp [below, under]

namespace Module

variable {rule : ModuleRule} {folder : Path} {n inner child : Node} {m : ModuleFile}
  {name : String} {names : List String}

/-- A folder is reached from another through folders that are visited. -/
inductive Visits : Node → List String → Node → Prop
  | here (n : Node) : Visits n [] n
  | through {n child inner : Node} {name : String} {names : List String} :
    (name, child) ∈ n.entries → isVisited (name, child) → Visits child names inner →
      Visits n (name :: names) inner

/-- A module stands in the folder `n` of this path, or below it. -/
def Finds (rule : ModuleRule) (folder : Path) (n : Node) (m : ModuleFile) : Prop :=
  ∃ names inner child, Visits n names inner ∧ m.folder = folder.below names ∧
    (m.name, child) ∈ inner.entries ∧ child.isFile ∧ rule.accepts m.name

theorem mem_sorted {entry : String × Node} : entry ∈ n.sorted ↔ entry ∈ n.entries :=
  (List.mergeSort_perm n.entries _).mem_iff

theorem sorted_eq_entries (h : n.entries.Pairwise fun a b => a.1 ≤ b.1) : n.sorted = n.entries :=
  List.mergeSort_of_pairwise (by simpa using h)

theorem mem_inFolder_iff : m ∈ inFolder rule folder n ↔
    m.folder = folder ∧ ∃ child, (m.name, child) ∈ n.entries ∧ child.isFile ∧ rule.accepts m.name := by
  rw [inFolder, List.mem_map]
  constructor
  · rintro ⟨⟨name, child⟩, hentry, rfl⟩
    rw [List.mem_filter, mem_sorted, Bool.and_eq_true] at hentry
    exact ⟨rfl, child, hentry⟩
  · rintro ⟨rfl, child, hentry⟩
    refine ⟨(m.name, child), ?_, rfl⟩
    rw [List.mem_filter, mem_sorted, Bool.and_eq_true]
    exact hentry

theorem mem_subfolders_iff {entry : Path × Node} : entry ∈ subfolders folder n ↔
    ∃ name, (name, entry.2) ∈ n.entries ∧ isVisited (name, entry.2) ∧ entry.1 = folder.under name := by
  rw [subfolders, List.mem_map]
  constructor
  · rintro ⟨⟨name, child⟩, hentry, rfl⟩
    rw [List.mem_filter, mem_sorted] at hentry
    exact ⟨name, hentry.1, hentry.2, rfl⟩
  · rintro ⟨name, hentry, hvisited, hpath⟩
    refine ⟨(name, entry.2), ?_, Prod.ext hpath.symm rfl⟩
    rw [List.mem_filter, mem_sorted]
    exact ⟨hentry, hvisited⟩

/-- A module stands in a folder itself or in one of its subfolders or below it. -/
theorem finds_iff : Finds rule folder n m ↔
    m ∈ inFolder rule folder n ∨ ∃ entry ∈ subfolders folder n, Finds rule entry.1 entry.2 m := by
  constructor
  · rintro ⟨names, inner, child, hvisits, hfolder, hentry, hfile, haccepts⟩
    cases hvisits with
    | here =>
      rw [Path.below_nil] at hfolder
      exact .inl (mem_inFolder_iff.2 ⟨hfolder, child, hentry, hfile, haccepts⟩)
    | @through _ sub _ name names hsub hvisited hvisits =>
      rw [Path.below_cons] at hfolder
      exact .inr ⟨(folder.under name, sub), mem_subfolders_iff.2 ⟨name, hsub, hvisited, rfl⟩,
        names, inner, child, hvisits, hfolder, hentry, hfile, haccepts⟩
  · rintro (h | ⟨⟨path, sub⟩, hsub, names, inner, child, hvisits, hfolder, hentry⟩)
    · obtain ⟨hfolder, child, hentry⟩ := mem_inFolder_iff.1 h
      exact ⟨[], n, child, .here n, by rw [Path.below_nil, hfolder], hentry⟩
    · obtain ⟨name, hname, hvisited, rfl⟩ := mem_subfolders_iff.1 hsub
      exact ⟨name :: names, inner, child, .through hname hvisited hvisits,
        by rw [hfolder, Path.below_cons], hentry⟩

/-- The walk finds the modules in the folders of a stack and below them. -/
theorem mem_walk_iff {stack : List (Path × Node)} :
    m ∈ walk (fun _ => true) rule stack ↔ ∃ entry ∈ stack, Finds rule entry.1 entry.2 m := by
  -- The stack holds first what the folder on top of it leads to, so one step is `finds_iff`.
  fun_induction walk (fun _ => true) rule stack with
  | case1 => simp
  | case2 folder n rest _ ih =>
    simp only [List.mem_append, List.mem_cons, ih, or_and_right, exists_or, exists_eq_left]
    rw [finds_iff, or_assoc]
  | case3 folder n rest h => exact absurd rfl h

/-- A discovery finds the modules in a folder of a tree and below it. -/
theorem mem_discover_iff {t : Tree} {root : Path} : m ∈ discover t rule root ↔
    ∃ n, t.find? root = some n ∧ n.isFolder ∧ Finds rule root n m := by
  rw [discover, discoverWhere]
  split
  · next contents hroot =>
    rw [mem_walk_iff]
    simp [hroot, Node.isFolder]
  · next hroot =>
    refine iff_of_false List.not_mem_nil ?_
    rintro ⟨n, hn, hfolder, -⟩
    cases n with
    | file => simp [Node.isFolder] at hfolder
    | folder contents => exact hroot contents hn

end Module

end Userscript
