import Userscript.Proofs.Module.Unique

/-!
# The order of a discovery

A discovery keeps the folders that it has still to visit on a stack. What it finds, and in which
order, is what a recursion on the folders finds: the modules that stand in a folder come first, and
then those of each folder in it. The argument is about all stacks: a stack stands for what the
recursion finds in its folders, one after the other.

## Main definitions

* `Module.preorder` — the modules in a folder and below it, by recursion
* `Module.Eligible` — a file is a module in a folder or below it

## Main results

* `walk_eq_flatMap` — the walk over a stack
* `mem_preorder_iff` — which modules the recursion finds
* `discoverWhere_eq_preorder` — a discovery finds what the recursion does, and every module once
-/

namespace Userscript

namespace Module

variable {listed : Path → Bool} {rule : ModuleRule} {folder : Path} {n child : Node} {m : ModuleFile}
  {name : String}

theorem weight_le_of_mem {entry : String × Node} {entries : List (String × Node)} (h : entry ∈ entries) :
    entry.2.weight ≤ Node.weights entries := by
  induction entries with
  | nil => cases h
  | cons first rest ih =>
    rw [Node.weights]
    rcases List.mem_cons.1 h with rfl | h
    · omega
    · have := ih h
      omega

/-- What stands in a folder weighs less than the folder. -/
theorem weight_lt_of_mem_sorted {entry : String × Node} (h : entry ∈ n.sorted) : entry.2.weight < n.weight := by
  have hentry := mem_sorted.1 h
  cases n with
  | file => cases hentry
  | folder contents =>
    have : entry.2.weight ≤ Node.weights contents := weight_le_of_mem hentry
    rw [Node.weight]
    omega

/-- The modules in a folder and below it: those that stand in it, by name, and then those of each
folder in it, by name, unless the folder is skipped. Nothing is found in a folder that cannot be
listed. -/
def preorder (listed : Path → Bool) (rule : ModuleRule) (folder : Path) (n : Node) : List ModuleFile :=
  if listed folder then
    (n.sorted.filterMap fun entry =>
      if entry.2.isFile ∧ rule.accepts entry.1 then some ⟨entry.1, folder⟩ else none) ++
    n.sorted.attach.flatMap fun ⟨entry, _⟩ =>
      if entry.2.isFolder ∧ entry.1 ∉ skippedFolders then
        preorder listed rule (folder.under entry.1) entry.2
      else []
  else []
termination_by n.weight
decreasing_by exact weight_lt_of_mem_sorted ‹_›

/-- A file is a module in the folder `n` of this path, or below it: it has the name of one, and all
folders down to its own can be listed and, the first one apart, are not skipped. -/
inductive Eligible (listed : Path → Bool) (rule : ModuleRule) : Path → Node → ModuleFile → Prop
  | here {folder : Path} {n child : Node} {name : String} :
    listed folder → (name, child) ∈ n.entries → child.isFile → rule.accepts name →
      Eligible listed rule folder n ⟨name, folder⟩
  | under {folder : Path} {n child : Node} {name : String} {m : ModuleFile} :
    listed folder → (name, child) ∈ n.entries → child.isFolder → name ∉ skippedFolders →
      Eligible listed rule (folder.under name) child m → Eligible listed rule folder n m

/-! ### The walk as a recursion -/

theorem inFolder_eq (rule : ModuleRule) (folder : Path) (n : Node) :
    inFolder rule folder n = n.sorted.filterMap fun entry =>
      if entry.2.isFile ∧ rule.accepts entry.1 then some ⟨entry.1, folder⟩ else none := by
  rw [inFolder]
  induction n.sorted with
  | nil => rfl
  | cons entry rest ih =>
    by_cases h : entry.2.isFile ∧ rule.accepts entry.1 <;> simp [h, ih]

theorem flatMap_subfolders (f : Path × Node → List ModuleFile) (folder : Path) (n : Node) :
    (subfolders folder n).flatMap f = n.sorted.flatMap fun entry =>
      if entry.2.isFolder ∧ entry.1 ∉ skippedFolders then f (folder.under entry.1, entry.2) else [] := by
  rw [subfolders]
  induction n.sorted with
  | nil => rfl
  | cons entry rest ih =>
    by_cases h : entry.2.isFolder ∧ entry.1 ∉ skippedFolders <;> simp [isVisited, h, ih]

theorem preorder_eq (h : listed folder) (rule : ModuleRule) (n : Node) :
    preorder listed rule folder n = inFolder rule folder n ++
      (subfolders folder n).flatMap fun entry => preorder listed rule entry.1 entry.2 := by
  rw [preorder, if_pos h, inFolder_eq, flatMap_subfolders]
  simp only [List.flatMap_subtype, List.unattach_attach]

theorem preorder_of_not_listed (h : ¬ listed folder) (rule : ModuleRule) (n : Node) :
    preorder listed rule folder n = [] := by
  rw [preorder, if_neg h]

/-- The walk finds in the folders of a stack what the recursion finds in each of them. -/
theorem walk_eq_flatMap (stack : List (Path × Node)) :
    walk listed rule stack = stack.flatMap fun entry => preorder listed rule entry.1 entry.2 := by
  fun_induction walk listed rule stack with
  | case1 => rfl
  | case2 folder n rest h ih =>
    rw [ih, List.flatMap_append, List.flatMap_cons, preorder_eq h, List.append_assoc]
  | case3 folder n rest h ih => rw [List.flatMap_cons, preorder_of_not_listed h, List.nil_append, ih]

/-- A folder that cannot be listed takes away what would be found in it, and nothing else. -/
theorem walk_sublist (stack : List (Path × Node)) :
    (walk listed rule stack).Sublist (walk (fun _ => true) rule stack) := by
  fun_induction walk listed rule stack with
  | case1 => exact List.nil_sublist _
  | case2 folder n rest h ih =>
    rw [walk, if_pos rfl]
    exact ih.append_left _
  | case3 folder n rest h ih =>
    rw [walk_eq_flatMap ((folder, n) :: rest), List.flatMap_cons, ← walk_eq_flatMap]
    exact ih.trans (List.sublist_append_right _ _)

/-! ### What the recursion finds -/

theorem eligible_of_mem_preorder {folder : Path} {n : Node} (h : m ∈ preorder listed rule folder n) :
    Eligible listed rule folder n m := by
  by_cases hlisted : listed folder
  · rw [preorder_eq hlisted] at h
    rcases List.mem_append.1 h with h | h
    · obtain ⟨rfl, child, hentry, hfile, haccepts⟩ := mem_inFolder_iff.1 h
      exact .here hlisted hentry hfile haccepts
    · obtain ⟨sub, hsub, h⟩ := List.mem_flatMap.1 h
      obtain ⟨name, hentry, hvisited, hpath⟩ := mem_subfolders_iff.1 hsub
      have hless := weight_lt_of_mem_sorted (mem_sorted.2 hentry)
      rw [hpath] at h
      simp only [isVisited, Bool.and_eq_true, Bool.not_eq_true', List.contains_eq_mem,
        decide_eq_false_iff_not] at hvisited
      exact .under hlisted hentry hvisited.1 hvisited.2 (eligible_of_mem_preorder h)
  · rw [preorder_of_not_listed hlisted] at h
    cases h
termination_by n.weight

/-- The recursion finds the modules in a folder and below it, and nothing else. -/
theorem mem_preorder_iff : m ∈ preorder listed rule folder n ↔ Eligible listed rule folder n m := by
  refine ⟨eligible_of_mem_preorder, fun h => ?_⟩
  induction h with
  | here hlisted hentry hfile haccepts =>
    rw [preorder_eq hlisted]
    exact List.mem_append_left _ (mem_inFolder_iff.2 ⟨rfl, _, hentry, hfile, haccepts⟩)
  | @under folder n child name m hlisted hentry hfolder hkept _ ih =>
    rw [preorder_eq hlisted]
    have hvisited : isVisited (name, child) := by simp [isVisited, hfolder, hkept]
    have hsub : (folder.under name, child) ∈ subfolders folder n :=
      mem_subfolders_iff.2 ⟨name, hentry, hvisited, rfl⟩
    exact List.mem_append_right _ (List.mem_flatMap.2 ⟨_, hsub, ih⟩)

/-! ### A discovery -/

theorem preorder_file (listed : Path → Bool) (rule : ModuleRule) (folder : Path) (content : Bytes) (stamp : Int) :
    preorder listed rule folder (.file content stamp) = [] := by
  rw [List.eq_nil_iff_forall_not_mem]
  intro m h
  -- Nothing stands in a file.
  cases mem_preorder_iff.1 h with
  | here _ hentry => cases hentry
  | under _ hentry => cases hentry

theorem discoverWhere_eq (listed : Path → Bool) (t : Tree) (rule : ModuleRule) (root : Path) :
    discoverWhere listed t rule root = ((t.find? root).map (preorder listed rule root)).getD [] := by
  rw [discoverWhere]
  split
  · next contents hroot => simp [hroot, walk_eq_flatMap]
  · next hroot =>
    cases hfind : t.find? root with
    | none => rfl
    | some n =>
      cases n with
      | file content stamp => simp [preorder_file]
      | folder contents => exact absurd hfind (hroot contents)

theorem discoverWhere_sublist (listed : Path → Bool) (t : Tree) (rule : ModuleRule) (root : Path) :
    (discoverWhere listed t rule root).Sublist (discover t rule root) := by
  rw [discover, discoverWhere, discoverWhere]
  split
  · exact walk_sublist _
  · exact List.nil_sublist _

/-- A discovery finds what the recursion on the folders finds, in the same order: the modules below
its folder, each of them once, and nothing else. -/
theorem discoverWhere_eq_preorder {t : Tree} (hwell : t.root.WellNamed) (listed : Path → Bool)
    (rule : ModuleRule) (root : Path) :
    discoverWhere listed t rule root = ((t.find? root).map (preorder listed rule root)).getD [] ∧
      (discoverWhere listed t rule root).Nodup ∧
      ∀ m, m ∈ discoverWhere listed t rule root ↔
        ∃ n, t.find? root = some n ∧ Eligible listed rule root n m := by
  refine ⟨discoverWhere_eq listed t rule root, ?_, fun m => ?_⟩
  · exact (nodup_discover hwell rule root).sublist (discoverWhere_sublist listed t rule root)
  · rw [discoverWhere_eq]
    cases t.find? root with
    | none => simp
    | some n => simp [mem_preorder_iff]

/-! ### Folders in folders -/

/-- A project with modules in folders, one of which is skipped. -/
def nestedProject : Tree where
  root := .folder [
    ("b.js", .file [] 0),
    ("lib", .folder [("c.js", .file [] 0), (".git", .folder [("d.js", .file [] 0)])]),
    ("kept", .folder [("e.js", .file [] 0)]),
    ("a.js", .file [] 0)]

theorem wellNamed_nestedProject : nestedProject.root.WellNamed := by
  have hfile (name : String) (hname : Path.IsName name) : (Node.folder [(name, .file [] 0)]).WellNamed :=
    .folder (by simp) (by simpa using hname) (by simpa using .file)
  have hlib : (Node.folder [("c.js", .file [] 0), (".git", .folder [("d.js", .file [] 0)])]).WellNamed :=
    .folder (by decide) (by simp; decide) (by simpa using ⟨.file, hfile "d.js" (by decide)⟩)
  refine .folder (by decide) (by simp; decide) ?_
  simpa using ⟨.file, hlib, hfile "e.js" (by decide), .file⟩

/-- Of its folders, `kept` cannot be listed. -/
theorem discoverWhere_eq_preorder_nested :
    let rule : ModuleRule := ⟨".js", []⟩
    let listed : Path → Bool := fun folder => folder ≠ ⟨.slash, ["kept"]⟩
    let found := discoverWhere listed nestedProject rule ⟨.slash, []⟩
    nestedProject.root.WellNamed ∧
      found = ((nestedProject.find? ⟨.slash, []⟩).map (preorder listed rule ⟨.slash, []⟩)).getD [] ∧
      found.Nodup ∧
      ∀ m, m ∈ found ↔
        ∃ n, nestedProject.find? ⟨.slash, []⟩ = some n ∧ Eligible listed rule ⟨.slash, []⟩ n m :=
  ⟨wellNamed_nestedProject, discoverWhere_eq_preorder wellNamed_nestedProject _ _ _⟩

example :
    discoverWhere (fun folder => folder ≠ ⟨.slash, ["kept"]⟩) nestedProject ⟨".js", []⟩ ⟨.slash, []⟩ =
      [⟨"a.js", ⟨.slash, []⟩⟩, ⟨"b.js", ⟨.slash, []⟩⟩, ⟨"c.js", ⟨.slash, ["lib"]⟩⟩] := by
  cbv

end Module

end Userscript
