import Mathlib.Data.List.Nodup
import Userscript.Proofs.Module.Walk
import Userscript.Proofs.Path.Names
import Userscript.Proofs.Table
import Userscript.Proofs.Tree.Faces

/-!
# Modules are found once

If the names in every folder differ, a discovery finds each module once, and the paths of two modules
are written in different ways.

## Main definitions

* `Node.WellNamed` — the names in every folder are names of files, and they differ
* `Module.Apart` — no module stands in two folders or below them

## Main results

* `nodup_discover` — every module is found once
* `nodup_paths_discover` — and so is every text of a path
* `exists_find?_path` — the path of a module leads to a file
-/

namespace Userscript

/-- The names in a folder are names of files, and they differ. The same holds in the folders below. -/
inductive Node.WellNamed : Node → Prop
  | file {content : Bytes} {stamp : Int} : WellNamed (.file content stamp)
  | folder {contents : List (String × Node)} : (contents.map (·.1)).Nodup →
    (∀ entry ∈ contents, Path.IsName entry.1) → (∀ entry ∈ contents, WellNamed entry.2) →
      WellNamed (.folder contents)

namespace Node.WellNamed

variable {n inner : Node} {entry : String × Node} {names : List String}

theorem nodup_keys (h : n.WellNamed) : (n.entries.map (·.1)).Nodup := by
  cases h with
  | file => exact .nil
  | folder hnodup _ _ => exact hnodup

theorem isName (h : n.WellNamed) (hentry : entry ∈ n.entries) : Path.IsName entry.1 := by
  cases h with
  | file => cases hentry
  | folder _ hnames _ => exact hnames entry hentry

theorem of_mem (h : n.WellNamed) (hentry : entry ∈ n.entries) : entry.2.WellNamed := by
  cases h with
  | file => cases hentry
  | folder _ _ hnodes => exact hnodes entry hentry

theorem get?_of_mem {child : Node} {name : String} (h : n.WellNamed) (hmem : (name, child) ∈ n.entries) :
    n.entries.get? name = some child :=
  (Table.get?_eq_some_iff_mem h.nodup_keys).2 hmem

theorem at? (h : n.WellNamed) (hinner : Node.at? names n = some inner) : inner.WellNamed := by
  induction names generalizing n with
  | nil =>
    cases hinner
    exact h
  | cons name names ih =>
    obtain ⟨child, hchild, hinner⟩ := Option.bind_eq_some_iff.1 hinner
    exact ih (h.of_mem (Table.mem_of_get? hchild)) hinner

theorem find? {t : Tree} {p : Path} (h : t.root.WellNamed) (hp : t.find? p = some n) : n.WellNamed := by
  unfold Tree.find? at hp
  split at hp
  · exact h.at? hp
  · cases hp

theorem set_entries (h : n.WellNamed) {child : Node} (hchild : child.WellNamed) {name : String}
    (hname : Path.IsName name) : WellNamed (.folder (n.entries.set name child)) := by
  refine .folder (Table.nodup_keys_set h.nodup_keys name child) (fun entry hentry => ?_) fun entry hentry => ?_
  · rcases Table.mem_set hentry with rfl | hentry
    · exact hname
    · exact h.isName hentry
  · rcases Table.mem_set hentry with rfl | hentry
    · exact hchild
    · exact h.of_mem hentry

/-- What is put into well-named nodes by names, and is well-named itself, leaves them so. -/
theorem put (h : n.WellNamed) {new : Node} (hnew : new.WellNamed) (hnames : ∀ name ∈ names, Path.IsName name) :
    (Node.put new names n).WellNamed := by
  induction names generalizing n with
  | nil => exact hnew
  | cons name names ih =>
    obtain ⟨hname, hnames⟩ := List.forall_mem_cons.1 hnames
    refine h.set_entries (ih ?_ hnames) hname
    cases hget : n.entries.get? name with
    | none => exact .folder (by simp) (List.forall_mem_nil _) (List.forall_mem_nil _)
    | some child => exact h.of_mem (Table.mem_of_get? hget)

/-- Above a well-named node stand names. -/
theorem isName_of_at? (h : n.WellNamed) (hinner : Node.at? names n = some inner) :
    ∀ name ∈ names, Path.IsName name := by
  induction names generalizing n with
  | nil => exact List.forall_mem_nil _
  | cons name names ih =>
    obtain ⟨child, hchild, hinner⟩ := Option.bind_eq_some_iff.1 hinner
    have hmem := Table.mem_of_get? hchild
    exact List.forall_mem_cons.2 ⟨h.isName hmem, ih (h.of_mem hmem) hinner⟩

end Node.WellNamed

namespace Module

variable {rule : ModuleRule} {folder root : Path} {n inner : Node} {m m' : ModuleFile} {names : List String}
  {t : Tree}

theorem Visits.wellNamed (h : Visits n names inner) (hn : n.WellNamed) :
    inner.WellNamed ∧ ∀ name ∈ names, Path.IsName name := by
  induction h with
  | here n => exact ⟨hn, nofun⟩
  | through hentry _ _ ih =>
    obtain ⟨hinner, hnames⟩ := ih (hn.of_mem hentry)
    exact ⟨hinner, List.forall_mem_cons.2 ⟨hn.isName hentry, hnames⟩⟩

/-- A module is found at the end of names of files. -/
theorem Finds.exists_names (h : Finds rule folder n m) (hn : n.WellNamed) : ∃ names,
    m.folder = folder.below names ∧ Path.IsName m.name ∧ ∀ name ∈ names, Path.IsName name := by
  obtain ⟨names, inner, child, hvisits, hfolder, hentry, -⟩ := h
  obtain ⟨hinner, hnames⟩ := hvisits.wellNamed hn
  exact ⟨names, hfolder, hinner.isName hentry, hnames⟩

/-- The path of a module leads through the names of its folders to its own name. -/
theorem exists_path_eq_below (hwell : t.root.WellNamed) (hm : m ∈ discover t rule root) : ∃ names,
    m.folder = root.below names ∧ m.path = root.below (names ++ [m.name]) ∧
      ∀ name ∈ names ++ [m.name], Path.IsName name := by
  obtain ⟨n, hn, -, hfinds⟩ := mem_discover_iff.1 hm
  obtain ⟨names, hfolder, hname, hnames⟩ := hfinds.exists_names (hwell.find? hn)
  refine ⟨names, hfolder, ?_, ?_⟩
  · rw [ModuleFile.path, Path.child_of_isName hname, hfolder, Path.under_below]
  · simpa [or_imp, forall_and] using ⟨hnames, hname⟩

theorem toString_path_inj (hwell : t.root.WellNamed) (hm : m ∈ discover t rule root)
    (hm' : m' ∈ discover t rule root) (heq : m.path.toString = m'.path.toString) : m = m' := by
  obtain ⟨names, hfolder, hpath, hnames⟩ := exists_path_eq_below hwell hm
  obtain ⟨names', hfolder', hpath', hnames'⟩ := exists_path_eq_below hwell hm'
  rw [hpath, hpath'] at heq
  obtain ⟨rfl, hname⟩ := List.append_inj' (Path.toString_below_inj (by simp) (by simp) hnames hnames' heq) rfl
  rcases m with ⟨name, folder⟩
  rcases m' with ⟨name', folder'⟩
  rw [show folder = folder' from hfolder.trans hfolder'.symm,
    show name = name' from List.singleton_inj.1 hname]

/-! ### Where a module stands -/

theorem Visits.at? (h : Visits n names inner) (hn : n.WellNamed) : Node.at? names n = some inner := by
  induction h with
  | here n => rfl
  | through hentry _ _ ih =>
    rw [Node.at?_cons, hn.get?_of_mem hentry]
    exact ih (hn.of_mem hentry)

/-- What stands below a folder that a path leads to is found below that path. -/
theorem find?_below (hfolder : t.find? folder = some n) (hdots : ".." ∉ names)
    (h : Node.at? names n = some inner) : t.find? (folder.below names) = some inner := by
  unfold Tree.find? at hfolder
  split at hfolder
  · next start hstart =>
    have hplace : Node.at? (start ++ names) t.root = some inner := by
      rw [Node.at?_append, hfolder]
      exact h
    have hnames : t.names (folder.below names) = .ok (start ++ names) := by
      have hparts : (t.here.join (folder.below names)).parts = (t.here.join folder).parts ++ names := by
        unfold Path.join Path.below Path.isAbsolute
        split <;> simp
      rw [Tree.names_eq_foldlM] at hstart ⊢
      rw [hparts, List.foldlM_append, hstart]
      exact Tree.foldlM_enter_of_faceAt hdots (by rw [Tree.faceAt, hplace]; rfl)
    rw [Tree.find?, hnames]
    exact hplace
  · cases hfolder

/-- The path of a module leads to a file. -/
theorem exists_find?_path (hwell : t.root.WellNamed) (hm : m ∈ discover t rule root) :
    ∃ content stamp, t.find? m.path = some (.file content stamp) := by
  obtain ⟨n, hn, -, names, inner, child, hvisits, hfolder, hentry, hfile, -⟩ := mem_discover_iff.1 hm
  obtain ⟨hinner, hnames⟩ := hvisits.wellNamed (hwell.find? hn)
  have hname : Path.IsName m.name := hinner.isName hentry
  have hplace : Node.at? (names ++ [m.name]) n = some child := by
    rw [Node.at?_concat (hvisits.at? (hwell.find? hn)), hinner.get?_of_mem hentry]
  have hdots : ".." ∉ names ++ [m.name] := by
    rw [List.mem_append, List.mem_singleton]
    rintro (hmem | hdots)
    · exact (hnames _ hmem).ne_dots rfl
    · exact hname.ne_dots hdots.symm
  have hpath : m.path = root.below (names ++ [m.name]) := by
    rw [ModuleFile.path, Path.child_of_isName hname, hfolder, Path.under_below]
  rw [hpath, find?_below hn hdots hplace]
  cases child with
  | file content stamp => exact ⟨content, stamp, rfl⟩
  | folder contents => cases hfile

/-! ### Every module is found once -/

/-- No module stands in both folders or below them. -/
def Apart (rule : ModuleRule) (a b : Path × Node) : Prop :=
  ∀ m, Finds rule a.1 a.2 m → ¬ Finds rule b.1 b.2 m

theorem nodup_keys_sorted (h : n.WellNamed) : (n.sorted.map (·.1)).Nodup :=
  ((List.mergeSort_perm n.entries _).map _).nodup_iff.2 h.nodup_keys

theorem nodup_inFolder (h : n.WellNamed) : (inFolder rule folder n).Nodup := by
  have hkeys (p : String × Node → Bool) : ((n.sorted.filter p).map (·.1)).Nodup :=
    (nodup_keys_sorted h).sublist (List.filter_sublist.map _)
  have hmap : inFolder rule folder n = ((n.sorted.filter fun entry =>
      entry.2.isFile && rule.accepts entry.1).map (·.1)).map fun name => ⟨name, folder⟩ := by
    rw [List.map_map]
    rfl
  rw [hmap]
  exact (hkeys _).map fun _ _ h => congrArg ModuleFile.name h

theorem ne_folder_of_finds {name : String} (h : Finds rule (folder.under name) n m) : m.folder ≠ folder := by
  obtain ⟨names, inner, child, -, hfolder, -⟩ := h
  intro heq
  have hlength := congrArg (fun p : Path => p.parts.length) (heq.symm.trans hfolder)
  simp [Path.below, Path.under] at hlength

theorem apart_under {a b : Node} {name name' : String} (h : name ≠ name') :
    Apart rule (folder.under name, a) (folder.under name', b) := by
  rintro m ⟨names, -, -, -, hfolder, -⟩ ⟨names', -, -, -, hfolder', -⟩
  have hparts := congrArg Path.parts (hfolder.symm.trans hfolder')
  simp [Path.below, Path.under, h] at hparts

theorem apart_subfolders (h : n.WellNamed) : (subfolders folder n).Pairwise (Apart rule) := by
  have hkeys : (n.sorted.filter isVisited).Pairwise fun a b => a.1 ≠ b.1 :=
    (List.pairwise_map.1 (nodup_keys_sorted h)).filter _
  exact List.pairwise_map.2 (hkeys.imp apart_under)

/-- The folders of a stack that are apart stay so in a step of the walk. -/
theorem apart_step {rest : List (Path × Node)} (hn : n.WellNamed)
    (hapart : ((folder, n) :: rest).Pairwise (Apart rule)) :
    (subfolders folder n ++ rest).Pairwise (Apart rule) := by
  obtain ⟨htop, hrest⟩ := List.pairwise_cons.1 hapart
  refine List.pairwise_append.2 ⟨apart_subfolders hn, hrest, fun sub hsub entry hentry m hfinds => ?_⟩
  exact htop entry hentry m (finds_iff.2 (.inr ⟨sub, hsub, hfinds⟩))

theorem nodup_walk {stack : List (Path × Node)} (hwell : ∀ entry ∈ stack, entry.2.WellNamed)
    (hapart : stack.Pairwise (Apart rule)) : (walk (fun _ => true) rule stack).Nodup := by
  fun_induction walk (fun _ => true) rule stack with
  | case1 => exact .nil
  | case3 folder n rest h => exact absurd rfl h
  | case2 folder n rest _ ih =>
    obtain ⟨hn, hrest⟩ := List.forall_mem_cons.1 hwell
    have hsubs (entry : Path × Node) (hentry : entry ∈ subfolders folder n) : entry.2.WellNamed := by
      obtain ⟨name, hname, -⟩ := mem_subfolders_iff.1 hentry
      exact hn.of_mem hname
    have hwell' : ∀ entry ∈ subfolders folder n ++ rest, entry.2.WellNamed :=
      fun entry hentry => (List.mem_append.1 hentry).elim (hsubs entry) (hrest entry)
    refine List.nodup_append'.2 ⟨nodup_inFolder hn, ih hwell' (apart_step hn hapart), fun m hm hm' => ?_⟩
    -- What stands in the folder itself stands in none of those that are still to be visited.
    obtain ⟨entry, hentry, hfinds⟩ := mem_walk_iff.1 hm'
    rcases List.mem_append.1 hentry with hentry | hentry
    · obtain ⟨name, -, -, hpath⟩ := mem_subfolders_iff.1 hentry
      exact ne_folder_of_finds (hpath ▸ hfinds) (mem_inFolder_iff.1 hm).1
    · exact (List.pairwise_cons.1 hapart).1 entry hentry m (finds_iff.2 (.inl hm)) hfinds

theorem nodup_discover (hwell : t.root.WellNamed) (rule : ModuleRule) (root : Path) :
    (discover t rule root).Nodup := by
  unfold discover discoverWhere
  split
  · next contents hroot =>
    exact nodup_walk (by simpa using hwell.find? hroot) (List.pairwise_singleton _ _)
  · exact .nil

/-- The paths of the modules that are found are written in different ways. -/
theorem nodup_paths_discover (hwell : t.root.WellNamed) (rule : ModuleRule) (root : Path) :
    ((discover t rule root).map (·.path.toString)).Nodup :=
  (nodup_discover hwell rule root).map_on fun _ hm _ hm' => toString_path_inj hwell hm hm'

end Module

end Userscript
