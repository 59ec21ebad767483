import Userscript.Proofs.Module.Ordering
import Userscript.Proofs.Module.Unique
import Userscript.Proofs.Reading
import Userscript.Proofs.Tree.Alike

/-!
# The modules of trees that are alike

Trees that are alike but for some places have the same modules in the same order, with the same texts, if
none of the places is one that modules are looked for in.

## Main definitions

* `Settings.ReadsBesides` — what is read of a project stands in none of some places

## Main results

* `arranged_eq` — the modules in order are the same
* `readText_eq` — the texts of the modules are the same
-/

namespace Userscript

variable {s : Settings} {t t' : Tree} {stale : List String → Prop} {start names : List String}

/-- What is read of the modules of a project stands in none of some places. The folder of the modules is
the usual one. -/
structure Settings.ReadsBesides (s : Settings) (stale : List String → Prop) : Prop where
  sourceDir : s.sourceDir = none
  source : s.usualSource.ClearOf stale
  inside : ∀ names, ¬ stale (s.usualSource.parts ++ names)
  manifests : ∀ p ∈ s.manifestPaths, p.ClearOf stale

namespace Settings.ReadsBesides

theorem below (h : s.ReadsBesides stale) (hdots : ".." ∉ names) : (s.usualSource.below names).ClearOf stale where
  absolute := h.source.absolute
  dots_not_mem := by simpa [Path.below] using ⟨h.source.dots_not_mem, hdots⟩
  not_stale other hother := by
    -- A prefix ends in the source folder or on the way to it.
    rcases List.prefix_or_prefix_of_prefix hother (List.prefix_append _ names) with hother | ⟨rest, rfl⟩
    · exact h.source.not_stale other hother
    · exact h.inside rest

theorem sourceRoot_eq (h : s.ReadsBesides stale) (hsource : t.hasFolder s.usualSource) :
    s.sourceRoot t = s.usualSource := by
  rw [Settings.sourceRoot, h.sourceDir]
  exact if_pos hsource

end Settings.ReadsBesides

namespace Manifest

theorem ofFile_eq (h : t.Alike stale t') {p : Path} (hp : p.ClearOf stale) : ofFile t' p = ofFile t p := by
  unfold ofFile
  rw [h.hasFile_eq hp, h.readText_eq hp]

theorem first_eq (h : t.Alike stale t') {paths : List Path} (hpaths : ∀ p ∈ paths, p.ClearOf stale) :
    first t' paths = first t paths := by
  induction paths with
  | nil => rfl
  | cons p paths ih =>
    rw [List.forall_mem_cons] at hpaths
    rw [first, first, ofFile_eq h hpaths.1, ih hpaths.2]

end Manifest

namespace Module

variable {rule : ModuleRule} {n n' inner : Node} {m m' : ModuleFile} {folder : Path}

/-! ### Finding modules -/

/-- The folders that are visited in a tree are visited in any that is alike. -/
theorem Visits.exists_visits (h : t.Alike stale t') (hvisits : Visits n names inner) (hn : n.WellNamed)
    (hstart : Node.at? start t.root = some n) (hstart' : Node.at? start t'.root = some n') :
    ∃ inner', Visits n' names inner' ∧ Node.at? (start ++ names) t'.root = some inner' := by
  induction hvisits generalizing start n' with
  | here n => exact ⟨n', .here n', by rw [List.append_nil, hstart']⟩
  | @through n child inner name names hentry hvisited _ ih =>
    have hchild : Node.at? (start ++ [name]) t.root = some child := by
      rw [Node.at?_concat hstart, hn.get?_of_mem hentry]
    obtain ⟨hfolder, hskipped⟩ := Bool.and_eq_true_iff.1 hvisited
    obtain ⟨contents', hchild'⟩ := h.exists_folder hchild hfolder
    obtain ⟨inner', hvisits', hinner'⟩ := ih (hn.of_mem hentry) hchild hchild'
    have hentry' : (name, Node.folder contents') ∈ n'.entries :=
      Table.mem_of_get? ((Node.at?_concat hstart' name).symm.trans hchild')
    refine ⟨inner', .through hentry' (Bool.and_eq_true_iff.2 ⟨rfl, hskipped⟩) hvisits', ?_⟩
    rw [← hinner', List.append_assoc, List.singleton_append]

/-- A module that is found in a tree is found in any that is alike, if it does not stand in one of the
places. -/
theorem mem_discover_of_alike (h : t.Alike stale t') (hwell : t.root.WellNamed) (hfolder : folder.ClearOf stale)
    (hinside : ∀ names, ¬ stale (folder.parts ++ names)) (hm : m ∈ discover t rule folder) :
    m ∈ discover t' rule folder := by
  obtain ⟨n, hn, hnfolder, names, inner, child, hvisits, hbelow, hentry, hfile, haccepts⟩ := mem_discover_iff.1 hm
  have hnode := (Tree.find?_eq_some_iff hfolder.absolute hfolder.dots_not_mem).1 hn
  obtain ⟨contents', hnode'⟩ := h.exists_folder hnode hnfolder
  -- The folder of the module is visited in both trees.
  obtain ⟨inner', hvisits', hinner'⟩ := hvisits.exists_visits h (hwell.at? hnode) hnode hnode'
  have hinner : Node.at? (folder.parts ++ names) t.root = some inner := by
    rw [Node.at?_append, hnode]
    exact hvisits.at? (hwell.at? hnode)
  -- Its file stands in both.
  have hchild : Node.at? (folder.parts ++ names ++ [m.name]) t.root = some child := by
    rw [Node.at?_concat hinner, (hvisits.wellNamed (hwell.at? hnode)).1.get?_of_mem hentry]
  obtain ⟨content, stamp, hchild'⟩ := h.exists_file hchild hfile (List.append_assoc _ _ _ ▸ hinside _)
  have hentry' := (Node.at?_concat hinner' m.name).symm.trans hchild'
  exact mem_discover_iff.2 ⟨_, (Tree.find?_eq_some_iff hfolder.absolute hfolder.dots_not_mem).2 hnode', rfl, names,
    inner', _, hvisits', hbelow, Table.mem_of_get? hentry', rfl, haccepts⟩

/-- The same modules are found in trees that are alike, in some order. -/
theorem perm_discover_of_alike (h : t.Alike stale t') (hwell : t.root.WellNamed) (hwell' : t'.root.WellNamed)
    (hfolder : folder.ClearOf stale) (hinside : ∀ names, ¬ stale (folder.parts ++ names)) (rule : ModuleRule) :
    (discover t' rule folder).Perm (discover t rule folder) := by
  refine (List.perm_ext_iff_of_nodup (nodup_discover hwell' _ _) (nodup_discover hwell _ _)).2 fun m => ?_
  exact ⟨mem_discover_of_alike h.symm hwell' hfolder hinside, mem_discover_of_alike h hwell hfolder hinside⟩

/-- In a folder that is not at the top, modules of one name are told apart by the texts of their folders. -/
theorem eq_of_toString_folder {name : String} (hwell : t.root.WellNamed) (hname : Path.IsName name)
    (hm : m ∈ discover t rule (folder.under name)) (hm' : m' ∈ discover t rule (folder.under name))
    (heq : m.name = m'.name) (hfolder : m.folder.toString = m'.folder.toString) : m = m' := by
  obtain ⟨names, hbelow, -, hnames⟩ := exists_path_eq_below hwell hm
  obtain ⟨names', hbelow', -, hnames'⟩ := exists_path_eq_below hwell hm'
  have hall {names : List String} {last : String} (h : ∀ other ∈ names ++ [last], Path.IsName other) :
      ∀ other ∈ name :: names, Path.IsName other :=
    List.forall_mem_cons.2 ⟨hname, fun other hother => h other (List.mem_append_left _ hother)⟩
  rw [← Path.below_cons] at hbelow hbelow'
  rw [hbelow, hbelow'] at hfolder
  have hlists := Path.toString_below_inj (by simp) (by simp) (hall hnames) (hall hnames') hfolder
  rcases m with ⟨own, at_⟩
  rcases m' with ⟨own', at'⟩
  dsimp only at heq hbelow hbelow'
  rw [heq, hbelow, hbelow', hlists]

/-! ### The modules of a project -/

section ReadsBesides

variable (h : t.Alike stale t') (hreads : s.ReadsBesides stale) (hwell : t.root.WellNamed)
  (hwell' : t'.root.WellNamed) (hsource : t.hasFolder s.usualSource)

include h hreads

theorem manifestOf_eq : manifestOf s t' = manifestOf s t := by
  rw [manifestOf, manifestOf, Manifest.first_eq h hreads.manifests]

include hsource

theorem sourceRoot_eq : s.sourceRoot t' = s.sourceRoot t := by
  rw [hreads.sourceRoot_eq hsource, hreads.sourceRoot_eq]
  rwa [h.hasFolder_eq hreads.source]

include hwell

/-- The texts of the modules are the same in trees that are alike. -/
theorem readText_eq (hm : m ∈ files s t) : t'.readText m.path = t.readText m.path := by
  rw [files, hreads.sourceRoot_eq hsource] at hm
  obtain ⟨names, -, hpath, hnames⟩ := exists_path_eq_below hwell hm
  have hdots : ".." ∉ names ++ [m.name] := fun hmem => (hnames _ hmem).ne_dots rfl
  rw [hpath]
  exact h.readText_eq (hreads.below hdots)

include hwell'

theorem perm_files : (files s t').Perm (files s t) := by
  rw [files, files, sourceRoot_eq h hreads hsource, hreads.sourceRoot_eq hsource]
  exact perm_discover_of_alike h hwell hwell' hreads.source hreads.inside _

/-- The modules of trees that are alike come in the same order, with the same warnings. -/
theorem arranged_eq : arranged s t' = arranged s t := by
  have hname : Path.IsName "src" := by decide
  have hfiles : files s t = discover t s.moduleRule (s.root.under "src") := by
    rw [files, hreads.sourceRoot_eq hsource, Settings.usualSource, Path.child_of_isName hname]
  have horder (manifest : Option Manifest) :
      order (files s t') manifest s.entry = order (files s t) manifest s.entry := by
    refine (order_eq_of_perm (perm_files h hreads hwell hwell' hsource).symm ?_ manifest s.entry).symm
    intro m hm m' hm'
    rw [hfiles] at hm hm'
    exact eq_of_toString_folder hwell hname hm hm'
  simp only [arranged, manifestOf_eq h hreads, horder]

end ReadsBesides

end Module

end Userscript
