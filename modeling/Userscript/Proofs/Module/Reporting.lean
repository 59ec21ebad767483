import Mathlib.Data.List.Forall2
import Userscript.Proofs.Module.Placement
import Userscript.Proofs.Module.Unique
import Userscript.Proofs.Path.Texts

/-!
# What is reported of modules

The warnings that come with the modules in order account for all that deviates from a plain order: each file
that is dropped, each name that a manifest lists in vain, and each module that it does not list. They do not
depend on the order in which the files were found.

## Main definitions

* `Module.vainWarnings`, `Module.manifestWarnings` — the warnings about a manifest
* `Module.Reported` — warnings account for the files that are dropped and for a manifest

## Main results

* `exists_dropped` — every file is kept, or dropped with a warning
* `warnings_order` — the warnings about a manifest come last
* `ofString_folder_of_mem_discover` — files that are discovered are in folders that have been read
* `order_reports` — files in whatever order are put in the same order with the same warnings
-/

namespace Userscript.Module

variable {files files' : List ModuleFile} {m : ModuleFile}

/-! ### Files that are dropped -/

/-- A file is dropped for a module that has its name. -/
def DroppedFor (modules : List ModuleFile) (dropped : ModuleFile) (w : Warning) : Prop :=
  ∃ kept ∈ modules, kept.name = dropped.name ∧ w = duplicateWarning kept dropped

theorem DroppedFor.mono {modules modules' : List ModuleFile} {w : Warning} (h : DroppedFor modules m w)
    (hsub : modules ⊆ modules') : DroppedFor modules' m w := by
  obtain ⟨kept, hkept, hname, hw⟩ := h
  exact ⟨kept, hsub hkept, hname, hw⟩

/-- The files whose names are taken are dropped, each with a warning, and the others are kept. -/
theorem exists_dropped (taken files : List ModuleFile) : ∃ dropped : List ModuleFile, dropped.Sublist files ∧
    (dropped ++ fresh taken files).Perm files ∧
    List.Forall₂ (DroppedFor (taken ++ fresh taken files)) dropped (duplicateWarnings taken files) := by
  induction files generalizing taken with
  | nil => exact ⟨[], .refl _, .refl _, .nil⟩
  | cons m rest ih =>
    rw [duplicateWarnings]
    split
    · next kept hkept =>
      -- The name is taken, so the file is dropped for the module that has it.
      have hmem : kept ∈ taken := List.mem_of_find?_eq_some hkept
      have hname : kept.name = m.name := by simpa using List.find?_some hkept
      obtain ⟨dropped, hsub, hperm, hwarnings⟩ := ih taken
      rw [fresh_cons_of_mem (List.mem_map.2 ⟨kept, hmem, hname⟩)]
      exact ⟨m :: dropped, hsub.cons_cons m, hperm.cons m,
        .cons ⟨kept, List.mem_append_left _ hmem, hname, rfl⟩ hwarnings⟩
    · next hnone =>
      -- The file is kept, and takes its name from here on.
      have hname : m.name ∉ taken.map (·.name) := by simpa using hnone
      obtain ⟨dropped, hsub, hperm, hwarnings⟩ := ih (taken ++ [m])
      rw [fresh_cons_of_not_mem hname]
      refine ⟨dropped, hsub.cons m, List.perm_middle.trans (hperm.cons m), ?_⟩
      simpa only [List.append_assoc, List.singleton_append] using hwarnings

/-! ### A manifest -/

/-- The warnings about names that a manifest lists in vain: one each time that it lists a name which no file
has, with the modules, by name, that it does not list before. -/
def vainWarnings (files modules : List ModuleFile) (names : List String) : List Warning :=
  (names.zipIdx.filter (·.1 ∉ files.map (·.name))).map fun entry =>
    missingWarning entry.1 (byName (modules.filter (·.name ∉ names.take entry.2)))

/-- The warnings about a manifest: those about names that it lists in vain, and one for each module that it
does not list. -/
def manifestWarnings (files modules : List ModuleFile) : Option Manifest → List Warning
  | none => []
  | some manifest =>
    vainWarnings files modules manifest.names ++ (modules.filter (·.name ∉ manifest.names)).map unlistedWarning

/-- Modules that are put in another order come by name as before. -/
theorem byName_filter_of_perm {modules : List ModuleFile} (hperm : modules.Perm (distinct (byName files)))
    (p : ModuleFile → Bool) : byName (modules.filter p) = (distinct (byName files)).filter p := by
  have hsorted : ((distinct (byName files)).filter p).Pairwise fun a b => comesFirst a b :=
    (pairwise_byName files).sublist (List.filter_sublist.trans (distinct_sublist _))
  -- No two of them have one name.
  have hinj : ∀ m ∈ modules.filter p, ∀ m' ∈ modules.filter p, m.name = m'.name →
      m.folder.toString = m'.folder.toString → m = m' := by
    intro m hm m' hm' hname _
    have hmem {m : ModuleFile} (hm : m ∈ modules.filter p) : m ∈ distinct (byName files) :=
      hperm.mem_iff.1 (List.mem_of_mem_filter hm)
    exact List.inj_on_of_nodup_map (nodup_names_distinct _) (hmem hm) (hmem hm') hname
  rw [byName_eq_of_perm (hperm.filter p) hinj, byName_eq, List.mergeSort_of_pairwise hsorted]

/-- What a manifest does not list stands last in the order. -/
theorem filter_order_of_not_listed (files : List ModuleFile) (manifest : Manifest) (entry : String) :
    (order files (some manifest) entry).1.filter (·.name ∉ manifest.names) =
      (listed manifest.names (distinct (byName files))).rest := by
  have hlisted : ∀ m ∈ (listed manifest.names (distinct (byName files))).modules, m.name ∈ manifest.names := by
    intro m hm
    have hname := List.mem_map_of_mem (f := fun m : ModuleFile => m.name) hm
    rw [names_listed] at hname
    exact List.mem_eraseDups.1 (List.mem_of_mem_filter hname)
  rw [order, List.filter_append, List.filter_eq_nil_iff.2 (by simpa using hlisted), rest_listed,
    List.filter_filter]
  simp

/-- The warnings about the manifest come behind those about files that are dropped. -/
theorem warnings_order (files : List ModuleFile) (manifest : Option Manifest) (entry : String) :
    (order files manifest entry).2 = duplicateWarnings [] (byName files) ++
      manifestWarnings files (order files manifest entry).1 manifest := by
  cases manifest with
  | none => simp [order, manifestWarnings]
  | some manifest =>
    have hvain : vainWarnings files (order files (some manifest) entry).1 manifest.names =
        (listed manifest.names (distinct (byName files))).warnings := by
      rw [warnings_listed, vainWarnings]
      have hnames : (fun entry : String × Nat => decide (entry.1 ∉ files.map (·.name))) =
          fun entry => decide (entry.1 ∉ (distinct (byName files)).map (·.name)) := by
        funext entry
        rw [Bool.eq_iff_iff, decide_eq_true_iff, decide_eq_true_iff, name_mem_known_iff]
      rw [hnames]
      simp only [byName_filter_of_perm (perm_order files (some manifest) entry)]
    rw [manifestWarnings, hvain, filter_order_of_not_listed, ← List.append_assoc]
    rfl

/-! ### Modules in order -/

/-- Warnings account for files of which some are kept as modules: for each file that is dropped, by name and
folder, they name its path and the module in its place, and behind that they are about the manifest. -/
structure Reported (files : List ModuleFile) (manifest : Option Manifest) (modules dropped : List ModuleFile)
    (warnings : List Warning) : Prop where
  perm : (dropped ++ modules).Perm files
  sorted : dropped.Pairwise fun a b => comesFirst a b
  warnings_eq : ∃ duplicates, List.Forall₂ (DroppedFor modules) dropped duplicates ∧
    warnings = duplicates ++ manifestWarnings files modules manifest

theorem exists_reported (files : List ModuleFile) (manifest : Option Manifest) (entry : String) :
    ∃ dropped, Reported files manifest (order files manifest entry).1 dropped (order files manifest entry).2 := by
  obtain ⟨dropped, hsub, hperm, hwarnings⟩ := exists_dropped [] (byName files)
  rw [fresh_nil] at hperm hwarnings
  have hkept := perm_order files manifest entry
  refine ⟨dropped, ?_, (pairwise_byName files).sublist hsub, _, ?_, warnings_order files manifest entry⟩
  · exact (hkept.append_left dropped).trans (hperm.trans (perm_byName files))
  · exact hwarnings.imp fun _ _ h => h.mono hkept.symm.subset

/-- Below a folder that has been read, files are discovered in such folders only. -/
theorem ofString_folder_of_mem_discover {t : Tree} {rule : ModuleRule} {root : Path} (hwell : t.root.WellNamed)
    (hroot : ∀ part ∈ root.parts, Path.IsPart part) (hm : m ∈ discover t rule root) :
    Path.ofString m.folder.toString = m.folder := by
  obtain ⟨names, hfolder, -, hnames⟩ := exists_path_eq_below hwell hm
  rw [hfolder]
  apply Path.ofString_toString
  intro part hpart
  rcases List.mem_append.1 hpart with hpart | hpart
  · exact hroot part hpart
  · exact (hnames part (List.mem_append_left _ hpart)).isPart

/-- Files in folders that have been read are put in the same order and reported in the same way, in whatever
order they are found: each one that is dropped, each name that a manifest lists in vain, and each module that
it does not list. -/
theorem order_reports (hread : ∀ f ∈ files, Path.ofString f.folder.toString = f.folder)
    (hperm : files.Perm files') (manifest : Option Manifest) (entry : String) :
    order files' manifest entry = order files manifest entry ∧
      ∃ dropped, Reported files manifest (order files manifest entry).1 dropped (order files manifest entry).2 := by
  have hinj : ∀ m ∈ files, ∀ m' ∈ files, m.name = m'.name → m.folder.toString = m'.folder.toString → m = m' := by
    intro m hm m' hm' hname htext
    have hfolder : m.folder = m'.folder := by rw [← hread m hm, htext, hread m' hm']
    cases m
    cases m'
    exact congrArg₂ _ hname hfolder
  exact ⟨(order_eq_of_perm hperm hinj manifest entry).symm, exists_reported files manifest entry⟩

/-- Three files have one name, and a manifest lists it twice, and another one in vain before and behind it. -/
theorem order_reports_repeated :
    let file (folder : String) (name : String) : ModuleFile := ⟨name, Path.ofString folder⟩
    let files := [file "/p/src/z" "b.js", file "/p/src" "main.js", file "/p/src/a" "b.js", file "/p/src/m" "b.js"]
    let files' := [file "/p/src/m" "b.js", file "/p/src/z" "b.js", file "/p/src/a" "b.js", file "/p/src" "main.js"]
    let manifest : Manifest := { names := ["gone.js", "b.js", "gone.js", "b.js"] }
    (∀ f ∈ files, Path.ofString f.folder.toString = f.folder) ∧ files.Perm files' ∧
      order files' (some manifest) "main.js" = order files (some manifest) "main.js" ∧
      ∃ dropped, Reported files (some manifest) (order files (some manifest) "main.js").1 dropped
        (order files (some manifest) "main.js").2 := by
  intro file files files' manifest
  have hread : ∀ f ∈ files, Path.ofString f.folder.toString = f.folder := by decide +kernel
  have hperm : files.Perm files' := by decide +kernel
  exact ⟨hread, hperm, order_reports hread hperm (some manifest) "main.js"⟩

end Userscript.Module
