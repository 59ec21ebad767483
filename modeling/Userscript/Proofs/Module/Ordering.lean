import Mathlib.Data.List.Nodup
import Userscript.Module.Order

/-!
# What the order of modules keeps

Putting modules in order keeps one of each name. Each of the others is dropped with one warning about
its path, and nothing else is lost or added.

## Main definitions

* `Module.fresh` — the first module of each name that is not taken yet
* `Listed.Accounts` — what a manifest has listed and what is left are the modules

* `Module.comesFirst` — the order by name

## Main results

* `perm_duplicateWarnings` — a module is kept, or dropped with a warning
* `accounts_listed` — a manifest neither loses nor adds modules
* `perm_order` — the modules in order are those that are kept
* `order_eq_of_perm` — the order in which modules are found does not matter
-/

namespace Userscript.Module

variable {files known taken : List ModuleFile} {manifest : Option Manifest} {m : ModuleFile} {w : Warning}

theorem perm_byName (files : List ModuleFile) : (byName files).Perm files := List.mergeSort_perm files _

theorem distinct_sublist (files : List ModuleFile) : (distinct files).Sublist files := by
  induction files with
  | nil => exact .refl _
  | cons m rest ih => exact (List.filter_sublist.trans ih).cons_cons m

theorem nodup_names_distinct (files : List ModuleFile) : ((distinct files).map (·.name)).Nodup := by
  induction files with
  | nil => exact .nil
  | cons m rest ih =>
    refine List.nodup_cons.2 ⟨?_, ih.sublist (List.filter_sublist.map _)⟩
    simp

/-! ### Modules that are dropped -/

theorem kind_of_mem_duplicateWarnings (h : w ∈ duplicateWarnings taken files) : w.kind = .duplicate := by
  induction files generalizing taken with
  | nil => cases h
  | cons m rest ih =>
    rw [duplicateWarnings] at h
    split at h
    · rcases List.mem_cons.1 h with rfl | h
      · rfl
      · exact ih h
    · exact ih h

/-- The first module of each name that is not taken yet. -/
def fresh (taken files : List ModuleFile) : List ModuleFile :=
  (distinct files).filter fun m => m.name ∉ taken.map (·.name)

theorem fresh_nil (files : List ModuleFile) : fresh [] files = distinct files := by
  simp [fresh]

theorem fresh_cons_of_mem {rest : List ModuleFile} (h : m.name ∈ taken.map (·.name)) :
    fresh taken (m :: rest) = fresh taken rest := by
  rw [fresh, distinct, List.filter_cons_of_neg (by simpa using h), List.filter_filter, fresh]
  refine List.filter_congr fun other _ => ?_
  -- A name that is not taken is not that of `m`.
  by_cases hname : other.name = m.name
  · rw [hname]
    simp only [h, not_true_eq_false, decide_false, Bool.false_and]
  · simp [hname]

theorem fresh_cons_of_not_mem {rest : List ModuleFile} (h : m.name ∉ taken.map (·.name)) :
    fresh taken (m :: rest) = m :: fresh (taken ++ [m]) rest := by
  rw [fresh, distinct, List.filter_cons_of_pos (by simpa using h), List.filter_filter, fresh]
  refine congrArg (m :: ·) (List.filter_congr fun other _ => ?_)
  rw [List.map_append, Bool.eq_iff_iff]
  simp

/-- A module is dropped with a warning about its path, or it is kept. -/
theorem perm_duplicateWarnings (taken files : List ModuleFile) :
    ((duplicateWarnings taken files).map (·.subject) ++ (fresh taken files).map (·.path.toString)).Perm
      (files.map (·.path.toString)) := by
  induction files generalizing taken with
  | nil => exact .refl _
  | cons m rest ih =>
    rw [duplicateWarnings]
    split
    · next kept hkept =>
      have hname : m.name ∈ taken.map (·.name) :=
        List.mem_map.2 ⟨kept, List.mem_of_find?_eq_some hkept, by simpa using List.find?_some hkept⟩
      rw [fresh_cons_of_mem hname]
      exact (ih taken).cons _
    · next hnone =>
      have hname : m.name ∉ taken.map (·.name) := by simpa using hnone
      rw [fresh_cons_of_not_mem hname]
      exact List.perm_middle.trans ((ih (taken ++ [m])).cons _)

/-! ### Modules in order -/

theorem perm_cons_filter_name (hnodup : (known.map (·.name)).Nodup) (hm : m ∈ known) :
    (m :: known.filter (·.name ≠ m.name)).Perm known := by
  induction known with
  | nil => cases hm
  | cons first rest ih =>
    obtain ⟨hfirst, hrest⟩ := List.nodup_cons.1 hnodup
    rcases List.mem_cons.1 hm with rfl | hm
    · rw [List.filter_cons_of_neg (by simp), List.filter_eq_self.2]
      intro other hother
      have hne : other.name ≠ m.name := fun heq => hfirst (List.mem_map.2 ⟨other, hother, heq⟩)
      simpa using hne
    · have hne : first.name ≠ m.name := fun heq => hfirst (List.mem_map.2 ⟨m, hm, heq.symm⟩)
      rw [List.filter_cons_of_pos (by simpa using hne)]
      exact (List.Perm.swap _ _ _).trans ((ih hrest hm).cons _)

/-- What a manifest has listed so far and what is left are the modules, each once. -/
structure Listed.Accounts (known : List ModuleFile) (l : Listed) : Prop where
  perm : (l.modules ++ l.rest).Perm known
  nodup : (l.rest.map (·.name)).Nodup
  kind : ∀ w ∈ l.warnings, w.kind = .missing

theorem Listed.Accounts.add {l : Listed} (h : l.Accounts known) (name : String) :
    (l.add known name).Accounts known := by
  unfold Listed.add
  split
  · next m hm =>
    obtain rfl : m.name = name := by simpa using List.find?_some hm
    refine ⟨?_, h.nodup.sublist (List.filter_sublist.map _), h.kind⟩
    rw [List.append_assoc]
    exact ((perm_cons_filter_name h.nodup (List.mem_of_find?_eq_some hm)).append_left _).trans h.perm
  · split
    · exact h
    · refine ⟨h.perm, h.nodup, fun w hw => ?_⟩
      rcases List.mem_append.1 hw with hw | hw
      · exact h.kind w hw
      · rw [List.mem_singleton.1 hw]
        rfl

theorem accounts_listed (hnodup : (known.map (·.name)).Nodup) (names : List String) :
    (listed names known).Accounts known := by
  have hfold (l : Listed) (h : l.Accounts known) : (names.foldl (Listed.add known) l).Accounts known := by
    induction names generalizing l with
    | nil => exact h
    | cons name names ih => exact ih _ (h.add name)
  exact hfold _ ⟨.refl _, hnodup, nofun⟩

theorem perm_entryFirst (entry : String) (known : List ModuleFile) : (entryFirst entry known).Perm known := by
  have hperm := List.filter_append_perm (fun m : ModuleFile => decide (m.name = entry)) known
  simpa [entryFirst] using hperm

/-- The modules in order are those that are kept. -/
theorem perm_order (files : List ModuleFile) (manifest : Option Manifest) (entry : String) :
    (order files manifest entry).1.Perm (distinct (byName files)) := by
  cases manifest with
  | none => exact perm_entryFirst _ _
  | some manifest => exact (accounts_listed (nodup_names_distinct _) manifest.names).perm

/-- The warnings about the modules that are dropped come first, and the others are about the manifest. -/
theorem exists_warnings_order (files : List ModuleFile) (manifest : Option Manifest) (entry : String) :
    ∃ others, (order files manifest entry).2 = duplicateWarnings [] (byName files) ++ others ∧
      ∀ w ∈ others, w.kind = .missing ∨ w.kind = .unlisted := by
  cases manifest with
  | none => exact ⟨[], by simp [order], nofun⟩
  | some manifest =>
    refine ⟨_, List.append_assoc _ _ _, fun w hw => ?_⟩
    rcases List.mem_append.1 hw with hw | hw
    · exact .inl ((accounts_listed (nodup_names_distinct _) manifest.names).kind w hw)
    · obtain ⟨m, -, rfl⟩ := List.mem_map.1 hw
      exact .inr rfl

theorem nodup_names_order (files : List ModuleFile) (manifest : Option Manifest) (entry : String) :
    ((order files manifest entry).1.map (·.name)).Nodup :=
  ((perm_order files manifest entry).map _).nodup_iff.2 (nodup_names_distinct _)

/-- A name is in the order if a file has it. -/
theorem name_mem_order_iff {name entry : String} :
    name ∈ (order files manifest entry).1.map (·.name) ↔ name ∈ files.map (·.name) := by
  rw [((perm_order files manifest entry).map _).mem_iff, name_mem_distinct_iff,
    ((perm_byName files).map _).mem_iff]

theorem mem_of_mem_order {entry : String} (h : m ∈ (order files manifest entry).1) : m ∈ files :=
  (perm_byName files).mem_iff.1 ((distinct_sublist _).subset ((perm_order files manifest entry).mem_iff.1 h))

/-- Every file is dropped with a warning about its path, or it is in the order. -/
theorem perm_warnings_order (files : List ModuleFile) (manifest : Option Manifest) (entry : String) :
    ((duplicateWarnings [] (byName files)).map (·.subject) ++
      (order files manifest entry).1.map (·.path.toString)).Perm (files.map (·.path.toString)) := by
  have hdropped := perm_duplicateWarnings [] (byName files)
  rw [fresh_nil] at hdropped
  exact (((perm_order files manifest entry).map _).append_left _).trans
    (hdropped.trans ((perm_byName files).map _))

/-! ### The order by name -/

/-- In the order by name, a module comes before another or with it. -/
def comesFirst (a b : ModuleFile) : Bool :=
  decide (a.name < b.name) || (a.name == b.name && decide (a.folder.toString ≤ b.folder.toString))

theorem comesFirst_iff {a b : ModuleFile} : comesFirst a b ↔
    a.name < b.name ∨ a.name = b.name ∧ a.folder.toString ≤ b.folder.toString := by
  simp [comesFirst]

theorem comesFirst_trans {a b c : ModuleFile} (h : comesFirst a b) (h' : comesFirst b c) :
    comesFirst a c := by
  rw [comesFirst_iff] at *
  rcases h with h | ⟨hname, h⟩ <;> rcases h' with h' | ⟨hname', h'⟩
  · exact .inl (String.lt_trans h h')
  · exact .inl (hname' ▸ h)
  · exact .inl (hname ▸ h')
  · exact .inr ⟨hname.trans hname', String.le_trans h h'⟩

theorem comesFirst_total (a b : ModuleFile) : comesFirst a b || comesFirst b a := by
  rw [Bool.or_eq_true, comesFirst_iff, comesFirst_iff]
  by_cases hlt : a.name < b.name
  · exact .inl (.inl hlt)
  by_cases hgt : b.name < a.name
  · exact .inr (.inl hgt)
  have hname : a.name = b.name := String.le_antisymm (String.not_lt.1 hgt) (String.not_lt.1 hlt)
  exact (String.le_total a.folder.toString b.folder.toString).imp (.inr ⟨hname, ·⟩) (.inr ⟨hname.symm, ·⟩)

theorem byName_eq (files : List ModuleFile) : byName files = files.mergeSort comesFirst := rfl

theorem pairwise_byName (files : List ModuleFile) : (byName files).Pairwise fun a b => comesFirst a b := by
  rw [byName_eq]
  exact @List.pairwise_mergeSort _ comesFirst (fun _ _ _ => comesFirst_trans) comesFirst_total files

/-- The order by name does not depend on the order in which modules are found, if no two have the same name
in folders of the same text. -/
theorem byName_eq_of_perm {files' : List ModuleFile} (hperm : files.Perm files')
    (hinj : ∀ m ∈ files, ∀ m' ∈ files, m.name = m'.name → m.folder.toString = m'.folder.toString → m = m') :
    byName files = byName files' := by
  have hmem {m : ModuleFile} (hm : m ∈ byName files) : m ∈ files := (perm_byName files).mem_iff.1 hm
  have hmem' {m : ModuleFile} (hm : m ∈ byName files') : m ∈ files :=
    hperm.mem_iff.2 ((perm_byName files').mem_iff.1 hm)
  have hperm' : (byName files).Perm (byName files') :=
    (perm_byName files).trans (hperm.trans (perm_byName files').symm)
  refine hperm'.eq_of_pairwise (fun a b ha hb hab hba => ?_) (pairwise_byName files) (pairwise_byName files')
  rw [comesFirst_iff] at hab hba
  rcases hab with hab | ⟨hname, hab⟩ <;> rcases hba with hba | ⟨hname', hba⟩
  · exact absurd (String.lt_trans hab hba) (String.lt_irrefl a.name)
  · exact absurd (hname' ▸ hab) (String.lt_irrefl a.name)
  · exact absurd (hname ▸ hba) (String.lt_irrefl a.name)
  · exact hinj a (hmem ha) b (hmem' hb) hname (String.le_antisymm hab hba)

theorem order_eq_of_perm {files' : List ModuleFile} (hperm : files.Perm files')
    (hinj : ∀ m ∈ files, ∀ m' ∈ files, m.name = m'.name → m.folder.toString = m'.folder.toString → m = m')
    (manifest : Option Manifest) (entry : String) : order files manifest entry = order files' manifest entry := by
  simp only [order, byName_eq_of_perm hperm hinj]

end Userscript.Module
