import Userscript.Proofs.Module.Ordering
import Userscript.Review

/-!
# What a manifest says of modules

A manifest lists a name in vain if no module has it, and says so as often as the name stands there. The
modules that it does not list are left, by name.

## Main results

* `warnings_listed`, `subjects_listed` — the warnings about names that are listed in vain, and these names
* `rest_listed` — the modules that are left
* `missingFrom_eq` — the names that are left, as a review finds them
-/

namespace Userscript.Module

variable {files known : List ModuleFile} {names : List String} {l : Listed}

/-! ### One name -/

theorem Listed.rest_add (known : List ModuleFile) (l : Listed) (name : String) :
    (l.add known name).rest = l.rest.filter (·.name ≠ name) := by
  unfold Listed.add
  split
  · rfl
  · next hnone =>
    have hall : l.rest.filter (·.name ≠ name) = l.rest := List.filter_eq_self.2 (by simpa using hnone)
    split <;> exact hall.symm

theorem Listed.warnings_add (hrest : l.rest ⊆ known) (name : String) : (l.add known name).warnings =
    l.warnings ++ if name ∈ known.map (·.name) then [] else [missingWarning name l.rest] := by
  unfold Listed.add
  split
  · next m hm =>
    have hname : name ∈ known.map (·.name) :=
      List.mem_map.2 ⟨m, hrest (List.mem_of_find?_eq_some hm), by simpa using List.find?_some hm⟩
    rw [if_pos hname, List.append_nil]
  · split
    · next hknown =>
      have hname : name ∈ known.map (·.name) := by simpa using hknown
      rw [if_pos hname, List.append_nil]
    · next hknown =>
      have hname : name ∉ known.map (·.name) := by simpa using hknown
      rw [if_neg hname]

/-! ### All names -/

/-- The modules that a manifest leaves are those that it does not list. -/
theorem rest_listed (names : List String) (known : List ModuleFile) :
    (listed names known).rest = known.filter (·.name ∉ names) := by
  have hfold (l : Listed) : (names.foldl (Listed.add known) l).rest = l.rest.filter (·.name ∉ names) := by
    induction names generalizing l with
    | nil => simp
    | cons name names ih =>
      rw [List.foldl_cons, ih, Listed.rest_add, List.filter_filter]
      refine List.filter_congr fun m _ => ?_
      by_cases hname : m.name = name <;> simp [hname]
  exact hfold _

/-- Each name that a manifest lists in vain comes with the modules that it has not listed before. -/
theorem warnings_listed (names : List String) (known : List ModuleFile) : (listed names known).warnings =
    (names.zipIdx.filter (·.1 ∉ known.map (·.name))).map fun entry =>
      missingWarning entry.1 (known.filter (·.name ∉ names.take entry.2)) := by
  -- The modules that are left are among those that there are, and a name takes away those that have it.
  have hfold (l : Listed) (hrest : l.rest ⊆ known) : (names.foldl (Listed.add known) l).warnings =
      l.warnings ++ (names.zipIdx.filter (·.1 ∉ known.map (·.name))).map fun entry =>
        missingWarning entry.1 (l.rest.filter (·.name ∉ names.take entry.2)) := by
    induction names generalizing l with
    | nil => simp
    | cons name names ih =>
      have hrest' : (l.add known name).rest ⊆ known := by
        rw [Listed.rest_add]
        exact fun m hm => hrest (List.mem_of_mem_filter hm)
      have hleft (i : Nat) : (l.add known name).rest.filter (·.name ∉ names.take i) =
          l.rest.filter (·.name ∉ (name :: names).take (i + 1)) := by
        rw [Listed.rest_add, List.filter_filter, List.take_succ_cons]
        refine List.filter_congr fun m _ => ?_
        by_cases hname : m.name = name <;> simp [hname]
      rw [List.foldl_cons, ih _ hrest', Listed.warnings_add hrest, List.append_assoc, List.zipIdx_cons',
        List.filter_cons, List.filter_map]
      simp only [hleft]
      by_cases hname : name ∈ known.map (·.name)
      · rw [if_pos hname, if_neg (by simpa using hname), List.map_map]
        rfl
      · have hall : l.rest.filter (·.name ∉ (name :: names).take 0) = l.rest := by simp
        rw [if_neg hname, if_pos (by simpa using hname), List.map_cons, List.map_map, hall]
        rfl
  exact hfold { rest := known } (List.Subset.refl known)

/-- A manifest lists a name in vain each time that it lists one that no module has. -/
theorem subjects_listed (names : List String) (known : List ModuleFile) :
    (listed names known).warnings.map (·.subject) = names.filter (· ∉ known.map (·.name)) := by
  have hnames := List.filter_map (f := Prod.fst) (p := fun name => decide (name ∉ known.map (·.name)))
    (l := names.zipIdx)
  rw [List.zipIdx_map_fst] at hnames
  rw [warnings_listed, List.map_map, hnames]
  rfl

/-! ### The modules that are left, by name -/

theorem nodup_eraseDups (names : List String) : names.eraseDups.Nodup := by
  cases names with
  | nil => simp
  | cons name names =>
    rw [List.eraseDups_cons, List.nodup_cons]
    exact ⟨by simp, nodup_eraseDups _⟩
termination_by names.length
decreasing_by
  have hle := List.length_filter_le (fun other => !other == name) names
  simp only [List.length_cons]
  omega

/-- The names of modules by name are in order. -/
theorem pairwise_names_distinct (files : List ModuleFile) :
    ((distinct (byName files)).map (·.name)).Pairwise (· ≤ ·) := by
  refine List.pairwise_map.2 (((pairwise_byName files).sublist (distinct_sublist _)).imp fun {a b} hab => ?_)
  rcases comesFirst_iff.1 hab with hlt | ⟨heq, -⟩
  · exact String.not_lt.1 fun hgt => String.lt_irrefl _ (String.lt_trans hlt hgt)
  · exact heq ▸ String.le_refl _

theorem name_mem_known_iff {name : String} :
    name ∈ (distinct (byName files)).map (·.name) ↔ name ∈ files.map (·.name) := by
  rw [name_mem_distinct_iff, ((perm_byName files).map _).mem_iff]

/-- The names of files that are not among some names, each once and in order, are those of the modules that
a manifest of these names leaves. -/
theorem missingFrom_eq (names : List String) (files : List ModuleFile) :
    Review.missingFrom names (files.map (·.name)) =
      ((distinct (byName files)).filter (·.name ∉ names)).map (·.name) := by
  have hsub : (((distinct (byName files)).filter (·.name ∉ names)).map (·.name)).Sublist
      ((distinct (byName files)).map (·.name)) :=
    List.filter_sublist.map _
  have hsorted : (Review.missingFrom names (files.map (·.name))).Pairwise (· ≤ ·) := by
    have hmerge := @List.pairwise_mergeSort String (fun a b => decide (a ≤ b))
      (fun a b c hab hbc => by simpa using String.le_trans (by simpa using hab) (by simpa using hbc))
      (fun a b => by simpa using String.le_total a b)
      ((files.map (·.name)).filter fun name => !names.contains name).eraseDups
    exact hmerge.imp fun h => by simpa using h
  -- Both lists are in order, so it is enough that they have the same names.
  refine List.Perm.eq_of_pairwise (fun a b _ _ hab hba => String.le_antisymm hab hba) hsorted
    ((pairwise_names_distinct files).sublist hsub) ?_
  refine (List.mergeSort_perm _ _).trans ((List.perm_ext_iff_of_nodup (nodup_eraseDups _)
    ((nodup_names_distinct _).sublist hsub)).2 fun name => ?_)
  have hknown : name ∈ (distinct (byName files)).map (·.name) ↔ name ∈ files.map (·.name) := name_mem_known_iff
  simp only [List.mem_map] at hknown
  simp only [List.mem_eraseDups, List.mem_filter, List.mem_map, Bool.not_eq_true', decide_not,
    decide_eq_false_iff_not]
  grind

end Userscript.Module
