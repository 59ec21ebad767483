import Mathlib.Data.List.Nodup
import Userscript.Table

/-!
# Tables with different keys

A table whose keys are different is a function of the keys, in whatever order they stand, and it stays
one when an entry is written or removed.

## Main results

* `get?_eq_some_iff_mem`, `get?_of_perm` — what is found stands in the table, in any order
* `nodup_keys_set`, `nodup_keys_erase` — the keys stay different
* `set_of_get?`, `erase_of_get?` — writing what is there already changes nothing
-/

namespace Userscript.Table

variable {α κ : Type} [DecidableEq κ] {key : κ} {value : α} {table table' : Table α κ}

/-- If the keys are different, an entry that stands in a table is found. -/
theorem get?_eq_some_iff_mem (h : table.keys.Nodup) : table.get? key = some value ↔ (key, value) ∈ table := by
  refine ⟨mem_of_get?, fun hmem => ?_⟩
  induction table with
  | nil => cases hmem
  | cons entry rest ih =>
    obtain ⟨hnew, hrest⟩ := List.nodup_cons.1 h
    rw [get?]
    rcases List.mem_cons.1 hmem with rfl | hmem
    · exact if_pos rfl
    · have hkey : key ∈ rest.map (·.1) := List.mem_map_of_mem hmem
      have hne : entry.1 ≠ key := by
        rintro rfl
        exact hnew hkey
      rw [if_neg hne]
      exact ih hrest hmem

omit [DecidableEq κ] in
theorem nodup_keys_of_perm (h : table.keys.Nodup) (hperm : table'.Perm table) : table'.keys.Nodup :=
  (hperm.map Prod.fst).nodup_iff.2 h

/-- The order of a table does not matter to what is found. -/
theorem get?_of_perm (h : table.keys.Nodup) (hperm : table'.Perm table) : table'.get? key = table.get? key := by
  have hnodup := nodup_keys_of_perm h hperm
  apply Option.ext
  intro value
  rw [get?_eq_some_iff_mem hnodup, get?_eq_some_iff_mem h, hperm.mem_iff]

theorem mem_set {entry : κ × α} (h : entry ∈ table.set key value) : entry = (key, value) ∨ entry ∈ table := by
  induction table with
  | nil => exact .inl (List.mem_singleton.1 h)
  | cons first rest ih =>
    rw [set] at h
    split at h
    · next hkey =>
      rcases List.mem_cons.1 h with rfl | h
      · exact .inl (by rw [hkey])
      · exact .inr (List.mem_cons_of_mem _ h)
    · rcases List.mem_cons.1 h with rfl | h
      · exact .inr List.mem_cons_self
      · exact (ih h).imp_right (List.mem_cons_of_mem _)

theorem mem_keys_set {other : κ} (h : other ∈ (table.set key value).keys) : other = key ∨ other ∈ table.keys := by
  obtain ⟨entry, hentry, rfl⟩ := List.mem_map.1 h
  rcases mem_set hentry with rfl | hentry
  · exact .inl rfl
  · exact .inr (List.mem_map_of_mem hentry)

theorem nodup_keys_set (h : table.keys.Nodup) (key : κ) (value : α) : (table.set key value).keys.Nodup := by
  induction table with
  | nil => simp [set, keys]
  | cons entry rest ih =>
    obtain ⟨hnew, hrest⟩ := List.nodup_cons.1 h
    rw [set]
    split
    · next hkey => exact List.nodup_cons.2 ⟨hnew, hrest⟩
    · next hkey =>
      refine List.nodup_cons.2 ⟨fun hmem => ?_, ih hrest⟩
      rcases mem_keys_set hmem with heq | hmem
      · exact hkey heq
      · exact hnew hmem

theorem nodup_keys_erase (h : table.keys.Nodup) (key : κ) : (table.erase key).keys.Nodup :=
  h.sublist (List.filter_sublist.map _)

theorem set_of_get? (h : table.get? key = some value) : table.set key value = table := by
  induction table with
  | nil => cases h
  | cons entry table ih =>
    rw [get?] at h
    rw [set]
    split at h
    · next hkey =>
      cases h
      rw [if_pos hkey]
    · next hkey => rw [if_neg hkey, ih h]

theorem erase_of_get? (h : table.get? key = none) : table.erase key = table := by
  refine List.filter_eq_self.2 fun entry hentry => decide_eq_true ?_
  rintro rfl
  induction table with
  | nil => cases hentry
  | cons first table ih =>
    rw [get?] at h
    split at h
    · cases h
    · next hkey =>
      rcases List.mem_cons.1 hentry with rfl | hentry
      · exact hkey rfl
      · exact ih hentry h

/-- A new key comes last. -/
theorem set_of_not_mem (h : key ∉ table.keys) (value : α) : table.set key value = table ++ [(key, value)] := by
  induction table with
  | nil => rfl
  | cons entry table ih =>
    simp only [Table.keys, List.map_cons, List.mem_cons, not_or] at h
    rw [Table.set, if_neg (Ne.symm h.1), ih h.2]
    rfl

end Userscript.Table
