/-!
# Tables

A table gives values to keys and keeps the order in which the keys came. Folders, objects
and the entries of a cache are tables; the keys are names unless something else is said.

## Main definitions

* `Table.get?`, `Table.set`, `Table.erase` — reading, writing and removing an entry
* `Table.keys` — the keys, in order

## Main results

* `get?_set_self`, `get?_set_of_ne` — an entry holds what was last written to it
* `get?_erase_self`, `get?_erase_of_ne` — removing an entry leaves the others
-/

namespace Userscript

/-- Values by key, in the order in which the keys came. -/
abbrev Table (α : Type) (κ : Type := String) := List (κ × α)

namespace Table

/-- The keys of a table, in order. -/
def keys {α κ : Type} (table : Table α κ) : List κ := table.map (·.1)

variable {α κ : Type} [DecidableEq κ] {key other : κ} {value : α} {table : Table α κ}

/-- The value of a key. -/
def get? (key : κ) : Table α κ → Option α
  | [] => none
  | (k, v) :: rest => if k = key then some v else get? key rest

/-- The table with a value for `key`: a key that is there keeps its place, a new one comes
last. -/
def set (key : κ) (value : α) : Table α κ → Table α κ
  | [] => [(key, value)]
  | (k, v) :: rest => if k = key then (k, value) :: rest else (k, v) :: set key value rest

/-- The table without `key`. -/
def erase (key : κ) (table : Table α κ) : Table α κ := table.filter (·.1 ≠ key)

/-- A value that is found stands in the table. -/
theorem mem_of_get? (h : get? key table = some value) : (key, value) ∈ table := by
  induction table with
  | nil => cases h
  | cons entry rest ih =>
    rw [get?] at h
    split at h
    · next hkey =>
      cases h
      rw [← hkey]
      exact List.mem_cons_self
    · exact List.mem_cons_of_mem _ (ih h)

/-- An entry holds what was last written to it. -/
@[simp] theorem get?_set_self : get? key (set key value table) = some value := by
  induction table with
  | nil => simp [set, get?]
  | cons entry rest ih => by_cases h : entry.1 = key <;> simp [set, get?, h, ih]

/-- Writing an entry leaves the others as they are. -/
theorem get?_set_of_ne (h : other ≠ key) : get? other (set key value table) = get? other table := by
  induction table with
  | nil => simp [set, get?, Ne.symm h]
  | cons entry rest ih =>
    by_cases hk : entry.1 = key
    · simp [set, get?, hk, Ne.symm h]
    · simp [set, get?, hk, ih]

/-- A removed entry is gone. -/
@[simp] theorem get?_erase_self : get? key (erase key table) = none := by
  induction table with
  | nil => rfl
  | cons entry rest ih => by_cases h : entry.1 = key <;> simp_all [erase, get?]

/-- Removing an entry leaves the others as they are. -/
theorem get?_erase_of_ne (h : other ≠ key) : get? other (erase key table) = get? other table := by
  induction table with
  | nil => rfl
  | cons entry rest ih =>
    by_cases hk : entry.1 = key
    · have hne : ¬ key = other := fun e => h e.symm
      simp_all [erase, get?]
    · by_cases ho : entry.1 = other <;> simp_all [erase, get?]

end Table

end Userscript
