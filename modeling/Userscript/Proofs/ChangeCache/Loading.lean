import Userscript.Build
import Userscript.Proofs.Json.Nesting

/-!
# Loading the change cache

A file that holds no cache is loaded as an empty cache, and a row that is malformed is dropped. Two
files are neither, and not loaded: one in which a number that is beyond all bounds stands where an
integer or a time is read, and one that is nested deeper than the reader goes.

## Main definitions

* `ChangeCache.Holds` — a file holds a cache with these rows
* `ChangeCache.statOf?` — what a row gives if it is well-formed
* `ChangeCache.Oversized` — a file holds a cache and a number beyond all bounds
* `ChangeCache.TooDeep` — a file is nested deeper than the reader goes

## Main results

* `rows_eq_ok` — a malformed row is dropped, and the others stay
* `decode?_eq_ok_iff`, `decode?_faults_iff` — when a text is decoded, and when it is a fault
* `loadCacheWithin_fails_iff` — when a cache is not loaded, and what it is otherwise
* `loadCache_infinite_stamp` — a cache that is not loaded
-/

namespace Userscript

open Json (ConversionFault)

/-! ### Numbers beyond all bounds -/

namespace Json

variable {v : Json} {fault : ConversionFault}

/-- Only the infinities are too large to be integers. -/
theorem exists_toInt_eq_overflow_iff :
    (∃ fault, v.toInt = .error fault ∧ fault.isOverflow) ↔ ∃ negative, v = .double (.infinite negative) := by
  constructor
  · rintro ⟨fault, hfault, hoverflow⟩
    cases v with
    | double x =>
      cases x with
      | infinite negative => exact ⟨negative, rfl⟩
      | nan => cases hfault; cases hoverflow
      | finite negative mantissa exponent => cases hfault
    | text t =>
      rw [toInt, readInt] at hfault
      split at hfault
      · cases hfault; cases hoverflow
      · split at hfault
        · cases hfault
        · cases hfault; cases hoverflow
    | int n | bool b => cases hfault
    | null | list items | object fields => cases hfault; cases hoverflow
  · rintro ⟨negative, rfl⟩
    exact ⟨.infiniteInteger, rfl, rfl⟩

/-- A value is an integer, is infinite, or is no integer for another reason. -/
theorem toInt_cases (v : Json) : (∃ n, v.toInt = .ok n) ∨ (∃ negative, v = .double (.infinite negative)) ∨
    ∃ fault, v.toInt = .error fault ∧ fault.isOverflow = false := by
  rw [← exists_toInt_eq_overflow_iff]
  cases h : v.toInt with
  | ok n => exact .inl ⟨n, rfl⟩
  | error fault =>
    cases hoverflow : fault.isOverflow with
    | true => exact .inr (.inl ⟨fault, rfl, hoverflow⟩)
    | false => exact .inr (.inr ⟨fault, rfl, hoverflow⟩)

/-- Only integers are too large to be times. -/
theorem exists_toDouble_eq_overflow_iff :
    (∃ fault, v.toDouble = .error fault ∧ fault.isOverflow) ↔
      ∃ n, v = .int n ∧ Binary64.ofInt? n = none := by
  constructor
  · rintro ⟨fault, hfault, hoverflow⟩
    cases v with
    | int n =>
      rw [toDouble] at hfault
      split at hfault
      · cases hfault
      · next hnone => exact ⟨n, rfl, hnone⟩
    | text t =>
      rw [toDouble] at hfault
      split at hfault
      · cases hfault
      · cases hfault; cases hoverflow
    | double x | bool b => cases hfault
    | null | list items | object fields => cases hfault; cases hoverflow
  · rintro ⟨n, rfl, hnone⟩
    exact ⟨.hugeDouble, by rw [toDouble, hnone], rfl⟩

end Json

namespace ChangeCache

variable {v : Json} {key : WideText} {fields files : Table Json WideText} {levels : Nat} {raw : Text}

/-! ### Rows -/

/-- The stamp and the size that a row gives, if it is well-formed. -/
def statOf? : Json → Option Stat
  | .object fields =>
    match (Json.field? "mtime" fields).map Json.toInt, (Json.field? "size" fields).map Json.toInt with
    | some (.ok stamp), some (.ok size) => some ⟨stamp, size⟩
    | _, _ => none
  | _ => none

/-- The entry of a row that is well-formed. -/
def entryOf? (row : WideText × Json) : Option (WideText × Entry) :=
  (statOf? row.2).map fun stat => (row.1, ⟨row.1, stat⟩)

/-- A row holds an infinite number where an integer is read. The size is read only if the stamp is an
integer. -/
inductive Overflows : Json → Prop
  | stamp {fields : Table Json WideText} {negative : Bool} :
    Json.field? "mtime" fields = some (.double (.infinite negative)) → Overflows (.object fields)
  | size {fields : Table Json WideText} {negative : Bool} {stamp : Json} {n : Int} :
    Json.field? "mtime" fields = some stamp → stamp.toInt = .ok n →
      Json.field? "size" fields = some (.double (.infinite negative)) → Overflows (.object fields)

theorem row_of_overflows (h : Overflows v) : row key v = .error .infiniteInteger := by
  have hinfinite (negative : Bool) :
      (Json.double (.infinite negative)).toInt = .error .infiniteInteger := rfl
  have hoverflow : ConversionFault.infiniteInteger.isOverflow = true := rfl
  cases h with
  | stamp hstamp => simp [row, hstamp, hinfinite, hoverflow, bind, Except.bind]
  | size hstamp hn hsize => simp [row, hstamp, hn, hsize, hinfinite, hoverflow, bind, Except.bind]

/-- A row without infinite numbers is read, and gives an entry if it is well-formed. -/
theorem row_of_not_overflows (h : ¬ Overflows v) : row key v = .ok ((statOf? v).map (⟨key, ·⟩)) := by
  cases v with
  | object fields =>
    unfold row statOf?
    cases hstamp : Json.field? "mtime" fields with
    | none => simp only [hstamp, Option.map_none]; rfl
    | some stamp =>
      rcases Json.toInt_cases stamp with ⟨n, hn⟩ | ⟨negative, rfl⟩ | ⟨fault, hfault, hsmall⟩
      · cases hsize : Json.field? "size" fields with
        | none => simp only [hstamp, hn, hsize, Option.map_some, Option.map_none]; rfl
        | some size =>
          rcases Json.toInt_cases size with ⟨k, hk⟩ | ⟨negative, rfl⟩ | ⟨fault, hfault, hsmall⟩
          · simp only [hstamp, hn, hsize, hk, Option.map_some]; rfl
          · exact absurd (.size hstamp hn hsize) h
          · simp only [hstamp, hn, hsize, hfault, hsmall, Option.map_some]; rfl
      · exact absurd (.stamp hstamp) h
      · simp only [hstamp, hfault, hsmall, Option.map_some]; rfl
  | _ => rfl

/-- What one row leaves: an entry, nothing if it is malformed, or a fault. -/
def rowEntry (entry : WideText × Json) : Except ConversionFault (Option (WideText × Entry)) := do
  return (← row entry.1 entry.2).map (entry.1, ·)

theorem rowEntry_of_not_overflows {entry : WideText × Json} (h : ¬ Overflows entry.2) :
    rowEntry entry = .ok (entryOf? entry) := by
  rw [rowEntry, row_of_not_overflows h, entryOf?]
  cases statOf? entry.2 <;> rfl

theorem rowEntry_of_overflows {entry : WideText × Json} (h : Overflows entry.2) :
    rowEntry entry = .error .infiniteInteger := by
  rw [rowEntry, row_of_overflows h]
  rfl

theorem rows_eq_mapM (files : Table Json WideText) :
    rows files = (do return (← files.mapM rowEntry).filterMap id) := rfl

/-- A malformed row is dropped, and the others stay as they are. -/
theorem rows_eq_ok (h : ∀ row ∈ files, ¬ Overflows row.2) : rows files = .ok (files.filterMap entryOf?) := by
  have hmap : files.mapM rowEntry = .ok (files.map entryOf?) := by
    induction files with
    | nil => rfl
    | cons entry files ih =>
      rw [List.forall_mem_cons] at h
      rw [List.mapM_cons, rowEntry_of_not_overflows h.1, ih h.2]
      rfl
  rw [rows_eq_mapM, hmap]
  simp [bind, Except.bind, pure, Except.pure, List.filterMap_map]

/-- A row with an infinite number spoils all of them. -/
theorem rows_of_overflows (h : ∃ row ∈ files, Overflows row.2) : rows files = .error .infiniteInteger := by
  have hmap : files.mapM rowEntry = .error .infiniteInteger := by
    induction files with
    | nil => simp at h
    | cons entry files ih =>
      rw [List.mapM_cons]
      by_cases hentry : Overflows entry.2
      · rw [rowEntry_of_overflows hentry]
        rfl
      · have hrest : ∃ row ∈ files, Overflows row.2 := by simpa [hentry] using h
        rw [rowEntry_of_not_overflows hentry, ih hrest]
        rfl
  rw [rows_eq_mapM, hmap]
  rfl

/-! ### Files -/

/-- A file holds a cache with these fields and rows, well-formed or not. -/
def Holds (t : Tree) (p : Path) (fields files : Table Json WideText) : Prop :=
  ∃ raw, t.readText p = .ok raw ∧ Json.parse raw = .ok (.object fields) ∧
    (Json.field? "files" fields = some (.object files) ∨
      Json.field? "files" fields = none ∧ files = [])

/-- The time of the last build that some fields give. None, or one that counts as absent, is zero. -/
def GivesTime (fields : Table Json WideText) (time : Binary64) : Prop :=
  (∃ v, Json.field? "last_build" fields = some v ∧ v.isTruthy ∧ v.toDouble = .ok time) ∨
    (∀ v, Json.field? "last_build" fields = some v → v.isTruthy = false) ∧ time = .zero

/-- A file holds a cache, and in it a number beyond all bounds where an integer or the time is read. -/
def Oversized (t : Tree) (p : Path) : Prop :=
  ∃ fields files, Holds t p fields files ∧
    ((∃ row ∈ files, Overflows row.2) ∨
      ∃ n, Json.field? "last_build" fields = some (.int n) ∧ Binary64.ofInt? n = none)

/-- The text in a file is nested more than so many levels deep. -/
def TooDeep (levels : Nat) (t : Tree) (p : Path) : Prop :=
  ∃ raw, t.readText p = .ok raw ∧ Json.DeeperThan levels raw

theorem files?_eq_some_iff : files? (.object fields) = some files ↔
    Json.field? "files" fields = some (.object files) ∨
      Json.field? "files" fields = none ∧ files = [] := by
  rw [files?]
  split
  · next hnone => simp [hnone, @eq_comm _ [] files]
  · next found hfound => simp [hfound]
  · next other hne hother => simpa [hother] using fun h => hne files h

theorem holds_iff {t : Tree} {p : Path} : Holds t p fields files ↔
    ∃ raw, t.readText p = .ok raw ∧ Json.parse raw = .ok (.object fields) ∧
      files? (.object fields) = some files := by
  simp only [Holds, files?_eq_some_iff]

theorem lastBuildOf_eq_ok_iff {time : Binary64} : lastBuildOf fields = .ok time ↔ GivesTime fields time := by
  unfold lastBuildOf GivesTime
  cases hvalue : Json.field? "last_build" fields with
  | none => simp [@eq_comm _ Binary64.zero time]
  | some value => cases htruthy : value.isTruthy <;> simp [htruthy, @eq_comm _ Binary64.zero time]

theorem ne_zero_of_ofInt?_eq_none {n : Int} (h : Binary64.ofInt? n = none) : n ≠ 0 := by
  rintro rfl
  cases h

/-- A time overflows only if it is given as an integer that is too large. -/
theorem lastBuildOf_overflows_iff : (∃ fault, lastBuildOf fields = .error fault ∧ fault.isOverflow) ↔
    ∃ n, Json.field? "last_build" fields = some (.int n) ∧ Binary64.ofInt? n = none := by
  unfold lastBuildOf
  constructor
  · rintro ⟨fault, hfault, hoverflow⟩
    split at hfault
    · cases hfault
    · next value hvalue =>
      split at hfault
      · obtain ⟨n, rfl, hnone⟩ := Json.exists_toDouble_eq_overflow_iff.1 ⟨fault, hfault, hoverflow⟩
        exact ⟨n, hvalue, hnone⟩
      · cases hfault
  · rintro ⟨n, hn, hnone⟩
    have htruthy : (Json.int n).isTruthy := by simpa [Json.isTruthy] using ne_zero_of_ofInt?_eq_none hnone
    obtain ⟨fault, hfault, hoverflow⟩ := Json.exists_toDouble_eq_overflow_iff.2 ⟨n, rfl, hnone⟩
    exact ⟨fault, by simp only [hn, htruthy, if_true, hfault], hoverflow⟩

/-! ### The text of a cache file -/

/-- A text is that of a cache with these fields and rows. -/
def Reads (raw : Text) (fields files : Table Json WideText) : Prop :=
  Json.parse raw = .ok (.object fields) ∧ files? (.object fields) = some files

/-- A text that is nested too deep is a fault. -/
theorem exists_decode?_of_deeperThan (h : Json.DeeperThan levels raw) :
    ∃ kind, decode? levels raw = .error (.fault (.nesting kind)) := by
  obtain ⟨fault, kind, hfault, hcause⟩ := Json.deeperThan_iff.1 h
  exact ⟨kind, by simp only [decode?, hfault, unreadable, hcause]⟩

theorem Reads.decode?_eq (h : Reads raw fields files) (hdepth : ¬ Json.DeeperThan levels raw) :
    decode? levels raw =
      match rows files with
      | .error fault => .error (.fault (.conversion fault))
      | .ok entries =>
        match lastBuildOf fields with
        | .ok lastBuild => .ok (entries, lastBuild)
        | .error fault =>
          .error (if fault.isOverflow then .fault (.conversion fault) else .build (.cache (.lastBuild fault))) := by
  obtain ⟨hparse, hfiles⟩ := h
  have hparse := (not_not.1 hdepth).trans hparse
  cases hrows : rows files with
  | error fault => simp only [decode?, hparse, hfiles, hrows]
  | ok entries => cases hlast : lastBuildOf fields <;> simp only [decode?, hparse, hfiles, hrows, hlast]

/-- A text that is not that of a cache is malformed as a whole. -/
theorem decode?_of_not_reads (h : ¬ ∃ fields files, Reads raw fields files)
    (hdepth : ¬ Json.DeeperThan levels raw) : ∃ error, decode? levels raw = .error (.build error) := by
  have hsame : Json.parseWithin levels raw = Json.parse raw := not_not.1 hdepth
  unfold decode?
  rw [hsame]
  split
  · next fault hfault =>
    unfold unreadable
    split
    · next kind hkind => exact absurd hkind (Json.parse_ne_nesting hfault kind)
    · exact ⟨_, rfl⟩
  · next value hvalue =>
    split
    · next fields files hfiles => exact absurd ⟨fields, files, hvalue, hfiles⟩ h
    · exact ⟨_, rfl⟩

theorem decode?_eq_ok_iff {entries : Table Entry WideText} {time : Binary64} :
    decode? levels raw = .ok (entries, time) ↔ ¬ Json.DeeperThan levels raw ∧ ∃ fields files,
      Reads raw fields files ∧ (∀ row ∈ files, ¬ Overflows row.2) ∧ entries = files.filterMap entryOf? ∧
        GivesTime fields time := by
  constructor
  · intro hdecode
    have hdepth : ¬ Json.DeeperThan levels raw := by
      intro hdepth
      obtain ⟨kind, hfault⟩ := exists_decode?_of_deeperThan hdepth
      rw [hfault] at hdecode
      cases hdecode
    refine ⟨hdepth, ?_⟩
    by_cases hreads : ∃ fields files, Reads raw fields files
    · obtain ⟨fields, files, hreads⟩ := hreads
      rw [hreads.decode?_eq hdepth] at hdecode
      by_cases hrows : ∃ row ∈ files, Overflows row.2
      · rw [rows_of_overflows hrows] at hdecode
        cases hdecode
      · have hrows : ∀ row ∈ files, ¬ Overflows row.2 := fun row hrow h => hrows ⟨row, hrow, h⟩
        rw [rows_eq_ok hrows] at hdecode
        dsimp only at hdecode
        split at hdecode
        · next lastBuild hlast =>
          cases hdecode
          exact ⟨fields, files, hreads, hrows, rfl, lastBuildOf_eq_ok_iff.1 hlast⟩
        · cases hdecode
    · obtain ⟨error, herror⟩ := decode?_of_not_reads hreads hdepth
      rw [herror] at hdecode
      cases hdecode
  · rintro ⟨hdepth, fields, files, hreads, hrows, rfl, htime⟩
    rw [hreads.decode?_eq hdepth, rows_eq_ok hrows, lastBuildOf_eq_ok_iff.2 htime]

/-- A text is not decoded for a fault exactly if it is nested too deep or a number in it is beyond all
bounds. -/
theorem decode?_faults_iff : (∃ fault, decode? levels raw = .error (.fault fault)) ↔
    Json.DeeperThan levels raw ∨ ∃ fields files, Reads raw fields files ∧
      ((∃ row ∈ files, Overflows row.2) ∨
        ∃ n, Json.field? "last_build" fields = some (.int n) ∧ Binary64.ofInt? n = none) := by
  by_cases hdepth : Json.DeeperThan levels raw
  · obtain ⟨kind, hfault⟩ := exists_decode?_of_deeperThan hdepth
    exact iff_of_true ⟨_, hfault⟩ (.inl hdepth)
  rw [or_iff_right hdepth]
  constructor
  · rintro ⟨fault, hfault⟩
    by_cases hreads : ∃ fields files, Reads raw fields files
    · obtain ⟨fields, files, hreads⟩ := hreads
      refine ⟨fields, files, hreads, ?_⟩
      -- The rows are decoded before the time, so one of them that overflows is the fault.
      by_cases hrows : ∃ row ∈ files, Overflows row.2
      · exact .inl hrows
      · rw [hreads.decode?_eq hdepth, rows_eq_ok fun row hrow h => hrows ⟨row, hrow, h⟩] at hfault
        dsimp only at hfault
        split at hfault
        · cases hfault
        · next cause hcause =>
          split at hfault
          · next hoverflow => exact .inr (lastBuildOf_overflows_iff.1 ⟨cause, hcause, hoverflow⟩)
          · cases hfault
    · obtain ⟨error, herror⟩ := decode?_of_not_reads hreads hdepth
      rw [herror] at hfault
      cases hfault
  · rintro ⟨fields, files, hreads, h⟩
    rw [hreads.decode?_eq hdepth]
    by_cases hrows : ∃ row ∈ files, Overflows row.2
    · rw [rows_of_overflows hrows]
      exact ⟨_, rfl⟩
    · obtain ⟨fault, hfault, hoverflow⟩ := lastBuildOf_overflows_iff.2 (h.resolve_left hrows)
      rw [rows_eq_ok fun row hrow h => hrows ⟨row, hrow, h⟩, hfault]
      dsimp only
      rw [if_pos hoverflow]
      exact ⟨_, rfl⟩

/-! ### Loading -/

theorem readText_of_not_has {t : Tree} {p : Path} (h : t.has p = false) :
    ∃ fault, t.readText p = .error (.file fault) := by
  have hnone : t.find? p = none := by simpa [Tree.has] using h
  unfold Tree.readText Tree.read
  unfold Tree.find? at hnone
  cases hnames : t.names p with
  | error obstacle => cases obstacle <;> exact ⟨_, rfl⟩
  | ok names =>
    rw [hnames] at hnone
    simp only [hnone]
    exact ⟨_, rfl⟩

/-- What a file is loaded as: as what its text is decoded to, or as an empty cache. -/
theorem loadCacheWithin_fst (levels : Nat) (t : Tree) (p : Path) (log : Log) :
    (Build.loadCacheWithin levels p t log).1 =
    match t.readText p with
    | .error _ => .ok { path := p }
    | .ok raw =>
      match decode? levels raw with
      | .error (.build _) => .ok { path := p }
      | .error failure => .error failure
      | .ok (entries, lastBuild) => .ok { path := p, entries, lastBuild } := by
  unfold Build.loadCacheWithin
  cases hhas : t.has p with
  | false =>
    obtain ⟨fault, hfault⟩ := readText_of_not_has hhas
    rw [hfault]
    rfl
  | true =>
    simp only [Bool.not_true, Bool.false_eq_true, if_false]
    cases t.readText p with
    | error fault => rfl
    | ok raw =>
      dsimp only
      rcases decode? levels raw with (error | fault) | ⟨entries, lastBuild⟩ <;> rfl

theorem loadCache_fst (t : Tree) (p : Path) (log : Log) : (Build.loadCache p t log).1 =
    match t.readText p with
    | .error _ => .ok { path := p }
    | .ok raw =>
      match decode? Json.usualLevels raw with
      | .error (.build _) => .ok { path := p }
      | .error failure => .error failure
      | .ok (entries, lastBuild) => .ok { path := p, entries, lastBuild } :=
  loadCacheWithin_fst Json.usualLevels t p log

/-- A cache is not loaded exactly if its file is nested deeper than the reader goes, however deep that
is, or holds a number beyond all bounds where an integer or the time is read. Otherwise it is the cache
in the file, without the rows that are malformed, or an empty one if the file is missing, cannot be read
or is malformed as a whole. -/
theorem loadCacheWithin_fails_iff (levels : Nat) (t : Tree) (p : Path) (log : Log) :
    ((∃ failure, (Build.loadCacheWithin levels p t log).1 = .error failure) ↔
        TooDeep levels t p ∨ Oversized t p) ∧
      (¬ TooDeep levels t p → ¬ Oversized t p →
        (∀ fields files time, Holds t p fields files → GivesTime fields time →
          (Build.loadCacheWithin levels p t log).1 =
            .ok { path := p, entries := files.filterMap entryOf?, lastBuild := time }) ∧
        ((¬ ∃ fields files time, Holds t p fields files ∧ GivesTime fields time) →
          (Build.loadCacheWithin levels p t log).1 = .ok { path := p })) := by
  rw [loadCacheWithin_fst]
  cases hraw : t.readText p with
  | error fault =>
    have hholds (fields files) : ¬ Holds t p fields files := by simp [Holds, hraw]
    simp [Oversized, TooDeep, hraw, hholds]
  | ok raw =>
    have hholds (fields files) : Holds t p fields files ↔ Reads raw fields files := by
      simp [holds_iff, hraw, Reads]
    have hdeep : TooDeep levels t p ↔ Json.DeeperThan levels raw := by simp [TooDeep, hraw]
    rw [← and_imp, ← not_or]
    simp only [hdeep, Oversized, hholds, ← decode?_faults_iff]
    refine ⟨?_, fun hfaults => ⟨fun fields files time hreads htime => ?_, fun hnone => ?_⟩⟩
    · rcases decode? levels raw with (error | fault) | ⟨entries, lastBuild⟩ <;> simp
    · -- What has the shape of a cache is decoded, unless it is a fault.
      have hno := decode?_faults_iff.not.1 hfaults
      rw [not_or] at hno
      have hrows (row) (hrow : row ∈ files) (h : Overflows row.2) : False :=
        hno.2 ⟨fields, files, hreads, .inl ⟨row, hrow, h⟩⟩
      rw [decode?_eq_ok_iff.2 ⟨hno.1, fields, files, hreads, hrows, rfl, htime⟩]
    · rcases hdecode : decode? levels raw with (error | fault) | ⟨entries, lastBuild⟩
      · rfl
      · exact absurd ⟨fault, hdecode⟩ hfaults
      · obtain ⟨-, fields, files, hreads, -, -, htime⟩ := decode?_eq_ok_iff.1 hdecode
        exact absurd ⟨fields, files, lastBuild, hreads, htime⟩ hnone

/-- A folder with a cache in it where a stamp is infinite. The other row is well-formed. -/
def infiniteStamp : Tree :=
  let rows := "\"a.js\": \x7b\"mtime\": Infinity, \"size\": 1\x7d, \"b.js\": \x7b\"mtime\": 5, \"size\": 9\x7d"
  let cache := "\x7b\"files\": \x7b" ++ rows ++ "\x7d\x7d"
  { root := .folder [("cache.json", .file (Utf8.encode cache.toList) 0)] }

/-- A row with an infinite stamp is not dropped: the cache is not loaded at all. -/
theorem loadCache_infinite_stamp :
    ¬ ∃ cache, (Build.loadCache (.ofString "cache.json") infiniteStamp []).1 = .ok cache := by
  have hnone : (Build.loadCache (.ofString "cache.json") infiniteStamp []).1.toOption.isNone := by
    decide +kernel
  rintro ⟨cache, hcache⟩
  rw [hcache] at hnone
  cases hnone

end ChangeCache

end Userscript
