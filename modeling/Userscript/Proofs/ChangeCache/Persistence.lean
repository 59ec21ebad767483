import Userscript.Proofs.ChangeCache.Loading
import Userscript.Proofs.Json.RoundTrip
import Userscript.Proofs.Table
import Userscript.Proofs.Text.Utf8

/-!
# The change cache from one build to the next

A cache that is written to its file and loaded again remembers the same about each path, as long as
its numbers are not too long and the paths have proper texts, and it has the same time. Whatever it holds,
the file that was written is never one that cannot be loaded.

## Main definitions

* `ChangeCache.Lasting` — entries that outlast their file

## Main results

* `decode?_encode` — what is written comes back
* `decode?_encode_ne_fault` — what is written can be loaded
* `Lasting.record` — noting a file leaves entries that outlast their file
-/

namespace Userscript

open Json (KeyBack FieldsBack ReadsInto gather digitCount)

/-- The numbers of a stamp and a size are not too long to be read. -/
def Stat.IsShort (stat : Stat) : Prop :=
  digitCount stat.stamp ≤ Text.digitLimit ∧ digitCount stat.size ≤ Text.digitLimit

instance (stat : Stat) : Decidable stat.IsShort := inferInstanceAs (Decidable (_ ∧ _))

/-- No number that a file system gives is too long. -/
theorem Stat.isShort_iff {stat : Stat} : stat.IsShort ↔
    stat.stamp.natAbs < 10 ^ Text.digitLimit ∧ stat.size.natAbs < 10 ^ Text.digitLimit := by
  have hlimit : 0 < Text.digitLimit := by decide
  exact and_congr (Nat.length_toDigits_le_iff (by decide) hlimit) (Nat.length_toDigits_le_iff (by decide) hlimit)

namespace ChangeCache

variable {exact : Prop} {c : ChangeCache} {entries : Table Entry WideText} {fields : Table Json WideText}

/-! ### What is written -/

/-- The entries in the order of their paths. -/
def sorted (entries : Table Entry WideText) : Table Entry WideText :=
  entries.mergeSort fun a b => a.1.le b.1

/-- The row of an entry. -/
def rowOf (entry : WideText × Entry) : WideText × Json :=
  (entry.1, .object [("mtime", .int entry.2.stat.stamp), ("size", .int entry.2.stat.size)])

/-- The fields of a cache file with these rows and this time. -/
def fileOf (rows : Table Json WideText) (time : Binary64) : Table Json WideText :=
  [("files", .object rows), ("last_build", .double time)]

theorem toJson_eq (c : ChangeCache) :
    c.toJson = .object (fileOf ((sorted c.entries).map rowOf) c.lastBuild) := rfl

theorem sorted_perm (entries : Table Entry WideText) : (sorted entries).Perm entries :=
  List.mergeSort_perm _ _

/-- Entries that outlast their file: one for each path, under its own text, and with numbers that are
not too long. -/
structure Lasting (entries : Table Entry WideText) : Prop where
  nodup : entries.keys.Nodup
  proper : ∀ entry ∈ entries, ∃ s, entry.1 = .proper s
  named : ∀ entry ∈ entries, entry.2.path = entry.1
  short : ∀ entry ∈ entries, entry.2.stat.IsShort

theorem Lasting.nil : Lasting [] := by
  refine ⟨List.nodup_nil, ?_, ?_, ?_⟩ <;> rintro entry ⟨⟩

theorem Lasting.of_perm {entries' : Table Entry WideText} (h : Lasting entries) (hperm : entries'.Perm entries) :
    Lasting entries' :=
  ⟨Table.nodup_keys_of_perm h.nodup hperm, fun entry hentry => h.proper entry (hperm.mem_iff.1 hentry),
    fun entry hentry => h.named entry (hperm.mem_iff.1 hentry),
    fun entry hentry => h.short entry (hperm.mem_iff.1 hentry)⟩

/-- An entry was there before a file was noted, or it is the note. -/
theorem mem_record {path : Path} {stat : Option Stat} {entry : WideText × Entry}
    (h : entry ∈ (c.record path stat).entries) : entry ∈ c.entries ∨
      ∃ now, stat = some now ∧ entry = (.proper path.toString, ⟨.proper path.toString, now⟩) := by
  cases stat with
  | none => exact .inl (List.mem_of_mem_filter h)
  | some now =>
    rcases Table.mem_set h with rfl | h
    · exact .inr ⟨now, rfl, rfl⟩
    · exact .inl h

/-- Noting a file leaves entries that outlast their file. -/
theorem Lasting.record (h : Lasting c.entries) (path : Path) {stat : Option Stat}
    (hshort : ∀ now, stat = some now → now.IsShort) : Lasting (c.record path stat).entries where
  nodup := by
    cases stat with
    | none => exact Table.nodup_keys_erase h.nodup _
    | some now => exact Table.nodup_keys_set h.nodup _ _
  proper entry hentry := by
    rcases mem_record hentry with hentry | ⟨now, -, rfl⟩
    · exact h.proper entry hentry
    · exact ⟨_, rfl⟩
  named entry hentry := by
    rcases mem_record hentry with hentry | ⟨now, -, rfl⟩
    · exact h.named entry hentry
    · rfl
  short entry hentry := by
    rcases mem_record hentry with hentry | ⟨now, hnow, rfl⟩
    · exact h.short entry hentry
    · exact hshort now hnow

/-! ### What is read back -/

theorem readsInto_rowOf {entry : WideText × Entry} (h : exact → entry.2.stat.IsShort) :
    ReadsInto exact 1 (rowOf entry).2 (· = (rowOf entry).2) := by
  refine Json.readsInto_object_self ?_ ?_ ?_
  · simp [Table.keys]
  · simp only [List.forall_mem_cons]
    exact ⟨⟨_, rfl⟩, ⟨_, rfl⟩, List.forall_mem_nil _⟩
  · simp only [List.forall_mem_cons]
    exact ⟨Json.readsInto_int fun hexact => (h hexact).1, Json.readsInto_int fun hexact => (h hexact).2,
      List.forall_mem_nil _⟩

/-- What becomes of the rows of a cache file. -/
def RowsBack (entries : Table Entry WideText) (rows : Table Json WideText) : Prop :=
  ∃ gs, FieldsBack (fun v v' => v' = v) ((sorted entries).map rowOf) gs ∧ rows = gather [] gs

/-- The rows are read as rows, and the time as a time, which is the same if it is finite. -/
def PartBack (c : ChangeCache) : Json → Json → Prop
  | .object _, v => ∃ rows, RowsBack c.entries rows ∧ v = .object rows
  | _, v => ∃ time, v = .double time ∧ (c.lastBuild.IsFinite → time = c.lastBuild)

/-- The file of a cache is read as one with its rows and its time, three levels deep. -/
theorem readsInto_fileOf (c : ChangeCache) (h : exact → ∀ entry ∈ c.entries, entry.2.stat.IsShort) :
    ReadsInto exact 3 (.object (fileOf ((sorted c.entries).map rowOf) c.lastBuild)) fun v =>
      ∃ gs, FieldsBack (PartBack c) (fileOf ((sorted c.entries).map rowOf) c.lastBuild) gs ∧
        v = .object (gather [] gs) := by
  -- The rows are read back one by one, and then the file, which has them in one of its two fields.
  have hrows : ReadsInto exact 2 (.object ((sorted c.entries).map rowOf))
      (PartBack c (.object ((sorted c.entries).map rowOf))) := by
    have hobject : ReadsInto exact 2 (.object ((sorted c.entries).map rowOf)) _ :=
      Json.readsInto_object (R := fun v v' => v' = v) fun f hf => by
        obtain ⟨entry, hentry, rfl⟩ := List.mem_map.1 hf
        exact readsInto_rowOf fun hexact => h hexact entry ((sorted_perm _).mem_iff.1 hentry)
    refine hobject.mono ?_
    rintro v ⟨gs, hgs, rfl⟩
    exact ⟨_, ⟨gs, hgs, rfl⟩, rfl⟩
  refine Json.readsInto_object ?_
  simp only [fileOf, List.forall_mem_cons]
  exact ⟨hrows, Json.readsInto_double exact 2 c.lastBuild, List.forall_mem_nil _⟩

/-- The file of a cache is never nested too deep. -/
theorem not_deeperThan_encode (c : ChangeCache) : ¬ Json.DeeperThan Json.usualLevels c.encode := by
  intro hdeeper
  have hlevels : 3 ≤ Json.usualLevels := by decide
  exact Json.not_deeperThan_print (readsInto_fileOf c (False.elim : False → _)) (hdeeper.mono hlevels)

/-- The file of a cache is read as one with the same rows and time, or it is malformed because a number in
it is too long. -/
theorem exists_parse_encode (c : ChangeCache) (h : exact → ∀ entry ∈ c.entries, entry.2.stat.IsShort) :
    (∃ rows time, RowsBack c.entries rows ∧ (c.lastBuild.IsFinite → time = c.lastBuild) ∧
      Json.parse c.encode = .ok (.object (fileOf rows time))) ∨
      ¬ exact ∧ ∃ fault, Json.parse c.encode = .error fault := by
  rw [encode, toJson_eq]
  rcases Json.parse_print (readsInto_fileOf c h) with ⟨v, ⟨gs, hgs, rfl⟩, hparse⟩ | hfault
  · cases hgs with
    | @cons _ g _ gs hfirst hgs
    cases hgs with
    | @cons _ g' _ gs hsecond hgs
    cases hgs
    obtain ⟨hfiles, rows, hback, hrows⟩ := hfirst
    obtain ⟨hlast, time, htime, hsame⟩ := hsecond
    obtain ⟨key, v⟩ := g
    obtain ⟨key', v'⟩ := g'
    obtain rfl : key = _ := hfiles "files" rfl
    obtain rfl : key' = _ := hlast "last_build" rfl
    obtain rfl : v = _ := hrows
    obtain rfl : v' = _ := htime
    exact .inl ⟨rows, time, hback, hsame, hparse⟩
  · exact .inr hfault

/-- What is written as a cache is read as one. -/
theorem reads_fileOf {raw : Text} {rows : Table Json WideText} {time : Binary64}
    (h : Json.parse raw = .ok (.object (fileOf rows time))) : Reads raw (fileOf rows time) rows :=
  ⟨h, rfl⟩

theorem forall_mem_gather {P : Json → Prop} {seen gs : Table Json WideText} (hseen : ∀ g ∈ seen, P g.2)
    (hgs : ∀ g ∈ gs, P g.2) : ∀ g ∈ gather seen gs, P g.2 := by
  induction gs generalizing seen with
  | nil => exact hseen
  | cons g gs ih =>
    rw [List.forall_mem_cons] at hgs
    refine ih (fun f hf => ?_) hgs.2
    rcases Table.mem_set hf with rfl | hf
    · exact hgs.1
    · exact hseen f hf

theorem not_overflows_rowOf (entry : WideText × Entry) : ¬ Overflows (rowOf entry).2 := by
  intro h
  cases h with
  | stamp h => cases h
  | size hstamp hn hsize => cases hsize

/-- Rows of integers hold no number beyond all bounds. -/
theorem RowsBack.not_overflows {rows : Table Json WideText} (h : RowsBack entries rows) :
    ∀ row ∈ rows, ¬ Overflows row.2 := by
  obtain ⟨gs, hgs, rfl⟩ := h
  refine forall_mem_gather (P := fun v => ¬ Overflows v) (by simp) ?_
  have hrows : ∀ row ∈ (sorted entries).map rowOf, ¬ Overflows row.2 := by
    intro row hrow
    obtain ⟨entry, hentry, rfl⟩ := List.mem_map.1 hrow
    exact not_overflows_rowOf entry
  revert hrows
  generalize (sorted entries).map rowOf = rows at hgs
  induction hgs with
  | nil => exact fun _ => nofun
  | cons hrow hrest ih =>
    simp only [List.forall_mem_cons]
    exact fun hrows => ⟨hrow.2 ▸ hrows.1, ih hrows.2⟩

/-- What is written as a cache can be loaded, though it may come back as an empty cache. -/
theorem decode?_encode_ne_fault (c : ChangeCache) (fault : Fault) :
    decode? Json.usualLevels c.encode ≠ .error (.fault fault) := by
  intro hfault
  obtain ⟨fields, files, hreads, hlarge⟩ :=
    (decode?_faults_iff.1 ⟨fault, hfault⟩).resolve_left (not_deeperThan_encode c)
  rcases exists_parse_encode c (False.elim : False → _) with ⟨rows, time, hback, -, hparse⟩ | ⟨-, fault, hparse⟩
  · have hfields := hparse.symm.trans hreads.1
    obtain rfl : fileOf rows time = fields := by
      injection hfields with hfields
      injection hfields
    obtain rfl : rows = files := Option.some.inj hreads.2
    rcases hlarge with ⟨row, hrow, hlarge⟩ | ⟨n, hn, -⟩
    · exact hback.not_overflows row hrow hlarge
    · cases hn
  · have hfields := hparse.symm.trans hreads.1
    cases hfields

theorem entryOf?_rowOf {entry : WideText × Entry} (h : entry.2.path = entry.1) :
    entryOf? (rowOf entry) = some entry := by
  obtain ⟨key, path, stat⟩ := entry
  obtain rfl : path = key := h
  rfl

theorem isTruthy_of_isPositive {time : Binary64} (h : time.isPositive) : (Json.double time).isTruthy := by
  cases time with
  | nan => cases h
  | infinite negative => rfl
  | finite negative mantissa exponent =>
    cases mantissa with
    | zero => simp [Binary64.isPositive] at h
    | succ mantissa => rfl

/-- What outlasts its file comes back from it, in the order of the paths, and so does a time after zero. -/
theorem decode?_encode (h : Lasting c.entries) : ∃ time,
    decode? Json.usualLevels c.encode = .ok (sorted c.entries, time) ∧
      (c.lastBuild.IsFinite → c.lastBuild.isPositive → time = c.lastBuild) := by
  have hsorted : Lasting (sorted c.entries) := h.of_perm (sorted_perm _)
  rcases exists_parse_encode c (fun _ : True => h.short) with
    ⟨rows, time, ⟨gs, hgs, rfl⟩, hsame, hparse⟩ | ⟨hfalse, -⟩
  · have hproper : ∀ f ∈ (sorted c.entries).map rowOf, ∃ s, f.1 = .proper s := by
      intro f hf
      obtain ⟨entry, hentry, rfl⟩ := List.mem_map.1 hf
      exact hsorted.proper entry hentry
    obtain rfl := hgs.eq hproper
    -- All keys are different, so no row takes the place of another one.
    have hkeys : (Table.keys ((sorted c.entries).map rowOf)).Nodup := by
      rw [Table.keys, List.map_map]
      exact hsorted.nodup
    rw [Json.gather_of_nodup (by simpa using hkeys), List.nil_append] at hparse
    have hentries : ((sorted c.entries).map rowOf).filterMap entryOf? = sorted c.entries := by
      rw [List.filterMap_map]
      refine (List.filterMap_congr fun entry hentry => ?_).trans List.filterMap_some
      exact entryOf?_rowOf (hsorted.named entry hentry)
    -- A time of zero counts as none, and for none zero is read.
    obtain ⟨y, hy, hsame'⟩ : ∃ y, GivesTime (fileOf ((sorted c.entries).map rowOf) time) y ∧
        (time.isPositive → y = time) := by
      cases htruthy : (Json.double time).isTruthy with
      | true => exact ⟨time, .inl ⟨_, rfl, htruthy, rfl⟩, fun _ => rfl⟩
      | false =>
        refine ⟨.zero, .inr ⟨fun v hv => ?_, rfl⟩, fun hpositive => ?_⟩
        · obtain rfl : .double time = v := Option.some.inj hv
          exact htruthy
        · rw [isTruthy_of_isPositive hpositive] at htruthy
          cases htruthy
    have hrows : ∀ row ∈ (sorted c.entries).map rowOf, ¬ Overflows row.2 := by
      intro row hrow
      obtain ⟨entry, hentry, rfl⟩ := List.mem_map.1 hrow
      exact not_overflows_rowOf entry
    refine ⟨y, decode?_eq_ok_iff.2
      ⟨not_deeperThan_encode c, _, _, reads_fileOf hparse, hrows, hentries.symm, hy⟩, ?_⟩
    intro hfinite hpositive
    obtain rfl := hsame hfinite
    exact hsame' hpositive
  · exact absurd trivial hfalse

/-! ### Loading what was saved -/

theorem not_mem_return_encode (c : ChangeCache) : '\r' ∉ c.encode := by
  have hint (level n) := Json.not_mem_return_int level n
  have hrow (entry : WideText × Entry) (level : Nat) : '\r' ∉ Json.printAt level (rowOf entry).2 := by
    refine Json.not_mem_return_object level ?_
    simp [hint]
  have hfile : '\r' ∉ c.toJson.print := by
    rw [toJson_eq]
    refine Json.not_mem_return_object 0 ?_
    simp only [fileOf, List.forall_mem_cons]
    refine ⟨Json.not_mem_return_object 1 fun f hf => ?_, Json.not_mem_return_double 1 _, List.forall_mem_nil _⟩
    obtain ⟨entry, hentry, rfl⟩ := List.mem_map.1 hf
    exact hrow entry 2
  simp [encode, hfile]

/-- The text of a cache file is the one that was written. -/
theorem readText_encode {t : Tree} {p : Path} (h : t.read p = .ok (Utf8.encode c.encode)) :
    t.readText p = .ok c.encode := by
  simp only [Tree.readText, h, Utf8.decode_encode, Text.unifyEndings_of_not_mem (not_mem_return_encode c)]

/-- A cache that was saved can be loaded. -/
theorem exists_loadCache_encode {t : Tree} {p : Path} (h : t.read p = .ok (Utf8.encode c.encode)) (log : Log) :
    ∃ cache, (Build.loadCache p t log).1 = .ok cache := by
  rw [loadCache_fst, readText_encode h]
  dsimp only
  rcases hdecode : decode? Json.usualLevels c.encode with (error | fault) | ⟨entries, lastBuild⟩
  · exact ⟨_, rfl⟩
  · exact absurd hdecode (decode?_encode_ne_fault c fault)
  · exact ⟨_, rfl⟩

/-- A cache that was saved is loaded with what it remembers, if that outlasts its file, and with its time. -/
theorem exists_loadCache_of_lasting {t : Tree} {p : Path} (h : t.read p = .ok (Utf8.encode c.encode))
    (hlasting : Lasting c.entries) (log : Log) : ∃ time,
      (Build.loadCache p t log).1 = .ok { path := p, entries := sorted c.entries, lastBuild := time } ∧
        (c.lastBuild.IsFinite → c.lastBuild.isPositive → time = c.lastBuild) := by
  obtain ⟨time, hdecode, hsame⟩ := decode?_encode hlasting
  refine ⟨time, ?_, hsame⟩
  rw [loadCache_fst, readText_encode h]
  dsimp only
  rw [hdecode]

theorem get?_sorted (h : Lasting entries) (key : WideText) : (sorted entries).get? key = entries.get? key :=
  Table.get?_of_perm h.nodup (sorted_perm entries)

end ChangeCache

end Userscript
