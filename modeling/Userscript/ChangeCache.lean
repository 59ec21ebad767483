import Userscript.Failure
import Userscript.Json.Printer

/-!
# The change cache

From one build to the next, a project remembers the time and the size of each module. A
module has changed if nothing is remembered about it or if either differs.

## Main definitions

* `ChangeCache` — what is remembered, the file it is kept in and the time of the last build
* `ChangeCache.isChanged`, `ChangeCache.record` — asking and noting, each for one module
* `ChangeCache.refresh` — asking and noting for many
* `ChangeCache.decode?`, `ChangeCache.encode` — the text of the file

## Main results

* `isChanged_record_self` — a module that was noted has not changed
* `get?_record_of_ne` — noting one module says nothing about the others
-/

namespace Userscript

/-- The time of the last change and the size of a file. -/
@[ext] structure Stat where
  stamp : Int
  size : Int
  deriving DecidableEq

/-- The stamp and the size of a file that are given as values. -/
def Stat.ofValues (stamp size : Json) : Except Json.ConversionFault Stat := do
  return ⟨← stamp.toInt, ← size.toInt⟩

/-- What is remembered about a file. -/
structure ChangeCache.Entry where
  path : WideText
  stat : Stat
  deriving DecidableEq

/-- What a project remembers about its modules, by the texts of their paths. A cache file may
hold texts that are those of no path. -/
structure ChangeCache where
  /-- The file it is kept in. -/
  path : Path
  entries : Table ChangeCache.Entry WideText := []
  /-- The time of the last build, in seconds. -/
  lastBuild : Binary64 := .zero

namespace ChangeCache

/-- Whether a file has changed, where `stat` is what it is now; a file that is not there
counts as changed. -/
def isChanged (c : ChangeCache) (path : Path) (stat : Option Stat) : Bool :=
  match stat with
  | none => true
  | some now =>
    match c.entries.get? (.proper path.toString) with
    | none => true
    | some before => before.stat ≠ now

/-- Whether a file has changed, where `stamp` and `size` are the values that it is said to have
now. The size counts only if the stamp is the same. -/
def isChangedGiven (c : ChangeCache) (path : Path) (stamp size : Json) :
    Except Json.ConversionFault Bool := do
  match c.entries.get? (.proper path.toString) with
  | none => return true
  | some before =>
    if before.stat.stamp ≠ (← stamp.toInt) then return true
    return before.stat.size ≠ (← size.toInt)

/-- The cache with a note of what a file is now. A file that is not there is forgotten. -/
def record (c : ChangeCache) (path : Path) (stat : Option Stat) : ChangeCache :=
  let key := WideText.proper path.toString
  match stat with
  | none => { c with entries := c.entries.erase key }
  | some now => { c with entries := c.entries.set key ⟨key, now⟩ }

/-- One file is asked for and noted; `changed` holds the paths found changed so far. -/
def refreshOne (stat : Path → Option Stat) (state : ChangeCache × List String) (path : Path) :
    ChangeCache × List String :=
  let (c, changed) := state
  let now := stat path
  let key := path.toString
  (c.record path now,
    if c.isChanged path now && !changed.contains key then changed ++ [key] else changed)

/-- Each file is asked for and noted, one after the other: the cache with the notes, and the
paths of the files that have changed. -/
def refresh (c : ChangeCache) (stat : Path → Option Stat) (paths : List Path) :
    ChangeCache × List String :=
  paths.foldl (refreshOne stat) (c, [])

/-- The entry that a row of a cache file gives. There is none if the row is malformed, but a
number beyond all bounds is a fault. -/
def row (key : WideText) (value : Json) : Except Json.ConversionFault (Option Entry) := do
  let .object fields := value | return none
  let some stamp := Json.field? "mtime" fields | return none
  let lenient (result : Except Json.ConversionFault Int) :
      Except Json.ConversionFault (Option Int) :=
    match result with
    | .ok n => .ok (some n)
    | .error fault => if fault.isOverflow then .error fault else .ok none
  let some stamp ← lenient stamp.toInt | return none
  let some size := Json.field? "size" fields | return none
  let some size ← lenient size.toInt | return none
  return some ⟨key, ⟨stamp, size⟩⟩

/-- The entries that the rows of a cache file give, in order. -/
def rows (fields : Table Json WideText) : Except Json.ConversionFault (Table Entry WideText) := do
  let entries ← fields.mapM fun (key, value) => do
    return (← row key value).map (key, ·)
  return entries.filterMap id

/-- The time of the last build that a cache file gives. -/
def lastBuildOf (fields : Table Json WideText) : Except Json.ConversionFault Binary64 :=
  match Json.field? "last_build" fields with
  | none => .ok .zero
  | some value => if value.isTruthy then value.toDouble else .ok .zero

/-- The rows of a cache file; there are none unless it is an object of the right shape. -/
def files? : Json → Option (Table Json WideText)
  | .object fields =>
    match Json.field? "files" fields with
    | none => some []
    | some (.object files) => some files
    | some _ => none
  | _ => none

/-- Why a text that is no JSON is not decoded. That it is nested too deep is a fault, and all else
makes it malformed. -/
def unreadable (fault : Json.Fault) : Failure :=
  match fault.cause with
  | .nesting kind => .fault (.nesting kind)
  | _ => .build (.cache (.malformed fault))

/-- The entries and the time of the last build that the text of a cache file gives; `levels` is how
deep it may be nested. -/
def decode? (levels : Nat) (raw : Text) : Except Failure (Table Entry WideText × Binary64) :=
  match Json.parseWithin levels raw with
  | .error fault => .error (unreadable fault)
  | .ok value =>
    match value, files? value with
    | .object fields, some files =>
      match rows files with
      | .error fault => .error (.fault (.conversion fault))
      | .ok entries =>
        match lastBuildOf fields with
        | .ok lastBuild => .ok (entries, lastBuild)
        | .error fault =>
          .error (if fault.isOverflow then .fault (.conversion fault)
            else .build (.cache (.lastBuild fault)))
    | _, _ => .error (.build (.cache .shape))

/-- The cache as a value, its entries by path. -/
def toJson (c : ChangeCache) : Json :=
  let sorted := c.entries.mergeSort fun a b => a.1.le b.1
  .object [
    ("files", .object (sorted.map fun (key, entry) =>
      (key, .object [("mtime", .int entry.stat.stamp), ("size", .int entry.stat.size)]))),
    ("last_build", .double c.lastBuild)]

/-- The text of the cache file. -/
def encode (c : ChangeCache) : Text := c.toJson.print ++ ['\n']

/-- A file that was noted has not changed. -/
theorem isChanged_record_self (c : ChangeCache) (path : Path) (now : Stat) :
    (c.record path (some now)).isChanged path (some now) = false := by
  simp [record, isChanged]

/-- Given as integers, a stamp and a size are those of the file. -/
theorem isChangedGiven_int (c : ChangeCache) (path : Path) (stamp size : Int) :
    c.isChangedGiven path (.int stamp) (.int size) = .ok (c.isChanged path (some ⟨stamp, size⟩)) := by
  unfold isChangedGiven isChanged
  cases c.entries.get? (.proper path.toString) with
  | none => rfl
  | some before =>
    by_cases h : before.stat.stamp = stamp <;> by_cases h' : before.stat.size = size <;>
      simp [Json.toInt, h, h', Stat.ext_iff, pure, Except.pure, bind, Except.bind]

/-- Noting one file says nothing about the others. -/
theorem get?_record_of_ne (c : ChangeCache) {path : Path} (stat : Option Stat) {key : String}
    (h : key ≠ path.toString) :
    (c.record path stat).entries.get? (.proper key) = c.entries.get? (.proper key) := by
  have h : WideText.proper key ≠ .proper path.toString := by simpa using h
  cases stat <;> simp [record, Table.get?_erase_of_ne h, Table.get?_set_of_ne h]

end ChangeCache

end Userscript
