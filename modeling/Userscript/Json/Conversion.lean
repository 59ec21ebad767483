import Userscript.Json.Basic
import Userscript.Text.Search

/-!
# Conversion of values

A setting or a field of a cache file is converted to the kind of value that is wanted.
Integers come from numbers, truth values and texts, and so do floating-point numbers; a
list of values comes from a list, from the keys of an object or from the characters of a
text.

## Main definitions

* `Json.ConversionFault` — why a value cannot be converted, with its `message`
* `Json.toInt`, `Json.toDouble`, `Json.toList`, `Json.toPathText` — the conversions
-/

namespace Userscript.Json

/-- Why a value cannot be converted. -/
inductive ConversionFault where
  /-- The text is no integer. -/
  | notInteger (t : WideText)
  /-- A value of this kind is never an integer. -/
  | notIntegerKind (kind : String)
  /-- The text has more digits than are read. -/
  | longInteger (digits : Nat)
  | nanInteger
  | infiniteInteger
  /-- The text is no number. -/
  | notDouble (t : WideText)
  /-- A value of this kind is never a number. -/
  | notDoubleKind (kind : String)
  /-- The integer is beyond the largest floating-point number. -/
  | hugeDouble
  /-- A value of this kind has no items. -/
  | notIterable (kind : String)
  /-- A value of this kind is no path. -/
  | notPath (kind : String)
  deriving DecidableEq

/-- Whether a value of the right kind is too large to be converted. -/
def ConversionFault.isOverflow : ConversionFault → Bool
  | infiniteInteger | hugeDouble => true
  | _ => false

/-- The wording of a fault. -/
def ConversionFault.message : ConversionFault → String
  | notInteger t =>
    "invalid literal for int() with base 10: " ++ String.ofList (t.quote.take 200)
  | notIntegerKind kind =>
    "int() argument must be a string, a bytes-like object or a real number, not '" ++ kind ++ "'"
  | longInteger digits => Text.tooManyDigits digits
  | nanInteger => "cannot convert float NaN to integer"
  | infiniteInteger => "cannot convert float infinity to integer"
  | notDouble t => "could not convert string to float: " ++ String.ofList t.quote
  | notDoubleKind kind => "float() argument must be a string or a real number, not '" ++ kind ++ "'"
  | hugeDouble => "int too large to convert to float"
  | notIterable kind => "'" ++ kind ++ "' object is not iterable"
  | notPath kind => "expected str, bytes or os.PathLike object, not " ++ kind

/-- Whether underscores stand between digits only, and one at a time, in a run of digits and
underscores. -/
def separates (run : Text) : Bool :=
  run.head? ≠ some '_' && run.getLast? ≠ some '_' && (Text.cut ['_', '_'] run).isNone

/-- How many digits the integer at the beginning of a text has, whatever follows it. There is
none if its underscores do not separate digits. -/
def digitCount? (t : Text) : Option Nat :=
  let run := (Text.takeSign (Text.unpad t)).2.takeWhile fun c => Text.isDigit c || c = '_'
  if separates run then some (run.countP Text.isDigit) else none

/-- The integer that a text denotes. A number with too many digits is refused before anything
that follows it is looked at. -/
def readInt (t : WideText) : Except ConversionFault Int :=
  let read := t.toString.toList
  match (digitCount? read).filter (Text.digitLimit < ·) with
  | some digits => .error (.longInteger digits)
  | none =>
    match Text.readInt? read with
    | some n => .ok n
    | none => .error (.notInteger t)

/-- A value as an integer; the places of a number are cut off. -/
def toInt : Json → Except ConversionFault Int
  | int n => .ok n
  | bool b => .ok (if b then 1 else 0)
  | double .nan => .error .nanInteger
  | double x =>
    match x.truncate? with
    | some n => .ok n
    | none => .error .infiniteInteger
  | text t => readInt t
  | v => .error (.notIntegerKind v.kind)

/-- A value as a floating-point number. -/
def toDouble : Json → Except ConversionFault Binary64
  | int n =>
    match Binary64.ofInt? n with
    | some x => .ok x
    | none => .error .hugeDouble
  | bool b => .ok (Binary64.round false (if b then 1 else 0) 1)
  | double x => .ok x
  | text t =>
    match Binary64.read? t.toString.toList with
    | some x => .ok x
    | none => .error (.notDouble t)
  | v => .error (.notDoubleKind v.kind)

/-- The items of a value. -/
def toList : Json → Except ConversionFault (List Json)
  | list items => .ok items
  | object fields => .ok (fields.map fun (key, _) => text key)
  | text t => .ok (t.points.map fun point => text (.ofPoints [point]))
  | v => .error (.notIterable v.kind)

/-- A value as the text of a path. -/
def toPathText : Json → Except ConversionFault String
  | text t => .ok t.toString
  | v => .error (.notPath v.kind)

end Userscript.Json
