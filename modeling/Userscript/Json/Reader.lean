import Userscript.Json.Basic
import Userscript.Text.Search

/-!
# Reading JSON

A text is read as one JSON value. Besides the standard's values the reader takes `NaN`,
`Infinity` and `-Infinity`; a number without point and exponent is an integer, of which
it takes at most 4300 digits. Lists and objects are followed as deep as the reader is told to.
Where reading stops, it is exact about the place.

## Main definitions

* `Json.Cause` — what is wrong with a text
* `Json.Fault` — the cause and the place that stopped reading, with its `message`
* `Json.value` — reading a value at the beginning of a text
* `Json.parseWithin`, `Json.parse` — reading a whole text, with a limit to its nesting and without
-/

namespace Userscript.Json

/-- What is wrong with a text. -/
inductive Cause where
  | value
  | propertyName
  | colon
  | comma
  | extraData
  | unterminatedString
  | controlCharacter
  | escape
  | unicodeEscape
  | byteOrderMark
  /-- An integer has too many digits. -/
  | longInteger (digits : Nat)
  /-- Lists or objects, as `kind` says, are nested too deep. -/
  | nesting (kind : String)
  deriving DecidableEq

/-- Why reading stopped, and the rest of the text from that place on. -/
structure Stop where
  cause : Cause
  rest : Text

/-- The text without the white space it begins with. -/
def skip (t : Text) : Text := t.dropWhile fun c => c = ' ' || c = '\t' || c = '\n' || c = '\r'

/-- The value of a digit in base sixteen. -/
def hexDigit? (c : Char) : Option Nat :=
  if '0' ≤ c ∧ c ≤ '9' then some (c.toNat - 48)
  else if 'a' ≤ c ∧ c ≤ 'f' then some (c.toNat - 87)
  else if 'A' ≤ c ∧ c ≤ 'F' then some (c.toNat - 55)
  else none

/-- The UTF-16 unit that four digits in base sixteen give. -/
def unit? (a b c d : Char) : Option Nat := do
  let a ← hexDigit? a
  let b ← hexDigit? b
  let c ← hexDigit? c
  let d ← hexDigit? d
  return 0x1000 * a + 0x100 * b + 0x10 * c + d

/-- Whether a unit is the first half of a surrogate pair. -/
def isHigh (n : Nat) : Bool := 0xD800 ≤ n && n < 0xDC00

/-- Whether a unit is the second half of a surrogate pair. -/
def isLow (n : Nat) : Bool := 0xDC00 ≤ n && n < 0xE000

/-- The code point that one unit gives. -/
def unitPoint (n : Nat) : CodePoint := if isHigh n || isLow n then .half n else .char (.ofNat n)

/-- The character that a letter stands for behind a backslash. -/
def escaped? : Char → Option Char
  | '"' => some '"'
  | '\\' => some '\\'
  | '/' => some '/'
  | 'b' => some '\x08'
  | 'f' => some '\x0C'
  | 'n' => some '\n'
  | 'r' => some '\r'
  | 't' => some '\t'
  | _ => none

/-- The code point that an escape gives, from behind its letter `u` on, and how many
characters the escape takes up from there. An escape needs a character behind it, as the
string is not closed otherwise. Two escapes that make up a surrogate pair give one
character. -/
def unicodeEscape (t : Text) : Except Stop (CodePoint × Nat) :=
  match t with
  | a :: b :: c :: d :: e :: rest =>
    match unit? a b c d with
    | none => .error ⟨.unicodeEscape, 'u' :: t⟩
    | some high =>
      match isHigh high, e, rest with
      | true, '\\', 'u' :: a' :: b' :: c' :: d' :: _ :: _ =>
        match unit? a' b' c' d' with
        | none => .error ⟨.unicodeEscape, rest⟩
        | some low =>
          if isLow low then
            .ok (.char (.ofNat (0x10000 + (high - 0xD800) * 0x400 + (low - 0xDC00))), 10)
          else .ok (unitPoint high, 4)
      | _, _, _ => .ok (unitPoint high, 4)
  | _ => .error ⟨.unicodeEscape, 'u' :: t⟩

/-- The rest of a string behind its opening quote. `whole` is the text from that quote on
and `seen` holds the code points read, last one first. -/
def string (whole : Text) (seen : List CodePoint) : Text → Except Stop (WideText × Text)
  | [] => .error ⟨.unterminatedString, whole⟩
  | '"' :: t => .ok (.ofPoints seen.reverse, t)
  | ['\\'] => .error ⟨.unterminatedString, whole⟩
  | '\\' :: 'u' :: t =>
    match unicodeEscape t with
    | .ok (point, taken) => string whole (point :: seen) (t.drop taken)
    | .error stop => .error stop
  | '\\' :: c :: t =>
    match escaped? c with
    | some c => string whole (.char c :: seen) t
    | none => .error ⟨.escape, '\\' :: c :: t⟩
  | c :: t =>
    if c.toNat < 0x20 then .error ⟨.controlCharacter, c :: t⟩
    else string whole (.char c :: seen) t
termination_by t => t.length

/-- The digits at the beginning of a text, and the rest. -/
def digits (t : Text) : Text × Text := t.span Text.isAsciiDigit

/-- The places behind a point, with the rest; there are none without a digit. -/
def fraction (t : Text) : Text × Text :=
  match t with
  | '.' :: t' =>
    match digits t' with
    | ([], _) => ([], t)
    | found => found
  | _ => ([], t)

/-- The exponent of a number, with the rest; there is none without a digit. -/
def exponent (t : Text) : Option Int × Text :=
  match t with
  | c :: t' =>
    if c = 'e' ∨ c = 'E' then
      let (negative, t'') := Text.takeSign t'
      match digits t'' with
      | ([], _) => (none, t)
      | (ds, rest) => (some (if negative then -(Text.ofDigits ds : Int) else Text.ofDigits ds), rest)
    else (none, t)
  | [] => (none, [])

/-- The number whose digits begin a text; `whole` is the text from its sign on. -/
def number (whole : Text) (negative : Bool) (t : Text) : Except Stop (Json × Text) :=
  let (ds, rest) :=
    match t with
    | '0' :: rest => (['0'], rest)
    | _ => digits t
  if ds.isEmpty then .error ⟨.value, whole⟩
  else
    let (places, rest) := fraction rest
    let (power, rest) := exponent rest
    if places.isEmpty && power.isNone then
      if Text.digitLimit < ds.length then .error ⟨.longInteger ds.length, whole⟩
      else
        let n : Int := Text.ofDigits ds
        .ok (.int (if negative then -n else n), rest)
    else
      .ok (.double (.ofDecimal negative (Text.ofDigits (ds ++ places)) (power.getD 0 - places.length)),
        rest)

/-- The values written as words. -/
def words : List (String × Json) :=
  [("null", .null), ("true", .bool true), ("false", .bool false), ("NaN", .double .nan),
    ("Infinity", .double (.infinite false)), ("-Infinity", .double (.infinite true))]

/-- The word at the beginning of a text. -/
def word? (t : Text) : Option (Json × Text) :=
  words.findSome? fun (w, v) => (Text.after? w.toList t).map (v, ·)

/-- A value that is neither a string nor a list nor an object. -/
def scalar (t : Text) : Except Stop (Json × Text) :=
  match word? t with
  | some found => .ok found
  | none =>
    match t with
    | '-' :: t' => number t true t'
    | _ => number t false t

mutual

/-- The value at the beginning of a text. The fuel bounds the number of steps; the length
of the text suffices. `levels` is how deep lists and objects may be nested. -/
def value (levels fuel : Nat) (t : Text) : Except Stop (Json × Text) :=
  match fuel with
  | 0 => .error ⟨.value, t⟩
  | fuel + 1 =>
    match t with
    | '"' :: t' => (string t [] t').map fun (found, rest) => (.text found, rest)
    | '[' :: t' =>
      match levels with
      | 0 => .error ⟨.nesting "array", t⟩
      | levels + 1 =>
        match skip t' with
        | ']' :: rest => .ok (.list [], rest)
        | t' => items levels fuel [] t'
    | '\x7b' :: t' =>
      match levels with
      | 0 => .error ⟨.nesting "object", t⟩
      | levels + 1 =>
        match skip t' with
        | '\x7d' :: rest => .ok (.object [], rest)
        | t' => fields levels fuel [] t'
    | _ => scalar t

/-- The rest of a list, from an item on; `seen` holds the items read, last one first. -/
def items (levels fuel : Nat) (seen : List Json) (t : Text) : Except Stop (Json × Text) :=
  match fuel with
  | 0 => .error ⟨.value, t⟩
  | fuel + 1 => do
    let (v, rest) ← value levels fuel t
    match skip rest with
    | ']' :: rest => .ok (.list (v :: seen).reverse, rest)
    | ',' :: rest => items levels fuel (v :: seen) (skip rest)
    | rest => .error ⟨.comma, rest⟩

/-- The rest of an object, from a key on; `seen` holds the fields read. -/
def fields (levels fuel : Nat) (seen : Table Json WideText) (t : Text) : Except Stop (Json × Text) :=
  match fuel with
  | 0 => .error ⟨.value, t⟩
  | fuel + 1 =>
    match t with
    | '"' :: t' => do
      let (key, rest) ← string t [] t'
      match skip rest with
      | ':' :: rest =>
        let (v, rest) ← value levels fuel (skip rest)
        let seen := Table.set key v seen
        match skip rest with
        | '\x7d' :: rest => .ok (.object seen, rest)
        | ',' :: rest => fields levels fuel seen (skip rest)
        | rest => .error ⟨.comma, rest⟩
      | rest => .error ⟨.colon, rest⟩
    | _ => .error ⟨.propertyName, t⟩

end

/-- Why a text is no JSON: the cause and the place, counted in characters. -/
structure Fault where
  cause : Cause
  /-- How many characters stand before the place. -/
  position : Nat
  /-- The line of the place, counted from one. -/
  line : Nat
  /-- The place within its line, counted from one. -/
  column : Nat

/-- The fault that a stop within a text amounts to. -/
def Stop.fault (whole : Text) (s : Stop) : Fault :=
  let position := whole.length - s.rest.length
  let before := whole.take position
  { cause := s.cause
    position
    line := 1 + before.count '\n'
    column := 1 + (before.reverse.takeWhile (· ≠ '\n')).length }

/-- Reads a whole text as one value, in which lists and objects may be nested as deep as `levels`
says. -/
def parseWithin (levels : Nat) (t : Text) : Except Fault Json :=
  let read : Except Stop Json := do
    if t.head? = some '\uFEFF' then .error ⟨.byteOrderMark, t⟩
    else
      let (v, rest) ← value levels (2 * t.length + 1) (skip t)
      match skip rest with
      | [] => .ok v
      | rest => .error ⟨.extraData, rest⟩
  read.mapError (Stop.fault t)

/-- Reads a whole text as one value, however deep lists and objects are nested in it: there are not
more of them in it than steps that reading can take. -/
def parse (t : Text) : Except Fault Json := parseWithin (2 * t.length + 1) t

/-- How deep lists and objects may be nested in practice. The interpreter takes 1000 calls within each
other, and what has called the reader takes up some of them. -/
def usualLevels : Nat := 980

/-- The wording of the refusal of lists or objects that are nested too deep. -/
def tooDeep (kind : String) : String :=
  s!"maximum recursion depth exceeded while decoding a JSON {kind} from a unicode string"

/-- The wording of a cause. -/
def Cause.message : Cause → String
  | .value => "Expecting value"
  | .propertyName => "Expecting property name enclosed in double quotes"
  | .colon => "Expecting ':' delimiter"
  | .comma => "Expecting ',' delimiter"
  | .extraData => "Extra data"
  | .unterminatedString => "Unterminated string starting at"
  | .controlCharacter => "Invalid control character at"
  | .escape => "Invalid \\escape"
  | .unicodeEscape => "Invalid \\uXXXX escape"
  | .byteOrderMark => "Unexpected UTF-8 BOM (decode using utf-8-sig)"
  | .longInteger n => Text.tooManyDigits n
  | .nesting kind => tooDeep kind

/-- The wording of a fault; that of a long integer and that of a deep nesting do not give the place. -/
def Fault.message (f : Fault) : String :=
  match f.cause with
  | .longInteger _ | .nesting _ => f.cause.message
  | cause => s!"{cause.message}: line {f.line} column {f.column} (char {f.position})"

end Userscript.Json
