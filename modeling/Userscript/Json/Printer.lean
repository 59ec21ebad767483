import Userscript.Json.Basic

/-!
# Writing JSON

Values are written in printable ASCII: every other character of a text is escaped, in
UTF-16 units, and so is half of a surrogate pair that stands alone. An object or a list goes
over several lines unless it is empty.

## Main definitions

* `Json.escape`, `Json.escapeWide` — a text as a JSON string
* `Json.print` — a value, indented by two spaces for each level
-/

namespace Userscript.Json

/-- A UTF-16 unit as an escape. -/
def escapeUnit (n : Nat) : Text := '\\' :: 'u' :: Text.hex 4 n

/-- A character inside a JSON string. -/
def escapeChar (c : Char) : Text :=
  if c = '"' ∨ c = '\\' then ['\\', c]
  else if c = '\n' then ['\\', 'n']
  else if c = '\r' then ['\\', 'r']
  else if c = '\t' then ['\\', 't']
  else if c = '\x08' then ['\\', 'b']
  else if c = '\x0C' then ['\\', 'f']
  else if ' ' ≤ c ∧ c ≤ '~' then [c]
  else if c.toNat < 0x10000 then escapeUnit c.toNat
  else
    let n := c.toNat - 0x10000
    escapeUnit (0xD800 + n / 0x400) ++ escapeUnit (0xDC00 + n % 0x400)

/-- A text as a JSON string. -/
def escape (t : Text) : Text := '"' :: t.flatMap escapeChar ++ ['"']

/-- A code point inside a JSON string. -/
def escapePoint : CodePoint → Text
  | .char c => escapeChar c
  | .half unit => escapeUnit unit

/-- A wide text as a JSON string. -/
def escapeWide (t : WideText) : Text := '"' :: t.points.flatMap escapePoint ++ ['"']

/-- A floating-point number in JSON. -/
def printDouble : Binary64 → Text
  | .nan => "NaN".toList
  | .infinite s => Binary64.signText s ++ "Infinity".toList
  | x => x.text

/-- A new line, indented for a level. -/
def newLine (level : Nat) : Text := '\n' :: List.replicate (2 * level) ' '

mutual

/-- A value that stands at a level. -/
def printAt (level : Nat) : Json → Text
  | null => "null".toList
  | bool true => "true".toList
  | bool false => "false".toList
  | int n => Text.integer n
  | double x => printDouble x
  | text t => escapeWide t
  | list [] => ['[', ']']
  | list (v :: rest) => '[' :: printItems (level + 1) (v :: rest) ++ newLine level ++ [']']
  | object [] => ['\x7b', '\x7d']
  | object (f :: rest) =>
    '\x7b' :: printFields (level + 1) (f :: rest) ++ newLine level ++ ['\x7d']

/-- The items of a list at a level, each on a line of its own. -/
def printItems (level : Nat) : List Json → Text
  | [] => []
  | [v] => newLine level ++ printAt level v
  | v :: rest => newLine level ++ printAt level v ++ ',' :: printItems level rest

/-- The fields of an object at a level, each on a line of its own. -/
def printFields (level : Nat) : List (WideText × Json) → Text
  | [] => []
  | [(k, v)] => newLine level ++ escapeWide k ++ ": ".toList ++ printAt level v
  | (k, v) :: rest =>
    newLine level ++ escapeWide k ++ ": ".toList ++ printAt level v ++
      ',' :: printFields level rest

end

/-- A value as JSON. -/
def print (v : Json) : Text := printAt 0 v

end Userscript.Json
