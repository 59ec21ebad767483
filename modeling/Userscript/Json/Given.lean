import Userscript.Json.Conversion

/-!
# Values as they are given

A value that is given for a setting is not converted: it stays what it is, also if it is of
another kind than the setting needs. A list is given as one that cannot be changed any more,
which shows in its name and in its text. A value of the wrong kind does no harm until it is
used.

## Main definitions

* `Json.givenKind`, `Json.givenInner`, `Json.givenDisplay` — the name and the texts of a given
  value
* `Json.changeable` — what can be changed in a given value
* `Json.Misuse` — why a value of some kind cannot be used in some way
-/

namespace Userscript.Json

/-- The name of a given value's kind. -/
def givenKind : Json → String
  | list _ => "tuple"
  | v => v.kind

/-- The text of a given value inside another text. -/
def givenInner : Json → Text
  | list [v] => '(' :: inner v ++ [',', ')']
  | list items => '(' :: innerItems items ++ [')']
  | v => inner v

/-- The text of a given value where a text is wanted. -/
def givenDisplay : Json → String
  | text t => t.toString
  | v => String.ofList v.givenInner

/-- What can be changed in a given value: an object, and the lists and objects among the items
of a list. A value with something in it that can be changed is no member of a set. -/
def changeable : Json → List Json
  | list items => items.filter fun
    | list _ | object _ => true
    | _ => false
  | object fields => [object fields]
  | _ => []

/-- Why a value of some kind cannot be used in some way. -/
inductive Misuse where
  /-- As less than a number, or as no more than it. -/
  | compared (sign kind : String)
  /-- As a number that is added to a floating-point number. -/
  | added (kind : String)
  /-- As a name below a folder. -/
  | below (kind : String)
  /-- As a member of a set. -/
  | member (kind : String)
  /-- As the number of times a text is repeated. -/
  | repeated (kind : String)
  /-- As the end of a text. -/
  | ending (kind : String)
  deriving DecidableEq

/-- The wording of a misuse. -/
def Misuse.message : Misuse → String
  | compared sign kind =>
    "'" ++ sign ++ "' not supported between instances of '" ++ kind ++ "' and 'int'"
  | added kind => "unsupported operand type(s) for +: 'float' and '" ++ kind ++ "'"
  | below kind => "unsupported operand type(s) for /: 'PosixPath' and '" ++ kind ++ "'"
  | member kind => "unhashable type: '" ++ kind ++ "'"
  | repeated kind => "can't multiply sequence by non-int of type '" ++ kind ++ "'"
  | ending kind => "endswith first arg must be str or a tuple of str, not " ++ kind

end Userscript.Json
