import Userscript.Number.Decimal
import Userscript.Table
import Userscript.Text.Wide

/-!
# JSON values

The values of settings, manifests and cache files. Integers and floating-point numbers
are kept apart, and an object keeps the order of its keys. Texts and keys are wide, as an
escape may give half of a surrogate pair alone.

## Main definitions

* `Json` — the values
* `Json.field?` — the value of a key in an object
* `Json.isTruthy` — whether a value counts as present
* `Json.display` — the text of a value where a text is wanted
-/

namespace Userscript

/-- A JSON value. -/
inductive Json where
  | null
  | bool (b : Bool)
  | int (n : Int)
  | double (x : Binary64)
  | text (t : WideText)
  | list (items : List Json)
  | object (fields : List (WideText × Json))
  deriving Inhabited

namespace Json

/-- The value of a key among the fields of an object. -/
def field? (key : String) (fields : Table Json WideText) : Option Json := Table.get? (.proper key) fields

/-- Whether a value is `null`. -/
def isNull : Json → Bool
  | null => true
  | _ => false

/-- Whether a value counts as present: nothing, zero and whatever is empty do not. -/
def isTruthy : Json → Bool
  | null => false
  | bool b => b
  | int n => n != 0
  | double x => !x.isZero
  | text t => t ≠ .proper ""
  | list items => !items.isEmpty
  | object fields => !fields.isEmpty

/-- The name of a value's kind, as messages give it. -/
def kind : Json → String
  | null => "NoneType"
  | bool _ => "bool"
  | int _ => "int"
  | double _ => "float"
  | text _ => "str"
  | list _ => "list"
  | object _ => "dict"

mutual

/-- The text of a value inside a list or an object: texts are quoted. -/
def inner : Json → Text
  | null => "None".toList
  | bool true => "True".toList
  | bool false => "False".toList
  | int n => Text.integer n
  | double x => x.text
  | text t => t.quote
  | list items => '[' :: innerItems items ++ [']']
  | object fields => '\x7b' :: innerFields fields ++ ['\x7d']

/-- The texts of the items of a list, with commas between them. -/
def innerItems : List Json → Text
  | [] => []
  | [v] => inner v
  | v :: rest => inner v ++ ", ".toList ++ innerItems rest

/-- The texts of the fields of an object, with commas between them. -/
def innerFields : List (WideText × Json) → Text
  | [] => []
  | [(k, v)] => k.quote ++ ": ".toList ++ inner v
  | (k, v) :: rest => k.quote ++ ": ".toList ++ inner v ++ ", ".toList ++ innerFields rest

end

/-- The text of a value where a text is wanted. A text stands for itself, but for the halves of surrogate
pairs that stand alone in it: for each of them there is a replacement character, also where the text is
compared with other names. -/
def display : Json → String
  | text t => t.toString
  | v => String.ofList (inner v)

end Json

end Userscript
