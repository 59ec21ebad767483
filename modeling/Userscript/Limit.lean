import Userscript.Json.Given

/-!
# Limits of time

An outside program is given a number of seconds. A limit is shown as it was given, and it may
have been given as a value that is no number, which shows only when a program is to be stopped.
A list that is given for a setting is shown as one that cannot be changed any more.

## Main definitions

* `Limit` — a limit of time
* `Limit.ofJson`, `Limit.ofGiven` — the limit that a value is, by itself or given for a setting
* `Limit.text`, `Limit.quoted` — how it is shown
* `Number.isOver` — whether a number of seconds is over at once
-/

namespace Userscript

/-- Whether a number of seconds is over at once: it is zero, negative or not-a-number. -/
def Number.isOver : Number → Bool
  | int n => n ≤ 0
  | double x => !x.isPositive
  | truth b => !b

/-- A limit of time. -/
inductive Limit where
  | seconds (n : Number)
  /-- A value that is no number. -/
  | other (v : Json)
  /-- A list that cannot be changed any more. -/
  | settled (items : List Json)

namespace Limit

/-- The limit that a value is. -/
def ofJson : Json → Limit
  | .int n => seconds (.int n)
  | .double x => seconds (.double x)
  | .bool b => seconds (.truth b)
  | v => other v

/-- The limit that a value gives as a setting. -/
def ofGiven : Json → Limit
  | .list items => settled items
  | v => ofJson v

/-- A limit as a part of a sentence. -/
def text : Limit → String
  | seconds n => String.ofList n.text
  | other v => v.display
  | settled items => (Json.list items).givenDisplay

/-- A limit as it is shown by itself. -/
def quoted : Limit → Text
  | seconds n => n.text
  | other v => v.inner
  | settled items => (Json.list items).givenInner

end Limit

end Userscript
