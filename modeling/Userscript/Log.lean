import Userscript.Failure

/-!
# The log and what is read

Whatever happens on the way to a bundle is noted in a log, together with what is printed.
Steps that only read the tree are kept apart by their type: they can note something or
fail, and change nothing.

## Main definitions

* `Log.Entry`, `Log` — what was noted or printed, in order
* `Reading` — a step that reads
* `Reading.textOrNone` — the text of a file, with a note of why there is none
-/

namespace Userscript

/-- How important a note is. -/
inductive Log.Level where
  | debug
  | info
  | warning
  | error
  deriving DecidableEq, Repr

/-- The word for a level. -/
def Log.Level.word : Log.Level → String
  | debug => "DEBUG"
  | info => "INFO"
  | warning => "WARNING"
  | error => "ERROR"

/-- What is noted or printed. -/
inductive Log.Entry where
  | note (level : Log.Level) (message : String)
  /-- Printed for the user. -/
  | out (text : String)
  /-- Printed for the user as an error. -/
  | err (text : String)
  deriving DecidableEq

/-- What was noted or printed, in order. -/
abbrev Log := List Log.Entry

/-- A step that reads: it can note something or fail, and changes nothing else. -/
abbrev Reading (α : Type) := ExceptT Failure (StateM Log) α

namespace Reading

/-- Adds an entry to the log. -/
def add (entry : Log.Entry) : Reading Unit := modify (· ++ [entry])

/-- Notes a message. -/
def note (level : Log.Level) (message : String) : Reading Unit := add (.note level message)

/-- The text of a file, or nothing if it cannot be read, with a note of the reason. -/
def textOrNone (t : Tree) (p : Path) : Reading (Option Text) := do
  match t.find? p with
  | none =>
    note .debug s!"File not found: {p}"
    return none
  | some (.folder _) =>
    note .warning s!"Path is not a file: {p}"
    return none
  | some (.file ..) =>
    match t.readText p with
    | .ok text => return some text
    | .error fault =>
      note .error (s!"Failed to read file {p}: " ++ fault.message)
      return none

end Reading

end Userscript
