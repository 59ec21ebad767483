import Userscript.Json.Conversion
import Userscript.Text.Lines
import Userscript.Text.Search

/-!
# Verdicts on a script

A parser either accepts a script or says what is wrong with it and, if it can, where. An
outside parser says so in the lines it prints.

## Main definitions

* `ParseFault` — what is wrong with a script, and where
* `Verdict` — what a parser says about a script
* `ParseFault.ofLines` — the fault that the lines of an outside parser report
-/

namespace Userscript

/-- What is wrong with a script, and where. -/
structure ParseFault where
  message : String
  line : Option Int := none
  column : Option Int := none
  deriving DecidableEq

/-- What a parser says about a script: what is wrong, or nothing. -/
abbrev Verdict := Option ParseFault

namespace ParseFault

/-- The digits at the end of a line `path:digits`. -/
def lineDigits? (line : Text) : Option Text :=
  let back := line.reverse
  let digits := (back.takeWhile Text.isDigit).reverse
  match back.dropWhile Text.isDigit with
  | ':' :: _ :: _ => if digits.isEmpty then none else some digits
  | _ => none

/-- The line number in the first line that an outside parser prints, if there is one. -/
def lineNumber (lines : List Text) : Except Json.ConversionFault (Option Int) :=
  match lines.head?.bind fun line => lineDigits? (Text.trim line) with
  | none => .ok none
  | some digits => (Json.readInt (String.ofList digits)).map some

/-- The fault that an outside parser reports: the last line it prints that speaks of an
error, and the line number at the end of the first one. Blank lines do not count. -/
def ofLines (printed : Text) : Except Json.ConversionFault ParseFault := do
  let lines := (Text.boundaryLines printed).filter fun line => !Text.isBlankText line
  let number ← lineNumber lines
  let message := lines.reverse.find? fun line => (Text.cut "Error".toList line).isSome
  return { message := String.ofList (message.getD "syntax check failed".toList), line := number }

end ParseFault

end Userscript
