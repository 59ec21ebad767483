import Userscript.Log
import Userscript.Text.Form

/-!
# What is seen of a command

What a command prints is shown without the sequences that control a terminal, such as those that
set a colour; the notes of a log are shown with them. What only begins like such a sequence is
shown. A carriage return at the end of a line is not seen.

## Main definitions

* `Screen` — what is seen of a command that has ended
* `Screen.control`, `Screen.plain` — a control sequence, and a text without any
* `Screen.joinEndings` — a text without carriage returns at the ends of its lines

## Main results

* `plain_eq_self` — a text without the escape character is shown as it is
-/

namespace Userscript.CommandLine

open Text (Form)

/-- What is seen of a command that has ended. -/
structure Screen where
  exit : Nat
  out : String := ""
  err : String := ""

namespace Screen

/-- The character that a control sequence begins with. -/
def escape : Char := '\x1B'

/-- Whether a character is a part of the numbers in a control sequence: a digit or one of the six
signs after the digits. -/
def isParameter (c : Char) : Bool := '0' ≤ c && c ≤ '?'

/-- Whether a character may stand between the numbers and the end of a control sequence: a space
or one of the signs before the digits. -/
def isIntermediate (c : Char) : Bool := ' ' ≤ c && c ≤ '/'

/-- Whether a character ends a control sequence and says what it does: a letter or one of the
signs around the letters. -/
def isFinal (c : Char) : Bool := '@' ≤ c && c ≤ '~'

/-- A sequence that controls a terminal: the escape character and a bracket, some numbers, some
signs, and a character that ends it. -/
def control : Form :=
  (Form.fixed [escape, '[']).andThen <|
    (Form.run isParameter).andThen ((Form.run isIntermediate).andThen (Form.one isFinal))

/-- A text without control sequences. -/
def plain (s : String) : String := String.ofList (control.removeAll s.toList)

/-- A text with a line feed for every carriage return that a line feed follows, and the line
feed. -/
def joinEndings : Text → Text
  | '\r' :: '\n' :: t => '\n' :: joinEndings t
  | c :: t => c :: joinEndings t
  | [] => []

/-- What is seen of some pieces of text, one after the other. -/
def seen (pieces : List String) : String :=
  String.ofList (joinEndings (String.join pieces).toList)

/-- A text without the escape character is shown as it is. -/
theorem plain_eq_self {s : String} (h : escape ∉ s.toList) : plain s = s := by
  have hnone : ∀ c ∈ s.toList, ∀ t', control (c :: t') = none := by
    intro c hc t'
    have hne : escape ≠ c := fun e => h (e ▸ hc)
    simp [control, Form.andThen, Form.fixed, Text.after?, hne]
  simp [plain, Form.removeAll_eq_self hnone]

end Screen

end Userscript.CommandLine
