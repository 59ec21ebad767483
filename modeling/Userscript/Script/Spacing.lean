import Userscript.Script.Literal
import Userscript.Text.Digit
import Userscript.Text.Lines

/-!
# Spacing

The spacing of a script is made regular without a change to its literals. While a line
is worked on, each of its literals is replaced by its number between two NUL characters;
a line that holds such a mark itself is read as if the mark stood for a literal.

## Main definitions

* `Script.mark` — what stands for a literal
* `Script.restore` — the literals put back for their marks, or the `MarkFault` of a mark
* `Script.normalizeLine` — a line with regular spacing
* `Script.normalizeLines` — a text whose lines are changed each by itself
* `Script.normalize` — a text with regular spacing
-/

namespace Userscript.Script

/-- How many columns of indentation a line keeps unless told otherwise. -/
def defaultIndentLimit : Int := 4

/-- The character on both sides of a mark. -/
def nul : Char := '\x00'

/-- What stands for literal `n` of a line. -/
def mark (n : Nat) : Text := nul :: Text.natural n ++ [nul]

/-- The pieces of a line with marks, counted from `n`, for its literals. -/
def marked (n : Nat) : List Piece → Text
  | [] => []
  | .char c :: rest => c :: marked n rest
  | .literal _ :: rest => mark n ++ marked (n + 1) rest

/-- The literals among the pieces of a line. -/
def literals (ps : List Piece) : List Text :=
  ps.filterMap fun
    | .literal t => some t
    | .char _ => none

/-- What is wrong with a mark that the line itself holds. -/
inductive MarkFault where
  /-- The line has no literal of that number. -/
  | noLiteral
  /-- The number is larger than any list is long. -/
  | hugeNumber
  /-- The number has more digits than are read. -/
  | longNumber (digits : Nat)
  deriving DecidableEq

/-- The wording of a fault. -/
def MarkFault.message : MarkFault → String
  | noLiteral => "list index out of range"
  | hugeNumber => "cannot fit 'int' into an index-sized integer"
  | longNumber digits => Text.tooManyDigits digits

/-- The literal that the digits of a mark name. No more digits are read than the limit
allows, but always as many as the number of a literal has. -/
def literalOf (saved : Array Text) (digits : Text) : Except MarkFault Text :=
  if max Text.digitLimit (Text.natural saved.size).length < digits.length then
    .error (.longNumber digits.length)
  else
    let n := Text.ofDigits digits
    match saved[n]? with
    | some t => .ok t
    | none => .error (if 1 <<< 63 ≤ n then .hugeNumber else .noLiteral)

/-- The digits of the mark whose first NUL stands right before a text, and what follows
the mark. -/
def digitsOfMark? (t : Text) : Option (Text × Text) :=
  match t.dropWhile Text.isDigit with
  | c :: rest =>
    let digits := t.takeWhile Text.isDigit
    if c = nul ∧ digits ≠ [] then some (digits, rest) else none
  | [] => none

theorem length_digitsOfMark?_lt {t digits rest : Text} (h : digitsOfMark? t = some (digits, rest)) :
    rest.length < t.length := by
  have hle := (List.dropWhile_sublist Text.isDigit (l := t)).length_le
  unfold digitsOfMark? at h
  split at h
  · next hd =>
    simp only [Option.ite_none_right_eq_some, Option.some.injEq, Prod.mk.injEq] at h
    rw [hd, h.2.2, List.length_cons] at hle
    omega
  · simp at h

/-- The text with the literals put back for the marks in it, from the first one on. -/
def restore (saved : Array Text) (t : Text) : Except MarkFault Text :=
  match t with
  | [] => .ok []
  | c :: t =>
    match _h : if c = nul then digitsOfMark? t else none with
    | some (digits, rest) => do
      let literal ← literalOf saved digits
      let after ← restore saved rest
      return literal ++ after
    | none => do
      let after ← restore saved t
      return c :: after
termination_by t.length
decreasing_by
  · split at _h
    · have := length_digitsOfMark?_lt _h
      simp only [List.length_cons]
      omega
    · simp at _h
  · simp

/-- Whether a character is spacing within a line. -/
def isGap (c : Char) : Bool := c = ' ' || c = '\t'

/-- The text with one space for every run of spaces and tabs. -/
def collapse (t : Text) : Text :=
  t.foldr (fun c rest =>
    if isGap c then (if rest.head? = some ' ' then rest else ' ' :: rest) else c :: rest) []

/-- A line with regular spacing: no blanks at its end, no more than `limit` columns of
indentation, and one space for every run of spaces and tabs outside its literals. -/
def normalizeLine (limit : Int) (line : Text) : Except MarkFault Text :=
  let ps := pieces line
  let work := Text.trimRight (marked 0 ps)
  let body := work.dropWhile isGap
  if body.isEmpty then .ok []
  else
    let indent := min ((work.length - body.length : Nat) : Int) limit
    restore (literals ps).toArray (List.replicate indent.toNat ' ' ++ collapse body)

/-- The text with two line feeds for every longer run of them. -/
def capBlankLines (t : Text) : Text :=
  t.foldr (fun c rest =>
    if c = '\n' ∧ (Text.after? ['\n', '\n'] rest).isSome then rest else c :: rest) []

/-- How many columns a line is indented by, unless it is blank. -/
def indentation? (line : Text) : Option Nat :=
  let work := Text.trimRight (marked 0 (pieces line))
  let body := work.dropWhile isGap
  if body.isEmpty then none else some (work.length - body.length)

/-- The text whose lines are changed each by itself, with no more than one blank line between
two others and no blanks at its ends. -/
def normalizeLines {ε : Type} (line : Text → Except ε Text) (t : Text) : Except ε Text := do
  let ls ← (Text.lines t).mapM line
  return Text.trim (capBlankLines (Text.unlines ls))

/-- A text with regular spacing: its lines are regular, no more than one blank line stands
between two others, and no blanks stand at its ends. -/
def normalize (limit : Int) (t : Text) : Except MarkFault Text :=
  normalizeLines (normalizeLine limit) t

/-- The first fault of some lines is the first one under another name. -/
theorem mapM_mapError {ε ε' : Type} (f : ε → ε') (line : Text → Except ε Text) (ls : List Text) :
    ls.mapM (fun l => (line l).mapError f) = (ls.mapM line).mapError f := by
  induction ls with
  | nil => rfl
  | cons l rest ih =>
    rw [List.mapM_cons, List.mapM_cons, ih]
    cases line l with
    | error => rfl
    | ok => cases rest.mapM line <;> rfl

/-- The fault of a text is that of its lines under another name. -/
theorem normalizeLines_mapError {ε ε' : Type} (f : ε → ε') (line : Text → Except ε Text) (t : Text) :
    normalizeLines (fun l => (line l).mapError f) t = (normalizeLines line t).mapError f := by
  unfold normalizeLines
  rw [mapM_mapError]
  cases (Text.lines t).mapM line <;> rfl

end Userscript.Script
