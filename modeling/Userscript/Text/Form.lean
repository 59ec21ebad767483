import Userscript.Text.Search

/-!
# Forms of text

A form says what a piece of text looks like. It reads as much of a text as it covers, or
does not apply. Forms are put together from fixed texts, single characters, runs of
characters and gaps; a gap is as short as possible.

## Main definitions

* `Text.Form` — a form
* `Form.fixed`, `Form.run`, `Form.one`, `Form.andThen`, `Form.upTo` — building forms
* `Form.search` — the first place where a form applies
* `Form.removeAll` — a text without the pieces that have a form

## Main results

* `removeAll_eq_self` — nothing is taken out where no piece can begin
-/

namespace Userscript.Text

/-- A form: what it covers at the beginning of a text, and what follows. -/
abbrev Form := Text → Option (Text × Text)

namespace Form

/-- The text itself. -/
def fixed (needle : Text) : Form := fun t => (after? needle t).map (needle, ·)

/-- All characters with a property that a text begins with. -/
def run (p : Char → Bool) : Form := fun t => some (t.takeWhile p, t.dropWhile p)

/-- All blanks that a text begins with. -/
def blanks : Form := run isBlank

/-- One character with a property. -/
def one (p : Char → Bool) : Form
  | [] => none
  | c :: t => if p c then some ([c], t) else none

/-- One form, and right behind it another. -/
def andThen (first second : Form) : Form := fun t => do
  let (covered, rest) ← first t
  let (covered', rest) ← second rest
  return (covered ++ covered', rest)

/-- The first place where a form applies: the text before it, what the form covers and
what follows. `seen` holds, last character first, what has been passed over. -/
def searchFrom (form : Form) (seen : Text) : Text → Option (Text × Text × Text)
  | [] => (form []).map fun (covered, rest) => (seen.reverse, covered, rest)
  | c :: t =>
    match form (c :: t) with
    | some (covered, rest) => some (seen.reverse, covered, rest)
    | none => searchFrom form (c :: seen) t

/-- The first place where a form applies: the text before it, what the form covers and
what follows. -/
def search (form : Form) (t : Text) : Option (Text × Text × Text) := searchFrom form [] t

/-- Any characters, and behind them, as early as possible, a form. -/
def upTo (form : Form) : Form := fun t =>
  (search form t).map fun (before, covered, rest) => (before ++ covered, rest)

/-- What remains when the pieces that have a form are taken out, from left to right.
`skip` characters at the beginning belong to a piece, and `seen` holds, last character
first, what remains of the text before. -/
def removeFrom (form : Form) (skip : Nat) (seen : Text) : Text → Text
  | [] => seen.reverse
  | c :: t =>
    match skip, form (c :: t) with
    | n + 1, _ => removeFrom form n seen t
    | 0, some (_ :: covered, _) => removeFrom form covered.length seen t
    | 0, _ => removeFrom form 0 (c :: seen) t

/-- The text without the pieces that have a form. -/
def removeAll (form : Form) (t : Text) : Text := removeFrom form 0 [] t

theorem removeFrom_eq_append {form : Form} {t : Text} (h : ∀ c ∈ t, ∀ t', form (c :: t') = none)
    (seen : Text) : removeFrom form 0 seen t = seen.reverse ++ t := by
  induction t generalizing seen with
  | nil => simp [removeFrom]
  | cons c t ih =>
    have hc := h c (by simp) t
    have ht := ih (fun d hd => h d (by simp [hd])) (c :: seen)
    simp [removeFrom, hc, ht]

/-- Nothing is taken out of a text if no piece can begin with one of its characters. -/
theorem removeAll_eq_self {form : Form} {t : Text} (h : ∀ c ∈ t, ∀ t', form (c :: t') = none) :
    removeAll form t = t := by
  simp [removeAll, removeFrom_eq_append h]

end Form

end Userscript.Text
