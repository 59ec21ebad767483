import Userscript.Text.Quoted

/-!
# Wide texts

An escape can give half of a surrogate pair without the other half. Such a half is no
character, and still two texts that differ in their halves are different. A wide text keeps
the halves that stand alone; where a text is wanted, a replacement character stands for each.

## Main definitions

* `CodePoint` — a character, or half of a surrogate pair that stands alone
* `CodePoint.le` — the order of texts by the numbers of their code points
* `WideText` — a text in which such halves may stand
* `WideText.quote` — a wide text in quotes

## Main results

* `CodePoint.le_total` — of two texts, one comes before the other or is the same
* `points_ofPoints` — no code point is lost or added when a wide text is made of some
* `quote_proper` — a text without halves is quoted as a text
-/

namespace Userscript

/-- A character, or half of a surrogate pair that stands alone. -/
inductive CodePoint where
  | char (c : Char)
  | half (unit : Nat)
  deriving DecidableEq, Repr

namespace CodePoint

/-- The number of a code point. -/
def toNat : CodePoint → Nat
  | char c => c.toNat
  | half unit => unit

/-- The character that a code point is. -/
def char? : CodePoint → Option Char
  | char c => some c
  | half _ => none

/-- The character that stands for a code point in a text. -/
def toChar : CodePoint → Char
  | char c => c
  | half _ => '\uFFFD'

/-- How a code point is written between quotes `q`. -/
def quote (q : Char) : CodePoint → Text
  | char c => Text.quoteChar q c
  | half unit => '\\' :: 'u' :: Text.hex 4 unit

/-- Whether some code points come before others, or are the same: the first ones that differ
decide by their numbers, and what ends first comes first. -/
def le : List CodePoint → List CodePoint → Bool
  | [], _ => true
  | _ :: _, [] => false
  | p :: ps, q :: qs => p.toNat < q.toNat || (p.toNat == q.toNat && le ps qs)

/-- Of two runs of code points, one comes before the other or is the same. -/
theorem le_total (ps qs : List CodePoint) : (le ps qs || le qs ps) = true := by
  induction ps generalizing qs with
  | nil => simp [le]
  | cons p ps ih =>
    cases qs with
    | nil => simp [le]
    | cons q qs =>
      simp only [le, Bool.or_eq_true, Bool.and_eq_true, decide_eq_true_eq, beq_iff_eq] at ih ⊢
      rcases Nat.lt_trichotomy p.toNat q.toNat with h | h | h
      · exact .inl (.inl h)
      · exact (ih qs).imp (.inr ⟨h, ·⟩) (.inr ⟨h.symm, ·⟩)
      · exact .inr (.inl h)

end CodePoint

/-- A text in which halves of surrogate pairs may stand alone. -/
inductive WideText where
  /-- A text without halves. -/
  | proper (s : String)
  /-- The code points of a text with halves. -/
  | torn (points : List CodePoint)
  deriving DecidableEq, Repr, Inhabited

namespace WideText

instance : Coe String WideText := ⟨.proper⟩

/-- The code points of a text. -/
def points : WideText → List CodePoint
  | proper s => s.toList.map .char
  | torn ps => ps

/-- The text of some code points. -/
def ofPoints (ps : List CodePoint) : WideText :=
  match ps.mapM CodePoint.char? with
  | some t => proper (String.ofList t)
  | none => torn ps

/-- The text with a replacement character for every half. -/
def toString : WideText → String
  | proper s => s
  | torn ps => String.ofList (ps.map CodePoint.toChar)

instance : ToString WideText := ⟨WideText.toString⟩

/-- Whether a text comes before another one, or is the same, by the numbers of its code
points. -/
def le (a b : WideText) : Bool :=
  CodePoint.le a.points b.points

/-- A text in quotes. -/
def quote (t : WideText) : Text :=
  let q := Text.enclosing t.toString.toList
  [q] ++ t.points.flatMap (CodePoint.quote q) ++ [q]

/-- Code points that are characters are those of a text. -/
theorem map_char_of_mapM {ps : List CodePoint} {t : Text} (h : ps.mapM CodePoint.char? = some t) :
    t.map CodePoint.char = ps := by
  induction ps generalizing t with
  | nil => simp_all
  | cons p rest ih =>
    cases p with
    | half => simp [CodePoint.char?] at h
    | char c =>
      cases hrest : rest.mapM CodePoint.char? with
      | none => simp [CodePoint.char?, hrest] at h
      | some t' =>
        simp only [List.mapM_cons, CodePoint.char?, hrest, Option.pure_def, Option.bind_eq_bind,
          Option.bind_some, Option.some.injEq] at h
        simp [← h, ih hrest]

/-- No code point is lost or added when a text is made of some. -/
@[simp] theorem points_ofPoints (ps : List CodePoint) : (ofPoints ps).points = ps := by
  unfold ofPoints
  split
  · next h => simp [points, map_char_of_mapM h]
  · rfl

/-- A text without halves is quoted as a text. -/
theorem quote_proper (s : String) : (proper s).quote = Text.quote s.toList := by
  simp [quote, points, toString, Text.quote, List.flatMap_map, CodePoint.quote]

end WideText

end Userscript
