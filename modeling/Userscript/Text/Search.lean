import Userscript.Text.Blank

/-!
# Searching a text

The one search the library needs: the first place where a given text stands.

## Main definitions

* `Text.after?` — what follows a text at the beginning of another
* `Text.cut` — what stands before and after the first occurrence of a text
* `Text.replaceFirst` — the first occurrence of a text replaced

## Main results

* `after?_eq_some_iff` — `after?` undoes appending
* `eq_append_of_cut` — the two parts and the text found make up the whole
* `cut_cons` — the search goes on behind a character at which the text does not stand
-/

namespace Userscript.Text

/-- What follows `needle` at the beginning of a text, if the text begins with it. -/
def after? : Text → Text → Option Text
  | [], t => some t
  | _ :: _, [] => none
  | n :: needle, c :: t => if n = c then after? needle t else none

/-- The parts of a text before and after the first occurrence of `needle`; `seen` holds,
last character first, what has been passed over. -/
def cutFrom (needle seen : Text) : Text → Option (Text × Text)
  | [] => if needle.isEmpty then some (seen.reverse, []) else none
  | c :: t =>
    match after? needle (c :: t) with
    | some rest => some (seen.reverse, rest)
    | none => cutFrom needle (c :: seen) t

/-- The parts of a text before and after the first occurrence of `needle`. -/
def cut (needle t : Text) : Option (Text × Text) := cutFrom needle [] t

/-- The text with the first occurrence of `needle` replaced by `new`. -/
def replaceFirst (needle new t : Text) : Text :=
  match cut needle t with
  | some (before, rest) => before ++ new ++ rest
  | none => t

/-- Whether a text ends with `needle`. -/
def endsWith (needle t : Text) : Bool := needle.reverse.isPrefixOf t.reverse

@[simp] theorem after?_nil (t : Text) : after? [] t = some t := by cases t <;> rfl

theorem after?_eq_some_iff {needle t rest : Text} :
    after? needle t = some rest ↔ t = needle ++ rest := by
  induction needle generalizing t with
  | nil => simp [eq_comm]
  | cons n needle ih =>
    cases t with
    | nil => simp [after?]
    | cons c t =>
      by_cases h : n = c
      · subst h; simp [after?, ih]
      · simp [after?, h, Ne.symm h]

theorem eq_append_of_cutFrom {needle seen t before rest : Text}
    (h : cutFrom needle seen t = some (before, rest)) :
    seen.reverse ++ t = before ++ needle ++ rest := by
  induction t generalizing seen with
  | nil => cases needle <;> simp_all [cutFrom]
  | cons c t ih =>
    rw [cutFrom] at h
    split at h
    · next found =>
      simp only [Option.some.injEq, Prod.mk.injEq] at h
      obtain ⟨rfl, rfl⟩ := h
      rw [after?_eq_some_iff.1 found, List.append_assoc]
    · simpa using ih h

/-- The two parts and the text found between them make up the whole. -/
theorem eq_append_of_cut {needle t before rest : Text} (h : cut needle t = some (before, rest)) :
    t = before ++ needle ++ rest := by
  simpa using eq_append_of_cutFrom h

theorem cutFrom_eq (needle seen t : Text) :
    cutFrom needle seen t =
      (cut needle t).map fun (before, rest) => (seen.reverse ++ before, rest) := by
  rw [cut]
  induction t generalizing seen with
  | nil => cases needle <;> simp [cutFrom]
  | cons c t ih =>
    rw [cutFrom, cutFrom]
    cases after? needle (c :: t) with
    | some rest => simp
    | none =>
      dsimp only
      rw [ih (c :: seen), ih [c], Option.map_map]
      congr 1
      funext found
      simp

/-- The search goes on behind a character at which the text does not stand. -/
theorem cut_cons (needle : Text) (c : Char) (t : Text) :
    cut needle (c :: t) =
      match after? needle (c :: t) with
      | some rest => some ([], rest)
      | none => (cut needle t).map fun (before, rest) => (c :: before, rest) := by
  rw [cut, cutFrom]
  split
  · rfl
  · rw [cutFrom_eq]
    rfl

end Userscript.Text
