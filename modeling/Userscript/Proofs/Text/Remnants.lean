import Userscript.Proofs.Text.Forms

/-!
# What is left of a text

Where the pieces that have a form are taken out of a text, what stands before and behind a piece comes
together. So a piece may be left that has the form all the same, but only across such a place: what is left
of the text without a break has been there before, and the form applies nowhere in it.

## Main definitions

* `Text.Remnant` — a character that is left, and whether something was taken out right before it
* `Remnant.Unbroken` — nothing was taken out within a stretch
* `Form.leave` — what is left when the pieces that have a form are taken out

## Main results

* `text_leave` — the characters that are left are those of `removeAll`
* `exists_of_unbroken` — an unbroken stretch stood in the text, and the form covered nothing there
* `not_of_unbroken` — pieces that have the form are left across breaks only
-/

namespace Userscript.Text

/-- A character that is left of a text, and whether something was taken out right before it. -/
structure Remnant where
  char : Char
  cut : Bool := false
  deriving DecidableEq

namespace Remnant

/-- The characters that are left. -/
def text (rs : List Remnant) : Text := rs.map (·.char)

/-- A text of which nothing has been taken out. -/
def ofText (t : Text) : List Remnant := t.map fun c => { char := c }

/-- Nothing was taken out within a stretch of what is left. -/
def Unbroken (rs : List Remnant) : Prop := ∀ r ∈ rs.tail, r.cut = false

instance (rs : List Remnant) : Decidable (Unbroken rs) := inferInstanceAs (Decidable (∀ r ∈ rs.tail, _))

theorem text_ofText (t : Text) : text (ofText t) = t := by simp [text, ofText, Function.comp_def]

/-- A piece of the text that is left is that of a stretch of what is left. -/
theorem exists_of_infix_text {rs : List Remnant} {piece : Text} (h : piece <:+: text rs) :
    ∃ stretch, stretch <:+: rs ∧ text stretch = piece := by
  obtain ⟨before, after, heq⟩ := h
  obtain ⟨rs, last, rfl, hrs, -⟩ := List.map_eq_append_iff.1 heq.symm
  obtain ⟨first, stretch, rfl, -, hstretch⟩ := List.map_eq_append_iff.1 hrs
  exact ⟨stretch, ⟨first, last, rfl⟩, hstretch⟩

end Remnant

namespace Form

open Remnant (text ofText Unbroken)

variable {form : Form} {rs stretch : List Remnant} {r : Remnant} {skip : Nat} {cut : Bool}

/-- What is left when the pieces that have a form are taken out, from left to right. `skip` characters at the
beginning belong to a piece, and `cut` says whether something was taken out right before. -/
def leaveFrom (form : Form) (skip : Nat) (cut : Bool) : List Remnant → List Remnant
  | [] => []
  | r :: rs =>
    match skip, form (text (r :: rs)) with
    | n + 1, _ => leaveFrom form n true rs
    | 0, some (_ :: covered, _) => leaveFrom form covered.length true rs
    | 0, _ => { char := r.char, cut := r.cut || cut } :: leaveFrom form 0 false rs

/-- What is left when the pieces that have a form are taken out, from left to right. -/
def leave (form : Form) (rs : List Remnant) : List Remnant := leaveFrom form 0 false rs

/-- A character is taken out with the piece that it belongs to or begins, or it is left. Then the form does
not cover anything there. -/
theorem leaveFrom_cons_cases (form : Form) (skip : Nat) (cut : Bool) (r : Remnant) (rs : List Remnant) :
    (∃ n, leaveFrom form skip cut (r :: rs) = leaveFrom form n true rs ∧
      ∀ seen, removeFrom form skip seen (text (r :: rs)) = removeFrom form n seen (text rs)) ∨
    (leaveFrom form skip cut (r :: rs) = { char := r.char, cut := r.cut || cut } :: leaveFrom form 0 false rs ∧
      (∀ seen, removeFrom form skip seen (text (r :: rs)) = removeFrom form 0 (r.char :: seen) (text rs)) ∧
      ∀ covered rest, form (text (r :: rs)) = some (covered, rest) → covered = []) := by
  have htext : text (r :: rs) = r.char :: text rs := rfl
  cases skip with
  | succ n => exact .inl ⟨n, by simp [leaveFrom], fun seen => by simp [htext, removeFrom]⟩
  | zero =>
    -- A piece without characters takes nothing out, as if the form did not apply.
    rcases hform : form (text (r :: rs)) with _ | ⟨_ | ⟨c, covered⟩, rest⟩
    · refine .inr ⟨by simp [leaveFrom, hform], ?_, ?_⟩
      · intro seen
        rw [htext] at hform ⊢
        simp [removeFrom, hform]
      · intro covered rest h
        cases h
    · refine .inr ⟨by simp [leaveFrom, hform], ?_, ?_⟩
      · intro seen
        rw [htext] at hform ⊢
        simp [removeFrom, hform]
      · intro covered rest' h
        cases h
        rfl
    · refine .inl ⟨covered.length, by simp [leaveFrom, hform], ?_⟩
      intro seen
      rw [htext] at hform ⊢
      simp [removeFrom, hform]

theorem text_leaveFrom (form : Form) (skip : Nat) (cut : Bool) (seen : Text) (rs : List Remnant) :
    seen.reverse ++ text (leaveFrom form skip cut rs) = removeFrom form skip seen (text rs) := by
  induction rs generalizing skip cut seen with
  | nil => simp [leaveFrom, removeFrom, text]
  | cons r rs ih =>
    obtain ⟨n, hleave, hremove⟩ | ⟨hleave, hremove, -⟩ := leaveFrom_cons_cases form skip cut r rs
    · rw [hleave, hremove, ih]
    · rw [hleave, hremove, ← ih 0 false (r.char :: seen)]
      simp [text]

/-- The characters that are left. -/
theorem text_leave (form : Form) (rs : List Remnant) : text (leave form rs) = removeAll form (text rs) :=
  text_leaveFrom form 0 false [] rs

/-- What is left right behind a piece that was taken out begins with a break. -/
theorem cut_of_leaveFrom (h : leaveFrom form skip true rs = r :: stretch) : r.cut = true := by
  induction rs generalizing skip with
  | nil => cases h
  | cons first rs ih =>
    obtain ⟨n, hleave, -⟩ | ⟨hleave, -, -⟩ := leaveFrom_cons_cases form skip true first rs
    · exact ih (hleave ▸ h)
    · obtain ⟨rfl, -⟩ := List.cons.inj (hleave.symm.trans h)
      exact Bool.or_true _

/-- What is left without a break from the beginning on has stood there before. -/
theorem prefix_of_leaveFrom (h : stretch <+: leaveFrom form 0 false rs) (hcut : ∀ r ∈ stretch, r.cut = false) :
    stretch <+: rs := by
  induction rs generalizing stretch with
  | nil => exact h
  | cons first rs ih =>
    cases stretch with
    | nil => exact List.nil_prefix
    | cons r stretch =>
      obtain ⟨hr, hstretch⟩ := List.forall_mem_cons.1 hcut
      obtain ⟨n, hleave, -⟩ | ⟨hleave, -, -⟩ := leaveFrom_cons_cases form 0 false first rs
      · -- A piece is taken out here, so what is left begins with a break.
        obtain ⟨rest, hrest⟩ := hleave ▸ h
        cases (cut_of_leaveFrom hrest.symm).symm.trans hr
      · rw [hleave] at h
        obtain ⟨rfl, hrest⟩ := List.cons_prefix_cons.1 h
        rw [Bool.or_false]
        exact List.cons_prefix_cons.2 ⟨rfl, ih hrest hstretch⟩

/-- A stretch that is left without a break stood in the text, and the form covered nothing where it began. -/
theorem exists_of_unbroken (h : r :: stretch <:+: leaveFrom form skip cut rs) (hcut : Unbroken (r :: stretch)) :
    ∃ before first after, first.char = r.char ∧ rs = before ++ (first :: stretch ++ after) ∧
      ∀ covered rest, form (text (first :: stretch ++ after)) = some (covered, rest) → covered = [] := by
  -- What was taken out before has no part in a stretch without a break, so `skip` and `cut` may be anything.
  induction rs generalizing skip cut with
  | nil => cases List.infix_nil.1 h
  | cons first rs ih =>
    -- What is left of the rest stood one character further on.
    have hlater {skip : Nat} {cut : Bool} (h : r :: stretch <:+: leaveFrom form skip cut rs) :
        ∃ before' first' after, first'.char = r.char ∧ first :: rs = before' ++ (first' :: stretch ++ after) ∧
          ∀ covered rest, form (text (first' :: stretch ++ after)) = some (covered, rest) → covered = [] := by
      obtain ⟨before, first', after, hchar, rfl, hform⟩ := ih h
      exact ⟨first :: before, first', after, hchar, rfl, hform⟩
    obtain ⟨n, hleave, -⟩ | ⟨hleave, -, hform⟩ := leaveFrom_cons_cases form skip cut first rs
    · exact hlater (hleave ▸ h)
    · rw [hleave] at h
      rcases List.infix_cons_iff.1 h with h | h
      · -- The stretch begins here, and goes on as it stood in the text.
        obtain ⟨rfl, hrest⟩ := List.cons_prefix_cons.1 h
        obtain ⟨after, rfl⟩ := prefix_of_leaveFrom hrest hcut
        exact ⟨[], first, after, rfl, rfl, hform⟩
      · exact hlater h

/-- A stretch that is left without a break has stood in the text but for the mark at its beginning. -/
theorem exists_infix_of_unbroken (h : stretch <:+: leave form rs) (hcut : Unbroken stretch) :
    ∃ stretch', stretch' <:+: rs ∧ Unbroken stretch' ∧ text stretch' = text stretch := by
  cases stretch with
  | nil => exact ⟨[], List.nil_infix, nofun, rfl⟩
  | cons r stretch =>
    obtain ⟨before, first, after, hchar, rfl, -⟩ := exists_of_unbroken h hcut
    refine ⟨first :: stretch, ⟨before, after, by simp⟩, hcut, ?_⟩
    simp only [text, List.map_cons, hchar]

/-- A form that covers something wherever it applies leaves no piece with its property without a break. -/
theorem not_of_unbroken {P : Text → Prop} (hreads : Reads form P)
    (hcovers : ∀ {t covered rest}, form t = some (covered, rest) → covered ≠ []) (hempty : ¬ P [])
    (h : stretch <:+: leave form rs) (hcut : Unbroken stretch) : ¬ P (text stretch) := by
  intro hP
  cases stretch with
  | nil => exact hempty hP
  | cons r stretch =>
    obtain ⟨before, first, after, hchar, -, hform⟩ := exists_of_unbroken h hcut
    have htext : text (first :: stretch ++ after) = text (r :: stretch) ++ text after := by
      simp [text, hchar]
    -- The property of the stretch lets the form apply where it began, whatever comes behind it.
    have happlies : form (text (first :: stretch ++ after)) ≠ none :=
      (hreads _).2 ⟨text (r :: stretch), htext ▸ List.prefix_append _ _, hP⟩
    obtain ⟨⟨covered, rest⟩, hcovered⟩ := Option.ne_none_iff_exists'.1 happlies
    exact hcovers hcovered (hform covered rest hcovered)

end Form

end Userscript.Text
