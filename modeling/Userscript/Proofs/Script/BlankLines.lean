import Userscript.Proofs.Text.Words
import Userscript.Script.Spacing
import Userscript.Text.Search

/-!
# Line feeds that stand together

Of the line feeds that stand together in a text two are kept. What is kept depends on nothing but
the line feeds themselves, so it can be found part by part, and blanks at the ends of the text can
be taken away before or after.

## Main results

* `capBlankLines_append_congr` — a part of a text matters only by what is kept of it
* `not_three_newlines_infix` — no more than two line feeds are kept
* `trim_capBlankLines` — blanks at the ends are taken away before or after
* `words_capBlankLines` — the words are kept
-/

namespace Userscript.Script

variable {line s t u : Text} {c d : Char}

theorem capBlankLines_cons (c : Char) (t : Text) : capBlankLines (c :: t) =
    if c = '\n' ∧ (Text.after? ['\n', '\n'] (capBlankLines t)).isSome then capBlankLines t
    else c :: capBlankLines t := rfl

theorem capBlankLines_cons_of_ne (h : c ≠ '\n') (t : Text) :
    capBlankLines (c :: t) = c :: capBlankLines t := by
  rw [capBlankLines_cons, if_neg fun hc => h hc.1]

/-- A line feed is kept unless two are kept behind it. -/
theorem capBlankLines_newline_cons (t : Text) :
    (∃ u, capBlankLines t = '\n' :: '\n' :: u ∧ capBlankLines ('\n' :: t) = '\n' :: '\n' :: u) ∨
      (∀ u, capBlankLines t ≠ '\n' :: '\n' :: u) ∧
        capBlankLines ('\n' :: t) = '\n' :: capBlankLines t := by
  rw [capBlankLines_cons]
  cases h : Text.after? ['\n', '\n'] (capBlankLines t) with
  | some u =>
    have hu : capBlankLines t = '\n' :: '\n' :: u := Text.after?_eq_some_iff.1 h
    exact .inl ⟨u, hu, by rw [if_pos ⟨rfl, rfl⟩, hu]⟩
  | none =>
    refine .inr ⟨fun u hu => ?_, by simp⟩
    rw [Text.after?_eq_some_iff.2 hu] at h
    cases h

theorem capBlankLines_append (h : '\n' ∉ line) (t : Text) :
    capBlankLines (line ++ t) = line ++ capBlankLines t := by
  induction line with
  | nil => rfl
  | cons c line ih =>
    rw [List.mem_cons, not_or] at h
    rw [List.cons_append, capBlankLines_cons_of_ne (Ne.symm h.1), ih h.2, List.cons_append]

/-- Lines of which none is empty have no blank lines between them. -/
theorem capBlankLines_unlines {ls : List Text} (h : ∀ l ∈ ls, l ≠ [] ∧ '\n' ∉ l) :
    capBlankLines (Text.unlines ls) = Text.unlines ls := by
  induction ls with
  | nil => rfl
  | cons l ls ih =>
    obtain ⟨-, hl⟩ := h l (by simp)
    have ih := ih fun m hm => h m (by simp [hm])
    cases ls with
    | nil =>
      have := capBlankLines_append hl []
      rw [List.append_nil, capBlankLines.eq_def [], List.foldr_nil, List.append_nil] at this
      rw [Text.unlines_singleton, this]
    | cons m ls =>
      obtain ⟨hm, hnewline⟩ := h m (by simp)
      -- The next line is not empty, so its line feed is not followed by another.
      obtain ⟨c, m', rfl⟩ := List.exists_cons_of_ne_nil hm
      have hc : '\n' ≠ c := fun hc => hnewline (hc ▸ List.mem_cons_self)
      obtain ⟨u, hu⟩ : ∃ u, Text.unlines ((c :: m') :: ls) = c :: u := by
        cases ls with
        | nil => exact ⟨m', Text.unlines_singleton _⟩
        | cons n ls => exact ⟨_, Text.unlines_cons (by simp) _⟩
      rw [Text.unlines_cons (by simp), capBlankLines_append hl, capBlankLines_cons, ih, hu,
        if_neg (by simp [Text.after?, hc])]

/-- Of a part of a text nothing matters but what is kept of it. -/
theorem capBlankLines_append_congr (h : capBlankLines t = capBlankLines u) (s : Text) :
    capBlankLines (s ++ t) = capBlankLines (s ++ u) := by
  induction s with
  | nil => exact h
  | cons c s ih => rw [List.cons_append, List.cons_append, capBlankLines_cons, capBlankLines_cons, ih]

/-- A third line feed that stands together with others is not kept. -/
theorem capBlankLines_three_newlines (t : Text) :
    capBlankLines ('\n' :: '\n' :: '\n' :: t) = capBlankLines ('\n' :: '\n' :: t) := by
  have hfirst (t : Text) : ∃ u, capBlankLines ('\n' :: t) = '\n' :: u := by
    rcases capBlankLines_newline_cons t with ⟨u, -, h⟩ | ⟨-, h⟩
    · exact ⟨_, h⟩
    · exact ⟨_, h⟩
  have hsecond : ∃ u, capBlankLines ('\n' :: '\n' :: t) = '\n' :: '\n' :: u := by
    rcases capBlankLines_newline_cons ('\n' :: t) with ⟨u, -, h⟩ | ⟨-, h⟩
    · exact ⟨u, h⟩
    · obtain ⟨u, hu⟩ := hfirst t
      exact ⟨u, by rw [h, hu]⟩
  obtain ⟨u, hu⟩ := hsecond
  rcases capBlankLines_newline_cons ('\n' :: '\n' :: t) with ⟨v, hv, h⟩ | ⟨hnone, -⟩
  · rw [h, hv]
  · exact absurd hu (hnone u)

theorem capBlankLines_sublist (t : Text) : (capBlankLines t).Sublist t := by
  induction t with
  | nil => exact .slnil
  | cons c t ih =>
    rw [capBlankLines_cons]
    split
    · exact ih.cons c
    · exact ih.cons_cons c

/-- No more than two line feeds that stand together are kept. -/
theorem not_three_newlines_infix (t : Text) : ¬ ['\n', '\n', '\n'] <:+: capBlankLines t := by
  induction t with
  | nil => simp [capBlankLines]
  | cons c t ih =>
    by_cases hc : c = '\n'
    · subst hc
      rcases capBlankLines_newline_cons t with ⟨u, hu, h⟩ | ⟨hnone, h⟩
      · rwa [h, ← hu]
      · rw [h, List.infix_cons_iff]
        rintro (⟨u, hu⟩ | hinfix)
        · exact hnone u (List.cons.inj hu).2.symm
        · exact ih hinfix
    · rw [capBlankLines_cons_of_ne hc, List.infix_cons_iff]
      rintro (⟨u, hu⟩ | hinfix)
      · exact hc (List.cons.inj hu).1.symm
      · exact ih hinfix

/-- Two line feeds at the beginning stand before any other character. -/
theorem isSome_after?_newlines (h : d ≠ '\n') (s t : Text) :
    (Text.after? ['\n', '\n'] (s ++ d :: t)).isSome = (Text.after? ['\n', '\n'] s).isSome := by
  rw [Bool.eq_iff_iff, Option.isSome_iff_exists, Option.isSome_iff_exists]
  simp only [Text.after?_eq_some_iff]
  match s with
  | [] => simp [h]
  | [c] => simp [h]
  | c :: e :: s => simp

/-- What stands before a character that is no line feed is found by itself. -/
theorem exists_capBlankLines_append_cons (h : d ≠ '\n') (s : Text) :
    ∃ s', ∀ t, capBlankLines (s ++ d :: t) = s' ++ d :: capBlankLines t := by
  induction s with
  | nil => exact ⟨[], capBlankLines_cons_of_ne h⟩
  | cons c s ih =>
    obtain ⟨s', hs'⟩ := ih
    have hsplit (t : Text) : capBlankLines (c :: s ++ d :: t) =
        if c = '\n' ∧ (Text.after? ['\n', '\n'] (s' ++ d :: capBlankLines t)).isSome then
          s' ++ d :: capBlankLines t
        else c :: (s' ++ d :: capBlankLines t) := by
      rw [List.cons_append, capBlankLines_cons, hs']
    by_cases hkept : c = '\n' ∧ (Text.after? ['\n', '\n'] s').isSome
    · exact ⟨s', fun t => by rw [hsplit, isSome_after?_newlines h, if_pos hkept]⟩
    · exact ⟨c :: s', fun t => by rw [hsplit, isSome_after?_newlines h, if_neg hkept, List.cons_append]⟩

theorem trimLeft_capBlankLines (t : Text) :
    Text.trimLeft (capBlankLines t) = capBlankLines (Text.trimLeft t) := by
  induction t with
  | nil => rfl
  | cons c t ih =>
    by_cases hblank : Text.isBlank c
    · rw [Text.trimLeft_cons_of_isBlank hblank, ← ih, capBlankLines_cons]
      split
      · rfl
      · exact Text.trimLeft_cons_of_isBlank hblank _
    · have hblank : Text.isBlank c = false := by simpa using hblank
      have hne : c ≠ '\n' := by
        rintro rfl
        exact absurd hblank (by decide)
      rw [capBlankLines_cons_of_ne hne, Text.trimLeft_cons hblank, Text.trimLeft_cons hblank,
        capBlankLines_cons_of_ne hne]

theorem trimRight_capBlankLines (t : Text) :
    Text.trimRight (capBlankLines t) = capBlankLines (Text.trimRight t) := by
  have hkept {gap : Text} (hgap : ∀ c ∈ gap, Text.isBlank c) : ∀ c ∈ capBlankLines gap, Text.isBlank c :=
    fun c hc => hgap c ((capBlankLines_sublist gap).subset hc)
  obtain ⟨gap, hgap, ht⟩ := Text.exists_trimRight_append t
  rcases Text.trimRight_eq_nil_or_concat t with hnil | ⟨s, d, hs, hd⟩
  · rw [hnil, List.nil_append] at ht
    rw [hnil, ht, Text.trimRight_eq_nil_iff.2 (hkept hgap)]
    rfl
  · have hne : d ≠ '\n' := by
      rintro rfl
      exact absurd hd (by decide)
    obtain ⟨s', hs'⟩ := exists_capBlankLines_append_cons hne s
    rw [hs, List.append_assoc, List.singleton_append] at ht
    rw [hs, ht, hs', hs', List.append_cons, Text.trimRight_append_blank (hkept hgap),
      Text.trimRight_concat hd]
    rfl

/-- Blanks at the ends of a text are taken away before or after. -/
theorem trim_capBlankLines (t : Text) :
    Text.trim (capBlankLines t) = capBlankLines (Text.trim t) := by
  rw [Text.trim, trimLeft_capBlankLines, trimRight_capBlankLines, Text.trim]

/-- A text keeps its words. -/
theorem words_capBlankLines (t : Text) : Text.words (capBlankLines t) = Text.words t := by
  have hnewline : Text.isBlank '\n' := by decide
  -- A word may have begun before the part that is looked at.
  have hwords (s : Text) : Text.words (s ++ capBlankLines t) = Text.words (s ++ t) := by
    induction t generalizing s with
    | nil => rfl
    | cons c t ih =>
      by_cases hc : c = '\n'
      · subst hc
        have ih : Text.words (capBlankLines t) = Text.words t := ih []
        rw [Text.words_append_blank hnewline, ← ih]
        rcases capBlankLines_newline_cons t with ⟨u, hu, h⟩ | ⟨-, h⟩
        · rw [h, hu, Text.words_append_blank hnewline, Text.words_cons_blank hnewline,
            Text.words_cons_blank hnewline, Text.words_cons_blank hnewline]
        · rw [h, Text.words_append_blank hnewline]
      · have ih := ih (s ++ [c])
        rwa [List.append_assoc, List.append_assoc, List.singleton_append, List.singleton_append,
          ← capBlankLines_cons_of_ne hc] at ih
  exact hwords []

end Userscript.Script
