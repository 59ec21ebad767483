import Userscript.Text.Lines

/-!
# Words of a text

The words of a text are the runs of characters that are no blanks. Blanks that stand together cut a
text as one does, so a text that differs from another in the length of such runs alone has the same
words.

## Main definitions

* `Text.words` — the words of a text

## Main results

* `words_append_blank` — a text is cut into words at a blank
* `flatten_words` — the words make up the text without blanks
-/

namespace Userscript.Text

variable {c : Char} {gap : Text}

/-- The runs of characters of a text that are no blanks. -/
def words (t : Text) : List Text := (splitAt isBlank t).filter (· ≠ [])

@[simp] theorem words_nil : words [] = [] := rfl

/-- A text is cut into words at a blank. -/
theorem words_append_blank (hc : isBlank c) (t u : Text) : words (t ++ c :: u) = words t ++ words u := by
  rw [words, splitAt_append hc, List.filter_append]
  rfl

theorem words_cons_blank (hc : isBlank c) (t : Text) : words (c :: t) = words t :=
  words_append_blank hc [] t

theorem words_blanks_append (h : ∀ c ∈ gap, isBlank c) (t : Text) : words (gap ++ t) = words t := by
  induction gap with
  | nil => rfl
  | cons c gap ih =>
    obtain ⟨hc, hgap⟩ := List.forall_mem_cons.1 h
    rw [List.cons_append, words_cons_blank hc, ih hgap]

/-- Blanks that stand together cut a text as one does. -/
theorem words_append_blanks_append (hne : gap ≠ []) (h : ∀ c ∈ gap, isBlank c) (t u : Text) :
    words (t ++ (gap ++ u)) = words t ++ words u := by
  obtain ⟨c, gap, rfl⟩ := List.exists_cons_of_ne_nil hne
  obtain ⟨hc, hgap⟩ := List.forall_mem_cons.1 h
  rw [List.cons_append, words_append_blank hc, words_blanks_append hgap]

theorem words_append_blanks (h : ∀ c ∈ gap, isBlank c) (t : Text) : words (t ++ gap) = words t := by
  by_cases hne : gap = []
  · rw [hne, List.append_nil]
  · rw [← List.append_nil gap, words_append_blanks_append hne h, words_nil, List.append_nil]

/-- A text loses no word with the blanks at its ends. -/
theorem words_trim (t : Text) : words (trim t) = words t := by
  obtain ⟨lead, hlead, hleft⟩ := exists_append_trimLeft t
  obtain ⟨trail, htrail, hright⟩ := exists_trimRight_append (trimLeft t)
  calc words (trim t) = words (trim t ++ trail) := (words_append_blanks htrail _).symm
    _ = words (trimLeft t) := by rw [trim, ← hright]
    _ = words (lead ++ trimLeft t) := (words_blanks_append hlead _).symm
    _ = words t := by rw [← hleft]

/-- The words of lines are those of the lines one after the other. -/
theorem words_unlines (ls : List Text) : words (unlines ls) = ls.flatMap words := by
  induction ls with
  | nil => rfl
  | cons l ls ih =>
    by_cases hls : ls = []
    · simp [hls]
    · rw [unlines_cons hls, words_append_blank (by decide), ih, List.flatMap_cons]

theorem squeeze_append (t u : Text) : squeeze (t ++ u) = squeeze t ++ squeeze u :=
  List.filter_append _ _

theorem squeeze_cons_of_not_isBlank {c : Char} (h : isBlank c = false) (t : Text) :
    squeeze (c :: t) = c :: squeeze t :=
  List.filter_cons_of_pos (by simp [h])

/-- The words of a text make up the text without its blanks. -/
theorem flatten_words (t : Text) : (words t).flatten = squeeze t := by
  rw [words, List.flatten_filter_ne_nil]
  induction t with
  | nil => rfl
  | cons c t ih =>
    obtain ⟨piece, pieces, h⟩ := List.exists_cons_of_ne_nil (splitAt_ne_nil isBlank t)
    rw [splitAt_cons, squeeze, List.filter_cons]
    by_cases hc : isBlank c
    · simpa [hc, squeeze] using ih
    · rw [h] at ih ⊢
      simpa [hc, squeeze] using ih

end Userscript.Text
