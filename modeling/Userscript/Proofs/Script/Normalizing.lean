import Userscript.Proofs.Script.BlankLines
import Userscript.Proofs.Script.SpacedLines

/-!
# Texts with regular spacing

The lines of a text are changed each by itself; then line feeds that stand together are cut down,
and blanks at the ends of the text are taken away. If the lines are changed once more afterwards,
the other two steps might as well not have been taken: a line feed that is gone stood between empty
lines, and blanks at the ends of a text are blanks at the ends of a line. So a text that is made
regular twice is one that is made regular once. And since no step makes a text longer, the lines of
a text with regular spacing stay as they are, which says what they are like.

## Main definitions

* `Script.IsNormalLine`, `Script.IsNormal` — lines and texts in normal form

## Main results

* `normalize_normalize` — twice with two limits is once with the smaller one
* `normalize_isNormal` — a text with regular spacing is in normal form
-/

namespace Userscript.Script

variable {limit : Int} {line lead trail t : Text} {ps : List Piece} {c : Char}

/-! ### The lines of a text -/

theorem spacedLines_of_not_mem (h : '\n' ∉ line) (limit : Int) :
    spacedLines limit line = spaced limit line := by
  rw [spacedLines, Text.lines_of_not_mem h, List.map_singleton, Text.unlines_singleton]

@[simp] theorem spacedLines_nil (limit : Int) : spacedLines limit [] = [] := by
  rw [spacedLines_of_not_mem (by simp), spaced_nil]

/-- The lines before a line feed and behind it are changed by themselves. -/
theorem spacedLines_append_newline (limit : Int) (s t : Text) :
    spacedLines limit (s ++ '\n' :: t) = spacedLines limit s ++ '\n' :: spacedLines limit t := by
  rw [spacedLines, Text.lines_append, List.map_append,
    Text.unlines_append (by simpa using Text.lines_ne_nil s) (by simpa using Text.lines_ne_nil t)]
  rfl

theorem spacedLines_newline_cons (limit : Int) (t : Text) :
    spacedLines limit ('\n' :: t) = '\n' :: spacedLines limit t := by
  have h := spacedLines_append_newline limit [] t
  rwa [spacedLines_nil, List.nil_append, List.nil_append] at h

/-- The first line of a text is changed by itself. -/
theorem spacedLines_line_append (hline : '\n' ∉ line) (htail : ∀ c ∈ t.head?, c = '\n') (limit : Int) :
    spacedLines limit (line ++ t) = spaced limit line ++ spacedLines limit t := by
  cases t with
  | nil =>
    rw [List.append_nil, spacedLines_of_not_mem hline, spacedLines_nil, List.append_nil]
  | cons c t =>
    obtain rfl : c = '\n' := htail c rfl
    rw [spacedLines_append_newline, spacedLines_newline_cons, spacedLines_of_not_mem hline]

theorem lines_spacedLines (hnul : nul ∉ t) (limit : Int) :
    Text.lines (spacedLines limit t) = (Text.lines t).map (spaced limit) := by
  refine Text.lines_unlines (by simpa using Text.lines_ne_nil t) fun l hl => ?_
  obtain ⟨line, hline, rfl⟩ := List.mem_map.1 hl
  exact not_mem_spaced (fun h => hnul (Text.mem_of_mem_lines hline h))
    (Text.not_mem_of_mem_lines hline) (by decide)

/-- The lines of a text, twice with two limits, are those with the smaller one. -/
theorem spacedLines_spacedLines (hnul : nul ∉ t) (a b : Int) :
    spacedLines b (spacedLines a t) = spacedLines (min a b) t := by
  rw [spacedLines, lines_spacedLines hnul, List.map_map, spacedLines]
  congr 1
  exact List.map_congr_left fun l hl =>
    spaced_spaced (fun h => hnul (Text.mem_of_mem_lines hl h)) a b

theorem nul_not_mem_spacedLines (hnul : nul ∉ t) (limit : Int) : nul ∉ spacedLines limit t := by
  intro h
  rcases Text.of_mem_unlines h with h | ⟨l, hl, h⟩
  · exact absurd h (by decide)
  · obtain ⟨line, hline, rfl⟩ := List.mem_map.1 hl
    have hnul : nul ∉ line := fun h => hnul (Text.mem_of_mem_lines hline h)
    exact not_mem_spaced hnul hnul (by decide) h

theorem length_spacedLines_le (hnul : nul ∉ t) (limit : Int) :
    (spacedLines limit t).length ≤ t.length := by
  have hline : ∀ l ∈ Text.lines t, (spaced limit l).length ≤ l.length :=
    fun l hl => length_spaced_le (fun h => hnul (Text.mem_of_mem_lines hl h)) limit
  have hlength := Text.length_unlines_map_le hline
  rwa [Text.unlines_lines] at hlength

/-! ### The other steps before the lines are changed -/

/-- Line feeds that stand together may have been cut down before. -/
theorem capBlankLines_spacedLines (limit : Int) (s t : Text) :
    capBlankLines (spacedLines limit (s ++ capBlankLines t)) =
      capBlankLines (spacedLines limit (s ++ t)) := by
  -- The line that is looked at may have begun in `s`, which takes up its characters one by one.
  induction t generalizing s with
  | nil => rfl
  | cons c t ih =>
    by_cases hc : c = '\n'
    · subst hc
      have ih : capBlankLines (spacedLines limit (capBlankLines t)) = capBlankLines (spacedLines limit t) :=
        ih []
      rcases capBlankLines_newline_cons t with ⟨u, hu, h⟩ | ⟨-, h⟩
      · -- The third line feed stands between empty lines, which stay empty.
        rw [hu, spacedLines_newline_cons, spacedLines_newline_cons] at ih
        rw [h, spacedLines_append_newline, spacedLines_append_newline, spacedLines_newline_cons,
          List.append_cons, List.append_cons _ _ (spacedLines limit t),
          capBlankLines_append_congr ih.symm, ← List.append_cons, ← List.append_cons]
        exact capBlankLines_append_congr (capBlankLines_three_newlines _).symm _
      · rw [h, spacedLines_append_newline, spacedLines_append_newline, List.append_cons,
          List.append_cons _ _ (spacedLines limit t), capBlankLines_append_congr ih]
    · rw [capBlankLines_cons_of_ne hc, List.append_cons, List.append_cons _ _ t, ih]

theorem trimLeft_spacedLines (hnul : nul ∉ t) (limit : Int) :
    Text.trimLeft (spacedLines limit (Text.trimLeft t)) = Text.trimLeft (spacedLines limit t) := by
  induction t with
  | nil => rfl
  | cons c t ih =>
    have hnul' : nul ∉ t := fun h => hnul (List.mem_cons_of_mem c h)
    by_cases hc : Text.isBlank c
    · rw [Text.trimLeft_cons_of_isBlank hc, ih hnul']
      by_cases hnewline : c = '\n'
      · subst hnewline
        rw [spacedLines_newline_cons, Text.trimLeft_cons_of_isBlank hc]
      · -- The blank stands on the first line.
        obtain ⟨line, tail, rfl, hline, htail⟩ := exists_line t
        have hline' : '\n' ∉ c :: line := not_or.2 ⟨Ne.symm hnewline, hline⟩ ∘ List.mem_cons.1
        have hnul : nul ∉ c :: line := fun h => hnul (List.mem_append_left tail h)
        rw [spacedLines_line_append hline htail, ← List.cons_append,
          spacedLines_line_append hline' htail]
        exact (Text.trimLeft_append_congr (trimLeft_spaced_cons hnul hc limit) _).symm
    · rw [Text.trimLeft_cons (by simpa using hc)]

/-- A blank at the end of a text is one at the end of its last line, or opens an empty line. -/
theorem trimRight_spacedLines_concat (hc : Text.isBlank c) (limit : Int) (t : Text) :
    Text.trimRight (spacedLines limit (t ++ [c])) = Text.trimRight (spacedLines limit t) := by
  by_cases hnewline : c = '\n'
  · subst hnewline
    have hopens : spacedLines limit (t ++ ['\n']) = spacedLines limit t ++ ['\n'] := by
      rw [spacedLines_append_newline, spacedLines_nil]
    rw [hopens]
    exact Text.trimRight_append_blank (by simpa using hc) _
  · -- A line may have begun before the part that is looked at.
    have hlast (s : Text) (hs : '\n' ∉ s) :
        spacedLines limit (s ++ (t ++ [c])) = spacedLines limit (s ++ t) := by
      induction t generalizing s with
      | nil =>
        have hs' : '\n' ∉ s ++ [c] := by simpa [hs] using Ne.symm hnewline
        rw [List.nil_append, List.append_nil, spacedLines_of_not_mem hs, spacedLines_of_not_mem hs',
          spaced_concat hc]
      | cons d t ih =>
        by_cases hd : d = '\n'
        · subst hd
          have ih : spacedLines limit (t ++ [c]) = spacedLines limit t := ih [] (by simp)
          rw [List.cons_append, spacedLines_append_newline, spacedLines_append_newline, ih]
        · have ih := ih (s ++ [d]) (by simpa [hs] using Ne.symm hd)
          rwa [← List.append_cons, ← List.append_cons] at ih
    exact congrArg Text.trimRight (hlast [] (by simp))

theorem trimRight_spacedLines (limit : Int) (t : Text) :
    Text.trimRight (spacedLines limit (Text.trimRight t)) = Text.trimRight (spacedLines limit t) := by
  have hblanks (gap t : Text) (hgap : ∀ c ∈ gap, Text.isBlank c) :
      Text.trimRight (spacedLines limit (t ++ gap)) = Text.trimRight (spacedLines limit t) := by
    induction gap generalizing t with
    | nil => rw [List.append_nil]
    | cons c gap ih =>
      obtain ⟨hc, hgap⟩ := List.forall_mem_cons.1 hgap
      rw [List.append_cons, ih _ hgap, trimRight_spacedLines_concat hc]
  obtain ⟨gap, hgap, ht⟩ := Text.exists_trimRight_append t
  calc Text.trimRight (spacedLines limit (Text.trimRight t))
      = Text.trimRight (spacedLines limit (Text.trimRight t ++ gap)) := (hblanks gap _ hgap).symm
    _ = Text.trimRight (spacedLines limit t) := by rw [← ht]

/-- Blanks at the ends of a text may have been taken away before. -/
theorem trim_spacedLines (hnul : nul ∉ t) (limit : Int) :
    Text.trim (spacedLines limit (Text.trim t)) = Text.trim (spacedLines limit t) := by
  calc Text.trim (spacedLines limit (Text.trim t))
      = Text.trim (spacedLines limit (Text.trimLeft t)) := by
        rw [← Text.trimLeft_trimRight, Text.trim, trimRight_spacedLines, Text.trimLeft_trimRight]
    _ = Text.trim (spacedLines limit t) := by
        rw [Text.trim, trimLeft_spacedLines hnul, Text.trim]

/-! ### Regular spacing, twice -/

theorem nul_not_mem_normalized (hnul : nul ∉ t) (limit : Int) : nul ∉ normalized limit t := by
  have hsublist := (Text.trim_sublist _).trans (capBlankLines_sublist (spacedLines limit t))
  exact fun h => nul_not_mem_spacedLines hnul limit (hsublist.subset h)

/-- Twice with two limits is once with the smaller one. -/
theorem normalized_normalized (hnul : nul ∉ t) (a b : Int) :
    normalized b (normalized a t) = normalized (min a b) t := by
  have hnul' : nul ∉ capBlankLines (spacedLines a t) :=
    fun h => nul_not_mem_spacedLines hnul a ((capBlankLines_sublist _).subset h)
  -- The last two steps can be taken in either order, so that each in turn comes right before the
  -- lines are changed once more.
  calc normalized b (normalized a t)
      = capBlankLines (Text.trim (spacedLines b (Text.trim (capBlankLines (spacedLines a t))))) :=
        trim_capBlankLines _
    _ = Text.trim (capBlankLines (spacedLines b (capBlankLines (spacedLines a t)))) := by
        rw [trim_spacedLines hnul', trim_capBlankLines]
    _ = Text.trim (capBlankLines (spacedLines b (spacedLines a t))) :=
        congrArg Text.trim (capBlankLines_spacedLines b [] _)
    _ = normalized (min a b) t := by rw [spacedLines_spacedLines hnul, normalized]

/-- A text that is made regular twice, with two limits, is one that is made regular once, with the
smaller one. -/
theorem normalize_normalize (hnul : nul ∉ t) (a b : Int) :
    ∃ once twice, normalize a t = .ok once ∧ normalize b once = .ok twice ∧
      normalize (min a b) t = .ok twice := by
  refine ⟨normalized a t, normalized (min a b) t, normalize_eq_ok hnul a, ?_,
    normalize_eq_ok hnul (min a b)⟩
  rw [← normalized_normalized hnul]
  exact normalize_eq_ok (nul_not_mem_normalized hnul a) b

/-- A script that begins with a vertical tab, with a division, strings that are and are not closed,
and lines that are indented by more and less than is kept. -/
theorem normalize_normalize_negative :
    let t := " \x0b \tx  =  'a  b'  /  c\\ \n \n\t\n\n\t\t\t y = /p  q/g  + \"r  \n   z \x0b ".toList
    nul ∉ t ∧ ∃ once twice, normalize 2 t = .ok once ∧ normalize (-1) once = .ok twice ∧
      normalize (min 2 (-1)) t = .ok twice :=
  ⟨by decide, normalize_normalize (by decide) 2 (-1)⟩

/-! ### The normal form -/

/-- A line in normal form. -/
structure IsNormalLine (limit : Int) (line : Text) : Prop where
  last : ∀ c ∈ line.getLast?, Text.isBlank c = false
  indentation : ((line.takeWhile (· = ' ')).length : Int) ≤ max 0 limit
  noTab : ∀ c ∈ (line.dropWhile (· = ' ')).head?, c ≠ '\t'
  /-- No two spaces outside the literals stand side by side behind the indentation. -/
  spaces : ((pieces line).dropWhile (· = .char ' ')).IsChain fun p q => ¬(p = .char ' ' ∧ q = .char ' ')

/-- A text in normal form. -/
structure IsNormal (limit : Int) (t : Text) : Prop where
  first : ∀ c ∈ t.head?, Text.isBlank c = false
  last : ∀ c ∈ t.getLast?, Text.isBlank c = false
  newlines : ¬ ['\n', '\n', '\n'] <:+: t
  /-- No tab stands outside the literals. -/
  tabs : .char '\t' ∉ pieces t
  lines : ∀ l ∈ Text.lines t, IsNormalLine limit l

theorem takeWhile_replicate_append {α : Type} [DecidableEq α] {x : α} {l : List α}
    (h : ∀ y ∈ l.head?, y ≠ x) (n : Nat) :
    (List.replicate n x ++ l).takeWhile (· = x) = List.replicate n x ∧
      (List.replicate n x ++ l).dropWhile (· = x) = l := by
  cases l with
  | nil => simp
  | cons y l =>
    have hy : y ≠ x := h y rfl
    simp [hy]

namespace HasCore

theorem not_isGap_head?_regular (h : HasCore line lead ps trail) (hc : c ∈ (regular ps).head?) :
    isGap c = false := by
  obtain ⟨p, after, rfl, hp⟩ := h.core.head
  obtain ⟨d, t, hregular, hd⟩ := h.exists_regular_eq_cons
  rw [hregular] at hc
  obtain rfl : d = c := Option.some.inj hc
  rcases hd with rfl | hd
  · exact hp
  · rw [← Bool.not_eq_true]
    intro hgap
    simp [isBlank_of_isGap hgap] at hd

/-- Spaces that are few enough and a core with regular spacing make up a line in normal form. -/
theorem isNormalLine_regular (h : HasCore line lead ps trail) {n : Nat} (hn : (n : Int) ≤ max 0 limit) :
    IsNormalLine limit (List.replicate n ' ' ++ regular ps) := by
  have hhead : ∀ c ∈ (regular ps).head?, c ≠ ' ' :=
    fun c hc => ne_space_of_not_isGap (h.not_isGap_head?_regular hc)
  obtain ⟨htake, hdrop⟩ := takeWhile_replicate_append hhead n
  refine ⟨fun c hc => ?_, ?_, fun c hc => ?_, ?_⟩
  · obtain ⟨s, d, hregular, hd⟩ := h.exists_regular_eq_concat
    rw [hregular, ← List.append_assoc, List.getLast?_concat] at hc
    rwa [← Option.some.inj hc]
  · rwa [htake, List.length_replicate]
  · rw [hdrop] at hc
    rintro rfl
    exact absurd (h.not_isGap_head?_regular hc) (by decide)
  · -- The collapsed core begins with no space, and no two gaps stand side by side in it.
    obtain ⟨p, after, hcore, hp⟩ := h.core.collapsePieces.head
    have hfirst : ∀ q ∈ (collapsePieces false ps).head?, q ≠ .char ' ' := by
      rintro q hq rfl
      rw [hcore] at hq
      obtain rfl : p = .char ' ' := Option.some.inj hq
      exact absurd hp (by decide)
    rw [h.pieces_regular, List.map_replicate, (takeWhile_replicate_append hfirst n).2]
    refine (isChain_collapsePieces false ps).imp fun q r hqr => ?_
    rintro ⟨rfl, rfl⟩
    exact hqr ⟨by decide, by decide⟩

theorem tab_not_mem_pieces_regular (h : HasCore line lead ps trail) (n : Nat) :
    .char '\t' ∉ pieces (List.replicate n ' ' ++ regular ps) := by
  rw [h.pieces_regular, List.mem_append]
  rintro (htab | htab)
  · simp at htab
  · exact absurd (eq_space_of_mem_collapsePieces htab (by decide)) (by decide)

end HasCore

/-- A line with regular spacing is in normal form, and no tab stands outside its literals. -/
theorem isNormalLine_spaced (hnul : nul ∉ line) (limit : Int) :
    IsNormalLine limit (spaced limit line) ∧ .char '\t' ∉ pieces (spaced limit line) := by
  rcases spaced_cases hnul with ⟨-, hspaced⟩ | ⟨lead, body, trail, hcore, -, hspaced⟩
  · rw [hspaced]
    exact ⟨⟨by simp, Int.le_max_left 0 limit, by simp, by simp [pieces]⟩, by simp [pieces]⟩
  · rw [hspaced]
    exact ⟨hcore.isNormalLine_regular (by omega), hcore.tab_not_mem_pieces_regular _⟩

theorem normalized_idem (hnul : nul ∉ t) (limit : Int) :
    normalized limit (normalized limit t) = normalized limit t := by
  rw [normalized_normalized hnul, Int.min_self]

/-- The lines of a text with regular spacing stay as they are: no step makes a text longer, so none
of them changes one that is the same in the end. -/
theorem spacedLines_normalized (hnul : nul ∉ t) (limit : Int) :
    spacedLines limit (normalized limit t) = normalized limit t := by
  have hsublist : (normalized limit (normalized limit t)).Sublist
      (spacedLines limit (normalized limit t)) :=
    (Text.trim_sublist _).trans (capBlankLines_sublist _)
  rw [normalized_idem hnul] at hsublist
  exact (hsublist.eq_of_length_le
    (length_spacedLines_le (nul_not_mem_normalized hnul limit) limit)).symm

theorem exists_eq_spaced (hnul : nul ∉ t) (h : line ∈ Text.lines (normalized limit t)) :
    ∃ l, nul ∉ l ∧ line = spaced limit l := by
  have hnul' := nul_not_mem_normalized hnul limit
  rw [← spacedLines_normalized hnul, lines_spacedLines hnul'] at h
  obtain ⟨l, hl, rfl⟩ := List.mem_map.1 h
  exact ⟨l, fun h => hnul' (Text.mem_of_mem_lines hl h), rfl⟩

/-- A text with regular spacing is in normal form. -/
theorem normalize_isNormal (hnul : nul ∉ t) (limit : Int) :
    ∃ out, normalize limit t = .ok out ∧ IsNormal limit out := by
  refine ⟨normalized limit t, normalize_eq_ok hnul limit, fun c hc => ?_, fun c hc => ?_, ?_,
    fun htab => ?_, fun l hl => ?_⟩
  · rw [normalized, ← Text.trimLeft_trimRight] at hc
    exact Text.not_isBlank_head?_trimLeft hc
  · exact Text.not_isBlank_getLast?_trimRight hc
  · rw [normalized, trim_capBlankLines]
    exact not_three_newlines_infix _
  · rw [← Text.unlines_lines (normalized limit t)] at htab
    rcases of_mem_pieces_unlines htab with htab | ⟨l, hl, htab⟩
    · exact absurd htab (by decide)
    · obtain ⟨line, hnul, rfl⟩ := exists_eq_spaced hnul hl
      exact (isNormalLine_spaced hnul limit).2 htab
  · obtain ⟨line, hnul, rfl⟩ := exists_eq_spaced hnul hl
    exact (isNormalLine_spaced hnul limit).1

/-- A script whose first line is indented with a tab and whose third one with more spaces than are
kept, with a string that ends in blanks and one that is not closed. -/
theorem normalize_isNormal_indented :
    let t := "\n \t x = 'a \t'  \n\n \n\n        y\t\t=  /b\t  c/ ; // 'd  e \u00a0\n\t\n".toList
    nul ∉ t ∧ ∃ out, normalize 3 t = .ok out ∧ IsNormal 3 out :=
  ⟨by decide, normalize_isNormal (by decide) 3⟩

end Userscript.Script
