import Userscript.Text.Blank

/-!
# Lines

A text is cut into lines at its line feeds, so that joining the lines gives the text
back. Two other readings of line ends stand beside it: a file is read with every
carriage return (alone or before a line feed) as one line feed, and the output of a
program is cut at each of the line boundaries of Unicode.

## Main definitions

* `Text.lines`, `Text.unlines` — cutting at line feeds, and joining with them
* `Text.unifyEndings` — the text with `\n` for `\r\n` and for a lone `\r`
* `Text.boundaryLines` — the lines between all kinds of line boundary

## Main results

* `unlines_lines` — joining the lines of a text gives the text
* `lines_unlines` — cutting joined lines gives the lines
* `unifyEndings_of_not_mem`, `unifyEndings_append` — a text without carriage returns is read as it stands,
  and so is the beginning of a text
-/

namespace Userscript.Text

/-- The pieces of a text between the characters that satisfy `p`. There is one piece
more than there are such characters. -/
def splitAt (p : Char → Bool) (t : Text) : List Text :=
  t.foldr (fun c pieces => if p c then [] :: pieces else pieces.modifyHead (c :: ·)) [[]]

/-- The lines of a text, cut at its line feeds. -/
def lines (t : Text) : List Text := splitAt (· == '\n') t

/-- Lines joined by line feeds. -/
def unlines (ls : List Text) : Text := ['\n'].intercalate ls

/-- The text with each `\r\n`, and each `\r` that stands alone, as one line feed: a
character is read together with the one before it. -/
def unifyEndings (t : Text) : Text :=
  (t.zip ('\n' :: t)).filterMap fun (c, before) =>
    if c = '\n' ∧ before = '\r' then none else some (if c = '\r' then '\n' else c)

/-- Whether a character ends a line of a program's output. -/
def isBoundary (c : Char) : Bool :=
  let n := c.toNat
  (0x0A ≤ n && n ≤ 0x0D) || (0x1C ≤ n && n ≤ 0x1E) || n == 0x85 || n == 0x2028 || n == 0x2029

/-- The lines of a text between its line boundaries; a boundary at the very end opens
no further line. -/
def boundaryLines (t : Text) : List Text :=
  let pieces := splitAt isBoundary (unifyEndings t)
  if pieces.getLast? = some [] then pieces.dropLast else pieces

theorem splitAt_cons (p : Char → Bool) (c : Char) (t : Text) :
    splitAt p (c :: t) = if p c then [] :: splitAt p t else (splitAt p t).modifyHead (c :: ·) := rfl

theorem splitAt_ne_nil (p : Char → Bool) (t : Text) : splitAt p t ≠ [] := by
  induction t with
  | nil => simp [splitAt]
  | cons c t ih =>
    rw [splitAt_cons]
    split
    · simp
    · cases h : splitAt p t <;> simp_all

/-- A text is cut at a character that satisfies `p`. -/
theorem splitAt_append {p : Char → Bool} {c : Char} (hc : p c) (t u : Text) :
    splitAt p (t ++ c :: u) = splitAt p t ++ splitAt p u := by
  induction t with
  | nil => rw [List.nil_append, splitAt_cons, if_pos hc]; rfl
  | cons d t ih =>
    rw [List.cons_append, splitAt_cons, splitAt_cons, ih]
    split
    · rfl
    · obtain ⟨piece, pieces, h⟩ := List.exists_cons_of_ne_nil (splitAt_ne_nil p t)
      rw [h]
      rfl

/-- Joining the lines of a text gives the text. -/
theorem unlines_lines (t : Text) : unlines (lines t) = t := by
  induction t with
  | nil => rfl
  | cons c t ih =>
    have hne := splitAt_ne_nil (· == '\n') t
    rw [lines] at ih ⊢
    rw [splitAt_cons]
    cases h : splitAt (· == '\n') t with
    | nil => exact absurd h hne
    | cons l ls =>
      rw [h] at ih
      by_cases hc : c = '\n'
      · subst hc; simp_all [unlines, List.intercalate]
      · cases ls <;> simp_all [unlines, List.intercalate]

theorem lines_ne_nil (t : Text) : lines t ≠ [] := splitAt_ne_nil _ t

/-- The characters of a piece are characters of the text at which it is not cut. -/
theorem of_mem_splitAt {p : Char → Bool} {t piece : Text} (h : piece ∈ splitAt p t) {c : Char}
    (hc : c ∈ piece) : c ∈ t ∧ p c = false := by
  induction t generalizing piece with
  | nil => simp_all [splitAt]
  | cons d t ih =>
    rw [splitAt_cons] at h
    split at h
    · rcases List.mem_cons.1 h with rfl | h
      · simp at hc
      · exact (ih h hc).imp_left (List.mem_cons_of_mem d)
    · next hd =>
      cases hsplit : splitAt p t with
      | nil => simp [hsplit] at h
      | cons l ls =>
        rw [hsplit] at h ih
        rcases List.mem_cons.1 h with rfl | h
        · rcases List.mem_cons.1 hc with rfl | hc
          · exact ⟨List.mem_cons_self, by simpa using hd⟩
          · exact (ih List.mem_cons_self hc).imp_left (List.mem_cons_of_mem d)
        · exact (ih (List.mem_cons_of_mem l h) hc).imp_left (List.mem_cons_of_mem d)

theorem not_mem_of_mem_lines {t l : Text} (h : l ∈ lines t) : '\n' ∉ l := by
  intro hc
  simpa using (of_mem_splitAt h hc).2

theorem mem_of_mem_lines {t l : Text} (h : l ∈ lines t) {c : Char} (hc : c ∈ l) : c ∈ t :=
  (of_mem_splitAt h hc).1

@[simp] theorem unlines_singleton (l : Text) : unlines [l] = l := by
  simp [unlines, List.intercalate]

theorem unlines_cons {ls : List Text} (h : ls ≠ []) (l : Text) :
    unlines (l :: ls) = l ++ '\n' :: unlines ls := by
  cases ls with
  | nil => exact absurd rfl h
  | cons l' ls => simp [unlines, List.intercalate]

theorem unlines_append {ls ms : List Text} (hls : ls ≠ []) (hms : ms ≠ []) :
    unlines (ls ++ ms) = unlines ls ++ '\n' :: unlines ms := by
  induction ls with
  | nil => exact absurd rfl hls
  | cons l ls ih =>
    by_cases hne : ls = []
    · rw [hne, List.singleton_append, unlines_cons hms, unlines_singleton]
    · rw [List.cons_append, unlines_cons (by simp [hne]), ih hne, unlines_cons hne,
        List.append_assoc, List.cons_append]

/-- The characters of joined lines are those of the lines, and line feeds. -/
theorem of_mem_unlines {ls : List Text} {c : Char} (h : c ∈ unlines ls) :
    c = '\n' ∨ ∃ l ∈ ls, c ∈ l := by
  induction ls with
  | nil => cases h
  | cons l ls ih =>
    by_cases hls : ls = []
    · rw [hls, unlines_singleton] at h
      exact .inr ⟨l, List.mem_cons_self, h⟩
    · rw [unlines_cons hls, List.mem_append, List.mem_cons] at h
      rcases h with h | h | h
      · exact .inr ⟨l, List.mem_cons_self, h⟩
      · exact .inl h
      · exact (ih h).imp_right fun ⟨m, hm, hc⟩ => ⟨m, List.mem_cons_of_mem l hm, hc⟩

/-- Joined lines are no longer if the lines are no longer. -/
theorem length_unlines_map_le {f : Text → Text} {ls : List Text}
    (h : ∀ l ∈ ls, (f l).length ≤ l.length) :
    (unlines (ls.map f)).length ≤ (unlines ls).length := by
  induction ls with
  | nil => exact Nat.le_refl 0
  | cons l ls ih =>
    obtain ⟨hl, hrest⟩ := List.forall_mem_cons.1 h
    have ih := ih hrest
    by_cases hls : ls = []
    · simpa [hls] using hl
    · rw [List.map_cons, unlines_cons (by simpa using hls), unlines_cons hls]
      simp only [List.length_append, List.length_cons]
      omega

theorem lines_of_not_mem {l : Text} (h : '\n' ∉ l) : lines l = [l] := by
  induction l with
  | nil => rfl
  | cons c l ih =>
    simp only [List.mem_cons, not_or] at h
    have hc : (c == '\n') = false := by simpa using Ne.symm h.1
    rw [lines] at ih ⊢
    rw [splitAt_cons, ih h.2, hc]
    rfl

/-- A text is cut at a line feed within it. -/
theorem lines_append (t u : Text) : lines (t ++ '\n' :: u) = lines t ++ lines u :=
  splitAt_append (by decide) t u

/-- A line feed at the end of a text opens one more line. -/
theorem lines_concat_newline (t : Text) : lines (t ++ ['\n']) = lines t ++ [[]] := lines_append t []

/-- Cutting joined lines gives the lines. -/
theorem lines_unlines {ls : List Text} (hne : ls ≠ []) (h : ∀ l ∈ ls, '\n' ∉ l) :
    lines (unlines ls) = ls := by
  induction ls with
  | nil => exact absurd rfl hne
  | cons l ls ih =>
    cases ls with
    | nil => rw [unlines_singleton, lines_of_not_mem (h l (by simp))]
    | cons l' ls =>
      rw [unlines_cons (by simp), lines_append, lines_of_not_mem (h l (by simp)),
        ih (by simp) fun m hm => h m (by simp [hm])]
      rfl

/-- A text without carriage returns is read as it stands. -/
theorem unifyEndings_of_not_mem {t : Text} (h : '\r' ∉ t) : unifyEndings t = t := by
  have aux : ∀ (t : Text) (b : Char), b ≠ '\r' → '\r' ∉ t →
      (t.zip (b :: t)).filterMap (fun (x : Char × Char) =>
        if x.1 = '\n' ∧ x.2 = '\r' then none else some (if x.1 = '\r' then '\n' else x.1)) = t := by
    intro t
    induction t with
    | nil => intro b _ _; rfl
    | cons c t ih =>
      intro b hb hc
      simp only [List.mem_cons, not_or] at hc
      have hcr : c ≠ '\r' := fun e => hc.1 e.symm
      simp [hb, hcr, ih c hcr hc.2]
  exact aux t '\n' (by decide) h

/-- No carriage returns are left in a text that has been read. -/
theorem not_mem_return_unifyEndings (t : Text) : '\r' ∉ unifyEndings t := by
  intro hmem
  obtain ⟨⟨c, before⟩, -, hc⟩ := List.mem_filterMap.1 hmem
  dsimp only at hc
  split at hc
  · cases hc
  · next hkept =>
    split at hc
    · cases hc
    · next hreturn => exact hreturn (Option.some.inj hc)

/-- The beginning of a text is read as it stands if there are no carriage returns in it. -/
theorem unifyEndings_append {t : Text} (h : '\r' ∉ t) (u : Text) : ∃ v, unifyEndings (t ++ u) = t ++ v := by
  have hread (before : Char) (hbefore : before ≠ '\r') : ∃ v,
      ((t ++ u).zip (before :: (t ++ u))).filterMap (fun (x : Char × Char) =>
        if x.1 = '\n' ∧ x.2 = '\r' then none else some (if x.1 = '\r' then '\n' else x.1)) = t ++ v := by
    induction t generalizing before with
    | nil => exact ⟨_, rfl⟩
    | cons c t ih =>
      obtain ⟨hc, ht⟩ := not_or.1 (mt List.mem_cons.2 h)
      obtain ⟨v, hv⟩ := ih ht c (Ne.symm hc)
      refine ⟨v, ?_⟩
      simp only [List.cons_append, List.zip_cons_cons, List.filterMap_cons, hbefore, and_false, if_false, Ne.symm hc]
      exact congrArg (c :: ·) hv
  exact hread '\n' (by decide)

end Userscript.Text
