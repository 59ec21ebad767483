import Userscript.Proofs.Script.RegularLines

/-!
# Lines of which the spacing is made regular

A line without NUL becomes a line with regular spacing, whatever it is: nothing is left of a blank
one, and of another its core is left behind a few spaces. All that is known about what becomes of
a line follows from these two cases.

## Main definitions

* `Script.spaced` — what becomes of a line
* `Script.spacedLines`, `Script.normalized` — what becomes of the lines of a text, and of the text

## Main results

* `normalizeLine_eq_ok`, `spaced_cases` — what becomes of a line, in either case
* `spaced_spaced` — twice with two limits is once with the smaller one
* `spaced_concat`, `trimLeft_spaced_cons` — blanks at the ends of a line
* `normalize_eq_ok` — what becomes of a text
-/

namespace Userscript.Script

variable {t line lead trail : Text} {after : List Piece} {p : Piece} {limit : Int} {c : Char}

/-- What becomes of a line, as far as its marks stand for literals. -/
def spaced (limit : Int) (line : Text) : Text := (normalizeLine limit line).toOption.getD []

theorem spaced_eq_of_ok {out : Text} (h : normalizeLine limit line = .ok out) :
    spaced limit line = out := by
  rw [spaced, h]
  rfl

theorem normalizeLine_of_blank (h : ∀ c ∈ line, Text.isBlank c) (limit : Int) :
    normalizeLine limit line = .ok [] := by
  have hmarked : marked 0 (pieces line) = line := by
    have := marked_append_char 0 [] line
    rwa [List.nil_append, marked, List.nil_append, ← pieces_of_blank h] at this
  rw [normalizeLine, hmarked, Text.trimRight_eq_nil_iff.2 h]
  rfl

/-- What becomes of a line that holds no mark, with each limit. -/
theorem normalizeLine_cases (hmark : ¬ HoldsMark (pieces line)) :
    (∀ c ∈ line, Text.isBlank c) ∧ (∀ limit, normalizeLine limit line = .ok []) ∨
      ∃ lead body trail, HasCore line lead body trail ∧ (∀ c ∈ lead, isGap c) ∧
        ∀ limit, normalizeLine limit line =
          .ok (List.replicate (min (lead.length : Int) limit).toNat ' ' ++ regular body) := by
  cases hblank : Text.isBlankText line with
  | true =>
    have hblank : ∀ c ∈ line, Text.isBlank c := List.all_eq_true.1 hblank
    exact .inl ⟨hblank, normalizeLine_of_blank hblank⟩
  | false =>
    obtain ⟨lead, body, trail, hcore, hlead⟩ := exists_hasCore hblank
    exact .inr ⟨lead, body, trail, hcore, hlead, hcore.normalizeLine_eq hmark hlead⟩

/-- Every line without NUL becomes a line. -/
theorem normalizeLine_eq_ok (hnul : nul ∉ line) (limit : Int) :
    normalizeLine limit line = .ok (spaced limit line) := by
  rcases normalizeLine_cases (not_holdsMark hnul) with ⟨-, h⟩ | ⟨_, _, _, -, -, h⟩
  all_goals rw [spaced_eq_of_ok (h limit), h]

theorem spaced_cases (hnul : nul ∉ line) :
    (∀ c ∈ line, Text.isBlank c) ∧ (∀ limit, spaced limit line = []) ∨
      ∃ lead body trail, HasCore line lead body trail ∧ (∀ c ∈ lead, isGap c) ∧
        ∀ limit, spaced limit line =
          List.replicate (min (lead.length : Int) limit).toNat ' ' ++ regular body := by
  refine (normalizeLine_cases (not_holdsMark hnul)).imp (And.imp_right fun h limit => spaced_eq_of_ok (h limit)) ?_
  rintro ⟨lead, body, trail, hcore, hlead, h⟩
  exact ⟨lead, body, trail, hcore, hlead, fun limit => spaced_eq_of_ok (h limit)⟩

@[simp] theorem spaced_nil (limit : Int) : spaced limit [] = [] :=
  spaced_eq_of_ok (normalizeLine_of_blank (by simp) limit)

theorem mem_spaced (hnul : nul ∉ line) (h : c ∈ spaced limit line) : c ∈ line ∨ c = ' ' := by
  rcases spaced_cases hnul with ⟨-, hspaced⟩ | ⟨lead, body, trail, hcore, -, hspaced⟩
  · simp [hspaced] at h
  · rw [hspaced, List.mem_append] at h
    exact h.elim (fun h => .inr (List.eq_of_mem_replicate h)) hcore.mem_regular

theorem not_mem_spaced (hnul : nul ∉ line) (hc : c ∉ line) (hne : c ≠ ' ') :
    c ∉ spaced limit line :=
  fun h => (mem_spaced hnul h).elim hc hne

/-- No line becomes longer. -/
theorem length_spaced_le (hnul : nul ∉ line) (limit : Int) :
    (spaced limit line).length ≤ line.length := by
  rcases spaced_cases hnul with ⟨-, hspaced⟩ | ⟨lead, body, trail, hcore, -, hspaced⟩
  · simp [hspaced]
  · have hbody : (regular body).length ≤ (body.flatMap Piece.text).length := by
      rw [hcore.regular_eq, ← chars_spotsOf, chars, List.length_map]
      exact length_respace_le false _
    rw [hspaced, hcore.line_eq]
    simp only [List.length_append, List.length_replicate]
    omega

/-- Twice with two limits is once with the smaller one. -/
theorem spaced_spaced (hnul : nul ∉ line) (a b : Int) :
    spaced b (spaced a line) = spaced (min a b) line := by
  rcases spaced_cases hnul with ⟨-, hspaced⟩ | ⟨lead, body, trail, hcore, -, hspaced⟩
  · rw [hspaced, hspaced, spaced_nil]
  · rw [hspaced, hspaced, spaced_eq_of_ok (hcore.normalizeLine_regular hnul b _)]
    congr 2
    omega

/-! ### Blanks at the ends of a line -/

/-- A blank at the end of a line is taken away. -/
theorem spaced_concat (hc : Text.isBlank c) (limit : Int) (line : Text) :
    spaced limit (line ++ [c]) = spaced limit line := by
  have hblank : ∀ d ∈ [c], Text.isBlank d := by simpa using hc
  have hpieces : pieces (line ++ [c]) = pieces line ++ [c].map .char := by
    rw [pieces_append_tail (.of_blank hblank), pieces_of_blank hblank]
  -- The blank is gone before the literals are put back.
  rw [spaced, spaced, normalizeLine, normalizeLine, hpieces, marked_append_char,
    Text.trimRight_append_blank hblank, literals_append, literals_map_char, List.append_nil]

/-- What becomes of a line is its core, from its first piece on that is no blank, behind blanks. -/
theorem HasCore.trimLeft_spaced (h : HasCore line lead (p :: after) trail) (hp : p.isBlank = false)
    (hnul : nul ∉ line) (limit : Int) : Text.trimLeft (spaced limit line) = regular (p :: after) := by
  -- The blanks before the core are spaces and tabs, of which the first ones are indentation, and
  -- others, which stay.
  obtain ⟨gaps, pre, rfl, hgaps, hpre⟩ : ∃ gaps pre, lead = gaps ++ pre ∧ (∀ c ∈ gaps, isGap c) ∧
      ∀ c ∈ pre.head?, isGap c = false := by
    refine ⟨lead.takeWhile isGap, lead.dropWhile isGap, List.takeWhile_append_dropWhile.symm,
      fun c hc => List.mem_takeWhile_imp hc, fun c hc => ?_⟩
    have hdrop := List.head?_dropWhile_not isGap lead
    rwa [Option.mem_def.1 hc] at hdrop
  have hblank : ∀ c ∈ pre, Text.isBlank c := fun c hc => h.lead c (List.mem_append_right _ hc)
  have hcore : HasCore line gaps (pre.map .char ++ p :: after) trail := by
    refine ⟨by rw [h.eq]; simp, fun c hc => isBlank_of_isGap (hgaps c hc), h.trail, ?_, ?_⟩
    · cases pre with
      | nil => exact ⟨p, after, rfl, Piece.not_isGap_of_not_isBlank hp⟩
      | cons c pre => exact ⟨.char c, pre.map .char ++ p :: after, rfl, hpre c rfl⟩
    · obtain ⟨qs, q, hq, hqblank⟩ := h.core.last
      exact ⟨pre.map .char ++ qs, q, by rw [hq, List.append_assoc], hqblank⟩
  rw [spaced_eq_of_ok (hcore.normalizeLine_eq (not_holdsMark hnul) hgaps limit)]
  exact h.trimLeft_regular hp (fun c hc => isBlank_of_mem_spaces hc) hblank

/-- A blank at the beginning of a line adds blanks at most. -/
theorem trimLeft_spaced_cons (hnul : nul ∉ c :: line) (hc : Text.isBlank c) (limit : Int) :
    Text.trimLeft (spaced limit (c :: line)) = Text.trimLeft (spaced limit line) := by
  have hnul' : nul ∉ line := fun h => hnul (List.mem_cons_of_mem c h)
  rcases normalizeLine_cases (not_holdsMark hnul') with ⟨hblank, h⟩ | ⟨lead, body, trail, hcore, -, -⟩
  · have hall : ∀ d ∈ c :: line, Text.isBlank d := List.forall_mem_cons.2 ⟨hc, hblank⟩
    rw [spaced_eq_of_ok (h limit), spaced_eq_of_ok (normalizeLine_of_blank hall limit)]
  · obtain ⟨pre, p, after, rfl, -, hp, hfirst⟩ := hcore.exists_firstPiece
    have hcons : HasCore (c :: line) (c :: (lead ++ pre)) (p :: after) trail := by
      refine ⟨?_, List.forall_mem_cons.2 ⟨hc, hfirst.lead⟩, hfirst.trail, hfirst.core⟩
      rw [pieces_cons_of_isBlank hc, hfirst.eq]
      rfl
    rw [hcons.trimLeft_spaced hp hnul, hfirst.trimLeft_spaced hp hnul']

/-! ### Texts -/

/-- A text with what becomes of each of its lines. -/
def spacedLines (limit : Int) (t : Text) : Text := Text.unlines ((Text.lines t).map (spaced limit))

/-- What becomes of a text. -/
def normalized (limit : Int) (t : Text) : Text := Text.trim (capBlankLines (spacedLines limit t))

theorem mapM_normalizeLine {ls : List Text} (h : ∀ l ∈ ls, nul ∉ l) (limit : Int) :
    ls.mapM (normalizeLine limit) = .ok (ls.map (spaced limit)) := by
  induction ls with
  | nil => rfl
  | cons l ls ih =>
    obtain ⟨hl, hls⟩ := List.forall_mem_cons.1 h
    rw [List.mapM_cons, normalizeLine_eq_ok hl, ih hls]
    rfl

/-- Every text without NUL becomes a text. -/
theorem normalize_eq_ok (hnul : nul ∉ t) (limit : Int) :
    normalize limit t = .ok (normalized limit t) := by
  rw [normalize, normalizeLines, mapM_normalizeLine fun l hl h => hnul (Text.mem_of_mem_lines hl h)]
  rfl

end Userscript.Script
