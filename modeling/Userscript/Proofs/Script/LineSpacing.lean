import Userscript.Proofs.Script.BlankLines
import Userscript.Proofs.Script.SpacedLines

/-!
# What regular spacing keeps

Of a line whose spacing is made regular the literals are kept as they are. Between its first and
its last character that is no blank, every run of spaces and tabs outside the literals becomes one
space, and nothing else is changed. So the words of the line are kept, and with them those of a text.

## Main definitions

* `Script.GapsJoined` — pieces with one space for every run of spaces and tabs among them
* `Script.SpacedAlike` — lines that differ in the spacing outside their literals alone

## Main results

* `gapsJoined_collapsePieces` — collapsed pieces are those with one space for every run
* `exists_spacedAlike` — what becomes of a line that holds no mark
* `normalize_spacing` — lines and texts lose nothing but spacing
-/

namespace Userscript.Script

variable {line lead trail lead' out t : Text} {ps qs : List Piece}

/-- Pieces become others as each run of spaces and tabs among them becomes one space. -/
inductive GapsJoined : List Piece → List Piece → Prop
  | nil : GapsJoined [] []
  /-- What is no space or tab stays as it is. -/
  | keep {p : Piece} {ps qs : List Piece} (hp : p.isGap = false) (h : GapsJoined ps qs) :
    GapsJoined (p :: ps) (p :: qs)
  /-- A run is as long as spaces and tabs stand together. -/
  | run {gaps ps qs : List Piece} (hne : gaps ≠ []) (hgaps : ∀ p ∈ gaps, p.isGap)
    (hend : ∀ p ∈ ps.head?, p.isGap = false) (h : GapsJoined ps qs) :
    GapsJoined (gaps ++ ps) (.char ' ' :: qs)

/-- A line differs from another in the spacing outside the literals alone. -/
structure SpacedAlike (line out : Text) : Prop where
  /-- The literals are the same ones. -/
  literals : literals (pieces out) = literals (pieces line)
  /-- No two characters that blanks stood between come to stand together, and no two that stood
  together are parted. -/
  words : Text.words out = Text.words line
  /-- From the first piece that is no blank to the last one, each run of spaces and tabs has become
  one space. -/
  between : ∃ (lead trail lead' : Text) (body body' : List Piece),
    pieces line = lead.map .char ++ body ++ trail.map .char ∧
      pieces out = lead'.map .char ++ body' ∧
      (∀ c ∈ lead ++ trail ++ lead', Text.isBlank c) ∧
      (∀ p ∈ body.head?, p.isBlank = false) ∧ (∀ p ∈ body.getLast?, p.isBlank = false) ∧
      GapsJoined body body'

/-- Collapsed pieces are those with one space for every run of spaces and tabs. -/
theorem gapsJoined_collapsePieces (ps : List Piece) : GapsJoined ps (collapsePieces false ps) := by
  -- Where a run has begun before, the rest of it is left out.
  have hrun : GapsJoined ps (collapsePieces false ps) ∧ ∃ gaps rest, ps = gaps ++ rest ∧
      (∀ p ∈ gaps, p.isGap) ∧ (∀ p ∈ rest.head?, p.isGap = false) ∧
      GapsJoined rest (collapsePieces true ps) := by
    induction ps with
    | nil => exact ⟨.nil, [], [], rfl, by simp, by simp, .nil⟩
    | cons p ps ih =>
      obtain ⟨hfresh, gaps, rest, hps, hgaps, hend, hjoined⟩ := ih
      by_cases hp : p.isGap
      · have hgaps : ∀ q ∈ p :: gaps, q.isGap := List.forall_mem_cons.2 ⟨hp, hgaps⟩
        rw [collapsePieces_cons_of_gap hp, collapsePieces_true_cons_of_gap hp]
        refine ⟨?_, p :: gaps, rest, by rw [hps]; rfl, hgaps, hend, hjoined⟩
        have := GapsJoined.run (List.cons_ne_nil p gaps) hgaps hend hjoined
        rwa [List.cons_append, ← hps] at this
      · have hp : p.isGap = false := by simpa using hp
        rw [collapsePieces_cons_of_not_gap hp, collapsePieces_cons_of_not_gap hp]
        exact ⟨.keep hp hfresh, [], p :: ps, rfl, by simp, by simpa using hp, .keep hp hfresh⟩
  exact hrun.1

/-- Runs of spaces and tabs part words as one space does. -/
theorem GapsJoined.words_eq (h : GapsJoined ps qs) (s : Text) :
    Text.words (s ++ ps.flatMap Piece.text) = Text.words (s ++ qs.flatMap Piece.text) := by
  induction h generalizing s with
  | nil => rfl
  | @keep p ps qs hp h ih =>
    have := ih (s ++ p.text)
    rwa [List.append_assoc, List.append_assoc] at this
  | @run gaps ps qs hne hgaps hend h ih =>
    obtain ⟨gap, rfl, hgap⟩ := exists_eq_map_char (fun _ => rfl) hgaps
    have hne : gap ≠ [] := by simpa using hne
    rw [List.flatMap_append, flatMap_text_map_char, List.flatMap_cons,
      Text.words_append_blanks_append hne fun c hc => isBlank_of_isGap (hgap c hc)]
    -- Behind the run both texts begin anew.
    have hrest : Text.words (ps.flatMap Piece.text) = Text.words (qs.flatMap Piece.text) := ih []
    rw [hrest]
    exact (Text.words_append_blank (by decide) s _).symm

/-- No literal is a run of spaces and tabs, or a part of one. -/
theorem GapsJoined.literals_eq (h : GapsJoined ps qs) : Script.literals qs = Script.literals ps := by
  induction h with
  | nil => rfl
  | @keep p ps qs hp h ih =>
    cases p with
    | char c => exact ih
    | literal l => exact congrArg (l :: ·) ih
  | @run gaps ps qs hne hgaps hend h ih =>
    obtain ⟨gap, rfl, -⟩ := exists_eq_map_char (fun _ => rfl) hgaps
    rw [literals_char, ih, literals_append, literals_map_char, List.nil_append]

/-- Lines are alike if their pieces are between the blanks at their ends. -/
theorem SpacedAlike.of_gapsJoined (hline : pieces line = lead.map .char ++ ps ++ trail.map .char)
    (hout : pieces out = lead'.map .char ++ qs)
    (hblank : ∀ c ∈ lead ++ trail ++ lead', Text.isBlank c)
    (hhead : ∀ p ∈ ps.head?, p.isBlank = false) (hlast : ∀ p ∈ ps.getLast?, p.isBlank = false)
    (h : GapsJoined ps qs) : SpacedAlike line out := by
  obtain ⟨⟨hlead, htrail⟩, hlead'⟩ := List.forall_mem_append.1 hblank |>.imp_left List.forall_mem_append.1
  refine ⟨?_, ?_, lead, trail, lead', ps, qs, hline, hout, hblank, hhead, hlast, h⟩
  · rw [hline, hout]
    simp only [literals_append, literals_map_char, List.nil_append, List.append_nil, h.literals_eq]
  · have hwords : Text.words (ps.flatMap Piece.text) = Text.words (qs.flatMap Piece.text) :=
      h.words_eq []
    rw [← flatMap_text_pieces out, ← flatMap_text_pieces line, hline, hout, List.flatMap_append,
      List.flatMap_append, List.flatMap_append, flatMap_text_map_char, flatMap_text_map_char,
      flatMap_text_map_char, Text.words_append_blanks htrail, Text.words_blanks_append hlead,
      Text.words_blanks_append hlead', hwords]

theorem SpacedAlike.squeeze_eq (h : SpacedAlike line out) : Text.squeeze out = Text.squeeze line := by
  rw [← Text.flatten_words, h.words, Text.flatten_words]

/-- A line differs from one with regular spacing in the spacing outside the literals alone. -/
theorem HasCore.spacedAlike (h : HasCore line lead ps trail) (n : Nat) :
    SpacedAlike line (List.replicate n ' ' ++ regular ps) := by
  -- Blanks that are left before the first piece that is no blank count with the indentation.
  obtain ⟨pre, p, after, rfl, hpre, hp, hfirst⟩ := h.exists_firstPiece
  obtain ⟨d, hd, hcollapse⟩ := exists_collapsePieces_blank_append hpre
    (Piece.not_isGap_of_not_isBlank hp) false after
  have hout := h.pieces_regular n
  rw [hcollapse, ← List.append_assoc, ← List.map_append] at hout
  obtain ⟨qs, q, hlast, hq⟩ := hfirst.core.last
  refine .of_gapsJoined hfirst.eq hout ?_ (by simpa using hp) ?_ (gapsJoined_collapsePieces _)
  · simp only [List.forall_mem_append]
    exact ⟨⟨List.forall_mem_append.1 hfirst.lead, hfirst.trail⟩,
      fun c hc => isBlank_of_mem_spaces hc, hd⟩
  · rw [hlast]
    simpa using hq

/-- A line that holds no mark becomes one that differs from it in the spacing outside the literals
alone. -/
theorem exists_spacedAlike (hmark : ¬ HoldsMark (pieces line)) (limit : Int) :
    ∃ out, normalizeLine limit line = .ok out ∧ SpacedAlike line out := by
  rcases normalizeLine_cases hmark with ⟨hblank, h⟩ | ⟨lead, body, trail, hcore, -, h⟩
  · have hline : pieces line = line.map .char ++ [] ++ [].map .char := by
      rw [pieces_of_blank hblank, List.map_nil, List.append_nil, List.append_nil]
    have hout : pieces [] = [].map .char ++ [] := by rw [pieces]; rfl
    exact ⟨[], h limit, .of_gapsJoined hline hout (by simpa using hblank) (by simp) (by simp) .nil⟩
  · exact ⟨_, h limit, hcore.spacedAlike _⟩

theorem spacedAlike_spaced (hnul : nul ∉ line) (limit : Int) :
    SpacedAlike line (spaced limit line) := by
  obtain ⟨out, hout, halike⟩ := exists_spacedAlike (not_holdsMark hnul) limit
  rwa [spaced_eq_of_ok hout]

theorem words_spacedLines (hnul : nul ∉ t) (limit : Int) :
    Text.words (spacedLines limit t) = Text.words t := by
  have hline : ∀ l ∈ Text.lines t, Text.words (spaced limit l) = Text.words l :=
    fun l hl => (spacedAlike_spaced (fun h => hnul (Text.mem_of_mem_lines hl h)) limit).words
  calc Text.words (spacedLines limit t)
      = (Text.lines t).flatMap fun l => Text.words (spaced limit l) := by
        rw [spacedLines, Text.words_unlines, List.flatMap_map]
    _ = (Text.lines t).flatMap Text.words := List.flatMap_congr hline
    _ = Text.words t := by rw [← Text.words_unlines, Text.unlines_lines]

/-- Nothing but spacing is changed: of a line that outside its literals, and of a text that between
its words. -/
theorem normalize_spacing (hnul : nul ∉ t) (limit : Int) :
    (∃ out, normalizeLine limit t = .ok out ∧ SpacedAlike t out) ∧
      ∃ out, normalize limit t = .ok out ∧ Text.words out = Text.words t ∧
        Text.squeeze out = Text.squeeze t := by
  have hwords : Text.words (normalized limit t) = Text.words t := by
    rw [normalized, Text.words_trim, words_capBlankLines, words_spacedLines hnul]
  refine ⟨⟨_, normalizeLine_eq_ok hnul limit, spacedAlike_spaced hnul limit⟩, _,
    normalize_eq_ok hnul limit, hwords, ?_⟩
  rw [← Text.flatten_words, hwords, Text.flatten_words]

/-- A script of a string, a pattern, a division, and a string that is not closed, with spaces and
tabs within and between them. -/
theorem normalize_spacing_unclosed :
    let t := "\t  s  =\t'a  b'  +  /c \t d/g ; \n\n\n\n  q = a  /  b  +  \"open \\ ".toList
    nul ∉ t ∧ (∃ out, normalizeLine 2 t = .ok out ∧ SpacedAlike t out) ∧
      ∃ out, normalize 2 t = .ok out ∧ Text.words out = Text.words t ∧
        Text.squeeze out = Text.squeeze t :=
  ⟨by decide, normalize_spacing (by decide) 2⟩

end Userscript.Script
