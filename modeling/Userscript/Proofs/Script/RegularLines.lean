import Mathlib.Data.List.Chain
import Userscript.Proofs.Script.Agreement

/-!
# Lines with regular spacing

A line that is not blank consists of blanks, a core, and blanks again. Its spacing is regular if
the core is collapsed and nothing but a few spaces stands around it. Such a line stays as it is,
and if the line holds no comment, neither does what becomes of it.

## Main definitions

* `Script.HasCore` — a line consists of blanks, a core, and blanks
* `Script.regular` — a core with regular spacing

## Main results

* `HasCore.normalizeLine_eq` — what becomes of a line
* `HasCore.normalizeLine_regular` — of a line with regular spacing only the indentation may change
* `HasCore.isPlain_regular` — a line with regular spacing holds no comment if the line does not, and
  has its closed literals with regular spacing each
-/

namespace Userscript.Script

variable {ctx : Context} {gap : Bool} {line lead trail indent t : Text} {body ps : List Piece}
  {after : List Piece} {p : Piece} {c : Char}

/-- A line consists of blanks, a core, and blanks. -/
structure HasCore (line lead : Text) (body : List Piece) (trail : Text) : Prop where
  eq : pieces line = lead.map .char ++ body ++ trail.map .char
  lead : ∀ c ∈ lead, Text.isBlank c
  trail : ∀ c ∈ trail, Text.isBlank c
  core : IsCore body

/-- The text of a core with regular spacing. -/
def regular (body : List Piece) : Text := (collapsePieces false body).flatMap Piece.text

/-- A line that is not blank consists of spaces and tabs, a core, and blanks. -/
theorem exists_hasCore (h : Text.isBlankText line = false) :
    ∃ lead body trail, HasCore line lead body trail ∧ ∀ c ∈ lead, isGap c := by
  obtain ⟨lead, body, trail, heq, hlead, htrail, hbody⟩ := exists_core h
  exact ⟨lead, body, trail, ⟨heq, fun c hc => isBlank_of_isGap (hlead c hc), htrail, hbody⟩, hlead⟩

theorem isBlank_of_mem_spaces {n : Nat} (h : c ∈ List.replicate n ' ') : Text.isBlank c := by
  rw [List.eq_of_mem_replicate h]
  decide

/-! ### Collapsed pieces -/

/-- Collapsing once more changes nothing. -/
theorem collapsePieces_collapsePieces (gap : Bool) (ps : List Piece) :
    collapsePieces gap (collapsePieces gap ps) = collapsePieces gap ps := by
  induction ps generalizing gap with
  | nil => rfl
  | cons p ps ih =>
    by_cases hp : p.isGap
    · cases gap with
      | false => rw [collapsePieces_cons_of_gap hp, collapsePieces_cons_of_gap (by decide), ih]
      | true => rw [collapsePieces_true_cons_of_gap hp, ih]
    · have hp : p.isGap = false := by simpa using hp
      rw [collapsePieces_cons_of_not_gap hp, collapsePieces_cons_of_not_gap hp, ih]

/-- A gap that is left is a space. -/
theorem eq_space_of_mem_collapsePieces (h : p ∈ collapsePieces gap ps) (hp : p.isGap) :
    p = .char ' ' := by
  induction ps generalizing gap with
  | nil => cases h
  | cons q ps ih =>
    by_cases hq : q.isGap
    · cases gap with
      | false =>
        rw [collapsePieces_cons_of_gap hq] at h
        exact (List.mem_cons.1 h).elim id ih
      | true =>
        rw [collapsePieces_true_cons_of_gap hq] at h
        exact ih h
    · rw [collapsePieces_cons_of_not_gap (by simpa using hq)] at h
      rcases List.mem_cons.1 h with rfl | h
      · exact absurd hp hq
      · exact ih h

/-- No two gaps are left side by side. -/
theorem isChain_collapsePieces (gap : Bool) (ps : List Piece) :
    (collapsePieces gap ps).IsChain fun p q => ¬(p.isGap ∧ q.isGap) := by
  -- Behind a space that has been given out there begins no other gap.
  have hhead (ps : List Piece) : ∀ p ∈ (collapsePieces true ps).head?, p.isGap = false := by
    induction ps with
    | nil => simp [collapsePieces]
    | cons q ps ih =>
      by_cases hq : q.isGap
      · rwa [collapsePieces_true_cons_of_gap hq]
      · rw [collapsePieces_cons_of_not_gap (by simpa using hq)]
        simpa using hq
  induction ps generalizing gap with
  | nil => exact .nil
  | cons q ps ih =>
    by_cases hq : q.isGap
    · cases gap with
      | false =>
        rw [collapsePieces_cons_of_gap hq]
        exact List.isChain_cons.2 ⟨fun p hp h => by simp [hhead ps p hp] at h, ih true⟩
      | true =>
        rw [collapsePieces_true_cons_of_gap hq]
        exact ih true
    · rw [collapsePieces_cons_of_not_gap (by simpa using hq)]
      exact List.isChain_cons.2 ⟨fun p _ h => hq h.1, ih false⟩

theorem collapsePieces_concat (h : p.isGap = false) (gap : Bool) (ps : List Piece) :
    collapsePieces gap (ps ++ [p]) = collapsePieces gap ps ++ [p] := by
  induction ps generalizing gap with
  | nil => rw [List.nil_append, collapsePieces_cons_of_not_gap h]; rfl
  | cons q ps ih =>
    rw [List.cons_append]
    by_cases hq : q.isGap
    · cases gap with
      | false => rw [collapsePieces_cons_of_gap hq, collapsePieces_cons_of_gap hq, ih]; rfl
      | true => rw [collapsePieces_true_cons_of_gap hq, collapsePieces_true_cons_of_gap hq, ih]
    · have hq : q.isGap = false := by simpa using hq
      rw [collapsePieces_cons_of_not_gap hq, collapsePieces_cons_of_not_gap hq, ih]
      rfl

theorem IsCore.collapsePieces (h : IsCore body) : IsCore (collapsePieces false body) := by
  obtain ⟨p, ps, rfl, hp⟩ := h.head
  obtain ⟨qs, q, hq, hblank⟩ := h.last
  refine ⟨⟨p, _, collapsePieces_cons_of_not_gap hp _ _, hp⟩,
    ⟨Script.collapsePieces false qs, q, ?_, hblank⟩⟩
  rw [hq, collapsePieces_concat (Piece.not_isGap_of_not_isBlank hblank)]

/-- Blanks before a core are collapsed to blanks, and the core behind them by itself. -/
theorem exists_collapsePieces_blank_append (hpre : ∀ c ∈ t, Text.isBlank c) (hp : p.isGap = false)
    (gap : Bool) (ps : List Piece) :
    ∃ d : Text, (∀ c ∈ d, Text.isBlank c) ∧
      collapsePieces gap (t.map .char ++ p :: ps) =
        d.map .char ++ collapsePieces false (p :: ps) := by
  -- Whether a space has been given out changes from one blank to the next.
  induction t generalizing gap with
  | nil =>
    refine ⟨[], by simp, ?_⟩
    rw [List.map_nil, List.nil_append, collapsePieces_cons_of_not_gap hp,
      collapsePieces_cons_of_not_gap hp]
    rfl
  | cons c t ih =>
    have ih := ih fun e he => hpre e (by simp [he])
    have hblank := hpre c (by simp)
    rw [List.map_cons, List.cons_append]
    by_cases hc : (Piece.char c).isGap
    · obtain ⟨d, hd, hcollapse⟩ := ih true
      cases gap with
      | false =>
        refine ⟨' ' :: d, by simpa using ⟨by decide, hd⟩, ?_⟩
        rw [collapsePieces_cons_of_gap hc, hcollapse]
        rfl
      | true => exact ⟨d, hd, by rw [collapsePieces_true_cons_of_gap hc, hcollapse]⟩
    · obtain ⟨d, hd, hcollapse⟩ := ih false
      refine ⟨c :: d, by simpa using ⟨hblank, hd⟩, ?_⟩
      rw [collapsePieces_cons_of_not_gap (by simpa using hc), hcollapse]
      rfl

/-- A core begins with blanks that are no spaces or tabs, if with any. -/
theorem IsCore.exists_blank_append (h : IsCore body) :
    ∃ (pre : Text) (p : Piece) (after : List Piece), body = pre.map .char ++ p :: after ∧
      (∀ c ∈ pre, Text.isBlank c) ∧ p.isBlank = false ∧ IsCore (p :: after) := by
  obtain ⟨qs, q, hq, hqblank⟩ := h.last
  obtain ⟨before, p, after, hbody, hbefore, hp⟩ :=
    exists_first_of_exists ⟨q, show q ∈ body by simp [hq], hqblank⟩
  obtain ⟨pre, rfl, hpre⟩ := exists_eq_map_char (fun _ => rfl) hbefore
  refine ⟨pre, p, after, hbody, hpre, hp, ⟨p, after, rfl, Piece.not_isGap_of_not_isBlank hp⟩, ?_⟩
  -- The last piece of the body is the last one of what is left, unless that is `p` alone.
  rcases List.eq_nil_or_concat after with rfl | ⟨rs, r, rfl⟩
  · exact ⟨[], p, rfl, hp⟩
  · have hlast : qs ++ [q] = (pre.map .char ++ p :: rs) ++ [r] := by rw [← hq, hbody]; simp
    obtain ⟨-, rfl⟩ := List.append_inj' hlast rfl |>.imp id fun h => (List.cons.inj h).1
    exact ⟨p :: rs, q, by simp, hqblank⟩

/-! ### The ends of a core -/

/-- A literal by its form ends in no blank. -/
theorem not_isBlank_getLast?_of_literal {l rest : Text} (h : literalAt? t = some (l, rest)) {d : Char}
    (hd : l.getLast? = some d) : Text.isBlank d = false := by
  obtain ⟨line, rest', hline, -, h⟩ := literalAt?_eq_some_of_line h
  cases line with
  | nil => simp [literalAt?] at h
  | cons c t =>
    rw [literalAt?_cons fun hmem => hline (List.mem_cons_of_mem c hmem)] at h
    split at h
    · next hopens =>
      split at h
      · next hread =>
        cases h
        exact not_isBlank_getLast?_readLiteral (not_isBlank_of_opensByForm hopens).1
          (by rw [hread]) hd
      · cases h
    · cases h

theorem not_isBlank_getLast?_of_mem_pieces {l : Text} (h : .literal l ∈ pieces line) {d : Char}
    (hd : l.getLast? = some d) : Text.isBlank d = false := by
  fun_induction pieces line with
  | case1 => simp at h
  | case2 c t l' rest hliteral ih =>
    rcases List.mem_cons.1 h with h | h
    · cases h
      exact not_isBlank_getLast?_of_literal hliteral hd
    · exact ih h
  | case3 c t hliteral ih => exact ih (by simpa using h)

/-- The text of pieces of which the last is no blank ends in none. -/
theorem exists_text_eq_concat (hliteral : ∀ l, .literal l ∈ body → l ≠ [] ∧
    ∀ d, l.getLast? = some d → Text.isBlank d = false) (h : IsCore body) :
    ∃ s d, body.flatMap Piece.text = s ++ [d] ∧ Text.isBlank d = false := by
  obtain ⟨ps, p, rfl, hp⟩ := h.last
  cases p with
  | char c => exact ⟨ps.flatMap Piece.text, c, by simp [Piece.text], hp⟩
  | literal l =>
    obtain ⟨hne, hlast⟩ := hliteral l (by simp)
    -- The last piece is a literal, and its last character is that of the text.
    obtain ⟨s, d, rfl⟩ : ∃ s d, l = s ++ [d] :=
      ⟨_, _, (List.dropLast_append_getLast hne).symm⟩
    refine ⟨ps.flatMap Piece.text ++ s, d, by simp [Piece.text], hlast d (by simp)⟩

namespace HasCore

theorem line_eq (h : HasCore line lead body trail) :
    line = lead ++ (body.flatMap Piece.text ++ trail) := by
  have hline := flatMap_text_pieces line
  rw [h.eq, List.flatMap_append, List.flatMap_append, flatMap_text_map_char,
    flatMap_text_map_char, List.append_assoc] at hline
  exact hline.symm

/-- The core is cut out of the line without a change to its pieces. -/
theorem pieces_body (h : HasCore line lead body trail) : pieces (body.flatMap Piece.text) = body := by
  have heq := h.eq
  rw [h.line_eq, pieces_blank_append h.lead, pieces_append_tail (.of_blank h.trail),
    pieces_of_blank h.trail, ← List.append_assoc] at heq
  exact List.append_cancel_left (List.append_cancel_right heq)

theorem exists_cons_of_literal (h : HasCore line lead body trail) {l : Text}
    (hl : .literal l ∈ body) : ∃ c l', l = c :: l' ∧ Text.isBlank c = false :=
  have hmem : .literal l ∈ pieces line := by simp [h.eq, hl]
  exists_cons_of_literal_mem_pieces hmem

theorem ne_nil_of_literal (h : HasCore line lead body trail) (l : Text) (hl : .literal l ∈ body) :
    l ≠ [] := by
  obtain ⟨c, l', rfl, -⟩ := h.exists_cons_of_literal hl
  exact List.cons_ne_nil c l'

/-- The text of a core with regular spacing is that of its characters. -/
theorem regular_eq (h : HasCore line lead body trail) :
    regular body = respace false (spotsOf body) :=
  (respace_spotsOf h.ne_nil_of_literal false).symm

/-- With regular spacing, a line has the collapsed core. -/
theorem hasCore_regular (h : HasCore line lead body trail) (indent : Text)
    (hindent : ∀ c ∈ indent, Text.isBlank c) :
    HasCore (indent ++ regular body) indent (collapsePieces false body) [] := by
  refine ⟨?_, hindent, by simp, h.core.collapsePieces⟩
  rw [pieces_blank_append hindent, h.regular_eq, pieces_respace h.pieces_body]
  simp

/-- The pieces of a line with regular spacing are spaces and the collapsed core. -/
theorem pieces_regular (h : HasCore line lead body trail) (n : Nat) :
    pieces (List.replicate n ' ' ++ regular body) =
      (List.replicate n ' ').map .char ++ collapsePieces false body := by
  have heq := (h.hasCore_regular (List.replicate n ' ') fun c hc => isBlank_of_mem_spaces hc).eq
  rwa [List.map_nil, List.append_nil] at heq

theorem exists_eq_concat (h : HasCore line lead body trail) :
    ∃ s d, body.flatMap Piece.text = s ++ [d] ∧ Text.isBlank d = false := by
  refine exists_text_eq_concat (fun l hl => ⟨h.ne_nil_of_literal l hl, fun d hd => ?_⟩) h.core
  exact not_isBlank_getLast?_of_mem_pieces (show .literal l ∈ pieces line by simp [h.eq, hl]) hd

theorem mem_regular (h : HasCore line lead body trail) (hc : c ∈ regular body) :
    c ∈ line ∨ c = ' ' := by
  rw [h.regular_eq] at hc
  refine (mem_respace hc).imp_left fun hc => ?_
  rw [chars_spotsOf] at hc
  rw [h.line_eq]
  exact List.mem_append_right _ (List.mem_append_left _ hc)

theorem not_mem_indent_regular (h : HasCore line lead body trail) (hc : c ∉ line)
    (hindent : ∀ c ∈ indent, c = ' ') (hne : c ≠ ' ') : c ∉ indent ++ regular body := by
  intro hmem
  rcases List.mem_append.1 hmem with hmem | hmem
  · exact hne (hindent c hmem)
  · exact (h.mem_regular hmem).elim hc hne

/-- A line with regular spacing ends in no blank. -/
theorem exists_regular_eq_concat (h : HasCore line lead body trail) :
    ∃ s d, regular body = s ++ [d] ∧ Text.isBlank d = false :=
  (h.hasCore_regular [] (by simp)).exists_eq_concat

/-- What becomes of a line that is not blank and holds no mark. -/
theorem normalizeLine_eq (h : HasCore line lead body trail) (hmark : ¬ HoldsMark (pieces line))
    (hlead : ∀ c ∈ lead, isGap c) (limit : Int) :
    normalizeLine limit line =
      .ok (List.replicate (min (lead.length : Int) limit).toNat ' ' ++ regular body) :=
  Script.normalizeLine_eq limit hmark h.eq hlead h.trail h.core

/-- Of a line with regular spacing only the indentation may change. -/
theorem normalizeLine_regular (h : HasCore line lead body trail) (hnul : nul ∉ line) (limit : Int)
    (n : Nat) : normalizeLine limit (List.replicate n ' ' ++ regular body) =
      .ok (List.replicate (min (n : Int) limit).toNat ' ' ++ regular body) := by
  have hspace : ∀ c ∈ List.replicate n ' ', c = ' ' := fun c hc => List.eq_of_mem_replicate hc
  have hregular := h.hasCore_regular (List.replicate n ' ') fun c hc => isBlank_of_mem_spaces hc
  -- The core is collapsed already.
  have hcollapsed : regular (collapsePieces false body) = regular body := by
    rw [regular, collapsePieces_collapsePieces, regular]
  rw [hregular.normalizeLine_eq (not_holdsMark (h.not_mem_indent_regular hnul hspace (by decide)))
    (fun c hc => by rw [hspace c hc]; decide), hcollapsed, List.length_replicate]

/-- What stands before the first piece that is no blank counts with the blanks before the core. -/
theorem exists_firstPiece (h : HasCore line lead body trail) :
    ∃ (pre : Text) (p : Piece) (after : List Piece), body = pre.map .char ++ p :: after ∧
      (∀ c ∈ pre, Text.isBlank c) ∧ p.isBlank = false ∧
      HasCore line (lead ++ pre) (p :: after) trail := by
  obtain ⟨pre, p, after, rfl, hpre, hp, hcore⟩ := h.core.exists_blank_append
  refine ⟨pre, p, after, rfl, hpre, hp, by rw [h.eq]; simp, fun c hc => ?_, h.trail, hcore⟩
  exact (List.mem_append.1 hc).elim (h.lead c) (hpre c)

/-- With regular spacing, a core begins as it did. -/
theorem exists_regular_eq_cons (h : HasCore line lead (p :: after) trail) :
    ∃ c t, regular (p :: after) = c :: t ∧ (p = .char c ∨ Text.isBlank c = false) := by
  obtain ⟨q, rest, hcons, hgap⟩ := h.core.head
  obtain ⟨rfl, rfl⟩ := List.cons.inj hcons
  rw [regular, collapsePieces_cons_of_not_gap hgap, List.flatMap_cons]
  cases p with
  | char c => exact ⟨c, _, rfl, .inl rfl⟩
  | literal l =>
    obtain ⟨c, l', rfl, hc⟩ := h.exists_cons_of_literal List.mem_cons_self
    exact ⟨c, _, rfl, .inr hc⟩

/-- If the first piece of a core is no blank, the core is what is left of a line without the blanks
it begins with. -/
theorem trimLeft_regular (h : HasCore line lead (p :: after) trail) (hp : p.isBlank = false)
    {indent pre : Text} (hindent : ∀ c ∈ indent, Text.isBlank c) (hpre : ∀ c ∈ pre, Text.isBlank c) :
    Text.trimLeft (indent ++ regular (pre.map .char ++ p :: after)) = regular (p :: after) := by
  obtain ⟨c, t, hregular, hc⟩ := h.exists_regular_eq_cons
  have hc : Text.isBlank c = false := hc.elim (fun hchar => by rwa [hchar] at hp) id
  obtain ⟨d, hd, hcollapse⟩ := exists_collapsePieces_blank_append hpre
    (Piece.not_isGap_of_not_isBlank hp) false after
  rw [regular, hcollapse, List.flatMap_append, flatMap_text_map_char, ← regular, hregular,
    Text.trimLeft_blank_append hindent, Text.trimLeft_blank_append hd, Text.trimLeft_cons hc]

/-- Without the blanks at its beginning, a line with regular spacing has a core that begins with
no blank. -/
theorem exists_trimLeft_regular (h : HasCore line lead body trail) (indent : Text)
    (hindent : ∀ c ∈ indent, Text.isBlank c) :
    ∃ lead' body', HasCore line lead' body' trail ∧
      Text.trimLeft (indent ++ regular body) = regular body' := by
  obtain ⟨pre, p, after, rfl, hpre, hp, hcore⟩ := h.exists_firstPiece
  exact ⟨_, _, hcore, hcore.trimLeft_regular hp hindent hpre⟩

/-! ### The tokens of a line with regular spacing -/

/-- The carriage return that a line ends in stands among the blanks behind its core. -/
theorem cutReturn_eq (h : HasCore line lead body trail) :
    ∃ d, (∀ c ∈ d, Text.isBlank c) ∧
      (cutReturn line).1 = lead ++ (body.flatMap Piece.text ++ d) := by
  obtain ⟨s, e, hbody, he⟩ := h.exists_eq_concat
  rw [cutReturn]
  split
  · next hreturn =>
    rw [h.line_eq] at hreturn ⊢
    -- The carriage return is a blank, so it is not the end of the core.
    rcases List.eq_nil_or_concat trail with rfl | ⟨trail, c, rfl⟩
    · rw [hbody] at hreturn
      have : e = '\r' := by simpa using hreturn
      rw [this] at he
      exact absurd he (by decide)
    · refine ⟨trail, fun d hd => h.trail d (by simp [hd]), ?_⟩
      rw [List.concat_eq_append, ← List.append_assoc, ← List.append_assoc, List.dropLast_concat,
        List.append_assoc]
  · exact ⟨trail, h.trail, h.line_eq⟩

theorem cutReturn_regular (h : HasCore line lead body trail) (indent : Text) :
    cutReturn (indent ++ regular body) = (indent ++ regular body, []) := by
  obtain ⟨s, d, hregular, hd⟩ := h.exists_regular_eq_concat
  rw [cutReturn, if_neg]
  rw [hregular, ← List.append_assoc, List.getLast?_concat]
  rintro hreturn
  rw [Option.some.inj hreturn] at hd
  exact absurd hd (by decide)

theorem spots_eq (h : HasCore line lead body trail) :
    spots line = spotsOf (lead.map .char) ++ (spotsOf body ++ spotsOf (trail.map .char)) := by
  rw [spots, h.eq]
  simp [spotsOf]

/-- With regular spacing, a line without comments holds no comment, and its closed literals are
those of the line with regular spacing each. -/
theorem isPlain_regular (h : HasCore line lead body trail)
    (hctx : ctx.Wordwise) (hplain : IsPlain ctx line) (indent : Text)
    (hindent : ∀ c ∈ indent, Text.isBlank c) :
    IsPlain ctx (indent ++ regular body) ∧
      closedOf (lexLine ctx [] (cutReturn (indent ++ regular body)).1) =
        (closedSpans (lexLine ctx [] (cutReturn line).1) (spots line)).map (respace false) := by
  obtain ⟨d, hd, hcut⟩ := h.cutReturn_eq
  rw [IsPlain, hcut, lexLine_blank_append ctx h.lead, ← chars_spotsOf] at hplain
  -- Before the core stand nothing but blanks in both lines.
  have hagree : Agree false (lead.reverse ++ []) (indent.reverse ++ []) := by
    refine Agree.of_blank ?_ ?_
    · simpa using h.lead
    · simpa using hindent
  obtain ⟨hregular, hclosed⟩ := lexLine_respace hctx hd (spotsOf (trail.map .char)) false _ _
    hagree (spotsOf body) fun tok htok => hplain tok (List.mem_append_right _ htok)
  have hlength : (spotsOf (lead.map Piece.char)).length = lead.length := by
    rw [spotsOf_map_char, List.length_map]
  rw [IsPlain, h.cutReturn_regular, h.regular_eq, lexLine_blank_append ctx hindent, hcut,
    lexLine_blank_append ctx h.lead, ← chars_spotsOf, closedSpans_map_code_append, h.spots_eq,
    ← hlength, List.drop_left, ← hclosed, closedOf_map_code_append]
  refine ⟨fun tok htok => ?_, rfl⟩
  rcases List.mem_append.1 htok with htok | htok
  · obtain ⟨c, -, rfl⟩ := List.mem_map.1 htok
    rfl
  · exact hregular tok htok

end HasCore

end Userscript.Script
