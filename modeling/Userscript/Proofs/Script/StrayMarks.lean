import Userscript.Proofs.Script.LineSpacing

/-!
# Marks that stand for no literal

A line that holds NUL may hold what is read as a mark although no literal was taken out there: NUL,
digits, and NUL, of which the last one may begin the mark of a literal. Where the first such mark
stands a literal is put that begins otherwise, if there is one of that number, so the line is not
kept. A line that holds no such mark is kept as one without NUL is.

## Main results

* `squeeze_ne_of_restore` — what is put back differs from pieces that hold a mark
* `normalizeLine_keeps_iff` — a line is kept exactly if it holds no mark
-/

namespace Userscript.Script

variable {saved : Array Text} {digits t line out : Text} {ps : List Piece} {n : Nat}

theorem mem_of_literalOf (h : literalOf saved digits = .ok t) : t ∈ saved := by
  rw [literalOf] at h
  split at h
  · cases h
  · dsimp only at h
    split at h
    · next hget =>
      cases h
      exact Array.mem_of_getElem? hget
    · cases h

theorem exists_of_map_eq_ok {r : Except MarkFault Text} {f : Text → Text} (h : r.map f = .ok out) :
    ∃ after, r = .ok after ∧ out = f after := by
  cases r with
  | error => cases h
  | ok after =>
    cases h
    exact ⟨after, rfl, rfl⟩

theorem exists_of_restore_of_digitsOfMark? {rest : Text} (h : digitsOfMark? t = some (digits, rest))
    (hrestore : restore saved (nul :: t) = .ok out) : ∃ l ∈ saved, ∃ after, out = l ++ after := by
  rw [restore_of_digitsOfMark? h] at hrestore
  cases hliteral : literalOf saved digits with
  | error =>
    rw [hliteral] at hrestore
    cases hrestore
  | ok l =>
    rw [hliteral] at hrestore
    obtain ⟨after, -, hout⟩ := exists_of_map_eq_ok hrestore
    exact ⟨l, mem_of_literalOf hliteral, after, hout⟩

/-- Literals that begin neither with NUL nor with a blank, as those of a line do. -/
def Recognizable (saved : Array Text) : Prop :=
  ∀ l ∈ saved, ∃ c l', l = c :: l' ∧ c ≠ nul ∧ Text.isBlank c = false

/-- If pieces hold a mark themselves, what is put back for the marks differs from them. -/
theorem squeeze_ne_of_restore (hsaved : Recognizable saved) (hmark : HoldsMark ps)
    (h : literals ps = saved.toList.drop n) (hrestore : restore saved (marked n ps) = .ok out) :
    Text.squeeze out ≠ Text.squeeze (ps.flatMap Piece.text) := by
  induction ps generalizing n out with
  | nil => cases hmark
  | cons p ps ih =>
    by_cases hfirst : p = .char nul ∧ CompletesMark ps
    · -- The pieces have NUL where what is put back has the beginning of a literal.
      obtain ⟨rfl, hcompletes⟩ := hfirst
      obtain ⟨digits, rest, hdigits⟩ := (completesMark_iff (n := n)).1 hcompletes
      obtain ⟨l, hl, after, rfl⟩ := exists_of_restore_of_digitsOfMark? hdigits hrestore
      obtain ⟨c, l', rfl, hc, hblank⟩ := hsaved l hl
      have hpieces : (Piece.char nul :: ps).flatMap Piece.text = nul :: ps.flatMap Piece.text := rfl
      rw [hpieces, List.cons_append, Text.squeeze_cons_of_not_isBlank hblank,
        Text.squeeze_cons_of_not_isBlank not_isBlank_nul]
      exact fun heq => hc (List.cons.inj heq).1
    · -- Before the first mark everything is put back as it was.
      have hmark := (holdsMark_cons_iff.1 hmark).resolve_left hfirst
      obtain ⟨n', hliterals, hstep⟩ := exists_restore_marked_cons hfirst h
      rw [hstep] at hrestore
      obtain ⟨after, hafter, rfl⟩ := exists_of_map_eq_ok hrestore
      rw [List.flatMap_cons, Text.squeeze_append, Text.squeeze_append]
      exact fun heq => ih hmark hliterals hafter (List.append_cancel_left heq)

theorem literalAt?_nul (t : Text) : literalAt? (nul :: t) = none := by
  simp [literalAt?, isQuote, nul]

theorem literal_mem_of_mem_literals (h : t ∈ literals ps) : .literal t ∈ ps := by
  obtain ⟨p, hp, hsome⟩ := List.mem_filterMap.1 h
  cases p with
  | char c => cases hsome
  | literal l =>
    cases hsome
    exact hp

theorem recognizable_of_forall_mem_pieces (h : ∀ l, .literal l ∈ ps → .literal l ∈ pieces line) :
    Recognizable (literals ps).toArray := by
  intro l hl
  have hmem : .literal l ∈ ps := literal_mem_of_mem_literals (List.mem_toArray.1 hl)
  obtain ⟨c, l', t, rfl, hopens⟩ := exists_opener_of_literal_mem_pieces (h l hmem)
  refine ⟨c, l', rfl, ?_, ?_⟩
  · rintro rfl
    exact hopens (literalAt?_nul t)
  · rw [Bool.eq_false_iff]
    exact fun hblank => hopens (literalAt?_of_isBlank hblank)

/-- A line that holds a mark itself is not kept. -/
theorem squeeze_ne_of_holdsMark (hmark : HoldsMark (pieces line)) {limit : Int}
    (h : normalizeLine limit line = .ok out) : Text.squeeze out ≠ Text.squeeze line := by
  have hblank : Text.isBlankText line = false := by
    rw [Bool.eq_false_iff]
    intro hblank
    exact nul_not_mem_of_isBlank (List.all_eq_true.1 hblank)
      (mem_of_char_mem_pieces (nul_mem_of_holdsMark hmark))
  obtain ⟨lead, body, trail, hcore, hlead⟩ := exists_hasCore hblank
  rw [normalizeLine_eq_restore limit hcore.eq hlead hcore.trail hcore.core] at h
  have hsaved : Recognizable (literals body).toArray :=
    recognizable_of_forall_mem_pieces fun l hl => by rw [hcore.eq]; simp [hl]
  have hmark := (holdsMark_spacedPieces_iff hcore.eq hlead hcore.trail
    (min (lead.length : Int) limit).toNat).2 hmark
  -- The pieces with regular spacing make up a line that loses nothing but spacing, so what differs
  -- from it differs from the line.
  have hne := squeeze_ne_of_restore hsaved hmark (by rw [literals_spacedPieces]; rfl) h
  rw [flatMap_text_spacedPieces] at hne
  rwa [← (hcore.spacedAlike _).squeeze_eq]

/-- A line loses nothing but spacing exactly if it holds no mark, and then it differs in the spacing
outside its literals alone. -/
theorem normalizeLine_keeps_iff (limit : Int) (line : Text) :
    ((∃ out, normalizeLine limit line = .ok out ∧ Text.squeeze out = Text.squeeze line) ↔
      ¬ HoldsMark (pieces line)) ∧
    ((∃ out, normalizeLine limit line = .ok out ∧ SpacedAlike line out) ↔
      ¬ HoldsMark (pieces line)) := by
  have hkept : (∃ out, normalizeLine limit line = .ok out ∧ Text.squeeze out = Text.squeeze line) →
      ¬ HoldsMark (pieces line) := by
    rintro ⟨out, hout, hsqueeze⟩ hmark
    exact squeeze_ne_of_holdsMark hmark hout hsqueeze
  have halike (hmark : ¬ HoldsMark (pieces line)) := exists_spacedAlike hmark limit
  constructor
  · refine ⟨hkept, fun hmark => ?_⟩
    obtain ⟨out, hout, h⟩ := halike hmark
    exact ⟨out, hout, h.squeeze_eq⟩
  · refine ⟨fun ⟨out, hout, h⟩ => hkept ⟨out, hout, h.squeeze_eq⟩, halike⟩

/-- The number of a mark may be that of no literal, also if its last NUL belongs to the mark of a
string; or it is that of a string, which then stands twice in the line. -/
theorem normalizeLine_strayMark :
    normalizeLine defaultIndentLimit "\x000\x00".toList = .error .noLiteral ∧
      normalizeLine defaultIndentLimit "\x007'a'".toList = .error .noLiteral ∧
      normalizeLine defaultIndentLimit "\x000\x00'a'".toList = .ok "'a''a'".toList := by
  decide +kernel

end Userscript.Script
