import Userscript.Proofs.Script.Lexing
import Userscript.Script.Literal

/-!
# Literals stand on one line

A literal that is found by its form does not go beyond the first line feed, nor into blanks that no
other character of its line follows. Where a text is cut before either of them, the literals of the
text are those of both parts.

## Main definitions

* `Script.BeginsBlank` — nothing but blanks stands on the first line of a text

## Main results

* `literalAt?_append_tail`, `pieces_append_tail` — no literal goes on into such a text
* `literalAt?_eq_some_of_line` — a literal stands on one line
-/

namespace Userscript.Script

variable {tail t rest : Text} {c q : Char}

theorem ne_of_isBlank (hc : Text.isBlank c) (hq : Text.isBlank q = false) : c ≠ q := by
  rintro rfl
  simp [hc] at hq

/-! ### The first piece of a text -/

theorem pieces_cons_of_none (h : literalAt? (c :: t) = none) :
    pieces (c :: t) = .char c :: pieces t := by
  rw [pieces]
  split
  · next hsome => simp [h] at hsome
  · rfl

theorem pieces_cons_of_some {l : Text} (h : literalAt? (c :: t) = some (l, rest)) :
    pieces (c :: t) = .literal l :: pieces rest := by
  rw [pieces]
  split
  · next hsome =>
    rw [h] at hsome
    cases hsome
    rfl
  · next hnone => simp [h] at hnone

theorem literalAt?_of_isBlank (h : Text.isBlank c) : literalAt? (c :: t) = none := by
  rw [literalAt?]
  have hquote : isQuote c = false := by
    rw [← Bool.not_eq_true]
    intro hquote
    simp [not_isBlank_of_isQuote hquote] at h
  have hslash : c ≠ '/' := ne_of_isBlank h (by decide)
  simp [hquote, hslash]

theorem pieces_cons_of_isBlank (h : Text.isBlank c) (t : Text) :
    pieces (c :: t) = .char c :: pieces t :=
  pieces_cons_of_none (literalAt?_of_isBlank h)

theorem pieces_blank_append (h : ∀ c ∈ t, Text.isBlank c) (rest : Text) :
    pieces (t ++ rest) = t.map .char ++ pieces rest := by
  induction t with
  | nil => rfl
  | cons c t ih =>
    rw [List.cons_append, pieces_cons_of_isBlank (h c (by simp)), ih fun d hd => h d (by simp [hd])]
    rfl

theorem pieces_of_blank (h : ∀ c ∈ t, Text.isBlank c) : pieces t = t.map .char := by
  have := pieces_blank_append h []
  rwa [List.append_nil, pieces, List.append_nil] at this

/-! ### Texts that no literal goes on into -/

/-- Nothing but blanks stands on the first line of a text. -/
def BeginsBlank (t : Text) : Prop := ∀ c ∈ t.takeWhile (· ≠ '\n'), Text.isBlank c

namespace BeginsBlank

theorem of_blank (h : ∀ c ∈ t, Text.isBlank c) : BeginsBlank t :=
  fun c hc => h c (List.takeWhile_subset _ hc)

theorem of_newline (h : ∀ c ∈ t.head?, c = '\n') : BeginsBlank t := by
  cases t with
  | nil => exact of_blank (by simp)
  | cons c t =>
    obtain rfl : c = '\n' := h c rfl
    simp [BeginsBlank]

theorem isBlank_head (h : BeginsBlank (c :: t)) : Text.isBlank c := by
  by_cases hc : c = '\n'
  · subst hc; decide
  · exact h c (by simp [hc])

theorem of_cons (h : BeginsBlank (c :: t)) (hc : c ≠ '\n') : BeginsBlank t :=
  fun d hd => h d (by rw [List.takeWhile_cons_of_pos (by simpa using hc)]; exact .tail c hd)

/-- No literal closes there. -/
theorem closing?_eq_none (h : BeginsBlank t) (hq : Text.isBlank q = false) : closing? q t = none := by
  induction t with
  | nil => rfl
  | cons c t ih =>
    have hne : c ≠ q := ne_of_isBlank h.isBlank_head hq
    have hescape : c ≠ '\\' := ne_of_isBlank h.isBlank_head (by decide)
    rw [closing?, if_neg hne]
    · by_cases hc : c = '\n'
      · rw [if_pos (.inl hc)]
      · rw [if_neg (by simp [hc, hescape]), ih (h.of_cons hc)]
        rfl
    · rintro d t' rfl
      exact absurd rfl hescape

theorem closing?_escape_eq_none (h : BeginsBlank t) (hq : Text.isBlank q = false) (hesc : q ≠ '\\') :
    closing? q ('\\' :: t) = none := by
  cases t with
  | nil => simp [closing?, Ne.symm hesc]
  | cons c t =>
    rw [closing?]
    split
    · rfl
    · next hc => rw [(h.of_cons hc).closing?_eq_none hq]; rfl

theorem takeWhile_append (h : BeginsBlank tail) {p : Char → Bool}
    (hp : ∀ c, Text.isBlank c → p c = false) (t : Text) :
    (t ++ tail).takeWhile p = t.takeWhile p ∧
      (t ++ tail).dropWhile p = t.dropWhile p ++ tail := by
  induction t with
  | nil =>
    cases tail with
    | nil => simp
    | cons c tail => simp [hp c h.isBlank_head]
  | cons c t ih => by_cases hc : p c <;> simp [hc, ih]

end BeginsBlank

theorem closing?_append_tail (htail : BeginsBlank tail) (hq : Text.isBlank q = false)
    (hesc : q ≠ '\\') (t : Text) : closing? q (t ++ tail) =
      (closing? q t).map fun (body, rest) => (body, rest ++ tail) := by
  fun_induction closing? q t with
  | case1 => exact htail.closing?_eq_none hq
  | case2 => simp [closing?]
  | case3 c t hc ih =>
    rw [List.cons_append, List.cons_append, closing?, if_neg hc, ih]
    cases closing? q t <;> rfl
  | case4 t hne =>
    rw [List.cons_append, closing?, if_pos rfl]
    · rfl
    · rintro c t' rfl
      exact absurd rfl hesc
  | case5 c t hne hc hbad =>
    rcases hbad with rfl | rfl
    · simp [closing?, hc]
    · -- A backslash at the end of the text takes nothing of it along.
      cases t with
      | cons e t => exact absurd rfl (hne e t rfl)
      | nil => exact htail.closing?_escape_eq_none hq hesc
  | case6 c t hne hc hbad ih =>
    rw [List.cons_append, closing?, if_neg hc, if_neg hbad, ih]
    · cases closing? q t <;> rfl
    · rintro e t' rfl
      simp at hbad

/-- Such a text adds no character of code to the end of another. -/
theorem BeginsBlank.head?_append_ne_iff (htail : BeginsBlank tail) (hq : Text.isBlank q = false) (t : Text) :
    (t ++ tail).head? ≠ some q ↔ t.head? ≠ some q := by
  cases t with
  | cons d t => rfl
  | nil =>
    refine iff_of_true (fun hhead => ?_) (by simp)
    cases tail with
    | nil => cases hhead
    | cons e tail => exact ne_of_isBlank htail.isBlank_head hq (Option.some.inj hhead)

/-- A blank is no flag of a pattern. -/
theorem isFlag_of_isBlank {c : Char} (hc : Text.isBlank c) : isFlag c = false := by
  rw [← Bool.not_eq_true]
  intro hflag
  simp [not_isBlank_of_isFlag hflag] at hc

/-- A literal is looked for before such a text. -/
theorem literalAt?_append_tail (htail : BeginsBlank tail) (t : Text) :
    literalAt? (t ++ tail) = (literalAt? t).map fun (body, rest) => (body, rest ++ tail) := by
  cases t with
  | nil =>
    cases tail with
    | nil => rfl
    | cons e tail => exact literalAt?_of_isBlank htail.isBlank_head
  | cons c t =>
    have hslash := htail.head?_append_ne_iff (q := '/') (by decide) t
    rw [List.cons_append, literalAt?, literalAt?]
    split
    · next hquote =>
      have hesc : c ≠ '\\' := by
        rintro rfl
        exact absurd hquote (by decide)
      rw [closing?_append_tail htail (not_isBlank_of_isQuote hquote) hesc]
      cases closing? c t <;> rfl
    · split
      · next hopens =>
        obtain ⟨rfl, hhead⟩ := hopens
        rw [if_pos ⟨rfl, hslash.1 hhead⟩, closing?_append_tail htail (by decide) (by decide)]
        cases closing? '/' t with
        | none => rfl
        | some found =>
          -- No flags are taken beyond the end of the text.
          obtain ⟨hflags, hrest⟩ := htail.takeWhile_append (fun _ => isFlag_of_isBlank) found.2
          simp [hflags, hrest]
      · next hopens =>
        rw [if_neg fun h => hopens ⟨h.1, hslash.2 h.2⟩]
        rfl

/-- The pieces of a text are those of its parts where it is cut before such a text. -/
theorem pieces_append_tail (htail : BeginsBlank tail) (t : Text) :
    pieces (t ++ tail) = pieces t ++ pieces tail := by
  fun_induction pieces t with
  | case1 => rfl
  | case2 c t l rest h ih =>
    have hfound : literalAt? (c :: (t ++ tail)) = some (l, rest ++ tail) := by
      rw [← List.cons_append, literalAt?_append_tail htail, h]
      rfl
    rw [List.cons_append, pieces_cons_of_some hfound, ih, List.cons_append]
  | case3 c t h ih =>
    have hnone : literalAt? (c :: (t ++ tail)) = none := by
      rw [← List.cons_append, literalAt?_append_tail htail, h]
      rfl
    rw [List.cons_append, pieces_cons_of_none hnone, ih, List.cons_append]

/-! ### Lines -/

/-- A text is its first line and what follows the line. -/
theorem exists_line (t : Text) :
    ∃ line tail, t = line ++ tail ∧ '\n' ∉ line ∧ ∀ e ∈ tail.head?, e = '\n' := by
  refine ⟨t.takeWhile (· ≠ '\n'), t.dropWhile (· ≠ '\n'), List.takeWhile_append_dropWhile.symm, ?_, ?_⟩
  · intro hmem
    simpa using List.mem_takeWhile_imp hmem
  · intro e he
    have := List.head?_dropWhile_not (· ≠ '\n') t
    rw [he] at this
    simpa using this

/-- A literal stands on one line. -/
theorem literalAt?_eq_some_of_line {l : Text} (h : literalAt? t = some (l, rest)) :
    ∃ line rest', '\n' ∉ line ∧ line = l ++ rest' ∧ literalAt? line = some (l, rest') := by
  obtain ⟨line, tail, rfl, hline, htail⟩ := exists_line t
  rw [literalAt?_append_tail (.of_newline htail)] at h
  obtain ⟨⟨body, rest'⟩, hfound, heq⟩ := Option.map_eq_some_iff.1 h
  cases heq
  exact ⟨line, rest', hline, (literalAt?_append hfound).symm, hfound⟩

/-- A piece of lines is one of a line, unless it is a line feed between two. -/
theorem of_mem_pieces_unlines {ls : List Text} {p : Piece} (h : p ∈ pieces (Text.unlines ls)) :
    p = .char '\n' ∨ ∃ l ∈ ls, p ∈ pieces l := by
  induction ls with
  | nil => simp [Text.unlines, pieces] at h
  | cons l ls ih =>
    by_cases hls : ls = []
    · rw [hls, Text.unlines_singleton] at h
      exact .inr ⟨l, List.mem_cons_self, h⟩
    · have htail : BeginsBlank ('\n' :: Text.unlines ls) := .of_newline (by simp)
      rw [Text.unlines_cons hls, pieces_append_tail htail, pieces_cons_of_isBlank (by decide),
        List.mem_append, List.mem_cons] at h
      rcases h with h | h | h
      · exact .inr ⟨l, List.mem_cons_self, h⟩
      · exact .inl h
      · exact (ih h).imp_right fun ⟨m, hm, hp⟩ => ⟨m, List.mem_cons_of_mem l hm, hp⟩

end Userscript.Script
