import Userscript.Script.Token

/-!
# Literals of a line

A line whose spacing is changed keeps its literals. They are found by their form alone,
without a look at what stands before them: a string in quotes, or a pattern between
slashes with its flags. A literal closes before the next line feed.

## Main definitions

* `Script.closing?` — the rest of a literal, up to its closing delimiter
* `Script.literalAt?` — the literal at the beginning of a text
* `Script.Piece`, `Script.pieces` — the literals of a line and the characters between them

## Main results

* `literalAt?_append` — a literal and what follows it make up the text
* `flatMap_text_pieces` — the pieces of a line make up the line
-/

namespace Userscript.Script

/-- The rest of a literal behind its opening delimiter, up to and with the closing one,
and what follows it. A backslash takes the next character with it; a line feed cannot be
part of a literal. -/
def closing? (delimiter : Char) : Text → Option (Text × Text)
  | [] => none
  | '\\' :: c :: t =>
    if c = '\n' then none
    else (closing? delimiter t).map fun (body, rest) => ('\\' :: c :: body, rest)
  | c :: t =>
    if c = delimiter then some ([c], t)
    else if c = '\n' ∨ c = '\\' then none
    else (closing? delimiter t).map fun (body, rest) => (c :: body, rest)

/-- The literal at the beginning of a text, and what follows it. A pattern is not empty. -/
def literalAt? : Text → Option (Text × Text)
  | [] => none
  | c :: t =>
    if isQuote c then (closing? c t).map fun (body, rest) => (c :: body, rest)
    else if c = '/' ∧ t.head? ≠ some '/' then
      (closing? c t).map fun (body, rest) =>
        (c :: body ++ rest.takeWhile isFlag, rest.dropWhile isFlag)
    else none

/-- A piece of a line. -/
inductive Piece where
  | char (c : Char)
  | literal (t : Text)
  deriving DecidableEq

/-- The characters of a piece. -/
def Piece.text : Piece → Text
  | char c => [c]
  | literal t => t

theorem closing?_append {q : Char} {t body rest : Text} (h : closing? q t = some (body, rest)) :
    body ++ rest = t := by
  fun_induction closing? q t generalizing body with
  | case1 => simp at h
  | case2 => simp at h
  | case3 c t hc ih | case6 c t hc hq hn ih =>
    simp only [Option.map_eq_some_iff, Prod.exists, Prod.mk.injEq] at h
    obtain ⟨b, r, hb, rfl, rfl⟩ := h
    simp [ih hb]
  | case4 t hc =>
    simp only [Option.some.injEq, Prod.mk.injEq] at h
    simp [← h.1, ← h.2]
  | case5 => simp at h

/-- A literal and what follows it make up the text. -/
theorem literalAt?_append {t body rest : Text} (h : literalAt? t = some (body, rest)) :
    body ++ rest = t := by
  unfold literalAt? at h
  split at h
  · simp at h
  · split at h
    · simp only [Option.map_eq_some_iff, Prod.exists, Prod.mk.injEq] at h
      obtain ⟨b, r, hc, rfl, rfl⟩ := h
      simp [closing?_append hc]
    · split at h
      · simp only [Option.map_eq_some_iff, Prod.exists, Prod.mk.injEq] at h
        obtain ⟨b, r, hc, rfl, rfl⟩ := h
        simp [closing?_append hc]
      · simp at h

/-- No literal is empty. -/
theorem literalAt?_ne_nil {t body rest : Text} (h : literalAt? t = some (body, rest)) :
    body ≠ [] := by
  unfold literalAt? at h
  repeat' split at h
  all_goals simp_all
  all_goals obtain ⟨b, r, -, rfl, -⟩ := h; simp

/-- The literals of a line and the characters between them. -/
def pieces (line : Text) : List Piece :=
  match line with
  | [] => []
  | c :: t =>
    match _h : literalAt? (c :: t) with
    | some (body, rest) => .literal body :: pieces rest
    | none => .char c :: pieces t
termination_by line.length
decreasing_by
  · have happend := congrArg List.length (literalAt?_append _h)
    have hne := List.length_pos_iff.2 (literalAt?_ne_nil _h)
    simp only [List.length_append] at happend
    omega
  · simp

/-- The pieces of a line make up the line. -/
theorem flatMap_text_pieces (line : Text) : (pieces line).flatMap Piece.text = line := by
  fun_induction pieces line with
  | case1 => rfl
  | case2 c t body rest h ih => simp [Piece.text, ih, literalAt?_append h]
  | case3 c t h ih => simp [Piece.text, ih]

end Userscript.Script
