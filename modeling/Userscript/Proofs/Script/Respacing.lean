import Userscript.Proofs.Script.LiteralLines
import Userscript.Proofs.Script.Marks

/-!
# Literals in a line with regular spacing

Spacing is made regular between the literals that are found by their form. Where a text is read
as a literal from a given delimiter on, it is read as one with regular spacing too, up to the
same character: no delimiter is lost, and none comes to stand behind another backslash.

## Main definitions

* `Script.Spot` — a character of a line, and whether its spacing is free
* `Script.spots` — the characters of a line
* `Script.respace` — the text of characters with one space for every run of free gaps

## Main results

* `takeLiteral_respace`, `readLiteral_respace` — a literal with regular spacing
* `pieces_respace` — the pieces of a text with regular spacing
-/

namespace Userscript.Script

variable {gap : Bool} {x y : Spot} {xs ys zs : List Spot} {p : Piece} {ps : List Piece}
  {c q : Char} {t d rest : Text}

/-- A character of a line. -/
structure Spot where
  char : Char
  /-- Whether it stands outside the literals that are found by their form. -/
  free : Bool
  deriving DecidableEq

/-- Whether a character is a space or a tab that can be taken away. -/
def Spot.isGap (x : Spot) : Bool := x.free && Script.isGap x.char

/-- The characters of a piece. -/
def Piece.spots : Piece → List Spot
  | char c => [⟨c, true⟩]
  | literal t => t.map fun c => ⟨c, false⟩

/-- The characters of pieces. -/
def spotsOf (ps : List Piece) : List Spot := ps.flatMap Piece.spots

/-- The characters of a line. -/
def spots (line : Text) : List Spot := spotsOf (pieces line)

/-- The text that characters make up. -/
def chars (xs : List Spot) : Text := xs.map Spot.char

/-- The text of characters with one space for every run of free gaps, of which one may have
begun right before. -/
def respace : Bool → List Spot → Text
  | _, [] => []
  | gap, x :: xs =>
    if x.isGap then (if gap then respace true xs else ' ' :: respace true xs)
    else x.char :: respace false xs

@[simp] theorem chars_nil : chars [] = [] := rfl

@[simp] theorem chars_cons (x : Spot) (xs : List Spot) : chars (x :: xs) = x.char :: chars xs := rfl

@[simp] theorem chars_append (xs ys : List Spot) : chars (xs ++ ys) = chars xs ++ chars ys :=
  List.map_append

@[simp] theorem respace_nil : respace gap [] = [] := rfl

theorem respace_cons_of_gap (h : x.isGap) (xs : List Spot) :
    respace false (x :: xs) = ' ' :: respace true xs := by
  rw [respace, if_pos h, if_neg Bool.false_ne_true]

theorem respace_true_cons_of_gap (h : x.isGap) (xs : List Spot) :
    respace true (x :: xs) = respace true xs := by
  rw [respace, if_pos h, if_pos rfl]

theorem respace_cons_of_not_gap (h : x.isGap = false) (gap : Bool) (xs : List Spot) :
    respace gap (x :: xs) = x.char :: respace false xs := by
  rw [respace, h, if_neg Bool.false_ne_true]

theorem Spot.isGap_char (h : x.isGap) : Script.isGap x.char := by
  rw [Spot.isGap, Bool.and_eq_true] at h
  exact h.2

theorem Spot.isGap_of_char (h : Script.isGap x.char = false) : x.isGap = false := by
  rw [Spot.isGap, h, Bool.and_false]

theorem length_respace_le (gap : Bool) (xs : List Spot) : (respace gap xs).length ≤ xs.length := by
  induction xs generalizing gap with
  | nil => rfl
  | cons x xs ih =>
    have htrue := ih true
    have hfalse := ih false
    rw [respace]
    repeat' split
    all_goals simp only [List.length_cons]; omega

/-- The spacing before a character that is no gap is that without it. -/
theorem respace_append_cons (hy : y.isGap = false) (gap : Bool) (xs zs : List Spot) :
    respace gap (xs ++ y :: zs) = respace gap xs ++ y.char :: respace false zs := by
  induction xs generalizing gap with
  | nil => exact respace_cons_of_not_gap hy gap zs
  | cons x xs ih =>
    rw [List.cons_append]
    by_cases hx : x.isGap
    · cases gap with
      | false => rw [respace_cons_of_gap hx, respace_cons_of_gap hx, ih, List.cons_append]
      | true => rw [respace_true_cons_of_gap hx, respace_true_cons_of_gap hx, ih]
    · have hx : x.isGap = false := by simpa using hx
      rw [respace_cons_of_not_gap hx, respace_cons_of_not_gap hx, ih, List.cons_append]

/-- Behind a character that is no gap the spacing starts anew. -/
theorem respace_concat_append (hy : y.isGap = false) (gap : Bool) (ys zs : List Spot) :
    respace gap (ys ++ y :: zs) = respace gap (ys ++ [y]) ++ respace false zs := by
  rw [respace_append_cons hy, respace_append_cons hy, respace_nil, List.append_assoc,
    List.singleton_append]

theorem respace_append_of_not_gap (h : ∀ x ∈ xs, x.isGap = false) (zs : List Spot) :
    respace false (xs ++ zs) = chars xs ++ respace false zs := by
  induction xs with
  | nil => rfl
  | cons x xs ih =>
    rw [List.cons_append, respace_cons_of_not_gap (h x (by simp)),
      ih fun x hx => h x (by simp [hx]), chars_cons, List.cons_append]

theorem chars_spotsOf (ps : List Piece) : chars (spotsOf ps) = ps.flatMap Piece.text := by
  induction ps with
  | nil => rfl
  | cons p ps ih =>
    rw [spotsOf, List.flatMap_cons, chars_append, ← spotsOf, ih, List.flatMap_cons]
    cases p with
    | char c => rfl
    | literal t => simp [Piece.spots, Piece.text, chars, Function.comp_def]

theorem chars_spots (line : Text) : chars (spots line) = line := by
  rw [spots, chars_spotsOf, flatMap_text_pieces]

theorem spotsOf_map_char (t : Text) : spotsOf (t.map .char) = t.map fun c => ⟨c, true⟩ := by
  induction t with
  | nil => rfl
  | cons c t ih =>
    rw [spotsOf, List.map_cons, List.flatMap_cons, ← spotsOf, ih]
    rfl

theorem respace_literal_append (h : t ≠ []) (gap : Bool) (xs : List Spot) :
    respace gap ((Piece.literal t).spots ++ xs) = t ++ respace false xs := by
  cases t with
  | nil => exact absurd rfl h
  | cons c t =>
    have hchars : chars (t.map fun c => ⟨c, false⟩) = t := by simp [chars, Function.comp_def]
    rw [Piece.spots, List.map_cons, List.cons_append, respace_cons_of_not_gap rfl,
      respace_append_of_not_gap (by simp [Spot.isGap]), hchars]
    rfl

/-- The text of pieces with regular spacing is that of their characters. -/
theorem respace_spotsOf (hne : ∀ t, .literal t ∈ ps → t ≠ []) (gap : Bool) :
    respace gap (spotsOf ps) = (collapsePieces gap ps).flatMap Piece.text := by
  induction ps generalizing gap with
  | nil => rfl
  | cons p ps ih =>
    have ih := ih fun t ht => hne t (by simp [ht])
    rw [spotsOf, List.flatMap_cons, ← spotsOf]
    cases p with
    | char c =>
      have hspot : (Spot.mk c true).isGap = isGap c := by simp [Spot.isGap]
      rw [Piece.spots, List.singleton_append, collapsePieces, Piece.isGap, respace, hspot, ih, ih]
      -- Both functions ask the same about the character.
      repeat' split
      all_goals simp [Piece.text]
    | literal t =>
      rw [respace_literal_append (hne t (by simp)), ih]
      rfl

/-- A text with regular spacing begins with a space or as it did. -/
theorem follows_respace (xs : List Spot) (t : Text) : Follows (chars xs ++ t) (respace false xs) := by
  cases xs with
  | nil => exact .nil
  | cons x xs =>
    by_cases hx : x.isGap
    · rw [respace_cons_of_gap hx]
      exact .space
    · rw [respace_cons_of_not_gap (by simpa using hx), chars_cons, List.cons_append]
      exact .cons _ _ _

/-! ### A literal with regular spacing -/

theorem takeLiteral_of_blank (hq : Text.isBlank q = false) (h : ∀ c ∈ d, Text.isBlank c) :
    (takeLiteral q d).2 = none := by
  induction d with
  | nil => rfl
  | cons c d ih =>
    have hc := h c (by simp)
    rw [takeLiteral_char (ne_of_isBlank hc hq) (ne_of_isBlank hc (by decide))]
    exact ih fun e he => h e (by simp [he])

/-- From a delimiter `q` on, characters before the blanks `d` are read as a literal up to the
same character whether or not their spacing is regular, or as none in both cases. -/
def ReadAlike (q : Char) (d : Text) (gap : Bool) (xs : List Spot) : Prop :=
  (∃ ys y zs, xs = ys ++ y :: zs ∧ y.char = q ∧
    takeLiteral q (chars xs ++ d) = (chars (ys ++ [y]), some (chars zs ++ d)) ∧
    takeLiteral q (respace gap xs) = (respace gap (ys ++ [y]), some (respace false zs))) ∨
  (takeLiteral q (chars xs ++ d)).2 = none ∧ (takeLiteral q (respace gap xs)).2 = none

theorem ReadAlike.cons_gap (hq : Text.isBlank q = false) (hx : x.isGap)
    (h : ReadAlike q d true xs) (gap : Bool) : ReadAlike q d gap (x :: xs) := by
  have hblank := isBlank_of_isGap (Spot.isGap_char hx)
  -- A gap neither closes nor escapes anything, and no more does the space that stands for it.
  have hchar := takeLiteral_char (ne_of_isBlank hblank hq) (ne_of_isBlank hblank (by decide))
    (chars xs ++ d)
  have hspace := takeLiteral_char (ne_of_isBlank (c := ' ') (by decide) hq) (by decide)
    (respace true xs)
  rcases h with ⟨ys, y, zs, rfl, hy, htext, hrespace⟩ | ⟨htext, hrespace⟩
  · refine .inl ⟨x :: ys, y, zs, rfl, hy, ?_, ?_⟩
    · rw [chars_cons, List.cons_append, hchar, htext]
      rfl
    · cases gap with
      | false =>
        rw [List.cons_append, respace_cons_of_gap hx, respace_cons_of_gap hx, hspace, hrespace]
      | true =>
        rw [List.cons_append, respace_true_cons_of_gap hx, respace_true_cons_of_gap hx, hrespace]
  · refine .inr ⟨by rw [chars_cons, List.cons_append, hchar, htext], ?_⟩
    cases gap with
    | false => rw [respace_cons_of_gap hx, hspace, hrespace]
    | true => rw [respace_true_cons_of_gap hx, hrespace]

theorem ReadAlike.cons_char (hx : x.isGap = false) (hclose : x.char ≠ q) (hescape : x.char ≠ '\\')
    (h : ReadAlike q d false xs) (gap : Bool) : ReadAlike q d gap (x :: xs) := by
  have hchar := takeLiteral_char hclose hescape (chars xs ++ d)
  have hrest := takeLiteral_char hclose hescape (respace false xs)
  rcases h with ⟨ys, y, zs, rfl, hy, htext, hrespace⟩ | ⟨htext, hrespace⟩
  · refine .inl ⟨x :: ys, y, zs, rfl, hy, ?_, ?_⟩
    · rw [chars_cons, List.cons_append, hchar, htext]
      rfl
    · rw [respace_cons_of_not_gap hx, hrest, hrespace, List.cons_append, respace_cons_of_not_gap hx]
  · refine .inr ⟨by rw [chars_cons, List.cons_append, hchar, htext], ?_⟩
    rw [respace_cons_of_not_gap hx, hrest, hrespace]

/-- A backslash takes a gap with it, and of a run the first one. -/
theorem ReadAlike.cons_escape (hescape : x.char = '\\') (h : ReadAlike q d y.isGap xs)
    (gap : Bool) : ReadAlike q d gap (x :: y :: xs) := by
  have hx : x.isGap = false := Spot.isGap_of_char (by rw [hescape]; decide)
  -- Behind a backslash there is a character in either text, and it is taken with the backslash
  -- whatever it is.
  obtain ⟨e, he⟩ : ∃ e, ∀ zs, respace false (y :: zs) = e :: respace y.isGap zs := by
    by_cases hy : y.isGap
    · exact ⟨' ', fun zs => by rw [respace_cons_of_gap hy, hy]⟩
    · have hy : y.isGap = false := by simpa using hy
      exact ⟨y.char, fun zs => by rw [respace_cons_of_not_gap hy, hy]⟩
  have hchar := takeLiteral_escape q y.char (chars xs ++ d)
  have hrest := takeLiteral_escape q e (respace y.isGap xs)
  rcases h with ⟨ys, z, zs, rfl, hz, htext, hrespace⟩ | ⟨htext, hrespace⟩
  · refine .inl ⟨x :: y :: ys, z, zs, rfl, hz, ?_, ?_⟩
    · rw [chars_cons, chars_cons, List.cons_append, List.cons_append, hescape, hchar, htext]
      simp [hescape]
    · rw [respace_cons_of_not_gap hx, he, hescape, hrest, hrespace, List.cons_append,
        List.cons_append, respace_cons_of_not_gap hx, he, hescape]
  · refine .inr ⟨?_, ?_⟩
    · rw [chars_cons, chars_cons, List.cons_append, List.cons_append, hescape, hchar, htext]
    · rw [respace_cons_of_not_gap hx, he, hescape, hrest, hrespace]

/-- A literal that closes, closes with regular spacing at the same character; one that does not
close, does not close with regular spacing either. -/
theorem takeLiteral_respace (hq : Text.isBlank q = false) (hesc : q ≠ '\\')
    (hd : ∀ c ∈ d, Text.isBlank c) (gap : Bool) (xs : List Spot) : ReadAlike q d gap xs := by
  -- The recursion is over the characters and takes two of them at a backslash, so it is not one
  -- over the list alone.
  match xs with
  | [] => exact .inr ⟨takeLiteral_of_blank hq hd, rfl⟩
  | x :: xs =>
    by_cases hx : x.isGap
    · exact (takeLiteral_respace hq hesc hd true xs).cons_gap hq hx gap
    · have hx : x.isGap = false := by simpa using hx
      by_cases hescape : x.char = '\\'
      · match xs with
        | [] =>
          refine .inr ⟨?_, ?_⟩
          · rw [chars_cons, chars_nil, hescape]
            cases d with
            | nil => exact congrArg (·.2) (takeLiteral_lone hesc)
            | cons c d =>
              rw [List.cons_append, List.nil_append, takeLiteral_escape]
              exact takeLiteral_of_blank hq fun e he => hd e (by simp [he])
          · rw [respace_cons_of_not_gap hx, respace_nil, hescape, takeLiteral_lone hesc]
        | y :: xs => exact (takeLiteral_respace hq hesc hd y.isGap xs).cons_escape hescape gap
      · -- Neither a backslash nor a gap: the delimiter closes both, all else is passed by.
        by_cases hclose : x.char = q
        · refine .inl ⟨[], x, xs, rfl, hclose, ?_, ?_⟩
          · rw [chars_cons, List.cons_append, hclose, takeLiteral_delimiter hesc]
            simp [hclose]
          · rw [List.nil_append, respace_cons_of_not_gap hx, respace_cons_of_not_gap hx, hclose,
              takeLiteral_delimiter hesc, respace_nil]
        · exact (takeLiteral_respace hq hesc hd false xs).cons_char hx hclose hescape gap

/-! ### Its flags -/

theorem not_isFlagOf_of_isBlank (h : Text.isBlank c) : isFlagOf q c = false := by
  rw [isFlagOf, Bool.and_eq_false_iff, ← Bool.not_eq_true (isFlag c)]
  refine .inr fun hflag => ?_
  simp [not_isBlank_of_isFlag hflag] at h

theorem not_isGap_of_isFlagOf (h : isFlagOf q x.char) : x.isGap = false := by
  refine Spot.isGap_of_char ?_
  rw [← Bool.not_eq_true]
  intro hgap
  simp [not_isFlagOf_of_isBlank (isBlank_of_isGap hgap)] at h

/-- The flags at the beginning of some characters, and the rest. -/
theorem exists_flags (q : Char) (xs : List Spot) : ∃ flags rest, xs = flags ++ rest ∧
    (∀ x ∈ flags, isFlagOf q x.char) ∧ ∀ x, rest.head? = some x → isFlagOf q x.char = false := by
  let p : Spot → Bool := fun x => isFlagOf q x.char
  refine ⟨xs.takeWhile p, xs.dropWhile p, List.takeWhile_append_dropWhile.symm, ?_, ?_⟩
  · exact fun x hx => List.mem_takeWhile_imp (p := p) hx
  · intro x hx
    have := List.head?_dropWhile_not p xs
    rw [hx] at this
    simpa using this

theorem not_isFlagOf_head?_chars (hd : ∀ c ∈ d, Text.isBlank c)
    (h : ∀ x, xs.head? = some x → isFlagOf q x.char = false) (c : Char)
    (hc : (chars xs ++ d).head? = some c) : isFlagOf q c = false := by
  cases xs with
  | nil => exact not_isFlagOf_of_isBlank (hd c (List.mem_of_head? hc))
  | cons x xs =>
    obtain rfl : x.char = c := by simpa using hc
    exact h x rfl

theorem not_isFlagOf_head?_respace (h : ∀ x, xs.head? = some x → isFlagOf q x.char = false)
    (c : Char) (hc : (respace false xs).head? = some c) : isFlagOf q c = false := by
  rcases follows_respace xs [] c hc with rfl | hc
  · exact not_isFlagOf_of_isBlank (by decide)
  · exact not_isFlagOf_head?_chars (by simp) h c hc

/-- A literal up to its closing delimiter, the flags behind it, and a rest with no flag. -/
theorem readLiteral_of_flags {body : Text} {flags : List Spot}
    (h : takeLiteral q t = (body, some (chars flags ++ rest)))
    (hflags : ∀ x ∈ flags, isFlagOf q x.char)
    (hrest : ∀ c, rest.head? = some c → isFlagOf q c = false) :
    readLiteral q t = (.literal (q :: (body ++ chars flags)) true, rest) := by
  have hchars : ∀ c ∈ chars flags, isFlagOf q c := by
    intro c hc
    obtain ⟨x, hx, rfl⟩ := List.mem_map.1 hc
    exact hflags x hx
  obtain ⟨htake, hdrop⟩ := takeWhile_append_of_head hchars hrest
  rw [readLiteral, h]
  dsimp only
  rw [htake, hdrop, List.cons_append]

theorem readLiteral_of_open (h : (takeLiteral q t).2 = none) :
    readLiteral q t = (.literal (q :: t) false, []) := by
  cases hread : takeLiteral q t with
  | mk body rest =>
    rw [hread] at h
    cases h
    rw [readLiteral, hread, takeLiteral_eq_of_none hread]

/-- A literal with its flags is the same with regular spacing, if it is closed; else both take up
the rest of the line. -/
theorem readLiteral_respace (hq : Text.isBlank q = false) (hesc : q ≠ '\\')
    (hd : ∀ c ∈ d, Text.isBlank c) (xs : List Spot) :
    (∃ ys zs, xs = ys ++ zs ∧
      readLiteral q (chars xs ++ d) = (.literal (q :: chars ys) true, chars zs ++ d) ∧
      readLiteral q (respace false xs) =
        (.literal (q :: respace false ys) true, respace false zs)) ∨
    readLiteral q (chars xs ++ d) = (.literal (q :: (chars xs ++ d)) false, []) ∧
      readLiteral q (respace false xs) = (.literal (q :: respace false xs) false, []) := by
  rcases takeLiteral_respace hq hesc hd false xs with
    ⟨ys, y, zs, rfl, hy, htext, hrespace⟩ | ⟨htext, hrespace⟩
  · have hygap : y.isGap = false := by
      refine Spot.isGap_of_char ?_
      rw [hy, ← Bool.not_eq_true]
      intro hgap
      simp [isBlank_of_isGap hgap] at hq
    -- The flags are the same on both sides, and neither rest goes on with one.
    obtain ⟨flags, rest, rfl, hflags, hrest⟩ := exists_flags q zs
    have hflagsGap : ∀ x ∈ flags, x.isGap = false := fun x hx => not_isGap_of_isFlagOf (hflags x hx)
    have hspaced : respace false flags = chars flags := by
      simpa using respace_append_of_not_gap hflagsGap []
    rw [chars_append flags, List.append_assoc] at htext
    rw [respace_append_of_not_gap hflagsGap] at hrespace
    refine .inl ⟨ys ++ y :: flags, rest, by simp, ?_, ?_⟩
    · rw [readLiteral_of_flags htext hflags (not_isFlagOf_head?_chars hd hrest), ← chars_append,
        List.append_assoc, List.singleton_append]
    · rw [readLiteral_of_flags hrespace hflags (not_isFlagOf_head?_respace hrest),
        respace_concat_append hygap false ys flags, hspaced]
  · exact .inr ⟨readLiteral_of_open htext, readLiteral_of_open hrespace⟩

/-! ### Pieces with regular spacing -/

/-- Whether `c` opens a literal by its form before the rest `t` of a line. -/
def opensByForm (c : Char) (t : Text) : Bool := isQuote c || (c = '/' && t.head? ≠ some '/')

theorem closing?_eq (hesc : q ≠ '\\') (h : '\n' ∉ t) :
    closing? q t = (takeLiteral q t).2.map ((takeLiteral q t).1, ·) := by
  fun_induction closing? q t with
  | case1 => rfl
  | case2 => simp at h
  | case3 c t hc ih =>
    rw [takeLiteral_escape, ih (by simp_all)]
    cases (takeLiteral q t).2 <;> rfl
  | case4 t hc => rw [takeLiteral_delimiter hesc]; rfl
  | case5 c t hne hc hbad =>
    rcases hbad with rfl | rfl
    · simp at h
    · cases t with
      | nil => rw [takeLiteral_lone hesc]; rfl
      | cons e t => exact absurd rfl (hne e t rfl)
  | case6 c t hne hc hbad ih =>
    rw [not_or] at hbad
    rw [takeLiteral_char hc hbad.2, ih (by simp_all)]
    cases (takeLiteral q t).2 <;> rfl

/-- The literal at the beginning of a line by its form is the one that is read there, if it is
closed. -/
theorem literalAt?_cons (h : '\n' ∉ t) : literalAt? (c :: t) =
    if opensByForm c t then
      match readLiteral c t with
      | (.literal l true, rest) => some (l, rest)
      | _ => none
    else none := by
  -- On one line the two ways to look for the delimiter are the same.
  have hclosing (hesc : c ≠ '\\') := closing?_eq hesc h
  rw [literalAt?]
  by_cases hquote : isQuote c
  · have hesc : c ≠ '\\' := ne_escape_of_delimiter (.inl hquote)
    rw [if_pos hquote, if_pos (by simp [opensByForm, hquote]), hclosing hesc, readLiteral,
      isFlagOf_of_isQuote hquote]
    cases takeLiteral c t with
    | mk body rest => cases rest with
      | none => rfl
      | some rest => cases rest <;> simp
  · rw [if_neg hquote]
    by_cases hslash : c = '/' ∧ t.head? ≠ some '/'
    · obtain ⟨rfl, hhead⟩ := hslash
      rw [if_pos ⟨rfl, hhead⟩, if_pos (by simp [opensByForm, hhead]), hclosing (by decide),
        readLiteral, isFlagOf_slash]
      cases takeLiteral '/' t with
      | mk body rest => cases rest <;> rfl
    · rw [if_neg hslash, if_neg]
      simpa [opensByForm, hquote] using hslash

theorem exists_opener_of_literal_mem_pieces {line l : Text} (h : .literal l ∈ pieces line) :
    ∃ c l' t, l = c :: l' ∧ literalAt? (c :: t) ≠ none := by
  fun_induction pieces line with
  | case1 => simp at h
  | case2 c t l' rest hliteral ih =>
    rcases List.mem_cons.1 h with h | h
    · cases h
      obtain ⟨d, l, rfl⟩ := List.exists_cons_of_ne_nil (literalAt?_ne_nil hliteral)
      have happend := literalAt?_append hliteral
      rw [List.cons_append, List.cons.injEq] at happend
      exact ⟨d, l, t, rfl, by rw [happend.1, hliteral]; exact Option.some_ne_none _⟩
    · exact ih h
  | case3 c t hliteral ih => exact ih (by simpa using h)

/-- A literal by its form begins with no blank. -/
theorem exists_cons_of_literal_mem_pieces {line l : Text} (h : .literal l ∈ pieces line) :
    ∃ c l', l = c :: l' ∧ Text.isBlank c = false := by
  obtain ⟨c, l', t, hl, hopens⟩ := exists_opener_of_literal_mem_pieces h
  refine ⟨c, l', hl, Bool.eq_false_iff.2 fun hblank => hopens ?_⟩
  exact literalAt?_of_isBlank hblank

theorem mem_respace (h : c ∈ respace gap xs) : c ∈ chars xs ∨ c = ' ' := by
  induction xs generalizing gap with
  | nil => simp at h
  | cons x xs ih =>
    rw [respace] at h
    split at h
    · split at h
      · exact (ih h).imp_left (List.mem_cons_of_mem _)
      · rcases List.mem_cons.1 h with h | h
        · exact .inr h
        · exact (ih h).imp_left (List.mem_cons_of_mem _)
    · rcases List.mem_cons.1 h with rfl | h
      · exact .inl List.mem_cons_self
      · exact (ih h).imp_left (List.mem_cons_of_mem _)

theorem not_isBlank_of_opensByForm (h : opensByForm c t) : Text.isBlank c = false ∧ c ≠ '\\' := by
  simp only [opensByForm, Bool.or_eq_true, Bool.and_eq_true, decide_eq_true_eq] at h
  rcases h with h | ⟨rfl, -⟩
  · refine ⟨not_isBlank_of_isQuote h, ?_⟩
    rintro rfl
    exact absurd h (by decide)
  · exact ⟨by decide, by decide⟩

theorem opensByForm_of_respace (h : opensByForm c (respace false xs)) : opensByForm c (chars xs) := by
  simp only [opensByForm, Bool.or_eq_true, Bool.and_eq_true, decide_eq_true_eq] at h ⊢
  refine h.imp_right (And.imp_right fun hhead hslash => hhead ?_)
  cases xs with
  | nil => cases hslash
  | cons x xs =>
    have hx : x.char = '/' := by simpa using hslash
    rw [respace_cons_of_not_gap (Spot.isGap_of_char (by rw [hx]; decide)), hx]
    rfl

/-- Regular spacing brings no line feed. -/
theorem newline_not_mem_respace (h : '\n' ∉ chars xs) : '\n' ∉ respace gap xs := by
  intro hmem
  rcases mem_respace hmem with hmem | hmem
  · exact h hmem
  · exact absurd hmem (by decide)

/-- On a line, no literal comes to be by its form where there was none. -/
theorem literalAt?_respace_of_none_line (hline : '\n' ∉ chars xs)
    (h : literalAt? (c :: chars xs) = none) : literalAt? (c :: respace false xs) = none := by
  rw [literalAt?_cons hline] at h
  rw [literalAt?_cons (newline_not_mem_respace hline)]
  split
  · next hopens =>
    obtain ⟨hblank, hesc⟩ := not_isBlank_of_opensByForm hopens
    have hreads := readLiteral_respace (d := []) hblank hesc (by simp) xs
    rw [if_pos (opensByForm_of_respace hopens)] at h
    rw [List.append_nil] at hreads
    -- Had a literal come to be, one would have been read before.
    rcases hreads with ⟨ys, zs, -, hread, -⟩ | ⟨-, hread⟩
    · simp [hread] at h
    · rw [hread]
  · rfl

/-- On a line, a literal stays the one at its place by its form. -/
theorem literalAt?_respace_of_some_line {l : Text} (hline : '\n' ∉ l ++ chars xs)
    (h : literalAt? (l ++ chars xs) = some (l, chars xs)) :
    literalAt? (l ++ respace false xs) = some (l, respace false xs) := by
  cases l with
  | nil => exact absurd rfl (literalAt?_ne_nil h)
  | cons c l =>
    have hline' : '\n' ∉ l ++ respace false xs := by
      intro hmem
      rcases List.mem_append.1 hmem with hmem | hmem
      · exact hline (by simp [hmem])
      · exact newline_not_mem_respace (fun hmem => hline (by simp [hmem])) hmem
    have hrest : '\n' ∉ l ++ chars xs := fun hmem => hline (List.mem_cons_of_mem c hmem)
    rw [List.cons_append, literalAt?_cons hrest] at h
    split at h
    · next hopens =>
      split at h
      · next hread =>
        cases h
        have hfollows : Follows (chars xs) (respace false xs) := by
          simpa using follows_respace xs []
        -- The literal itself is not touched, and what follows it goes on as it did.
        obtain ⟨t', ht', hhead, hread'⟩ := readLiteral_of_follows
          (not_isBlank_of_opensByForm hopens).2 hread hfollows fun hnil => by
            cases xs with
            | nil => rfl
            | cons => simp at hnil
        simp only [Token.text, List.cons_append, List.cons.injEq, true_and] at ht'
        subst ht'
        rw [List.cons_append, literalAt?_cons hline', if_pos (by rwa [opensByForm, hhead]), hread']
      · cases h
    · cases h

/-- The first line of characters is the first line with regular spacing. -/
theorem exists_line_respace (xs : List Spot) :
    ∃ ys tail tail', chars xs = chars ys ++ tail ∧ respace false xs = respace false ys ++ tail' ∧
      '\n' ∉ chars ys ∧ BeginsBlank tail ∧ BeginsBlank tail' := by
  by_cases hxs : '\n' ∈ chars xs
  · obtain ⟨before, after, heq, hnone⟩ := List.eq_append_cons_of_mem hxs
    obtain ⟨ys, rest, rfl, rfl, hrest⟩ := List.map_eq_append_iff.1 heq
    obtain ⟨y, zs, rfl, hy, -⟩ := List.map_eq_cons_iff.1 hrest
    have hgap : y.isGap = false := Spot.isGap_of_char (by rw [hy]; decide)
    refine ⟨ys, '\n' :: chars zs, '\n' :: respace false zs, by simp [hy],
      by rw [respace_append_cons hgap, hy], hnone, .of_newline (by simp), .of_newline (by simp)⟩
  · exact ⟨xs, [], [], by simp, by simp, hxs, .of_blank (by simp), .of_blank (by simp)⟩

/-- No literal comes to be by its form where there was none. -/
theorem literalAt?_respace_of_none (h : literalAt? (c :: chars xs) = none) :
    literalAt? (c :: respace false xs) = none := by
  obtain ⟨ys, tail, tail', htext, hrespace, hline, htail, htail'⟩ := exists_line_respace xs
  rw [htext, ← List.cons_append, literalAt?_append_tail htail, Option.map_eq_none_iff] at h
  rw [hrespace, ← List.cons_append, literalAt?_append_tail htail',
    literalAt?_respace_of_none_line hline h]
  rfl

/-- A literal stays the one at its place by its form. -/
theorem literalAt?_respace_of_some {l : Text} (h : literalAt? (l ++ chars xs) = some (l, chars xs)) :
    literalAt? (l ++ respace false xs) = some (l, respace false xs) := by
  obtain ⟨line, rest', hline, rfl, -⟩ := literalAt?_eq_some_of_line h
  obtain ⟨ys, tail, tail', htext, hrespace, hrest, htail, htail'⟩ := exists_line_respace xs
  rw [htext, ← List.append_assoc, literalAt?_append_tail htail] at h
  have hfound : literalAt? (l ++ chars ys) = some (l, chars ys) := by
    obtain ⟨⟨body, after⟩, hfound, heq⟩ := Option.map_eq_some_iff.1 h
    obtain ⟨rfl, hafter⟩ := Prod.mk.inj heq
    rw [hfound, List.append_cancel_right hafter]
  have hfirst : '\n' ∉ l ++ chars ys := by
    intro hmem
    exact (List.mem_append.1 hmem).elim (fun hmem => hline (List.mem_append_left _ hmem)) hrest
  rw [hrespace, ← List.append_assoc, literalAt?_append_tail htail',
    literalAt?_respace_of_some_line hfirst hfound]
  rfl

theorem spotsOf_cons (p : Piece) (ps : List Piece) : spotsOf (p :: ps) = p.spots ++ spotsOf ps :=
  List.flatMap_cons

/-- The first piece of a text is its first character, unless a literal stands there. -/
theorem exists_of_pieces_eq_cons (h : pieces t = p :: ps) :
    (∃ c t', t = c :: t' ∧ p = .char c ∧ literalAt? t = none ∧ pieces t' = ps) ∨
      ∃ l rest, p = .literal l ∧ literalAt? t = some (l, rest) ∧ pieces rest = ps := by
  cases t with
  | nil => simp [pieces] at h
  | cons c t =>
    cases hliteral : literalAt? (c :: t) with
    | none =>
      rw [pieces_cons_of_none hliteral, List.cons.injEq] at h
      exact .inl ⟨c, t, rfl, h.1.symm, rfl, h.2⟩
    | some found =>
      obtain ⟨l, rest⟩ := found
      rw [pieces_cons_of_some hliteral, List.cons.injEq] at h
      exact .inr ⟨l, rest, h.1.symm, rfl, h.2⟩

theorem pieces_respace_char (hliteral : literalAt? (c :: chars (spotsOf ps)) = none)
    (ih : ∀ gap, pieces (respace gap (spotsOf ps)) = collapsePieces gap ps) (gap : Bool) :
    pieces (respace gap (spotsOf (.char c :: ps))) = collapsePieces gap (.char c :: ps) := by
  rw [spotsOf_cons, Piece.spots, List.singleton_append, collapsePieces, Piece.isGap]
  by_cases hc : isGap c
  · have hspot : (Spot.mk c true).isGap := by simpa [Spot.isGap] using hc
    rw [if_pos hc]
    cases gap with
    | true => rw [respace_true_cons_of_gap hspot, if_pos rfl, ih]
    | false =>
      rw [respace_cons_of_gap hspot, if_neg Bool.false_ne_true,
        pieces_cons_of_isBlank (by decide), ih]
  · have hspot : (Spot.mk c true).isGap = false := by simpa [Spot.isGap] using hc
    rw [if_neg hc, respace_cons_of_not_gap hspot,
      pieces_cons_of_none (literalAt?_respace_of_none hliteral), ih]

theorem pieces_respace_literal {l : Text}
    (hliteral : literalAt? (l ++ chars (spotsOf ps)) = some (l, chars (spotsOf ps)))
    (ih : ∀ gap, pieces (respace gap (spotsOf ps)) = collapsePieces gap ps) (gap : Bool) :
    pieces (respace gap (spotsOf (.literal l :: ps))) = collapsePieces gap (.literal l :: ps) := by
  have hne := literalAt?_ne_nil hliteral
  have hspaced := literalAt?_respace_of_some hliteral
  rw [spotsOf_cons, respace_literal_append hne, collapsePieces, Piece.isGap,
    if_neg Bool.false_ne_true]
  obtain ⟨c, t, rfl⟩ := List.exists_cons_of_ne_nil hne
  rw [List.cons_append] at hspaced ⊢
  rw [pieces_cons_of_some hspaced, ih]

/-- The pieces of a text with regular spacing are its pieces with regular spacing. -/
theorem pieces_respace (h : pieces (ps.flatMap Piece.text) = ps) (gap : Bool) :
    pieces (respace gap (spotsOf ps)) = collapsePieces gap ps := by
  induction ps generalizing gap with
  | nil => rw [spotsOf, List.flatMap_nil, respace_nil, pieces, collapsePieces]
  | cons p ps ih =>
    rw [← chars_spotsOf] at ih
    rw [List.flatMap_cons, ← chars_spotsOf] at h
    rcases exists_of_pieces_eq_cons h with
      ⟨c, t, htext, rfl, hliteral, hrest⟩ | ⟨l, rest, rfl, hliteral, hrest⟩
    · obtain rfl : chars (spotsOf ps) = t := (List.cons.inj htext).2
      exact pieces_respace_char hliteral (ih hrest) gap
    · obtain rfl : rest = chars (spotsOf ps) := List.append_cancel_left (literalAt?_append hliteral)
      exact pieces_respace_literal hliteral (ih hrest) gap

end Userscript.Script
