import Userscript.Proofs.Script.Respacing
import Userscript.Proofs.Script.Stripping

/-!
# Tokens of a line with regular spacing

What a slash is depends on the output before it. If no more is looked at than the last word of
the output, two outputs that differ in their blanks only agree about every slash, and a line with
regular spacing is cut into the tokens of the line, with regular spacing each.

## Main definitions

* `Context.Wordwise` — no more than the last word of an output decides about a slash
* `Script.Agree` — two outputs decide alike about all that may follow
* `Script.closedSpans` — where the closed literals of a line stand
* `Script.LexedAlike` — a line and the line with regular spacing are cut into the same tokens

## Main results

* `allowsPattern_lastWord` — the last word of an output decides about a slash
* `lexLine_respace` — the literals of a line with regular spacing
-/

namespace Userscript.Script

variable {ctx : Context} {gap : Bool} {back back' t d : Text} {x : Spot} {xs ys zs es : List Spot}
  {c e : Char} {ts : List Token} {tok : Token}

/-- No more than the last word of an output decides about a slash: characters are looked at from
the end of the output on, and no keyword holds a blank. -/
structure Context.Wordwise (ctx : Context) : Prop where
  window : 0 ≤ ctx.window
  keywords : ∀ word ∈ ctx.keywords, ∀ c ∈ word, Text.isBlank c = false

theorem wordwise_default : Context.Wordwise {} := by
  refine ⟨by decide, fun word hword c hc => ?_⟩
  have hwords : ({} : Context).keywords.all fun word => word.all fun c => !Text.isBlank c := by decide
  simpa using List.all_eq_true.1 (List.all_eq_true.1 hwords word hword) c hc

/-- What stands behind the last blank of an output, last character first. -/
def openWord (back : Text) : Text := back.takeWhile fun c => !Text.isBlank c

/-- The last word of an output, last character first. -/
def lastWord (back : Text) : Text := openWord (Text.trimLeft back)

theorem openWord_cons_of_blank (h : Text.isBlank c) (back : Text) : openWord (c :: back) = [] := by
  simp [openWord, h]

theorem openWord_cons_of_not_blank (h : Text.isBlank c = false) (back : Text) :
    openWord (c :: back) = c :: openWord back := by
  simp [openWord, h]

theorem lastWord_cons_of_blank (h : Text.isBlank c) (back : Text) :
    lastWord (c :: back) = lastWord back := by
  simp [lastWord, Text.trimLeft, h]

theorem lastWord_cons_of_not_blank (h : Text.isBlank c = false) (back : Text) :
    lastWord (c :: back) = c :: openWord back := by
  rw [← openWord_cons_of_not_blank h]
  simp [lastWord, Text.trimLeft, h]

/-- Either nothing but blanks has been output, or the last word is there. -/
theorem trimLeft_eq_nil_or_cons (back : Text) :
    Text.trimLeft back = [] ∨ ∃ c rest, Text.trimLeft back = c :: rest ∧ Text.isBlank c = false := by
  cases h : Text.trimLeft back with
  | nil => exact .inl rfl
  | cons c rest =>
    refine .inr ⟨c, rest, rfl, ?_⟩
    have := List.head?_dropWhile_not Text.isBlank back
    rw [← Text.trimLeft, h] at this
    simpa using this

theorem trimLeft_lastWord (back : Text) : Text.trimLeft (lastWord back) = lastWord back := by
  rcases trimLeft_eq_nil_or_cons back with h | ⟨c, rest, h, hc⟩
  · rw [lastWord, h]
    rfl
  · rw [lastWord, h, openWord_cons_of_not_blank hc, Text.trimLeft,
      List.dropWhile_cons_of_neg (by simp [hc])]

/-- Of the last word alone the last word is looked at. -/
theorem Context.tail_lastWord (h : 0 ≤ ctx.window) (back : Text) :
    ctx.tail (lastWord back) = openWord (ctx.tail back) := by
  have htrim := trimLeft_lastWord back
  rw [Text.trimLeft] at htrim
  rw [Context.tail, Context.tail, htrim, lastWord, Text.trimLeft, openWord, openWord]
  -- A window of at least zero is counted from the end of the output, so it cuts both words at the
  -- same place; the other way of counting takes the whole word.
  split
  · exact List.take_takeWhile
  · have hwindow : ctx.window.natAbs = 0 := by omega
    rw [hwindow, Nat.sub_zero, Nat.sub_zero, List.take_length, List.take_length]

theorem isPrefixOf_openWord {word : Text} (h : ∀ c ∈ word, Text.isBlank c = false) (t : Text) :
    word.isPrefixOf (openWord t) = word.isPrefixOf t := by
  induction word generalizing t with
  | nil => simp
  | cons w word ih =>
    cases t with
    | nil => rfl
    | cons c t =>
      -- At a blank the word ends, and no keyword goes on with one.
      by_cases hc : Text.isBlank c
      · have hne : (w == c) = false := by
          rw [beq_eq_false_iff_ne]
          exact (ne_of_isBlank hc (h w (by simp))).symm
        rw [openWord_cons_of_blank hc, List.isPrefixOf_cons_cons, hne]
        rfl
      · rw [openWord_cons_of_not_blank (by simpa using hc), List.isPrefixOf_cons_cons,
          List.isPrefixOf_cons_cons, ih fun d hd => h d (by simp [hd])]

theorem Context.tail_eq_nil_or_cons (ctx : Context) (back : Text) :
    ctx.tail back = [] ∨ ∃ c rest, ctx.tail back = c :: rest ∧ Text.isBlank c = false := by
  have htake (n : Nat) : (Text.trimLeft back).take n = [] ∨
      ∃ c rest, (Text.trimLeft back).take n = c :: rest ∧ Text.isBlank c = false := by
    rcases trimLeft_eq_nil_or_cons back with h | ⟨c, rest, h, hc⟩
    · exact .inl (by simp [h])
    · cases n with
      | zero => exact .inl rfl
      | succ n => exact .inr ⟨c, rest.take n, by rw [h, List.take_succ_cons], hc⟩
  rw [Context.tail]
  split
  · exact htake _
  · exact htake _

/-- The last word of an output decides about a slash. -/
theorem allowsPattern_lastWord (h : ctx.Wordwise) (back : Text) :
    ctx.allowsPattern (lastWord back) = ctx.allowsPattern back := by
  rw [Context.allowsPattern, Context.allowsPattern, Context.tail_lastWord h.window]
  rcases ctx.tail_eq_nil_or_cons back with hnil | ⟨c, rest, hcons, hc⟩
  · rw [hnil]
    rfl
  · rw [hcons, openWord_cons_of_not_blank hc]
    dsimp only
    rw [← openWord_cons_of_not_blank hc]
    congr 1
    rw [Bool.eq_iff_iff, List.any_eq_true, List.any_eq_true]
    -- The same keywords stand at the end of both.
    refine exists_congr fun word => and_congr_right fun hword => ?_
    rw [isPrefixOf_openWord fun d hd => h.keywords word hword d (List.mem_reverse.1 hd)]

/-! ### Outputs that agree -/

/-- Two outputs decide alike about all that may follow. A gap that was output last is told apart,
since one more would not be output with regular spacing. -/
structure Agree (gap : Bool) (back back' : Text) : Prop where
  lastWord : lastWord back = lastWord back'
  openWord : openWord back = openWord back'
  blank : gap → Script.openWord back = []

theorem Agree.opensLiteral (h : Agree gap back back') (hctx : ctx.Wordwise) (c : Char) :
    opensLiteral ctx back c = opensLiteral ctx back' c := by
  rw [Script.opensLiteral, Script.opensLiteral, ← allowsPattern_lastWord hctx back, h.lastWord,
    allowsPattern_lastWord hctx]

/-- Outputs of nothing but blanks agree. -/
theorem Agree.of_blank (h : ∀ c ∈ back, Text.isBlank c) (h' : ∀ c ∈ back', Text.isBlank c) :
    Agree gap back back' := by
  -- Neither of them has a word.
  have hopen (back : Text) (h : ∀ c ∈ back, Text.isBlank c) : Script.openWord back = [] := by
    cases back with
    | nil => rfl
    | cons c back => exact openWord_cons_of_blank (h c (by simp)) back
  have hlast (back : Text) (h : ∀ c ∈ back, Text.isBlank c) : Script.lastWord back = [] := by
    rw [Script.lastWord, Text.trimLeft, Text.dropWhile_isBlank_eq_nil_iff.2 h]
    rfl
  exact ⟨by rw [hlast back h, hlast back' h'], by rw [hopen back h, hopen back' h'],
    fun _ => hopen back h⟩

theorem Agree.cons (h : Agree gap back back') (c : Char) : Agree false (c :: back) (c :: back') := by
  by_cases hc : Text.isBlank c
  · refine ⟨?_, ?_, nofun⟩
    · rw [lastWord_cons_of_blank hc, lastWord_cons_of_blank hc, h.lastWord]
    · rw [openWord_cons_of_blank hc, openWord_cons_of_blank hc]
  · have hc : Text.isBlank c = false := by simpa using hc
    refine ⟨?_, ?_, nofun⟩
    · rw [lastWord_cons_of_not_blank hc, lastWord_cons_of_not_blank hc, h.openWord]
    · rw [openWord_cons_of_not_blank hc, openWord_cons_of_not_blank hc, h.openWord]

/-- One blank is as good as another. -/
theorem Agree.cons_blank (h : Agree gap back back') (hc : Text.isBlank c) (he : Text.isBlank e) :
    Agree true (c :: back) (e :: back') := by
  refine ⟨?_, ?_, fun _ => openWord_cons_of_blank hc back⟩
  · rw [lastWord_cons_of_blank hc, lastWord_cons_of_blank he, h.lastWord]
  · rw [openWord_cons_of_blank hc, openWord_cons_of_blank he]

/-- One blank is as good as two. -/
theorem Agree.cons_left (h : Agree true back back') (hc : Text.isBlank c) :
    Agree true (c :: back) back' := by
  refine ⟨?_, ?_, fun _ => openWord_cons_of_blank hc back⟩
  · rw [lastWord_cons_of_blank hc, h.lastWord]
  · rw [openWord_cons_of_blank hc, ← h.openWord, h.blank rfl]

theorem Agree.weaken (h : Agree gap back back') : Agree false back back' :=
  ⟨h.lastWord, h.openWord, nofun⟩

/-- Outputs agree behind a text and the same text with regular spacing. -/
theorem Agree.respace (h : Agree gap back back') (xs : List Spot) :
    Agree false ((chars xs).reverse ++ back) ((respace gap xs).reverse ++ back') := by
  induction xs generalizing gap back back' with
  | nil => exact h.weaken
  | cons x xs ih =>
    rw [chars_cons, List.reverse_cons, List.append_assoc, List.singleton_append]
    by_cases hx : x.isGap
    · have hblank := isBlank_of_isGap (Spot.isGap_char hx)
      cases gap with
      | false =>
        rw [respace_cons_of_gap hx, List.reverse_cons, List.append_assoc, List.singleton_append]
        exact ih (h.cons_blank hblank (by decide))
      | true =>
        rw [respace_true_cons_of_gap hx]
        exact ih (h.cons_left hblank)
    · rw [respace_cons_of_not_gap (by simpa using hx), List.reverse_cons, List.append_assoc,
        List.singleton_append]
      exact ih (h.cons x.char)

/-! ### The tokens of a line with regular spacing -/

/-- Where the closed literals among the tokens of a line stand in the line. -/
def closedSpans : List Token → List Spot → List (List Spot)
  | [], _ => []
  | .literal text true :: ts, xs =>
    xs.take text.length :: closedSpans ts (xs.drop text.length)
  | tok :: ts, xs => closedSpans ts (xs.drop tok.text.length)

@[simp] theorem closedSpans_nil (xs : List Spot) : closedSpans [] xs = [] := by
  rw [closedSpans]

@[simp] theorem closedSpans_code (c : Char) (ts : List Token) (xs : List Spot) :
    closedSpans (.code c :: ts) xs = closedSpans ts (xs.drop 1) := by
  rw [closedSpans]
  · rfl
  · rintro text h
    cases h

theorem closedSpans_closed (ts : List Token) (ys zs : List Spot) :
    closedSpans (.literal (chars ys) true :: ts) (ys ++ zs) = ys :: closedSpans ts zs := by
  rw [closedSpans]
  simp [chars]

@[simp] theorem closedSpans_open (text : Text) (xs : List Spot) :
    closedSpans [.literal text false] xs = [] := by
  rw [closedSpans, closedSpans]
  rintro text h
  cases h

theorem closedSpans_map_code_append (t : Text) (ts : List Token) (xs : List Spot) :
    closedSpans (t.map .code ++ ts) xs = closedSpans ts (xs.drop t.length) := by
  induction t generalizing xs with
  | nil => rfl
  | cons c t ih =>
    rw [List.map_cons, List.cons_append, closedSpans_code, ih, List.drop_drop, List.length_cons,
      Nat.add_comm]

@[simp] theorem closedOf_nil : closedOf [] = [] := rfl

@[simp] theorem closedOf_code (c : Char) (ts : List Token) :
    closedOf (.code c :: ts) = closedOf ts := rfl

@[simp] theorem closedOf_closed (text : Text) (ts : List Token) :
    closedOf (.literal text true :: ts) = text :: closedOf ts := rfl

@[simp] theorem closedOf_open (text : Text) (ts : List Token) :
    closedOf (.literal text false :: ts) = closedOf ts := rfl

theorem closedOf_map_code_append (t : Text) (ts : List Token) :
    closedOf (t.map .code ++ ts) = closedOf ts := by
  induction t with
  | nil => rfl
  | cons c t ih => rw [List.map_cons, List.cons_append, closedOf_code, ih]

theorem lexLine_code (hbegins : beginsComment c t = false) (hopens : opensLiteral ctx back c = false) :
    lexLine ctx back (c :: t) = .code c :: lexLine ctx (c :: back) t := by
  refine lexLine_cons_of_nextToken ?_
  rw [nextToken_eq hbegins, hopens, if_neg Bool.false_ne_true]

theorem opensLiteral_of_isBlank (h : Text.isBlank c) : opensLiteral ctx back c = false := by
  rw [← Bool.not_eq_true]
  intro hopens
  simp [not_isBlank_of_opensLiteral hopens] at h

theorem beginsComment_of_isBlank (h : Text.isBlank c) : beginsComment c t = false :=
  beginsComment_of_ne (ne_of_isBlank h (by decide))

theorem lexLine_cons_of_isBlank (h : Text.isBlank c) :
    lexLine ctx back (c :: t) = .code c :: lexLine ctx (c :: back) t :=
  lexLine_code (beginsComment_of_isBlank h) (opensLiteral_of_isBlank h)

/-- Blanks are code. -/
theorem lexLine_blank_append (ctx : Context) (h : ∀ c ∈ d, Text.isBlank c) (back t : Text) :
    lexLine ctx back (d ++ t) = d.map .code ++ lexLine ctx (d.reverse ++ back) t := by
  induction d generalizing back with
  | nil => rfl
  | cons c d ih =>
    rw [List.cons_append, lexLine_cons_of_isBlank (h c (by simp)), ih fun e he => h e (by simp [he])]
    simp

theorem lexLine_literal {text rest : Text} {closed : Bool} (hbegins : beginsComment c t = false)
    (hopens : opensLiteral ctx back c) (hread : readLiteral c t = (.literal text closed, rest)) :
    lexLine ctx back (c :: t) = .literal text closed :: lexLine ctx (text.reverse ++ back) rest := by
  refine lexLine_cons_of_nextToken ?_
  rw [nextToken_eq hbegins, if_pos hopens, hread]

theorem beginsComment_respace (h : beginsComment c (chars xs ++ d) = false) :
    beginsComment c (respace false xs) = false := by
  rw [← Bool.not_eq_true] at h ⊢
  intro hbegins
  refine h ?_
  simp only [beginsComment, Bool.and_eq_true, Bool.or_eq_true, decide_eq_true_eq] at hbegins ⊢
  refine hbegins.imp_right (Or.imp (fun hhead => ?_) fun hhead => ?_)
  · exact (follows_respace xs d _ hhead).resolve_left (by decide)
  · exact (follows_respace xs d _ hhead).resolve_left (by decide)

/-- Behind outputs `back` and `back'`, characters before the blanks `d` hold no comment with regular
spacing, and the closed literals in them are those without, with regular spacing each. -/
def LexedAlike (ctx : Context) (d : Text) (es : List Spot) (gap : Bool) (back back' : Text)
    (xs : List Spot) : Prop :=
  (∀ tok ∈ lexLine ctx back' (respace gap xs), tok.isComment = false) ∧
    closedOf (lexLine ctx back' (respace gap xs)) =
      (closedSpans (lexLine ctx back (chars xs ++ d)) (xs ++ es)).map (respace false)

namespace LexedAlike

theorem nil (ctx : Context) (hd : ∀ c ∈ d, Text.isBlank c) (es : List Spot) (gap : Bool)
    (back back' : Text) : LexedAlike ctx d es gap back back' [] := by
  have hblank := lexLine_blank_append ctx hd back []
  rw [List.append_nil, lexLine_nil] at hblank
  rw [LexedAlike, chars_nil, List.nil_append, hblank, closedSpans_map_code_append]
  simp

/-- A gap that stands for a run is code on both sides. -/
theorem cons_gap (hx : x.isGap) (h : LexedAlike ctx d es true (x.char :: back) (' ' :: back') xs) :
    LexedAlike ctx d es false back back' (x :: xs) := by
  obtain ⟨hplain, hclosed⟩ := h
  rw [LexedAlike, chars_cons, List.cons_append, respace_cons_of_gap hx,
    lexLine_cons_of_isBlank (isBlank_of_isGap (Spot.isGap_char hx)),
    lexLine_cons_of_isBlank (c := ' ') (by decide), closedSpans_code, closedOf_code,
    List.cons_append, List.drop_succ_cons, List.drop_zero]
  exact ⟨by simpa [Token.isComment] using hplain, hclosed⟩

/-- Another gap of the same run is code, or not there at all. -/
theorem cons_gap_true (hx : x.isGap) (h : LexedAlike ctx d es true (x.char :: back) back' xs) :
    LexedAlike ctx d es true back back' (x :: xs) := by
  rw [LexedAlike, chars_cons, List.cons_append, respace_true_cons_of_gap hx,
    lexLine_cons_of_isBlank (isBlank_of_isGap (Spot.isGap_char hx)), closedSpans_code,
    List.cons_append, List.drop_succ_cons, List.drop_zero]
  exact h

theorem cons_code (hx : x.isGap = false) (hbegins : beginsComment x.char (chars xs ++ d) = false)
    (hopens : opensLiteral ctx back x.char = false) (hopens' : opensLiteral ctx back' x.char = false)
    (h : LexedAlike ctx d es false (x.char :: back) (x.char :: back') xs) :
    LexedAlike ctx d es gap back back' (x :: xs) := by
  obtain ⟨hplain, hclosed⟩ := h
  rw [LexedAlike, chars_cons, List.cons_append, respace_cons_of_not_gap hx,
    lexLine_code hbegins hopens, lexLine_code (beginsComment_respace hbegins) hopens',
    closedSpans_code, closedOf_code, List.cons_append, List.drop_succ_cons, List.drop_zero]
  exact ⟨by simpa [Token.isComment] using hplain, hclosed⟩

/-- A closed literal is read up to the same character on both sides. -/
theorem cons_closed (hx : x.isGap = false)
    (hbegins : beginsComment x.char (chars (ys ++ zs) ++ d) = false)
    (hopens : opensLiteral ctx back x.char) (hopens' : opensLiteral ctx back' x.char)
    (hread : readLiteral x.char (chars (ys ++ zs) ++ d) =
      (.literal (x.char :: chars ys) true, chars zs ++ d))
    (hread' : readLiteral x.char (respace false (ys ++ zs)) =
      (.literal (x.char :: respace false ys) true, respace false zs))
    (h : LexedAlike ctx d es false ((chars (x :: ys)).reverse ++ back)
      ((respace gap (x :: ys)).reverse ++ back') zs) :
    LexedAlike ctx d es gap back back' (x :: (ys ++ zs)) := by
  rw [respace_cons_of_not_gap hx] at h
  obtain ⟨hplain, hclosed⟩ := h
  rw [LexedAlike, chars_cons, List.cons_append, respace_cons_of_not_gap hx,
    lexLine_literal hbegins hopens hread,
    lexLine_literal (beginsComment_respace hbegins) hopens' hread', ← chars_cons,
    ← List.cons_append, List.append_assoc, closedSpans_closed, closedOf_closed, List.map_cons,
    hclosed, respace_cons_of_not_gap hx]
  exact ⟨by simpa [Token.isComment] using hplain, rfl⟩

/-- A literal that is open takes up the rest of the line on both sides. -/
theorem cons_open {text text' : Text} (hx : x.isGap = false)
    (hbegins : beginsComment x.char (chars xs ++ d) = false)
    (hopens : opensLiteral ctx back x.char) (hopens' : opensLiteral ctx back' x.char)
    (hread : readLiteral x.char (chars xs ++ d) = (.literal text false, []))
    (hread' : readLiteral x.char (respace false xs) = (.literal text' false, [])) :
    LexedAlike ctx d es gap back back' (x :: xs) := by
  rw [LexedAlike, chars_cons, List.cons_append, respace_cons_of_not_gap hx,
    lexLine_literal hbegins hopens hread,
    lexLine_literal (beginsComment_respace hbegins) hopens' hread', lexLine_nil, lexLine_nil]
  simp [Token.isComment]

end LexedAlike

/-- A line without comments, up to the blanks at its end, has no comments with regular spacing
either, and its closed literals are those of the line with regular spacing each. -/
theorem lexLine_respace (hctx : ctx.Wordwise) (hd : ∀ c ∈ d, Text.isBlank c) (es : List Spot)
    (gap : Bool) (back back' : Text) (hagree : Agree gap back back') (xs : List Spot)
    (hcode : ∀ tok ∈ lexLine ctx back (chars xs ++ d), tok.isComment = false) :
    LexedAlike ctx d es gap back back' xs := by
  match xs with
  | [] => exact .nil ctx hd es gap back back'
  | x :: xs =>
    have hbegins : beginsComment x.char (chars xs ++ d) = false := by
      rw [← isComment_nextToken ctx back]
      refine hcode _ ?_
      rw [chars_cons, List.cons_append, lexLine_cons]
      exact List.mem_cons_self
    rw [chars_cons, List.cons_append] at hcode
    -- The step is by what the first character is: a gap that is free, code, or a delimiter.
    by_cases hx : x.isGap
    · have hblank := isBlank_of_isGap (Spot.isGap_char hx)
      rw [lexLine_cons_of_isBlank hblank] at hcode
      have hrest := fun tok htok => hcode tok (List.mem_cons_of_mem _ htok)
      cases gap with
      | true =>
        exact (lexLine_respace hctx hd es true _ _ (hagree.cons_left hblank) xs hrest).cons_gap_true hx
      | false =>
        have hagree' := hagree.cons_blank hblank (e := ' ') (by decide)
        exact (lexLine_respace hctx hd es true _ _ hagree' xs hrest).cons_gap hx
    · have hx : x.isGap = false := by simpa using hx
      have hopens := hagree.opensLiteral hctx x.char
      cases hliteral : opensLiteral ctx back x.char with
      | false =>
        rw [lexLine_code hbegins hliteral] at hcode
        have hrest := fun tok htok => hcode tok (List.mem_cons_of_mem _ htok)
        exact (lexLine_respace hctx hd es false _ _ (hagree.cons x.char) xs hrest).cons_code hx
          hbegins hliteral (hopens ▸ hliteral)
      | true =>
        have hblank := not_isBlank_of_opensLiteral hliteral
        have hesc := ne_escape_of_opensLiteral hliteral
        rcases readLiteral_respace hblank hesc hd xs with
          ⟨ys, zs, rfl, hread, hread'⟩ | ⟨hread, hread'⟩
        · rw [lexLine_literal hbegins hliteral hread] at hcode
          have hrest := fun tok htok => hcode tok (List.mem_cons_of_mem _ htok)
          -- Behind the literal the outputs agree again, whatever its spacing has become.
          exact (lexLine_respace hctx hd es false _ _ (hagree.respace (x :: ys)) zs hrest).cons_closed
            hx hbegins hliteral (hopens ▸ hliteral) hread hread'
        · exact .cons_open hx hbegins hliteral (hopens ▸ hliteral) hread hread'
termination_by xs.length

end Userscript.Script
