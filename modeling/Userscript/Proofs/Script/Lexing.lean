import Mathlib.Data.List.Basic
import Mathlib.Data.List.TakeWhile
import Userscript.Script.Comments

/-!
# What a token depends on

Of the part of a line behind a token only the first character matters to the token, and that
only so far as it would go on with it. So a line whose comments have given way to spaces is
cut into the same tokens, with spaces for comments.

## Main definitions

* `Script.beginsComment`, `Script.opensLiteral` — what decides about the next token
* `Script.readLiteral` — the literal behind an opening delimiter
* `Token.residue` — what becomes of a token when its line is cut a second time

## Main results

* `nextToken_eq` — the next token of a line, unless it is a comment
* `nextToken_of_follows` — a token is the same before any text that goes on alike
* `exists_nextToken_of_lexLine` — each token of a line is read where it stands
* `lexLine_output` — the tokens of a line without its comments
* `lexLine_flatMap_text` — the tokens of a part of a line, up to the end of a token
-/

namespace Userscript.Script

variable {ctx : Context} {back t rest rest' body : Text} {c q : Char} {tok : Token}

/-- Whether `c` begins a comment before the rest `t` of a line. -/
def beginsComment (c : Char) (t : Text) : Bool :=
  c = '/' && (t.head? = some '*' || t.head? = some '/')

/-- Whether `c` opens a literal behind an output, unless it begins a comment. -/
def opensLiteral (ctx : Context) (back : Text) (c : Char) : Bool :=
  isQuote c || (c = '/' && ctx.allowsPattern back)

/-- Whether `d` is a flag of a literal that `q` closes; strings have none. -/
def isFlagOf (q d : Char) : Bool := q = '/' && isFlag d

/-- The literal that `q` opens before the rest `t` of a line, and what follows it. -/
def readLiteral (q : Char) (t : Text) : Token × Text :=
  match takeLiteral q t with
  | (body, none) => (.literal (q :: body) false, [])
  | (body, some rest) =>
    (.literal (q :: body ++ rest.takeWhile (isFlagOf q)) true, rest.dropWhile (isFlagOf q))

theorem beginsComment_of_ne (h : c ≠ '/') : beginsComment c t = false := by
  simp [beginsComment, h]

theorem not_isQuote_slash : isQuote '/' = false := by decide

theorem ne_slash_of_isQuote (h : isQuote c) : c ≠ '/' := by
  rintro rfl
  simp [not_isQuote_slash] at h

theorem opensLiteral_of_isQuote (h : isQuote c) : opensLiteral ctx back c := by
  simp [opensLiteral, h]

/-- What opens a literal is a quote or a slash. -/
theorem isQuote_or_eq_slash_of_opensLiteral (h : opensLiteral ctx back c) :
    isQuote c ∨ c = '/' := by
  simp only [opensLiteral, Bool.or_eq_true, Bool.and_eq_true, decide_eq_true_eq] at h
  exact h.imp_right And.left

theorem ne_escape_of_delimiter (h : isQuote q ∨ q = '/') : q ≠ '\\' := by
  rintro rfl
  exact absurd h (by decide)

theorem not_isBlank_of_isQuote {c : Char} (h : isQuote c) : Text.isBlank c = false := by
  simp only [isQuote, Bool.or_eq_true, decide_eq_true_eq] at h
  rcases h with (rfl | rfl) | rfl <;> decide

theorem not_isBlank_of_isFlag {c : Char} (h : isFlag c) : Text.isBlank c = false := by
  have hmem : c ∈ ['g', 'i', 'm', 's', 'u', 'y', 'v'] := by simpa [isFlag] using h
  revert h
  simp only [List.mem_cons, List.not_mem_nil, or_false] at hmem
  rcases hmem with rfl | rfl | rfl | rfl | rfl | rfl | rfl <;> decide

theorem isFlagOf_of_isQuote (h : isQuote q) : isFlagOf q = fun _ => false := by
  funext d
  simp [isFlagOf, ne_slash_of_isQuote h]

theorem isFlagOf_slash : isFlagOf '/' = isFlag := by
  funext d
  simp [isFlagOf]

theorem readLiteral_of_isQuote (h : isQuote q) :
    readLiteral q t =
      match takeLiteral q t with
      | (body, none) => (.literal (q :: body) false, [])
      | (body, some rest) => (.literal (q :: body) true, rest) := by
  unfold readLiteral
  -- A string has no flags, so none are taken and none are dropped.
  cases takeLiteral q t with
  | mk body rest =>
    cases rest with
    | none => rfl
    | some rest => cases rest <;> simp [isFlagOf_of_isQuote h]

/-- The next token of a line, unless it is a comment. -/
theorem nextToken_eq (h : beginsComment c t = false) :
    nextToken ctx back c t = if opensLiteral ctx back c then readLiteral c t else (.code c, t) := by
  unfold nextToken
  by_cases hquote : isQuote c
  · rw [if_pos hquote, if_pos (opensLiteral_of_isQuote hquote)]
    exact (readLiteral_of_isQuote hquote).symm
  · rw [if_neg hquote]
    -- A slash that begins no comment opens a literal where the output allows one.
    by_cases hslash : c = '/'
    · subst hslash
      have hopens : opensLiteral ctx back '/' = ctx.allowsPattern back := by
        simp [opensLiteral, not_isQuote_slash]
      rw [if_pos rfl, hopens, readLiteral, isFlagOf_slash]
      cases t with
      | nil => rfl
      | cons d t =>
        simp only [beginsComment, List.head?_cons, Option.some.injEq, decide_true, Bool.true_and,
          Bool.or_eq_false_iff, decide_eq_false_iff_not] at h
        split
        · next heq => exact absurd (List.cons.inj heq).1 h.1
        · next heq => exact absurd (List.cons.inj heq).1 h.2
        · rfl
    · simp [opensLiteral, hquote, hslash]

/-- The next token of a line is a comment exactly when its first two characters begin
one. -/
theorem isComment_nextToken (ctx : Context) (back : Text) (c : Char) (t : Text) :
    (nextToken ctx back c t).1.isComment = beginsComment c t := by
  cases h : beginsComment c t with
  | false =>
    rw [nextToken_eq h]
    unfold readLiteral
    repeat' split
    all_goals rfl
  | true =>
    simp only [beginsComment, Bool.and_eq_true, Bool.or_eq_true, decide_eq_true_eq] at h
    obtain ⟨rfl, h⟩ := h
    unfold nextToken
    rw [not_isQuote_slash, if_neg Bool.false_ne_true, if_pos rfl]
    split
    · split <;> rfl
    · rfl
    · next hblock hline =>
      -- A comment begins here, so the slash is followed by a star or by a slash.
      obtain ⟨t, rfl⟩ | ⟨t, rfl⟩ := h.imp List.head?_eq_some_iff.1 List.head?_eq_some_iff.1
      · exact absurd rfl (hblock t)
      · exact absurd rfl (hline t)

/-- A literal that is the next token of a line is read behind its opening delimiter. -/
theorem of_nextToken_eq_literal {text : Text} {closed : Bool}
    (h : nextToken ctx back c t = (.literal text closed, rest)) :
    beginsComment c t = false ∧ opensLiteral ctx back c ∧
      readLiteral c t = (.literal text closed, rest) := by
  have hcomment : beginsComment c t = false := by
    rw [← isComment_nextToken ctx back, h]
    rfl
  rw [nextToken_eq hcomment] at h
  split at h
  · next hopens => exact ⟨hcomment, hopens, h⟩
  · cases h

/-! ### Closed literals -/

/-- The rest of a literal behind its opening delimiter `q`, up to and with the closing
one. -/
inductive Closes (q : Char) : Text → Prop
  | delimiter : Closes q [q]
  | escape (c : Char) {body : Text} : Closes q body → Closes q ('\\' :: c :: body)
  | char {c : Char} {body : Text} : c ≠ q → c ≠ '\\' → Closes q body → Closes q (c :: body)

theorem takeLiteral_escape (q c : Char) (t : Text) :
    takeLiteral q ('\\' :: c :: t) =
      ('\\' :: c :: (takeLiteral q t).1, (takeLiteral q t).2) := by
  rw [takeLiteral]

theorem takeLiteral_delimiter (hq : q ≠ '\\') (t : Text) :
    takeLiteral q (q :: t) = ([q], some t) := by
  rw [takeLiteral, if_pos rfl]
  rintro c t' rfl
  exact absurd rfl hq

theorem takeLiteral_char (hc : c ≠ q) (hesc : c ≠ '\\') (t : Text) :
    takeLiteral q (c :: t) = (c :: (takeLiteral q t).1, (takeLiteral q t).2) := by
  rw [takeLiteral, if_neg hc]
  rintro c t' rfl
  exact absurd rfl hesc

theorem takeLiteral_lone (hq : q ≠ '\\') : takeLiteral q ['\\'] = (['\\'], none) := by
  simp [takeLiteral, Ne.symm hq]

theorem Closes.takeLiteral_append (h : Closes q body) (hq : q ≠ '\\') (rest : Text) :
    takeLiteral q (body ++ rest) = (body, some rest) := by
  induction h with
  | delimiter => exact takeLiteral_delimiter hq rest
  | escape c _ ih => simp [takeLiteral_escape, ih]
  | char hc hesc _ ih => simp [takeLiteral_char hc hesc, ih]

/-- A literal is closed by the text up to its first delimiter that is not escaped. -/
theorem closes_of_takeLiteral (h : takeLiteral q t = (body, some rest)) :
    Closes q body := by
  -- The cases are those of the reading: an escape, the delimiter, and any other character.
  fun_induction takeLiteral q t generalizing body with
  | case1 => simp at h
  | case2 c t body' rest' hrec ih =>
    cases h
    exact .escape c (ih hrec)
  | case3 t hesc =>
    cases h
    exact .delimiter
  | case4 c t hesc hc body' rest' hrec ih =>
    cases h
    refine .char hc ?_ (ih hrec)
    rintro rfl
    cases t with
    | nil => simp [takeLiteral] at hrec
    | cons d t => exact hesc d t rfl rfl

theorem takeLiteral_eq_some_iff (hq : q ≠ '\\') :
    takeLiteral q t = (body, some rest) ↔ Closes q body ∧ t = body ++ rest := by
  constructor
  · intro h
    exact ⟨closes_of_takeLiteral h, (takeLiteral_append_of_some h).symm⟩
  · rintro ⟨h, rfl⟩
    exact h.takeLiteral_append hq rest

/-- Nothing that closes a literal is empty, and it ends in the delimiter. -/
theorem Closes.getLast? (h : Closes q body) : body.getLast? = some q := by
  induction h with
  | delimiter => rfl
  | escape c h ih => simp [List.getLast?_cons, ih]
  | char _ _ h ih => simp [List.getLast?_cons, ih]

theorem Closes.ne_nil (h : Closes q body) : body ≠ [] := by
  cases h <;> simp

theorem ne_escape_of_opensLiteral (h : opensLiteral ctx back q) : q ≠ '\\' :=
  ne_escape_of_delimiter (isQuote_or_eq_slash_of_opensLiteral h)

theorem not_isBlank_of_opensLiteral (h : opensLiteral ctx back c) : Text.isBlank c = false := by
  rcases isQuote_or_eq_slash_of_opensLiteral h with hquote | rfl
  · exact not_isBlank_of_isQuote hquote
  · decide

/-- A closed literal ends in its delimiter or in a flag, and so in no blank. -/
theorem not_isBlank_getLast?_readLiteral {l : Text} (hq : Text.isBlank q = false)
    (h : (readLiteral q t).1 = .literal l true) {d : Char} (hd : l.getLast? = some d) :
    Text.isBlank d = false := by
  unfold readLiteral at h
  split at h
  · cases h
  · next body after hbody =>
    cases h
    rw [List.cons_append, List.getLast?_cons, List.getLast?_append,
      (closes_of_takeLiteral hbody).getLast?] at hd
    -- The last character is the last flag, or the delimiter where there is none.
    cases hflags : (after.takeWhile (isFlagOf q)).getLast? with
    | none =>
      obtain rfl : q = d := by simpa [hflags] using hd
      exact hq
    | some e =>
      obtain rfl : e = d := by simpa [hflags] using hd
      have hflag := List.mem_takeWhile_imp (List.mem_of_getLast? hflags)
      rw [isFlagOf, Bool.and_eq_true] at hflag
      exact not_isBlank_of_isFlag hflag.2

/-! ### A token before another text -/

/-- A text can follow a token in the place of `rest` if it begins with a space or as `rest`
does, or is empty. -/
def Follows (rest rest' : Text) : Prop := ∀ d, rest'.head? = some d → d = ' ' ∨ rest.head? = some d

theorem Follows.nil : Follows rest [] := by
  intro d h
  simp at h

theorem Follows.cons (d : Char) (rest rest' : Text) : Follows (d :: rest) (d :: rest') := by
  intro e h
  exact .inr h

theorem Follows.append_left (r s : Text) : Follows (r ++ s) r := by
  cases r with
  | nil => exact .nil
  | cons d r => exact .cons d _ _

theorem Follows.space : Follows rest (' ' :: rest') := by
  intro d h
  exact .inl (Option.some.inj h).symm

/-- A text that follows goes on with no flag if the other does not. -/
theorem Follows.head?_dropWhile (h : Follows (rest.dropWhile (isFlagOf q)) rest') (d : Char)
    (hd : rest'.head? = some d) : isFlagOf q d = false := by
  rcases h d hd with rfl | h
  · simp [isFlagOf, isFlag]
  · have := List.head?_dropWhile_not (isFlagOf q) rest
    rw [h] at this
    simpa using this

theorem takeWhile_append_of_head {p : Char → Bool} {flags : Text} (hflags : ∀ d ∈ flags, p d)
    (hrest : ∀ d, rest.head? = some d → p d = false) :
    (flags ++ rest).takeWhile p = flags ∧ (flags ++ rest).dropWhile p = rest := by
  rw [List.takeWhile_append_of_pos hflags, List.dropWhile_append_of_pos hflags]
  cases rest with
  | nil => simp
  | cons d rest => simp [hrest d rfl]

/-- A literal is the same before any text that goes on alike. -/
theorem readLiteral_of_follows (hq : q ≠ '\\') (h : readLiteral q t = (tok, rest))
    (hrest : Follows rest rest') (hnil : rest = [] → rest' = []) :
    ∃ t', q :: t' = tok.text ++ rest' ∧ t'.head? = t.head? ∧ readLiteral q t' = (tok, rest') := by
  unfold readLiteral at h
  split at h
  · next body hbody =>
    cases h
    obtain rfl := takeLiteral_eq_of_none hbody
    exact ⟨body, by simp [Token.text, hnil rfl], rfl, by simp [readLiteral, hbody, hnil rfl]⟩
  · next body after hbody =>
    cases h
    -- The body ends at its delimiter whatever follows, and the flags end since no flag follows.
    obtain ⟨hcloses, rfl⟩ := (takeLiteral_eq_some_iff hq).1 hbody
    have hflags : ∀ d ∈ after.takeWhile (isFlagOf q), isFlagOf q d :=
      fun d hd => List.mem_takeWhile_imp hd
    have hsplit := takeWhile_append_of_head hflags fun d hd => hrest.head?_dropWhile d hd
    refine ⟨body ++ (after.takeWhile (isFlagOf q) ++ rest'), by simp [Token.text], ?_, ?_⟩
    · rw [List.head?_append_of_ne_nil _ hcloses.ne_nil, List.head?_append_of_ne_nil _ hcloses.ne_nil]
    · rw [readLiteral, hcloses.takeLiteral_append hq]
      simp [hsplit.1, hsplit.2]

/-- A token that is no comment is the same before any text that goes on alike. -/
theorem nextToken_of_follows (h : nextToken ctx back c t = (tok, rest))
    (htok : tok.isComment = false) (hrest : Follows rest rest') (hnil : rest = [] → rest' = []) :
    ∃ t', c :: t' = tok.text ++ rest' ∧ nextToken ctx back c t' = (tok, rest') := by
  have hbegins : beginsComment c t = false := by
    rw [← isComment_nextToken ctx back, h, htok]
  rw [nextToken_eq hbegins] at h
  split at h
  · next hopens =>
    obtain ⟨t', ht', hhead, hread⟩ :=
      readLiteral_of_follows (ne_escape_of_opensLiteral hopens) h hrest hnil
    refine ⟨t', ht', ?_⟩
    rw [nextToken_eq (by rwa [beginsComment, hhead]), if_pos hopens, hread]
  · next hopens =>
    cases h
    refine ⟨rest', rfl, ?_⟩
    -- No comment comes to begin here, as `rest'` begins with a space or as `rest` does.
    have hbegins' : beginsComment c rest' = false := by
      cases hhead : rest'.head? with
      | none => simp [beginsComment, hhead]
      | some d =>
        rcases hrest d hhead with rfl | h
        · simp [beginsComment, hhead]
        · rwa [beginsComment, hhead, ← h]
    rw [nextToken_eq hbegins', if_neg hopens]

/-! ### The tokens of a line without its comments -/

/-- What becomes of a token when its line is cut a second time: a block comment has left a
space. -/
def Token.residue : Token → List Token
  | comment _ => [code ' ']
  | lineComment _ | opening _ => []
  | tok => [tok]

theorem Token.residue_of_not_isComment (h : tok.isComment = false) : tok.residue = [tok] := by
  cases tok <;> simp_all [Token.isComment, Token.residue]

theorem Token.isComment_of_mem_residue {tok' : Token} (h : tok' ∈ tok.residue) :
    tok'.isComment = false := by
  cases tok <;> simp_all [Token.residue, Token.isComment]

theorem Token.isComment_of_mem_flatMap_residue {ts : List Token}
    (h : tok ∈ ts.flatMap Token.residue) : tok.isComment = false := by
  obtain ⟨tok', -, hresidue⟩ := List.mem_flatMap.1 h
  exact isComment_of_mem_residue hresidue

theorem Token.output_of_not_isComment (h : tok.isComment = false) : tok.output = tok.text := by
  cases tok <;> simp_all [Token.isComment, Token.output, Token.text]

@[simp] theorem lexLine_nil : lexLine ctx back [] = [] := by
  rw [lexLine]

theorem lexLine_cons : lexLine ctx back (c :: t) =
    (nextToken ctx back c t).1 ::
      lexLine ctx ((nextToken ctx back c t).1.output.reverse ++ back)
        (nextToken ctx back c t).2 := by
  rw [lexLine]

theorem lexLine_cons_of_nextToken (h : nextToken ctx back c t = (tok, rest)) :
    lexLine ctx back (c :: t) = tok :: lexLine ctx (tok.output.reverse ++ back) rest := by
  rw [lexLine_cons, h]

/-- Each token of a line is read where it stands, and the others behind it. -/
theorem exists_nextToken_of_lexLine {line : Text} {before after : List Token}
    (h : lexLine ctx back line = before ++ tok :: after) :
    ∃ back' c t rest, line = before.flatMap Token.text ++ c :: t ∧
      nextToken ctx back' c t = (tok, rest) ∧
      after = lexLine ctx (tok.output.reverse ++ back') rest := by
  induction before generalizing back line with
  | nil =>
    cases line with
    | nil => simp at h
    | cons c t =>
      rw [lexLine_cons, List.nil_append, List.cons.injEq] at h
      obtain ⟨rfl, rfl⟩ := h
      exact ⟨back, c, t, _, rfl, rfl, rfl⟩
  | cons first before ih =>
    cases line with
    | nil => simp at h
    | cons c t =>
      rw [lexLine_cons, List.cons_append, List.cons.injEq] at h
      obtain ⟨rfl, h⟩ := h
      obtain ⟨back', d, u, rest, hrest, hnext⟩ := ih h
      refine ⟨back', d, u, rest, ?_, hnext⟩
      rw [List.flatMap_cons, List.append_assoc, ← hrest, nextToken_append]

/-- Whether nothing of its line can follow a token. -/
def Token.endsLine : Token → Bool
  | literal _ closed => !closed
  | lineComment _ | opening _ => true
  | code _ | comment _ => false

theorem nextToken_snd_of_endsLine (ctx : Context) (back : Text) (c : Char) (t : Text)
    (h : (nextToken ctx back c t).1.endsLine) : (nextToken ctx back c t).2 = [] := by
  unfold nextToken at h ⊢
  repeat' split
  all_goals simp_all [Token.endsLine]

/-- The output of a line begins with a space or as the line does. -/
theorem follows_output (ctx : Context) (back line : Text) :
    Follows line ((lexLine ctx back line).flatMap Token.output) := by
  cases line with
  | nil => simpa using Follows.nil
  | cons c t =>
    have happend := nextToken_append ctx back c t
    have hne := text_nextToken_ne_nil ctx back c t
    have hends := nextToken_snd_of_endsLine ctx back c t
    rw [lexLine_cons, List.flatMap_cons]
    -- What the token is like is all that matters from here on.
    generalize nextToken ctx back c t = next at *
    obtain ⟨tok, rest⟩ := next
    by_cases hcomment : tok.isComment
    · cases tok with
      | code | literal => simp [Token.isComment] at hcomment
      | comment => exact Follows.space
      | lineComment | opening =>
        obtain rfl : rest = [] := hends rfl
        simpa [Token.output] using Follows.nil
    · rw [Token.output_of_not_isComment (by simpa using hcomment)]
      cases htext : tok.text with
      | nil => exact absurd htext hne
      | cons d u =>
        simp only [htext, List.cons_append, List.cons.injEq] at happend
        rw [happend.1]
        exact Follows.cons _ _ _

/-- The output of a line is cut into the tokens of the line, with a space for each block
comment. -/
theorem lexLine_output (ctx : Context) (back line : Text) :
    lexLine ctx back ((lexLine ctx back line).flatMap Token.output) =
      (lexLine ctx back line).flatMap Token.residue := by
  fun_induction lexLine ctx back line with
  | case1 => simp
  | case2 back c t next ih =>
    have hends := nextToken_snd_of_endsLine ctx back c t
    have hnext : nextToken ctx back c t = (next.1, next.2) := rfl
    have hfollows := follows_output ctx (next.1.output.reverse ++ back) next.2
    change lexLine ctx _ _ = _ at ih
    rw [List.flatMap_cons, List.flatMap_cons, ← ih]
    generalize hout : (lexLine ctx (next.1.output.reverse ++ back) next.2).flatMap Token.output =
      out at *
    rw [hnext] at hends
    obtain ⟨tok, rest⟩ := next
    by_cases hcomment : tok.isComment
    · cases tok with
      | code | literal => simp [Token.isComment] at hcomment
      | comment =>
        -- The space that a block comment leaves is a token by itself.
        have hspace : nextToken ctx back ' ' out = (.code ' ', out) := by
          rw [nextToken_eq (beginsComment_of_ne (by decide))]
          simp [opensLiteral, isQuote]
        simp [Token.output, Token.residue, lexLine_cons_of_nextToken hspace]
      | lineComment | opening =>
        obtain rfl : rest = [] := hends rfl
        simp [← hout, Token.output, Token.residue]
    · have hcode : tok.isComment = false := by simpa using hcomment
      -- Any other token is read again, since what the rest has become follows it.
      obtain ⟨t', ht', hnext'⟩ := nextToken_of_follows hnext hcode hfollows (by
        rintro rfl
        simp [← hout])
      rw [Token.output_of_not_isComment hcode, ← ht', Token.residue_of_not_isComment hcode,
        lexLine_cons_of_nextToken hnext', Token.output_of_not_isComment hcode]
      rfl

/-- The tokens at the beginning of a line make up a text that is cut into them. -/
theorem lexLine_flatMap_text {ts ts' : List Token} (h : lexLine ctx back t = ts ++ ts')
    (hcode : ∀ tok ∈ ts, tok.isComment = false) :
    lexLine ctx back (ts.flatMap Token.text) = ts := by
  induction ts generalizing back t with
  | nil => simp
  | cons tok ts ih =>
    cases t with
    | nil => simp at h
    | cons c t =>
      have happend := flatMap_text_lexLine ctx ((nextToken ctx back c t).1.output.reverse ++ back)
        (nextToken ctx back c t).2
      rw [lexLine_cons, List.cons_append, List.cons.injEq] at h
      obtain ⟨rfl, h⟩ := h
      rw [h, List.flatMap_append] at happend
      -- The rest of the line begins with the other tokens, so it can be cut off behind them.
      have hnext : nextToken ctx back c t =
          ((nextToken ctx back c t).1, ts.flatMap Token.text ++ ts'.flatMap Token.text) := by
        rw [happend]
      obtain ⟨t', ht', hnext'⟩ := nextToken_of_follows hnext (hcode _ (by simp))
        (Follows.append_left _ _) fun hnil => (List.append_eq_nil_iff.1 hnil).1
      rw [List.flatMap_cons, ← ht', lexLine_cons_of_nextToken hnext',
        ih h fun tok htok => hcode tok (by simp [htok])]

end Userscript.Script
