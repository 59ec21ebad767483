import Userscript.Proofs.Script.Stripping

/-!
# Comments taken out in one pass

Comments are taken out line by line, and all that one line hands to the next is whether a block
comment is open. Here the same is done by an automaton that reads the whole text once, character
by character from left to right: it gives out at most one character for each that it reads, and
never looks further ahead than the next two. The two agree on every text.

A line ends before a line feed or at the end of the text; a carriage return right before that
point is part of the ending.

## Main definitions

* `Script.endsLine` — whether a line ends where a text begins
* `Automaton.Mode`, `Automaton.step` — what the automaton remembers, and how it reads a character
* `Automaton.scanFrom`, `Automaton.scan` — what it gives out for a text
* `Script.EndsAt` — a part of a line that reaches to its ending

## Main results

* `Automaton.step_take` — the automaton looks two characters ahead
* `Automaton.scanFrom_literal` — a literal, up to its delimiter or the end of its line
* `Automaton.scanFrom_lineComment`, `Automaton.scanFrom_comment` — what is left of a comment
* `strip_eq_scan` — taking out comments line by line is what the automaton does
-/

namespace Userscript.Script

/-- Whether a line ends where a text begins: with a line feed, with a carriage return before one,
with a carriage return that is the last character, or since nothing follows. -/
def endsLine : Text → Bool
  | [] => true
  | c :: t => c = '\n' || (c = '\r' && (t = [] || t.head? = some '\n'))

namespace Automaton

/-- What the automaton remembers of the text that it has read. -/
inductive Mode where
  /-- It is outside of literals and comments. -/
  | code
  /-- It is in a literal that the character closes. -/
  | literal (delimiter : Char)
  /-- It is behind a backslash in such a literal. -/
  | escaped (delimiter : Char)
  /-- It is behind a pattern literal, or behind flags of one. -/
  | flags
  | lineComment
  /-- It is between the two characters that open a block comment. -/
  | opening
  /-- It is in a block comment, on the line on which the comment was opened. -/
  | comment
  /-- It is in a block comment, on a further line. -/
  | longComment
  /-- It is between the two characters that close a block comment. -/
  | closing
  deriving DecidableEq

/-- How a character `c` outside of literals and comments is read before the text `t`, and what is
given out for it. The output on the current line is `back`, last character first. -/
def codeStep (ctx : Context) (back : Text) (c : Char) (t : Text) : Mode × Option Char :=
  if c = '/' ∧ t.head? = some '*' then (.opening, none)
  else if c = '/' ∧ t.head? = some '/' then (.lineComment, none)
  else if opensLiteral ctx back c then (.literal c, some c)
  else (.code, some c)

/-- How a character `c` is read before the text `t`, and what is given out for it. -/
def step (ctx : Context) (mode : Mode) (back : Text) (c : Char) (t : Text) : Mode × Option Char :=
  match mode with
  | .code => codeStep ctx back c t
  | .flags => if isFlag c then (.flags, some c) else codeStep ctx back c t
  | .literal q =>
    if endsLine (c :: t) then (.code, some c)
    else if c = '\\' ∧ endsLine t = false then (.escaped q, some c)
    else if c = q then (if q = '/' then .flags else .code, some c)
    else (.literal q, some c)
  | .escaped q => (.literal q, some c)
  | .lineComment => if endsLine (c :: t) then (.code, some c) else (.lineComment, none)
  | .opening => (.comment, none)
  | .comment =>
    if c = '*' ∧ t.head? = some '/' then (.closing, some ' ')
    else if c = '\n' then (.longComment, none)
    else (.comment, if endsLine (c :: t) then some c else none)
  | .longComment =>
    if c = '*' ∧ t.head? = some '/' then (.closing, some '\n') else (.longComment, none)
  | .closing => (.code, none)

/-- The output on the current line after one more character of output, last character first. -/
def behind (back : Text) : Option Char → Text
  | none => back
  | some c => if c = '\n' then [] else c :: back

/-- What the automaton gives out for a text, from a mode and an output on the current line on. -/
def scanFrom (ctx : Context) (mode : Mode) (back : Text) : Text → Text
  | [] => []
  | c :: t =>
    let next := step ctx mode back c t
    next.2.toList ++ scanFrom ctx next.1 (behind back next.2) t

/-- What the automaton gives out for a text. -/
def scan (ctx : Context) (t : Text) : Text := scanFrom ctx .code [] t

end Automaton

/-! ### Ends of lines -/

/-- A part of a line reaches to the ending of the line, at which `rest` begins. -/
structure EndsAt (part rest : Text) : Prop where
  ends : endsLine rest = true
  inside : ∀ s, s <:+ part → s ≠ [] → endsLine (s ++ rest) = false

variable {ctx : Context} {back part rest t : Text} {c q : Char}

theorem endsLine_take_succ (n : Nat) (t : Text) : endsLine (t.take (n + 2)) = endsLine t := by
  match t with
  | [] => rfl
  | [c] => rfl
  | c :: d :: t => simp [endsLine]

theorem EndsAt.of_suffix {s : Text} (h : EndsAt part rest) (hs : s <:+ part) : EndsAt s rest :=
  ⟨h.ends, fun _ hs' => h.inside _ (hs'.trans hs)⟩

theorem EndsAt.of_cons (h : EndsAt (c :: t) rest) : EndsAt t rest :=
  h.of_suffix (List.suffix_cons c t)

theorem EndsAt.endsLine_cons (h : EndsAt (c :: t) rest) : endsLine (c :: (t ++ rest)) = false :=
  h.inside _ List.suffix_rfl (List.cons_ne_nil c t)

theorem EndsAt.endsLine_eq (h : EndsAt t rest) : endsLine (t ++ rest) = t.isEmpty := by
  cases t with
  | nil => exact h.ends
  | cons c t => exact h.endsLine_cons

theorem EndsAt.ne_newline (h : EndsAt (c :: t) rest) : c ≠ '\n' := by
  rintro rfl
  simpa [endsLine] using h.endsLine_cons

theorem head?_eq_of_endsLine (h : endsLine rest) {d : Char} (hd : rest.head? = some d) :
    d = '\n' ∨ d = '\r' := by
  cases rest with
  | nil => simp at hd
  | cons c t =>
    obtain rfl : c = d := by simpa using hd
    simp only [endsLine, Bool.or_eq_true, Bool.and_eq_true, decide_eq_true_eq] at h
    exact h.imp_right And.left

/-- The ending of a line adds no character that could go on with what stands before it. -/
theorem EndsAt.head?_append (h : EndsAt t rest) {d : Char} (hn : d ≠ '\n') (hr : d ≠ '\r') :
    (t ++ rest).head? = some d ↔ t.head? = some d := by
  cases t with
  | nil =>
    simp only [List.nil_append, List.head?_nil, reduceCtorEq, iff_false]
    intro hd
    exact (head?_eq_of_endsLine h.ends hd).elim hn hr
  | cons c t => rfl

theorem endsLine_append_eq_false {s tail : Text} (hs : '\n' ∉ s) (hne : s ≠ [])
    (hlast : s.getLast? ≠ some '\r' ∨ tail.head? = some '\r') :
    endsLine (s ++ tail) = false := by
  match s with
  | [] => exact absurd rfl hne
  | [c] =>
    have hc : c ≠ '\n' := by simpa [eq_comm] using hs
    rcases hlast with hlast | htail
    · have hr : c ≠ '\r' := by simpa using hlast
      simp [endsLine, hc, hr]
    · obtain ⟨u, rfl⟩ := List.head?_eq_some_iff.1 htail
      simp [endsLine, hc]
  | c :: d :: s =>
    simp only [List.mem_cons, not_or] at hs
    simp [endsLine, Ne.symm hs.1, Ne.symm hs.2.1]

/-- A line without its carriage return reaches to its ending. -/
theorem endsAt_cutReturn {line tail : Text} (hline : '\n' ∉ line)
    (htail : tail = [] ∨ tail.head? = some '\n') :
    EndsAt (cutReturn line).1 ((cutReturn line).2 ++ tail) := by
  -- Within a line an ending could only begin with its last character, a carriage return.
  by_cases hreturn : line.getLast? = some '\r'
  · obtain ⟨body, rfl⟩ := List.getLast?_eq_some_iff.1 hreturn
    rw [cutReturn_concat]
    refine ⟨?_, fun s hs hne => ?_⟩
    · rcases htail with rfl | htail
      · rfl
      · simp [endsLine, htail]
    · have hs' : '\n' ∉ s := fun hmem => hline (List.mem_append_left _ (hs.mem hmem))
      exact endsLine_append_eq_false hs' hne (.inr rfl)
  · rw [cutReturn_of_ne hreturn]
    refine ⟨?_, fun s hs hne => ?_⟩
    · rcases htail with rfl | htail
      · rfl
      · obtain ⟨u, rfl⟩ := List.head?_eq_some_iff.1 htail
        rfl
    · have hs' : '\n' ∉ s := fun hmem => hline (hs.mem hmem)
      rw [getLast?_eq_of_suffix hs hne] at hreturn
      exact endsLine_append_eq_false hs' hne (.inl hreturn)

namespace Automaton

variable {mode mode' : Mode} {o : Option Char}

/-- The automaton looks two characters ahead. -/
theorem step_take (ctx : Context) (mode : Mode) (back : Text) (c : Char) (t : Text) :
    step ctx mode back c (t.take 2) = step ctx mode back c t := by
  have hhead : (t.take 2).head? = t.head? := by cases t <;> rfl
  have hends : endsLine (t.take 2) = endsLine t := endsLine_take_succ 0 t
  have hends' : endsLine (c :: t.take 2) = endsLine (c :: t) := endsLine_take_succ 1 (c :: t)
  cases mode <;> simp only [step, codeStep, hhead, hends, hends']

theorem scanFrom_nil (ctx : Context) (mode : Mode) (back : Text) :
    scanFrom ctx mode back [] = [] := rfl

theorem scanFrom_cons (h : step ctx mode back c t = (mode', o)) :
    scanFrom ctx mode back (c :: t) = o.toList ++ scanFrom ctx mode' (behind back o) t := by
  rw [scanFrom, h]

theorem behind_some (h : c ≠ '\n') (back : Text) : behind back (some c) = c :: back := by
  simp [behind, h]

/-! ### What is given out at the ending of a line -/

/-- A mode that does not go on beyond its line. -/
def Mode.isOfLine : Mode → Bool
  | code | literal _ | flags | lineComment => true
  | escaped _ | opening | comment | longComment | closing => false

theorem step_of_endsLine (hmode : mode.isOfLine) (h : endsLine (c :: t)) :
    step ctx mode back c t = (.code, some c) := by
  have hc : c = '\n' ∨ c = '\r' := head?_eq_of_endsLine h rfl
  have hcode : codeStep ctx back c t = (.code, some c) := by
    rcases hc with rfl | rfl <;> simp [codeStep, opensLiteral, isQuote]
  have hflag : isFlag c = false := by
    rcases hc with rfl | rfl <;> decide
  cases mode <;> simp_all [step, Mode.isOfLine]

/-- The ending of a line is given out as it stands, and whatever the automaton was in is over. -/
theorem scanFrom_ending (hmode : mode.isOfLine) (h : endsLine rest) :
    scanFrom ctx mode back rest = scanFrom ctx .code [] rest := by
  match rest with
  | [] => rfl
  | [c] =>
    rw [scanFrom_cons (step_of_endsLine hmode h), scanFrom_cons (step_of_endsLine rfl h)]
    rfl
  | c :: d :: t =>
    rw [scanFrom_cons (step_of_endsLine hmode h), scanFrom_cons (step_of_endsLine rfl h)]
    by_cases hc : c = '\n'
    · simp [behind, hc]
    · -- Behind a carriage return stands the line feed, and after it nothing is left of the line.
      obtain ⟨rfl, rfl⟩ : c = '\r' ∧ d = '\n' := by simpa [endsLine, hc] using h
      have hfeed (back : Text) : step ctx .code back '\n' t = (.code, some '\n') :=
        step_of_endsLine rfl rfl
      rw [scanFrom_cons (hfeed _), scanFrom_cons (hfeed _)]
      rfl

theorem scanFrom_newline (ctx : Context) (back t : Text) :
    scanFrom ctx .code back ('\n' :: t) = '\n' :: scanFrom ctx .code [] t := by
  rw [scanFrom_cons (step_of_endsLine rfl rfl)]
  rfl

/-! ### Literals -/

/-- A character that `takeLiteral` does not read together with the next one is no backslash, or
the last character of its line. -/
theorem not_escape_of_takeLiteral {t : Text} (h : ∀ d u, c = '\\' → t = d :: u → False) :
    ¬ (c = '\\' ∧ t ≠ []) := by
  rintro ⟨hc, hne⟩
  obtain ⟨d, u, rfl⟩ := List.exists_cons_of_ne_nil hne
  exact h d u hc rfl

theorem step_literal (hpart : EndsAt (c :: t) rest) :
    step ctx (.literal q) back c (t ++ rest) =
      if c = '\\' ∧ t ≠ [] then (.escaped q, some c)
      else if c = q then (if q = '/' then .flags else .code, some c)
      else (.literal q, some c) := by
  have hempty : (endsLine (t ++ rest) = false) = (t ≠ []) := by
    simp [hpart.of_cons.endsLine_eq]
  simp [step, hpart.endsLine_cons, hempty]

/-- A literal comes out as it stands, up to its delimiter or to the ending of its line. -/
theorem scanFrom_literal (hpart : EndsAt t rest) :
    scanFrom ctx (.literal q) back (t ++ rest) =
      match takeLiteral q t with
      | (body, none) => body ++ scanFrom ctx .code [] rest
      | (body, some u) =>
        body ++ scanFrom ctx (if q = '/' then .flags else .code) (body.reverse ++ back)
          (u ++ rest) := by
  fun_induction takeLiteral q t generalizing back with
  | case1 => exact scanFrom_ending rfl hpart.ends
  | case2 c t body u hlit ih =>
    -- The backslash takes a character of its line with it.
    have hescape : step ctx (.literal q) back '\\' (c :: t ++ rest) = (.escaped q, some '\\') := by
      rw [step_literal hpart, if_pos ⟨rfl, List.cons_ne_nil c t⟩]
    have hescaped : step ctx (.escaped q) ('\\' :: back) c (t ++ rest) = (.literal q, some c) := rfl
    rw [List.cons_append, scanFrom_cons hescape, behind_some (by decide), List.cons_append,
      scanFrom_cons hescaped, behind_some hpart.of_cons.ne_newline, ih hpart.of_cons.of_cons, hlit]
    cases u <;> simp
  | case3 t hescape =>
    have hclose : step ctx (.literal q) back q (t ++ rest) =
        (if q = '/' then .flags else .code, some q) := by
      rw [step_literal hpart, if_neg, if_pos rfl]
      exact not_escape_of_takeLiteral hescape
    rw [List.cons_append, scanFrom_cons hclose, behind_some hpart.ne_newline]
    rfl
  | case4 c t hescape hq body u hlit ih =>
    have hstay : step ctx (.literal q) back c (t ++ rest) = (.literal q, some c) := by
      rw [step_literal hpart, if_neg, if_neg hq]
      exact not_escape_of_takeLiteral hescape
    rw [List.cons_append, scanFrom_cons hstay, behind_some hpart.ne_newline, ih hpart.of_cons, hlit]
    cases u <;> simp

/-- Behind a pattern literal its flags come out as they stand. -/
theorem scanFrom_flags (hpart : EndsAt t rest) :
    scanFrom ctx .flags back (t ++ rest) =
      t.takeWhile isFlag ++
        scanFrom ctx .code ((t.takeWhile isFlag).reverse ++ back) (t.dropWhile isFlag ++ rest) := by
  induction t generalizing back with
  | nil =>
    rw [List.takeWhile_nil, List.dropWhile_nil, List.nil_append, scanFrom_ending rfl hpart.ends]
    exact (scanFrom_ending rfl hpart.ends).symm
  | cons c t ih =>
    by_cases hc : isFlag c
    · have hflag : step ctx .flags back c (t ++ rest) = (.flags, some c) := by
        simp [step, hc]
      rw [List.cons_append, scanFrom_cons hflag, behind_some hpart.ne_newline, ih hpart.of_cons]
      simp [hc]
    · have hcode : step ctx .flags back c (t ++ rest) = step ctx .code back c (t ++ rest) := by
        simp [step, hc]
      rw [List.cons_append, scanFrom, hcode, ← scanFrom]
      simp [hc]

/-! ### Comments -/

/-- Of a line comment nothing is given out. -/
theorem scanFrom_lineComment (hpart : EndsAt t rest) :
    scanFrom ctx .lineComment back (t ++ rest) = scanFrom ctx .code [] rest := by
  induction t generalizing back with
  | nil => exact scanFrom_ending rfl hpart.ends
  | cons c t ih =>
    have hstep : step ctx .lineComment back c (t ++ rest) = (.lineComment, none) := by
      simp [step, hpart.endsLine_cons]
    rw [List.cons_append, scanFrom_cons hstep]
    exact ih hpart.of_cons

/-- Where a block comment is closed next. -/
theorem cut_closeMark_cons (c : Char) (t : Text) :
    Text.cut closeMark (c :: t) =
      if c = '*' ∧ t.head? = some '/' then some ([], t.tail)
      else (Text.cut closeMark t).map fun (inside, u) => (c :: inside, u) := by
  rw [Text.cut_cons]
  by_cases hclose : c = '*' ∧ t.head? = some '/'
  · obtain ⟨rfl, ht⟩ := hclose
    obtain ⟨u, rfl⟩ := List.head?_eq_some_iff.1 ht
    rfl
  · have hafter : Text.after? closeMark (c :: t) = none := by
      rw [Option.eq_none_iff_forall_ne_some]
      intro u hu
      rw [Text.after?_eq_some_iff] at hu
      obtain ⟨rfl, rfl⟩ := List.cons.inj hu
      exact hclose ⟨rfl, rfl⟩
    rw [hafter, if_neg hclose]

theorem scanFrom_closing (ctx : Context) (back : Text) (h : t.head? = some '/') :
    scanFrom ctx .closing back t = scanFrom ctx .code back t.tail := by
  obtain ⟨u, rfl⟩ := List.head?_eq_some_iff.1 h
  rfl

/-- Of a comment that goes on beyond its line one line feed is left, where it is closed. -/
theorem scanFrom_longComment_append (h : rest.head? ≠ some '/') :
    scanFrom ctx .longComment back (t ++ rest) =
      match Text.cut closeMark t with
      | some (_, u) => '\n' :: scanFrom ctx .code [] (u ++ rest)
      | none => scanFrom ctx .longComment back rest := by
  induction t with
  | nil => rfl
  | cons c t ih =>
    rw [cut_closeMark_cons, List.cons_append]
    have hhead : (t ++ rest).head? = some '/' ↔ t.head? = some '/' := by
      cases t with
      | nil => simpa using h
      | cons d t => rfl
    by_cases hclose : c = '*' ∧ t.head? = some '/'
    · have hstep : step ctx .longComment back c (t ++ rest) = (.closing, some '\n') := by
        simp only [step, hhead, if_pos hclose]
      rw [scanFrom_cons hstep, if_pos hclose, scanFrom_closing _ _ (hhead.2 hclose.2)]
      obtain ⟨u, rfl⟩ := List.head?_eq_some_iff.1 hclose.2
      rfl
    · have hstep : step ctx .longComment back c (t ++ rest) = (.longComment, none) := by
        simp only [step, hhead, if_neg hclose]
      rw [scanFrom_cons hstep, if_neg hclose]
      refine (ih : scanFrom ctx .longComment back (t ++ rest) = _).trans ?_
      cases Text.cut closeMark t <;> rfl

theorem scanFrom_longComment (ctx : Context) (back t : Text) :
    scanFrom ctx .longComment back t =
      match Text.cut closeMark t with
      | some (_, u) => '\n' :: scanFrom ctx .code [] u
      | none => [] := by
  have happend := @scanFrom_longComment_append ctx back [] t (by simp)
  rw [List.append_nil, scanFrom_nil] at happend
  simpa only [List.append_nil] using happend

/-- A comment that is closed on its line leaves one space. -/
theorem scanFrom_comment_append (hpart : EndsAt t rest) :
    scanFrom ctx .comment back (t ++ rest) =
      match Text.cut closeMark t with
      | some (_, u) => ' ' :: scanFrom ctx .code (' ' :: back) (u ++ rest)
      | none => scanFrom ctx .comment back rest := by
  induction t with
  | nil => rfl
  | cons c t ih =>
    rw [cut_closeMark_cons, List.cons_append]
    have hhead := hpart.of_cons.head?_append (d := '/') (by decide) (by decide)
    -- The mark that closes the comment stands here, or further on if at all.
    by_cases hclose : c = '*' ∧ t.head? = some '/'
    · have hstep : step ctx .comment back c (t ++ rest) = (.closing, some ' ') := by
        simp only [step, hhead, if_pos hclose]
      rw [scanFrom_cons hstep, if_pos hclose, scanFrom_closing _ _ (hhead.2 hclose.2)]
      obtain ⟨u, rfl⟩ := List.head?_eq_some_iff.1 hclose.2
      rfl
    · have hstep : step ctx .comment back c (t ++ rest) = (.comment, none) := by
        simp only [step, hhead, if_neg hclose, if_neg hpart.ne_newline, hpart.endsLine_cons,
          Bool.false_eq_true, if_false]
      rw [scanFrom_cons hstep, if_neg hclose]
      refine (ih hpart.of_cons : scanFrom ctx .comment back (t ++ rest) = _).trans ?_
      cases Text.cut closeMark t <;> rfl

/-- The carriage return that the ending of a line begins with, if it does. -/
def returnOf (ending : Text) : Text := if ending.head? = some '\r' then ['\r'] else []

/-- Of the ending of the line on which a comment is opened its carriage return is given out. -/
theorem scanFrom_comment_ending (h : endsLine rest) :
    scanFrom ctx .comment back rest = returnOf rest ++ scanFrom ctx .longComment [] rest := by
  match rest with
  | [] => rfl
  | c :: t =>
    -- The ending is a line feed, or a carriage return before one or before the end of the text.
    by_cases hc : c = '\n'
    · subst hc
      have hstep : step ctx .comment back '\n' t = (.longComment, none) := rfl
      have hlong : step ctx .longComment [] '\n' t = (.longComment, none) := rfl
      rw [scanFrom_cons hstep, scanFrom_cons hlong]
      simp only [scanFrom_longComment ctx (behind _ _)]
      rfl
    · obtain ⟨rfl, ht⟩ : c = '\r' ∧ (t = [] ∨ t.head? = some '\n') := by
        simpa [endsLine, hc] using h
      have hstep : step ctx .comment back '\r' t = (.comment, some '\r') := by
        simp [step, h]
      have hlong : step ctx .longComment [] '\r' t = (.longComment, none) := rfl
      rw [scanFrom_cons hstep, scanFrom_cons hlong]
      rcases ht with rfl | ht
      · rfl
      · obtain ⟨u, rfl⟩ := List.head?_eq_some_iff.1 ht
        have hfeed (back : Text) : step ctx .comment back '\n' u = (.longComment, none) := rfl
        have hfeed' (back : Text) : step ctx .longComment back '\n' u = (.longComment, none) := rfl
        rw [scanFrom_cons (hfeed _), scanFrom_cons (hfeed' _)]
        simp only [scanFrom_longComment ctx (behind _ _)]
        rfl

/-- What is left of a block comment: one space if it is closed on its line, and otherwise the
carriage return of that line, and one line feed where it is closed, if it ever is. -/
theorem scanFrom_comment (hpart : EndsAt part rest) :
    scanFrom ctx .comment back (part ++ rest) =
      match Text.cut closeMark part with
      | some (_, u) => ' ' :: scanFrom ctx .code (' ' :: back) (u ++ rest)
      | none =>
        returnOf rest ++
          match Text.cut closeMark rest with
          | some (_, u) => '\n' :: scanFrom ctx .code [] u
          | none => [] := by
  rw [scanFrom_comment_append hpart, scanFrom_comment_ending hpart.ends, scanFrom_longComment]

/-! ### Tokens and lines -/

/-- What the automaton is in behind a token. -/
def modeBehind : Token → Mode
  | .opening _ => .comment
  | _ => .code

theorem scanFrom_modeBehind (tok : Token) (h : endsLine rest) :
    scanFrom ctx (modeBehind tok) back rest = scanFrom ctx (modeBehind tok) [] rest := by
  cases tok with
  | opening => exact (scanFrom_comment_ending h).trans (scanFrom_comment_ending h).symm
  | _ => exact scanFrom_ending rfl h

/-- Behind its delimiter a literal is over, up to the flags that it may have. -/
theorem scanFrom_isFlagOf (hq : isQuote q ∨ q = '/') (hpart : EndsAt t rest) :
    scanFrom ctx (if q = '/' then .flags else .code) back (t ++ rest) =
      t.takeWhile (isFlagOf q) ++
        scanFrom ctx .code ((t.takeWhile (isFlagOf q)).reverse ++ back)
          (t.dropWhile (isFlagOf q) ++ rest) := by
  rcases hq with hquote | rfl
  · rw [if_neg (ne_slash_of_isQuote hquote), isFlagOf_of_isQuote hquote]
    cases t <;> simp
  · rw [if_pos rfl, isFlagOf_slash]
    exact scanFrom_flags hpart

/-- What is given out for a token, and for what comes behind it on its line and after the line. -/
def scanToken (ctx : Context) (back : Text) (next : Token × Text) (rest : Text) : Text :=
  next.1.output ++ scanFrom ctx (modeBehind next.1) (next.1.output.reverse ++ back) (next.2 ++ rest)

/-- A comment that a slash and a star begin is closed on its line or left open at its end. -/
theorem scanFrom_code_block (hpart : EndsAt ('/' :: '*' :: t) rest) :
    scanFrom ctx .code back ('/' :: '*' :: t ++ rest) =
      scanToken ctx back (nextToken ctx back '/' ('*' :: t)) rest := by
  have hopen : step ctx .code back '/' ('*' :: t ++ rest) = (.opening, none) := rfl
  have hopening : step ctx .opening back '*' (t ++ rest) = (.comment, none) := rfl
  rw [List.cons_append, scanFrom_cons hopen, List.cons_append]
  refine (scanFrom_cons hopening).trans ?_
  refine (scanFrom_comment_append hpart.of_cons.of_cons).trans ?_
  cases hcut : Text.cut closeMark t with
  | none =>
    have htoken : nextToken ctx back '/' ('*' :: t) = (.opening ('/' :: '*' :: t), []) := by
      simp [nextToken, not_isQuote_slash, hcut]
    rw [htoken]
    rfl
  | some found =>
    have htoken : nextToken ctx back '/' ('*' :: t) =
        (.comment (openMark ++ found.1 ++ closeMark), found.2) := by
      simp [nextToken, not_isQuote_slash, hcut]
    rw [htoken]
    rfl

theorem scanFrom_code_line (hpart : EndsAt ('/' :: '/' :: t) rest) :
    scanFrom ctx .code back ('/' :: '/' :: t ++ rest) =
      scanToken ctx back (nextToken ctx back '/' ('/' :: t)) rest := by
  have hopen : step ctx .code back '/' ('/' :: t ++ rest) = (.lineComment, none) := rfl
  have htoken : nextToken ctx back '/' ('/' :: t) = (.lineComment ('/' :: '/' :: t), []) := rfl
  rw [List.cons_append, scanFrom_cons hopen, htoken]
  exact (scanFrom_lineComment hpart.of_cons).trans (scanFrom_ending rfl hpart.ends).symm

/-- Where no comment begins, the ending of the line does not make one begin. -/
theorem codeStep_of_not_beginsComment (hpart : EndsAt (c :: t) rest) (hbegins : beginsComment c t = false) :
    codeStep ctx back c (t ++ rest) =
      if opensLiteral ctx back c then (.literal c, some c) else (.code, some c) := by
  have hstar := hpart.of_cons.head?_append (d := '*') (by decide) (by decide)
  have hslash := hpart.of_cons.head?_append (d := '/') (by decide) (by decide)
  simp only [beginsComment, Bool.and_eq_false_iff, Bool.or_eq_false_iff, decide_eq_false_iff_not]
    at hbegins
  rw [codeStep, if_neg, if_neg]
  · exact fun h => hbegins.elim (absurd h.1) fun hb => hb.2 (hslash.1 h.2)
  · exact fun h => hbegins.elim (absurd h.1) fun hb => hb.1 (hstar.1 h.2)

/-- A literal with its flags, closed on its line or broken off at its end. -/
theorem scanFrom_readLiteral (hpart : EndsAt t rest) (hopens : opensLiteral ctx back c) :
    c :: scanFrom ctx (.literal c) (c :: back) (t ++ rest) = scanToken ctx back (readLiteral c t) rest := by
  rw [scanFrom_literal hpart, readLiteral]
  rcases hlit : takeLiteral c t with ⟨body, none | u⟩
  · have hover : scanFrom ctx .code (body.reverse ++ c :: back) rest = scanFrom ctx .code [] rest :=
      scanFrom_ending rfl hpart.ends
    simpa [scanToken, Token.output, modeBehind] using hover.symm
  · have hu : u <:+ t := ⟨body, takeLiteral_append_of_some hlit⟩
    dsimp only
    rw [scanFrom_isFlagOf (isQuote_or_eq_slash_of_opensLiteral hopens) (hpart.of_suffix hu)]
    simp [scanToken, Token.output, modeBehind]

/-- The automaton gives out what is left of the next token, and goes on behind it. -/
theorem scanFrom_nextToken (hpart : EndsAt (c :: t) rest) :
    scanFrom ctx .code back (c :: t ++ rest) = scanToken ctx back (nextToken ctx back c t) rest := by
  -- A comment, a literal or a character of code: the automaton asks what the tokens are cut by.
  cases hbegins : beginsComment c t with
  | true =>
    simp only [beginsComment, Bool.and_eq_true, Bool.or_eq_true, decide_eq_true_eq] at hbegins
    obtain ⟨rfl, hblock | hline⟩ := hbegins
    · obtain ⟨u, rfl⟩ := List.head?_eq_some_iff.1 hblock
      exact scanFrom_code_block hpart
    · obtain ⟨u, rfl⟩ := List.head?_eq_some_iff.1 hline
      exact scanFrom_code_line hpart
  | false =>
    have hcode : codeStep ctx back c (t ++ rest) = _ := codeStep_of_not_beginsComment hpart hbegins
    rw [nextToken_eq hbegins, List.cons_append]
    by_cases hopens : opensLiteral ctx back c
    · have hstep : step ctx .code back c (t ++ rest) = (.literal c, some c) := by
        rw [step, hcode, if_pos hopens]
      rw [if_pos hopens, scanFrom_cons hstep, behind_some hpart.ne_newline]
      exact scanFrom_readLiteral hpart.of_cons hopens
    · have hstep : step ctx .code back c (t ++ rest) = (.code, some c) := by
        rw [step, hcode, if_neg hopens]
      rw [if_neg hopens, scanFrom_cons hstep, behind_some hpart.ne_newline]
      rfl

/-- What the automaton is in at the ending of a line, by whether a block comment is open there. -/
def modeAtEnding (isOpen : Bool) : Mode := if isOpen then .comment else .code

/-- The automaton gives out what is left of the tokens of a line. -/
theorem scanFrom_lexLine (hpart : EndsAt part rest) (ending : Text) :
    scanFrom ctx .code back (part ++ rest) =
      (lexLine ctx back part).flatMap Token.output ++
        scanFrom ctx (modeAtEnding (Row.isOpen ⟨lexLine ctx back part, ending⟩)) [] rest := by
  fun_induction lexLine ctx back part with
  | case1 => exact scanFrom_ending rfl hpart.ends
  | case2 back c t next ih =>
    have hnext : next.2 <:+ c :: t := ⟨_, nextToken_append ctx back c t⟩
    rw [scanFrom_nextToken hpart, scanToken, List.flatMap_cons, List.append_assoc]
    congr 1
    by_cases hlast : next.2 = []
    · -- The token is the last one of its line, so it decides about the ending.
      have hopen : modeBehind next.1 = modeAtEnding (Row.isOpen ⟨[next.1], ending⟩) := by
        cases next.1 <;> rfl
      rw [hlast, lexLine_nil, List.flatMap_nil, ← hopen]
      exact scanFrom_modeBehind next.1 hpart.ends
    · have hcode : modeBehind next.1 = .code := by
        have hends : next.1.endsLine = false := by
          rw [Bool.eq_false_iff]
          exact fun h => hlast (nextToken_snd_of_endsLine ctx back c t h)
        cases htok : next.1 <;> simp_all [Token.endsLine, modeBehind]
      have hopen (tok : Token) (ts : List Token) (hts : ts ≠ []) :
          Row.isOpen ⟨tok :: ts, ending⟩ = Row.isOpen ⟨ts, ending⟩ := by
        rw [Row.isOpen, Row.isOpen, List.getLast?_cons_of_ne_nil hts]
      have hne : lexLine ctx (next.1.output.reverse ++ back) next.2 ≠ [] := by
        obtain ⟨d, u, hu⟩ := List.exists_cons_of_ne_nil hlast
        rw [hu, lexLine_cons]
        exact List.cons_ne_nil _ _
      rw [hcode, hopen _ _ hne]
      exact ih (hpart.of_suffix hnext)

/-- The lines of a text, each behind its line feed. -/
theorem newline_unlines {ls : List Text} (h : ls ≠ []) :
    '\n' :: Text.unlines ls = ls.flatMap ('\n' :: ·) := by
  induction ls with
  | nil => exact absurd rfl h
  | cons l ls ih =>
    by_cases hls : ls = []
    · simp [hls]
    · rw [Text.unlines_cons hls, ih hls]
      simp

theorem head?_flatMap_newline (ls : List Text) :
    ls.flatMap ('\n' :: ·) = [] ∨ (ls.flatMap ('\n' :: ·)).head? = some '\n' := by
  cases ls with
  | nil => exact .inl rfl
  | cons l ls => exact .inr rfl

/-- At the ending of a line its carriage return is given out, whatever the automaton is in. -/
theorem scanFrom_return (isOpen : Bool) (line : Text) {tail : Text}
    (htail : tail = [] ∨ tail.head? = some '\n') :
    scanFrom ctx (modeAtEnding isOpen) [] ((cutReturn line).2 ++ tail) =
      (cutReturn line).2 ++ scanFrom ctx (modeAtEnding isOpen) [] tail := by
  -- The carriage return ends its line, so the automaton is in the same mode before and behind it.
  have hends : endsLine tail := by
    rcases htail with rfl | htail
    · rfl
    · obtain ⟨u, rfl⟩ := List.head?_eq_some_iff.1 htail
      rfl
  have hreturn : endsLine ('\r' :: tail) := by
    rcases htail with rfl | htail
    · rfl
    · simp [endsLine, htail]
  rw [cutReturn]
  split
  · cases isOpen with
    | false =>
      have hstep : step ctx .code [] '\r' tail = (.code, some '\r') := step_of_endsLine rfl hreturn
      have hover : scanFrom ctx .code ['\r'] tail = scanFrom ctx .code [] tail :=
        scanFrom_ending rfl hends
      exact (scanFrom_cons hstep).trans (congrArg _ hover)
    | true =>
      have hstep : step ctx .comment [] '\r' tail = (.comment, some '\r') := by
        simp [step, hreturn]
      have hover : scanFrom ctx .comment ['\r'] tail = scanFrom ctx .comment [] tail :=
        scanFrom_modeBehind (.opening []) hends
      exact (scanFrom_cons hstep).trans (congrArg _ hover)
  · rfl

/-- Within a comment the ending of a further line is given out no more than the line. -/
theorem scanFrom_longComment_return (line : Text) {tail : Text}
    (htail : tail = [] ∨ tail.head? = some '\n') :
    scanFrom ctx .longComment [] ((cutReturn line).2 ++ tail) = scanFrom ctx .comment [] tail := by
  have hends : endsLine ((cutReturn line).2 ++ tail) := by
    rw [cutReturn]
    rcases htail with rfl | htail
    · split <;> rfl
    · obtain ⟨u, rfl⟩ := List.head?_eq_some_iff.1 htail
      split <;> rfl
  have hreturn : returnOf ((cutReturn line).2 ++ tail) = (cutReturn line).2 := by
    rw [cutReturn]
    rcases htail with rfl | htail
    · split <;> rfl
    · obtain ⟨u, rfl⟩ := List.head?_eq_some_iff.1 htail
      split <;> rfl
  -- On the line on which the comment is opened the carriage return comes out; take it away again.
  have hopened := @scanFrom_return ctx true line tail htail
  rw [modeAtEnding, if_pos rfl, scanFrom_comment_ending hends, hreturn] at hopened
  exact List.append_cancel_left hopened

/-- The automaton gives out what is kept of a line, and hands on whether a comment is open. -/
theorem scanFrom_row {line code tail : Text}
    (hcode : EndsAt code ((cutReturn line).2 ++ tail))
    (htail : tail = [] ∨ tail.head? = some '\n') :
    let row : Row := ⟨lexLine ctx [] code, (cutReturn line).2⟩
    scanFrom ctx .code [] (code ++ ((cutReturn line).2 ++ tail)) =
      row.output ++ scanFrom ctx (modeAtEnding row.isOpen) [] tail := by
  intro row
  rw [scanFrom_lexLine hcode (cutReturn line).2, scanFrom_return _ _ htail]
  simp [row, Row.output]

theorem scanFrom_comment_newline (ctx : Context) (t : Text) :
    scanFrom ctx .comment [] ('\n' :: t) = scanFrom ctx .longComment [] t := rfl

/-- Line by line: what the automaton gives out for further lines is what is kept of them, whether
or not a comment is open at the first one. -/
theorem scanFrom_lines (ctx : Context) (inComment : Bool) {ls : List Text}
    (hls : ∀ line ∈ ls, '\n' ∉ line) :
    scanFrom ctx (modeAtEnding inComment) [] (ls.flatMap ('\n' :: ·)) =
      (rows ctx inComment ls).flatMap fun row => '\n' :: row.output := by
  induction ls generalizing inComment with
  | nil => rfl
  | cons line ls ih =>
    have htail := head?_flatMap_newline ls
    have hbody := endsAt_cutReturn (hls line (by simp)) htail
    have ih (inComment : Bool) := ih inComment fun l hl => hls l (by simp [hl])
    rw [List.flatMap_cons, List.cons_append, rows]
    nth_rewrite 1 [← cutReturn_append line]
    rw [List.append_assoc]
    cases inComment with
    | false =>
      simp only [modeAtEnding, outside?, Bool.false_eq_true, if_false]
      rw [scanFrom_newline, scanFrom_row hbody htail, ih, List.flatMap_cons]
      rfl
    | true =>
      have hslash : ((cutReturn line).2 ++ ls.flatMap ('\n' :: ·)).head? ≠ some '/' := by
        intro h
        exact (head?_eq_of_endsLine hbody.ends h).elim (by decide) (by decide)
      simp only [modeAtEnding, outside?, if_true]
      rw [scanFrom_comment_newline, scanFrom_longComment_append hslash]
      cases hcut : Text.cut closeMark (cutReturn line).1 with
      | none =>
        -- The line lies within the comment, and none of it is left.
        exact (scanFrom_longComment_return line htail).trans (ih true)
      | some found =>
        obtain ⟨inside, code⟩ := found
        have hcode : code <:+ (cutReturn line).1 :=
          ⟨inside ++ closeMark, (Text.eq_append_of_cut hcut).symm⟩
        simp only [Option.map_some]
        rw [scanFrom_row (hbody.of_suffix hcode) htail, ih, List.flatMap_cons]
        rfl

end Automaton

/-- Taking out comments line by line is what an automaton does that reads the whole text once. -/
theorem strip_eq_scan (ctx : Context) (t : Text) : strip ctx t = Automaton.scan ctx t := by
  have hne := Text.lines_ne_nil t
  have hrows : rows ctx false (Text.lines t) ≠ [] := rows_ne_nil hne
  have hlines := Automaton.scanFrom_lines ctx false fun line (hline : line ∈ Text.lines t) =>
    Text.not_mem_of_mem_lines hline
  rw [← Automaton.newline_unlines hne, Text.unlines_lines, Automaton.modeAtEnding,
    if_neg Bool.false_ne_true, Automaton.scanFrom_newline] at hlines
  have hkept : '\n' :: strip ctx t =
      (rows ctx false (Text.lines t)).flatMap fun row => '\n' :: row.output := by
    rw [strip, Automaton.newline_unlines (by simpa using hrows), List.flatMap_map]
  exact (List.cons.inj (hkept.trans hlines.symm)).2

example : Automaton.scan {} "a // b\r\nc /* d\r\n '*/ /x/ = /[*/ /**/".toList =
    "a \r\nc \r\n /x/ = /[*/  ".toList := by
  decide

end Userscript.Script
