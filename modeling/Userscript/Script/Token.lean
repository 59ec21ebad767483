import Userscript.Text.Search

/-!
# Tokens of a script line

A script is cut into tokens line by line and without a parser: single characters of
code, string and pattern literals, and comments. A slash opens a pattern literal if the
output so far on its line ends in an operator or in one of a few keywords; otherwise it
is a division. A literal ends with its line at the latest.

## Main definitions

* `Script.Context` — after what a slash opens a pattern literal
* `Script.Token` — the tokens of a line
* `Script.takeLiteral` — the rest of a literal behind its opening delimiter
* `Script.nextToken` — the token at the beginning of a line
* `Script.lexLine` — the tokens of a line

## Main results

* `takeLiteral_append` — a literal and what follows it make up the line
* `flatMap_text_lexLine` — the tokens of a line make up the line
-/

namespace Userscript.Script

/-- After what a slash opens a pattern literal. -/
structure Context where
  /-- The characters after which it does. -/
  operators : Text := "=([\x7b:;!&|?+-*%^~,".toList
  /-- The words after which it does. -/
  keywords : List Text :=
    ["return", "match", "test", "replace", "split", "exec"].map String.toList
  /-- How many characters of the output are looked at. Zero stands for all of them, and a
  negative number for all but that many at the beginning. -/
  window : Int := 10

/-- The part of a line's output that decides about a slash: without the blanks it ends
with, and no more of it than the window shows. The output is given, and the part is
returned, last character first. -/
def Context.tail (ctx : Context) (back : Text) : Text :=
  let back := back.dropWhile Text.isBlank
  if 0 < ctx.window then back.take ctx.window.toNat
  else back.take (back.length - ctx.window.natAbs)

/-- Whether a slash opens a pattern literal behind a line's output, which is given last
character first. -/
def Context.allowsPattern (ctx : Context) (back : Text) : Bool :=
  match ctx.tail back with
  | [] => false
  | c :: rest =>
    ctx.operators.contains c || ctx.keywords.any fun word => word.reverse.isPrefixOf (c :: rest)

/-- Whether a character opens and closes a string. -/
def isQuote (c : Char) : Bool := c = '\x27' || c = '"' || c = '\x60'

/-- Whether a character is a flag behind a pattern literal. -/
def isFlag (c : Char) : Bool := "gimsuyv".toList.contains c

/-- The rest of a literal behind its opening delimiter, up to and with the same delimiter,
and what follows it on the line; nothing follows a literal that is not closed. A
backslash takes the next character with it. -/
def takeLiteral (delimiter : Char) : Text → Text × Option Text
  | [] => ([], none)
  | '\\' :: c :: t =>
    let (body, rest) := takeLiteral delimiter t
    ('\\' :: c :: body, rest)
  | c :: t =>
    if c = delimiter then ([c], some t)
    else
      let (body, rest) := takeLiteral delimiter t
      (c :: body, rest)

/-- A token of a line. -/
inductive Token where
  /-- A character of code. -/
  | code (c : Char)
  /-- A string or pattern literal with its delimiters and flags, up to the end of the line
  if it is not closed. -/
  | literal (text : Text) (closed : Bool)
  /-- A block comment that ends on its line. -/
  | comment (text : Text)
  /-- A line comment, up to the end of the line. -/
  | lineComment (text : Text)
  /-- The beginning of a block comment that does not end on its line. -/
  | opening (text : Text)
  deriving DecidableEq

/-- The characters of a line that make up a token. -/
def Token.text : Token → Text
  | code c => [c]
  | literal t _ | comment t | lineComment t | opening t => t

/-- What is left of a token without comments: a block comment leaves one space. -/
def Token.output : Token → Text
  | code c => [c]
  | literal t _ => t
  | comment _ => [' ']
  | lineComment _ | opening _ => []

/-- Whether a token is a comment or a part of one. -/
def Token.isComment : Token → Bool
  | comment _ | lineComment _ | opening _ => true
  | code _ | literal .. => false

/-- The delimiters of a block comment. -/
def openMark : Text := ['/', '*']

/-- The end of a block comment. -/
def closeMark : Text := ['*', '/']

/-- A literal and what follows it make up the line behind the opening delimiter. -/
theorem takeLiteral_append (q : Char) (t : Text) :
    (takeLiteral q t).1 ++ (takeLiteral q t).2.getD [] = t := by
  fun_induction takeLiteral q t <;> simp_all

theorem takeLiteral_append_of_some {q : Char} {t body rest : Text}
    (h : takeLiteral q t = (body, some rest)) : body ++ rest = t := by
  simpa [h] using takeLiteral_append q t

theorem takeLiteral_eq_of_none {q : Char} {t body : Text} (h : takeLiteral q t = (body, none)) :
    body = t := by
  simpa [h] using takeLiteral_append q t

/-- The token at the beginning of the rest `c :: t` of a line, and what follows it. The
output of the part of the line before it is `back`, last character first. -/
def nextToken (ctx : Context) (back : Text) (c : Char) (t : Text) : Token × Text :=
  if isQuote c then
    match takeLiteral c t with
    | (body, none) => (.literal (c :: body) false, [])
    | (body, some rest) => (.literal (c :: body) true, rest)
  else if c = '/' then
    match t with
    | '*' :: t' =>
      match Text.cut closeMark t' with
      | none => (.opening (c :: t), [])
      | some (inside, rest) => (.comment (openMark ++ inside ++ closeMark), rest)
    | '/' :: _ => (.lineComment (c :: t), [])
    | _ =>
      if ctx.allowsPattern back then
        match takeLiteral c t with
        | (body, none) => (.literal (c :: body) false, [])
        | (body, some rest) =>
          (.literal (c :: body ++ rest.takeWhile isFlag) true, rest.dropWhile isFlag)
      else (.code c, t)
  else (.code c, t)

/-- A token and what follows it make up the rest of the line. -/
theorem nextToken_append (ctx : Context) (back : Text) (c : Char) (t : Text) :
    (nextToken ctx back c t).1.text ++ (nextToken ctx back c t).2 = c :: t := by
  unfold nextToken
  split
  · split
    · next h => simp [Token.text, takeLiteral_eq_of_none h]
    · next h => simp [Token.text, takeLiteral_append_of_some h]
  · split
    · next hc =>
      subst hc
      split
      · split
        · simp [Token.text]
        · next h => simp [Token.text, openMark, Text.eq_append_of_cut h]
      · simp [Token.text]
      · split
        · split
          · next h => simp [Token.text, takeLiteral_eq_of_none h]
          · next h => simp [Token.text, takeLiteral_append_of_some h]
        · simp [Token.text]
    · simp [Token.text]

/-- No token is empty. -/
theorem text_nextToken_ne_nil (ctx : Context) (back : Text) (c : Char) (t : Text) :
    (nextToken ctx back c t).1.text ≠ [] := by
  unfold nextToken
  repeat' split
  all_goals simp [Token.text, openMark]

theorem length_nextToken_lt (ctx : Context) (back : Text) (c : Char) (t : Text) :
    (nextToken ctx back c t).2.length < (c :: t).length := by
  have happend := congrArg List.length (nextToken_append ctx back c t)
  have hne := List.length_pos_iff.2 (text_nextToken_ne_nil ctx back c t)
  simp only [List.length_append] at happend
  omega

/-- The tokens of the rest of a line, behind the output `back` of the part before it,
which is given last character first. -/
def lexLine (ctx : Context) (back line : Text) : List Token :=
  match line with
  | [] => []
  | c :: t =>
    let next := nextToken ctx back c t
    next.1 :: lexLine ctx (next.1.output.reverse ++ back) next.2
termination_by line.length
decreasing_by exact length_nextToken_lt ctx back c t

/-- The tokens of a line make up the line. -/
theorem flatMap_text_lexLine (ctx : Context) (back line : Text) :
    (lexLine ctx back line).flatMap Token.text = line := by
  fun_induction lexLine ctx back line with
  | case1 => rfl
  | case2 back c t next ih => rw [List.flatMap_cons, ih, nextToken_append]

end Userscript.Script
