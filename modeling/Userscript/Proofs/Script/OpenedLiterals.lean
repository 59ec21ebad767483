import Userscript.Proofs.Script.Respacing

/-!
# Literals that are opened

The literals of a script are looked for twice. When comments are taken out, what stands before a
slash decides whether it opens a pattern; when the spacing is changed, the form of a literal does.
Where the first way opens a literal on a line the second one finds it if it is closed there, with
the same characters, and finds nothing if it is not.

## Main definitions

* `Script.OpensAt` — where a literal is opened on a line
* `Script.IsClosedLiteral` — a literal up to its closing delimiter and with its flags

## Main results

* `readLiteral_eq_iff` — a literal is read as closed where the line goes on with one
* `literalAt?_of_opensAt` — both ways agree where a literal is opened
-/

namespace Userscript.Script

variable {ctx : Context} {back line text l t rest : Text} {closed : Bool} {c q : Char} {i : Nat}

/-- At an index of a line a literal is opened with this text, which is that up to the end of the
line if the literal is not closed. -/
def OpensAt (ctx : Context) (line : Text) (i : Nat) (text : Text) (closed : Bool) : Prop :=
  ∃ before after, lexLine ctx [] line = before ++ .literal text closed :: after ∧
    (before.flatMap Token.text).length = i

/-- A literal before the rest of its line: its opening delimiter, what closes it, and all flags
that stand there. -/
def IsClosedLiteral (l rest : Text) : Prop :=
  ∃ q body flags, l = q :: body ++ flags ∧ (isQuote q ∨ q = '/') ∧ Closes q body ∧
    (∀ d ∈ flags, isFlagOf q d) ∧ ∀ d, rest.head? = some d → isFlagOf q d = false

/-- What opens a literal and begins no comment opens one by its form. -/
theorem opensByForm_of_opensLiteral (hopens : opensLiteral ctx back c)
    (hcomment : beginsComment c t = false) : opensByForm c t := by
  rcases isQuote_or_eq_slash_of_opensLiteral hopens with hquote | rfl
  · simp [opensByForm, hquote]
  · simp only [beginsComment, decide_true, Bool.true_and, Bool.or_eq_false_iff,
      decide_eq_false_iff_not] at hcomment
    simp [opensByForm, hcomment.2]

/-- A closed literal is read where the line goes on with one. -/
theorem readLiteral_eq_iff (hq : isQuote q ∨ q = '/') :
    readLiteral q t = (.literal l true, rest) ↔ q :: t = l ++ rest ∧ IsClosedLiteral l rest := by
  have hesc := ne_escape_of_delimiter hq
  constructor
  · intro h
    rw [readLiteral] at h
    split at h
    · cases h
    · next body after hbody =>
      cases h
      obtain ⟨hcloses, rfl⟩ := (takeLiteral_eq_some_iff hesc).1 hbody
      refine ⟨by simp, q, body, after.takeWhile (isFlagOf q), rfl, hq, hcloses,
        fun d hd => List.mem_takeWhile_imp hd, fun d hd => ?_⟩
      have hdrop := List.head?_dropWhile_not (isFlagOf q) after
      rw [hd] at hdrop
      simpa using hdrop
  · rintro ⟨heq, q', body, flags, rfl, -, hcloses, hflags, hrest⟩
    obtain ⟨rfl, rfl⟩ : q = q' ∧ t = body ++ (flags ++ rest) := by simpa using heq
    obtain ⟨htake, hdrop⟩ := takeWhile_append_of_head hflags hrest
    rw [readLiteral, hcloses.takeLiteral_append hesc]
    dsimp only
    rw [htake, hdrop]

/-- Where a literal is opened, one is found by its form exactly if the literal is closed on its line,
and then it is the same one. -/
theorem literalAt?_of_opensAt (hline : '\n' ∉ line) (h : OpensAt ctx line i text closed) :
    ((literalAt? (line.drop i)).isSome ↔ closed) ∧
      (closed ↔ ∃ l rest, line.drop i = l ++ rest ∧ IsClosedLiteral l rest) ∧
      ∀ l rest, literalAt? (line.drop i) = some (l, rest) →
        l = text ∧ rest = line.drop (i + text.length) ∧ IsClosedLiteral l rest := by
  obtain ⟨before, after, hlex, rfl⟩ := h
  obtain ⟨back, c, t, behind, hsplit, hnext, -⟩ := exists_nextToken_of_lexLine hlex
  obtain ⟨hcomment, hopens, hread⟩ := of_nextToken_eq_literal hnext
  have hq := isQuote_or_eq_slash_of_opensLiteral hopens
  have hdrop : line.drop (before.flatMap Token.text).length = c :: t := by
    rw [hsplit, List.drop_left]
  have happend : c :: t = text ++ behind := by
    rw [← nextToken_append ctx back c t, hnext]
    rfl
  have hbehind : line.drop ((before.flatMap Token.text).length + text.length) = behind := by
    rw [← List.drop_drop, hdrop, happend, List.drop_left]
  have hliteral : literalAt? (c :: t) = if closed then some (text, behind) else none := by
    have hline : '\n' ∉ t := fun hmem => hline (by rw [hsplit]; simp [hmem])
    rw [literalAt?_cons hline, if_pos (opensByForm_of_opensLiteral hopens hcomment), hread]
    cases closed <;> rfl
  rw [hdrop, hbehind, hliteral]
  cases closed with
  | true =>
    obtain ⟨heq, hclosed⟩ := (readLiteral_eq_iff hq).1 hread
    refine ⟨by simp, ⟨fun _ => ⟨_, _, heq, hclosed⟩, fun _ => rfl⟩, fun l rest hsome => ?_⟩
    cases hsome
    exact ⟨rfl, rfl, hclosed⟩
  | false =>
    -- A closed literal with which the line went on would have been read as one.
    refine ⟨by simp, ⟨nofun, ?_⟩, nofun⟩
    rintro ⟨l, rest, hl⟩
    rw [(readLiteral_eq_iff hq).2 hl] at hread
    cases hread

/-- A pattern with an escaped slash and flags, and behind a division and a string with an escaped
quote a string that is not closed. -/
theorem literalAt?_of_opensAt_escaped :
    let line := "a = /x\\/[y]/gi / 'b\\'' + \"open".toList
    '\n' ∉ line ∧ OpensAt {} line 4 "/x\\/[y]/gi".toList true ∧ (literalAt? (line.drop 4)).isSome ∧
      OpensAt {} line 25 "\"open".toList false ∧ ¬ (literalAt? (line.drop 25)).isSome := by
  intro line
  have hline : '\n' ∉ line := by decide
  have hpattern : OpensAt {} line 4 "/x\\/[y]/gi".toList true :=
    ⟨(lexLine {} [] line).take 4, (lexLine {} [] line).drop 5, by decide +kernel, by decide +kernel⟩
  have hopen : OpensAt {} line 25 "\"open".toList false :=
    ⟨(lexLine {} [] line).take 12, (lexLine {} [] line).drop 13, by decide +kernel, by decide +kernel⟩
  refine ⟨hline, hpattern, (literalAt?_of_opensAt hline hpattern).1.2 rfl, hopen, fun hsome => ?_⟩
  exact Bool.false_ne_true ((literalAt?_of_opensAt hline hopen).1.1 hsome)

end Userscript.Script
