import Userscript.Proofs.Script.Lexing

/-!
# Scripts without comments stay as they are

A script whose comments are taken out is cut into the same literals as before, and into no
comment: taking out its comments once more changes nothing.

## Main definitions

* `Script.literalsOf`, `Script.closedOf` — the literals among tokens, and the closed ones
* `Script.IsPlain` — a line holds no comment

## Main results

* `strip_eq_self`, `tokens_of_plain` — a script whose lines hold no comment
* `tokens_strip` — the tokens of a script without its comments
-/

namespace Userscript.Script

variable {ctx : Context} {back t : Text} {tok : Token}

/-- The text of a literal, and whether it is closed. -/
def Token.literal? : Token → Option (Text × Bool)
  | literal text closed => some (text, closed)
  | _ => none

/-- The literals among tokens, in order, each with whether it is closed. -/
def literalsOf (ts : List Token) : List (Text × Bool) := ts.filterMap Token.literal?

/-- The texts of the closed literals among tokens, in order. -/
def closedOf (ts : List Token) : List Text := ((literalsOf ts).filter (·.2)).map (·.1)

/-- A line holds no comment. -/
def IsPlain (ctx : Context) (line : Text) : Prop :=
  ∀ tok ∈ lexLine ctx [] (cutReturn line).1, tok.isComment = false

theorem literalsOf_append (ts ts' : List Token) :
    literalsOf (ts ++ ts') = literalsOf ts ++ literalsOf ts' :=
  List.filterMap_append

theorem literalsOf_residue (tok : Token) : literalsOf tok.residue = literalsOf [tok] := by
  cases tok <;> rfl

theorem literalsOf_flatMap_residue (ts : List Token) :
    literalsOf (ts.flatMap Token.residue) = literalsOf ts := by
  induction ts with
  | nil => rfl
  | cons tok ts ih =>
    rw [List.flatMap_cons, literalsOf_append, ih, literalsOf_residue, ← literalsOf_append]
    rfl

/-! ### Lines without comments -/

/-- The tokens of a line that holds no comment are the row that is kept of it. -/
def Row.ofLine (ctx : Context) (line : Text) : Row :=
  ⟨lexLine ctx [] (cutReturn line).1, (cutReturn line).2⟩

theorem Row.isOpen_ofLine {line : Text} (h : IsPlain ctx line) :
    (Row.ofLine ctx line).isOpen = false := by
  rw [isOpen, ofLine]
  dsimp only
  split
  · next hlast => simpa [Token.isComment] using h _ (List.mem_of_getLast? hlast)
  · rfl

theorem flatMap_output_eq_flatMap_text {ts : List Token} (h : ∀ tok ∈ ts, tok.isComment = false) :
    ts.flatMap Token.output = ts.flatMap Token.text :=
  List.flatMap_congr fun tok htok => Token.output_of_not_isComment (h tok htok)

theorem Row.output_ofLine {line : Text} (h : IsPlain ctx line) :
    (Row.ofLine ctx line).output = line := by
  rw [output, ofLine, flatMap_output_eq_flatMap_text h, flatMap_text_lexLine, cutReturn_append]

theorem rows_of_plain {ls : List Text} (h : ∀ line ∈ ls, IsPlain ctx line) :
    rows ctx false ls = ls.map (Row.ofLine ctx) := by
  induction ls with
  | nil => rfl
  | cons line ls ih =>
    have hopen := Row.isOpen_ofLine (h line (by simp))
    rw [rows]
    simp only [outside?, Bool.false_eq_true, if_false]
    rw [List.map_cons, ← ih fun l hl => h l (by simp [hl])]
    simp only [Row.ofLine] at hopen ⊢
    rw [hopen]

theorem tokens_of_plain (h : ∀ line ∈ Text.lines t, IsPlain ctx line) :
    tokens ctx t = (Text.lines t).flatMap fun line => lexLine ctx [] (cutReturn line).1 := by
  rw [tokens, rows_of_plain h, List.flatMap_map]
  rfl

/-- A script whose lines hold no comment stays as it is. -/
theorem strip_eq_self (h : ∀ line ∈ Text.lines t, IsPlain ctx line) : strip ctx t = t := by
  have hmap : (Text.lines t).map (Row.output ∘ Row.ofLine ctx) = (Text.lines t).map id :=
    List.map_congr_left fun line hline => Row.output_ofLine (h line hline)
  rw [strip, rows_of_plain h, List.map_map, hmap, List.map_id, Text.unlines_lines]

/-! ### The lines that are kept -/

/-- A line that is kept consists of the tokens of a line's end, up to its carriage return. -/
theorem exists_of_mem_rows {inComment : Bool} {ls : List Text} {row : Row}
    (h : row ∈ rows ctx inComment ls) :
    ∃ line ∈ ls, ∃ code, code <:+ (cutReturn line).1 ∧
      row = ⟨lexLine ctx [] code, (cutReturn line).2⟩ := by
  induction ls generalizing inComment with
  | nil => simp [rows] at h
  | cons line ls ih =>
    rw [rows] at h
    dsimp only at h
    split at h
    · obtain ⟨line', hline', h⟩ := ih h
      exact ⟨line', by simp [hline'], h⟩
    · next code hcode =>
      rcases List.mem_cons.1 h with rfl | h
      · -- What is kept begins behind the comment that the line begins in, if it begins in one.
        refine ⟨line, by simp, code, ?_, rfl⟩
        rw [outside?] at hcode
        split at hcode
        · obtain ⟨⟨before, after⟩, hcut, rfl⟩ := Option.map_eq_some_iff.1 hcode
          exact ⟨before ++ closeMark, (Text.eq_append_of_cut hcut).symm⟩
        · cases hcode
          exact List.suffix_refl _
      · obtain ⟨line', hline', h⟩ := ih h
        exact ⟨line', by simp [hline'], h⟩

/-- The first line is always kept. -/
theorem rows_ne_nil {ls : List Text} (h : ls ≠ []) : rows ctx false ls ≠ [] := by
  cases ls with
  | nil => exact absurd rfl h
  | cons line ls => simp [rows, outside?]

theorem exists_nextToken_of_mem {line : Text} (h : tok ∈ lexLine ctx back line) :
    ∃ back c t rest, nextToken ctx back c t = (tok, rest) := by
  obtain ⟨before, after, hsplit⟩ := List.append_of_mem h
  obtain ⟨back', c, t, rest, -, hnext, -⟩ := exists_nextToken_of_lexLine hsplit
  exact ⟨back', c, t, rest, hnext⟩

/-- A token that ends its line is the last one. -/
theorem endsLine_of_append {ts ts' : List Token} {line : Text}
    (h : lexLine ctx back line = ts ++ tok :: ts') (hne : ts' ≠ []) : tok.endsLine = false := by
  obtain ⟨back', c, t, rest, -, hnext, rfl⟩ := exists_nextToken_of_lexLine h
  rw [Bool.eq_false_iff]
  -- Were it to end the line, nothing would follow.
  intro hends
  have hrest := nextToken_snd_of_endsLine ctx back' c t (by rwa [hnext])
  rw [hnext] at hrest
  dsimp only at hrest
  rw [hrest, lexLine_nil] at hne
  exact hne rfl

theorem not_isBlank_getLast?_of_closed {line text : Text}
    (h : .literal text true ∈ lexLine ctx back line) {d : Char} (hd : text.getLast? = some d) :
    Text.isBlank d = false := by
  obtain ⟨back, c, t, rest, hnext⟩ := exists_nextToken_of_mem h
  obtain ⟨-, hopens, hread⟩ := of_nextToken_eq_literal hnext
  exact not_isBlank_getLast?_readLiteral (not_isBlank_of_opensLiteral hopens) (by rw [hread]) hd

/-- A literal that is open is the end of its line. -/
theorem suffix_of_open {code text : Text} (h : .literal text false ∈ lexLine ctx back code) :
    text <:+ code := by
  obtain ⟨before, after, hsplit⟩ := List.append_of_mem h
  have hafter : after = [] := by
    by_contra hne
    exact absurd (endsLine_of_append hsplit hne) (by simp [Token.endsLine])
  have htext := flatMap_text_lexLine ctx back code
  rw [hsplit, hafter, List.flatMap_append, List.flatMap_singleton] at htext
  exact ⟨before.flatMap Token.text, htext⟩

theorem getLast?_eq_of_suffix {s t : Text} (h : s <:+ t) (hne : s ≠ []) :
    t.getLast? = s.getLast? := by
  obtain ⟨before, rfl⟩ := h
  exact List.getLast?_append_of_ne_nil before hne

theorem text_ne_nil_of_mem {line : Text} (h : tok ∈ lexLine ctx back line) : tok.text ≠ [] := by
  obtain ⟨back, c, t, rest, hnext⟩ := exists_nextToken_of_mem h
  have hne := text_nextToken_ne_nil ctx back c t
  rwa [hnext] at hne

/-- A token that is kept of a line ends in a carriage return only as code, if the line does not. -/
theorem eq_code_of_return {code : Text} (hcode : code.getLast? ≠ some '\r')
    (htok : tok ∈ (lexLine ctx [] code).flatMap Token.residue)
    (hlast : tok.text.getLast? = some '\r') : tok = .code '\r' := by
  have hkind := Token.isComment_of_mem_flatMap_residue htok
  obtain ⟨tok', htok', hresidue⟩ := List.mem_flatMap.1 htok
  cases tok with
  | code c =>
    obtain rfl : c = '\r' := by simpa [Token.text] using hlast
    rfl
  | literal text closed =>
    -- A closed literal ends in no blank, and an open one ends as the line does.
    obtain rfl : tok' = .literal text closed := by
      cases tok' <;> simp_all [Token.residue]
    cases closed with
    | true => exact absurd (not_isBlank_getLast?_of_closed htok' hlast) (by decide)
    | false =>
      rw [getLast?_eq_of_suffix (suffix_of_open htok') (text_ne_nil_of_mem htok')] at hcode
      exact absurd hlast hcode
  | comment | lineComment | opening => simp [Token.isComment] at hkind

/-- A carriage return at the end of what is kept of a line without one stands there as code. -/
theorem exists_residue_of_return {code : Text} (hcode : code.getLast? ≠ some '\r')
    (hout : ((lexLine ctx [] code).flatMap Token.output).getLast? = some '\r') :
    ∃ rs, (lexLine ctx [] code).flatMap Token.residue = rs ++ [.code '\r'] := by
  have hrelex := lexLine_output ctx [] code
  have htext := flatMap_text_lexLine ctx [] ((lexLine ctx [] code).flatMap Token.output)
  rcases List.eq_nil_or_concat ((lexLine ctx [] code).flatMap Token.residue) with
    hnil | ⟨rs, tok, hlast⟩
  · rw [hrelex, hnil] at htext
    simp [← htext] at hout
  · rw [List.concat_eq_append] at hlast
    have hmem : tok ∈ (lexLine ctx [] code).flatMap Token.residue := by simp [hlast]
    have hne : tok.text ≠ [] := text_ne_nil_of_mem (hrelex ▸ hmem)
    rw [← htext, hrelex, hlast, List.flatMap_append, List.flatMap_singleton,
      List.getLast?_append_of_ne_nil _ hne] at hout
    exact ⟨rs, by rw [hlast, eq_code_of_return hcode hmem hout]⟩

theorem cutReturn_concat (t : Text) : cutReturn (t ++ ['\r']) = (t, ['\r']) := by
  simp [cutReturn]

theorem cutReturn_of_ne (h : t.getLast? ≠ some '\r') : cutReturn t = (t, []) := by
  simp [cutReturn, h]

/-- What is kept of a line is cut into what the tokens of the line leave, up to a carriage return
that has come to stand at its end. -/
theorem exists_lexLine_output (ctx : Context) {line code : Text}
    (h : code <:+ (cutReturn line).1) : ∃ rs ending,
    (lexLine ctx [] code).flatMap Token.residue = rs ++ ending ∧ literalsOf ending = [] ∧
      lexLine ctx []
        (cutReturn ((lexLine ctx [] code).flatMap Token.output ++ (cutReturn line).2)).1 = rs := by
  have hrelex := lexLine_output ctx [] code
  by_cases hreturn : line.getLast? = some '\r'
  · have hending : (cutReturn line).2 = ['\r'] := by simp [cutReturn, hreturn]
    exact ⟨_, [], (List.append_nil _).symm, rfl, by rw [hending, cutReturn_concat, hrelex]⟩
  · rw [cutReturn_of_ne hreturn] at h ⊢
    rw [List.append_nil]
    by_cases hout : ((lexLine ctx [] code).flatMap Token.output).getLast? = some '\r'
    · have hcode : code.getLast? ≠ some '\r' := by
        intro hlast
        rw [getLast?_eq_of_suffix h (by rintro rfl; simp at hlast), hlast] at hreturn
        exact hreturn rfl
      -- The carriage return was inside of the line before; now it is cut off as the end of one, and
      -- the tokens before it stay.
      obtain ⟨rs, hrs⟩ := exists_residue_of_return hcode hout
      have htext := flatMap_text_lexLine ctx [] ((lexLine ctx [] code).flatMap Token.output)
      rw [hrelex, hrs, List.flatMap_append, List.flatMap_singleton, Token.text] at htext
      rw [hrs] at hrelex
      refine ⟨rs, [.code '\r'], hrs, rfl, ?_⟩
      rw [← htext, cutReturn_concat]
      refine lexLine_flatMap_text hrelex fun tok htok => ?_
      exact Token.isComment_of_mem_flatMap_residue (hrs ▸ List.mem_append_left _ htok)
    · exact ⟨_, [], (List.append_nil _).symm, rfl, by rw [cutReturn_of_ne hout, hrelex]⟩

/-- What is kept of a line holds no comment, and the literals of the line. -/
theorem isPlain_output {line code : Text} (h : code <:+ (cutReturn line).1) :
    let row : Row := ⟨lexLine ctx [] code, (cutReturn line).2⟩
    IsPlain ctx row.output ∧
      literalsOf (lexLine ctx [] (cutReturn row.output).1) = literalsOf row.tokens := by
  obtain ⟨rs, ending, hresidue, hending, hrelex⟩ := exists_lexLine_output ctx h
  refine ⟨fun tok htok => ?_, ?_⟩
  · refine Token.isComment_of_mem_flatMap_residue (?_ : tok ∈ (lexLine ctx [] code).flatMap _)
    rw [hresidue, ← hrelex]
    exact List.mem_append_left _ htok
  · have hliterals := literalsOf_flatMap_residue (lexLine ctx [] code)
    rw [hresidue, literalsOf_append, hending, List.append_nil] at hliterals
    rw [Row.output, hrelex, hliterals]

theorem Token.mem_text_of_mem_output {c : Char} (h : c ∈ tok.output) : c ∈ tok.text ∨ c = ' ' := by
  cases tok <;> simp_all [Token.output, Token.text]

/-- What is kept of a line has no characters but those of the line and spaces. -/
theorem mem_of_mem_output {ls : List Text} {row : Row} (h : row ∈ rows ctx false ls) {c : Char}
    (hc : c ∈ row.output) : (∃ line ∈ ls, c ∈ line) ∨ c = ' ' := by
  obtain ⟨line, hline, code, hcode, rfl⟩ := exists_of_mem_rows h
  rcases List.mem_append.1 hc with hc | hc
  · obtain ⟨tok, htok, hc⟩ := List.mem_flatMap.1 hc
    refine (Token.mem_text_of_mem_output hc).imp_left fun hc => ⟨line, hline, ?_⟩
    have hmem : c ∈ code := by
      rw [← flatMap_text_lexLine ctx [] code]
      exact List.mem_flatMap.2 ⟨tok, htok, hc⟩
    rw [← cutReturn_append line]
    exact List.mem_append_left _ (hcode.mem hmem)
  · refine .inl ⟨line, hline, ?_⟩
    rw [← cutReturn_append line]
    exact List.mem_append_right _ hc

/-- The lines of a script without its comments are what is kept of its lines. -/
theorem lines_strip (ctx : Context) (t : Text) :
    Text.lines (strip ctx t) = (rows ctx false (Text.lines t)).map Row.output := by
  rw [strip, Text.lines_unlines]
  · simpa using rows_ne_nil (Text.lines_ne_nil t)
  · intro l hl hc
    obtain ⟨row, hrow, rfl⟩ := List.mem_map.1 hl
    rcases mem_of_mem_output hrow hc with ⟨line, hline, hc⟩ | hc
    · exact Text.not_mem_of_mem_lines hline hc
    · exact absurd hc (by decide)

theorem isPlain_of_mem_lines_strip {l : Text} (h : l ∈ Text.lines (strip ctx t)) : IsPlain ctx l := by
  rw [lines_strip] at h
  obtain ⟨row, hrow, rfl⟩ := List.mem_map.1 h
  obtain ⟨line, -, code, hcode, rfl⟩ := exists_of_mem_rows hrow
  exact (isPlain_output hcode).1

theorem mem_of_mem_lines_strip {l : Text} (h : l ∈ Text.lines (strip ctx t)) {c : Char} (hc : c ∈ l) :
    c ∈ t ∨ c = ' ' := by
  rw [lines_strip] at h
  obtain ⟨row, hrow, rfl⟩ := List.mem_map.1 h
  rcases mem_of_mem_output hrow hc with ⟨line, hline, hc⟩ | hc
  · exact .inl (Text.mem_of_mem_lines hline hc)
  · exact .inr hc

theorem tokens_of_strip (ctx : Context) (t : Text) : tokens ctx (strip ctx t) =
    (rows ctx false (Text.lines t)).flatMap fun row => lexLine ctx [] (cutReturn row.output).1 := by
  rw [tokens_of_plain fun line hline => isPlain_of_mem_lines_strip hline, lines_strip,
    List.flatMap_map]

/-- No literal is lost with the comments, and none is changed. -/
theorem literalsOf_tokens_strip (ctx : Context) (t : Text) :
    literalsOf (tokens ctx (strip ctx t)) = literalsOf (tokens ctx t) := by
  rw [tokens_of_strip, tokens, literalsOf, literalsOf, List.filterMap_flatMap, List.filterMap_flatMap]
  refine List.flatMap_congr fun row hrow => ?_
  obtain ⟨line, -, code, hcode, rfl⟩ := exists_of_mem_rows hrow
  exact (isPlain_output hcode).2

/-- Taking out the comments leaves no comment and every literal, in order and character for
character; taking them out once more changes nothing. -/
theorem tokens_strip (ctx : Context) (t : Text) :
    (∀ tok ∈ tokens ctx (strip ctx t), tok.isComment = false) ∧
      literalsOf (tokens ctx (strip ctx t)) = literalsOf (tokens ctx t) ∧
      strip ctx (strip ctx t) = strip ctx t := by
  refine ⟨fun tok htok => ?_, literalsOf_tokens_strip ctx t,
    strip_eq_self fun line hline => isPlain_of_mem_lines_strip hline⟩
  rw [tokens_of_strip] at htok
  obtain ⟨row, hrow, htok⟩ := List.mem_flatMap.1 htok
  obtain ⟨line, -, code, hcode, rfl⟩ := exists_of_mem_rows hrow
  exact (isPlain_output hcode).1 tok htok

end Userscript.Script
