import Mathlib.Data.List.Chain
import Userscript.Proofs.Script.Optimizing

/-!
# Literals of optimized scripts

Comments are told apart from literals by what stands before a slash, spacing by the form of the
literals alone. Where the two disagree, a literal of the script is not one of those that keep their
spacing. So the literals that stay as they are, are those without spacing that is free.

## Main definitions

* `Script.KeepsSpacing` — regular spacing changes nothing
* `Script.topOf`, `Script.bodyOf` — the parts of a script at its header

## Main results

* `keepsSpacing_iff` — what stays as it is with regular spacing
* `optimize_literals_iff` — when the literals of a script stay as they are
* `optimize_alters_string` — a string that does not
-/

namespace Userscript.Script

variable {ctx : Context} {limit : Int} {t line : Text} {ls rs : List Text} {c : Char}

/-- Regular spacing changes nothing: no tab is free, and no two gaps that are free stand side by
side. -/
def KeepsSpacing (xs : List Spot) : Prop :=
  (∀ x ∈ xs, x.isGap → x.char = ' ') ∧ xs.IsChain fun x y => ¬(x.isGap ∧ y.isGap)

instance (xs : List Spot) : Decidable (KeepsSpacing xs) := inferInstanceAs (Decidable (_ ∧ _))

/-- Behind a gap, characters stay as they are if they begin with no gap and stay as they are. -/
theorem respace_true_eq_chars_iff {xs : List Spot} : respace true xs = chars xs ↔
    (∀ x ∈ xs.head?, x.isGap = false) ∧ respace false xs = chars xs := by
  cases xs with
  | nil => simp
  | cons x xs =>
    by_cases hx : x.isGap
    · refine ⟨fun h => ?_, fun h => ?_⟩
      · -- a gap that is dropped leaves too few characters
        rw [respace_true_cons_of_gap hx] at h
        have hlength := length_respace_le true xs
        rw [h, chars_cons, List.length_cons, chars, List.length_map] at hlength
        omega
      · simp [hx] at h
    · have hx : x.isGap = false := by simpa using hx
      simp [respace_cons_of_not_gap hx, hx]

theorem keepsSpacing_iff {xs : List Spot} : KeepsSpacing xs ↔ respace false xs = chars xs := by
  induction xs with
  | nil => simp [KeepsSpacing]
  | cons x xs ih =>
    rw [KeepsSpacing, List.forall_mem_cons, List.isChain_cons]
    by_cases hx : x.isGap
    · rw [respace_cons_of_gap hx, chars_cons, List.cons.injEq, respace_true_eq_chars_iff, ← ih,
        KeepsSpacing]
      simp only [hx, true_and, Bool.not_eq_true, forall_const]
      rw [eq_comm (a := ' ')]
      tauto
    · have hx : x.isGap = false := by simpa using hx
      rw [respace_cons_of_not_gap hx, chars_cons, List.cons.injEq, ← ih, KeepsSpacing]
      simp [hx]

/-- The closed literals of tokens are the texts of the places where they stand. -/
theorem map_chars_closedSpans {ts : List Token} {xs : List Spot}
    (h : ts.flatMap Token.text <+: chars xs) : (closedSpans ts xs).map chars = closedOf ts := by
  induction ts generalizing xs with
  | nil => simp
  | cons tok ts ih =>
    rw [List.flatMap_cons] at h
    obtain ⟨rest, h⟩ := h
    rw [List.append_assoc] at h
    have htake : chars (xs.take tok.text.length) = tok.text := by
      rw [chars, List.map_take, ← chars, ← h, List.take_left]
    have hdrop : ts.flatMap Token.text <+: chars (xs.drop tok.text.length) := by
      refine ⟨rest, ?_⟩
      rw [chars, List.map_drop, ← chars, ← h, List.drop_left]
    -- Only a closed literal counts; the others are passed by on both sides.
    by_cases hclosed : ∃ text, tok = .literal text true
    · obtain ⟨text, rfl⟩ := hclosed
      rw [closedSpans, List.map_cons, closedOf_closed]
      exact congrArg₂ List.cons htake (ih hdrop)
    · rw [closedSpans, ih hdrop]
      · cases tok with
        | literal text closed => cases closed with
          | true => exact absurd ⟨text, rfl⟩ hclosed
          | false => rfl
        | _ => rfl
      · exact fun text htext => hclosed ⟨text, htext⟩

theorem closedIn_eq (ctx : Context) (line : Text) :
    closedIn ctx line = (spansIn ctx line).map chars := by
  refine (map_chars_closedSpans ?_).symm
  rw [flatMap_text_lexLine, chars_spots]
  exact ⟨_, cutReturn_append line⟩

theorem closedOf_flatMap {α : Type} (f : α → List Token) (as : List α) :
    closedOf (as.flatMap f) = as.flatMap fun a => closedOf (f a) := by
  induction as with
  | nil => rfl
  | cons a as ih =>
    rw [List.flatMap_cons, List.flatMap_cons, ← ih, closedOf, closedOf, closedOf, literalsOf_append,
      List.filter_append, List.map_append]

theorem closedOf_tokens_of_plain (h : ∀ line ∈ Text.lines t, IsPlain ctx line) :
    closedOf (tokens ctx t) = (Text.lines t).flatMap (closedIn ctx) := by
  rw [tokens_of_plain h, closedOf_flatMap]
  rfl

/-- The closed literals of a script are those of the lines that are left without comments. -/
theorem closedOf_tokens_eq (ctx : Context) (t : Text) :
    closedOf (tokens ctx t) = ((Text.lines (strip ctx t)).flatMap (spansIn ctx)).map chars := by
  rw [closedOf, ← literalsOf_tokens_strip, ← closedOf,
    closedOf_tokens_of_plain fun line hline => isPlain_of_mem_lines_strip hline, List.map_flatMap]
  exact List.flatMap_congr fun line _ => closedIn_eq ctx line

theorem closedIn_nil (ctx : Context) : closedIn ctx [] = [] := by
  simp [closedIn, cutReturn]

theorem flatMap_closedIn_lines (h : ∀ l ∈ ls, Settled ctx limit l) :
    (Text.lines (Text.unlines ls)).flatMap (closedIn ctx) = ls.flatMap (closedIn ctx) := by
  cases ls with
  | nil => exact congrArg (· ++ []) (closedIn_nil ctx)
  | cons l ls => rw [lines_unlines_of_settled (by simp) h]

/-- The closed literals of a script that ends in a line feed are those of its lines. -/
theorem closedOf_tokens_of_settled (h : ∀ l ∈ ls, Settled ctx limit l) :
    closedOf (tokens ctx (Text.unlines ls ++ ['\n'])) = ls.flatMap (closedIn ctx) := by
  have hplain : ∀ l ∈ Text.lines (Text.unlines ls ++ ['\n']), IsPlain ctx l := by
    intro l hl
    rw [Text.lines_concat_newline] at hl
    rcases List.mem_append.1 hl with hl | hl
    · exact isPlain_of_settled h l hl
    · rw [List.mem_singleton.1 hl]
      exact isPlain_nil ctx
  rw [closedOf_tokens_of_plain hplain, Text.lines_concat_newline, List.flatMap_append,
    flatMap_closedIn_lines h]
  simp [closedIn_nil]

/-- What an optimized script leaves above the code: the header and a blank line. -/
def topOf (markers : Header.Markers) (given : Option Text) (code : Text) : Text :=
  let header := keptHeader markers given code
  if code.isEmpty || header.isEmpty then [] else Text.trim header ++ ['\n', '\n']

/-- The code of a script below its header. -/
def bodyOf (markers : Header.Markers) (given : Option Text) (code : Text) : Text :=
  Text.replaceFirst (keptHeader markers given code) [] code

theorem mem_of_mem_bodyOf {markers : Header.Markers} {given : Option Text} {code : Text}
    (h : c ∈ bodyOf markers given code) : c ∈ code := by
  rw [bodyOf, Text.replaceFirst] at h
  split at h
  · next before rest hcut =>
    rw [Text.eq_append_of_cut hcut]
    simp only [List.append_nil, List.mem_append] at h ⊢
    exact h.elim (fun h => .inl (.inl h)) .inr
  · exact h

theorem bodyOf_nil (markers : Header.Markers) (given : Option Text) : bodyOf markers given [] = [] :=
  List.eq_nil_iff_forall_not_mem.2 fun _ hc => List.not_mem_nil (mem_of_mem_bodyOf hc)

theorem lines_strip_nil (ctx : Context) : Text.lines (strip ctx []) = [[]] := by
  have hstrip : strip ctx [] = [] := strip_eq_self fun l hl => by
    rw [List.mem_singleton.1 hl]
    exact isPlain_nil ctx
  rw [hstrip]
  rfl

theorem trim_unlines (h : ∀ l ∈ ls, Settled ctx limit l)
    (htrim : Text.trimLeft (Text.unlines ls) = Text.unlines ls) :
    Text.trim (Text.unlines ls) = Text.unlines ls := by
  cases ls with
  | nil => rfl
  | cons l ls =>
    obtain ⟨s, d, hs, hd⟩ := exists_unlines_eq_concat (by simp) fun l hl => (h l hl).last
    rw [hs, Text.trim_concat hd, ← hs, htrim]

theorem optimize_eq {markers : Header.Markers} {given : Option Text} {code small : Text}
    (h : optimizeBody ctx limit (bodyOf markers given code) = .ok small) (hne : code ≠ [])
    (htrim : Text.trim small = small) :
    optimize ctx limit markers given code = .ok (topOf markers given code ++ (small ++ ['\n'])) := by
  have hempty : code.isEmpty = false := by simpa using hne
  rw [bodyOf] at h
  rw [optimize, belowHeader, hempty, topOf, hempty]
  simp only [Bool.false_eq_true, if_false, Bool.false_or]
  rw [h]
  simp only [bind, Except.bind, pure, Except.pure, htrim, List.append_assoc]

/-- The closed literals of a script come through optimizing, in order and character for character,
exactly if none of them has spacing that is free: the literals that are found by their form need not
be those of the script. -/
theorem optimize_literals_iff {code : Text} (hctx : ctx.Wordwise) (hnul : nul ∉ code) (limit : Int)
    (markers : Header.Markers) (given : Option Text) :
    ∃ small, optimize ctx limit markers given code = .ok (topOf markers given code ++ small) ∧
      (closedOf (tokens ctx small) = closedOf (tokens ctx (bodyOf markers given code)) ↔
        ∀ line ∈ Text.lines (strip ctx (bodyOf markers given code)),
          ∀ span ∈ spansIn ctx line, KeepsSpacing span) := by
  by_cases hcode : code = []
  · subst hcode
    refine ⟨[], by simp [optimize, belowHeader, topOf, pure, Except.pure], ?_⟩
    rw [bodyOf_nil, lines_strip_nil]
    refine iff_of_true rfl fun line hline span hspan => ?_
    rw [List.mem_singleton.1 hline, closedSpans_of_blank rfl] at hspan
    cases hspan
  · obtain ⟨rs, hsmall, htrim, hsettled, hclosed⟩ :=
      optimizeBody_eq hctx (fun hmem => hnul (mem_of_mem_bodyOf hmem)) limit
        (t := bodyOf markers given code)
    refine ⟨Text.unlines rs ++ ['\n'], optimize_eq hsmall hcode (trim_unlines hsettled htrim), ?_⟩
    -- Both sides are texts of the same places, with regular spacing on the left, so they are equal
    -- if they are for each place.
    rw [closedOf_tokens_of_settled hsettled, hclosed, closedOf_tokens_eq, List.map_inj_left]
    simp only [List.mem_flatMap, keepsSpacing_iff]
    constructor
    · exact fun h line hline span hspan => h span ⟨line, hline, hspan⟩
    · rintro h span ⟨line, hline, hspan⟩
      exact h line hline span hspan

/-- The two spaces of a string stand in a literal for the spacing as well, and come through. -/
theorem optimize_literals_iff_string :
    let code := "x = 'a  b' // note\n".toList
    Context.Wordwise {} ∧ nul ∉ code ∧
      ∃ small, optimize {} 4 {} none code = .ok (topOf {} none code ++ small) ∧
        (closedOf (tokens {} small) = closedOf (tokens {} (bodyOf {} none code)) ↔
          ∀ line ∈ Text.lines (strip {} (bodyOf {} none code)),
            ∀ span ∈ spansIn {} line, KeepsSpacing span) :=
  ⟨wordwise_default, by decide, optimize_literals_iff wordwise_default (by decide) 4 {} none⟩

/-- A slash of a division and one in a string are taken for the ends of a pattern, and two spaces
in the string for spacing of the code. -/
theorem optimize_alters_string :
    let code := "x = a / 2 + \"1/  2\"\n".toList
    let small := "x = a / 2 + \"1/ 2\"\n".toList
    nul ∉ code ∧ bodyOf {} none code = code ∧
      optimize {} defaultIndentLimit {} none code = .ok (topOf {} none code ++ small) ∧
      closedOf (tokens {} small) ≠ closedOf (tokens {} code) := by
  decide +kernel

end Userscript.Script
