import Mathlib.Data.List.Basic
import Mathlib.Data.List.TakeWhile
import Userscript.Proofs.Text.Digits
import Userscript.Script.Spacing

/-!
# Marks and what they stand for

A line of which a mark has taken the place of every literal is changed as its pieces would be,
and the literals that are put back for the marks in the end are those of the line. It has to hold no
mark itself, so that every mark that is found there stands for a literal.

## Main definitions

* `Piece.isGap`, `Piece.isBlank` — a piece is a character of that kind
* `Script.collapsePieces` — pieces with one space for every run of spaces and tabs
* `Script.HoldsMark` — NUL and digits of a line are read as a mark
* `Script.spacedPieces` — the pieces of a line with regular spacing

## Main results

* `restore_marked` — putting back the literals undoes the marks
* `holdsMark_spacedPieces_iff` — spacing neither makes a mark nor breaks one
* `normalizeLine_eq` — a line with regular spacing, from the pieces of the line
-/

namespace Userscript.Script

variable {ps lead body trail : List Piece} {p : Piece} {n : Nat} {c : Char} {t : Text}

/-- Whether a piece is a space or a tab. -/
def Piece.isGap : Piece → Bool
  | char c => Script.isGap c
  | literal _ => false

/-- Whether a piece is a blank. -/
def Piece.isBlank : Piece → Bool
  | char c => Text.isBlank c
  | literal _ => false

/-- The pieces with one space for every run of spaces and tabs among them, of which one may
have begun right before. -/
def collapsePieces : Bool → List Piece → List Piece
  | _, [] => []
  | gap, p :: ps =>
    if p.isGap then (if gap then collapsePieces true ps else .char ' ' :: collapsePieces true ps)
    else p :: collapsePieces false ps

/-! ### Reading a mark -/

theorem not_isDigit_nul : Text.isDigit nul = false := by decide

theorem digitsOfMark?_eq_some_iff {digits rest : Text} : digitsOfMark? t = some (digits, rest) ↔
    t = digits ++ nul :: rest ∧ digits ≠ [] ∧ ∀ d ∈ digits, Text.isDigit d := by
  constructor
  · intro h
    rw [digitsOfMark?] at h
    split at h
    · next c rest' hdrop =>
      dsimp only at h
      split at h
      · next hmark =>
        cases h
        refine ⟨?_, hmark.2, fun d hd => List.mem_takeWhile_imp hd⟩
        rw [← hmark.1, ← hdrop, List.takeWhile_append_dropWhile]
      · cases h
    · cases h
  · rintro ⟨rfl, hne, hdigits⟩
    -- NUL is no digit, so the digits end where it stands.
    have htake : (digits ++ nul :: rest).takeWhile Text.isDigit = digits := by
      rw [List.takeWhile_append_of_pos hdigits]
      simp [not_isDigit_nul]
    have hdrop : (digits ++ nul :: rest).dropWhile Text.isDigit = nul :: rest := by
      rw [List.dropWhile_append_of_pos hdigits]
      simp [not_isDigit_nul]
    rw [digitsOfMark?, hdrop]
    dsimp only
    rw [htake, if_pos ⟨rfl, hne⟩]

theorem digitsOfMark?_natural (n : Nat) (t : Text) :
    digitsOfMark? (Text.natural n ++ nul :: t) = some (Text.natural n, t) :=
  digitsOfMark?_eq_some_iff.2
    ⟨rfl, Text.natural_ne_nil n, fun _ hd => Text.isDigit_of_mem_natural hd⟩

theorem literalOf_natural {saved : Array Text} (h : saved[n]? = some t) :
    literalOf saved (Text.natural n) = .ok t := by
  obtain ⟨hn, -⟩ := Array.getElem?_eq_some_iff.1 h
  have hlength := Text.length_natural_mono hn.le
  rw [literalOf, if_neg (by omega), Text.ofDigits_natural]
  simp [h]

theorem restore_of_digitsOfMark? {saved : Array Text} {digits rest : Text}
    (h : digitsOfMark? t = some (digits, rest)) : restore saved (nul :: t) =
      (literalOf saved digits).bind fun literal => (restore saved rest).map (literal ++ ·) := by
  rw [restore]
  split
  · next digits' rest' hdigits =>
    rw [if_pos rfl, h] at hdigits
    cases hdigits
    cases literalOf saved digits with
    | error => rfl
    | ok literal => cases restore saved rest <;> rfl
  · next hnone => simp [h] at hnone

theorem restore_mark {saved : Array Text} (h : saved[n]? = some t) (rest : Text) :
    restore saved (mark n ++ rest) = (restore saved rest).map (t ++ ·) := by
  have hmark : mark n ++ rest = nul :: (Text.natural n ++ nul :: rest) := by simp [mark]
  rw [hmark, restore_of_digitsOfMark? (digitsOfMark?_natural n rest), literalOf_natural h]
  rfl

theorem restore_cons {saved : Array Text} (h : c = nul → digitsOfMark? t = none) :
    restore saved (c :: t) = (restore saved t).map (c :: ·) := by
  rw [restore]
  split
  · next hsome =>
    rw [Option.ite_none_right_eq_some] at hsome
    rw [h hsome.1] at hsome
    cases hsome.2
  · cases restore saved t <;> rfl

/-! ### Marks that a line holds -/

/-- Whether a piece begins with NUL, as every literal does once a mark stands for it. -/
def Piece.beginsWithNul : Piece → Bool
  | char c => c = nul
  | literal _ => true

/-- Pieces that are read as the rest of a mark if NUL stands before them: digits, and then NUL,
which may be that of the mark of a literal. -/
inductive CompletesMark : List Piece → Prop
  | last {d : Char} {p : Piece} {ps : List Piece} (hd : Text.isDigit d) (hp : p.beginsWithNul) :
    CompletesMark (.char d :: p :: ps)
  | more {d : Char} {ps : List Piece} (hd : Text.isDigit d) (h : CompletesMark ps) :
    CompletesMark (.char d :: ps)

/-- Pieces among which a NUL of the line is read as the beginning of a mark. -/
inductive HoldsMark : List Piece → Prop
  | here {ps : List Piece} (h : CompletesMark ps) : HoldsMark (.char nul :: ps)
  | later {p : Piece} {ps : List Piece} (h : HoldsMark ps) : HoldsMark (p :: ps)

theorem exists_marked_eq_cons_iff :
    (∃ t, marked n ps = nul :: t) ↔ ∃ p qs, ps = p :: qs ∧ p.beginsWithNul := by
  cases ps with
  | nil => simp [marked]
  | cons p ps =>
    cases p with
    | char c => simp [marked, Piece.beginsWithNul]
    | literal l => simp [marked, mark, Piece.beginsWithNul]

/-- Digits and NUL are read where pieces complete a mark, and nowhere else. -/
theorem completesMark_iff : CompletesMark ps ↔ ∃ digits rest,
    digitsOfMark? (marked n ps) = some (digits, rest) := by
  simp only [digitsOfMark?_eq_some_iff]
  constructor
  · intro h
    induction h with
    | @last d p ps hd hp =>
      obtain ⟨rest, hrest⟩ := exists_marked_eq_cons_iff.2 ⟨p, ps, rfl, hp⟩
      exact ⟨[d], rest, by rw [marked, hrest]; rfl, by simp, by simpa using hd⟩
    | @more d ps hd _ ih =>
      obtain ⟨digits, rest, heq, -, hdigits⟩ := ih
      exact ⟨d :: digits, rest, by rw [marked, heq]; rfl, by simp, by simpa using ⟨hd, hdigits⟩⟩
  · rintro ⟨digits, rest, heq, hne, hdigits⟩
    induction digits generalizing ps with
    | nil => exact absurd rfl hne
    | cons d digits ih =>
      obtain ⟨hd, hdigits'⟩ := List.forall_mem_cons.1 hdigits
      -- No digit is NUL, so it is a character of the line.
      match ps with
      | [] => cases heq
      | .literal l :: ps =>
        obtain ⟨rfl, -⟩ := List.cons.inj heq
        rw [not_isDigit_nul] at hd
        cases hd
      | .char c :: ps =>
        obtain ⟨rfl, htail⟩ := List.cons.inj heq
        cases digits with
        | nil =>
          obtain ⟨p, qs, rfl, hp⟩ := exists_marked_eq_cons_iff.1 ⟨rest, htail⟩
          exact .last hd hp
        | cons e digits => exact .more hd (ih htail (List.cons_ne_nil e digits) hdigits')

instance (ps : List Piece) : Decidable (CompletesMark ps) :=
  decidable_of_iff ((digitsOfMark? (marked 0 ps)).isSome) <| by
    rw [completesMark_iff (n := 0), Option.isSome_iff_exists, Prod.exists]

theorem digitsOfMark?_eq_none (h : ¬ CompletesMark ps) (n : Nat) : digitsOfMark? (marked n ps) = none := by
  rw [completesMark_iff (n := n)] at h
  rw [Option.eq_none_iff_forall_ne_some]
  exact fun found hfound => h ⟨found.1, found.2, hfound⟩

theorem holdsMark_cons_iff :
    HoldsMark (p :: ps) ↔ (p = .char nul ∧ CompletesMark ps) ∨ HoldsMark ps := by
  constructor
  · rintro (h | h)
    · exact .inl ⟨rfl, h⟩
    · exact .inr h
  · rintro (⟨rfl, h⟩ | h)
    · exact .here h
    · exact .later h

instance : (ps : List Piece) → Decidable (HoldsMark ps)
  | [] => isFalse nofun
  | _ :: ps =>
    have := instDecidableHoldsMark ps
    decidable_of_iff _ holdsMark_cons_iff.symm

example : HoldsMark (pieces "a\x000'b'".toList) ∧ ¬ HoldsMark (pieces "\x00'a'\x000".toList) := by
  decide +kernel

theorem nul_mem_of_holdsMark (h : HoldsMark ps) : .char nul ∈ ps := by
  induction h with
  | here => exact List.mem_cons_self
  | later _ ih => exact List.mem_cons_of_mem _ ih

theorem literals_char (c : Char) (ps : List Piece) : literals (.char c :: ps) = literals ps := rfl

theorem literals_literal (t : Text) (ps : List Piece) :
    literals (.literal t :: ps) = t :: literals ps := rfl

/-- The next literal is the one that the next mark stands for. -/
theorem getElem?_of_literals_cons {saved : Array Text}
    (h : literals (.literal t :: ps) = saved.toList.drop n) :
    saved[n]? = some t ∧ literals ps = saved.toList.drop (n + 1) := by
  rw [literals_literal] at h
  constructor
  · have := congrArg (·[0]?) h
    simpa using this.symm
  · rw [← List.tail_drop, ← h, List.tail_cons]

/-- The first of some pieces is put back as it was, unless a mark of the line begins with it. -/
theorem exists_restore_marked_cons {saved : Array Text} (hfirst : ¬ (p = .char nul ∧ CompletesMark ps))
    (h : literals (p :: ps) = saved.toList.drop n) :
    ∃ n', literals ps = saved.toList.drop n' ∧
      restore saved (marked n (p :: ps)) = (restore saved (marked n' ps)).map (p.text ++ ·) := by
  cases p with
  | char c =>
    have hnone : c = nul → digitsOfMark? (marked n ps) = none :=
      fun hc => digitsOfMark?_eq_none (fun hcompletes => hfirst ⟨by rw [hc], hcompletes⟩) n
    exact ⟨n, h, restore_cons hnone⟩
  | literal t =>
    obtain ⟨hget, hdrop⟩ := getElem?_of_literals_cons h
    exact ⟨n + 1, hdrop, restore_mark hget (marked (n + 1) ps)⟩

/-- Putting back the literals undoes the marks, unless the pieces hold a mark themselves. -/
theorem restore_marked {saved : Array Text} (hmark : ¬ HoldsMark ps)
    (h : literals ps = saved.toList.drop n) :
    restore saved (marked n ps) = .ok (ps.flatMap Piece.text) := by
  -- From piece to piece the literals that are left and those behind number `n` are the same ones.
  induction ps generalizing n with
  | nil => rw [marked, restore]; rfl
  | cons p ps ih =>
    obtain ⟨hfirst, hrest⟩ := not_or.1 (mt holdsMark_cons_iff.2 hmark)
    obtain ⟨n', hliterals, hrestore⟩ := exists_restore_marked_cons hfirst h
    rw [hrestore, ih hrest hliterals, List.flatMap_cons]
    rfl

/-! ### Characters around the literals -/

theorem marked_char_append (n : Nat) (t : Text) (ps : List Piece) :
    marked n (t.map Piece.char ++ ps) = t ++ marked n ps := by
  induction t with
  | nil => rfl
  | cons c t ih => rw [List.map_cons, List.cons_append, marked, ih, List.cons_append]

theorem marked_append_char (n : Nat) (ps : List Piece) (t : Text) :
    marked n (ps ++ t.map Piece.char) = marked n ps ++ t := by
  induction ps generalizing n with
  | nil =>
    have := marked_char_append n t []
    rwa [List.append_nil, marked, List.append_nil] at this
  | cons p ps ih =>
    cases p with
    | char c => rw [List.cons_append, marked, ih, marked, List.cons_append]
    | literal l => rw [List.cons_append, marked, ih, marked, List.append_assoc]

theorem literals_append (ps qs : List Piece) : literals (ps ++ qs) = literals ps ++ literals qs :=
  List.filterMap_append

theorem literals_map_char (t : Text) : literals (t.map Piece.char) = [] := by
  induction t with
  | nil => rfl
  | cons c t ih => rw [List.map_cons, literals_char, ih]

theorem flatMap_text_map_char (t : Text) : (t.map Piece.char).flatMap Piece.text = t := by
  induction t with
  | nil => rfl
  | cons c t ih => rw [List.map_cons, List.flatMap_cons, ih]; rfl

/-- The pieces of a line between the spaces and tabs it begins with and the blanks it ends
with. -/
structure IsCore (body : List Piece) : Prop where
  /-- It does not begin with a space or tab. -/
  head : ∃ p ps, body = p :: ps ∧ p.isGap = false
  /-- It does not end in a blank. -/
  last : ∃ ps p, body = ps ++ [p] ∧ p.isBlank = false

theorem exists_eq_map_char {q : Piece → Bool} (hq : ∀ l, q (.literal l) = false)
    (h : ∀ p ∈ ps, q p) : ∃ t : Text, ps = t.map .char ∧ ∀ c ∈ t, q (.char c) := by
  induction ps with
  | nil => exact ⟨[], rfl, by simp⟩
  | cons p ps ih =>
    obtain ⟨t, rfl, ht⟩ := ih fun p hp => h p (by simp [hp])
    cases p with
    | char c => exact ⟨c :: t, rfl, by simpa using ⟨h (.char c) (by simp), ht⟩⟩
    | literal l => exact absurd (h (.literal l) (by simp)) (by simp [hq])

theorem isBlank_of_isGap (h : isGap c) : Text.isBlank c := by
  simp only [isGap, Bool.or_eq_true, decide_eq_true_eq] at h
  rcases h with rfl | rfl <;> decide

theorem Piece.isBlank_of_isGap (h : p.isGap) : p.isBlank := by
  cases p with
  | char c => exact Script.isBlank_of_isGap h
  | literal l => exact absurd h Bool.false_ne_true

theorem exists_first_of_exists {q : Piece → Bool} (h : ∃ p ∈ ps, q p = false) :
    ∃ before p after, ps = before ++ p :: after ∧ (∀ r ∈ before, q r) ∧ q p = false := by
  induction ps with
  | nil => simp at h
  | cons r ps ih =>
    by_cases hr : q r
    · obtain ⟨p, hp, hq⟩ := h
      -- The one that is looked for is not the first, so it stands among the others.
      have hne : p ≠ r := by
        rintro rfl
        simp [hr] at hq
      obtain ⟨before, p, after, rfl, hbefore, hq⟩ :=
        ih ⟨p, List.mem_of_ne_of_mem hne hp, hq⟩
      exact ⟨r :: before, p, after, rfl, by simpa using ⟨hr, hbefore⟩, hq⟩
    · exact ⟨[], r, ps, rfl, by simp, by simpa using hr⟩

theorem exists_last_of_exists {q : Piece → Bool} (h : ∃ p ∈ ps, q p = false) :
    ∃ before p after, ps = before ++ p :: after ∧ q p = false ∧ ∀ r ∈ after, q r := by
  obtain ⟨p, hp, hq⟩ := h
  obtain ⟨after, last, before, hreverse, hafter, hlast⟩ :=
    exists_first_of_exists ⟨p, List.mem_reverse.2 hp, hq⟩
  refine ⟨before.reverse, last, after.reverse, ?_, hlast, ?_⟩
  · have := congrArg List.reverse hreverse
    simpa using this
  · exact fun r hr => hafter r (List.mem_reverse.1 hr)

theorem exists_mem_pieces {line : Text} (h : Text.isBlankText line = false) :
    ∃ p ∈ pieces line, p.isBlank = false := by
  by_contra hall
  simp only [not_exists, not_and, Bool.not_eq_false] at hall
  obtain ⟨t, ht, hblank⟩ := exists_eq_map_char (fun _ => rfl) hall
  have hline := flatMap_text_pieces line
  rw [ht, flatMap_text_map_char] at hline
  rw [← hline, Text.isBlankText, ← Bool.not_eq_true, List.all_eq_true] at h
  exact h hblank

theorem Piece.not_isGap_of_not_isBlank (h : p.isBlank = false) : p.isGap = false := by
  rw [← Bool.not_eq_true]
  intro hgap
  simp [isBlank_of_isGap hgap] at h

/-- A line that is not blank has a core. -/
theorem exists_core {line : Text} (h : Text.isBlankText line = false) :
    ∃ (lead : Text) (body : List Piece) (trail : Text),
      pieces line = lead.map .char ++ body ++ trail.map .char ∧
        (∀ c ∈ lead, isGap c) ∧ (∀ c ∈ trail, Text.isBlank c) ∧ IsCore body := by
  obtain ⟨p, hp, hblank⟩ := exists_mem_pieces h
  have hgap := Piece.not_isGap_of_not_isBlank hblank
  obtain ⟨before, first, after, hsplit, hbefore, hfirst⟩ := exists_first_of_exists ⟨p, hp, hgap⟩
  -- What is no blank is no gap, so it stands where the core may begin or behind that.
  have hmem : p ∈ first :: after := by
    rw [hsplit] at hp
    refine (List.mem_append.1 hp).resolve_left fun hp => ?_
    simp [hbefore p hp] at hgap
  obtain ⟨body, last, rest, hbody, hlast, hrest⟩ := exists_last_of_exists ⟨p, hmem, hblank⟩
  obtain ⟨lead, rfl, hlead⟩ := exists_eq_map_char (fun _ => rfl) hbefore
  obtain ⟨trail, rfl, htrail⟩ := exists_eq_map_char (fun _ => rfl) hrest
  refine ⟨lead, body ++ [last], trail, ?_, hlead, htrail, ?_, _, _, rfl, hlast⟩
  · rw [hsplit, hbody]
    simp
  · cases body with
    | nil => exact ⟨last, [], rfl, (List.cons.inj hbody).1 ▸ hfirst⟩
    | cons r ps => exact ⟨r, ps ++ [last], rfl, (List.cons.inj hbody).1 ▸ hfirst⟩

theorem not_isGap_nul : isGap nul = false := by decide

theorem not_isBlank_nul : Text.isBlank nul = false := by decide

theorem exists_marked_cons (h : p.isGap = false) (n : Nat) (ps : List Piece) :
    ∃ c t, marked n (p :: ps) = c :: t ∧ isGap c = false := by
  cases p with
  | char c => exact ⟨c, _, rfl, h⟩
  | literal l => exact ⟨nul, _, rfl, not_isGap_nul⟩

theorem exists_marked_concat (h : p.isBlank = false) (n : Nat) (ps : List Piece) :
    ∃ c t, marked n (ps ++ [p]) = t ++ [c] ∧ Text.isBlank c = false := by
  induction ps generalizing n with
  | nil =>
    cases p with
    | char c => exact ⟨c, [], rfl, h⟩
    | literal l => exact ⟨nul, nul :: Text.natural n, by simp [marked, mark], not_isBlank_nul⟩
  | cons q ps ih =>
    cases q with
    | char d =>
      obtain ⟨c, t, hmarked, hc⟩ := ih n
      exact ⟨c, d :: t, by rw [List.cons_append, marked, hmarked, List.cons_append], hc⟩
    | literal l =>
      obtain ⟨c, t, hmarked, hc⟩ := ih (n + 1)
      exact ⟨c, mark n ++ t, by rw [List.cons_append, marked, hmarked, List.append_assoc], hc⟩

theorem dropWhile_isGap_marked (hlead : ∀ c ∈ t, isGap c) (h : IsCore body) (n : Nat) :
    (t ++ marked n body).dropWhile isGap = marked n body := by
  obtain ⟨p, ps, rfl, hp⟩ := h.head
  obtain ⟨c, rest, hmarked, hc⟩ := exists_marked_cons hp n ps
  rw [List.dropWhile_append_of_pos hlead, hmarked, List.dropWhile_cons_of_neg (by simp [hc])]

theorem trimRight_marked (htrail : ∀ c ∈ t, Text.isBlank c) (h : IsCore body) (n : Nat)
    (lead : Text) : Text.trimRight (lead ++ marked n body ++ t) = lead ++ marked n body := by
  obtain ⟨ps, p, rfl, hp⟩ := h.last
  obtain ⟨c, init, hmarked, hc⟩ := exists_marked_concat hp n ps
  have htrail' : ∀ c ∈ t.reverse, Text.isBlank c := fun c hc => htrail c (List.mem_reverse.1 hc)
  rw [hmarked, Text.trimRight, List.reverse_append, List.dropWhile_append_of_pos htrail',
    ← List.append_assoc, List.reverse_append]
  simp [hc]

/-! ### One space for every run -/

theorem collapsePieces_cons_of_gap (h : p.isGap) (ps : List Piece) :
    collapsePieces false (p :: ps) = .char ' ' :: collapsePieces true ps := by
  rw [collapsePieces, if_pos h, if_neg Bool.false_ne_true]

theorem collapsePieces_true_cons_of_gap (h : p.isGap) (ps : List Piece) :
    collapsePieces true (p :: ps) = collapsePieces true ps := by
  rw [collapsePieces, if_pos h, if_pos rfl]

theorem collapsePieces_cons_of_not_gap (h : p.isGap = false) (gap : Bool) (ps : List Piece) :
    collapsePieces gap (p :: ps) = p :: collapsePieces false ps := by
  rw [collapsePieces, h, if_neg Bool.false_ne_true]

theorem collapse_cons (c : Char) (t : Text) : collapse (c :: t) =
    if isGap c then (if (collapse t).head? = some ' ' then collapse t else ' ' :: collapse t)
    else c :: collapse t := rfl

theorem ne_space_of_not_isGap (h : isGap c = false) : c ≠ ' ' := by
  rintro rfl
  exact absurd h (by decide)

theorem not_isDigit_of_isGap (h : isGap c) : Text.isDigit c = false := by
  simp only [isGap, Bool.or_eq_true, decide_eq_true_eq] at h
  rcases h with rfl | rfl <;> decide

theorem isGap_of_mem_mark (h : c ∈ mark n) : isGap c = false := by
  rcases List.mem_cons.1 h with rfl | h
  · exact not_isGap_nul
  · rcases List.mem_append.1 h with h | h
    · have hdigit := Text.isDigit_of_mem_natural h
      rw [Bool.eq_false_iff]
      intro hgap
      rw [not_isDigit_of_isGap hgap] at hdigit
      cases hdigit
    · rw [List.mem_singleton.1 h]
      exact not_isGap_nul

theorem collapse_append_of_not_isGap (h : ∀ c ∈ t, isGap c = false) (rest : Text) :
    collapse (t ++ rest) = t ++ collapse rest := by
  induction t with
  | nil => rfl
  | cons c t ih =>
    rw [List.cons_append, collapse_cons, h c (by simp), ih fun d hd => h d (by simp [hd])]
    rfl

/-- The text with marks is collapsed as its pieces are. -/
theorem collapse_marked (n : Nat) (ps : List Piece) :
    collapse (marked n ps) = marked n (collapsePieces false ps) := by
  induction ps generalizing n with
  | nil => rfl
  | cons p ps ih =>
    cases p with
    | literal l =>
      rw [marked, collapse_append_of_not_isGap fun c hc => isGap_of_mem_mark hc, ih]
      rfl
    | char c =>
      rw [marked, collapse_cons, ih, collapsePieces, Piece.isGap]
      by_cases hc : isGap c
      · rw [if_pos hc, if_pos hc, if_neg Bool.false_ne_true, marked]
        -- The run goes on exactly if the next piece is a gap as well.
        cases ps with
        | nil => rfl
        | cons q ps =>
          rw [collapsePieces, collapsePieces]
          by_cases hq : q.isGap
          · simp [hq, marked]
          · obtain ⟨d, t, hmarked, hd⟩ :=
              exists_marked_cons (by simpa using hq) n (collapsePieces false ps)
            simp [hq, hmarked, ne_space_of_not_isGap hd]
      · rw [if_neg hc, if_neg hc, marked]

theorem literals_collapsePieces (gap : Bool) (ps : List Piece) :
    literals (collapsePieces gap ps) = literals ps := by
  induction ps generalizing gap with
  | nil => rfl
  | cons p ps ih =>
    cases p with
    | literal l => exact congrArg (l :: ·) (ih false)
    | char c =>
      rw [collapsePieces, literals_char]
      split
      · split
        · exact ih true
        · rw [literals_char, ih]
      · rw [literals_char, ih]

/-! ### Spacing and the marks that a line holds -/

theorem completesMark_cons_iff : CompletesMark (p :: ps) ↔
    ∃ d, p = .char d ∧ Text.isDigit d ∧ (ps.head?.any Piece.beginsWithNul ∨ CompletesMark ps) := by
  constructor
  · rintro (⟨hd, hp⟩ | ⟨hd, h⟩)
    · exact ⟨_, rfl, hd, .inl hp⟩
    · exact ⟨_, rfl, hd, .inr h⟩
  · rintro ⟨d, rfl, hd, hp | h⟩
    · cases ps with
      | nil => cases hp
      | cons p ps => exact .last hd hp
    · exact .more hd h

theorem not_completesMark_cons_of_isGap (h : p.isGap) (ps : List Piece) : ¬ CompletesMark (p :: ps) := by
  rw [completesMark_cons_iff]
  rintro ⟨d, rfl, hd, -⟩
  rw [not_isDigit_of_isGap h] at hd
  cases hd

theorem ne_nul_of_isGap (h : p.isGap) : p ≠ .char nul := by
  rintro rfl
  exact absurd h (by decide)

theorem any_head?_collapsePieces (ps : List Piece) :
    (collapsePieces false ps).head?.any Piece.beginsWithNul = ps.head?.any Piece.beginsWithNul := by
  cases ps with
  | nil => rfl
  | cons p ps =>
    by_cases hp : p.isGap
    · rw [collapsePieces_cons_of_gap hp]
      cases p with
      | char c =>
        have hc : c ≠ nul := fun hc => ne_nul_of_isGap hp (by rw [hc])
        simp [Piece.beginsWithNul, hc]
        decide
      | literal l => cases hp
    · rw [collapsePieces_cons_of_not_gap (by simpa using hp)]
      rfl

theorem completesMark_collapsePieces_iff : CompletesMark (collapsePieces false ps) ↔ CompletesMark ps := by
  induction ps with
  | nil => rfl
  | cons p ps ih =>
    by_cases hp : p.isGap
    · rw [collapsePieces_cons_of_gap hp]
      exact iff_of_false (not_completesMark_cons_of_isGap (by decide) _)
        (not_completesMark_cons_of_isGap hp ps)
    · rw [collapsePieces_cons_of_not_gap (by simpa using hp), completesMark_cons_iff,
        completesMark_cons_iff, any_head?_collapsePieces, ih]

theorem holdsMark_collapsePieces_iff (gap : Bool) :
    HoldsMark (collapsePieces gap ps) ↔ HoldsMark ps := by
  induction ps generalizing gap with
  | nil => rfl
  | cons p ps ih =>
    by_cases hp : p.isGap
    · -- A gap is no NUL, so no mark begins with it, whether or not it stays.
      have hrest : HoldsMark (p :: ps) ↔ HoldsMark ps := by
        rw [holdsMark_cons_iff, or_iff_right fun h => ne_nul_of_isGap hp h.1]
      cases gap with
      | true => rw [collapsePieces_true_cons_of_gap hp, ih, hrest]
      | false =>
        rw [collapsePieces_cons_of_gap hp, holdsMark_cons_iff,
          or_iff_right fun h => ne_nul_of_isGap (by decide) h.1, ih, hrest]
    · rw [collapsePieces_cons_of_not_gap (by simpa using hp), holdsMark_cons_iff, holdsMark_cons_iff,
        completesMark_collapsePieces_iff, ih]

theorem holdsMark_map_char_append_iff (h : nul ∉ t) :
    HoldsMark (t.map .char ++ ps) ↔ HoldsMark ps := by
  induction t with
  | nil => rfl
  | cons c t ih =>
    obtain ⟨hc, ht⟩ := not_or.1 (mt List.mem_cons.2 h)
    have hne : Piece.char c ≠ .char nul := fun heq => hc (Piece.char.inj heq).symm
    rw [List.map_cons, List.cons_append, holdsMark_cons_iff, or_iff_right fun h => hne h.1, ih ht]

theorem not_beginsWithNul_of_mem_map_char (h : nul ∉ t) (hp : p ∈ t.map Piece.char) :
    p.beginsWithNul = false := by
  obtain ⟨c, hc, rfl⟩ := List.mem_map.1 hp
  have hne : c ≠ nul := fun heq => h (heq ▸ hc)
  simpa [Piece.beginsWithNul] using hne

theorem any_head?_append_map_char (h : nul ∉ t) (ps : List Piece) :
    (ps ++ t.map Piece.char).head?.any Piece.beginsWithNul = ps.head?.any Piece.beginsWithNul := by
  cases ps with
  | cons p ps => rfl
  | nil =>
    rw [List.nil_append, List.head?_nil, Option.any_none, Option.any_eq_false]
    exact fun p hp => not_beginsWithNul_of_mem_map_char h (List.mem_of_mem_head? hp)

theorem exists_beginsWithNul_of_completesMark (h : CompletesMark ps) :
    ∃ p ∈ ps, p.beginsWithNul := by
  induction h with
  | last _ hp => exact ⟨_, by simp, hp⟩
  | more _ _ ih =>
    obtain ⟨p, hmem, hp⟩ := ih
    exact ⟨p, List.mem_cons_of_mem _ hmem, hp⟩

theorem completesMark_append_map_char_iff (h : nul ∉ t) :
    CompletesMark (ps ++ t.map .char) ↔ CompletesMark ps := by
  induction ps with
  | nil =>
    refine iff_of_false (fun hcompletes => ?_) nofun
    obtain ⟨p, hmem, hp⟩ := exists_beginsWithNul_of_completesMark hcompletes
    rw [not_beginsWithNul_of_mem_map_char h hmem] at hp
    cases hp
  | cons p ps ih =>
    rw [List.cons_append, completesMark_cons_iff, completesMark_cons_iff, ih,
      any_head?_append_map_char h]

theorem holdsMark_append_map_char_iff (h : nul ∉ t) :
    HoldsMark (ps ++ t.map .char) ↔ HoldsMark ps := by
  induction ps with
  | nil =>
    have hchars : HoldsMark (t.map .char ++ []) ↔ HoldsMark [] := holdsMark_map_char_append_iff h
    rwa [List.append_nil] at hchars
  | cons p ps ih =>
    rw [List.cons_append, holdsMark_cons_iff, holdsMark_cons_iff, ih,
      completesMark_append_map_char_iff h]

/-! ### A line with regular spacing -/

theorem mem_of_char_mem_pieces {line : Text} (h : .char c ∈ pieces line) : c ∈ line := by
  rw [← flatMap_text_pieces line]
  exact List.mem_flatMap.2 ⟨_, h, List.mem_singleton_self c⟩

theorem not_holdsMark {line : Text} (h : nul ∉ line) : ¬ HoldsMark (pieces line) :=
  fun hmark => h (mem_of_char_mem_pieces (nul_mem_of_holdsMark hmark))

/-- The pieces of a line with regular spacing: some spaces, and the collapsed core. -/
def spacedPieces (indent : Nat) (body : List Piece) : List Piece :=
  (List.replicate indent ' ').map .char ++ collapsePieces false body

theorem literals_spacedPieces (indent : Nat) (body : List Piece) :
    literals (spacedPieces indent body) = literals body := by
  rw [spacedPieces, literals_append, literals_map_char, literals_collapsePieces, List.nil_append]

theorem flatMap_text_spacedPieces (indent : Nat) (body : List Piece) :
    (spacedPieces indent body).flatMap Piece.text =
      List.replicate indent ' ' ++ (collapsePieces false body).flatMap Piece.text := by
  rw [spacedPieces, List.flatMap_append, flatMap_text_map_char]

theorem nul_not_mem_of_isBlank (h : ∀ c ∈ t, Text.isBlank c) : nul ∉ t := by
  intro hmem
  have hblank := h nul hmem
  rw [not_isBlank_nul] at hblank
  cases hblank

section

variable {line lead trail : Text}

/-- Spacing neither makes a mark nor breaks one. -/
theorem holdsMark_spacedPieces_iff (hline : pieces line = lead.map .char ++ body ++ trail.map .char)
    (hlead : ∀ c ∈ lead, isGap c) (htrail : ∀ c ∈ trail, Text.isBlank c) (indent : Nat) :
    HoldsMark (spacedPieces indent body) ↔ HoldsMark (pieces line) := by
  have hspaces : nul ∉ List.replicate indent ' ' := by simp [nul]
  have hlead : nul ∉ lead := nul_not_mem_of_isBlank fun c hc => isBlank_of_isGap (hlead c hc)
  rw [hline, holdsMark_append_map_char_iff (nul_not_mem_of_isBlank htrail),
    holdsMark_map_char_append_iff hlead, spacedPieces, holdsMark_map_char_append_iff hspaces,
    holdsMark_collapsePieces_iff]

/-- Of a line that is not blank the pieces with regular spacing are marked, and the literals put
back for their marks. -/
theorem normalizeLine_eq_restore (limit : Int)
    (hline : pieces line = lead.map .char ++ body ++ trail.map .char)
    (hlead : ∀ c ∈ lead, isGap c) (htrail : ∀ c ∈ trail, Text.isBlank c) (hbody : IsCore body) :
    normalizeLine limit line = restore (literals body).toArray
      (marked 0 (spacedPieces (min (lead.length : Int) limit).toNat body)) := by
  have hwork : Text.trimRight (marked 0 (pieces line)) = lead ++ marked 0 body := by
    rw [hline, marked_append_char, marked_char_append, trimRight_marked htrail hbody]
  have hne : (marked 0 body).isEmpty = false := by
    obtain ⟨p, ps, rfl, hp⟩ := hbody.head
    obtain ⟨c, t, hmarked, -⟩ := exists_marked_cons hp 0 ps
    simp [hmarked]
  have hlength : (lead ++ marked 0 body).length - (marked 0 body).length = lead.length := by simp
  have hliterals : literals (pieces line) = literals body := by
    rw [hline, literals_append, literals_append, literals_map_char, literals_map_char]
    simp
  rw [normalizeLine, hwork, dropWhile_isGap_marked hlead hbody]
  dsimp only
  rw [hne, if_neg Bool.false_ne_true, hlength, collapse_marked, hliterals, spacedPieces,
    marked_char_append]

/-- A line that holds no mark is changed as its pieces are. -/
theorem normalizeLine_eq (limit : Int) (hmark : ¬ HoldsMark (pieces line))
    (hline : pieces line = lead.map .char ++ body ++ trail.map .char)
    (hlead : ∀ c ∈ lead, isGap c) (htrail : ∀ c ∈ trail, Text.isBlank c) (hbody : IsCore body) :
    normalizeLine limit line =
      .ok (List.replicate (min (lead.length : Int) limit).toNat ' ' ++
        (collapsePieces false body).flatMap Piece.text) := by
  rw [normalizeLine_eq_restore limit hline hlead htrail hbody, restore_marked,
    flatMap_text_spacedPieces]
  · rwa [holdsMark_spacedPieces_iff hline hlead htrail]
  · rw [literals_spacedPieces]
    rfl

end

end Userscript.Script
