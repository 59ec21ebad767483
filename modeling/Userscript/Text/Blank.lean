/-!
# Blanks

Texts are lists of characters. A blank is a character of the Unicode white space
class together with the four ASCII separators; the zero width space and the byte
order mark are not blanks.

## Main definitions

* `Text` — a text, one code point per element
* `Text.isBlank` — the class of blanks
* `Text.trimLeft`, `Text.trimRight`, `Text.trim` — a text without its outer blanks
* `Text.squeeze` — a text without any blank

## Main results

* `trim_trim` — trimming once more changes nothing
* `trimLeft_trimRight` — it does not matter at which end the blanks are taken away first
* `trim_eq_nil_iff` — nothing is left exactly when every character is a blank
-/

namespace Userscript

/-- A text, as its list of code points. -/
abbrev Text := List Char

namespace Text

/-- The ranges of code points, ends included, whose characters are blanks. -/
def blankRanges : List (Nat × Nat) :=
  [(0x09, 0x0D), (0x1C, 0x20), (0x85, 0x85), (0xA0, 0xA0), (0x1680, 0x1680),
    (0x2000, 0x200A), (0x2028, 0x2029), (0x202F, 0x202F), (0x205F, 0x205F), (0x3000, 0x3000)]

/-- Whether a character is a blank. -/
def isBlank (c : Char) : Bool :=
  blankRanges.any fun (low, high) => low ≤ c.toNat && c.toNat ≤ high

/-- The text without the blanks it begins with. -/
def trimLeft (t : Text) : Text := t.dropWhile isBlank

/-- The text without the blanks it ends with. -/
def trimRight (t : Text) : Text := (t.reverse.dropWhile isBlank).reverse

/-- The text without the blanks it begins and ends with. -/
def trim (t : Text) : Text := trimRight (trimLeft t)

/-- The text with every blank taken out. -/
def squeeze (t : Text) : Text := t.filter fun c => !isBlank c

/-- Whether a text has no character but blanks. -/
def isBlankText (t : Text) : Bool := t.all isBlank

/-- Every character that core counts as white space is a blank. -/
theorem isBlank_of_isWhitespace {c : Char} (h : c.isWhitespace) : isBlank c := by
  simp only [Char.isWhitespace, Bool.or_eq_true, decide_eq_true_eq] at h
  rcases h with ((rfl | rfl) | rfl) | rfl <;> decide

theorem dropWhile_isBlank_eq_nil_iff {t : Text} : t.dropWhile isBlank = [] ↔ ∀ c ∈ t, isBlank c := by
  induction t with
  | nil => simp
  | cons c t ih => by_cases h : isBlank c <;> simp [h, ih]

theorem trimRight_eq_nil_iff {t : Text} : trimRight t = [] ↔ ∀ c ∈ t, isBlank c := by
  rw [trimRight, List.reverse_eq_nil_iff, dropWhile_isBlank_eq_nil_iff]
  simp only [List.mem_reverse]

theorem trimLeft_cons {c : Char} (h : isBlank c = false) (t : Text) : trimLeft (c :: t) = c :: t := by
  rw [trimLeft, List.dropWhile_cons_of_neg (by simp [h])]

theorem trimLeft_cons_of_isBlank {c : Char} (h : isBlank c) (t : Text) :
    trimLeft (c :: t) = trimLeft t :=
  List.dropWhile_cons_of_pos h

theorem trimLeft_trimLeft (t : Text) : trimLeft (trimLeft t) = trimLeft t := by
  induction t with
  | nil => rfl
  | cons c t ih => by_cases h : isBlank c <;> simp_all [trimLeft]

theorem trimRight_concat {c : Char} (h : isBlank c = false) (t : Text) :
    trimRight (t ++ [c]) = t ++ [c] := by
  rw [trimRight, List.reverse_concat, List.dropWhile_cons_of_neg (by simp [h]),
    List.reverse_cons, List.reverse_reverse]

/-- A character that is no blank stands before the blanks that are taken away at the end. -/
theorem trimRight_append_cons {c : Char} (h : isBlank c = false) (s t : Text) :
    trimRight (s ++ c :: t) = s ++ c :: trimRight t := by
  rw [trimRight, List.reverse_append, List.reverse_cons, List.append_assoc, List.dropWhile_append,
    trimRight]
  split
  · next hnil => simp [List.isEmpty_iff.1 hnil, h]
  · simp

theorem trimRight_cons {c : Char} (h : isBlank c = false) (t : Text) :
    trimRight (c :: t) = c :: trimRight t :=
  trimRight_append_cons h [] t

theorem trimLeft_blank_append {gap : Text} (h : ∀ c ∈ gap, isBlank c) (t : Text) :
    trimLeft (gap ++ t) = trimLeft t :=
  List.dropWhile_append_of_pos h

theorem trimRight_append_blank {gap : Text} (h : ∀ c ∈ gap, isBlank c) (t : Text) :
    trimRight (t ++ gap) = trimRight t := by
  rw [trimRight, List.reverse_append,
    List.dropWhile_append_of_pos fun c hc => h c (List.mem_reverse.1 hc), trimRight]

/-- A text is the blanks it begins with and what is left without them. -/
theorem exists_append_trimLeft (t : Text) :
    ∃ gap : Text, (∀ c ∈ gap, isBlank c) ∧ t = gap ++ trimLeft t :=
  ⟨t.takeWhile isBlank, fun _ hc => List.all_eq_true.1 List.all_takeWhile _ hc,
    List.takeWhile_append_dropWhile.symm⟩

/-- A text is the blanks it ends with and what is left without them. -/
theorem exists_trimRight_append (t : Text) :
    ∃ gap : Text, (∀ c ∈ gap, isBlank c) ∧ t = trimRight t ++ gap := by
  obtain ⟨gap, hgap, h⟩ := exists_append_trimLeft t.reverse
  refine ⟨gap.reverse, fun c hc => hgap c (List.mem_reverse.1 hc), ?_⟩
  have hreverse := congrArg List.reverse h
  rwa [List.reverse_reverse, List.reverse_append] at hreverse

theorem not_isBlank_head?_trimLeft {t : Text} {c : Char} (h : c ∈ (trimLeft t).head?) :
    isBlank c = false := by
  have hdrop := List.head?_dropWhile_not isBlank t
  rw [trimLeft, Option.mem_def] at h
  rwa [h] at hdrop

theorem not_isBlank_getLast?_trimRight {t : Text} {c : Char} (h : c ∈ (trimRight t).getLast?) :
    isBlank c = false := by
  rw [trimRight, List.getLast?_reverse] at h
  exact not_isBlank_head?_trimLeft h

/-- What is left of a text without the blanks it ends with ends in no blank. -/
theorem trimRight_eq_nil_or_concat (t : Text) :
    trimRight t = [] ∨ ∃ s c, trimRight t = s ++ [c] ∧ isBlank c = false := by
  rcases List.eq_nil_or_concat (trimRight t) with h | ⟨s, c, h⟩
  · exact .inl h
  · rw [List.concat_eq_append] at h
    exact .inr ⟨s, c, h, not_isBlank_getLast?_trimRight (t := t) (by rw [h]; simp)⟩

theorem trimLeft_trim (t : Text) : trimLeft (trim t) = trim t := by
  induction t with
  | nil => rfl
  | cons c t ih =>
    by_cases h : isBlank c
    · rw [trim, trimLeft_cons_of_isBlank h]
      exact ih
    · have h : isBlank c = false := by simpa using h
      rw [trim, trimLeft_cons h, trimRight_cons h, trimLeft_cons h]

/-- Trimming once more changes nothing. -/
theorem trim_trim (t : Text) : trim (trim t) = trim t := by
  have hright (u : Text) : trimRight (trimRight u) = trimRight u := by
    have hreverse := congrArg List.reverse (trimLeft_trimLeft u.reverse)
    simpa only [trimRight, trimLeft, List.reverse_reverse] using hreverse
  rw [trim, trimLeft_trim, trim, hright]

theorem trim_sublist (t : Text) : (trim t).Sublist t := by
  have hright : (trimRight (trimLeft t)).Sublist (trimLeft t) := by
    have hreverse := (List.dropWhile_sublist isBlank (l := (trimLeft t).reverse)).reverse
    rwa [List.reverse_reverse] at hreverse
  exact hright.trans (List.dropWhile_sublist isBlank)

/-- The blanks at the beginning of a part may be those of another. -/
theorem trimLeft_append_congr {s s' : Text} (h : trimLeft s = trimLeft s') (t : Text) :
    trimLeft (s ++ t) = trimLeft (s' ++ t) := by
  have hfirst (s : Text) : trimLeft (s ++ t) = trimLeft (trimLeft s ++ t) := by
    obtain ⟨gap, hgap, hs⟩ := exists_append_trimLeft s
    have := trimLeft_blank_append hgap (trimLeft s ++ t)
    rwa [← List.append_assoc, ← hs] at this
  rw [hfirst, h, ← hfirst]

/-- It does not matter at which end the blanks are taken away first. -/
theorem trimLeft_trimRight (t : Text) : trimLeft (trimRight t) = trim t := by
  obtain ⟨gap, hgap, ht⟩ := exists_append_trimLeft t
  rw [trim]
  cases hleft : trimLeft t with
  | nil =>
    rw [hleft, List.append_nil] at ht
    rw [ht, trimRight_eq_nil_iff.2 hgap]
    rfl
  | cons c u =>
    have hc : isBlank c = false := not_isBlank_head?_trimLeft (t := t) (by rw [hleft]; rfl)
    rw [ht, hleft, trimRight_append_cons hc, trimLeft_blank_append hgap, trimLeft_cons hc,
      trimRight_cons hc]

theorem trim_concat {c : Char} (h : isBlank c = false) (t : Text) :
    trim (t ++ [c]) = trimLeft (t ++ [c]) := by
  rw [← trimLeft_trimRight, trimRight_concat h]

theorem trim_trimLeft (t : Text) : trim (trimLeft t) = trim t := by
  rw [trim, trimLeft_trimLeft, trim]

theorem forall_isBlank_trimLeft_iff {t : Text} :
    (∀ c ∈ trimLeft t, isBlank c) ↔ ∀ c ∈ t, isBlank c := by
  induction t with
  | nil => simp [trimLeft]
  | cons c t ih => by_cases h : isBlank c <;> simp_all [trimLeft]

/-- Trimming leaves nothing exactly when every character is a blank. -/
theorem trim_eq_nil_iff {t : Text} : trim t = [] ↔ ∀ c ∈ t, isBlank c := by
  rw [trim, trimRight_eq_nil_iff, forall_isBlank_trimLeft_iff]

end Text

end Userscript
