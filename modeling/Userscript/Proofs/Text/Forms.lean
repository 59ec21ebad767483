import Userscript.Text.Form

/-!
# Where forms apply

A form that is put together from others covers what its parts cover, one after the other, and a
search finds the first place where its form applies. Whether a form applies can be told without what
it covers: a property of texts says which of them have to stand at the beginning.

## Main definitions

* `Form.Skips` — a form applies nowhere in the beginning of a text
* `Form.Reads` — a form applies where a text with a property stands
* `Form.Least` — a form covers the shortest text with a property

## Main results

* `andThen_eq_some_iff`, `upTo_eq_some_iff` — what forms cover that are put together from others
* `search_eq_some_iff` — what a search finds
* `Reads.search_ne_none_iff` — a search finds something if a piece of the text has the property
* `Reads.upTo_fixed_andThen` — a gap before a fixed text may be taken to end anywhere
* `Least.upTo_fixed_andThen` — gaps that are as short as possible one by one are so together
-/

namespace Userscript.Text.Form

variable {form first second : Form} {t covered rest before : Text} {needle : Text}

theorem fixed_eq_some_iff :
    fixed needle t = some (covered, rest) ↔ covered = needle ∧ t = needle ++ rest := by
  simp only [fixed, Option.map_eq_some_iff, after?_eq_some_iff, Prod.mk.injEq]
  constructor
  · rintro ⟨_, ht, rfl, rfl⟩
    exact ⟨rfl, ht⟩
  · rintro ⟨rfl, ht⟩
    exact ⟨rest, ht, rfl, rfl⟩

theorem andThen_eq_some_iff : first.andThen second t = some (covered, rest) ↔
    ∃ c middle c', first t = some (c, middle) ∧ second middle = some (c', rest) ∧
      covered = c ++ c' := by
  simp only [andThen, Option.bind_eq_bind, Option.pure_def, Option.bind_eq_some_iff,
    Option.some.injEq, Prod.mk.injEq, Prod.exists]
  constructor
  · rintro ⟨c, middle, hfirst, c', _, hsecond, rfl, rfl⟩
    exact ⟨c, middle, c', hfirst, hsecond, rfl⟩
  · rintro ⟨c, middle, c', hfirst, hsecond, rfl⟩
    exact ⟨c, middle, hfirst, c', rest, hsecond, rfl, rfl⟩

/-- A form applies nowhere in the beginning `before` of a text that goes on with `t`. -/
def Skips (form : Form) : Text → Text → Prop
  | [], _ => True
  | c :: before, t => form (c :: (before ++ t)) = none ∧ Skips form before t

/-- A form skips nothing of a text, or does not apply at its first character and skips part of the rest. -/
theorem exists_skips_cons_iff {c : Char} {P : Text → Text → Prop} :
    (∃ before t', c :: t = before ++ t' ∧ Skips form before t' ∧ P before t') ↔
      P [] (c :: t) ∨ form (c :: t) = none ∧
        ∃ before t', t = before ++ t' ∧ Skips form before t' ∧ P (c :: before) t' := by
  constructor
  · rintro ⟨before, t', ht, hskips, hP⟩
    cases before with
    | nil =>
      obtain rfl : c :: t = t' := ht
      exact .inl hP
    | cons d before =>
      obtain ⟨rfl, rfl⟩ := List.cons.inj ht
      exact .inr ⟨hskips.1, before, t', rfl, hskips.2, hP⟩
  · rintro (hP | ⟨hnone, before, t', rfl, hskips, hP⟩)
    · exact ⟨[], c :: t, rfl, trivial, hP⟩
    · exact ⟨c :: before, t', rfl, ⟨hnone, hskips⟩, hP⟩

theorem searchFrom_eq_some_iff {seen found : Text} :
    searchFrom form seen t = some (found, covered, rest) ↔
      ∃ before t', t = before ++ t' ∧ Skips form before t' ∧ form t' = some (covered, rest) ∧
        found = seen.reverse ++ before := by
  -- `seen` is what has been passed over, its last character first.
  induction t generalizing seen with
  | nil =>
    simp only [searchFrom, Option.map_eq_some_iff, Prod.mk.injEq, Prod.exists]
    constructor
    · rintro ⟨_, _, hform, rfl, rfl, rfl⟩
      exact ⟨[], [], rfl, trivial, hform, by simp⟩
    · rintro ⟨before, t', ht, -, hform, rfl⟩
      obtain ⟨rfl, rfl⟩ := List.append_eq_nil_iff.1 ht.symm
      exact ⟨covered, rest, hform, by simp, rfl, rfl⟩
  | cons c t ih =>
    rw [searchFrom, exists_skips_cons_iff]
    cases hform : form (c :: t) with
    | some span =>
      obtain ⟨c', r'⟩ := span
      simp only [Option.some.injEq, Prod.mk.injEq, List.append_nil, reduceCtorEq, false_and, or_false]
      constructor
      · rintro ⟨rfl, rfl, rfl⟩
        exact ⟨⟨rfl, rfl⟩, rfl⟩
      · rintro ⟨⟨rfl, rfl⟩, rfl⟩
        exact ⟨rfl, rfl, rfl⟩
    | none =>
      simp only [ih, List.reverse_cons, List.append_assoc, List.singleton_append, reduceCtorEq, false_and,
        true_and, false_or]

/-- A search finds the first place where its form applies. -/
theorem search_eq_some_iff : search form t = some (before, covered, rest) ↔
    ∃ t', t = before ++ t' ∧ Skips form before t' ∧ form t' = some (covered, rest) := by
  rw [search, searchFrom_eq_some_iff]
  constructor
  · rintro ⟨before, t', ht, hskips, hform, rfl⟩
    exact ⟨t', ht, hskips, hform⟩
  · rintro ⟨t', ht, hskips, hform⟩
    exact ⟨before, t', ht, hskips, hform, rfl⟩

/-- A gap reaches to the first place where the form behind it applies. -/
theorem upTo_eq_some_iff : upTo form t = some (covered, rest) ↔
    ∃ before t' c, t = before ++ t' ∧ Skips form before t' ∧ form t' = some (c, rest) ∧
      covered = before ++ c := by
  simp only [upTo, Option.map_eq_some_iff, Prod.exists, Prod.mk.injEq, search_eq_some_iff]
  constructor
  · rintro ⟨before, c, _, ⟨t', ht, hskips, hform⟩, rfl, rfl⟩
    exact ⟨before, t', c, ht, hskips, hform, rfl⟩
  · rintro ⟨before, t', c, ht, hskips, hform, rfl⟩
    exact ⟨before, c, rest, ⟨t', ht, hskips, hform⟩, rfl, rfl⟩

/-! ### What a form applies to -/

/-- A form applies to the texts that begin with one that has a property. -/
def Reads (form : Form) (P : Text → Prop) : Prop := ∀ t, form t ≠ none ↔ ∃ u, u <+: t ∧ P u

theorem andThen_ne_none_iff : first.andThen second t ≠ none ↔
    ∃ covered rest, first t = some (covered, rest) ∧ second rest ≠ none := by
  simp only [Option.ne_none_iff_exists', Prod.exists, andThen_eq_some_iff]
  constructor
  · rintro ⟨_, rest, c, middle, c', hfirst, hsecond, rfl⟩
    exact ⟨c, middle, hfirst, c', rest, hsecond⟩
  · rintro ⟨c, middle, hfirst, c', rest, hsecond⟩
    exact ⟨c ++ c', rest, c, middle, c', hfirst, hsecond, rfl⟩

theorem searchFrom_eq_none_iff {seen : Text} :
    searchFrom form seen t = none ↔ ∀ u, u <:+ t → form u = none := by
  induction t generalizing seen with
  | nil => simp [searchFrom]
  | cons c t ih =>
    rw [searchFrom]
    constructor
    · intro h u hu
      cases hform : form (c :: t) with
      | some found => simp [hform] at h
      | none =>
        rw [hform] at h
        rcases List.suffix_cons_iff.1 hu with rfl | hu
        · exact hform
        · exact ih.1 h u hu
    · intro h
      rw [h _ (List.suffix_refl _)]
      exact ih.2 fun u hu => h u (hu.trans (List.suffix_cons c t))

/-- A search fails if its form applies nowhere. -/
theorem search_eq_none_iff : search form t = none ↔ ∀ u, u <:+ t → form u = none := searchFrom_eq_none_iff

/-- A form does not apply before the place where a search finds it. -/
theorem Skips.eq_none {before gap u t' : Text} (h : Skips form before t') (heq : gap ++ u = before ++ t')
    (hlt : gap.length < before.length) : form u = none := by
  induction before generalizing gap with
  | nil => cases hlt
  | cons c before ih =>
    cases gap with
    | nil =>
      obtain rfl : u = c :: (before ++ t') := heq
      exact h.1
    | cons d gap => exact ih h.2 (List.cons.inj heq).2 (Nat.lt_of_succ_lt_succ hlt)

namespace Reads

variable {P : Text → Prop}

theorem congr {Q : Text → Prop} (h : Reads form P) (hiff : ∀ u, P u ↔ Q u) : Reads form Q := by
  intro t
  simp only [h t, hiff]

protected theorem fixed (needle : Text) : Reads (fixed needle) (· = needle) := by
  intro t
  rw [exists_eq_right]
  simp only [Option.ne_none_iff_exists', Prod.exists, fixed_eq_some_iff]
  constructor
  · rintro ⟨_, rest, -, rfl⟩
    exact List.prefix_append needle rest
  · rintro ⟨rest, rfl⟩
    exact ⟨needle, rest, rfl, rfl⟩

theorem fixed_andThen (h : Reads form P) (needle : Text) :
    Reads ((fixed needle).andThen form) fun u => ∃ v, u = needle ++ v ∧ P v := by
  intro t
  rw [andThen_ne_none_iff]
  simp only [fixed_eq_some_iff]
  constructor
  · rintro ⟨_, rest, ⟨rfl, rfl⟩, hrest⟩
    obtain ⟨v, hv, hP⟩ := (h rest).1 hrest
    exact ⟨_, (List.prefix_append_right_inj _).2 hv, v, rfl, hP⟩
  · rintro ⟨_, ⟨rest, rfl⟩, v, rfl, hP⟩
    exact ⟨_, v ++ rest, ⟨rfl, List.append_assoc _ _ _⟩, (h _).2 ⟨v, List.prefix_append v rest, hP⟩⟩

/-- The blanks before what is no blank are all that are read. -/
theorem blanks_andThen (h : Reads form P) (hP : ∀ u, P u → ∃ c v, u = c :: v ∧ isBlank c = false) :
    Reads (blanks.andThen form) fun u => ∃ gap v, (∀ c ∈ gap, isBlank c) ∧ u = gap ++ v ∧ P v := by
  intro t
  rw [andThen_ne_none_iff]
  simp only [blanks, run, Option.some.injEq, Prod.mk.injEq]
  constructor
  · rintro ⟨_, _, ⟨rfl, rfl⟩, hrest⟩
    obtain ⟨v, ⟨rest, hv⟩, hv'⟩ := (h _).1 hrest
    refine ⟨t.takeWhile isBlank ++ v, ⟨rest, ?_⟩, t.takeWhile isBlank, v,
      List.all_eq_true.1 List.all_takeWhile, rfl, hv'⟩
    rw [List.append_assoc, hv, List.takeWhile_append_dropWhile]
  · rintro ⟨_, ⟨rest, rfl⟩, gap, v, hgap, rfl, hv⟩
    obtain ⟨c, v, rfl, hc⟩ := hP v hv
    have hdrop : (gap ++ c :: v ++ rest).dropWhile isBlank = c :: v ++ rest := by
      rw [List.append_assoc, List.dropWhile_append_of_pos hgap, List.cons_append,
        List.dropWhile_cons_of_neg (by simp [hc])]
    refine ⟨_, _, ⟨rfl, rfl⟩, ?_⟩
    rw [hdrop]
    exact (h _).2 ⟨c :: v, List.prefix_append _ rest, hv⟩

/-- A search finds a form in a text if and only if a piece of it has the property. -/
theorem search_ne_none_iff (h : Reads form P) : search form t ≠ none ↔ ∃ u, u <:+: t ∧ P u := by
  rw [Ne, search_eq_none_iff]
  constructor
  · intro hfound
    refine Classical.byContradiction fun hnot => hfound fun u hu => Classical.byContradiction fun hform => hnot ?_
    obtain ⟨v, hv, hP⟩ := (h u).1 hform
    exact ⟨v, hv.isInfix.trans hu.isInfix, hP⟩
  · rintro ⟨u, ⟨gap, rest, rfl⟩, hP⟩ hnone
    rw [List.append_assoc] at hnone
    exact (h _).2 ⟨u, List.prefix_append u rest, hP⟩ (hnone _ (List.suffix_append gap _))

protected theorem upTo (h : Reads form P) : Reads (upTo form) fun u => ∃ gap v, u = gap ++ v ∧ P v := by
  intro t
  rw [upTo, Ne, Option.map_eq_none_iff, ← Ne, h.search_ne_none_iff]
  constructor
  · rintro ⟨v, ⟨gap, rest, rfl⟩, hP⟩
    exact ⟨gap ++ v, List.prefix_append _ rest, gap, v, rfl, hP⟩
  · rintro ⟨_, ⟨rest, rfl⟩, gap, v, rfl, hP⟩
    exact ⟨v, ⟨gap, rest, rfl⟩, hP⟩

end Reads

/-! ### The shortest piece -/

/-- What a form covers has a property, and no shorter beginning of the text has it. -/
def Least (form : Form) (P : Text → Prop) : Prop :=
  ∀ t covered rest, form t = some (covered, rest) →
    t = covered ++ rest ∧ P covered ∧ ∀ u, u <+: t → P u → covered.length ≤ u.length

namespace Least

variable {P : Text → Prop}

theorem congr {Q : Text → Prop} (h : Least form P) (hiff : ∀ u, P u ↔ Q u) : Least form Q := by
  intro t covered rest hform
  simpa only [hiff] using h t covered rest hform

theorem fixed_andThen (h : Least form P) (needle : Text) :
    Least ((fixed needle).andThen form) fun u => ∃ v, u = needle ++ v ∧ P v := by
  intro t covered rest hform
  obtain ⟨_, middle, covered, hfixed, hbehind, rfl⟩ := andThen_eq_some_iff.1 hform
  obtain ⟨rfl, rfl⟩ := fixed_eq_some_iff.1 hfixed
  obtain ⟨rfl, hP, hleast⟩ := h middle covered rest hbehind
  refine ⟨(List.append_assoc _ _ _).symm, ⟨covered, rfl, hP⟩, ?_⟩
  rintro _ hu ⟨v, rfl, hv⟩
  have hle := hleast v ((List.prefix_append_right_inj _).1 hu) hv
  simpa using hle

/-- The first place of a fixed text is not behind any other. -/
theorem upTo_fixed (needle : Text) : Least (upTo (fixed needle)) fun u => ∃ gap, u = gap ++ needle := by
  intro t covered rest hform
  obtain ⟨before, t', _, rfl, hskips, hfixed, rfl⟩ := upTo_eq_some_iff.1 hform
  obtain ⟨rfl, rfl⟩ := fixed_eq_some_iff.1 hfixed
  refine ⟨(List.append_assoc _ _ _).symm, ⟨before, rfl⟩, ?_⟩
  rintro _ ⟨more, hmore⟩ ⟨gap, rfl⟩
  rw [List.append_assoc] at hmore
  -- The needle would have been found at the end of a shorter gap.
  have hle : before.length ≤ gap.length := by
    refine Nat.not_lt.1 fun hlt => ?_
    have hnone := hskips.eq_none hmore hlt
    exact (Reads.fixed _ _).2 ⟨_, List.prefix_append _ more, rfl⟩ hnone
  simpa using hle

end Least

/-! ### Gaps before fixed texts -/

/-- What another gap takes in beyond the first place of a fixed text stands behind that place. -/
theorem exists_more {gap first v rest : Text} (h : upTo (fixed needle) t = some (first, rest))
    (hgap : gap ++ (needle ++ v) <+: t) : ∃ more, gap ++ needle = first ++ more ∧ more ++ v <+: rest := by
  obtain ⟨rfl, -, hleast⟩ := Least.upTo_fixed needle t first rest h
  rw [← List.append_assoc] at hgap
  have hneedle : gap ++ needle <+: first ++ rest := (List.prefix_append _ v).trans hgap
  obtain ⟨more, hmore⟩ : first <+: gap ++ needle :=
    List.prefix_of_prefix_length_le (List.prefix_append _ _) hneedle (hleast _ hneedle ⟨gap, rfl⟩)
  rw [← hmore, List.append_assoc] at hgap
  exact ⟨more, hmore.symm, (List.prefix_append_right_inj _).1 hgap⟩

/-- A gap is as short as possible, so what a form that begins with one reads is behind it wherever the gap
may end. -/
theorem Reads.upTo_fixed_andThen {P : Text → Prop} (h : Reads form P) (needle : Text)
    (hP : ∀ gap u, P u → P (gap ++ u)) :
    Reads ((upTo (fixed needle)).andThen form) fun u => ∃ gap v, u = gap ++ (needle ++ v) ∧ P v := by
  intro t
  rw [andThen_ne_none_iff]
  constructor
  · rintro ⟨first, middle, hupTo, hmiddle⟩
    obtain ⟨rfl, ⟨gap, rfl⟩, -⟩ := Least.upTo_fixed needle t first middle hupTo
    obtain ⟨v, ⟨rest, rfl⟩, hv⟩ := (h middle).1 hmiddle
    refine ⟨gap ++ (needle ++ v), ⟨rest, ?_⟩, gap, v, rfl, hv⟩
    simp only [List.append_assoc]
  · rintro ⟨_, hu, gap, v, rfl, hv⟩
    have hfound : upTo (fixed needle) t ≠ none :=
      ((Reads.fixed needle).upTo t).2 ⟨gap ++ needle, (List.prefix_append _ v).trans (by simpa using hu),
        gap, needle, rfl, rfl⟩
    obtain ⟨⟨first, middle⟩, hupTo⟩ := Option.ne_none_iff_exists'.1 hfound
    obtain ⟨more, -, hmore⟩ := exists_more hupTo hu
    exact ⟨first, middle, hupTo, (h middle).2 ⟨more ++ v, hmore, hP more v hv⟩⟩

/-- Gaps before fixed texts that are as short as possible, one by one, make up the shortest piece, if what
follows may begin with anything. -/
theorem Least.upTo_fixed_andThen {P : Text → Prop} (h : Least form P) (needle : Text)
    (hP : ∀ gap u, P u → P (gap ++ u)) :
    Least ((upTo (fixed needle)).andThen form) fun u => ∃ gap v, u = gap ++ (needle ++ v) ∧ P v := by
  intro t covered rest hform
  obtain ⟨first, middle, covered, hupTo, hbehind, rfl⟩ := andThen_eq_some_iff.1 hform
  obtain ⟨rfl, ⟨before, rfl⟩, -⟩ := Least.upTo_fixed needle t first middle hupTo
  obtain ⟨rfl, hcovered, hleast⟩ := h middle covered rest hbehind
  refine ⟨(List.append_assoc _ _ _).symm, ⟨before, covered, List.append_assoc _ _ _, hcovered⟩, ?_⟩
  rintro _ hu ⟨gap, v, rfl, hv⟩
  obtain ⟨more, hgap, hmore⟩ := exists_more hupTo hu
  have hle := hleast (more ++ v) hmore (hP more v hv)
  have hlength := congrArg List.length hgap
  simp only [List.length_append] at hle hlength ⊢
  omega

end Userscript.Text.Form
