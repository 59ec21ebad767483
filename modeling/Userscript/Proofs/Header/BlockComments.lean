import Userscript.Proofs.Header.Stripping

/-!
# Headers in block comments

Extraction looks for the markers of a header behind the first beginning of a block comment, and does not mind
where comments end before it has found both of them. What it finds begins and ends as a block comment does, but
it is one comment only if the first comment of the text holds the markers. Otherwise it reaches from that comment
to the header, with all the code between them.

## Main definitions

* `Markers.IsComment` — a text is one block comment
* `Markers.FirstComment` — a text is the first block comment of another one

## Main results

* `exists_of_find?_blockStyle` — what extraction finds is the shortest text that holds the markers, from the first
  beginning of a comment on
* `isComment_extract?_iff` — when it is one comment
* `extract?_precedingComment` — a header that is extracted with the code before it
-/

namespace Userscript.Header.Markers

open Text (Form)

variable {m : Markers} {t found c h : Text}

/-- A text is one block comment: it begins and ends as one, and no comment ends in it before. -/
def IsComment (h : Text) : Prop := (∃ inside, h = ['/', '*'] ++ (inside ++ ['*', '/'])) ∧ ¬ ['*', '/'] <:+: h.dropLast

/-- A text is the first block comment of `t`: no comment begins before it. -/
def FirstComment (t c : Text) : Prop :=
  IsComment c ∧ ∃ before rest, t = before ++ (c ++ rest) ∧ ¬ ['/', '*'] <:+: before

/-! ### What is found -/

theorem BlockSpan.exists_inside (h : m.BlockSpan found) : ∃ inside, found = ['/', '*'] ++ (inside ++ ['*', '/']) := by
  obtain ⟨before, inside, behind, rfl⟩ := h
  exact ⟨before ++ (m.opening ++ (inside ++ (m.closing ++ behind))), by simp only [List.append_assoc]⟩

/-- What stands before the markers may begin with another comment. -/
theorem BlockSpan.append (h : m.BlockSpan found) (gap : Text) : m.BlockSpan (['/', '*'] ++ (gap ++ found)) := by
  obtain ⟨before, inside, behind, rfl⟩ := h
  exact ⟨gap ++ (['/', '*'] ++ before), inside, behind, by simp only [List.append_assoc]⟩

/-- The form of headers in block comments covers no more than it needs to hold the markers. -/
theorem least_blockStyle (m : Markers) : Form.Least m.blockStyle m.BlockSpan := by
  have hclosing := (Form.Least.upTo_fixed ['*', '/']).upTo_fixed_andThen m.closing (by
    rintro gap _ ⟨gap', rfl⟩
    exact ⟨gap ++ gap', (List.append_assoc _ _ _).symm⟩)
  have hopening := hclosing.upTo_fixed_andThen m.opening (by
    rintro gap _ ⟨gap', v, rfl, hv⟩
    exact ⟨gap ++ gap', v, (List.append_assoc _ _ _).symm, hv⟩)
  refine (hopening.fixed_andThen ['/', '*']).congr fun u => ?_
  constructor
  · rintro ⟨_, rfl, before, _, rfl, inside, _, rfl, behind, rfl⟩
    exact ⟨before, inside, behind, rfl⟩
  · rintro ⟨before, inside, behind, rfl⟩
    exact ⟨_, rfl, before, _, rfl, inside, _, rfl, behind, rfl⟩

/-- A header in a block comment is found from the first beginning of a comment on, and it is the shortest text from
there on that holds the markers. -/
theorem exists_of_find?_blockStyle (h : find? m.blockStyle t = some found) : ∃ before rest,
    t = before ++ (found ++ rest) ∧ ¬ ['/', '*'] <:+: before ∧ m.BlockSpan found ∧
      ∀ u, u <+: found ++ rest → m.BlockSpan u → found.length ≤ u.length := by
  obtain ⟨⟨before, found, rest⟩, hsearch, rfl⟩ := Option.map_eq_some_iff.1 h
  obtain ⟨_, rfl, hskips, hform⟩ := Form.search_eq_some_iff.1 hsearch
  obtain ⟨rfl, hspan, hleast⟩ := least_blockStyle m _ _ _ hform
  refine ⟨before, rest, rfl, ?_, hspan, hleast⟩
  rintro ⟨gap, behind, rfl⟩
  -- From an earlier beginning on, the search would have found the same markers.
  have heq : gap ++ (['/', '*'] ++ (behind ++ found) ++ rest) =
      gap ++ ['/', '*'] ++ behind ++ (found ++ rest) := by
    simp only [List.append_assoc]
  have hnone := hskips.eq_none heq (by simp only [List.length_append, List.length_cons]; omega)
  exact (reads_blockStyle m _).2 ⟨_, List.prefix_append _ rest, hspan.append behind⟩ hnone

/-! ### One comment -/

/-- No comment begins before the first one, nor with its own beginning. -/
theorem eq_nil_of_begins {before u u' : Text} (h : ¬ ['/', '*'] <:+: before)
    (heq : before ++ '/' :: '*' :: u = '/' :: '*' :: u') : before = [] := by
  match before, h with
  | [], _ => rfl
  | [_], _ => simp at heq
  | a :: b :: before, h =>
    simp only [List.cons_append, List.cons.injEq] at heq
    obtain ⟨rfl, rfl, -⟩ := heq
    exact absurd ⟨[], before, rfl⟩ h

/-- The first beginning of a comment is in one place. -/
theorem eq_of_begins {before before' u u' : Text} (h : ¬ ['/', '*'] <:+: before) (h' : ¬ ['/', '*'] <:+: before')
    (heq : before ++ '/' :: '*' :: u = before' ++ '/' :: '*' :: u') : before = before' := by
  induction before generalizing before' with
  | nil => exact (eq_nil_of_begins h' heq.symm).symm
  | cons a before ih =>
    cases before' with
    | nil => exact eq_nil_of_begins h heq
    | cons b before' =>
      simp only [List.cons_append, List.cons.injEq] at heq
      obtain ⟨rfl, heq⟩ := heq
      have htail {rest : Text} (h : ¬ ['/', '*'] <:+: a :: rest) : ¬ ['/', '*'] <:+: rest :=
        fun hpiece => h (hpiece.trans (List.suffix_cons a rest).isInfix)
      rw [ih (htail h) (htail h') heq]

/-- A text that ends as a comment and begins one is the whole of it. -/
theorem IsComment.eq_of_prefix (hc : IsComment c) (hbegins : found <+: c) (hends : ['*', '/'] <:+ found) :
    found = c := by
  obtain ⟨rest, rfl⟩ := hbegins
  rcases List.eq_nil_or_concat rest with rfl | ⟨rest, last, rfl⟩
  · rw [List.append_nil]
  · refine absurd (hends.isInfix.trans ⟨[], rest, ?_⟩) hc.2
    rw [List.concat_eq_append, ← List.append_assoc, List.dropLast_concat, List.nil_append]

/-- If the first comment of a text holds the markers, it is what extraction finds. -/
theorem FirstComment.eq_of_find?_blockStyle (hc : FirstComment t c) (hspan : m.BlockSpan c)
    (h : find? m.blockStyle t = some found) : found = c := by
  obtain ⟨before, rest, rfl, hbefore, hfound, hleast⟩ := exists_of_find?_blockStyle h
  obtain ⟨hcomment, before', rest', heq, hbefore'⟩ := hc
  obtain ⟨inside, rfl⟩ := hfound.exists_inside
  obtain ⟨inside', rfl⟩ := hspan.exists_inside
  obtain rfl := eq_of_begins hbefore hbefore' heq
  have hrest := List.append_cancel_left heq
  refine hcomment.eq_of_prefix ?_ ⟨'/' :: '*' :: inside, by simp⟩
  refine List.prefix_of_prefix_length_le (List.prefix_append _ rest) (hrest ▸ List.prefix_append _ rest') ?_
  exact hleast _ (hrest ▸ List.prefix_append _ rest') hspan

/-- What extraction finds where there is no header in line comments begins and ends as a block comment does and
holds the markers. It is one comment if and only if the first comment of the text holds them, and then it is that
comment. -/
theorem isComment_extract?_iff (hline : find? m.lineStyle t = none) (h : m.extract? t = some found) :
    m.BlockSpan found ∧ (IsComment found ↔ ∃ c, FirstComment t c ∧ m.BlockSpan c) ∧
      ∀ c, FirstComment t c → m.BlockSpan c → found = c := by
  have hblock : find? m.blockStyle t = some found := by
    rw [extract?, hline] at h
    split at h
    · cases h
    · exact h
  obtain ⟨before, rest, ht, hbefore, hspan, -⟩ := exists_of_find?_blockStyle hblock
  have hfirst (c) (hc : FirstComment t c) (hmarkers : m.BlockSpan c) : found = c :=
    hc.eq_of_find?_blockStyle hmarkers hblock
  refine ⟨hspan, ⟨fun hcomment => ⟨found, ⟨hcomment, before, rest, ht, hbefore⟩, hspan⟩, ?_⟩, hfirst⟩
  rintro ⟨c, hc, hmarkers⟩
  exact hfirst c hc hmarkers ▸ hc.1

/-- Code stands before the comment, and another one behind it. -/
theorem isComment_extract?_iff_alone :
    let m : Markers := {}
    let header := "/* note ==UserScript==\n// @name A\n==/UserScript== */".toList
    let t := "a()\n".toList ++ (header ++ "\nb() /* c */".toList)
    find? m.lineStyle t = none ∧ m.extract? t = some header ∧
      m.BlockSpan header ∧ (IsComment header ↔ ∃ c, FirstComment t c ∧ m.BlockSpan c) ∧
        ∀ c, FirstComment t c → m.BlockSpan c → header = c := by
  intro m header t
  have hline : find? m.lineStyle t = none := by decide +kernel
  have hfound : m.extract? t = some header := by decide +kernel
  exact ⟨hline, hfound, isComment_extract?_iff hline hfound⟩

/-- The header of a text with another comment before it comes with that comment and the code between them. -/
theorem extract?_precedingComment :
    let t := "/* a */\nb()\n/* ==UserScript==\n// @name A\n==/UserScript== */\nc()".toList
    let found := "/* a */\nb()\n/* ==UserScript==\n// @name A\n==/UserScript== */".toList
    find? ({} : Markers).lineStyle t = none ∧ ({} : Markers).extract? t = some found ∧ ¬ IsComment found := by
  intro t found
  refine ⟨by decide +kernel, by decide +kernel, fun hcomment => hcomment.2 ?_⟩
  exact ⟨"/* a ".toList, "\nb()\n/* ==UserScript==\n// @name A\n==/UserScript== *".toList, by decide +kernel⟩

end Userscript.Header.Markers
