import Userscript.Proofs.Header.LineStyle
import Userscript.Proofs.Text.Remnants

/-!
# Headers that are left

Stripping takes headers out of a text, and extraction may find one in what is left. There are two reasons. A
block comment may hold the markers together with other text: extraction takes it for a header, and stripping
leaves it alone. Or what stands before and behind a header that is taken out makes up another one. There is
no other reason: without a break, neither a header in line comments is left nor a block comment with nothing
but blanks around its markers.

## Main definitions

* `Markers.LineSpan`, `Markers.BlockSpan`, `Markers.WholeSpan` — texts that hold the markers of a header
* `Markers.Spans` — a text from the beginning of a header to its end, as extraction looks for it
* `Markers.Loose` — such a text with more than blanks around the markers
* `Markers.remnants` — what stripping leaves of a text

## Main results

* `extract?_ne_none_iff` — extraction finds a header if a piece of the text spans one
* `extract?_strip_ne_none_iff` — when it finds one in what stripping leaves
* `extract?_strip_looseBlock` — a block comment that stripping leaves
-/

namespace Userscript.Header.Markers

open Text (Form Remnant isBlank)
open Text.Remnant (Unbroken)

variable {m : Markers} {t covered rest h : Text} {stretch : List Remnant}

/-! ### Texts that hold the markers of a header -/

/-- A text from a line comment that opens a header to one that closes it. -/
def LineSpan (m : Markers) (h : Text) : Prop :=
  ∃ blanks inside blanks', (∀ c ∈ blanks, isBlank c) ∧ (∀ c ∈ blanks', isBlank c) ∧
    h = comment blanks m.opening ++ (inside ++ comment blanks' m.closing)

/-- A text from the beginning of a block comment to the end of one, with the markers between them. -/
def BlockSpan (m : Markers) (h : Text) : Prop :=
  ∃ before inside behind, h = ['/', '*'] ++ (before ++ (m.opening ++ (inside ++ (m.closing ++ (behind ++ ['*', '/'])))))

/-- Such a text in which only blanks stand before the first marker and behind the second. -/
def WholeSpan (m : Markers) (h : Text) : Prop :=
  ∃ before inside behind, (∀ c ∈ before, isBlank c) ∧ (∀ c ∈ behind, isBlank c) ∧
    h = ['/', '*'] ++ (before ++ (m.opening ++ (inside ++ (m.closing ++ (behind ++ ['*', '/'])))))

/-- A text from the beginning of a header to its end, as extraction looks for it. -/
def Spans (m : Markers) (h : Text) : Prop := m.LineSpan h ∨ m.BlockSpan h

/-- A text from the beginning of a block comment to the end of one, with more than blanks around the markers. -/
def Loose (m : Markers) (h : Text) : Prop := m.BlockSpan h ∧ ¬ m.WholeSpan h

theorem not_spans_nil (m : Markers) : ¬ m.Spans [] := by
  rintro (⟨blanks, inside, blanks', -, -, h⟩ | ⟨before, inside, behind, h⟩)
  · simp [comment] at h
  · simp at h

theorem WholeSpan.blockSpan (h : m.WholeSpan t) : m.BlockSpan t := by
  obtain ⟨before, inside, behind, -, -, rfl⟩ := h
  exact ⟨before, inside, behind, rfl⟩

theorem not_isBlank_equals : isBlank '=' = false := by decide

theorem opening_eq (m : Markers) : m.opening = '=' :: ('=' :: m.name ++ ['=', '=']) := rfl

theorem closing_eq (m : Markers) : m.closing = '=' :: ('=' :: '/' :: m.name ++ ['=', '=']) := rfl

theorem reads_inLine_closing (m : Markers) : Form.Reads (inLine m.closing)
    fun u => ∃ blanks, (∀ c ∈ blanks, isBlank c) ∧ u = comment blanks m.closing := by
  intro t
  rw [closing_eq, Option.ne_none_iff_exists']
  simp only [Prod.exists, inLine_eq_some_iff not_isBlank_equals]
  constructor
  · rintro ⟨_, rest, blanks, hblanks, rfl, rfl⟩
    exact ⟨_, List.prefix_append _ rest, blanks, hblanks, rfl⟩
  · rintro ⟨_, ⟨rest, rfl⟩, blanks, hblanks, rfl⟩
    exact ⟨_, rest, blanks, hblanks, rfl, rfl⟩

theorem reads_lineStyle (m : Markers) : Form.Reads m.lineStyle m.LineSpan := by
  have hclosing := (reads_inLine_closing m).upTo
  intro t
  rw [lineStyle, Form.andThen_ne_none_iff, opening_eq]
  simp only [inLine_eq_some_iff not_isBlank_equals, hclosing _]
  constructor
  · rintro ⟨_, rest, ⟨blanks, hblanks, rfl, rfl⟩, _, hrest, inside, _, rfl, blanks', hblanks', rfl⟩
    exact ⟨_, (List.prefix_append_right_inj _).2 hrest, blanks, inside, blanks', hblanks, hblanks', rfl⟩
  · rintro ⟨_, ⟨rest, rfl⟩, blanks, inside, blanks', hblanks, hblanks', rfl⟩
    refine ⟨_, inside ++ comment blanks' m.closing ++ rest, ⟨blanks, hblanks, rfl, ?_⟩, _,
      List.prefix_append _ rest, inside, _, rfl, blanks', hblanks', rfl⟩
    rw [List.append_assoc]
    rfl

theorem reads_blockStyle (m : Markers) : Form.Reads m.blockStyle m.BlockSpan := by
  have hend := (Form.Reads.fixed ['*', '/']).upTo
  -- Behind each marker comes a gap, so a longer one may stand in its place.
  have hclosing := hend.upTo_fixed_andThen m.closing (by
    rintro gap _ ⟨gap', v, rfl, hv⟩
    exact ⟨gap ++ gap', v, (List.append_assoc _ _ _).symm, hv⟩)
  have hopening := hclosing.upTo_fixed_andThen m.opening (by
    rintro gap _ ⟨gap', v, rfl, hv⟩
    exact ⟨gap ++ gap', v, (List.append_assoc _ _ _).symm, hv⟩)
  refine (hopening.fixed_andThen ['/', '*']).congr fun h => ?_
  constructor
  · rintro ⟨_, rfl, before, _, rfl, inside, _, rfl, behind, _, rfl, rfl⟩
    exact ⟨before, inside, behind, rfl⟩
  · rintro ⟨before, inside, behind, rfl⟩
    exact ⟨_, rfl, before, _, rfl, inside, _, rfl, behind, _, rfl, rfl⟩

theorem reads_wholeBlock (m : Markers) : Form.Reads m.wholeBlock m.WholeSpan := by
  have hend := (Form.Reads.fixed ['*', '/']).blanks_andThen (by
    rintro _ rfl
    exact ⟨'*', ['/'], rfl, by decide⟩)
  have hopening := (hend.fixed_andThen m.closing).upTo.fixed_andThen m.opening
  have hbegin := hopening.blanks_andThen (by
    rintro _ ⟨v, rfl, -⟩
    exact ⟨'=', _, rfl, not_isBlank_equals⟩)
  refine (hbegin.fixed_andThen ['/', '*']).congr fun h => ?_
  constructor
  · rintro ⟨_, rfl, before, _, hbefore, rfl, _, rfl, inside, _, rfl, _, rfl, behind, _, hbehind, rfl, rfl⟩
    exact ⟨before, inside, behind, hbefore, hbehind, rfl⟩
  · rintro ⟨before, inside, behind, hbefore, hbehind, rfl⟩
    exact ⟨_, rfl, before, _, hbefore, rfl, _, rfl, inside, _, rfl, _, rfl, behind, _, hbehind, rfl, rfl⟩

/-- Extraction finds a header in a text if and only if a piece of it spans one. -/
theorem extract?_ne_none_iff : m.extract? t ≠ none ↔ ∃ h, h <:+: t ∧ m.Spans h := by
  have hline : find? m.lineStyle t ≠ none ↔ ∃ h, h <:+: t ∧ m.LineSpan h := by
    rw [find?, Ne, Option.map_eq_none_iff, ← Ne, (reads_lineStyle m).search_ne_none_iff]
  have hblock : find? m.blockStyle t ≠ none ↔ ∃ h, h <:+: t ∧ m.BlockSpan h := by
    rw [find?, Ne, Option.map_eq_none_iff, ← Ne, (reads_blockStyle m).search_ne_none_iff]
  have heither : (find? m.lineStyle t <|> find? m.blockStyle t) ≠ none ↔ ∃ h, h <:+: t ∧ m.Spans h := by
    simp only [Spans, and_or_left, exists_or, ← hline, ← hblock, Option.orElse_eq_orElse, Option.orElse_eq_or, Ne,
      Option.or_eq_none_iff, Decidable.not_and_iff_or_not]
  unfold extract?
  cases t with
  | nil =>
    -- Nothing is searched in the empty text, and it spans no header.
    refine iff_of_false (by simp) ?_
    rintro ⟨h, hinfix, hspans⟩
    cases List.infix_nil.1 hinfix
    exact not_spans_nil m hspans
  | cons c t => exact heither

/-! ### What stripping leaves -/

/-- What stripping leaves of a text, with the places where it took something out. -/
def remnants (m : Markers) (t : Text) : List Remnant :=
  m.wholeBlock.leave (m.lineStyle.leave (Remnant.ofText t))

theorem text_remnants (m : Markers) (t : Text) : Remnant.text (m.remnants t) = m.strip t := by
  rw [remnants, Form.text_leave, Form.text_leave, Remnant.text_ofText, strip]

/-- Without a break, no header in line comments is left and no block comment with nothing but blanks around its
markers. -/
theorem not_span_of_unbroken (h : stretch <:+: m.remnants t) (hcut : Unbroken stretch) :
    ¬ m.LineSpan (Remnant.text stretch) ∧ ¬ m.WholeSpan (Remnant.text stretch) := by
  have hempty := not_spans_nil m
  constructor
  · have hcovers {t covered rest : Text} (hform : m.lineStyle t = some (covered, rest)) : covered ≠ [] := by
      obtain ⟨u, rfl⟩ := (lineStyle_eq_some_iff.1 hform).1.exists_cons
      exact List.cons_ne_nil _ u
    -- What is left at last without a break has been left by the first of the two passes so.
    obtain ⟨stretch', hinfix, hcut', htext⟩ := Form.exists_infix_of_unbroken h hcut
    rw [← htext]
    exact Form.not_of_unbroken (reads_lineStyle m) hcovers (fun hline => hempty (.inl hline)) hinfix hcut'
  · -- The second pass takes out block comments, so nothing needs to be said of the first.
    have hcovers {t covered rest : Text} (hform : m.wholeBlock t = some (covered, rest)) : covered ≠ [] := by
      obtain ⟨_, _, _, hopens, -, rfl⟩ := Form.andThen_eq_some_iff.1 hform
      obtain ⟨rfl, -⟩ := Form.fixed_eq_some_iff.1 hopens
      exact List.cons_ne_nil _ _
    exact Form.not_of_unbroken (reads_wholeBlock m) hcovers (fun hwhole => hempty (.inr hwhole.blockSpan)) h hcut

/-- Extraction finds a header in what stripping leaves of a text if and only if a block comment is left whose
markers do not stand alone in it, or a header is made up across a place where something was taken out. -/
theorem extract?_strip_ne_none_iff (m : Markers) (t : Text) : m.extract? (m.strip t) ≠ none ↔
    (∃ stretch, stretch <:+: m.remnants t ∧ Unbroken stretch ∧ m.Loose (Remnant.text stretch)) ∨
      ∃ stretch, stretch <:+: m.remnants t ∧ ¬ Unbroken stretch ∧ m.Spans (Remnant.text stretch) := by
  rw [extract?_ne_none_iff, ← text_remnants]
  constructor
  · rintro ⟨h, hinfix, hspans⟩
    obtain ⟨stretch, hstretch, rfl⟩ := Remnant.exists_of_infix_text hinfix
    -- Without a break, only a block comment with other text in it is out of reach of stripping.
    by_cases hcut : Unbroken stretch
    · obtain ⟨hline, hwhole⟩ := not_span_of_unbroken hstretch hcut
      exact .inl ⟨stretch, hstretch, hcut, hspans.resolve_left hline, hwhole⟩
    · exact .inr ⟨stretch, hstretch, hcut, hspans⟩
  · rintro (⟨stretch, hstretch, -, hloose⟩ | ⟨stretch, hstretch, -, hspans⟩)
    · exact ⟨_, hstretch.map _, .inr hloose.1⟩
    · exact ⟨_, hstretch.map _, hspans⟩

/-- Stripping leaves a block comment with a note before its first marker, and extraction takes it for a
header. -/
theorem extract?_strip_looseBlock :
    let t := "/* note\n==UserScript==\n// @name A\n==/UserScript==\n*/\na()".toList
    ({} : Markers).strip t = t ∧
      ({} : Markers).extract? (({} : Markers).strip t) =
        some "/* note\n==UserScript==\n// @name A\n==/UserScript==\n*/".toList := by
  decide +kernel

/-- The slash before a header and the one behind it open another header. -/
example : ({} : Markers).strip "/// ==UserScript==\n// ==/UserScript==/ ==UserScript==\n// ==/UserScript==".toList =
    "// ==UserScript==\n// ==/UserScript==".toList := by
  decide +kernel

end Userscript.Header.Markers
