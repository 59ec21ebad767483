import Userscript.Bundle.Assembly
import Userscript.Proofs.Text.Forms
import Userscript.Script.Optimize

/-!
# Headers in line comments

A header in line comments stands at the top of a bundle. It ends with the first comment that closes
it, and no comment behind it can close it earlier. So it is the first header of the bundle whatever
the modules hold, and the one that is kept when the bundle is optimized.

## Main definitions

* `Markers.LineHeader` — a text that is a header in line comments, and no more
* `Markers.Tops` — a text with which a bundle can begin

## Main results

* `lineStyle_eq_some_iff` — the form of headers in line comments covers them wherever they stand
* `extract?_append` — a text that begins with such a header has it as its first one
* `lineHeader_comes_through` — assembly and optimizing keep the header at the top
-/

namespace Userscript

open Text (Form)

namespace Header.Markers

variable {m : Markers} {t header covered rest marker : Text}

/-! ### Markers in line comments -/

/-- A marker in a line comment, with blanks before it. -/
def comment (blanks marker : Text) : Text := '/' :: '/' :: (blanks ++ marker)

theorem blanks_eq_some_iff : Form.blanks t = some (covered, rest) ↔
    covered = t.takeWhile Text.isBlank ∧ rest = t.dropWhile Text.isBlank := by
  simp only [Form.blanks, Form.run, Option.some.injEq, Prod.mk.injEq, eq_comm]

theorem inLine_eq_some_iff {c : Char} (hc : Text.isBlank c = false) :
    inLine (c :: marker) t = some (covered, rest) ↔
      ∃ blanks, (∀ b ∈ blanks, Text.isBlank b) ∧ covered = comment blanks (c :: marker) ∧
        t = covered ++ rest := by
  simp only [inLine, Form.andThen_eq_some_iff, Form.fixed_eq_some_iff, blanks_eq_some_iff]
  constructor
  · rintro ⟨_, u, _, ⟨rfl, rfl⟩, ⟨_, v, _, ⟨rfl, rfl⟩, ⟨rfl, hv⟩, rfl⟩, rfl⟩
    refine ⟨u.takeWhile Text.isBlank, List.all_eq_true.1 List.all_takeWhile, rfl, ?_⟩
    have hu := List.takeWhile_append_dropWhile (p := Text.isBlank) (l := u)
    rw [hv] at hu
    rw [List.append_assoc, List.append_assoc, hu]
  · rintro ⟨blanks, hblanks, rfl, rfl⟩
    -- The run of blanks ends where the marker begins.
    have htake : (blanks ++ c :: (marker ++ rest)).takeWhile Text.isBlank = blanks := by
      rw [List.takeWhile_append_of_pos hblanks, List.takeWhile_cons_of_neg (by simp [hc]),
        List.append_nil]
    have hdrop : (blanks ++ c :: (marker ++ rest)).dropWhile Text.isBlank = c :: (marker ++ rest) := by
      rw [List.dropWhile_append_of_pos hblanks, List.dropWhile_cons_of_neg (by simp [hc])]
    refine ⟨['/', '/'], blanks ++ c :: (marker ++ rest), blanks ++ c :: marker, ⟨rfl, by simp [comment]⟩,
      ⟨blanks, c :: (marker ++ rest), c :: marker, ⟨htake.symm, hdrop.symm⟩, ⟨rfl, rfl⟩, rfl⟩, rfl⟩

/-- The second slash of a later comment is none of the blanks of an earlier one. -/
theorem length_blanks_le {c : Char} {before blanks blanks' r rest : Text} (hbefore : before ≠ [])
    (hblanks' : ∀ b ∈ blanks', Text.isBlank b)
    (heq : before ++ (comment blanks (c :: marker) ++ r) = comment blanks' (c :: marker) ++ rest) :
    blanks'.length ≤ before.length := by
  refine Nat.not_lt.1 fun hlt => ?_
  obtain ⟨d, before, rfl⟩ := List.exists_cons_of_ne_nil hbefore
  have hslash := congrArg (·[before.length + 2]?) heq
  simp only [comment, List.cons_append, List.getElem?_cons_succ, List.append_assoc] at hslash
  rw [List.getElem?_append_right (Nat.le_add_right _ 1), Nat.add_sub_cancel_left,
    List.getElem?_cons_succ, List.getElem?_cons_zero, List.getElem?_append_left (Nat.lt_of_succ_lt hlt)]
    at hslash
  have hblank := hblanks' '/' (List.mem_of_getElem? hslash.symm)
  revert hblank
  decide

/-- A comment in which a marker begins ends before a later one with the same marker does. So it is
there whatever follows the later one. -/
theorem inLine_ne_none_of_comment {c : Char} (hc : Text.isBlank c = false) {before blanks : Text}
    (hbefore : before ≠ []) {r r' : Text}
    (h : inLine (c :: marker) (before ++ (comment blanks (c :: marker) ++ r)) ≠ none) :
    inLine (c :: marker) (before ++ (comment blanks (c :: marker) ++ r')) ≠ none := by
  obtain ⟨⟨covered, rest⟩, h⟩ := Option.ne_none_iff_exists'.1 h
  obtain ⟨blanks', hblanks', rfl, heq⟩ := (inLine_eq_some_iff hc).1 h
  have hlength := length_blanks_le hbefore hblanks' heq
  have hwithin : comment blanks' (c :: marker) <+: before ++ comment blanks (c :: marker) := by
    have hearlier : comment blanks' (c :: marker) <+: before ++ (comment blanks (c :: marker) ++ r) :=
      ⟨rest, heq.symm⟩
    have hlater : before ++ comment blanks (c :: marker) <+: before ++ (comment blanks (c :: marker) ++ r) :=
      ⟨r, List.append_assoc _ _ _⟩
    refine List.prefix_of_prefix_length_le hearlier hlater ?_
    simp only [comment, List.length_append, List.length_cons]
    omega
  obtain ⟨between, hbetween⟩ := hwithin
  refine Option.ne_none_iff_exists'.2 ⟨(comment blanks' (c :: marker), between ++ r'), ?_⟩
  refine (inLine_eq_some_iff hc).2 ⟨blanks', hblanks', rfl, ?_⟩
  rw [← List.append_assoc, ← hbetween, List.append_assoc]

/-- Whether a comment is the first with its marker does not depend on what follows it. -/
theorem skips_comment_iff {c : Char} (hc : Text.isBlank c = false) {before blanks r r' : Text} :
    Form.Skips (inLine (c :: marker)) before (comment blanks (c :: marker) ++ r) ↔
      Form.Skips (inLine (c :: marker)) before (comment blanks (c :: marker) ++ r') := by
  induction before with
  | nil => exact Iff.rfl
  | cons d before ih =>
    rw [Form.Skips, Form.Skips, ih, ← List.cons_append, ← List.cons_append]
    refine and_congr_left fun _ => ?_
    have hmove {r r' : Text}
        (h : inLine (c :: marker) (d :: before ++ (comment blanks (c :: marker) ++ r)) ≠ none) :
        inLine (c :: marker) (d :: before ++ (comment blanks (c :: marker) ++ r')) ≠ none :=
      inLine_ne_none_of_comment hc (List.cons_ne_nil d before) h
    exact Decidable.not_iff_not.1 ⟨hmove, hmove⟩

/-! ### Headers in line comments -/

/-- A header in line comments: a comment that opens it, and the first comment behind that which
closes it. -/
def LineHeader (m : Markers) (header : Text) : Prop :=
  ∃ blanks inside blanks', (∀ b ∈ blanks, Text.isBlank b) ∧ (∀ b ∈ blanks', Text.isBlank b) ∧
    Form.Skips (inLine m.closing) inside (comment blanks' m.closing) ∧
    header = comment blanks m.opening ++ (inside ++ comment blanks' m.closing)

/-- The form of headers in line comments covers them wherever they stand. -/
theorem lineStyle_eq_some_iff :
    m.lineStyle t = some (covered, rest) ↔ m.LineHeader covered ∧ t = covered ++ rest := by
  have hequals : Text.isBlank '=' = false := by decide
  -- Both markers begin with an equality sign.
  have hopening {u c r : Text} : inLine m.opening u = some (c, r) ↔ _ := inLine_eq_some_iff hequals
  have hclosing {u c r : Text} : inLine m.closing u = some (c, r) ↔ _ := inLine_eq_some_iff hequals
  have hskips {inside blanks r : Text} :
      Form.Skips (inLine m.closing) inside (comment blanks m.closing ++ r) ↔
        Form.Skips (inLine m.closing) inside (comment blanks m.closing) := by
    have hmove : Form.Skips (inLine m.closing) inside (comment blanks m.closing ++ r) ↔
        Form.Skips (inLine m.closing) inside (comment blanks m.closing ++ []) :=
      skips_comment_iff hequals
    rwa [List.append_nil] at hmove
  simp only [lineStyle, Form.andThen_eq_some_iff, Form.upTo_eq_some_iff, hopening, hclosing]
  constructor
  · rintro ⟨_, _, _, ⟨blanks, hblanks, rfl, rfl⟩,
      ⟨inside, _, _, rfl, hinside, ⟨blanks', hblanks', rfl, rfl⟩, rfl⟩, rfl⟩
    exact ⟨⟨blanks, inside, blanks', hblanks, hblanks', hskips.1 hinside, rfl⟩,
      by simp only [List.append_assoc]⟩
  · rintro ⟨⟨blanks, inside, blanks', hblanks, hblanks', hinside, rfl⟩, rfl⟩
    exact ⟨comment blanks m.opening, inside ++ (comment blanks' m.closing ++ rest),
      inside ++ comment blanks' m.closing, ⟨blanks, hblanks, rfl, by simp only [List.append_assoc]⟩,
      ⟨inside, comment blanks' m.closing ++ rest, comment blanks' m.closing, rfl, hskips.2 hinside,
        ⟨blanks', hblanks', rfl, rfl⟩, rfl⟩, rfl⟩

theorem LineHeader.of_find? (h : find? m.lineStyle t = some header) : m.LineHeader header := by
  obtain ⟨⟨before, covered, rest⟩, hsearch, rfl⟩ := Option.map_eq_some_iff.1 h
  obtain ⟨t', -, -, hform⟩ := Form.search_eq_some_iff.1 hsearch
  exact (lineStyle_eq_some_iff.1 hform).1

theorem LineHeader.exists_cons (h : m.LineHeader header) : ∃ t, header = '/' :: t := by
  obtain ⟨blanks, inside, blanks', -, -, -, rfl⟩ := h
  exact ⟨_, rfl⟩

theorem LineHeader.exists_concat (h : m.LineHeader header) : ∃ t, header = t ++ ['='] := by
  obtain ⟨blanks, inside, blanks', -, -, -, rfl⟩ := h
  refine ⟨comment blanks m.opening ++ (inside ++ comment blanks' ("==/".toList ++ m.name ++ ['='])), ?_⟩
  simp [comment, closing]

/-- A header in line comments begins and ends with no blank. -/
theorem LineHeader.trim_eq (h : m.LineHeader header) : Text.trim header = header := by
  obtain ⟨t, ht⟩ := h.exists_cons
  obtain ⟨t', ht'⟩ := h.exists_concat
  rw [Text.trim, ht, Text.trimLeft_cons (by decide), ← ht, ht', Text.trimRight_concat (by decide)]

/-- A text that begins with a header in line comments has it as its first one. -/
theorem LineHeader.extract?_append (h : m.LineHeader header) (t : Text) :
    m.extract? (header ++ t) = some header := by
  have hform : m.lineStyle (header ++ t) = some (header, t) := lineStyle_eq_some_iff.2 ⟨h, rfl⟩
  have hfound : find? m.lineStyle (header ++ t) = some header :=
    Option.map_eq_some_iff.2 ⟨([], header, t), Form.search_eq_some_iff.2 ⟨_, rfl, trivial, hform⟩, rfl⟩
  obtain ⟨u, hu⟩ := h.exists_cons
  rw [extract?, hfound, if_neg (by simp [hu])]
  rfl

/-- A header in line comments that is the first one of a text is a piece of it. -/
theorem LineHeader.isInfix_of_extract? (h : m.LineHeader header) (hfound : m.extract? t = some header) :
    header <:+: t := by
  rw [extract?] at hfound
  split at hfound
  · cases hfound
  · rw [Option.orElse_eq_orElse, Option.orElse_eq_or, Option.or_eq_some_iff] at hfound
    rcases hfound with hline | ⟨-, hblock⟩
    · obtain ⟨⟨before, covered, rest⟩, hsearch, rfl⟩ := Option.map_eq_some_iff.1 hline
      obtain ⟨t', rfl, -, hform⟩ := Form.search_eq_some_iff.1 hsearch
      obtain ⟨-, rfl⟩ := lineStyle_eq_some_iff.1 hform
      exact ⟨before, rest, List.append_assoc _ _ _⟩
    · -- A header in a block comment begins in another way.
      obtain ⟨⟨before, covered, rest⟩, hsearch, rfl⟩ := Option.map_eq_some_iff.1 hblock
      obtain ⟨t', -, -, hform⟩ := Form.search_eq_some_iff.1 hsearch
      obtain ⟨_, _, _, hopening, -, rfl⟩ := Form.andThen_eq_some_iff.1 hform
      obtain ⟨rfl, -⟩ := Form.fixed_eq_some_iff.1 hopening
      obtain ⟨blanks, inside, blanks', -, -, -, hcovered⟩ := h
      simp [comment] at hcovered

/-- A file that begins with a header in line comments has it as its first one, however its other lines
end. -/
theorem LineHeader.extract?_unifyEndings (h : m.LineHeader header) (hreturn : '\r' ∉ header) (t : Text) :
    m.extract? (Text.unifyEndings (header ++ t)) = some header := by
  obtain ⟨u, hu⟩ := Text.unifyEndings_append hreturn t
  rw [hu]
  exact h.extract?_append u

/-- The fallback without the line feed at its end is a header in line comments. -/
theorem lineHeader_fallback : LineHeader {} (Text.trim fallback) := by
  have hform : lineStyle {} (Text.trim fallback) = some (Text.trim fallback, []) := by
    decide +kernel
  exact (lineStyle_eq_some_iff.1 hform).1

/-- A header with which a bundle can begin: one in line comments that was found in some text, or the
fallback. -/
def Tops (m : Markers) (header : Text) : Prop :=
  (∃ t, find? m.lineStyle t = some header) ∨ m = {} ∧ header = fallback

theorem Tops.lineHeader (h : m.Tops header) : m.LineHeader (Text.trim header) := by
  obtain ⟨t, hfound⟩ | ⟨rfl, rfl⟩ := h
  · have hline := LineHeader.of_find? hfound
    rwa [hline.trim_eq]
  · exact lineHeader_fallback

end Header.Markers

/-! ### Bundles under such a header -/

open Header (Markers)

variable {m : Markers} {header : Text}

/-- A bundle begins with its header. -/
theorem Bundle.exists_text_eq (b : Bundle) : ∃ t, b.text = b.header ++ t := by
  rw [text, parts]
  cases b.bodies.flatMap fun body => [separator body.name, body.text] with
  | nil => exact ⟨['\n'], by simp [List.intercalate]⟩
  | cons part parts => exact ⟨_, by rw [List.intercalate_cons_cons, List.append_assoc, List.append_assoc]⟩

theorem Bundle.exists_assemble_eq {modules : List Loaded}
    (h : ∃ x ∈ modules, (body? m x).toOption.isSome) (header : Text) :
    ∃ b warnings, assemble m header modules = .ok (b, warnings) ∧ b.header = Text.trim header := by
  rw [assemble]
  split
  · next hnone =>
    obtain ⟨x, hx, hbody⟩ := h
    rw [bodies?, List.filterMap_eq_nil_iff] at hnone
    simp [hnone x hx] at hbody
  · exact ⟨_, _, rfl, rfl⟩

theorem Bundle.header_of_assemble {modules : List Loaded} {b : Bundle} {warnings : List Warning}
    (h : assemble m header modules = .ok (b, warnings)) : b.header = Text.trim header := by
  rw [assemble] at h
  split at h
  · cases h
  · cases h
    rfl

/-- A text that begins with another one loses it when its first occurrence is taken out. -/
theorem Text.replaceFirst_append {needle : Text} (h : needle ≠ []) (t : Text) :
    replaceFirst needle [] (needle ++ t) = t := by
  obtain ⟨c, needle, rfl⟩ := List.exists_cons_of_ne_nil h
  have hafter : after? (c :: needle) (c :: (needle ++ t)) = some t := after?_eq_some_iff.2 rfl
  rw [replaceFirst, cut, List.cons_append, cutFrom, hafter]
  rfl

namespace Script

/-- Of a script that begins with a header in line comments all the rest is changed, whether the
header is given or not. -/
theorem belowHeader_append {ε : Type} (h : m.LineHeader header) {given : Option Text}
    (hgiven : given = none ∨ given = some header) (t : Text) (change : Text → Except ε Text) :
    belowHeader m given (header ++ t) change =
      (change t).map fun body => header ++ (['\n', '\n'] ++ Text.trim body ++ ['\n']) := by
  obtain ⟨u, hu⟩ := h.exists_cons
  have hkept : keptHeader m given (header ++ t) = header := by
    rcases hgiven with rfl | rfl
    · simp only [keptHeader, h.extract?_append, Option.getD_some]
    · rw [hu, keptHeader]
  rw [belowHeader, hkept]
  dsimp only
  rw [Text.replaceFirst_append (by simp [hu]), h.trim_eq, if_neg (by simp [hu]),
    if_neg (by simp [hu])]
  cases change t with
  | error fault => rfl
  | ok body => simp [Except.map, bind, Except.bind, pure, Except.pure]

/-- A header in line comments comes through assembly and optimizing, whatever the modules hold: it is
the first header of the bundle and of the optimized bundle, and it is the one that is kept if none is
given. -/
theorem lineHeader_comes_through {modules : List Loaded} (hheader : m.Tops header)
    (hmodules : ∃ x ∈ modules, (Bundle.body? m x).toOption.isSome) :
    ∃ bundle warnings, Bundle.assemble m header modules = .ok (bundle, warnings) ∧
      m.extract? bundle.text = some (Text.trim header) ∧
      (∀ ctx limit small, optimize ctx limit m (some (Text.trim header)) bundle.text = .ok small →
        m.extract? small = some (Text.trim header)) ∧
      ∀ ctx limit, optimize ctx limit m (some (Text.trim header)) bundle.text =
        optimize ctx limit m none bundle.text := by
  obtain ⟨bundle, warnings, hbundle, htop⟩ := Bundle.exists_assemble_eq hmodules header
  obtain ⟨t, ht⟩ := bundle.exists_text_eq
  rw [htop] at ht
  -- The header stands on top of both texts, and a search for a header ends with it.
  have hline := hheader.lineHeader
  refine ⟨bundle, warnings, hbundle, ht ▸ hline.extract?_append t, fun ctx limit small h => ?_,
    fun ctx limit => ?_⟩
  · rw [ht, optimize, belowHeader_append hline (.inr rfl)] at h
    cases hbody : optimizeBody ctx limit t with
    | error fault => simp [hbody, Except.map] at h
    | ok body =>
      rw [hbody] at h
      cases h
      exact hline.extract?_append _
  · rw [ht, optimize, optimize, belowHeader_append hline (.inr rfl), belowHeader_append hline (.inl rfl)]

/-- The module holds a header of its own and the end of another one. -/
theorem lineHeader_comes_through_nested :
    let m : Markers := ⟨"Meta".toList⟩
    let header := "// ==Meta==\n// @name A\n//==/Meta==".toList
    let modules : List Loaded := [(⟨"main.js", ⟨.slash, ["p"]⟩⟩,
      some "// ==Meta==\n// ==/Meta==\na() // ==/Meta==\n/* ==Meta== */".toList)]
    m.Tops header ∧ (∃ x ∈ modules, (Bundle.body? m x).toOption.isSome) ∧
      ∃ bundle warnings, Bundle.assemble m header modules = .ok (bundle, warnings) ∧
        m.extract? bundle.text = some (Text.trim header) ∧
        (∀ ctx limit small, optimize ctx limit m (some (Text.trim header)) bundle.text = .ok small →
          m.extract? small = some (Text.trim header)) ∧
        ∀ ctx limit, optimize ctx limit m (some (Text.trim header)) bundle.text =
          optimize ctx limit m none bundle.text := by
  intro m header modules
  have hheader : m.Tops header :=
    .inl ⟨"var a\n".toList ++ header ++ "\n// ==/Meta==".toList, by decide +kernel⟩
  have hmodules : ∃ x ∈ modules, (Bundle.body? m x).toOption.isSome := by decide +kernel
  exact ⟨hheader, hmodules, lineHeader_comes_through hheader hmodules⟩

end Script

end Userscript
