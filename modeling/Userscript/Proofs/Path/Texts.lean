import Userscript.Proofs.Path.Names

/-!
# Texts of paths

The parts of a path that has been read are neither empty nor single dots, and there is no slash in them. Such
a path is given by its text: read again, the text gives the same path.

## Main definitions

* `Path.IsPart` — a text is a part of a path that has been read

## Main results

* `isPart_of_mem_ofString` — the parts of a path that has been read
* `ofString_toString` — writing a path and reading it back gives the path
* `ofString_toString_ofString` — so it makes no difference how often a text is read
-/

namespace Userscript

namespace Text

theorem splitAt_eq_splitOn (c : Char) (t : Text) : splitAt (· == c) t = t.splitOn c := by
  induction t with
  | nil => rfl
  | cons d t ih =>
    rw [splitAt_cons, ih]
    simp [List.splitOn, List.splitOnP_cons_eq_if_modifyHead]

end Text

namespace Path

variable {p : Path} {part : String}

/-- A text is a part of a path that has been read: it is not empty and no single dot, and there is no slash
in it. -/
structure IsPart (part : String) : Prop where
  ne_empty : part ≠ ""
  ne_dot : part ≠ "."
  slash_not_mem : '/' ∉ part.toList

theorem IsName.isPart (h : IsName part) : IsPart part := ⟨h.ne_empty, h.ne_dot, h.slash_not_mem⟩

theorem isPart_of_mem_ofString {s : String} (h : part ∈ (ofString s).parts) : IsPart part := by
  obtain ⟨hpiece, hkept⟩ := List.mem_filter.1 h
  obtain ⟨hempty, hdot⟩ : part ≠ "" ∧ part ≠ "." := by simpa using hkept
  obtain ⟨piece, hmem, rfl⟩ := List.mem_map.1 hpiece
  refine ⟨hempty, hdot, ?_⟩
  intro hslash
  -- The text is cut at all slashes.
  rw [String.toList_ofList] at hslash
  exact absurd (Text.of_mem_splitAt hmem hslash).2 (by decide)

/-- The text of a path begins with its root. -/
theorem toList_toString (hparts : p.parts ≠ []) :
    p.toString.toList = p.root.text.toList ++ ['/'].intercalate (p.parts.map String.toList) := by
  simpa [below] using toList_toString_below ⟨p.root, []⟩ hparts

section parts

variable (hparts : p.parts ≠ []) (hread : ∀ part ∈ p.parts, IsPart part)

include hparts hread

/-- Behind the root of a path stands no slash. -/
theorem exists_cons_of_parts : ∃ c rest, ['/'].intercalate (p.parts.map String.toList) = c :: rest ∧ c ≠ '/' := by
  cases hcases : p.parts with
  | nil => exact absurd hcases hparts
  | cons first more =>
    have hfirst : IsPart first := hread first (hcases ▸ List.mem_cons_self)
    obtain ⟨c, letters, hletters⟩ := List.exists_cons_of_ne_nil (mt String.toList_eq_nil_iff.1 hfirst.ne_empty)
    have hc : c ≠ '/' := fun heq => hfirst.slash_not_mem (by simp [hletters, heq])
    cases more with
    | nil => exact ⟨c, letters, by simp [hletters, List.intercalate], hc⟩
    | cons second more =>
      refine ⟨c, letters ++ ['/'] ++ ['/'].intercalate ((second :: more).map String.toList), ?_, hc⟩
      rw [List.map_cons, List.map_cons, List.intercalate_cons_cons, hletters]
      rfl

theorem splitAt_parts : Text.splitAt (· == '/') (['/'].intercalate (p.parts.map String.toList)) =
    p.parts.map String.toList := by
  rw [Text.splitAt_eq_splitOn]
  refine List.splitOn_intercalate _ ?_ (by simpa using hparts)
  simpa using fun part hpart => (hread part hpart).slash_not_mem

end parts

/-- Writing a path and reading it back gives the path. -/
theorem ofString_toString (hread : ∀ part ∈ p.parts, IsPart part) : ofString p.toString = p := by
  obtain ⟨root, parts⟩ := p
  by_cases hparts : parts = []
  · subst hparts
    cases root <;> decide +kernel
  · have hkept : parts.filter (fun part => part ≠ "" ∧ part ≠ ".") = parts :=
      List.filter_eq_self.2 fun part hpart => by simp [(hread part hpart).ne_empty, (hread part hpart).ne_dot]
    obtain ⟨c, rest, hjoined, hc⟩ := exists_cons_of_parts hparts hread
    have hsplit := splitAt_parts hparts hread
    have htext := toList_toString (p := ⟨root, parts⟩) hparts
    have hnone : (['/'].intercalate (parts.map String.toList)).takeWhile (· == '/') = [] := by
      dsimp only at hjoined
      rw [hjoined, List.takeWhile_cons_of_neg (by simpa using hc)]
    dsimp only at hsplit htext
    rw [ofString, pieces, htext]
    generalize ['/'].intercalate (parts.map String.toList) = joined at hsplit hnone ⊢
    simp only [ne_eq] at hkept
    -- The slashes of the root are empty pieces.
    cases root <;> simp [Root.text, Text.splitAt_cons, hsplit, hnone, Function.comp_def] <;> simpa using hkept

/-- A text that has been read and written is read again as the same path. -/
theorem ofString_toString_ofString (s : String) : ofString (ofString s).toString = ofString s := by
  apply ofString_toString
  intro part hpart
  exact isPart_of_mem_ofString hpart

end Path

end Userscript
