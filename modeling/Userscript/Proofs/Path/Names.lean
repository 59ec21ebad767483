import Userscript.Proofs.Module.Walk

/-!
# Names in paths

A name without slashes is a path of one part, and what has this name in a folder is found by it. The
texts of two paths in one folder are the same only if the names are.

## Main definitions

* `Path.IsName` — a text is the name of a file

## Main results

* `child_of_isName` — a name leads to what has this name in a folder
* `toString_below_inj` — the texts of paths below one folder
-/

namespace Userscript

namespace Text

variable {p : Char → Bool} {t : Text}

theorem splitAt_of_forall_not (h : ∀ c ∈ t, p c = false) : splitAt p t = [t] := by
  induction t with
  | nil => rfl
  | cons c t ih =>
    rw [List.forall_mem_cons] at h
    rw [splitAt_cons, h.1, ih h.2]
    rfl

/-- The joined pieces behind the same first ones are the same only if the pieces are. -/
theorem append_intercalate_inj {c : Char} {first second second' : List Text} (hne : second ≠ [])
    (hne' : second' ≠ []) (h : ∀ piece ∈ second, c ∉ piece) (h' : ∀ piece ∈ second', c ∉ piece)
    (heq : [c].intercalate (first ++ second) = [c].intercalate (first ++ second')) : second = second' := by
  induction first with
  | nil =>
    have hsplit := List.splitOn_intercalate c h hne
    rw [List.nil_append, List.nil_append] at heq
    rw [heq, List.splitOn_intercalate c h' hne'] at hsplit
    exact hsplit.symm
  | cons piece first ih =>
    have hcons {rest : List Text} (hrest : rest ≠ []) : [c].intercalate (piece :: (first ++ rest)) =
        piece ++ [c] ++ [c].intercalate (first ++ rest) := by
      cases hfirst : first ++ rest with
      | nil => exact absurd (List.append_eq_nil_iff.1 hfirst).2 hrest
      | cons next last => exact List.intercalate_cons_cons
    rw [List.cons_append, List.cons_append, hcons hne, hcons hne'] at heq
    exact ih (List.append_cancel_left heq)

end Text

namespace Path

variable {folder : Path} {name : String} {names names' : List String}

/-- A text is the name of a file in a folder. -/
structure IsName (name : String) : Prop where
  ne_empty : name ≠ ""
  ne_dot : name ≠ "."
  ne_dots : name ≠ ".."
  slash_not_mem : '/' ∉ name.toList

instance (name : String) : Decidable (IsName name) :=
  decidable_of_iff (name ≠ "" ∧ name ≠ "." ∧ name ≠ ".." ∧ '/' ∉ name.toList)
    ⟨fun ⟨hempty, hdot, hdots, hslash⟩ => ⟨hempty, hdot, hdots, hslash⟩,
      fun ⟨hempty, hdot, hdots, hslash⟩ => ⟨hempty, hdot, hdots, hslash⟩⟩

theorem ofString_eq (hslash : '/' ∉ name.toList) (hempty : name ≠ "") (hdot : name ≠ ".") :
    ofString name = ⟨.none, [name]⟩ := by
  have hfree : ∀ c ∈ name.toList, (c == '/') = false := by
    intro c hc
    simpa using ne_of_mem_of_not_mem hc hslash
  have hpieces : pieces name = [name] := by
    rw [pieces, Text.splitAt_of_forall_not hfree]
    simp
  have hslashes : (name.toList.takeWhile (· == '/')).length = 0 := by
    cases hchars : name.toList with
    | nil => rfl
    | cons c rest => rw [List.takeWhile_cons, hfree c (by simp [hchars])]; rfl
  rw [ofString, hpieces, hslashes]
  simp [hempty, hdot]

/-- A name leads to what has this name in a folder. -/
theorem child_of_isName (h : IsName name) (folder : Path) : folder.child name = folder.under name := by
  rw [child, ofString_eq h.slash_not_mem h.ne_empty h.ne_dot]
  rfl

/-- The name of the file that Terser reads is a name. -/
theorem isName_input (h : '/' ∉ name.toList) : IsName ("input-" ++ name) := by
  have hne (other : String) (hother : other.toList.head? ≠ some 'i') : "input-" ++ name ≠ other := by
    rintro rfl
    simp at hother
  refine ⟨hne _ (by decide), hne _ (by decide), hne _ (by decide), ?_⟩
  simpa using h

/-- The name of the source map that Terser writes is a name. -/
theorem isName_map (h : IsName name) : IsName (name ++ ".map") := by
  have hne (other : String) (hother : other.toList.getLast? ≠ some 'p') : name ++ ".map" ≠ other := by
    rintro rfl
    simp at hother
  refine ⟨hne _ (by decide), hne _ (by decide), hne _ (by decide), ?_⟩
  simpa using h.slash_not_mem

theorem hasNul_eq_false_iff {p : Path} : p.hasNul = false ↔ ∀ part ∈ p.parts, '\x00' ∉ part.toList := by
  simp [hasNul]

theorem under_below (folder : Path) (names : List String) (name : String) :
    (folder.below names).under name = folder.below (names ++ [name]) := by
  simp [below, under]

theorem toList_toString_below (folder : Path) (hnames : names ≠ []) : (folder.below names).toString.toList =
    folder.root.text.toList ++ ['/'].intercalate (folder.parts.map String.toList ++ names.map String.toList) := by
  have hparts : folder.parts ++ names ≠ [] := by simp [hnames]
  rw [toString, below]
  simp only [hparts, and_false, if_false, String.toList_append, String.toList_intercalate, List.map_append]
  rfl

/-- The texts of two paths below a folder are the same only if the names are. -/
theorem toString_below_inj (hnames : names ≠ []) (hnames' : names' ≠ [])
    (h : ∀ name ∈ names, IsName name) (h' : ∀ name ∈ names', IsName name)
    (heq : (folder.below names).toString = (folder.below names').toString) : names = names' := by
  have hslash {names : List String} (h : ∀ name ∈ names, IsName name) :
      ∀ piece ∈ names.map String.toList, '/' ∉ piece := by
    simpa using fun name hname => (h name hname).slash_not_mem
  have hlists : names.map String.toList = names'.map String.toList := by
    have hchars := congrArg String.toList heq
    rw [toList_toString_below folder hnames, toList_toString_below folder hnames'] at hchars
    exact Text.append_intercalate_inj (by simpa using hnames) (by simpa using hnames') (hslash h)
      (hslash h') (List.append_cancel_left hchars)
  exact (List.map_inj_right fun _ _ => String.toList_inj.1).1 hlists

end Path

end Userscript
