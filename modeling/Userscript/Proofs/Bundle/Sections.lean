import Mathlib.Algebra.GroupWithZero.Nat
import Mathlib.Data.List.Infix
import Userscript.Bundle.Size
import Userscript.Proofs.Bundle.Merging
import Userscript.Proofs.Tree.Writable

/-!
# Sections of a text

The sections of a text stand one after the other from the first separator to the end, each with
its separator and as far as the next one, so their sizes add up to the size of that part. No
separator goes beyond its line. A bundle whose parts hold no separator themselves has therefore
one section for each module, and nothing but the header before the first one.

## Main definitions

* `Size.IsReadable` — a name that is read off the line before its module
* `Size.Unseparated` — no separator begins in a part of a text
* `Size.Sectioned` — sections that begin with separators and hold no others
* `Size.placed` — the sections of the bodies of a bundle
* `Size.Accounts`, `Size.AccountsForBundle` — sizes that account for a text and for a bundle

## Main results

* `separatorName?_eq_some_iff` — when a text begins with a separator
* `exists_sectioned`, `sections_eq` — the sections of a text are the only ones
* `sectioned_placed` — the bodies of a bundle are sections
* `accounts_breakdown`, `accountsForBundle_breakdown` — what is in a breakdown
* `breakdown_accounts` — every byte and every module is, unless a module has no name
-/

namespace Userscript.Size

variable {t name lead part rest u : Text} {ss : List Section} {cur : Option Section} {c : Char}

/-! ### Separators -/

/-- What stands before the name in the line before a module. -/
def opening : Text := "// --- MODULE: ".toList

/-- What stands behind the name in the line before a module. -/
def ending : Text := [' ', '-', '-', '-']

theorem toList_ending : " ---".toList = ending := by decide

theorem separator_ofList (name : Text) :
    Bundle.separator (String.ofList name) = opening ++ (name ++ ending) := by
  have hname : (String.ofList name).toList = name := String.toList_ofList
  unfold Bundle.separator opening
  rw [hname, List.append_assoc, toList_ending]

/-- A name that is read off the line before its module: some characters of one line, and what ends
the line does not stand in them, unless at their beginning. -/
structure IsReadable (name : Text) : Prop where
  ne_nil : name ≠ []
  line : '\n' ∉ name
  ends : ¬ ending <:+: name.tail

/-- What ends a line behind a name cannot begin within the name and go beyond it. -/
theorem prefix_of_prefix_append_ending (h : ending <+: name ++ (ending ++ rest)) (hne : name ≠ []) :
    ending <+: name := by
  match name with
  | [] => exact absurd rfl hne
  -- Behind so short a name the blank of `ending` would have to be one of its hyphens.
  | [_] | [_, _] | [_, _, _] => simp [ending] at h
  | _ :: _ :: _ :: _ :: _ => simpa [ending] using h

/-- The end of a line is found behind a name in which it does not stand. -/
theorem cut_ending_append (h : ¬ ending <:+: name) (rest : Text) :
    Text.cut ending (name ++ (ending ++ rest)) = some (name, rest) := by
  induction name with
  | nil =>
    have hfound : Text.after? ending (' ' :: (['-', '-', '-'] ++ rest)) = some rest :=
      Text.after?_eq_some_iff.2 rfl
    exact (Text.cut_cons ending ' ' (['-', '-', '-'] ++ rest)).trans (by rw [hfound])
  | cons c name ih =>
    have hnone : Text.after? ending (c :: (name ++ (ending ++ rest))) = none := by
      rw [Option.eq_none_iff_forall_ne_some]
      intro after hafter
      have hbegins : ending <+: c :: name ++ (ending ++ rest) :=
        ⟨after, (Text.after?_eq_some_iff.1 hafter).symm⟩
      exact h (prefix_of_prefix_append_ending hbegins (List.cons_ne_nil c name)).isInfix
    rw [List.cons_append, Text.cut_cons, hnone]
    dsimp only
    rw [ih fun hinside => h (hinside.trans (List.suffix_cons c name).isInfix)]
    rfl

/-- It is found where it stands first. -/
theorem not_infix_of_cut {before : Text} (h : Text.cut ending t = some (before, rest)) :
    ¬ ending <:+: before := by
  induction t generalizing before with
  | nil => simp [Text.cut, Text.cutFrom, ending] at h
  | cons c t ih =>
    have heq := Text.eq_append_of_cut h
    rw [Text.cut_cons] at h
    split at h
    · cases h
      simp [ending]
    · next hnone =>
      obtain ⟨⟨before, rest⟩, hcut, hcons⟩ := Option.map_eq_some_iff.1 h
      cases hcons
      rw [List.infix_cons_iff]
      rintro (⟨u, hu⟩ | hinside)
      · have hafter : Text.after? ending (c :: t) = some (u ++ (ending ++ rest)) := by
          rw [Text.after?_eq_some_iff, heq, ← hu]
          simp
        simp [hafter] at hnone
      · exact ih hcut hinside

/-- The name in the line before a module, of a text that begins with `opening`. -/
def nameBehind? : Text → Option Text
  | [] => none
  | c :: t => (Text.cut ending t).bind fun (name, _) =>
    if (c :: name).contains '\n' then none else some (c :: name)

theorem separatorName?_eq (t : Text) :
    separatorName? t = (Text.after? opening t).bind nameBehind? := by
  unfold separatorName? opening
  rw [toList_ending]
  rfl

theorem nameBehind?_eq_some_iff :
    nameBehind? t = some name ↔ IsReadable name ∧ name ++ ending <+: t := by
  constructor
  · intro h
    cases t with
    | nil => cases h
    | cons c t =>
      obtain ⟨⟨behind, rest⟩, hcut, h⟩ := Option.bind_eq_some_iff.1 h
      obtain ⟨hline, h⟩ := Option.ite_none_left_eq_some.1 h
      cases h
      refine ⟨⟨List.cons_ne_nil c behind, by simpa using hline, not_infix_of_cut hcut⟩, rest, ?_⟩
      rw [Text.eq_append_of_cut hcut, List.cons_append, List.cons_append]
  · rintro ⟨h, rest, rfl⟩
    obtain ⟨c, behind, rfl⟩ := List.exists_cons_of_ne_nil h.ne_nil
    have hcut : Text.cut ending (behind ++ (ending ++ rest)) = some (behind, rest) :=
      cut_ending_append h.ends rest
    have hline : ¬ (c :: behind).contains '\n' := by simpa using h.line
    rw [List.append_assoc, List.cons_append, nameBehind?, hcut]
    exact if_neg hline

/-- A text begins with a separator if it begins with the line before a module, and the name is the
one that the line holds. -/
theorem separatorName?_eq_some_iff : separatorName? t = some name ↔
    IsReadable name ∧ Bundle.separator (String.ofList name) <+: t := by
  rw [separatorName?_eq, separator_ofList, Option.bind_eq_some_iff]
  constructor
  · rintro ⟨u, hafter, hname⟩
    obtain ⟨hreadable, hbegins⟩ := nameBehind?_eq_some_iff.1 hname
    rw [Text.after?_eq_some_iff.1 hafter]
    exact ⟨hreadable, (List.prefix_append_right_inj opening).2 hbegins⟩
  · rintro ⟨hreadable, rest, rfl⟩
    rw [List.append_assoc]
    exact ⟨_, Text.after?_eq_some_iff.2 rfl, nameBehind?_eq_some_iff.2 ⟨hreadable, rest, rfl⟩⟩

/-- A separator does not go beyond its line. -/
theorem newline_not_mem_separator (h : IsReadable name) :
    '\n' ∉ Bundle.separator (String.ofList name) := by
  have hopening : '\n' ∉ opening := by decide
  have hending : '\n' ∉ ending := by decide
  rw [separator_ofList, List.mem_append, List.mem_append]
  exact fun hmem => hmem.elim hopening fun hmem => hmem.elim h.line hending

/-- A text that ends within the first one, without the character at which it goes on. -/
theorem prefix_of_prefix_append_cons {p : Text} (h : p <+: t ++ c :: u) (hc : c ∉ p) : p <+: t := by
  rcases List.prefix_or_prefix_of_prefix h (List.prefix_append t (c :: u)) with h' | ⟨s, rfl⟩
  · exact h'
  · rw [List.prefix_append_right_inj] at h
    cases s with
    | nil => simp
    | cons d s =>
      obtain ⟨rfl, -⟩ := List.cons_prefix_cons.1 h
      simp at hc

/-! ### Parts without separators -/

/-- No separator begins in a part of a text that `rest` follows. -/
def Unseparated (part rest : Text) : Prop :=
  ∀ s, s <:+ part → s ≠ [] → separatorName? (s ++ rest) = none

theorem unseparated_iff_forall_mem_tails :
    Unseparated part rest ↔ ∀ s ∈ part.tails, s ≠ [] → separatorName? (s ++ rest) = none := by
  simp only [Unseparated, List.mem_tails]

instance (part rest : Text) : Decidable (Unseparated part rest) :=
  decidable_of_iff _ unseparated_iff_forall_mem_tails.symm

theorem unseparated_nil (rest : Text) : Unseparated [] rest :=
  fun _ hs hne => absurd (List.suffix_nil.1 hs) hne

theorem unseparated_cons_iff : Unseparated (c :: t) rest ↔
    separatorName? (c :: (t ++ rest)) = none ∧ Unseparated t rest := by
  constructor
  · intro h
    exact ⟨h _ List.suffix_rfl (List.cons_ne_nil c t), fun s hs =>
      h s (hs.trans (List.suffix_cons c t))⟩
  · rintro ⟨hfirst, h⟩ s hs hne
    rcases List.suffix_cons_iff.1 hs with rfl | hs
    · exact hfirst
    · exact h s hs hne

theorem Unseparated.append (h : Unseparated t (u ++ rest)) (h' : Unseparated u rest) :
    Unseparated (t ++ u) rest := by
  induction t with
  | nil => exact h'
  | cons c t ih =>
    rw [unseparated_cons_iff] at h
    rw [List.cons_append, unseparated_cons_iff, List.append_assoc]
    exact ⟨h.1, ih h.2⟩

/-- A separator that begins in a part does not go beyond the line feed behind the part. -/
theorem Unseparated.before_newline (h : Unseparated part []) (rest : Text) :
    Unseparated part ('\n' :: rest) := by
  intro s hs hne
  rw [Option.eq_none_iff_forall_ne_some]
  intro name hname
  obtain ⟨hreadable, hbegins⟩ := separatorName?_eq_some_iff.1 hname
  have hfound : separatorName? (s ++ []) = some name := by
    rw [List.append_nil, separatorName?_eq_some_iff]
    exact ⟨hreadable, prefix_of_prefix_append_cons hbegins (newline_not_mem_separator hreadable)⟩
  rw [h s hs hne] at hfound
  cases hfound

theorem exists_separator_eq_cons (name : Text) :
    ∃ u, Bundle.separator (String.ofList name) = '/' :: u := by
  have hopening : opening = '/' :: opening.tail := by decide
  exact ⟨opening.tail ++ (name ++ ending), by rw [separator_ofList]; nth_rewrite 1 [hopening]; rfl⟩

theorem separatorName?_newline (t : Text) : separatorName? ('\n' :: t) = none := by
  rw [Option.eq_none_iff_forall_ne_some]
  intro name hname
  obtain ⟨-, hbegins⟩ := separatorName?_eq_some_iff.1 hname
  obtain ⟨u, hu⟩ := exists_separator_eq_cons name
  rw [hu, List.cons_prefix_cons] at hbegins
  exact absurd hbegins.1 (by decide)

/-! ### The sections of a text -/

/-- The text of sections. -/
def textOf (ss : List Section) : Text := ss.flatMap Section.text

theorem textOf_cons (s : Section) (ss : List Section) : textOf (s :: ss) = s.text ++ textOf ss :=
  List.flatMap_cons

/-- Sections that begin with separators and hold no others. -/
inductive Sectioned : List Section → Prop
  | nil : Sectioned []
  | cons {name body : Text} {ss : List Section} (hname : IsReadable name)
      (hbody : Unseparated body (textOf ss)) (h : Sectioned ss) :
      Sectioned (⟨name, Bundle.separator (String.ofList name) ++ body⟩ :: ss)

/-- Every text is a part without separators and sections. -/
theorem exists_sectioned (t : Text) :
    ∃ lead ss, t = lead ++ textOf ss ∧ Unseparated lead (textOf ss) ∧ Sectioned ss := by
  match t with
  | [] => exact ⟨[], [], rfl, unseparated_nil [], .nil⟩
  | c :: t =>
    cases hname : separatorName? (c :: t) with
    | none =>
      obtain ⟨lead, ss, rfl, hlead, hss⟩ := exists_sectioned t
      exact ⟨c :: lead, ss, rfl, unseparated_cons_iff.2 ⟨hname, hlead⟩, hss⟩
    | some name =>
      -- The separator opens a section, and what follows it up to the next one belongs to that.
      obtain ⟨hreadable, rest, heq⟩ := separatorName?_eq_some_iff.1 hname
      obtain ⟨d, hd⟩ := exists_separator_eq_cons name
      have hshorter : rest.length < (c :: t).length := by
        rw [← heq, hd, List.length_append, List.length_cons]
        omega
      obtain ⟨body, ss, rfl, hbody, hss⟩ := exists_sectioned rest
      refine ⟨[], _, ?_, unseparated_nil _, .cons hreadable hbody hss⟩
      rw [← heq, List.nil_append, textOf_cons, List.append_assoc]
termination_by t.length
decreasing_by
  · simp
  · exact hshorter

/-- A section that is open with a part of the text more in it. -/
def Section.grown (part : Text) (s : Section) : Section := { s with text := part.reverse ++ s.text }

/-- A section that is open is over. -/
def Section.closed (s : Section) : Section := { s with text := s.text.reverse }

/-- A part without separators belongs to the section that is open. -/
theorem sectionsFrom_of_unseparated (h : Unseparated part rest) (cur : Option Section) :
    sectionsFrom cur 0 (part ++ rest) = sectionsFrom (cur.map (Section.grown part)) 0 rest := by
  induction part generalizing cur with
  | nil => cases cur <;> rfl
  | cons c part ih =>
    rw [unseparated_cons_iff] at h
    rw [List.cons_append, sectionsFrom]
    dsimp only
    rw [h.1]
    dsimp only
    rw [ih h.2, Option.map_map]
    congr 2
    funext s
    simp [Section.grown]

/-- So does the rest of a separator. -/
theorem sectionsFrom_skip (part rest : Text) (s : Section) :
    sectionsFrom (some s) part.length (part ++ rest) = sectionsFrom (some (s.grown part)) 0 rest := by
  induction part generalizing s with
  | nil => rfl
  | cons c part ih =>
    rw [List.length_cons, List.cons_append, sectionsFrom]
    dsimp only [Option.map_some]
    rw [ih]
    simp [Section.grown]

theorem sectionsFrom_textOf (h : Sectioned ss) (cur : Option Section) :
    sectionsFrom cur 0 (textOf ss) = (cur.map Section.closed).toList ++ ss := by
  induction h generalizing cur with
  | nil => cases cur <;> rfl
  | @cons name body ss hname hbody h ih =>
    obtain ⟨u, hu⟩ := exists_separator_eq_cons name
    have hfound : separatorName? ('/' :: (u ++ (body ++ textOf ss))) = some name := by
      rw [separatorName?_eq_some_iff, hu]
      exact ⟨hname, List.prefix_append ('/' :: u) _⟩
    have hlength : (Bundle.separator (String.ofList name)).length - 1 = u.length := by rw [hu]; rfl
    have htext : textOf (⟨name, Bundle.separator (String.ofList name) ++ body⟩ :: ss) =
        '/' :: (u ++ (body ++ textOf ss)) := by
      rw [textOf_cons, hu]
      simp
    -- From the separator on a section is open, which takes in its line and the part behind it.
    have hopened : sectionsFrom (some ⟨name, ['/']⟩) u.length (u ++ (body ++ textOf ss)) =
        ⟨name, Bundle.separator (String.ofList name) ++ body⟩ :: ss := by
      rw [sectionsFrom_skip, sectionsFrom_of_unseparated hbody, ih, hu]
      simp [Section.grown, Section.closed]
    rw [htext, sectionsFrom]
    dsimp only
    rw [hfound]
    dsimp only
    rw [hlength, hopened]
    cases cur <;> rfl

/-- There are no other sections of a text. -/
theorem sections_eq (h : Sectioned ss) (hlead : Unseparated lead (textOf ss)) :
    sections (lead ++ textOf ss) = ss := by
  rw [sections, sectionsFrom_of_unseparated hlead, sectionsFrom_textOf h]
  rfl

/-! ### Sizes -/

theorem size_append (t u : Text) : Utf8.size (t ++ u) = Utf8.size t + Utf8.size u := by
  simp [Utf8.size, Utf8.encode]

theorem sum_size_sections (ss : List Section) :
    (ss.map fun s => s.size.size).sum = Utf8.size (textOf ss) := by
  induction ss with
  | nil => rfl
  | cons s ss ih => rw [List.map_cons, List.sum_cons, ih, textOf_cons, size_append, Section.size]

theorem breakdown_perm (t : Text) : (breakdown t).Perm ((sections t).map Section.size) :=
  List.mergeSort_perm _ _

theorem sum_size_breakdown (t : Text) :
    ((breakdown t).map ModuleSize.size).sum = Utf8.size (textOf (sections t)) := by
  rw [((breakdown_perm t).map ModuleSize.size).sum_nat, List.map_map, ← sum_size_sections]
  rfl

/-- Whether a section may stand before another in a breakdown. -/
def notSmaller (a b : ModuleSize) : Bool := b.size ≤ a.size

theorem notSmaller_trans (a b c : ModuleSize) (hab : notSmaller a b) (hbc : notSmaller b c) :
    notSmaller a c := by
  simp only [notSmaller, decide_eq_true_eq] at *
  omega

theorem notSmaller_total (a b : ModuleSize) : notSmaller a b || notSmaller b a := by
  simp only [notSmaller, Bool.or_eq_true, decide_eq_true_eq]
  omega

/-- The largest section comes first. -/
theorem pairwise_breakdown (t : Text) : (breakdown t).Pairwise fun a b => b.size ≤ a.size :=
  (List.pairwise_mergeSort notSmaller_trans notSmaller_total _).imp of_decide_eq_true

/-- Sections of one size keep their order. -/
theorem filter_breakdown (t : Text) (n : Nat) :
    (breakdown t).filter (·.size = n) = ((sections t).map Section.size).filter (·.size = n) := by
  generalize hchosen : ((sections t).map Section.size).filter (·.size = n) = chosen
  have hsize : ∀ m ∈ chosen, m.size = n := by
    rw [← hchosen]
    simp
  -- Sections of one size are in order already, so sorting leaves them one behind the other.
  have hsublist : chosen.Sublist (breakdown t) := by
    refine List.sublist_mergeSort notSmaller_trans notSmaller_total ?_ ?_
    · refine List.pairwise_of_forall_mem_list fun a ha b hb => ?_
      simp [notSmaller, hsize a ha, hsize b hb]
    · rw [← hchosen]
      exact List.filter_sublist
  have hfilter := hsublist.filter (·.size = n)
  rw [List.filter_eq_self.2 (by simpa using hsize)] at hfilter
  have hlength : chosen.length = ((breakdown t).filter (·.size = n)).length := by
    rw [← hchosen, ((breakdown_perm t).filter _).length_eq]
  exact (hfilter.eq_of_length hlength).symm

/-! ### The sections of a bundle -/

/-- The sections of the bodies of a bundle: for each body the line before it, an empty line, the body
itself, and another empty line unless the bundle ends there. -/
def placed : List Bundle.Body → List Section
  | [] => []
  | body :: bodies =>
    let behind := if bodies.isEmpty then ['\n'] else ['\n', '\n']
    ⟨body.name.toList, Bundle.separator body.name ++ ('\n' :: '\n' :: (body.text ++ behind))⟩ ::
      placed bodies

/-- What stands below a header are, behind an empty line, the sections of the bodies. -/
theorem flatMap_bodies_eq {bodies : List Bundle.Body} (h : bodies ≠ []) :
    (bodies.flatMap fun body => [Bundle.separator body.name, body.text]).flatMap
      (fun part => '\n' :: part ++ ['\n']) = '\n' :: textOf (placed bodies) := by
  induction bodies with
  | nil => exact absurd rfl h
  | cons body bodies ih =>
    cases bodies with
    | nil => simp [placed, textOf]
    | cons next bodies =>
      rw [placed, textOf_cons, List.flatMap_cons, List.flatMap_append, ih (List.cons_ne_nil next bodies)]
      simp

/-- The text of a bundle that has bodies is the header, an empty line, and their sections. -/
theorem text_eq_append_placed {b : Bundle} (h : b.bodies ≠ []) :
    b.text = b.header ++ ['\n', '\n'] ++ textOf (placed b.bodies) := by
  have htail : b.parts.tail = b.bodies.flatMap fun body => [Bundle.separator body.name, body.text] := rfl
  rw [b.text_eq, htail, below, flatMap_bodies_eq h, List.append_assoc]
  rfl

/-- Nothing in a bundle but the lines before its modules is taken for such a line, and the names in
these lines are read as they stand, unless they are empty. -/
structure Plain (b : Bundle) : Prop where
  header : Unseparated b.header []
  bodies : ∀ body ∈ b.bodies, Unseparated body.text []
  names : ∀ name ∈ b.merged, '\n' ∉ name.toList ∧ ¬ ending <:+: name.toList

theorem Unseparated.newline_cons (h : Unseparated t rest) : Unseparated ('\n' :: t) rest :=
  unseparated_cons_iff.2 ⟨separatorName?_newline _, h⟩

theorem isReadable_toList {name : String} (hne : name ≠ "") (hline : '\n' ∉ name.toList)
    (hends : ¬ ending <:+: name.toList) : IsReadable name.toList :=
  ⟨by simpa using hne, hline, fun h => hends (h.trans (List.tail_suffix _).isInfix)⟩

/-- The bodies of a bundle are sections. -/
theorem sectioned_placed {bodies : List Bundle.Body}
    (hnames : ∀ body ∈ bodies, IsReadable body.name.toList)
    (hbodies : ∀ body ∈ bodies, Unseparated body.text []) : Sectioned (placed bodies) := by
  induction bodies with
  | nil => exact .nil
  | cons body bodies ih =>
    rw [List.forall_mem_cons] at hnames hbodies
    have hbehind (rest : Text) : Unseparated (if bodies.isEmpty then ['\n'] else ['\n', '\n']) rest := by
      split
      · exact (unseparated_nil rest).newline_cons
      · exact (unseparated_nil rest).newline_cons.newline_cons
    have hbody : Unseparated body.text
        ((if bodies.isEmpty then ['\n'] else ['\n', '\n']) ++ textOf (placed bodies)) := by
      split
      · exact hbodies.1.before_newline _
      · exact hbodies.1.before_newline _
    have := Sectioned.cons hnames.1 (hbody.append (hbehind _)).newline_cons.newline_cons
      (ih hnames.2 hbodies.2)
    rwa [String.ofList_toList] at this

theorem Sectioned.isReadable (h : Sectioned ss) : ∀ s ∈ ss, IsReadable s.name := by
  induction h with
  | nil => simp
  | cons hname _ _ ih => exact List.forall_mem_cons.2 ⟨hname, ih⟩

theorem names_placed (bodies : List Bundle.Body) :
    ((placed bodies).map Section.size).map ModuleSize.name = bodies.map (·.name) := by
  induction bodies with
  | nil => rfl
  | cons body bodies ih =>
    rw [placed, List.map_cons, List.map_cons, ih, List.map_cons]
    simp [Section.size]

/-- The size that is given for a text that has been written is that of the text. -/
theorem size_of_writeText {host : Host} {p : Path} {w w' : World} {size : Nat}
    (h : Action.writeText p t host w = (.ok size, w')) : size = Utf8.size t := by
  have hrun : Action.writeText p t = (do
      Action.makeFolders p.parent
      Action.writeBytes p (Utf8.encode t)
      return (Utf8.encode t).length : Action Nat) := rfl
  rw [hrun] at h
  obtain ⟨-, _, -, h⟩ := Program.bind_eq_ok_iff.1 h
  obtain ⟨-, _, -, h⟩ := Program.bind_eq_ok_iff.1 h
  cases h
  rfl

/-! ### What a breakdown accounts for -/

/-- The sizes of sections account for a text: the sections go from its first separator to its end,
each as far as the next separator, and the sizes are in order. -/
structure Accounts (t : Text) (ss : List Section) (sizes : List ModuleSize) : Prop where
  lead : ∃ lead, t = lead ++ textOf ss ∧ Unseparated lead (textOf ss)
  sectioned : Sectioned ss
  sum : (sizes.map ModuleSize.size).sum = Utf8.size (textOf ss)
  largest_first : sizes.Pairwise fun a b => b.size ≤ a.size
  same_order : ∀ n, sizes.filter (·.size = n) = (ss.map Section.size).filter (·.size = n)

/-- Sizes account for a bundle: they are those of its bodies with the lines before them, and the
header and the empty line behind it are the rest of what is written. -/
structure AccountsForBundle (b : Bundle) (sizes : List ModuleSize) : Prop where
  text : b.text = b.header ++ ['\n', '\n'] ++ textOf (placed b.bodies)
  perm : sizes.Perm ((placed b.bodies).map Section.size)
  names : (sizes.map ModuleSize.name).Perm b.merged
  written : ∀ host p w size w', Action.writeText p b.text host w = (.ok size, w') →
    (sizes.map ModuleSize.size).sum + Utf8.size (b.header ++ ['\n', '\n']) = size
  writable : ∀ host p w, w.tree.Writable p → ∃ size w', Action.writeText p b.text host w = (.ok size, w')

theorem accounts_breakdown (t : Text) : Accounts t (sections t) (breakdown t) := by
  obtain ⟨lead, ss, rfl, hlead, hss⟩ := exists_sectioned t
  have hsections := sections_eq hss hlead
  exact {
    lead := ⟨lead, by rw [hsections], by rwa [hsections]⟩
    sectioned := by rwa [hsections]
    sum := sum_size_breakdown _
    largest_first := pairwise_breakdown _
    same_order := filter_breakdown _ }

/-- A module without a name is never in a breakdown. -/
theorem empty_not_mem_breakdown (t : Text) : "" ∉ (breakdown t).map ModuleSize.name := by
  rw [((breakdown_perm t).map ModuleSize.name).mem_iff, List.map_map, List.mem_map]
  rintro ⟨s, hs, hname⟩
  refine ((accounts_breakdown t).sectioned.isReadable s hs).ne_nil ?_
  simpa [Section.size] using hname

theorem accountsForBundle_breakdown {b : Bundle} (hbodies : b.bodies ≠ []) (hplain : Plain b)
    (hnames : "" ∉ b.merged) : AccountsForBundle b (breakdown b.text) := by
  have hreadable : ∀ body ∈ b.bodies, IsReadable body.name.toList := by
    intro body hbody
    have hname : body.name ∈ b.merged := List.mem_map_of_mem hbody
    exact isReadable_toList (fun hempty => hnames (hempty ▸ hname)) (hplain.names _ hname).1
      (hplain.names _ hname).2
  have htext := text_eq_append_placed hbodies
  -- The header is followed by a line feed, which no separator of a text that begins in it passes.
  have hlead : Unseparated (b.header ++ ['\n', '\n']) (textOf (placed b.bodies)) :=
    (hplain.header.before_newline _).append (unseparated_nil _).newline_cons.newline_cons
  have hsections : sections b.text = placed b.bodies := by
    rw [htext]
    exact sections_eq (sectioned_placed hreadable hplain.bodies) hlead
  have hperm := breakdown_perm b.text
  rw [hsections] at hperm
  refine {
    text := htext
    perm := hperm
    names := ?_
    written := fun host p w size w' h => ?_
    writable := fun host p w h => ?_ }
  · have := hperm.map ModuleSize.name
    rwa [names_placed] at this
  · rw [size_of_writeText h, sum_size_breakdown, hsections, Nat.add_comm, ← size_append, ← htext]
  · obtain ⟨w', hrun, -⟩ := Action.run_writeText host h b.text
    exact ⟨_, w', hrun⟩

/-- A breakdown accounts for every byte from the first separator on. It accounts for every module of
a bundle as well, unless one has no name. -/
theorem breakdown_accounts :
    (∀ t, Accounts t (sections t) (breakdown t)) ∧
    ∀ markers header modules b warnings,
      Bundle.assemble markers header modules = .ok (b, warnings) → Plain b →
        (((breakdown b.text).map ModuleSize.name).Perm b.merged ↔ "" ∉ b.merged) ∧
        ("" ∉ b.merged → AccountsForBundle b (breakdown b.text)) := by
  refine ⟨accounts_breakdown, fun markers header modules b warnings h hplain => ?_⟩
  have hcomplete := accountsForBundle_breakdown (Bundle.bodies_ne_nil h) hplain
  refine ⟨⟨fun hperm hempty => ?_, fun hempty => (hcomplete hempty).names⟩, hcomplete⟩
  -- A separator without a name opens no section.
  exact empty_not_mem_breakdown b.text (hperm.mem_iff.2 hempty)

/-- The second module is larger, so it comes first. -/
theorem breakdown_accounts_two :
    let modules : List Loaded := [(⟨"a", ⟨.slash, ["src"]⟩⟩, some "a()".toList),
      (⟨"é --", ⟨.slash, ["src"]⟩⟩, some "'é'; // --- MODULE: no".toList)]
    ∃ b warnings, Bundle.assemble {} "// ==UserScript==".toList modules = .ok (b, warnings) ∧
      Plain b ∧ "" ∉ b.merged ∧ breakdown b.text = [⟨"é --", 50⟩, ⟨"a", 27⟩] ∧
      AccountsForBundle b (breakdown b.text) := by
  intro modules
  let b : Bundle := {
    header := "// ==UserScript==".toList
    bodies := [⟨"a", ⟨.slash, ["src", "a"]⟩, "a()".toList⟩,
      ⟨"é --", ⟨.slash, ["src", "é --"]⟩, "'é'; // --- MODULE: no".toList⟩] }
  have hassemble : Bundle.assemble {} "// ==UserScript==".toList modules = .ok (b, []) := by rfl
  have hplain : Plain b := {
    header := by decide +kernel
    bodies := by decide +kernel
    names := by decide +kernel }
  have hnames : "" ∉ b.merged := by decide +kernel
  have hsections : (sections b.text).map Section.size = [⟨"a", 27⟩, ⟨"é --", 50⟩] := by decide +kernel
  have hsizes : breakdown b.text = [⟨"é --", 50⟩, ⟨"a", 27⟩] := by
    rw [breakdown, hsections]
    simp [List.mergeSort]
  exact ⟨b, [], hassemble, hplain, hnames, hsizes, (breakdown_accounts.2 _ _ _ _ _ hassemble hplain).2 hnames⟩

/-- The line before a module without a name is none that a name can be read off. -/
theorem breakdown_unnamed :
    let modules : List Loaded := [(⟨"", ⟨.slash, ["src"]⟩⟩, some "a()".toList)]
    ∃ b warnings, Bundle.assemble {} "h".toList modules = .ok (b, warnings) ∧ Plain b ∧
      breakdown b.text = [] ∧ ¬ ((breakdown b.text).map ModuleSize.name).Perm b.merged := by
  intro modules
  let b : Bundle := { header := "h".toList, bodies := [⟨"", ⟨.slash, ["src"]⟩, "a()".toList⟩] }
  have hassemble : Bundle.assemble {} "h".toList modules = .ok (b, []) := by rfl
  have hplain : Plain b := {
    header := by decide +kernel
    bodies := by decide +kernel
    names := by decide +kernel }
  have hsizes : breakdown b.text = [] := by decide +kernel
  have hmerged : b.merged = [""] := rfl
  refine ⟨b, [], hassemble, hplain, hsizes, ?_⟩
  rw [hsizes, hmerged]
  decide

end Userscript.Size
