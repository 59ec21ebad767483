import Mathlib.Data.List.Sort
import Userscript.Proofs.Module.Listing

/-!
# Where modules are placed

Of the files with one name, the one in the folder with the least text is placed. Some names lead: those of
a manifest, each where it first stands, or that of the entry. The modules with these names come first, and
the others follow by name. This leaves no choice but for files whose folders have the same text.

## Main definitions

* `Module.leading` — the names that come first
* `Module.Places` — modules are placed as they should be

## Main results

* `names_listed`, `names_entryFirst` — the modules that come first
* `Places.texts_eq` — there is one way to place modules
* `places_order` — the modules in order are placed as they should be
-/

namespace Userscript.Module

variable {files known modules modules' : List ModuleFile} {lead : List String} {m f : ModuleFile}

/-- The names that come first: those that a manifest lists, each where it first stands, or the entry. -/
def leading (manifest : Option Manifest) (entry : String) : List String :=
  match manifest with
  | some manifest => manifest.names.eraseDups
  | none => [entry]

/-- Files are placed under some leading names: one of each name, from the folder with the least text, with
the names that lead before the others and these in order. -/
structure Places (files : List ModuleFile) (lead : List String) (modules : List ModuleFile) : Prop where
  nodup : (modules.map (·.name)).Nodup
  name_mem_iff : ∀ name, name ∈ modules.map (·.name) ↔ name ∈ files.map (·.name)
  least : ∀ m ∈ modules, m ∈ files ∧ ∀ f ∈ files, f.name = m.name → m.folder.toString ≤ f.folder.toString
  names_eq : ∃ others, modules.map (·.name) = lead.filter (· ∈ files.map (·.name)) ++ others ∧
    others.Pairwise (· < ·) ∧ ∀ name, name ∈ others ↔ name ∈ files.map (·.name) ∧ name ∉ lead

/-! ### The file of a name -/

/-- The first module of a name comes before all others of it. -/
theorem comesFirst_of_mem_distinct (hsorted : files.Pairwise fun a b => comesFirst a b) (hm : m ∈ distinct files)
    (hf : f ∈ files) (hname : f.name = m.name) : comesFirst m f := by
  have hrefl (m : ModuleFile) : comesFirst m m := by simpa using comesFirst_total m m
  induction files with
  | nil => cases hf
  | cons first rest ih =>
    obtain ⟨hfirst, hrest⟩ := List.pairwise_cons.1 hsorted
    rcases List.mem_cons.1 hm with rfl | hm
    · rcases List.mem_cons.1 hf with rfl | hf
      · exact hrefl f
      · exact hfirst f hf
    · obtain ⟨hm, hne⟩ := List.mem_filter.1 hm
      rcases List.mem_cons.1 hf with rfl | hf
      · -- The first file takes out all others of its name.
        simp [hname] at hne
      · exact ih hrest hm hf

theorem least_of_mem_distinct_byName (hm : m ∈ distinct (byName files)) :
    m ∈ files ∧ ∀ f ∈ files, f.name = m.name → m.folder.toString ≤ f.folder.toString := by
  constructor
  · exact (perm_byName files).mem_iff.1 ((distinct_sublist _).subset hm)
  · intro f hf hname
    have hfirst := comesFirst_of_mem_distinct (pairwise_byName files) hm ((perm_byName files).mem_iff.2 hf) hname
    rcases comesFirst_iff.1 hfirst with hlt | ⟨-, hle⟩
    · exact absurd (hname ▸ hlt) (String.lt_irrefl _)
    · exact hle

/-- The names of the modules that are kept are in order. -/
theorem pairwise_lt_names_distinct (files : List ModuleFile) :
    ((distinct (byName files)).map (·.name)).Pairwise (· < ·) :=
  (pairwise_names_distinct files).imp₂
    (fun _ _ hle hne => String.not_le.1 fun hge => hne (String.le_antisymm hle hge)) (nodup_names_distinct _)

/-! ### The names that lead -/

/-- Names that are taken out may be taken out before or after the first places are found. -/
theorem eraseDups_filter (p : String → Bool) (names : List String) :
    (names.filter p).eraseDups = names.eraseDups.filter p := by
  cases names with
  | nil => rfl
  | cons name names =>
    have ih := eraseDups_filter p (names.filter fun other => !other == name)
    rw [List.eraseDups_cons, List.filter_cons]
    cases hp : p name with
    | true =>
      rw [List.filter_cons_of_pos hp, if_pos rfl, List.eraseDups_cons, ← ih, List.filter_filter, List.filter_filter]
      simp only [Bool.and_comm]
    | false =>
      -- A name that is left is not the one that is taken out.
      have hsame : (names.filter fun other => !other == name).filter p = names.filter p := by
        rw [List.filter_filter]
        apply List.filter_congr
        intro other _
        by_cases heq : other = name <;> simp [heq, hp]
      rw [List.filter_cons_of_neg (by simp [hp]), if_neg (by simp), ← ih, hsame]
termination_by names.length
decreasing_by
  have hle := List.length_filter_le (fun other => !other == name) names
  simp only [List.length_cons]
  omega

/-- A manifest lists a name if it is that of a module which is left. -/
theorem Listed.names_add (known : List ModuleFile) (l : Listed) (name : String) :
    (l.add known name).modules.map (·.name) =
      l.modules.map (·.name) ++ [name].filter (· ∈ l.rest.map (·.name)) := by
  unfold Listed.add
  split
  · next m hm =>
    obtain rfl : m.name = name := by simpa using List.find?_some hm
    have hleft : m.name ∈ l.rest.map (·.name) := List.mem_map_of_mem (List.mem_of_find?_eq_some hm)
    rw [List.filter_cons_of_pos (by simpa using hleft), List.map_append]
    rfl
  · next hnone =>
    have hleft : name ∉ l.rest.map (·.name) := by simpa using hnone
    rw [List.filter_cons_of_neg (by simpa using hleft)]
    split <;> simp

/-- A manifest lists the modules that it names, each where its name first stands. -/
theorem names_listed (names : List String) (known : List ModuleFile) :
    (listed names known).modules.map (·.name) = names.eraseDups.filter (· ∈ known.map (·.name)) := by
  -- What is listed from here on are the first places of names among the modules that are left.
  have hfold (l : Listed) : (names.foldl (Listed.add known) l).modules.map (·.name) =
      l.modules.map (·.name) ++ names.eraseDups.filter (· ∈ l.rest.map (·.name)) := by
    induction names generalizing l with
    | nil => simp
    | cons name names ih =>
      have hrest : names.eraseDups.filter (· ∈ (l.add known name).rest.map (·.name)) =
          (names.filter fun other => !other == name).eraseDups.filter (· ∈ l.rest.map (·.name)) := by
        -- A name that has been listed is not found again, as its module is no longer left.
        rw [eraseDups_filter, List.filter_filter, Listed.rest_add]
        apply List.filter_congr
        intro other _
        rw [Bool.eq_iff_iff]
        simp only [List.mem_map, List.mem_filter, Bool.and_eq_true, decide_eq_true_eq, Bool.not_eq_true',
          beq_eq_false_iff_ne]
        grind
      rw [List.foldl_cons, ih, List.eraseDups_cons, Listed.names_add, hrest, List.append_assoc,
        ← List.filter_append, List.singleton_append]
  exact hfold { rest := known }

/-- Without a manifest the entry comes first, if there is one. -/
theorem names_entryFirst (entry : String) (hnodup : (known.map (·.name)).Nodup) :
    (entryFirst entry known).map (·.name) =
      [entry].filter (· ∈ known.map (·.name)) ++ (known.map (·.name)).filter (· ≠ entry) := by
  have hentry : (known.filter (·.name = entry)).map (·.name) = [entry].filter (· ∈ known.map (·.name)) := by
    have hcount : (known.map (·.name)).filter (fun name => decide (name = entry)) =
        List.replicate ((known.map (·.name)).count entry) entry := List.filter_eq entry
    rw [hnodup.count, List.filter_map] at hcount
    rw [List.filter_singleton]
    refine Eq.trans hcount ?_
    by_cases hmem : entry ∈ known.map (·.name)
    · simp [hmem]
    · simp [hmem]
  rw [entryFirst, List.map_append, hentry, List.filter_map]
  rfl

/-! ### Modules in order -/

/-- There is one way to place files, up to folders with the same text. -/
theorem Places.texts_eq (h : Places files lead modules) (h' : Places files lead modules') :
    modules.map (fun m => (m.name, m.folder.toString)) = modules'.map fun m => (m.name, m.folder.toString) := by
  obtain ⟨others, hnames, hsorted, hmem⟩ := h.names_eq
  obtain ⟨others', hnames', hsorted', hmem'⟩ := h'.names_eq
  have hothers : others = others' :=
    hsorted.eq_of_mem_iff hsorted' fun name => (hmem name).trans (hmem' name).symm
  have hsame : modules.map (·.name) = modules'.map (·.name) := by rw [hnames, hnames', hothers]
  have hlength : modules.length = modules'.length := by simpa using congrArg List.length hsame
  apply List.ext_getElem
  · simp [hlength]
  · intro i hi hi'
    rw [List.getElem_map, List.getElem_map]
    rw [List.length_map] at hi hi'
    have hname : modules[i].name = modules'[i].name := by simpa [hi, hi'] using congrArg (·[i]?) hsame
    -- Each of the two files has the least text, so the other one has no smaller one.
    obtain ⟨hfile, hleast⟩ := h.least modules[i] (List.getElem_mem hi)
    obtain ⟨hfile', hleast'⟩ := h'.least modules'[i] (List.getElem_mem hi')
    rw [hname, String.le_antisymm (hleast _ hfile' hname.symm) (hleast' _ hfile hname)]

/-- The modules in order are placed under the names of the manifest, or under the entry. -/
theorem places_order (files : List ModuleFile) (manifest : Option Manifest) (entry : String) :
    Places files (leading manifest entry) (order files manifest entry).1 where
  nodup := nodup_names_order files manifest entry
  name_mem_iff _ := name_mem_order_iff
  least m hm := least_of_mem_distinct_byName ((perm_order files manifest entry).mem_iff.1 hm)
  names_eq := by
    -- Sorting the files and taking out duplicates leaves the names that there are.
    have hknown : (fun name => decide (name ∈ (distinct (byName files)).map (·.name))) =
        fun name => decide (name ∈ files.map (·.name)) := by
      funext name
      rw [Bool.eq_iff_iff, decide_eq_true_iff, decide_eq_true_iff, name_mem_known_iff]
    have hsorted := pairwise_lt_names_distinct files
    cases manifest with
    | none =>
      refine ⟨((distinct (byName files)).map (·.name)).filter (· ≠ entry), ?_, ?_, ?_⟩
      · rw [order, names_entryFirst entry (nodup_names_distinct _), hknown]
        rfl
      · exact hsorted.sublist List.filter_sublist
      · intro name
        rw [List.mem_filter, name_mem_known_iff]
        simp [leading]
    | some manifest =>
      refine ⟨((distinct (byName files)).filter (·.name ∉ manifest.names)).map (·.name), ?_, ?_, ?_⟩
      · rw [order, List.map_append, names_listed, rest_listed, hknown]
        rfl
      · exact hsorted.sublist (List.filter_sublist.map _)
      · intro name
        have hname : name ∈ (distinct (byName files)).map (·.name) ↔ name ∈ files.map (·.name) := name_mem_known_iff
        rw [← hname]
        simp only [leading, List.mem_eraseDups, List.mem_map, List.mem_filter, decide_not, Bool.not_eq_true',
          decide_eq_false_iff_not]
        constructor
        · rintro ⟨m, ⟨hm, hlisted⟩, rfl⟩
          exact ⟨⟨m, hm, rfl⟩, hlisted⟩
        · rintro ⟨⟨m, hm, rfl⟩, hlisted⟩
          exact ⟨m, ⟨hm, hlisted⟩, rfl⟩

end Userscript.Module
