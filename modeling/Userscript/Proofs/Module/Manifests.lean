import Userscript.Proofs.Module.Ordering
import Userscript.Proofs.Reading
import Userscript.Proofs.Tree.Names

/-!
# Manifests and their failures

Among the candidates for a manifest, the first one that decides settles which manifest there is, or that there is
none because this one cannot be read; what comes behind it does not matter. Either way the modules of a project
are located: a manifest that cannot be read costs their order and gives a warning, but no module.

## Main definitions

* `Manifest.Decides` — a candidate settles what the manifest is
* `Manifest.Lists` — a candidate is a manifest with these names
* `Manifest.Spoiled` — a candidate is none, for this reason

## Main results

* `read_decided_and_locate_fails_iff` — what the manifest among some candidates is, and when modules are not
  located
-/

namespace Userscript

open Reading (Returns)

/-- A file that is there can be read, but need not hold text. -/
theorem Tree.readText_of_hasFile {t : Tree} {p : Path} (h : t.hasFile p) :
    (∃ text, t.readText p = .ok text) ∨ ∃ fault, t.readText p = .error (.encoding fault) := by
  obtain ⟨names, content, stamp, hnames, hnode⟩ := exists_of_hasFile h
  have hread : t.read p = .ok content := by simp [read, hnames, hnode]
  unfold readText
  rw [hread]
  cases hdecode : Utf8.decode content with
  | error fault => exact .inr ⟨fault, by simp [hdecode]⟩
  | ok text => exact .inl ⟨_, by simp [hdecode]; rfl⟩

namespace Manifest

variable {t : Tree} {p : Path} {before rest candidates : List Path} {names : List String} {fault : ManifestFault}

/-- The text of a candidate is that of a JSON value. -/
def HoldsJson (t : Tree) (p : Path) (value : Json) : Prop :=
  ∃ text, t.readText p = .ok text ∧ Json.parse text = .ok value

/-- A candidate settles what the manifest is: it is a text file by its suffix, or a JSON file by its suffix that
holds no JSON value but a list. -/
def Decides (t : Tree) (p : Path) : Prop :=
  t.hasFile p ∧
    (p.suffix = ".txt" ∨ p.suffix = ".json" ∧ ∀ value, HoldsJson t p value → ∃ items, value = .list items)

/-- A candidate is a manifest with these names. -/
inductive Lists (t : Tree) (p : Path) : List String → Prop
  | lines {text : Text} : p.suffix = ".txt" → t.readText p = .ok text → Lists t p (ofLines p text).names
  | json {items : List Json} : p.suffix = ".json" → HoldsJson t p (.list items) →
    Lists t p (items.map Json.display)

/-- A candidate cannot be read as a manifest for this reason: it does not hold UTF-8 or, by its suffix a JSON
file, no JSON. -/
inductive Spoiled (t : Tree) (p : Path) : ManifestFault → Prop
  | encoding {fault : Utf8.Fault} : t.readText p = .error (.encoding fault) →
    Spoiled t p (.unreadable (.encoding fault))
  | json {text : Text} {fault : Json.Fault} : p.suffix = ".json" → t.readText p = .ok text →
    Json.parse text = .error fault → Spoiled t p (.malformed fault)

/-! ### One candidate -/

theorem ofFile_of_not_decides (h : ¬ Decides t p) : ofFile t p = .ok none := by
  unfold ofFile
  by_cases hfile : t.hasFile p
  · by_cases hjson : p.suffix = ".json"
    · -- The file holds JSON that is no list.
      obtain ⟨value, ⟨text, htext, hparse⟩, hvalue⟩ :
          ∃ value, HoldsJson t p value ∧ ¬ ∃ items, value = .list items := by
        by_contra hnone
        refine h ⟨hfile, .inr ⟨hjson, fun value hvalue => ?_⟩⟩
        by_contra hlist
        exact hnone ⟨value, hvalue, hlist⟩
      have hnone : ofJson? p value = none := by
        cases value with
        | list items => exact absurd ⟨items, rfl⟩ hvalue
        | _ => rfl
      simp [hfile, hjson, htext, hparse, hnone, Except.mapError, bind, Except.bind, pure, Except.pure]
    · have htxt : p.suffix ≠ ".txt" := fun htxt => h ⟨hfile, .inl htxt⟩
      simp [hfile, hjson, htxt, pure, Except.pure]
  · simp [hfile, pure, Except.pure]

theorem ofFile_of_lists (hfile : t.hasFile p) (h : Lists t p names) : ofFile t p = .ok (some ⟨names, some p⟩) := by
  unfold ofFile
  cases h with
  | lines hsuffix htext =>
    simp [hfile, hsuffix, htext, ofLines, Except.mapError, bind, Except.bind, pure, Except.pure]
  | json hsuffix hjson =>
    obtain ⟨text, htext, hparse⟩ := hjson
    simp [hfile, hsuffix, htext, hparse, ofJson?, Except.mapError, bind, Except.bind, pure, Except.pure]

theorem ofFile_of_spoiled (h : Decides t p) (hspoiled : Spoiled t p fault) : ofFile t p = .error fault := by
  unfold ofFile
  obtain ⟨hfile, hsuffix⟩ := h
  cases hspoiled with
  | encoding htext =>
    rcases hsuffix with hsuffix | ⟨hsuffix, -⟩ <;>
      simp [hfile, hsuffix, htext, Except.mapError, bind, Except.bind]
  | json hsuffix htext hparse =>
    simp [hfile, hsuffix, htext, hparse, Except.mapError, bind, Except.bind]

/-- A candidate that decides is a manifest or cannot be read as one. -/
theorem Decides.lists_or_spoiled (h : Decides t p) :
    (∃ names, Lists t p names) ∨ ∃ fault, Spoiled t p fault := by
  obtain ⟨hfile, hsuffix⟩ := h
  rcases Tree.readText_of_hasFile hfile with ⟨text, htext⟩ | ⟨fault, htext⟩
  · rcases hsuffix with hsuffix | ⟨hsuffix, hlist⟩
    · exact .inl ⟨_, .lines hsuffix htext⟩
    · cases hparse : Json.parse text with
      | error fault => exact .inr ⟨_, .json hsuffix htext hparse⟩
      | ok value =>
        obtain ⟨items, rfl⟩ := hlist value ⟨text, htext, hparse⟩
        exact .inl ⟨_, .json hsuffix ⟨text, htext, hparse⟩⟩
  · exact .inr ⟨_, .encoding htext⟩

/-! ### Some candidates -/

/-- Candidates that do not decide are passed over. -/
theorem first_append (h : ∀ q ∈ before, ¬ Decides t q) (rest : List Path) :
    first t (before ++ rest) = first t rest := by
  induction before with
  | nil => rfl
  | cons q before ih =>
    rw [List.forall_mem_cons] at h
    rw [List.cons_append, first, ofFile_of_not_decides h.1]
    exact ih h.2

/-- The first candidate that decides settles what is read. -/
theorem returns_read_of_ofFile (value : Except ManifestFault Manifest) (h : ∀ q ∈ before, ¬ Decides t q)
    (hp : ofFile t p = value.map some) : Returns (read t (before ++ p :: rest))
      ((value.map some).mapError fun fault => .build (.manifest p fault)) := by
  have hread := returns_read t (before ++ p :: rest)
  rw [first_append h, first, hp] at hread
  cases value with
  | ok manifest => exact hread
  | error fault => exact hread

theorem returns_read_of_lists (hpassed : ∀ q ∈ before, ¬ Decides t q) (hp : Decides t p) (h : Lists t p names) :
    Returns (read t (before ++ p :: rest)) (.ok (some ⟨names, some p⟩)) :=
  returns_read_of_ofFile (.ok _) hpassed (ofFile_of_lists hp.1 h)

theorem exists_returns_read_of_not_lists (hpassed : ∀ q ∈ before, ¬ Decides t q) (hp : Decides t p)
    (h : ∀ names, ¬ Lists t p names) : ∃ fault, Spoiled t p fault ∧
      Returns (read t (before ++ p :: rest)) (.error (.build (.manifest p fault))) := by
  obtain ⟨fault, hspoiled⟩ := hp.lists_or_spoiled.resolve_left fun ⟨names, hnames⟩ => h names hnames
  exact ⟨fault, hspoiled, returns_read_of_ofFile (.error _) hpassed (ofFile_of_spoiled hp hspoiled)⟩

/-- If no candidate decides, there is no manifest. -/
theorem returns_read_none (h : ∀ q ∈ candidates, ¬ Decides t q) : Returns (read t candidates) (.ok none) := by
  have hread := returns_read t candidates
  have hfirst := first_append h []
  rw [List.append_nil] at hfirst
  rwa [hfirst] at hread

/-- The manifest that cannot be read is the one that the search has ended with. -/
theorem exists_first_of_returns_error {failure : Failure} (h : Returns (read t candidates) (.error failure)) :
    ∃ p fault, failure = .build (.manifest p fault) ∧ first t candidates = .error (p, fault) := by
  have hread := h.unique (returns_read t candidates)
  cases hfirst : first t candidates with
  | ok manifest =>
    rw [hfirst] at hread
    cases hread
  | error failed =>
    rw [hfirst] at hread
    cases hread
    exact ⟨failed.1, failed.2, rfl, rfl⟩

end Manifest

namespace Module

open Manifest (Decides Lists Spoiled read)

variable {t : Tree} {s : Settings}

theorem kind_order_none {w : Warning} {files : List ModuleFile} {entry : String}
    (h : w ∈ (order files none entry).2) : w.kind ≠ .manifest := by
  obtain ⟨others, horder, hothers⟩ := exists_warnings_order files none entry
  rw [horder] at h
  rcases List.mem_append.1 h with h | h
  · simp [kind_of_mem_duplicateWarnings h]
  · rcases hothers w h with hkind | hkind <;> simp [hkind]

/-- With a manifest that cannot be read, the modules come as without one, behind a warning. -/
theorem arranged_of_first_error {p : Path} {fault : ManifestFault}
    (h : Manifest.first t s.manifestPaths = .error (p, fault)) : arranged s t = {
      modules := (order (files s t) none s.entry).1
      manifest := none
      warnings := ⟨.manifest, p.toString, fault.message⟩ :: (order (files s t) none s.entry).2 } := by
  simp [arranged, manifestOf, h]

section locate

variable (h : ∀ use ∈ usesBefore ++ [.manifests], s.fault? use = none)

include h

/-- With proper settings, the modules are located in the way that is said by `arranged`, if there are any. -/
theorem returns_locate_of_proper (t : Tree) : Returns (locate s t)
    (if files s t = [] then .error (.build (.noModules Settings.extension (s.sourceRoot t)))
      else .ok (arranged s t)) := by
  have hbefore (use) (huse : use ∈ usesBefore) : s.fault? use = none := h use (List.mem_append_left _ huse)
  have hmanifests : s.fault? .manifests = none := h _ (List.mem_append_right _ (List.mem_singleton_self _))
  have hlocate := returns_locate hbefore t
  rwa [hmanifests] at hlocate

theorem locate_fails_iff_files_eq_nil (t : Tree) :
    (∃ failure, Returns (locate s t) (.error failure)) ↔ files s t = [] := by
  have hlocate := returns_locate_of_proper h t
  constructor
  · rintro ⟨failure, hfails⟩
    by_contra hfiles
    rw [if_neg hfiles] at hlocate
    cases hfails.unique hlocate
  · intro hfiles
    rw [if_pos hfiles] at hlocate
    exact ⟨_, hlocate⟩

end locate

/-- The first candidate that decides is the manifest that is read, with its names, or the one that cannot be read;
without such a candidate there is none. The modules of a project with proper settings are located if and only if
there are any: if the manifest cannot be read, they come as without one, with a warning before the others. -/
theorem read_decided_and_locate_fails_iff (t : Tree) {s : Settings}
    (h : ∀ use ∈ usesBefore ++ [.manifests], s.fault? use = none) :
    (∀ before p rest, (∀ q ∈ before, ¬ Decides t q) → Decides t p →
      (∀ names, Lists t p names → Returns (read t (before ++ p :: rest)) (.ok (some ⟨names, some p⟩))) ∧
      ((∀ names, ¬ Lists t p names) → ∃ fault, Spoiled t p fault ∧
        Returns (read t (before ++ p :: rest)) (.error (.build (.manifest p fault))))) ∧
    (∀ candidates, (∀ q ∈ candidates, ¬ Decides t q) → Returns (read t candidates) (.ok none)) ∧
    ((∃ failure, Returns (locate s t) (.error failure)) ↔ files s t = []) ∧
    (files s t = [] →
      Returns (locate s t) (.error (.build (.noModules Settings.extension (s.sourceRoot t))))) ∧
    ∀ failure, Returns (read t s.manifestPaths) (.error failure) → files s t ≠ [] →
      ∃ p fault, failure = .build (.manifest p fault) ∧
        Returns (locate s t) (.ok {
          modules := (order (files s t) none s.entry).1
          manifest := none
          warnings := ⟨.manifest, p.toString, fault.message⟩ :: (order (files s t) none s.entry).2 }) ∧
        ∀ w ∈ (order (files s t) none s.entry).2, w.kind ≠ .manifest := by
  have hlocate := returns_locate_of_proper h t
  refine ⟨fun before p rest hpassed hp => ⟨fun names => Manifest.returns_read_of_lists hpassed hp,
    Manifest.exists_returns_read_of_not_lists hpassed hp⟩, fun candidates => Manifest.returns_read_none,
    locate_fails_iff_files_eq_nil h t, fun hfiles => ?_, fun failure hfails hfiles => ?_⟩
  · rwa [if_pos hfiles] at hlocate
  · obtain ⟨p, fault, rfl, hfirst⟩ := Manifest.exists_first_of_returns_error hfails
    rw [if_neg hfiles, arranged_of_first_error hfirst] at hlocate
    exact ⟨p, fault, rfl, hlocate, fun w => kind_order_none⟩

/-- A project with a number for its first manifest and no text for its second one. -/
def spoiledManifest : Tree where
  root := .folder [("p", .folder [
    ("build.order.json", .file (Utf8.encode ['0']) 0), ("build.order.txt", .file [0xff] 0),
    ("src", .folder [("a.js", .file [] 0)])])]

/-- The first candidate is passed over, the second one cannot be read, and the modules are located. -/
theorem read_decided_and_locate_fails_iff_spoiled :
    let s : Settings := { root := ⟨.slash, ["p"]⟩ }
    let t := spoiledManifest
    let first := Path.ofString "/p/build.order.json"
    let second := Path.ofString "/p/build.order.txt"
    (∀ use ∈ usesBefore ++ [.manifests], s.fault? use = none) ∧ ¬ Decides t first ∧ Decides t second ∧
      (∀ names, ¬ Lists t second names) ∧ files s t ≠ [] ∧
      ∃ fault, Returns (read t s.manifestPaths) (.error (.build (.manifest second fault))) ∧
        ∃ located, Returns (locate s t) (.ok located) := by
  intro s t first second
  have hs : ∀ use ∈ usesBefore ++ [.manifests], s.fault? use = none := fun _ _ => rfl
  have hjson : Manifest.HoldsJson t first (.int 0) := ⟨['0'], rfl, rfl⟩
  have hfirst : ¬ Decides t first := by
    rintro ⟨-, hsuffix | ⟨-, hlist⟩⟩
    · exact absurd hsuffix (by decide +kernel)
    · obtain ⟨items, hitems⟩ := hlist _ hjson
      cases hitems
  have hsecond : Decides t second := ⟨by decide +kernel, .inl (by decide +kernel)⟩
  have hnone (names) : ¬ Lists t second names := by
    intro hnames
    cases hnames with
    | lines hsuffix htext =>
      have hread : (t.readText second).toOption = none := by decide +kernel
      rw [htext] at hread
      cases hread
    | json hsuffix hjson => exact absurd hsuffix (by decide +kernel)
  have hfiles : files s t ≠ [] := by decide +kernel
  obtain ⟨hdecided, -, -, -, hlocate⟩ := read_decided_and_locate_fails_iff t hs
  have hpassed : ∀ q ∈ [first], ¬ Decides t q := by simpa using hfirst
  obtain ⟨fault, -, hfails⟩ := (hdecided [first] second [] hpassed hsecond).2 hnone
  obtain ⟨p, fault', -, hlocated, -⟩ := hlocate _ hfails hfiles
  exact ⟨hs, hfirst, hsecond, hnone, hfiles, fault, hfails, _, hlocated⟩

end Module

end Userscript
