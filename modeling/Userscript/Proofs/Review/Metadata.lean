import Userscript.Proofs.Review.Modules

/-!
# Reviews and the header of a build

A review looks for the header of a bundle in the metadata file of the project only. A build goes through all
files that may hold the header, and makes one up only if there is none in any of them. So a review remarks that
there is no header exactly if there is none in the metadata file, whether a build finds one elsewhere or not.

## Main definitions

* `Header.Holds` — there is a header in a file
* `Remark.lacksHeader` — it is remarked that there is no header

## Main results

* `isSynthesized_resolved_iff` — a header is made up if there is none in any candidate
* `lacksHeader_found` — a review looks at the metadata file
* `review_header_iff` — where a review and a build agree about the header
* `holds_iff_of_usual` — where they do in a project without candidates of its own
* `review_remarks_headed` — a project with a header for its bundle, of which a review remarks that it has none
-/

namespace Userscript

open Reading (Returns)

variable {s : Settings} {t : Tree}

namespace Header

/-- There is a header in a file. -/
def Holds (t : Tree) (p : Path) : Prop := ((t.readText p).toOption.bind ({} : Markers).extract?).isSome

instance (t : Tree) (p : Path) : Decidable (Holds t p) := inferInstanceAs (Decidable (_ = true))

/-- A header is made up if and only if there is none in any candidate. -/
theorem isSynthesized_resolved_iff (t : Tree) (paths : List Path) :
    (resolved {} t (sources paths)).isSynthesized ↔ ∀ p ∈ paths, ¬ Holds t p := by
  induction paths with
  | nil => simp [sources, resolved, Resolved.isSynthesized]
  | cons p paths ih =>
    rw [List.forall_mem_cons, ← ih]
    change (resolved {} t (.file p :: sources paths)).isSynthesized ↔ _
    rw [resolved, Holds]
    cases hheader : (t.readText p).toOption.bind ({} : Markers).extract? with
    | none => simp
    | some text => simp [Resolved.isSynthesized]

end Header

open Header (Holds)

namespace Review

/-- Whether it is remarked that there is no metadata file, or no header in it. -/
def Remark.lacksHeader : Remark → Bool
  | noMetadata _ | noHeader _ => true
  | _ => false

/-- No remark about modules or a manifest is about the header. -/
theorem lacksHeader_others (s : Settings) (t : Tree) (folder : Path) (names : List String) :
    (ofModules s folder names).remarks.any Remark.lacksHeader = false ∧
      (manifestFound s t names).remarks.any Remark.lacksHeader = false := by
  constructor
  · unfold ofModules
    dsimp only
    split <;> rfl
  · unfold manifestFound
    split
    · apply List.any_eq_false.2
      intro remark hremark
      obtain ⟨name, -, rfl⟩ := List.mem_map.1 hremark
      exact Bool.false_ne_true
    · rfl
    · rfl

theorem lacksHeader_metadataFound (s : Settings) (t : Tree) :
    (metadataFound s t).remarks.any Remark.lacksHeader ↔ ¬ Holds t (s.root.child s.metadataFile) := by
  unfold metadataFound Holds
  cases (t.readText (s.root.child s.metadataFile)).toOption with
  | none => exact iff_of_true rfl Bool.false_ne_true
  | some content =>
    dsimp only [Option.bind_some]
    cases ({} : Header.Markers).extract? content with
    | none => exact iff_of_true rfl Bool.false_ne_true
    | some text => exact iff_of_false Bool.false_ne_true (not_not_intro rfl)

/-- A review that goes beyond the source folder remarks that there is no header exactly if there is none in the
metadata file. -/
theorem lacksHeader_found (hsource : t.hasFolder (s.sourceRoot t)) :
    (found s t).remarks.any Remark.lacksHeader ↔ ¬ Holds t (s.root.child s.metadataFile) := by
  obtain ⟨hmodules, hmanifest⟩ := lacksHeader_others s t (s.sourceRoot t) ((Module.files s t).map (·.name))
  rw [← lacksHeader_metadataFound]
  unfold found
  dsimp only
  rw [if_pos hsource]
  simp [concat, hmodules, hmanifest, checkerReview]

/-- Where the source folder is there, a review ends, and a build finds a header or makes one up. The one
remarks that there is no header, and the other makes one up, in the same projects exactly if the metadata file
holds a header whenever one of the candidates does, and the other way round. -/
theorem review_header_iff (h : ∀ use ∈ uses, s.fault? use = none) (hsource : t.hasFolder (s.sourceRoot t)) :
    ∃ r header, Returns (ofProject s t) (.ok r) ∧
      Returns (Header.resolve {} t (Header.sources (s.headerPaths s.outputPath))) (.ok header) ∧
      (r.remarks.any Remark.lacksHeader ↔ ¬ Holds t (s.root.child s.metadataFile)) ∧
      (header.isSynthesized ↔ ∀ p ∈ s.headerPaths s.outputPath, ¬ Holds t p) ∧
      ((r.remarks.any Remark.lacksHeader ↔ header.isSynthesized) ↔
        (Holds t (s.root.child s.metadataFile) ↔ ∃ p ∈ s.headerPaths s.outputPath, Holds t p)) := by
  -- Neither of the two looks at what the other one goes by, so each is taken apart on its own.
  have hreview := lacksHeader_found hsource
  have hbuild := Header.isSynthesized_resolved_iff t (s.headerPaths s.outputPath)
  refine ⟨found s t, _, returns_ofProject h t, Header.returns_resolve _ _ _, hreview, hbuild, ?_⟩
  rw [hreview, hbuild]
  have hnone : (∀ p ∈ s.headerPaths s.outputPath, ¬ Holds t p) ↔ ¬ ∃ p ∈ s.headerPaths s.outputPath, Holds t p := by
    simp only [not_exists, not_and]
  rw [hnone, not_iff_not]

/-- Without candidates of its own, a project has a header that a review does not see exactly if it is in the
folder `src` or in the bundle, and not in the metadata file. -/
theorem holds_iff_of_usual (hcandidates : s.headerCandidates = none) :
    (Holds t (s.root.child s.metadataFile) ↔ ∃ p ∈ s.headerPaths s.outputPath, Holds t p) ↔
      (Holds t (s.usualSource.child s.metadataFile) ∨ Holds t s.outputPath →
        Holds t (s.root.child s.metadataFile)) := by
  simp only [Settings.headerPaths, hcandidates, List.mem_cons, List.not_mem_nil, or_false, exists_eq_or_imp,
    exists_eq_left]
  constructor
  · intro hsame hother
    exact hsame.2 (.inr hother)
  · intro hother
    exact ⟨.inl, fun hany => hany.elim id hother⟩

/-! ### A project that has its header in the source folder -/

/-- A project whose metadata file stands beside its module in the folder `src`. -/
def headedInSource : Tree where
  root := .folder [("p", .folder [("src", .folder [
    ("main.js", .file (Utf8.encode "a()".toList) 0),
    ("userscript.js", .file (Utf8.encode "// ==UserScript==\n// @name A\n// ==/UserScript==\n".toList) 0)])])]
  here := ⟨.slash, ["p"]⟩

/-- The review of a project with its header in the source folder differs from a build. -/
theorem review_header_iff_headedInSource :
    let s := Build.plainSettings
    let t := headedInSource
    (∀ use ∈ uses, s.fault? use = none) ∧ t.hasFolder (s.sourceRoot t) ∧
    ∃ r header, Returns (ofProject s t) (.ok r) ∧
      Returns (Header.resolve {} t (Header.sources (s.headerPaths s.outputPath))) (.ok header) ∧
      (r.remarks.any Remark.lacksHeader ↔ ¬ Holds t (s.root.child s.metadataFile)) ∧
      (header.isSynthesized ↔ ∀ p ∈ s.headerPaths s.outputPath, ¬ Holds t p) ∧
      ((r.remarks.any Remark.lacksHeader ↔ header.isSynthesized) ↔
        (Holds t (s.root.child s.metadataFile) ↔ ∃ p ∈ s.headerPaths s.outputPath, Holds t p)) := by
  intro s t
  have hfaults : ∀ use ∈ uses, s.fault? use = none := fun _ _ => rfl
  have hsource : t.hasFolder (s.sourceRoot t) := by decide +kernel
  exact ⟨hfaults, hsource, review_header_iff hfaults hsource⟩

/-- A review remarks that the project has no header, and a build takes the one in the source folder. -/
theorem review_remarks_headed :
    let s := Build.plainSettings
    let t := headedInSource
    t.hasFolder (s.sourceRoot t) ∧ ∃ r header, Returns (ofProject s t) (.ok r) ∧
      Returns (Header.resolve {} t (Header.sources (s.headerPaths s.outputPath))) (.ok header) ∧
      ¬ (r.remarks.any Remark.lacksHeader ↔ header.isSynthesized) := by
  intro s t
  refine ⟨by decide +kernel, found s t, _, returns_ofProject (fun _ _ => rfl) t, Header.returns_resolve _ _ _, ?_⟩
  have hremarked : (found s t).remarks.any Remark.lacksHeader := by decide +kernel
  have hheaded : (Header.resolved {} t (Header.sources (s.headerPaths s.outputPath))).isSynthesized = false := by
    decide +kernel
  rw [hremarked, hheaded]
  exact fun hsame => Bool.false_ne_true (hsame.1 rfl)

end Review

end Userscript
