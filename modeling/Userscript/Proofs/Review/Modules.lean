import Userscript.Proofs.Build.Conservation
import Userscript.Proofs.Module.Listing

/-!
# Reviews and the modules of a build

A review says of the modules of a project and of its manifest what a build finds out when it locates them:
that there are none, which names the manifest lists in vain, which modules it does not list, and that it
cannot be read.

## Main definitions

* `Review.found` — what a review finds in a tree
* `Review.AgreesWith` — a review says of the modules what locating them says

## Main results

* `returns_ofProject` — a review finds the same whatever was noted before
* `agreesWith_found` — the review of a project that has modules agrees with locating them
* `review_iff_locate` — and so it does whether there are modules or not
-/

namespace Userscript.Review

open Reading (Returns)
open Build (subjects)

variable {s : Settings} {t : Tree} {names : List String}

/-! ### What a review finds -/

/-- The uses of settings that a review makes. -/
def uses : List Settings.Use := [.sourceDir, .output, .metadataName, .extraExclude, .manifests, .metadataFile]

/-- What a review finds about the manifest of a project with some modules. -/
def manifestFound (s : Settings) (t : Tree) (names : List String) : Review :=
  match Manifest.first t s.manifestPaths with
  | .ok (some manifest) => ofManifest manifest names
  | .ok none => { remarks := [.noManifest s.manifests] }
  | .error (path, fault) => { problems := [.manifest path fault], remarks := [.noManifest s.manifests] }

/-- What a review finds about the metadata file of a project. -/
def metadataFound (s : Settings) (t : Tree) : Review :=
  match (t.readText (s.root.child s.metadataFile)).toOption with
  | none => { remarks := [.noMetadata s.metadataFile] }
  | some content =>
    { remarks :=
        if (({} : Header.Markers).extract? content).isNone then [.noHeader (s.root.child s.metadataFile)] else [] }

/-- What a review finds in a tree. -/
def found (s : Settings) (t : Tree) : Review :=
  let folder := s.sourceRoot t
  let names := (Module.files s t).map (·.name)
  if t.hasFolder folder then
    concat [ofModules s folder names, manifestFound s t names, metadataFound s t, checkerReview s]
  else { problems := [.noSource folder] }

theorem returns_manifestReview (h : s.fault? .manifests = none) (t : Tree) (names : List String) :
    Returns (manifestReview s t names) (.ok (manifestFound s t names)) := by
  refine .bind (.demand_none h) (.bind (Manifest.returns_attempt t _) ?_)
  unfold manifestFound
  rcases Manifest.first t s.manifestPaths with ⟨path, fault⟩ | manifest | manifest <;> exact .pure _

theorem returns_metadataReview (h : s.fault? .metadataFile = none) (t : Tree) :
    Returns (metadataReview s t) (.ok (metadataFound s t)) := by
  refine .bind (.demand_none h) (.bind (Reading.returns_textOrNone t _) ?_)
  unfold metadataFound
  cases (t.readText (s.root.child s.metadataFile)).toOption <;> exact .pure _

/-- What a review finds is a function of the tree. -/
theorem returns_ofProject (h : ∀ use ∈ uses, s.fault? use = none) (t : Tree) :
    Returns (ofProject s t) (.ok (found s t)) := by
  simp only [uses, List.forall_mem_cons] at h
  obtain ⟨hsource, houtput, hmetadata, hexclude, hmanifests, hfile, -⟩ := h
  have hnames : Returns (s.demandExcludedNames : Reading Unit) (.ok ()) :=
    .bind (.demand_none houtput) (.bind (.demand_none hmetadata) (.demand_none hexclude))
  refine .bind (Module.returns_findSource hsource t) ?_
  unfold found
  dsimp only
  cases t.hasFolder (s.sourceRoot t) with
  | false => exact .pure _
  | true =>
    exact .bind hnames (.bind (returns_manifestReview hmanifests t _)
      (.bind (returns_metadataReview hfile t) (.pure _)))

/-! ### What a review says of modules -/

/-- Whether a problem is that there are no modules, or no folder for them. -/
def Problem.lacksModules : Problem → Bool
  | noSource _ | noModules .. => true
  | _ => false

/-- Whether a problem is a manifest that cannot be read. -/
def Problem.isManifest : Problem → Bool
  | manifest .. => true
  | _ => false

/-- The name that a manifest lists in vain, if that is the problem. -/
def Problem.missing? : Problem → Option String
  | notFound _ name => some name
  | _ => none

/-- The name of a module that is not listed, if that is remarked. -/
def Remark.unlisted? : Remark → Option String
  | unlisted _ name => some name
  | _ => none

/-- Whether it is remarked that the modules come in the default order. -/
def Remark.isDefaultOrder : Remark → Bool
  | noManifest _ => true
  | _ => false

/-- A review says of the modules of a project what locating them says. -/
structure AgreesWith (r : Review) (located : Module.Located) : Prop where
  missing : r.problems.filterMap Problem.missing? = subjects [.missing] located.warnings
  unlisted : r.remarks.filterMap Remark.unlisted? = subjects [.unlisted] located.warnings
  manifest : r.problems.any Problem.isManifest ↔ ∃ w ∈ located.warnings, w.kind = .manifest
  order : r.remarks.any Remark.isDefaultOrder ↔ located.manifest = none

/-- A review says nothing about a manifest. -/
structure IsSilent (r : Review) : Prop where
  missing : r.problems.filterMap Problem.missing? = []
  unlisted : r.remarks.filterMap Remark.unlisted? = []
  manifest : r.problems.any Problem.isManifest = false
  order : r.remarks.any Remark.isDefaultOrder = false

theorem isSilent_ofModules (s : Settings) (folder : Path) (names : List String) :
    (ofModules s folder names).IsSilent := by
  unfold ofModules
  constructor <;> dsimp only <;> split <;> rfl

theorem isSilent_metadataFound (s : Settings) (t : Tree) : (metadataFound s t).IsSilent := by
  unfold metadataFound
  split
  · exact ⟨rfl, rfl, rfl, rfl⟩
  · split <;> exact ⟨rfl, rfl, rfl, rfl⟩

theorem isSilent_checkerReview (s : Settings) : (checkerReview s).IsSilent := by
  unfold checkerReview
  constructor <;> dsimp only <;> (try split) <;> rfl

/-- Reviews that say nothing about a manifest may stand beside one that does. -/
theorem AgreesWith.concat {before r after after' : Review} {located : Module.Located} (h : r.AgreesWith located)
    (hbefore : before.IsSilent) (hafter : after.IsSilent) (hafter' : after'.IsSilent) :
    (concat [before, r, after, after']).AgreesWith located where
  missing := by
    simp [Review.concat, hbefore.missing, hafter.missing, hafter'.missing, h.missing]
  unlisted := by
    simp [Review.concat, hbefore.unlisted, hafter.unlisted, hafter'.unlisted, h.unlisted]
  manifest := by
    rw [← h.manifest]
    simp [Review.concat, hbefore.manifest, hafter.manifest, hafter'.manifest]
  order := by
    rw [← h.order]
    simp [Review.concat, hbefore.order, hafter.order, hafter'.order]

/-! ### The review of a manifest -/

/-- Without a manifest, the modules that are located come with warnings about dropped ones only. -/
theorem agreesWith_of_none {r : Review} {modules : List ModuleFile} {before duplicates : List Warning}
    (hmissing : r.problems.filterMap Problem.missing? = []) (hunlisted : r.remarks.filterMap Remark.unlisted? = [])
    (horder : r.remarks.any Remark.isDefaultOrder) (hbefore : ∀ w ∈ before, w.kind = .manifest)
    (hduplicates : ∀ w ∈ duplicates, w.kind = .duplicate)
    (hmanifest : r.problems.any Problem.isManifest ↔ before ≠ []) :
    r.AgreesWith ⟨modules, none, before ++ duplicates⟩ := by
  have hkinds : ∀ w ∈ before ++ duplicates, w.kind ∈ [.manifest, .duplicate] := by
    intro w hw
    rcases List.mem_append.1 hw with hw | hw
    · simp [hbefore w hw]
    · simp [hduplicates w hw]
  refine ⟨?_, ?_, ?_, by simp [horder]⟩
  · rw [hmissing, Build.subjects_of_disjoint hkinds (by decide)]
  · rw [hunlisted, Build.subjects_of_disjoint hkinds (by decide)]
  · rw [hmanifest]
    constructor
    · intro hne
      obtain ⟨w, hw⟩ := List.exists_mem_of_ne_nil _ hne
      exact ⟨w, List.mem_append_left _ hw, hbefore w hw⟩
    · rintro ⟨w, hw, hkind⟩ rfl
      have hduplicate := hduplicates w hw
      rw [hkind] at hduplicate
      cases hduplicate

section ofManifest

variable (m : Manifest) (files : List ModuleFile) (entry : String)

/-- The warnings about modules in the order of a manifest are in three parts, one for each kind. -/
theorem subjects_order (kind : Warning.Kind) : subjects [kind] (Module.order files (some m) entry).2 =
    subjects [kind] (Module.duplicateWarnings [] (Module.byName files)) ++
      subjects [kind] (Module.listed m.names (Module.distinct (Module.byName files))).warnings ++
      subjects [kind]
        ((Module.listed m.names (Module.distinct (Module.byName files))).rest.map Module.unlistedWarning) := by
  rw [Module.order, Build.subjects_append, Build.subjects_append]

theorem kind_of_mem_duplicates :
    ∀ w ∈ Module.duplicateWarnings [] (Module.byName files), w.kind ∈ [.duplicate] :=
  fun _ hw => List.mem_singleton.2 (Module.kind_of_mem_duplicateWarnings hw)

theorem kind_of_mem_listed :
    ∀ w ∈ (Module.listed m.names (Module.distinct (Module.byName files))).warnings, w.kind ∈ [.missing] :=
  fun w hw => List.mem_singleton.2
    ((Module.accounts_listed (Module.nodup_names_distinct (Module.byName files)) m.names).kind w hw)

theorem kind_of_mem_unlisted : ∀ w ∈
    (Module.listed m.names (Module.distinct (Module.byName files))).rest.map Module.unlistedWarning,
      w.kind ∈ [.unlisted] := by
  intro w hw
  obtain ⟨other, -, rfl⟩ := List.mem_map.1 hw
  exact List.mem_singleton_self _

/-- The warnings say which names a manifest lists in vain. -/
theorem subjects_missing_order : subjects [.missing] (Module.order files (some m) entry).2 =
    m.names.filter fun name => !(files.map (·.name)).contains name := by
  rw [subjects_order, Build.subjects_of_disjoint (kind_of_mem_duplicates files) (by decide),
    Build.subjects_of_subset (kind_of_mem_listed m files) (by decide),
    Build.subjects_of_disjoint (kind_of_mem_unlisted m files) (by decide),
    Module.subjects_listed, List.nil_append, List.append_nil]
  refine List.filter_congr fun name _ => ?_
  rw [Bool.eq_iff_iff, decide_eq_true_iff, Module.name_mem_known_iff]
  simp

/-- The warnings say which modules a manifest does not list. -/
theorem subjects_unlisted_order : subjects [.unlisted] (Module.order files (some m) entry).2 =
    missingFrom m.names (files.map (·.name)) := by
  rw [subjects_order, Build.subjects_of_disjoint (kind_of_mem_duplicates files) (by decide),
    Build.subjects_of_disjoint (kind_of_mem_listed m files) (by decide),
    Build.subjects_of_subset (kind_of_mem_unlisted m files) (by decide),
    Module.rest_listed, List.nil_append, List.nil_append, Module.missingFrom_eq, List.map_map]
  rfl

/-- What a manifest lists in vain and what it does not list are the warnings about it. -/
theorem agreesWith_ofManifest : (ofManifest m (files.map (·.name))).AgreesWith
    ⟨(Module.order files (some m) entry).1, some m, (Module.order files (some m) entry).2⟩ := by
  refine ⟨?_, ?_, ?_, by simp [ofManifest, Remark.isDefaultOrder]⟩
  · have hsame : Problem.missing? ∘ Problem.notFound m.source = some := rfl
    rw [subjects_missing_order, ofManifest, List.filterMap_map, hsame, List.filterMap_some]
  · have hsame : Remark.unlisted? ∘ Remark.unlisted m.source = some := rfl
    rw [subjects_unlisted_order, ofManifest, List.filterMap_map, hsame, List.filterMap_some]
  · have hreview : (ofManifest m (files.map (·.name))).problems.any Problem.isManifest = false := by
      simp [ofManifest, Problem.isManifest]
    simp only [hreview, Bool.false_eq_true, false_iff, not_exists, not_and]
    intro w hw hkind
    obtain ⟨others, hothers, hkinds⟩ := Module.exists_warnings_order files (some m) entry
    rw [hothers] at hw
    rcases List.mem_append.1 hw with hw | hw
    · cases hkind.symm.trans (Module.kind_of_mem_duplicateWarnings hw)
    · rcases hkinds w hw with hmissing | hunlisted
      · cases hkind.symm.trans hmissing
      · cases hkind.symm.trans hunlisted

end ofManifest

/-- The review of the manifest agrees with the modules in order. -/
theorem agreesWith_manifestFound (s : Settings) (t : Tree) :
    (manifestFound s t ((Module.files s t).map (·.name))).AgreesWith (Module.arranged s t) := by
  have hduplicates : ∀ w ∈ Module.duplicateWarnings [] (Module.byName (Module.files s t)), w.kind = .duplicate :=
    fun w hw => Module.kind_of_mem_duplicateWarnings hw
  unfold manifestFound Module.arranged Module.manifestOf
  rcases Manifest.first t s.manifestPaths with ⟨path, fault⟩ | manifest | manifest
  · exact agreesWith_of_none rfl rfl rfl (by simp) hduplicates (by simp [Problem.isManifest])
  · exact agreesWith_of_none rfl rfl rfl (by simp) hduplicates (by simp)
  · exact agreesWith_ofManifest manifest (Module.files s t) s.entry

/-! ### The review of a project -/

/-- A project lacks modules in a review if it has none. -/
theorem lacksModules_found (s : Settings) (t : Tree) :
    (found s t).problems.any Problem.lacksModules ↔ Module.files s t = [] := by
  have hmanifest (names : List String) : (manifestFound s t names).problems.any Problem.lacksModules = false := by
    unfold manifestFound
    split <;> simp [ofManifest, Problem.lacksModules]
  have hmetadata : (metadataFound s t).problems = [] := by
    unfold metadataFound
    split <;> rfl
  have hchecker : (checkerReview s).problems.any Problem.lacksModules = false := by
    unfold checkerReview
    dsimp only
    split <;> rfl
  unfold found
  dsimp only
  split
  · by_cases hfiles : Module.files s t = []
    · simp [concat, ofModules, hfiles, Problem.lacksModules]
    · simp [concat, ofModules, hfiles, hmanifest, hmetadata, hchecker]
  · next hfolder =>
    -- Without the folder there are no modules in it.
    have hfiles : Module.files s t = [] := by
      unfold Module.files Module.discover Module.discoverWhere
      split
      · next contents hfind => simp [Tree.hasFolder, hfind, Node.isFolder] at hfolder
      · rfl
    simp [hfiles, Problem.lacksModules]

/-- The review of a project that has modules agrees with the modules in order. -/
theorem agreesWith_found (hfiles : Module.files s t ≠ []) : (found s t).AgreesWith (Module.arranged s t) := by
  have hlacks := mt (lacksModules_found s t).1 hfiles
  unfold found at hlacks ⊢
  dsimp only at hlacks ⊢
  split
  · exact (agreesWith_manifestFound s t).concat (isSilent_ofModules _ _ _) (isSilent_metadataFound _ _)
      (isSilent_checkerReview _)
  · next hfolder =>
    rw [if_neg hfolder] at hlacks
    exact absurd rfl hlacks

/-- A review finds that there are no modules exactly if locating them fails. Otherwise they are located, and
the review says of them and of the manifest what locating them says. -/
theorem review_iff_locate (h : ∀ use ∈ uses, s.fault? use = none) (t : Tree) :
    ∃ r, Returns (ofProject s t) (.ok r) ∧
      (r.problems.any Problem.lacksModules ↔
        Returns (Module.locate s t) (.error (.build (.noModules Settings.extension (s.sourceRoot t))))) ∧
      (r.problems.any Problem.lacksModules = false → ∃ located, Returns (Module.locate s t) (.ok located)) ∧
      ∀ located, Returns (Module.locate s t) (.ok located) → r.AgreesWith located := by
  have hbefore : ∀ use ∈ Module.usesBefore, use ∈ uses := by decide
  have hlocate := Module.returns_locate (fun use huse => h use (hbefore use huse)) t
  rw [h .manifests (by decide)] at hlocate
  dsimp only at hlocate
  refine ⟨found s t, returns_ofProject h t, ?_⟩
  -- Both go by the same discovery.
  by_cases hfiles : Module.files s t = []
  · rw [if_pos hfiles] at hlocate
    have hlacks := (lacksModules_found s t).2 hfiles
    refine ⟨iff_of_true hlacks hlocate, fun hfalse => ?_, fun located hlocated => ?_⟩
    · cases hfalse.symm.trans hlacks
    · cases hlocate.unique hlocated
  · rw [if_neg hfiles] at hlocate
    have hlacks := mt (lacksModules_found s t).1 hfiles
    refine ⟨iff_of_false hlacks fun hnone => ?_, fun _ => ⟨_, hlocate⟩, fun located hlocated => ?_⟩
    · cases hlocate.unique hnone
    · cases hlocate.unique hlocated
      exact agreesWith_found hfiles

/-! ### A project that is listed in part -/

/-- A project whose manifest lists a module that is not there, and one of the two names that are, each of them
twice. Two of its modules have the same name. -/
def listedInPart : Tree where
  root := .folder [("p", .folder [
    ("build.order.txt", .file (Utf8.encode "gone.js\nb.js\ngone.js\nb.js\n".toList) 0),
    ("src", .folder [("a.js", .file [] 0), ("b.js", .file [] 0), ("lib", .folder [("b.js", .file [] 0)])])])]
  here := ⟨.slash, ["p"]⟩

/-- The review of a project whose manifest lists its modules in part agrees with locating them. -/
theorem review_iff_locate_listedInPart :
    let s := Build.plainSettings
    let t := listedInPart
    (∀ use ∈ uses, s.fault? use = none) ∧
    ∃ r, Returns (ofProject s t) (.ok r) ∧
      (r.problems.any Problem.lacksModules ↔
        Returns (Module.locate s t) (.error (.build (.noModules Settings.extension (s.sourceRoot t))))) ∧
      (r.problems.any Problem.lacksModules = false → ∃ located, Returns (Module.locate s t) (.ok located)) ∧
      ∀ located, Returns (Module.locate s t) (.ok located) → r.AgreesWith located :=
  ⟨fun _ _ => rfl, review_iff_locate (fun _ _ => rfl) listedInPart⟩

example : (manifestFound Build.plainSettings listedInPart ["a.js", "b.js", "b.js"]).problems.filterMap
    Problem.missing? = ["gone.js", "gone.js"] := by decide +kernel

end Userscript.Review
