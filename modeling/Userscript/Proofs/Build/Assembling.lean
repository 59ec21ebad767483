import Userscript.Proofs.Build.Stages
import Userscript.Proofs.ChangeCache.Loading
import Userscript.Proofs.Reading
import Userscript.Proofs.Scope

/-!
# Assembling a bundle

Up to its bundle a build reads only. What it gives is a function of the tree and the settings: there is
a bundle, or there are no modules, or none of them can be merged, or the settings or the change cache
cannot be used at all.

## Main definitions

* `Build.Does` — what a step gives and records, if it reads only
* `Build.bundleOf` — the bundle of a project
* `Build.Prepared` — the settings and the change cache can be used
* `Build.Assembling` — how the steps up to the bundle end

## Main results

* `exists_does_assembled` — the steps up to the bundle end in one of these ways
-/

namespace Userscript.Build

variable {α β : Type} {s : Settings} {o : Options} {output : Path} {t : Tree}

/-- In a tree, a step takes what is on record from `r` to `r'`, and gives this. It may note something,
and changes nothing else. -/
def Does (t : Tree) (r : Result) (step : Step α) (value : Except Failure α) (r' : Result) : Prop :=
  ∀ host world, world.tree = t → ∃ log, step host (world, r) = (value, { world with log }, r')

namespace Does

variable {step : Step α} {next : α → Step β} {value : Except Failure α} {final : Except Failure β}
  {r r' r'' : Result}

theorem pure (a : α) : Does t r (pure a) (.ok a) r := fun _ world _ => ⟨world.log, rfl⟩

theorem throw (failure : Failure) : Does t r (throw failure : Step α) (.error failure) r :=
  fun _ world _ => ⟨world.log, rfl⟩

theorem bind {a : α} (h : Does t r step (.ok a) r') (hnext : Does t r' (next a) final r'') :
    Does t r (step >>= next) final r'' := by
  intro host world ht
  obtain ⟨log, hstep⟩ := h host world ht
  rw [Program.run_bind, hstep]
  exact hnext host { world with log } ht

theorem bind_error {failure : Failure} (h : Does t r step (.error failure) r') :
    Does t r (step >>= next) (.error failure) r' := by
  intro host world ht
  obtain ⟨log, hstep⟩ := h host world ht
  exact ⟨log, by rw [Program.run_bind, hstep]⟩

theorem bind_get {next : World × Result → Step β}
    (h : ∀ world : World, world.tree = t → Does t r (next (world, r)) final r') :
    Does t r (get >>= next) final r' :=
  fun host world ht => h world ht host world ht

theorem read {reading : Tree → Reading α} (h : Reading.Returns (reading t) value) :
    Does t r (Step.read reading) value r := by
  rintro host world rfl
  exact ⟨(reading world.tree world.log).2, Prod.ext (h world.log) rfl⟩

theorem note (level : Log.Level) (message : String) : Does t r (Step.note level message) (.ok ()) r :=
  fun _ _ _ => ⟨_, rfl⟩

theorem record (f : Result → Result) : Does t r (Step.record f) (.ok ()) (f r) :=
  fun _ world _ => ⟨world.log, rfl⟩

theorem stage (name : String) (h : Does t r step value r') :
    Does t r (Step.stage name step) value { r' with stages := r'.stages ++ [name] } := by
  intro host world ht
  obtain ⟨log, hstep⟩ := h host world ht
  exact ⟨_, by rw [Step.stage, hstep]⟩

theorem forM {γ : Type} {step : γ → Step PUnit} (h : ∀ item, Does t r (step item) (.ok ()) r)
    (items : List γ) : Does t r (items.forM step) (.ok ()) r := by
  induction items with
  | nil => exact pure ()
  | cons item items ih => exact bind (h item) ih

theorem demand_none {use : Settings.Use} (h : s.fault? use = none) :
    Does t r (s.demand use) (.ok ()) r := by
  rw [Settings.demand, h]
  exact pure ()

theorem demand_some {use : Settings.Use} {fault : Fault} (h : s.fault? use = some fault) :
    Does t r (s.demand use : Step Unit) (.error (.fault fault)) r := by
  rw [Settings.demand, h]
  exact throw _

end Does

/-- The header of a bundle in a file. -/
def headerOf (s : Settings) (t : Tree) (output : Path) : Header.Resolved :=
  Header.resolved {} t (Header.sources (s.headerPaths output))

/-- What is on record once the header of a bundle has been looked for. -/
def withHeader (s : Settings) (found : Header.Resolved) (r : Result) : Result :=
  match found.source with
  | none =>
    let warning : Warning := ⟨.header, s.metadataFile, "metadata block not found, using default header"⟩
    { r with warnings := r.warnings ++ [warning] }
  | some source => { r with headerSource := some source }

theorem does_header {r : Result} (h : s.headerCandidates = none → s.fault? .metadataFile = none) :
    Does t r (header s output) (.ok (headerOf s t output)) (withHeader s (headerOf s t output) r) := by
  unfold header
  extract_lets warning found
  have hfound (done : Unit) :
      Does t r (found done) (.ok (headerOf s t output)) (withHeader s (headerOf s t output) r) := by
    refine .bind (.read (Header.returns_resolve _ _ _)) ?_
    unfold withHeader headerOf
    rcases Header.resolved {} t (Header.sources (s.headerPaths output)) with ⟨text, source | source⟩
    · exact .bind (.record _) (.pure _)
    · exact .bind (.record _) (.bind (.note _ _) (.pure _))
  cases hcandidates : s.headerCandidates with
  | none => exact .bind (.demand_none (h hcandidates)) (hfound ())
  | some paths => exact hfound ()

theorem does_header_of_fault {r : Result} {fault : Fault} (hcandidates : s.headerCandidates = none)
    (h : s.fault? .metadataFile = some fault) :
    Does t r (header s output) (.error (.fault fault)) r := by
  unfold header
  rw [hcandidates]
  exact .bind_error (.demand_some h)

/-- The modules with their texts. -/
def loaded (t : Tree) (modules : List ModuleFile) : List Loaded :=
  modules.map fun m => (m, (t.readText m.path).toOption)

theorem does_merge {r : Result} (text : Text) (modules : List ModuleFile) :
    Does t r (merge text modules) ((Bundle.assemble {} text (loaded t modules)).mapError .build) r := by
  unfold merge
  refine .bind (.read (Module.returns_load t modules)) (.bind (.forM (fun _ => .note _ _) _) ?_)
  rw [loaded]
  cases Bundle.assemble {} text (modules.map fun m => (m, (t.readText m.path).toOption)) with
  | ok found => exact .pure _
  | error error => exact .throw _

/-- The uses of settings that are made before a bundle is written. -/
def usesToAssemble : List Settings.Use :=
  [.output, .cacheFile, .sourceDir, .metadataName, .extraExclude, .manifests, .metadataFile]

/-- Nothing but the modules of a project decides whether its bundle is assembled: the settings are such
that they can be used, and the change cache is loaded. -/
structure Prepared (s : Settings) (t : Tree) : Prop where
  uses : ∀ use ∈ usesToAssemble, s.fault? use = none
  cache : ∃ cache, Reading.Returns (loadCache s.cachePath t) (.ok cache)

/-- The bundle of a project, with a warning for each module that is skipped. -/
def bundleOf (s : Settings) (t : Tree) (output : Path) : Except BuildError (Bundle × List Warning) :=
  Bundle.assemble {} (headerOf s t output).text (loaded t (Module.arranged s t).modules)

/-- What is on record once a bundle is assembled. -/
structure OnRecord (s : Settings) (t : Tree) (bundle : Bundle) (warnings : List Warning) (r r' : Result) :
    Prop where
  merged : r'.merged = bundle.merged
  skipped : r'.skipped = bundle.skipped
  warnings : ∃ headers, (∀ w ∈ headers, w.kind = .header) ∧
    r'.warnings = r.warnings ++ (Module.arranged s t).warnings ++ headers ++ warnings

/-- The change cache that was loaded has been asked for the located modules, and it has noted them. So
many of them have changed. -/
def Refreshed (s : Settings) (t : Tree) (cache : ChangeCache) (changed : Nat) : Prop :=
  Reading.Returns (Module.locate s t) (.ok (Module.arranged s t)) ∧
    ∃ before paths, Reading.Returns (loadCache s.cachePath t) (.ok before) ∧
      before.refresh (statOf t) ((Module.arranged s t).modules.map (·.path)) = (cache, paths) ∧
      changed = paths.length

/-- How the steps up to the bundle end. -/
inductive Assembling (s : Settings) (o : Options) (t : Tree) (output : Path) (r : Result) :
    Except Failure (ChangeCache × Bundle) → Result → Prop
  /-- The settings cannot be used, or the change cache is not loaded. -/
  | fault {fault : Fault} {r' : Result} : ¬ Prepared s t →
    Assembling s o t output r (.error (.fault fault)) r'
  | noModules {r' : Result} : Module.files s t = [] → r'.isSuccess = r.isSuccess →
    Assembling s o t output r (.error (.build (.noModules Settings.extension (s.sourceRoot t)))) r'
  | nothingLeft {r' : Result} : Module.files s t ≠ [] → bundleOf s t output = .error .nothingLeft →
    r'.isSuccess = r.isSuccess → (∃ cache, Refreshed s t cache r'.changed) →
      Assembling s o t output r (.error (.build .nothingLeft)) r'
  | bundle {cache : ChangeCache} {bundle : Bundle} {warnings : List Warning} {r' : Result} :
    Module.files s t ≠ [] → bundleOf s t output = .ok (bundle, warnings) → cache.path = s.cachePath →
      OnRecord s t bundle warnings r r' → Refreshed s t cache r'.changed →
        Assembling s o t output r (.ok (cache, bundle)) r'

theorem not_prepared_of_fault {use : Settings.Use} {fault : Fault} (huse : use ∈ usesToAssemble)
    (h : s.fault? use = some fault) : ¬ Prepared s t := by
  intro hprepared
  rw [hprepared.uses use huse] at h
  cases h

theorem returns_loadCache (p : Path) (t : Tree) :
    Reading.Returns (loadCache p t) (loadCache p t []).1 := by
  intro log
  rw [ChangeCache.loadCache_fst, ChangeCache.loadCache_fst]

/-- A change cache that is loaded is kept in the file that it was loaded from, and one that is not is no
build error. -/
theorem loadCache_cases (p : Path) (t : Tree) :
    (∃ cache, (loadCache p t []).1 = .ok cache ∧ cache.path = p) ∨
      ∃ fault, (loadCache p t []).1 = .error (.fault fault) := by
  rw [ChangeCache.loadCache_fst]
  split
  · exact .inl ⟨_, rfl, rfl⟩
  · split
    · exact .inl ⟨_, rfl, rfl⟩
    · next failure hbuild hdecode =>
      cases failure with
      | build error => exact absurd rfl (hbuild error)
      | fault fault => exact .inr ⟨fault, rfl⟩
    · exact .inl ⟨_, rfl, rfl⟩

/-- What is on record of warnings grows by those of the header. -/
theorem warnings_withHeader (s : Settings) (found : Header.Resolved) (r : Result) :
    ∃ headers, (∀ w ∈ headers, w.kind = .header) ∧
      (withHeader s found r).warnings = r.warnings ++ headers := by
  unfold withHeader
  split
  · exact ⟨[_], by simp, rfl⟩
  · exact ⟨[], by simp, by simp⟩

theorem isSuccess_withHeader (s : Settings) (found : Header.Resolved) (r : Result) :
    (withHeader s found r).isSuccess = r.isSuccess := by
  unfold withHeader
  split <;> rfl

theorem path_refreshOne (stat : Path → Option Stat) (state : ChangeCache × List String) (p : Path) :
    (ChangeCache.refreshOne stat state p).1.path = state.1.path := by
  unfold ChangeCache.refreshOne ChangeCache.record
  dsimp only
  split <;> rfl

theorem path_refresh (c : ChangeCache) (stat : Path → Option Stat) (paths : List Path) :
    (c.refresh stat paths).1.path = c.path := by
  -- The state is general, since each step starts from the one before.
  have hfold (state : ChangeCache × List String) :
      (paths.foldl (ChangeCache.refreshOne stat) state).1.path = state.1.path := by
    induction paths generalizing state with
    | nil => rfl
    | cons p paths ih => rw [List.foldl_cons, ih, path_refreshOne]
  exact hfold (c, [])

theorem nothingLeft_of_bundleOf {error : BuildError} (h : bundleOf s t output = .error error) :
    error = .nothingLeft := by
  rw [bundleOf, Bundle.assemble] at h
  split at h <;> cases h
  rfl

/-- What is on record once the modules are located and the change cache is refreshed. -/
def withModules (s : Settings) (t : Tree) (cache : ChangeCache) (r : Result) : Result :=
  { r with
    warnings := r.warnings ++ (Module.arranged s t).warnings
    changed := (cache.refresh (statOf t) ((Module.arranged s t).modules.map (·.path))).2.length }

/-- What is on record once the header is found and the modules have been merged. -/
def withMerge (s : Settings) (t : Tree) (output : Path) (cache : ChangeCache) (r : Result) : Result :=
  let headed := withHeader s (headerOf s t output) (withModules s t cache r)
  { headed with stages := headed.stages ++ ["merge"] }

theorem isSuccess_withMerge (s : Settings) (t : Tree) (output : Path) (cache : ChangeCache) (r : Result) :
    (withMerge s t output cache r).isSuccess = r.isSuccess :=
  isSuccess_withHeader _ _ _

theorem changed_withMerge (s : Settings) (t : Tree) (output : Path) (cache : ChangeCache) (r : Result) :
    (withMerge s t output cache r).changed = (withModules s t cache r).changed := by
  unfold withMerge withHeader
  split <;> rfl

theorem warnings_withMerge (s : Settings) (t : Tree) (output : Path) (cache : ChangeCache) (r : Result) :
    ∃ headers, (∀ w ∈ headers, w.kind = .header) ∧ (withMerge s t output cache r).warnings =
      r.warnings ++ (Module.arranged s t).warnings ++ headers :=
  warnings_withHeader _ _ _

/-- What is on record once the bundle is there. -/
def withBundle (bundle : Bundle) (warnings : List Warning) (r : Result) : Result :=
  { r with
    warnings := r.warnings ++ warnings
    merged := bundle.merged
    skipped := bundle.skipped }

theorem onRecord_withBundle (s : Settings) (t : Tree) (output : Path) (cache : ChangeCache)
    (bundle : Bundle) (warnings : List Warning) {r₀ r : Result} (h : r.warnings = r₀.warnings) :
    OnRecord s t bundle warnings r₀ (withBundle bundle warnings (withMerge s t output cache r)) := by
  obtain ⟨headers, hheaders, hwarnings⟩ := warnings_withMerge s t output cache r
  exact ⟨rfl, rfl, headers, hheaders, by rw [withBundle, hwarnings, h]⟩

/-- The settings say nothing about the file of the header, or it can be used. -/
theorem metadataFile_cases (s : Settings) : (s.headerCandidates = none → s.fault? .metadataFile = none) ∨
    s.headerCandidates = none ∧ ∃ fault, s.fault? .metadataFile = some fault := by
  cases s.headerCandidates <;> cases s.fault? .metadataFile <;> simp

/-- What a build has once its modules are located: the change cache that has noted them and the bundle, or
the reason why there is none. -/
def assembledWith (s : Settings) (t : Tree) (output : Path) (cache : ChangeCache) :
    Except Failure (ChangeCache × Bundle) :=
  match bundleOf s t output with
  | .error error => .error (.build error)
  | .ok found => .ok ((cache.refresh (statOf t) ((Module.arranged s t).modules.map (·.path))).1, found.1)

/-- What is on record of the modules and, if there is one, of the bundle. -/
def withAssembled (s : Settings) (t : Tree) (output : Path) (cache : ChangeCache) (r : Result) : Result :=
  match bundleOf s t output with
  | .error _ => withMerge s t output cache r
  | .ok found => withBundle found.1 found.2 (withMerge s t output cache r)

/-- From the located modules on, a build assembles its bundle or finds that nothing is left. -/
theorem does_assemble (output : Path) (cache : ChangeCache) (r : Result)
    (h : s.headerCandidates = none → s.fault? .metadataFile = none) :
    Does t r (assemble s output cache (Module.arranged s t)) (assembledWith s t output cache)
      (withAssembled s t output cache r) := by
  have hmerge (r : Result) : Does t r (merge (headerOf s t output).text (Module.arranged s t).modules)
      ((bundleOf s t output).mapError .build) r :=
    does_merge _ _
  unfold assemble assembledWith withAssembled
  refine .bind (.record _) (.bind_get ?_)
  rintro world rfl
  refine .bind (.record _) (.bind (does_header h) ?_)
  cases hbundle : bundleOf s world.tree output with
  | error error =>
    rw [hbundle] at hmerge
    exact .bind_error (.stage _ (hmerge _))
  | ok found =>
    rw [hbundle] at hmerge
    exact .bind (.stage _ (hmerge _)) (.bind (.record _) (.pure _))

/-- From the located modules on, a build assembles its bundle, finds that nothing is left, or cannot use
the settings of the header. -/
theorem exists_does_assemble (output : Path) {cache : ChangeCache} (hcache : cache.path = s.cachePath)
    (hload : Reading.Returns (loadCache s.cachePath t) (.ok cache))
    (hlocate : Reading.Returns (Module.locate s t) (.ok (Module.arranged s t))) (hfiles : Module.files s t ≠ [])
    (o : Options) {r₀ r : Result} (h : r.warnings = r₀.warnings) (hsuccess : r.isSuccess = r₀.isSuccess) :
    ∃ value r', Does t r (assemble s output cache (Module.arranged s t)) value r' ∧
      Assembling s o t output r₀ value r' := by
  have hrefreshed := (path_refresh cache (statOf t) ((Module.arranged s t).modules.map (·.path))).trans hcache
  have hcounted (r : Result) : Refreshed s t
      (cache.refresh (statOf t) ((Module.arranged s t).modules.map (·.path))).1
      (withMerge s t output cache r).changed :=
    ⟨hlocate, cache, _, hload, rfl, changed_withMerge s t output cache r⟩
  -- The candidates for the header depend on a setting of their own.
  rcases metadataFile_cases s with hheader | ⟨hcandidates, fault, hfault⟩
  · have hdoes := does_assemble (t := t) output cache r hheader
    unfold assembledWith withAssembled at hdoes
    cases hbundle : bundleOf s t output with
    | error error =>
      obtain rfl := nothingLeft_of_bundleOf hbundle
      rw [hbundle] at hdoes
      exact ⟨_, _, hdoes, .nothingLeft hfiles hbundle ((isSuccess_withMerge _ _ _ _ _).trans hsuccess)
        ⟨_, hcounted r⟩⟩
    | ok found =>
      obtain ⟨bundle, warnings⟩ := found
      rw [hbundle] at hdoes
      exact ⟨_, _, hdoes, .bundle hfiles hbundle hrefreshed
        (onRecord_withBundle s t output cache bundle warnings h) (hcounted r)⟩
  · unfold assemble
    refine ⟨.error (.fault fault), withModules s t cache r, .bind (.record _) (.bind_get ?_),
      .fault (not_prepared_of_fault (by decide) hfault)⟩
    rintro world rfl
    exact .bind (.record _) (.bind_error (does_header_of_fault hcandidates hfault))

/-- Once the change cache is loaded, a build locates its modules and assembles its bundle. -/
theorem exists_does_located (output : Path) {cache : ChangeCache} (hpath : cache.path = s.cachePath)
    (hload : Reading.Returns (loadCache s.cachePath t) (.ok cache)) (o : Options) (r : Result) :
    ∃ value r', Does t r (do
        let located ← Step.stage "collect" (Step.read (Module.locate s))
        assemble s output cache located) value r' ∧ Assembling s o t output r value r' := by
  cases hfault : Module.usesBefore.findSome? s.fault? with
  | some fault =>
    obtain ⟨use, huse, hfault'⟩ := List.exists_of_findSome?_eq_some hfault
    have hsubset : ∀ use ∈ Module.usesBefore, use ∈ usesToAssemble := by decide
    exact ⟨_, _, .bind_error (.stage _ (.read (Module.returns_locate_of_fault hfault t))),
      .fault (not_prepared_of_fault (hsubset use huse) hfault')⟩
  | none =>
    have hlocate := Module.returns_locate (List.findSome?_eq_none_iff.1 hfault) t
    by_cases hfiles : Module.files s t = []
    · rw [if_pos hfiles] at hlocate
      exact ⟨_, _, .bind_error (.stage _ (.read hlocate)), .noModules hfiles rfl⟩
    · rw [if_neg hfiles] at hlocate
      cases hmanifests : s.fault? .manifests with
      | some fault =>
        rw [hmanifests] at hlocate
        exact ⟨_, _, .bind_error (.stage _ (.read hlocate)),
          .fault (not_prepared_of_fault (by decide) hmanifests)⟩
      | none =>
        rw [hmanifests] at hlocate
        -- The stage is on record, and the warnings are as they were.
        obtain ⟨value, r', hdoes, hassembling⟩ := exists_does_assemble output hpath hload hlocate hfiles o
          (show ({ r with stages := r.stages ++ ["collect"] } : Result).warnings = r.warnings from rfl) rfl
        exact ⟨value, r', .bind (.stage _ (.read hlocate)) hdoes, hassembling⟩

/-- The steps up to the bundle read only, and what they give depends on the tree alone. -/
theorem exists_does_assembled (s : Settings) (o : Options) (t : Tree) (output : Path) (r : Result) :
    ∃ value r', Does t r (assembled s o output) value r' ∧ Assembling s o t output r value r' := by
  unfold assembled
  extract_lets started
  have hstarted (u : Unit) : ∃ value r', Does t r (started u) value r' ∧
      Assembling s o t output r value r' := by
    cases hcacheFile : s.fault? .cacheFile with
    | some fault =>
      exact ⟨_, _, .bind (.note _ _) (.bind_error (.demand_some hcacheFile)),
        .fault (not_prepared_of_fault (by decide) hcacheFile)⟩
    | none =>
      have hload := returns_loadCache s.cachePath t
      rcases loadCache_cases s.cachePath t with ⟨cache, hcache, hpath⟩ | ⟨fault, hfault⟩
      · rw [hcache] at hload
        obtain ⟨value, r', hdoes, hassembling⟩ := exists_does_located output hpath hload o r
        exact ⟨value, r', .bind (.note _ _) (.bind (.demand_none hcacheFile) (.bind (.read hload) hdoes)),
          hassembling⟩
      · rw [hfault] at hload
        refine ⟨_, _, .bind (.note _ _) (.bind (.demand_none hcacheFile) (.bind_error (.read hload))),
          .fault ?_⟩
        rintro ⟨-, cache, hcache⟩
        cases (hload []).symm.trans (hcache [])
  -- The place of the bundle is a setting only if the options name none.
  cases houtput : o.output.isNone with
  | false => exact hstarted ()
  | true =>
    cases hfault : s.fault? .output with
    | some fault =>
      exact ⟨_, _, .bind_error (.demand_some hfault), .fault (not_prepared_of_fault (by decide) hfault)⟩
    | none =>
      obtain ⟨value, r', hdoes, hassembling⟩ := hstarted ()
      exact ⟨value, r', .bind (.demand_none hfault) hdoes, hassembling⟩

/-! ### Settings that can be used -/

section usable

variable {cache : ChangeCache} {r r' : Result} {value : Except Failure (ChangeCache × Bundle)}
  (huses : ∀ use ∈ usesToAssemble, s.fault? use = none)
  (hload : Reading.Returns (loadCache s.cachePath t) (.ok cache))

include huses hload

/-- With settings that can be used, a build begins with its modules once the change cache is loaded. -/
theorem does_assembled_of_located (hlocated : Does t r (do
      let located ← Step.stage "collect" (Step.read (Module.locate s))
      assemble s output cache located) value r') : Does t r (assembled s o output) value r' := by
  unfold assembled
  extract_lets started
  have hstarted (done : Unit) : Does t r (started done) value r' :=
    .bind (.note _ _) (.bind (.demand_none (huses _ (by decide))) (.bind (.read hload) hlocated))
  split
  · exact .bind (.demand_none (huses _ (by decide))) (hstarted ())
  · exact hstarted ()

theorem does_assembled_of_files_eq_nil (hfiles : Module.files s t = []) :
    Does t r (assembled s o output)
      (.error (.build (.noModules Settings.extension (s.sourceRoot t))))
      { r with stages := r.stages ++ ["collect"] } := by
  have hsubset : ∀ use ∈ Module.usesBefore, use ∈ usesToAssemble := by decide
  have hlocate := Module.returns_locate (fun use huse => huses use (hsubset use huse)) t
  rw [if_pos hfiles] at hlocate
  exact does_assembled_of_located huses hload (.bind_error (.stage _ (.read hlocate)))

/-- With settings that can be used, a build that has modules assembles what there is of them. -/
theorem does_assembled (hfiles : Module.files s t ≠ []) :
    Does t r (assembled s o output) (assembledWith s t output cache)
      (withAssembled s t output cache { r with stages := r.stages ++ ["collect"] }) := by
  have hsubset : ∀ use ∈ Module.usesBefore, use ∈ usesToAssemble := by decide
  have hlocate := Module.returns_locate (fun use huse => huses use (hsubset use huse)) t
  rw [if_neg hfiles, huses .manifests (by decide)] at hlocate
  exact does_assembled_of_located huses hload (.bind (.stage _ (.read hlocate))
    (does_assemble output cache _ fun _ => huses .metadataFile (by decide)))

end usable

end Userscript.Build
