import Userscript.Proofs.Build.Failing
import Userscript.Proofs.Build.Feedback
import Userscript.Proofs.Bundle.Merging
import Userscript.Proofs.Module.Ordering
import Userscript.Proofs.Module.Unique

/-!
# No module is lost

Every file of a project that is a module is merged, or it is skipped or dropped with one warning about
its path. What is merged stands in the bundle once, in order. A build fails for want of modules exactly
if there are none or nothing is left of any.

## Main definitions

* `Module.bodyOf` — what is left of a module of a tree
* `Build.recordOf` — what is on record of a build in the end
* `Build.Fate` — what becomes of a module
* `Build.Conserves` — what a bundle and a record say about the modules

## Main results

* `count_modules` — a path is merged, skipped and dropped as often as it is found
* `conserves_of_assembled` — a build that has a bundle conserves its modules
* `conserves_modules` — and when a build has none
-/

namespace Userscript

/-- What is left of a module of a tree without its header and the blanks around it. -/
def Module.bodyOf (t : Tree) (m : ModuleFile) : Option Text :=
  Bundle.left? {} (t.readText m.path).toOption

theorem Module.bodyOf_eq_some_iff {t : Tree} {m : ModuleFile} {text : Text} : bodyOf t m = some text ↔
    ∃ raw, t.readText m.path = .ok raw ∧ Text.trim (({} : Header.Markers).strip raw) = text ∧ text ≠ [] := by
  rw [bodyOf, Bundle.left?_eq_some_iff]
  cases t.readText m.path <;> simp [Except.toOption]

theorem Module.bodyOf_eq_none_iff {t : Tree} {m : ModuleFile} : bodyOf t m = none ↔
    ∀ raw, t.readText m.path = .ok raw → Text.trim (({} : Header.Markers).strip raw) = [] := by
  simp [Option.eq_none_iff_forall_ne_some, bodyOf_eq_some_iff]

namespace Build

variable {host : Host} {s : Settings} {o : Options} {output : Path} {t : Tree} {world : World}
  {found : ChangeCache × Bundle} {bundle : Bundle} {warnings : List Warning} {r r' r'' : Result}
  {m : ModuleFile}

/-- What is on record of a build in the end, whether it fails or not. -/
def recordOf (s : Settings) (o : Options) (host : Host) (world : World) : Result :=
  (steps s o (outputPath s o) host (start s o world)).2.2

/-- The subjects of the warnings of some kinds. -/
def subjects (kinds : List Warning.Kind) (warnings : List Warning) : List String :=
  (warnings.filter (·.kind ∈ kinds)).map (·.subject)

/-- How often a path is that of a body of a bundle. -/
def timesMerged (bundle : Bundle) (path : String) : Nat := (bundle.bodies.map (·.path.toString)).count path

/-- How often it is on record that the module of a path is empty or cannot be read. -/
def timesSkipped (r : Result) (path : String) : Nat := (subjects [.empty, .unreadable] r.warnings).count path

/-- How often it is on record that the name of the module of a path is taken. -/
def timesDropped (r : Result) (path : String) : Nat := (subjects [.duplicate] r.warnings).count path

/-- What becomes of a module: it is merged, or skipped with one warning, or dropped with one warning. -/
inductive Fate (s : Settings) (t : Tree) (bundle : Bundle) (r : Result) (m : ModuleFile) : Prop
  | merged {text : Text} : m ∈ (Module.arranged s t).modules → Module.bodyOf t m = some text →
    ⟨m.name, m.path, text⟩ ∈ bundle.bodies → timesMerged bundle m.path.toString = 1 →
      timesSkipped r m.path.toString = 0 → timesDropped r m.path.toString = 0 → Fate s t bundle r m
  | skipped : m ∈ (Module.arranged s t).modules → Module.bodyOf t m = none → m.name ∈ r.skipped →
    timesMerged bundle m.path.toString = 0 → timesSkipped r m.path.toString = 1 →
      timesDropped r m.path.toString = 0 → Fate s t bundle r m
  | dropped {kept : ModuleFile} : kept ∈ (Module.arranged s t).modules → kept.name = m.name → kept ≠ m →
    timesMerged bundle m.path.toString = 0 → timesSkipped r m.path.toString = 0 →
      timesDropped r m.path.toString = 1 → Fate s t bundle r m

/-- What a bundle and a record say about the modules of a project. -/
structure Conserves (s : Settings) (t : Tree) (output : Path) (bundle : Bundle) (r : Result) : Prop where
  fate : ∀ m ∈ Module.files s t, Fate s t bundle r m
  nodup : (r.merged ++ r.skipped).Nodup
  names : ∀ name, name ∈ r.merged ++ r.skipped ↔ ∃ m ∈ Module.files s t, m.name = name
  merged : r.merged =
    ((Module.arranged s t).modules.filter fun m => (Module.bodyOf t m).isSome).map (·.name)
  skipped : r.skipped =
    ((Module.arranged s t).modules.filter fun m => (Module.bodyOf t m).isNone).map (·.name)
  text : bundle.text = ['\n', '\n'].intercalate (Text.trim (headerOf s t output).text ::
    (loaded t (Module.arranged s t).modules).flatMap (Bundle.sectionOf {})) ++ ['\n']

/-! ### Warnings by kind -/

section subjects

variable {kinds others : List Warning.Kind}

theorem subjects_append (first second : List Warning) :
    subjects kinds (first ++ second) = subjects kinds first ++ subjects kinds second := by
  simp [subjects]

theorem subjects_of_subset (h : ∀ w ∈ warnings, w.kind ∈ others) (hsubset : ∀ kind ∈ others, kind ∈ kinds) :
    subjects kinds warnings = warnings.map (·.subject) := by
  rw [subjects, List.filter_eq_self.2]
  simpa using fun w hw => hsubset _ (h w hw)

theorem subjects_of_disjoint (h : ∀ w ∈ warnings, w.kind ∈ others)
    (hdisjoint : ∀ kind ∈ others, kind ∉ kinds) : subjects kinds warnings = [] := by
  rw [subjects, List.map_eq_nil_iff, List.filter_eq_nil_iff]
  simpa using fun w hw => hdisjoint _ (h w hw)

end subjects

/-- The kinds of warnings that are not about one module that is left out. -/
def aboutProject : List Warning.Kind := [.manifest, .missing, .unlisted, .header, .lint]

theorem kind_of_mem_manifestOf {w : Warning} (h : w ∈ (Module.manifestOf s t).2) : w.kind = .manifest := by
  unfold Module.manifestOf at h
  split at h
  · cases h
  · rw [List.mem_singleton.1 h]

/-- The modules of a project in order are its files, put in order. -/
theorem arranged_modules (s : Settings) (t : Tree) : (Module.arranged s t).modules =
    (Module.order (Module.files s t) (Module.manifestOf s t).1 s.entry).1 := rfl

/-- The warnings about the modules that are dropped are among those of the project, and the others are
about the manifest. -/
theorem exists_warnings_arranged (s : Settings) (t : Tree) : ∃ before after,
    (Module.arranged s t).warnings =
      before ++ Module.duplicateWarnings [] (Module.byName (Module.files s t)) ++ after ∧
    ∀ w ∈ before ++ after, w.kind ∈ aboutProject := by
  obtain ⟨others, hothers, hkind⟩ :=
    Module.exists_warnings_order (Module.files s t) (Module.manifestOf s t).1 s.entry
  refine ⟨(Module.manifestOf s t).2, others, ?_, fun w hw => ?_⟩
  · rw [List.append_assoc, ← hothers]
    rfl
  · rcases List.mem_append.1 hw with hw | hw
    · rw [kind_of_mem_manifestOf hw]
      decide
    · rcases hkind w hw with hkind | hkind <;> rw [hkind] <;> decide

theorem kind_of_bundleOf (h : bundleOf s t output = .ok (bundle, warnings)) {w : Warning}
    (hw : w ∈ warnings) : w.kind ∈ [.empty, .unreadable] := by
  rw [(Bundle.assemble_eq_ok h).2, Bundle.skips_eq, List.map_map] at hw
  obtain ⟨m, -, rfl⟩ := List.mem_map.1 hw
  have hkind := Bundle.kind_skipWarning m
  simpa [or_comm] using hkind

/-- The warnings that are on record about modules. -/
theorem subjects_of_onRecord (hbundle : bundleOf s t output = .ok (bundle, warnings))
    (hnone : r.warnings = []) (hrecord : OnRecord s t bundle warnings r r') (hadds : Adds r' r'') :
    subjects [.empty, .unreadable] r''.warnings = warnings.map (·.subject) ∧
      subjects [.duplicate] r''.warnings =
        (Module.duplicateWarnings [] (Module.byName (Module.files s t))).map (·.subject) := by
  obtain ⟨headers, hheaders, hwarnings⟩ := hrecord.warnings
  obtain ⟨lints, hlints, hlint⟩ := hadds.warnings
  obtain ⟨before, after, harranged, hother⟩ := exists_warnings_arranged s t
  have hdropped : ∀ w ∈ Module.duplicateWarnings [] (Module.byName (Module.files s t)),
      w.kind ∈ [.duplicate] :=
    fun w hw => List.mem_singleton.2 (Module.kind_of_mem_duplicateWarnings hw)
  have hskipped : ∀ w ∈ warnings, w.kind ∈ [.empty, .unreadable] := fun w hw => kind_of_bundleOf hbundle hw
  have hbefore : ∀ w ∈ before, w.kind ∈ aboutProject := fun w hw => hother w (List.mem_append_left _ hw)
  have hafter : ∀ w ∈ after, w.kind ∈ aboutProject := fun w hw => hother w (List.mem_append_right _ hw)
  have hheaders : ∀ w ∈ headers, w.kind ∈ aboutProject := fun w hw => by rw [hheaders w hw]; decide
  have hlint : ∀ w ∈ lints, w.kind ∈ aboutProject := fun w hw => by rw [hlint w hw]; decide
  -- Each part of the warnings is about modules of one fate, or about none.
  simp only [hlints, hwarnings, hnone, harranged, List.nil_append, subjects_append]
  constructor
  · rw [subjects_of_disjoint hbefore (by decide), subjects_of_disjoint hdropped (by decide),
      subjects_of_disjoint hafter (by decide), subjects_of_disjoint hheaders (by decide),
      subjects_of_disjoint hlint (by decide), subjects_of_subset hskipped (by decide)]
    simp
  · rw [subjects_of_disjoint hbefore (by decide), subjects_of_subset hdropped (by decide),
      subjects_of_disjoint hafter (by decide), subjects_of_disjoint hheaders (by decide),
      subjects_of_disjoint hlint (by decide), subjects_of_disjoint hskipped (by decide)]
    simp

/-! ### What becomes of the modules -/

/-- A path is merged, skipped and dropped as often as it is found. -/
theorem count_modules (hbundle : bundleOf s t output = .ok (bundle, warnings)) (hnone : r.warnings = [])
    (hrecord : OnRecord s t bundle warnings r r') (hadds : Adds r' r'') (path : String) :
    timesMerged bundle path + timesSkipped r'' path =
        ((Module.arranged s t).modules.map (·.path.toString)).count path ∧
      timesDropped r'' path + ((Module.arranged s t).modules.map (·.path.toString)).count path =
        ((Module.files s t).map (·.path.toString)).count path := by
  obtain ⟨hskipped, hdropped⟩ := subjects_of_onRecord hbundle hnone hrecord hadds
  have hassemble := Bundle.assemble_eq_ok hbundle
  constructor
  · have hperm := Bundle.perm_bodies_skips {} (loaded t (Module.arranged s t).modules)
    rw [timesMerged, timesSkipped, hskipped, hassemble.1, hassemble.2, List.map_map, ← List.count_append]
    exact (hperm.count_eq path).trans (by rw [loaded, List.map_map]; rfl)
  · have hperm := Module.perm_warnings_order (Module.files s t) (Module.manifestOf s t).1 s.entry
    rw [timesDropped, hdropped, arranged_modules, ← List.count_append]
    exact hperm.count_eq path

theorem mem_bodies_of_bodyOf (hbundle : bundleOf s t output = .ok (bundle, warnings)) {text : Text}
    (hm : m ∈ (Module.arranged s t).modules) (h : Module.bodyOf t m = some text) :
    ⟨m.name, m.path, text⟩ ∈ bundle.bodies := by
  rw [(Bundle.assemble_eq_ok hbundle).1]
  exact Bundle.mem_bodies_iff.2 ⟨_, List.mem_map_of_mem hm, text, h, rfl⟩

theorem path_mem_of_bodyOf (hbundle : bundleOf s t output = .ok (bundle, warnings))
    (hm : m ∈ (Module.arranged s t).modules) (h : Module.bodyOf t m = none) :
    m.path.toString ∈ warnings.map (·.subject) := by
  rw [(Bundle.assemble_eq_ok hbundle).2, Bundle.skips_eq, List.map_map, List.map_map]
  have hleft : Bundle.left? {} (t.readText m.path).toOption = none := h
  refine List.mem_map.2 ⟨_, List.mem_filter.2 ⟨List.mem_map_of_mem hm, ?_⟩, Bundle.subject_skipWarning _⟩
  rw [hleft]
  rfl

theorem filter_loaded (p : Option Text → Bool) (t : Tree) (modules : List ModuleFile) :
    ((loaded t modules).filter fun m => p (Bundle.left? {} m.2)).map (·.1.name) =
      (modules.filter fun m => p (Module.bodyOf t m)).map (·.name) := by
  rw [loaded, List.filter_map, List.map_map]
  rfl

/-- What is on record of the modules once they are merged. -/
theorem names_of_bundleOf (hbundle : bundleOf s t output = .ok (bundle, warnings)) :
    bundle.merged =
      ((Module.arranged s t).modules.filter fun m => (Module.bodyOf t m).isSome).map (·.name) ∧
    bundle.skipped =
      ((Module.arranged s t).modules.filter fun m => (Module.bodyOf t m).isNone).map (·.name) :=
  ⟨(Bundle.merged_eq hbundle).trans (filter_loaded Option.isSome _ _),
    (Bundle.skipped_eq hbundle).trans (filter_loaded Option.isNone _ _)⟩

theorem fate_of_mem (hwell : t.root.WellNamed) (hbundle : bundleOf s t output = .ok (bundle, warnings))
    (hnone : r.warnings = []) (hrecord : OnRecord s t bundle warnings r r') (hadds : Adds r' r'')
    (hm : m ∈ Module.files s t) : Fate s t bundle r'' m := by
  obtain ⟨hkept, hfound⟩ := count_modules hbundle hnone hrecord hadds m.path.toString
  have honce : ((Module.files s t).map (·.path.toString)).count m.path.toString = 1 :=
    List.count_eq_one_of_mem (Module.nodup_paths_discover hwell _ _) (List.mem_map_of_mem hm)
  -- A path is merged, skipped and dropped once in all, so whichever it is, it is not the others.
  by_cases harranged : m ∈ (Module.arranged s t).modules
  · have hpos : 0 < ((Module.arranged s t).modules.map (·.path.toString)).count m.path.toString :=
      List.count_pos_iff.2 (List.mem_map_of_mem harranged)
    cases hbody : Module.bodyOf t m with
    | some text =>
      have hmem := mem_bodies_of_bodyOf hbundle harranged hbody
      have hmerged : 0 < timesMerged bundle m.path.toString :=
        List.count_pos_iff.2 (List.mem_map.2 ⟨_, hmem, rfl⟩)
      exact .merged harranged hbody hmem (by omega) (by omega) (by omega)
    | none =>
      have hname : m.name ∈ r''.skipped := by
        rw [hadds.skipped, hrecord.skipped, (names_of_bundleOf hbundle).2]
        exact List.mem_map_of_mem (List.mem_filter.2 ⟨harranged, by rw [hbody]; rfl⟩)
      have hskipped : 0 < timesSkipped r'' m.path.toString := by
        rw [timesSkipped, (subjects_of_onRecord hbundle hnone hrecord hadds).1]
        exact List.count_pos_iff.2 (path_mem_of_bodyOf hbundle harranged hbody)
      exact .skipped harranged hbody hname (by omega) (by omega) (by omega)
  · have hzero : ((Module.arranged s t).modules.map (·.path.toString)).count m.path.toString = 0 := by
      refine List.count_eq_zero.2 fun hpath => harranged ?_
      obtain ⟨other, hother, heq⟩ := List.mem_map.1 hpath
      rwa [← Module.toString_path_inj hwell (Module.mem_of_mem_order hother) hm heq]
    have hname : m.name ∈ (Module.arranged s t).modules.map (·.name) :=
      Module.name_mem_order_iff.2 (List.mem_map_of_mem hm)
    obtain ⟨kept, hmem, hname⟩ := List.mem_map.1 hname
    exact .dropped hmem hname (fun heq => harranged (heq ▸ hmem)) (by omega) (by omega) (by omega)

/-- The names that are on record as merged or skipped are those of the modules in order. -/
theorem perm_names_of_bundleOf (hbundle : bundleOf s t output = .ok (bundle, warnings)) :
    (bundle.merged ++ bundle.skipped).Perm ((Module.arranged s t).modules.map (·.name)) := by
  obtain ⟨hmerged, hskipped⟩ := names_of_bundleOf hbundle
  rw [hmerged, hskipped, ← List.map_append]
  have hperm := List.filter_append_perm (fun m => (Module.bodyOf t m).isSome) (Module.arranged s t).modules
  simpa using hperm.map (·.name)

/-- What comes after the bundle is assembled stays within its targets. -/
theorem within_finish_of_assembled {state : World × Result}
    (h : assembled s o (outputPath s o) host (start s o world) = (.ok found, state)) :
    Adds state.2 (recordOf s o host world) ∧
      ∀ error state', steps s o (outputPath s o) host (start s o world) = (.error (.build error), state') →
        Stopped error := by
  have hsteps : steps s o (outputPath s o) host (start s o world) =
      finish s o (outputPath s o) found host state := by
    rw [steps_eq_bind, Program.run_bind, h]
  have hfinish : (finish s o (outputPath s o) found).Within host (targets s o) :=
    within_finish (cachePath_of_gives_assembled ⟨_, _, h⟩)
  obtain ⟨⟨-, hadds⟩, hfailure⟩ := hfinish state
  rw [recordOf, hsteps]
  refine ⟨hadds, fun error state' herror => hfailure (.build error) ?_⟩
  rw [herror]

/-- A bundle that is assembled is that of the project. -/
theorem onRecord_of_assembled {state : World × Result}
    (h : assembled s o (outputPath s o) host (start s o world) = (.ok found, state)) : ∃ warnings,
      bundleOf s world.tree (outputPath s o) = .ok (found.2, warnings) ∧
        OnRecord s world.tree found.2 warnings (start s o world).2 state.2 := by
  obtain ⟨value, r, hdoes, hassembling⟩ :=
    exists_does_assembled s o world.tree (outputPath s o) (start s o world).2
  obtain ⟨log, hrun⟩ := hdoes host world rfl
  rw [show (world, (start s o world).2) = start s o world from rfl, h] at hrun
  cases hrun
  cases hassembling with
  | bundle _ hbundle _ hrecord => exact ⟨_, hbundle, hrecord⟩

/-- A build that has a bundle conserves the modules of its project. -/
theorem conserves_of_assembled (hwell : world.tree.root.WellNamed) {state : World × Result}
    (h : assembled s o (outputPath s o) host (start s o world) = (.ok found, state)) :
    Conserves s world.tree (outputPath s o) found.2 (recordOf s o host world) := by
  obtain ⟨warnings, hbundle, hrecord⟩ := onRecord_of_assembled h
  obtain ⟨hadds, -⟩ := within_finish_of_assembled h
  obtain ⟨hmerged, hskipped⟩ := names_of_bundleOf hbundle
  have hmerged' : (recordOf s o host world).merged = found.2.merged := hadds.merged.trans hrecord.merged
  have hskipped' : (recordOf s o host world).skipped = found.2.skipped := hadds.skipped.trans hrecord.skipped
  have hperm := perm_names_of_bundleOf hbundle
  rw [← hmerged', ← hskipped', arranged_modules] at hperm
  exact {
    fate := fun m => fate_of_mem hwell hbundle rfl hrecord hadds
    nodup := hperm.nodup_iff.2 (Module.nodup_names_order _ _ _)
    names := fun name => by rw [hperm.mem_iff, Module.name_mem_order_iff, List.mem_map]
    merged := hmerged'.trans hmerged
    skipped := hskipped'.trans hskipped
    text := by rw [Bundle.text, Bundle.parts_eq hbundle] }

/-! ### Builds without modules -/

/-- A build fails because it has no modules or none is left, and nothing has been written. -/
def LacksAll (s : Settings) (o : Options) (host : Host) (world : World) : Prop :=
  ∃ result after, run s o host world = (.ok result, after) ∧ result.isSuccess = false ∧
    (∃ error, result.error = some error ∧ LacksModules error) ∧ LeavesNothing world after

/-- One of the modules in order can be read, and something is left of it. -/
def HasBody (s : Settings) (t : Tree) : Prop := ∃ m ∈ (Module.arranged s t).modules, ∃ raw,
  t.readText m.path = .ok raw ∧ Text.trim (({} : Header.Markers).strip raw) ≠ []

theorem not_hasBody_iff : ¬ HasBody s t ↔ ∀ m ∈ (Module.arranged s t).modules, Module.bodyOf t m = none := by
  simp only [HasBody, Module.bodyOf_eq_none_iff]
  push Not
  rfl

theorem bundleOf_eq_error_iff (output : Path) :
    bundleOf s t output = .error .nothingLeft ↔ ¬ HasBody s t := by
  have hbody (m : Loaded) : (Bundle.body? {} m).toOption = none ↔ Bundle.left? {} m.2 = none := by
    rw [Bundle.body?_eq]
    cases Bundle.left? {} m.2 <;> simp [Except.toOption]
  rw [not_hasBody_iff, bundleOf, Bundle.assemble_eq_error_iff, loaded, List.forall_mem_map]
  exact forall₂_congr fun m _ => hbody _

/-- A build that ends before its bundle is assembled reports why. -/
theorem lacksAll_of_assembled {error : BuildError} {log : Log} (hlacks : LacksModules error)
    (hsuccess : r.isSuccess = false)
    (h : assembled s o (outputPath s o) host (start s o world) =
      (.error (.build error), { world with log }, r)) : LacksAll s o host world := by
  have hsteps : steps s o (outputPath s o) host (start s o world) =
      (.error (.build error), { world with log }, r) := by
    rw [steps_eq_bind, Program.run_bind, h]
  have hrun : run s o host world = reported (.error (.build error), { world with log }, r) := by
    rw [run_eq, hsteps]
  exact ⟨_, _, hrun, hsuccess, ⟨error, rfl, hlacks⟩, rfl, rfl⟩

/-- If the settings and the change cache can be used, a build fails for want of modules exactly if there
are none or nothing is left of any. -/
theorem lacksAll_iff (hprepared : Prepared s world.tree) :
    LacksAll s o host world ↔ Module.files s world.tree = [] ∨ ¬ HasBody s world.tree := by
  obtain ⟨value, r, hdoes, hassembling⟩ :=
    exists_does_assembled s o world.tree (outputPath s o) (start s o world).2
  obtain ⟨log, hrun⟩ := hdoes host world rfl
  rw [← bundleOf_eq_error_iff (outputPath s o)]
  cases hassembling with
  | fault hfault => exact absurd hprepared hfault
  | noModules hfiles hsuccess =>
    exact iff_of_true (lacksAll_of_assembled .noModules hsuccess hrun) (.inl hfiles)
  | nothingLeft hfiles hbundle hsuccess =>
    exact iff_of_true (lacksAll_of_assembled .nothingLeft hsuccess hrun) (.inr hbundle)
  | bundle hfiles hbundle hpath hrecord =>
    refine iff_of_false ?_ ?_
    · rintro ⟨result, after, hresult, hfail, ⟨error, herror, hlacks⟩, -⟩
      obtain ⟨error', w, r', log', herror', -, hsteps⟩ := exists_error_of_run hresult hfail
      obtain rfl : error = error' := Option.some.inj (herror.symm.trans herror')
      cases (within_finish_of_assembled hrun).2 error (w, r') hsteps <;> cases hlacks
    · rintro (hnone | hnone)
      · exact hfiles hnone
      · cases hbundle.symm.trans hnone

/-- A build that has all it needs has a bundle, or it lacks modules. -/
theorem exists_assembled_of_not_lacksAll (hprepared : Prepared s world.tree) (h : ¬ LacksAll s o host world) :
    ∃ found state, assembled s o (outputPath s o) host (start s o world) = (.ok found, state) := by
  obtain ⟨value, r, hdoes, hassembling⟩ :=
    exists_does_assembled s o world.tree (outputPath s o) (start s o world).2
  obtain ⟨log, hrun⟩ := hdoes host world rfl
  cases hassembling with
  | fault hfault => exact absurd hprepared hfault
  | noModules _ hsuccess => exact absurd (lacksAll_of_assembled .noModules hsuccess hrun) h
  | nothingLeft _ _ hsuccess => exact absurd (lacksAll_of_assembled .nothingLeft hsuccess hrun) h
  | bundle => exact ⟨_, _, hrun⟩

/-! ### The result of a build -/

theorem Fate.congr (h : Fate s t bundle r m) (hskipped : r'.skipped = r.skipped)
    (hwarnings : r'.warnings = r.warnings) : Fate s t bundle r' m := by
  have hskip (path : String) : timesSkipped r' path = timesSkipped r path := by
    rw [timesSkipped, hwarnings, timesSkipped]
  have hdrop (path : String) : timesDropped r' path = timesDropped r path := by
    rw [timesDropped, hwarnings, timesDropped]
  cases h with
  | merged hm hbody hmem honce hnoskip hnodrop =>
    exact .merged hm hbody hmem honce ((hskip _).trans hnoskip) ((hdrop _).trans hnodrop)
  | skipped hm hbody hname hnomerge honce hnodrop =>
    exact .skipped hm hbody (hskipped ▸ hname) hnomerge ((hskip _).trans honce) ((hdrop _).trans hnodrop)
  | dropped hm hname hne hnomerge hnoskip honce =>
    exact .dropped hm hname hne hnomerge ((hskip _).trans hnoskip) ((hdrop _).trans honce)

theorem Conserves.congr (h : Conserves s t output bundle r) (hmerged : r'.merged = r.merged)
    (hskipped : r'.skipped = r.skipped) (hwarnings : r'.warnings = r.warnings) :
    Conserves s t output bundle r' where
  fate m hm := (h.fate m hm).congr hskipped hwarnings
  nodup := by
    rw [hmerged, hskipped]
    exact h.nodup
  names := by
    rw [hmerged, hskipped]
    exact h.names
  merged := hmerged.trans h.merged
  skipped := hskipped.trans h.skipped
  text := h.text

/-- The result of a run is what is on record in the end. -/
theorem conserves_of_run {result : Result} {after : World} (h : run s o host world = (.ok result, after))
    (hrecord : Conserves s t output bundle (recordOf s o host world)) :
    Conserves s t output bundle result := by
  rw [run_eq] at h
  rw [recordOf] at hrecord
  rcases hsteps : steps s o (outputPath s o) host (start s o world) with ⟨(error | fault) | done, w, r⟩ <;>
    rw [hsteps] at h hrecord
  · cases h
    exact hrecord.congr rfl rfl rfl
  · cases h
  · cases h
    exact hrecord.congr rfl rfl rfl

theorem read_of_written {w : World}
    (h : written s o (outputPath s o) host (start s o world) = (.ok found, w, r)) :
    w.tree.read (outputPath s o) = .ok (Utf8.encode found.2.text) := by
  have hwriting := writing_start host s o world
  rw [h] at hwriting
  cases hwriting with
  | bundle _ _ hhas =>
    obtain ⟨-, -, t, stamp, -, hwrite⟩ := hhas
    exact Tree.read_writeFile hwrite

/-- A build that has a bundle conserves the modules of its project: it writes the bundle, and its result
says what has become of each. A build whose settings and change cache can be used fails for want of modules
exactly if there are none or nothing is left of any. -/
theorem conserves_modules (s : Settings) (o : Options) (host : Host) (hwell : world.tree.root.WellNamed) :
    (∀ found state, assembled s o (outputPath s o) host (start s o world) = (.ok found, state) →
      Conserves s world.tree (outputPath s o) found.2 (recordOf s o host world) ∧
      (∀ w r, written s o (outputPath s o) host (start s o world) = (.ok found, w, r) →
        w.tree.read (outputPath s o) = .ok (Utf8.encode found.2.text)) ∧
      ∀ result after, run s o host world = (.ok result, after) →
        Conserves s world.tree (outputPath s o) found.2 result) ∧
    (Prepared s world.tree →
      (LacksAll s o host world ↔ Module.files s world.tree = [] ∨ ¬ HasBody s world.tree)) := by
  refine ⟨fun found state h => ?_, lacksAll_iff⟩
  have hrecord := conserves_of_assembled hwell h
  exact ⟨hrecord, fun w r => read_of_written, fun result after hrun => conserves_of_run hrun hrecord⟩

/-! ### Which fate it is -/

theorem Fate.timesDropped_eq (h : Fate s t bundle r m) (hm : m ∉ (Module.arranged s t).modules) :
    timesDropped r m.path.toString = 1 := by
  cases h with
  | merged hmem => exact absurd hmem hm
  | skipped hmem => exact absurd hmem hm
  | dropped _ _ _ _ _ honce => exact honce

/-- A module that is kept is not dropped for another one: they would have the same name. -/
theorem Fate.times_eq_of_mem (h : Fate s t bundle r m) (hm : m ∈ (Module.arranged s t).modules) :
    ((Module.bodyOf t m).isSome → timesMerged bundle m.path.toString = 1) ∧
      ((Module.bodyOf t m).isNone → timesSkipped r m.path.toString = 1) := by
  cases h with
  | merged _ hbody _ honce =>
    rw [hbody]
    exact ⟨fun _ => honce, nofun⟩
  | skipped _ hbody _ _ honce =>
    rw [hbody]
    exact ⟨nofun, fun _ => honce⟩
  | dropped hkept hname hne =>
    rw [arranged_modules] at hm hkept
    exact absurd (List.inj_on_of_nodup_map (Module.nodup_names_order _ _ _) hkept hm hname) hne

/-! ### A project in which modules are merged, skipped and dropped -/

/-- A folder with a module whose name is taken. -/
def libraryFolder : Node := .folder [("main.js", .file (Utf8.encode "b()".toList) 0)]

/-- Two modules to be merged, one that is no text and one that is blank, and a manifest that names two of
them. -/
def mixedFolder : Node := .folder
  [("a.js", .file (Utf8.encode "a()".toList) 0),
    ("bad.js", .file [0xff] 0),
    ("blank.js", .file (Utf8.encode " \n".toList) 0),
    ("build.order.txt", .file (Utf8.encode "main.js\nbad.js\n".toList) 0),
    ("lib", libraryFolder),
    ("main.js", .file (Utf8.encode "// ==UserScript==\n// ==/UserScript==\nc()".toList) 0)]

def mixedModules : World where
  tree := { root := .folder [("p", mixedFolder)], here := ⟨.slash, ["p"]⟩ }

/-- The module of a name in the project's own folder. -/
def inProject (name : String) : ModuleFile := ⟨name, ⟨.slash, ["p"]⟩⟩

theorem wellNamed_mixedModules : mixedModules.tree.root.WellNamed := by
  have hlibrary : libraryFolder.WellNamed :=
    .folder (by decide) (by decide) (List.forall_mem_singleton.2 .file)
  have hmixed : mixedFolder.WellNamed := by
    refine .folder (by decide) (by decide) ?_
    simp only [List.forall_mem_cons, List.not_mem_nil]
    exact ⟨.file, .file, .file, .file, hlibrary, .file, nofun⟩
  exact .folder (by decide) (by decide) (List.forall_mem_singleton.2 hmixed)

theorem files_mixedModules : Module.files plainSettings mixedModules.tree =
    ["a.js", "bad.js", "blank.js", "main.js"].map inProject ++ [⟨"main.js", ⟨.slash, ["p", "lib"]⟩⟩] := by
  -- All folders are sorted as they are, so the walk over them can be followed.
  have hmixed : mixedFolder.sorted = mixedFolder.entries := Module.sorted_eq_entries (by decide)
  have hlibrary : libraryFolder.sorted = libraryFolder.entries := Module.sorted_eq_entries (by decide)
  have hroot : plainSettings.sourceRoot mixedModules.tree = ⟨.slash, ["p"]⟩ := by decide +kernel
  have hfound : Module.files plainSettings mixedModules.tree =
      Module.walk (fun _ => true) plainSettings.moduleRule [(⟨.slash, ["p"]⟩, mixedFolder)] := by
    rw [Module.files, hroot]
    rfl
  have hhere : Module.inFolder plainSettings.moduleRule ⟨.slash, ["p"]⟩ mixedFolder =
      ["a.js", "bad.js", "blank.js", "main.js"].map inProject := by
    rw [Module.inFolder, hmixed]
    decide +kernel
  have hbelow : Module.inFolder plainSettings.moduleRule ⟨.slash, ["p", "lib"]⟩ libraryFolder =
      [⟨"main.js", ⟨.slash, ["p", "lib"]⟩⟩] := by
    rw [Module.inFolder, hlibrary]
    decide +kernel
  have hfolders : Module.subfolders ⟨.slash, ["p"]⟩ mixedFolder = [(⟨.slash, ["p", "lib"]⟩, libraryFolder)] := by
    rw [Module.subfolders, hmixed]
    rfl
  have hnone : Module.subfolders ⟨.slash, ["p", "lib"]⟩ libraryFolder = [] := by
    rw [Module.subfolders, hlibrary]
    rfl
  rw [hfound]
  simp only [Module.walk, if_true, hhere, hbelow, hfolders, hnone, List.append_nil]

theorem arranged_mixedModules : (Module.arranged plainSettings mixedModules.tree).modules =
    ["main.js", "bad.js", "a.js", "blank.js"].map inProject := by
  have hmanifest : (Module.manifestOf plainSettings mixedModules.tree).1 =
      some ⟨["main.js", "bad.js"], some ⟨.slash, ["p", "build.order.txt"]⟩⟩ := by decide +kernel
  have hbyName : Module.byName (Module.files plainSettings mixedModules.tree) =
      Module.files plainSettings mixedModules.tree := by
    rw [files_mixedModules]
    exact List.mergeSort_of_pairwise (by decide)
  rw [arranged_modules, hmanifest, Module.order, hbyName, files_mixedModules]
  decide +kernel

theorem prepared_mixedModules : Prepared plainSettings mixedModules.tree where
  uses := by decide +kernel
  cache := by
    refine ⟨{ path := plainSettings.cachePath }, fun log => ?_⟩
    have hnone : mixedModules.tree.has plainSettings.cachePath = false := by decide +kernel
    rw [loadCache, loadCacheWithin, hnone]
    rfl

/-- Of five modules two are merged, two are skipped and one is dropped. -/
theorem conserves_modules_mixed :
    let o : Options := { optimized := true }
    let r := recordOf plainSettings o bareHost mixedModules
    mixedModules.tree.root.WellNamed ∧ Prepared plainSettings mixedModules.tree ∧
      ¬ LacksAll plainSettings o bareHost mixedModules ∧
      ∃ bundle, Conserves plainSettings mixedModules.tree (outputPath plainSettings o) bundle r ∧
        r.merged = ["main.js", "a.js"] ∧ r.skipped = ["bad.js", "blank.js"] ∧
        (∀ path ∈ ["/p/main.js", "/p/a.js"], timesMerged bundle path = 1) ∧
        (∀ path ∈ ["/p/bad.js", "/p/blank.js"], timesSkipped r path = 1) ∧
        timesDropped r "/p/lib/main.js" = 1 := by
  intro o r
  have hconserves := conserves_modules plainSettings o bareHost wellNamed_mixedModules
  have hlacks : ¬ LacksAll plainSettings o bareHost mixedModules := by
    rw [hconserves.2 prepared_mixedModules, not_or, not_hasBody_iff, files_mixedModules, arranged_mixedModules]
    decide +kernel
  obtain ⟨found, state, hfound⟩ := exists_assembled_of_not_lacksAll prepared_mixedModules hlacks
  obtain ⟨hrecord, -⟩ := hconserves.1 found state hfound
  have hfate := hrecord.fate
  rw [files_mixedModules] at hfate
  -- What becomes of a module is settled by whether it is in the order, and whether anything is left of it.
  have hkept {name : String} (hname : name ∈ ["main.js", "bad.js", "a.js", "blank.js"]) :=
    (hfate (inProject name) (by revert name; decide)).times_eq_of_mem
      (by rw [arranged_mixedModules]; exact List.mem_map_of_mem hname)
  have hmerged : ∀ name ∈ ["main.js", "a.js"], timesMerged found.2 (inProject name).path.toString = 1 :=
    fun name hname => (hkept (by revert name; decide)).1 (by revert name; decide +kernel)
  have hskipped : ∀ name ∈ ["bad.js", "blank.js"], timesSkipped r (inProject name).path.toString = 1 :=
    fun name hname => (hkept (by revert name; decide)).2 (by revert name; decide +kernel)
  have hdropped := (hfate ⟨"main.js", ⟨.slash, ["p", "lib"]⟩⟩ (by decide)).timesDropped_eq
    (by rw [arranged_mixedModules]; decide)
  refine ⟨wellNamed_mixedModules, prepared_mixedModules, hlacks, found.2, hrecord, ?_, ?_, ?_, ?_, ?_⟩
  · rw [hrecord.merged, arranged_mixedModules]
    decide +kernel
  · rw [hrecord.skipped, arranged_mixedModules]
    decide +kernel
  · have hpaths : ["/p/main.js", "/p/a.js"] = ["main.js", "a.js"].map fun name => (inProject name).path.toString := by
      decide +kernel
    rw [hpaths, List.forall_mem_map]
    exact hmerged
  · have hpaths : ["/p/bad.js", "/p/blank.js"] =
        ["bad.js", "blank.js"].map fun name => (inProject name).path.toString := by decide +kernel
    rw [hpaths, List.forall_mem_map]
    exact hskipped
  · have hpath : (⟨"main.js", ⟨.slash, ["p", "lib"]⟩⟩ : ModuleFile).path.toString = "/p/lib/main.js" := by
      decide +kernel
    rwa [hpath] at hdropped

end Build

end Userscript
