import Userscript.Proofs.Build.Failing
import Userscript.Proofs.Build.Feedback

/-!
# The gate of a build

A build writes its bundle as it was assembled, and has it checked. Only a bundle that has passed the
check is linted, minified or optimized, and only a build that has come to its end writes the change
cache.

## Main definitions

* `Build.Approved`, `Build.LintDone` — the bundle has passed the check; linting has not stopped the
  build
* `Build.Course` — what a build starts and writes, in order
* `Build.ScratchIsFree` — the temporary folder is a new one

## Main results

* `course_written`, `course_checked`, `course_linted`, `course_shrunk` — the course of a build up to the
  end of a stage
* `exists_course` — every build takes this course
* `leaves_and_gates` — what a build leaves that has failed, and what comes before what in every build
-/

namespace Userscript.Build

variable {host : Host} {s : Settings} {o : Options} {output : Path} {world : World}
  {found : ChangeCache × Bundle}

/-- The bundle of a build has been written as it was assembled, and the check that followed has found no
fault. -/
def Approved (s : Settings) (o : Options) (host : Host) (world : World) : Prop :=
  ∃ found w r checker w' w'',
    written s o (outputPath s o) host (start s o world) = (.ok found, w, r) ∧
    Build.checker s host w = (.ok checker, w') ∧
    HasBundle (outputPath s o) found.2.text world w' ∧
    checker.check found.2.text (some (outputPath s o)) host w' = (.ok none, w'')

/-- Linting has been left out, or it has ended well, which it also does if there is no ESLint. -/
def LintDone (s : Settings) (o : Options) (host : Host) (world : World) : Prop :=
  o.lints = false ∨ ∃ found state state',
    checked s o (outputPath s o) host (start s o world) = (.ok found, state) ∧
    lint s (outputPath s o) host state = (.ok (), state')

/-- The files that are written once the bundle has passed the check: the bundle as it is in the end, and
the copy or the source map that goes with it. -/
inductive Transformed (s : Settings) (o : Options) : Path → Prop
  | bundle : Transformed s o (outputPath s o)
  | debugCopy {p : Path} : o.optimized → o.minify = false →
      debugCopy (outputPath s o) = .ok p → Transformed s o p
  | sourceMap {p : Path} : o.minify →
      (outputPath s o).withName? ((outputPath s o).name ++ ".map") = some p → Transformed s o p

/-- A run ends well. -/
def Succeeds (s : Settings) (o : Options) (host : Host) (world : World) : Prop :=
  ∃ result, (run s o host world).1 = .ok result ∧ result.isSuccess

/-- What a build starts and what it writes, in order: it checks, lints and minifies, and it writes its
bundle, what becomes of the bundle, and the change cache. -/
structure Course (s : Settings) (o : Options) (host : Host) (world after : World)
    (checks lints smalls : List Call) (bundle transformed cache : List Path) : Prop where
  calls : after.calls = world.calls ++ checks ++ lints ++ smalls
  written : after.written = world.written ++ bundle ++ transformed ++ cache
  isCheck : ∀ c ∈ checks, IsCheck c
  isEslint : ∀ c ∈ lints, Eslint.Called s.root c
  isTerser : ∀ c ∈ smalls, Terser.Called s.root c
  isBundle : bundle = [] ∨ bundle = [outputPath s o]
  isTransformed : ∀ p ∈ transformed, Transformed s o p
  isCache : ∀ p ∈ cache, p = s.cachePath
  lint_gate : lints ≠ [] → Approved s o host world
  minify_gate : smalls ≠ [] → Approved s o host world ∧ LintDone s o host world
  transform_gate : transformed ≠ [] → bundle = [outputPath s o] ∧ Approved s o host world ∧
    LintDone s o host world
  cache_gate : cache ≠ [] → Succeeds s o host world

/-- Nothing is started and nothing is written, but something may fail. -/
def quiet : Scope where
  calls _ := False
  written _ := False
  tree := Eq
  error _ := True
  tree_refl _ := rfl
  tree_trans := Eq.trans

/-- Some programs are started and some files written. -/
def tracing (calls : Call → Prop) (files : Path → Prop) : Scope where
  calls := calls
  written := files
  tree _ _ := True
  error _ := True
  tree_refl _ := trivial
  tree_trans _ _ := trivial

theorem admits_tracing {calls : Call → Prop} {files : Path → Prop} {p : Path} (h : files p) :
    (tracing calls files).Admits p :=
  ⟨h, fun _ => trivial, fun _ => trivial⟩

theorem admitsTools_tracing {calls : Call → Prop} {files : Path → Prop} :
    (tracing calls files).AdmitsTools host :=
  fun _ _ _ _ => trivial

/-- No file is written. -/
def noFile (_ : Path) : Prop := False

theorem HasBundle.of_quiet {text : Text} {w w' : World} (h : HasBundle output text world w)
    (hquiet : quiet.Allows w w') : HasBundle output text world w' := by
  obtain ⟨⟨calls, hcalls, hcall⟩, ⟨files, hfiles, hfile⟩, htree⟩ := hquiet
  rw [List.eq_nil_iff_forall_not_mem.2 hcall, List.append_nil] at hcalls
  rw [List.eq_nil_iff_forall_not_mem.2 hfile, List.append_nil] at hfiles
  exact ⟨hcalls.trans h.calls, hfiles.trans h.written, (show w.tree = w'.tree from htree) ▸ h.tree⟩

/-- A bundle that comes through the check has been found valid. -/
theorem verdict_of_validate {text : Text} {state state' : World × Result}
    (h : validate s output text host state = (.ok (), state')) : ∃ checker w' w'',
      Build.checker s host state.1 = (.ok checker, w') ∧
        checker.check text (some output) host w' = (.ok none, w'') := by
  rw [validate, Program.run_bind] at h
  -- Each step has ended well, or the check would not have.
  rcases hstage : Step.stage "validate" (Step.act (do
    let checker ← checker s
    checker.check text (some output))) host state with ⟨failure | verdict, mid⟩
  · rw [hstage] at h
    cases h
  · rw [hstage] at h
    cases verdict with
    | some fault => cases h
    | none =>
      rw [Step.stage, Step.act, Program.run_bind] at hstage
      rcases hchecker : Build.checker s host state.1 with ⟨failure | checker, w'⟩
      · rw [hchecker] at hstage
        cases hstage
      · rw [hchecker] at hstage
        dsimp only at hstage
        rcases hcheck : checker.check text (some output) host w' with ⟨result, w''⟩
        rw [hcheck] at hstage
        cases hstage
        exact ⟨checker, w', w'', rfl, hcheck⟩

theorem approved_of_checked {state : World × Result}
    (h : checked s o (outputPath s o) host (start s o world) = (.ok found, state)) :
    Approved s o host world := by
  obtain ⟨⟨w, r⟩, hwritten, hvalidate⟩ := followedBy_eq_ok_iff.1 h
  obtain ⟨checker, w', w'', hchecker, hcheck⟩ := verdict_of_validate hvalidate
  have hwriting := writing_start host s o world
  rw [hwritten] at hwriting
  have hquiet : quiet.Allows w w' := by
    have hwithin : (Build.checker s).Within host quiet := within_checker (fun _ => trivial) s
    have hallows := (hwithin w).1
    rwa [hchecker] at hallows
  cases hwriting with
  | bundle hbundle hpath hhas =>
    exact ⟨found, w, r, checker, w', w'', hwritten, hchecker, hhas.of_quiet hquiet, hcheck⟩

theorem lintDone_of_linted {state : World × Result}
    (h : linted s o (outputPath s o) host (start s o world) = (.ok found, state)) :
    LintDone s o host world := by
  obtain ⟨mid, hchecked, hlint⟩ := followedBy_eq_ok_iff.1 h
  cases hlints : o.lints with
  | false => exact .inl hlints
  | true =>
    rw [lintIf, hlints, if_pos rfl] at hlint
    exact .inr ⟨found, mid, state, hchecked, hlint⟩

/-! ### The course of a build -/

/-- What two stages leave: what the first leaves if it fails, and what the second leaves otherwise. -/
theorem snd_followedBy {α : Type} (first : Step α) (second : α → Step Unit) (state : World × Result) :
    (first.followedBy second host state).2 =
      match first host state with
      | (.error _, mid) => mid
      | (.ok value, mid) => (second value host mid).2 := by
  rw [run_followedBy]
  rcases first host state with ⟨failure | value, mid⟩
  · rfl
  · dsimp only
    rcases second value host mid with ⟨failure | done, last⟩ <;> rfl

/-- A stage starts some programs and writes some files. -/
theorem exists_of_tracing {step : Step Unit} {calls : Call → Prop} {files : Path → Prop}
    (h : step.Within host (tracing calls files)) (state : World × Result) : ∃ newCalls newFiles,
      (step host state).2.1.calls = state.1.calls ++ newCalls ∧ (∀ c ∈ newCalls, calls c) ∧
        (step host state).2.1.written = state.1.written ++ newFiles ∧ ∀ p ∈ newFiles, files p := by
  obtain ⟨⟨newCalls, hcalls, hcall⟩, ⟨newFiles, hfiles, hfile⟩, -⟩ := (h state).1.1
  exact ⟨newCalls, newFiles, hcalls, hcall, hfiles, hfile⟩

/-- A stage that writes no file. -/
theorem exists_of_tracing_noFile {step : Step Unit} {calls : Call → Prop}
    (h : step.Within host (tracing calls noFile)) (state : World × Result) : ∃ newCalls,
      (step host state).2.1.calls = state.1.calls ++ newCalls ∧ (∀ c ∈ newCalls, calls c) ∧
        (step host state).2.1.written = state.1.written := by
  obtain ⟨newCalls, newFiles, hcalls, hcall, hfiles, hfile⟩ := exists_of_tracing h state
  rw [List.eq_nil_iff_forall_not_mem.2 hfile, List.append_nil] at hfiles
  exact ⟨newCalls, hcalls, hcall, hfiles⟩

theorem within_validate_tracing (text : Text) :
    (validate s output text).Within host (tracing IsCheck noFile) :=
  within_validate (fun _ _ => IsCheck.mk) (fun _ => trivial) (fun _ _ => trivial) text

theorem within_lintIf_tracing :
    (lintIf s o output).Within host (tracing (Eslint.Called s.root) noFile) :=
  within_lintIf (fun _ h => h) admitsTools_tracing fun _ => trivial

theorem within_shrink_tracing (bundle : Bundle) : (shrink s o (outputPath s o) bundle).Within host
    (tracing (Terser.Called s.root) (Transformed s o)) :=
  within_shrink (fun _ h => h) admitsTools_tracing (fun _ => trivial)
    ⟨fun _ => trivial, fun _ => trivial, fun _ => trivial⟩ (admits_tracing .bundle)
    (fun hoptimized hplain _ hcopy => admits_tracing (.debugCopy hoptimized hplain hcopy))
    (fun hminify _ hmap => admits_tracing (.sourceMap hminify hmap)) bundle

section course

variable (s : Settings) (o : Options) (host : Host) (world : World)

theorem course_written : ∃ bundle,
    Course s o host world (written s o (outputPath s o) host (start s o world)).2.1 [] [] [] bundle [] [] ∧
      ∀ found mid, written s o (outputPath s o) host (start s o world) = (.ok found, mid) →
        bundle = [outputPath s o] := by
  have hwriting := writing_start host s o world
  -- Nothing has been started yet, so there is nothing to be asked of the later stages.
  have hcourse (w : World) (bundle : List Path) (hcalls : w.calls = world.calls)
      (hfiles : w.written = world.written ++ bundle) (hbundle : bundle = [] ∨ bundle = [outputPath s o]) :
      Course s o host world w [] [] [] bundle [] [] :=
    { calls := by simpa using hcalls
      written := by simpa using hfiles
      isCheck := nofun
      isEslint := nofun
      isTerser := nofun
      isBundle := hbundle
      isTransformed := nofun
      isCache := nofun
      lint_gate := (absurd rfl ·)
      minify_gate := (absurd rfl ·)
      transform_gate := (absurd rfl ·)
      cache_gate := (absurd rfl ·) }
  rcases hrun : written s o (outputPath s o) host (start s o world) with ⟨ended, w, r⟩
  rw [hrun] at hwriting
  cases hwriting with
  | fault hcalls hfiles =>
    exact ⟨[], hcourse w [] hcalls (by simpa using hfiles) (.inl rfl), fun _ _ h => by cases h⟩
  | lacksModules hlacks hcalls hfiles htree =>
    exact ⟨[], hcourse w [] hcalls (by simpa using hfiles) (.inl rfl), fun _ _ h => by cases h⟩
  | bundle hbundle hpath hhas =>
    exact ⟨_, hcourse w _ hhas.calls hhas.written (.inr rfl), fun _ _ _ => rfl⟩

theorem course_checked : ∃ checks bundle,
    Course s o host world (checked s o (outputPath s o) host (start s o world)).2.1
        checks [] [] bundle [] [] ∧
      ∀ found mid, checked s o (outputPath s o) host (start s o world) = (.ok found, mid) →
        bundle = [outputPath s o] := by
  obtain ⟨bundle, hcourse, hbundle⟩ := course_written s o host world
  have hok {found mid} (h : checked s o (outputPath s o) host (start s o world) = (.ok found, mid)) :
      bundle = [outputPath s o] := by
    obtain ⟨mid', h, -⟩ := followedBy_eq_ok_iff.1 h
    exact hbundle found mid' h
  rw [checked, snd_followedBy]
  rcases hwritten : written s o (outputPath s o) host (start s o world) with ⟨failure | found, mid⟩ <;>
    rw [hwritten] at hcourse
  · exact ⟨[], bundle, hcourse, fun _ _ => hok⟩
  · obtain ⟨checks, hcalls, hcheck, hfiles⟩ := exists_of_tracing_noFile
      (within_validate_tracing found.2.text) mid
    refine ⟨checks, bundle, { hcourse with
      calls := ?_
      written := hfiles.trans hcourse.written
      isCheck := hcheck }, fun _ _ => hok⟩
    rw [hcalls, show mid.1.calls = _ from hcourse.calls]
    simp

theorem course_linted : ∃ checks lints bundle,
    Course s o host world (linted s o (outputPath s o) host (start s o world)).2.1
        checks lints [] bundle [] [] ∧
      ∀ found mid, linted s o (outputPath s o) host (start s o world) = (.ok found, mid) →
        bundle = [outputPath s o] ∧ Approved s o host world := by
  obtain ⟨checks, bundle, hcourse, hbundle⟩ := course_checked s o host world
  have hok {found mid} (h : linted s o (outputPath s o) host (start s o world) = (.ok found, mid)) :
      bundle = [outputPath s o] ∧ Approved s o host world := by
    obtain ⟨mid', h, -⟩ := followedBy_eq_ok_iff.1 h
    exact ⟨hbundle found mid' h, approved_of_checked h⟩
  rw [linted, snd_followedBy]
  rcases hchecked : checked s o (outputPath s o) host (start s o world) with ⟨failure | found, mid⟩ <;>
    rw [hchecked] at hcourse
  · exact ⟨checks, [], bundle, hcourse, fun _ _ => hok⟩
  · obtain ⟨lints, hcalls, hlint, hfiles⟩ := exists_of_tracing_noFile
      within_lintIf_tracing mid
    refine ⟨checks, lints, bundle, { hcourse with
      calls := ?_
      written := hfiles.trans hcourse.written
      isEslint := hlint
      lint_gate := fun _ => approved_of_checked hchecked }, fun _ _ => hok⟩
    rw [hcalls, show mid.1.calls = _ from hcourse.calls]
    simp

theorem course_shrunk : ∃ checks lints smalls bundle transformed,
    Course s o host world (shrunk s o (outputPath s o) host (start s o world)).2.1
      checks lints smalls bundle transformed [] := by
  obtain ⟨checks, lints, bundle, hcourse, hbundle⟩ := course_linted s o host world
  rw [shrunk, snd_followedBy]
  rcases hlinted : linted s o (outputPath s o) host (start s o world) with ⟨failure | found, mid⟩ <;>
    rw [hlinted] at hcourse
  · exact ⟨checks, lints, [], bundle, [], hcourse⟩
  · obtain ⟨hwritten, happroved⟩ := hbundle found mid hlinted
    have hdone := lintDone_of_linted hlinted
    obtain ⟨smalls, transformed, hcalls, hsmall, hfiles, hfile⟩ :=
      exists_of_tracing (within_shrink_tracing found.2) mid
    -- What is started or written here comes after an approved bundle that is linted, if it is to be.
    refine ⟨checks, lints, smalls, bundle, transformed, { hcourse with
      calls := ?_
      written := ?_
      isTerser := hsmall
      isTransformed := hfile
      minify_gate := fun _ => ⟨happroved, hdone⟩
      transform_gate := fun _ => ⟨hwritten, happroved, hdone⟩ }⟩
    · rw [hcalls, show mid.1.calls = _ from hcourse.calls]
      simp
    · rw [hfiles, show mid.1.written = _ from hcourse.written]
      simp

end course

/-- The change cache is written and the build ends well, or nothing is written. -/
theorem saveCache_cases (host : Host) (cache : ChangeCache) (w : World) : ∃ result w',
    saveCache cache host w = (result, w') ∧ w'.calls = w.calls ∧
      (w'.written = w.written ∧ w'.tree = w.tree ∨
        w'.written = w.written ++ [cache.path] ∧ result = .ok { cache with lastBuild := host.clock } ∧
          w.tree.writeFile cache.path (Utf8.encode { cache with lastBuild := host.clock }.encode)
            w.nextStamp = .ok w'.tree) := by
  cases hnul : cache.path.hasNul with
  | true =>
    have hfails : saveCache cache host w = (.error (.fault .nulInPath), w) := by
      unfold saveCache
      simp only [Action.writeBytes, Action.demandPath, hnul]
      rfl
    exact ⟨_, _, hfails, rfl, .inl ⟨rfl, rfl⟩⟩
  | false =>
    refine ⟨_, _, run_saveCache hnul host w, ?_⟩
    cases w.tree.writeFile cache.path (Utf8.encode { cache with lastBuild := host.clock }.encode) w.nextStamp with
    | ok tree => exact ⟨rfl, .inr ⟨rfl, rfl, rfl⟩⟩
    | error fault => exact ⟨rfl, .inl ⟨rfl, rfl⟩⟩

theorem succeeds_of_steps {state : World × Result}
    (h : steps s o (outputPath s o) host (start s o world) = (.ok (), state)) :
    Succeeds s o host world := by
  rw [Succeeds, run_eq, h]
  exact ⟨_, rfl, rfl⟩

/-- A build starts and writes things in one order, and only once what comes before has ended well. -/
theorem exists_course (s : Settings) (o : Options) (host : Host) (world : World) :
    ∃ checks lints smalls bundle transformed cache,
      Course s o host world (run s o host world).2 checks lints smalls bundle transformed cache := by
  obtain ⟨checks, lints, smalls, bundle, transformed, hcourse⟩ := course_shrunk s o host world
  obtain ⟨log, hrun⟩ := exists_run_eq s o host world
  rw [hrun]
  have hsteps : steps s o (outputPath s o) host (start s o world) = _ :=
    (congrFun (congrFun steps_eq host) (start s o world)).trans (Program.run_bind _ _ _ _)
  rcases hshrunk : shrunk s o (outputPath s o) host (start s o world) with ⟨failure | found, mid⟩ <;>
    rw [hshrunk] at hcourse hsteps
  · rw [hsteps]
    exact ⟨checks, lints, smalls, bundle, transformed, [],
      { hcourse with calls := hcourse.calls, written := hcourse.written }⟩
  · obtain ⟨w, r⟩ := mid
    -- Saving the cache comes last, and the cache is written or it is not.
    obtain ⟨result, w', hsave, hcalls, hwritten⟩ := saveCache_cases host found.1 w
    rw [cachePath_of_gives_shrunk ⟨_, _, hshrunk⟩] at hwritten
    have hlast : (steps s o (outputPath s o) host (start s o world)) =
        ((result.map fun _ => ()), w', r) := by
      rw [hsteps]
      dsimp only
      rw [Program.run_bind, Step.act, hsave]
      cases result <;> rfl
    rw [hlast]
    rcases hwritten with ⟨hwritten, -⟩ | ⟨hwritten, rfl, -⟩
    · exact ⟨checks, lints, smalls, bundle, transformed, [], { hcourse with
        calls := hcalls.trans hcourse.calls
        written := hwritten.trans hcourse.written }⟩
    · refine ⟨checks, lints, smalls, bundle, transformed, [s.cachePath], { hcourse with
        calls := hcalls.trans hcourse.calls
        written := ?_
        isCache := by simp
        cache_gate := fun _ => succeeds_of_steps hlast }⟩
      rw [hwritten, show w.written = _ from hcourse.written]
      simp

/-- Once its bundle is written, nothing stands where the host makes its temporary folder. -/
def ScratchIsFree (s : Settings) (o : Options) (host : Host) (world : World) : Prop :=
  ∀ found w r, written s o (outputPath s o) host (start s o world) = (.ok found, w, r) →
    w.tree.IsFree host.scratch

/-- A build that writes its change cache has ended well. -/
theorem succeeds_of_cache_mem (hcache : ¬ Transformed s o s.cachePath)
    (h : s.cachePath ∈ filesWritten s o host world) : Succeeds s o host world := by
  obtain ⟨checks, lints, smalls, bundle, transformed, cache, hcourse⟩ := exists_course s o host world
  refine hcourse.cache_gate ?_
  rintro rfl
  rw [filesWritten, hcourse.written, List.append_nil, List.append_assoc, List.drop_left,
    List.mem_append] at h
  rcases h with h | h
  · rcases hcourse.isBundle with rfl | rfl
    · cases h
    · exact hcache (List.mem_singleton.1 h ▸ .bundle)
  · exact hcache (hcourse.isTransformed _ h)

/-- A build that fails leaves its bundle as it was assembled, or nothing if there was nothing to be
merged. Every build checks its bundle before anything else is done with it, and writes the change cache
only when all else has ended well. -/
theorem leaves_and_gates (haside : KeepsAside host) (hfree : ScratchIsFree s o host world)
    (hname : '/' ∉ (outputPath s o).name.toList) (hcache : ¬ Transformed s o s.cachePath) :
    (∀ result after, run s o host world = (.ok result, after) → result.isSuccess = false →
      (∃ error, result.error = some error ∧ LacksModules error) ∧ LeavesNothing world after ∨
        ∃ error bundle warnings, result.error = some error ∧ Stopped error ∧
          bundleOf s world.tree (outputPath s o) = .ok (bundle, warnings) ∧
          LeavesBundle host (outputPath s o) bundle.text world after) ∧
    (∃ checks lints smalls bundle transformed cache,
      Course s o host world (run s o host world).2 checks lints smalls bundle transformed cache) ∧
    (s.cachePath ∈ filesWritten s o host world → Succeeds s o host world) :=
  ⟨fun _ _ hrun hfail => leaves_of_run haside hname hfree hrun hfail, exists_course s o host world,
    succeeds_of_cache_mem hcache⟩

/-- Without Terser, a bundle that is to be minified stays as it was assembled. -/
theorem leaves_and_gates_noTerser :
    let o : Options := { minify := true }
    let output : Path := ⟨.slash, ["p", "bundle.user.js"]⟩
    KeepsAside bareHost ∧ ScratchIsFree plainSettings o bareHost oneModule ∧
      ¬ Transformed plainSettings o plainSettings.cachePath ∧
      ∃ result after, run plainSettings o bareHost oneModule = (.ok result, after) ∧
        result.isSuccess = false ∧ ∃ bundle warnings,
          bundleOf plainSettings oneModule.tree output = .ok (bundle, warnings) ∧
            LeavesBundle bareHost output bundle.text oneModule after := by
  intro o output
  have haside : KeepsAside bareHost := fun _ _ => nofun
  have houtput : outputPath plainSettings o = output := by decide +kernel
  have hfree : ScratchIsFree plainSettings o bareHost oneModule := by
    intro found w r hwritten
    obtain ⟨hnothing, hparent⟩ :
        (written plainSettings o (outputPath plainSettings o) bareHost
          (start plainSettings o oneModule)).2.1.tree.faceAt ["scratch"] = none ∧
        (written plainSettings o (outputPath plainSettings o) bareHost
          (start plainSettings o oneModule)).2.1.tree.faceAt [] = some .folder := by
      decide +kernel
    rw [hwritten] at hnothing hparent
    exact ⟨rfl, by decide, hnothing, hparent⟩
  have hcache : ¬ Transformed plainSettings o plainSettings.cachePath := by
    have hne : plainSettings.cachePath ≠ output := by decide +kernel
    have hmap : output.withName? (output.name ++ ".map") ≠ some plainSettings.cachePath := by
      decide +kernel
    intro h
    generalize hp : plainSettings.cachePath = p at h
    cases h with
    | bundle => exact hne (hp.trans houtput)
    | debugCopy hoptimized => cases hoptimized
    | sourceMap _ h => exact hmap (houtput ▸ hp ▸ h)
  obtain ⟨hfail, hfiles⟩ :
      ((run plainSettings o bareHost oneModule).1.map (·.isSuccess)).toOption = some false ∧
        (run plainSettings o bareHost oneModule).2.written = [output] := by
    decide +kernel
  refine ⟨haside, hfree, hcache, ?_⟩
  rcases hrun : run plainSettings o bareHost oneModule with ⟨failure | result, after⟩ <;>
    rw [hrun] at hfail hfiles
  · cases hfail
  · have hfail : result.isSuccess = false := Option.some.inj hfail
    refine ⟨result, after, rfl, hfail, ?_⟩
    rcases (leaves_and_gates haside hfree (by rw [houtput]; decide) hcache).1 result after hrun hfail with
      ⟨-, hnothing⟩ | ⟨error, bundle, warnings, -, -, hbundle, hleaves⟩
    · cases hfiles.symm.trans hnothing.written
    · rw [houtput] at hbundle hleaves
      exact ⟨bundle, warnings, hbundle, hleaves⟩

end Userscript.Build
