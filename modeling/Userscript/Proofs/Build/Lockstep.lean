import Userscript.Proofs.Build.Assembling
import Userscript.Proofs.Build.Steps
import Userscript.Proofs.Build.Written
import Userscript.Proofs.Tool.Renaming

/-!
# Builds in lockstep

Two builds that have assembled the same bundle go on alike, in worlds that are alike but for the files that
builds leave: the same is added to what is on record, and the same files are written with the same contents,
apart from the change cache.

## Main definitions

* `Build.AddsAlike` — the same has been added to two records
* `Build.Along` — two builds have gone on alike
* `Build.present`, `Build.inspect`, `Build.settle` — what comes after the bundle is assembled

## Main results

* `lockstep_writeBundle` — writing the bundle
* `lockstep_inspect`, `lockstepAt_settle` — the steps after it
-/

namespace Userscript

namespace Build

variable {α : Type} {host host' : Host} {gap : Gap} {rel : World → World → Prop}
  {r₀ r₀' r r' u u' : Result} {s : Settings} {o : Options} {output : Path}

/-- What is on record apart from the warnings, the number of changed modules and where the header comes from. -/
def Result.core (r : Result) : Result := { r with changed := 0, warnings := [], headerSource := none }

/-- The same has been added to two records. -/
structure AddsAlike (r₀ r₀' r r' : Result) : Prop where
  core : r'.core = r.core
  warnings : ∃ new, r.warnings = r₀.warnings ++ new ∧ r'.warnings = r₀'.warnings ++ new
  headerSource : r.headerSource = r₀.headerSource
  headerSource' : r'.headerSource = r₀'.headerSource

namespace AddsAlike

theorem refl (h : r₀'.core = r₀.core) : AddsAlike r₀ r₀' r₀ r₀' := ⟨h, ⟨[], by simp, by simp⟩, rfl, rfl⟩

/-- The same has been put on record, other than warnings. -/
theorem of_core (h : AddsAlike r₀ r₀' r r') (hcore : u'.core = u.core) (hwarnings : u.warnings = r.warnings)
    (hwarnings' : u'.warnings = r'.warnings) (hheader : u.headerSource = r.headerSource)
    (hheader' : u'.headerSource = r'.headerSource) : AddsAlike r₀ r₀' u u' where
  core := hcore
  warnings := by
    obtain ⟨new, hnew, hnew'⟩ := h.warnings
    exact ⟨new, hwarnings.trans hnew, hwarnings'.trans hnew'⟩
  headerSource := hheader.trans h.headerSource
  headerSource' := hheader'.trans h.headerSource'

theorem warn (h : AddsAlike r₀ r₀' r r') (w : Warning) :
    AddsAlike r₀ r₀' { r with warnings := r.warnings ++ [w] } { r' with warnings := r'.warnings ++ [w] } where
  core := h.core
  warnings := by
    obtain ⟨new, hnew, hnew'⟩ := h.warnings
    exact ⟨new ++ [w], by simp [hnew], by simp [hnew']⟩
  headerSource := h.headerSource
  headerSource' := h.headerSource'

end AddsAlike

/-- The bundle is checked, and linted if that is wanted. -/
def inspect (s : Settings) (o : Options) (output : Path) (text : Text) : Step Unit := do
  validate s output text
  lintIf s o output

/-- Two builds have gone on alike: their worlds are related, and the same has been put on record. -/
def Along (rel : World → World → Prop) (r₀ r₀' : Result) (state state' : World × Result) : Prop :=
  rel state.1 state'.1 ∧ AddsAlike r₀ r₀' state.2 state'.2

/-! ### Steps -/

section Calm

variable [Calm rel]

/-- Steps that only read, and give the same, are in lockstep. -/
theorem lockstep_of_does {step step' : Step α} {value : Except Failure α}
    (h : ∀ t r, Does t r step value r) (h' : ∀ t r, Does t r step' value r) :
    Lockstep host host' (Along rel r₀ r₀') step step' := by
  rintro ⟨w, r⟩ ⟨w', r'⟩ ⟨hworld, hrecord⟩
  obtain ⟨log, hrun⟩ := h w.tree r host w rfl
  obtain ⟨log', hrun'⟩ := h' w'.tree r' host' w' rfl
  rw [LockstepAt, hrun, hrun']
  exact ⟨rfl, Calm.of_eq hworld rfl rfl rfl rfl, hrecord⟩

omit [Calm rel] in
theorem lockstepAt_act {action action' : Action α} {state state' : World × Result}
    (h : LockstepAt host host' rel action action' state.1 state'.1) (hrecord : AddsAlike r₀ r₀' state.2 state'.2) :
    LockstepAt host host' (Along rel r₀ r₀') (Step.act action) (Step.act action') state state' :=
  ⟨h.1, h.2, hrecord⟩

omit [Calm rel] in
theorem lockstep_act {action action' : Action α} (h : Lockstep host host' rel action action') :
    Lockstep host host' (Along rel r₀ r₀') (Step.act action) (Step.act action') :=
  fun _ _ hrel => lockstepAt_act (h _ _ hrel.1) hrel.2

theorem lockstep_note (level : Log.Level) (message message' : String) :
    Lockstep host host' (Along rel r₀ r₀') (Step.note level message) (Step.note level message') :=
  lockstep_act (Action.lockstep_note _ _ _ _)

omit [Calm rel] in
theorem lockstep_record {f : Result → Result}
    (h : ∀ r r', AddsAlike r₀ r₀' r r' → AddsAlike r₀ r₀' (f r) (f r')) :
    Lockstep host host' (Along rel r₀ r₀') (Step.record f) (Step.record f) :=
  .modify fun _ _ hrel => ⟨hrel.1, h _ _ hrel.2⟩

theorem lockstepAt_stage {step step' : Step α} {state state' : World × Result} (name : String)
    (h : LockstepAt host host' (Along rel r₀ r₀') step step' state state') :
    LockstepAt host host' (Along rel r₀ r₀') (Step.stage name step) (Step.stage name step') state state' := by
  obtain ⟨hvalue, hworld, hrecord⟩ := h
  refine ⟨hvalue, Calm.of_eq hworld rfl rfl rfl rfl, hrecord.of_core ?_ rfl rfl rfl rfl⟩
  exact congrArg (fun r : Result => { r with stages := r.stages ++ [name] }) hrecord.core

theorem lockstep_stage {step step' : Step α} (name : String)
    (h : Lockstep host host' (Along rel r₀ r₀') step step') :
    Lockstep host host' (Along rel r₀ r₀') (Step.stage name step) (Step.stage name step') :=
  fun _ _ hrel => lockstepAt_stage name (h _ _ hrel)

/-! ### Checking and linting -/

theorem lockstep_checker (hwhich : host'.which = host.which) (s : Settings) :
    Lockstep host host' rel (checker s) (checker s) := by
  unfold checker
  refine .bind (Action.lockstep_demand _ _) fun _ =>
    .tryCatch (Checker.lockstep_ofName hwhich _ _) fun failure => ?_
  split
  · exact .throw _
  · exact .throw _

variable {stale : List String → Prop} (hanswers : host.Answers stale rel host')

include hanswers

theorem lockstep_validate (houtput : output.ClearOf stale) {text : Text}
    (hparse : host'.parse text = host.parse text) :
    Lockstep host host' (Along rel r₀ r₀') (validate s output text) (validate s output text) := by
  have hpath (p : Path) (hp : some output = some p) : p.ClearOf stale := Option.some.inj hp ▸ houtput
  unfold validate
  refine .bind (lockstep_stage _ (lockstep_act (.bind (lockstep_checker hanswers.which s) fun checker =>
    Checker.lockstep_check hanswers checker hparse hpath))) fun verdict => ?_
  split
  · exact .throw _
  · exact .pure _

variable (hbesides : Tool.FoundBesides stale s.root)

include hbesides

omit [Calm rel] in
theorem lockstep_eslint : Lockstep host host' rel (eslint s) (eslint s) := by
  refine .bind_read (.bind_get fun w w' hrel => ?_)
  rw [Tool.find?_eq hanswers.which hbesides (hanswers.alike _ _ hrel) (by decide)]
  exact .pure _

theorem lockstep_lint : Lockstep host host' (Along rel r₀ r₀') (lint s output) (lint s output) := by
  unfold lint
  refine .bind (lockstep_stage _ (lockstep_act
    (.bind_of_gives (lockstep_eslint hanswers hbesides) fun eslint hgives => ?_))) fun linted => ?_
  · exact eslint.lockstep_run hanswers (root_of_gives_eslint hgives ▸ hbesides) output
  · extract_lets warning
    exact .ite (lockstep_record fun r r' h => h.warn warning) (.pure _)

theorem lockstep_lintIf :
    Lockstep host host' (Along rel r₀ r₀') (lintIf s o output) (lintIf s o output) :=
  .ite (lockstep_lint hanswers hbesides) (.pure ())

/-- The bundle is checked and linted, and that is all the same in related worlds. -/
theorem lockstep_inspect (houtput : output.ClearOf stale) {text : Text}
    (hparse : host'.parse text = host.parse text) :
    Lockstep host host' (Along rel r₀ r₀') (inspect s o output text) (inspect s o output text) :=
  .bind (lockstep_validate hanswers houtput hparse) fun _ => lockstep_lintIf hanswers hbesides

end Calm

/-! ### Writing -/

theorem lockstep_writeBundle (houtput : output.StandsClear gap.stale)
    (bundle : Bundle) :
    Lockstep host host' (Along (Abreast gap) r₀ r₀') (writeBundle output bundle) (writeBundle output bundle) := by
  unfold writeBundle
  refine .bind (lockstep_stage _ (lockstep_act (Action.lockstep_writeText houtput _))) fun size =>
    .bind (lockstep_record fun r r' h => h.of_core ?_ rfl rfl rfl rfl) fun _ =>
    .bind (lockstep_note _ _ _) fun _ => .bind_get fun state state' hrel => ?_
  · exact congrArg (fun r : Result => { r with bundleSize := size, finalSize := size }) h.core
  · -- The warnings that are noted may be different, but nothing is noted elsewhere than in the log.
    exact lockstep_of_does (fun t r => .forM (fun _ => .note _ _) _) fun t r => .forM (fun _ => .note _ _) _

theorem lockstep_replaceBundle (houtput : output.StandsClear gap.stale)
    (text : Text) (word : String) : Lockstep host host' (Along (Abreast gap) r₀ r₀')
      (replaceBundle output text word) (replaceBundle output text word) := by
  unfold replaceBundle
  refine .bind (lockstep_act (Action.lockstep_writeText houtput _)) fun size =>
    .bind (lockstep_record fun r r' h => h.of_core ?_ rfl rfl rfl rfl) fun _ =>
    .bind_get fun state state' hrel => ?_
  · exact congrArg (fun r : Result => { r with finalSize := size }) h.core
  · -- What was saved is a function of the sizes on record.
    have hsavings : savings state'.2 = savings state.2 := by
      change savings state'.2.core = savings state.2.core
      rw [hrel.2.core]
    rw [hsavings]
    refine .bind ?_ fun saved => lockstep_note _ _ _
    unfold savings
    split
    · exact .pure _
    · exact .throw _

/-! ### Shrinking -/

theorem lockstep_keepSmall (houtput : output.StandsClear gap.stale)
    (hmap : ∀ map, output.withName? (output.name ++ ".map") = some map → map.StandsClear gap.stale)
    (small : Terser.Output) :
    Lockstep host host' (Along (Abreast gap) r₀ r₀') (keepSmall output small) (keepSmall output small) := by
  unfold keepSmall
  extract_lets code done
  have hdone (r : Unit) : Lockstep host host' (Along (Abreast gap) r₀ r₀') (done r) (done r) :=
    lockstep_replaceBundle houtput _ _
  split
  · split
    · exact .bind (.throw _) hdone
    · next path heq =>
      refine .bind (lockstep_record fun r r' h => h.of_core ?_ rfl rfl rfl rfl) fun _ =>
        .bind (lockstep_act (Action.lockstep_writeText (hmap path heq) _)) fun _ =>
        .bind (lockstep_note _ _ _) hdone
      exact congrArg (fun r : Result => { r with sourceMap := some path }) h.core
  · exact hdone ()

theorem lockstep_optimize (houtput : output.StandsClear gap.stale)
    (hcopy : ∀ copy, debugCopy output = .ok copy → copy.StandsClear gap.stale) (bundle : Bundle) :
    Lockstep host host' (Along (Abreast gap) r₀ r₀') (optimize s output bundle) (optimize s output bundle) := by
  unfold optimize
  extract_lets ctx unfit copied
  have hcopied {copy : Path} (hclear : copy.StandsClear gap.stale) :
      Lockstep host host' (Along (Abreast gap) r₀ r₀') (copied copy) (copied copy) := by
    refine .bind (lockstep_record fun r r' h => h.of_core ?_ rfl rfl rfl rfl) fun _ =>
      .bind (lockstep_act (Action.lockstep_writeText hclear _)) fun _ =>
      .bind (lockstep_note _ _ _) fun _ => .bind (lockstep_note _ _ _) fun _ => ?_
    · exact congrArg (fun r : Result => { r with debugCopy := some copy }) h.core
    · split
      · exact .throw _
      · exact .bind (lockstep_note _ _ _) fun _ => lockstep_replaceBundle houtput _ _
  split
  · next copy heq =>
    refine .bind_of_gives (.pure _) fun copy' hgives => hcopied ?_
    rw [hgives.eq_of_pure]
    exact hcopy copy heq
  · exact .bind_of_gives (.throw _) fun copy ⟨_, _, hgives⟩ => by cases hgives

theorem snd_terser (s : Settings) (host : Host) (w : World) : (terser s host w).2 = w := by
  unfold terser Settings.demand
  rw [Program.run_bind]
  cases s.fault? .reservedNames <;> rfl

section minify

variable {w w' : World} (hagrees : host.Agrees gap.stale gap.here host')
  (hrenames : host.RenamesScratch gap.stale output.name host') (hbesides : Tool.FoundBesides gap.stale s.root)
  (hname : Path.IsName output.name) (hnul : '\x00' ∉ output.name.toList) (hrel : Abreast gap w w')
  (hnew : host.ScratchIsNew w.tree) (hnew' : host'.ScratchIsNew w'.tree)

include hagrees hrenames hbesides hname hnul hrel hnew hnew'

theorem lockstepAt_runTerser (bundle : Bundle) : LockstepAt host host' (Abreast gap)
    (runTerser s o output bundle) (runTerser s o output bundle) w w' := by
  have hterser : Lockstep host host' (Abreast gap) (terser s) (terser s) := by
    refine .bind (Action.lockstep_demand _ _) fun _ => .bind_read (.bind_get fun w w' hrel => ?_)
    rw [Tool.find?_eq hagrees.which hbesides hrel.alike (by decide)]
    exact .pure _
  refine (hterser w w' hrel).bind fun found mid mid' hrun hrun' hrel => ?_
  -- To look for Terser changes nothing, so the folders are still new.
  obtain rfl : mid = w := by rw [← snd_terser s host w, hrun]
  obtain rfl : mid' = w' := by rw [← snd_terser s host' w', hrun']
  exact Terser.lockstepAt_minify hname hnul hrenames hagrees.bypasses hrel hnew hnew' found _ _ _ _

theorem lockstepAt_minify (houtput : output.StandsClear gap.stale)
    (hmap : ∀ map, output.withName? (output.name ++ ".map") = some map → map.StandsClear gap.stale)
    (hrecord : AddsAlike r₀ r₀' r r') (bundle : Bundle) :
    LockstepAt host host' (Along (Abreast gap) r₀ r₀') (minify s o output bundle) (minify s o output bundle)
      (w, r) (w', r') := by
  rw [minify_eq]
  have hterser := lockstepAt_runTerser (o := o) hagrees hrenames hbesides hname hnul hrel hnew hnew' bundle
  exact (lockstepAt_act hterser hrecord).bind fun small mid mid' _ _ hmid =>
    lockstep_keepSmall houtput hmap small mid mid' hmid

end minify

/-- The bundle is made small alike, if it is minified alike where that is wanted. -/
theorem lockstepAt_shrink {bundle : Bundle} {state state' : World × Result} (houtput : output.StandsClear gap.stale)
    (hcopy : ∀ copy, debugCopy output = .ok copy → copy.StandsClear gap.stale)
    (hminify : o.minify → LockstepAt host host' (Along (Abreast gap) r₀ r₀')
      (minify s o output bundle) (minify s o output bundle) state state')
    (hrel : Along (Abreast gap) r₀ r₀' state state') :
    LockstepAt host host' (Along (Abreast gap) r₀ r₀') (shrink s o output bundle) (shrink s o output bundle)
      state state' := by
  unfold shrink
  split
  · next hwanted => exact lockstepAt_stage _ (hminify hwanted)
  · have hoptimize : Lockstep host host' (Along (Abreast gap) r₀ r₀') (optimize s output bundle)
        (optimize s output bundle) := lockstep_optimize houtput hcopy bundle
    exact Lockstep.ite (lockstep_stage _ hoptimize) (.pure ()) state state' hrel

/-! ### The change cache, and all stages after the bundle -/

theorem act_void (action : Action α) :
    (do let _ ← Step.act action : Step Unit) = Step.act (do let _ ← action) := by
  funext host ⟨w, r⟩
  rw [Program.run_bind, Step.act, Step.act, Program.run_bind]
  rcases action host w with ⟨failure | value, w'⟩ <;> rfl

/-- The change cache is written by both builds, or by none. The caches need not be the same. -/
theorem lockstep_saveCache {cache cache' : ChangeCache} (hpath : cache'.path = cache.path)
    (hclear : cache.path.StandsClear gap.stale) (hstale : gap.stale gap.lasting)
    (hlasting : cache.path.parts = gap.lasting) :
    Lockstep host host' (Along (Abreast gap) r₀ r₀')
      (do let _ ← Step.act (saveCache cache)) (do let _ ← Step.act (saveCache cache')) := by
  rw [act_void, act_void]
  refine lockstep_act ?_
  unfold saveCache
  simp only [bind_assoc, pure_bind]
  refine .bind_read (.bind (.tryCatch ?_ fun failure => ?_) fun _ => .pure ())
  · rw [hpath]
    exact Action.lockstep_writeBytes hclear (.inr ⟨hstale, hlasting⟩)
  · split
    · exact Action.lockstep_note _ _ _ _
    · exact .throw _

/-- The steps of a build once its bundle has been checked and linted. -/
def settle (s : Settings) (o : Options) (output : Path) (found : ChangeCache × Bundle) : Step Unit := do
  shrink s o output found.2
  let _ ← Step.act (saveCache found.1)

/-- The bundle is written, checked, and linted if that is wanted. -/
def present (s : Settings) (o : Options) (output : Path) (bundle : Bundle) : Step Unit := do
  writeBundle output bundle
  inspect s o output bundle.text

/-- A build up to the linting of its bundle assembles a bundle and presents it. -/
theorem linted_eq : linted s o output =
    (assembled s o output).followedBy fun found => present s o output found.2 := by
  unfold linted checked written Step.followedBy present inspect
  simp only [bind_assoc, pure_bind]

theorem finish_eq (found : ChangeCache × Bundle) :
    finish s o output found = (do
      writeBundle output found.2
      inspect s o output found.2.text
      settle s o output found) := by
  unfold finish inspect settle
  simp only [bind_assoc]

/-- The files that a build writes stand clear of the places where two trees may be different. The place of
the change cache is one of these and remains so. -/
structure WritesBesides (s : Settings) (output : Path) (gap : Gap) : Prop where
  bundle : output.StandsClear gap.stale
  debugCopy : ∀ p, debugCopy output = .ok p → p.StandsClear gap.stale
  sourceMap : ∀ p, output.withName? (output.name ++ ".map") = some p → p.StandsClear gap.stale
  cache : s.cachePath.StandsClear gap.stale
  cache_stale : gap.stale gap.lasting
  cache_lasting : s.cachePath.parts = gap.lasting

/-- Two builds of the same bundle that have come through their checks go on alike, whatever their change
caches hold. -/
theorem lockstepAt_settle (hwrites : WritesBesides s output gap) {cache cache' : ChangeCache}
    (hpath : cache.path = s.cachePath) (hpath' : cache'.path = s.cachePath) {bundle : Bundle}
    {state state' : World × Result}
    (hminify : o.minify → LockstepAt host host' (Along (Abreast gap) r₀ r₀')
      (minify s o output bundle) (minify s o output bundle) state state')
    (hrel : Along (Abreast gap) r₀ r₀' state state') :
    LockstepAt host host' (Along (Abreast gap) r₀ r₀')
      (settle s o output (cache, bundle)) (settle s o output (cache', bundle)) state state' := by
  refine (lockstepAt_shrink hwrites.bundle hwrites.debugCopy hminify hrel).bind fun _ mid mid' _ _ hmid => ?_
  exact lockstep_saveCache (hpath'.trans hpath.symm) (hpath ▸ hwrites.cache) hwrites.cache_stale
    (hpath ▸ hwrites.cache_lasting) mid mid' hmid

end Build

end Userscript
