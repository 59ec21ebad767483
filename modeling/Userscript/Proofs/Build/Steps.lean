import Userscript.Proofs.Build.Stages
import Userscript.Proofs.Scope

/-!
# What the steps of a build may do

Each step of a build that comes after the bundle is assembled keeps within a scope. What is on record
of the modules stays, and the only warning that is added is that the bundle is not linted.

## Main definitions

* `Build.Adds` — what is added to the record of a build
* `Build.Stopped` — the build errors of these steps
* `Step.Within` — a step does no more than it may

## Main results

* `within_validate`, `within_lint`, `within_minify`, `within_optimize`, `within_saveCache` — the
  steps after the bundle
-/

namespace Userscript.Build

variable {α : Type} {host : Host} {scope : Scope} {s : Settings} {o : Options} {output : Path}

/-- What is on record of the modules stays, and nothing but a warning about linting is added. -/
structure Adds (r r' : Result) : Prop where
  merged : r'.merged = r.merged
  skipped : r'.skipped = r.skipped
  changed : r'.changed = r.changed
  warnings : ∃ new, r'.warnings = r.warnings ++ new ∧ ∀ w ∈ new, w.kind = .lint

theorem Adds.of_eq {r r' : Result} (hmerged : r'.merged = r.merged) (hskipped : r'.skipped = r.skipped)
    (hchanged : r'.changed = r.changed) (hwarnings : r'.warnings = r.warnings) : Adds r r' :=
  ⟨hmerged, hskipped, hchanged, [], by simp [hwarnings], by simp⟩

theorem Adds.trans {r r' r'' : Result} (h : Adds r r') (h' : Adds r' r'') : Adds r r'' := by
  obtain ⟨hmerged, hskipped, hchanged, new, hnew, hkind⟩ := h
  obtain ⟨hmerged', hskipped', hchanged', new', hnew', hkind'⟩ := h'
  refine ⟨hmerged'.trans hmerged, hskipped'.trans hskipped, hchanged'.trans hchanged, new ++ new', ?_,
    fun w hw => ?_⟩
  · rw [hnew', hnew, List.append_assoc]
  · exact (List.mem_append.1 hw).elim (hkind w) (hkind' w)

/-- A build is stopped although it has a bundle. -/
inductive Stopped : BuildError → Prop
  | checker {name : String} : Stopped (.checker name)
  | invalid {path : Option Path} {fault : ParseFault} : Stopped (.invalid path fault)
  | eslint {fault : StageFault} : Stopped (.stage "eslint" fault)
  | terser {fault : StageFault} : Stopped (.stage "terser" fault)

/-- How far a step after the bundle may go. -/
def stepBound (scope : Scope) : Bound (World × Result) where
  change state state' := scope.Allows state.1 state'.1 ∧ Adds state.2 state'.2
  failure := scope.MayFail
  refl _ := ⟨.of_eq rfl rfl rfl, .of_eq rfl rfl rfl rfl⟩
  trans h h' := ⟨h.1.trans h'.1, h.2.trans h'.2⟩

/-- A step after the bundle does no more than it may. -/
abbrev Step.Within (host : Host) (scope : Scope) (step : Step α) : Prop :=
  Userscript.Within host (stepBound scope) step

namespace Step

theorem within_act {action : Action α} (h : action.Within host scope) : (act action).Within host scope := by
  rintro ⟨world, result⟩
  obtain ⟨hchange, hfailure⟩ := h world
  exact ⟨⟨hchange, .of_eq rfl rfl rfl rfl⟩, hfailure⟩

theorem within_note (level : Log.Level) (message : String) : (note level message).Within host scope :=
  within_act (Action.within_note level message)

theorem within_record {f : Result → Result} (h : ∀ r, Adds r (f r)) : (record f).Within host scope :=
  .modify fun state => ⟨.of_eq rfl rfl rfl, h state.2⟩

theorem within_fault (fault : Fault) : (throw (.fault fault) : Step α).Within host scope := .throw trivial

theorem within_stage {step : Step α} (name : String) (h : step.Within host scope) :
    (stage name step).Within host scope := by
  intro state
  obtain ⟨⟨hworld, hresult⟩, hfailure⟩ := h state
  refine ⟨⟨hworld.trans (.of_eq rfl rfl rfl), hresult.trans (.of_eq rfl rfl rfl rfl)⟩, hfailure⟩

end Step

open Step (within_act within_note within_record within_fault within_stage)

theorem within_checker (hchecker : ∀ name, scope.error (.checker name)) (s : Settings) :
    (checker s).Within host scope := by
  unfold checker
  refine .bind (Action.within_demand _ _) fun _ _ =>
    .tryCatch (Checker.within_ofName _ _) fun failure hfailure => ?_
  split
  · exact Action.within_error (hchecker _)
  · exact .throw hfailure

/-- Checking the bundle starts programs that check, and changes nothing. -/
theorem within_validate (hcalls : ∀ argv limit, scope.calls (.check argv limit))
    (hchecker : ∀ name, scope.error (.checker name)) (hinvalid : ∀ p fault, scope.error (.invalid p fault))
    (text : Text) : (validate s output text).Within host scope := by
  unfold validate
  refine .bind (within_stage _ (within_act ?_)) fun verdict _ => ?_
  · exact .bind (within_checker hchecker s) fun checker _ => checker.within_check hcalls _ _
  · split
    · exact .throw (hinvalid _ _)
    · exact .pure _

theorem root_of_gives_eslint {eslint : Eslint} (h : Gives host (Build.eslint s) eslint) :
    eslint.root = s.root := by
  obtain ⟨world, world', h⟩ := h
  cases h
  rfl

/-- Linting the bundle starts ESLint. -/
theorem within_lint (hcalls : ∀ c, Eslint.Called s.root c → scope.calls c)
    (htree : scope.AdmitsTools host) (herror : ∀ fault, scope.error (.stage "eslint" fault)) :
    (lint s output).Within host scope := by
  unfold lint
  refine .bind (within_stage _ (within_act ?_)) fun linted _ => ?_
  · refine .bind (.bind .read fun _ _ => .bind .get fun _ _ => .pure _) fun eslint hgives => ?_
    have hroot : eslint.root = s.root := root_of_gives_eslint hgives
    exact eslint.within_run (hroot ▸ hcalls) htree herror _
  · extract_lets warning
    split
    · exact within_record fun r => ⟨rfl, rfl, rfl, [warning], rfl, by simp [warning]⟩
    · exact .pure _

theorem within_lintIf (hcalls : ∀ c, Eslint.Called s.root c → scope.calls c)
    (htree : scope.AdmitsTools host) (herror : ∀ fault, scope.error (.stage "eslint" fault)) :
    (lintIf s o output).Within host scope := by
  unfold lintIf
  split
  · exact within_lint hcalls htree herror
  · exact .pure ()

theorem within_savings (r : Result) : (savings r).Within host scope := by
  unfold savings
  split
  · exact .pure _
  · exact within_fault _

theorem within_replaceBundle (h : scope.Admits output) (text : Text) (word : String) :
    (replaceBundle output text word).Within host scope := by
  unfold replaceBundle
  exact .bind (within_act (Action.within_writeText h _)) fun size _ =>
    .bind (within_record fun r => .of_eq rfl rfl rfl rfl) fun _ _ => .bind .get fun state _ =>
      .bind (within_savings _) fun saved _ => within_note _ _

/-- Optimizing writes a copy of the bundle and the bundle. -/
theorem within_optimize (h : scope.Admits output)
    (hcopy : ∀ copy, debugCopy output = .ok copy → scope.Admits copy) (bundle : Bundle) :
    (optimize s output bundle).Within host scope := by
  unfold optimize
  extract_lets ctx unfit copied
  have hcopied {copy : Path} (hcopy : scope.Admits copy) : (copied copy).Within host scope := by
    refine .bind (within_record fun r => .of_eq rfl rfl rfl rfl) fun _ _ =>
      .bind (within_act (Action.within_writeText hcopy _)) fun _ _ =>
      .bind (within_note _ _) fun _ _ => .bind (within_note _ _) fun _ _ => ?_
    split
    · exact within_fault _
    · exact .bind (within_note _ _) fun _ _ => within_replaceBundle h _ _
  -- The copy is the one that was asked for, not any path.
  split
  · next copy heq =>
    refine .bind (.pure _) fun copy' hgives => hcopied ?_
    rw [hgives.eq_of_pure]
    exact hcopy copy heq
  · exact .bind (within_fault _) fun copy ⟨_, _, hgives⟩ => by cases hgives

theorem within_terser (s : Settings) : (terser s).Within host scope :=
  .bind (Action.within_demand _ _) fun _ _ => .bind .read fun _ _ => .bind .get fun _ _ => .pure _

/-- What minifying does with what Terser has made of the bundle. -/
def keepSmall (output : Path) (small : Terser.Output) : Step Unit := do
  if let some map := small.map then
    match output.withName? (output.name ++ ".map") with
    | none => throw (.fault (.noName output))
    | some path =>
      Step.record fun r => { r with sourceMap := some path }
      let _ ← Step.act (Action.writeText path map)
      Step.note .debug s!"Source map written: {path}"
  let code := if Text.endsWith ['\n'] small.code then small.code else small.code ++ ['\n']
  replaceBundle output code "Minified"

/-- Terser is run on the body of the bundle. -/
def runTerser (s : Settings) (o : Options) (output : Path) (bundle : Bundle) : Action Terser.Output := do
  let terser ← terser s
  terser.minify s.root (some s.stageTimeout) (Text.replaceFirst bundle.header [] bundle.text) output.name
    { pretty := o.pretty, sourceMap := o.sourceMap, preamble := bundle.header }

theorem minify_eq (s : Settings) (o : Options) (output : Path) (bundle : Bundle) :
    minify s o output bundle = (do
      let small ← Step.act (runTerser s o output bundle)
      keepSmall output small) := rfl

theorem within_runTerser (hcalls : ∀ c, Terser.Called s.root c → scope.calls c)
    (htree : scope.AdmitsTools host) (herror : ∀ fault, scope.error (.stage "terser" fault))
    (hfolder : Terser.AdmitsFolder scope host ("input-" ++ output.name)) (bundle : Bundle) :
    (runTerser s o output bundle).Within host scope :=
  .bind (within_terser s) fun terser _ => terser.within_minify hcalls htree herror hfolder _ _ _

theorem within_keepSmall (h : scope.Admits output)
    (hmap : ∀ map, output.withName? (output.name ++ ".map") = some map → scope.Admits map)
    (small : Terser.Output) : (keepSmall output small).Within host scope := by
  unfold keepSmall
  extract_lets code done
  have hdone (r : Unit) : (done r).Within host scope := within_replaceBundle h _ _
  split
  · split
    · exact .bind (within_fault _) fun r _ => hdone r
    · next path heq =>
      exact .bind (within_record fun r => .of_eq rfl rfl rfl rfl) fun _ _ =>
        .bind (within_act (Action.within_writeText (hmap path heq) _)) fun _ _ =>
          .bind (within_note _ _) fun r _ => hdone r
  · exact hdone ()

/-- Minifying starts Terser, and writes the source map and the bundle. -/
theorem within_minify (hcalls : ∀ c, Terser.Called s.root c → scope.calls c)
    (htree : scope.AdmitsTools host) (herror : ∀ fault, scope.error (.stage "terser" fault))
    (hfolder : Terser.AdmitsFolder scope host ("input-" ++ output.name)) (h : scope.Admits output)
    (hmap : ∀ map, output.withName? (output.name ++ ".map") = some map → scope.Admits map)
    (bundle : Bundle) : (minify s o output bundle).Within host scope := by
  rw [minify_eq]
  exact .bind (within_act (within_runTerser hcalls htree herror hfolder bundle)) fun small _ =>
    within_keepSmall h hmap small

theorem within_writeBundle (h : scope.Admits output) (bundle : Bundle) :
    (writeBundle output bundle).Within host scope := by
  unfold writeBundle
  exact .bind (within_stage _ (within_act (Action.within_writeText h _))) fun size _ =>
    .bind (within_record fun r => .of_eq rfl rfl rfl rfl) fun _ _ => .bind (within_note _ _) fun _ _ =>
    .bind .get fun state _ => .forM fun warning => within_note _ _

theorem within_shrink (hcalls : ∀ c, Terser.Called s.root c → scope.calls c)
    (htree : scope.AdmitsTools host) (herror : ∀ fault, scope.error (.stage "terser" fault))
    (hfolder : Terser.AdmitsFolder scope host ("input-" ++ output.name)) (h : scope.Admits output)
    (hcopy : o.optimized → o.minify = false → ∀ copy, debugCopy output = .ok copy → scope.Admits copy)
    (hmap : o.minify → ∀ map, output.withName? (output.name ++ ".map") = some map → scope.Admits map)
    (bundle : Bundle) : (shrink s o output bundle).Within host scope := by
  unfold shrink
  split
  · next hminify =>
    exact within_stage _ (within_minify hcalls htree herror hfolder h (hmap hminify) bundle)
  · next hminify =>
    split
    · next hoptimized =>
      exact within_stage _ (within_optimize h (hcopy hoptimized (Bool.eq_false_iff.2 hminify)) bundle)
    · exact .pure ()

/-- The change cache is written, or it is noted that it cannot be. -/
theorem within_saveCache {cache : ChangeCache} (h : scope.Admits cache.path) :
    (saveCache cache).Within host scope := by
  unfold saveCache
  refine .bind .read fun host' _ => ?_
  extract_lets cache
  refine .bind (.tryCatch (Action.within_writeBytes h _) fun failure hfailure => ?_) fun _ _ => .pure _
  split
  · exact Action.within_note _ _
  · exact .throw hfailure

end Userscript.Build
