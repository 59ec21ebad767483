import Userscript.Proofs.Scope
import Userscript.Build

/-!
# The stages of a build

A build is a chain of stages: the bundle is assembled and written, checked, linted, and minified or
optimized, and then the change cache is written. Each stage begins where the one before it has ended
well, and the first that fails ends the build.

## Main definitions

* `Step.followedBy` — a stage after another
* `Build.assembled`, `Build.written`, `Build.checked`, `Build.linted`, `Build.shrunk` — a build up
  to the end of a stage
* `Build.finish` — the steps once the bundle is assembled

## Main results

* `steps_eq`, `steps_eq_bind` — a build is its stages
* `followedBy_eq_ok_iff`, `followedBy_eq_error_iff` — how two stages end
-/

namespace Userscript.Build

variable {α : Type} {s : Settings} {o : Options} {output : Path}

/-- A step, and then another that depends on what the first gives. -/
def Step.followedBy (first : Step α) (second : α → Step Unit) : Step α := do
  let value ← first
  second value
  return value

/-- The steps from the located modules to the bundle, which is given together with the change cache for
the next build. -/
def assemble (s : Settings) (output : Path) (cache : ChangeCache) (located : Module.Located) :
    Step (ChangeCache × Bundle) := do
  Step.record fun r => { r with warnings := r.warnings ++ located.warnings }
  let tree := (← get).1.tree
  let (cache, changed) := cache.refresh (statOf tree) (located.modules.map (·.path))
  Step.record fun r => { r with changed := changed.length }
  let header ← header s output
  let (bundle, warnings) ← Step.stage "merge" (merge header.text located.modules)
  Step.record fun r =>
    { r with
      warnings := r.warnings ++ warnings
      merged := bundle.merged
      skipped := bundle.skipped }
  return (cache, bundle)

/-- A build up to its bundle. -/
def assembled (s : Settings) (o : Options) (output : Path) : Step (ChangeCache × Bundle) := do
  if o.output.isNone then s.demand .output
  Step.note .debug s!"Starting build for {output}..."
  s.demand .cacheFile
  let cache ← Step.read (loadCache s.cachePath)
  let located ← Step.stage "collect" (Step.read (Module.locate s))
  assemble s output cache located

/-- The bundle is written as it is, and the warnings so far are noted. -/
def writeBundle (output : Path) (bundle : Bundle) : Step Unit := do
  let size ← Step.stage "write" (Step.act (Action.writeText output bundle.text))
  Step.record fun r => { r with bundleSize := size, finalSize := size }
  Step.note .info s!"Built {output} from {bundle.merged.length} modules"
  (← get).2.warnings.forM fun warning => Step.note .warning warning.text

/-- A build up to the file of its bundle. -/
def written (s : Settings) (o : Options) (output : Path) : Step (ChangeCache × Bundle) :=
  (assembled s o output).followedBy fun found => writeBundle output found.2

/-- A build up to the check of its bundle. -/
def checked (s : Settings) (o : Options) (output : Path) : Step (ChangeCache × Bundle) :=
  (written s o output).followedBy fun found => validate s output found.2.text

/-- The bundle is linted, if that is wanted. -/
def lintIf (s : Settings) (o : Options) (output : Path) : Step Unit :=
  if o.lints then lint s output else pure ()

/-- A build up to the linting of its bundle. -/
def linted (s : Settings) (o : Options) (output : Path) : Step (ChangeCache × Bundle) :=
  (checked s o output).followedBy fun _ => lintIf s o output

/-- The bundle is minified or optimized, or neither. -/
def shrink (s : Settings) (o : Options) (output : Path) (bundle : Bundle) : Step Unit :=
  if o.minify then Step.stage "minify" (minify s o output bundle)
  else if o.optimized then Step.stage "optimize" (optimize s output bundle)
  else pure ()

/-- A build up to its bundle as it is in the end. -/
def shrunk (s : Settings) (o : Options) (output : Path) : Step (ChangeCache × Bundle) :=
  (linted s o output).followedBy fun found => shrink s o output found.2

/-- The steps of a build once its bundle is assembled. -/
def finish (s : Settings) (o : Options) (output : Path) (found : ChangeCache × Bundle) : Step Unit := do
  writeBundle output found.2
  validate s output found.2.text
  lintIf s o output
  shrink s o output found.2
  let _ ← Step.act (saveCache found.1)

/-- A build is its stages, and then the change cache is written. -/
theorem steps_eq : steps s o output = (do
    let found ← shrunk s o output
    let _ ← Step.act (saveCache found.1)) := by
  have hite {α β : Type} (c : Prop) [Decidable c] (step step' : Step α) (next : α → Step β) :
      (if c then step else step') >>= next = if c then step >>= next else step' >>= next := by
    split <;> rfl
  unfold steps shrunk linted lintIf checked written writeBundle shrink assembled assemble Step.followedBy
  simp only [hite, bind_assoc, pure_bind]

/-- A build assembles its bundle and then does the rest. -/
theorem steps_eq_bind : steps s o output = assembled s o output >>= finish s o output := by
  rw [steps_eq, shrunk, linted, checked, written]
  simp only [Step.followedBy, bind_assoc, pure_bind]
  rfl

/-! ### How two stages end -/

section followedBy

variable {first : Step α} {second : α → Step Unit} {host : Host} {state state' : World × Result}
  {value : α} {failure : Failure}

theorem run_followedBy (first : Step α) (second : α → Step Unit) (host : Host) (state : World × Result) :
    first.followedBy second host state =
      match first host state with
      | (.error failure, state) => (.error failure, state)
      | (.ok value, state) =>
        match second value host state with
        | (.error failure, state) => (.error failure, state)
        | (.ok _, state) => (.ok value, state) := by
  rw [Step.followedBy, Program.run_bind]
  rcases first host state with ⟨failure | value, mid⟩
  · rfl
  · dsimp only
    rw [Program.run_bind]
    rcases second value host mid with ⟨failure | done, last⟩ <;> rfl

theorem followedBy_eq_ok_iff : first.followedBy second host state = (.ok value, state') ↔
    ∃ mid, first host state = (.ok value, mid) ∧ second value host mid = (.ok (), state') := by
  rw [run_followedBy]
  constructor
  · intro h
    split at h
    · cases h
    · next value' mid hfirst =>
      split at h
      · cases h
      · next last hsecond =>
        cases h
        exact ⟨mid, hfirst, hsecond⟩
  · rintro ⟨mid, hfirst, hsecond⟩
    simp only [hfirst, hsecond]

theorem followedBy_eq_error_iff : first.followedBy second host state = (.error failure, state') ↔
    first host state = (.error failure, state') ∨
      ∃ value mid, first host state = (.ok value, mid) ∧
        second value host mid = (.error failure, state') := by
  rw [run_followedBy]
  constructor
  · intro h
    split at h
    · next hfirst =>
      cases h
      exact .inl hfirst
    · next value' mid hfirst =>
      split at h
      · next hsecond =>
        cases h
        exact .inr ⟨value', mid, hfirst, hsecond⟩
      · cases h
  · rintro (hfirst | ⟨value, mid, hfirst, hsecond⟩)
    · simp only [hfirst]
    · simp only [hfirst, hsecond]

theorem fst_followedBy_eq_error_iff : (first.followedBy second host state).1 = .error failure ↔
    (first host state).1 = .error failure ∨
      ∃ value mid, first host state = (.ok value, mid) ∧ (second value host mid).1 = .error failure := by
  have hlast (value : α) (mid : World × Result) :
      ((do second value; return value : Step α) host mid).1 = .error failure ↔
        (second value host mid).1 = .error failure := by
    rw [Program.bind_eq_error_iff]
    constructor
    · rintro (h | ⟨_, _, -, h⟩)
      · exact h
      · cases h
    · exact .inl
  rw [Step.followedBy, Program.bind_eq_error_iff]
  simp only [hlast]

theorem gives_of_followedBy (h : Gives host (first.followedBy second) value) : Gives host first value := by
  obtain ⟨state, state', h⟩ := h
  obtain ⟨mid, hfirst, -⟩ := followedBy_eq_ok_iff.1 h
  exact ⟨state, mid, hfirst⟩

end followedBy

end Userscript.Build
