import Userscript.Proofs.Build.Written

/-!
# How a build ends

The steps of a build put much on record but not how the build ends. That is decided by their end alone: a
build succeeds if they end well, it has an error if they fail for a build error, and any other fault ends
the run.

## Main definitions

* `Build.undecided` — a step does not decide how a build ends

## Main results

* `undecided_steps` — no step of a build does
* `run_eq_fault_iff` — a fault of the run is one of the steps
* `decided_of_run` — a build with a result has succeeded or has an error, and not both
-/

namespace Userscript.Build

variable {α : Type} {s : Settings} {o : Options} {output : Path} {host : Host} {world : World} {fault : Fault}

/-- A step does not decide how a build ends. -/
def undecided : Bound (World × Result) where
  change state state' := state'.2.isSuccess = state.2.isSuccess ∧ state'.2.error = state.2.error
  failure _ := True
  refl _ := ⟨rfl, rfl⟩
  trans h h' := ⟨h'.1.trans h.1, h'.2.trans h.2⟩

theorem undecided_act (action : Action α) : Within host undecided (Step.act action) :=
  fun _ => ⟨⟨rfl, rfl⟩, fun _ _ => trivial⟩

theorem undecided_record {f : Result → Result}
    (h : ∀ r, (f r).isSuccess = r.isSuccess ∧ (f r).error = r.error) :
    Within host undecided (Step.record f) :=
  .modify fun state => h state.2

theorem undecided_stage {step : Step α} (name : String) (h : Within host undecided step) :
    Within host undecided (Step.stage name step) :=
  fun state => ⟨(h state).1, fun _ _ => trivial⟩

theorem undecided_demand (s : Settings) (use : Settings.Use) :
    Within host undecided (s.demand use : Step Unit) := by
  unfold Settings.demand
  split
  · exact .throw trivial
  · exact .pure ()

theorem undecided_header (s : Settings) (output : Path) : Within host undecided (header s output) := by
  unfold header
  refine .ite_bind (undecided_demand s _) fun _ => .bind (undecided_act _) fun found _ => ?_
  split
  · exact .bind (undecided_record fun _ => ⟨rfl, rfl⟩) fun _ _ => .pure _
  · exact .bind (undecided_record fun _ => ⟨rfl, rfl⟩) fun _ _ =>
      .bind (undecided_act _) fun _ _ => .pure _

theorem undecided_merge (text : Text) (modules : List ModuleFile) :
    Within host undecided (merge text modules) := by
  unfold merge
  refine .bind (undecided_act _) fun loaded _ => .bind (.forM fun _ => undecided_act _) fun _ _ => ?_
  split
  · exact .pure _
  · exact .throw trivial

theorem undecided_written (s : Settings) (o : Options) (output : Path) :
    Within host undecided (written s o output) := by
  unfold written assembled assemble writeBundle Step.followedBy
  -- Step after step, as the build takes them: what is set on record is never the success nor the error.
  refine .bind (.ite_bind (undecided_demand s _) fun _ => .bind (undecided_act _) fun _ _ =>
    .bind (undecided_demand s _) fun _ _ => .bind (undecided_act _) fun cache _ =>
    .bind (undecided_stage _ (undecided_act _)) fun located _ =>
    .bind (undecided_record fun _ => ⟨rfl, rfl⟩) fun _ _ => .bind .get fun state _ =>
    .bind (undecided_record fun _ => ⟨rfl, rfl⟩) fun _ _ => .bind (undecided_header s _) fun found _ =>
    .bind (undecided_stage _ (undecided_merge _ _)) fun merged _ =>
    .bind (undecided_record fun _ => ⟨rfl, rfl⟩) fun _ _ => .pure _) fun found _ => .bind ?_ fun _ _ => .pure _
  exact .bind (undecided_stage _ (undecided_act _)) fun _ _ =>
    .bind (undecided_record fun _ => ⟨rfl, rfl⟩) fun _ _ =>
    .bind (undecided_act _) fun _ _ => .bind .get fun _ _ => .forM fun _ => undecided_act _

theorem undecided_replaceBundle (output : Path) (text : Text) (word : String) :
    Within host undecided (replaceBundle output text word) := by
  unfold replaceBundle savings
  refine .bind (undecided_act _) fun _ _ => .bind (undecided_record fun _ => ⟨rfl, rfl⟩) fun _ _ =>
    .bind .get fun _ _ => .bind ?_ fun _ _ => undecided_act _
  split
  · exact .pure _
  · exact .throw trivial

theorem undecided_shrink (s : Settings) (o : Options) (output : Path) (bundle : Bundle) :
    Within host undecided (shrink s o output bundle) := by
  unfold shrink
  split
  · refine undecided_stage _ ?_
    rw [minify_eq]
    refine .bind (undecided_act _) fun small _ => ?_
    unfold keepSmall
    extract_lets code done
    have hdone (u : Unit) : Within host undecided (done u) := undecided_replaceBundle _ _ _
    split
    · split
      · exact .bind (.throw trivial) fun u _ => hdone u
      · exact .bind (undecided_record fun _ => ⟨rfl, rfl⟩) fun _ _ => .bind (undecided_act _) fun _ _ =>
          .bind (undecided_act _) fun u _ => hdone u
    · exact hdone ()
  · split
    · refine undecided_stage _ ?_
      unfold optimize
      extract_lets ctx unfit copied
      have hcopied (copy : Path) : Within host undecided (copied copy) := by
        refine .bind (undecided_record fun _ => ⟨rfl, rfl⟩) fun _ _ => .bind (undecided_act _) fun _ _ =>
          .bind (undecided_act _) fun _ _ => .bind (undecided_act _) fun _ _ => ?_
        split
        · exact .throw trivial
        · exact .bind (undecided_act _) fun _ _ => undecided_replaceBundle _ _ _
      split
      · exact .bind (.pure _) fun copy _ => hcopied copy
      · exact .bind (.throw trivial) fun copy _ => hcopied copy
    · exact .pure ()

/-- No step of a build decides how it ends. -/
theorem undecided_steps (s : Settings) (o : Options) (output : Path) (host : Host) :
    Within host undecided (steps s o output) := by
  rw [steps_eq]
  unfold shrunk linted checked Step.followedBy validate lintIf lint
  refine .bind (.bind (.bind (.bind (undecided_written s o output) fun found _ => .bind ?_ fun _ _ => .pure _)
    fun found _ => .bind ?_ fun _ _ => .pure _) fun found _ => .bind (undecided_shrink s o output _) fun _ _ =>
      .pure _) fun found _ => .bind (undecided_act _) fun _ _ => .pure _
  · refine .bind (undecided_stage _ (undecided_act _)) fun verdict _ => ?_
    split
    · exact .throw trivial
    · exact .pure _
  · split
    · refine .bind (undecided_stage _ (undecided_act _)) fun linted _ => ?_
      extract_lets warning
      split
      · exact undecided_record fun _ => ⟨rfl, rfl⟩
      · exact .pure _
    · exact .pure ()

/-- A fault of the run is one of the steps. -/
theorem run_eq_fault_iff : (run s o host world).1 = .error (.fault fault) ↔
    (steps s o (outputPath s o) host (start s o world)).1 = .error (.fault fault) := by
  rw [run_eq]
  rcases steps s o (outputPath s o) host (start s o world) with ⟨(error | fault) | done, w, r⟩ <;>
    simp [reported]

/-- A build error does not end the run. -/
theorem run_ne_error (s : Settings) (o : Options) (host : Host) (world : World) (error : BuildError) :
    (run s o host world).1 ≠ .error (.build error) := by
  rw [run_eq]
  rcases steps s o (outputPath s o) host (start s o world) with ⟨(error | fault) | done, w, r⟩ <;>
    simp [reported]

/-- A build with a result has succeeded or has an error, and not both. -/
theorem decided_of_run {result : Result} (h : (run s o host world).1 = .ok result) :
    result.isSuccess ∧ result.error = none ∨ result.isSuccess = false ∧ ∃ error, result.error = some error := by
  -- The steps leave both as they find them, and a build starts without success and without an error.
  obtain ⟨⟨hsuccess, herror⟩, -⟩ := undecided_steps s o (outputPath s o) host (start s o world)
  rw [run_eq] at h
  rcases hsteps : steps s o (outputPath s o) host (start s o world) with ⟨(error | fault) | done, w, r⟩ <;>
    rw [hsteps] at h hsuccess herror <;> cases h
  · exact .inr ⟨hsuccess, error, rfl⟩
  · exact .inl ⟨rfl, herror⟩

/-- The steps of a build that succeeds have ended well, and the rest of what is on record is theirs. -/
theorem exists_steps_of_run {result : Result} {after : World} (h : run s o host world = (.ok result, after))
    (hsuccess : result.isSuccess) : ∃ r, steps s o (outputPath s o) host (start s o world) = (.ok (), after, r) ∧
      result = { r with isSuccess := true, stages := r.stages ++ ["total"] } := by
  have hdecided := decided_of_run (congrArg Prod.fst h)
  rw [run_eq] at h
  rcases hsteps : steps s o (outputPath s o) host (start s o world) with ⟨(error | fault) | done, w, r⟩ <;>
    rw [hsteps] at h <;> cases h
  · -- Steps that end with an error leave a result that has one.
    rcases hdecided with ⟨-, herror⟩ | ⟨hfail, -⟩
    · cases herror
    · rw [hfail] at hsuccess
      cases hsuccess
  · exact ⟨r, rfl, rfl⟩

end Userscript.Build
