import Userscript.Proofs.Build.Assembling
import Userscript.Proofs.Build.Steps

/-!
# Files that a build writes

A build writes its bundle, a copy of the bundle before it is optimized or a source map of it when
it is minified, and the change cache. It writes no other files, wherever it fails.

## Main definitions

* `Build.Target` — the files that a build can write
* `Build.filesWritten` — the files that a build writes
* `Build.start`, `Build.reported` — where a build begins, and the report in the end

## Main results

* `within_finish`, `within_steps` — the steps of a build write no other files
* `run_eq` — a build reports how its steps have ended
* `target_of_mem_filesWritten` — nor does the build write others
-/

namespace Userscript.Build

variable {α : Type} {s : Settings} {o : Options} {output : Path} {host : Host}

/-- The files that a build can write. -/
inductive Target (s : Settings) (o : Options) : Path → Prop
  | bundle : Target s o (outputPath s o)
  | debugCopy {p : Path} : o.optimized → o.minify = false →
      debugCopy (outputPath s o) = .ok p → Target s o p
  | sourceMap {p : Path} : o.minify →
      (outputPath s o).withName? ((outputPath s o).name ++ ".map") = some p → Target s o p
  | cache : Target s o s.cachePath

/-- The files that a build writes, in order. -/
def filesWritten (s : Settings) (o : Options) (host : Host) (world : World) : List Path :=
  (run s o host world).2.written.drop world.written.length

/-- A build that has a bundle may write its targets, and be stopped, whatever else it does. -/
def targets (s : Settings) (o : Options) : Scope where
  calls _ := True
  written := Target s o
  tree _ _ := True
  error := Stopped
  tree_refl _ := trivial
  tree_trans _ _ := trivial

theorem admits_targets {p : Path} (h : Target s o p) : (targets s o).Admits p :=
  ⟨h, fun _ => trivial, fun _ => trivial⟩

/-- How far any step of a build may go. -/
def targetBound (s : Settings) (o : Options) : Bound (World × Result) where
  change state state' := (targets s o).Allows state.1 state'.1
  failure _ := True
  refl _ := .of_eq rfl rfl rfl
  trans := .trans

theorem within_targetBound {step : Step α} (h : step.Within host (targets s o)) :
    Within host (targetBound s o) step :=
  fun state => ⟨(h state).1.1, fun _ _ => trivial⟩

theorem within_assembled (s : Settings) (o : Options) (output : Path) :
    Within host (targetBound s o) (assembled s o output) := by
  rintro ⟨world, r⟩
  obtain ⟨value, r', hdoes, -⟩ := exists_does_assembled s o world.tree output r
  obtain ⟨log, hrun⟩ := hdoes host world rfl
  rw [hrun]
  exact ⟨.of_eq rfl rfl rfl, fun _ _ => trivial⟩

theorem cachePath_of_gives_assembled {found : ChangeCache × Bundle}
    (h : Gives host (assembled s o output) found) : found.1.path = s.cachePath := by
  obtain ⟨⟨world, r⟩, state, h⟩ := h
  obtain ⟨value, r', hdoes, hassembling⟩ := exists_does_assembled s o world.tree output r
  obtain ⟨log, hrun⟩ := hdoes host world rfl
  rw [hrun] at h
  cases h
  cases hassembling with
  | bundle _ _ hpath => exact hpath

theorem cachePath_of_gives_shrunk {found : ChangeCache × Bundle} (h : Gives host (shrunk s o output) found) :
    found.1.path = s.cachePath :=
  cachePath_of_gives_assembled <| gives_of_followedBy <| gives_of_followedBy <| gives_of_followedBy <|
    gives_of_followedBy h

/-- Once the bundle is assembled, a build writes no files but its targets. -/
theorem within_finish {found : ChangeCache × Bundle} (hpath : found.1.path = s.cachePath) :
    (finish s o (outputPath s o) found).Within host (targets s o) := by
  have houtput : (targets s o).Admits (outputPath s o) := admits_targets .bundle
  have htools : (targets s o).AdmitsTools host := fun _ _ _ _ => trivial
  unfold finish
  refine .bind (within_writeBundle houtput found.2) fun _ _ =>
    .bind (within_validate (fun _ _ => trivial) (fun _ => Stopped.checker)
      (fun _ _ => Stopped.invalid) _) fun _ _ =>
    .bind (within_lintIf (fun _ _ => trivial) htools fun _ => Stopped.eslint) fun _ _ =>
    .bind ?_ fun _ _ => .bind (Step.within_act (within_saveCache ?_)) fun _ _ => .pure _
  · exact within_shrink (fun _ _ => trivial) htools (fun _ => Stopped.terser)
      ⟨fun _ => trivial, fun _ => trivial, fun _ => trivial⟩ houtput
      (fun hoptimized hplain _ hcopy => admits_targets (.debugCopy hoptimized hplain hcopy))
      (fun hminify _ hmap => admits_targets (.sourceMap hminify hmap)) found.2
  · exact hpath ▸ admits_targets .cache

/-- The steps of a build write no files but its targets. -/
theorem within_steps (s : Settings) (o : Options) :
    Within host (targetBound s o) (steps s o (outputPath s o)) := by
  rw [steps_eq_bind]
  -- The change cache goes where it was loaded from, whatever has happened in between.
  exact .bind (within_assembled s o _) fun found hgives =>
    within_targetBound (within_finish (cachePath_of_gives_assembled hgives))

/-! ### From the steps to the run -/

/-- Where a build begins. -/
def start (s : Settings) (o : Options) (world : World) : World × Result :=
  (world, { output := outputPath s o })

/-- The report on how the steps of a build have ended. -/
def reported : Except Failure Unit × World × Result → Except Failure Result × World
  | (.ok (), w, r) => (.ok { r with isSuccess := true, stages := r.stages ++ ["total"] }, w)
  | (.error (.build error), w, r) =>
    (.ok { r with error := some error, stages := r.stages ++ ["total"] },
      { w with log := w.log ++ [.note .error ("Build failed: " ++ error.message)] })
  | (.error failure, w, _) => (.error failure, w)

theorem run_eq (s : Settings) (o : Options) (host : Host) (world : World) :
    run s o host world = reported (steps s o (outputPath s o) host (start s o world)) := by
  rw [run]
  dsimp only
  rw [show (world, ({ output := outputPath s o } : Result)) = start s o world from rfl]
  rcases steps s o (outputPath s o) host (start s o world) with ⟨(error | fault) | done, w, r⟩ <;> rfl

/-- What a build does after its steps is to note an error. -/
theorem exists_run_eq (s : Settings) (o : Options) (host : Host) (world : World) : ∃ log,
    (run s o host world).2 =
      { (steps s o (outputPath s o) host (start s o world)).2.1 with log } := by
  rw [run_eq]
  -- A build error is noted in the log, another failure is passed on.
  rcases steps s o (outputPath s o) host (start s o world) with ⟨(error | fault) | done, w, r⟩ <;>
    exact ⟨_, rfl⟩

/-- A build writes no files but its targets. -/
theorem target_of_mem_filesWritten {host : Host} {world : World} {p : Path}
    (h : p ∈ filesWritten s o host world) : Target s o p := by
  have hsteps : Within host (targetBound s o) (steps s o (outputPath s o)) := within_steps s o
  obtain ⟨⟨-, ⟨new, hnew, htarget⟩, -⟩, -⟩ := hsteps (start s o world)
  obtain ⟨log, hrun⟩ := exists_run_eq s o host world
  rw [filesWritten, hrun, show _ = world.written ++ new from hnew, List.drop_left] at h
  exact htarget p h

end Userscript.Build
