import Userscript.Proofs.Build.Assembling
import Userscript.Proofs.Build.Written
import Userscript.Proofs.Path.Names
import Userscript.Proofs.Tree.Faces

/-!
# What a build that has failed leaves

A build that has nothing to merge fails before it changes anything. One that is stopped after its
bundle was written, by the check, by ESLint or by Terser, leaves the bundle as it was assembled and
has changed no other file.

## Main definitions

* `Build.LacksModules` — the build errors before the bundle is written
* `Build.HasBundle` — a bundle has been written as it was assembled
* `Build.Keeps` — nothing has changed since but the temporary folder
* `Build.LeavesNothing`, `Build.LeavesBundle` — what a build leaves

## Main results

* `writing_written` — how the steps up to the file of the bundle end
* `stopped_of_shrunk` — how the stages after it fail
* `leaves_of_run` — what a build that has failed leaves
-/

namespace Userscript

variable {host : Host} {scope : Scope} {p : Path} {text : Text} {w : World}

/-! ### Writing a text -/

namespace Action

theorem run_writeBytes (h : p.hasNul = false) (content : Bytes) (w : World) : writeBytes p content host w =
    match w.tree.writeFile p content w.nextStamp with
    | .ok tree =>
      (.ok (), { w with tree := tree, written := w.written ++ [p], nextStamp := w.nextStamp + 1 })
    | .error fault => (.error (.fault (.file fault)), { w with nextStamp := w.nextStamp + 1 }) := by
  rw [writeBytes, demandPath, h, if_neg (by simp), pure_bind, Program.run_bind]
  change (change _ >>= _ : Action Unit) host { w with nextStamp := w.nextStamp + 1 } = _
  rw [Program.run_bind, run_change]
  cases w.tree.writeFile p content w.nextStamp <;> rfl

/-- A text is written whole, or it is not, and that is a fault. -/
theorem writeText_cases (host : Host) (p : Path) (text : Text) (w : World) : ∃ result w',
    writeText p text host w = (result, w') ∧ w'.calls = w.calls ∧
      ((∃ fault, result = .error (.fault fault)) ∧ w'.written = w.written ∨
        (∃ size, result = .ok size) ∧ w'.written = w.written ++ [p] ∧ ∃ stamp,
          (w.tree.makeFolders p.parent).1.writeFile p (Utf8.encode text) stamp = .ok w'.tree) := by
  have hrun : writeText p text = (do
      makeFolders p.parent
      writeBytes p (Utf8.encode text)
      return (Utf8.encode text).length : Action Nat) := rfl
  rw [hrun, Program.run_bind]
  -- It may fail at the folder, at the path or at the file, and in each case nothing is written.
  cases hparent : p.parent.hasNul with
  | true =>
    rw [makeFolders, demandPath, hparent]
    exact ⟨_, _, rfl, rfl, .inl ⟨⟨_, rfl⟩, rfl⟩⟩
  | false =>
    rw [run_makeFolders hparent]
    cases hmade : (w.tree.makeFolders p.parent).2 with
    | some fault => exact ⟨_, _, rfl, rfl, .inl ⟨⟨_, rfl⟩, rfl⟩⟩
    | none =>
      dsimp only
      rw [Program.run_bind]
      cases hnul : p.hasNul with
      | true =>
        rw [writeBytes, demandPath, hnul]
        exact ⟨_, _, rfl, rfl, .inl ⟨⟨_, rfl⟩, rfl⟩⟩
      | false =>
        rw [run_writeBytes hnul]
        dsimp only
        cases hwrite : (w.tree.makeFolders p.parent).1.writeFile p (Utf8.encode text) w.nextStamp with
        | error fault => exact ⟨_, _, rfl, rfl, .inl ⟨⟨_, rfl⟩, rfl⟩⟩
        | ok tree =>
          exact ⟨_, _, rfl, rfl, .inr ⟨⟨_, rfl⟩, rfl, _, hwrite⟩⟩

end Action

namespace Build

variable {s : Settings} {o : Options} {output : Path} {world : World} {r : Result}
  {found : ChangeCache × Bundle}

/-- The change cache is saved with the time of the build, or it is noted that it cannot be written. -/
theorem run_saveCache {cache : ChangeCache} (h : cache.path.hasNul = false) (host : Host) (w : World) :
    saveCache cache host w = (.ok { cache with lastBuild := host.clock },
      match w.tree.writeFile cache.path (Utf8.encode { cache with lastBuild := host.clock }.encode) w.nextStamp with
      | .ok tree => { w with tree, written := w.written ++ [cache.path], nextStamp := w.nextStamp + 1 }
      | .error fault =>
        let log := w.log ++ [.note .warning ("Failed to save build cache: " ++ fault.message)]
        { w with nextStamp := w.nextStamp + 1, log }) := by
  let saved : ChangeCache := { cache with lastBuild := host.clock }
  have hsave : saveCache cache host w =
      (tryCatch (Action.writeBytes saved.path (Utf8.encode saved.encode)) _ >>= fun _ =>
        pure saved : Action ChangeCache) host w := rfl
  rw [hsave, Program.run_bind, Program.run_tryCatch, Action.run_writeBytes h]
  cases w.tree.writeFile saved.path (Utf8.encode saved.encode) w.nextStamp <;> rfl

/-! ### Up to the file of the bundle -/

/-- A build fails because there are no modules that could be merged. -/
inductive LacksModules : BuildError → Prop
  | noModules {extension : String} {folder : Path} : LacksModules (.noModules extension folder)
  | nothingLeft : LacksModules .nothingLeft

/-- In a world, nothing has been done but to write a bundle as it was assembled. -/
structure HasBundle (output : Path) (text : Text) (world w : World) : Prop where
  calls : w.calls = world.calls
  written : w.written = world.written ++ [output]
  tree : ∃ t stamp, world.tree.Grows t ∧ t.writeFile output (Utf8.encode text) stamp = .ok w.tree

/-- How the steps up to the file of the bundle end. -/
inductive Writing (s : Settings) (output : Path) (world w : World) :
    Except Failure (ChangeCache × Bundle) → Prop
  | fault {fault : Fault} : w.calls = world.calls → w.written = world.written →
    Writing s output world w (.error (.fault fault))
  | lacksModules {error : BuildError} : LacksModules error → w.calls = world.calls →
    w.written = world.written → w.tree = world.tree → Writing s output world w (.error (.build error))
  | bundle {found : ChangeCache × Bundle} {warnings : List Warning} :
    bundleOf s world.tree output = .ok (found.2, warnings) → found.1.path = s.cachePath →
      HasBundle output found.2.text world w → Writing s output world w (.ok found)

/-- A bundle is written whole, or it is not, and that is a fault. -/
theorem writeBundle_cases (host : Host) (output : Path) (bundle : Bundle) (w : World) (r : Result) :
    ∃ result w' r', writeBundle output bundle host (w, r) = (result, w', r') ∧ w'.calls = w.calls ∧
      ((∃ fault, result = .error (.fault fault)) ∧ w'.written = w.written ∨
        result = .ok () ∧ w'.written = w.written ++ [output] ∧ ∃ stamp,
          (w.tree.makeFolders output.parent).1.writeFile output (Utf8.encode bundle.text) stamp = .ok w'.tree) := by
  obtain ⟨result, w', hrun, hcalls, hcases⟩ := Action.writeText_cases host output bundle.text w
  have hstage : Step.stage "write" (Step.act (Action.writeText output bundle.text)) host (w, r) =
      (result, { w' with log := w'.log ++ [.note .debug "write: 0.00ms"] },
        { r with stages := r.stages ++ ["write"] }) := by
    rw [Step.stage, Step.act, hrun]
    rfl
  unfold writeBundle
  rw [Program.run_bind, hstage]
  rcases hcases with ⟨⟨fault, rfl⟩, hwritten⟩ | ⟨⟨size, rfl⟩, hwritten, htree⟩
  · exact ⟨_, _, _, rfl, hcalls, .inl ⟨⟨fault, rfl⟩, hwritten⟩⟩
  · -- What follows is noted and put on record only.
    have hrest (r : Result) : ∃ r', Does w'.tree r (do
        Step.record fun r => { r with bundleSize := size, finalSize := size }
        Step.note .info s!"Built {output} from {bundle.merged.length} modules"
        (← get).2.warnings.forM fun warning => Step.note .warning warning.text : Step Unit) (.ok ()) r' :=
      ⟨_, .bind (.record _) (.bind (.note _ _) (.bind_get fun _ _ => .forM (fun _ => .note _ _) _))⟩
    obtain ⟨r', hdoes⟩ := hrest { r with stages := r.stages ++ ["write"] }
    obtain ⟨log, hrun'⟩ := hdoes host { w' with log := w'.log ++ [.note .debug "write: 0.00ms"] } rfl
    exact ⟨_, _, _, hrun', hcalls, .inr ⟨rfl, hwritten, htree⟩⟩

theorem writing_written (host : Host) (s : Settings) (o : Options) (output : Path) (world : World)
    (r : Result) : Writing s output world (written s o output host (world, r)).2.1
      (written s o output host (world, r)).1 := by
  obtain ⟨value, r', hdoes, hassembling⟩ := exists_does_assembled s o world.tree output r
  obtain ⟨log, hrun⟩ := hdoes host world rfl
  rw [written, run_followedBy, hrun]
  cases hassembling with
  | fault => exact .fault rfl rfl
  | noModules => exact .lacksModules .noModules rfl rfl rfl
  | nothingLeft => exact .lacksModules .nothingLeft rfl rfl rfl
  | @bundle cache bundle warnings r' hfiles hbundle hpath hrecord =>
    obtain ⟨result, w', r'', hwrite, hcalls, hcases⟩ :=
      writeBundle_cases host output bundle { world with log } r'
    dsimp only
    rw [hwrite]
    rcases hcases with ⟨⟨fault, rfl⟩, hwritten⟩ | ⟨rfl, hwritten, stamp, hwrite⟩
    · exact .fault hcalls hwritten
    · exact .bundle hbundle hpath ⟨hcalls, hwritten, _, stamp, Tree.grows_makeFolders _ _, hwrite⟩

/-! ### After the bundle is written -/

/-- The outside programs of a host write nothing but into its temporary folder. -/
def KeepsAside (host : Host) : Prop := ∀ t argv, ∀ file ∈ (host.run t argv).files, host.scratch.LiesIn file.1

/-- What a stage may do that leaves the bundle as it is: it may start some programs, change the
temporary folder, and fail with some errors. -/
def aside (host : Host) (calls : Call → Prop) (error : BuildError → Prop) : Scope where
  calls := calls
  written _ := False
  tree := Tree.ChangesIn host.scratch.parts
  error := error
  tree_refl := .refl _
  tree_trans := .trans

/-- What a step may do that fails for a fault only. -/
def faultsOnly : Scope where
  calls _ := True
  written _ := True
  tree _ _ := True
  error _ := False
  tree_refl _ := trivial
  tree_trans _ _ := trivial

section aside

variable {calls : Call → Prop} {error : BuildError → Prop} {w' w'' : World}

/-- Of the world, nothing but the log, the calls and the temporary folder has changed. -/
structure Keeps (host : Host) (w w' : World) : Prop where
  written : w'.written = w.written
  tree : w.tree.ChangesIn host.scratch.parts w'.tree

theorem Keeps.trans (h : Keeps host w w') (h' : Keeps host w' w'') : Keeps host w w'' :=
  ⟨h'.written.trans h.written, h.tree.trans h'.tree⟩

theorem keeps_of_allows (h : (aside host calls error).Allows w w') : Keeps host w w' := by
  obtain ⟨-, ⟨new, hnew, hnone⟩, htree⟩ := h
  have hnil : new = [] := List.eq_nil_iff_forall_not_mem.2 hnone
  exact ⟨by rw [hnew, hnil, List.append_nil], htree⟩

theorem keeps_of_within {α : Type} {step : Step α} (h : step.Within host (aside host calls error))
    {state state' : World × Result} {value : Except Failure α} (hrun : step host state = (value, state')) :
    Keeps host state.1 state'.1 ∧ ∀ fault, value = .error (.build fault) → error fault := by
  obtain ⟨hchange, hfailure⟩ := h state
  rw [hrun] at hchange hfailure
  exact ⟨keeps_of_allows hchange.1, fun fault => hfailure (.build fault)⟩

theorem changesIn_writeAll {folder : Path} {files : List (Path × Bytes)}
    (h : ∀ file ∈ files, folder.LiesIn file.1) (stamp : Int) (t : Tree) :
    t.ChangesIn folder.parts (Tool.writeAll stamp t files).1 := by
  induction files generalizing t with
  | nil => exact .refl _ _
  | cons file files ih =>
    rw [List.forall_mem_cons] at h
    unfold Tool.writeAll
    split
    · next t' hwrite => exact (Tree.changesIn_writeFile h.1 hwrite).trans (ih h.2 t')
    · exact .refl _ _

theorem admitsTools_aside (h : KeepsAside host) : (aside host calls error).AdmitsTools host :=
  fun t t' argv stamp => changesIn_writeAll (h t' argv) stamp t

theorem liesIn_child {folder : Path} {name : String} (habsolute : folder.isAbsolute)
    (hdots : ".." ∉ folder.parts) (hname : Path.IsName name) : folder.LiesIn (folder.child name) := by
  rw [Path.child_of_isName hname]
  refine ⟨habsolute, ?_, List.prefix_append _ _⟩
  simpa [Path.under, hdots] using hname.ne_dots.symm

theorem admitsFolder_aside (habsolute : host.scratch.isAbsolute) (hdots : ".." ∉ host.scratch.parts)
    {name : String} (hname : Path.IsName name) :
    Terser.AdmitsFolder (aside host calls error) host name where
  make t := Tree.changesIn_make _ t
  write hwrite := Tree.changesIn_writeFile (liesIn_child habsolute hdots hname) hwrite
  remove t := Tree.changesIn_delete habsolute hdots t

end aside

/-- A program was started to check the bundle. -/
inductive IsCheck : Call → Prop
  | mk {argv : List String} {limit : Limit} : IsCheck (.check argv limit)

section stages

variable (haside : KeepsAside host) (habsolute : host.scratch.isAbsolute)
  (hdots : ".." ∉ host.scratch.parts) (hslash : '/' ∉ output.name.toList)

theorem within_validate_aside (text : Text) :
    (validate s output text).Within host (aside host IsCheck Stopped) :=
  within_validate (fun _ _ => IsCheck.mk) (fun _ => Stopped.checker) (fun _ _ => Stopped.invalid) text

include haside in
theorem within_lintIf_aside : (lintIf s o output).Within host (aside host (Eslint.Called s.root) Stopped) :=
  within_lintIf (fun _ h => h) (admitsTools_aside haside) fun _ => Stopped.eslint

include haside habsolute hdots hslash in
theorem within_runTerser_aside (bundle : Bundle) :
    (runTerser s o output bundle).Within host (aside host (Terser.Called s.root) Stopped) :=
  within_runTerser (fun _ h => h) (admitsTools_aside haside) (fun _ => Stopped.terser)
    (admitsFolder_aside habsolute hdots (Path.isName_input hslash)) bundle

end stages

/-! ### A build that has failed -/

theorem admits_faultsOnly (p : Path) : faultsOnly.Admits p :=
  ⟨trivial, fun _ => trivial, fun _ => trivial⟩

theorem ne_build_of_faultsOnly {α : Type} {step : Step α} (h : step.Within host faultsOnly)
    {state state' : World × Result} {error : BuildError} :
    step host state ≠ (.error (.build error), state') := by
  intro hrun
  have hfailure := (h state).2 (.build error)
  rw [hrun] at hfailure
  exact hfailure rfl

/-- Minifying or optimizing a bundle stops a build only if Terser does, and then nothing is written. -/
theorem keeps_of_shrink (haside : KeepsAside host) (habsolute : host.scratch.isAbsolute)
    (hdots : ".." ∉ host.scratch.parts) (hslash : '/' ∉ output.name.toList) {bundle : Bundle}
    {state state' : World × Result} {error : BuildError}
    (h : shrink s o output bundle host state = (.error (.build error), state')) :
    Stopped error ∧ Keeps host state.1 state'.1 := by
  obtain ⟨w, r⟩ := state
  have hoptimize : (Step.stage "optimize" (optimize s output bundle)).Within host faultsOnly :=
    Step.within_stage _ (within_optimize (admits_faultsOnly _) (fun copy _ => admits_faultsOnly copy) _)
  have hkeep (small : Terser.Output) : (keepSmall output small).Within host faultsOnly :=
    within_keepSmall (admits_faultsOnly _) (fun map _ => admits_faultsOnly map) small
  have hterser := Step.within_act
    (within_runTerser_aside (s := s) (o := o) haside habsolute hdots hslash bundle)
  -- Optimizing never ends in a build error, and of minifying only the run of Terser does.
  unfold shrink at h
  split at h
  · rw [Step.stage, minify_eq, Program.run_bind] at h
    rcases hrun : Step.act (runTerser s o output bundle) host (w, r) with ⟨failure | small, mid⟩
    · rw [hrun] at h
      cases h
      obtain ⟨hkeeps, herror⟩ := keeps_of_within hterser hrun
      exact ⟨herror error rfl, hkeeps.written, hkeeps.tree⟩
    · rw [hrun] at h
      dsimp only at h
      rcases hkept : keepSmall output small host mid with ⟨failure | done, last⟩
      · rw [hkept] at h
        cases h
        exact absurd hkept (ne_build_of_faultsOnly (hkeep small))
      · rw [hkept] at h
        cases h
  · split at h
    · exact absurd h (ne_build_of_faultsOnly hoptimize)
    · cases h

/-- A build that fails after its bundle was written has changed nothing since but the temporary
folder. -/
theorem stopped_of_shrunk (haside : KeepsAside host) (habsolute : host.scratch.isAbsolute)
    (hdots : ".." ∉ host.scratch.parts) (hslash : '/' ∉ output.name.toList)
    {state mid state' : World × Result} {error : BuildError}
    (hwritten : written s o output host state = (.ok found, mid))
    (h : shrunk s o output host state = (.error (.build error), state')) :
    Stopped error ∧ Keeps host mid.1 state'.1 := by
  have hvalidate : (validate s output found.2.text).Within host (aside host IsCheck Stopped) :=
    within_validate_aside found.2.text
  have hlint : (lintIf s o output).Within host (aside host (Eslint.Called s.root) Stopped) :=
    within_lintIf_aside haside
  have hchecked {last : World × Result}
      (h : checked s o output host state = (.error (.build error), last)) :
      Stopped error ∧ Keeps host mid.1 last.1 := by
    rcases followedBy_eq_error_iff.1 h with h | ⟨found', mid', h, hchecking⟩
    · cases hwritten.symm.trans h
    · cases hwritten.symm.trans h
      obtain ⟨hkeeps, herror⟩ := keeps_of_within hvalidate hchecking
      exact ⟨herror error rfl, hkeeps⟩
  have hpassed {found' : ChangeCache × Bundle} {last : World × Result}
      (h : checked s o output host state = (.ok found', last)) :
      found' = found ∧ Keeps host mid.1 last.1 := by
    obtain ⟨mid', h, hchecking⟩ := followedBy_eq_ok_iff.1 h
    cases hwritten.symm.trans h
    exact ⟨rfl, (keeps_of_within hvalidate hchecking).1⟩
  -- The stage that fails is the check, the linting or the last one, and those before it kept the rest.
  rcases followedBy_eq_error_iff.1 h with h | ⟨found', linted, h, hshrink⟩
  · rcases followedBy_eq_error_iff.1 h with h | ⟨found', checked, h, hlinting⟩
    · exact hchecked h
    · obtain ⟨hkeeps, herror⟩ := keeps_of_within hlint hlinting
      exact ⟨herror error rfl, (hpassed h).2.trans hkeeps⟩
  · obtain ⟨checked, h, hlinting⟩ := followedBy_eq_ok_iff.1 h
    obtain ⟨hstopped, hkeeps⟩ := keeps_of_shrink haside habsolute hdots hslash hshrink
    exact ⟨hstopped, ((hpassed h).2.trans (keeps_of_within hlint hlinting).1).trans hkeeps⟩

/-- A build that fails before its bundle is written ends there. -/
theorem shrunk_of_written {state state' : World × Result} {failure : Failure}
    (h : written s o output host state = (.error failure, state')) :
    shrunk s o output host state = (.error failure, state') :=
  followedBy_eq_error_iff.2 <| .inl <| followedBy_eq_error_iff.2 <| .inl <|
    followedBy_eq_error_iff.2 <| .inl h

/-- A build that has failed has changed no file. -/
structure LeavesNothing (world after : World) : Prop where
  written : after.written = world.written
  tree : after.tree = world.tree

/-- A build that has failed has written one file, its bundle as it was assembled. Every other file
outside the temporary folder is as it was. -/
structure LeavesBundle (host : Host) (output : Path) (text : Text) (world after : World) : Prop where
  written : after.written = world.written ++ [output]
  bundle : after.tree.read output = .ok (Utf8.encode text)
  others : ∃ names, after.tree.names output = .ok names ∧
    ∀ other, other ≠ names → ¬ host.scratch.parts <+: other → ∀ content stamp,
      after.tree.faceAt other = some (.file content stamp) ↔
        world.tree.faceAt other = some (.file content stamp)

theorem leavesBundle_of_keeps {after : World} (hbundle : HasBundle output text world w)
    (hfree : w.tree.IsFree host.scratch) (h : Keeps host w after) :
    LeavesBundle host output text world after := by
  obtain ⟨-, hwritten, t, stamp, hgrows, hwrite⟩ := hbundle
  have hsame : Tree.SameOutside host.scratch.parts w.tree after.tree := h.tree hfree.parts_ne_nil hfree.parent
  obtain ⟨names, hnames, hhere, hface, hfolder, hother⟩ := Tree.faceAt_writeFile hwrite
  have hnames' : w.tree.names output = .ok names :=
    Tree.names_of_folders hnames hhere fun other hother' => by
      rw [hother other fun heq => hfolder (heq ▸ hother'), hother']
  refine ⟨by rw [h.written, hwritten], Tree.read_of_sameOutside hfree hsame (Tree.read_writeFile hwrite),
    names, Tree.names_of_sameOutside hfree hsame hnames', fun other hne hout content stamp => ?_⟩
  rw [hsame.2 other hout, hother other hne]
  exact hgrows.faceAt_eq_file_iff

theorem writing_start (host : Host) (s : Settings) (o : Options) (world : World) :
    Writing s (outputPath s o) world (written s o (outputPath s o) host (start s o world)).2.1
      (written s o (outputPath s o) host (start s o world)).1 :=
  writing_written host s o (outputPath s o) world { output := outputPath s o }

/-- Writing the change cache fails for a fault only. -/
theorem shrunk_of_steps {state state' : World × Result} {error : BuildError}
    (h : steps s o output host state = (.error (.build error), state')) :
    shrunk s o output host state = (.error (.build error), state') := by
  rw [steps_eq, Program.run_bind] at h
  rcases hshrunk : shrunk s o output host state with ⟨failure | found, mid⟩
  · rw [hshrunk] at h
    cases h
    rfl
  · rw [hshrunk] at h
    have hsave : (do let _ ← Step.act (saveCache found.1) : Step Unit).Within host faultsOnly :=
      .bind (Step.within_act (within_saveCache (admits_faultsOnly _))) fun _ _ => .pure _
    exact absurd h (ne_build_of_faultsOnly hsave)

/-- A run that fails ends with a build error of its steps. -/
theorem exists_error_of_run {result : Result} {after : World}
    (h : run s o host world = (.ok result, after)) (hfail : result.isSuccess = false) :
    ∃ error w r log, result.error = some error ∧ after = { w with log } ∧
      steps s o (outputPath s o) host (start s o world) = (.error (.build error), w, r) := by
  rw [run_eq] at h
  rcases hsteps : steps s o (outputPath s o) host (start s o world) with ⟨(error | fault) | done, w, r⟩ <;>
    rw [hsteps] at h
  · cases h
    exact ⟨error, w, r, _, rfl, rfl, rfl⟩
  · cases h
  · cases h
    cases hfail

/-- What a build leaves that has failed: nothing if there was nothing to be merged, and its bundle as it
was assembled if it was stopped later. -/
theorem leaves_of_run (haside : KeepsAside host) (hslash : '/' ∉ (outputPath s o).name.toList)
    (hfree : ∀ found w r, written s o (outputPath s o) host (start s o world) = (.ok found, w, r) →
      w.tree.IsFree host.scratch)
    {result : Result} {after : World} (h : run s o host world = (.ok result, after))
    (hfail : result.isSuccess = false) :
    (∃ error, result.error = some error ∧ LacksModules error) ∧ LeavesNothing world after ∨
      ∃ error bundle warnings, result.error = some error ∧ Stopped error ∧
        bundleOf s world.tree (outputPath s o) = .ok (bundle, warnings) ∧
        LeavesBundle host (outputPath s o) bundle.text world after := by
  obtain ⟨error, w, r, log, herror, rfl, hsteps⟩ := exists_error_of_run h hfail
  have hshrunk := shrunk_of_steps hsteps
  have hwriting := writing_start host s o world
  rcases hwritten : written s o (outputPath s o) host (start s o world) with ⟨failure | found, mid, rmid⟩
  · -- The run ends where the steps up to the file end.
    cases (shrunk_of_written hwritten).symm.trans hshrunk
    rw [hwritten] at hwriting
    cases hwriting with
    | lacksModules hlacks hcalls hfiles htree => exact .inl ⟨⟨error, herror, hlacks⟩, hfiles, htree⟩
  · rw [hwritten] at hwriting
    have hfree := hfree found mid rmid hwritten
    obtain ⟨hstopped, hkeeps⟩ :=
      stopped_of_shrunk haside hfree.absolute hfree.dots_not_mem hslash hwritten hshrunk
    cases hwriting with
    | @bundle _ warnings hbundle hpath hhas =>
      exact .inr ⟨error, found.2, warnings, herror, hstopped, hbundle,
        leavesBundle_of_keeps hhas hfree ⟨hkeeps.written, hkeeps.tree⟩⟩

end Build

end Userscript
