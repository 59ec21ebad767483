import Userscript.Proofs.Build.Ending
import Userscript.Proofs.Build.Products
import Userscript.Proofs.Tool.Minifying

/-!
# Builds that a tool breaks off

A build whose bundle is written goes on to the outside tools. If all that it writes can be written, it ends
with a result unless a tool breaks it off: Node when it checks the bundle, or the files that Terser leaves.
Whatever else Node, ESLint and Terser do, the build reports it. The limit of time of the tools is a number here
that a floating-point number comes near to, which may still be more than Node can be waited for.

## Main definitions

* `Build.Workable` — what a build needs besides the tools is there
* `Build.CheckFault`, `Build.TerserFault`, `Build.ToolFault` — what a tool does to break a build off

## Main results

* `validate_fault_iff`, `minify_fault_iff` — what breaks the stages off
* `run_fault_iff` — what breaks a build off once its bundle is written
-/

namespace Userscript.Build

variable {α : Type} {s : Settings} {o : Options} {output : Path} {host : Host} {world w w' : World}
  {r r' : Result} {bundle : Bundle} {found : ChangeCache × Bundle} {fault : Fault} {failure : Failure → Prop}

/-! ### What steps keep -/

/-- What an action may do that keeps the folders. -/
def keepsFolders : Scope where
  calls _ := True
  written _ := True
  tree := Tree.SameFolders
  error _ := True
  tree_refl := .refl
  tree_trans := .trans

/-- The folders and the size of the bundle on record stay as they are, and a step fails for some reasons
only. -/
def steadyBound (failure : Failure → Prop) : Bound (World × Result) where
  change state state' := state.1.tree.SameFolders state'.1.tree ∧ state'.2.bundleSize = state.2.bundleSize
  failure := failure
  refl state := ⟨.refl state.1.tree, rfl⟩
  trans h h' := ⟨h.1.trans h'.1, h'.2.trans h.2⟩

theorem steady_act {action : Action α} (h : Steady host failure action) :
    Within host (steadyBound failure) (Step.act action) :=
  fun state => ⟨⟨(h state.1).1, rfl⟩, (h state.1).2⟩

theorem steady_stage {step : Step α} (name : String) (h : Within host (steadyBound failure) step) :
    Within host (steadyBound failure) (Step.stage name step) :=
  fun state => ⟨(h state).1, (h state).2⟩

theorem steady_validate (s : Settings) (output : Path) (text : Text) (host : Host) :
    Within host (steadyBound fun _ => True) (validate s output text) := by
  have hchecked : Action.Within host keepsFolders (do
      let checker ← checker s
      checker.check text (some output)) :=
    .bind (within_checker (fun _ => trivial) s) fun checker _ => checker.within_check (fun _ _ => trivial) _ _
  unfold validate
  refine .bind (steady_stage _ (steady_act (.of_within hchecked fun _ _ h => h))) fun verdict _ => ?_
  split
  · exact .throw trivial
  · exact .pure _

/-- Linting fails for a build error only. -/
theorem steady_lintIf (hlimit : s.stageTimeout.Fits) (o : Options) (output : Path) (host : Host) :
    Within host (steadyBound IsReported) (lintIf s o output) := by
  unfold lintIf
  split
  · unfold lint
    refine .bind (steady_stage _ (steady_act (.bind ?_ fun eslint hgives => ?_))) fun linted _ => ?_
    · exact .bind .read fun _ _ => .bind .get fun _ _ => .pure _
    · obtain ⟨w, w', hgives⟩ := hgives
      cases hgives
      exact Eslint.steady_run rfl hlimit output
    · extract_lets warning
      split
      · exact .modify fun state => ⟨.refl state.1.tree, rfl⟩
      · exact .pure _
  · exact .pure ()

/-! ### Checking -/

/-- That there is no such checker is a build error. -/
theorem run_checker (hvalidator : s.fault? .validator = none) (host : Host) (w : World) : checker s host w =
    (tryCatch (Checker.ofName s.validator (some s.stageTimeout)) fun failure =>
      match failure with
      | .fault (.noChecker name) => Action.fail (.build (.checker name))
      | failure => throw failure : Action Checker) host w := by
  unfold checker Settings.demand
  rw [hvalidator]
  rfl

/-- Choosing the checker of a project ends with Node, with the parser, or with a build error. -/
theorem checker_cases (hvalidator : s.fault? .validator = none) (host : Host) (w : World) :
    ∃ result w', checker s host w = (result, w') ∧ w'.tree = w.tree ∧
      (Checker.ChoosesNode s.validator host ∧ result = .ok (.node (host.which "node") s.stageTimeout) ∨
        ¬ Checker.ChoosesNode s.validator host ∧
          (result = .ok .parser ∨ result = .error (.build (.checker s.validator)))) := by
  obtain ⟨result, w', hchosen, htree, hcases⟩ := Checker.ofName_cases s.validator s.stageTimeout host w
  rw [run_checker hvalidator, Program.run_tryCatch, hchosen]
  rcases hcases with ⟨hnode, rfl⟩ | ⟨hother, rfl | rfl⟩
  · exact ⟨_, _, rfl, htree, .inl ⟨hnode, rfl⟩⟩
  · exact ⟨_, _, rfl, htree, .inr ⟨hother, .inl rfl⟩⟩
  · exact ⟨_, _, rfl, htree, .inr ⟨hother, .inr rfl⟩⟩

/-- A check by Node breaks off. -/
structure CheckFault (s : Settings) (host : Host) (output : Path) (t : Tree) (fault : Fault) : Prop where
  chosen : s.validator = "auto" ∨ s.validator = "node"
  breaks : ∃ program, Checker.nodeProgram? host = some program ∧
    (host.run t [program, "--check", output.toString]).BreaksCheck s.stageTimeout fault

/-- The check of a bundle that is there is broken off exactly if it is one by Node that breaks off. -/
theorem validate_fault_iff (hvalidator : s.fault? .validator = none) (hhas : w.tree.has output) (text : Text) :
    (validate s output text host (w, r)).1 = .error (.fault fault) ↔ CheckFault s host output w.tree fault := by
  obtain ⟨result, w', hchecker, htree, hcases⟩ := checker_cases hvalidator host w
  -- A verdict against the bundle is a build error, so a fault is one of the check.
  have hstep : (validate s output text host (w, r)).1 = .error (.fault fault) ↔
      ((checker s >>= fun checker => checker.check text (some output)) host w).1 = .error (.fault fault) := by
    unfold validate
    rw [Program.bind_eq_error_iff]
    constructor
    · rintro (h | ⟨verdict, mid, -, h⟩)
      · exact h
      · cases verdict <;> cases h
    · exact .inl
  rw [← htree] at hhas
  rw [hstep, Program.bind_eq_error_iff, hchecker, ← htree]
  rcases hcases with ⟨hnode, rfl⟩ | ⟨hother, hresult⟩
  · constructor
    · rintro (h | ⟨_, _, hvalue, h⟩)
      · cases h
      · cases hvalue
        obtain ⟨program, hprogram, hbreaks⟩ := (Checker.check_node_fault_iff hhas).1 h
        exact ⟨hnode.symm.imp_left And.left, program, hprogram, hbreaks⟩
    · rintro ⟨-, program, hprogram, hbreaks⟩
      exact .inr ⟨_, _, rfl, (Checker.check_node_fault_iff hhas).2 ⟨program, hprogram, hbreaks⟩⟩
  · -- The checker is the parser, or there is none of this name.
    constructor
    · rintro (h | ⟨_, _, hvalue, h⟩)
      · rcases hresult with rfl | rfl <;> cases h
      · rcases hresult with rfl | rfl
        · cases hvalue
          exact absurd h (Checker.check_parser_ne_fault text _)
        · cases hvalue
    · rintro ⟨hchosen, program, hprogram, -⟩
      exact absurd (hchosen.symm.imp_right fun hauto => ⟨hauto, by simp [hprogram]⟩) hother

/-! ### Writing over the bundle -/

theorem run_record_bind (f : Result → Result) (next : Unit → Step α) (host : Host) (w : World) (r : Result) :
    (Step.record f >>= next) host (w, r) = next () host (w, f r) := rfl

theorem run_note_bind (level : Log.Level) (message : String) (next : Unit → Step α) (host : Host) (w : World)
    (r : Result) : (Step.note level message >>= next) host (w, r) =
      next () host ({ w with log := w.log ++ [.note level message] }, r) := rfl

/-- Noting what was saved fails if it is not written out. -/
def notedSaving (before : Nat) (text : Text) : Except Failure Unit :=
  ((Size.savings before (Utf8.encode text).length).mapError Failure.fault).map fun _ => ()

theorem notedSaving_eq_error_iff {before : Nat} {text : Text} {failure : Failure} :
    notedSaving before text = .error failure ↔
      ∃ fault, failure = .fault fault ∧ Size.savings before (Utf8.encode text).length = .error fault := by
  unfold notedSaving
  cases Size.savings before (Utf8.encode text).length with
  | error fault => simp [mapError_error, Except.map, eq_comm]
  | ok saved => simp [mapError_ok, Except.map]

/-- Writing over a bundle that can be written fails only if what was saved is not written out. -/
theorem fst_replaceBundle (houtput : w.tree.Writable output) (text : Text) (word : String) (host : Host)
    (r : Result) : (replaceBundle output text word host (w, r)).1 = notedSaving r.bundleSize text := by
  obtain ⟨w', hwrite, -⟩ := Action.run_writeText host houtput text
  have hrun : replaceBundle output text word host (w, r) = (do
      Step.record fun r => { r with finalSize := (Utf8.encode text).length }
      let saved ← savings (← get).2
      Step.note .info (word ++ ": " ++ saved) : Step Unit) host (w', r) := by
    unfold replaceBundle
    rw [Program.run_bind, Step.act, hwrite]
  rw [hrun, run_record_bind, Program.run_get_bind, Program.run_bind, notedSaving]
  unfold savings
  dsimp only
  cases Size.savings r.bundleSize (Utf8.encode text).length <;> rfl

/-- A small script with a line break in the end. -/
def closed (code : Text) : Text := if Text.endsWith ['\n'] code then code else code ++ ['\n']

theorem fst_keepSmall {map : Path} (houtput : w.tree.Writable output)
    (hmap : output.withName? (output.name ++ ".map") = some map) (hwritable : w.tree.Writable map)
    (small : Terser.Output) (host : Host) (r : Result) :
    (keepSmall output small host (w, r)).1 = notedSaving r.bundleSize (closed small.code) := by
  -- A source map is written before the bundle, and leaves the folders as they are.
  cases htext : small.map with
  | none =>
    have hrun : keepSmall output small = replaceBundle output (closed small.code) "Minified" := by
      unfold keepSmall
      rw [htext]
      rfl
    rw [hrun, fst_replaceBundle houtput]
  | some text =>
    have hrun : keepSmall output small = (do
        Step.record fun r => { r with sourceMap := some map }
        let _ ← Step.act (Action.writeText map text)
        Step.note .debug s!"Source map written: {map}"
        replaceBundle output (closed small.code) "Minified") := by
      unfold keepSmall
      rw [htext]
      dsimp only
      rw [hmap]
      rfl
    obtain ⟨w', hwrite, hsame⟩ := Action.run_writeText host hwritable text
    rw [hrun, run_record_bind, Program.run_bind, Step.act, hwrite]
    dsimp only
    rw [run_note_bind]
    refine fst_replaceBundle ?_ _ _ host _
    exact houtput.of_sameFolders hsame

theorem fst_optimize {copy : Path} {small : Text} (houtput : w.tree.Writable output)
    (hcopy : debugCopy output = .ok copy) (hwritable : w.tree.Writable copy)
    (hsmall : optimizedText s bundle = .ok small) (host : Host) (r : Result) :
    (optimize s output bundle host (w, r)).1 = notedSaving r.bundleSize small := by
  obtain ⟨w', hwrite, hsame⟩ := Action.run_writeText host hwritable bundle.text
  rw [optimizedText] at hsmall
  unfold optimize
  simp only [hcopy, hsmall, pure_bind]
  rw [run_record_bind, Program.run_bind, Step.act, hwrite]
  dsimp only
  rw [run_note_bind, run_note_bind, run_note_bind]
  refine fst_replaceBundle ?_ _ _ host _
  exact houtput.of_sameFolders hsame

/-! ### Minifying -/

/-- The Terser of a project. -/
def terserOf (s : Settings) (host : Host) (t : Tree) : Terser :=
  ⟨Tool.find? host t s.root "terser", s.reservedNames⟩

/-- Terser ends well on a bundle, and leaves a tree. -/
def TerserLeaves (s : Settings) (o : Options) (host : Host) (output : Path) (bundle : Bundle) (w : World)
    (left : Tree) : Prop :=
  Terser.Ends (terserOf s host w.tree) host s.stageTimeout (Text.replaceFirst bundle.header [] bundle.text)
    output.name { pretty := o.pretty, sourceMap := o.sourceMap, preamble := bundle.header } host.scratch
    w.nextStamp (w.tree.withEmpty host.scratch) left

/-- What breaks the minifying of a bundle off: Terser ends well, but a file that it leaves holds no text, or
what is saved by the small script is not written out. -/
inductive TerserFault (s : Settings) (o : Options) (host : Host) (output : Path) (bundle : Bundle) (w : World) :
    Fault → Prop
  | output {left : Tree} {fault : Fault} : TerserLeaves s o host output bundle w left →
    Terser.BreaksOutput left (host.scratch.child output.name) (host.scratch.child (output.name ++ ".map"))
      fault → TerserFault s o host output bundle w fault
  | saving {left : Tree} {small : Terser.Output} {fault : Fault} :
    TerserLeaves s o host output bundle w left →
      Terser.outputOf left (host.scratch.child output.name) (host.scratch.child (output.name ++ ".map")) =
        .ok small →
      Size.savings (Utf8.encode bundle.text).length (Utf8.encode (closed small.code)).length = .error fault →
        TerserFault s o host output bundle w fault

/-- What a build needs besides the tools to go on from its bundle: the settings are of the kinds that it uses,
and it can write what it is to write. -/
structure Workable (s : Settings) (o : Options) (host : Host) (output : Path) (bundle : Bundle) (t : Tree) :
    Prop where
  validator : s.fault? .validator = none
  limit : s.stageTimeout.Fits
  name : Path.IsName output.name
  place : t.Writable output
  scratch : t.TakesFolder host.scratch
  scratch_nul : host.scratch.hasNul = false
  cache_nul : s.cachePath.hasNul = false
  minified : o.minify → s.fault? .reservedNames = none ∧
    ∃ map, output.withName? (output.name ++ ".map") = some map ∧ t.Writable map
  optimized : o.minify = false → o.optimized → ∃ copy small, debugCopy output = .ok copy ∧ t.Writable copy ∧
    optimizedText s bundle = .ok small ∧ notedSaving (Utf8.encode bundle.text).length small = .ok ()

theorem Workable.of_sameFolders {t t' : Tree} (h : Workable s o host output bundle t)
    (hsame : t.SameFolders t') : Workable s o host output bundle t' where
  validator := h.validator
  limit := h.limit
  name := h.name
  place := h.place.of_sameFolders hsame
  scratch := h.scratch.of_sameFolders hsame
  scratch_nul := h.scratch_nul
  cache_nul := h.cache_nul
  minified hminify := by
    obtain ⟨hreserved, map, hmap, hwritable⟩ := h.minified hminify
    exact ⟨hreserved, map, hmap, hwritable.of_sameFolders hsame⟩
  optimized hminify hoptimized := by
    obtain ⟨copy, small, hcopy, hwritable, hsmall⟩ := h.optimized hminify hoptimized
    exact ⟨copy, small, hcopy, hwritable.of_sameFolders hsame, hsmall⟩

/-- The character NUL is not in the name of the bundle. -/
theorem Workable.nul_not_mem {t : Tree} (h : Workable s o host output bundle t) :
    '\x00' ∉ output.name.toList := by
  have hmem : output.name ∈ output.parts := by
    rw [Path.name, List.getLastD_eq_getLast?, List.getLast?_eq_some_getLast h.place.named]
    exact List.getLast_mem _
  exact Path.hasNul_eq_false_iff.1 h.place.nul _ hmem

/-- A file can be written into the temporary folder. -/
theorem Workable.writable_child {t : Tree} (h : Workable s o host output bundle t) {name : String}
    (hname : Path.IsName name) (hnul : '\x00' ∉ name.toList) :
    (t.withEmpty host.scratch).Writable (host.scratch.child name) := by
  refine h.scratch.writable_child hname ?_
  rw [Path.child_of_isName hname, Path.hasNul_eq_false_iff]
  intro part hpart
  rcases List.mem_append.1 hpart with hpart | hpart
  · exact Path.hasNul_eq_false_iff.1 h.scratch_nul part hpart
  · exact List.mem_singleton.1 hpart ▸ hnul

section minify

variable (hworkable : Workable s o host output bundle w.tree) (hminify : o.minify)

include hworkable

/-- The files that Terser leaves are read unless one of them holds no text. -/
theorem outputOf_left_fault_iff {left : Tree} (hfolders : (w.tree.withEmpty host.scratch).SameFolders left) :
    Terser.outputOf left (host.scratch.child output.name) (host.scratch.child (output.name ++ ".map")) =
        .error (.fault fault) ↔
      Terser.BreaksOutput left (host.scratch.child output.name) (host.scratch.child (output.name ++ ".map"))
        fault := by
  have hname := hworkable.name
  have hnul := hworkable.nul_not_mem
  have hcode := hworkable.writable_child hname hnul
  have hsource := hworkable.writable_child (Path.isName_map hname) (by simpa using hnul)
  exact Terser.outputOf_fault_iff (hcode.of_sameFolders hfolders) (hsource.of_sameFolders hfolders)

include hminify

/-- Running Terser on a bundle ends with what is read of its files if it ends well, and with a build error
otherwise. -/
theorem act_runTerser_cases : ∃ result w', Step.act (runTerser s o output bundle) host (w, r) = (result, w', r) ∧
    w.tree.SameFolders w'.tree ∧
    ((∃ left, TerserLeaves s o host output bundle w left ∧
        (w.tree.withEmpty host.scratch).SameFolders left ∧
        result = Terser.outputOf left (host.scratch.child output.name)
          (host.scratch.child (output.name ++ ".map"))) ∨
      (∀ left, ¬ TerserLeaves s o host output bundle w left) ∧ ∃ error, result = .error (.build error)) := by
  have hinput := hworkable.writable_child (Path.isName_input hworkable.name.slash_not_mem)
    (by simpa using hworkable.nul_not_mem)
  have hterser : terser s host w = (.ok (terserOf s host w.tree), w) := by
    unfold terser Settings.demand
    rw [(hworkable.minified hminify).1]
    rfl
  obtain ⟨result, w', hrun, hsame, hcases⟩ := Terser.minify_cases (terserOf s host w.tree)
    (Text.replaceFirst bundle.header [] bundle.text)
    { pretty := o.pretty, sourceMap := o.sourceMap, preamble := bundle.header } s.root hworkable.scratch
    hworkable.limit hinput
  refine ⟨result, w', ?_, hsame, ?_⟩
  · rw [Step.act, runTerser, Program.run_bind, hterser]
    dsimp only
    rw [hrun]
  · obtain hends | ⟨hnot, failure, ⟨error, rfl⟩, hresult⟩ := hcases
    · exact .inl hends
    · exact .inr ⟨hnot, error, hresult⟩

/-- Once a small script is there, it is written, and what is saved is noted. -/
theorem fst_keepSmall_of_workable (hsame : w.tree.SameFolders w'.tree) (small : Terser.Output) :
    (keepSmall output small host (w', r)).1 = notedSaving r.bundleSize (closed small.code) := by
  obtain ⟨-, map, hmap, hwritable⟩ := hworkable.minified hminify
  exact fst_keepSmall (hworkable.place.of_sameFolders hsame) hmap (hwritable.of_sameFolders hsame) small host r

/-- Minifying a bundle is broken off if Terser's files break it off, and whatever else Terser does is a build
error. -/
theorem minify_fault_iff (hsize : r.bundleSize = (Utf8.encode bundle.text).length) :
    (minify s o output bundle host (w, r)).1 = .error (.fault fault) ↔
      TerserFault s o host output bundle w fault := by
  obtain ⟨result, w', hact, hsame, hcases⟩ := act_runTerser_cases (r := r) hworkable hminify
  rw [minify_eq, Program.bind_eq_error_iff, hact]
  rcases hcases with ⟨left, hends, hfolders, hresult⟩ | ⟨hnot, error, rfl⟩
  · -- Terser has ended well: its files are read, and then what is saved is noted.
    have hbreaks : Terser.outputOf left _ _ = .error (.fault fault) ↔ _ :=
      outputOf_left_fault_iff hworkable hfolders
    have hkeep := fst_keepSmall_of_workable (r := r) hworkable hminify hsame
    rw [hsize] at hkeep
    constructor
    · rintro (h | ⟨small, mid, hvalue, h⟩)
      · exact .output hends (hbreaks.1 (hresult.symm.trans h))
      · cases hvalue
        obtain ⟨_, hfault, hsaving⟩ := notedSaving_eq_error_iff.1 ((hkeep small).symm.trans h)
        cases hfault
        exact .saving hends hresult.symm hsaving
    · intro h
      cases h with
      | output hleaves hunread =>
        obtain rfl := hends.unique hleaves
        exact .inl (hresult.trans (hbreaks.2 hunread))
      | @saving left' small _ hleaves hread hsaving =>
        obtain rfl := hends.unique hleaves
        refine .inr ⟨small, (w', r), by rw [hresult, hread], ?_⟩
        exact (hkeep small).trans (notedSaving_eq_error_iff.2 ⟨fault, rfl, hsaving⟩)
  · -- Terser has failed, and so nothing of it is read.
    constructor
    · rintro (h | ⟨small, mid, hvalue, h⟩)
      · cases h
      · cases hvalue
    · intro h
      cases h with
      | output hleaves => exact absurd hleaves (hnot _)
      | saving hleaves => exact absurd hleaves (hnot _)

end minify

theorem shrink_fault_iff (hworkable : Workable s o host output bundle w.tree)
    (hsize : r.bundleSize = (Utf8.encode bundle.text).length) :
    (shrink s o output bundle host (w, r)).1 = .error (.fault fault) ↔
      o.minify ∧ TerserFault s o host output bundle w fault := by
  unfold shrink
  split
  · next hminify =>
    change (minify s o output bundle host (w, r)).1 = _ ↔ _
    rw [minify_fault_iff hworkable hminify hsize]
    simp [hminify]
  · next hminify =>
    split
    · next hoptimized =>
      obtain ⟨copy, small, hcopy, hwritable, hsmall, hsaving⟩ :=
        hworkable.optimized (Bool.eq_false_iff.2 hminify) hoptimized
      change (optimize s output bundle host (w, r)).1 = _ ↔ _
      rw [fst_optimize hworkable.place hcopy hwritable hsmall, hsize, hsaving]
      simp [hminify]
    · -- Nothing is done.
      constructor
      · intro h
        cases h
      · rintro ⟨h, -⟩
        exact absurd h hminify

/-! ### A whole build -/

/-- The size that is on record of a bundle that has been written is its own. -/
theorem bundleSize_of_written {state : World × Result}
    (h : written s o output host state = (.ok found, w, r)) :
    r.bundleSize = (Utf8.encode found.2.text).length := by
  obtain ⟨mid, -, h⟩ := followedBy_eq_ok_iff.1 h
  unfold writeBundle at h
  obtain ⟨size, ⟨w₁, r₁⟩, hwrite, h⟩ := Program.bind_eq_ok_iff.1 h
  rw [run_record_bind] at h
  -- The size is recorded first, and what is noted after that keeps it.
  have hnoted : Within host (steadyBound fun _ => True) (do
      Step.note .info s!"Built {output} from {found.2.merged.length} modules"
      (← get).2.warnings.forM fun warning => Step.note .warning warning.text) :=
    .bind (steady_act (steady_note _ _)) fun _ _ => .bind .get fun _ _ => .forM fun _ =>
      steady_act (steady_note _ _)
  have hkept := (hnoted (w₁, { r₁ with bundleSize := size, finalSize := size })).1.2
  rw [h] at hkept
  obtain ⟨u, r₂, hwrite, -⟩ := exists_of_stage hwrite
  have htext := (act_eq_ok_iff.1 hwrite).1
  unfold Action.writeText at htext
  obtain ⟨_, _, -, htext⟩ := Program.bind_eq_ok_iff.1 htext
  obtain ⟨_, _, -, htext⟩ := Program.bind_eq_ok_iff.1 htext
  cases htext
  exact hkept

/-- A bundle that has been written is there. -/
theorem has_of_written (h : written s o (outputPath s o) host (start s o world) = (.ok found, w, r)) :
    w.tree.has (outputPath s o) := by
  have hwriting := writing_start host s o world
  rw [h] at hwriting
  cases hwriting with
  | bundle hbundle hpath hhas =>
    obtain ⟨-, -, t, stamp, -, hwrite⟩ := hhas
    refine Tree.has_of_readText_ne_file fun fault => ?_
    rw [Tree.readText, Tree.read_writeFile hwrite]
    dsimp only
    cases Utf8.decode (Utf8.encode found.2.text) <;> simp

/-- What becomes of a tool that breaks a build off: the check of the bundle by Node breaks off, or what Terser
leaves breaks the minifying off. -/
inductive ToolFault (s : Settings) (o : Options) (host : Host) (world : World) : Fault → Prop
  | check {found : ChangeCache × Bundle} {w : World} {r : Result} {fault : Fault} :
    written s o (outputPath s o) host (start s o world) = (.ok found, w, r) →
      CheckFault s host (outputPath s o) w.tree fault → ToolFault s o host world fault
  | terser {found : ChangeCache × Bundle} {w : World} {r : Result} {fault : Fault} :
    linted s o (outputPath s o) host (start s o world) = (.ok found, w, r) → o.minify →
      TerserFault s o host (outputPath s o) found.2 w fault → ToolFault s o host world fault

section run

variable (hwritten : written s o (outputPath s o) host (start s o world) = (.ok found, w, r))
  (hworkable : Workable s o host (outputPath s o) found.2 w.tree)

include hwritten hworkable

/-- Up to the linting of its bundle, a build is broken off if the check of the bundle is. -/
theorem linted_fault_iff :
    (linted s o (outputPath s o) host (start s o world)).1 = .error (.fault fault) ↔
      CheckFault s host (outputPath s o) w.tree fault := by
  have hchecked : (checked s o (outputPath s o) host (start s o world)).1 = .error (.fault fault) ↔
      CheckFault s host (outputPath s o) w.tree fault := by
    rw [checked, fst_followedBy_eq_error_iff, hwritten,
      ← validate_fault_iff hworkable.validator (has_of_written hwritten) found.2.text]
    constructor
    · rintro (h | ⟨_, _, hfound, h⟩)
      · cases h
      · cases hfound
        exact h
    · exact fun h => .inr ⟨_, _, rfl, h⟩
  rw [linted, fst_followedBy_eq_error_iff, hchecked]
  constructor
  · rintro (h | ⟨_, mid, -, h⟩)
    · exact h
    · -- What linting fails for is a build error.
      obtain ⟨error, herror⟩ := (steady_lintIf hworkable.limit o (outputPath s o) host mid).2 _ h
      cases herror
  · exact .inl

/-- A build whose bundle is linted has kept the folders and the size on record since the bundle was written. -/
theorem steady_linted {found' : ChangeCache × Bundle}
    (h : linted s o (outputPath s o) host (start s o world) = (.ok found', w', r')) :
    found' = found ∧ w.tree.SameFolders w'.tree ∧ r'.bundleSize = r.bundleSize := by
  obtain ⟨⟨w₁, r₁⟩, hchecked, hlint⟩ := followedBy_eq_ok_iff.1 h
  obtain ⟨_, hfound, hvalidate⟩ := followedBy_eq_ok_iff.1 hchecked
  cases hwritten.symm.trans hfound
  obtain ⟨hsame, hsize⟩ := (steady_validate s (outputPath s o) found.2.text host (w, r)).1
  obtain ⟨hsame', hsize'⟩ := (steady_lintIf hworkable.limit o (outputPath s o) host (w₁, r₁)).1
  rw [hvalidate] at hsame hsize
  rw [hlint] at hsame' hsize'
  exact ⟨rfl, hsame.trans hsame', hsize'.trans hsize⟩

/-- The steps of a build that has written its bundle are broken off by a tool, and by nothing else. -/
theorem steps_fault_iff : (steps s o (outputPath s o) host (start s o world)).1 = .error (.fault fault) ↔
    ToolFault s o host world fault := by
  -- Before the change cache is saved, only the check and Terser break a build off.
  have hshrunk : (shrunk s o (outputPath s o) host (start s o world)).1 = .error (.fault fault) ↔
      ToolFault s o host world fault := by
    rw [shrunk, fst_followedBy_eq_error_iff, linted_fault_iff hwritten hworkable]
    have hshrink {found' : ChangeCache × Bundle} {w' : World} {r' : Result}
        (h : linted s o (outputPath s o) host (start s o world) = (.ok found', w', r')) :
        (shrink s o (outputPath s o) found'.2 host (w', r')).1 = .error (.fault fault) ↔
          o.minify ∧ TerserFault s o host (outputPath s o) found'.2 w' fault := by
      obtain ⟨rfl, hsame, hsize⟩ := steady_linted hwritten hworkable h
      exact shrink_fault_iff (hworkable.of_sameFolders hsame) (hsize.trans (bundleSize_of_written hwritten))
    constructor
    · rintro (h | ⟨found', ⟨w', r'⟩, hlinted, h⟩)
      · exact .check hwritten h
      · obtain ⟨hminify, hterser⟩ := (hshrink hlinted).1 h
        exact .terser hlinted hminify hterser
    · intro h
      cases h with
      | check hfound hcheck =>
        cases hwritten.symm.trans hfound
        exact .inl hcheck
      | terser hlinted hminify hterser => exact .inr ⟨_, _, hlinted, (hshrink hlinted).2 ⟨hminify, hterser⟩⟩
  rw [steps_eq, Program.bind_eq_error_iff, hshrunk]
  constructor
  · rintro (h | ⟨found', ⟨w', r'⟩, hshrunk, h⟩)
    · exact h
    · -- The change cache is written, whatever becomes of it.
      have hnul : found'.1.path.hasNul = false := by
        rw [cachePath_of_gives_shrunk ⟨_, _, hshrunk⟩, hworkable.cache_nul]
      rw [Program.run_bind, Step.act, run_saveCache hnul host w'] at h
      cases h
  · exact .inl

end run

/-- A host on which Terser leaves a script that is no text. -/
def garblingHost : Host where
  which name := if name = "terser" then some "/bin/terser" else none
  run _ argv :=
    if argv.head? = some "/bin/terser" then
      { ending := .ended (some 0) [] [], files := [(⟨.slash, ["scratch", "bundle.user.js"]⟩, [0xff])] }
    else { ending := .notStarted "not found" }
  parse _ := none
  evaluate _ _ := .ok []
  clock := .zero
  scratch := ⟨.slash, ["scratch"]⟩
  filter := Module.toolFilter

/-- All that a build of one module is to write can be written. -/
theorem workable_garblingHost :
    let o : Options := { minify := true, lint := false }
    ∃ found w r,
      written plainSettings o (outputPath plainSettings o) garblingHost (start plainSettings o oneModule) =
          (.ok found, w, r) ∧
        Workable plainSettings o garblingHost (outputPath plainSettings o) found.2 w.tree := by
  intro o
  have houtput : outputPath plainSettings o = Path.under ⟨.slash, ["p"]⟩ "bundle.user.js" := by decide +kernel
  obtain ⟨hok, hscratch, hroot, hproject, hbundle, hmap⟩ :
      let ended := written plainSettings o (outputPath plainSettings o) garblingHost
        (start plainSettings o oneModule)
      ended.1.toOption.isSome ∧ ended.2.1.tree.faceAt ["scratch"] = none ∧
        ended.2.1.tree.faceAt [] = some .folder ∧ ended.2.1.tree.faceAt ["p"] = some .folder ∧
        ended.2.1.tree.faceAt ["p", "bundle.user.js"] ≠ some .folder ∧
        ended.2.1.tree.faceAt ["p", "bundle.user.js.map"] ≠ some .folder := by
    decide +kernel
  rcases hrun : written plainSettings o (outputPath plainSettings o) garblingHost
    (start plainSettings o oneModule) with ⟨failure | found, w, r⟩ <;>
    rw [hrun] at hok hscratch hroot hproject hbundle hmap
  · cases hok
  refine ⟨found, w, r, rfl, ?_⟩
  rw [houtput]
  exact
    { validator := rfl
      limit := ⟨true, rfl⟩
      name := by decide
      place := Tree.writable_under ⟨.slash, ["p"]⟩ rfl (by decide) hproject (by decide) (by decide) hbundle
      scratch := ⟨rfl, by decide, by simp [garblingHost, hscratch], hroot⟩
      scratch_nul := by decide
      cache_nul := by decide +kernel
      minified := fun _ => ⟨rfl, _, rfl,
        Tree.writable_under ⟨.slash, ["p"]⟩ rfl (by decide) hproject (by decide) (by decide) hmap⟩
      optimized := fun hminify => nomatch hminify }

/-- A build is broken off for something that is no text. -/
def brokenByEncoding : Except Failure Result → Bool
  | .error (.fault (.encoding _)) => true
  | _ => false

theorem exists_of_brokenByEncoding {x : Except Failure Result} (h : brokenByEncoding x) :
    ∃ fault, x = .error (.fault (.encoding fault)) := by
  unfold brokenByEncoding at h
  split at h
  · next fault => exact ⟨fault, rfl⟩
  · cases h

end Userscript.Build
