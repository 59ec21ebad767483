import Userscript.Proofs.Tool.Breaking

/-!
# What becomes of a script that Terser makes small

Terser makes a script small if it can be started, ends in time, and ends with exit code zero. Then its files
are read, and that is broken off if one of them holds no text. Whatever else it does is a build error.

## Main definitions

* `Tool.EndsWell` — a program ends well and in time
* `Terser.Ends` — Terser ends well on a script
* `Terser.outputOf`, `Terser.BreaksOutput` — what is read of its files, and what breaks the reading off

## Main results

* `Tool.run_cases` — how the run of a tool ends
* `Terser.minify_cases` — how making a script small ends
* `Terser.outputOf_fault_iff` — when the reading is broken off
-/

namespace Userscript

variable {α : Type} {host : Host} {fault : Fault} {w : World}

/-! ### Tools that end well -/

theorem Tool.run_eq_ok_iff {stage : String} {argv : List String} {folder : Option Path} {input : Option String}
    {limit : Limit} {outcome : Outcome} {w' : World} :
    run stage argv folder input (some limit) host w = (.ok outcome, w') ↔
      ∃ code out err t, (host.run w.tree argv).ending = .ended code out err ∧
        writeAll w.nextStamp w.tree (host.run w.tree argv).files = (t, none) ∧
        (host.run w.tree argv).allows (some limit) = .ok true ∧
        outcome = ⟨code.getD (-1), Utf8.decodeLenient out, Utf8.decodeLenient err⟩ ∧
        w' = { w with
          tree := t
          calls := w.calls ++ [.tool argv folder (some w.tree) input false]
          nextStamp := w.nextStamp + 1 } := by
  unfold run
  rw [Program.run_bind]
  change (MonadState.get >>= _ : Action Outcome) host w = _ ↔ _
  rw [Program.run_get_bind]
  constructor
  · -- The ways in which a tool can end are gone through as the run does; one of them has an outcome.
    intro h
    have hwritten : leave (host.run w.tree argv).files host w = _ := run_leave _ w
    rcases hwrite : writeAll w.nextStamp w.tree (host.run w.tree argv).files with ⟨t, refused⟩
    rw [hwrite] at hwritten
    cases hending : (host.run w.tree argv).ending with
    | notStarted reason =>
      simp only [hending] at h
      cases h
    | unending =>
      simp only [hending] at h
      rw [Program.run_bind, hwritten] at h
      cases refused with
      | some fault => cases h
      | none =>
        rcases hallows : (host.run w.tree argv).allows (some limit) with fault | (_ | _) <;>
          simp only [hallows] at h <;> cases h
    | ended code out err =>
      simp only [hending] at h
      rw [Program.run_bind, hwritten] at h
      cases refused with
      | some fault => cases h
      | none =>
        rcases hallows : (host.run w.tree argv).allows (some limit) with fault | (_ | _) <;>
          simp only [hallows] at h <;> cases h
        exact ⟨_, _, _, t, rfl, rfl, rfl, rfl, rfl⟩
  · rintro ⟨code, out, err, t, hending, hwrite, hallows, rfl, rfl⟩
    simp only [hending]
    rw [Program.run_bind, run_leave, hwrite]
    simp only [hallows]
    rfl

/-- A program ends well and in time, and leaves a tree. -/
structure Tool.EndsWell (host : Host) (limit : Limit) (stamp : Int) (t : Tree) (argv : List String)
    (left : Tree) : Prop where
  ending : ∃ out err, (host.run t argv).ending = .ended (some 0) out err
  intime : (host.run t argv).allows (some limit) = .ok true
  files : writeAll stamp t (host.run t argv).files = (left, none)

theorem Tool.isOk_iff {code : Option Int} {out err : Text} :
    Outcome.isOk ⟨code.getD (-1), out, err⟩ ↔ code = some 0 := by
  cases code <;> simp [Outcome.isOk]

/-- A tool ends well, or it is a build error, or its exit code says that it has not ended well. -/
theorem Tool.run_cases {limit : Limit} (hlimit : limit.Fits) (stage : String) (argv : List String)
    (folder : Option Path) (input : Option String) (host : Host) (w : World) :
    ∃ result w', run stage argv folder input (some limit) host w = (result, w') ∧ w.tree.SameFolders w'.tree ∧
      ((∃ outcome, result = .ok outcome ∧ outcome.isOk ∧ EndsWell host limit w.nextStamp w.tree argv w'.tree) ∨
        (∀ left, ¬ EndsWell host limit w.nextStamp w.tree argv left) ∧
          ((∃ failure, IsReported failure ∧ result = .error failure) ∨
            ∃ outcome, result = .ok outcome ∧ outcome.isOk = false)) := by
  have hsteady : Steady host IsReported (run stage argv folder input (some limit)) :=
    steady_run hlimit stage argv folder input
  obtain ⟨hsame, hfailure⟩ := hsteady w
  -- A run has one result, so a tool that ends well at all is seen to by its exit code.
  have hok {left : Tree} (h : EndsWell host limit w.nextStamp w.tree argv left) : ∃ outcome last,
      run stage argv folder input (some limit) host w = (.ok outcome, last) ∧ outcome.isOk := by
    obtain ⟨⟨out, err, hending⟩, hintime, hfiles⟩ := h
    exact ⟨_, _, run_eq_ok_iff.2 ⟨_, out, err, left, hending, hfiles, hintime, rfl, rfl⟩, isOk_iff.2 rfl⟩
  rcases hrun : run stage argv folder input (some limit) host w with ⟨failure | outcome, w'⟩
  · rw [hrun] at hsame hfailure
    refine ⟨_, _, rfl, hsame, .inr ⟨fun left h => ?_, .inl ⟨failure, hfailure failure rfl, rfl⟩⟩⟩
    obtain ⟨outcome, last, hrun', -⟩ := hok h
    cases hrun.symm.trans hrun'
  · rw [hrun] at hsame
    refine ⟨_, _, rfl, hsame, ?_⟩
    by_cases hwell : outcome.isOk
    · obtain ⟨code, out, err, left, hending, hfiles, hintime, rfl, rfl⟩ := run_eq_ok_iff.1 hrun
      obtain rfl := isOk_iff.1 hwell
      exact .inl ⟨_, rfl, hwell, ⟨out, err, hending⟩, hintime, hfiles⟩
    · refine .inr ⟨fun left h => ?_, .inr ⟨outcome, rfl, by simpa using hwell⟩⟩
      obtain ⟨outcome', last, hrun', hwell'⟩ := hok h
      cases hrun.symm.trans hrun'
      exact hwell hwell'

namespace Terser

/-- What breaks the reading of Terser's files off: one of them holds no text. -/
inductive BreaksOutput (t : Tree) (output map : Path) : Fault → Prop
  | output {fault : Utf8.Fault} : t.readText output = .error (.encoding fault) →
    BreaksOutput t output map (.encoding fault)
  | map {code : Text} {fault : Utf8.Fault} : t.readText output = .ok code → Text.isBlankText code = false →
    t.readText map = .error (.encoding fault) → BreaksOutput t output map (.encoding fault)

/-- What Terser has made is read from a folder. -/
def collect (folder : Path) (name : String) (outcome : Tool.Outcome) : Action Output := do
  let failed {α : Type} (fault : StageFault) : Action α :=
    Action.fail (.build (.stage "terser" fault))
  let said := Text.trim outcome.err
  if !outcome.isOk then
    failed (if said.isEmpty then .exitCode outcome.code else .reported (String.ofList said))
  (Text.boundaryLines said).forM fun line =>
    Action.note .warning ("Terser: " ++ String.ofList line)
  if !(← get).tree.has (folder.child name) then failed .noOutput
  let code ← textOf (folder.child name)
  if Text.isBlankText code then failed .noOutput
  let mapFile := folder.child (name ++ ".map")
  let map ← if (← get).tree.has mapFile then some <$> textOf mapFile else pure none
  return { code, map }

/-- What is asked for in a folder. -/
def requestIn (folder : Path) (name : String) (wish : Wish) : Request where
  input := folder.child ("input-" ++ name)
  output := folder.child name
  pretty := wish.pretty
  mapName := if wish.sourceMap then some name else none
  preamble := wish.preamble

/-- Terser is run with its arguments, and what it has made is read. -/
def ask (root : Path) (limit : Option Limit) (folder : Path) (name : String) (argv : List String) :
    Action Output := do
  Action.note .debug ("Terser command: " ++ " ".intercalate argv)
  let outcome ← Tool.run "terser" argv (some root) none limit
  collect folder name outcome

theorem run_minifyIn {terser : Terser} {name : String} {wish : Wish} {folder : Path} {body : Text} {t : Tree}
    (hnul : (folder.child ("input-" ++ name)).hasNul = false)
    (hwrite : w.tree.writeFile (folder.child ("input-" ++ name)) (Utf8.encode body) w.nextStamp = .ok t)
    (root : Path) (limit : Option Limit) :
    minifyIn terser root limit body name wish folder host w =
      match terser.arguments (requestIn folder name wish) with
      | .ok argv => ask root limit folder name argv host { w with tree := t, nextStamp := w.nextStamp + 1 }
      | .error fault =>
        (.error (.build (.stage "terser" fault)), { w with tree := t, nextStamp := w.nextStamp + 1 }) := by
  unfold minifyIn
  dsimp only
  rw [Action.demandPath, hnul, if_neg (by simp), pure_bind, Program.run_bind]
  change (Action.change _ >>= _ : Action Output) host { w with nextStamp := w.nextStamp + 1 } = _
  rw [Program.run_bind, Action.run_change]
  dsimp only
  rw [hwrite]
  change (match terser.arguments (requestIn folder name wish) with
    | .ok argv => _
    | .error fault => _ : Action Output) host _ = _
  cases terser.arguments (requestIn folder name wish) <;> rfl

/-- The failure of a file that has to be readable. -/
def unread : ReadFault → Failure
  | .file fault => .fault (.file fault)
  | .encoding fault => .fault (.encoding fault)

theorem run_textOf (p : Path) (host : Host) (w : World) :
    textOf p host w = ((w.tree.readText p).mapError unread, w) := by
  unfold textOf
  rw [Program.run_get_bind]
  rcases w.tree.readText p with (fault | fault) | text <;> rfl

theorem exists_run_notes (host : Host) (level : Log.Level) (message : Text → String) (ls : List Text) (w : World) :
    ∃ log, (ls.forM fun line => Action.note level (message line)) host w = (.ok (), { w with log }) := by
  induction ls generalizing w with
  | nil => exact ⟨w.log, rfl⟩
  | cons line ls ih =>
    obtain ⟨log, hrun⟩ := ih { w with log := w.log ++ [.note level (message line)] }
    exact ⟨log, hrun⟩

/-- What is read of the files that Terser leaves. -/
def outputOf (t : Tree) (output map : Path) : Except Failure Output :=
  if !t.has output then .error (.build (.stage "terser" .noOutput))
  else
    match t.readText output with
    | .error fault => .error (unread fault)
    | .ok code =>
      if Text.isBlankText code then .error (.build (.stage "terser" .noOutput))
      else if t.has map then ((t.readText map).mapError unread).map fun text => { code, map := some text }
      else .ok { code }

/-- What Terser has made is what is read of its files if it has ended well. -/
theorem exists_run_collect (folder : Path) (name : String) (host : Host) (w : World) {outcome : Tool.Outcome}
    (hok : outcome.isOk) : ∃ log, collect folder name outcome host w =
      (outputOf w.tree (folder.child name) (folder.child (name ++ ".map")), { w with log }) := by
  obtain ⟨log, hnotes⟩ := exists_run_notes host .warning
    (fun line => "Terser: " ++ String.ofList line) (Text.boundaryLines (Text.trim outcome.err)) w
  refine ⟨log, ?_⟩
  unfold collect outputOf
  dsimp only
  simp only [hok, Bool.not_true, Bool.false_eq_true, if_false]
  rw [Program.run_bind, hnotes]
  dsimp only
  -- Only the log is another now, and the files are read in the same order on both sides.
  rw [Program.run_get_bind]
  cases hhas : w.tree.has (folder.child name) with
  | false =>
    simp only [Bool.not_false, if_true]
    rfl
  | true =>
    simp only [Bool.not_true, Bool.false_eq_true, if_false]
    rw [Program.run_bind, run_textOf]
    rcases w.tree.readText (folder.child name) with fault | code
    · rfl
    · dsimp only [mapError_ok]
      cases hblank : Text.isBlankText code with
      | true => rfl
      | false =>
        simp only [Bool.false_eq_true, if_false]
        rw [Program.run_get_bind]
        cases hmap : w.tree.has (folder.child (name ++ ".map")) with
        | false =>
          simp only [Bool.false_eq_true, if_false]
          rfl
        | true =>
          simp only [if_true]
          rw [Program.run_bind, Program.run_map, run_textOf]
          dsimp only
          cases w.tree.readText (folder.child (name ++ ".map")) <;> rfl

/-- What is reported of a Terser that has ended badly. -/
def complaint (code : Int) (err : Text) : StageFault :=
  if (Text.trim err).isEmpty then .exitCode code else .reported (String.ofList (Text.trim err))

/-- A Terser that ends badly is a build error. -/
theorem run_collect_of_not_isOk (name : String) {outcome : Tool.Outcome} (hok : outcome.isOk = false)
    (folder : Path) (host : Host) (w : World) :
    collect folder name outcome host w =
      (.error (.build (.stage "terser" (complaint outcome.code outcome.err))), w) := by
  unfold collect
  simp only [hok, Bool.not_false, if_true]
  rfl

/-- Reading the files is broken off if one of them holds no text. -/
theorem outputOf_fault_iff {t : Tree} {output map : Path} (houtput : t.Writable output) (hmap : t.Writable map) :
    outputOf t output map = .error (.fault fault) ↔ BreaksOutput t output map fault := by
  constructor
  · intro h
    unfold outputOf at h
    cases hhas : t.has output with
    | false => simp [hhas] at h
    | true =>
      simp only [hhas, Bool.not_true, Bool.false_eq_true, if_false] at h
      rcases hcode : t.readText output with (fault' | fault') | code <;> rw [hcode] at h
      · -- No folder is where a file can be written, so what is there is read.
        exact absurd hcode (houtput.readText_ne_file hhas fault')
      · cases h
        exact .output hcode
      · dsimp only at h
        cases hblank : Text.isBlankText code with
        | true => simp [hblank] at h
        | false =>
          simp only [hblank, Bool.false_eq_true, if_false] at h
          split at h
          · next hhasMap =>
            rcases htext : t.readText map with (fault' | fault') | text <;> rw [htext] at h
            · exact absurd htext (hmap.readText_ne_file hhasMap fault')
            · cases h
              exact .map hcode hblank htext
            · cases h
          · cases h
  · intro h
    cases h with
    | output hcode =>
      have hhas := Tree.has_of_readText_ne_file fun fault => by rw [hcode]; simp
      simp [outputOf, hhas, hcode, unread]
    | map hcode hblank htext =>
      have hhas := Tree.has_of_readText_ne_file fun fault => by rw [hcode]; simp
      have hhasMap := Tree.has_of_readText_ne_file fun fault => by rw [htext]; simp
      simp [outputOf, hhas, hcode, hblank, hhasMap, htext, unread, mapError_error, Except.map]

theorem run_withFolder (f : Path → Action α) (host : Host) (w : World) :
    withFolder f host w =
      ((f host.scratch host { w with tree := w.tree.withEmpty host.scratch }).1,
        { (f host.scratch host { w with tree := w.tree.withEmpty host.scratch }).2 with
          tree :=
            (f host.scratch host { w with tree := w.tree.withEmpty host.scratch }).2.tree.delete host.scratch }) := by
  rw [withFolder_eq]
  change (tryCatch (f host.scratch) _ >>= _ : Action α) host { w with tree := w.tree.withEmpty host.scratch } = _
  rw [Program.run_bind, Program.run_tryCatch]
  rcases f host.scratch host { w with tree := w.tree.withEmpty host.scratch } with ⟨failure | value, last⟩ <;> rfl

section minify

variable {terser : Terser} {folder : Path} {limit : Limit} {body : Text} {name : String} {wish : Wish}

/-- Terser is run on a script in a folder of a tree, ends well and in time, and leaves a tree. -/
def Ends (terser : Terser) (host : Host) (limit : Limit) (body : Text) (name : String) (wish : Wish)
    (folder : Path) (stamp : Int) (t left : Tree) : Prop :=
  ∃ argv given, terser.arguments (requestIn folder name wish) = .ok argv ∧
    t.writeFile (folder.child ("input-" ++ name)) (Utf8.encode body) stamp = .ok given ∧
    Tool.EndsWell host limit (stamp + 1) given argv left

theorem Ends.unique {stamp : Int} {t left left' : Tree}
    (h : Ends terser host limit body name wish folder stamp t left)
    (h' : Ends terser host limit body name wish folder stamp t left') : left' = left := by
  obtain ⟨argv, given, hargv, hgiven, hends⟩ := h
  obtain ⟨argv', given', hargv', hgiven', hends'⟩ := h'
  obtain rfl := Except.ok.inj (hargv.symm.trans hargv')
  obtain rfl := Except.ok.inj (hgiven.symm.trans hgiven')
  exact congrArg Prod.fst (hends'.files.symm.trans hends.files)

/-- Running Terser and reading its files ends with what is read if Terser ends well, and with a build error
otherwise. -/
theorem ask_cases (hlimit : limit.Fits) (root folder : Path) (name : String) (argv : List String) (host : Host)
    (w : World) :
    ∃ result w', ask root (some limit) folder name argv host w = (result, w') ∧ w.tree.SameFolders w'.tree ∧
      (Tool.EndsWell host limit w.nextStamp w.tree argv w'.tree ∧
          result = outputOf w'.tree (folder.child name) (folder.child (name ++ ".map")) ∨
        (∀ left, ¬ Tool.EndsWell host limit w.nextStamp w.tree argv left) ∧
          ∃ failure, IsReported failure ∧ result = .error failure) := by
  unfold ask
  rw [Program.run_bind]
  change ∃ result w', (Tool.run "terser" argv (some root) none (some limit) >>= collect folder name) host
    { w with log := w.log ++ [.note .debug ("Terser command: " ++ " ".intercalate argv)] } = (result, w') ∧ _
  -- The note of the command has no effect on the run.
  generalize hnoted : ({ w with log := _ } : World) = noted
  have htree : noted.tree = w.tree := by rw [← hnoted]
  have hstamp : noted.nextStamp = w.nextStamp := by rw [← hnoted]
  have hcases := Tool.run_cases hlimit "terser" argv (some root) none host noted
  rw [htree, hstamp] at hcases
  obtain ⟨result, w', hrun, hsame, hcases⟩ := hcases
  rw [Program.run_bind, hrun]
  rcases hcases with ⟨outcome, rfl, hok, hends⟩ | ⟨hnot, ⟨failure, hreported, rfl⟩ | ⟨outcome, rfl, hok⟩⟩
  · obtain ⟨log, hcollect⟩ := exists_run_collect folder name host w' hok
    exact ⟨_, _, hcollect, hsame, .inl ⟨hends, rfl⟩⟩
  · exact ⟨_, _, rfl, hsame, .inr ⟨hnot, failure, hreported, rfl⟩⟩
  · exact ⟨_, _, run_collect_of_not_isOk name hok folder host w', hsame, .inr ⟨hnot, _, ⟨_, rfl⟩, rfl⟩⟩

theorem minifyIn_cases (terser : Terser) (body : Text) (wish : Wish) (root : Path) (hlimit : limit.Fits)
    (hinput : w.tree.Writable (folder.child ("input-" ++ name))) :
    ∃ result w', minifyIn terser root (some limit) body name wish folder host w = (result, w') ∧
      w.tree.SameFolders w'.tree ∧
      (Ends terser host limit body name wish folder w.nextStamp w.tree w'.tree ∧
          result = outputOf w'.tree (folder.child name) (folder.child (name ++ ".map")) ∨
        (∀ left, ¬ Ends terser host limit body name wish folder w.nextStamp w.tree left) ∧
          ∃ failure, IsReported failure ∧ result = .error failure) := by
  obtain ⟨given, hwrite⟩ := hinput.exists_writeFile (Utf8.encode body) w.nextStamp
  have hwritten := Tree.sameFolders_writeFile hwrite
  rw [run_minifyIn hinput.nul hwrite]
  cases hargv : terser.arguments (requestIn folder name wish) with
  | error fault =>
    refine ⟨_, _, rfl, hwritten, .inr ⟨?_, _, ⟨_, rfl⟩, rfl⟩⟩
    rintro left ⟨argv, _, hargv', -⟩
    cases hargv.symm.trans hargv'
  | ok argv =>
    obtain ⟨result, w', hrun, hsame, hcases⟩ := ask_cases hlimit root folder name argv host
      { w with tree := given, nextStamp := w.nextStamp + 1 }
    refine ⟨result, w', hrun, hwritten.trans hsame, ?_⟩
    rcases hcases with ⟨hends, hresult⟩ | ⟨hnot, hresult⟩
    · exact .inl ⟨⟨argv, given, hargv, hwrite, hends⟩, hresult⟩
    · -- The arguments and the script that is given are determined, so Terser is asked in no other way.
      refine .inr ⟨?_, hresult⟩
      rintro left ⟨argv', given', hargv', hwrite', hends⟩
      obtain rfl := Except.ok.inj (hargv.symm.trans hargv')
      obtain rfl := Except.ok.inj (hwrite.symm.trans hwrite')
      exact hnot left hends

/-- Making a script small ends with what is read of Terser's files if Terser ends well, and with a build error
otherwise. -/
theorem minify_cases (terser : Terser) (body : Text) (wish : Wish) (root : Path)
    (hfolder : w.tree.TakesFolder host.scratch) (hlimit : limit.Fits)
    (hinput : (w.tree.withEmpty host.scratch).Writable (host.scratch.child ("input-" ++ name))) :
    ∃ result w', terser.minify root (some limit) body name wish host w = (result, w') ∧
      w.tree.SameFolders w'.tree ∧
      ((∃ left,
          Ends terser host limit body name wish host.scratch w.nextStamp (w.tree.withEmpty host.scratch) left ∧
          (w.tree.withEmpty host.scratch).SameFolders left ∧
          result = outputOf left (host.scratch.child name) (host.scratch.child (name ++ ".map"))) ∨
        (∀ left, ¬ Ends terser host limit body name wish host.scratch w.nextStamp
          (w.tree.withEmpty host.scratch) left) ∧
          ∃ failure, IsReported failure ∧ result = .error failure) := by
  obtain ⟨result, last, hrun, hsame, hcases⟩ := minifyIn_cases terser body wish root
    (w := { w with tree := w.tree.withEmpty host.scratch }) hlimit hinput
  have hfinish := run_withFolder (minifyIn terser root (some limit) body name wish) host w
  rw [hrun] at hfinish
  refine ⟨_, _, hfinish, Tree.sameFolders_temporary hfolder hsame, ?_⟩
  rcases hcases with ⟨hends, hresult⟩ | hnot
  · exact .inl ⟨last.tree, hends, hsame, hresult⟩
  · exact .inr hnot

end minify

end Terser

end Userscript
