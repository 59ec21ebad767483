import Userscript.Proofs.Build.Failing
import Userscript.Proofs.Reading
import Userscript.Proofs.Scope
import Userscript.Proofs.Tree.Alike

/-!
# Steps in lockstep

Two runs of a step, each in a world and on a host of its own, are in lockstep if they give the same or fail
for the same reason, and leave worlds that are as much alike as they were. What is done by two steps in
lockstep one after the other is in lockstep, so each action is looked at once.

Worlds that are abreast have trees that are alike but for some places, less those that have been written
since. The log, the programs that were run and the stamps of files do not matter.

## Main definitions

* `LockstepAt`, `Lockstep` — two steps do the same from two states on, and from all that are related
* `LockstepTo` — two steps give what is the same in some way
* `Calm` — a relation of worlds that does not see what is noted
* `Abreast` — two worlds have gone on alike
* `Host.Answers`, `Host.Agrees` — two hosts answer alike in related worlds, and in all trees that are alike
* `Host.Ending.Alike` — two programs end alike

## Main results

* `LockstepTo.bind`, `Lockstep.tryCatch` — steps one after the other
* `lockstep_writeText` — writing the same text
* `Checker.lockstep_check`, `Tool.lockstepTo_run`, `Eslint.lockstep_run` — the outside tools
-/

namespace Userscript

variable {σ α β : Type} {host host' : Host}

/-- From two states on, two steps give the same, or fail for the same reason, and leave states that are
related. -/
def LockstepAt (host host' : Host) (rel : σ → σ → Prop) (step step' : Program σ α) (state state' : σ) : Prop :=
  (step' host' state').1 = (step host state).1 ∧ rel (step host state).2 (step' host' state').2

/-- Two steps give the same in related states, or fail for the same reason, and the states are related again. -/
def Lockstep (host host' : Host) (rel : σ → σ → Prop) (step step' : Program σ α) : Prop :=
  ∀ state state', rel state state' → LockstepAt host host' rel step step' state state'

variable {rel : σ → σ → Prop} {step step' : Program σ α} {next next' : α → Program σ β}

/-- From two states on, two steps give what is the same in some way, or fail for the same reason, and leave
states that are related. -/
def LockstepTo (host host' : Host) (rel : σ → σ → Prop) (same : α → α → Prop) (step step' : Program σ α)
    (state state' : σ) : Prop :=
  EndsAlike same (step host state).1 (step' host' state').1 ∧ rel (step host state).2 (step' host' state').2

section

variable {state state' : σ}

theorem lockstepTo_eq_iff :
    LockstepTo host host' rel Eq step step' state state' ↔ LockstepAt host host' rel step step' state state' := by
  refine and_congr_left fun _ => ⟨fun hends => ?_, fun heq => ?_⟩
  · generalize (step host state).1 = result at hends ⊢
    generalize (step' host' state').1 = result' at hends ⊢
    cases hends with
    | ok heq => rw [heq]
    | error failure => rfl
  · rw [heq]
    cases (step host state).1 with
    | ok value => exact .ok rfl
    | error failure => exact .error failure

/-- Two steps one after the other go alike if the first do, and the second where the first end well. -/
theorem LockstepTo.bind {same : α → α → Prop} {same' : β → β → Prop}
    (h : LockstepTo host host' rel same step step' state state')
    (hnext : ∀ value value' mid mid', step host state = (.ok value, mid) →
      step' host' state' = (.ok value', mid') → same value value' → rel mid mid' →
        LockstepTo host host' rel same' (next value) (next' value') mid mid') :
    LockstepTo host host' rel same' (step >>= next) (step' >>= next') state state' := by
  obtain ⟨hvalue, hmid⟩ := h
  rw [LockstepTo, Program.run_bind, Program.run_bind]
  rcases hrun : step host state with ⟨failure | value, mid⟩ <;>
    rcases hrun' : step' host' state' with ⟨failure' | value', mid'⟩ <;>
    rw [hrun, hrun'] at hvalue hmid <;> cases hvalue
  · exact ⟨.error _, hmid⟩
  · next hsame => exact hnext value value' mid mid' hrun hrun' hsame hmid

theorem LockstepAt.bind_to {same : β → β → Prop} (h : LockstepAt host host' rel step step' state state')
    (hnext : ∀ value mid mid', step host state = (.ok value, mid) → step' host' state' = (.ok value, mid') →
      rel mid mid' → LockstepTo host host' rel same (next value) (next' value) mid mid') :
    LockstepTo host host' rel same (step >>= next) (step' >>= next') state state' := by
  refine (lockstepTo_eq_iff.2 h).bind fun value value' mid mid' hrun hrun' heq hmid => ?_
  subst heq
  exact hnext value mid mid' hrun hrun' hmid

theorem LockstepAt.bind (h : LockstepAt host host' rel step step' state state')
    (hnext : ∀ value mid mid', step host state = (.ok value, mid) → step' host' state' = (.ok value, mid') →
      rel mid mid' → LockstepAt host host' rel (next value) (next' value) mid mid') :
    LockstepAt host host' rel (step >>= next) (step' >>= next') state state' :=
  lockstepTo_eq_iff.1 <| h.bind_to fun value mid mid' hrun hrun' hmid =>
    lockstepTo_eq_iff.2 (hnext value mid mid' hrun hrun' hmid)

/-- What is read of the state may be different in both. -/
theorem LockstepTo.bind_get {same : β → β → Prop} {next next' : σ → Program σ β}
    (h : LockstepTo host host' rel same (next state) (next' state') state state') :
    LockstepTo host host' rel same (get >>= next) (get >>= next') state state' := h

theorem LockstepTo.bind_read {same : β → β → Prop} {next next' : Host → Program σ β}
    (h : LockstepTo host host' rel same (next host) (next' host') state state') :
    LockstepTo host host' rel same (read >>= next) (read >>= next') state state' := h

end

namespace Lockstep

theorem pure (value : α) : Lockstep host host' rel (pure value) (pure value) := fun _ _ hrel => ⟨rfl, hrel⟩

theorem throw (failure : Failure) :
    Lockstep host host' rel (throw failure : Program σ α) (throw failure) :=
  fun _ _ hrel => ⟨rfl, hrel⟩

theorem modify {f f' : σ → σ} (h : ∀ state state', rel state state' → rel (f state) (f' state')) :
    Lockstep host host' rel (modify f : Program σ Unit) (modify f') :=
  fun state state' hrel => ⟨rfl, h state state' hrel⟩

/-- Two steps one after the other are in lockstep if the first is, and the second for what the first can
give. -/
theorem bind_of_gives (h : Lockstep host host' rel step step')
    (hnext : ∀ value, Gives host step value → Lockstep host host' rel (next value) (next' value)) :
    Lockstep host host' rel (step >>= next) (step' >>= next') :=
  fun state state' hrel => (h state state' hrel).bind fun value mid mid' hrun _ hmid =>
    hnext value ⟨state, mid, hrun⟩ mid mid' hmid

theorem bind (h : Lockstep host host' rel step step')
    (hnext : ∀ value, Lockstep host host' rel (next value) (next' value)) :
    Lockstep host host' rel (step >>= next) (step' >>= next') :=
  bind_of_gives h fun value _ => hnext value

theorem bind_get {next next' : σ → Program σ β}
    (h : ∀ state state', rel state state' → Lockstep host host' rel (next state) (next' state')) :
    Lockstep host host' rel (get >>= next) (get >>= next') :=
  fun state state' hrel => h state state' hrel state state' hrel

theorem bind_read {next next' : Host → Program σ β} (h : Lockstep host host' rel (next host) (next' host')) :
    Lockstep host host' rel (read >>= next) (read >>= next') := h

theorem tryCatch {handler handler' : Failure → Program σ α} (h : Lockstep host host' rel step step')
    (hhandler : ∀ failure, Lockstep host host' rel (handler failure) (handler' failure)) :
    Lockstep host host' rel (MonadExcept.tryCatch step handler) (MonadExcept.tryCatch step' handler') := by
  intro state state' hrel
  obtain ⟨hvalue, hmid⟩ := h state state' hrel
  rw [LockstepAt, Program.run_tryCatch, Program.run_tryCatch]
  rcases hrun : step host state with ⟨failure | value, mid⟩ <;>
    rcases hrun' : step' host' state' with ⟨failure' | value', mid'⟩ <;>
    rw [hrun, hrun'] at hvalue hmid <;> cases hvalue
  · exact hhandler failure mid mid' hmid
  · exact ⟨rfl, hmid⟩

/-- Steps that are taken in some cases only. -/
theorem ite {c : Prop} [Decidable c] {other other' : Program σ α} (h : Lockstep host host' rel step step')
    (hother : Lockstep host host' rel other other') :
    Lockstep host host' rel (if c then step else other) (if c then step' else other') := by
  split
  · exact h
  · exact hother

end Lockstep

/-! ### Worlds that are abreast -/

/-- What may be different in two worlds. -/
structure Gap where
  /-- Where relative paths start, in both. -/
  here : Path
  /-- Files in these places may be different. -/
  stale : List String → Prop
  /-- A file in this place may be different even once it has been written. -/
  lasting : List String
  /-- What had been written before. -/
  written : List Path
  written' : List Path

namespace Gap

/-- A file in a place may still be different after some files have been written. -/
def Remains (gap : Gap) (new : List Path) (names : List String) : Prop :=
  gap.stale names ∧ (names = gap.lasting ∨ ∀ p ∈ new, p.parts ≠ names)

theorem Remains.stale {gap : Gap} {new : List Path} {names : List String} (h : gap.Remains new names) :
    gap.stale names := h.1

/-- Once one more file is written, what remains different is what did before but for the file's place. -/
theorem Remains.concat_or_eq {gap : Gap} {new : List Path} {names : List String} (h : gap.Remains new names)
    (p : Path) : gap.Remains (new ++ [p]) names ∨ names = p.parts := by
  by_cases heq : names = p.parts
  · exact .inr heq
  · refine .inl ⟨h.stale, h.2.imp_right fun hnew q hq => ?_⟩
    rcases List.mem_append.1 hq with hq | hq
    · exact hnew q hq
    · rw [List.mem_singleton.1 hq]
      exact Ne.symm heq

end Gap

/-- Two worlds have gone on alike: the same files have been written, and the trees are alike but for the
files that were different before and have not been written. -/
structure Abreast (gap : Gap) (w w' : World) : Prop where
  here : w.tree.here = gap.here
  files : ∃ new, w.written = gap.written ++ new ∧ w'.written = gap.written' ++ new ∧
    w.tree.Alike (gap.Remains new) w'.tree

namespace Abreast

variable {gap : Gap} {w w' u u' : World}

theorem alike (h : Abreast gap w w') : w.tree.Alike gap.stale w'.tree := by
  obtain ⟨new, -, -, halike⟩ := h.files
  exact halike.mono fun _ => Gap.Remains.stale

/-- The trees alone have changed, in the same way. -/
theorem of_tree (h : Abreast gap w w') (hwritten : u.written = w.written) (hwritten' : u'.written = w'.written)
    (hhere : u.tree.here = w.tree.here)
    (htree : ∀ stale, (∀ place, stale place → gap.stale place) → w.tree.Alike stale w'.tree →
      u.tree.Alike stale u'.tree) : Abreast gap u u' := by
  obtain ⟨new, hnew, hnew', halike⟩ := h.files
  refine ⟨hhere.trans h.here, new, hwritten.trans hnew, hwritten'.trans hnew', ?_⟩
  exact htree _ (fun _ => Gap.Remains.stale) halike

/-- Neither the trees nor what was written have changed. -/
theorem of_eq (h : Abreast gap w w') (hwritten : u.written = w.written) (hwritten' : u'.written = w'.written)
    (htree : u.tree = w.tree) (htree' : u'.tree = w'.tree) : Abreast gap u u' := by
  refine h.of_tree hwritten hwritten' (by rw [htree]) fun stale _ halike => ?_
  rwa [htree, htree']

end Abreast

/-- Related worlds stay related when something is noted, or a program is run that changes nothing. -/
class Calm (rel : World → World → Prop) : Prop where
  of_eq {w w' u u' : World} : rel w w' → u.written = w.written → u'.written = w'.written →
    u.tree = w.tree → u'.tree = w'.tree → rel u u'

instance (gap : Gap) : Calm (Abreast gap) := ⟨Abreast.of_eq⟩

namespace Action

variable {gap : Gap} {p : Path}

section Calm

variable {rel : World → World → Prop} [Calm rel]

theorem lockstep_add (entry entry' : Log.Entry) : Lockstep host host' rel (add entry) (add entry') :=
  .modify fun _ _ h => Calm.of_eq h rfl rfl rfl rfl

theorem lockstep_note (level level' : Log.Level) (message message' : String) :
    Lockstep host host' rel (note level message) (note level' message') :=
  lockstep_add _ _

omit [Calm rel] in
theorem lockstep_fail (failure : Failure) :
    Lockstep host host' rel (fail failure : Action α) (fail failure) :=
  .throw failure

omit [Calm rel] in
theorem lockstep_demand (s : Settings) (use : Settings.Use) :
    Lockstep host host' rel (s.demand use : Action Unit) (s.demand use) := by
  unfold Settings.demand
  split
  · exact .throw _
  · exact .pure ()

/-- What is read is the same if it is a function of what the trees have in common. -/
theorem lockstep_read {step step' : Tree → Reading α} (h : ∀ w w', rel w w' →
      ∃ value, Reading.Returns (step w.tree) value ∧ Reading.Returns (step' w'.tree) value) :
    Lockstep host host' rel (Action.read step) (Action.read step') := by
  intro w w' hrel
  obtain ⟨value, hvalue, hvalue'⟩ := h w w' hrel
  exact ⟨(hvalue' _).trans (hvalue _).symm, Calm.of_eq hrel rfl rfl rfl rfl⟩

end Calm

/-- The same file is written in both worlds. If it has not the same content, it is the one whose place may
always be different. -/
theorem lockstep_writeBytes {content content' : Bytes} (hp : p.StandsClear gap.stale)
    (hcontent : content' = content ∨ gap.stale gap.lasting ∧ p.parts = gap.lasting) :
    Lockstep host host' (Abreast gap) (writeBytes p content) (writeBytes p content') := by
  cases hnul : p.hasNul with
  | true =>
    unfold writeBytes demandPath
    rw [if_pos hnul]
    exact fun _ _ hrel => ⟨rfl, hrel⟩
  | false =>
    intro w w' hrel
    obtain ⟨new, hnew, hnew', halike⟩ := hrel.files
    have hparts {names : List String} (hnames : w.tree.names p = .ok names) : names = p.parts :=
      Tree.eq_parts_of_names hnames hp.parent.absolute hp.dots_not_mem
    -- Where the contents are different, the file is the one that may always be different.
    have hsame : content' = content ∨ ∀ place, w.tree.names p = .ok place → gap.Remains (new ++ [p]) place := by
      refine hcontent.imp_right fun ⟨hstale, hlasting⟩ place hplace => ?_
      rw [hparts hplace, hlasting]
      exact ⟨hstale, .inl rfl⟩
    have hends := halike.writeFile (fun place hplace => hp.parent.bypasses_of_parent hplace.stale) hsame
      (fun names hnames place hplace => hparts hnames ▸ hplace.concat_or_eq p) w.nextStamp w'.nextStamp
    rw [LockstepAt, run_writeBytes hnul, run_writeBytes hnul]
    cases hu : w.tree.writeFile p content w.nextStamp <;>
      cases hu' : w'.tree.writeFile p content' w'.nextStamp <;> rw [hu, hu'] at hends <;> cases hends
    · exact ⟨rfl, hrel.of_eq rfl rfl rfl rfl⟩
    · next u u' halike' =>
      obtain ⟨-, -, hhere, -⟩ := Tree.faceAt_writeFile hu
      refine ⟨rfl, hhere.trans hrel.here, new ++ [p], ?_, ?_, halike'⟩
      · rw [hnew, List.append_assoc]
      · rw [hnew', List.append_assoc]

theorem lockstep_makeFolders (hp : p.ClearOf gap.stale) :
    Lockstep host host' (Abreast gap) (makeFolders p) (makeFolders p) := by
  cases hnul : p.hasNul with
  | true =>
    unfold makeFolders demandPath
    rw [if_pos hnul]
    exact fun _ _ hrel => ⟨rfl, hrel⟩
  | false =>
    intro w w' hrel
    rw [LockstepAt, run_makeFolders hnul, run_makeFolders hnul]
    have hfault := (hrel.alike.makeFolders hp).2
    refine ⟨by rw [hfault], hrel.of_tree rfl rfl (Tree.grows_makeFolders _ _).1 fun stale hsub halike => ?_⟩
    exact (halike.makeFolders (hp.mono hsub)).1

/-- The same text is written in both worlds. -/
theorem lockstep_writeText (hp : p.StandsClear gap.stale) (text : Text) :
    Lockstep host host' (Abreast gap) (writeText p text) (writeText p text) := by
  unfold writeText
  exact .bind (lockstep_makeFolders hp.parent) fun _ =>
    .bind (lockstep_writeBytes hp (.inl rfl)) fun _ => .pure _

end Action

/-! ### Tools -/

/-- In related worlds the programs of two hosts answer alike: the same are installed, and each does the same.
The trees of the worlds are alike but for some places. -/
structure Host.Answers (stale : List String → Prop) (rel : World → World → Prop) (host host' : Host) : Prop where
  which : host'.which = host.which
  alike : ∀ w w', rel w w' → w.tree.Alike stale w'.tree
  run : ∀ w w' argv, rel w w' → host'.run w'.tree argv = host.run w.tree argv
  leave : ∀ w w' argv, rel w w' → Lockstep host host' rel
    (Tool.leave (host.run w.tree argv).files) (Tool.leave (host.run w.tree argv).files)

/-- Two hosts answer alike: the parser is the same, the same programs are installed, and what a program does
depends only on its command line and on what trees have in common that are alike but for some places. The
files it writes are not written through one of the places. -/
structure Host.Agrees (stale : List String → Prop) (here : Path) (host host' : Host) : Prop where
  which : host'.which = host.which
  parse : host'.parse = host.parse
  run : ∀ t t' argv, t.Alike stale t' → host'.run t' argv = host.run t argv
  bypasses : ∀ t argv, ∀ file ∈ (host.run t argv).files, ∀ place, stale place → file.1.Bypasses here place

/-- From two worlds on, the programs of two hosts answer alike as long as nothing is written but by them. -/
def Host.AnswersFrom (host : Host) (gap : Gap) (host' : Host) (w w' : World) : Prop :=
  ∃ rel : World → World → Prop, Calm rel ∧ host.Answers gap.stale rel host' ∧ rel w w' ∧
    ∀ u u', rel u u' → Abreast gap u u'

/-- No file of a project that decides which tools are run, and how, stands in one of some places. -/
structure Tool.FoundBesides (stale : List String → Prop) (root : Path) : Prop where
  configurations : ∀ name ∈ ["eslint.config.cjs", ".eslintrc.cjs"], (root.child name).ClearOf stale
  programs : ∀ name ∈ ["eslint", "terser"],
    (((root.child "node_modules").child ".bin").child name).ClearOf stale ∧
      (((root.child "node_modules").child ".bin").child (name ++ ".cmd")).ClearOf stale

/-- Two programs end alike: neither can be started, and for the same reason, or neither ends, or both end and
leave outcomes that are the same in some way. -/
inductive Host.Ending.Alike (same : Tool.Outcome → Tool.Outcome → Prop) : Host.Ending → Host.Ending → Prop
  | notStarted (reason : String) : Alike same (.notStarted reason) (.notStarted reason)
  | unending : Alike same .unending .unending
  | ended {code code' : Option Int} {out out' err err' : Bytes} :
    same ⟨code.getD (-1), Utf8.decodeLenient out, Utf8.decodeLenient err⟩
      ⟨code'.getD (-1), Utf8.decodeLenient out', Utf8.decodeLenient err'⟩ →
    Alike same (.ended code out err) (.ended code' out' err')

theorem Host.Ending.Alike.refl {same : Tool.Outcome → Tool.Outcome → Prop} (h : ∀ outcome, same outcome outcome)
    (ending : Host.Ending) : ending.Alike same ending := by
  cases ending with
  | notStarted reason => exact .notStarted reason
  | unending => exact .unending
  | ended code out err => exact .ended (h _)

section Tools

variable {gap : Gap} {rel : World → World → Prop} [Calm rel] {stale : List String → Prop}

namespace Checker

theorem lockstep_ofName (hwhich : host'.which = host.which) (name : String) (limit : Option Limit) :
    Lockstep host host' rel (ofName name limit) (ofName name limit) := by
  unfold ofName
  refine .bind_read ?_
  unfold nodeProgram?
  rw [hwhich]
  dsimp only
  split
  · split
    · exact .pure _
    · exact .bind (Action.lockstep_note _ _ _ _) fun _ => .pure _
  · exact .pure _
  · exact .pure _
  · exact .throw _

omit [Calm rel] in
theorem lockstep_printed (bytes : Bytes) : Lockstep host host' rel (printed bytes) (printed bytes) := by
  unfold printed
  split
  · exact .pure _
  · exact .throw _

theorem lockstep_checkFile (hanswers : host.Answers stale rel host') (program : String) (limit : Limit)
    (path : Path) : Lockstep host host' rel (checkFile program limit path) (checkFile program limit path) := by
  unfold checkFile
  refine .bind_read (.bind_get fun w w' hrel => ?_)
  rw [hanswers.run _ _ _ hrel]
  refine .bind (.modify fun _ _ h => Calm.of_eq h rfl rfl rfl rfl) fun _ => ?_
  split
  · exact .throw _
  · split
    · exact .throw _
    · refine .bind (lockstep_printed _) fun _ => .bind (lockstep_printed _) fun err => .ite (.pure _) ?_
      split
      · exact .pure _
      · exact .throw _
    · exact .pure _

theorem lockstep_verdict (hanswers : host.Answers stale rel host') (checker : Checker) {code : Text}
    (hparse : host'.parse code = host.parse code) {path : Option Path}
    (hpath : ∀ p, path = some p → p.ClearOf stale) :
    Lockstep host host' rel (checker.verdict code path) (checker.verdict code path) := by
  unfold verdict
  split
  · refine .bind_read ?_
    rw [hparse]
    exact .pure _
  · split
    · exact .pure _
    · refine .bind_get fun w w' hrel => ?_
      have hhas : path.filter w'.tree.has = path.filter w.tree.has := by
        cases path with
        | none => rfl
        | some p =>
          rw [Option.filter_some, Option.filter_some, (hanswers.alike _ _ hrel).has_eq (hpath p rfl)]
      dsimp only
      rw [hhas]
      split
      · exact .pure _
      · exact lockstep_checkFile hanswers _ _ _

theorem lockstep_check (hanswers : host.Answers stale rel host') (checker : Checker) {code : Text}
    (hparse : host'.parse code = host.parse code) {path : Option Path}
    (hpath : ∀ p, path = some p → p.ClearOf stale) :
    Lockstep host host' rel (checker.check code path) (checker.check code path) := by
  unfold check
  refine .bind (Action.lockstep_note _ _ _ _) fun _ =>
    .bind (lockstep_verdict hanswers checker hparse hpath) fun verdict => ?_
  split
  · exact .bind (Action.lockstep_note _ _ _ _) fun _ => .pure _
  · exact .bind (Action.lockstep_note _ _ _ _) fun _ => .pure _

end Checker

namespace Tool

/-- The files of a program are written to both worlds, or to none from the same one on. -/
theorem lockstep_leave {files : List (Path × Bytes)}
    (hfiles : ∀ file ∈ files, ∀ place, gap.stale place → file.1.Bypasses gap.here place) :
    Lockstep host host' (Abreast gap) (leave files) (leave files) := by
  intro w w' hrel
  have hbypasses {stale : List String → Prop} (hsub : ∀ place, stale place → gap.stale place) :
      ∀ file ∈ files, ∀ place, stale place → file.1.Bypasses w.tree.here place :=
    fun file hfile place hplace => hrel.here ▸ hfiles file hfile place (hsub place hplace)
  rw [LockstepAt, run_leave, run_leave]
  refine ⟨?_, hrel.of_tree rfl rfl (Tree.here_writeAll _ _ _) fun stale hsub halike =>
    (halike.writeAll (hbypasses hsub) _ _).1⟩
  rw [(hrel.alike.writeAll (hbypasses fun _ => id) w.nextStamp w'.nextStamp).2]

/-- Two command lines of a program are run alike if the program ends alike, and its files are left alike. -/
theorem lockstepTo_run {same : Outcome → Outcome → Prop} {argv argv' : List String} {w w' : World}
    (hrel : rel w w') (hprogram : argv'.headD "" = argv.headD "")
    (hending : (host.run w.tree argv).ending.Alike same (host'.run w'.tree argv').ending)
    (hstandIn : (host'.run w'.tree argv').standIn = (host.run w.tree argv).standIn)
    (hleave : Lockstep host host' rel (leave (host.run w.tree argv).files) (leave (host'.run w'.tree argv').files))
    (stage : String) (folder : Option Path) (input : Option String) (limit : Option Limit) :
    LockstepTo host host' rel same (run stage argv folder input limit) (run stage argv' folder input limit)
      w w' := by
  have hcalled (found found' : Option Tree) (input : Option String) (stopped : Bool) :
      Lockstep host host' rel
        (modify fun w => { w with calls := w.calls ++ [.tool argv folder found input stopped] } : Action Unit)
        (modify fun w => { w with calls := w.calls ++ [.tool argv' folder found' input stopped] }) :=
    .modify fun _ _ h => Calm.of_eq h rfl rfl rfl rfl
  have hallows : (host'.run w'.tree argv').allows limit = (host.run w.tree argv).allows limit := by
    unfold Host.Report.allows
    rw [hstandIn]
  have hfails (found found' : Option Tree) (input : Option String) (stopped : Bool) (failure : Failure)
      {mid mid' : World} (hmid : rel mid mid') := (hcalled found found' input stopped mid mid' hmid).bind_to
    fun _ mid mid' _ _ hmid =>
      (⟨.error failure, hmid⟩ : LockstepTo host host' rel same (throw failure) (throw failure) mid mid')
  unfold run
  refine .bind_read (.bind_get ?_)
  dsimp only
  rw [hallows, hprogram]
  -- Both runs take the same way, which the end of the program decides.
  generalize (host.run w.tree argv).ending = ending at hending ⊢
  generalize (host'.run w'.tree argv').ending = ending' at hending ⊢
  cases hending with
  | notStarted reason => exact hfails _ _ _ _ _ hrel
  | unending =>
    refine (hleave w w' hrel).bind_to fun fault mid mid' _ _ hmid => ?_
    cases fault with
    | some fault => exact hfails _ _ _ _ _ hmid
    | none =>
      rcases (host.run w.tree argv).allows limit with fault | (_ | _) <;> exact hfails _ _ _ _ _ hmid
  | ended hsame =>
    refine (hleave w w' hrel).bind_to fun fault mid mid' _ _ hmid => ?_
    cases fault with
    | some fault => exact hfails _ _ _ _ _ hmid
    | none =>
      rcases (host.run w.tree argv).allows limit with fault | (_ | _)
      · exact hfails _ _ _ _ _ hmid
      · exact hfails _ _ _ _ _ hmid
      · exact (hcalled _ _ _ _ mid mid' hmid).bind_to fun _ _ _ _ _ hmid => ⟨.ok hsame, hmid⟩

/-- A tool does the same in both worlds. -/
theorem lockstep_run (hanswers : host.Answers stale rel host') (stage : String) (argv : List String)
    (folder : Option Path) (input : Option String) (limit : Option Limit) :
    Lockstep host host' rel (run stage argv folder input limit) (run stage argv folder input limit) := by
  intro w w' hrel
  have hrun := hanswers.run _ _ argv hrel
  have hending : (host.run w.tree argv).ending.Alike Eq (host'.run w'.tree argv).ending := by
    rw [hrun]
    exact .refl (fun _ => rfl) _
  have hleave : Lockstep host host' rel (leave (host.run w.tree argv).files)
      (leave (host'.run w'.tree argv).files) := by
    rw [hrun]
    exact hanswers.leave _ _ argv hrel
  exact lockstepTo_eq_iff.1 (lockstepTo_run hrel rfl hending (by rw [hrun]) hleave stage folder input limit)

/-- The same program is found for a tool. -/
theorem find?_eq {root : Path} (hwhich : host'.which = host.which) (hbesides : Tool.FoundBesides stale root)
    {t t' : Tree} (h : t.Alike stale t') {name : String} (hname : name ∈ ["eslint", "terser"]) :
    find? host' t' root name = find? host t root name := by
  obtain ⟨hbare, hcommand⟩ := hbesides.programs name hname
  unfold find?
  dsimp only
  simp only [List.find?_cons, List.find?_nil, h.has_eq hbare, h.has_eq hcommand, hwhich]

end Tool

/-- Hosts that answer alike in all trees do so in worlds that are abreast. -/
theorem Host.Agrees.answers (hagrees : host.Agrees gap.stale gap.here host') :
    host.Answers gap.stale (Abreast gap) host' where
  which := hagrees.which
  alike _ _ hrel := hrel.alike
  run _ _ argv hrel := hagrees.run _ _ argv hrel.alike
  leave w _ argv _ := Tool.lockstep_leave (hagrees.bypasses w.tree argv)

theorem Host.Agrees.answersFrom (hagrees : host.Agrees gap.stale gap.here host') {w w' : World}
    (h : Abreast gap w w') : host.AnswersFrom gap host' w w' :=
  ⟨Abreast gap, inferInstance, hagrees.answers, h, fun _ _ => id⟩

namespace Eslint

theorem returns_arguments (program : String) (e : Eslint) (script : Path) (t : Tree) :
    Reading.Returns (arguments program e script t)
      (.ok ([program, "--no-warn-ignored"] ++
        (if t.has e.configurations.1 then []
          else if t.has e.configurations.2 then ["--config", e.configurations.2.toString] else []) ++
        [script.toString])) := by
  unfold arguments
  dsimp only
  split
  · exact .bind (.bind (.note _ _) (.pure _)) (.pure _)
  · split <;> exact .bind (.pure _) (.pure _)

/-- ESLint does the same in both worlds. -/
theorem lockstep_run (e : Eslint) (hanswers : host.Answers stale rel host')
    (hbesides : Tool.FoundBesides stale e.root) (script : Path) :
    Lockstep host host' rel (e.run script) (e.run script) := by
  unfold run
  split
  · exact .bind (Action.lockstep_note _ _ _ _) fun _ => .pure _
  · next program _ =>
    refine .bind (Action.lockstep_note _ _ _ _) fun _ =>
      .bind (Action.lockstep_read fun w w' hrel => ?_) fun argv =>
      .bind (Tool.lockstep_run hanswers _ _ _ _ _) fun outcome => ?_
    · have halike := hanswers.alike _ _ hrel
      have hflat := halike.has_eq (hbesides.configurations "eslint.config.cjs" (by decide))
      have holder := halike.has_eq (hbesides.configurations ".eslintrc.cjs" (by decide))
      refine ⟨_, returns_arguments program e script w.tree, ?_⟩
      have hreturns := returns_arguments program e script w'.tree
      unfold configurations at hreturns ⊢
      rwa [hflat, holder] at hreturns
    · extract_lets passed failed checked
      have hpassed (r : Unit) : Lockstep host host' rel (passed r) (passed r) :=
        .bind (Action.lockstep_note _ _ _ _) fun _ => .pure _
      have hfailed (r : Unit) : Lockstep host host' rel (failed r) (failed r) :=
        .bind (.throw _) fun r => hpassed r
      have hchecked (r : Unit) : Lockstep host host' rel (checked r) (checked r) :=
        .ite (.ite (.bind (Action.lockstep_note _ _ _ _) hfailed) (hfailed ())) (hpassed ())
      exact .ite (.bind (Action.lockstep_note _ _ _ _) hchecked) (hchecked ())

end Eslint

end Tools

end Userscript
