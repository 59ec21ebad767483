import Userscript.Proofs.Tree.Writable

/-!
# Tools that break a build off

A tool that fails is a build error, which a build reports. Some of what can become of a check by Node is not
taken for its failure: that Node cannot be started, that its limit of time is none for which a program can be
waited for, that what it prints is no text, or that its line number is too long. Each of these is a fault.

## Main definitions

* `Steady` — a step leaves the folders as they are and fails for some reasons only
* `Limit.Fits` — a limit of time can be counted down
* `Host.Report.BreaksCheck` — what breaks a check by Node off

## Main results

* `Tool.steady_run`, `Eslint.steady_run` — running a tool fails for a build error only
* `Checker.check_node_fault_iff` — when a check is broken off
-/

namespace Userscript

variable {α : Type} {host : Host} {fault : Fault} {w w' : World}

theorem mapError_ok {ε ε' : Type} (f : ε → ε') (a : α) : (Except.ok a : Except ε α).mapError f = .ok a := rfl

theorem mapError_error {ε ε' : Type} (f : ε → ε') (e : ε) :
    (Except.error e : Except ε α).mapError f = .error (f e) := rfl

/-- The failures that a build reports. -/
def IsReported (failure : Failure) : Prop := ∃ error, failure = .build error

/-- The folders stay as they are, and a step fails for some reasons only. -/
def steady (failure : Failure → Prop) : Bound World where
  change w w' := w.tree.SameFolders w'.tree
  failure := failure
  refl w := .refl w.tree
  trans := .trans

/-- An action leaves the folders as they are and fails for some reasons only. -/
abbrev Steady (host : Host) (failure : Failure → Prop) (action : Action α) : Prop :=
  Within host (steady failure) action

/-- Any action that keeps to a scope is steady if the scope says so of the tree. -/
theorem Steady.of_within {scope : Scope} {action : Action α} (h : action.Within host scope)
    (htree : ∀ t t', scope.tree t t' → t.SameFolders t') : Steady host (fun _ => True) action :=
  fun w => ⟨htree _ _ (h w).1.tree, fun _ _ => trivial⟩

section steady

variable {failure : Failure → Prop}

theorem steady_note (level : Log.Level) (message : String) :
    Steady host failure (Action.note level message) :=
  .modify fun w => .refl w.tree

theorem steady_read {step : Tree → Reading α}
    (h : ∀ t log failure', (step t log).1 = .error failure' → failure failure') :
    Steady host failure (Action.read step) :=
  fun w => ⟨.refl w.tree, h w.tree w.log⟩

theorem steady_fail (h : failure (.build error)) : Steady host failure (Action.fail (.build error) : Action α) :=
  .throw h

end steady

/-- A limit of time can be counted down. -/
def Limit.Fits (limit : Limit) : Prop := ∃ allowed, limit.allows = .ok allowed

/-- A tool gets time under such a limit, or none. -/
theorem Limit.Fits.exists_allows {limit : Limit} (h : limit.Fits) (report : Host.Report) :
    ∃ allowed, report.allows (some limit) = .ok allowed := by
  obtain ⟨allowed, hallowed⟩ := h
  unfold Host.Report.allows
  split
  · exact ⟨_, rfl⟩
  · exact ⟨_, rfl⟩
  · next other _ heq =>
    obtain rfl : limit = other := Option.some.inj heq
    exact ⟨allowed, hallowed⟩

/-- Running a tool fails for a build error only, if its limit of time can be counted down. -/
theorem Tool.steady_run {limit : Limit} (hlimit : limit.Fits) (stage : String) (argv : List String)
    (folder : Option Path) (input : Option String) :
    Steady host IsReported (run stage argv folder input (some limit)) := by
  have hcalled (found : Option Tree) (input : Option String) (stopped : Bool) :
      Steady host IsReported (modify fun w : World =>
        { w with calls := w.calls ++ [.tool argv folder found input stopped] }) :=
    .modify fun w => .refl w.tree
  have hleave (files : List (Path × Bytes)) : Steady host IsReported (leave files) := by
    intro w
    rw [run_leave]
    exact ⟨Tree.sameFolders_writeAll _ _ _, nofun⟩
  have hfailed {α : Type} (fault : StageFault) :
      Steady host IsReported (Action.fail (.build (.stage stage fault)) : Action α) :=
    .throw ⟨_, rfl⟩
  unfold run
  -- The cases are those of the run: how the program ends, whether its files are taken, and its time.
  refine .bind .read fun host' _ => .bind .get fun w _ => ?_
  obtain ⟨allowed, hallowed⟩ := hlimit.exists_allows (host'.run w.tree argv)
  simp only [hallowed]
  split
  · exact .bind (hcalled _ _ _) fun _ _ => hfailed _
  · refine .bind (hleave _) fun fault _ => ?_
    split
    · exact .bind (hcalled _ _ _) fun _ _ => hfailed _
    · split
      · next hfault => cases hfault
      · exact .bind (hcalled _ _ _) fun _ _ => hfailed _
      · exact .bind (hcalled _ _ _) fun _ _ => .pure _
      · exact .bind (hcalled _ _ _) fun _ _ => hfailed _

/-- Linting fails for a build error only, if the limit of time can be counted down. -/
theorem Eslint.steady_run {eslint : Eslint} {limit : Limit} (heslint : eslint.limit = some limit)
    (hlimit : limit.Fits) (script : Path) : Steady host IsReported (eslint.run script) := by
  unfold run
  split
  · exact .bind (steady_note _ _) fun _ _ => .pure _
  · next program _ =>
    have harguments (t : Tree) (log : Log) (failure : Failure)
        (h : (arguments program eslint script t log).1 = .error failure) : IsReported failure := by
      obtain ⟨rest, hrest⟩ := exists_arguments program eslint script t log
      cases hrest.symm.trans h
    refine .bind (steady_note _ _) fun _ _ => .bind (steady_read harguments) fun argv _ =>
      .bind (heslint ▸ Tool.steady_run hlimit _ _ _ _) fun outcome _ => ?_
    extract_lets passed failed checked
    have hpassed (r : Unit) : Steady host IsReported (passed r) :=
      .bind (steady_note _ _) fun _ _ => .pure _
    have hfailed (r : Unit) : Steady host IsReported (failed r) :=
      .bind (steady_fail ⟨_, rfl⟩) fun r _ => hpassed r
    have hchecked (r : Unit) : Steady host IsReported (checked r) := by
      simp only [checked]
      split
      · exact .ite_bind (steady_note _ _) hfailed
      · exact hpassed ()
    exact .ite_bind (steady_note _ _) hchecked

/-! ### Checking -/

/-- What breaks a check by Node off: it cannot be started, its limit of time is none for which it can be waited
for, or, if it has ended in time, what it printed is no text, or the line number that it reports is not read. -/
inductive Host.Report.BreaksCheck (limit : Limit) (report : Host.Report) : Fault → Prop
  | notStarted {reason : String} : report.ending = .notStarted reason →
    BreaksCheck limit report (.notStarted reason)
  | limit {fault : Fault} : (∀ reason, report.ending ≠ .notStarted reason) →
    report.allowsWait limit = .error fault → BreaksCheck limit report fault
  | out {code : Option Int} {out err : Bytes} {fault : Utf8.Fault} : report.ending = .ended code out err →
    report.allowsWait limit = .ok true → Utf8.decode out = .error fault →
      BreaksCheck limit report (.encoding fault)
  | err {code : Option Int} {out err : Bytes} {text : Text} {fault : Utf8.Fault} :
    report.ending = .ended code out err → report.allowsWait limit = .ok true → Utf8.decode out = .ok text →
      Utf8.decode err = .error fault → BreaksCheck limit report (.encoding fault)
  | number {code : Option Int} {out err : Bytes} {text printed : Text} {fault : Json.ConversionFault} :
    report.ending = .ended code out err → report.allowsWait limit = .ok true → Utf8.decode out = .ok text →
      Utf8.decode err = .ok printed → code ≠ some 0 → ParseFault.ofLines printed = .error fault →
        BreaksCheck limit report (.conversion fault)

namespace Checker

/-- The verdict that Node has printed. -/
def verdictPrinted (code : Option Int) (out err : Bytes) : Except Fault Verdict :=
  match Utf8.decode out, Utf8.decode err with
  | .error fault, _ => .error (.encoding fault)
  | .ok _, .error fault => .error (.encoding fault)
  | .ok _, .ok printed =>
    if code = some 0 then .ok none
    else
      match ParseFault.ofLines printed with
      | .ok fault => .ok (some fault)
      | .error fault => .error (.conversion fault)

/-- The verdict that a report of Node is. -/
def verdictOf (limit : Limit) (report : Host.Report) : Except Fault Verdict :=
  match report.ending with
  | .notStarted reason => .error (.notStarted reason)
  | ending =>
    match ending, report.allowsWait limit with
    | _, .error fault => .error fault
    | .ended code out err, .ok true => verdictPrinted code out err
    | _, .ok _ => .ok (some { message := s!"node --check timed out after {limit.text}s" })

theorem breaksCheck_of_verdictPrinted {limit : Limit} {report : Host.Report} {code : Option Int}
    {out err : Bytes} (hending : report.ending = .ended code out err)
    (hallows : report.allowsWait limit = .ok true) (h : verdictPrinted code out err = .error fault) :
    report.BreaksCheck limit fault := by
  unfold verdictPrinted at h
  split at h
  · next hout =>
    cases h
    exact .out hending hallows hout
  · next hout herr =>
    cases h
    exact .err hending hallows hout herr
  · next hout herr =>
    split at h
    · cases h
    · next hcode =>
      split at h
      · cases h
      · next hlines =>
        cases h
        exact .number hending hallows hout herr hcode hlines

theorem verdictOf_eq_error_iff {limit : Limit} {report : Host.Report} :
    verdictOf limit report = .error fault ↔ report.BreaksCheck limit fault := by
  constructor
  · intro h
    -- The cases are those of the verdict, in their order.
    unfold verdictOf at h
    split at h
    · next hending =>
      cases h
      exact .notStarted hending
    · next hstarted =>
      split at h
      · next hallows =>
        cases h
        exact .limit hstarted hallows
      · next hending hallows => exact breaksCheck_of_verdictPrinted hending hallows h
      · cases h
  · intro h
    cases h with
    | notStarted hending => simp only [verdictOf, hending]
    | limit hstarted hallows =>
      unfold verdictOf
      split
      · next reason hending => exact absurd hending (hstarted reason)
      · rw [hallows]
    | out hending hallows hout => simp only [verdictOf, verdictPrinted, hending, hallows, hout]
    | err hending hallows hout herr => simp only [verdictOf, verdictPrinted, hending, hallows, hout, herr]
    | number hending hallows hout herr hcode hlines =>
      simp only [verdictOf, verdictPrinted, hending, hallows, hout, herr, hcode, hlines, if_false]

theorem run_printed (bytes : Bytes) (host : Host) (w : World) : printed bytes host w =
    (((Utf8.decode bytes).mapError Fault.encoding).mapError .fault, w) := by
  unfold printed
  cases Utf8.decode bytes <;> rfl

/-- What Node prints is read as text, the output before the errors. -/
theorem run_printed_bind {β : Type} (bytes : Bytes) (next : Text → Action β) (host : Host) (w : World) :
    (printed bytes >>= next) host w =
      match Utf8.decode bytes with
      | .error fault => (.error (.fault (.encoding fault)), w)
      | .ok text => next text host w := by
  rw [Program.run_bind, run_printed]
  cases Utf8.decode bytes <;> rfl

theorem fst_checkFile (program : String) (limit : Limit) (path : Path) (host : Host) (w : World) :
    (checkFile program limit path host w).1 =
      (verdictOf limit (host.run w.tree [program, "--check", path.toString])).mapError .fault := by
  unfold checkFile verdictOf
  rw [Program.run_bind]
  change ((MonadState.get >>= _ : Action Verdict) host w).1 = _
  rw [Program.run_get_bind]
  generalize host.run w.tree [program, "--check", path.toString] = report
  rw [Program.run_bind]
  change ((match report.ending with
    | .notStarted reason => Action.fail (.fault (.notStarted reason))
    | _ => _ : Action Verdict) host _).1 = _
  cases report.ending with
  | notStarted reason => rfl
  | unending => rcases report.allowsWait limit with fault | (_ | _) <;> rfl
  | ended code out err =>
    rcases report.allowsWait limit with fault | (_ | _)
    · rfl
    · rfl
    -- The output is decoded before the errors are, even if nobody reads it.
    dsimp only
    rw [run_printed_bind, verdictPrinted]
    cases Utf8.decode out with
    | error fault => rfl
    | ok text =>
      dsimp only
      rw [run_printed_bind]
      cases Utf8.decode err with
      | error fault => rfl
      | ok printed =>
        dsimp only
        split
        · rfl
        · cases ParseFault.ofLines printed <;> rfl

theorem verdict_node {program : Option String} {name : String} {limit : Limit} {code : Text} {path : Path}
    (hname : program.filter (· ≠ "") = some name) (hhas : w.tree.has path) :
    (node program limit).verdict code (some path) host w = checkFile name limit path host w := by
  have hpath : (some path).filter w.tree.has = some path := by simp [hhas]
  unfold verdict
  simp only [hname]
  rw [Program.run_get_bind]
  simp only [hpath]

theorem verdict_none {program : Option String} (hname : program.filter (· ≠ "") = none) (limit : Limit)
    (code : Text) (path : Option Path) :
    (node program limit).verdict code path host w =
      (.ok (some { message := "'node' executable not found" }), w) := by
  unfold verdict
  simp only [hname]
  rfl

/-- What a check notes of its verdict does not fail. -/
theorem fst_noted (verdict : Verdict) (host : Host) (w : World) : ((do
    match verdict with
    | none => Action.note .info "Basic syntax check passed"
    | some fault => Action.note .error ("Syntax check failed: " ++ fault.message)
    return verdict : Action Verdict) host w).1 = .ok verdict := by
  cases verdict <;> rfl

/-- A check fails as its verdict does. -/
theorem check_eq_error_iff {checker : Checker} {code : Text} {path : Option Path} {failure : Failure} :
    (checker.check code path host w).1 = .error failure ↔
      (checker.verdict code path host
        { w with log := w.log ++ [.note .debug s!"Running syntax validation ({checker.name})..."] }).1 =
          .error failure := by
  unfold check
  rw [Program.bind_eq_error_iff]
  constructor
  · rintro (h | ⟨_, _, hnote, h⟩)
    · cases h
    · cases hnote
      rcases Program.bind_eq_error_iff.1 h with h | ⟨verdict, mid, -, h⟩
      · exact h
      · cases (fst_noted verdict host mid).symm.trans h
  · exact fun h => .inr ⟨_, _, rfl, Program.bind_eq_error_iff.2 (.inl h)⟩

/-- The parser of the host breaks no check off. -/
theorem check_parser_ne_fault (code : Text) (path : Option Path) :
    (parser.check code path host w).1 ≠ .error (.fault fault) := by
  intro h
  cases check_eq_error_iff.1 h

/-- A check by Node is broken off if Node is installed and something breaks it off. -/
theorem check_node_fault_iff {program : Option String} {limit : Limit} {code : Text} {path : Path}
    (hhas : w.tree.has path) :
    ((node program limit).check code (some path) host w).1 = .error (.fault fault) ↔
      ∃ name, program.filter (· ≠ "") = some name ∧
        (host.run w.tree [name, "--check", path.toString]).BreaksCheck limit fault := by
  rw [check_eq_error_iff]
  -- What is noted has no effect on the check.
  generalize hnoted : ({ w with log := _ } : World) = noted
  have htree : noted.tree = w.tree := by rw [← hnoted]
  cases hname : program.filter (· ≠ "") with
  | none => simp [verdict_none hname]
  | some name =>
    rw [verdict_node hname (by rw [htree, hhas]), fst_checkFile, htree]
    simp only [Option.some.injEq, exists_eq_left', ← verdictOf_eq_error_iff]
    cases verdictOf limit (host.run w.tree [name, "--check", path.toString]) with
    | error fault' => simp [mapError_error]
    | ok verdict => simp [mapError_ok]

/-- Node is the checker of a name: it is asked for, or it is installed. -/
def ChoosesNode (name : String) (host : Host) : Prop :=
  name = "node" ∨ name = "auto" ∧ (nodeProgram? host).isSome

/-- Without a choice, the checker is Node if it is installed, and else the parser. -/
theorem run_ofName_auto (limit : Limit) (host : Host) (w : World) : ofName "auto" (some limit) host w =
    (match nodeProgram? host with
      | some _ => pure (node (host.which "node") limit)
      | none => do
        Action.note .warning "node not found, falling back to esprima (ES2017 syntax only)"
        return parser : Action Checker) host w := rfl

/-- Choosing a checker ends with Node, with the parser, or with the fault that there is no such checker. -/
theorem ofName_cases (name : String) (limit : Limit) (host : Host) (w : World) :
    ∃ result w', ofName name (some limit) host w = (result, w') ∧ w'.tree = w.tree ∧
      (ChoosesNode name host ∧ result = .ok (node (host.which "node") limit) ∨
        ¬ ChoosesNode name host ∧ (result = .ok parser ∨ result = .error (.fault (.noChecker name)))) := by
  by_cases hauto : name = "auto"
  · subst hauto
    rw [run_ofName_auto]
    cases hnode : nodeProgram? host with
    | some program => exact ⟨_, _, rfl, rfl, .inl ⟨.inr ⟨rfl, by simp [hnode]⟩, rfl⟩⟩
    | none => exact ⟨_, _, rfl, rfl, .inr ⟨by simp [ChoosesNode, hnode], .inl rfl⟩⟩
  by_cases hparser : name = "esprima"
  · subst hparser
    exact ⟨_, _, rfl, rfl, .inr ⟨by simp [ChoosesNode], .inl rfl⟩⟩
  by_cases hnode : name = "node"
  · subst hnode
    exact ⟨_, _, rfl, rfl, .inl ⟨.inl rfl, rfl⟩⟩
  -- There is no checker of another name.
  have hrun : ofName name (some limit) host w = (.error (.fault (.noChecker name)), w) := by
    unfold ofName
    rw [Program.run_bind]
    simp only [show (read : Action Host) host w = (.ok host, w) from rfl]
    rfl
  exact ⟨_, _, hrun, rfl, .inr ⟨by simp [ChoosesNode, hauto, hnode], .inr rfl⟩⟩

end Checker

end Userscript
