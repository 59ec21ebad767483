import Userscript.Checker
import Userscript.Settings.Basic
import Userscript.Tool.Eslint
import Userscript.Tool.Minify

/-!
# What an action may do

A scope says what an action may do: which programs it may start, which files it may write, how it
may change the tree, and for which reasons it may fail. What may be done by two steps may be done by
both one after the other, so each action is looked at once, and what a build does follows from what
its steps do.

## Main definitions

* `Program`, `Gives` — a step, and that it can have a result
* `Bound`, `Within` — how far a step may go, and that it goes no further
* `Scope` — what an action may do
* `Scope.Admits` — a file may be written

## Main results

* `Within.bind`, `Within.tryCatch` — steps one after the other
* `within_writeText` — writing a text
* `Checker.within_check`, `Eslint.within_run`, `Terser.within_minify` — the outside tools
-/

namespace Userscript

variable {σ α β : Type} {host : Host}

/-- What a step of an action or of a build is: it reads the host, changes a state and can fail. -/
abbrev Program (σ α : Type) := ReaderT Host (ExceptT Failure (StateM σ)) α

/-- A step can have this result on a host. -/
def Gives (host : Host) (step : Program σ α) (value : α) : Prop :=
  ∃ state state', step host state = (.ok value, state')

theorem Gives.eq_of_pure {value value' : α} (h : Gives host (pure value : Program σ α) value') :
    value' = value := by
  obtain ⟨state, state', h⟩ := h
  cases h
  rfl

theorem Gives.eq_of_read {host' : Host} (h : Gives host (read : Program σ Host) host') : host' = host := by
  obtain ⟨state, state', h⟩ := h
  cases h
  rfl

theorem Program.run_bind (step : Program σ α) (next : α → Program σ β) (host : Host) (state : σ) :
    (step >>= next) host state =
      match step host state with
      | (.ok value, state) => next value host state
      | (.error failure, state) => (.error failure, state) := by
  simp only [Bind.bind, ReaderT.bind, ExceptT.bind, ExceptT.mk, ExceptT.bindCont, StateT.bind]
  cases step host state with
  | mk result state => cases result <;> rfl

/-- Two steps end well if the first does and then the second. -/
theorem Program.bind_eq_ok_iff {step : Program σ α} {next : α → Program σ β} {host : Host} {state state' : σ}
    {value : β} : (step >>= next) host state = (.ok value, state') ↔
      ∃ first mid, step host state = (.ok first, mid) ∧ next first host mid = (.ok value, state') := by
  rw [Program.run_bind]
  rcases step host state with ⟨failure | first, mid⟩
  · constructor
    · intro h
      cases h
    · rintro ⟨_, _, h, -⟩
      cases h
  · constructor
    · intro h
      exact ⟨first, mid, rfl, h⟩
    · rintro ⟨_, _, h, hnext⟩
      cases h
      exact hnext

/-- Two steps fail if the first does, or if it ends well and the second does. -/
theorem Program.bind_eq_error_iff {step : Program σ α} {next : α → Program σ β} {host : Host} {state : σ}
    {failure : Failure} : ((step >>= next) host state).1 = .error failure ↔
      (step host state).1 = .error failure ∨
        ∃ value mid, step host state = (.ok value, mid) ∧ (next value host mid).1 = .error failure := by
  rw [Program.run_bind]
  rcases step host state with ⟨failure' | value, mid⟩
  · constructor
    · intro h
      cases h
      exact .inl rfl
    · rintro (h | ⟨_, _, h, -⟩)
      · cases h
        rfl
      · cases h
  · constructor
    · exact fun h => .inr ⟨value, mid, rfl, h⟩
    · rintro (h | ⟨_, _, h, hnext⟩)
      · cases h
      · cases h
        exact hnext

theorem Program.run_get_bind (next : σ → Program σ β) (host : Host) (state : σ) :
    (MonadState.get >>= next) host state = next state host state := rfl

theorem Program.run_tryCatch (step : Program σ α) (handler : Failure → Program σ α) (host : Host)
    (state : σ) : (MonadExcept.tryCatch step handler) host state =
      match step host state with
      | (.ok value, state) => (.ok value, state)
      | (.error failure, state) => handler failure host state := by
  -- What is caught is caught below the reader, with the same host.
  change (ExceptT.tryCatch (step host) fun failure => handler failure host) state = _
  simp only [ExceptT.tryCatch, ExceptT.mk, Bind.bind, StateT.bind]
  cases step host state with
  | mk result state => cases result <;> rfl

theorem Program.run_map (f : α → β) (step : Program σ α) (host : Host) (state : σ) :
    (f <$> step) host state =
      match step host state with
      | (.ok value, state) => (.ok (f value), state)
      | (.error failure, state) => (.error failure, state) := by
  change (ExceptT.map f (step host)) state = _
  simp only [ExceptT.map, ExceptT.mk, Bind.bind, StateT.bind]
  cases step host state with
  | mk result state => cases result <;> rfl

/-- How far a step may go: how it may change the state, and for which reasons it may fail. -/
structure Bound (σ : Type) where
  change : σ → σ → Prop
  failure : Failure → Prop
  refl (state : σ) : change state state
  trans {a b c : σ} : change a b → change b c → change a c

/-- A step goes no further than it may, whether it fails or not. -/
def Within (host : Host) (bound : Bound σ) (step : Program σ α) : Prop :=
  ∀ state, bound.change state (step host state).2 ∧
    ∀ failure, (step host state).1 = .error failure → bound.failure failure

namespace Within

variable {bound : Bound σ}

theorem pure (value : α) : Within host bound (pure value : Program σ α) :=
  fun state => ⟨bound.refl state, nofun⟩

theorem throw {failure : Failure} (h : bound.failure failure) :
    Within host bound (throw failure : Program σ α) :=
  fun state => ⟨bound.refl state, by rintro _ ⟨⟩; exact h⟩

theorem get : Within host bound (get : Program σ σ) := fun state => ⟨bound.refl state, nofun⟩

theorem read : Within host bound (read : Program σ Host) := fun state => ⟨bound.refl state, nofun⟩

theorem modify {f : σ → σ} (h : ∀ state, bound.change state (f state)) :
    Within host bound (modify f : Program σ Unit) :=
  fun state => ⟨h state, nofun⟩

/-- Two steps one after the other go no further than each of them. -/
theorem bind {step : Program σ α} {next : α → Program σ β} (h : Within host bound step)
    (hnext : ∀ value, Gives host step value → Within host bound (next value)) :
    Within host bound (step >>= next) := by
  intro state
  obtain ⟨hchange, hfailure⟩ := h state
  rw [Program.run_bind]
  cases hstep : step host state with
  | mk result state' =>
    rw [hstep] at hchange hfailure
    cases result with
    | error failure => exact ⟨hchange, by rintro _ ⟨⟩; exact hfailure failure rfl⟩
    | ok value =>
      obtain ⟨hchange', hfailure'⟩ := hnext value ⟨state, state', hstep⟩ state'
      exact ⟨bound.trans hchange hchange', hfailure'⟩

/-- A step may fail for reasons that are caught. -/
theorem tryCatch {caught : Failure → Prop} {step : Program σ α} {handler : Failure → Program σ α}
    (h : Within host { bound with failure := caught } step)
    (hhandler : ∀ failure, caught failure → Within host bound (handler failure)) :
    Within host bound (MonadExcept.tryCatch step handler) := by
  intro state
  obtain ⟨hchange, hfailure⟩ := h state
  rw [Program.run_tryCatch]
  cases hstep : step host state with
  | mk result state' =>
    rw [hstep] at hchange hfailure
    cases result with
    | ok value => exact ⟨hchange, nofun⟩
    | error failure =>
      obtain ⟨hchange', hfailure'⟩ := hhandler failure (hfailure failure rfl) state'
      exact ⟨bound.trans hchange hchange', hfailure'⟩

/-- A step that is taken in some cases only. -/
theorem ite_bind {c : Prop} [Decidable c] {step : Program σ Unit} {next : Unit → Program σ α}
    (h : Within host bound step) (hnext : ∀ value, Within host bound (next value)) :
    Within host bound (if c then step >>= next else next ()) := by
  split
  · exact bind h fun value _ => hnext value
  · exact hnext ()

theorem map {step : Program σ α} (f : α → β) (h : Within host bound step) :
    Within host bound (f <$> step) := by
  intro state
  obtain ⟨hchange, hfailure⟩ := h state
  rw [Program.run_map]
  cases hstep : step host state with
  | mk result state' =>
    rw [hstep] at hchange hfailure
    cases result with
    | ok value => exact ⟨hchange, nofun⟩
    | error failure => exact ⟨hchange, by rintro _ ⟨⟩; exact hfailure failure rfl⟩

theorem forM {as : List α} {step : α → Program σ PUnit} (h : ∀ a, Within host bound (step a)) :
    Within host bound (as.forM step) := by
  induction as with
  | nil => exact pure ()
  | cons a as ih => exact bind (h a) fun _ _ => ih

end Within

/-! ### Scopes -/

/-- What an action may do. It may always note something, and fail for a fault. -/
structure Scope where
  /-- The programs it may start. -/
  calls : Call → Prop
  /-- The files it may write. -/
  written : Path → Prop
  /-- How it may change the tree. -/
  tree : Tree → Tree → Prop
  /-- The build errors it may fail with. -/
  error : BuildError → Prop
  tree_refl (t : Tree) : tree t t
  tree_trans {t t' t'' : Tree} : tree t t' → tree t' t'' → tree t t''

namespace Scope

variable {scope : Scope}

/-- The world has changed as it may. -/
structure Allows (scope : Scope) (w w' : World) : Prop where
  calls : ∃ new, w'.calls = w.calls ++ new ∧ ∀ c ∈ new, scope.calls c
  written : ∃ new, w'.written = w.written ++ new ∧ ∀ p ∈ new, scope.written p
  tree : scope.tree w.tree w'.tree

/-- A failure for which an action may fail. -/
def MayFail (scope : Scope) : Failure → Prop
  | .build error => scope.error error
  | .fault _ => True

/-- The tree alone has changed. -/
theorem Allows.of_tree {w w' : World} (hcalls : w'.calls = w.calls) (hwritten : w'.written = w.written)
    (htree : scope.tree w.tree w'.tree) : scope.Allows w w' :=
  ⟨⟨[], by simp [hcalls]⟩, ⟨[], by simp [hwritten]⟩, htree⟩

/-- Nothing has changed but the log and the clock. -/
theorem Allows.of_eq {w w' : World} (hcalls : w'.calls = w.calls) (hwritten : w'.written = w.written)
    (htree : w'.tree = w.tree) : scope.Allows w w' :=
  .of_tree hcalls hwritten (htree ▸ scope.tree_refl _)

theorem Allows.trans {w w' w'' : World} (h : scope.Allows w w') (h' : scope.Allows w' w'') :
    scope.Allows w w'' := by
  obtain ⟨⟨calls, hcalls, hcall⟩, ⟨files, hfiles, hfile⟩, htree⟩ := h
  obtain ⟨⟨calls', hcalls', hcall'⟩, ⟨files', hfiles', hfile'⟩, htree'⟩ := h'
  refine ⟨⟨calls ++ calls', by rw [hcalls', hcalls, List.append_assoc], fun c hc => ?_⟩,
    ⟨files ++ files', by rw [hfiles', hfiles, List.append_assoc], fun p hp => ?_⟩,
    scope.tree_trans htree htree'⟩
  · exact (List.mem_append.1 hc).elim (hcall c) (hcall' c)
  · exact (List.mem_append.1 hp).elim (hfile p) (hfile' p)

/-- How far an action may go. -/
def bound (scope : Scope) : Bound World where
  change := scope.Allows
  failure := scope.MayFail
  refl _ := .of_eq rfl rfl rfl
  trans := .trans

/-- A file may be written, and the folders on the way to it may be made. -/
structure Admits (scope : Scope) (p : Path) : Prop where
  written : scope.written p
  folders (t : Tree) : scope.tree t (t.makeFolders p.parent).1
  file {t t' : Tree} {content : Bytes} {stamp : Int} :
    t.writeFile p content stamp = .ok t' → scope.tree t t'

end Scope

/-- An action does no more than it may. -/
abbrev Action.Within (host : Host) (scope : Scope) (action : Action α) : Prop :=
  Userscript.Within host scope.bound action

namespace Action

variable {scope : Scope} {p : Path}

theorem within_read {step : Tree → Reading α}
    (h : ∀ t log failure, (step t log).1 = .error failure → scope.MayFail failure) :
    (Action.read step).Within host scope :=
  fun world => ⟨.of_eq rfl rfl rfl, h world.tree world.log⟩

theorem gives_read {step : Tree → Reading α} {value : α} (h : Gives host (Action.read step) value) :
    ∃ t log, (step t log).1 = .ok value := by
  obtain ⟨world, world', h⟩ := h
  exact ⟨world.tree, world.log, congrArg Prod.fst h⟩

theorem within_note (level : Log.Level) (message : String) : (note level message).Within host scope :=
  .modify fun _ => .of_eq rfl rfl rfl

theorem within_fault (fault : Fault) : (fail (.fault fault) : Action α).Within host scope := .throw trivial

theorem within_error {error : BuildError} (h : scope.error error) :
    (fail (.build error) : Action α).Within host scope :=
  .throw h

theorem within_demand (s : Settings) (use : Settings.Use) :
    (s.demand use : Action Unit).Within host scope := by
  unfold Settings.demand
  split
  · exact .throw trivial
  · exact .pure ()

theorem within_demandPath (p : Path) : (demandPath p).Within host scope := by
  unfold demandPath
  split
  · exact within_fault _
  · exact .pure ()

theorem within_takeStamp : takeStamp.Within host scope := fun _ => ⟨.of_eq rfl rfl rfl, nofun⟩

/-- A change of the tree that is allowed. -/
theorem within_modifyTree {f : Tree → Tree} (h : ∀ t, scope.tree t (f t)) :
    (modify fun w => { w with tree := f w.tree } : Action Unit).Within host scope :=
  .modify fun w => .of_tree rfl rfl (h w.tree)

theorem run_change (f : Tree → Except FileFault Tree) (world : World) : change f host world =
    match f world.tree with
    | .ok tree => (.ok (), { world with tree })
    | .error fault => (.error (.fault (.file fault)), world) := by
  rw [change, Program.run_get_bind]
  cases f world.tree <;> rfl

theorem within_change {f : Tree → Except FileFault Tree} (h : ∀ t t', f t = .ok t' → scope.tree t t') :
    (change f).Within host scope := by
  intro world
  rw [run_change]
  cases hf : f world.tree with
  | ok tree => exact ⟨.of_tree rfl rfl (h _ _ hf), nofun⟩
  | error fault => exact ⟨.of_eq rfl rfl rfl, by rintro _ ⟨⟩; trivial⟩

theorem within_writeBytes (h : scope.Admits p) (content : Bytes) :
    (writeBytes p content).Within host scope := by
  unfold writeBytes
  refine .bind (within_demandPath p) fun _ _ => .bind within_takeStamp fun stamp _ =>
    .bind (within_change fun _ _ => h.file) fun _ _ => ?_
  exact .modify fun w => ⟨⟨[], by simp⟩, ⟨[p], rfl, by simpa using h.written⟩, scope.tree_refl _⟩

theorem run_makeFolders (h : p.hasNul = false) (world : World) : makeFolders p host world =
    ((match (world.tree.makeFolders p).2 with
      | none => .ok ()
      | some fault => .error (.fault (.file fault))),
      { world with tree := (world.tree.makeFolders p).1 }) := by
  rw [makeFolders, demandPath, h, if_neg (by simp), pure_bind, Program.run_get_bind]
  rcases world.tree.makeFolders p with ⟨tree, fault | fault⟩ <;> rfl

theorem within_makeFolders (h : ∀ t : Tree, scope.tree t (t.makeFolders p).1) :
    (makeFolders p).Within host scope := by
  intro world
  cases hnul : p.hasNul with
  | true =>
    rw [makeFolders, demandPath, hnul]
    exact ⟨.of_eq rfl rfl rfl, by rintro _ ⟨⟩; trivial⟩
  | false =>
    rw [run_makeFolders hnul]
    refine ⟨.of_tree rfl rfl (h _), fun failure hfailure => ?_⟩
    dsimp only at hfailure
    split at hfailure <;> cases hfailure
    trivial

theorem within_writeText (h : scope.Admits p) (text : Text) : (writeText p text).Within host scope := by
  unfold writeText
  exact .bind (within_makeFolders h.folders) fun _ _ => .bind (within_writeBytes h _) fun _ _ => .pure _

end Action

/-! ### Tools -/

section Tools

variable {scope : Scope}

namespace Checker

variable (hcalls : ∀ argv limit, scope.calls (.check argv limit))

theorem within_ofName (name : String) (limit : Option Limit) : (ofName name limit).Within host scope := by
  unfold ofName
  refine .bind .read fun host _ => ?_
  dsimp only
  split
  · split
    · exact .pure _
    · exact .bind (Action.within_note _ _) fun _ _ => .pure _
  · exact .pure _
  · exact .pure _
  · exact Action.within_fault _

theorem within_printed (bytes : Bytes) : (printed bytes).Within host scope := by
  unfold printed
  split
  · exact .pure _
  · exact Action.within_fault _

include hcalls in
theorem within_checkFile (program : String) (limit : Limit) (path : Path) :
    (checkFile program limit path).Within host scope := by
  unfold checkFile
  have hcalled (argv : List String) :
      (modify fun w => { w with calls := w.calls ++ [.check argv limit] } : Action Unit).Within host scope :=
    .modify fun w => ⟨⟨_, rfl, by simpa using hcalls argv limit⟩, ⟨[], by simp⟩, scope.tree_refl _⟩
  refine .bind .read fun host _ => .bind .get fun world _ => .bind (hcalled _) fun _ _ => ?_
  split
  · exact Action.within_fault _
  split
  · exact Action.within_fault _
  · refine .bind (within_printed _) fun _ _ => .bind (within_printed _) fun err _ => ?_
    split
    · exact .pure _
    · split
      · exact .pure _
      · exact Action.within_fault _
  · exact .pure _

include hcalls in
theorem within_verdict (checker : Checker) (code : Text) (path : Option Path) :
    (checker.verdict code path).Within host scope := by
  unfold verdict
  split
  · exact .bind .read fun host _ => .pure _
  · split
    · exact .pure _
    · refine .bind .get fun world _ => ?_
      dsimp only
      split
      · exact .pure _
      · exact within_checkFile hcalls _ _ _

include hcalls in
/-- A check starts programs that check, and changes nothing. -/
theorem within_check (checker : Checker) (code : Text) (path : Option Path) :
    (checker.check code path).Within host scope := by
  unfold check
  refine .bind (Action.within_note _ _) fun _ _ => .bind (within_verdict hcalls _ _ _) fun verdict _ => ?_
  split
  · exact .bind (Action.within_note _ _) fun _ _ => .pure _
  · exact .bind (Action.within_note _ _) fun _ _ => .pure _

end Checker

/-- The files that a program writes on a host lie where they may be written. -/
def Scope.AdmitsTools (scope : Scope) (host : Host) : Prop :=
  ∀ t t' argv stamp, scope.tree t (Tool.writeAll stamp t (host.run t' argv).files).1

namespace Tool

theorem run_leave (files : List (Path × Bytes)) (world : World) : leave files host world =
    (.ok (writeAll world.nextStamp world.tree files).2,
      { world with
        tree := (writeAll world.nextStamp world.tree files).1
        nextStamp := world.nextStamp + 1 }) := by
  rfl

/-- A tool starts its program, changes the tree by the files of the program, and fails for its stage. -/
theorem within_run {stage : String} {argv : List String} {folder : Option Path}
    (hcalls : ∀ found input stopped, scope.calls (.tool argv folder found input stopped))
    (htree : scope.AdmitsTools host) (herror : ∀ fault, scope.error (.stage stage fault))
    (input : Option String) (limit : Option Limit) :
    (run stage argv folder input limit).Within host scope := by
  have hcalled (found : Option Tree) (input : Option String) (stopped : Bool) :
      Action.Within host scope (modify fun w : World =>
        { w with calls := w.calls ++ [.tool argv folder found input stopped] }) :=
    .modify fun w => ⟨⟨_, rfl, by simpa using hcalls _ _ _⟩, ⟨[], by simp⟩, scope.tree_refl _⟩
  have hleave (t : Tree) : (leave (host.run t argv).files).Within host scope := by
    intro world
    rw [run_leave]
    exact ⟨.of_tree rfl rfl (htree _ _ _ _), nofun⟩
  have hfailed {α : Type} (fault : StageFault) :
      Action.Within host scope (Action.fail (.build (.stage stage fault)) : Action α) :=
    Action.within_error (herror fault)
  -- However the program ends, its call is noted, and what it has left stays.
  unfold run
  refine .bind .read fun host' hread => .bind .get fun world _ => ?_
  obtain rfl := hread.eq_of_read
  dsimp only
  split
  · exact .bind (hcalled _ _ _) fun _ _ => hfailed _
  · refine .bind (hleave _) fun fault _ => ?_
    split
    · exact .bind (hcalled _ _ _) fun _ _ => hfailed _
    · split
      · exact .bind (hcalled _ _ _) fun _ _ => Action.within_fault _
      · exact .bind (hcalled _ _ _) fun _ _ => hfailed _
      · exact .bind (hcalled _ _ _) fun _ _ => .pure _
      · exact .bind (hcalled _ _ _) fun _ _ => hfailed _

end Tool

/-- A program was started as ESLint in a folder. -/
inductive Eslint.Called (root : Path) : Call → Prop
  | mk {program : String} {rest : List String} {found : Option Tree} {input : Option String}
      {stopped : Bool} :
    Called root (.tool (program :: "--no-warn-ignored" :: rest) (some root) found input stopped)

/-- A program was started as Terser in a folder. -/
inductive Terser.Called (root : Path) : Call → Prop
  | mk {terser : Terser} {request : Terser.Request} {argv : List String} {found : Option Tree}
      {input : Option String} {stopped : Bool} :
    terser.arguments request = .ok argv → Called root (.tool argv (some root) found input stopped)

theorem Eslint.exists_arguments (program : String) (eslint : Eslint) (script : Path) (t : Tree) (log : Log) :
    ∃ rest, (arguments program eslint script t log).1 = .ok (program :: "--no-warn-ignored" :: rest) := by
  unfold arguments configurations
  dsimp only
  split
  · exact ⟨_, rfl⟩
  · split <;> exact ⟨_, rfl⟩

/-- Linting starts ESLint. -/
theorem Eslint.within_run {eslint : Eslint} (hcalls : ∀ c, Called eslint.root c → scope.calls c)
    (htree : scope.AdmitsTools host) (herror : ∀ fault, scope.error (.stage "eslint" fault))
    (script : Path) : (eslint.run script).Within host scope := by
  unfold run
  split
  · exact .bind (Action.within_note _ _) fun _ _ => .pure _
  · next program hprogram =>
    -- The arguments can always be made, so it is the run of ESLint that fails.
    have harguments (t : Tree) (log : Log) (failure : Failure) :
        (arguments program eslint script t log).1 ≠ .error failure := by
      obtain ⟨rest, hrest⟩ := exists_arguments program eslint script t log
      rw [hrest]
      nofun
    have hcalled {argv : List String} (h : Gives host (Action.read (arguments program eslint script)) argv)
        (found : Option Tree) (input : Option String) (stopped : Bool) :
        scope.calls (.tool argv (some eslint.root) found input stopped) := by
      obtain ⟨t, log, hvalue⟩ := Action.gives_read h
      obtain ⟨rest, hrest⟩ := exists_arguments program eslint script t log
      obtain rfl := Except.ok.inj (hrest.symm.trans hvalue)
      exact hcalls _ .mk
    refine .bind (Action.within_note _ _) fun _ _ =>
      .bind (Action.within_read fun t log failure h => absurd h (harguments t log failure)) fun argv hargv =>
      .bind (Tool.within_run (hcalled hargv) htree herror _ _) fun outcome _ => ?_
    extract_lets passed failed checked
    have hpassed (r : Unit) : (passed r).Within host scope :=
      .bind (Action.within_note _ _) fun _ _ => .pure _
    have hfailed (r : Unit) : (failed r).Within host scope :=
      .bind (Action.within_error (herror _)) fun r _ => hpassed r
    have hchecked (r : Unit) : (checked r).Within host scope := by
      simp only [checked]
      split
      · exact .ite_bind (Action.within_note _ _) hfailed
      · exact hpassed ()
    exact .ite_bind (Action.within_note _ _) hchecked

namespace Terser

/-- The temporary folder of a host may be made, a file of this name may be written into it, and it may
be removed. -/
structure AdmitsFolder (scope : Scope) (host : Host) (name : String) : Prop where
  make (t : Tree) :
    scope.tree t { t with root := Node.put (.folder []) host.scratch.parts t.root }
  write {t t' : Tree} {content : Bytes} {stamp : Int} :
    t.writeFile (host.scratch.child name) content stamp = .ok t' → scope.tree t t'
  remove (t : Tree) : scope.tree t (t.delete host.scratch)

theorem within_textOf (p : Path) : (textOf p).Within host scope := by
  unfold textOf
  refine .bind .get fun world _ => ?_
  split
  · exact .pure _
  · exact Action.within_fault _
  · exact Action.within_fault _

theorem within_minifyIn {terser : Terser} {root : Path} {name : String}
    (hcalls : ∀ c, Called root c → scope.calls c) (htree : scope.AdmitsTools host)
    (herror : ∀ fault, scope.error (.stage "terser" fault))
    (hfolder : AdmitsFolder scope host ("input-" ++ name)) (limit : Option Limit) (body : Text)
    (wish : Wish) : (minifyIn terser root limit body name wish host.scratch).Within host scope := by
  unfold minifyIn
  extract_lets input output failed request mapFile found started
  have hfailed {α : Type} (fault : StageFault) : (failed fault : Action α).Within host scope :=
    Action.within_error (herror _)
  have hfound (r : Unit) : (found r).Within host scope := by
    refine .bind (within_textOf _) fun code _ => ?_
    extract_lets complete read
    have hread (r : Unit) : (read r).Within host scope := by
      refine .bind .get fun world _ => ?_
      split
      · exact .bind (.map _ (within_textOf _)) fun _ _ => .pure _
      · exact .bind (.pure _) fun _ _ => .pure _
    exact .ite_bind (hfailed _) hread
  have hstarted {argv : List String} (h : terser.arguments request = .ok argv) :
      (started argv).Within host scope := by
    refine .bind (Action.within_note _ _) fun _ _ =>
      .bind (Tool.within_run (fun _ _ _ => hcalls _ (.mk h)) htree herror _ _) fun outcome _ => ?_
    extract_lets said ended
    have hended (r : Unit) : (ended r).Within host scope := by
      refine .bind (.forM fun line => Action.within_note _ _) fun _ _ => .bind .get fun world _ => ?_
      exact .ite_bind (hfailed _) hfound
    exact .ite_bind (hfailed _) hended
  refine .bind (Action.within_demandPath _) fun _ _ => .bind Action.within_takeStamp fun stamp _ =>
    .bind (Action.within_change fun _ _ => hfolder.write) fun _ _ => ?_
  -- The command line is the one that was put together, so the program is Terser.
  split
  · next argv hargv =>
    refine .bind (.pure _) fun argv' h => hstarted ?_
    rw [h.eq_of_pure, hargv]
  · exact .bind (hfailed _) fun argv ⟨_, _, h⟩ => by cases h

/-- The host is read by a step like the others. -/
theorem withFolder_eq (f : Path → Action α) : withFolder f = (do
    let host ← read
    modify fun w =>
      { w with tree := { w.tree with root := Node.put (.folder []) host.scratch.parts w.tree.root } }
    let removed : Action Unit := modify fun w => { w with tree := w.tree.delete host.scratch }
    let result ← tryCatch (f host.scratch) fun failure => do
      removed
      throw failure
    removed
    return result : Action α) := rfl

theorem within_withFolder {name : String} {f : Path → Action α} (h : (f host.scratch).Within host scope)
    (hfolder : AdmitsFolder scope host name) : (withFolder f).Within host scope := by
  rw [withFolder_eq]
  refine .bind .read fun host' hread => ?_
  obtain rfl := hread.eq_of_read
  refine .bind (Action.within_modifyTree hfolder.make) fun _ _ => ?_
  extract_lets removed
  have hremoved : removed.Within host' scope := Action.within_modifyTree hfolder.remove
  refine .bind (.tryCatch h fun failure hfailure => ?_) fun result _ => ?_
  · exact .bind hremoved fun _ _ => .throw hfailure
  · exact .bind hremoved fun _ _ => .pure _

/-- Making a script small starts Terser, and changes nothing but the temporary folder. -/
theorem within_minify {terser : Terser} {root : Path} {name : String}
    (hcalls : ∀ c, Called root c → scope.calls c) (htree : scope.AdmitsTools host)
    (herror : ∀ fault, scope.error (.stage "terser" fault))
    (hfolder : AdmitsFolder scope host ("input-" ++ name)) (limit : Option Limit) (body : Text)
    (wish : Wish) : (terser.minify root limit body name wish).Within host scope :=
  within_withFolder (within_minifyIn hcalls htree herror hfolder limit body wish) hfolder

end Terser

end Tools

end Userscript
