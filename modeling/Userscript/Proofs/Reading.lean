import Userscript.Header.Source
import Userscript.Module.Location

/-!
# What a step that reads gives

A step that reads may note something, but what it gives does not depend on what was noted before.
The text of a file, the header of a bundle and the modules of a project in order are functions of
the tree.

## Main definitions

* `Reading.Returns` — a step gives this, whatever is in the log
* `Header.resolved`, `Manifest.first` — the header and the manifest that are found in a tree
* `Module.files`, `Module.arranged` — the files of a project that are modules, and the modules in order

## Main results

* `returns_resolve`, `returns_load`, `returns_locate` — what the steps of a build read
-/

namespace Userscript

variable {α β : Type} {t : Tree}

namespace Reading

/-- A step gives this value or fails in this way, whatever is in the log. -/
def Returns (step : Reading α) (value : Except Failure α) : Prop := ∀ log, (step log).1 = value

theorem run_bind (step : Reading α) (next : α → Reading β) (log : Log) : (step >>= next) log =
    match step log with
    | (.ok value, log) => next value log
    | (.error failure, log) => (.error failure, log) := by
  simp only [Bind.bind, ExceptT.bind, ExceptT.mk, ExceptT.bindCont, StateT.bind]
  cases step log with
  | mk result log => cases result <;> rfl

theorem run_tryCatch (step : Reading α) (handler : Failure → Reading α) (log : Log) :
    (MonadExcept.tryCatch step handler) log =
      match step log with
      | (.ok value, log) => (.ok value, log)
      | (.error failure, log) => handler failure log := by
  change (ExceptT.tryCatch step handler) log = _
  simp only [ExceptT.tryCatch, ExceptT.mk, Bind.bind, StateT.bind]
  cases step log with
  | mk result log => cases result <;> rfl

namespace Returns

variable {step : Reading α} {next : α → Reading β} {value : Except Failure β}

theorem unique {value value' : Except Failure α} (h : Returns step value) (h' : Returns step value') :
    value = value' :=
  (h []).symm.trans (h' [])

theorem pure (a : α) : Returns (pure a : Reading α) (.ok a) := fun _ => rfl

theorem throw (failure : Failure) : Returns (throw failure : Reading α) (.error failure) := fun _ => rfl

theorem note (level : Log.Level) (message : String) : Returns (note level message) (.ok ()) := fun _ => rfl

theorem bind {a : α} (h : Returns step (.ok a)) (hnext : Returns (next a) value) :
    Returns (step >>= next) value := by
  intro log
  have ha := h log
  rw [run_bind]
  cases hstep : step log with
  | mk result log' =>
    rw [hstep] at ha
    cases ha
    exact hnext log'

theorem bind_error {failure : Failure} (h : Returns step (.error failure)) :
    Returns (step >>= next) (.error failure) := by
  intro log
  have hfailure := h log
  rw [run_bind]
  cases hstep : step log with
  | mk result log' =>
    rw [hstep] at hfailure
    cases hfailure
    rfl

theorem tryCatch_ok {handler : Failure → Reading α} {a : α} (h : Returns step (.ok a)) :
    Returns (MonadExcept.tryCatch step handler) (.ok a) := by
  intro log
  have ha := h log
  rw [run_tryCatch]
  cases hstep : step log with
  | mk result log' =>
    rw [hstep] at ha
    cases ha
    rfl

theorem tryCatch_error {handler : Failure → Reading α} {failure : Failure} {value : Except Failure α}
    (h : Returns step (.error failure)) (hhandler : Returns (handler failure) value) :
    Returns (MonadExcept.tryCatch step handler) value := by
  intro log
  have hfailure := h log
  rw [run_tryCatch]
  cases hstep : step log with
  | mk result log' =>
    rw [hstep] at hfailure
    cases hfailure
    exact hhandler log'

theorem mapM {f : α → Reading β} {g : α → β} (h : ∀ a, Returns (f a) (.ok (g a))) (as : List α) :
    Returns (as.mapM f) (.ok (as.map g)) := by
  induction as with
  | nil => exact pure _
  | cons a as ih =>
    rw [List.mapM_cons]
    exact bind (h a) (bind ih (pure _))

theorem demand_none {s : Settings} {use : Settings.Use} (h : s.fault? use = none) :
    Returns (s.demand use : Reading Unit) (.ok ()) := by
  rw [Settings.demand, h]
  exact pure ()

theorem demand_some {s : Settings} {use : Settings.Use} {fault : Fault} (h : s.fault? use = some fault) :
    Returns (s.demand use : Reading Unit) (.error (.fault fault)) := by
  rw [Settings.demand, h]
  exact throw _

/-- A step that is taken in some cases only, and whose answer does not matter. -/
theorem ite_bind {c : Prop} [Decidable c] {step : Reading Unit} {next : Unit → Reading α}
    {value : Except Failure α} (h : Returns step (.ok ())) (hnext : Returns (next ()) value) :
    Returns (if c then step >>= next else next ()) value := by
  split
  · exact bind h hnext
  · exact hnext

end Returns

theorem exists_find?_of_readText {p : Path} {text : Text} (h : t.readText p = .ok text) :
    ∃ content stamp, t.find? p = some (.file content stamp) := by
  unfold Tree.readText at h
  split at h
  · cases h
  · next content hread =>
    unfold Tree.read at hread
    split at hread
    · cases hread
    · cases hread
    · next names hnames =>
      split at hread
      · cases hread
      · cases hread
      · next content stamp hfile =>
        refine ⟨content, stamp, ?_⟩
        rw [Tree.find?, hnames]
        exact hfile

/-- The text of a file, if it can be read. -/
theorem returns_textOrNone (t : Tree) (p : Path) :
    Returns (textOrNone t p) (.ok (t.readText p).toOption) := by
  have hnone (h : ∀ content stamp, t.find? p ≠ some (.file content stamp)) :
      (t.readText p).toOption = none := by
    cases htext : t.readText p with
    | error fault => rfl
    | ok text =>
      obtain ⟨content, stamp, hfile⟩ := exists_find?_of_readText htext
      exact absurd hfile (h content stamp)
  unfold textOrNone
  split
  · next hfind =>
    rw [hnone (by simp [hfind])]
    exact .bind (.note _ _) (.pure _)
  · next contents hfind =>
    rw [hnone (by simp [hfind])]
    exact .bind (.note _ _) (.pure _)
  · split
    · next text htext =>
      rw [htext]
      exact .pure _
    · next fault htext =>
      rw [htext]
      exact .bind (.note _ _) (.pure _)

end Reading

open Reading (Returns)

/-! ### The header -/

namespace Header

/-- The header of the first source that has one, or the fallback. -/
def resolved (markers : Markers) (t : Tree) : List Source → Resolved
  | [] => { text := fallback }
  | .text header :: _ => { text := header }
  | .file path :: rest =>
    match (t.readText path).toOption.bind markers.extract? with
    | some text => ⟨text, some path⟩
    | none => resolved markers t rest

theorem returns_resolve (markers : Markers) (t : Tree) (candidates : List Source) :
    Returns (resolve markers t candidates) (.ok (resolved markers t candidates)) := by
  induction candidates with
  | nil => exact .pure _
  | cons source rest ih =>
    cases source with
    | text header => exact .bind (.pure _) (.pure _)
    | file path =>
      have hfind : Returns (Source.find? markers t (.file path))
          (.ok (((t.readText path).toOption.bind markers.extract?).map fun text => ⟨text, some path⟩)) := by
        refine .bind (Reading.returns_textOrNone t path) ?_
        cases (t.readText path).toOption with
        | none => exact .pure _
        | some content => exact .pure _
      refine .bind hfind ?_
      rw [resolved]
      cases (t.readText path).toOption.bind markers.extract? with
      | none => exact ih
      | some text => exact .pure _

end Header

/-! ### The manifest -/

namespace Manifest

/-- The first manifest among some candidates, or the candidate that cannot be read and the reason. -/
def first (t : Tree) : List Path → Except (Path × ManifestFault) (Option Manifest)
  | [] => .ok none
  | p :: rest =>
    match ofFile t p with
    | .error fault => .error (p, fault)
    | .ok (some manifest) => .ok (some manifest)
    | .ok none => first t rest

theorem returns_read (t : Tree) (candidates : List Path) : Returns (read t candidates)
    ((first t candidates).mapError fun (path, fault) => .build (.manifest path fault)) := by
  induction candidates with
  | nil => exact .pure _
  | cons p rest ih =>
    unfold read first
    rcases ofFile t p with fault | manifest | manifest
    · exact .throw _
    · exact .ite_bind (.note _ _) ih
    · exact .pure _

theorem returns_attempt (t : Tree) (candidates : List Path) :
    Returns (attempt t candidates) (.ok (first t candidates)) := by
  have hread := returns_read t candidates
  unfold attempt
  cases hfirst : first t candidates with
  | ok manifest =>
    rw [hfirst] at hread
    exact .tryCatch_ok (.bind hread (.pure _))
  | error failed =>
    rw [hfirst] at hread
    exact .tryCatch_error (.bind_error hread) (.pure _)

end Manifest

/-! ### The modules -/

namespace Module

/-- The first manifest of a project, or none and a warning if one cannot be read. -/
def manifestOf (s : Settings) (t : Tree) : Option Manifest × List Warning :=
  match Manifest.first t s.manifestPaths with
  | .ok manifest => (manifest, [])
  | .error (path, fault) => (none, [⟨.manifest, path.toString, fault.message⟩])

theorem returns_manifestOrWarning (s : Settings) (t : Tree) :
    Returns (manifestOrWarning s t) (.ok (manifestOf s t)) := by
  refine .bind (Manifest.returns_attempt t _) ?_
  unfold manifestOf
  cases Manifest.first t s.manifestPaths with
  | ok manifest => exact .pure _
  | error failed => exact .pure _

/-- The files of a project that are modules. -/
def files (s : Settings) (t : Tree) : List ModuleFile := discover t s.moduleRule (s.sourceRoot t)

/-- The modules of a project in order, with their warnings. -/
def arranged (s : Settings) (t : Tree) : Located :=
  let (manifest, warnings) := manifestOf s t
  let (modules, irregular) := order (files s t) manifest s.entry
  { modules, manifest, warnings := warnings ++ irregular }

theorem returns_findSource {s : Settings} (h : s.fault? .sourceDir = none) (t : Tree) :
    Returns (s.findSource t) (.ok (s.sourceRoot t)) :=
  .bind (.demand_none h) (.ite_bind (.note _ _) (.pure _))

/-- The uses of settings without which the modules of a project are not looked for. -/
def usesBefore : List Settings.Use := [.sourceDir, .output, .metadataName, .extraExclude]

theorem returns_locate_of_fault {s : Settings} {fault : Fault}
    (h : usesBefore.findSome? s.fault? = some fault) (t : Tree) : Returns (locate s t) (.error (.fault fault)) := by
  simp only [usesBefore, List.findSome?_cons] at h
  unfold locate
  -- The settings are used in this order, and the first one at fault breaks off.
  split at h
  · next hsource =>
    cases h
    exact .bind_error (.bind_error (.demand_some hsource))
  · next hsource =>
    refine .bind (returns_findSource hsource t) (.bind_error ?_)
    unfold Settings.demandExcludedNames
    split at h
    · next houtput =>
      cases h
      exact .bind_error (.demand_some houtput)
    · next houtput =>
      refine .bind (.demand_none houtput) ?_
      split at h
      · next hmetadata =>
        cases h
        exact .bind_error (.demand_some hmetadata)
      · next hmetadata =>
        refine .bind (.demand_none hmetadata) ?_
        split at h
        · next hexclude =>
          cases h
          exact .demand_some hexclude
        · cases h

/-- The modules of a project are located if there are any. -/
theorem returns_locate {s : Settings} (h : ∀ use ∈ usesBefore, s.fault? use = none) (t : Tree) :
    Returns (locate s t)
      (if files s t = [] then .error (.build (.noModules Settings.extension (s.sourceRoot t)))
        else
          match s.fault? .manifests with
          | some fault => .error (.fault fault)
          | none => .ok (arranged s t)) := by
  simp only [usesBefore, List.forall_mem_cons] at h
  obtain ⟨hsource, houtput, hmetadata, hexclude, -⟩ := h
  have hnames : Returns (s.demandExcludedNames : Reading Unit) (.ok ()) :=
    .bind (.demand_none houtput) (.bind (.demand_none hmetadata) (.demand_none hexclude))
  unfold locate
  refine .bind (returns_findSource hsource t) (.bind hnames ?_)
  change Returns (if (files s t).isEmpty then _ else _) _
  -- Manifests are looked for only if there is a module.
  by_cases hfiles : files s t = []
  · simp only [hfiles, List.isEmpty_nil, if_true]
    exact .bind_error (.throw _)
  · simp only [List.isEmpty_iff, hfiles, if_false]
    refine .bind (.note _ _) ?_
    cases hmanifests : s.fault? .manifests with
    | some fault => exact .bind_error (.demand_some hmanifests)
    | none =>
      refine .bind (.demand_none hmanifests) (.bind (returns_manifestOrWarning s t) ?_)
      unfold arranged
      rcases manifestOf s t with ⟨manifest | manifest, warnings⟩ <;> exact .bind (.note _ _) (.pure _)

/-- The modules with their texts are those of the tree. -/
theorem returns_load (t : Tree) (modules : List ModuleFile) :
    Returns (load t modules) (.ok (modules.map fun m => (m, (t.readText m.path).toOption))) := by
  refine Returns.mapM (fun m => ?_) modules
  exact .bind (Reading.returns_textOrNone t m.path) (.pure _)

end Module

end Userscript
