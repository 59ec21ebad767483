import Userscript.Build

/-!
# Watching a project

A watched project is built once, and again after every batch of edits in which a file
changes that could be a module. A failed build does not end the watch.

## Main definitions

* `Watch.Edit` — an edit of the tree, made by someone else
* `Watch.changes` — the changes of a batch that lead to a new build
* `Watch.run` — watches a project through some batches of edits
-/

namespace Userscript.Watch

/-- How long changes are collected before they count as a batch, in milliseconds. -/
def debounce : Nat := 200

/-- What happens to a file. -/
inductive Change where
  | modified
  | added
  | deleted
  deriving DecidableEq

/-- An edit of the tree, made by someone else: what happens to a path, and what stands there
afterwards if that is new. -/
structure Edit where
  path : Path
  change : Change := .modified
  node : Option Node := none

/-- The tree after an edit. Folders on the way to something new are made. -/
def Edit.apply (t : Tree) (e : Edit) : Tree :=
  match e.node, e.change with
  | some node, _ => t.place e.path node
  | none, .deleted => if t.hasFile e.path then t.delete e.path else t
  | none, _ => t

/-- The paths of the changes in a batch that could be changes of modules, in order. A
change that is reported more than once counts once. -/
def changes (rule : ModuleRule) (filter : WatchFilter) (here : Path) (batch : List Edit) :
    List String :=
  let reported := batch.map fun e => (e.change, (here.join e.path).toString)
  let relevant := reported.filter fun (_, path) => rule.acceptsChange filter path
  (relevant.eraseDups.map (·.2)).mergeSort fun a b => decide (a ≤ b)

/-- The reports of a watch and the folder that was watched. -/
structure Session (α : Type) where
  folder : Path
  reports : List α

/-- Builds a project and reports on it. -/
def build {α : Type} (s : Settings) (o : Build.Options) (report : Build.Result → Action α) :
    Action α := do
  report (← Build.run s o)

/-- The first build of a watch, with its report, and the folder that is watched then. -/
def start {α : Type} (s : Settings) (o : Build.Options) (report : Build.Result → Action α) :
    Action (Path × α) := do
  let (isSuccess, seen) ← build s o fun result => return (result.isSuccess, ← report result)
  if !isSuccess then
    Action.note .warning "Initial build failed. Still watching for fixes..."
  let folder ← Action.read s.findSource
  Action.note .info s!"Watching for changes in: {folder}"
  return (folder, seen)

/-- A batch of edits, and the report of the build it leads to, if it does. -/
def react {α : Type} (s : Settings) (o : Build.Options) (report : Build.Result → Action α)
    (batch : List Edit) : Action (Option α) := do
  modify fun w => { w with tree := batch.foldl Edit.apply w.tree }
  let paths := changes s.moduleRule (← read).filter (← get).tree.here batch
  if paths.isEmpty then return none
  paths.forM fun path => Action.note .info s!"Change detected: {path}"
  Action.note .info "Rebuilding..."
  return some (← build s o report)

/-- Watches a project through some batches of edits; the watch ends with the last. -/
def run {α : Type} (s : Settings) (o : Build.Options) (report : Build.Result → Action α)
    (batches : List (List Edit)) : Action (Session α) := do
  let (folder, first) ← start s o report
  let later ← batches.mapM (react s o report)
  return { folder, reports := first :: later.filterMap id }

end Userscript.Watch
