import Userscript.Host
import Userscript.Log

/-!
# Actions

An action takes a host and the state of the world to a result and a new state. What has
happened before a failure stays.

## Main definitions

* `World` — the file tree, the log, the programs run and the files written
* `Action` — what changes the world
* `Action.read` — a step that only reads
* `Action.writeText` — writing a text file
-/

namespace Userscript

/-- The state of the world around a run. -/
structure World where
  tree : Tree
  log : Log := []
  /-- The programs that were run, in order. -/
  calls : List Call := []
  /-- The files that were written, in order. -/
  written : List Path := []
  /-- The stamp of the next file that is written. -/
  nextStamp : Int := 0

/-- What changes the world. -/
abbrev Action (α : Type) := ReaderT Host (ExceptT Failure (StateM World)) α

namespace Action

/-- A step that only reads. -/
def read {α : Type} (step : Tree → Reading α) : Action α := fun _ world =>
  let (result, log) := step world.tree world.log
  (result, { world with log })

/-- Adds an entry to the log. -/
def add (entry : Log.Entry) : Action Unit := modify fun w => { w with log := w.log ++ [entry] }

/-- Notes a message. -/
def note (level : Log.Level) (message : String) : Action Unit := add (.note level message)

/-- Prints a line. -/
def printLine (line : String) : Action Unit := add (.out (line ++ "\n"))

/-- Prints a line as an error. -/
def printError (line : String) : Action Unit := add (.err (line ++ "\n"))

/-- Fails. -/
def fail {α : Type} (failure : Failure) : Action α := throw failure

/-- Changes the tree, if the file system does not refuse. -/
def change (f : Tree → Except FileFault Tree) : Action Unit := do
  match f (← get).tree with
  | .ok tree => modify fun w => { w with tree }
  | .error fault => fail (.fault (.file fault))

/-- Fails on a path that the file system does not take. -/
def demandPath (p : Path) : Action Unit := if p.hasNul then fail (.fault .nulInPath) else pure ()

/-- The stamp of a file that is written now. -/
def takeStamp : Action Int :=
  modifyGet fun w => (w.nextStamp, { w with nextStamp := w.nextStamp + 1 })

/-- Writes a file into an existing folder. -/
def writeBytes (p : Path) (content : Bytes) : Action Unit := do
  demandPath p
  let stamp ← takeStamp
  change (·.writeFile p content stamp)
  modify fun w => { w with written := w.written ++ [p] }

/-- Makes a folder and the folders on the way to it. What is made before a fault stays. -/
def makeFolders (p : Path) : Action Unit := do
  demandPath p
  let (tree, fault) := (← get).tree.makeFolders p
  modify fun w => { w with tree }
  if let some fault := fault then fail (.fault (.file fault))

/-- Writes a text file, makes the folders on the way to it, and gives its size. -/
def writeText (p : Path) (text : Text) : Action Nat := do
  let content := Utf8.encode text
  makeFolders p.parent
  writeBytes p content
  return content.length

end Action

end Userscript
