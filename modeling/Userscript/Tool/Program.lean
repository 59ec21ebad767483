import Userscript.Action

/-!
# Outside programs

A tool is looked for in the project's own `node_modules` first, and then among the
installed programs. It is run in a folder, with a limit of time; that it cannot be started
or does not end in time is a failure of the stage that needs it. A tool begins by writing its
files, and cannot be started if the file system refuses one of them; what it has written stays,
however it ends. A tool whose time is over from the beginning is started, and stopped before it
gets its input.

## Main definitions

* `Tool.find?` — the program of a tool
* `Limit.allows`, `Host.Report.allows` — whether a tool gets any time under a limit
* `Tool.Outcome` — what a tool that has ended leaves behind
* `Tool.run` — runs a tool
-/

namespace Userscript

/-- Whether a tool gets any time under a limit. A limit that cannot be counted down is a
fault. -/
def Limit.allows : Limit → Except Fault Bool
  | seconds n =>
    if n.isOver then .ok false
    else
      match n with
      | .int n =>
        match Binary64.ofInt? n with
        | some _ => .ok true
        | none => .error (.conversion .hugeDouble)
      | _ => .ok true
  | other v => .error (.misuse (.compared "<=" v.kind))
  | settled items => .error (.misuse (.compared "<=" (Json.list items).givenKind))

/-- Whether a tool gets any time under a limit, if there is one. A time that is not-a-number is over
before a program can end, but not before a stand-in for one has. -/
def Host.Report.allows (report : Host.Report) : Option Limit → Except Fault Bool
  | none => .ok true
  | some (.seconds (.double .nan)) => .ok report.standIn
  | some limit => limit.allows

namespace Tool

/-- The program of a tool, in a project's own folder of programs or among the installed
ones. -/
def find? (host : Host) (t : Tree) (root : Path) (name : String) : Option String :=
  let folder := (root.child "node_modules").child ".bin"
  match [folder.child name, folder.child (name ++ ".cmd")].find? t.has with
  | some path => some path.toString
  | none => host.which name

/-- What a tool that has ended leaves behind. -/
structure Outcome where
  /-- The exit code; -1 stands for none. -/
  code : Int
  out : Text
  err : Text

/-- Whether a tool has ended well. -/
def Outcome.isOk (o : Outcome) : Bool := o.code = 0

/-- The tree with the files that a program writes, up to the first that is refused. -/
def writeAll (stamp : Int) (t : Tree) : List (Path × Bytes) → Tree × Option FileFault
  | [] => (t, none)
  | (path, content) :: rest =>
    match t.writeFile path content stamp with
    | .ok t => writeAll stamp t rest
    | .error fault => (t, some fault)

/-- Leaves the files of a program in the tree. -/
def leave (files : List (Path × Bytes)) : Action (Option FileFault) := do
  let stamp ← Action.takeStamp
  let (tree, fault) := writeAll stamp (← get).tree files
  modify fun w => { w with tree }
  return fault

/-- Runs a tool for a stage: in a folder, with an input it is sent, and with a limit of
time. -/
def run (stage : String) (argv : List String) (folder : Option Path) (input : Option String)
    (limit : Option Limit) : Action Outcome := do
  let host ← read
  let tree := (← get).tree
  let report := host.run tree argv
  let called (found : Option Tree) (input : Option String) (stopped : Bool) : Action Unit :=
    modify fun w => { w with calls := w.calls ++ [.tool argv folder found input stopped] }
  let failed {α : Type} (fault : StageFault) : Action α :=
    Action.fail (.build (.stage stage fault))
  let program := argv.headD ""
  match report.ending with
  | .notStarted reason =>
    called none none false
    failed (.notStarted program reason)
  | ending =>
    if let some fault ← leave report.files then
      called tree none false
      failed (.notStarted program fault.message)
    match ending, report.allows limit with
    | _, .error fault =>
      called tree none false
      Action.fail (.fault fault)
    | _, .ok false =>
      called tree none true
      failed (.timedOut program limit)
    | .ended code out err, .ok true =>
      called tree input false
      return { code := code.getD (-1), out := Utf8.decodeLenient out, err := Utf8.decodeLenient err }
    | _, .ok true =>
      called tree input true
      failed (.timedOut program limit)

end Tool

end Userscript
