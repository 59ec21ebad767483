import Userscript.Action

/-!
# Checking scripts

A bundle is parsed, and not run, before anything else is done with it: by the parser of
the host, or by Node if that is installed.

## Main definitions

* `Checker` — a way to check a script
* `Checker.ofName`, `Checker.ofValue` — the checker of a name
* `Limit.allowsWait`, `Host.Report.allowsWait` — whether Node gets any time under a limit
* `Checker.check` — the verdict on a script, which is noted
-/

namespace Userscript

/-- A number of seconds as a floating-point number; there is none if it is too large. -/
def Number.toDouble? : Number → Option Binary64
  | int n => Binary64.ofInt? n
  | double x => some x
  | truth b => some (if b then .round false 1 1 else .zero)

/-- The longest time for which the end of a program can be waited, in milliseconds. -/
def longestWait : Nat := 2147483647

/-- Whether Node gets any time under a limit. The limit is added to the time of day and counted
down in whole milliseconds, rounded up. It is a fault if it cannot be added, gives no whole number,
or is too long. -/
def Limit.allowsWait : Limit → Except Fault Bool
  | seconds n =>
    match n.toDouble? with
    | none => .error (.conversion .hugeDouble)
    | some .nan => .error (.conversion .nanInteger)
    | some x =>
      if !x.isPositive then .ok false
      else
        match x.mul (.round false 1000 1) with
        | .finite _ mantissa exponent =>
          let wait := Binary64.ceiling mantissa exponent
          if longestWait < wait then .error (.longWait wait) else .ok true
        | _ => .error (.conversion .infiniteInteger)
  | other v => .error (.misuse (.added v.kind))
  | settled items => .error (.misuse (.added (Json.list items).givenKind))

/-- Whether Node gets any time under a limit. A stand-in for it needs none. -/
def Host.Report.allowsWait (report : Host.Report) (limit : Limit) : Except Fault Bool :=
  if report.standIn then .ok true else limit.allowsWait

/-- A way to check a script. -/
inductive Checker where
  /-- The parser of the host. -/
  | parser
  /-- Node, if the program is installed, with a limit of time. -/
  | node (program : Option String) (limit : Limit)

namespace Checker

/-- The name of a checker. -/
def name : Checker → String
  | parser => "esprima"
  | node .. => "node"

/-- How many seconds Node may take unless told otherwise. -/
def defaultLimit : Limit := .seconds (.double (.round false 60 1))

/-- The program of Node, if it is installed. -/
def nodeProgram? (host : Host) : Option String := (host.which "node").filter (· ≠ "")

/-- The checker of a name. `auto` stands for Node if it is installed, and for the parser
otherwise. -/
def ofName (name : String) (limit : Option Limit) : Action Checker := do
  let host ← read
  let node := Checker.node (host.which "node") (limit.getD defaultLimit)
  match name with
  | "auto" =>
    match nodeProgram? host with
    | some _ => return node
    | none =>
      Action.note .warning "node not found, falling back to esprima (ES2017 syntax only)"
      return parser
  | "esprima" => return parser
  | "node" => return node
  | name => Action.fail (.fault (.noChecker name))

/-- The checker of a name that is given as a value. A value that can be changed is no name. -/
def ofValue (v : Json) (limit : Option Limit) : Action Checker :=
  match v with
  | .list _ | .object _ => Action.fail (.fault (.misuse (.member v.kind)))
  | v => ofName v.display limit

/-- What a program printed, which has to be text. -/
def printed (bytes : Bytes) : Action Text := do
  match Utf8.decode bytes with
  | .ok t => return t
  | .error fault => Action.fail (.fault (.encoding fault))

/-- The verdict of Node on the script in a file. -/
def checkFile (program : String) (limit : Limit) (path : Path) : Action Verdict := do
  let argv := [program, "--check", path.toString]
  let report := (← read).run (← get).tree argv
  modify fun w => { w with calls := w.calls ++ [.check argv limit] }
  match report.ending with
  | .notStarted reason => Action.fail (.fault (.notStarted reason))
  | ending =>
    match ending, report.allowsWait limit with
    | _, .error fault => Action.fail (.fault fault)
    | .ended code out err, .ok true =>
      let _ ← printed out
      let err ← printed err
      if code = some 0 then return none
      else
        match ParseFault.ofLines err with
        | .ok fault => return some fault
        | .error fault => Action.fail (.fault (.conversion fault))
    | _, .ok _ => return some { message := s!"node --check timed out after {limit.text}s" }

/-- The verdict on a script, which stands in a file if a path is given. -/
def verdict (checker : Checker) (code : Text) (path : Option Path) : Action Verdict := do
  match checker with
  | parser => return (← read).parse code
  | node program limit =>
    match program.filter (· ≠ "") with
    | none => return some { message := "'node' executable not found" }
    | some program =>
      let tree := (← get).tree
      match path.filter tree.has with
      | none => return some { message := "node checker needs the written bundle file" }
      | some p => checkFile program limit p

/-- Checks a script and notes the verdict. -/
def check (checker : Checker) (code : Text) (path : Option Path) : Action Verdict := do
  Action.note .debug s!"Running syntax validation ({checker.name})..."
  let verdict ← checker.verdict code path
  match verdict with
  | none => Action.note .info "Basic syntax check passed"
  | some fault => Action.note .error ("Syntax check failed: " ++ fault.message)
  return verdict

end Checker

end Userscript
