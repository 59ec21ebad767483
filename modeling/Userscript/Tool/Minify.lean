import Userscript.Text.Search
import Userscript.Tool.Program
import Userscript.Tool.Terser

/-!
# Minifying with Terser

Terser reads a script from a temporary folder and writes the small script, and a source map
if one is wanted, next to it. The folder is removed afterwards, also after a failure.

## Main definitions

* `Terser.Output` — a small script and its source map
* `Terser.minify` — makes a script small
-/

namespace Userscript.Terser

/-- What Terser makes of a script. -/
structure Output where
  code : Text
  map : Option Text := none

/-- What is wanted of Terser. -/
structure Wish where
  pretty : Bool := false
  sourceMap : Bool := false
  preamble : Text := []

/-- The text of a file that has to be readable. -/
def textOf (p : Path) : Action Text := do
  match (← get).tree.readText p with
  | .ok text => return text
  | .error (.file fault) => Action.fail (.fault (.file fault))
  | .error (.encoding fault) => Action.fail (.fault (.encoding fault))

/-- An action with a temporary folder, which is removed whatever happens. -/
def withFolder {α : Type} (f : Path → Action α) : Action α := fun host => do
  let folder := host.scratch
  modify fun w => { w with tree := { w.tree with root := Node.put (.folder []) folder.parts w.tree.root } }
  let removed : ExceptT Failure (StateM World) Unit :=
    modify fun w => { w with tree := w.tree.delete folder }
  let result ← tryCatch (f folder host) fun failure => do
    removed
    throw failure
  removed
  return result

/-- Makes the body of a script small in a temporary folder; `name` is the name of the
script. -/
def minifyIn (t : Terser) (root : Path) (limit : Option Limit) (body : Text) (name : String)
    (wish : Wish) (folder : Path) : Action Output := do
  let input := folder.child ("input-" ++ name)
  let output := folder.child name
  Action.demandPath input
  let stamp ← Action.takeStamp
  Action.change (·.writeFile input (Utf8.encode body) stamp)
  let failed {α : Type} (fault : StageFault) : Action α :=
    Action.fail (.build (.stage "terser" fault))
  let request : Request :=
    { input, output
      pretty := wish.pretty
      mapName := if wish.sourceMap then some name else none
      preamble := wish.preamble }
  let argv ←
    match t.arguments request with
    | .ok argv => pure argv
    | .error fault => failed fault
  Action.note .debug ("Terser command: " ++ " ".intercalate argv)
  let outcome ← Tool.run "terser" argv (some root) none limit
  let said := Text.trim outcome.err
  if !outcome.isOk then
    failed (if said.isEmpty then .exitCode outcome.code else .reported (String.ofList said))
  (Text.boundaryLines said).forM fun line =>
    Action.note .warning ("Terser: " ++ String.ofList line)
  if !(← get).tree.has output then failed .noOutput
  let code ← textOf output
  if Text.isBlankText code then failed .noOutput
  let mapFile := folder.child (name ++ ".map")
  let map ← if (← get).tree.has mapFile then some <$> textOf mapFile else pure none
  return { code, map }

/-- Makes the body of a script small. -/
def minify (t : Terser) (root : Path) (limit : Option Limit) (body : Text) (name : String)
    (wish : Wish) : Action Output :=
  withFolder (minifyIn t root limit body name wish)

end Userscript.Terser
