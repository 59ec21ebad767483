import Userscript.Tool.Program

/-!
# Linting with ESLint

ESLint reads a script and reports problems. It uses the project's flat configuration, or
else its configuration of the older kind, if there is one.

## Main definitions

* `Eslint` — an ESLint for a project
* `Eslint.arguments` — its command line
* `Eslint.run` — lints a script
-/

namespace Userscript

/-- An ESLint for a project. -/
structure Eslint where
  root : Path
  /-- The program, if it is installed. -/
  executable : Option String
  limit : Option Limit := none

namespace Eslint

/-- The configuration files of the new and of the older kind. -/
def configurations (e : Eslint) : Path × Path :=
  (e.root.child "eslint.config.cjs", e.root.child ".eslintrc.cjs")

/-- The program, if there is one. -/
def program? (e : Eslint) : Option String := e.executable.filter (· ≠ "")

/-- The command line for a script. -/
def arguments (program : String) (e : Eslint) (script : Path) (t : Tree) : Reading (List String) := do
  let (flat, older) := e.configurations
  let configured ←
    if t.has flat then
      Reading.note .debug s!"Using flat config: {flat}"
      pure []
    else if t.has older then pure ["--config", older.toString]
    else pure []
  return [program, "--no-warn-ignored"] ++ configured ++ [script.toString]

/-- Lints a script. The answer is `false` if ESLint is not installed; a script with problems
is a failure. -/
def run (e : Eslint) (script : Path) : Action Bool := do
  match e.program? with
  | none =>
    Action.note .warning "ESLint not found (node_modules/.bin or PATH); skipping lint"
    return false
  | some program =>
    Action.note .info "Running ESLint validation..."
    let argv ← Action.read (arguments program e script)
    let outcome ← Tool.run "eslint" argv (some e.root) none e.limit
    if !Text.isBlankText outcome.out then
      Action.note .info (String.ofList (Text.trimRight outcome.out))
    if !outcome.isOk then
      if !Text.isBlankText outcome.err then
        Action.note .error (String.ofList (Text.trimRight outcome.err))
      Action.fail (.build (.stage "eslint" (.problems outcome.code)))
    Action.note .info "ESLint passed"
    return true

end Eslint

end Userscript
