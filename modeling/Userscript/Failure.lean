import Userscript.Json.Reader
import Userscript.Limit
import Userscript.Script.Spacing
import Userscript.Tree.Reading
import Userscript.Verdict

/-!
# Failures

A build can fail for a reason of its own, a `BuildError`, which it reports as its result.
Whatever else goes wrong is a `Fault`, which ends the run.

## Main definitions

* `BuildError` — why a build fails
* `Fault` — what ends a run
* `Failure` — the one or the other
-/

namespace Userscript

/-- Why a manifest cannot be read. -/
inductive ManifestFault where
  | unreadable (fault : ReadFault)
  | malformed (fault : Json.Fault)

/-- The wording of a fault. -/
def ManifestFault.message : ManifestFault → String
  | unreadable fault => "Failed to read order manifest: " ++ fault.message
  | malformed fault => "Failed to read order manifest: " ++ fault.message

/-- Why the text of a cache file is not the text of a cache. -/
inductive CacheFault where
  | malformed (fault : Json.Fault)
  /-- It is no object, or its files are none. -/
  | shape
  | lastBuild (fault : Json.ConversionFault)

/-- The wording of a fault. -/
def CacheFault.message : CacheFault → String
  | malformed fault => "invalid JSON: " ++ fault.message
  | shape => "expected an object with a 'files' mapping"
  | lastBuild fault => "invalid last_build: " ++ fault.message

/-- The text of a limit of time; there need not be one. -/
def limitText : Option Limit → String
  | none => "None"
  | some limit => limit.text

/-- Why an outside tool failed. -/
inductive StageFault where
  /-- The tool is not installed. -/
  | notInstalled
  | notStarted (program reason : String)
  | timedOut (program : String) (limit : Option Limit)
  /-- The tool found problems and ended with this exit code. -/
  | problems (code : Int)
  /-- The tool ended with this exit code and said nothing. -/
  | exitCode (code : Int)
  /-- What the tool said. -/
  | reported (message : String)
  /-- The tool wrote nothing. -/
  | noOutput

/-- The wording of a fault of a tool. -/
def StageFault.message (tool : String) : StageFault → String
  | notInstalled => s!"{tool} not found (node_modules/.bin or PATH)"
  | notStarted program reason => s!"could not start {program}: {reason}"
  | timedOut program limit => s!"{program} timed out after {limitText limit}s"
  | problems code => s!"ESLint reported problems (exit code {code})"
  | exitCode code => s!"exit code {code}"
  | reported message => message
  | noOutput => "minification produced no output"

/-- The names under which a checker can be chosen. -/
def checkerNames : List String := ["auto", "esprima", "node"]

/-- The wording of the refusal of a checker's name. -/
def unknownChecker (name : String) : String :=
  let names := ", ".intercalate checkerNames
  s!"Unknown validator '{name}' (expected one of: {names})"

/-- A message with the path it is about, if there is one. -/
def atPath (path message : String) : String :=
  if path = "" then message else s!"{path}: {message}"

/-- A message with the path, line and column it is about. Without a path or a line the
message stands alone; line zero counts as none. -/
def atPlace (path : String) (line column : Option Int) (message : String) : String :=
  match line with
  | none => message
  | some line =>
    if path = "" ∨ line = 0 then message
    else
      match column with
      | some column => s!"{path}:{line}:{column}: {message}"
      | none => s!"{path}:{line}: {message}"

/-- A message with the stage it comes from. -/
def atStage (stage message : String) : String := s!"{stage}: {message}"

/-- Why a build fails. -/
inductive BuildError where
  | noModules (extension : String) (folder : Path)
  /-- No module is left after reading. -/
  | nothingLeft
  | manifest (path : Path) (fault : ManifestFault)
  | cache (fault : CacheFault)
  | checker (name : String)
  /-- The bundle, if it stands in a file, is no valid script. -/
  | invalid (path : Option Path) (fault : ParseFault)
  | stage (tool : String) (fault : StageFault)

/-- The wording of a build error. -/
def BuildError.message : BuildError → String
  | noModules extension folder => s!"No {extension} module files found in {folder}"
  | nothingLeft => "No modules left to bundle after reading sources"
  | manifest path fault => atPath path.toString fault.message
  | cache fault => fault.message
  | checker name => unknownChecker name
  | invalid path fault =>
    atPlace ((path.map Path.toString).getD "") fault.line fault.column fault.message
  | stage tool fault => atStage tool (fault.message tool)

/-- What ends a run. -/
inductive Fault where
  | file (fault : FileFault)
  | encoding (fault : Utf8.Fault)
  | mark (fault : Script.MarkFault)
  | conversion (fault : Json.ConversionFault)
  | misuse (fault : Json.Misuse)
  /-- A path holds the character NUL, which no file's name can. -/
  | nulInPath
  /-- The path has no last part that could be replaced. -/
  | noName (path : Path)
  /-- No checker has this name. -/
  | noChecker (name : String)
  /-- There is no setting of this name. -/
  | noSetting (name : String)
  /-- A function is given the same argument twice. -/
  | givenTwice (function name : String)
  /-- The bundle has not been built. -/
  | notBuilt (path : Path)
  /-- The program that checks a bundle cannot be started. -/
  | notStarted (reason : String)
  /-- The end of a program cannot be waited for that long. -/
  | longWait (milliseconds : Nat)
  /-- Lists or objects, as `kind` says, are nested too deep to be read. -/
  | nesting (kind : String)
  | divisionByZero
  | hugeQuotient

/-- The longest time that can be counted at all, in nanoseconds. -/
def longestTime : Nat := 9223372036854775807

/-- The wording of a fault. -/
def Fault.message : Fault → String
  | file fault => fault.message
  | encoding fault => fault.message
  | mark fault => fault.message
  | conversion fault => fault.message
  | misuse fault => fault.message
  | nulInPath => "embedded null byte"
  | noName path => s!"PosixPath('{path}') has an empty name"
  | noChecker name => unknownChecker name
  | noSetting name => s!"BuildConfig.__init__() got an unexpected keyword argument '{name}'"
  | givenTwice function name => s!"{function}() got multiple values for argument '{name}'"
  | notBuilt path => s!"Build output not found: {path}"
  | notStarted reason => reason
  | longWait milliseconds =>
    if milliseconds * 1000000 ≤ longestTime then "timeout is too large"
    else "timestamp too large to convert to C _PyTime_t"
  | nesting kind => Json.tooDeep kind
  | divisionByZero => "division by zero"
  | hugeQuotient => "integer division result too large for a float"

/-- Why a run does not end as it should. -/
inductive Failure where
  | build (error : BuildError)
  | fault (fault : Fault)

/-- The wording of a failure. -/
def Failure.message : Failure → String
  | build error => error.message
  | fault f => f.message

end Userscript
