import Userscript.ChangeCache
import Userscript.Verdict
import Userscript.WatchFilter

/-!
# The host

What lies outside the library: the programs that are installed and what they do, a parser
for scripts, the evaluation of a settings file, the clock, a place for temporary files, and
what a watch ignores.

## Main definitions

* `Host` — what lies outside
* `Host.Report` — what a program does when it is run
* `Call` — that a program was run
-/

namespace Userscript

/-- How the run of a program ends. -/
inductive Host.Ending where
  /-- The program cannot be started, for this reason. -/
  | notStarted (reason : String)
  /-- The program does not end by itself. -/
  | unending
  /-- The program ends with an exit code, if it has one, and with what it printed. -/
  | ended (code : Option Int) (out err : Bytes)

/-- What a program does when it is run. -/
structure Host.Report where
  ending : Host.Ending
  /-- The files it writes. -/
  files : List (Path × Bytes) := []
  /-- It is that of a stand-in for a program: its end is known at once, and no time is counted. -/
  standIn : Bool := false

/-- What lies outside the library. -/
structure Host where
  /-- The program of a name, if it is installed. -/
  which : String → Option String
  /-- What a command line does with a file tree. -/
  run : Tree → List String → Host.Report
  /-- What the parser says about a script. -/
  parse : Text → Verdict
  /-- The values that the settings file of a path gives to names, or why it gives none. -/
  evaluate : Path → Bytes → Except String (Table Json)
  /-- The time, in seconds. -/
  clock : Binary64
  /-- The folder for the temporary files of a run. -/
  scratch : Path
  /-- What a watch ignores in any project. -/
  filter : WatchFilter

/-- That a program was run. -/
inductive Call where
  /-- To check a script, with a limit of time. -/
  | check (argv : List String) (limit : Limit)
  /-- As a tool in a folder. `tree` is what it found if it could be started, `input` what it
  was sent, if it got that far, and `stopped` says whether it was stopped because its time was
  over. -/
  | tool (argv : List String) (folder : Option Path) (tree : Option Tree) (input : Option String)
      (stopped : Bool)

end Userscript
