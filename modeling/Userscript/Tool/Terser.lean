import Userscript.Failure
import Userscript.Json.Printer

/-!
# The arguments of Terser

Terser makes scripts small. It is told to keep the names of classes and functions, and
it writes the metadata header in front of its output.

## Main definitions

* `Terser` — an installed Terser and the names it leaves alone
* `Terser.arguments` — its command line
-/

namespace Userscript

/-- An installed Terser. -/
structure Terser where
  /-- The program, if it is installed. -/
  executable : Option String
  /-- The names that are not changed. -/
  reserved : List String := ["window", "document"]

namespace Terser

/-- How scripts are compressed. -/
def compressOptions : List String :=
  ["dead_code=true", "drop_console=false", "drop_debugger=true", "keep_classnames=true",
    "keep_fnames=true", "keep_infinity=true", "passes=5", "pure_getters=true", "unsafe=false",
    "hoist_vars=false", "inline=3", "toplevel=false", "keep_fargs=false"]

/-- How small scripts are written. -/
def compactFormat : List String :=
  ["ascii_only=false", "ecma=2020", "quote_style=3", "wrap_iife=true", "semicolons=true"]

/-- How scripts to be read are written. -/
def prettyFormat : List String :=
  ["beautify=true", "indent_level=2", "braces=true", "quote_style=1", "wrap_func_args=true"]

/-- What Terser is asked for. -/
structure Request where
  input : Path
  output : Path
  /-- The output is to be read: names are kept and nothing is compressed. -/
  pretty : Bool := false
  /-- The name of the script in its source map, if one is wanted. -/
  mapName : Option String := none
  /-- What stands in front of the output. -/
  preamble : Text := []

/-- The option for the source map; an empty name asks for none. -/
def mapArguments : Option String → List String
  | none | some "" => []
  | some name => ["--source-map", s!"filename='{name}',url='{name}.map',includeSources"]

/-- The command line for a request. -/
def arguments (t : Terser) (r : Request) : Except StageFault (List String) :=
  match t.executable with
  | none | some "" => .error .notInstalled
  | some executable =>
    let format := (if r.pretty then prettyFormat else compactFormat) ++
      (if r.preamble.isEmpty then [] else ["preamble=" ++ String.ofList (Json.escape r.preamble)])
    let formatted := ["--format", ",".intercalate format]
    let reserved := ",".intercalate (t.reserved.map fun name => s!"'{name}'")
    let transformed :=
      if r.pretty then formatted
      else
        ["--compress", ",".intercalate compressOptions, "--define", "DEBUG=false", "--mangle",
          s!"keep_classnames=true,keep_fnames=true,reserved=[{reserved}]"] ++ formatted
    .ok <|
      [executable, r.input.toString, "--ecma", "2020", "--keep-classnames", "--keep-fnames"] ++
        transformed ++ ["--comments", "false"] ++ mapArguments r.mapName ++
        ["--output", r.output.toString]

end Terser

end Userscript
