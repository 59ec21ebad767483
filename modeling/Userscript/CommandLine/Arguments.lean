import Userscript.Path

/-!
# Arguments of a command

A command takes options and nothing else. An option is written in full behind two dashes or
as a letter behind one; several letters may share a dash. The value of an option is the next
argument, or what follows the letter or an equality sign. Two dashes alone end the options.

## Main definitions

* `Key` — what an option stands for
* `Flag` — an option with its spellings
* `Arguments.read` — the options in a list of arguments
-/

namespace Userscript.CommandLine

/-- What an option stands for. -/
inductive Key where
  | watch
  | verbose
  | noLint
  | optimized
  | minify
  | pretty
  | sourceMap
  | strict
  | output
  | root
  | config
  deriving DecidableEq, Repr

/-- An option with its spellings. -/
structure Flag where
  key : Key
  names : List String
  letter : Option Char := none
  takesValue : Bool := false

/-- Why a list of arguments is refused. -/
inductive UsageFault where
  | noCommand
  | unknownCommand (name : String)
  | unknownOption (name : String)
  | noValue (key : Key)
  | surplusValue (name : String)
  | surplusArgument (argument : String)
  deriving DecidableEq

/-- The wording of a fault. -/
def UsageFault.message : UsageFault → String
  | noCommand => "Missing command."
  | unknownCommand name => s!"No such command '{name}'."
  | unknownOption name => s!"No such option: {name}"
  | noValue _ => "An option requires an argument."
  | surplusValue name => s!"Option '{name}' does not take a value."
  | surplusArgument argument => s!"Got unexpected extra argument ({argument})"

/-- The options of a list of arguments with their values, in order. -/
abbrev Arguments := List (Key × String)

namespace Arguments

/-- The options in one argument, and the option that takes the next argument as its
value. -/
abbrev Found := Arguments × Option Key

/-- The option with this name; `value` follows behind an equality sign. -/
def ofName (flags : List Flag) (name : String) (value : Option String) : Except UsageFault Found :=
  match flags.find? (·.names.contains name), value with
  | none, _ => .error (.unknownOption name)
  | some flag, none => .ok (if flag.takesValue then ([], some flag.key) else ([(flag.key, "")], none))
  | some flag, some value =>
    if flag.takesValue then .ok ([(flag.key, value)], none) else .error (.surplusValue name)

/-- The options that letters behind a dash stand for. -/
def ofLetters (flags : List Flag) : List Char → Except UsageFault Found
  | [] => .ok ([], none)
  | c :: rest =>
    match flags.find? (·.letter == some c) with
    | none => .error (.unknownOption (String.ofList ['-', c]))
    | some flag =>
      if flag.takesValue then
        .ok (if rest.isEmpty then ([], some flag.key) else ([(flag.key, String.ofList rest)], none))
      else
        (ofLetters flags rest).map fun (found, pending) => ((flag.key, "") :: found, pending)

/-- The options in one argument. -/
def ofArgument (flags : List Flag) (argument : String) : Except UsageFault Found :=
  match argument.toList with
  | '-' :: '-' :: _ =>
    let name := argument.toList.takeWhile (· != '=')
    let value := (argument.toList.dropWhile (· != '=')).tail?
    ofName flags (String.ofList name) (value.map String.ofList)
  | '-' :: c :: rest => ofLetters flags (c :: rest)
  | _ => .error (.surplusArgument argument)

/-- The argument that ends the options. -/
def terminator : String := "--"

/-- The options in a list of arguments, where `pending` still lacks its value. -/
def readFrom (flags : List Flag) : Option Key → List String → Except UsageFault Arguments
  | none, [] => .ok []
  | some key, [] => .error (.noValue key)
  | some key, value :: rest => do return (key, value) :: (← readFrom flags none rest)
  | none, argument :: rest => do
    if argument = terminator then
      if let surplus :: _ := rest then throw (.surplusArgument surplus)
      return []
    let (found, pending) ← ofArgument flags argument
    return found ++ (← readFrom flags pending rest)

/-- The options in a list of arguments. -/
def read (flags : List Flag) (arguments : List String) : Except UsageFault Arguments :=
  readFrom flags none arguments

/-- Whether an option is given. -/
def has (a : Arguments) (key : Key) : Bool := a.any (·.1 = key)

/-- The value of an option; of several values the last counts. -/
def value? (a : Arguments) (key : Key) : Option String :=
  (a.reverse.find? (·.1 = key)).map (·.2)

/-- The path that is the value of an option. -/
def path? (a : Arguments) (key : Key) : Option Path := (a.value? key).map Path.ofString

end Arguments

end Userscript.CommandLine
