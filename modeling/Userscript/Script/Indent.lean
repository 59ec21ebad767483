import Userscript.Failure
import Userscript.Script.Optimize

/-!
# Optimizing with settings as they are given

How much indentation lines keep is a whole number of columns, but it may be given as another
value; so may the words after which a slash opens a pattern literal. Such a value leads to a
fault on the first line, or at the first slash, that it would have to decide about.

## Main definitions

* `Script.Indent` — how much indentation lines keep, as it is given
* `Script.Context.decides` — whether the words of a context decide about every slash
* `Script.optimizeGiven` — the optimized script under settings as they are given

## Main results

* `optimizeGiven_columns` — with settings of the right kinds this is `Script.optimize`
-/

namespace Userscript.Script

/-- How much indentation lines keep, as it is given. -/
inductive Indent where
  | columns (n : Int)
  /-- A number that no line can be cut to. -/
  | double (x : Binary64)
  /-- A value of a kind that is no number. -/
  | other (kind : String)

namespace Indent

/-- The limit that a value is. -/
def ofJson : Json → Indent
  | .int n => columns n
  | .bool b => columns (if b then 1 else 0)
  | .double x => double x
  | v => other v.kind

/-- The limit that a value gives as a setting. -/
def ofGiven : Json → Indent
  | .list items => other (Json.list items).givenKind
  | v => ofJson v

/-- What is wrong with a limit for a line that is indented by some columns. A line that need
not be cut can have any number as its limit. -/
def fault? (columns : Nat) : Indent → Option Json.Misuse
  | .columns _ => none
  | double x => if x.isBelow columns then some (.repeated "float") else none
  | other kind => some (.compared "<" kind)

/-- The most columns that a line with regular spacing has under a limit that is not wrong for
it. -/
def most (line : Text) : Indent → Int
  | .columns n => n
  | _ => line.length

end Indent

/-- A line with regular spacing. A limit that is wrong for the line is found before its marks
are. -/
def normalizeLineGiven (limit : Indent) (line : Text) : Except Fault Text :=
  match (indentation? line).bind fun columns => limit.fault? columns with
  | some fault => .error (.misuse fault)
  | none => (normalizeLine (limit.most line) line).mapError .mark

/-- Whether the words of a context decide about every slash of a script: after a word more,
which every text ends in, no other token is read. -/
def Context.decides (ctx : Context) (t : Text) : Bool :=
  tokens ctx t == tokens { ctx with keywords := ctx.keywords ++ [[]] } t

/-- A script without comments and blank lines and with regular spacing. A slash about which
the words do not decide leads to the fault `unfit`, if there is one. -/
def optimizeBodyGiven (ctx : Context) (unfit : Option Fault) (limit : Indent) (t : Text) :
    Except Fault Text :=
  match unfit.filter fun _ => !ctx.decides t with
  | some fault => .error fault
  | none => normalizeLines (normalizeLineGiven limit) (dropBlankLines (strip ctx t))

/-- The optimized script under settings as they are given. -/
def optimizeGiven (ctx : Context) (unfit : Option Fault) (limit : Indent)
    (markers : Header.Markers) (given : Option Text) (code : Text) : Except Fault Text :=
  belowHeader markers given code (optimizeBodyGiven ctx unfit limit)

/-- Under a whole number of columns a line is normalized as usual. -/
theorem normalizeLineGiven_columns (n : Int) (line : Text) :
    normalizeLineGiven (.columns n) line = (normalizeLine n line).mapError .mark := by
  have h : ((indentation? line).bind fun columns => (Indent.columns n).fault? columns) = none := by
    cases indentation? line <;> rfl
  simp [normalizeLineGiven, h, Indent.most]

/-- With settings of the right kinds a script is optimized as usual. -/
theorem optimizeGiven_columns (ctx : Context) (n : Int) (markers : Header.Markers)
    (given : Option Text) (code : Text) :
    optimizeGiven ctx none (.columns n) markers given code =
      (optimize ctx n markers given code).mapError .mark := by
  have hline : normalizeLineGiven (.columns n) = fun line => (normalizeLine n line).mapError .mark :=
    funext (normalizeLineGiven_columns n)
  have hbody : optimizeBodyGiven ctx none (.columns n) =
      fun t => (optimizeBody ctx n t).mapError .mark := by
    funext t
    simp [optimizeBodyGiven, hline, optimizeBody, normalize, normalizeLines_mapError]
  simp only [optimizeGiven, hbody, optimize, belowHeader_mapError]

end Userscript.Script
