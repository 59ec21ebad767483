import Userscript.Header.Block
import Userscript.Script.Comments
import Userscript.Script.Spacing

/-!
# Optimized scripts

The fast way to a smaller script: comments and blank lines go and the spacing is made
regular. The metadata header consists of comments; it is taken out before and put back on
top of the result.

## Main definitions

* `Script.dropBlankLines` — a text without its blank lines
* `Script.optimizeBody` — the steps that are applied to all but the header
* `Script.optimize` — the optimized script
-/

namespace Userscript.Script

/-- A text without its blank lines. -/
def dropBlankLines (t : Text) : Text :=
  Text.unlines ((Text.lines t).filter fun line => !Text.isBlankText line)

/-- A script without comments and blank lines and with regular spacing. -/
def optimizeBody (ctx : Context) (indentLimit : Int) (t : Text) : Except MarkFault Text :=
  normalize indentLimit (dropBlankLines (strip ctx t))

/-- The header that an optimized script keeps: the one that is given unless it is empty,
or the first one in the script. -/
def keptHeader (markers : Header.Markers) (given : Option Text) (code : Text) : Text :=
  match given with
  | some (c :: t) => c :: t
  | _ => (markers.extract? code).getD []

/-- A script of which all but the header is changed: the header, a blank line, and the rest
as it is then. -/
def belowHeader {ε : Type} (markers : Header.Markers) (given : Option Text) (code : Text)
    (change : Text → Except ε Text) : Except ε Text := do
  if code.isEmpty then return []
  let header := keptHeader markers given code
  let body ← change (Text.replaceFirst header [] code)
  let top := if header.isEmpty then [] else Text.trim header ++ ['\n', '\n']
  return top ++ Text.trim body ++ ['\n']

/-- The optimized script: the header, a blank line, and the rest in small. -/
def optimize (ctx : Context) (indentLimit : Int) (markers : Header.Markers) (given : Option Text)
    (code : Text) : Except MarkFault Text :=
  belowHeader markers given code (optimizeBody ctx indentLimit)

/-- The fault of a script is that of the change under another name. -/
theorem belowHeader_mapError {ε ε' : Type} (f : ε → ε') (markers : Header.Markers)
    (given : Option Text) (code : Text) (change : Text → Except ε Text) :
    belowHeader markers given code (fun t => (change t).mapError f) =
      (belowHeader markers given code change).mapError f := by
  unfold belowHeader
  split
  · rfl
  · dsimp only
    cases change (Text.replaceFirst (keptHeader markers given code) [] code) <;> rfl

end Userscript.Script
