import Userscript.Script.Token
import Userscript.Text.Lines

/-!
# Scripts without comments

Comments are taken out line by line. Only an open block comment is carried over to the
next line: a line that lies within it is dropped, and the line that closes it goes on as
if it began there. A carriage return at the end of a line is no part of the line.

## Main definitions

* `Script.Row` — a line that is kept: its tokens and its carriage return
* `Script.rows` — the lines that are kept
* `Script.tokens` — the tokens of a script
* `Script.strip` — the script without comments
-/

namespace Userscript.Script

/-- A line that is kept. -/
structure Row where
  tokens : List Token
  /-- The carriage return that the line ends in, if it does. -/
  ending : Text

/-- A line without its comments. -/
def Row.output (row : Row) : Text := row.tokens.flatMap Token.output ++ row.ending

/-- Whether a block comment that opens on the line is still open at its end. -/
def Row.isOpen (row : Row) : Bool :=
  match row.tokens.getLast? with
  | some (.opening _) => true
  | _ => false

/-- A line apart from the carriage return it ends in. -/
def cutReturn (line : Text) : Text × Text :=
  if line.getLast? = some '\r' then (line.dropLast, ['\r']) else (line, [])

/-- The part of a line outside the block comment that may be open at its beginning. There
is none if the comment goes on beyond the line. -/
def outside? (inComment : Bool) (line : Text) : Option Text :=
  if inComment then (Text.cut closeMark line).map (·.2) else some line

/-- The lines that are kept, where a block comment may be open at the first one. -/
def rows (ctx : Context) (inComment : Bool) : List Text → List Row
  | [] => []
  | line :: rest =>
    let (body, ending) := cutReturn line
    match outside? inComment body with
    | none => rows ctx true rest
    | some code =>
      let row : Row := ⟨lexLine ctx [] code, ending⟩
      row :: rows ctx row.isOpen rest

/-- The tokens of a script, line by line. -/
def tokens (ctx : Context) (t : Text) : List Token :=
  (rows ctx false (Text.lines t)).flatMap Row.tokens

/-- A script without its comments. -/
def strip (ctx : Context) (t : Text) : Text :=
  Text.unlines ((rows ctx false (Text.lines t)).map Row.output)

/-- The scripts of a list, each without its comments. -/
def stripAll (ctx : Context) (ts : List Text) : List Text := ts.map (strip ctx)

/-- A line and its carriage return make up the line. -/
theorem cutReturn_append (line : Text) : (cutReturn line).1 ++ (cutReturn line).2 = line := by
  unfold cutReturn
  split
  · next h =>
    obtain ⟨init, rfl⟩ := List.getLast?_eq_some_iff.1 h
    simp
  · simp

end Userscript.Script
