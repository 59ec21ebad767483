import Userscript.Text.Form

/-!
# Header blocks

A userscript begins with a metadata header between two markers, `==Name==` and
`==/Name==`. It is written in line comments, or as one block comment.

## Main definitions

* `Header.Markers` — the markers of a header
* `Markers.extract?` — the first header of a text, where one in line comments goes before
  one in a block comment
* `Markers.strip` — a text without its headers
* `Header.fallback` — the header of a bundle for which none is found
-/

namespace Userscript.Header

open Text (Form)

/-- The markers of a header, by the name between their equality signs. -/
structure Markers where
  name : Text := "UserScript".toList

namespace Markers

/-- The marker that opens a header. -/
def opening (m : Markers) : Text := "==".toList ++ m.name ++ "==".toList

/-- The marker that closes a header. -/
def closing (m : Markers) : Text := "==/".toList ++ m.name ++ "==".toList

/-- A marker in a line comment. -/
def inLine (marker : Text) : Form :=
  (Form.fixed ['/', '/']).andThen (Form.blanks.andThen (Form.fixed marker))

/-- A header in line comments. -/
def lineStyle (m : Markers) : Form := (inLine m.opening).andThen (.upTo (inLine m.closing))

/-- A header in a block comment, as it is looked for: the markers may stand anywhere behind
the beginning of a comment. -/
def blockStyle (m : Markers) : Form :=
  (Form.fixed ['/', '*']).andThen <| (Form.upTo (.fixed m.opening)).andThen <|
    (Form.upTo (.fixed m.closing)).andThen (.upTo (.fixed ['*', '/']))

/-- A header in a block comment, as it is taken out: only blanks stand between the markers
and the ends of the comment. -/
def wholeBlock (m : Markers) : Form :=
  (Form.fixed ['/', '*']).andThen <| Form.blanks.andThen <| (Form.fixed m.opening).andThen <|
    .upTo ((Form.fixed m.closing).andThen (Form.blanks.andThen (.fixed ['*', '/'])))

/-- The first piece of a text that has a form. -/
def find? (form : Form) (t : Text) : Option Text := (form.search t).map fun (_, found, _) => found

/-- The first header of a text. A header in line comments goes before one in a block
comment, wherever they stand. -/
def extract? (m : Markers) (t : Text) : Option Text :=
  if t.isEmpty then none else find? m.lineStyle t <|> find? m.blockStyle t

/-- A text without its headers. -/
def strip (m : Markers) (t : Text) : Text :=
  m.wholeBlock.removeAll (m.lineStyle.removeAll t)

end Markers

/-- The header of a bundle for which none is found. -/
def fallback : Text :=
  "// ==UserScript==\n// @name Userscript bundle (built)\n// @version 0.0\n// ==/UserScript==\n".toList

end Userscript.Header
