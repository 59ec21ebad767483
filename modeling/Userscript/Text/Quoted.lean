import Userscript.Text.Digit
import Userscript.Text.Printable

/-!
# Quoted texts

A text inside a list or a table is shown in quotes. The quotes are single ones, unless
the text has a single quote and no double one. Inside, the quote and the backslash are
escaped, and so is every character that cannot be printed.

## Main definitions

* `Text.quote` — a text in quotes
-/

namespace Userscript.Text

/-- The quote that encloses a text: a double one if the text has single quotes only. -/
def enclosing (t : Text) : Char :=
  if t.contains '\x27' && !t.contains '"' then '"' else '\x27'

/-- How a character is written between quotes `q`. -/
def quoteChar (q c : Char) : Text :=
  if c = q ∨ c = '\\' then ['\\', c]
  else if c = '\n' then ['\\', 'n']
  else if c = '\r' then ['\\', 'r']
  else if c = '\t' then ['\\', 't']
  else if isPrintable c then [c]
  else if c.toNat ≤ 0xFF then '\\' :: 'x' :: hex 2 c.toNat
  else if c.toNat ≤ 0xFFFF then '\\' :: 'u' :: hex 4 c.toNat
  else '\\' :: 'U' :: hex 8 c.toNat

/-- A text in quotes, as it is shown inside a list or a table. -/
def quote (t : Text) : Text :=
  let q := enclosing t
  [q] ++ t.flatMap (quoteChar q) ++ [q]

end Userscript.Text
