import Userscript.Text.Lines
import Userscript.Tree

/-!
# Reading text files

A text file holds UTF-8, and each of its line ends is read as a line feed.

## Main definitions

* `ReadFault` — why a text file cannot be read, with its `message`
* `Tree.readText` — the text of a file
* `Tree.readLenient` — the text of a file, where a replacement character stands for what
  is not UTF-8
-/

namespace Userscript

/-- Why a text file cannot be read. -/
inductive ReadFault where
  | file (fault : FileFault)
  | encoding (fault : Utf8.Fault)

/-- The wording of a fault. -/
def ReadFault.message : ReadFault → String
  | file fault => fault.message
  | encoding fault => fault.message

namespace Tree

/-- The text of a file. -/
def readText (t : Tree) (p : Path) : Except ReadFault Text :=
  match t.read p with
  | .error fault => .error (.file fault)
  | .ok content =>
    match Utf8.decode content with
    | .error fault => .error (.encoding fault)
    | .ok text => .ok (Text.unifyEndings text)

/-- The text of a file, where a replacement character stands for what is not UTF-8. -/
def readLenient (t : Tree) (p : Path) : Except FileFault Text :=
  (t.read p).map fun content => Text.unifyEndings (Utf8.decodeLenient content)

end Tree

end Userscript
