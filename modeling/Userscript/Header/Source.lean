import Userscript.Header.Block
import Userscript.Log

/-!
# Where a header comes from

The header of a bundle is the first one that is found in the candidate files. If there is
none, a fallback is used.

## Main definitions

* `Header.Source` — a place for a header
* `Header.Resolved` — a header and the file it comes from
* `Header.resolve` — the header of the first source that has one
-/

namespace Userscript.Header

/-- A place for a header: a file, or a text that is one. -/
inductive Source where
  | file (path : Path)
  | text (header : Text)

/-- A header, and the file it comes from unless it is made up. -/
structure Resolved where
  text : Text
  source : Option Path := none

/-- Whether a header is made up. -/
def Resolved.isSynthesized (r : Resolved) : Bool := r.source.isNone

/-- The header that a source has. -/
def Source.find? (markers : Markers) (t : Tree) : Source → Reading (Option Resolved)
  | .text header => return some { text := header }
  | .file path => do
    match ← Reading.textOrNone t path with
    | none => return none
    | some content => return (markers.extract? content).map fun text => ⟨text, some path⟩

/-- The header of the first source that has one, or the fallback. -/
def resolve (markers : Markers) (t : Tree) : List Source → Reading Resolved
  | [] => return { text := fallback }
  | source :: rest => do
    match ← source.find? markers t with
    | some found => return found
    | none => resolve markers t rest

/-- The sources that some candidate files are, with the fallback behind them. -/
def sources (paths : List Path) : List Source := paths.map .file ++ [.text fallback]

end Userscript.Header
