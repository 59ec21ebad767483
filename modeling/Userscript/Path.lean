import Userscript.Text.Lines
import Userscript.Text.Search

/-!
# Paths

A path is a root, if it is absolute, and a list of parts. Writing a path out and reading
it back gives the path; repeated slashes, single dots and a slash at the end are not
kept, two dots are. Parts are texts, so names of files that are none are left out.

## Main definitions

* `Path.ofString`, `Path.toString` — reading and writing
* `Path.join` — a path below another; an absolute one replaces it
* `Path.name`, `Path.suffix`, `Path.parent`, `Path.withName?` — the last part
* `Path.normalize` — an absolute path without two dots
-/

namespace Userscript

/-- What a path begins with. Two slashes, and no more, are a root of their own. -/
inductive Path.Root where
  | none
  | slash
  | doubleSlash
  deriving DecidableEq, Repr

/-- A path. -/
structure Path where
  root : Path.Root := .none
  parts : List String := []
  deriving DecidableEq, Repr, Inhabited

namespace Path

/-- How a root is written. -/
def Root.text : Root → String
  | .none => ""
  | .slash => "/"
  | .doubleSlash => "//"

/-- The pieces of a text between slashes. -/
def pieces (s : String) : List String :=
  (Text.splitAt (· == '/') s.toList).map String.ofList

/-- The path that a text denotes. -/
def ofString (s : String) : Path :=
  let slashes := (s.toList.takeWhile (· == '/')).length
  { root := if slashes = 0 then .none else if slashes = 2 then .doubleSlash else .slash
    parts := (pieces s).filter fun part => part ≠ "" ∧ part ≠ "." }

/-- The text of a path; the empty path is a dot. -/
def toString (p : Path) : String :=
  if p.root = .none ∧ p.parts = [] then "."
  else p.root.text ++ "/".intercalate p.parts

instance : ToString Path := ⟨Path.toString⟩

/-- Whether the character NUL is in a path. -/
def hasNul (p : Path) : Bool := p.parts.any fun part => part.toList.contains '\x00'

/-- Whether a path has a root. -/
def isAbsolute (p : Path) : Bool := p.root ≠ .none

/-- The path `q`, read from `p` on. -/
def join (p q : Path) : Path :=
  if q.isAbsolute then q else { p with parts := p.parts ++ q.parts }

/-- The path a name or a relative path below `p`. -/
def child (p : Path) (s : String) : Path := p.join (ofString s)

/-- The last part of a path; empty if there is none. -/
def name (p : Path) : String := p.parts.getLastD ""

/-- The path without its last part. -/
def parent (p : Path) : Path := { p with parts := p.parts.dropLast }

/-- The path with another last part; there is none if the path has no last part. -/
def withName? (p : Path) (name : String) : Option Path :=
  if p.parts = [] then none else some { p with parts := p.parts.dropLast ++ [name] }

/-- The part of a name from its last dot on. A dot at the beginning or at the end of the
name does not count. -/
def suffixOf (name : String) : String :=
  let back := name.toList.reverse
  let letters := back.takeWhile (· != '.')
  match back.dropWhile (· != '.') with
  | _ :: _ :: _ => if letters.isEmpty then "" else String.ofList ('.' :: letters.reverse)
  | _ => ""

/-- The suffix of a path's last part. -/
def suffix (p : Path) : String := suffixOf p.name

/-- The parts with every pair of dots taking away the part before it. -/
def withoutDots (parts : List String) : List String :=
  (parts.foldl (fun back part => if part = ".." then back.tail else part :: back) []).reverse

/-- The absolute path that `p` denotes in the folder `here`, without two dots. -/
def normalize (p here : Path) : Path :=
  { root := .slash, parts := withoutDots (here.join p).parts }

end Path

end Userscript
