import Userscript.Path
import Userscript.Table
import Userscript.Text.Quoted
import Userscript.Text.Utf8

/-!
# File trees

A file tree is a folder with files and folders in it. A file has a content and a stamp,
the time of its last change. Paths are looked up from the root of the tree; two dots lead
to the folder above, and everything before the last part of a path has to be a folder.

The model leaves out what else a file system can refuse or change: there are no permissions, so
any file can be read and written and any folder searched; names and paths may be of any length;
there are no symbolic links; and nothing depends on a locale, as files and what programs print
are always taken for UTF-8.

## Main definitions

* `Node` — a file or a folder
* `Node.at?`, `Node.put`, `Node.remove` — reading and changing what stands below a folder
* `Tree.find?` — what a path leads to
* `Tree.writeFile`, `Tree.makeFolders` — changing a tree, with the `FileFault` that
  refuses it
* `Tree.place` — a node at a path, whatever stands there

## Main results

* `at?_put_self` — a node stands where it was put
-/

namespace Userscript

/-- A file, or a folder with what it holds by name. -/
inductive Node where
  | file (content : Bytes) (stamp : Int)
  | folder (contents : List (String × Node))
  deriving Inhabited

namespace Node

/-- What a folder holds; nothing stands below a file. -/
def entries : Node → Table Node
  | folder es => es
  | file .. => []

/-- Whether a node is a folder. -/
def isFolder : Node → Bool
  | folder _ => true
  | file .. => false

/-- Whether a node is a file. -/
def isFile (n : Node) : Bool := !n.isFolder

/-- What stands at a list of names below a node. -/
def at? : List String → Node → Option Node
  | [], n => some n
  | name :: rest, n => (n.entries.get? name).bind (at? rest)

/-- The node with `new` at a list of names below it. Folders on the way that are missing
are made, and a file on the way is replaced by a folder. -/
def put (new : Node) : List String → Node → Node
  | [], _ => new
  | name :: rest, n =>
    folder (n.entries.set name (put new rest ((n.entries.get? name).getD (folder []))))

/-- The node without what stands at a list of names below it. -/
def remove : List String → Node → Node
  | [], n => n
  | [name], n => if n.isFolder then folder (n.entries.erase name) else n
  | name :: rest, n =>
    match n.entries.get? name with
    | some inner => folder (n.entries.set name (remove rest inner))
    | none => n

/-- A node stands where it was put. -/
@[simp] theorem at?_put_self (new : Node) (names : List String) (n : Node) :
    at? names (put new names n) = some new := by
  induction names generalizing n with
  | nil => rfl
  | cons name rest ih => simp [put, at?, entries, ih]

end Node

/-- Why the file system refuses an operation on a path. -/
inductive FileFault where
  | missing (path : Path)
  | occupied (path : Path)
  | notFolder (path : Path)
  | isFolder (path : Path)
  deriving DecidableEq

/-- The wording of a fault. -/
def FileFault.message : FileFault → String
  | missing p => text 2 "No such file or directory" p
  | occupied p => text 17 "File exists" p
  | notFolder p => text 20 "Not a directory" p
  | isFolder p => text 21 "Is a directory" p
where
  /-- A fault with its number and its path. -/
  text (number : Nat) (what : String) (p : Path) : String :=
    s!"[Errno {number}] {what}: " ++ String.ofList (Text.quote p.toString.toList)

/-- A file tree: the folder at its root, and the folder that relative paths start from. -/
structure Tree where
  root : Node := .folder []
  here : Path := { root := .slash }
  deriving Inhabited

namespace Tree

/-- Why a path leads nowhere: a folder on the way is missing, or a file stands on the
way. -/
inductive Obstacle where
  | missing
  | notFolder
  deriving DecidableEq

/-- The names that lead from the root to where a path points, without two dots. What the
path points to need not exist, but the folders on the way do. -/
def names (t : Tree) (p : Path) : Except Obstacle (List String) :=
  (t.here.join p).parts.foldlM (fun names part =>
    match Node.at? names t.root with
    | some (.folder _) => .ok (if part = ".." then names.dropLast else names ++ [part])
    | some (.file ..) => .error .notFolder
    | none => .error .missing) []

/-- What a path leads to. -/
def find? (t : Tree) (p : Path) : Option Node :=
  match t.names p with
  | .ok names => Node.at? names t.root
  | .error _ => none

/-- Whether a path leads to a file or a folder. -/
def has (t : Tree) (p : Path) : Bool := (t.find? p).isSome

/-- Whether a path leads to a file. -/
def hasFile (t : Tree) (p : Path) : Bool := (t.find? p).any Node.isFile

/-- Whether a path leads to a folder. -/
def hasFolder (t : Tree) (p : Path) : Bool := (t.find? p).any Node.isFolder

/-- The content of the file that a path leads to. -/
def read (t : Tree) (p : Path) : Except FileFault Bytes :=
  match t.names p with
  | .error .missing => .error (.missing p)
  | .error .notFolder => .error (.notFolder p)
  | .ok names =>
    match Node.at? names t.root with
    | none => .error (.missing p)
    | some (.folder _) => .error (.isFolder p)
    | some (.file content _) => .ok content

/-- The stamp and the size of what a path leads to; a folder has neither. -/
def stat? (t : Tree) (p : Path) : Option (Int × Int) :=
  (t.find? p).map fun
    | .file content stamp => (stamp, content.length)
    | .folder _ => (0, 0)

/-- The tree with a file at a path. The folder it stands in has to exist. -/
def writeFile (t : Tree) (p : Path) (content : Bytes) (stamp : Int) : Except FileFault Tree :=
  match t.names p with
  | .error .missing => .error (.missing p)
  | .error .notFolder => .error (.notFolder p)
  | .ok names =>
    match Node.at? names t.root with
    | some (.folder _) => .error (.isFolder p)
    | _ => .ok { t with root := Node.put (.file content stamp) names t.root }

/-- The tree with a folder at a path. The folder above it has to exist, and an existing
folder will do. -/
def makeFolder (t : Tree) (p : Path) : Except FileFault Tree :=
  match t.names p with
  | .error .missing => .error (.missing p)
  | .error .notFolder => .error (.notFolder p)
  | .ok names =>
    match Node.at? names t.root with
    | some (.folder _) => .ok t
    | some (.file ..) => .error (.occupied p)
    | none => .ok { t with root := Node.put (.folder []) names t.root }

/-- The tree after a change, which stays as it is if the change is refused. -/
def after (t : Tree) : Except FileFault Tree → Tree × Option FileFault
  | .ok changed => (changed, none)
  | .error fault => (t, some fault)

/-- The tree with the folders of the last `n` parts of a path: a folder that cannot be
made because the one above it is missing is made after that one. What is made before a
fault stays. -/
def makeLast (t : Tree) (p : Path) : Nat → Tree × Option FileFault
  | 0 => t.after (t.makeFolder p)
  | n + 1 =>
    match t.makeFolder p with
    | .error (.missing _) =>
      match t.makeLast p.parent n with
      | (t, none) => t.after (t.makeFolder p)
      | refused => refused
    | result => t.after result

/-- The tree with a folder at a path and the folders on the way to it, or with those that
are made before a fault. -/
def makeFolders (t : Tree) (p : Path) : Tree × Option FileFault := t.makeLast p p.parts.length

/-- The tree with a node at a path and the folders on the way to it. An existing folder stays
if a folder is wanted. -/
def place (t : Tree) (p : Path) (n : Node) : Tree :=
  let t := (t.makeFolders p.parent).1
  match t.names p with
  | .error _ => t
  | .ok names =>
    if n.isFolder && (Node.at? names t.root).any Node.isFolder then t
    else { t with root := Node.put n names t.root }

/-- The tree without what a path leads to. -/
def delete (t : Tree) (p : Path) : Tree :=
  match t.names p with
  | .ok names => { t with root := Node.remove names t.root }
  | .error _ => t

end Tree

end Userscript
