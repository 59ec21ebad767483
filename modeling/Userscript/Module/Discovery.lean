import Userscript.Module.Order
import Userscript.Module.Rule
import Userscript.Tree

/-!
# Discovery of modules

The modules of a project are the files with the right names in a folder and in the folders
below it, apart from those of packages and of version control. The files of a folder come
before those of its subfolders, and both come by name. The folders that are still to be
visited are kept on a stack; a folder that cannot be listed is passed by.

## Main definitions

* `Node.sorted` — what a folder holds, by name
* `Module.walk` — the modules in the folders of a stack
* `Module.discoverWhere`, `Module.discover` — the modules below a folder of a tree
-/

namespace Userscript

mutual

/-- How many files and folders a node has, with itself. -/
def Node.weight : Node → Nat
  | .file .. => 1
  | .folder contents => 1 + Node.weights contents

/-- How many files and folders the nodes of a list have. -/
def Node.weights : List (String × Node) → Nat
  | [] => 0
  | (_, n) :: rest => Node.weight n + Node.weights rest

end

/-- What a folder holds, by name. -/
def Node.sorted (n : Node) : Table Node :=
  n.entries.mergeSort fun a b => decide (a.1 ≤ b.1)

/-- The path of what has this name in a folder. -/
def Path.under (folder : Path) (name : String) : Path := { folder with parts := folder.parts ++ [name] }

namespace Module

/-- The folders whose modules are not collected. -/
def skippedFolders : List String := ["node_modules", ".git"]

/-- The modules that stand in a folder, by name. -/
def inFolder (rule : ModuleRule) (folder : Path) (n : Node) : List ModuleFile :=
  (n.sorted.filter fun (name, child) => child.isFile && rule.accepts name).map fun (name, _) =>
    ⟨name, folder⟩

/-- Whether a node is a folder whose modules are collected. -/
def isVisited (entry : String × Node) : Bool :=
  entry.2.isFolder && !skippedFolders.contains entry.1

/-- The folders in a folder whose modules are collected, by name. -/
def subfolders (folder : Path) (n : Node) : List (Path × Node) :=
  (n.sorted.filter isVisited).map fun entry => (folder.under entry.1, entry.2)

/-- How many files and folders there are in the folders of a stack, and below them. -/
def stackWeight : List (Path × Node) → Nat
  | [] => 0
  | (_, n) :: rest => n.weight + stackWeight rest

theorem stackWeight_append (first second : List (Path × Node)) :
    stackWeight (first ++ second) = stackWeight first + stackWeight second := by
  induction first with
  | nil => simp [stackWeight]
  | cons entry rest ih => simp only [List.cons_append, stackWeight, ih, Nat.add_assoc]

/-- The order of nodes does not matter to their weight. -/
theorem weights_of_perm {first second : List (String × Node)} (h : first.Perm second) :
    Node.weights first = Node.weights second := by
  induction h with
  | nil => rfl
  | cons entry _ ih => simp only [Node.weights, ih]
  | swap a b rest => simp only [Node.weights]; omega
  | trans _ _ ih ih' => exact ih.trans ih'

/-- Nodes that are put on a stack weigh no more there. -/
theorem stackWeight_filter_map_le (p : String × Node → Bool) (folder : Path)
    (entries : List (String × Node)) :
    stackWeight ((entries.filter p).map fun entry => (folder.under entry.1, entry.2)) ≤
      Node.weights entries := by
  induction entries with
  | nil => simp [stackWeight]
  | cons entry rest ih =>
    simp only [Node.weights, List.filter_cons]
    split
    · simp only [List.map_cons, stackWeight]; omega
    · omega

/-- The folders in a folder weigh less than the folder. -/
theorem stackWeight_subfolders_lt (folder : Path) (n : Node) :
    stackWeight (subfolders folder n) < n.weight := by
  have hle : stackWeight (subfolders folder n) ≤ Node.weights n.sorted :=
    stackWeight_filter_map_le isVisited folder n.sorted
  have hperm : Node.weights n.sorted = Node.weights n.entries :=
    weights_of_perm (List.mergeSort_perm n.entries _)
  have hentries : Node.weights n.entries < n.weight := by
    cases n with
    | file => simp [Node.entries, Node.weight, Node.weights]
    | folder contents => simp only [Node.entries, Node.weight]; omega
  omega

/-- The modules in the folders of a stack, and below them. The folders in a folder are
visited right after it; a folder that cannot be listed is passed by. -/
def walk (listed : Path → Bool) (rule : ModuleRule) : List (Path × Node) → List ModuleFile
  | [] => []
  | (folder, n) :: rest =>
    if listed folder then inFolder rule folder n ++ walk listed rule (subfolders folder n ++ rest)
    else walk listed rule rest
termination_by stack => stackWeight stack
decreasing_by
  all_goals
    have := stackWeight_subfolders_lt folder n
    simp only [stackWeight, stackWeight_append]
    omega

/-- The modules below a folder of a tree of which only some folders can be listed. -/
def discoverWhere (listed : Path → Bool) (t : Tree) (rule : ModuleRule) (root : Path) :
    List ModuleFile :=
  match t.find? root with
  | some (.folder contents) => walk listed rule [(root, .folder contents)]
  | _ => []

/-- The modules below a folder of a tree. -/
def discover (t : Tree) (rule : ModuleRule) (root : Path) : List ModuleFile :=
  discoverWhere (fun _ => true) t rule root

end Module

end Userscript
