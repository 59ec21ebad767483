import Userscript.Proofs.Module.Unique
import Userscript.Proofs.Tree.Alike

/-!
# Files written into a folder

Files are written into a folder one after the other. What stands there in the end by a name was written last
by it, and nothing else has changed in the tree.

## Main definitions

* `Tree.Writes` — files have been written into a folder
* `Tree.latest` — what was written last by a name

## Main results

* `Writes.read_eq` — what is read of a file in the end
* `Writes.alike`, `Writes.wellNamed` — what else there is to be said of the tree
-/

namespace Userscript.Tree

variable {folder : Path} {name : String} {writes writes' : List (String × Bytes)} {t u v : Tree} {content : Bytes}
  {stamp : Int}

/-- Files have been written into a folder, one after the other, by these names and with these contents. -/
inductive Writes (folder : Path) : List (String × Bytes) → Tree → Tree → Prop
  | nil {t : Tree} : Writes folder [] t t
  | cons {name : String} {content : Bytes} {stamp : Int} {writes : List (String × Bytes)} {t u v : Tree} :
    t.writeFile (folder.under name) content stamp = .ok u → Writes folder writes u v →
      Writes folder ((name, content) :: writes) t v

/-- What was written last by a name. -/
def latest (name : String) : List (String × Bytes) → Option Bytes
  | [] => none
  | (other, content) :: writes => (latest name writes).or (if other = name then some content else none)

theorem latest_append (name : String) (writes writes' : List (String × Bytes)) :
    latest name (writes ++ writes') = (latest name writes').or (latest name writes) := by
  induction writes with
  | nil => simp [latest]
  | cons write writes ih =>
    obtain ⟨other, content⟩ := write
    rw [List.cons_append, latest, latest, ih, Option.or_assoc]

theorem read_writeFile_under_of_ne (habsolute : folder.isAbsolute) (hdots : ".." ∉ folder.parts) {other : String}
    (hname : name ≠ "..") (hother : other ≠ "..") (hne : other ≠ name)
    (h : t.writeFile (folder.under other) content stamp = .ok u) :
    u.read (folder.under name) = t.read (folder.under name) := by
  have halike : t.Alike (folder.places [other]) u := by
    refine .of_writeFile h fun names hnames => ⟨other, List.mem_singleton_self _, ?_⟩
    exact eq_parts_of_names hnames habsolute (Path.dots_not_mem_under hdots hother)
  refine halike.read_eq (Path.under_clearOf_places habsolute hdots hname fun hmem => ?_)
  exact hne (List.mem_singleton.1 hmem).symm

/-- What a path into a folder leads to stands there, and the folder is there. -/
theorem folder_of_names_under (habsolute : folder.isAbsolute) (hdots : ".." ∉ folder.parts) (hname : name ≠ "..")
    {names : List String} (hnames : t.names (folder.under name) = .ok names) :
    names = (folder.under name).parts ∧ t.faceAt folder.parts = some .folder := by
  obtain rfl := eq_parts_of_names hnames habsolute (Path.dots_not_mem_under hdots hname)
  refine ⟨rfl, ?_⟩
  rcases faceAt_dropLast_of_names hnames with hnil | hfolder | hparent
  · simp [Path.under] at hnil
  · exact faceAt_of_isPrefix hfolder (List.prefix_append _ _) (by simp [Path.under])
  · simpa [Path.under] using hparent

theorem root_writeFile {p : Path} {names : List String} (hnames : t.names p = .ok names)
    (h : t.writeFile p content stamp = .ok u) : u.root = Node.put (.file content stamp) names t.root := by
  simp only [writeFile, hnames] at h
  split at h
  · cases h
  · cases h
    rfl

namespace Writes

theorem single (h : t.writeFile (folder.under name) content stamp = .ok u) : Writes folder [(name, content)] t u :=
  .cons h .nil

theorem append (h : Writes folder writes t u) (h' : Writes folder writes' u v) :
    Writes folder (writes ++ writes') t v := by
  induction h with
  | nil => exact h'
  | cons hwrite _ ih => exact .cons hwrite (ih h')

section folder

variable (habsolute : folder.isAbsolute) (hdots : ".." ∉ folder.parts)

include habsolute hdots

/-- What is read in the end was written last, or it was there before. -/
theorem read_eq (h : Writes folder writes t u) (hname : name ≠ "..") (hnames : ∀ write ∈ writes, write.1 ≠ "..") :
    u.read (folder.under name) = (latest name writes).elim (t.read (folder.under name)) .ok := by
  induction h with
  | nil => rfl
  | @cons other content stamp writes t u v hwrite _ ih =>
    obtain ⟨hother, hnames⟩ := List.forall_mem_cons.1 hnames
    rw [ih hnames, latest]
    cases latest name writes with
    | some last => rfl
    | none =>
      rw [Option.none_or]
      split
      · next heq =>
        subst heq
        exact read_writeFile hwrite
      · next hne => exact read_writeFile_under_of_ne habsolute hdots hname hother hne hwrite

/-- Trees are alike but for the files that were written. -/
theorem alike (h : Writes folder writes t u) {names : List String} (hnames : ∀ write ∈ writes, write.1 ∈ names)
    (hnodots : ".." ∉ names) : t.Alike (folder.places names) u := by
  induction h with
  | nil => exact .refl _ _
  | @cons name content stamp writes t u v hwrite _ ih =>
    obtain ⟨hname, hnames⟩ := List.forall_mem_cons.1 hnames
    have hne : name ≠ ".." := fun heq => hnodots (heq ▸ hname)
    refine (Alike.of_writeFile hwrite fun place hplace => ⟨name, hname, ?_⟩).trans (ih hnames)
    exact eq_parts_of_names hplace habsolute (Path.dots_not_mem_under hdots hne)

/-- Files by proper names leave a tree as file systems have them. -/
theorem wellNamed (h : Writes folder writes t u) (hnames : ∀ write ∈ writes, Path.IsName write.1)
    (hwell : t.root.WellNamed) : u.root.WellNamed := by
  induction h with
  | nil => exact hwell
  | @cons name content stamp writes t u v hwrite _ ih =>
    obtain ⟨hname, hnames⟩ := List.forall_mem_cons.1 hnames
    refine ih hnames ?_
    obtain ⟨names, hplace, -⟩ := faceAt_writeFile hwrite
    -- The file stands in a folder of the tree, and the names above it are names.
    obtain ⟨rfl, habove⟩ := folder_of_names_under habsolute hdots hname.ne_dots hplace
    obtain ⟨contents, hcontents⟩ := faceAt_eq_folder_iff.1 habove
    rw [root_writeFile hplace hwrite]
    refine hwell.put .file fun other hother => ?_
    rcases List.mem_append.1 hother with hother | hother
    · exact hwell.isName_of_at? hcontents other hother
    · exact List.mem_singleton.1 hother ▸ hname

end folder

end Writes

end Userscript.Tree
