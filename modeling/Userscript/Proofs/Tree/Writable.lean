import Userscript.Proofs.Build.Failing

/-!
# Files that can be written

A file can be written at a path if the path leads into a folder that is there and to no folder itself. So it
depends on the folders of a tree alone, and those stay the same when files are written, and when a temporary
folder is made and removed.

## Main definitions

* `Tree.SameFolders` — two trees have the same folders
* `Tree.Writable` — a file can be written at a path

## Main results

* `sameFolders_writeFile`, `sameFolders_writeAll` — writing files makes and removes no folder
* `sameFolders_temporary` — nor does a temporary folder that is removed again
* `Writable.of_sameFolders` — what can be written depends on the folders
* `run_writeText` — a text is written whole where it can be written
-/

namespace Userscript

namespace Tree

variable {t t' t'' : Tree} {p : Path} {names : List String} {content : Bytes} {stamp : Int}

/-- Two trees have the same folders. -/
structure SameFolders (t t' : Tree) : Prop where
  here : t'.here = t.here
  folder (names : List String) : t'.faceAt names = some .folder ↔ t.faceAt names = some .folder

theorem SameFolders.refl (t : Tree) : SameFolders t t := ⟨rfl, fun _ => .rfl⟩

theorem SameFolders.trans (h : SameFolders t t') (h' : SameFolders t' t'') : SameFolders t t'' :=
  ⟨h'.here.trans h.here, fun names => (h'.folder names).trans (h.folder names)⟩

theorem SameFolders.names_eq (h : SameFolders t t') (hnames : t.names p = .ok names) :
    t'.names p = .ok names :=
  names_of_folders hnames h.here fun other => (h.folder other).2

theorem sameFolders_writeFile (h : t.writeFile p content stamp = .ok t') : SameFolders t t' := by
  obtain ⟨names, hnames, hhere, hface, hfolder, hother⟩ := faceAt_writeFile h
  refine ⟨hhere, fun other => ?_⟩
  by_cases heq : other = names
  · subst heq
    simp [hface, hfolder]
  · rw [hother other heq]

theorem sameFolders_writeAll (stamp : Int) (t : Tree) (files : List (Path × Bytes)) :
    SameFolders t (Tool.writeAll stamp t files).1 := by
  induction files generalizing t with
  | nil => exact .refl t
  | cons file files ih =>
    unfold Tool.writeAll
    split
    · next t' hwrite => exact (sameFolders_writeFile hwrite).trans (ih t')
    · exact .refl t

/-! ### A temporary folder -/

/-- A folder can be made at a path: it is none yet, and the folder above it is there. -/
structure TakesFolder (t : Tree) (p : Path) : Prop where
  absolute : p.isAbsolute
  dots_not_mem : ".." ∉ p.parts
  nothing : t.faceAt p.parts ≠ some .folder
  parent : t.faceAt p.parts.dropLast = some .folder

theorem TakesFolder.of_sameFolders (h : t.TakesFolder p) (hsame : SameFolders t t') : t'.TakesFolder p :=
  ⟨h.absolute, h.dots_not_mem, fun hfolder => h.nothing ((hsame.folder _).1 hfolder),
    (hsame.folder _).2 h.parent⟩

theorem TakesFolder.parts_ne_nil (h : t.TakesFolder p) : p.parts ≠ [] := by
  intro hparts
  have hparent := h.parent
  rw [hparts, List.dropLast_nil, ← hparts] at hparent
  exact h.nothing hparent

/-- The tree with a new folder at a path. -/
def withEmpty (t : Tree) (p : Path) : Tree := { t with root := Node.put (.folder []) p.parts t.root }

theorem faceAt_withEmpty_self (t : Tree) (p : Path) : (t.withEmpty p).faceAt p.parts = some .folder := by
  rw [faceAt, withEmpty, Node.at?_put_self]
  rfl

/-- The new folder is empty. -/
theorem faceAt_withEmpty_below (t : Tree) {p : Path} (hpre : p.parts <+: names) (hne : p.parts ≠ names) :
    (t.withEmpty p).faceAt names = none := by
  obtain ⟨rest, rfl⟩ := hpre
  have hrest : rest ≠ [] := fun hnil => hne (by rw [hnil, List.append_nil])
  rw [faceAt, withEmpty, Node.at?_put_append, Node.at?_empty hrest]
  rfl

theorem sameOutside_withEmpty (h : t.TakesFolder p) : SameOutside p.parts t (t.withEmpty p) :=
  sameOutside_put _ (.inr h.parent)

/-- A folder that is made, written into and removed leaves the folders as they were. -/
theorem sameFolders_temporary (h : t.TakesFolder p) (hsame : SameFolders (t.withEmpty p) t') :
    SameFolders t (t'.delete p) := by
  have hmade := sameOutside_withEmpty h
  have hthere : t'.faceAt p.parts = some .folder := (hsame.folder _).2 (faceAt_withEmpty_self t p)
  have hnames := names_of_faceAt h.absolute h.dots_not_mem hthere
  have hremoved : SameOutside p.parts t' (t'.delete p) :=
    sameOutside_delete t' p fun names hother => Except.ok.inj (hother.symm.trans hnames)
  refine ⟨hremoved.1.trans (hsame.here.trans hmade.1), fun names => ?_⟩
  by_cases hpre : p.parts <+: names
  · -- Within the folder nothing was before, and nothing is left.
    have hbefore : t.faceAt names ≠ some .folder := fun hfolder => by
      by_cases heq : p.parts = names
      · exact h.nothing (heq ▸ hfolder)
      · simp [faceAt_eq_none_of_isPrefix h.nothing hpre heq] at hfolder
    have hafter : (t'.delete p).faceAt names = none := by
      rw [faceAt, delete, hnames, Node.at?_remove h.parts_ne_nil hpre]
      rfl
    simp [hbefore, hafter]
  · rw [hremoved.2 names hpre, hsame.folder, hmade.2 names hpre]

/-! ### Writing -/

/-- A file can be written at a path: the path has a last part and the file system takes it, the folder that it
leads into is there, and it leads to no folder itself. -/
structure Writable (t : Tree) (p : Path) : Prop where
  named : p.parts ≠ []
  nul : p.hasNul = false
  place : ∃ names, t.names p = .ok names ∧ t.faceAt names ≠ some .folder

theorem Writable.of_sameFolders (h : t.Writable p) (hsame : SameFolders t t') : t'.Writable p := by
  obtain ⟨names, hnames, hfolder⟩ := h.place
  exact ⟨h.named, h.nul, names, hsame.names_eq hnames, fun hthere => hfolder ((hsame.folder _).1 hthere)⟩

theorem Writable.exists_writeFile (h : t.Writable p) (content : Bytes) (stamp : Int) :
    ∃ t', t.writeFile p content stamp = .ok t' := by
  obtain ⟨names, hnames, hfolder⟩ := h.place
  exact Tree.exists_writeFile hnames hfolder content stamp

/-- The folder above a file is there. -/
theorem Writable.makeFolders_parent (h : t.Writable p) : t.makeFolders p.parent = (t, none) := by
  obtain ⟨names, hnames, -⟩ := h.place
  obtain ⟨init, part, hparts⟩ := (List.eq_nil_or_concat p.parts).resolve_left h.named
  rw [List.concat_eq_append] at hparts
  have hjoin : (t.here.join p).parts = (t.here.join p.parent).parts ++ [part] := by
    have habsolute : p.parent.isAbsolute = p.isAbsolute := rfl
    have hparent : p.parent.parts = init := by rw [Path.parent, hparts, List.dropLast_concat]
    rw [Path.join, Path.join, habsolute]
    split <;> simp [hparent, hparts]
  -- The last part is entered from the folder that the others lead into.
  obtain ⟨folder, hfolder, hentered⟩ := names_of_parts hjoin hnames
  exact makeFolders_of_names hfolder (enter_eq_ok_iff.1 hentered).1

/-- What is read or is no text is there. -/
theorem has_of_readText_ne_file (h : ∀ fault, t.readText p ≠ .error (.file fault)) : t.has p := by
  cases hread : t.read p with
  | error fault => exact absurd (by rw [readText, hread]) (h fault)
  | ok content =>
    obtain ⟨names, stamp, hnames, hfile⟩ := read_eq_ok_iff.1 hread
    rw [has, find?, hnames]
    dsimp only
    rw [faceAt_eq_file_iff.1 hfile]
    rfl

/-- What is there by a path that leads to no folder is read, or it is no text. -/
theorem Writable.readText_ne_file (h : t.Writable p) (hhas : t.has p) (fault : FileFault) :
    t.readText p ≠ .error (.file fault) := by
  obtain ⟨names, hnames, hfolder⟩ := h.place
  have hread : ∃ content, t.read p = .ok content := by
    rw [has, find?, hnames, Option.isSome_iff_exists] at hhas
    obtain ⟨n, hn⟩ := hhas
    cases n with
    | folder contents => exact absurd (faceAt_eq_folder_iff.2 ⟨contents, hn⟩) hfolder
    | file content stamp => exact ⟨content, read_eq_ok_iff.2 ⟨names, stamp, hnames, faceAt_eq_file_iff.2 hn⟩⟩
  obtain ⟨content, hcontent⟩ := hread
  rw [readText, hcontent]
  dsimp only
  cases Utf8.decode content <;> simp

/-- A name in a folder that is there leads to its place. -/
theorem names_under (folder : Path) {name : String} (habsolute : folder.isAbsolute)
    (hdots : ".." ∉ folder.parts) (hfolder : t.faceAt folder.parts = some .folder) (hname : Path.IsName name) :
    t.names (folder.under name) = .ok (folder.parts ++ [name]) := by
  have hentered : folder.parts.foldlM t.enter [] = .ok folder.parts := foldlM_enter_of_faceAt hdots hfolder
  have hlast : t.enter folder.parts name = .ok (folder.parts ++ [name]) :=
    enter_eq_ok_iff.2 ⟨hfolder, by rw [if_neg hname.ne_dots]⟩
  have habsolute : (folder.under name).isAbsolute := habsolute
  rw [names_eq_foldlM, Path.join, if_pos habsolute, Path.under, List.foldlM_append, hentered]
  change [name].foldlM t.enter folder.parts = _
  rw [List.foldlM_cons, hlast]
  rfl

/-- A file can be written into a folder that is there, unless a folder has its name. -/
theorem writable_under (folder : Path) {name : String} (habsolute : folder.isAbsolute)
    (hdots : ".." ∉ folder.parts) (hfolder : t.faceAt folder.parts = some .folder) (hname : Path.IsName name)
    (hnul : (folder.under name).hasNul = false) (hnone : t.faceAt (folder.parts ++ [name]) ≠ some .folder) :
    t.Writable (folder.under name) :=
  ⟨by simp [Path.under], hnul, _, names_under folder habsolute hdots hfolder hname, hnone⟩

/-- A file can be written into a new folder. -/
theorem TakesFolder.writable_child {name : String} (h : t.TakesFolder p) (hname : Path.IsName name)
    (hnul : (p.child name).hasNul = false) : (t.withEmpty p).Writable (p.child name) := by
  rw [Path.child_of_isName hname] at hnul ⊢
  refine writable_under p h.absolute h.dots_not_mem (faceAt_withEmpty_self t p) hname hnul ?_
  rw [faceAt_withEmpty_below t (List.prefix_append _ _) (by simp)]
  simp

end Tree

/-- A text is written whole where it can be written. -/
theorem Action.run_writeText (host : Host) {p : Path} {w : World} (h : w.tree.Writable p) (text : Text) :
    ∃ w', writeText p text host w = (.ok (Utf8.encode text).length, w') ∧ w.tree.SameFolders w'.tree := by
  obtain ⟨t, hwrite⟩ := h.exists_writeFile (Utf8.encode text) w.nextStamp
  have hparent : p.parent.hasNul = false :=
    Path.hasNul_eq_false_iff.2 fun part hpart =>
      Path.hasNul_eq_false_iff.1 h.nul part (List.dropLast_subset _ hpart)
  have hrun : writeText p text = (do
      makeFolders p.parent
      writeBytes p (Utf8.encode text)
      return (Utf8.encode text).length : Action Nat) := rfl
  rw [hrun, Program.run_bind, run_makeFolders hparent, h.makeFolders_parent]
  dsimp only
  rw [Program.run_bind, run_writeBytes h.nul]
  dsimp only
  rw [hwrite]
  exact ⟨_, rfl, Tree.sameFolders_writeFile hwrite⟩

end Userscript
