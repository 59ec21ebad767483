import Mathlib.Data.List.Induction
import Userscript.Proofs.Tree.Faces
import Userscript.Tool.Program

/-!
# Files that a change keeps

A path may hold pairs of dots. Where an absolute path leads is then said by its parts alone, and whether it
leads there by the folders on its way: `/p/sub/../cache` leads to `/p/cache`, but only as long as there is a
folder `/p/sub`. So a change that keeps the file that a path leads to has to leave alone what is in the
place of the file and must not take away a folder on the way.

## Main definitions

* `Path.withoutDots` — where an absolute path leads, from its parts
* `Tree.HoldsFile` — a file with this content is in a place
* `Tree.KeepsFile` — a change leaves the file that a path leads to

## Main results

* `eq_withoutDots_of_names` — an absolute path leads where its parts say, or nowhere
* `exists_names_eq` — there is a tree in which it leads there
* `KeepsFile.of_folders` — a change that leaves the place and the way alone keeps the file
* `keepsFile_writeFile`, `keepsFile_make`, `keepsFile_delete` — the changes that a build makes
-/

namespace Userscript

namespace Path

variable {parts : List String} {part : String}

/-- The last part is added, or takes away the part before it. -/
theorem withoutDots_concat (parts : List String) (part : String) : withoutDots (parts ++ [part]) =
    if part = ".." then (withoutDots parts).dropLast else withoutDots parts ++ [part] := by
  simp only [withoutDots, List.foldl_append, List.foldl_cons, List.foldl_nil]
  split
  · rw [List.dropLast_reverse]
  · rw [List.reverse_cons]

theorem withoutDots_of_not_mem (h : ".." ∉ parts) : withoutDots parts = parts := by
  induction parts using List.reverseRecOn with
  | nil => rfl
  | append_singleton parts part ih =>
    rw [List.mem_append, List.mem_singleton, not_or] at h
    rw [withoutDots_concat, if_neg (Ne.symm h.2), ih h.1]

end Path

namespace Tree

variable {t t' t'' : Tree} {p q : Path} {names place folder parts : List String} {content : Bytes}
  {stamp : Int}

/-! ### Where a path with pairs of dots leads -/

theorem foldlM_enter_concat_iff {part : String} : (parts ++ [part]).foldlM t.enter [] = .ok names ↔
    ∃ folder, parts.foldlM t.enter [] = .ok folder ∧ t.enter folder part = .ok names := by
  rw [List.foldlM_append]
  cases parts.foldlM t.enter [] with
  | error obstacle => simp [bind, Except.bind]
  | ok folder =>
    change [part].foldlM t.enter folder = .ok names ↔ _
    simp [List.foldlM_cons, List.foldlM_nil]

theorem eq_withoutDots_of_foldlM_enter (h : parts.foldlM t.enter [] = .ok names) :
    names = Path.withoutDots parts := by
  induction parts using List.reverseRecOn generalizing names with
  | nil =>
    cases h
    rfl
  | append_singleton parts part ih =>
    obtain ⟨folder, hfolder, hentered⟩ := foldlM_enter_concat_iff.1 h
    obtain ⟨-, rfl⟩ := enter_eq_ok_iff.1 hentered
    rw [Path.withoutDots_concat, ih hfolder]

/-- An absolute path leads where its parts say, or nowhere. -/
theorem eq_withoutDots_of_names (h : t.names p = .ok names) (habsolute : p.isAbsolute) :
    names = Path.withoutDots p.parts := by
  rw [names_eq_foldlM, Path.join, if_pos habsolute] at h
  exact eq_withoutDots_of_foldlM_enter h

/-- The parts of a path are entered as before if the folders on the way are still there. -/
theorem foldlM_enter_of_way (h : parts.foldlM t.enter [] = .ok names)
    (hway : ∀ init, init <+: parts → t.faceAt (Path.withoutDots init) = some .folder →
      t'.faceAt (Path.withoutDots init) = some .folder) :
    parts.foldlM t'.enter [] = .ok names := by
  induction parts using List.reverseRecOn generalizing names with
  | nil => exact h
  | append_singleton parts part ih =>
    obtain ⟨folder, hfolder, hentered⟩ := foldlM_enter_concat_iff.1 h
    obtain ⟨hface, hnames⟩ := enter_eq_ok_iff.1 hentered
    have hstill : t'.faceAt folder = some .folder := by
      obtain rfl := eq_withoutDots_of_foldlM_enter hfolder
      exact hway parts (List.prefix_append _ _) hface
    have hbefore := ih hfolder fun init hinit => hway init (hinit.trans (List.prefix_append _ _))
    exact foldlM_enter_concat_iff.2 ⟨folder, hbefore, enter_eq_ok_iff.2 ⟨hstill, hnames⟩⟩

/-- An absolute path leads where it led if the folders on its way are still there. -/
theorem names_of_way (habsolute : p.isAbsolute) (h : t.names p = .ok names)
    (hway : ∀ init, init <+: p.parts → t.faceAt (Path.withoutDots init) = some .folder →
      t'.faceAt (Path.withoutDots init) = some .folder) : t'.names p = .ok names := by
  rw [names_eq_foldlM, Path.join, if_pos habsolute] at h ⊢
  exact foldlM_enter_of_way h hway

theorem Grows.faceAt_eq_folder (h : Grows t t') (hfolder : t.faceAt names = some .folder) :
    t'.faceAt names = some .folder := by
  rcases h.2 names with heq | ⟨-, hfolder'⟩
  · rw [heq, hfolder]
  · exact hfolder'

/-- A folder can be made where a path leads and no file stands. -/
theorem exists_makeFolder (hnames : t.names p = .ok names)
    (hfile : ∀ content stamp, t.faceAt names ≠ some (.file content stamp)) :
    ∃ t', t.makeFolder p = .ok t' ∧ t'.faceAt names = some .folder := by
  unfold makeFolder
  rw [hnames]
  dsimp only
  split
  · next contents hfolder => exact ⟨t, rfl, faceAt_eq_folder_iff.2 ⟨contents, hfolder⟩⟩
  · next content stamp hthere => exact absurd (faceAt_eq_file_iff.2 hthere) (hfile content stamp)
  · exact ⟨_, rfl, faceAt_eq_folder_iff.2 ⟨[], Node.at?_put_self _ _ _⟩⟩

/-- In a tree without files the parts of a path can be entered after some folders have been made. -/
theorem exists_foldlM_enter (parts : List String) : ∃ t : Tree,
    (∀ names content stamp, t.faceAt names ≠ some (.file content stamp)) ∧
      parts.foldlM t.enter [] = .ok (Path.withoutDots parts) := by
  induction parts using List.reverseRecOn with
  | nil =>
    refine ⟨{}, fun names content stamp hfile => ?_, rfl⟩
    cases names with
    | nil => cases hfile
    | cons name rest => cases hfile
  | append_singleton parts part ih =>
    -- The last part is entered from a folder, which is made where the parts before it lead.
    obtain ⟨t, hfiles, hparts⟩ := ih
    have hnames : t.names ⟨.slash, parts⟩ = .ok (Path.withoutDots parts) := hparts
    obtain ⟨t', hmake, hfolder⟩ := exists_makeFolder hnames (hfiles _)
    have hgrows := grows_makeFolder hmake
    refine ⟨t', fun names content stamp hfile => hfiles names content stamp (hgrows.faceAt_eq_file_iff.1 hfile),
      foldlM_enter_concat_iff.2 ⟨Path.withoutDots parts, ?_, ?_⟩⟩
    · exact foldlM_enter_of_folders hparts fun other => hgrows.faceAt_eq_folder
    · exact enter_eq_ok_iff.2 ⟨hfolder, Path.withoutDots_concat parts part⟩

/-- An absolute path leads where its parts say in some tree. -/
theorem exists_names_eq (habsolute : p.isAbsolute) : ∃ t : Tree, t.names p = .ok (Path.withoutDots p.parts) := by
  obtain ⟨t, -, hparts⟩ := exists_foldlM_enter p.parts
  refine ⟨t, ?_⟩
  rw [names_eq_foldlM, Path.join, if_pos habsolute]
  exact hparts

/-! ### The file that a path leads to -/

/-- A file with this content is in a place, of whatever stamp. -/
def HoldsFile (t : Tree) (place : List String) (content : Bytes) : Prop :=
  ∃ stamp, t.faceAt place = some (.file content stamp)

theorem HoldsFile.congr (h : t'.faceAt place = t.faceAt place) (content : Bytes) :
    t'.HoldsFile place content ↔ t.HoldsFile place content := by
  rw [HoldsFile, HoldsFile, h]

theorem Grows.holdsFile_iff (h : Grows t t') : t'.HoldsFile place content ↔ t.HoldsFile place content :=
  exists_congr fun _ => h.faceAt_eq_file_iff

/-- An absolute path is read where its parts say. -/
theorem read_eq_ok_iff_holdsFile (habsolute : p.isAbsolute) : t.read p = .ok content ↔
    t.names p = .ok (Path.withoutDots p.parts) ∧ t.HoldsFile (Path.withoutDots p.parts) content := by
  rw [read_eq_ok_iff]
  constructor
  · rintro ⟨names, stamp, hnames, hfile⟩
    obtain rfl := eq_withoutDots_of_names hnames habsolute
    exact ⟨hnames, stamp, hfile⟩
  · rintro ⟨hnames, stamp, hfile⟩
    exact ⟨_, stamp, hnames, hfile⟩

/-- A change leaves the file that a path leads to: in its place is the file that was there, or none as
before, and the path is read as it was if it was read. -/
structure KeepsFile (p : Path) (t t' : Tree) : Prop where
  holdsFile_iff (content : Bytes) :
    t'.HoldsFile (Path.withoutDots p.parts) content ↔ t.HoldsFile (Path.withoutDots p.parts) content
  read {content : Bytes} : t.read p = .ok content → t'.read p = .ok content

theorem KeepsFile.refl (p : Path) (t : Tree) : KeepsFile p t t := ⟨fun _ => .rfl, id⟩

theorem KeepsFile.trans (h : KeepsFile p t t') (h' : KeepsFile p t' t'') : KeepsFile p t t'' :=
  ⟨fun content => (h'.holdsFile_iff content).trans (h.holdsFile_iff content), h'.read ∘ h.read⟩

/-- A change keeps the file that a path leads to if it leaves the place alone and the folders on the way. -/
theorem KeepsFile.of_folders (habsolute : p.isAbsolute)
    (hfile : ∀ content,
      t'.HoldsFile (Path.withoutDots p.parts) content ↔ t.HoldsFile (Path.withoutDots p.parts) content)
    (hway : ∀ init, init <+: p.parts → t.faceAt (Path.withoutDots init) = some .folder →
      t'.faceAt (Path.withoutDots init) = some .folder) : KeepsFile p t t' := by
  refine ⟨hfile, fun {content} hread => ?_⟩
  obtain ⟨hnames, hthere⟩ := (read_eq_ok_iff_holdsFile habsolute).1 hread
  exact (read_eq_ok_iff_holdsFile habsolute).2 ⟨names_of_way habsolute hnames hway, (hfile content).2 hthere⟩

/-- Without pairs of dots the path leads to its place whatever the folders are, so it is enough that the path
is read alike. -/
theorem KeepsFile.of_read (habsolute : p.isAbsolute) (hdots : ".." ∉ p.parts)
    (h : ∀ content, t'.read p = .ok content ↔ t.read p = .ok content) : KeepsFile p t t' := by
  refine ⟨fun content => ?_, (h _).2⟩
  rw [Path.withoutDots_of_not_mem hdots]
  exact (read_eq_ok_iff_faceAt habsolute hdots).symm.trans
    ((h content).trans (read_eq_ok_iff_faceAt habsolute hdots))

/-! ### Changes that keep a file -/

theorem keepsFile_of_grows (habsolute : p.isAbsolute) (h : Grows t t') : KeepsFile p t t' :=
  .of_folders habsolute (fun _ => h.holdsFile_iff) fun _ _ => h.faceAt_eq_folder

/-- A file that is written elsewhere takes away no folder. -/
theorem keepsFile_writeFile (habsolute : p.isAbsolute) (hq : q.Misses (Path.withoutDots p.parts))
    (h : t.writeFile q content stamp = .ok t') : KeepsFile p t t' := by
  obtain ⟨names, hnames, -, -, hnot, hother⟩ := faceAt_writeFile h
  refine .of_folders habsolute (HoldsFile.congr (hother _ (Ne.symm (hq t names hnames)))) fun init _ hfolder => ?_
  rw [hother _ fun heq => hnot (heq ▸ hfolder), hfolder]

theorem keepsFile_writeAll (habsolute : p.isAbsolute) {files : List (Path × Bytes)}
    (h : ∀ file ∈ files, file.1.Misses (Path.withoutDots p.parts)) (stamp : Int) (t : Tree) :
    KeepsFile p t (Tool.writeAll stamp t files).1 := by
  induction files generalizing t with
  | nil => exact .refl _ _
  | cons file files ih =>
    rw [List.forall_mem_cons] at h
    unfold Tool.writeAll
    split
    · next t' hwrite => exact (keepsFile_writeFile habsolute h.1 hwrite).trans (ih h.2 t')
    · exact .refl _ _

/-- A folder that is made keeps the file if it is not on the way to it, and the file not on the way to the
folder. -/
theorem keepsFile_make (habsolute : p.isAbsolute)
    (hway : ∀ init, init <+: p.parts → ¬ folder <+: Path.withoutDots init)
    (hbelow : ¬ Path.withoutDots p.parts <+: folder) (t : Tree) :
    KeepsFile p t { t with root := Node.put (.folder []) folder t.root } := by
  refine .of_folders habsolute (HoldsFile.congr ?_) fun init hinit hfolder => ?_
  · rw [faceAt, faceAt, Node.at?_put_of_not_prefix (hway _ List.prefix_rfl) hbelow]
  · by_cases hpre : Path.withoutDots init <+: folder
    · -- What is on the way to both is a folder still.
      exact faceAt_eq_folder_iff.2
        (Node.exists_at?_put hpre fun heq => hway init hinit (heq ▸ List.prefix_rfl))
    · rw [← hfolder, faceAt, faceAt, Node.at?_put_of_not_prefix (hway init hinit) hpre]

theorem keepsFile_delete (habsolute : p.isAbsolute) (hfolder : q.isAbsolute) (hdots : ".." ∉ q.parts)
    (hway : ∀ init, init <+: p.parts → ¬ q.parts <+: Path.withoutDots init) (t : Tree) :
    KeepsFile p t (t.delete q) := by
  have hsame := (sameOutside_delete t q fun _ hnames => eq_parts_of_names hnames hfolder hdots).2
  refine .of_folders habsolute (HoldsFile.congr (hsame _ (hway _ List.prefix_rfl))) fun init hinit hthere => ?_
  rw [hsame _ (hway init hinit), hthere]

end Tree

/-- A path leads to its place in some tree. -/
theorem Path.not_misses_self {p : Path} (habsolute : p.isAbsolute) :
    ¬ p.Misses (Path.withoutDots p.parts) := by
  intro hmisses
  obtain ⟨t, hnames⟩ := Tree.exists_names_eq habsolute
  exact hmisses t _ hnames rfl

end Userscript
