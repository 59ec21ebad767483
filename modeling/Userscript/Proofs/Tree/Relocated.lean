import Mathlib.Data.List.Forall2
import Userscript.Proofs.Tree.Alike
import Userscript.Proofs.Tree.Writable

/-!
# Trees with a temporary folder of another name

Two trees that are alike but for some places may have a temporary folder each, at different paths. They are
still alike without the folders, and the folders hold the same files. Writing a file into both folders, or the
same file elsewhere, keeps them so, and once the folders are removed the trees are alike again.

## Main definitions

* `Path.Direct` — a path leads where its parts say
* `Tree.Relocated` — two trees are alike but for some places and for the path of a folder
* `Tree.SameFile` — two files that are written have the same name in two folders, or are the same

## Main results

* `Relocated.of_isFree` — two folders that have just been made
* `Relocated.writeAll` — files are written into both trees
* `Relocated.readText_eq` — what is read of a file in the folders
-/

namespace Userscript

/-- A path leads to the place that its parts say, and this is not the top. -/
structure Path.Direct (p : Path) : Prop where
  absolute : p.isAbsolute
  dots_not_mem : ".." ∉ p.parts
  named : p.parts ≠ []

namespace Tree

variable {t t' u u' : Tree} {stale stale' : List String → Prop} {folder folder' p : Path} {name : String}
  {names rest : List String} {content : Bytes} {stamp stamp' : Int}

theorem IsFree.direct (h : t.IsFree p) : p.Direct := ⟨h.absolute, h.dots_not_mem, h.parts_ne_nil⟩

theorem IsFree.takesFolder (h : t.IsFree p) : t.TakesFolder p :=
  ⟨h.absolute, h.dots_not_mem, by simp [h.nothing], h.parent⟩

theorem shapeAt_eq_folder_iff : t.shapeAt names = some none ↔ t.faceAt names = some .folder := by
  unfold shapeAt
  cases t.faceAt names with
  | none => simp
  | some face => cases face <;> simp [Face.content?]

/-- The same stands in all places of two trees. -/
def SameFaces (t u : Tree) : Prop := u.here = t.here ∧ ∀ names, u.faceAt names = t.faceAt names

theorem Alike.of_sameFaces (h : Alike stale t t') (hu : SameFaces t u) (hu' : SameFaces t' u') :
    Alike stale u u' where
  here := by rw [hu'.1, h.here, hu.1]
  folder names := by rw [hu'.2, hu.2, h.folder]
  shape names hnames := by
    have hshape := h.shape names hnames
    unfold shapeAt at hshape ⊢
    rw [hu'.2, hu.2, hshape]

/-! ### Without a folder -/

section delete

variable (hfolder : folder.Direct)

include hfolder

theorem sameOutside_delete_direct (t : Tree) : SameOutside folder.parts t (t.delete folder) :=
  sameOutside_delete t folder fun _ hnames =>
    eq_parts_of_names hnames hfolder.absolute hfolder.dots_not_mem

theorem faceAt_delete (hthere : t.faceAt folder.parts = some .folder) (hpre : folder.parts <+: names) :
    (t.delete folder).faceAt names = none := by
  rw [faceAt, delete, names_of_faceAt hfolder.absolute hfolder.dots_not_mem hthere]
  dsimp only
  rw [Node.at?_remove hfolder.named hpre]
  rfl

/-- What has been done in a folder is gone with it. -/
theorem sameFaces_delete (h : SameOutside folder.parts t u) (ht : t.faceAt folder.parts = some .folder)
    (hu : u.faceAt folder.parts = some .folder) : SameFaces (t.delete folder) (u.delete folder) := by
  refine ⟨by rw [here_delete, here_delete, h.1], fun names => ?_⟩
  by_cases hpre : folder.parts <+: names
  · rw [faceAt_delete hfolder ht hpre, faceAt_delete hfolder hu hpre]
  · rw [(sameOutside_delete_direct hfolder t).2 names hpre, (sameOutside_delete_direct hfolder u).2 names hpre,
      h.2 names hpre]

/-- A path that does not lead into a folder leads to the same without it. -/
theorem names_delete (hp : p.ClearOf (folder.parts <+: ·)) (t : Tree) : (t.delete folder).names p = t.names p := by
  have habsolute : p.isAbsolute := hp.absolute
  rw [names_eq_foldlM, names_eq_foldlM, here_delete, Path.join, if_pos habsolute]
  refine Alike.foldlM_enter_eq fun init part inner hpre hinner => ?_
  have hinit : init <+: p.parts := (List.prefix_append init [part]).trans hpre
  have hinner : inner = [] ++ init :=
    eq_append_of_foldlM_enter hinner fun hmem => hp.dots_not_mem (hinit.subset hmem)
  rw [hinner, List.nil_append, shapeAt, shapeAt,
    (sameOutside_delete_direct hfolder t).2 init (hp.not_stale init hinit)]

/-- A file that does not stand in a folder is written alike with and without it. -/
theorem writeFile_delete (hp : p.ClearOf (folder.parts <+: ·)) (hthere : t.faceAt folder.parts = some .folder)
    (content : Bytes) (stamp : Int) :
    EndsAlike (fun u v => u.here = t.here ∧ SameFaces v (u.delete folder) ∧
        ∀ rest, u.faceAt (folder.parts ++ rest) = t.faceAt (folder.parts ++ rest))
      (t.writeFile p content stamp) ((t.delete folder).writeFile p content stamp) := by
  have hsame := names_delete hfolder hp t
  have hout := sameOutside_delete_direct hfolder t
  cases hnames : t.names p with
  | error obstacle =>
    rw [hnames] at hsame
    cases obstacle <;> simp only [writeFile, hnames, hsame] <;> exact .error _
  | ok names =>
    rw [hnames] at hsame
    obtain rfl := eq_parts_of_names hnames hp.absolute hp.dots_not_mem
    have hnot : ¬ folder.parts <+: p.parts := hp.not_stale _ List.prefix_rfl
    by_cases hplace : t.faceAt p.parts = some .folder
    · obtain ⟨contents, hcontents⟩ := faceAt_eq_folder_iff.1 hplace
      obtain ⟨contents', hcontents'⟩ := faceAt_eq_folder_iff.1 ((hout.2 _ hnot).trans hplace)
      simp only [writeFile, hnames, hsame, hcontents, hcontents']
      exact .error _
    · obtain ⟨u, hu⟩ := exists_writeFile hnames hplace content stamp
      obtain ⟨v, hv⟩ := exists_writeFile hsame (by rwa [hout.2 _ hnot]) content stamp
      obtain ⟨_, hplace', hhere, hface, -, hother⟩ := faceAt_writeFile hu
      obtain ⟨_, hplace'', hhere', hface', -, hother'⟩ := faceAt_writeFile hv
      cases hnames.symm.trans hplace'
      cases hsame.symm.trans hplace''
      have hne {other : List String} (hpre : folder.parts <+: other) : other ≠ p.parts := fun heq =>
        hnot (heq ▸ hpre)
      have hstays : u.faceAt folder.parts = some .folder := (hother _ (hne List.prefix_rfl)).trans hthere
      rw [hu, hv]
      refine .ok ⟨hhere, ⟨by rw [here_delete, hhere, hhere', here_delete], fun other => ?_⟩, fun rest => ?_⟩
      · by_cases hpre : folder.parts <+: other
        · rw [faceAt_delete hfolder hstays hpre, hother' _ (hne hpre), faceAt_delete hfolder hthere hpre]
        · rw [(sameOutside_delete_direct hfolder u).2 other hpre]
          by_cases heq : other = p.parts
          · rw [heq, hface, hface']
          · rw [hother other heq, hother' other heq, hout.2 other hpre]
      · exact hother _ (hne (List.prefix_append _ _))

end delete

/-- A new folder that is removed leaves the tree as it was. -/
theorem sameFaces_temporary (h : t.IsFree folder) : SameFaces t ((t.withEmpty folder).delete folder) := by
  have hmade := sameOutside_withEmpty h.takesFolder
  have hremoved := sameOutside_delete_direct h.direct (t.withEmpty folder)
  refine ⟨hremoved.1.trans hmade.1, fun names => ?_⟩
  by_cases hpre : folder.parts <+: names
  · rw [faceAt_delete h.direct (faceAt_withEmpty_self t folder) hpre]
    cases hface : t.faceAt names with
    | none => rfl
    | some face => exact absurd hpre (h.not_prefix hface)
  · rw [hremoved.2 names hpre, hmade.2 names hpre]

/-! ### Two folders -/

/-- Two trees have a temporary folder each. Without the folders they are alike but for some places, and the
folders hold the same files. -/
structure Relocated (stale : List String → Prop) (folder folder' : Path) (t t' : Tree) : Prop where
  outside : (t.delete folder).Alike stale (t'.delete folder')
  inside : ∀ rest, t'.shapeAt (folder'.parts ++ rest) = t.shapeAt (folder.parts ++ rest)
  there : t.faceAt folder.parts = some .folder
  flat : ∀ rest, rest ≠ [] → t.faceAt (folder.parts ++ rest) ≠ some .folder

/-- Two files that are written have the same name in two folders, or are the same and in neither of them. They
have the same content. -/
inductive SameFile (folder folder' : Path) : Path × Bytes → Path × Bytes → Prop
  | inside {name : String} {content : Bytes} : Path.IsName name →
    SameFile folder folder' (folder.under name, content) (folder'.under name, content)
  | outside {p : Path} {content : Bytes} :
    p.ClearOf (fun place => folder.parts <+: place ∨ folder'.parts <+: place) →
      SameFile folder folder' (p, content) (p, content)

namespace Relocated

theorem mono (h : Relocated stale folder folder' t t') (hsub : ∀ place, stale place → stale' place) :
    Relocated stale' folder folder' t t' :=
  { h with outside := h.outside.mono hsub }

/-- Two folders that have just been made in trees that are alike. -/
theorem of_isFree (h : Alike stale t t') (hfree : t.IsFree folder) (hfree' : t'.IsFree folder') :
    Relocated stale folder folder' (t.withEmpty folder) (t'.withEmpty folder') where
  outside := h.of_sameFaces (sameFaces_temporary hfree) (sameFaces_temporary hfree')
  inside rest := by
    cases rest with
    | nil => simp only [List.append_nil, shapeAt, faceAt_withEmpty_self]
    | cons part rest =>
      have hbelow (t : Tree) (p : Path) : (t.withEmpty p).faceAt (p.parts ++ part :: rest) = none :=
        faceAt_withEmpty_below t (List.prefix_append _ _) (by simp)
      rw [shapeAt, shapeAt, hbelow, hbelow]
  there := faceAt_withEmpty_self t folder
  flat rest hrest := by
    rw [faceAt_withEmpty_below t (List.prefix_append _ _) (by simpa using hrest)]
    simp

theorem there' (h : Relocated stale folder folder' t t') : t'.faceAt folder'.parts = some .folder := by
  have hinside := h.inside []
  rw [List.append_nil, List.append_nil, shapeAt_eq_folder_iff.2 h.there] at hinside
  exact shapeAt_eq_folder_iff.1 hinside

theorem flat' (h : Relocated stale folder folder' t t') (hrest : rest ≠ []) :
    t'.faceAt (folder'.parts ++ rest) ≠ some .folder := by
  rw [ne_eq, ← shapeAt_eq_folder_iff, h.inside rest, shapeAt_eq_folder_iff]
  exact h.flat rest hrest

/-! ### Reading and writing -/

section names

variable (hname : Path.IsName name)

include hname

/-- What becomes of a folder when a file is written into it. -/
theorem exists_writeFile_under (hfolder : folder.Direct) (hthere : t.faceAt folder.parts = some .folder)
    (hflat : t.faceAt (folder.parts ++ [name]) ≠ some .folder) (content : Bytes) (stamp : Int) :
    ∃ u, t.writeFile (folder.under name) content stamp = .ok u ∧ u.here = t.here ∧
      SameFaces (t.delete folder) (u.delete folder) ∧ u.faceAt folder.parts = some .folder ∧
      ∀ rest, u.shapeAt (folder.parts ++ rest) =
        if rest = [name] then some (some content) else t.shapeAt (folder.parts ++ rest) := by
  have hnames := names_under folder hfolder.absolute hfolder.dots_not_mem hthere hname
  obtain ⟨u, hu⟩ := exists_writeFile hnames hflat content stamp
  obtain ⟨_, hplace, hhere, hface, -, hother⟩ := faceAt_writeFile hu
  cases hnames.symm.trans hplace
  have hstays : u.faceAt folder.parts = some .folder := (hother _ (by simp)).trans hthere
  refine ⟨u, hu, hhere, sameFaces_delete hfolder ⟨hhere, fun names hnot => hother names ?_⟩ hthere hstays, hstays,
    fun rest => ?_⟩
  · rintro rfl
    exact hnot (List.prefix_append _ _)
  · split
    · next heq =>
      rw [heq, shapeAt, hface]
      rfl
    · next hne => rw [shapeAt, shapeAt, hother _ fun heq => hne (List.append_cancel_left heq)]

variable (hfolder : folder.Direct) (hfolder' : folder'.Direct) (h : Relocated stale folder folder' t t')

include hfolder hfolder' h

/-- A file is written into both folders. -/
theorem writeFile_inside (content : Bytes) (stamp stamp' : Int) :
    ∃ u u', t.writeFile (folder.under name) content stamp = .ok u ∧
      t'.writeFile (folder'.under name) content stamp' = .ok u' ∧ u.here = t.here ∧
      Relocated stale folder folder' u u' := by
  obtain ⟨u, hu, hhere, hout, hthere, hshape⟩ :=
    exists_writeFile_under hname hfolder h.there (h.flat _ (by simp)) content stamp
  obtain ⟨u', hu', -, hout', -, hshape'⟩ :=
    exists_writeFile_under hname hfolder' h.there' (h.flat' (by simp)) content stamp'
  refine ⟨u, u', hu, hu', hhere, h.outside.of_sameFaces hout hout', fun rest => ?_, hthere, fun rest hrest => ?_⟩
  · rw [hshape, hshape', h.inside]
  · rw [ne_eq, ← shapeAt_eq_folder_iff, hshape]
    split
    · simp
    · exact shapeAt_eq_folder_iff.not.2 (h.flat rest hrest)

/-- The same files are there in both folders. -/
theorem has_eq : t'.has (folder'.under name) = t.has (folder.under name) := by
  have hnames := names_under folder hfolder.absolute hfolder.dots_not_mem h.there hname
  have hnames' := names_under folder' hfolder'.absolute hfolder'.dots_not_mem h.there' hname
  have hshape := congrArg Option.isSome (h.inside [name])
  simpa only [has, find?, hnames, hnames', shapeAt, faceAt, Option.isSome_map] using hshape

/-- A file in both folders is read alike. -/
theorem read_eq (hhas : t.has (folder.under name)) : t'.read (folder'.under name) = t.read (folder.under name) := by
  have hnames := names_under folder hfolder.absolute hfolder.dots_not_mem h.there hname
  have hnames' := names_under folder' hfolder'.absolute hfolder'.dots_not_mem h.there' hname
  -- What stands there is a file, as there are no folders in the folder.
  obtain ⟨content, hshape⟩ : ∃ content, t.shapeAt (folder.parts ++ [name]) = some (some content) := by
    cases hshape : t.shapeAt (folder.parts ++ [name]) with
    | none =>
      rw [shapeAt, faceAt, Option.map_eq_none_iff, Option.map_eq_none_iff] at hshape
      simp [has, find?, hnames, hshape] at hhas
    | some found =>
      cases found with
      | none => exact absurd (shapeAt_eq_folder_iff.1 hshape) (h.flat _ (by simp))
      | some content => exact ⟨content, rfl⟩
  have hread {t : Tree} {p : Path} {names : List String} (hnames : t.names p = .ok names)
      (hshape : t.shapeAt names = some (some content)) : t.read p = .ok content := by
    obtain ⟨face, hface, hcontent⟩ := Option.map_eq_some_iff.1 hshape
    cases face with
    | folder => cases hcontent
    | file content' stamp =>
      cases hcontent
      exact read_eq_ok_iff.2 ⟨names, stamp, hnames, hface⟩
  rw [hread hnames hshape, hread hnames' ((h.inside [name]).trans hshape)]

theorem readText_eq (hhas : t.has (folder.under name)) :
    t'.readText (folder'.under name) = t.readText (folder.under name) := by
  rw [readText, readText, h.read_eq hname hfolder hfolder' hhas]

end names

section write

variable (hfolder : folder.Direct) (hfolder' : folder'.Direct)

include hfolder hfolder'

/-- The same file is written elsewhere. -/
theorem writeFile_outside (h : Relocated stale folder folder' t t')
    (hp : p.ClearOf fun place => folder.parts <+: place ∨ folder'.parts <+: place)
    (hbypasses : ∀ place, stale place → p.Bypasses t.here place) (content : Bytes) (stamp stamp' : Int) :
    EndsAlike (fun u u' => u.here = t.here ∧ Relocated stale folder folder' u u')
      (t.writeFile p content stamp) (t'.writeFile p content stamp') := by
  have hwith := writeFile_delete hfolder (hp.mono fun _ => .inl) h.there content stamp
  have hwith' := writeFile_delete hfolder' (hp.mono fun _ => .inr) h.there' content stamp'
  rw [← here_delete t folder] at hbypasses
  have hout : EndsAlike (Alike stale) ((t.delete folder).writeFile p content stamp)
      ((t'.delete folder').writeFile p content stamp') :=
    h.outside.writeFile hbypasses (.inl rfl) (fun _ _ _ => .inl) stamp stamp'
  generalize t.writeFile p content stamp = a, t'.writeFile p content stamp' = a',
    (t.delete folder).writeFile p content stamp = b, (t'.delete folder').writeFile p content stamp' = b'
    at hwith hwith' hout ⊢
  cases hwith with
  | error fault =>
    cases hout
    cases hwith'
    exact .error fault
  | ok hu =>
    cases hout with
    | ok halike =>
      cases hwith' with
      | ok hu' =>
        obtain ⟨hhere, hfaces, hinside⟩ := hu
        obtain ⟨-, hfaces', hinside'⟩ := hu'
        refine .ok ⟨hhere, halike.of_sameFaces hfaces hfaces', fun rest => ?_, ?_, fun rest hrest => ?_⟩
        · have hsame := h.inside rest
          unfold shapeAt at hsame ⊢
          rw [hinside, hinside', hsame]
        · have hstays := hinside []
          rwa [List.append_nil, h.there] at hstays
        · rw [hinside]
          exact h.flat rest hrest

/-- Files are written into both trees, or into none from the same one on. -/
theorem writeAll {files files' : List (Path × Bytes)} (h : Relocated stale folder folder' t t')
    (hfiles : List.Forall₂ (SameFile folder folder') files files')
    (hbypasses : ∀ file ∈ files, ∀ place, stale place → file.1.Bypasses t.here place) (stamp stamp' : Int) :
    Relocated stale folder folder' (Tool.writeAll stamp t files).1 (Tool.writeAll stamp' t' files').1 ∧
      (Tool.writeAll stamp' t' files').2 = (Tool.writeAll stamp t files).2 := by
  induction hfiles generalizing t t' with
  | nil => exact ⟨h, rfl⟩
  | cons hfile _ ih =>
    obtain ⟨hfirst, hrest⟩ := List.forall_mem_cons.1 hbypasses
    unfold Tool.writeAll
    cases hfile with
    | inside hname =>
      obtain ⟨u, u', hu, hu', hhere, hrelocated⟩ := h.writeFile_inside hname hfolder hfolder' _ stamp stamp'
      dsimp only
      rw [hu, hu']
      exact ih hrelocated (hhere ▸ hrest)
    | @outside p content hp =>
      have hends := h.writeFile_outside hfolder hfolder' hp hfirst content stamp stamp'
      dsimp only
      generalize t.writeFile p content stamp = a, t'.writeFile p content stamp' = a' at hends ⊢
      cases hends with
      | error fault => exact ⟨h, rfl⟩
      | ok hu => exact ih hu.2 (hu.1 ▸ hrest)

end write

end Relocated

end Tree

end Userscript
