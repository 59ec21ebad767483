import Userscript.Module.Discovery
import Userscript.Proofs.Tree.Faces
import Userscript.Tool.Program
import Userscript.Tree.Reading

/-!
# Trees that are alike but for some files

Two trees are alike but for some places if they hold the same folders, and the same files everywhere
else; when a file was written does not matter. A path that does not go through one of the places leads to
the same in both, and what is done to both trees alike leaves them alike.

## Main definitions

* `Tree.Alike` — two trees are alike but for some places
* `Path.Bypasses` — a path does not go through a place
* `Path.ClearOf` — a path neither goes through one of some places nor leads to one
* `Path.StandsClear` — a path does not go through one of some places
* `Path.places` — the places of some names in a folder
* `EndsAlike` — two results are related values, or the same error

## Main results

* `Alike.names_eq`, `Alike.read_eq` — paths lead to the same and files hold the same
* `Alike.writeFile`, `Alike.writeAll`, `Alike.makeFolders`, `Alike.put` — changes of both
  trees
-/

namespace Userscript

/-- The content of a file. A folder has none. -/
def Face.content? : Face → Option Bytes
  | .folder => none
  | .file content _ => some content

/-- Two results are values that are related, or the same error. -/
inductive EndsAlike {ε α : Type} (rel : α → α → Prop) : Except ε α → Except ε α → Prop
  | ok {a a' : α} : rel a a' → EndsAlike rel (.ok a) (.ok a')
  | error (e : ε) : EndsAlike rel (.error e) (.error e)

/-- What two trees hold in a place is the same, but for what a folder holds and for the stamp of a file. -/
inductive SameShape : Option Node → Option Node → Prop
  | nothing : SameShape none none
  | folder (contents contents' : List (String × Node)) :
    SameShape (some (.folder contents)) (some (.folder contents'))
  | file (content : Bytes) (stamp stamp' : Int) :
    SameShape (some (.file content stamp)) (some (.file content stamp'))

namespace Path

variable {p here : Path} {stale : List String → Prop} {place names : List String} {name : String}

/-- A path that is followed from `here` does not go through a place, whatever tree it is followed in. It
may lead there. -/
def Bypasses (p here : Path) (place : List String) : Prop :=
  ∀ init part, init ++ [part] <+: (here.join p).parts → Path.Misses ⟨.slash, init⟩ place

/-- As its parts say, a path neither goes through one of some places nor leads to one. -/
structure ClearOf (stale : List String → Prop) (p : Path) : Prop where
  absolute : p.isAbsolute
  dots_not_mem : ".." ∉ p.parts
  not_stale : ∀ names, names <+: p.parts → ¬ stale names

/-- The folder of a path is clear of some places. The path may lead to one of them. -/
structure StandsClear (stale : List String → Prop) (p : Path) : Prop where
  parent : p.parent.ClearOf stale
  dots_not_mem : ".." ∉ p.parts

theorem ClearOf.parent (h : p.ClearOf stale) : p.parent.ClearOf stale where
  absolute := h.absolute
  dots_not_mem hmem := h.dots_not_mem (List.dropLast_subset _ hmem)
  not_stale names hnames := h.not_stale names (hnames.trans (List.dropLast_prefix _))

theorem ClearOf.under (h : p.ClearOf stale) (hname : name ≠ "..") (hplace : ¬ stale (p.parts ++ [name])) :
    (p.under name).ClearOf stale where
  absolute := h.absolute
  dots_not_mem := by simpa [Path.under, h.dots_not_mem] using hname.symm
  not_stale names hnames := by
    rcases List.prefix_concat_iff.1 hnames with rfl | hnames
    · exact hplace
    · exact h.not_stale names hnames

theorem ClearOf.mono {stale' : List String → Prop} (h : p.ClearOf stale)
    (hsub : ∀ place, stale' place → stale place) : p.ClearOf stale' :=
  ⟨h.absolute, h.dots_not_mem, fun names hnames hstale => h.not_stale names hnames (hsub _ hstale)⟩

/-- A path into a folder that is clear of some places goes through none of them. -/
theorem ClearOf.bypasses_of_parent (h : p.parent.ClearOf stale) (hplace : stale place) :
    p.Bypasses here place := by
  intro init part hpre
  have habsolute : p.isAbsolute := h.absolute
  rw [join, if_pos habsolute] at hpre
  have hinit : init <+: p.parts.dropLast := by
    obtain ⟨rest, hrest⟩ := hpre
    rw [← hrest, List.append_assoc, List.dropLast_append_of_ne_nil (by simp)]
    exact List.prefix_append _ _
  refine misses_of_parts_ne rfl (fun hdots => h.dots_not_mem (hinit.subset hdots)) ?_
  rintro rfl
  exact h.not_stale init hinit hplace

theorem ClearOf.bypasses (h : p.ClearOf stale) (hplace : stale place) : p.Bypasses here place :=
  h.parent.bypasses_of_parent hplace

end Path

namespace Tree

variable {t t' t'' u : Tree} {stale stale' : List String → Prop} {p : Path} {names place : List String}
  {content content' : Bytes} {stamp stamp' : Int}

/-- What stands in a place of a tree, with the content of a file but not its stamp. -/
def shapeAt (t : Tree) (names : List String) : Option (Option Bytes) := (t.faceAt names).map Face.content?

theorem sameShape_of_shapeAt (h : t'.shapeAt names = t.shapeAt names) :
    SameShape (Node.at? names t.root) (Node.at? names t'.root) := by
  unfold shapeAt faceAt at h
  rcases hn : Node.at? names t.root with none | (_ | _) <;>
    rcases hn' : Node.at? names t'.root with none | (_ | _) <;> rw [hn, hn'] at h <;> cases h
  · exact .nothing
  · exact .file _ _ _
  · exact .folder _ _

/-- Two trees hold the same, but for the stamps of files and but for the files in some places. -/
structure Alike (stale : List String → Prop) (t t' : Tree) : Prop where
  here : t'.here = t.here
  folder : ∀ names, t'.faceAt names = some .folder ↔ t.faceAt names = some .folder
  shape : ∀ names, ¬ stale names → t'.shapeAt names = t.shapeAt names

theorem here_writeAll (stamp : Int) (t : Tree) (files : List (Path × Bytes)) :
    (Tool.writeAll stamp t files).1.here = t.here := by
  induction files generalizing t with
  | nil => rfl
  | cons file files ih =>
    unfold Tool.writeAll
    split
    · next u hu =>
      obtain ⟨-, -, hhere, -⟩ := faceAt_writeFile hu
      rw [ih, hhere]
    · rfl

namespace Alike

theorem refl (stale : List String → Prop) (t : Tree) : Alike stale t t := ⟨rfl, fun _ => .rfl, fun _ _ => rfl⟩

theorem symm (h : Alike stale t t') : Alike stale t' t :=
  ⟨h.here.symm, fun names => (h.folder names).symm, fun names hnames => (h.shape names hnames).symm⟩

theorem trans (h : Alike stale t t') (h' : Alike stale t' t'') : Alike stale t t'' where
  here := h'.here.trans h.here
  folder names := (h'.folder names).trans (h.folder names)
  shape names hnames := (h'.shape names hnames).trans (h.shape names hnames)

theorem mono (h : Alike stale t t') (hsub : ∀ place, stale place → stale' place) : Alike stale' t t' :=
  ⟨h.here, h.folder, fun names hnames => h.shape names fun hstale => hnames (hsub _ hstale)⟩

/-- A file that is written in one of the places is nothing that trees are told apart by. -/
theorem of_writeFile (h : t.writeFile p content stamp = .ok u)
    (hstale : ∀ names, t.names p = .ok names → stale names) : Alike stale t u := by
  obtain ⟨names, hnames, hhere, hface, hfolder, hother⟩ := faceAt_writeFile h
  refine ⟨hhere, fun other => ?_, fun other hnot => ?_⟩
  · by_cases heq : other = names
    · subst heq
      rw [hface]
      simp [hfolder]
    · rw [hother other heq]
  · have hne : other ≠ names := fun heq => hnot (heq ▸ hstale names hnames)
    rw [shapeAt, shapeAt, hother other hne]

/-! ### Following paths -/

theorem enter_eq_of_shape (h : t'.shapeAt names = t.shapeAt names) (part : String) :
    t'.enter names part = t.enter names part := by
  have hshape := sameShape_of_shapeAt h
  unfold enter
  generalize Node.at? names t.root = n, Node.at? names t'.root = n' at hshape ⊢
  cases hshape <;> rfl

/-- Parts are entered alike if the folders on the way are entered alike. -/
theorem foldlM_enter_eq {parts start : List String}
    (h : ∀ init part folder, init ++ [part] <+: parts → init.foldlM t.enter start = .ok folder →
      t'.shapeAt folder = t.shapeAt folder) :
    parts.foldlM t'.enter start = parts.foldlM t.enter start := by
  induction parts generalizing start with
  | nil => rfl
  | cons part parts ih =>
    have hstart : t'.enter start part = t.enter start part :=
      enter_eq_of_shape (h [] part start (by simp) rfl) part
    rw [List.foldlM_cons, List.foldlM_cons, hstart]
    cases hentered : t.enter start part with
    | error obstacle => rfl
    | ok folder =>
      refine ih fun init last inner hpre hinner => h (part :: init) last inner ?_ ?_
      · exact List.cons_prefix_cons.2 ⟨rfl, hpre⟩
      · exact foldlM_enter_cons_iff.2 ⟨folder, hentered, hinner⟩

theorem exists_folder (h : Alike stale t t') {n : Node} (hn : Node.at? names t.root = some n)
    (hfolder : n.isFolder) : ∃ contents, Node.at? names t'.root = some (.folder contents) := by
  refine faceAt_eq_folder_iff.1 ((h.folder _).2 (faceAt_eq_folder_iff.2 ?_))
  cases n with
  | folder contents => exact ⟨contents, hn⟩
  | file content stamp => cases hfolder

/-- A file that stands in none of the places is a file in both trees. -/
theorem exists_file (h : Alike stale t t') {n : Node} (hn : Node.at? names t.root = some n) (hfile : n.isFile)
    (hplace : ¬ stale names) : ∃ content stamp, Node.at? names t'.root = some (.file content stamp) := by
  have hshape := sameShape_of_shapeAt (h.shape names hplace)
  rw [hn] at hshape
  cases n with
  | folder contents => cases hfile
  | file content stamp =>
    generalize Node.at? names t'.root = found at hshape ⊢
    cases hshape with
    | file _ _ stamp' => exact ⟨content, stamp', rfl⟩

/-- A path that does not go through the places leads to the same in both trees. -/
theorem names_eq (h : Alike stale t t') (hp : ∀ place, stale place → p.Bypasses t.here place) :
    t'.names p = t.names p := by
  rw [names_eq_foldlM, names_eq_foldlM, h.here]
  refine foldlM_enter_eq fun init part folder hpre hfolder => h.shape folder fun hstale => ?_
  have hnames : t.names ⟨.slash, init⟩ = .ok folder := hfolder
  exact hp folder hstale init part hpre t folder hnames rfl

/-- Where a path leads that is clear of the places, the same stands in both trees. -/
theorem shape_eq (h : Alike stale t t') (hp : p.ClearOf stale) (hnames : t.names p = .ok names) :
    t'.shapeAt names = t.shapeAt names := by
  obtain rfl := eq_parts_of_names hnames hp.absolute hp.dots_not_mem
  exact h.shape _ (hp.not_stale _ List.prefix_rfl)

theorem read_eq (h : Alike stale t t') (hp : p.ClearOf stale) : t'.read p = t.read p := by
  unfold read
  rw [h.names_eq fun place => hp.bypasses]
  cases hnames : t.names p with
  | error obstacle => cases obstacle <;> rfl
  | ok names =>
    have hshape := sameShape_of_shapeAt (h.shape_eq hp hnames)
    dsimp only
    generalize Node.at? names t.root = n, Node.at? names t'.root = n' at hshape ⊢
    cases hshape <;> rfl

theorem readText_eq (h : Alike stale t t') (hp : p.ClearOf stale) : t'.readText p = t.readText p := by
  rw [readText, readText, h.read_eq hp]

theorem find?_shape_eq (h : Alike stale t t') (hp : p.ClearOf stale) :
    (t'.find? p).map (Face.content? ·.face) = (t.find? p).map (Face.content? ·.face) := by
  unfold find?
  rw [h.names_eq fun place => hp.bypasses]
  cases hnames : t.names p with
  | error obstacle => rfl
  | ok names => simpa [shapeAt, faceAt, Function.comp_def] using h.shape_eq hp hnames

theorem has_eq (h : Alike stale t t') (hp : p.ClearOf stale) : t'.has p = t.has p := by
  have hshape := congrArg Option.isSome (h.find?_shape_eq hp)
  rwa [Option.isSome_map, Option.isSome_map] at hshape

theorem hasFolder_eq (h : Alike stale t t') (hp : p.ClearOf stale) : t'.hasFolder p = t.hasFolder p := by
  have hfolder (n : Node) : n.isFolder = n.face.content?.isNone := by cases n <;> rfl
  have hshape := congrArg (Option.any Option.isNone) (h.find?_shape_eq hp)
  rw [Option.any_map, Option.any_map] at hshape
  simpa only [hasFolder, Function.comp_def, ← hfolder] using hshape

theorem hasFile_eq (h : Alike stale t t') (hp : p.ClearOf stale) : t'.hasFile p = t.hasFile p := by
  have hfile (n : Node) : n.isFile = n.face.content?.isSome := by cases n <;> rfl
  have hshape := congrArg (Option.any Option.isSome) (h.find?_shape_eq hp)
  rw [Option.any_map, Option.any_map] at hshape
  simpa only [hasFile, Function.comp_def, ← hfile] using hshape

/-! ### Changing both trees -/

/-- A file that is written to both trees is there in both. If it has not the same content, it stands in
one of the places that are left out. -/
theorem writeFile (h : Alike stale t t') (hp : ∀ place, stale place → p.Bypasses t.here place)
    (hcontent : content' = content ∨ ∀ place, t.names p = .ok place → stale' place)
    (hsub : ∀ names, t.names p = .ok names → ∀ place, stale place → stale' place ∨ place = names)
    (stamp stamp' : Int) :
    EndsAlike (Alike stale') (t.writeFile p content stamp) (t'.writeFile p content' stamp') := by
  have hnames' := h.names_eq hp
  cases hnames : t.names p with
  | error obstacle =>
    rw [hnames] at hnames'
    cases obstacle <;> simp only [Tree.writeFile, hnames, hnames'] <;> exact .error _
  | ok names =>
    rw [hnames] at hnames'
    by_cases hfolder : t.faceAt names = some .folder
    · -- Neither tree lets a file take the place of a folder.
      obtain ⟨contents, hcontents⟩ := faceAt_eq_folder_iff.1 hfolder
      obtain ⟨contents', hcontents'⟩ := faceAt_eq_folder_iff.1 ((h.folder names).2 hfolder)
      simp only [Tree.writeFile, hnames, hnames', hcontents, hcontents']
      exact .error _
    · obtain ⟨u, hu⟩ := exists_writeFile hnames hfolder content stamp
      obtain ⟨u', hu'⟩ := exists_writeFile hnames' (mt (h.folder names).1 hfolder) content' stamp'
      rw [hu, hu']
      obtain ⟨_, hplace, hhere, hface, -, hother⟩ := faceAt_writeFile hu
      obtain ⟨_, hplace', hhere', hface', -, hother'⟩ := faceAt_writeFile hu'
      cases hnames.symm.trans hplace
      cases hnames'.symm.trans hplace'
      refine .ok ⟨by rw [hhere', hhere, h.here], fun other => ?_, fun other hstale => ?_⟩
      · by_cases heq : other = names
        · rw [heq, hface, hface']
          simp
        · rw [hother other heq, hother' other heq, h.folder]
      · by_cases heq : other = names
        · obtain rfl : content' = content := hcontent.resolve_right fun hall => hstale (heq ▸ hall names hnames)
          rw [heq, shapeAt, shapeAt, hface, hface']
          rfl
        · rw [shapeAt, shapeAt, hother other heq, hother' other heq]
          refine h.shape other fun hother => ?_
          exact (hsub names hnames other hother).elim hstale heq

theorem writeAll (h : Alike stale t t') {files : List (Path × Bytes)}
    (hfiles : ∀ file ∈ files, ∀ place, stale place → file.1.Bypasses t.here place) (stamp stamp' : Int) :
    Alike stale (Tool.writeAll stamp t files).1 (Tool.writeAll stamp' t' files).1 ∧
      (Tool.writeAll stamp' t' files).2 = (Tool.writeAll stamp t files).2 := by
  induction files generalizing t t' with
  | nil => exact ⟨h, rfl⟩
  | cons file files ih =>
    obtain ⟨hfile, hrest⟩ := List.forall_mem_cons.1 hfiles
    have hends : EndsAlike (Alike stale) (t.writeFile file.1 file.2 stamp) (t'.writeFile file.1 file.2 stamp') :=
      h.writeFile hfile (.inl rfl) (fun _ _ _ => .inl) stamp stamp'
    unfold Tool.writeAll
    cases hu : t.writeFile file.1 file.2 stamp <;> cases hu' : t'.writeFile file.1 file.2 stamp' <;>
      rw [hu, hu'] at hends <;> cases hends
    · exact ⟨h, rfl⟩
    · next u u' halike =>
      obtain ⟨-, -, hhere, -⟩ := faceAt_writeFile hu
      exact ih halike (hhere ▸ hrest)

/-- A change that settles what stands in some places and leaves all others as they are keeps trees alike. -/
theorem update {f : Tree → Tree} (h : Alike stale t t') (hhere : ∀ u, (f u).here = u.here)
    (hf : ∀ other, (∃ face, ∀ u, (f u).faceAt other = face) ∨ ∀ u, (f u).faceAt other = u.faceAt other) :
    Alike stale (f t) (f t') where
  here := by rw [hhere, hhere, h.here]
  folder other := by
    rcases hf other with ⟨face, hface⟩ | hsame
    · rw [hface, hface]
    · rw [hsame, hsame, h.folder]
  shape other hstale := by
    rcases hf other with ⟨face, hface⟩ | hsame
    · rw [shapeAt, shapeAt, hface, hface]
    · rw [shapeAt, shapeAt, hsame, hsame]
      exact h.shape other hstale

theorem put (h : Alike stale t t') (new : Node) (names : List String) :
    Alike stale { t with root := Node.put new names t.root } { t' with root := Node.put new names t'.root } := by
  refine h.update (f := fun u => { u with root := Node.put new names u.root }) (fun _ => rfl) fun other => ?_
  by_cases hbelow : names <+: other
  · obtain ⟨rest, rfl⟩ := hbelow
    exact .inl ⟨(Node.at? rest new).map Node.face, fun u => by rw [faceAt, Node.at?_put_append]⟩
  · by_cases habove : other <+: names
    · have hne : other ≠ names := fun heq => hbelow (heq ▸ List.prefix_rfl)
      exact .inl ⟨some .folder, fun u => faceAt_eq_folder_iff.2 (Node.exists_at?_put habove hne)⟩
    · exact .inr fun u => by rw [faceAt, faceAt, Node.at?_put_of_not_prefix hbelow habove]

theorem makeFolder (h : Alike stale t t') (hp : p.ClearOf stale) :
    EndsAlike (Alike stale) (t.makeFolder p) (t'.makeFolder p) := by
  have hnames' := h.names_eq fun place => hp.bypasses
  cases hnames : t.names p with
  | error obstacle =>
    rw [hnames] at hnames'
    cases obstacle <;> simp only [Tree.makeFolder, hnames, hnames'] <;> exact .error _
  | ok names =>
    rw [hnames] at hnames'
    have hshape := sameShape_of_shapeAt (h.shape_eq hp hnames)
    have hput := h.put (.folder []) names
    simp only [Tree.makeFolder, hnames, hnames']
    generalize Node.at? names t.root = n, Node.at? names t'.root = n' at hshape ⊢
    cases hshape with
    | nothing => exact .ok hput
    | folder contents contents' => exact .ok h
    | file content stamp stamp' => exact .error _

theorem after {made made' : Except FileFault Tree} (h : Alike stale t t')
    (hmade : EndsAlike (Alike stale) made made') :
    Alike stale (t.after made).1 (t'.after made').1 ∧ (t'.after made').2 = (t.after made).2 := by
  cases hmade with
  | ok halike => exact ⟨halike, rfl⟩
  | error fault => exact ⟨h, rfl⟩

theorem makeLast (h : Alike stale t t') (hp : p.ClearOf stale) (n : Nat) :
    Alike stale (t.makeLast p n).1 (t'.makeLast p n).1 ∧ (t'.makeLast p n).2 = (t.makeLast p n).2 := by
  -- Where a parent is missing, the folder is made once its parent has been, with one attempt less.
  induction n generalizing p with
  | zero => exact h.after (h.makeFolder hp)
  | succ n ih =>
    have hmade := h.makeFolder hp
    have hparent := ih hp.parent
    unfold Tree.makeLast
    generalize t.makeFolder p = made, t'.makeFolder p = made' at hmade ⊢
    cases hmade with
    | ok halike => exact ⟨halike, rfl⟩
    | error fault =>
      cases fault with
      | missing =>
        rcases hu : t.makeLast p.parent n with ⟨u, fault⟩
        rcases hu' : t'.makeLast p.parent n with ⟨u', fault'⟩
        rw [hu, hu'] at hparent
        dsimp only at hparent
        obtain ⟨halike, rfl⟩ := hparent
        cases fault' with
        | none => exact halike.after (halike.makeFolder hp)
        | some fault => exact ⟨halike, rfl⟩
      | occupied | notFolder | isFolder => exact ⟨h, rfl⟩

theorem makeFolders (h : Alike stale t t') (hp : p.ClearOf stale) :
    Alike stale (t.makeFolders p).1 (t'.makeFolders p).1 ∧ (t'.makeFolders p).2 = (t.makeFolders p).2 :=
  h.makeLast hp _

end Alike

end Tree

/-! ### Places in a folder -/

/-- The places of some names in a folder. -/
def Path.places (folder : Path) (names : List String) (place : List String) : Prop :=
  ∃ name ∈ names, place = folder.parts ++ [name]

namespace Path

variable {root : Path} {names : List String} {name : String}

theorem parent_under (folder : Path) (name : String) : (folder.under name).parent = folder := by
  simp [parent, under]

theorem dots_not_mem_under (hdots : ".." ∉ root.parts) (hname : name ≠ "..") : ".." ∉ (root.under name).parts := by
  simpa [under, hdots] using hname.symm

theorem places_iff {rest : List String} :
    root.places names (root.parts ++ name :: rest) ↔ name ∈ names ∧ rest = [] := by
  unfold places
  constructor
  · rintro ⟨other, hother, heq⟩
    obtain ⟨rfl, rfl⟩ := List.cons.inj (List.append_cancel_left heq)
    exact ⟨hother, rfl⟩
  · rintro ⟨hname, rfl⟩
    exact ⟨name, hname, rfl⟩

section

variable (habsolute : root.isAbsolute) (hdots : ".." ∉ root.parts)

include habsolute hdots

/-- A folder is clear of the places in it. -/
theorem clearOf_places : root.ClearOf (root.places names) where
  absolute := habsolute
  dots_not_mem := hdots
  not_stale other hother := by
    rintro ⟨name, -, rfl⟩
    have hlength := hother.length_le
    rw [List.length_append, List.length_singleton] at hlength
    omega

theorem standsClear_places (hname : name ≠ "..") :
    (root.under name).StandsClear (root.places names) where
  parent := by
    rw [parent_under]
    exact clearOf_places habsolute hdots
  dots_not_mem := dots_not_mem_under hdots hname

theorem under_clearOf_places (hdot : name ≠ "..") (hname : name ∉ names) :
    (root.under name).ClearOf (root.places names) :=
  (clearOf_places habsolute hdots).under hdot fun hplace => hname (places_iff.1 hplace).1

end

end Path

end Userscript
