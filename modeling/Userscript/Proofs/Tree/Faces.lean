import Userscript.Proofs.Tree.Names

/-!
# What a change of a tree leaves as it is

What stands in the places of a tree is followed through the changes of the tree: a file that is
written changes its own place, folders that are made are new, and a folder that is put in and
removed changes what is in it and below it.

## Main definitions

* `Tree.faceAt` — what stands in a place, apart from what a folder holds
* `Tree.Grows` — folders have been added to a tree
* `Tree.SameOutside` — two trees differ in a folder at most
* `Tree.IsFree` — a folder can be made at a path, where nothing stands

## Main results

* `faceAt_writeFile` — a file that is written changes its own place only
* `grows_makeFolders` — making folders adds folders
* `sameOutside_put`, `sameOutside_delete` — a folder that is put in and removed
* `names_of_folders` — a path leads where it led as long as the folders are there
* `read_of_sameOutside` — a file is read as before whatever has been done in a temporary folder
-/

namespace Userscript

/-- What stands in a place, apart from what a folder holds. -/
inductive Face where
  | folder
  | file (content : Bytes) (stamp : Int)
  deriving DecidableEq

namespace Node

variable {names other rest : List String} {n new : Node}

/-- What a node is, apart from what it holds. -/
def face : Node → Face
  | folder _ => .folder
  | file content stamp => .file content stamp

theorem face_eq_folder_iff : n.face = .folder ↔ ∃ contents, n = folder contents := by
  cases n <;> simp [face]

@[simp] theorem at?_nil (n : Node) : at? [] n = some n := rfl

theorem at?_cons (name : String) (rest : List String) (n : Node) :
    at? (name :: rest) n = (n.entries.get? name).bind (at? rest) := rfl

/-- Nothing stands below a file. -/
theorem at?_file (content : Bytes) (stamp : Int) (h : names ≠ []) : at? names (file content stamp) = none := by
  cases names with
  | nil => exact absurd rfl h
  | cons name rest => rfl

theorem at?_empty (h : names ≠ []) : at? names (folder []) = none := by
  cases names with
  | nil => exact absurd rfl h
  | cons name rest => rfl

/-- What stands below a node that was put in is what stands below it. -/
theorem at?_put_append (names rest : List String) (new n : Node) :
    at? (names ++ rest) (put new names n) = at? rest new := by
  rw [at?_append, at?_put_self, Option.bind_some]

/-- What stands neither below a node that was put in nor on the way to it stays. -/
theorem at?_put_of_not_prefix (h : ¬ names <+: other) (h' : ¬ other <+: names) :
    at? other (put new names n) = at? other n := by
  induction names generalizing other n with
  | nil => exact absurd List.nil_prefix h
  | cons name names ih =>
    cases other with
    | nil => exact absurd List.nil_prefix h'
    | cons first other =>
      rw [put, at?_cons, at?_cons, entries]
      by_cases hfirst : first = name
      · subst hfirst
        rw [Table.get?_set_self, Option.bind_some, ih (by simpa using h) (by simpa using h')]
        cases n.entries.get? first with
        | some child => rfl
        | none =>
          -- Where nothing stood an empty folder has been put, and nothing stands below that.
          exact at?_empty fun hother => h' (by simp [hother])
      · rw [Table.get?_set_of_ne hfirst]

/-- On the way to a node that was put in stand folders. -/
theorem exists_at?_put (h : other <+: names) (hne : other ≠ names) :
    ∃ contents, at? other (put new names n) = some (folder contents) := by
  induction names generalizing other n with
  | nil => exact absurd (List.prefix_nil.1 h) hne
  | cons name names ih =>
    cases other with
    | nil => exact ⟨_, rfl⟩
    | cons first other =>
      obtain ⟨rfl, hother⟩ := List.cons_prefix_cons.1 h
      rw [put, at?_cons, entries, Table.get?_set_self, Option.bind_some]
      exact ih hother fun heq => hne (by rw [heq])

/-- What does not stand below a node that is removed stays, apart from what folders hold. -/
theorem face_at?_remove (h : ¬ names <+: other) :
    (at? other (remove names n)).map face = (at? other n).map face := by
  fun_induction remove names n generalizing other with
  | case1 n => exact absurd List.nil_prefix h
  | case2 name n hfolder =>
    obtain ⟨contents, rfl⟩ : ∃ contents, n = folder contents := by
      cases n with
      | folder contents => exact ⟨contents, rfl⟩
      | file content stamp => cases hfolder
    cases other with
    | nil => rfl
    | cons first other =>
      have hne : first ≠ name := fun heq => h (by simp [heq])
      rw [at?_cons, at?_cons, entries, Table.get?_erase_of_ne hne]
  | case3 name n hfile => rfl
  | case4 name rest n hrest inner hinner ih =>
    cases other with
    | nil =>
      cases n with
      | folder contents => rfl
      | file content stamp => cases hinner
    | cons first other =>
      rw [at?_cons, at?_cons, entries]
      by_cases hfirst : first = name
      · subst hfirst
        rw [Table.get?_set_self, hinner, Option.bind_some, Option.bind_some]
        exact ih fun hpre => h (List.cons_prefix_cons.2 ⟨rfl, hpre⟩)
      · rw [Table.get?_set_of_ne hfirst]
  | case5 name rest n hrest hnone => rfl

/-- Nothing is left in the place of a node that is removed, nor below it. -/
theorem at?_remove (hne : names ≠ []) (h : names <+: other) : at? other (remove names n) = none := by
  fun_induction remove names n generalizing other with
  | case1 n => exact absurd rfl hne
  | case2 name n hfolder =>
    obtain ⟨rest, rfl⟩ := h
    rw [List.singleton_append, at?_cons, entries, Table.get?_erase_self]
    rfl
  | case3 name n hfile =>
    obtain ⟨rest, rfl⟩ := h
    cases n with
    | folder contents => exact absurd rfl hfile
    | file content stamp => exact at?_file content stamp (by simp)
  | case4 name rest n hrest inner hinner ih =>
    obtain ⟨below, rfl⟩ := h
    rw [List.cons_append, at?_cons, entries, Table.get?_set_self, Option.bind_some]
    exact ih hrest (List.prefix_append _ _)
  | case5 name rest n hrest hnone =>
    obtain ⟨below, rfl⟩ := h
    rw [List.cons_append, at?_cons, hnone]
    rfl

end Node

/-- A path lies in a folder, as its parts say. -/
def Path.LiesIn (folder p : Path) : Prop := p.isAbsolute ∧ ".." ∉ p.parts ∧ folder.parts <+: p.parts

/-- A path does not lead to a place, whatever tree it is followed in. -/
def Path.Misses (p : Path) (place : List String) : Prop :=
  ∀ (t : Tree) (names : List String), t.names p = .ok names → names ≠ place

namespace Tree

variable {t t' : Tree} {p : Path} {names other scratch : List String} {new : Node} {content : Bytes}
  {stamp : Int} {result : Except FileFault Tree}

/-- What stands in a place of a tree, apart from what a folder holds. -/
def faceAt (t : Tree) (names : List String) : Option Face := (Node.at? names t.root).map Node.face

theorem faceAt_eq_folder_iff :
    t.faceAt names = some .folder ↔ ∃ contents, Node.at? names t.root = some (.folder contents) := by
  rw [faceAt, Option.map_eq_some_iff]
  constructor
  · rintro ⟨n, hn, hface⟩
    obtain ⟨contents, rfl⟩ := Node.face_eq_folder_iff.1 hface
    exact ⟨contents, hn⟩
  · rintro ⟨contents, hn⟩
    exact ⟨_, hn, rfl⟩

theorem faceAt_eq_file_iff :
    t.faceAt names = some (.file content stamp) ↔ Node.at? names t.root = some (.file content stamp) := by
  rw [faceAt, Option.map_eq_some_iff]
  constructor
  · rintro ⟨n, hn, hface⟩
    cases n with
    | folder contents => cases hface
    | file content stamp =>
      cases hface
      exact hn
  · exact fun hn => ⟨_, hn, rfl⟩

theorem faceAt_eq_none_iff : t.faceAt names = none ↔ Node.at? names t.root = none := by
  rw [faceAt, Option.map_eq_none_iff]

/-- On the way to what stands in a place are folders. -/
theorem faceAt_of_isPrefix {face : Face} (h : t.faceAt names = some face) (hpre : other <+: names)
    (hne : other ≠ names) : t.faceAt other = some .folder := by
  obtain ⟨rest, rfl⟩ := hpre
  have hrest : rest ≠ [] := fun hrest => hne (by rw [hrest, List.append_nil])
  rw [faceAt, Node.at?_append, Option.map_eq_some_iff] at h
  obtain ⟨n, hn, -⟩ := h
  obtain ⟨inner, hinner, hbelow⟩ := Option.bind_eq_some_iff.1 hn
  rw [faceAt, hinner]
  cases inner with
  | folder contents => rfl
  | file content stamp =>
    rw [Node.at?_file content stamp hrest] at hbelow
    cases hbelow

/-- Nothing stands below what is no folder. -/
theorem faceAt_eq_none_of_isPrefix (h : t.faceAt names ≠ some .folder) (hpre : names <+: other)
    (hne : names ≠ other) : t.faceAt other = none := by
  cases hface : t.faceAt other with
  | none => rfl
  | some face => exact absurd (faceAt_of_isPrefix hface hpre hne) h

/-- On the way to what a folder holds are folders. -/
theorem faceAt_of_isPrefix_dropLast (h : t.faceAt names.dropLast = some .folder) (hpre : other <+: names)
    (hne : other ≠ names) : t.faceAt other = some .folder := by
  have hdropLast : other <+: names.dropLast := by
    obtain ⟨rest, rfl⟩ := hpre
    have hrest : rest ≠ [] := fun hrest => hne (by rw [hrest, List.append_nil])
    rw [List.dropLast_append_of_ne_nil hrest]
    exact List.prefix_append _ _
  by_cases heq : other = names.dropLast
  · rw [heq, h]
  · exact faceAt_of_isPrefix h hdropLast heq

/-! ### Where a path leads -/

theorem enter_eq_ok_iff {part : String} {folder : List String} : t.enter folder part = .ok names ↔
    t.faceAt folder = some .folder ∧ names = if part = ".." then folder.dropLast else folder ++ [part] := by
  rw [faceAt_eq_folder_iff, ← exists_and_right]
  constructor
  · exact enter_eq_ok
  · rintro ⟨contents, hfolder, rfl⟩
    rw [enter, hfolder]

theorem foldlM_enter_cons_iff {part : String} {parts start : List String} :
    (part :: parts).foldlM t.enter start = .ok names ↔
      ∃ folder, t.enter start part = .ok folder ∧ parts.foldlM t.enter folder = .ok names := by
  rw [List.foldlM_cons]
  cases t.enter start part with
  | error obstacle => simp [bind, Except.bind]
  | ok folder => simp [bind, Except.bind]

theorem foldlM_enter_of_folders {parts start : List String} (h : parts.foldlM t.enter start = .ok names)
    (hfolders : ∀ other, t.faceAt other = some .folder → t'.faceAt other = some .folder) :
    parts.foldlM t'.enter start = .ok names := by
  induction parts generalizing start with
  | nil => exact h
  | cons part parts ih =>
    obtain ⟨folder, hfolder, hrest⟩ := foldlM_enter_cons_iff.1 h
    obtain ⟨hstart, hnames⟩ := enter_eq_ok_iff.1 hfolder
    exact foldlM_enter_cons_iff.2 ⟨folder, enter_eq_ok_iff.2 ⟨hfolders _ hstart, hnames⟩, ih hrest⟩

theorem eq_append_of_foldlM_enter {parts start : List String} (h : parts.foldlM t.enter start = .ok names)
    (hdots : ".." ∉ parts) : names = start ++ parts := by
  induction parts generalizing start with
  | nil =>
    cases h
    rw [List.append_nil]
  | cons part parts ih =>
    rw [List.mem_cons, not_or] at hdots
    obtain ⟨folder, hfolder, hrest⟩ := foldlM_enter_cons_iff.1 h
    obtain ⟨-, hnames⟩ := enter_eq_ok_iff.1 hfolder
    rw [if_neg (Ne.symm hdots.1)] at hnames
    rw [ih hrest hdots.2, hnames, List.append_assoc, List.singleton_append]

/-- A path leads where it led as long as the folders are there. -/
theorem names_of_folders (h : t.names p = .ok names) (hhere : t'.here = t.here)
    (hfolders : ∀ other, t.faceAt other = some .folder → t'.faceAt other = some .folder) :
    t'.names p = .ok names := by
  rw [names_eq_foldlM] at h ⊢
  rw [hhere]
  exact foldlM_enter_of_folders h hfolders

/-- An absolute path without two dots leads where its parts say, or nowhere. -/
theorem eq_parts_of_names (h : t.names p = .ok names) (habsolute : p.isAbsolute)
    (hdots : ".." ∉ p.parts) : names = p.parts := by
  rw [names_eq_foldlM, Path.join, if_pos habsolute] at h
  exact eq_append_of_foldlM_enter h hdots

/-- Where something stands, the names on the way to it can be entered. -/
theorem foldlM_enter_of_faceAt {parts start : List String} {face : Face} (hdots : ".." ∉ parts)
    (h : t.faceAt (start ++ parts) = some face) : parts.foldlM t.enter start = .ok (start ++ parts) := by
  induction parts generalizing start with
  | nil => rw [List.append_nil, List.foldlM_nil]; rfl
  | cons part parts ih =>
    rw [List.mem_cons, not_or] at hdots
    have hsplit : start ++ part :: parts = start ++ [part] ++ parts := by simp
    have hfolder : t.faceAt start = some .folder :=
      faceAt_of_isPrefix h (List.prefix_append _ _) (by simp)
    rw [hsplit] at h ⊢
    refine foldlM_enter_cons_iff.2 ⟨start ++ [part], enter_eq_ok_iff.2 ⟨hfolder, ?_⟩, ih hdots.2 h⟩
    rw [if_neg (Ne.symm hdots.1)]

/-- An absolute path without two dots leads where its parts say, if something stands there. -/
theorem names_of_faceAt {face : Face} (habsolute : p.isAbsolute) (hdots : ".." ∉ p.parts)
    (h : t.faceAt p.parts = some face) : t.names p = .ok p.parts := by
  rw [names_eq_foldlM, Path.join, if_pos habsolute]
  exact foldlM_enter_of_faceAt hdots h

/-- An absolute path without two dots leads to what stands where its parts say. -/
theorem find?_eq_some_iff {n : Node} (habsolute : p.isAbsolute) (hdots : ".." ∉ p.parts) :
    t.find? p = some n ↔ Node.at? p.parts t.root = some n := by
  unfold find?
  constructor
  · intro h
    split at h
    · next names hnames =>
      obtain rfl := eq_parts_of_names hnames habsolute hdots
      exact h
    · cases h
  · intro h
    have hface : t.faceAt p.parts = some n.face := by rw [faceAt, h, Option.map_some]
    rw [names_of_faceAt habsolute hdots hface]
    exact h

/-- What a path leads to stands in a folder, unless it is the root or a folder itself. -/
theorem faceAt_dropLast_of_names (h : t.names p = .ok names) :
    names = [] ∨ t.faceAt names = some .folder ∨ t.faceAt names.dropLast = some .folder := by
  rcases List.eq_nil_or_concat (t.here.join p).parts with hparts | ⟨init, part, hparts⟩
  · rw [names_eq_foldlM, hparts] at h
    cases h
    exact .inl rfl
  · rw [List.concat_eq_append] at hparts
    obtain ⟨folder, -, hentered⟩ := names_of_parts hparts h
    obtain ⟨hfolder, rfl⟩ := enter_eq_ok_iff.1 hentered
    split
    · obtain ⟨contents, hcontents⟩ := faceAt_eq_folder_iff.1 hfolder
      exact .inr (.inl (faceAt_eq_folder_iff.2 (Node.exists_at?_dropLast hcontents)))
    · rw [List.dropLast_concat]
      exact .inr (.inr hfolder)

theorem read_eq_ok_iff : t.read p = .ok content ↔
    ∃ names stamp, t.names p = .ok names ∧ t.faceAt names = some (.file content stamp) := by
  unfold read
  constructor
  · intro h
    split at h
    · cases h
    · cases h
    · next names hnames =>
      split at h
      · cases h
      · cases h
      · next content' stamp hfile =>
        cases h
        exact ⟨names, stamp, hnames, faceAt_eq_file_iff.2 hfile⟩
  · rintro ⟨names, stamp, hnames, hfile⟩
    rw [hnames]
    dsimp only
    rw [faceAt_eq_file_iff.1 hfile]

/-- The file that an absolute path without two dots leads to stands where its parts say. -/
theorem read_eq_ok_iff_faceAt (habsolute : p.isAbsolute) (hdots : ".." ∉ p.parts) :
    t.read p = .ok content ↔ ∃ stamp, t.faceAt p.parts = some (.file content stamp) := by
  rw [read_eq_ok_iff]
  constructor
  · rintro ⟨names, stamp, hnames, hfile⟩
    exact ⟨stamp, eq_parts_of_names hnames habsolute hdots ▸ hfile⟩
  · rintro ⟨stamp, hfile⟩
    exact ⟨p.parts, stamp, names_of_faceAt habsolute hdots hfile, hfile⟩

/-! ### Putting in and taking out -/

/-- Two trees differ in a folder at most, in what stands there and below. -/
def SameOutside (folder : List String) (t t' : Tree) : Prop :=
  t'.here = t.here ∧ ∀ names, ¬ folder <+: names → t'.faceAt names = t.faceAt names

theorem SameOutside.refl (folder : List String) (t : Tree) : SameOutside folder t t := ⟨rfl, fun _ _ => rfl⟩

theorem SameOutside.trans {folder : List String} {t t' t'' : Tree} (h : SameOutside folder t t')
    (h' : SameOutside folder t' t'') : SameOutside folder t t'' :=
  ⟨h'.1.trans h.1, fun names hnames => (h'.2 names hnames).trans (h.2 names hnames)⟩

/-- What is put into a folder changes nothing outside its place. -/
theorem sameOutside_put (new : Node) (h : names = [] ∨ t.faceAt names.dropLast = some .folder) :
    SameOutside names t { t with root := Node.put new names t.root } := by
  refine ⟨rfl, fun other hother => ?_⟩
  by_cases hpre : other <+: names
  · have hne : other ≠ names := fun heq => hother (heq ▸ List.prefix_rfl)
    rw [faceAt_eq_folder_iff.2 (Node.exists_at?_put hpre hne)]
    rcases h with rfl | hparent
    · exact absurd List.nil_prefix hother
    · exact (faceAt_of_isPrefix_dropLast hparent hpre hne).symm
  · rw [faceAt, faceAt, Node.at?_put_of_not_prefix hother hpre]

theorem here_delete (t : Tree) (p : Path) : (t.delete p).here = t.here := by
  unfold delete
  split <;> rfl

theorem sameOutside_delete (t : Tree) (p : Path) (h : ∀ names, t.names p = .ok names → names = other) :
    SameOutside other t (t.delete p) := by
  unfold delete
  split
  · next names hnames =>
    obtain rfl := h names hnames
    exact ⟨rfl, fun other hother => Node.face_at?_remove hother⟩
  · exact .refl _ _

/-- What is put where no folder stands changes its own place only, if nothing stands below it. -/
theorem faceAt_put (hface : t.faceAt names ≠ some .folder)
    (hparent : names = [] ∨ t.faceAt names.dropLast = some .folder)
    (hnew : ∀ rest, rest ≠ [] → Node.at? rest new = none) (hother : other ≠ names) :
    ({ t with root := Node.put new names t.root } : Tree).faceAt other = t.faceAt other := by
  by_cases hpre : names <+: other
  · rw [faceAt_eq_none_of_isPrefix hface hpre (Ne.symm hother)]
    obtain ⟨rest, rfl⟩ := hpre
    have hrest : rest ≠ [] := fun hrest => hother (by rw [hrest, List.append_nil])
    rw [faceAt_eq_none_iff, Node.at?_put_append, hnew rest hrest]
  · exact (sameOutside_put new hparent).2 other hpre

/-- A file that is written changes its own place only. -/
theorem faceAt_writeFile (h : t.writeFile p content stamp = .ok t') : ∃ names,
    t.names p = .ok names ∧ t'.here = t.here ∧ t'.faceAt names = some (.file content stamp) ∧
      t.faceAt names ≠ some .folder ∧ ∀ other, other ≠ names → t'.faceAt other = t.faceAt other := by
  unfold writeFile at h
  split at h
  · cases h
  · cases h
  · next names hnames =>
    split at h
    · cases h
    · next hfolder =>
      cases h
      have hface : t.faceAt names ≠ some .folder := fun hface =>
        let ⟨contents, hcontents⟩ := faceAt_eq_folder_iff.1 hface
        hfolder contents hcontents
      have hparent : names = [] ∨ t.faceAt names.dropLast = some .folder :=
        (faceAt_dropLast_of_names hnames).imp_right fun h => h.resolve_left hface
      refine ⟨names, hnames, rfl, faceAt_eq_file_iff.2 (Node.at?_put_self _ _ _), hface, fun other => ?_⟩
      exact faceAt_put hface hparent fun rest => Node.at?_file content stamp

/-- A file can be written where a path leads and no folder stands. -/
theorem exists_writeFile (hnames : t.names p = .ok names) (h : t.faceAt names ≠ some .folder)
    (content : Bytes) (stamp : Int) : ∃ t', t.writeFile p content stamp = .ok t' := by
  unfold writeFile
  rw [hnames]
  dsimp only
  split
  · next contents hfolder => exact absurd (faceAt_eq_folder_iff.2 ⟨contents, hfolder⟩) h
  · exact ⟨_, rfl⟩

/-- A file that was written is read by its path. -/
theorem read_writeFile (h : t.writeFile p content stamp = .ok t') : t'.read p = .ok content := by
  obtain ⟨names, hnames, hhere, hface, hfolder, hother⟩ := faceAt_writeFile h
  refine read_eq_ok_iff.2 ⟨names, stamp, names_of_folders hnames hhere fun other hfolder' => ?_, hface⟩
  rw [hother other fun heq => hfolder (heq ▸ hfolder'), hfolder']

/-! ### Making folders -/

/-- Folders have been added to a tree. -/
def Grows (t t' : Tree) : Prop :=
  t'.here = t.here ∧ ∀ names, t'.faceAt names = t.faceAt names ∨
    t.faceAt names = none ∧ t'.faceAt names = some .folder

theorem Grows.refl (t : Tree) : Grows t t := ⟨rfl, fun _ => .inl rfl⟩

theorem Grows.trans {t t' t'' : Tree} (h : Grows t t') (h' : Grows t' t'') : Grows t t'' := by
  refine ⟨h'.1.trans h.1, fun names => ?_⟩
  rcases h.2 names with heq | ⟨hnone, hfolder⟩ <;> rcases h'.2 names with heq' | ⟨hnone', hfolder'⟩ <;>
    simp_all

/-- The files of a tree that has grown are those that it had. -/
theorem Grows.faceAt_eq_file_iff (h : Grows t t') :
    t'.faceAt names = some (.file content stamp) ↔ t.faceAt names = some (.file content stamp) := by
  rcases h.2 names with heq | ⟨hnone, hfolder⟩ <;> simp [*]

theorem grows_makeFolder (h : t.makeFolder p = .ok t') : Grows t t' := by
  unfold makeFolder at h
  split at h
  · cases h
  · cases h
  · next names hnames =>
    split at h
    · cases h
      exact .refl _
    · cases h
    · next hnone =>
      cases h
      have hface : t.faceAt names = none := faceAt_eq_none_iff.2 hnone
      have hnot : t.faceAt names ≠ some .folder := by simp [hface]
      have hparent : names = [] ∨ t.faceAt names.dropLast = some .folder :=
        (faceAt_dropLast_of_names hnames).imp_right fun h => h.resolve_left hnot
      refine ⟨rfl, fun other => ?_⟩
      -- The new folder is empty, so it is all that is added.
      by_cases hother : other = names
      · rw [hother, hface]
        exact .inr ⟨rfl, faceAt_eq_folder_iff.2 ⟨[], Node.at?_put_self _ _ _⟩⟩
      · exact .inl (faceAt_put hnot hparent (fun rest => Node.at?_empty) hother)

theorem grows_after (hresult : ∀ changed, result = .ok changed → Grows t changed) :
    Grows t (t.after result).1 := by
  cases result with
  | ok changed => exact hresult changed rfl
  | error fault => exact .refl t

theorem grows_makeLast (t : Tree) (p : Path) (n : Nat) : Grows t (t.makeLast p n).1 := by
  induction n generalizing p with
  | zero => exact grows_after fun _ => grows_makeFolder
  | succ n ih =>
    rw [makeLast]
    split
    · split
      · next made hmade =>
        have hgrows : Grows t made := by
          have hgrows := ih p.parent
          rwa [hmade] at hgrows
        exact hgrows.trans (grows_after fun _ => grows_makeFolder)
      · exact ih p.parent
    · exact grows_after fun _ => grows_makeFolder

/-- Making folders adds folders, also if it is refused on the way. -/
theorem grows_makeFolders (t : Tree) (p : Path) : Grows t (t.makeFolders p).1 := grows_makeLast t p _

/-- Nothing is made if the path leads to a folder. -/
theorem makeFolders_of_names (hnames : t.names p = .ok names) (h : t.faceAt names = some .folder) :
    t.makeFolders p = (t, none) := by
  have hmake : t.makeFolder p = .ok t := by
    obtain ⟨contents, hcontents⟩ := faceAt_eq_folder_iff.1 h
    simp only [makeFolder, hnames, hcontents]
  unfold makeFolders
  cases p.parts.length with
  | zero => rw [makeLast, hmake, after]
  | succ n => simp only [makeLast, hmake, after]

theorem makeFolders_of_folder (habsolute : p.isAbsolute) (hdots : ".." ∉ p.parts)
    (h : t.faceAt p.parts = some .folder) : t.makeFolders p = (t, none) :=
  makeFolders_of_names (names_of_faceAt habsolute hdots h) h

/-! ### A temporary folder -/

/-- A folder can be made at a path: nothing stands there, and the folder above it is there. -/
structure IsFree (t : Tree) (p : Path) : Prop where
  absolute : p.isAbsolute
  dots_not_mem : ".." ∉ p.parts
  nothing : t.faceAt p.parts = none
  parent : t.faceAt p.parts.dropLast = some .folder

theorem IsFree.parts_ne_nil (h : t.IsFree p) : p.parts ≠ [] := by
  intro hparts
  have hnothing := h.nothing
  rw [hparts, faceAt_eq_none_iff, Node.at?_nil] at hnothing
  cases hnothing

theorem IsFree.not_prefix {face : Face} (h : t.IsFree p) (hface : t.faceAt names = some face) :
    ¬ p.parts <+: names := by
  intro hpre
  by_cases heq : p.parts = names
  · rw [← heq, h.nothing] at hface
    cases hface
  · have hfolder := faceAt_of_isPrefix hface hpre heq
    rw [h.nothing] at hfolder
    cases hfolder

/-- A path leads where it led, whatever has been done in a folder that was not there. -/
theorem names_of_sameOutside {q : Path} (hfree : t.IsFree p) (h : SameOutside p.parts t t')
    (hnames : t.names q = .ok names) : t'.names q = .ok names :=
  names_of_folders hnames h.1 fun other hother => by rw [h.2 other (hfree.not_prefix hother), hother]

/-- A file is read as before, whatever has been done in a folder that was not there. -/
theorem read_of_sameOutside {q : Path} (hfree : t.IsFree p) (h : SameOutside p.parts t t')
    (hread : t.read q = .ok content) : t'.read q = .ok content := by
  obtain ⟨names, stamp, hnames, hfile⟩ := read_eq_ok_iff.1 hread
  refine read_eq_ok_iff.2 ⟨names, stamp, names_of_sameOutside hfree h hnames, ?_⟩
  rw [h.2 names (hfree.not_prefix hfile), hfile]

/-- If the folder above is there, a tree changes in one folder at most. -/
def ChangesIn (folder : List String) (t t' : Tree) : Prop :=
  folder ≠ [] → t.faceAt folder.dropLast = some .folder → SameOutside folder t t'

theorem ChangesIn.refl (folder : List String) (t : Tree) : ChangesIn folder t t := fun _ _ => .refl folder t

theorem ChangesIn.trans {folder : List String} {t t' t'' : Tree} (h : ChangesIn folder t t')
    (h' : ChangesIn folder t' t'') : ChangesIn folder t t'' := by
  intro hne hparent
  have hfirst := h hne hparent
  have hout : ¬ folder <+: folder.dropLast := fun hpre => by
    have hlength := hpre.length_le
    have hpos := List.length_pos_iff.2 hne
    rw [List.length_dropLast] at hlength
    omega
  exact hfirst.trans (h' hne (by rw [hfirst.2 _ hout, hparent]))

theorem changesIn_writeFile {folder : Path} (hp : folder.LiesIn p)
    (h : t.writeFile p content stamp = .ok t') : ChangesIn folder.parts t t' := by
  intro _ _
  obtain ⟨habsolute, hdots, hpre⟩ := hp
  obtain ⟨names, hnames, hhere, -, -, hother⟩ := faceAt_writeFile h
  obtain rfl := eq_parts_of_names hnames habsolute hdots
  exact ⟨hhere, fun other hnot => hother other fun heq => hnot (heq ▸ hpre)⟩

theorem changesIn_make (folder : List String) (t : Tree) :
    ChangesIn folder t { t with root := Node.put (.folder []) folder t.root } :=
  fun _ hparent => sameOutside_put _ (.inr hparent)

theorem changesIn_delete (habsolute : p.isAbsolute) (hdots : ".." ∉ p.parts) (t : Tree) :
    ChangesIn p.parts t (t.delete p) :=
  fun _ _ => sameOutside_delete t p fun _ hnames => eq_parts_of_names hnames habsolute hdots

end Tree

theorem Path.misses_of_parts_ne {p : Path} {place : List String} (habsolute : p.isAbsolute)
    (hdots : ".." ∉ p.parts) (h : p.parts ≠ place) : p.Misses place :=
  fun _ _ hnames => Tree.eq_parts_of_names hnames habsolute hdots ▸ h

end Userscript
