import Userscript.Tree

/-!
# The names on the way to a file

A path leads to a file by the names of the folders on the way and its own name. However the path is
written, its own name is the last of them.

## Main definitions

* `Tree.nameOf` — the last part of a path

## Main results

* `nameOf_eq_getLastD` — the name of a file is the last of the names that lead to it
-/

namespace Userscript

/-- What stands below a node is below what stands on the way. -/
theorem Node.at?_append (names rest : List String) (n : Node) :
    Node.at? (names ++ rest) n = (Node.at? names n).bind (Node.at? rest) := by
  induction names generalizing n with
  | nil => rfl
  | cons name names ih =>
    rw [List.cons_append, at?, at?]
    cases n.entries.get? name with
    | none => rfl
    | some child => exact ih child

/-- One name further stands what has this name. -/
theorem Node.at?_concat {names : List String} {n inner : Node} (h : Node.at? names n = some inner)
    (name : String) : Node.at? (names ++ [name]) n = inner.entries.get? name := by
  rw [Node.at?_append, h, Option.bind_some, at?]
  cases inner.entries.get? name <;> rfl

/-- What a folder stands in is a folder. -/
theorem Node.exists_at?_dropLast {names : List String} {n : Node} {contents : List (String × Node)}
    (h : Node.at? names n = some (.folder contents)) :
    ∃ contents', Node.at? names.dropLast n = some (.folder contents') := by
  rcases List.eq_nil_or_concat names with rfl | ⟨init, name, rfl⟩
  · exact ⟨contents, h⟩
  · rw [List.concat_eq_append, Node.at?_append] at h
    rw [List.concat_eq_append, List.dropLast_concat]
    cases hinit : Node.at? init n with
    | none => simp [hinit] at h
    | some inner =>
      cases inner with
      | folder contents' => exact ⟨contents', rfl⟩
      | file content stamp => simp [hinit, Node.at?, Node.entries, Table.get?] at h

namespace Tree

variable {t : Tree} {p q : Path} {names : List String}

/-- The last part of a path, read from where relative paths start. -/
def nameOf (t : Tree) (p : Path) : String := (t.here.join p).name

/-- The names that a part of a path leads to from others. -/
def enter (t : Tree) (names : List String) (part : String) : Except Obstacle (List String) :=
  match Node.at? names t.root with
  | some (.folder _) => .ok (if part = ".." then names.dropLast else names ++ [part])
  | some (.file ..) => .error .notFolder
  | none => .error .missing

theorem names_eq_foldlM (t : Tree) (p : Path) :
    t.names p = (t.here.join p).parts.foldlM t.enter [] := rfl

theorem enter_eq_ok {part : String} {folder : List String} (h : t.enter folder part = .ok names) :
    ∃ contents, Node.at? folder t.root = some (.folder contents) ∧
      names = if part = ".." then folder.dropLast else folder ++ [part] := by
  unfold enter at h
  split at h
  · next contents hfolder =>
    cases h
    exact ⟨contents, hfolder, rfl⟩
  · cases h
  · cases h

/-- The last part of a path is entered from a folder. -/
theorem names_of_parts {init : List String} {part : String}
    (hparts : (t.here.join p).parts = init ++ [part]) (h : t.names p = .ok names) :
    ∃ folder, init.foldlM t.enter [] = .ok folder ∧ t.enter folder part = .ok names := by
  -- All parts but the last lead somewhere, or the whole path leads nowhere.
  rw [names_eq_foldlM, hparts, List.foldlM_append] at h
  cases hfolder : init.foldlM t.enter [] with
  | error obstacle =>
    rw [hfolder] at h
    cases h
  | ok folder =>
    rw [hfolder] at h
    refine ⟨folder, rfl, ?_⟩
    change [part].foldlM t.enter folder = .ok names at h
    simpa only [List.foldlM_cons, List.foldlM_nil, bind_pure] using h

/-- The name of a file is the last of the names that lead to it. -/
theorem nameOf_eq_getLastD (hnames : t.names p = .ok names) {content : Bytes} {stamp : Int}
    (hfile : Node.at? names t.root = some (.file content stamp)) :
    t.nameOf p = names.getLastD "" := by
  rw [nameOf, Path.name]
  rcases List.eq_nil_or_concat (t.here.join p).parts with hparts | ⟨init, part, hparts⟩
  · rw [names_eq_foldlM, hparts] at hnames
    cases hnames
    rw [hparts]
  · rw [List.concat_eq_append] at hparts
    obtain ⟨folder, -, hentered⟩ := names_of_parts hparts hnames
    obtain ⟨contents, hfolder, rfl⟩ := enter_eq_ok hentered
    rw [hparts, List.getLastD_concat]
    -- After a pair of dots stands no file but the folder above.
    split at hfile
    · obtain ⟨contents', hcontents⟩ := Node.exists_at?_dropLast hfolder
      rw [hcontents] at hfile
      cases hfile
    · next hpart => rw [if_neg hpart, List.getLastD_concat]

theorem exists_of_hasFile (h : t.hasFile p) : ∃ names content stamp,
    t.names p = .ok names ∧ Node.at? names t.root = some (.file content stamp) := by
  rw [hasFile, find?, Option.any_eq_true] at h
  obtain ⟨n, hfind, hfile⟩ := h
  split at hfind
  · next names hnames =>
    cases n with
    | folder contents => cases hfile
    | file content stamp => exact ⟨names, content, stamp, hnames, hfind⟩
  · cases hfind

theorem nameOf_eq_of_names (hfile : t.hasFile p) {folder : List String} {name : String}
    (h : t.names p = .ok (folder ++ [name])) : t.nameOf p = name := by
  obtain ⟨names, content, stamp, hnames, hnode⟩ := exists_of_hasFile hfile
  rw [nameOf_eq_getLastD hnames hnode, Except.ok.inj (hnames.symm.trans h), List.getLastD_concat]

/-- Two paths that lead to the same file end with the same name. -/
theorem nameOf_eq_nameOf (hfile : t.hasFile p) (h : t.names q = t.names p) :
    t.nameOf q = t.nameOf p := by
  obtain ⟨names, content, stamp, hnames, hnode⟩ := exists_of_hasFile hfile
  rw [nameOf_eq_getLastD hnames hnode, nameOf_eq_getLastD (h.trans hnames) hnode]

theorem nameOf_of_isAbsolute (h : p.isAbsolute) : t.nameOf p = p.name := by
  rw [nameOf, Path.join, if_pos h]

theorem nameOf_of_parts_ne_nil (h : p.parts ≠ []) : t.nameOf p = p.name := by
  rw [nameOf, Path.join]
  split
  · rfl
  · obtain ⟨init, part, hparts⟩ := (List.eq_nil_or_concat p.parts).resolve_left h
    rw [Path.name, Path.name, hparts, List.concat_eq_append, ← List.append_assoc,
      List.getLastD_concat, List.getLastD_concat]

end Tree

end Userscript
