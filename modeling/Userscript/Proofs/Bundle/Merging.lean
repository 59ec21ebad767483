import Userscript.Bundle.Assembly

/-!
# What a bundle is made of

Of each module that is read, a bundle holds what is left without its header and the blanks around it.
Modules of which nothing is left are skipped, each with one warning about its path.

## Main definitions

* `Bundle.left?` — what is left of a module
* `Bundle.sectionOf` — what stands in a bundle for a module
* `below` — what stands below a header

## Main results

* `assemble_eq_ok` — the parts of a bundle
* `merged_eq`, `skipped_eq` — the names of the modules with and without a body
* `parts_eq` — the header and the sections of the modules
* `perm_bodies_skips` — a module is merged, or skipped with a warning
* `Bundle.text_eq` — the text of a bundle
-/

namespace Userscript.Bundle

variable {α : Type} {markers : Header.Markers} {header : Text} {modules : List Loaded} {bundle : Bundle}
  {warnings : List Warning}

/-- What is left of a module without its header and the blanks around it, if it can be read and
anything is left. -/
def left? (markers : Header.Markers) (content : Option Text) : Option Text :=
  (content.map fun text => Text.trim (markers.strip text)).filter (· ≠ [])

theorem left?_eq_some_iff {content : Option Text} {text : Text} : left? markers content = some text ↔
    ∃ raw, content = some raw ∧ Text.trim (markers.strip raw) = text ∧ text ≠ [] := by
  cases content with
  | none => simp [left?]
  | some raw => simp [left?, Option.filter_eq_some_iff]

/-- The warning with which a module is skipped. -/
def skipWarning (m : Loaded) : Warning :=
  match m.2 with
  | none => ⟨.unreadable, m.1.path.toString, "could not read module"⟩
  | some _ => ⟨.empty, m.1.path.toString, "empty module"⟩

theorem subject_skipWarning (m : Loaded) : (skipWarning m).subject = m.1.path.toString := by
  unfold skipWarning
  split <;> rfl

theorem kind_skipWarning (m : Loaded) :
    (skipWarning m).kind = .unreadable ∨ (skipWarning m).kind = .empty := by
  unfold skipWarning
  split
  · exact .inl rfl
  · exact .inr rfl

/-- A module is merged if anything is left of it, and skipped otherwise. -/
theorem body?_eq (markers : Header.Markers) (m : Loaded) : body? markers m =
    match left? markers m.2 with
    | some text => .ok ⟨m.1.name, m.1.path, text⟩
    | none => .error (skipWarning m) := by
  rcases m with ⟨file, _ | content⟩
  · rfl
  · simp only [body?, left?, skipWarning, Option.map_some]
    cases htext : Text.trim (markers.strip content) <;> rfl

/-- What stands in a bundle for a module: the line with its name and what is left of it. -/
def sectionOf (markers : Header.Markers) (m : Loaded) : List Text :=
  match left? markers m.2 with
  | some text => [separator m.1.name, text]
  | none => []

theorem bodies?_cons (markers : Header.Markers) (m : Loaded) (modules : List Loaded) :
    bodies? markers (m :: modules) =
      ((left? markers m.2).map fun text => ⟨m.1.name, m.1.path, text⟩).toList ++ bodies? markers modules := by
  rw [bodies?, List.filterMap_cons, body?_eq]
  cases left? markers m.2 <;> rfl

theorem skips_cons (markers : Header.Markers) (m : Loaded) (modules : List Loaded) :
    skips markers (m :: modules) =
      if (left? markers m.2).isNone then (m.1, skipWarning m) :: skips markers modules
      else skips markers modules := by
  rw [skips, List.filterMap_cons, body?_eq]
  cases left? markers m.2 <;> rfl

/-- What the bodies have in common with their modules is that of the modules of which anything is
left. -/
theorem map_bodies {f : Body → α} {g : ModuleFile → α} (h : ∀ m text, f ⟨m.name, m.path, text⟩ = g m)
    (markers : Header.Markers) (modules : List Loaded) : (bodies? markers modules).map f =
      (modules.filter fun m => (left? markers m.2).isSome).map fun m => g m.1 := by
  induction modules with
  | nil => rfl
  | cons m modules ih =>
    rw [bodies?_cons, List.map_append, ih]
    cases hleft : left? markers m.2 with
    | none => simp [hleft]
    | some text => simp [hleft, h]

theorem skips_eq (markers : Header.Markers) (modules : List Loaded) : skips markers modules =
    (modules.filter fun m => (left? markers m.2).isNone).map fun m => (m.1, skipWarning m) := by
  induction modules with
  | nil => rfl
  | cons m modules ih => rw [skips_cons, List.filter_cons, ih, apply_ite (List.map _), List.map_cons]

/-- A module is merged, or it is skipped with a warning about its path. -/
theorem perm_bodies_skips (markers : Header.Markers) (modules : List Loaded) :
    ((bodies? markers modules).map (·.path.toString) ++
      (skips markers modules).map (·.2.subject)).Perm (modules.map (·.1.path.toString)) := by
  have hbodies := map_bodies (f := fun body : Body => body.path.toString)
    (g := fun m : ModuleFile => m.path.toString) (fun _ _ => rfl) markers modules
  have hskips : (skips markers modules).map (·.2.subject) =
      (modules.filter fun m => (left? markers m.2).isNone).map (·.1.path.toString) := by
    rw [skips_eq, List.map_map]
    exact List.map_congr_left fun m _ => subject_skipWarning m
  rw [hbodies, hskips, ← List.map_append]
  have hperm := List.filter_append_perm (fun m : Loaded => (left? markers m.2).isSome) modules
  simpa using hperm.map (·.1.path.toString)

/-! ### The parts of a bundle -/

theorem assemble_eq_ok (h : assemble markers header modules = .ok (bundle, warnings)) :
    bundle = {
      header := Text.trim header
      bodies := bodies? markers modules
      skipped := (skips markers modules).map (·.1.name) } ∧
    warnings = (skips markers modules).map (·.2) := by
  unfold assemble at h
  dsimp only at h
  split at h
  · cases h
  · cases h
    exact ⟨rfl, rfl⟩

/-- A bundle that is assembled has a body. -/
theorem bodies_ne_nil (h : assemble markers header modules = .ok (bundle, warnings)) :
    bundle.bodies ≠ [] := by
  intro hnil
  have hbodies : bodies? markers modules = [] := by rw [← hnil, (assemble_eq_ok h).1]
  rw [assemble, hbodies] at h
  cases h

theorem merged_eq (h : assemble markers header modules = .ok (bundle, warnings)) :
    bundle.merged = (modules.filter fun m => (left? markers m.2).isSome).map (·.1.name) := by
  rw [(assemble_eq_ok h).1]
  exact map_bodies (fun _ _ => rfl) markers modules

theorem skipped_eq (h : assemble markers header modules = .ok (bundle, warnings)) :
    bundle.skipped = (modules.filter fun m => (left? markers m.2).isNone).map (·.1.name) := by
  rw [(assemble_eq_ok h).1, skips_eq, List.map_map]
  rfl

theorem mem_bodies_iff {body : Body} : body ∈ bodies? markers modules ↔ ∃ m ∈ modules, ∃ text,
    left? markers m.2 = some text ∧ body = ⟨m.1.name, m.1.path, text⟩ := by
  rw [bodies?, List.mem_filterMap]
  refine exists_congr fun m => and_congr_right fun _ => ?_
  rw [body?_eq]
  cases left? markers m.2 with
  | none => simp [Except.toOption]
  | some text => simp [Except.toOption, eq_comm]

/-- A bundle is its header and the sections of its modules. -/
theorem parts_eq (h : assemble markers header modules = .ok (bundle, warnings)) :
    bundle.parts = Text.trim header :: modules.flatMap (sectionOf markers) := by
  have hsections : (bodies? markers modules).flatMap (fun body => [separator body.name, body.text]) =
      modules.flatMap (sectionOf markers) := by
    clear h
    induction modules with
    | nil => rfl
    | cons m modules ih =>
      rw [bodies?_cons, List.flatMap_append, ih, List.flatMap_cons, sectionOf]
      cases left? markers m.2 <;> simp
  rw [(assemble_eq_ok h).1, parts, hsections]

end Userscript.Bundle

namespace Userscript

/-! ### The text of a bundle -/

/-- What stands below a header: every part, between two empty lines. -/
def below (parts : List Text) : Text := '\n' :: parts.flatMap fun part => '\n' :: part ++ ['\n']

theorem intercalate_eq_append_below (part : Text) (parts : List Text) :
    ['\n', '\n'].intercalate (part :: parts) ++ ['\n'] = part ++ below parts := by
  induction parts generalizing part with
  | nil => simp [below]
  | cons next parts ih =>
    rw [List.intercalate_cons_cons, List.append_assoc, ih, below, below]
    simp

/-- A bundle is its header and, below it, its modules behind their names. -/
theorem Bundle.text_eq (b : Bundle) : b.text = b.header ++ below b.parts.tail :=
  intercalate_eq_append_below b.header _

end Userscript
