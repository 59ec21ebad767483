import Userscript.Proofs.ChangeCache.Persistence
import Userscript.Proofs.Path.Texts

/-!
# Asking a change cache for many files

Each file is compared with what was remembered before all of them, even if its path comes twice, and
what is remembered afterwards is what was seen.

## Main definitions

* `ChangeCache.remembered` — what is remembered about a path
* `ChangeCache.Agree` — the paths with one text lead to one file

## Main results

* `mem_refresh`, `snd_refresh` — which files have changed
* `get?_refresh`, `remembered_refresh` — what is remembered afterwards
* `refresh_of_noted` — nothing is written that is there already
-/

namespace Userscript.ChangeCache

variable {c : ChangeCache} {stat : Path → Option Stat} {p : Path} {paths : List Path} {text : String}
  {key : WideText}

/-- The stamp and the size that are remembered about the path with this text. -/
def remembered (c : ChangeCache) (text : String) : Option Stat :=
  (c.entries.get? (.proper text)).map (·.stat)

theorem isChanged_some (c : ChangeCache) (p : Path) (now : Stat) :
    c.isChanged p (some now) = decide (c.remembered p.toString ≠ some now) := by
  unfold isChanged remembered
  cases c.entries.get? (.proper p.toString) with
  | none => simp
  | some before => simp

theorem remembered_record_of_ne (h : text ≠ p.toString) (c : ChangeCache) (now : Option Stat) :
    (c.record p now).remembered text = c.remembered text := by
  rw [remembered, get?_record_of_ne c now h, remembered]

theorem isChanged_congr {c c' : ChangeCache} (h : c'.remembered p.toString = c.remembered p.toString)
    (now : Option Stat) : c'.isChanged p now = c.isChanged p now := by
  cases now with
  | none => rfl
  | some now => rw [isChanged_some, isChanged_some, h]

/-- The entry under which a file is noted. -/
def noteOf (p : Path) (now : Option Stat) : Option Entry := now.map fun now => ⟨.proper p.toString, now⟩

theorem get?_record_self (c : ChangeCache) (p : Path) (now : Option Stat) :
    (c.record p now).entries.get? (.proper p.toString) = noteOf p now := by
  cases now <;> simp [record, noteOf]

theorem get?_record_of_key_ne (h : key ≠ .proper p.toString) (c : ChangeCache) (now : Option Stat) :
    (c.record p now).entries.get? key = c.entries.get? key := by
  cases now <;> simp [record, Table.get?_erase_of_ne h, Table.get?_set_of_ne h]

theorem isChanged_record_iff (c : ChangeCache) (p : Path) (now : Option Stat) :
    (c.record p now).isChanged p now ↔ now = none := by
  cases now with
  | none => simp [isChanged]
  | some now => simp [isChanged_record_self]

/-! ### Paths that are written alike -/

/-- The paths that have the same text lead to the same file. -/
def Agree (stat : Path → Option Stat) (paths : List Path) : Prop :=
  ∀ p ∈ paths, ∀ q ∈ paths, p.toString = q.toString → stat p = stat q

theorem Agree.of_nodup (h : (paths.map (·.toString)).Nodup) : Agree stat paths := by
  intro p hp q hq htext
  rw [List.inj_on_of_nodup_map h hp hq htext]

/-- Paths that were read from texts are the same if they are written alike. -/
theorem Agree.ofString (stat : Path → Option Stat) (texts : List String) :
    Agree stat (texts.map Path.ofString) := by
  intro p hp q hq htext
  obtain ⟨s, -, rfl⟩ := List.mem_map.1 hp
  obtain ⟨s', -, rfl⟩ := List.mem_map.1 hq
  rw [← Path.ofString_toString_ofString s, htext, Path.ofString_toString_ofString]

theorem Agree.tail (h : Agree stat (p :: paths)) : Agree stat paths := fun _ hq _ hq' =>
  h _ (List.mem_cons_of_mem p hq) _ (List.mem_cons_of_mem p hq')

/-- A file is found changed if it was found so before or differs from what is remembered now. -/
theorem mem_refreshOne (state : ChangeCache × List String) : text ∈ (refreshOne stat state p).2 ↔
    text ∈ state.2 ∨ (p.toString = text ∧ state.1.isChanged p (stat p)) := by
  obtain ⟨c, seen⟩ := state
  cases hchanged : c.isChanged p (stat p) with
  | false => simp [refreshOne, hchanged]
  | true =>
    by_cases hseen : p.toString ∈ seen
    · have hsame : p.toString = text → text ∈ seen := fun htext => htext ▸ hseen
      simpa [refreshOne, hchanged, hseen] using hsame
    · simp [refreshOne, hchanged, hseen, eq_comm]

/-- A note makes a difference only to its own file, and only if that had changed. -/
theorem isChanged_iff_record {q : Path} {now now' : Option Stat} (h : p.toString = q.toString → now = now') :
    c.isChanged q now' ↔ (p.toString = q.toString ∧ c.isChanged p now) ∨ (c.record p now).isChanged q now' := by
  by_cases htext : p.toString = q.toString
  · obtain rfl := h htext
    have hsame (c : ChangeCache) : c.isChanged q now = c.isChanged p now := by
      unfold isChanged
      rw [htext]
    rw [hsame, hsame, isChanged_record_iff]
    constructor
    · intro hchanged
      exact .inl ⟨htext, hchanged⟩
    · rintro (⟨-, hchanged⟩ | rfl)
      · exact hchanged
      · rfl
  · have hother := isChanged_congr (remembered_record_of_ne (Ne.symm htext) c now) now'
    simp only [htext, false_and, false_or, hother]

/-- The files that have changed are those that differ from what was remembered before. -/
theorem mem_refresh (h : Agree stat paths) :
    text ∈ (c.refresh stat paths).2 ↔ ∃ p ∈ paths, p.toString = text ∧ c.isChanged p (stat p) := by
  have hfold (state : ChangeCache × List String) : text ∈ (paths.foldl (refreshOne stat) state).2 ↔
      text ∈ state.2 ∨ ∃ p ∈ paths, p.toString = text ∧ state.1.isChanged p (stat p) := by
    induction paths generalizing state with
    | nil => simp
    | cons p paths ih =>
      have hone : (refreshOne stat state p).1 = state.1.record p (stat p) := rfl
      have hrest (q) (hq : q ∈ paths) := isChanged_iff_record (c := state.1)
        (h p List.mem_cons_self q (List.mem_cons_of_mem p hq))
      rw [List.foldl_cons, ih h.tail, mem_refreshOne, hone, List.exists_mem_cons_iff, or_assoc]
      refine or_congr_right ⟨?_, ?_⟩
      · rintro (hchanged | ⟨q, hq, rfl, hchanged⟩)
        · exact .inl hchanged
        · exact .inr ⟨q, hq, rfl, (hrest q hq).2 (.inr hchanged)⟩
      · rintro (hchanged | ⟨q, hq, rfl, hchanged⟩)
        · exact .inl hchanged
        · exact ((hrest q hq).1 hchanged).imp_right fun hchanged => ⟨q, hq, rfl, hchanged⟩
  have hrefresh := hfold (c, [])
  rwa [List.mem_nil_iff, false_or] at hrefresh

theorem nodup_refresh (c : ChangeCache) (stat : Path → Option Stat) (paths : List Path) :
    (c.refresh stat paths).2.Nodup := by
  have hfold (state : ChangeCache × List String) (h : state.2.Nodup) :
      (paths.foldl (refreshOne stat) state).2.Nodup := by
    induction paths generalizing state with
    | nil => exact h
    | cons p paths ih =>
      refine ih _ ?_
      obtain ⟨c, seen⟩ := state
      rw [refreshOne]
      dsimp only
      split
      · next hnew =>
        have hnew : p.toString ∉ seen := by simp_all
        exact List.concat_eq_append ▸ h.concat hnew
      · exact h
  exact hfold (c, []) List.nodup_nil

/-- What is noted afterwards is what was seen of the files, and what was noted of the others. -/
theorem get?_refresh (h : Agree stat paths) (key : WideText) : (c.refresh stat paths).1.entries.get? key =
    (paths.find? fun p => WideText.proper p.toString = key).elim (c.entries.get? key) fun p => noteOf p (stat p) := by
  have hfold (state : ChangeCache × List String) :
      (paths.foldl (refreshOne stat) state).1.entries.get? key =
        (paths.find? fun p => WideText.proper p.toString = key).elim (state.1.entries.get? key)
          fun p => noteOf p (stat p) := by
    induction paths generalizing state with
    | nil => rfl
    | cons p paths ih =>
      have hone : (refreshOne stat state p).1 = state.1.record p (stat p) := rfl
      rw [List.foldl_cons, ih h.tail, hone, List.find?_cons]
      by_cases hkey : WideText.proper p.toString = key
      · -- A path that has the same text further on leads to the same file.
        simp only [hkey, decide_true, Option.elim_some]
        rw [← hkey, get?_record_self]
        cases hfound : paths.find? fun q => WideText.proper q.toString = .proper p.toString with
        | none => rfl
        | some q =>
          have htext : q.toString = p.toString := by simpa using List.find?_some hfound
          have hstat := h q (List.mem_cons_of_mem p (List.mem_of_find?_eq_some hfound)) p List.mem_cons_self htext
          rw [Option.elim_some, noteOf, noteOf, htext, hstat]
      · simp only [hkey, decide_false]
        rw [get?_record_of_key_ne (Ne.symm hkey)]
  exact hfold (c, [])

theorem foldl_refreshOne_cons (stat : Path → Option Stat) (c : ChangeCache) (seen : List String) (p : Path)
    (paths : List Path) (h : p.toString ∉ seen) :
    (p :: paths).foldl (refreshOne stat) (c, seen) = paths.foldl (refreshOne stat)
      (c.record p (stat p), if c.isChanged p (stat p) then seen ++ [p.toString] else seen) := by
  rw [List.foldl_cons, refreshOne]
  simp [h]

/-- The files that have changed are those that differ from what was remembered before. -/
theorem snd_refresh (hpaths : (paths.map (·.toString)).Nodup) : (c.refresh stat paths).2 =
    (paths.filter fun p => c.isChanged p (stat p)).map (·.toString) := by
  -- The state is general: what was seen before is none of the paths that are left.
  have hfold (c : ChangeCache) (seen : List String) (hseen : ∀ p ∈ paths, p.toString ∉ seen) :
      (paths.foldl (refreshOne stat) (c, seen)).2 =
        seen ++ (paths.filter fun p => c.isChanged p (stat p)).map (·.toString) := by
    induction paths generalizing c seen with
    | nil => simp
    | cons p paths ih =>
      obtain ⟨hnew, hrest⟩ := List.nodup_cons.1 hpaths
      rw [List.forall_mem_cons] at hseen
      have hne (q) (hq : q ∈ paths) : q.toString ≠ p.toString := fun heq =>
        hnew (List.mem_map.2 ⟨q, hq, heq⟩)
      have hsame : (paths.filter fun q => (c.record p (stat p)).isChanged q (stat q)) =
          paths.filter fun q => c.isChanged q (stat q) :=
        List.filter_congr fun q hq => isChanged_congr (remembered_record_of_ne (hne q hq) c _) _
      rw [foldl_refreshOne_cons stat c seen p paths hseen.1, ih hrest, hsame]
      · cases hchanged : c.isChanged p (stat p) <;> simp [hchanged]
      · intro q hq
        split
        · simp [hseen.2 q hq, hne q hq]
        · exact hseen.2 q hq
  exact hfold c [] (by simp)

/-- What is remembered afterwards is what was seen of the files, and what was remembered of the others. -/
theorem remembered_refresh (hpaths : (paths.map (·.toString)).Nodup) (text : String) :
    (c.refresh stat paths).1.remembered text =
      (paths.find? fun p => p.toString = text).elim (c.remembered text) stat := by
  simp only [remembered, get?_refresh (Agree.of_nodup hpaths), WideText.proper.injEq]
  cases paths.find? fun p => p.toString = text with
  | none => rfl
  | some p => simp [noteOf, Function.comp_def]

/-- Asking for files and noting them changes nothing but the entries. -/
theorem refresh_eq (c : ChangeCache) (stat : Path → Option Stat) (paths : List Path) :
    (c.refresh stat paths).1 = { c with entries := (c.refresh stat paths).1.entries } := by
  have hrecord (c : ChangeCache) (p : Path) (now : Option Stat) :
      c.record p now = { c with entries := (c.record p now).entries } := by cases now <;> rfl
  have hfold (state : ChangeCache × List String) : (paths.foldl (refreshOne stat) state).1 =
      { state.1 with entries := (paths.foldl (refreshOne stat) state).1.entries } := by
    induction paths generalizing state with
    | nil => rfl
    | cons p paths ih =>
      have hone : (refreshOne stat state p).1 = state.1.record p (stat p) := rfl
      rw [List.foldl_cons, ih, hone, hrecord]
  exact hfold (c, [])

/-! ### Asking again -/

theorem record_of_noted {now : Option Stat} (h : c.entries.get? (.proper p.toString) = noteOf p now) :
    c.record p now = c := by
  cases now with
  | none => rw [record, Table.erase_of_get? h]
  | some now => rw [record, Table.set_of_get? h]

/-- Nothing is written that is there already. -/
theorem refresh_of_noted (h : ∀ p ∈ paths, c.entries.get? (.proper p.toString) = noteOf p (stat p)) :
    (c.refresh stat paths).1 = c := by
  have hfold (seen : List String) : (paths.foldl (refreshOne stat) (c, seen)).1 = c := by
    induction paths generalizing seen with
    | nil => rfl
    | cons p paths ih =>
      rw [List.forall_mem_cons] at h
      rw [List.foldl_cons, refreshOne, record_of_noted h.1]
      exact ih h.2 _
  exact hfold []

theorem isChanged_of_noted {now : Option Stat} (h : c.entries.get? (.proper p.toString) = noteOf p now) :
    c.isChanged p now ↔ now = none := by
  rw [← record_of_noted h, isChanged_record_iff]

/-- What outlasts its file still does when files with short numbers are noted. -/
theorem Lasting.refresh (h : Lasting c.entries) (hshort : ∀ p ∈ paths, ∀ now, stat p = some now → now.IsShort) :
    Lasting (c.refresh stat paths).1.entries := by
  have hfold (state : ChangeCache × List String) (h : Lasting state.1.entries) :
      Lasting (paths.foldl (refreshOne stat) state).1.entries := by
    induction paths generalizing state with
    | nil => exact h
    | cons p paths ih =>
      rw [List.forall_mem_cons] at hshort
      exact ih hshort.2 _ (h.record p hshort.1)
  exact hfold (c, []) h

end Userscript.ChangeCache
