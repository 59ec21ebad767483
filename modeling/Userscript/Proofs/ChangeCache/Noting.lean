import Userscript.Proofs.ChangeCache.Refreshing

/-!
# Noting what has changed

To refresh a change cache, each file is asked for and noted before the next one is asked for. The answer is
still what the cache before the first note would have said of each file, and a second round finds nothing but
the files that are not there. All this is about paths that can name a file: one that holds NUL stops the round
half-way.

## Main definitions

* `ChangeCache.Notes` — a cache holds what a round of notes leaves
* `ChangeCache.Reachable` — the caches that a project can come to

## Main results

* `refreshCache_eq_ok_iff`, `refreshCache_eq_error` — when a round gives an answer, and how it is broken off
  otherwise
* `refreshCache_answers` — what a round over paths that can name a file answers and leaves
* `refreshCache_nulInPath` — a path that names no file
-/

namespace Userscript.ChangeCache

open Build (statOf refreshFrom refreshCache)

variable {t : Tree} {c c' : ChangeCache} {paths before rest : List Path} {p : Path}
  {entries : Table Entry WideText}

/-- What a round of notes leaves: each file is noted as it is, one that is not there is not noted, and everything
else is as before. -/
structure Notes (t : Tree) (paths : List Path) (c c' : ChangeCache) : Prop where
  listed : ∀ p ∈ paths, c'.entries.get? (.proper p.toString) = noteOf p (statOf t p)
  others : ∀ key, (∀ p ∈ paths, key ≠ .proper p.toString) → c'.entries.get? key = c.entries.get? key
  path : c'.path = c.path
  lastBuild : c'.lastBuild = c.lastBuild

/-- The caches that come from an empty one or from a cache file by notes and rounds of notes. -/
inductive Reachable : ChangeCache → Prop
  | empty (path : Path) : Reachable { path }
  | decoded (path : Path) {levels : Nat} {raw : Text} {entries : Table Entry WideText} {lastBuild : Binary64} :
    decode? levels raw = .ok (entries, lastBuild) → Reachable { path, entries, lastBuild }
  | record {c : ChangeCache} (p : Path) (now : Option Stat) : Reachable c → Reachable (c.record p now)
  | refresh {c : ChangeCache} (t : Tree) (paths : List Path) : Reachable c → Reachable (refreshCache t c paths).2

/-! ### Rounds of notes -/

/-- Paths that the file system takes are all asked for. -/
theorem refreshFrom_of_sound (h : ∀ p ∈ paths, p.hasNul = false) (state : ChangeCache × List String) :
    refreshFrom t state paths =
      (.ok (paths.foldl (refreshOne (statOf t)) state).2, (paths.foldl (refreshOne (statOf t)) state).1) := by
  induction paths generalizing state with
  | nil => rfl
  | cons p paths ih =>
    rw [List.forall_mem_cons] at h
    simp [refreshFrom, h.1, ih h.2]

theorem refreshCache_of_sound (h : ∀ p ∈ paths, p.hasNul = false) :
    refreshCache t c paths = (.ok (c.refresh (statOf t) paths).2, (c.refresh (statOf t) paths).1) :=
  refreshFrom_of_sound h (c, [])

/-- A path that the file system does not take ends the round, and the notes before it stay. -/
theorem refreshFrom_of_nul (hbefore : ∀ q ∈ before, q.hasNul = false) (hp : p.hasNul)
    (state : ChangeCache × List String) : refreshFrom t state (before ++ p :: rest) =
      (.error (.fault .nulInPath), (before.foldl (refreshOne (statOf t)) state).1) := by
  induction before generalizing state with
  | nil => simp [refreshFrom, hp]
  | cons q before ih =>
    rw [List.forall_mem_cons] at hbefore
    simp [refreshFrom, hbefore.1, ih hbefore.2]

theorem refreshCache_of_nul (hbefore : ∀ q ∈ before, q.hasNul = false) (hp : p.hasNul) :
    refreshCache t c (before ++ p :: rest) = (.error (.fault .nulInPath), (c.refresh (statOf t) before).1) :=
  refreshFrom_of_nul hbefore hp (c, [])

/-- A round ends well, or at the first path that the file system does not take. -/
theorem sound_or_exists_nul (paths : List Path) : (∀ p ∈ paths, p.hasNul = false) ∨
    ∃ before p rest, paths = before ++ p :: rest ∧ (∀ q ∈ before, q.hasNul = false) ∧ p.hasNul := by
  cases hfound : paths.find? Path.hasNul with
  | none =>
    have hnone := List.find?_eq_none.1 hfound
    exact .inl fun p hp => Bool.eq_false_iff.2 (hnone p hp)
  | some p =>
    obtain ⟨hp, before, rest, rfl, hbefore⟩ := List.find?_eq_some_iff_append.1 hfound
    exact .inr ⟨before, p, rest, rfl, fun q hq => by simpa using hbefore q hq, hp⟩

theorem notes_refresh (h : Agree (statOf t) paths) : Notes t paths c (c.refresh (statOf t) paths).1 where
  listed p hp := by
    rw [get?_refresh h]
    cases hfound : paths.find? fun q => WideText.proper q.toString = .proper p.toString with
    | none =>
      have hne := List.find?_eq_none.1 hfound p hp
      exact absurd (decide_eq_true rfl) hne
    | some q =>
      have htext : q.toString = p.toString := by simpa using List.find?_some hfound
      have hstat := h q (List.mem_of_find?_eq_some hfound) p hp htext
      rw [Option.elim_some, noteOf, noteOf, htext, hstat]
  others key hkey := by
    have hnone : paths.find? (fun q => WideText.proper q.toString = key) = none :=
      List.find?_eq_none.2 fun q hq => by simpa using (hkey q hq).symm
    rw [get?_refresh h, hnone]
    rfl
  path := by rw [refresh_eq]
  lastBuild := by rw [refresh_eq]

/-- A second round finds the files changed that are not there. -/
theorem Notes.mem_refresh_iff (h : Notes t paths c c') (hagree : Agree (statOf t) paths) (text : String) :
    text ∈ (c'.refresh (statOf t) paths).2 ↔ ∃ p ∈ paths, p.toString = text ∧ statOf t p = none := by
  rw [mem_refresh hagree]
  refine exists_congr fun p => and_congr_right fun hp => and_congr_right fun _ => ?_
  exact isChanged_of_noted (h.listed p hp)

/-! ### Keys and paths -/

theorem named_record (h : ∀ entry ∈ c.entries, entry.2.path = entry.1) (p : Path) (now : Option Stat) :
    ∀ entry ∈ (c.record p now).entries, entry.2.path = entry.1 := by
  intro entry hentry
  rcases mem_record hentry with hentry | ⟨now, -, rfl⟩
  · exact h entry hentry
  · rfl

theorem named_refreshFrom (state : ChangeCache × List String)
    (h : ∀ entry ∈ state.1.entries, entry.2.path = entry.1) :
    ∀ entry ∈ (refreshFrom t state paths).2.entries, entry.2.path = entry.1 := by
  induction paths generalizing state with
  | nil => exact h
  | cons p paths ih =>
    rw [refreshFrom]
    split
    · exact h
    · exact ih _ (named_record h p _)

/-- Each entry carries its own key as path. -/
theorem Reachable.named (h : Reachable c) : ∀ entry ∈ c.entries, entry.2.path = entry.1 := by
  induction h with
  | empty path => exact List.forall_mem_nil _
  | decoded path hdecode =>
    obtain ⟨-, fields, files, -, -, rfl, -⟩ := decode?_eq_ok_iff.1 hdecode
    intro entry hentry
    obtain ⟨row, -, hrow⟩ := List.mem_filterMap.1 hentry
    obtain ⟨stat, -, rfl⟩ := Option.map_eq_some_iff.1 hrow
    rfl
  | record p now _ ih => exact named_record ih p now
  | refresh t paths _ ih => exact named_refreshFrom _ ih

/-! ### What a round answers -/

/-- A round gives an answer exactly if the file system takes all paths. -/
theorem refreshCache_eq_ok_iff {changed : List String} {after : ChangeCache} :
    refreshCache t c paths = (.ok changed, after) ↔
      (∀ p ∈ paths, p.hasNul = false) ∧ c.refresh (statOf t) paths = (after, changed) := by
  rcases sound_or_exists_nul paths with hsound | ⟨before, p, rest, rfl, hbefore, hp⟩
  · rw [refreshCache_of_sound hsound, and_iff_right hsound, Prod.ext_iff, Prod.ext_iff, and_comm,
      Except.ok.injEq]
  · rw [refreshCache_of_nul hbefore hp]
    refine iff_of_false (fun hround => ?_) fun ⟨hsound, _⟩ => ?_
    · cases hround
    · simp [hsound p (by simp)] at hp

/-- A round is broken off at the first path that the file system does not take. -/
theorem refreshCache_eq_error {failure : Failure} {after : ChangeCache}
    (h : refreshCache t c paths = (.error failure, after)) : failure = .fault .nulInPath ∧
      ∃ before p rest, paths = before ++ p :: rest ∧ p.hasNul ∧
        ∃ changed, refreshCache t c before = (.ok changed, after) := by
  rcases sound_or_exists_nul paths with hsound | ⟨before, p, rest, rfl, hbefore, hp⟩
  · rw [refreshCache_of_sound hsound] at h
    cases h
  · rw [refreshCache_of_nul hbefore hp] at h
    cases h
    exact ⟨rfl, before, p, rest, rfl, hp, _, refreshCache_of_sound hbefore⟩

/-- A round that gives an answer has noted all files, and a second round leaves the cache as it is. -/
theorem notes_of_refreshCache (hagree : Agree (statOf t) paths) {changed : List String} {after : ChangeCache}
    (h : refreshCache t c paths = (.ok changed, after)) : Notes t paths c after ∧
      ∃ missing, refreshCache t after paths = (.ok missing, after) ∧ missing.Nodup ∧
        ∀ text, text ∈ missing ↔ ∃ p ∈ paths, p.toString = text ∧ statOf t p = none := by
  obtain ⟨hsound, hrefresh⟩ := refreshCache_eq_ok_iff.1 h
  obtain rfl : (c.refresh (statOf t) paths).1 = after := congrArg Prod.fst hrefresh
  have hnotes : Notes t paths c (c.refresh (statOf t) paths).1 := notes_refresh hagree
  have hround := refreshCache_of_sound (t := t) (c := (c.refresh (statOf t) paths).1) hsound
  rw [refresh_of_noted hnotes.listed] at hround
  exact ⟨hnotes, _, hround, nodup_refresh _ _ paths, hnotes.mem_refresh_iff hagree⟩

/-- A round of notes over paths that can name a file gives an answer. It names the files that the cache before
it would have called changed, each once, and a second round names those that are not there and leaves the cache
as it is. Each note is kept under the path that is in it. -/
theorem refreshCache_answers (t : Tree) (c : ChangeCache) (texts : List String)
    (hnamable : ∀ p ∈ texts.map Path.ofString, p.hasNul = false) :
    let paths := texts.map Path.ofString
    (∃ changed after, refreshCache t c paths = (.ok changed, after) ∧
      (changed.Nodup ∧
        ∀ text, text ∈ changed ↔ ∃ p ∈ paths, p.toString = text ∧ c.isChanged p (statOf t p)) ∧
      Notes t paths c after ∧
      ∃ missing, refreshCache t after paths = (.ok missing, after) ∧ missing.Nodup ∧
        ∀ text, text ∈ missing ↔ ∃ p ∈ paths, p.toString = text ∧ statOf t p = none) ∧
    (Reachable c → ∀ entry ∈ c.entries, entry.2.path = entry.1) := by
  intro paths
  have hagree : Agree (statOf t) paths := Agree.ofString _ texts
  have hround := refreshCache_of_sound (t := t) (c := c) hnamable
  refine ⟨⟨_, _, hround, ⟨nodup_refresh c _ paths, fun text => mem_refresh hagree⟩, ?_⟩, Reachable.named⟩
  exact notes_of_refreshCache hagree hround

/-- One file is there and written in two ways, and another one is not there. -/
theorem refreshCache_answers_twice :
    let t : Tree := { root := .folder [("a.js", .file [] 7)] }
    let c : ChangeCache := { path := Path.ofString "/.build-cache.json" }
    let paths := ["/a.js", "/b.js", "/a.js/."].map Path.ofString
    (∀ p ∈ paths, p.hasNul = false) ∧ Reachable c ∧
      ∃ after, refreshCache t c paths = (.ok ["/a.js", "/b.js"], after) ∧ Notes t paths c after ∧
        ∀ entry ∈ c.entries, entry.2.path = entry.1 := by
  intro t c paths
  have hsound : ∀ p ∈ paths, p.hasNul = false := by decide +kernel
  have hreachable : Reachable c := .empty _
  have hchanged : (c.refresh (statOf t) paths).2 = ["/a.js", "/b.js"] := by decide +kernel
  have hround := refreshCache_of_sound (t := t) (c := c) hsound
  rw [hchanged] at hround
  obtain ⟨⟨changed, after, hanswer, -, hnotes, -⟩, hnamed⟩ :=
    refreshCache_answers t c ["/a.js", "/b.js", "/a.js/."] hsound
  obtain ⟨hchanged, rfl⟩ := Prod.ext_iff.1 (hround.symm.trans hanswer)
  exact ⟨hsound, hreachable, _, hround, hnotes, hnamed hreachable⟩

/-- No file can have this path, and a round over it gives no answer, though nothing is remembered about it. -/
theorem refreshCache_nulInPath :
    let t : Tree := { root := .folder [] }
    let c : ChangeCache := { path := Path.ofString "/.build-cache.json" }
    let p := Path.ofString "/a\x00b.js"
    statOf t p = none ∧ c.isChanged p none ∧ refreshCache t c [p] = (.error (.fault .nulInPath), c) := by
  intro t c p
  have hnul : p.hasNul := by decide +kernel
  have hfault : refreshCache t c ([] ++ [p]) = (.error (.fault .nulInPath), c) :=
    refreshCache_of_nul (List.forall_mem_nil _) hnul
  exact ⟨by decide +kernel, rfl, hfault⟩

end Userscript.ChangeCache
