import Userscript.Proofs.Build.Conservation
import Userscript.Proofs.Build.Gate
import Userscript.Proofs.ChangeCache.Refreshing
import Userscript.Proofs.Tree.Keeping

/-!
# What a build leaves of the change cache

A build leaves the file of the change cache alone until all else has ended well, and then it writes the
cache that it has loaded, with notes of the modules that it has located.

## Main definitions

* `Build.cachePlace` — where the change cache is kept
* `Build.CacheApart` — no other file that a build writes stands there

## Main results

* `keepsFile_of_not_succeeds` — a build that has not ended well leaves the file alone
* `exists_saved_of_mem` — a build that writes the file writes what it has refreshed
* `exists_refreshed_of_run` — how a build counts the modules that have changed
-/

namespace Userscript

namespace Build

variable {s : Settings} {o : Options} {host : Host} {world after : World} {result : Result}
  {found : ChangeCache × Bundle} {t : Tree}

/-! ### Where the change cache is kept -/

/-- The files that are written in a build before its change cache is: those of the build, those of the
programs that it starts, and the one that Terser reads. -/
inductive OtherFile (s : Settings) (o : Options) (host : Host) : Path → Prop
  | transformed {p : Path} : Transformed s o p → OtherFile s o host p
  | tool {t : Tree} {argv : List String} {file : Path × Bytes} : file ∈ (host.run t argv).files →
    OtherFile s o host file.1
  | input : OtherFile s o host (host.scratch.child ("input-" ++ (outputPath s o).name))

/-- Where the change cache is kept: its path leads there, or nowhere. -/
def cachePlace (s : Settings) : List String := Path.withoutDots s.cachePath.parts

/-- No other file that is written in a build stands where the change cache is kept, nor does the temporary
folder, which is not on the way to the change cache either. -/
structure CacheApart (s : Settings) (o : Options) (host : Host) : Prop where
  misses : ∀ p, OtherFile s o host p → p.Misses (cachePlace s)
  absolute : host.scratch.isAbsolute
  dots_not_mem : ".." ∉ host.scratch.parts
  not_on_way : ∀ init, init <+: s.cachePath.parts → ¬ host.scratch.parts <+: Path.withoutDots init
  not_below : ¬ cachePlace s <+: host.scratch.parts

/-- A step may do anything that leaves the file alone that a path leads to. -/
def sparing (p : Path) : Scope where
  calls _ := True
  written _ := True
  tree := Tree.KeepsFile p
  error _ := True
  tree_refl := .refl _
  tree_trans := .trans

theorem admits_sparing {p q : Path} (habsolute : p.isAbsolute) (h : q.Misses (Path.withoutDots p.parts)) :
    (sparing p).Admits q where
  written := trivial
  folders t := Tree.keepsFile_of_grows habsolute (Tree.grows_makeFolders t _)
  file := Tree.keepsFile_writeFile habsolute h

/-- A step leaves the file alone that a path leads to, whether it fails or not. -/
def Spares {α : Type} (host : Host) (p : Path) (step : Step α) : Prop :=
  ∀ state : World × Result, Tree.KeepsFile p state.1.tree (step host state).2.1.tree

theorem spares_of_within {p : Path} {step : Step Unit} (h : step.Within host (sparing p)) :
    Spares host p step :=
  fun state => (h state).1.1.tree

theorem Spares.followedBy {α : Type} {p : Path} {first : Step α} {second : α → Step Unit}
    (h : Spares host p first) (hsecond : ∀ value, Spares host p (second value)) :
    Spares host p (first.followedBy second) := by
  intro state
  have hstate := h state
  rw [snd_followedBy]
  rcases hrun : first host state with ⟨failure | value, mid⟩ <;> rw [hrun] at hstate
  · exact hstate
  · exact hstate.trans (hsecond value mid)

theorem spares_assembled (s : Settings) (o : Options) (host : Host) (output p : Path) :
    Spares host p (assembled s o output) := by
  rintro ⟨world, r⟩
  obtain ⟨value, r', hdoes, -⟩ := exists_does_assembled s o world.tree output r
  obtain ⟨log, hrun⟩ := hdoes host world rfl
  rw [hrun]
  exact .refl _ _

section sparing

variable (hapart : CacheApart s o host) (habsolute : s.cachePath.isAbsolute)

include hapart

/-- The change cache is written at the end of a build only. -/
theorem CacheApart.not_transformed (habsolute : s.cachePath.isAbsolute) : ¬ Transformed s o s.cachePath :=
  fun h => Path.not_misses_self habsolute (hapart.misses _ (.transformed h))

include habsolute

theorem CacheApart.admitsTools : (sparing s.cachePath).AdmitsTools host :=
  fun t _ _ stamp =>
    Tree.keepsFile_writeAll habsolute (fun _ hfile => hapart.misses _ (.tool hfile)) stamp t

theorem CacheApart.admitsFolder :
    Terser.AdmitsFolder (sparing s.cachePath) host ("input-" ++ (outputPath s o).name) where
  make := Tree.keepsFile_make habsolute hapart.not_on_way hapart.not_below
  write := Tree.keepsFile_writeFile habsolute (hapart.misses _ .input)
  remove := Tree.keepsFile_delete habsolute hapart.absolute hapart.dots_not_mem hapart.not_on_way

/-- Up to its end, a build leaves the file of the change cache alone. -/
theorem CacheApart.spares_shrunk : Spares host s.cachePath (shrunk s o (outputPath s o)) := by
  have hadmits {p : Path} (h : Transformed s o p) : (sparing s.cachePath).Admits p :=
    admits_sparing habsolute (hapart.misses _ (.transformed h))
  have htools := hapart.admitsTools habsolute
  refine .followedBy (.followedBy (.followedBy (.followedBy (spares_assembled _ _ _ _ _)
    fun found => ?_) fun found => ?_) fun found => ?_) fun found => ?_
  · exact spares_of_within (within_writeBundle (hadmits .bundle) found.2)
  · exact spares_of_within (within_validate (fun _ _ => trivial) (fun _ => trivial) (fun _ _ => trivial) _)
  · exact spares_of_within (within_lintIf (fun _ _ => trivial) htools fun _ => trivial)
  · exact spares_of_within (within_shrink (fun _ _ => trivial) htools (fun _ => trivial)
      (hapart.admitsFolder habsolute) (hadmits .bundle)
      (fun hoptimized hplain _ hcopy => hadmits (.debugCopy hoptimized hplain hcopy))
      (fun hminify _ hmap => hadmits (.sourceMap hminify hmap)) found.2)

end sparing

/-! ### What a build leaves of the change cache -/

/-- The steps of a build end with those up to the change cache, or with the change cache. -/
theorem run_steps (s : Settings) (o : Options) (output : Path) (host : Host) (state : World × Result) :
    steps s o output host state =
      match shrunk s o output host state with
      | (.error failure, mid) => (.error failure, mid)
      | (.ok found, mid) =>
        match saveCache found.1 host mid.1 with
        | (.error failure, w) => (.error failure, w, mid.2)
        | (.ok _, w) => (.ok (), w, mid.2) := by
  rw [steps_eq, Program.run_bind]
  rcases shrunk s o output host state with ⟨failure | found, mid⟩
  · rfl
  · dsimp only
    rw [Program.run_bind, Step.act]
    rcases saveCache found.1 host mid.1 with ⟨failure | cache, w⟩ <;> rfl

/-- A build that has not ended well leaves the file of the change cache alone. -/
theorem keepsFile_of_not_succeeds (hapart : CacheApart s o host) (habsolute : s.cachePath.isAbsolute)
    (h : ¬ Succeeds s o host world) :
    Tree.KeepsFile s.cachePath world.tree (run s o host world).2.tree := by
  have hspares := hapart.spares_shrunk habsolute (start s o world)
  obtain ⟨log, hrun⟩ := exists_run_eq s o host world
  have hsteps := run_steps s o (outputPath s o) host (start s o world)
  rcases hshrunk : shrunk s o (outputPath s o) host (start s o world) with ⟨failure | found, w, r⟩ <;>
    rw [hshrunk] at hspares hsteps
  · rw [hrun, hsteps]
    exact hspares
  · obtain ⟨ended, w', hsave, -, hcases⟩ := saveCache_cases host found.1 w
    dsimp only at hsteps
    rw [hsave] at hsteps
    cases ended with
    | ok saved => exact absurd (succeeds_of_steps hsteps) h
    | error failure =>
      rcases hcases with ⟨-, htree⟩ | ⟨-, hok, -⟩
      · rw [hrun, hsteps]
        exact htree ▸ hspares
      · cases hok

/-- A build up to its end has not written the change cache. -/
theorem not_mem_written_shrunk (hcache : ¬ Transformed s o s.cachePath) : s.cachePath ∉
    (shrunk s o (outputPath s o) host (start s o world)).2.1.written.drop world.written.length := by
  obtain ⟨checks, lints, smalls, bundle, transformed, hcourse⟩ := course_shrunk s o host world
  rw [hcourse.written, List.append_nil, List.append_assoc, List.drop_left, List.mem_append]
  rintro (h | h)
  · rcases hcourse.isBundle with rfl | rfl
    · cases h
    · exact hcache (List.mem_singleton.1 h ▸ .bundle)
  · exact hcache (hcourse.isTransformed _ h)

/-- A build that writes the change cache leaves the one that it has refreshed. -/
theorem exists_saved_of_mem (hcache : ¬ Transformed s o s.cachePath)
    (h : s.cachePath ∈ filesWritten s o host world) : ∃ found mid,
      assembled s o (outputPath s o) host (start s o world) = (.ok found, mid) ∧
        (run s o host world).2.tree.read s.cachePath =
          .ok (Utf8.encode { found.1 with lastBuild := host.clock }.encode) := by
  have hnot := @not_mem_written_shrunk s o host world hcache
  obtain ⟨log, hrun⟩ := exists_run_eq s o host world
  rw [filesWritten, hrun] at h
  have hsteps := run_steps s o (outputPath s o) host (start s o world)
  rcases hshrunk : shrunk s o (outputPath s o) host (start s o world) with ⟨failure | found, w, r⟩ <;>
    rw [hshrunk] at hnot hsteps
  · rw [hsteps] at h
    exact absurd h hnot
  · have hpath := cachePath_of_gives_shrunk ⟨_, _, hshrunk⟩
    -- No earlier step writes the cache, so saving it did.
    obtain ⟨ended, w', hsave, -, hcases⟩ := saveCache_cases host found.1 w
    dsimp only at hsteps
    rw [hsave] at hsteps
    rcases hcases with ⟨hwritten, -⟩ | ⟨-, rfl, hwrite⟩
    · have hlast : (steps s o (outputPath s o) host (start s o world)).2.1.written = w.written := by
        rw [hsteps, ← hwritten]
        cases ended <;> rfl
      rw [show World.written _ = _ from hlast] at h
      exact absurd h hnot
    · obtain ⟨mid, hlinted, -⟩ := followedBy_eq_ok_iff.1 hshrunk
      obtain ⟨mid, hchecked, -⟩ := followedBy_eq_ok_iff.1 hlinted
      obtain ⟨mid, hwritten, -⟩ := followedBy_eq_ok_iff.1 hchecked
      obtain ⟨mid, hassembled, -⟩ := followedBy_eq_ok_iff.1 hwritten
      refine ⟨found, mid, hassembled, ?_⟩
      rw [hrun, hsteps, ← hpath]
      exact Tree.read_writeFile hwrite

/-- What a build with a bundle has noted in the change cache. -/
theorem refreshed_of_assembled {state : World × Result}
    (h : assembled s o (outputPath s o) host (start s o world) = (.ok found, state)) :
    Refreshed s world.tree found.1 state.2.changed := by
  obtain ⟨value, r, hdoes, hassembling⟩ :=
    exists_does_assembled s o world.tree (outputPath s o) (start s o world).2
  obtain ⟨log, hrun⟩ := hdoes host world rfl
  rw [show (world, (start s o world).2) = start s o world from rfl, h] at hrun
  cases hrun
  cases hassembling with
  | bundle _ _ _ _ hrefreshed => exact hrefreshed

theorem changed_of_run (h : run s o host world = (.ok result, after)) :
    result.changed = (recordOf s o host world).changed := by
  rw [run_eq] at h
  rw [recordOf]
  rcases hsteps : steps s o (outputPath s o) host (start s o world) with ⟨(error | fault) | done, w, r⟩ <;>
    rw [hsteps] at h <;> cases h <;> rfl

/-- If the modules are located, there are some. -/
theorem files_ne_nil_of_located {located : Module.Located}
    (h : Reading.Returns (Module.locate s t) (.ok located)) : Module.files s t ≠ [] := by
  intro hfiles
  cases hfault : Module.usesBefore.findSome? s.fault? with
  | some fault => cases h.unique (Module.returns_locate_of_fault hfault t)
  | none =>
    have hlocate := Module.returns_locate (List.findSome?_eq_none_iff.1 hfault) t
    rw [if_pos hfiles] at hlocate
    cases h.unique hlocate

/-- A build that locates its modules and gives a result has refreshed the change cache and counts the
modules that have changed. -/
theorem exists_refreshed_of_run {located : Module.Located}
    (hlocated : Reading.Returns (Module.locate s world.tree) (.ok located))
    (h : run s o host world = (.ok result, after)) : ∃ cache, Refreshed s world.tree cache result.changed := by
  rw [changed_of_run h]
  obtain ⟨value, r, hdoes, hassembling⟩ :=
    exists_does_assembled s o world.tree (outputPath s o) (start s o world).2
  obtain ⟨log, hrun⟩ := hdoes host world rfl
  rw [show (world, (start s o world).2) = start s o world from rfl] at hrun
  have hsteps : steps s o (outputPath s o) host (start s o world) =
      (assembled s o (outputPath s o) >>= finish s o (outputPath s o)) host (start s o world) := by
    rw [steps_eq_bind]
  rw [Program.run_bind, hrun] at hsteps
  -- The count goes on record before the modules are merged, and nothing changes it later.
  cases hassembling with
  | fault =>
    rw [run_eq, hsteps] at h
    cases h
  | noModules hfiles => exact absurd hfiles (files_ne_nil_of_located hlocated)
  | nothingLeft _ _ _ hrefreshed =>
    rw [recordOf, hsteps]
    exact hrefreshed
  | @bundle cache bundle warnings r _ _ _ _ hrefreshed =>
    refine ⟨cache, ?_⟩
    rw [(within_finish_of_assembled hrun).1.changed]
    exact hrefreshed

end Build

end Userscript
