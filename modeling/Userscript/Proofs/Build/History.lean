import Userscript.Proofs.Build.CacheFile

/-!
# Builds and edits one after the other

Between the builds of a project its tree is edited in any way that leaves the file of the change cache
alone. A build counts the modules that differ from what the latest successful build saw that located
them. A build that has failed has no part in this, nor has one that did not locate the module.

## Main definitions

* `Build.Session` — a build that is over
* `Build.lastSeen` — what the latest successful build saw of a module
* `Build.History` — a project after builds and edits

## Main results

* `History.remembers` — what the file of the change cache holds after any history
* `changed_eq_countP` — the modules that have changed
-/

namespace Userscript.Build

variable {s : Settings} {o : Options} {host : Host} {world after : World} {result : Result} {t : Tree}

/-! ### Histories -/

/-- A build that is over: the tree that it began in, and whether it has ended well. -/
structure Session where
  tree : Tree
  isSuccess : Bool

/-- Whether a build has ended well. -/
def endsWell : Except Failure Result → Bool
  | .ok result => result.isSuccess
  | .error _ => false

/-- A build in a world as a session. -/
def sessionOf (s : Settings) (o : Options) (host : Host) (world : World) : Session :=
  ⟨world.tree, endsWell (run s o host world).1⟩

/-- The modules that a build locates in a tree. -/
def locatedIn (s : Settings) (t : Tree) : List ModuleFile :=
  match (Module.locate s t []).1 with
  | .ok located => located.modules
  | .error _ => []

/-- The modules that a session has located, if it has ended well. -/
def Session.located (s : Settings) (b : Session) : List ModuleFile :=
  if b.isSuccess then locatedIn s b.tree else []

/-- The stamp and the size that the latest successful session saw of a module that located it, where the
sessions stand with the latest first. Modules are told apart by the texts of their paths. -/
def lastSeen (s : Settings) : List Session → String → Option Stat
  | [], _ => none
  | b :: past, text =>
    ((b.located s).find? fun m => m.path.toString = text).elim (lastSeen s past text)
      fun m => statOf b.tree m.path

/-- A tree as file systems have them: names in folders are names and differ, and no stamp or size of a
module is too long to be read. -/
structure Ordinary (s : Settings) (t : Tree) : Prop where
  wellNamed : t.root.WellNamed
  short : ∀ m ∈ locatedIn s t, ∀ now, statOf t m.path = some now → now.IsShort

/-- A project that began without a file of the change cache, after some sessions, the latest first. Between
them anything may have happened that leaves this file alone. -/
inductive History (s : Settings) : List Session → World → Prop
  | fresh {world : World} : (∀ content, ¬ world.tree.HoldsFile (cachePlace s) content) → History s [] world
  | edit {past : List Session} {world world' : World} : History s past world →
    Tree.KeepsFile s.cachePath world.tree world'.tree → History s past world'
  | build {past : List Session} {world : World} {o : Options} {host : Host} : History s past world →
    Ordinary s world.tree → CacheApart s o host →
      (Succeeds s o host world → s.cachePath ∈ filesWritten s o host world) →
        History s (sessionOf s o host world :: past) (run s o host world).2

theorem endsWell_iff : endsWell (run s o host world).1 ↔ Succeeds s o host world := by
  unfold Succeeds
  cases (run s o host world).1 with
  | ok result => simp [endsWell]
  | error failure => simp [endsWell]

theorem locatedIn_eq {located : Module.Located} (h : Reading.Returns (Module.locate s t) (.ok located)) :
    locatedIn s t = located.modules := by
  rw [locatedIn, h []]

/-- The file of the change cache holds what the sessions have seen, or there is none and they have seen
nothing. -/
def Remembers (s : Settings) (past : List Session) (t : Tree) : Prop :=
  (∀ content, ¬ t.HoldsFile (cachePlace s) content) ∧ (∀ text, lastSeen s past text = none) ∨
    ∃ cache : ChangeCache, t.read s.cachePath = .ok (Utf8.encode cache.encode) ∧
      ChangeCache.Lasting cache.entries ∧ ∀ text, cache.remembered text = lastSeen s past text

theorem Remembers.of_keepsFile {past : List Session} {t t' : Tree} (h : Remembers s past t)
    (hkeeps : Tree.KeepsFile s.cachePath t t') : Remembers s past t' := by
  rcases h with ⟨hnone, hlast⟩ | ⟨cache, hcache, hlasting, hlast⟩
  · exact .inl ⟨fun content hthere => hnone content ((hkeeps.holdsFile_iff content).1 hthere), hlast⟩
  · exact .inr ⟨cache, hkeeps.read hcache, hlasting, hlast⟩

/-- The change cache that is loaded remembers what the sessions have seen. -/
theorem Remembers.of_loaded {past : List Session} {cache : ChangeCache} (habsolute : s.cachePath.isAbsolute)
    (h : Remembers s past t) (hload : Reading.Returns (loadCache s.cachePath t) (.ok cache)) :
    ChangeCache.Lasting cache.entries ∧ ∀ text, cache.remembered text = lastSeen s past text := by
  have hloaded := hload []
  rcases h with ⟨hnone, hlast⟩ | ⟨saved, hread, hlasting, hlast⟩
  · rw [ChangeCache.loadCache_fst] at hloaded
    have htext : ∃ fault, t.readText s.cachePath = .error fault := by
      unfold Tree.readText
      cases hcontent : t.read s.cachePath with
      | error fault => exact ⟨_, rfl⟩
      | ok content =>
        exact absurd ((Tree.read_eq_ok_iff_holdsFile habsolute).1 hcontent).2 (hnone content)
    obtain ⟨fault, hfault⟩ := htext
    rw [hfault] at hloaded
    cases hloaded
    exact ⟨.nil, fun text => (hlast text).symm⟩
  · obtain ⟨time, hcache, -⟩ := ChangeCache.exists_loadCache_of_lasting hread hlasting []
    cases hcache.symm.trans hloaded
    refine ⟨hlasting.of_perm (ChangeCache.sorted_perm _), fun text => ?_⟩
    rw [← hlast, ChangeCache.remembered, ChangeCache.remembered, ChangeCache.get?_sorted hlasting]

/-- The paths of the modules in order are written in different ways. -/
theorem nodup_paths_arranged (hwell : t.root.WellNamed) :
    (((Module.arranged s t).modules.map (·.path)).map (·.toString)).Nodup := by
  have hmem {m : ModuleFile} (hm : m ∈ (Module.arranged s t).modules) : m ∈ Module.files s t :=
    Module.mem_of_mem_order hm
  rw [List.map_map]
  refine List.Nodup.map_on (fun m hm m' hm' => ?_) (.of_map _ (Module.nodup_names_order _ _ _))
  exact Module.toString_path_inj hwell (hmem hm) (hmem hm')

/-- What a successful build leaves in the change cache is what it has seen, and what was seen before of
the modules that it has not located. -/
theorem remembers_of_refreshed {past : List Session} {cache : ChangeCache} {changed : Nat} {b : Session}
    (habsolute : s.cachePath.isAbsolute) (h : Remembers s past b.tree) (hordinary : Ordinary s b.tree)
    (hb : b.isSuccess) (hrefreshed : Refreshed s b.tree cache changed) :
    ChangeCache.Lasting cache.entries ∧ ∀ text, cache.remembered text = lastSeen s (b :: past) text := by
  obtain ⟨hlocate, before, paths, hload, hrefresh, -⟩ := hrefreshed
  have hlocated := locatedIn_eq hlocate
  have hcache := congrArg Prod.fst hrefresh
  dsimp only at hcache
  obtain ⟨hlasting, hlast⟩ := h.of_loaded habsolute hload
  have hnodup := nodup_paths_arranged (s := s) hordinary.wellNamed
  rw [← hcache]
  refine ⟨hlasting.refresh ?_, fun text => ?_⟩
  · intro p hp now hnow
    obtain ⟨m, hm, rfl⟩ := List.mem_map.1 hp
    exact hordinary.short m (hlocated ▸ hm) now hnow
  · rw [ChangeCache.remembered_refresh hnodup, hlast, lastSeen, Session.located, if_pos hb, hlocated,
      List.find?_map, Function.comp_def]
    cases (Module.arranged s b.tree).modules.find? fun m => m.path.toString = text <;> rfl

/-- After any history, the file of the change cache holds what the successful builds have seen. -/
theorem History.remembers {past : List Session} (habsolute : s.cachePath.isAbsolute)
    (h : History s past world) : Remembers s past world.tree := by
  induction h with
  | fresh hnone => exact .inl ⟨hnone, fun _ => rfl⟩
  | edit _ hkeeps ih => exact ih.of_keepsFile hkeeps
  | @build past world o host _ hordinary hapart hwritten ih =>
    by_cases hsucceeds : Succeeds s o host world
    · obtain ⟨found, mid, hassembled, hread⟩ :=
        exists_saved_of_mem (hapart.not_transformed habsolute) (hwritten hsucceeds)
      have hremembers := remembers_of_refreshed (b := sessionOf s o host world) habsolute ih hordinary
        (endsWell_iff.2 hsucceeds) (refreshed_of_assembled hassembled)
      exact .inr ⟨_, hread, hremembers⟩
    · -- A build that has not ended well is passed over by what was seen last.
      have hlast (text : String) :
          lastSeen s (sessionOf s o host world :: past) text = lastSeen s past text := by
        rw [lastSeen, Session.located, sessionOf, if_neg (mt endsWell_iff.1 hsucceeds)]
        rfl
      have hremembers := ih.of_keepsFile (keepsFile_of_not_succeeds hapart habsolute hsucceeds)
      simp only [Remembers, hlast]
      exact hremembers

/-- The modules that a build counts as changed are those that differ from what the latest successful build
saw of them that located them, or that none has located. -/
theorem changed_eq_countP {past : List Session} {located : Module.Located}
    (habsolute : s.cachePath.isAbsolute) (h : History s past world) (hordinary : Ordinary s world.tree)
    (hlocated : Reading.Returns (Module.locate s world.tree) (.ok located))
    (hrun : run s o host world = (.ok result, after)) :
    result.changed =
      located.modules.countP fun m => lastSeen s past m.path.toString ≠ statOf world.tree m.path := by
  obtain ⟨cache, hlocate, before, paths, hload, hrefresh, hchanged⟩ := exists_refreshed_of_run hlocated hrun
  obtain rfl := Except.ok.inj (hlocated.unique hlocate)
  have hnodup := nodup_paths_arranged (s := s) hordinary.wellNamed
  have hlast := ((h.remembers habsolute).of_loaded habsolute hload).2
  have hpaths := congrArg Prod.snd hrefresh
  dsimp only at hpaths
  rw [ChangeCache.snd_refresh hnodup] at hpaths
  rw [hchanged, ← hpaths, List.length_map, ← List.countP_eq_length_filter, List.countP_map]
  refine List.countP_congr fun m hm => ?_
  have hm : m ∈ Module.files s world.tree := Module.mem_of_mem_order hm
  obtain ⟨content, stamp, hfile⟩ := Module.exists_find?_path hordinary.wellNamed hm
  have hstat : statOf world.tree m.path = some ⟨stamp, content.length⟩ := by
    rw [statOf, Tree.stat?, hfile]
    rfl
  simp only [Function.comp_apply, hstat, ChangeCache.isChanged_some, hlast]

/-! ### A module that is edited and restored -/

/-- A project with one module of this stamp, and with these files beside its source folder. -/
def projectAt (stamp : Int) (beside : List (String × Node)) : World where
  tree := {
    root := .folder [("p", .folder
      (("src", .folder [("main.js", .file (Utf8.encode "a()".toList) stamp)]) :: beside))]
    here := ⟨.slash, ["p"]⟩ }

/-- What a build of the project leaves in its cache file. -/
def keptCache : Bytes :=
  ((treeAfter plainSettings {} bareHost (projectAt 0 [])).read plainSettings.cachePath).toOption.getD []

/-- The project with its cache file after a build, and with its module at this stamp. -/
def editedTo (stamp : Int) : World := projectAt stamp [(".build-cache.json", .file keptCache 1)]

/-- A host without any tools, which takes no script for valid. -/
def strictHost : Host := { bareHost with parse := fun _ => some ⟨"no script", none, none⟩ }

theorem cacheApart_of_bare {host : Host} (htools : ∀ t argv, (host.run t argv).files = [])
    (hscratch : host.scratch = bareHost.scratch) : CacheApart plainSettings {} host := by
  have houtput : outputPath plainSettings {} = ⟨.slash, ["p", "bundle.user.js"]⟩ := by decide +kernel
  have hinput : bareHost.scratch.child ("input-" ++ (outputPath plainSettings {}).name) =
      ⟨.slash, ["scratch", "input-bundle.user.js"]⟩ := by decide +kernel
  have hplace : cachePlace plainSettings = ["p", ".build-cache.json"] := by decide +kernel
  have hway : ∀ init ∈ plainSettings.cachePath.parts.inits,
      ¬ bareHost.scratch.parts <+: Path.withoutDots init := by decide +kernel
  refine ⟨fun p hp => ?_, ?_, ?_, fun init hinit => ?_, ?_⟩
  · rw [hplace]
    cases hp with
    | transformed h =>
      cases h with
      | bundle =>
        rw [houtput]
        exact Path.misses_of_parts_ne rfl (by decide) (by decide)
      | debugCopy hoptimized => cases hoptimized
      | sourceMap hminify => cases hminify
    | tool hfile =>
      rw [htools] at hfile
      cases hfile
    | input =>
      rw [hscratch, hinput]
      exact Path.misses_of_parts_ne rfl (by decide) (by decide)
  · rw [hscratch]
    decide +kernel
  · rw [hscratch]
    decide +kernel
  · rw [hscratch]
    exact hway init ((List.mem_inits _ _).2 hinit)
  · rw [hscratch, hplace]
    decide +kernel

theorem wellNamed_projectAt {stamp : Int} {beside : List (String × Node)}
    (hnodup : ("src" :: beside.map (·.1)).Nodup)
    (hbeside : ∀ entry ∈ beside, Path.IsName entry.1 ∧ entry.2.WellNamed) :
    (projectAt stamp beside).tree.root.WellNamed := by
  refine .folder (by simp) (by simp; decide) (List.forall_mem_singleton.2 (.folder hnodup ?_ ?_))
  · have hsrc : Path.IsName "src" := by decide
    exact List.forall_mem_cons.2 ⟨hsrc, fun entry hentry => (hbeside entry hentry).1⟩
  · refine List.forall_mem_cons.2 ⟨?_, fun entry hentry => (hbeside entry hentry).2⟩
    exact .folder (by simp) (by simp; decide) (List.forall_mem_singleton.2 .file)

theorem ordinary_projectAt {stamp : Int} {beside : List (String × Node)}
    (hnodup : ("src" :: beside.map (·.1)).Nodup)
    (hbeside : ∀ entry ∈ beside, Path.IsName entry.1 ∧ entry.2.WellNamed)
    (hshort : ∀ m ∈ locatedIn plainSettings (projectAt stamp beside).tree,
      ∀ now ∈ statOf (projectAt stamp beside).tree m.path, now.IsShort) :
    Ordinary plainSettings (projectAt stamp beside).tree :=
  ⟨wellNamed_projectAt hnodup hbeside, fun m hm now hnow => hshort m hm now hnow⟩

theorem ordinary_editedTo {stamp : Int}
    (hshort : ∀ m ∈ locatedIn plainSettings (editedTo stamp).tree,
      ∀ now ∈ statOf (editedTo stamp).tree m.path, now.IsShort) :
    Ordinary plainSettings (editedTo stamp).tree :=
  ordinary_projectAt (by decide) (List.forall_mem_singleton.2 ⟨by decide, .file⟩) hshort

theorem returns_locate_editedTo :
    Reading.Returns (Module.locate plainSettings (editedTo 0).tree)
      (.ok (Module.arranged plainSettings (editedTo 0).tree)) := by
  have hlocate := @Module.returns_locate plainSettings (by decide) (editedTo 0).tree
  have hfiles : Module.files plainSettings (editedTo 0).tree ≠ [] := by decide +kernel
  have hmanifests : plainSettings.fault? .manifests = none := rfl
  rwa [if_neg hfiles, hmanifests] at hlocate

theorem read_editedTo (stamp : Int) : (editedTo stamp).tree.read plainSettings.cachePath = .ok keptCache := by
  have hcache : plainSettings.cachePath = ⟨.slash, ["p", ".build-cache.json"]⟩ := by decide +kernel
  rw [hcache]
  rfl

/-- A module is built and then edited, the next build fails, and the module is restored: nothing has changed
since the build that has ended well. -/
theorem changed_eq_countP_restored : ∃ past result after,
    History plainSettings past (editedTo 0) ∧ Ordinary plainSettings (editedTo 0).tree ∧
      Reading.Returns (Module.locate plainSettings (editedTo 0).tree)
        (.ok (Module.arranged plainSettings (editedTo 0).tree)) ∧
      run plainSettings {} bareHost (editedTo 0) = (.ok result, after) ∧ result.changed = 0 := by
  obtain ⟨hcache, hdots⟩ : plainSettings.cachePath.isAbsolute ∧ ".." ∉ plainSettings.cachePath.parts := by
    decide +kernel
  have hedit {t : Tree} (h : t.read plainSettings.cachePath = .ok keptCache) (stamp : Int) :
      Tree.KeepsFile plainSettings.cachePath t (editedTo stamp).tree :=
    .of_read hcache hdots fun content => by rw [read_editedTo, h]
  have hapart : CacheApart plainSettings {} bareHost := cacheApart_of_bare (fun _ _ => rfl) rfl
  have hapart' : CacheApart plainSettings {} strictHost := cacheApart_of_bare (fun _ _ => rfl) rfl
  have hfresh : ∀ content, ¬ (projectAt 0 []).tree.HoldsFile (cachePlace plainSettings) content := by
    have hnone : (projectAt 0 []).tree.faceAt (cachePlace plainSettings) = none := by decide +kernel
    rintro content ⟨stamp, hfile⟩
    rw [hnone] at hfile
    cases hfile
  obtain ⟨hwritten, hkept⟩ :
      plainSettings.cachePath ∈ filesWritten plainSettings {} bareHost (projectAt 0 []) ∧
        (treeAfter plainSettings {} bareHost (projectAt 0 [])).read plainSettings.cachePath = .ok keptCache := by
    decide +kernel
  have hfails : ¬ Succeeds plainSettings {} strictHost (editedTo 7) := by
    rw [← endsWell_iff]
    decide +kernel
  have hafter := (keepsFile_of_not_succeeds hapart' hcache hfails).read (read_editedTo 7)
  have hbuilt := History.build (.fresh hfresh) (ordinary_projectAt (by decide) nofun (by decide +kernel))
    hapart fun _ => hwritten
  have hfailed := History.build (.edit hbuilt (hedit hkept 7)) (ordinary_editedTo (by decide +kernel)) hapart'
    (absurd · hfails)
  have hhistory := History.edit hfailed (hedit hafter 0)
  have hordinary : Ordinary plainSettings (editedTo 0).tree := ordinary_editedTo (by decide +kernel)
  rcases hrun : run plainSettings {} bareHost (editedTo 0) with ⟨failure | result, after⟩
  · have hended : endsWell (run plainSettings {} bareHost (editedTo 0)).1 := by decide +kernel
    rw [hrun] at hended
    cases hended
  · refine ⟨_, result, after, hhistory, hordinary, returns_locate_editedTo, rfl, ?_⟩
    rw [changed_eq_countP hcache hhistory hordinary returns_locate_editedTo hrun]
    decide +kernel

end Userscript.Build
