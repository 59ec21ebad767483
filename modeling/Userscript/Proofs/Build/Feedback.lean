import Mathlib.Control.Monad.Basic
import Userscript.Proofs.Build.Written
import Userscript.Proofs.Module.Watching
import Userscript.Proofs.Tree.Names

/-!
# Builds that feed on their own output

A project takes the name of its bundle out of its modules, so that the next build does not merge
the bundle of the last one. Other files that a build writes are not taken out: a bundle that the
options send elsewhere, the copy of a bundle that is optimized, and a change cache with the name of
a module. Where such a file stands among the modules, the next build merges it.

## Main definitions

* `Build.Collected` — a file is collected as a module
* `Build.Reports` — a watch reports a file
* `Build.Exposed` — a file of a build has the name of a module

## Main results

* `accepts_iff_exposed` — which files of a build have the names of modules
* `collected_iff` — a file is collected by its name and by where it stands
* `collected_and_acceptsChange_iff` — which files of a build the next build or a watch takes
* `not_collected_of_plain` — a build to the usual place that keeps no copy is safe
-/

namespace Userscript

theorem ModuleRule.acceptsChange_iff {rule : ModuleRule} {filter : WatchFilter} {reported : String} :
    rule.acceptsChange filter reported ↔
      filter.ignores reported = false ∧ rule.accepts (Path.ofString reported).name := by
  rw [acceptsChange, Bool.and_eq_true, Bool.not_eq_true']

namespace Build

variable {s : Settings} {o : Options} {t : Tree} {p : Path}

/-- A file is collected as a module: a discovery in the source folder finds a module in its
place. -/
def Collected (s : Settings) (t : Tree) (p : Path) : Prop :=
  ∃ m ∈ Module.discover t s.moduleRule (s.sourceRoot t), ∃ folder,
    t.names m.folder = .ok folder ∧ t.names p = .ok (folder ++ [m.name])

/-- A file stands in a folder or below it, and no folder on the way is skipped. -/
def StandsIn (t : Tree) (root p : Path) : Prop :=
  ∃ n names inner child folder, t.find? root = some n ∧ Module.Visits n names inner ∧
    (t.nameOf p, child) ∈ inner.entries ∧ child.isFile ∧
    t.names (root.below names) = .ok folder ∧ t.names p = .ok (folder ++ [t.nameOf p])

/-- A watch reports a file as an absolute path that leads to it. -/
def Reports (t : Tree) (p : Path) (reported : String) : Prop :=
  (Path.ofString reported).isAbsolute ∧ t.names (Path.ofString reported) = t.names p

/-- A file that a build can write has the name of a module. -/
inductive Exposed (s : Settings) (o : Options) (t : Tree) : Path → Prop
  /-- The options give another name than the settings. -/
  | override {p : Path} : o.output = some p → s.moduleRule.accepts (t.nameOf p) → Exposed s o t p
  /-- The copy of a bundle always has the extension of modules. -/
  | debugCopy {p : Path} : o.optimized → o.minify = false →
      debugCopy (outputPath s o) = .ok p → p.name ∉ s.excludedNames → Exposed s o t p
  /-- The settings give the change cache the name of a module. -/
  | cache : s.moduleRule.accepts s.cachePath.name → Exposed s o t s.cachePath

/-! ### Names of modules -/

theorem not_accepts_outputName (s : Settings) : s.moduleRule.accepts s.outputPath.name = false := by
  simp [Settings.moduleRule, ModuleRule.accepts, Settings.excludedNames]

theorem not_accepts_mapName (s : Settings) (name : String) :
    s.moduleRule.accepts (name ++ ".map") = false := by
  simp [Settings.moduleRule, ModuleRule.accepts, Settings.extension, Text.endsWith]

theorem accepts_copyName_iff {stem : Text} :
    s.moduleRule.accepts (String.ofList (stem ++ ".unoptimized.js".toList)) ↔
      String.ofList (stem ++ ".unoptimized.js".toList) ∉ s.excludedNames := by
  simp [Settings.moduleRule, ModuleRule.accepts, Settings.extension, Text.endsWith]

/-- The path with another name has parts, and this name. -/
theorem name_of_withName? {p q : Path} {name : String} (h : p.withName? name = some q) :
    q.parts ≠ [] ∧ q.name = name := by
  rw [Path.withName?] at h
  split at h
  · cases h
  · cases h
    exact ⟨by simp, List.getLastD_concat⟩

theorem isAbsolute_child {root : Path} (h : root.isAbsolute) (name : String) :
    (root.child name).isAbsolute := by
  rw [Path.child, Path.join]
  split
  · assumption
  · exact h

theorem nameOf_outputPath (hroot : s.root.isAbsolute) : t.nameOf s.outputPath = s.outputPath.name :=
  Tree.nameOf_of_isAbsolute (isAbsolute_child hroot _)

theorem nameOf_cachePath (hroot : s.root.isAbsolute) : t.nameOf s.cachePath = s.cachePath.name :=
  Tree.nameOf_of_isAbsolute (isAbsolute_child hroot _)

theorem accepts_debugCopy_iff {output : Path} (h : debugCopy output = .ok p) :
    s.moduleRule.accepts (t.nameOf p) ↔ p.name ∉ s.excludedNames := by
  rw [debugCopy] at h
  split at h
  · next p' hname =>
    cases h
    obtain ⟨hparts, hname⟩ := name_of_withName? hname
    rw [Tree.nameOf_of_parts_ne_nil hparts, hname, accepts_copyName_iff]
  · cases h

/-- Which of the files that a build can write have the names of modules. -/
theorem accepts_iff_exposed (hroot : s.root.isAbsolute) (h : Target s o p) :
    s.moduleRule.accepts (t.nameOf p) ↔ Exposed s o t p := by
  constructor
  · intro haccepts
    cases h with
    | bundle =>
      cases houtput : o.output with
      | some path =>
        have hpath : outputPath s o = path := by rw [outputPath, houtput, Option.getD_some]
        rw [hpath] at haccepts ⊢
        exact .override houtput haccepts
      | none =>
        have hpath : outputPath s o = s.outputPath := by rw [outputPath, houtput, Option.getD_none]
        rw [hpath, nameOf_outputPath hroot, not_accepts_outputName] at haccepts
        cases haccepts
    | debugCopy hoptimized hplain hcopy =>
      exact .debugCopy hoptimized hplain hcopy ((accepts_debugCopy_iff hcopy).1 haccepts)
    | sourceMap hminify hmap =>
      -- A name with `.map` at its end never has the extension of modules.
      obtain ⟨hparts, hname⟩ := name_of_withName? hmap
      rw [Tree.nameOf_of_parts_ne_nil hparts, hname, not_accepts_mapName] at haccepts
      cases haccepts
    | cache =>
      rw [nameOf_cachePath hroot] at haccepts
      exact .cache haccepts
  · intro hexposed
    cases hexposed with
    | override houtput haccepts => exact haccepts
    | debugCopy _ _ hcopy hname => exact (accepts_debugCopy_iff hcopy).2 hname
    | cache haccepts =>
      rw [nameOf_cachePath hroot]
      exact haccepts

/-! ### What the next build takes -/

/-- A file is collected if its name is that of a module and it stands among the modules. -/
theorem collected_iff (hfile : t.hasFile p) :
    Collected s t p ↔ s.moduleRule.accepts (t.nameOf p) ∧ StandsIn t (s.sourceRoot t) p := by
  constructor
  · rintro ⟨m, hm, folder, hfolder, hp⟩
    obtain ⟨n, hn, -, names, inner, child, hvisits, hbelow, hentry, hchild, haccepts⟩ :=
      Module.mem_discover_iff.1 hm
    have hname : t.nameOf p = m.name := Tree.nameOf_eq_of_names hfile hp
    rw [hbelow] at hfolder
    rw [← hname] at hentry haccepts hp
    exact ⟨haccepts, n, names, inner, child, folder, hn, hvisits, hentry, hchild, hfolder, hp⟩
  · rintro ⟨haccepts, n, names, inner, child, folder, hn, hvisits, hentry, hchild, hfolder, hp⟩
    refine ⟨⟨t.nameOf p, (s.sourceRoot t).below names⟩, ?_, folder, hfolder, hp⟩
    refine Module.mem_discover_iff.2 ⟨n, hn, ?_, names, inner, child, hvisits, rfl, hentry, hchild,
      haccepts⟩
    -- Nothing stands below a file, so `n` holds something only if it is a folder.
    cases n with
    | folder contents => rfl
    | file content stamp =>
      cases hvisits with
      | here => cases hentry
      | through hsub => cases hsub

/-- A watch takes a change of a file by its name and by where it stands. -/
theorem acceptsChange_iff (hfile : t.hasFile p) {reported : String} (h : Reports t p reported)
    (filter : WatchFilter) : s.moduleRule.acceptsChange filter reported ↔
      filter.ignores reported = false ∧ s.moduleRule.accepts (t.nameOf p) := by
  rw [ModuleRule.acceptsChange_iff, ← Tree.nameOf_of_isAbsolute (t := t) h.1,
    Tree.nameOf_eq_nameOf hfile h.2]

/-- What stands in the source folder itself stands among the modules. -/
theorem standsIn_of_names {root : Path} {folder : List String} {name : String}
    (hfile : t.hasFile p) (hroot : t.names root = .ok folder)
    (hp : t.names p = .ok (folder ++ [name])) : StandsIn t root p := by
  have hname : t.nameOf p = name := Tree.nameOf_eq_of_names hfile hp
  obtain ⟨names, content, stamp, hnames, hnode⟩ := Tree.exists_of_hasFile hfile
  rw [Except.ok.inj (hnames.symm.trans hp), Node.at?_append] at hnode
  obtain ⟨n, hn, hchild⟩ := Option.bind_eq_some_iff.1 hnode
  have hentry : (name, Node.file content stamp) ∈ n.entries :=
    Table.mem_of_get? (by simpa [Node.at?] using hchild)
  refine ⟨n, [], n, .file content stamp, folder, ?_, .here n, hname ▸ hentry, rfl, ?_, hname ▸ hp⟩
  · rw [Tree.find?, hroot]
    exact hn
  · rw [Path.below_nil, hroot]

/-- The tree after a build. -/
def treeAfter (s : Settings) (o : Options) (host : Host) (world : World) : Tree :=
  (run s o host world).2.tree

/-- A build that writes the bundle where the settings say, keeps no copy of it, and has a change
cache that is no module by name leaves nothing that the next build or a watch takes. -/
theorem not_collected_of_plain {host : Host} {world : World} (hroot : s.root.isAbsolute)
    (houtput : o.output = none) (hcopy : o.optimized → o.minify)
    (hcache : s.moduleRule.accepts s.cachePath.name = false)
    (hp : p ∈ filesWritten s o host world) (hfile : (treeAfter s o host world).hasFile p) :
    ¬ Collected s (treeAfter s o host world) p ∧
      ∀ filter reported, Reports (treeAfter s o host world) p reported →
        s.moduleRule.acceptsChange filter reported = false := by
  have hname : ¬ s.moduleRule.accepts ((treeAfter s o host world).nameOf p) := by
    rw [accepts_iff_exposed hroot (target_of_mem_filesWritten hp)]
    intro hexposed
    cases hexposed with
    | override h => simp [houtput] at h
    | debugCopy hoptimized hplain => simp [hcopy hoptimized] at hplain
    | cache h => simp [hcache] at h
  refine ⟨fun h => hname ((collected_iff hfile).1 h).1, fun filter reported hreported => ?_⟩
  exact Bool.eq_false_iff.2 fun h => hname ((acceptsChange_iff hfile hreported filter).1 h).2

/-- Of the files that a build leaves, the next build merges those that have the names of modules
and stand among the modules, and a change of one leads a watch to a new build unless the watch
ignores it. -/
theorem collected_and_acceptsChange_iff {host : Host} {world : World} (hroot : s.root.isAbsolute)
    (hp : p ∈ filesWritten s o host world) (hfile : (treeAfter s o host world).hasFile p) :
    (Collected s (treeAfter s o host world) p ↔
      Exposed s o (treeAfter s o host world) p ∧
        StandsIn (treeAfter s o host world) (s.sourceRoot (treeAfter s o host world)) p) ∧
    ∀ filter reported, Reports (treeAfter s o host world) p reported →
      (s.moduleRule.acceptsChange filter reported ↔
        Exposed s o (treeAfter s o host world) p ∧ filter.ignores reported = false) := by
  have hexposed := accepts_iff_exposed (t := treeAfter s o host world) hroot
    (target_of_mem_filesWritten hp)
  refine ⟨?_, fun filter reported hreported => ?_⟩
  · rw [collected_iff hfile, hexposed]
  · rw [acceptsChange_iff hfile hreported, hexposed, and_comm]

/-! ### A project of one module -/

/-- A host without any tools, which takes every script for valid. Its watch ignores some folders. -/
def bareHost : Host where
  which _ := none
  run _ _ := { ending := .notStarted "not found" }
  parse _ := none
  evaluate _ _ := .ok []
  clock := .zero
  scratch := ⟨.slash, ["scratch"]⟩
  filter := Module.toolFilter

/-- The settings of a project in `/p`. -/
def plainSettings : Settings where
  root := ⟨.slash, ["p"]⟩

/-- A project with one module. -/
def oneModule : World where
  tree := {
    root := .folder [("p", .folder [("main.js", .file (Utf8.encode "a()".toList) 0)])]
    here := ⟨.slash, ["p"]⟩ }

/-- A bundle that the options send elsewhere. -/
theorem collected_and_acceptsChange_iff_override :
    let o : Options := { output := some ⟨.slash, ["p", "out.js"]⟩ }
    let t := treeAfter plainSettings o bareHost oneModule
    let output : Path := ⟨.slash, ["p", "out.js"]⟩
    output ∈ filesWritten plainSettings o bareHost oneModule ∧ t.hasFile output ∧
      (Collected plainSettings t output ↔
        Exposed plainSettings o t output ∧ StandsIn t (plainSettings.sourceRoot t) output) ∧
      ∀ filter reported, Reports t output reported →
        (plainSettings.moduleRule.acceptsChange filter reported ↔
          Exposed plainSettings o t output ∧ filter.ignores reported = false) := by
  intro o t output
  obtain ⟨hwritten, hfile⟩ : output ∈ filesWritten plainSettings o bareHost oneModule ∧
      t.hasFile output := by
    decide +kernel
  exact ⟨hwritten, hfile, collected_and_acceptsChange_iff (by decide) hwritten hfile⟩

/-- The copy of an optimized bundle is merged by the next build, and a change of it leads to a new
build. -/
theorem collected_debugCopy :
    let o : Options := { optimized := true }
    let t := treeAfter plainSettings o bareHost oneModule
    let copy : Path := ⟨.slash, ["p", "bundle.user.unoptimized.js"]⟩
    copy ∈ filesWritten plainSettings o bareHost oneModule ∧ Collected plainSettings t copy ∧
      Reports t copy "/p/bundle.user.unoptimized.js" ∧
      plainSettings.moduleRule.acceptsChange bareHost.filter "/p/bundle.user.unoptimized.js" := by
  intro o t copy
  -- The build is run once for all that is asked about what it leaves.
  obtain ⟨hwritten, hfile, hroot, hcopy⟩ : copy ∈ filesWritten plainSettings o bareHost oneModule ∧
      t.hasFile copy ∧ t.names (plainSettings.sourceRoot t) = .ok ["p"] ∧
      t.names copy = .ok (["p"] ++ ["bundle.user.unoptimized.js"]) := by
    decide +kernel
  have hname : t.nameOf copy = copy.name := Tree.nameOf_of_isAbsolute rfl
  have hreported : Path.ofString "/p/bundle.user.unoptimized.js" = copy := by decide +kernel
  refine ⟨hwritten, ?_, ⟨?_, ?_⟩, by decide +kernel⟩
  · rw [collected_iff hfile, hname]
    exact ⟨by decide +kernel, standsIn_of_names hfile hroot hcopy⟩
  · rw [hreported]
    rfl
  · rw [hreported]

end Build

end Userscript
