import Userscript.Proofs.Build.Leftovers
import Userscript.Proofs.Tree.Writes

/-!
# What a build leaves in its folder

A build with default settings that ends well has written its bundle, the copy of it if it is optimized, and
the change cache. The programs that check and lint it have changed no file, if they never do, and so nothing
else has changed in the tree.

## Main definitions

* `Build.Products` — the files that are written of a bundle
* `Build.Saved` — what is written of the change cache
* `Build.Paused` — the trees of two worlds stay as they are

## Main results

* `answers_paused` — programs that change no files answer alike as long as they find the same
* `writes_of_finish` — what a build writes once its bundle is assembled
-/

namespace Userscript.Build

open Userscript.Tree (Writes latest)

variable {root : Path} {o : Options} {host host' : Host} {w w' : World} {r r' : Result} {bundle : Bundle}

/-! ### Steps that have ended well -/

theorem act_eq_ok_iff {α : Type} {action : Action α} {value : Except Failure α} :
    Step.act action host (w, r) = (value, w', r') ↔ action host w = (value, w') ∧ r' = r := by
  rw [Step.act]
  rcases action host w with ⟨value', last⟩
  constructor
  · intro h
    cases h
    exact ⟨rfl, rfl⟩
  · rintro ⟨h, rfl⟩
    cases h
    rfl

/-- A stage ends as its step does, in the same tree. -/
theorem exists_of_stage {α : Type} {name : String} {step : Step α} {value : Except Failure α}
    (h : Step.stage name step host (w, r) = (value, w', r')) :
    ∃ last u, step host (w, r) = (value, last, u) ∧ w'.tree = last.tree := by
  rw [Step.stage] at h
  rcases hstep : step host (w, r) with ⟨value', last, u⟩
  rw [hstep] at h
  cases h
  exact ⟨last, u, rfl, rfl⟩

theorem snd_savings (r : Result) (state : World × Result) : (savings r host state).2 = state := by
  unfold savings
  cases Size.savings r.bundleSize r.finalSize <;> rfl

theorem exists_of_replaceBundle {output : Path} {text : Text} {word : String}
    (h : replaceBundle output text word host (w, r) = (.ok (), w', r')) :
    ∃ size last, Action.writeText output text host w = (.ok size, last) ∧ w'.tree = last.tree := by
  unfold replaceBundle at h
  obtain ⟨size, ⟨last, u⟩, hwrite, h⟩ := Program.bind_eq_ok_iff.1 h
  obtain ⟨_, _, hrecord, h⟩ := Program.bind_eq_ok_iff.1 h
  obtain ⟨_, _, hget, h⟩ := Program.bind_eq_ok_iff.1 h
  obtain ⟨saved, mid, hsaved, hnote⟩ := Program.bind_eq_ok_iff.1 h
  cases hrecord
  cases hget
  have hmid := congrArg Prod.snd hsaved
  rw [snd_savings] at hmid
  refine ⟨size, last, (act_eq_ok_iff.1 hwrite).1, ?_⟩
  cases hmid
  cases hnote
  rfl

/-! ### What a build writes -/

/-- The bundle as it is in the end of an optimized build. -/
def optimizedText (s : Settings) (bundle : Bundle) : Except Fault Text :=
  Script.optimizeGiven { keywords := s.patternKeywords.map String.toList } (s.fault? .patternKeywords)
    s.indentLimit {} (some bundle.header) bundle.text

/-- The files that a build writes of a bundle that is not minified, in order. -/
inductive Products (s : Settings) (o : Options) (bundle : Bundle) : List (String × Bytes) → Prop
  | plain : o.optimized = false → Products s o bundle [("bundle.user.js", Utf8.encode bundle.text)]
  | optimized {small : Text} : o.optimized → optimizedText s bundle = .ok small →
    Products s o bundle [("bundle.user.js", Utf8.encode bundle.text),
      ("bundle.user.unoptimized.js", Utf8.encode bundle.text), ("bundle.user.js", Utf8.encode small)]

theorem Products.unique {s : Settings} {products products' : List (String × Bytes)}
    (h : Products s o bundle products) (h' : Products s o bundle products') : products = products' := by
  cases h with
  | plain hplain =>
    cases h' with
    | plain => rfl
    | optimized hoptimized => simp [hplain] at hoptimized
  | optimized hoptimized hsmall =>
    cases h' with
    | plain hplain => simp [hplain] at hoptimized
    | optimized _ hsmall' =>
      rw [Except.ok.inj (hsmall.symm.trans hsmall')]

section writes

variable (habsolute : root.isAbsolute) (hdots : ".." ∉ root.parts)

include habsolute hdots

/-- A file that is written into a folder that is there is all that is written. -/
theorem writes_of_writeFile {name : String} {content : Bytes} {stamp : Int} {t u : Tree}
    (h : (t.makeFolders (root.under name).parent).1.writeFile (root.under name) content stamp = .ok u)
    (hroot : t.faceAt root.parts = some .folder) : Writes root [(name, content)] t u := by
  rw [Path.parent_under, Tree.makeFolders_of_folder habsolute hdots hroot] at h
  exact .single h

theorem writes_of_writeText {name : String} {text : Text} {size : Nat}
    (h : Action.writeText (root.under name) text host w = (.ok size, w'))
    (hroot : w.tree.faceAt root.parts = some .folder) :
    Writes root [(name, Utf8.encode text)] w.tree w'.tree := by
  obtain ⟨value, last, hrun, -, hcases⟩ := Action.writeText_cases host (root.under name) text w
  cases h.symm.trans hrun
  rcases hcases with ⟨⟨fault, hfault⟩, -⟩ | ⟨-, -, stamp, hwrite⟩
  · cases hfault
  · exact writes_of_writeFile habsolute hdots hwrite hroot

theorem writes_of_writeBundle
    (h : writeBundle (root.under "bundle.user.js") bundle host (w, r) = (.ok (), w', r'))
    (hroot : w.tree.faceAt root.parts = some .folder) :
    Writes root [("bundle.user.js", Utf8.encode bundle.text)] w.tree w'.tree := by
  obtain ⟨value, last, u, hrun, -, hcases⟩ := writeBundle_cases host (root.under "bundle.user.js") bundle w r
  cases h.symm.trans hrun
  rcases hcases with ⟨⟨fault, hfault⟩, -⟩ | ⟨-, -, stamp, hwrite⟩
  · cases hfault
  · exact writes_of_writeFile habsolute hdots hwrite hroot

/-- A folder is there after files have been written into it. -/
theorem folder_of_writes {writes : List (String × Bytes)} {t u : Tree} (h : Writes root writes t u)
    (hnames : ∀ write ∈ writes, write.1 ≠ "..") (hroot : t.faceAt root.parts = some .folder) :
    u.faceAt root.parts = some .folder := by
  have hmem (write : String × Bytes) (hwrite : write ∈ writes) : write.1 ∈ writes.map (·.1) :=
    List.mem_map_of_mem hwrite
  have halike := h.alike habsolute hdots hmem fun hdots => by
    obtain ⟨write, hwrite, heq⟩ := List.mem_map.1 hdots
    exact hnames write hwrite heq
  exact (halike.folder _).2 hroot

theorem writes_of_optimize
    (h : optimize (defaults root) (root.under "bundle.user.js") bundle host (w, r) = (.ok (), w', r'))
    (hroot : w.tree.faceAt root.parts = some .folder) :
    ∃ small, optimizedText (defaults root) bundle = .ok small ∧
      Writes root [("bundle.user.unoptimized.js", Utf8.encode bundle.text), ("bundle.user.js", Utf8.encode small)]
        w.tree w'.tree := by
  unfold optimize at h
  simp only [debugCopy_defaults, pure_bind] at h
  obtain ⟨_, _, hrecord, h⟩ := Program.bind_eq_ok_iff.1 h
  obtain ⟨_, ⟨mid, _⟩, hcopy, h⟩ := Program.bind_eq_ok_iff.1 h
  obtain ⟨_, _, hnote, h⟩ := Program.bind_eq_ok_iff.1 h
  obtain ⟨_, _, hnote', h⟩ := Program.bind_eq_ok_iff.1 h
  cases hrecord
  cases hnote
  cases hnote'
  -- The copy is written first, and the bundle is replaced in the tree that this leaves.
  have hwrites := writes_of_writeText habsolute hdots (act_eq_ok_iff.1 hcopy).1 hroot
  have hfolder := folder_of_writes habsolute hdots hwrites (by simp) hroot
  cases hsmall : optimizedText (defaults root) bundle with
  | error fault =>
    rw [optimizedText] at hsmall
    rw [hsmall] at h
    cases h
  | ok small =>
    rw [optimizedText] at hsmall
    rw [hsmall] at h
    obtain ⟨_, _, hnote, h⟩ := Program.bind_eq_ok_iff.1 h
    cases hnote
    obtain ⟨size, last, hwrite, htree⟩ := exists_of_replaceBundle h
    have hlast := writes_of_writeText habsolute hdots hwrite hfolder
    rw [htree]
    exact ⟨small, rfl, hwrites.append hlast⟩

/-- What is written of the change cache in the end: it, or nothing. -/
inductive Saved : List (String × Bytes) → Prop
  | nothing : Saved []
  | cache (c : ChangeCache) : Saved [(".build-cache.json", Utf8.encode c.encode)]

theorem writes_of_shrink (hplain : o.minify = false)
    (h : shrink (defaults root) o (root.under "bundle.user.js") bundle host (w, r) = (.ok (), w', r'))
    (hroot : w.tree.faceAt root.parts = some .folder) :
    ∃ rest, Products (defaults root) o bundle (("bundle.user.js", Utf8.encode bundle.text) :: rest) ∧
      Writes root rest w.tree w'.tree := by
  rw [shrink, if_neg (by simp [hplain])] at h
  split at h
  · next hoptimized =>
    obtain ⟨last, u, hoptimize, htree⟩ := exists_of_stage h
    obtain ⟨small, hsmall, hwrites⟩ := writes_of_optimize habsolute hdots hoptimize hroot
    rw [htree]
    exact ⟨_, .optimized hoptimized hsmall, hwrites⟩
  · next hoptimized =>
    cases h
    exact ⟨[], .plain (Bool.eq_false_iff.2 hoptimized), .nil⟩

omit habsolute hdots in
theorem writes_of_saveCache {cache : ChangeCache} (hpath : cache.path = (defaults root).cachePath)
    (h : (do let _ ← Step.act (saveCache cache) : Step Unit) host (w, r) = (.ok (), w', r')) :
    ∃ saved, Saved saved ∧ Writes root saved w.tree w'.tree := by
  obtain ⟨_, ⟨last, u⟩, hsave, h⟩ := Program.bind_eq_ok_iff.1 h
  cases h
  obtain ⟨result, last', hrun, -, hcases⟩ := saveCache_cases host cache w
  cases (act_eq_ok_iff.1 hsave).1.symm.trans hrun
  rcases hcases with ⟨-, htree⟩ | ⟨-, -, hwrite⟩
  · rw [htree]
    exact ⟨[], .nothing, .nil⟩
  · rw [hpath, cachePath_defaults] at hwrite
    exact ⟨_, .cache _, .single hwrite⟩

/-! ### Tools that change no files -/

/-- Two worlds are abreast and hold these trees. -/
def Paused (gap : Gap) (t t' : Tree) (u u' : World) : Prop := Abreast gap u u' ∧ u.tree = t ∧ u'.tree = t'

instance (gap : Gap) (t t' : Tree) : Calm (Paused gap t t') where
  of_eq h hwritten hwritten' htree htree' :=
    ⟨h.1.of_eq hwritten hwritten' htree htree', htree.trans h.2.1, htree'.trans h.2.2⟩

omit habsolute hdots

/-- Programs that change no files answer alike as long as the trees are the ones in which they do. -/
theorem answers_paused {gap : Gap} {t t' : Tree} (hwhich : host'.which = host.which)
    (hrun : ∀ argv, host'.run t' argv = host.run t argv) (hfiles : ∀ argv, (host.run t argv).files = []) :
    host.Answers gap.stale (Paused gap t t') host' where
  which := hwhich
  alike _ _ hrel := hrel.1.alike
  run := by
    rintro u u' argv ⟨-, rfl, rfl⟩
    exact hrun argv
  leave := by
    rintro u u' argv ⟨-, rfl, rfl⟩
    rw [hfiles]
    rintro v v' hrel
    rw [LockstepAt, Tool.run_leave, Tool.run_leave]
    exact ⟨rfl, Calm.of_eq hrel rfl rfl rfl rfl⟩

include habsolute hdots

/-- Checking and linting leave the tree as it is. -/
theorem tree_of_inspect {text : Text} {value : Except Failure Unit}
    (hfiles : ∀ argv, (host.run w.tree argv).files = [])
    (h : inspect (defaults root) o (root.under "bundle.user.js") text host (w, r) = (value, w', r')) :
    w'.tree = w.tree := by
  have hsub : otherNames ⊆ leftoverNames := fun name hname => (mem_otherNames_iff.1 hname).1
  have hbesides : Tool.FoundBesides (gapOf root otherNames w w).stale (defaults root).root :=
    foundBesides_defaults habsolute hdots hsub
  have houtput : (root.under "bundle.user.js").ClearOf (gapOf root otherNames w w).stale :=
    Path.under_clearOf_places habsolute hdots (by decide) (by decide)
  -- The run is compared with itself.
  have hinspect : Lockstep host host (Along (Paused (gapOf root otherNames w w) w.tree w.tree) r r)
      (inspect (defaults root) o (root.under "bundle.user.js") text)
      (inspect (defaults root) o (root.under "bundle.user.js") text) :=
    lockstep_inspect (answers_paused rfl (fun _ => rfl) hfiles) hbesides houtput rfl
  have habreast : Abreast (gapOf root otherNames w w) w w :=
    ⟨rfl, [], by simp [gapOf], by simp [gapOf], .refl _ _⟩
  obtain ⟨-, ⟨-, htree, -⟩, -⟩ := hinspect (w, r) (w, r) ⟨⟨habreast, rfl, rfl⟩, .refl rfl⟩
  rwa [h] at htree

/-- What a build writes once its bundle is assembled, if it ends well and nothing is minified. -/
theorem writes_of_finish (hplain : o.minify = false) {cache : ChangeCache}
    (hpath : cache.path = (defaults root).cachePath)
    (hfiles : ∀ last u, writeBundle (root.under "bundle.user.js") bundle host (w, r) = (.ok (), last, u) →
      ∀ argv, (host.run last.tree argv).files = [])
    (h : finish (defaults root) o (root.under "bundle.user.js") (cache, bundle) host (w, r) = (.ok (), w', r'))
    (hroot : w.tree.faceAt root.parts = some .folder) :
    ∃ products saved, Products (defaults root) o bundle products ∧ Saved saved ∧
      Writes root (products ++ saved) w.tree w'.tree := by
  rw [finish_eq] at h
  obtain ⟨_, ⟨w₁, r₁⟩, hwrite, h⟩ := Program.bind_eq_ok_iff.1 h
  obtain ⟨_, ⟨w₂, r₂⟩, hinspect, h⟩ := Program.bind_eq_ok_iff.1 h
  obtain ⟨_, ⟨w₃, r₃⟩, hshrink, hsave⟩ := Program.bind_eq_ok_iff.1 h
  have hbundle := writes_of_writeBundle habsolute hdots hwrite hroot
  have hroot₁ := folder_of_writes habsolute hdots hbundle (by simp) hroot
  -- Nothing is written between the bundle and what is made of it.
  have htree := tree_of_inspect habsolute hdots (hfiles w₁ r₁ hwrite) hinspect
  obtain ⟨rest, hproducts, hrest⟩ := writes_of_shrink habsolute hdots hplain hshrink (htree ▸ hroot₁)
  obtain ⟨saved, hsaved, hlast⟩ := writes_of_saveCache hpath hsave
  rw [htree] at hrest
  exact ⟨_, saved, hproducts, hsaved, (hbundle.append hrest).append hlast⟩

end writes

end Userscript.Build
