import Userscript.Proofs.Build.History
import Userscript.Proofs.Build.Lockstep
import Userscript.Proofs.Module.Alike

/-!
# What earlier builds have left

A build of a project with default settings leaves its bundle, a copy or a source map of it, and the change
cache in the folder of the project. The next build is not changed by them: with a header of its own, the
project is built as if they were not there, or were there with other contents.

The programs that a build runs are to do the same in both trees, whatever the old files are. Terser works in a
temporary folder, a new one in each build, and is to do the same whatever that folder is called.

## Main definitions

* `Build.defaults` — the settings of a project without settings of its own
* `Build.leftoverNames` — the names of the files that builds leave
* `Build.SameProject` — two trees of a project differ in what builds have left only
* `Build.MinifiesInNewFolder` — the temporary folder of a build is a new one

## Main results

* `bundleOf_eq` — the bundle is the same
* `lockstepAt_finish` — what comes after the same bundle goes on alike
* `run_eq_of_sameProject` — whole builds in two trees of a project
-/

namespace Userscript

namespace Header

variable {markers : Markers} {t t' : Tree} {stale : List String → Prop} {paths : List Path}

/-- A header that is found in one of some files is found in trees that are alike, whatever other candidates
there are. -/
theorem resolved_eq_of_found (h : t.Alike stale t') (hclear : ∀ p ∈ paths, p.ClearOf stale)
    (hfound : ∃ p ∈ paths, ((t.readText p).toOption.bind markers.extract?).isSome) (rest rest' : List Source) :
    resolved markers t' (paths.map .file ++ rest') = resolved markers t (paths.map .file ++ rest) := by
  induction paths with
  | nil =>
    obtain ⟨p, hp, -⟩ := hfound
    cases hp
  | cons p paths ih =>
    obtain ⟨hp, hpaths⟩ := List.forall_mem_cons.1 hclear
    rw [List.map_cons, List.cons_append, List.cons_append, resolved, resolved, h.readText_eq hp]
    cases hheader : (t.readText p).toOption.bind markers.extract? with
    | some text => rfl
    | none =>
      refine ih hpaths ?_
      obtain ⟨q, hq, hsome⟩ := hfound
      rcases List.mem_cons.1 hq with rfl | hq
      · rw [hheader] at hsome
        cases hsome
      · exact ⟨q, hq, hsome⟩

end Header

namespace Build

variable {root : Path} {o : Options} {host host' : Host} {world world' w w' : World} {t t' : Tree}
  {names : List String}

/-- The settings of a project that has none of its own. -/
def defaults (root : Path) : Settings := { root }

/-- The names of the files that builds with these settings leave, with that of the change cache first. -/
def leftoverNames : List String :=
  [".build-cache.json", "bundle.user.js", "bundle.user.unoptimized.js", "bundle.user.js.map"]

/-- What an earlier build has left once the bundle is written again. -/
def otherNames : List String := [".build-cache.json", "bundle.user.unoptimized.js", "bundle.user.js.map"]

/-- A project has a header of its own: the file for it is there, and there is a header in it. -/
def HasHeader (root : Path) (t : Tree) : Prop :=
  ∃ p ∈ [root.child "userscript.js", (root.child "src").child "userscript.js"],
    ((t.readText p).toOption.bind ({} : Header.Markers).extract?).isSome

/-! ### Default settings -/

theorem cachePath_defaults (root : Path) : (defaults root).cachePath = root.under ".build-cache.json" := by
  have hname : Path.IsName ".build-cache.json" := by decide
  exact Path.child_of_isName hname root

theorem outputPath_defaults (houtput : o.output = none) :
    outputPath (defaults root) o = root.under "bundle.user.js" := by
  have hname : Path.IsName "bundle.user.js" := by decide
  rw [outputPath, houtput, Option.getD_none]
  exact Path.child_of_isName hname root

theorem name_under (root : Path) (name : String) : (root.under name).name = name := List.getLastD_concat

theorem withName?_under (root : Path) (name other : String) :
    (root.under name).withName? other = some (root.under other) := by
  have hparts : (root.under name).parts ≠ [] := by simp [Path.under]
  rw [Path.withName?, if_neg hparts]
  simp [Path.under]

theorem debugCopy_defaults (root : Path) :
    debugCopy (root.under "bundle.user.js") = .ok (root.under "bundle.user.unoptimized.js") := by
  have hname : String.ofList ((if Text.endsWith ".js".toList "bundle.user.js".toList then
      "bundle.user.js".toList.take ("bundle.user.js".toList.length - 3) else "bundle.user.js".toList) ++
        ".unoptimized.js".toList) = "bundle.user.unoptimized.js" := by decide +kernel
  simp only [debugCopy, name_under]
  rw [hname, withName?_under]

theorem sourceMap_defaults (root : Path) :
    (root.under "bundle.user.js").withName? ((root.under "bundle.user.js").name ++ ".map") =
      some (root.under "bundle.user.js.map") := by
  rw [name_under]
  exact withName?_under root _ _

/-- What may be different in two worlds besides some files in the folder of a project. -/
def gapOf (root : Path) (names : List String) (w w' : World) : Gap where
  here := w.tree.here
  stale := root.places names
  lasting := root.parts ++ [".build-cache.json"]
  written := w.written
  written' := w'.written

theorem mem_otherNames_iff {name : String} :
    name ∈ otherNames ↔ name ∈ leftoverNames ∧ name ≠ "bundle.user.js" := by
  simp only [otherNames, leftoverNames, List.mem_cons, List.not_mem_nil, or_false]
  constructor
  · rintro (rfl | rfl | rfl) <;> simp
  · rintro ⟨rfl | rfl | rfl | rfl, hne⟩ <;> simp at hne ⊢

/-- Once both bundles are written, they are no longer different. -/
theorem abreast_of_bundle {w₁ w₁' : World} (h : Abreast (gapOf root leftoverNames w w') w₁ w₁')
    (hwritten : w₁.written = w.written ++ [root.under "bundle.user.js"]) :
    Abreast (gapOf root otherNames w₁ w₁') w₁ w₁' := by
  obtain ⟨new, hnew, -, halike⟩ := h.files
  obtain rfl : [root.under "bundle.user.js"] = new := List.append_cancel_left (hwritten.symm.trans hnew)
  refine ⟨rfl, [], by simp [gapOf], by simp [gapOf], halike.mono ?_⟩
  rintro place ⟨⟨name, hname, rfl⟩, hremains⟩
  refine ⟨⟨name, mem_otherNames_iff.2 ⟨hname, ?_⟩, rfl⟩, .inr nofun⟩
  rintro rfl
  rcases hremains with heq | hremains
  · exact absurd (List.append_cancel_left heq) (by decide)
  · exact hremains _ (List.mem_singleton_self _) rfl

/-- What goes on alike after both bundles are written has gone on alike from before. -/
theorem abreast_of_after {w₁ w₁' u u' : World} (h : Abreast (gapOf root leftoverNames w w') w₁ w₁')
    (hwritten : w₁.written = w.written ++ [root.under "bundle.user.js"])
    (hafter : Abreast (gapOf root otherNames w₁ w₁') u u') : Abreast (gapOf root leftoverNames w w') u u' := by
  obtain ⟨new, hnew, hnew', -⟩ := h.files
  obtain rfl : [root.under "bundle.user.js"] = new := List.append_cancel_left (hwritten.symm.trans hnew)
  obtain ⟨rest, hrest, hrest', halike⟩ := hafter.files
  refine ⟨hafter.here.trans h.here, root.under "bundle.user.js" :: rest, ?_, ?_, halike.mono ?_⟩
  · rw [hrest, show (gapOf root otherNames w₁ w₁').written = w₁.written from rfl, hnew, List.append_assoc]
    rfl
  · rw [hrest', show (gapOf root otherNames w₁ w₁').written' = w₁'.written from rfl, hnew', List.append_assoc]
    rfl
  · rintro place ⟨⟨name, hname, rfl⟩, hremains⟩
    obtain ⟨hleft, hne⟩ := mem_otherNames_iff.1 hname
    refine ⟨⟨name, hleft, rfl⟩, hremains.imp_right fun hrest => List.forall_mem_cons.2 ⟨fun heq => ?_, hrest⟩⟩
    exact hne (List.singleton_inj.1 (List.append_cancel_left heq)).symm

section defaults

variable (habsolute : root.isAbsolute) (hdots : ".." ∉ root.parts)

include habsolute hdots

theorem below_clearOf_places {name inner : String} (hname : name ∉ names) (hdot : name ≠ "..")
    (hinner : inner ≠ "..") : ((root.under name).under inner).ClearOf (root.places names) := by
  refine (Path.under_clearOf_places habsolute hdots hdot hname).under hinner fun hplace => ?_
  rw [Path.under, List.append_assoc, List.singleton_append] at hplace
  exact hname (Path.places_iff.1 hplace).1

theorem child_clearOf_places {name : String} (h : Path.IsName name) (hname : name ∉ leftoverNames)
    (hnames : names ⊆ leftoverNames) : (root.child name).ClearOf (root.places names) := by
  rw [Path.child_of_isName h]
  exact Path.under_clearOf_places habsolute hdots h.ne_dots fun hmem => hname (hnames hmem)

/-- The files that may hold a header of the project's own are none that builds leave. -/
theorem metadata_clearOf_places : ∀ p ∈ [root.child "userscript.js", (root.child "src").child "userscript.js"],
    p.ClearOf (root.places leftoverNames) := by
  have hmetadata : Path.IsName "userscript.js" := by decide
  have hsrc : Path.IsName "src" := by decide
  refine List.forall_mem_cons.2
    ⟨child_clearOf_places habsolute hdots hmetadata (by decide) (List.Subset.refl _),
      List.forall_mem_singleton.2 ?_⟩
  rw [Path.child_of_isName hsrc, Path.child_of_isName hmetadata]
  exact below_clearOf_places habsolute hdots (by decide) hsrc.ne_dots hmetadata.ne_dots

theorem foundBesides_defaults (hnames : names ⊆ leftoverNames) : Tool.FoundBesides (root.places names) root := by
  have hout {name : String} (h : name ∉ leftoverNames) : name ∉ names := fun hmem => h (hnames hmem)
  have hmodules : Path.IsName "node_modules" := by decide
  have hbin : Path.IsName ".bin" := by decide
  have hfolder : ((root.child "node_modules").child ".bin").ClearOf (root.places names) := by
    rw [Path.child_of_isName hmodules, Path.child_of_isName hbin]
    exact below_clearOf_places habsolute hdots (hout (by decide)) (by decide) (by decide)
  have hprogram {name : String} (h : Path.IsName name) :
      (((root.child "node_modules").child ".bin").child name).ClearOf (root.places names) := by
    rw [Path.child_of_isName h]
    refine hfolder.under h.ne_dots fun hplace => ?_
    rw [Path.child_of_isName hmodules, Path.child_of_isName hbin, Path.under, Path.under, List.append_assoc,
      List.append_assoc] at hplace
    exact hout (by decide) (Path.places_iff.1 hplace).1
  refine ⟨?_, ?_⟩
  · exact List.forall_mem_cons.2 ⟨child_clearOf_places habsolute hdots (by decide) (by decide) hnames,
      List.forall_mem_singleton.2 (child_clearOf_places habsolute hdots (by decide) (by decide) hnames)⟩
  · exact List.forall_mem_cons.2 ⟨⟨hprogram (by decide), hprogram (by decide)⟩,
      List.forall_mem_singleton.2 ⟨hprogram (by decide), hprogram (by decide)⟩⟩

theorem readsBesides_defaults (hnames : names ⊆ leftoverNames) :
    (defaults root).ReadsBesides (root.places names) := by
  have hout {name : String} (h : name ∉ leftoverNames) : name ∉ names := fun hmem => h (hnames hmem)
  have hname : Path.IsName "src" := by decide
  have hsource : (defaults root).usualSource = root.under "src" := Path.child_of_isName hname root
  refine ⟨rfl, ?_, fun rest => ?_, ?_⟩
  · rw [hsource]
    exact Path.under_clearOf_places habsolute hdots hname.ne_dots (hout (by decide))
  · rw [hsource, Path.under, List.append_assoc, List.singleton_append]
    exact fun hplace => hout (by decide) (Path.places_iff.1 hplace).1
  · exact List.forall_mem_cons.2 ⟨child_clearOf_places habsolute hdots (by decide) (by decide) hnames,
      List.forall_mem_singleton.2 (child_clearOf_places habsolute hdots (by decide) (by decide) hnames)⟩

theorem writesBesides_defaults (hcache : ".build-cache.json" ∈ names) :
    WritesBesides (defaults root) (root.under "bundle.user.js") (gapOf root names w w') where
  bundle := Path.standsClear_places habsolute hdots (by decide)
  debugCopy p hp := by
    rw [debugCopy_defaults] at hp
    cases hp
    exact Path.standsClear_places habsolute hdots (by decide)
  sourceMap p hp := by
    rw [sourceMap_defaults] at hp
    cases hp
    exact Path.standsClear_places habsolute hdots (by decide)
  cache := by
    rw [cachePath_defaults]
    exact Path.standsClear_places habsolute hdots (by decide)
  cache_stale := ⟨_, hcache, rfl⟩
  cache_lasting := by rw [cachePath_defaults]; rfl

/-! ### The same bundle -/

section bundle

variable (h : t.Alike (root.places leftoverNames) t') (hwell : t.root.WellNamed) (hwell' : t'.root.WellNamed)
  (hsource : t.hasFolder (root.child "src"))

include h

/-- A header of its own is found in any tree of the project. -/
theorem headerOf_eq (hheader : HasHeader root t) (output : Path) :
    headerOf (defaults root) t' output = headerOf (defaults root) t output :=
  Header.resolved_eq_of_found h (metadata_clearOf_places habsolute hdots) hheader _ _

/-- Whether a project has a header of its own does not depend on what builds have left. -/
theorem hasHeader_iff : HasHeader root t' ↔ HasHeader root t := by
  refine exists_congr fun p => and_congr_right fun hp => ?_
  rw [h.readText_eq (metadata_clearOf_places habsolute hdots p hp)]

include hwell hsource

theorem loaded_eq : loaded t' (Module.arranged (defaults root) t).modules =
    loaded t (Module.arranged (defaults root) t).modules := by
  have hreads := readsBesides_defaults habsolute hdots (List.Subset.refl leftoverNames)
  refine List.map_congr_left fun m hm => ?_
  rw [Module.readText_eq h hreads hwell hsource (Module.mem_of_mem_order hm)]

include hwell'

/-- The bundle depends on the header that is found, without the blanks around it, and on what has not
changed. -/
theorem bundleOf_eq_of_trim {output : Path} (hheader : Text.trim (headerOf (defaults root) t' output).text =
    Text.trim (headerOf (defaults root) t output).text) :
    bundleOf (defaults root) t' output = bundleOf (defaults root) t output := by
  have hreads := readsBesides_defaults habsolute hdots (List.Subset.refl leftoverNames)
  rw [bundleOf, bundleOf, Module.arranged_eq h hreads hwell hwell' hsource,
    loaded_eq habsolute hdots h hwell hsource, Bundle.assemble, Bundle.assemble, hheader]

theorem bundleOf_eq (hheader : HasHeader root t) (output : Path) :
    bundleOf (defaults root) t' output = bundleOf (defaults root) t output :=
  bundleOf_eq_of_trim habsolute hdots h hwell hwell' hsource (by rw [headerOf_eq habsolute hdots h hheader])

end bundle

/-! ### After the bundle -/

/-- Once the same bundle has been written, the builds go on alike, if the tools answer alike. -/
theorem lockstepAt_inspected {cache cache' : ChangeCache} {bundle : Bundle} {r r' u u' : Result}
    (hpath : cache.path = (defaults root).cachePath) (hpath' : cache'.path = (defaults root).cachePath)
    (hparse : host'.parse bundle.text = host.parse bundle.text) (hrecord : AddsAlike r r' u u')
    (hanswers : host.AnswersFrom (gapOf root otherNames w w') host' w w')
    (hminify : o.minify → ∀ state state',
      inspect (defaults root) o (root.under "bundle.user.js") bundle.text host (w, u) = (.ok (), state) →
        inspect (defaults root) o (root.under "bundle.user.js") bundle.text host' (w', u') = (.ok (), state') →
          Along (Abreast (gapOf root otherNames w w')) r r' state state' →
            LockstepAt host host' (Along (Abreast (gapOf root otherNames w w')) r r')
              (minify (defaults root) o (root.under "bundle.user.js") bundle)
              (minify (defaults root) o (root.under "bundle.user.js") bundle) state state') :
    let rest (cache : ChangeCache) : Step Unit := do
      inspect (defaults root) o (root.under "bundle.user.js") bundle.text
      settle (defaults root) o (root.under "bundle.user.js") (cache, bundle)
    LockstepAt host host' (Along (Abreast (gapOf root otherNames w w')) r r') (rest cache) (rest cache')
      (w, u) (w', u') := by
  intro rest
  -- While the tools are asked, the worlds stay in a relation under which the tools answer alike.
  obtain ⟨rel, hcalm, hanswers, hrel, habreast⟩ := hanswers
  have hsub : otherNames ⊆ leftoverNames := fun name hname => (mem_otherNames_iff.1 hname).1
  have hbesides : Tool.FoundBesides (gapOf root otherNames w w').stale (defaults root).root :=
    foundBesides_defaults habsolute hdots hsub
  have hasked : Lockstep host host' (Along rel r r')
      (inspect (defaults root) o (root.under "bundle.user.js") bundle.text)
      (inspect (defaults root) o (root.under "bundle.user.js") bundle.text) :=
    lockstep_inspect hanswers hbesides (Path.under_clearOf_places habsolute hdots (by decide) (by decide)) hparse
  obtain ⟨hvalue, hworld, hrecord⟩ := hasked (w, u) (w', u') ⟨hrel, hrecord⟩
  have hinspect : LockstepAt host host' (Along (Abreast (gapOf root otherNames w w')) r r') _ _ (w, u) (w', u') :=
    ⟨hvalue, habreast _ _ hworld, hrecord⟩
  exact hinspect.bind fun _ mid mid' hrun hrun' hmid =>
    lockstepAt_settle (writesBesides_defaults habsolute hdots (by decide)) hpath hpath'
      (fun hwanted => hminify hwanted mid mid' hrun hrun' hmid) hmid

/-- What comes after the same bundle goes on alike, in worlds that differ in what earlier builds have
left, if the tools answer alike once the bundle is written. -/
theorem lockstepAt_finish {cache cache' : ChangeCache} {bundle : Bundle} {r r' : Result}
    (halike : w.tree.Alike (root.places leftoverNames) w'.tree) (hcore : r'.core = r.core)
    (hpath : cache.path = (defaults root).cachePath) (hpath' : cache'.path = (defaults root).cachePath)
    (hparse : host'.parse bundle.text = host.parse bundle.text)
    (hanswers : ∀ w₁ r₁ w₁' r₁',
      writeBundle (root.under "bundle.user.js") bundle host (w, r) = (.ok (), w₁, r₁) →
        writeBundle (root.under "bundle.user.js") bundle host' (w', r') = (.ok (), w₁', r₁') →
          w₁.tree.here = w.tree.here → Abreast (gapOf root otherNames w₁ w₁') w₁ w₁' →
            host.AnswersFrom (gapOf root otherNames w₁ w₁') host' w₁ w₁')
    (hminify : o.minify → ∀ gap : Gap, gap.stale = root.places otherNames → gap.here = w.tree.here →
      ∀ state state', present (defaults root) o (root.under "bundle.user.js") bundle host (w, r) = (.ok (), state) →
        present (defaults root) o (root.under "bundle.user.js") bundle host' (w', r') = (.ok (), state') →
          Along (Abreast gap) r r' state state' →
            LockstepAt host host' (Along (Abreast gap) r r')
              (minify (defaults root) o (root.under "bundle.user.js") bundle)
              (minify (defaults root) o (root.under "bundle.user.js") bundle) state state') :
    LockstepAt host host' (Along (Abreast (gapOf root leftoverNames w w')) r r')
      (finish (defaults root) o (root.under "bundle.user.js") (cache, bundle))
      (finish (defaults root) o (root.under "bundle.user.js") (cache', bundle)) (w, r) (w', r') := by
  have hstart : Along (Abreast (gapOf root leftoverNames w w')) r r' (w, r) (w', r') := by
    refine ⟨⟨rfl, [], by simp [gapOf], by simp [gapOf], halike.mono fun place hplace => ⟨hplace, .inr nofun⟩⟩,
      .refl hcore⟩
  have hwrites : WritesBesides (defaults root) (root.under "bundle.user.js") (gapOf root leftoverNames w w') :=
    writesBesides_defaults habsolute hdots (by decide)
  -- The old bundles may still differ while the new one is written.
  have hbundle : Lockstep host host' (Along (Abreast (gapOf root leftoverNames w w')) r r')
      (writeBundle (root.under "bundle.user.js") bundle) (writeBundle (root.under "bundle.user.js") bundle) :=
    lockstep_writeBundle hwrites.bundle bundle
  rw [finish_eq, finish_eq]
  refine (hbundle _ _ hstart).bind ?_
  rintro _ ⟨w₁, r₁⟩ ⟨w₁', r₁'⟩ hrun hrun' ⟨hworld, hrecord⟩
  have hwritten : w₁.written = w.written ++ [root.under "bundle.user.js"] := by
    obtain ⟨result, w₂, r₂, hrun₂, -, hcases⟩ := writeBundle_cases host (root.under "bundle.user.js") bundle w r
    cases hrun.symm.trans hrun₂
    obtain ⟨⟨fault, hfault⟩, -⟩ | ⟨-, hwritten, -⟩ := hcases
    · cases hfault
    · exact hwritten
  -- From here on the bundles are no longer different.
  have hgap := abreast_of_bundle hworld hwritten
  have hpresent (state : World × Result) {host : Host} {w w₁ : World} {r r₁ : Result}
      (hrun : writeBundle (root.under "bundle.user.js") bundle host (w, r) = (.ok (), w₁, r₁))
      (hinspect : inspect (defaults root) o (root.under "bundle.user.js") bundle.text host (w₁, r₁) =
        (.ok (), state)) :
      present (defaults root) o (root.under "bundle.user.js") bundle host (w, r) = (.ok (), state) :=
    Program.bind_eq_ok_iff.2 ⟨_, _, hrun, hinspect⟩
  obtain ⟨hvalue, hafter, hrecord⟩ := lockstepAt_inspected (o := o) habsolute hdots hpath hpath' hparse hrecord
    (hanswers _ _ _ _ hrun hrun' hworld.here hgap) fun hwanted state state' hinspect hinspect' halong =>
      hminify hwanted _ rfl hworld.here state state' (hpresent state hrun hinspect)
        (hpresent state' hrun' hinspect') halong
  exact ⟨hvalue, abreast_of_after hworld hwritten hafter, hrecord⟩

/-- Terser makes the same of a bundle in new folders, if it answers alike. -/
theorem lockstepAt_minify_defaults {gap : Gap} {r r' : Result} {bundle : Bundle}
    {state state' : World × Result} (hstale : gap.stale = root.places otherNames)
    (hagrees : host.Agrees (root.places otherNames) gap.here host')
    (hrenames : host.RenamesScratch (root.places otherNames) "bundle.user.js" host')
    (halong : Along (Abreast gap) r r' state state') (hnew : host.ScratchIsNew state.1.tree)
    (hnew' : host'.ScratchIsNew state'.1.tree) :
    LockstepAt host host' (Along (Abreast gap) r r')
      (minify (defaults root) o (root.under "bundle.user.js") bundle)
      (minify (defaults root) o (root.under "bundle.user.js") bundle) state state' := by
  have hsub : otherNames ⊆ leftoverNames := fun name hname => (mem_otherNames_iff.1 hname).1
  have hname : Path.IsName (root.under "bundle.user.js").name ∧
      '\x00' ∉ (root.under "bundle.user.js").name.toList := by
    rw [name_under]
    decide
  rw [← hstale] at hagrees hrenames
  rw [← name_under root "bundle.user.js"] at hrenames
  refine lockstepAt_minify hagrees hrenames (hstale ▸ foundBesides_defaults habsolute hdots hsub) hname.1 hname.2
    halong.1 hnew hnew' ?_ ?_ halong.2 _
  · rw [hstale]
    exact Path.standsClear_places habsolute hdots (by decide)
  · intro map hmap
    rw [sourceMap_defaults] at hmap
    rw [hstale, ← Option.some.inj hmap]
    exact Path.standsClear_places habsolute hdots (by decide)

end defaults

/-! ### Whole builds -/

/-- The same project, without settings of its own, at two times: its files are the same, but for those that
builds have left. It has a header of its own, and the change caches can be loaded. -/
structure SameProject (root : Path) (t t' : Tree) : Prop where
  alike : t.Alike (root.places leftoverNames) t'
  wellNamed : t.root.WellNamed
  wellNamed' : t'.root.WellNamed
  source : t.hasFolder (root.child "src")
  header : HasHeader root t
  cache : ∃ cache, Reading.Returns (loadCache (defaults root).cachePath t) (.ok cache)
  cache' : ∃ cache, Reading.Returns (loadCache (defaults root).cachePath t') (.ok cache)

/-- Once its bundle is linted, a build that minifies it has a new temporary folder for that. -/
def MinifiesInNewFolder (s : Settings) (o : Options) (host : Host) (world : World) : Prop :=
  o.minify → ∀ found w r, linted s o (outputPath s o) host (start s o world) = (.ok found, w, r) →
    host.ScratchIsNew w.tree

/-- What a build reports, but for how many modules have changed. -/
def Result.uncounted (r : Result) : Result := { r with changed := 0 }

theorem Result.uncounted_eq_iff {r r' : Result} : r'.uncounted = r.uncounted ↔
    r'.core = r.core ∧ r'.warnings = r.warnings ∧ r'.headerSource = r.headerSource := by
  rcases r with ⟨⟩
  rcases r' with ⟨⟩
  simp only [uncounted, core, Result.mk.injEq, true_and]
  tauto

theorem AddsAlike.uncounted_eq {r₀ r₀' r r' : Result} (h : AddsAlike r₀ r₀' r r')
    (hstart : r₀'.uncounted = r₀.uncounted) : r'.uncounted = r.uncounted := by
  obtain ⟨-, hwarnings, hheader⟩ := Result.uncounted_eq_iff.1 hstart
  obtain ⟨new, hnew, hnew'⟩ := h.warnings
  refine Result.uncounted_eq_iff.2 ⟨h.core, ?_, ?_⟩
  · rw [hnew, hnew', hwarnings]
  · rw [h.headerSource, h.headerSource', hheader]

theorem uncounted_withBundle {r r' : Result} (bundle : Bundle) (warnings : List Warning)
    (h : r'.uncounted = r.uncounted) :
    (withBundle bundle warnings r').uncounted = (withBundle bundle warnings r).uncounted := by
  have hwith := congrArg (withBundle bundle warnings) h
  exact hwith

/-- A change cache is kept in the file that it was loaded from. -/
theorem path_of_loadCache {p : Path} {cache : ChangeCache} (h : Reading.Returns (loadCache p t) (.ok cache)) :
    cache.path = p := by
  rcases loadCache_cases p t with ⟨loaded, hloaded, hpath⟩ | ⟨fault, hfault⟩
  · rw [← hpath, Except.ok.inj ((h []).symm.trans hloaded)]
  · cases (h []).symm.trans hfault

section SameProject

variable (habsolute : root.isAbsolute) (hdots : ".." ∉ root.parts)

/-- Two builds have assembled the same bundle, or they fail for the same reason. -/
def SameBundle (root : Path) (found found' : ChangeCache × Bundle) : Prop :=
  found'.2 = found.2 ∧ found.1.path = (defaults root).cachePath ∧ found'.1.path = (defaults root).cachePath

section assembled

variable (h : SameProject root t t')

include habsolute hdots h

theorem bundleOf_of_sameProject (output : Path) :
    bundleOf (defaults root) t' output = bundleOf (defaults root) t output :=
  bundleOf_eq habsolute hdots h.alike h.wellNamed h.wellNamed' h.source h.header output

/-- What is recorded of the modules and the bundle is the same, but for how many modules have changed. -/
theorem uncounted_withAssembled (output : Path) (cache cache' : ChangeCache) (r : Result) :
    (withAssembled (defaults root) t' output cache' r).uncounted =
      (withAssembled (defaults root) t output cache r).uncounted := by
  have hmerge (r : Result) : (withMerge (defaults root) t' output cache' r).uncounted =
      (withMerge (defaults root) t output cache r).uncounted := by
    have hreads := readsBesides_defaults habsolute hdots (List.Subset.refl leftoverNames)
    unfold withMerge withHeader withModules
    rw [headerOf_eq habsolute hdots h.alike h.header output,
      Module.arranged_eq h.alike hreads h.wellNamed h.wellNamed' h.source]
    dsimp only
    split <;> rfl
  unfold withAssembled
  rw [bundleOf_of_sameProject habsolute hdots h]
  split
  · exact hmerge _
  · exact uncounted_withBundle _ _ (hmerge _)

theorem endsAlike_assembledWith (output : Path) {cache cache' : ChangeCache}
    (hpath : cache.path = (defaults root).cachePath) (hpath' : cache'.path = (defaults root).cachePath) :
    EndsAlike (SameBundle root) (assembledWith (defaults root) t output cache)
      (assembledWith (defaults root) t' output cache') := by
  unfold assembledWith
  rw [bundleOf_of_sameProject habsolute hdots h]
  split
  · exact .error _
  · exact .ok ⟨rfl, (path_refresh _ _ _).trans hpath, (path_refresh _ _ _).trans hpath'⟩

/-- Up to the bundle, the builds of the same project give and record the same. -/
theorem exists_does_assembled_of_sameProject (output : Path) (r : Result) :
    ∃ value value' u u', Does t r (assembled (defaults root) o output) value u ∧
      Does t' r (assembled (defaults root) o output) value' u' ∧ u'.uncounted = u.uncounted ∧
      EndsAlike (SameBundle root) value value' := by
  obtain ⟨cache, hload⟩ := h.cache
  obtain ⟨cache', hload'⟩ := h.cache'
  have huses : ∀ use ∈ usesToAssemble, (defaults root).fault? use = none := fun _ _ => rfl
  have hreads := readsBesides_defaults habsolute hdots (List.Subset.refl leftoverNames)
  have hperm := Module.perm_files h.alike hreads h.wellNamed h.wellNamed' h.source
  by_cases hfiles : Module.files (defaults root) t = []
  · have hfiles' : Module.files (defaults root) t' = [] := (hfiles ▸ hperm).eq_nil
    refine ⟨_, _, _, _, does_assembled_of_files_eq_nil huses hload hfiles,
      does_assembled_of_files_eq_nil huses hload' hfiles', rfl, ?_⟩
    rw [Module.sourceRoot_eq h.alike hreads h.source]
    exact .error _
  · have hfiles' : Module.files (defaults root) t' ≠ [] := fun hnil => hfiles (hnil ▸ hperm).nil_eq.symm
    exact ⟨_, _, _, _, does_assembled huses hload hfiles, does_assembled huses hload' hfiles',
      uncounted_withAssembled habsolute hdots h output cache cache' _,
      endsAlike_assembledWith habsolute hdots h output (path_of_loadCache hload) (path_of_loadCache hload')⟩

end assembled

include habsolute hdots in
/-- The steps of two builds of the same project end in the same way, and what either has written besides the
change cache is the same. -/
theorem steps_eq_of_sameProject (h : SameProject root world.tree world'.tree)
    (hagrees : host.Agrees (root.places otherNames) world.tree.here host') (r : Result)
    (hrenames : o.minify → host.RenamesScratch (root.places otherNames) "bundle.user.js" host')
    (hnew : o.minify → ∀ found state, linted (defaults root) o (root.under "bundle.user.js") host (world, r) =
      (.ok found, state) → host.ScratchIsNew state.1.tree)
    (hnew' : o.minify → ∀ found state, linted (defaults root) o (root.under "bundle.user.js") host' (world', r) =
      (.ok found, state) → host'.ScratchIsNew state.1.tree) :
    ∃ value w w' u u' new,
      steps (defaults root) o (root.under "bundle.user.js") host (world, r) = (value, w, u) ∧
        steps (defaults root) o (root.under "bundle.user.js") host' (world', r) = (value, w', u') ∧
        u'.uncounted = u.uncounted ∧ w.written = world.written ++ new ∧ w'.written = world'.written ++ new ∧
        w.tree.Alike ((gapOf root leftoverNames world world').Remains new) w'.tree := by
  obtain ⟨value, value', u, u', hdoes, hdoes', hrecord, hbundle⟩ :=
    exists_does_assembled_of_sameProject (o := o) habsolute hdots h (root.under "bundle.user.js") r
  obtain ⟨log, hrun⟩ := hdoes host world rfl
  obtain ⟨log', hrun'⟩ := hdoes' host' world' rfl
  rw [steps_eq_bind, Program.run_bind, Program.run_bind, hrun, hrun']
  -- What is assembled is the same; only the caches that go with it may differ.
  cases hbundle with
  | error failure =>
    refine ⟨_, _, _, _, _, [], rfl, rfl, hrecord, by simp, by simp, h.alike.mono ?_⟩
    exact fun place hplace => ⟨hplace, .inr (List.forall_mem_nil _)⟩
  | @ok found found' hsame =>
    obtain ⟨cache, bundle⟩ := found
    obtain ⟨cache', bundle'⟩ := found'
    obtain ⟨rfl, hpath, hpath'⟩ := hsame
    have hcore := (Result.uncounted_eq_iff.1 hrecord).1
    have hanswers (w₁ w₁' : World) (hhere : w₁.tree.here = world.tree.here)
        (hgap : Abreast (gapOf root otherNames w₁ w₁') w₁ w₁') :
        host.AnswersFrom (gapOf root otherNames w₁ w₁') host' w₁ w₁' := by
      have hagrees' : host.Agrees (root.places otherNames) w₁.tree.here host' := hhere ▸ hagrees
      exact hagrees'.answersFrom hgap
    have hfinish := @lockstepAt_finish root o host host' { world with log } { world' with log := log' } habsolute
      hdots cache cache' bundle' u u' h.alike hcore hpath hpath' (congrFun hagrees.parse _)
      (fun w₁ r₁ w₁' r₁' _ _ hhere hgap => hanswers w₁ w₁' hhere hgap)
      fun hwanted gap hstale hhere state state' hpresent hpresent' halong =>
        lockstepAt_minify_defaults habsolute hdots hstale
          ((show gap.here = world.tree.here from hhere) ▸ hagrees) (hrenames hwanted) halong
          (hnew hwanted (cache, bundle') state (linted_eq ▸ followedBy_eq_ok_iff.2 ⟨_, hrun, hpresent⟩))
          (hnew' hwanted (cache', bundle') state' (linted_eq ▸ followedBy_eq_ok_iff.2 ⟨_, hrun', hpresent'⟩))
    unfold LockstepAt at hfinish
    dsimp only
    generalize finish (defaults root) o (root.under "bundle.user.js") (cache, bundle') host
      ({ world with log }, u) = ended at hfinish ⊢
    generalize finish (defaults root) o (root.under "bundle.user.js") (cache', bundle') host'
      ({ world' with log := log' }, u') = ended' at hfinish ⊢
    obtain ⟨value, w, v⟩ := ended
    obtain ⟨value', w', v'⟩ := ended'
    obtain ⟨rfl, ⟨-, new, hnew, hnew', halike⟩, hadds⟩ := hfinish
    exact ⟨_, _, _, _, _, new, rfl, rfl, hadds.uncounted_eq hrecord, hnew, hnew', halike⟩

/-- The files that a build with default settings can write stand in the folder of the project. -/
theorem exists_under_of_target {p : Path} (houtput : o.output = none) (h : Target (defaults root) o p) :
    ∃ name ∈ leftoverNames, p = root.under name := by
  have hpath : outputPath (defaults root) o = root.under "bundle.user.js" := outputPath_defaults houtput
  cases h with
  | bundle => exact ⟨_, by decide, hpath⟩
  | debugCopy _ _ hcopy =>
    rw [hpath, debugCopy_defaults] at hcopy
    exact ⟨_, by decide, (Except.ok.inj hcopy).symm⟩
  | sourceMap _ hmap =>
    rw [hpath, sourceMap_defaults] at hmap
    exact ⟨_, by decide, (Option.some.inj hmap).symm⟩
  | cache => exact ⟨_, by decide, cachePath_defaults root⟩

include habsolute hdots in
/-- A file that has been written is clear of what remains different, unless it is the change cache. -/
theorem remains_clearOf {p : Path} {new : List Path} (houtput : o.output = none)
    (htarget : Target (defaults root) o p) (hcache : p ≠ (defaults root).cachePath) (hp : p ∈ new) :
    p.ClearOf ((gapOf root leftoverNames w w').Remains new) := by
  obtain ⟨name, hname, rfl⟩ := exists_under_of_target houtput htarget
  have hsub (place : List String) (hplace : (gapOf root leftoverNames w w').Remains new place) :
      root.places leftoverNames place :=
    hplace.stale
  refine ((Path.clearOf_places habsolute hdots).mono hsub).under ?_ ?_
  · rintro rfl
    exact absurd hname (by decide)
  · rintro ⟨-, heq | hnew⟩
    · rw [cachePath_defaults] at hcache
      exact hcache (congrArg root.under (List.singleton_inj.1 (List.append_cancel_left heq)))
    · exact hnew _ hp rfl

end SameProject

/-! ### A project with and without leftovers -/

/-- A project with one module and with a header in a file of its own, and with these files beside them. -/
def headed (beside : List (String × Node)) : World :=
  projectAt 0 (("userscript.js", .file (Utf8.encode Header.fallback) 0) :: beside)

/-- The bundle of an earlier build, with another header. -/
def oldBundle : Bytes := Utf8.encode "// ==UserScript==\n// ==/UserScript==\nold()".toList

/-- A change cache that cannot be read. -/
def oldCache : Bytes := Utf8.encode "\x7b".toList

/-- What earlier builds of the project have left. -/
def oldFiles : List (String × Node) :=
  [("bundle.user.js", .file oldBundle 5), (".build-cache.json", .file oldCache 5)]

theorem sameProject_headed :
    SameProject ⟨.slash, ["p"]⟩ (headed []).tree (headed oldFiles).tree := by
  have hcache (t : Tree) (h : ((loadCache (defaults ⟨.slash, ["p"]⟩).cachePath t []).1.toOption).isSome) :
      ∃ cache, Reading.Returns (loadCache (defaults ⟨.slash, ["p"]⟩).cachePath t) (.ok cache) := by
    have hreturns := returns_loadCache (defaults ⟨.slash, ["p"]⟩).cachePath t
    cases hload : (loadCache (defaults ⟨.slash, ["p"]⟩).cachePath t []).1 with
    | error failure =>
      rw [hload] at h
      cases h
    | ok cache =>
      rw [hload] at hreturns
      exact ⟨cache, hreturns⟩
  have hplaces {t : Tree} {name : String} (hname : name ∈ leftoverNames) (names : List String)
      (hnames : t.names ⟨.slash, ["p", name]⟩ = .ok names) :
      (⟨.slash, ["p"]⟩ : Path).places leftoverNames names := by
    have hdots : ".." ∉ ["p", name] := by
      simp only [List.mem_cons, List.not_mem_nil, or_false, not_or]
      exact ⟨by decide, fun heq => absurd (heq ▸ hname) (by decide)⟩
    exact ⟨name, hname, Tree.eq_parts_of_names hnames rfl hdots⟩
  have hbundle : (headed []).tree.writeFile ⟨.slash, ["p", "bundle.user.js"]⟩ oldBundle 5 =
      .ok (headed [("bundle.user.js", .file oldBundle 5)]).tree := rfl
  have hcacheFile : (headed [("bundle.user.js", .file oldBundle 5)]).tree.writeFile
      ⟨.slash, ["p", ".build-cache.json"]⟩ oldCache 5 = .ok (headed oldFiles).tree := rfl
  have halike := (Tree.Alike.of_writeFile hbundle (hplaces (by decide))).trans
    (.of_writeFile hcacheFile (hplaces (by decide)))
  refine ⟨halike, ?_, ?_, by decide +kernel, ?_, hcache _ (by decide +kernel), hcache _ (by decide +kernel)⟩
  · exact wellNamed_projectAt (by decide) (List.forall_mem_singleton.2 ⟨by decide, .file⟩)
  · refine wellNamed_projectAt (by decide) ?_
    simp only [oldFiles, List.forall_mem_cons, List.not_mem_nil]
    exact ⟨⟨by decide, .file⟩, ⟨by decide, .file⟩, ⟨by decide, .file⟩, nofun⟩
  · exact ⟨_, List.mem_cons_self, by decide +kernel⟩

/-! ### A Terser that copies what it is given -/

/-- What Terser writes in a folder if it is asked for a bundle there: the script that it is given. -/
def copiesIn (folder : Path) (t : Tree) (argv : List String) : List (Path × Bytes) :=
  if argv.getLast? = some (folder.under "bundle.user.js").toString ∧ t.has (folder.under "input-bundle.user.js") then
    ((t.read (folder.under "input-bundle.user.js")).toOption.map fun script =>
      (folder.under "bundle.user.js", script)).toList
  else []

/-- A host with such a Terser, which works in this folder at the top, and says where it writes. -/
def copyHost (folder : String) : Host :=
  { bareHost with
    which := fun name => if name = "terser" then some "/bin/terser" else none
    run := fun t argv =>
      { ending := .ended (some 0) [] (Utf8.encode (argv.getLastD "").toList)
        files := copiesIn ⟨.slash, ["s"]⟩ t argv ++ copiesIn ⟨.slash, ["t"]⟩ t argv }
    scratch := ⟨.slash, [folder]⟩ }

theorem getLast?_arguments {terser : Terser} {request : Terser.Request} {argv : List String}
    (h : terser.arguments request = .ok argv) : argv.getLast? = some request.output.toString := by
  unfold Terser.arguments at h
  split at h
  · cases h
  · cases h
  · cases h
    rw [List.getLast?_append]
    rfl

theorem copiesIn_eq_nil {folder : Path} {argv : List String}
    (h : argv.getLast? ≠ some (folder.under "bundle.user.js").toString) : copiesIn folder t argv = [] :=
  if_neg fun hand => h hand.1

theorem eq_of_mem_copiesIn {folder : Path} {argv : List String} {file : Path × Bytes}
    (h : file ∈ copiesIn folder t argv) : file.1 = folder.under "bundle.user.js" := by
  unfold copiesIn at h
  split at h
  · obtain ⟨script, -, rfl⟩ := Option.map_eq_some_iff.1 (Option.mem_toList.1 h)
    rfl
  · cases h

theorem forall₂_copiesIn {stale : List String → Prop} {folder folder' : Path} {argv argv' : List String}
    (h : Tree.Relocated stale folder folder' t t') (hfolder : folder.Direct) (hfolder' : folder'.Direct)
    (hargv : argv.getLast? = some (folder.under "bundle.user.js").toString)
    (hargv' : argv'.getLast? = some (folder'.under "bundle.user.js").toString) :
    List.Forall₂ (Tree.SameFile folder folder') (copiesIn folder t argv) (copiesIn folder' t' argv') := by
  have hinput : Path.IsName "input-bundle.user.js" := by decide
  have houtput : Path.IsName "bundle.user.js" := by decide
  unfold copiesIn
  rw [hargv, hargv', h.has_eq hinput hfolder hfolder']
  simp only [true_and]
  split
  · next hhas =>
    rw [h.read_eq hinput hfolder hfolder' hhas]
    cases t.read (folder.under "input-bundle.user.js") with
    | error fault => exact .nil
    | ok script => exact .cons (.inside houtput) .nil
  · exact .nil

/-- A file in another folder at the top is none that builds leave. -/
theorem clearOf_atTop {folder name : String} (hfolder : folder ∈ ["s", "t"]) (hname : name ≠ "..") :
    (Path.under ⟨.slash, [folder]⟩ name).ClearOf (Path.places ⟨.slash, ["p"]⟩ names) := by
  refine ⟨rfl, ?_, ?_⟩
  · have hdots : ".." ≠ folder := by
      rintro rfl
      revert hfolder
      decide
    simp [Path.under, hdots, hname.symm]
  · rintro _ hpre ⟨other, -, rfl⟩
    obtain ⟨rfl, -⟩ := List.cons_prefix_cons.1 hpre
    revert hfolder
    decide

theorem agrees_copyHost (folder folder' : String) :
    (copyHost folder).Agrees (Path.places ⟨.slash, ["p"]⟩ otherNames) ⟨.slash, ["p"]⟩ (copyHost folder') where
  which := rfl
  parse := rfl
  run t t' argv h := by
    have hcopies {folder : String} (hfolder : folder ∈ ["s", "t"]) :
        copiesIn ⟨.slash, [folder]⟩ t' argv = copiesIn ⟨.slash, [folder]⟩ t argv := by
      have hclear : (Path.under ⟨.slash, [folder]⟩ "input-bundle.user.js").ClearOf
          (Path.places ⟨.slash, ["p"]⟩ otherNames) := clearOf_atTop hfolder (by decide)
      rw [copiesIn, copiesIn, h.has_eq hclear, h.read_eq hclear]
    simp only [copyHost, hcopies (show "s" ∈ ["s", "t"] by decide), hcopies (show "t" ∈ ["s", "t"] by decide)]
  bypasses t argv file hfile place hplace := by
    have hclear {folder : String} (hfolder : folder ∈ ["s", "t"])
        (hfile : file ∈ copiesIn ⟨.slash, [folder]⟩ t argv) : file.1.Bypasses ⟨.slash, ["p"]⟩ place := by
      rw [eq_of_mem_copiesIn hfile]
      exact (clearOf_atTop hfolder (by decide)).bypasses hplace
    rcases List.mem_append.1 hfile with hfile | hfile
    · exact hclear (by decide) hfile
    · exact hclear (by decide) hfile

theorem renamesScratch_copyHost (stale : List String → Prop) :
    (copyHost "s").RenamesScratch stale "bundle.user.js" (copyHost "t") := by
  intro terser wish argv argv' t t' hargv hargv' hrelocated
  have htext : (Path.child ⟨.slash, ["s"]⟩ "bundle.user.js").toString = "/s/bundle.user.js" := by decide +kernel
  have htext' : (Path.child ⟨.slash, ["t"]⟩ "bundle.user.js").toString = "/t/bundle.user.js" := by decide +kernel
  have hasked : argv.getLast? = some "/s/bundle.user.js" := (getLast?_arguments hargv).trans (congrArg some htext)
  have hasked' : argv'.getLast? = some "/t/bundle.user.js" :=
    (getLast?_arguments hargv').trans (congrArg some htext')
  have hother : copiesIn ⟨.slash, ["t"]⟩ t argv = [] := by
    refine copiesIn_eq_nil ?_
    rw [hasked]
    decide +kernel
  have hother' : copiesIn ⟨.slash, ["s"]⟩ t' argv' = [] := by
    refine copiesIn_eq_nil ?_
    rw [hasked']
    decide +kernel
  refine ⟨.ended ⟨rfl, fun hok => by cases hok⟩, rfl, ?_⟩
  change List.Forall₂ _ (copiesIn _ t argv ++ copiesIn _ t argv) (copiesIn _ t' argv' ++ copiesIn _ t' argv')
  rw [hother, hother', List.append_nil, List.nil_append]
  exact forall₂_copiesIn hrelocated ⟨rfl, by decide, by decide⟩ ⟨rfl, by decide, by decide⟩
    (hasked.trans (by decide +kernel)) (hasked'.trans (by decide +kernel))

theorem minifiesInNewFolder_of_linted {s : Settings} (habsolute : host.scratch.isAbsolute)
    (hdots : ".." ∉ host.scratch.parts) (hnul : host.scratch.hasNul = false)
    (h : (linted s o (outputPath s o) host (start s o world)).2.1.tree.faceAt host.scratch.parts = none ∧
      (linted s o (outputPath s o) host (start s o world)).2.1.tree.faceAt host.scratch.parts.dropLast =
        some .folder) : MinifiesInNewFolder s o host world := by
  intro _ found w r hlinted
  rw [hlinted] at h
  exact ⟨⟨habsolute, hdots, h.1, h.2⟩, hnul⟩

end Build

end Userscript
