import Userscript.Proofs.Build.Ending
import Userscript.Proofs.Build.Products
import Userscript.Proofs.ChangeCache.Persistence
import Userscript.Proofs.Header.LineStyle

/-!
# Building again

A build with default settings leaves its bundle where the next build looks for a header. That build reads the
bundle back, through UTF-8 and its line ends, and finds the header with which it begins, if that is one in line
comments. So it assembles the same bundle, and as the tools say the same of it, it ends in the same way.

## Main definitions

* `Build.ReadsBlockBack` — a header in a block comment would be read back
* `Build.SameVerdicts` — what the tools say has not changed
* `Build.Assembles` — a build assembles a bundle

## Main results

* `trim_headerOf_eq` — the header is read back from the bundle
* `bundleOf_of_left` — the next build assembles the same bundle
* `run_again` — a project is built again as it was built
-/

namespace Userscript

open Header (Markers)
open Userscript.Tree (Writes latest latest_append)

/-- What is read of a file has no carriage returns. -/
theorem Tree.not_mem_return_readText {t : Tree} {p : Path} {text : Text} (h : t.readText p = .ok text) :
    '\r' ∉ text := by
  unfold readText at h
  split at h
  · cases h
  · split at h
    · cases h
    · cases h
      exact Text.not_mem_return_unifyEndings _

namespace Build

variable {root : Path} {o : Options} {host host' : Host} {world world' w w' : World} {t t' : Tree}
  {bundle : Bundle} {header : Text}

/-! ### The header that is read back -/

/-- A project has no header of its own, and its earlier bundle begins with one in a block comment. -/
def ReadsBlockBack (root : Path) (t : Tree) : Prop :=
  ¬ HasHeader root t ∧ ∃ text, t.readText (root.under "bundle.user.js") = .ok text ∧
    Markers.find? ({} : Markers).lineStyle text = none ∧ (Markers.find? ({} : Markers).blockStyle text).isSome

/-- Without a header of its own, a project has that of its earlier bundle, or the fallback. -/
theorem text_headerOf_of_not_hasHeader (h : ¬ HasHeader root t) :
    (headerOf (defaults root) t (root.under "bundle.user.js")).text =
      ((t.readText (root.under "bundle.user.js")).toOption.bind ({} : Markers).extract?).getD
        Header.fallback := by
  have hnone (p : Path) (hp : p ∈ [root.child "userscript.js", (root.child "src").child "userscript.js"]) :
      (t.readText p).toOption.bind ({} : Markers).extract? = none := by
    rw [← Option.not_isSome_iff_eq_none]
    exact fun hsome => h ⟨p, hp, hsome⟩
  have hfirst := hnone (root.child "userscript.js") (by simp)
  have hsecond := hnone ((root.child "src").child "userscript.js") (by simp)
  have hheader : headerOf (defaults root) t (root.under "bundle.user.js") =
      Header.resolved {} t [.file (root.child "userscript.js"), .file ((root.child "src").child "userscript.js"),
        .file (root.under "bundle.user.js"), .text Header.fallback] := rfl
  rw [hheader, Header.resolved, hfirst]
  dsimp only
  rw [Header.resolved, hsecond]
  dsimp only
  rw [Header.resolved]
  cases (t.readText (root.under "bundle.user.js")).toOption.bind ({} : Markers).extract? <;> rfl

/-- A header that is not of the project's own is one in line comments, and no carriage return is in it, unless
one in a block comment is read back. -/
theorem lineHeader_headerOf (h : ¬ HasHeader root t) (hblock : ¬ ReadsBlockBack root t) :
    ({} : Markers).LineHeader (Text.trim (headerOf (defaults root) t (root.under "bundle.user.js")).text) ∧
      '\r' ∉ Text.trim (headerOf (defaults root) t (root.under "bundle.user.js")).text := by
  rw [text_headerOf_of_not_hasHeader h]
  cases hfound : (t.readText (root.under "bundle.user.js")).toOption.bind ({} : Markers).extract? with
  | none => exact ⟨Markers.lineHeader_fallback, by decide +kernel⟩
  | some header =>
    obtain ⟨text, htext, hheader⟩ := Option.bind_eq_some_iff.1 hfound
    have hread : t.readText (root.under "bundle.user.js") = .ok text := by
      cases hread : t.readText (root.under "bundle.user.js") with
      | error fault => rw [hread] at htext; cases htext
      | ok text' => rw [hread] at htext; cases htext; rfl
    have hline : ({} : Markers).LineHeader header := by
      cases hlines : Markers.find? ({} : Markers).lineStyle text with
      | some found =>
        rw [Markers.extract?, hlines] at hheader
        split at hheader
        · cases hheader
        · cases hheader
          exact .of_find? hlines
      | none =>
        -- What is read back is in a block comment then, which is the case that is left out.
        rw [Markers.extract?, hlines] at hheader
        split at hheader
        · cases hheader
        · refine absurd ⟨h, text, hread, hlines, ?_⟩ hblock
          rw [show Markers.find? ({} : Markers).blockStyle text = some header from hheader]
          rfl
    rw [Option.getD_some, hline.trim_eq]
    obtain ⟨before, after, htext⟩ := hline.isInfix_of_extract? hheader
    refine ⟨hline, fun hmem => Tree.not_mem_return_readText hread ?_⟩
    rw [← htext]
    simp [hmem]

/-- A header that is not of the project's own is read back from the bundle that begins with it. -/
theorem trim_headerOf_eq (h : ¬ HasHeader root t) (h' : ¬ HasHeader root t') (hblock : ¬ ReadsBlockBack root t)
    {rest : Text} (hread : t'.read (root.under "bundle.user.js") = .ok (Utf8.encode
      (Text.trim (headerOf (defaults root) t (root.under "bundle.user.js")).text ++ rest))) :
    Text.trim (headerOf (defaults root) t' (root.under "bundle.user.js")).text =
      Text.trim (headerOf (defaults root) t (root.under "bundle.user.js")).text := by
  obtain ⟨hline, hreturn⟩ := lineHeader_headerOf h hblock
  generalize Text.trim (headerOf (defaults root) t (root.under "bundle.user.js")).text = header at *
  have hextract :
      (t'.readText (root.under "bundle.user.js")).toOption.bind ({} : Markers).extract? = some header := by
    rw [Tree.readText, hread]
    dsimp only
    rw [Utf8.decode_encode]
    exact hline.extract?_unifyEndings hreturn rest
  rw [text_headerOf_of_not_hasHeader h', hextract, Option.getD_some, hline.trim_eq]

/-! ### What the first build has left -/

/-- What is written of the change cache is written by its own name. -/
theorem Saved.latest_eq_none {saved : List (String × Bytes)} (h : Saved saved) {name : String}
    (hname : name ≠ ".build-cache.json") : latest name saved = none := by
  cases h with
  | nothing => rfl
  | cache c => simp [latest, hname.symm]

/-- The bundle that is left begins with its header, if that is one in line comments. -/
theorem Products.exists_latest {products : List (String × Bytes)} (h : Products (defaults root) o bundle products)
    (hline : ({} : Markers).LineHeader bundle.header) :
    ∃ rest, latest "bundle.user.js" products = some (Utf8.encode (bundle.header ++ rest)) := by
  obtain ⟨rest, hrest⟩ := bundle.exists_text_eq
  -- Optimizing keeps a header in line comments as it is, and works on what is below it.
  cases h with
  | plain => exact ⟨rest, by rw [← hrest]; rfl⟩
  | @optimized small _ hsmall =>
    rw [optimizedText, Script.optimizeGiven, hrest, Script.belowHeader_append hline (.inr rfl)] at hsmall
    rcases hbody : Script.optimizeBodyGiven _ _ _ rest with fault | body
    · rw [hbody] at hsmall
      cases hsmall
    · rw [hbody] at hsmall
      obtain rfl := Except.ok.inj hsmall
      exact ⟨_, rfl⟩

section rebuild

variable (habsolute : root.isAbsolute) (hdots : ".." ∉ root.parts)

include habsolute hdots

/-- The folder of a project is there if its folder `src` is. -/
theorem folder_of_source (hsource : t.hasFolder (root.child "src")) : t.faceAt root.parts = some .folder := by
  have hname : Path.IsName "src" := by decide
  rw [Path.child_of_isName hname, Tree.hasFolder, Tree.find?] at hsource
  cases hnames : t.names (root.under "src") with
  | error obstacle => rw [hnames] at hsource; cases hsource
  | ok names =>
    rw [hnames] at hsource
    exact (Tree.folder_of_names_under habsolute hdots hname.ne_dots hnames).2

omit habsolute hdots in
/-- What is written under default settings are files that builds leave. -/
theorem mem_leftoverNames {products saved : List (String × Bytes)}
    (hproducts : Products (defaults root) o bundle products) (hsaved : Saved saved) :
    ∀ write ∈ products ++ saved, write.1 ∈ leftoverNames := by
  cases hproducts <;> cases hsaved <;> simp [leftoverNames]

section left

variable {products saved : List (String × Bytes)} {warnings : List Warning}
  (hproducts : Products (defaults root) o bundle products) (hsaved : Saved saved)
  (hwrites : Writes root (products ++ saved) t t')

include hproducts hsaved hwrites

theorem alike_of_left : t.Alike (root.places leftoverNames) t' :=
  hwrites.alike habsolute hdots (mem_leftoverNames hproducts hsaved) (by decide)

theorem wellNamed_of_left (hwell : t.root.WellNamed) : t'.root.WellNamed := by
  have hnames : ∀ name ∈ leftoverNames, Path.IsName name := by decide
  exact hwrites.wellNamed habsolute hdots
    (fun write hwrite => hnames _ (mem_leftoverNames hproducts hsaved write hwrite)) hwell

/-- What is read of a file that builds leave is what was last written of it, or what was there before. -/
theorem read_of_left {name : String} (hname : name ∈ leftoverNames) :
    t'.read (root.under name) = (latest name (products ++ saved)).elim (t.read (root.under name)) .ok := by
  have hdots' : ∀ other ∈ leftoverNames, other ≠ ".." := by decide
  exact hwrites.read_eq habsolute hdots (hdots' name hname)
    fun write hwrite => hdots' _ (mem_leftoverNames hproducts hsaved write hwrite)

/-- The next build assembles the same bundle, whichever way the header was found. -/
theorem bundleOf_of_left (hwell : t.root.WellNamed) (hsource : t.hasFolder (root.child "src"))
    (hbundle : bundleOf (defaults root) t (root.under "bundle.user.js") = .ok (bundle, warnings))
    (hblock : ¬ ReadsBlockBack root t) : bundleOf (defaults root) t' (root.under "bundle.user.js") =
      bundleOf (defaults root) t (root.under "bundle.user.js") := by
  have halike := alike_of_left habsolute hdots hproducts hsaved hwrites
  have hwell' := wellNamed_of_left habsolute hdots hproducts hsaved hwrites hwell
  -- The bundle is looked into only if the project has no header of its own.
  by_cases hheader : HasHeader root t
  · exact bundleOf_eq habsolute hdots halike hwell hwell' hsource hheader _
  · have hheader' : ¬ HasHeader root t' := by rwa [hasHeader_iff habsolute hdots halike]
    obtain ⟨hline, hreturn⟩ := lineHeader_headerOf hheader hblock
    have htop : bundle.header = Text.trim (headerOf (defaults root) t (root.under "bundle.user.js")).text := by
      rw [bundleOf] at hbundle
      exact Bundle.header_of_assemble hbundle
    rw [← htop] at hline
    obtain ⟨rest, hlatest⟩ := hproducts.exists_latest hline
    have hname : "bundle.user.js" ∈ leftoverNames := by decide
    have hne : "bundle.user.js" ≠ ".build-cache.json" := by decide
    have hread := read_of_left habsolute hdots hproducts hsaved hwrites hname
    rw [latest_append, hsaved.latest_eq_none hne, hlatest, htop] at hread
    exact bundleOf_eq_of_trim habsolute hdots halike hwell hwell' hsource
      (trim_headerOf_eq hheader hheader' hblock hread)

/-- What the second build writes is what is there already, apart from the change cache. -/
theorem read_eq_of_left {saved' : List (String × Bytes)} {t'' : Tree} (hsaved' : Saved saved')
    (hwrites' : Writes root (products ++ saved') t' t'') {name : String} (hname : name ∈ leftoverNames)
    (hcache : name ≠ ".build-cache.json") : t''.read (root.under name) = t'.read (root.under name) := by
  have hread := read_of_left habsolute hdots hproducts hsaved hwrites hname
  have hread' := read_of_left habsolute hdots hproducts hsaved' hwrites' hname
  rw [latest_append, hsaved.latest_eq_none hcache, Option.none_or] at hread
  rw [latest_append, hsaved'.latest_eq_none hcache, Option.none_or] at hread'
  cases hlatest : latest name products with
  | none => rw [hread', hlatest, Option.elim_none]
  | some content => rw [hread', hread, hlatest, Option.elim_some, Option.elim_some]

theorem exists_read_bundle : ∃ content, t'.read (root.under "bundle.user.js") = .ok content := by
  have hname : "bundle.user.js" ∈ leftoverNames := by decide
  have hne : "bundle.user.js" ≠ ".build-cache.json" := by decide
  have hread := read_of_left habsolute hdots hproducts hsaved hwrites hname
  rw [latest_append, hsaved.latest_eq_none hne, Option.none_or] at hread
  cases hproducts with
  | plain => exact ⟨_, hread⟩
  | optimized => exact ⟨_, hread⟩

/-- The change cache can be loaded again. -/
theorem exists_loadCache_of_left {cache : ChangeCache}
    (hload : Reading.Returns (loadCache (defaults root).cachePath t) (.ok cache)) :
    ∃ cache', Reading.Returns (loadCache (defaults root).cachePath t') (.ok cache') := by
  have hname : ".build-cache.json" ∈ leftoverNames := by decide
  have hread := read_of_left habsolute hdots hproducts hsaved hwrites hname
  have hnone : latest ".build-cache.json" products = none := by
    cases hproducts <;> rfl
  rw [latest_append, hnone, Option.or_none] at hread
  rw [cachePath_defaults] at hload ⊢
  cases hsaved with
  | nothing =>
    -- The file of the cache is the one that the first build has loaded.
    refine ⟨cache, fun log => ?_⟩
    rw [← hload log, ChangeCache.loadCache_fst, ChangeCache.loadCache_fst, Tree.readText, Tree.readText, hread]
    rfl
  | cache c =>
    obtain ⟨cache', hcache'⟩ := ChangeCache.exists_loadCache_encode hread []
    exact ⟨cache', hcache' ▸ returns_loadCache _ _⟩

end left

end rebuild

/-! ### The second build -/

/-- What is on record of the same bundle is the same, but for the warnings, the number of changed modules and
where the header comes from. -/
theorem core_withAssembled {s : Settings} {output : Path} (cache cache' : ChangeCache) (r : Result)
    (h : bundleOf s t' output = bundleOf s t output) :
    (withAssembled s t' output cache' r).core = (withAssembled s t output cache r).core := by
  have hmerge : (withMerge s t' output cache' r).core = (withMerge s t output cache r).core := by
    unfold withMerge withHeader withModules
    dsimp only
    split <;> split <;> rfl
  unfold withAssembled
  rw [h]
  split
  · exact hmerge
  · next found _ =>
    have hwith := congrArg (fun r : Result =>
      { r with merged := found.1.merged, skipped := found.1.skipped }) hmerge
    exact hwith

/-- The tree in which a build has its bundle checked and linted. -/
def treeInspected (s : Settings) (o : Options) (host : Host) (world : World) : Tree :=
  (written s o (outputPath s o) host (start s o world)).2.1.tree

/-- In two builds the outside tools give the same verdicts on the bundles, and change no files. -/
structure SameVerdicts (s : Settings) (o : Options) (host : Host) (world : World) (host' : Host)
    (world' : World) : Prop where
  which : host'.which = host.which
  parse : host'.parse = host.parse
  run (argv : List String) :
    host'.run (treeInspected s o host' world') argv = host.run (treeInspected s o host world) argv
  files (argv : List String) : (host.run (treeInspected s o host world) argv).files = []

/-- A build with default settings assembles a bundle. -/
def Assembles (root : Path) (o : Options) (host : Host) (world : World) (found : ChangeCache × Bundle) (w : World)
    (u : Result) : Prop :=
  assembled (defaults root) o (root.under "bundle.user.js") host
    (world, { output := root.under "bundle.user.js" }) = (.ok found, w, u)

section Assembles

variable {cache : ChangeCache} {u u' : Result} {found : ChangeCache × Bundle}

/-- The bundle is inspected in the tree in which it has just been written. -/
theorem Assembles.treeInspected_eq (houtput : o.output = none) (h : Assembles root o host world found w u)
    {last : World} {v : Result}
    (hwrite : writeBundle (root.under "bundle.user.js") found.2 host (w, u) = (.ok (), last, v)) :
    treeInspected (defaults root) o host world = last.tree := by
  have hwritten : written (defaults root) o (root.under "bundle.user.js") host
      (world, { output := root.under "bundle.user.js" }) = (.ok found, last, v) :=
    followedBy_eq_ok_iff.2 ⟨(w, u), h, hwrite⟩
  rw [treeInspected, start, outputPath_defaults houtput, hwritten]

/-- A build that succeeds has assembled a bundle, and gone on from there. -/
theorem exists_assembles_of_run {result : Result} {after : World} (houtput : o.output = none)
    (hrun : run (defaults root) o host world = (.ok result, after)) (hsuccess : result.isSuccess) :
    ∃ cache bundle w u r, Assembles root o host world (cache, bundle) w u ∧
      finish (defaults root) o (root.under "bundle.user.js") (cache, bundle) host (w, u) = (.ok (), after, r) ∧
      result = { r with isSuccess := true, stages := r.stages ++ ["total"] } := by
  obtain ⟨r, hsteps, hresult⟩ := exists_steps_of_run hrun hsuccess
  rw [start, outputPath_defaults houtput, steps_eq_bind] at hsteps
  obtain ⟨⟨cache, bundle⟩, ⟨w, u⟩, hassembled, hfinish⟩ := Program.bind_eq_ok_iff.1 hsteps
  exact ⟨cache, bundle, w, u, r, hassembled, hfinish, hresult⟩

/-- A build that assembles a bundle and goes on well from there succeeds. -/
theorem Assembles.run_eq (houtput : o.output = none) (h : Assembles root o host world found w u) {after : World}
    {r : Result}
    (hfinish : finish (defaults root) o (root.under "bundle.user.js") found host (w, u) = (.ok (), after, r)) :
    run (defaults root) o host world =
      (.ok { r with isSuccess := true, stages := r.stages ++ ["total"] }, after) := by
  have hsteps : steps (defaults root) o (root.under "bundle.user.js") host
      (world, { output := root.under "bundle.user.js" }) = (.ok (), after, r) := by
    rw [steps_eq_bind]
    exact Program.bind_eq_ok_iff.2 ⟨found, (w, u), h, hfinish⟩
  rw [Build.run_eq, start, outputPath_defaults houtput, hsteps]
  rfl

/-- What has been assembled, and from what. -/
theorem Assembles.exists_bundleOf (h : Assembles root o host world found w u) :
    w.tree = world.tree ∧ found.1.path = (defaults root).cachePath ∧
      Module.files (defaults root) world.tree ≠ [] ∧
      (∃ warnings, bundleOf (defaults root) world.tree (root.under "bundle.user.js") = .ok (found.2, warnings)) ∧
      ∃ cache, Reading.Returns (loadCache (defaults root).cachePath world.tree) (.ok cache) ∧
        u = withAssembled (defaults root) world.tree (root.under "bundle.user.js") cache
          { output := root.under "bundle.user.js", stages := ["collect"] } := by
  obtain ⟨value, u', hdoes, hassembling⟩ := exists_does_assembled (defaults root) o world.tree
    (root.under "bundle.user.js") { output := root.under "bundle.user.js" }
  obtain ⟨log, hrun⟩ := hdoes host world rfl
  obtain ⟨hvalue, hrest⟩ := Prod.mk.inj (Eq.trans (Eq.symm h) hrun)
  obtain ⟨hworld, -⟩ := Prod.mk.inj hrest
  rw [← hvalue] at hassembling
  cases hassembling with
  | @bundle cache' bundle warnings r' hfiles hbundle hpath hrecord hrefreshed =>
    obtain ⟨-, cache, -, hload, -⟩ := hrefreshed
    have huses : ∀ use ∈ usesToAssemble, (defaults root).fault? use = none := fun _ _ => rfl
    obtain ⟨log', hrun'⟩ := does_assembled (o := o) huses hload hfiles host world rfl
    obtain ⟨-, hrest'⟩ := Prod.mk.inj (Eq.trans (Eq.symm h) hrun')
    exact ⟨by rw [hworld], hpath, hfiles, ⟨warnings, hbundle⟩, cache, hload, (Prod.mk.inj hrest').2⟩

/-- A project that has modules, and a change cache that can be loaded, is assembled. -/
theorem exists_assembles {warnings : List Warning}
    (hload : Reading.Returns (loadCache (defaults root).cachePath world.tree) (.ok cache))
    (hfiles : Module.files (defaults root) world.tree ≠ [])
    (hbundle : bundleOf (defaults root) world.tree (root.under "bundle.user.js") = .ok (bundle, warnings))
    (host : Host) : ∃ cache' w, Assembles root o host world (cache', bundle) w
      (withAssembled (defaults root) world.tree (root.under "bundle.user.js") cache
        { output := root.under "bundle.user.js", stages := ["collect"] }) := by
  have huses : ∀ use ∈ usesToAssemble, (defaults root).fault? use = none := fun _ _ => rfl
  have hdoes : Does world.tree { output := root.under "bundle.user.js" }
      (assembled (defaults root) o (root.under "bundle.user.js")) _ _ := does_assembled huses hload hfiles
  obtain ⟨log, hrun⟩ := hdoes host world rfl
  rw [assembledWith, hbundle] at hrun
  exact ⟨_, _, hrun⟩

variable (habsolute : root.isAbsolute) (hdots : ".." ∉ root.parts) {products saved : List (String × Bytes)}

include habsolute hdots

/-- The build that comes after one that has left its files assembles the same bundle. -/
theorem Assembles.again (h : Assembles root o host world (cache, bundle) w u)
    (hproducts : Products (defaults root) o bundle products) (hsaved : Saved saved)
    (hwrites : Writes root (products ++ saved) world.tree world'.tree) (hwell : world.tree.root.WellNamed)
    (hsource : world.tree.hasFolder (root.child "src")) (hblock : ¬ ReadsBlockBack root world.tree)
    (host' : Host) :
    ∃ cache' w' u', Assembles root o host' world' (cache', bundle) w' u' ∧ u'.core = u.core := by
  obtain ⟨-, -, hfiles, ⟨warnings, hbundle⟩, before, hload, rfl⟩ := h.exists_bundleOf
  have halike := alike_of_left habsolute hdots hproducts hsaved hwrites
  have hwell' := wellNamed_of_left habsolute hdots hproducts hsaved hwrites hwell
  have hsame := bundleOf_of_left habsolute hdots hproducts hsaved hwrites hwell hsource hbundle hblock
  obtain ⟨before', hload'⟩ := exists_loadCache_of_left habsolute hdots hproducts hsaved hwrites hload
  have hfiles' : Module.files (defaults root) world'.tree ≠ [] := by
    have hreads := readsBesides_defaults habsolute hdots (List.Subset.refl leftoverNames)
    have hperm := Module.perm_files halike hreads hwell hwell' hsource
    exact fun hnil => hfiles (hnil ▸ hperm).nil_eq.symm
  obtain ⟨cache', w', hassembles⟩ := exists_assembles (o := o) hload' hfiles' (hsame.trans hbundle) host'
  exact ⟨cache', w', _, hassembles, core_withAssembled before before' _ hsame⟩

/-- Two builds of the same bundle, one after the other, end alike. -/
theorem Assembles.finish_again {cache' : ChangeCache} {after : World} {r : Result}
    (houtput : o.output = none) (hplain : o.minify = false)
    (h : Assembles root o host world (cache, bundle) w u)
    (h' : Assembles root o host' world' (cache', bundle) w' u')
    (halike : world.tree.Alike (root.places leftoverNames) world'.tree) (hcore : u'.core = u.core)
    (hverdicts : SameVerdicts (defaults root) o host world host' world')
    (hfinish : finish (defaults root) o (root.under "bundle.user.js") (cache, bundle) host (w, u) =
      (.ok (), after, r)) :
    ∃ after' r', finish (defaults root) o (root.under "bundle.user.js") (cache', bundle) host' (w', u') =
      (.ok (), after', r') ∧ r'.core = r.core := by
  obtain ⟨htree, hpath, -⟩ := h.exists_bundleOf
  obtain ⟨htree', hpath', -⟩ := h'.exists_bundleOf
  rw [← htree, ← htree'] at halike
  -- The tools are asked in the trees in which the bundles have just been written, and there they say the same.
  have hanswers (w₁ : World) (r₁ : Result) (w₁' : World) (r₁' : Result)
      (hwrite : writeBundle (root.under "bundle.user.js") bundle host (w, u) = (.ok (), w₁, r₁))
      (hwrite' : writeBundle (root.under "bundle.user.js") bundle host' (w', u') = (.ok (), w₁', r₁'))
      (hgap : Abreast (gapOf root otherNames w₁ w₁') w₁ w₁') :
      host.AnswersFrom (gapOf root otherNames w₁ w₁') host' w₁ w₁' := by
    have hinspected := h.treeInspected_eq houtput hwrite
    have hinspected' := h'.treeInspected_eq houtput hwrite'
    refine ⟨Paused (gapOf root otherNames w₁ w₁') w₁.tree w₁'.tree, inferInstance,
      answers_paused hverdicts.which (fun argv => ?_) fun argv => ?_, ⟨hgap, rfl, rfl⟩, fun _ _ hrel => hrel.1⟩
    · rw [← hinspected, ← hinspected', hverdicts.run]
    · rw [← hinspected, hverdicts.files]
  obtain ⟨hvalue, -, hrecord⟩ := lockstepAt_finish (o := o) habsolute hdots halike hcore hpath hpath'
    (congrFun hverdicts.parse _) (fun w₁ r₁ w₁' r₁' hwrite hwrite' _ => hanswers w₁ r₁ w₁' r₁' hwrite hwrite')
    fun hwanted => absurd hwanted (by simp [hplain])
  rw [hfinish] at hvalue hrecord
  rcases hfinish' : finish (defaults root) o (root.under "bundle.user.js") (cache', bundle) host' (w', u') with
    ⟨value, after', r'⟩
  rw [hfinish'] at hvalue hrecord
  exact ⟨after', r', by rw [show value = .ok () from hvalue], hrecord.core⟩

end Assembles

/-- A project with default settings is built again as it was built: if a build that minifies nothing succeeds,
and neither the project nor what the tools say has changed, then the next build succeeds, merges and skips the
same modules, and leaves the same bundle and the same copy of it. The header may have come from the project, from
an earlier bundle, or from nowhere; but it must not be one in a block comment that was read back from an earlier
bundle. -/
theorem run_again {result : Result} {after : World} (habsolute : root.isAbsolute) (hdots : ".." ∉ root.parts)
    (hwell : world.tree.root.WellNamed) (hsource : world.tree.hasFolder (root.child "src"))
    (houtput : o.output = none) (hplain : o.minify = false)
    (hrun : run (defaults root) o host world = (.ok result, after)) (hsuccess : result.isSuccess)
    (hblock : ¬ ReadsBlockBack root world.tree) (htree : world'.tree = after.tree)
    (hverdicts : SameVerdicts (defaults root) o host world host' world') :
    ∃ result' after', run (defaults root) o host' world' = (.ok result', after') ∧ result'.isSuccess ∧
      result'.merged = result.merged ∧ result'.skipped = result.skipped ∧
      (∃ content, after.tree.read (root.under "bundle.user.js") = .ok content) ∧
      ∀ name ∈ ["bundle.user.js", "bundle.user.unoptimized.js"],
        after'.tree.read (root.under name) = after.tree.read (root.under name) := by
  obtain ⟨cache, bundle, w, u, r, hfirst, hfinish, rfl⟩ := exists_assembles_of_run houtput hrun hsuccess
  obtain ⟨htreeOf, hpath, -⟩ := hfirst.exists_bundleOf
  have hroot := folder_of_source habsolute hdots hsource
  -- What the first build has left.
  obtain ⟨products, saved, hproducts, hsaved, hwrites⟩ := writes_of_finish habsolute hdots hplain hpath
    (fun last v hwrite argv => hfirst.treeInspected_eq houtput hwrite ▸ hverdicts.files argv) hfinish
    (htreeOf ▸ hroot)
  rw [htreeOf, ← htree] at hwrites
  have halike := alike_of_left habsolute hdots hproducts hsaved hwrites
  -- The second build assembles the same bundle, and ends in the same way.
  obtain ⟨cache', w', u', hsecond, hcore⟩ :=
    hfirst.again habsolute hdots hproducts hsaved hwrites hwell hsource hblock host'
  obtain ⟨after', r', hfinish', hrecord⟩ :=
    hfirst.finish_again habsolute hdots houtput hplain hsecond halike hcore hverdicts hfinish
  obtain ⟨htreeOf', hpath', -⟩ := hsecond.exists_bundleOf
  have hroot' : w'.tree.faceAt root.parts = some .folder := by rw [htreeOf', halike.folder, hroot]
  have hfiles (last : World) (v : Result)
      (hwrite : writeBundle (root.under "bundle.user.js") bundle host' (w', u') = (.ok (), last, v))
      (argv : List String) : (host'.run last.tree argv).files = [] := by
    rw [← hsecond.treeInspected_eq houtput hwrite, hverdicts.run, hverdicts.files]
  obtain ⟨products', saved', hproducts', hsaved', hwrites'⟩ :=
    writes_of_finish habsolute hdots hplain hpath' hfiles hfinish' hroot'
  obtain rfl := hproducts'.unique hproducts
  rw [htreeOf'] at hwrites'
  have hmerged : r'.core.merged = r.core.merged := by rw [hrecord]
  have hskipped : r'.core.skipped = r.core.skipped := by rw [hrecord]
  refine ⟨_, after', hsecond.run_eq houtput hfinish', rfl, hmerged, hskipped, ?_, fun name hname => ?_⟩
  · rw [← htree]
    exact exists_read_bundle habsolute hdots hproducts hsaved hwrites
  · have hleft : name ∈ leftoverNames := by
      revert hname
      revert name
      decide
    have hcache : name ≠ ".build-cache.json" := by
      rintro rfl
      revert hname
      decide
    rw [← htree]
    exact read_eq_of_left habsolute hdots hproducts hsaved hwrites hsaved' hwrites' hleft hcache

/-- The header is made up by the first build, and read back from the optimized bundle by the second. -/
theorem run_again_projectAt :
    let root : Path := ⟨.slash, ["p"]⟩
    let o : Options := { optimized := true }
    ∃ result after result' after', run (defaults root) o bareHost (projectAt 0 []) = (.ok result, after) ∧
      run (defaults root) o bareHost after = (.ok result', after') ∧ result'.isSuccess ∧
      result'.merged = result.merged ∧ result'.skipped = result.skipped ∧
      ∀ name ∈ ["bundle.user.js", "bundle.user.unoptimized.js"],
        after'.tree.read (root.under name) = after.tree.read (root.under name) := by
  intro root o
  have hwell : (projectAt 0 []).tree.root.WellNamed :=
    wellNamed_projectAt (by decide) (List.forall_mem_nil _)
  have hblock : ¬ ReadsBlockBack root (projectAt 0 []).tree := by
    have hnone : ((projectAt 0 []).tree.readText (root.under "bundle.user.js")).toOption = none := by
      decide +kernel
    rintro ⟨-, text, htext, -⟩
    rw [htext] at hnone
    cases hnone
  have hsuccess : ((run (defaults root) o bareHost (projectAt 0 [])).1.map (·.isSuccess)).toOption =
      some true := by decide +kernel
  rcases hrun : run (defaults root) o bareHost (projectAt 0 []) with ⟨failure | result, after⟩
  · rw [hrun] at hsuccess
    cases hsuccess
  · rw [hrun] at hsuccess
    have hverdicts : SameVerdicts (defaults root) o bareHost (projectAt 0 []) bareHost after :=
      ⟨rfl, rfl, fun _ => rfl, fun _ => rfl⟩
    obtain ⟨result', after', hrun', hsuccess', hmerged, hskipped, -, hsame⟩ :=
      run_again rfl (by decide) hwell (by decide +kernel) rfl rfl hrun (Option.some.inj hsuccess) hblock rfl
        hverdicts
    exact ⟨result, after, result', after', rfl, hrun', hsuccess', hmerged, hskipped, hsame⟩

end Build

end Userscript
