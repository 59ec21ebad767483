import Userscript.Proofs.Lockstep
import Userscript.Proofs.Tool.Minifying
import Userscript.Proofs.Tree.Relocated

/-!
# Terser in a temporary folder of another name

Terser works in a temporary folder that is new for each run, and is told on its command line where its files
are. What it does should not depend on what this folder is called: if it is asked for the same in two folders,
it ends in the same way, and leaves files of the same names with the same contents. It may print what it likes
as long as it ends well, for that goes to the log. What it complains about otherwise becomes the error of the
build, and is the same too.

Then two runs make the same of a script. From where both folders are made to where they are removed, the trees
are alike but for the folders' paths. Each step keeps them so, and without the folders they are alike.

## Main definitions

* `Host.ScratchIsNew` — the temporary folder is a new one
* `Tool.Outcome.SameAnswer`, `Host.Report.SameAnswer` — a program does the same with two folders
* `Host.RenamesScratch` — what Terser does does not depend on what its temporary folder is called
* `Beside` — two worlds are alike but for some places and for the path of a folder

## Main results

* `Terser.outputOf_eq` — the same is read of what Terser leaves
* `Terser.lockstepAt_minify` — Terser makes the same of a script
-/

namespace Userscript

variable {host host' : Host} {stale : List String → Prop} {folder folder' : Path} {v v' w w' : World}
  {name : String} {argv argv' : List String}

/-- The temporary folder of a host is a new one: nothing stands there yet, and it can be made. -/
structure Host.ScratchIsNew (host : Host) (t : Tree) : Prop where
  free : t.IsFree host.scratch
  nul : host.scratch.hasNul = false

/-- Two outcomes are the same for who asked: the exit code is, and so is what a program complains about that
has ended badly. What else it prints is for the log alone. -/
structure Tool.Outcome.SameAnswer (outcome outcome' : Tool.Outcome) : Prop where
  code : outcome'.code = outcome.code
  err : outcome.isOk = false → outcome'.err = outcome.err

theorem Tool.Outcome.SameAnswer.isOk_eq {outcome outcome' : Tool.Outcome} (h : outcome.SameAnswer outcome') :
    outcome'.isOk = outcome.isOk := by
  unfold Tool.Outcome.isOk
  rw [h.code]

/-- A program does the same with two folders: it ends alike, and writes the same files. -/
structure Host.Report.SameAnswer (folder folder' : Path) (report report' : Host.Report) : Prop where
  ending : report.ending.Alike Tool.Outcome.SameAnswer report'.ending
  standIn : report'.standIn = report.standIn
  files : List.Forall₂ (Tree.SameFile folder folder') report.files report'.files

/-- What Terser does with a script of some name does not depend on what its temporary folder is called: asked
for the same on two hosts, in trees that are alike but for some places and for the path of the folder, it gives
the same answer. -/
def Host.RenamesScratch (stale : List String → Prop) (name : String) (host host' : Host) : Prop :=
  ∀ (terser : Terser) wish argv argv' t t',
    terser.arguments (Terser.requestIn host.scratch name wish) = .ok argv →
      terser.arguments (Terser.requestIn host'.scratch name wish) = .ok argv' →
        Tree.Relocated stale host.scratch host'.scratch t t' →
          (host.run t argv).SameAnswer host.scratch host'.scratch (host'.run t' argv')

/-- Two worlds have gone on from two others in the same way: nothing that a build counts as written has been
written, and the trees are alike but for some places and for the path of a folder. -/
structure Beside (stale : List String → Prop) (folder folder' : Path) (v v' w w' : World) : Prop where
  written : w.written = v.written
  written' : w'.written = v'.written
  here : w.tree.here = v.tree.here
  relocated : Tree.Relocated stale folder folder' w.tree w'.tree

instance (stale : List String → Prop) (folder folder' : Path) (v v' : World) :
    Calm (Beside stale folder folder' v v') where
  of_eq h hwritten hwritten' htree htree' :=
    ⟨hwritten.trans h.written, hwritten'.trans h.written', (congrArg Tree.here htree).trans h.here,
      htree ▸ htree' ▸ h.relocated⟩

section beside

variable (hfolder : folder.Direct) (hfolder' : folder'.Direct)

include hfolder hfolder'

/-- The same files are left, each with the name that it has in the folder. -/
theorem Tool.lockstep_leave_beside {files files' : List (Path × Bytes)}
    (hfiles : List.Forall₂ (Tree.SameFile folder folder') files files')
    (hbypasses : ∀ file ∈ files, ∀ place, stale place → file.1.Bypasses v.tree.here place) :
    Lockstep host host' (Beside stale folder folder' v v') (leave files) (leave files') := by
  intro w w' hrel
  rw [← hrel.here] at hbypasses
  obtain ⟨hrelocated, hfault⟩ :=
    hrel.relocated.writeAll hfolder hfolder' hfiles hbypasses w.nextStamp w'.nextStamp
  rw [LockstepAt, run_leave, run_leave]
  exact ⟨by rw [hfault], hrel.written, hrel.written', (Tree.here_writeAll _ _ _).trans hrel.here, hrelocated⟩

namespace Terser

omit hfolder hfolder' in
/-- The same is asked of the same program in both folders, or there is none to be asked. -/
theorem endsAlike_arguments (terser : Terser) (folder folder' : Path) (name : String) (wish : Wish) :
    EndsAlike (fun argv argv' => argv'.headD "" = argv.headD "") (terser.arguments (requestIn folder name wish))
      (terser.arguments (requestIn folder' name wish)) := by
  unfold arguments
  split
  · exact .error _
  · exact .error _
  · refine .ok ?_
    -- The program comes first, whatever else is asked for.
    simp only [List.cons_append, List.headD_cons]

variable (hname : Path.IsName name)

include hname

/-- The same is read of the files in both folders. -/
theorem outputOf_eq {t t' : Tree} (h : Tree.Relocated stale folder folder' t t') :
    outputOf t' (folder'.child name) (folder'.child (name ++ ".map")) =
      outputOf t (folder.child name) (folder.child (name ++ ".map")) := by
  have hmap := Path.isName_map hname
  have hread {name : String} (hname : Path.IsName name) (hhas : t.has (folder.under name)) :
      t'.readText (folder'.under name) = t.readText (folder.under name) :=
    h.readText_eq hname hfolder hfolder' hhas
  rw [Path.child_of_isName hname, Path.child_of_isName hmap, Path.child_of_isName hname,
    Path.child_of_isName hmap, outputOf, outputOf, h.has_eq hname hfolder hfolder',
    h.has_eq hmap hfolder hfolder']
  cases hhas : t.has (folder.under name) with
  | false => rfl
  | true =>
    rw [hread hname hhas]
    cases hhasMap : t.has (folder.under (name ++ ".map")) with
    | false => rfl
    | true => rw [hread hmap hhasMap]

theorem lockstepAt_collect (hrel : Beside stale folder folder' v v' w w') {outcome outcome' : Tool.Outcome}
    (hsame : outcome.SameAnswer outcome') :
    LockstepAt host host' (Beside stale folder folder' v v') (collect folder name outcome)
      (collect folder' name outcome') w w' := by
  cases hok : outcome.isOk with
  | false =>
    rw [LockstepAt, run_collect_of_not_isOk name hok, run_collect_of_not_isOk name (hsame.isOk_eq ▸ hok), hsame.code,
      hsame.err hok]
    exact ⟨rfl, hrel⟩
  | true =>
    obtain ⟨log, hrun⟩ := exists_run_collect folder name host w hok
    obtain ⟨log', hrun'⟩ := exists_run_collect folder' name host' w' (hsame.isOk_eq ▸ hok)
    have houtput := outputOf_eq hfolder hfolder' hname hrel.relocated
    have hleft : Beside stale folder folder' v v' { w with log } { w' with log := log' } :=
      Calm.of_eq hrel rfl rfl rfl rfl
    rw [LockstepAt, hrun, hrun', houtput]
    exact ⟨rfl, hleft⟩

/-- Terser is run and its files are read alike, if its answer is the same. -/
theorem lockstepAt_ask (hrel : Beside stale folder folder' v v' w w') (hprogram : argv'.headD "" = argv.headD "")
    (hanswer : (host.run w.tree argv).SameAnswer folder folder' (host'.run w'.tree argv'))
    (hbypasses : ∀ file ∈ (host.run w.tree argv).files, ∀ place, stale place → file.1.Bypasses v.tree.here place)
    (root : Path) (limit : Option Limit) :
    LockstepAt host host' (Beside stale folder folder' v v') (ask root limit folder name argv)
      (ask root limit folder' name argv') w w' := by
  unfold ask
  refine (Action.lockstep_note _ _ _ _ w w' hrel).bind fun _ mid mid' hnote hnote' hmid => ?_
  cases hnote
  cases hnote'
  have hleave : Lockstep host host' (Beside stale folder folder' v v') (Tool.leave (host.run w.tree argv).files)
      (Tool.leave (host'.run w'.tree argv').files) :=
    Tool.lockstep_leave_beside hfolder hfolder' hanswer.files hbypasses
  have hrun := Tool.lockstepTo_run hmid hprogram hanswer.ending hanswer.standIn hleave "terser" (some root) none limit
  refine lockstepTo_eq_iff.1 (hrun.bind fun outcome outcome' _ _ _ _ hsame hrel => lockstepTo_eq_iff.2 ?_)
  exact lockstepAt_collect hfolder hfolder' hname hrel hsame

end Terser

end beside

namespace Terser

variable {gap : Gap} (hname : Path.IsName name) (hnul : '\x00' ∉ name.toList)
  (hrenames : host.RenamesScratch gap.stale name host')
  (hbypasses : ∀ t argv, ∀ file ∈ (host.run t argv).files, ∀ place, gap.stale place →
    file.1.Bypasses gap.here place)

include hname hnul hrenames hbypasses

theorem lockstepAt_minifyIn (hscratch : host.scratch.hasNul = false) (hscratch' : host'.scratch.hasNul = false)
    {stale : List String → Prop} (hsub : ∀ place, stale place → gap.stale place)
    (hhere : v.tree.here = gap.here) (hfolder : host.scratch.Direct) (hfolder' : host'.scratch.Direct)
    (hrel : Beside stale host.scratch host'.scratch v v' w w') (terser : Terser) (root : Path)
    (limit : Option Limit) (body : Text) (wish : Wish) :
    LockstepAt host host' (Beside stale host.scratch host'.scratch v v')
      (minifyIn terser root limit body name wish host.scratch)
      (minifyIn terser root limit body name wish host'.scratch) w w' := by
  have hinput := Path.isName_input hname.slash_not_mem
  -- The script is written into both folders.
  have hfits {folder : Path} (h : folder.hasNul = false) : (folder.child ("input-" ++ name)).hasNul = false := by
    rw [Path.hasNul_eq_false_iff] at h ⊢
    rw [Path.child_of_isName hinput]
    intro part hpart
    rcases List.mem_append.1 hpart with hpart | hpart
    · exact h part hpart
    · rw [List.mem_singleton.1 hpart]
      simpa using hnul
  obtain ⟨t, t', hwrite, hwrite', hstays, hrelocated⟩ :=
    hrel.relocated.writeFile_inside hinput hfolder hfolder' (Utf8.encode body) w.nextStamp w'.nextStamp
  rw [← Path.child_of_isName hinput] at hwrite hwrite'
  have hgiven : Beside stale host.scratch host'.scratch v v' { w with tree := t, nextStamp := w.nextStamp + 1 }
      { w' with tree := t', nextStamp := w'.nextStamp + 1 } :=
    ⟨hrel.written, hrel.written', hstays.trans hrel.here, hrelocated⟩
  rw [LockstepAt, run_minifyIn (hfits hscratch) hwrite, run_minifyIn (hfits hscratch') hwrite']
  have hends := endsAlike_arguments terser host.scratch host'.scratch name wish
  cases hargv : terser.arguments (requestIn host.scratch name wish) <;>
    cases hargv' : terser.arguments (requestIn host'.scratch name wish) <;> rw [hargv, hargv'] at hends <;>
    cases hends
  · exact ⟨rfl, hgiven⟩
  · next hprogram =>
    have hanswer := hrenames terser wish _ _ t t' hargv hargv' (hrelocated.mono hsub)
    exact lockstepAt_ask hfolder hfolder' hname hgiven hprogram hanswer
      (fun file hfile place hplace => hhere ▸ hbypasses _ _ file hfile place (hsub place hplace)) root limit

/-- Terser makes the same of a script in both worlds, whatever the temporary folders are called. -/
theorem lockstepAt_minify (hrel : Abreast gap w w') (hnew : host.ScratchIsNew w.tree)
    (hnew' : host'.ScratchIsNew w'.tree) (terser : Terser) (root : Path) (limit : Option Limit) (body : Text)
    (wish : Wish) : LockstepAt host host' (Abreast gap) (terser.minify root limit body name wish)
      (terser.minify root limit body name wish) w w' := by
  obtain ⟨new, hwritten, hwritten', halike⟩ := hrel.files
  have hmade : Beside (gap.Remains new) host.scratch host'.scratch w w'
      { w with tree := w.tree.withEmpty host.scratch } { w' with tree := w'.tree.withEmpty host'.scratch } :=
    ⟨rfl, rfl, rfl, .of_isFree halike hnew.free hnew'.free⟩
  have hlockstep := lockstepAt_minifyIn hname hnul hrenames hbypasses hnew.nul hnew'.nul
    (fun _ => Gap.Remains.stale) hrel.here hnew.free.direct hnew'.free.direct hmade terser root limit body wish
  rw [LockstepAt, minify, run_withFolder, run_withFolder]
  rcases hrun : minifyIn terser root limit body name wish host.scratch host
    { w with tree := w.tree.withEmpty host.scratch } with ⟨result, last⟩
  rcases hrun' : minifyIn terser root limit body name wish host'.scratch host'
    { w' with tree := w'.tree.withEmpty host'.scratch } with ⟨result', last'⟩
  rw [LockstepAt, hrun, hrun'] at hlockstep
  obtain ⟨hresult, hdone⟩ := hlockstep
  refine ⟨hresult, ?_, new, hdone.written.trans hwritten, hdone.written'.trans hwritten', hdone.relocated.outside⟩
  exact (Tree.here_delete _ _).trans (hdone.here.trans hrel.here)

end Terser

end Userscript
