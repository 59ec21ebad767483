import Userscript.Proofs.Bundle.Merging
import Userscript.Proofs.Header.LineStyle
import Userscript.Proofs.Script.Optimizing

/-!
# Bundles optimized module by module

All that taking out comments hands from one line to the next is whether a block comment is open. A
module that leaves none open hands on nothing, and the line with the name of the next module is a
comment itself. So the lines that are left of a bundle are those that are left of its modules, each
taken by itself, and each of them becomes one line of the optimized bundle.

## Main definitions

* `Script.openAfter`, `Script.LeavesNoneOpen` — whether a block comment is open behind some lines
* `Script.linesKept` — the lines that are kept of some lines without their comments

## Main results

* `rows_append` — the lines behind some lines are read with what these hand on
* `linesKept_below` — the lines that are kept of what stands below the header of a bundle
* `optimize_assembled` — the optimized bundle is made of its modules, each optimized by itself
-/

namespace Userscript

variable {limit : Int} {header : Text} {modules : List Loaded}

/-! ### Below the header -/

theorem lines_below (parts : List Text) :
    Text.lines (below parts) = [] :: (parts.flatMap fun part => [] :: Text.lines part) ++ [[]] := by
  rw [below, ← List.nil_append ('\n' :: _), Text.lines_append]
  have hparts : Text.lines (parts.flatMap fun part => '\n' :: part ++ ['\n']) =
      (parts.flatMap fun part => [] :: Text.lines part) ++ [[]] := by
    induction parts with
    | nil => rfl
    | cons part parts ih =>
      rw [List.flatMap_cons, List.flatMap_cons, List.append_assoc, List.append_assoc, ← ih,
        ← List.nil_append ('\n' :: part), List.append_assoc, List.cons_append, Text.lines_append,
        List.singleton_append, Text.lines_append]
      rfl
  rw [hparts]
  rfl

namespace Script

variable {ctx : Context} {ls ls' : List Text} {line : Text}

/-! ### What lines hand on -/

/-- Whether a block comment is open behind some lines, where one may be open at the first. -/
def openAfter (ctx : Context) (inComment : Bool) : List Text → Bool
  | [] => inComment
  | line :: rest =>
    match outside? inComment (cutReturn line).1 with
    | none => openAfter ctx true rest
    | some code => openAfter ctx (Row.isOpen ⟨lexLine ctx [] code, (cutReturn line).2⟩) rest

/-- No block comment is open at the end of a script. -/
def LeavesNoneOpen (ctx : Context) (t : Text) : Prop := openAfter ctx false (Text.lines t) = false

instance (ctx : Context) (t : Text) : Decidable (LeavesNoneOpen ctx t) :=
  inferInstanceAs (Decidable (_ = _))

/-- Lines behind other lines are read with the comment that these leave open. -/
theorem rows_append (ctx : Context) (inComment : Bool) (ls ls' : List Text) :
    rows ctx inComment (ls ++ ls') =
      rows ctx inComment ls ++ rows ctx (openAfter ctx inComment ls) ls' := by
  induction ls generalizing inComment with
  | nil => rfl
  | cons line ls ih =>
    rw [List.cons_append, rows, rows, openAfter]
    dsimp only
    cases outside? inComment (cutReturn line).1 with
    | none => exact ih true
    | some code => exact congrArg (_ :: ·) (ih _)

/-- The lines that are kept of some lines without their comments. -/
def linesKept (ctx : Context) (ls : List Text) : List Text :=
  ((rows ctx false ls).map Row.output).filter fun l => !Text.isBlankText l

theorem keptLines_eq_linesKept (ctx : Context) (t : Text) :
    keptLines ctx t = linesKept ctx (Text.lines t) := by
  rw [keptLines, lines_strip, linesKept]

theorem linesKept_append (h : openAfter ctx false ls = false) (ls' : List Text) :
    linesKept ctx (ls ++ ls') = linesKept ctx ls ++ linesKept ctx ls' := by
  rw [linesKept, rows_append, h, List.map_append, List.filter_append, linesKept, linesKept]

/-! ### Lines that leave no trace -/

/-- Of a line nothing is left, and it leaves no comment open. -/
def LeavesNothing (ctx : Context) (line : Text) : Prop :=
  openAfter ctx false [line] = false ∧ linesKept ctx [line] = []

theorem LeavesNothing.linesKept_cons (h : LeavesNothing ctx line) (ls : List Text) :
    linesKept ctx (line :: ls) = linesKept ctx ls := by
  rw [← List.singleton_append, linesKept_append h.1, h.2, List.nil_append]

theorem leavesNothing_nil (ctx : Context) : LeavesNothing ctx [] := by
  simp [LeavesNothing, openAfter, linesKept, rows, outside?, cutReturn, Row.isOpen, Row.output,
    Text.isBlankText]

theorem lexLine_separator (ctx : Context) (name : String) :
    lexLine ctx [] (Bundle.separator name) = [.lineComment (Bundle.separator name)] := by
  obtain ⟨t, ht⟩ : ∃ t, Bundle.separator name = '/' :: '/' :: t := ⟨_, rfl⟩
  have htoken : nextToken ctx [] '/' ('/' :: t) = (.lineComment ('/' :: '/' :: t), []) := by
    rw [nextToken, if_neg (by simp [not_isQuote_slash]), if_pos rfl]
  rw [ht, lexLine_cons_of_nextToken htoken, lexLine_nil]

theorem exists_separator_eq_concat (name : String) : ∃ t, Bundle.separator name = t ++ ['-'] := by
  have hend : " ---".toList = [' ', '-', '-'] ++ ['-'] := by decide +kernel
  exact ⟨_, (congrArg (_ ++ ·) hend).trans (List.append_assoc ..).symm⟩

/-- The line with the name of a module is a comment. -/
theorem leavesNothing_separator (ctx : Context) (name : String) :
    LeavesNothing ctx (Bundle.separator name) := by
  have hend : (Bundle.separator name).getLast? ≠ some '\r' := by
    obtain ⟨t, ht⟩ := exists_separator_eq_concat name
    simp [ht]
  simp [LeavesNothing, openAfter, linesKept, rows, outside?, cutReturn_of_ne hend, lexLine_separator,
    Row.isOpen, Row.output, Token.output, Text.isBlankText]

theorem not_mem_separator {name : String} (h : '\n' ∉ name.toList) :
    '\n' ∉ Bundle.separator name := by
  have hbefore : '\n' ∉ "// --- MODULE: ".toList := by simp
  have hbehind : '\n' ∉ " ---".toList := by simp
  intro hmem
  rcases List.mem_append.1 hmem with hmem | hmem
  · exact (List.mem_append.1 hmem).elim hbefore h
  · exact hbehind hmem

/-- What is kept of the lines below the header of a bundle is what is kept of each module. -/
theorem linesKept_below (ctx : Context) {bodies : List Bundle.Body}
    (h : ∀ body ∈ bodies, '\n' ∉ body.name.toList ∧ LeavesNoneOpen ctx body.text) :
    keptLines ctx (below (bodies.flatMap fun body => [Bundle.separator body.name, body.text])) =
      bodies.flatMap fun body => keptLines ctx body.text := by
  have hnil := leavesNothing_nil ctx
  rw [keptLines_eq_linesKept, lines_below, List.cons_append, hnil.linesKept_cons]
  -- Each module ends outside of a block comment, so the next one is read as if nothing were above it.
  induction bodies with
  | nil => exact hnil.linesKept_cons []
  | cons body bodies ih =>
    obtain ⟨hname, hopen⟩ := h body (by simp)
    have hseparator := leavesNothing_separator ctx body.name
    simp only [List.flatMap_cons, List.cons_append, List.append_assoc, List.nil_append,
      Text.lines_of_not_mem (not_mem_separator hname)] at ih ⊢
    rw [hnil.linesKept_cons, hseparator.linesKept_cons, hnil.linesKept_cons, linesKept_append hopen,
      ih fun b hb => h b (by simp [hb]), keptLines_eq_linesKept]

/-! ### The optimized bundle -/

/-- The lines that are kept of a script become the lines of the optimized script one by one. -/
theorem exists_optimizeBody_eq (ctx : Context) (limit : Int) {t : Text}
    (h : ∀ l ∈ keptLines ctx t, nul ∉ l) :
    ∃ rs, (keptLines ctx t).mapM (normalizeLine limit) = .ok rs ∧
      optimizeBody ctx limit t = .ok (Text.trimLeft (Text.unlines rs)) := by
  have hnewline : ∀ l ∈ keptLines ctx t, '\n' ∉ l := fun l hl =>
    Text.not_mem_of_mem_lines (List.mem_filter.1 hl).1
  have hblank : ∀ l ∈ keptLines ctx t, Text.isBlankText l = false := fun l hl => by
    simpa using (List.mem_filter.1 hl).2
  obtain ⟨rs, hmap, hall⟩ : ∃ rs, (keptLines ctx t).mapM (normalizeLine limit) = .ok rs ∧
      List.Forall₂ (fun _ r => Filled r) (keptLines ctx t) rs := exists_mapM fun l hl =>
    exists_filled (hnewline l hl) (h l hl) (hblank l hl) limit
  have hfilled : ∀ r ∈ rs, Filled r := fun r hr => by
    obtain ⟨n, hn, rfl⟩ := List.mem_iff_getElem.1 hr
    exact hall.get (hall.length_eq ▸ hn) hn
  refine ⟨rs, hmap, ?_⟩
  rw [optimizeBody, dropBlankLines, ← keptLines]
  exact normalize_unlines hnewline hmap hfilled

/-- The optimized bundle is its header and below it, module by module and line by line, what becomes
of the lines that are left of the module by itself: nothing that stands in one module has an effect on
another, and the names of the modules leave no trace. -/
theorem optimize_assembled (ctx : Context) (limit : Int) {markers : Header.Markers}
    (hheader : Text.isBlankText header = false)
    (hmodules : ∃ m ∈ modules, (Bundle.body? markers m).toOption.isSome)
    (hbodies : ∀ body ∈ Bundle.bodies? markers modules,
      '\n' ∉ body.name.toList ∧ nul ∉ body.text ∧ LeavesNoneOpen ctx body.text) :
    ∃ bundle warnings ls, Bundle.assemble markers header modules = .ok (bundle, warnings) ∧
      bundle.header = Text.trim header ∧ bundle.bodies = Bundle.bodies? markers modules ∧
      (bundle.bodies.flatMap fun body => keptLines ctx body.text).mapM (normalizeLine limit) = .ok ls ∧
      optimize ctx limit markers (some bundle.header) bundle.text =
        .ok (bundle.header ++ ['\n', '\n'] ++ Text.trim (Text.unlines ls) ++ ['\n']) := by
  obtain ⟨bundle, warnings, hbundle, htop⟩ := Bundle.exists_assemble_eq hmodules header
  have hmerged : bundle.bodies = Bundle.bodies? markers modules := by
    rw [(Bundle.assemble_eq_ok hbundle).1]
  rw [← hmerged] at hbodies
  -- What is kept of the bundle is what is kept of its modules, so that no line of it has a NUL.
  have hkept := linesKept_below ctx fun body hbody =>
    ⟨(hbodies body hbody).1, (hbodies body hbody).2.2⟩
  have hnul : ∀ l ∈ keptLines ctx (below bundle.parts.tail), nul ∉ l := fun l hl => by
    rw [Bundle.parts, List.tail_cons, hkept] at hl
    obtain ⟨body, hbody, hl⟩ := List.mem_flatMap.1 hl
    exact (of_mem_keptLines (hbodies body hbody).2.1 hl).2.1
  obtain ⟨ls, hmap, hoptimized⟩ := exists_optimizeBody_eq ctx limit hnul
  rw [Bundle.parts, List.tail_cons, hkept] at hmap
  refine ⟨bundle, warnings, ls, hbundle, htop, hmerged, hmap, ?_⟩
  -- The header is not empty, so the first place where it stands is the beginning.
  have hne : bundle.header ≠ [] := by
    rw [htop, Ne, Text.trim_eq_nil_iff]
    simpa [Text.isBlankText] using hheader
  have hgiven : keptHeader markers (some bundle.header) bundle.text = bundle.header := by
    obtain ⟨c, t, ht⟩ := List.exists_cons_of_ne_nil hne
    rw [ht, keptHeader]
  have htrim : Text.trim bundle.header = bundle.header := by rw [htop, Text.trim_trim]
  have hempty : bundle.text.isEmpty = false := by simp [bundle.text_eq, hne]
  rw [optimize, belowHeader, hgiven, hempty]
  dsimp only
  rw [bundle.text_eq, Text.replaceFirst_append hne, hoptimized, if_neg (by simp), if_neg (by simpa using hne),
    htrim]
  simp only [bind, Except.bind, pure, Except.pure, Text.trim_trimLeft]

/-- The first module ends in a string that is not closed, and the second one holds the header. -/
theorem optimize_assembled_openString :
    let header := "// a top\n".toList
    let folder : Path := ⟨.slash, ["p", "src"]⟩
    let modules : List Loaded := [
      (⟨"core.js", folder.child "core.js"⟩, some "a = b /* c\n\n */ / 2\nd = 'e".toList),
      (⟨"main.js", folder.child "main.js"⟩, some "  f   = 'g' // h\n// a top\n".toList)]
    Text.isBlankText header = false ∧
      (∃ m ∈ modules, (Bundle.body? {} m).toOption.isSome) ∧
      (∀ body ∈ Bundle.bodies? {} modules,
        '\n' ∉ body.name.toList ∧ nul ∉ body.text ∧ LeavesNoneOpen {} body.text) ∧
      ∃ bundle warnings ls, Bundle.assemble {} header modules = .ok (bundle, warnings) ∧
        bundle.header = Text.trim header ∧ bundle.bodies = Bundle.bodies? {} modules ∧
        (bundle.bodies.flatMap fun body => keptLines {} body.text).mapM (normalizeLine 4) = .ok ls ∧
        optimize {} 4 {} (some bundle.header) bundle.text =
          .ok (bundle.header ++ ['\n', '\n'] ++ Text.trim (Text.unlines ls) ++ ['\n']) := by
  intro header folder modules
  have hheader : Text.isBlankText header = false := by decide +kernel
  have hmodules : ∃ m ∈ modules, (Bundle.body? {} m).toOption.isSome := by decide +kernel
  have hbodies : ∀ body ∈ Bundle.bodies? {} modules,
      '\n' ∉ body.name.toList ∧ nul ∉ body.text ∧ LeavesNoneOpen {} body.text := by decide +kernel
  exact ⟨hheader, hmodules, hbodies, optimize_assembled {} 4 hheader hmodules hbodies⟩

end Script

end Userscript
