import Mathlib.Data.List.Forall2
import Userscript.Proofs.Script.BlankLines
import Userscript.Proofs.Script.SpacedLines
import Userscript.Script.Optimize

/-!
# Optimized scripts

What is left of a script without comments and blank lines and with regular spacing consists of
lines that hold no comment and whose spacing is regular. So it stays as it is when the same is
done once more.

## Main definitions

* `Script.Settled` — a line that nothing more can be taken away from
* `Script.Filled` — a line whose last character is no blank
* `Script.closedIn`, `Script.spansIn` — the closed literals of a line
* `Script.Becomes` — what becomes of a line

## Main results

* `optimizeBody_eq` — the lines of an optimized script
* `optimizeBody_stable` — optimizing once more changes nothing
-/

namespace Userscript.Script

variable {ctx : Context} {limit : Int} {t line : Text} {ls rs : List Text} {c : Char}

/-- A line that nothing more can be taken away from. -/
structure Settled (ctx : Context) (limit : Int) (line : Text) : Prop where
  newline : '\n' ∉ line
  plain : IsPlain ctx line
  regular : normalizeLine limit line = .ok line
  last : ∃ s d, line = s ++ [d] ∧ Text.isBlank d = false

/-- A line whose last character is no blank. -/
structure Filled (line : Text) : Prop where
  newline : '\n' ∉ line
  last : ∃ s d, line = s ++ [d] ∧ Text.isBlank d = false

/-- The closed literals of a line that lies in no comment. -/
def closedIn (ctx : Context) (line : Text) : List Text :=
  closedOf (lexLine ctx [] (cutReturn line).1)

/-- Where these literals stand in the line. -/
def spansIn (ctx : Context) (line : Text) : List (List Spot) :=
  closedSpans (lexLine ctx [] (cutReturn line).1) (spots line)

/-! ### Lines that are settled -/

theorem Settled.filled (h : Settled ctx limit line) : Filled line := ⟨h.newline, h.last⟩

theorem Filled.ne_nil (h : Filled line) : line ≠ [] := by
  obtain ⟨s, d, rfl, -⟩ := h.last
  simp

theorem Settled.not_isBlankText (h : Settled ctx limit line) : Text.isBlankText line = false := by
  obtain ⟨s, d, rfl, hd⟩ := h.last
  simp [Text.isBlankText, hd]

theorem exists_unlines_eq_concat (hne : ls ≠ [])
    (h : ∀ l ∈ ls, ∃ s d, l = s ++ [d] ∧ Text.isBlank d = false) :
    ∃ s d, Text.unlines ls = s ++ [d] ∧ Text.isBlank d = false := by
  induction ls with
  | nil => exact absurd rfl hne
  | cons l ls ih =>
    cases ls with
    | nil => simpa using h l (by simp)
    | cons m ls =>
      obtain ⟨s, d, hs, hd⟩ := ih (by simp) fun n hn => h n (by simp [hn])
      refine ⟨l ++ '\n' :: s, d, ?_, hd⟩
      rw [Text.unlines_cons (by simp), hs]
      simp

theorem mapM_eq_ok (h : ∀ l ∈ ls, normalizeLine limit l = .ok l) :
    ls.mapM (normalizeLine limit) = .ok ls := by
  induction ls with
  | nil => rfl
  | cons l ls ih =>
    rw [List.mapM_cons, h l (by simp), ih fun m hm => h m (by simp [hm])]
    rfl

theorem lines_unlines_of_settled (hne : ls ≠ []) (h : ∀ l ∈ ls, Settled ctx limit l) :
    Text.lines (Text.unlines ls) = ls :=
  Text.lines_unlines hne fun l hl => (h l hl).newline

theorem isPlain_nil (ctx : Context) : IsPlain ctx [] := by
  simp [IsPlain, cutReturn]

theorem isPlain_of_settled (h : ∀ l ∈ ls, Settled ctx limit l) :
    ∀ l ∈ Text.lines (Text.unlines ls), IsPlain ctx l := by
  intro l hl
  cases ls with
  | nil =>
    obtain rfl : l = [] := List.mem_singleton.1 hl
    exact isPlain_nil ctx
  | cons m ls =>
    rw [lines_unlines_of_settled (by simp) h] at hl
    exact (h l hl).plain

theorem dropBlankLines_of_settled (h : ∀ l ∈ ls, Settled ctx limit l) :
    dropBlankLines (Text.unlines ls) = Text.unlines ls := by
  cases ls with
  | nil => rfl
  | cons m ls =>
    have hkept : ((m :: ls).filter fun l => !Text.isBlankText l) = m :: ls := by
      refine List.filter_eq_self.2 fun l hl => ?_
      rw [(h l hl).not_isBlankText]
      rfl
    rw [dropBlankLines, lines_unlines_of_settled (by simp) h, hkept]

/-- If the lines of a text become lines that do not end in blanks, the text becomes these lines
without the blanks they begin with. -/
theorem normalize_unlines (hls : ∀ l ∈ ls, '\n' ∉ l) (hmap : ls.mapM (normalizeLine limit) = .ok rs)
    (h : ∀ r ∈ rs, Filled r) :
    normalize limit (Text.unlines ls) = .ok (Text.trimLeft (Text.unlines rs)) := by
  cases ls with
  | nil =>
    cases hmap
    have hlines : Text.lines (Text.unlines []) = [[]] := rfl
    have hempty : normalizeLine limit [] = .ok [] := normalizeLine_of_blank (by simp) limit
    rw [normalize, normalizeLines, hlines, List.mapM_cons, hempty]
    rfl
  | cons l ls =>
    -- A text of at least one line becomes one of as many.
    have hne : rs ≠ [] := by
      rintro rfl
      rw [List.mapM_cons] at hmap
      cases hl : normalizeLine limit l with
      | error => simp [hl, bind, Except.bind] at hmap
      | ok => cases hrest : ls.mapM (normalizeLine limit) <;>
          simp [hl, hrest, bind, Except.bind, pure, Except.pure] at hmap
    obtain ⟨s, d, hs, hd⟩ := exists_unlines_eq_concat hne fun r hr => (h r hr).last
    rw [normalize, normalizeLines, Text.lines_unlines (by simp) hls, hmap]
    simp only [bind, Except.bind, pure, Except.pure]
    rw [capBlankLines_unlines fun r hr => ⟨(h r hr).ne_nil, (h r hr).newline⟩, hs, Text.trim_concat hd]

/-- A script of settled lines that begins with no blank stays as it is. -/
theorem optimizeBody_of_settled (h : ∀ l ∈ ls, Settled ctx limit l)
    (htrim : Text.trimLeft (Text.unlines ls) = Text.unlines ls) :
    (∀ tok ∈ tokens ctx (Text.unlines ls), tok.isComment = false) ∧
      strip ctx (Text.unlines ls) = Text.unlines ls ∧
      optimizeBody ctx limit (Text.unlines ls) = .ok (Text.unlines ls) := by
  have hplain := isPlain_of_settled h
  have hstrip := strip_eq_self hplain
  refine ⟨?_, hstrip, ?_⟩
  · rw [tokens_of_plain hplain]
    intro tok htok
    obtain ⟨l, hl, htok⟩ := List.mem_flatMap.1 htok
    exact hplain l hl tok htok
  · have hmap := mapM_eq_ok fun l hl => (h l hl).regular
    rw [optimizeBody, hstrip, dropBlankLines_of_settled h,
      normalize_unlines (fun l hl => (h l hl).newline) hmap fun l hl => (h l hl).filled, htrim]

/-! ### The lines of an optimized script -/

/-- A line becomes one that is settled, also without the blanks it begins with, and has the closed
literals of the line with regular spacing each. -/
def Becomes (ctx : Context) (limit : Int) (line r : Text) : Prop :=
  ∀ r' ∈ [r, Text.trimLeft r], Settled ctx limit r' ∧
    closedIn ctx r' = (spansIn ctx line).map (respace false)

theorem Becomes.settled {r : Text} (h : Becomes ctx limit line r) : Settled ctx limit r :=
  (h r (by simp)).1

theorem Becomes.closedIn_eq {r : Text} (h : Becomes ctx limit line r) :
    closedIn ctx r = (spansIn ctx line).map (respace false) :=
  (h r (by simp)).2

theorem Becomes.trimLeft {r : Text} (h : Becomes ctx limit line r) :
    Becomes ctx limit line (Text.trimLeft r) := by
  intro r' hr'
  rw [Text.trimLeft_trimLeft] at hr'
  exact h r' (List.mem_cons_of_mem r (by simpa using hr'))

/-- A line that is not blank becomes what is left of it with regular spacing. -/
theorem exists_becomes (hctx : ctx.Wordwise) (hline : '\n' ∉ line) (hnul : nul ∉ line)
    (hplain : IsPlain ctx line) (hblank : Text.isBlankText line = false) (limit : Int) :
    ∃ r, normalizeLine limit line = .ok r ∧ Becomes ctx limit line r := by
  obtain ⟨lead, body, trail, hcore, hlead⟩ := exists_hasCore hblank
  refine ⟨_, hcore.normalizeLine_eq (not_holdsMark hnul) hlead limit, ?_⟩
  generalize hn : (min (lead.length : Int) limit).toNat = n
  -- Whatever the core is, few enough spaces before it make a settled line.
  have hsettled {lead body} (h : HasCore line lead body trail) {n : Nat} (hn : n ≤ limit.toNat) :
      Settled ctx limit (List.replicate n ' ' ++ regular body) ∧
        closedIn ctx (List.replicate n ' ' ++ regular body) =
          (spansIn ctx line).map (respace false) := by
    have hspace : ∀ c ∈ List.replicate n ' ', c = ' ' := fun c hc => List.eq_of_mem_replicate hc
    obtain ⟨hregular, hclosed⟩ := h.isPlain_regular hctx hplain (List.replicate n ' ')
      fun c hc => isBlank_of_mem_spaces hc
    obtain ⟨s, d, hs, hd⟩ := h.exists_regular_eq_concat
    have hkeeps : normalizeLine limit (List.replicate n ' ' ++ regular body) =
        .ok (List.replicate n ' ' ++ regular body) := by
      rw [h.normalizeLine_regular hnul, show (min (n : Int) limit).toNat = n by omega]
    refine ⟨⟨h.not_mem_indent_regular hline hspace (by decide), hregular, hkeeps, ?_⟩, hclosed⟩
    exact ⟨List.replicate n ' ' ++ s, d, by rw [hs, List.append_assoc], hd⟩
  intro r' hr'
  rcases List.mem_cons.1 hr' with rfl | hr'
  · exact hsettled hcore (by omega)
  · obtain ⟨lead', body', hcore', htrim⟩ := hcore.exists_trimLeft_regular
      (List.replicate n ' ') fun c hc => isBlank_of_mem_spaces hc
    rw [List.mem_singleton.1 hr', htrim]
    exact hsettled hcore' (Nat.zero_le _)

/-- A line that is not blank does not become a blank one. -/
theorem exists_filled (hline : '\n' ∉ line) (hnul : nul ∉ line)
    (hblank : Text.isBlankText line = false) (limit : Int) :
    ∃ r, normalizeLine limit line = .ok r ∧ Filled r := by
  obtain ⟨lead, body, trail, hcore, hlead⟩ := exists_hasCore hblank
  obtain ⟨s, d, hs, hd⟩ := hcore.exists_regular_eq_concat
  refine ⟨_, hcore.normalizeLine_eq (not_holdsMark hnul) hlead limit, ?_, ?_⟩
  · exact hcore.not_mem_indent_regular hline (fun c hc => List.eq_of_mem_replicate hc) (by decide)
  · exact ⟨_, d, by rw [hs, ← List.append_assoc], hd⟩

theorem settled_of_becomes (h : List.Forall₂ (Becomes ctx limit) ls rs) :
    ∀ r ∈ rs, Settled ctx limit r := by
  induction h with
  | nil => simp
  | cons hr _ ih => exact List.forall_mem_cons.2 ⟨hr.settled, ih⟩

theorem flatMap_closedIn_of_becomes (h : List.Forall₂ (Becomes ctx limit) ls rs) :
    rs.flatMap (closedIn ctx) = (ls.flatMap (spansIn ctx)).map (respace false) := by
  induction h with
  | nil => rfl
  | cons hr _ ih => rw [List.flatMap_cons, List.flatMap_cons, List.map_append, hr.closedIn_eq, ih]

theorem exists_mapM {f : Text → Except MarkFault Text} {P : Text → Text → Prop}
    (h : ∀ l ∈ ls, ∃ r, f l = .ok r ∧ P l r) :
    ∃ rs, ls.mapM f = .ok rs ∧ List.Forall₂ P ls rs := by
  induction ls with
  | nil => exact ⟨[], rfl, .nil⟩
  | cons l ls ih =>
    obtain ⟨r, hr, hP⟩ := h l (by simp)
    obtain ⟨rs, hrs, hall⟩ := ih fun m hm => h m (by simp [hm])
    refine ⟨r :: rs, ?_, .cons hP hall⟩
    rw [List.mapM_cons, hr, hrs]
    rfl

/-- The blanks at the beginning of a text are those of its first line. -/
theorem trimLeft_unlines {r : Text} (h : Settled ctx limit r) (rs : List Text) :
    Text.trimLeft (Text.unlines (r :: rs)) = Text.unlines (Text.trimLeft r :: rs) := by
  cases rs with
  | nil => rw [Text.unlines_singleton, Text.unlines_singleton]
  | cons m rs =>
    -- A settled line ends in no blank, so something of it is left.
    have hne : r.dropWhile Text.isBlank ≠ [] := by
      obtain ⟨s, d, rfl, hd⟩ := h.last
      intro hnil
      have := Text.dropWhile_isBlank_eq_nil_iff.1 hnil d (by simp)
      simp [this] at hd
    have hcons := Text.unlines_cons (List.cons_ne_nil m rs)
    rw [hcons, hcons, Text.trimLeft, Text.trimLeft, List.dropWhile_append,
      if_neg (by simpa using hne)]

theorem closedSpans_of_blank (h : Text.isBlankText line) : spansIn ctx line = [] := by
  have hblank : ∀ c ∈ (cutReturn line).1, Text.isBlank c := by
    intro c hc
    have happend := cutReturn_append line
    rw [Text.isBlankText, List.all_eq_true] at h
    exact h c (happend ▸ List.mem_append_left _ hc)
  have hcode := lexLine_blank_append ctx hblank [] []
  rw [List.append_nil, lexLine_nil] at hcode
  rw [spansIn, hcode, closedSpans_map_code_append, closedSpans_nil]

/-- The literals of the lines that are not blank are all there are. -/
theorem flatMap_spansIn_filter (ctx : Context) (ls : List Text) :
    (ls.filter fun l => !Text.isBlankText l).flatMap (spansIn ctx) = ls.flatMap (spansIn ctx) := by
  induction ls with
  | nil => rfl
  | cons l ls ih =>
    cases hl : Text.isBlankText l with
    | false => rw [List.filter_cons_of_pos (by simp [hl]), List.flatMap_cons, ih, List.flatMap_cons]
    | true =>
      rw [List.filter_cons_of_neg (by simp [hl]), ih, List.flatMap_cons, closedSpans_of_blank hl,
        List.nil_append]

/-- The lines that are kept of a script without its comments. -/
def keptLines (ctx : Context) (t : Text) : List Text :=
  (Text.lines (strip ctx t)).filter fun l => !Text.isBlankText l

theorem of_mem_keptLines (hnul : nul ∉ t) (h : line ∈ keptLines ctx t) :
    '\n' ∉ line ∧ nul ∉ line ∧ IsPlain ctx line ∧ Text.isBlankText line = false := by
  obtain ⟨hline, hblank⟩ := List.mem_filter.1 h
  refine ⟨Text.not_mem_of_mem_lines hline, fun hmem => ?_, isPlain_of_mem_lines_strip hline,
    by simpa using hblank⟩
  exact (mem_of_mem_lines_strip hline hmem).elim hnul (by decide)

/-- The lines of an optimized script are settled, and its closed literals are those of the script
without comments with regular spacing each. -/
theorem optimizeBody_eq (hctx : ctx.Wordwise) (hnul : nul ∉ t) (limit : Int) :
    ∃ rs, optimizeBody ctx limit t = .ok (Text.unlines rs) ∧
      Text.trimLeft (Text.unlines rs) = Text.unlines rs ∧ (∀ r ∈ rs, Settled ctx limit r) ∧
      rs.flatMap (closedIn ctx) =
        ((Text.lines (strip ctx t)).flatMap (spansIn ctx)).map (respace false) := by
  have hlines : ∀ l ∈ keptLines ctx t, _ := fun l hl => of_mem_keptLines hnul hl
  rw [← flatMap_spansIn_filter, optimizeBody, dropBlankLines, ← keptLines]
  generalize keptLines ctx t = ls at hlines
  obtain ⟨rs, hmap, hall⟩ : ∃ rs, ls.mapM (normalizeLine limit) = .ok rs ∧
      List.Forall₂ (Becomes ctx limit) ls rs := exists_mapM fun l hl =>
    have ⟨hnewline, hnul, hplain, hblank⟩ := hlines l hl
    exists_becomes hctx hnewline hnul hplain hblank limit
  rw [normalize_unlines (fun l hl => (hlines l hl).1) hmap fun r hr => (settled_of_becomes hall r hr).filled]
  -- Only the first line loses the blanks it begins with.
  cases hall with
  | nil => exact ⟨[], rfl, rfl, by simp, rfl⟩
  | @cons l r ls rs hr hrest =>
    have htrim := trimLeft_unlines hr.settled rs
    have hall : List.Forall₂ (Becomes ctx limit) (l :: ls) (Text.trimLeft r :: rs) :=
      .cons hr.trimLeft hrest
    refine ⟨Text.trimLeft r :: rs, by rw [htrim], ?_, settled_of_becomes hall,
      flatMap_closedIn_of_becomes hall⟩
    rw [← htrim, Text.trimLeft_trimLeft]

/-- An optimized script holds no comment and stays as it is when its comments are taken out, and
when it is optimized once more. -/
theorem optimizeBody_stable (hctx : ctx.Wordwise) (hnul : nul ∉ t) (limit : Int) :
    ∃ small, optimizeBody ctx limit t = .ok small ∧
      (∀ tok ∈ tokens ctx small, tok.isComment = false) ∧ strip ctx small = small ∧
      optimizeBody ctx limit small = .ok small := by
  obtain ⟨rs, hsmall, htrim, hsettled, -⟩ := optimizeBody_eq hctx hnul limit
  exact ⟨Text.unlines rs, hsmall, optimizeBody_of_settled hsettled htrim⟩

/-- A script whose comment stands between two divisions, at four columns of indentation. -/
theorem optimizeBody_stable_divisions :
    let code := "a = b /* or c */ / 2\n\n    / 3 // thirds\n".toList
    Context.Wordwise {} ∧ nul ∉ code ∧ ∃ small, optimizeBody {} 4 code = .ok small ∧
      (∀ tok ∈ tokens {} small, tok.isComment = false) ∧ strip {} small = small ∧
      optimizeBody {} 4 small = .ok small :=
  ⟨wordwise_default, by decide, optimizeBody_stable wordwise_default (by decide) 4⟩

end Userscript.Script
