import Userscript.Proofs.Json.Nesting
import Userscript.Proofs.Json.Numbers
import Userscript.Proofs.Json.Strings
import Userscript.Proofs.Table

/-!
# Values written and read back

What is read back of a value, from what is read back of its parts, whatever follows it in a text.
Reading fails at most at an integer that is too long, and so not at all where there is none; and never
for its nesting, if it follows objects as deep as they are nested in the value.

## Main definitions

* `Json.ReadsInto` — what stands for a value is read as a value with a property

## Main results

* `readsInto_int`, `readsInto_double`, `readsInto_object` — integers, floating-point numbers and
  objects
* `parse_print`, `not_deeperThan_print` — a value on a line of its own is read back, and its text is not
  nested deeper than the value
-/

namespace Userscript.Json

variable {exact : Prop} {P Q : Json → Prop} {rest t : Text} {v : Json} {n level levels fuel : Nat}

/-- Reading gives a value with the property and the rest of the text. It may fail instead, unless
it has to be exact, but not for its nesting. -/
def Yields (exact : Prop) (P : Json → Prop) (rest : Text) : Except Stop (Json × Text) → Prop
  | .ok found => P found.1 ∧ found.2 = rest
  | .error stop => ¬ exact ∧ ∀ kind, stop.cause ≠ .nesting kind

/-- What stands for a value is read as a value with the property, whatever follows it, if lists and
objects are followed `n` levels deep or deeper. -/
def ReadsInto (exact : Prop) (n : Nat) (v : Json) (P : Json → Prop) : Prop :=
  ∀ levels level rest fuel, n ≤ levels → EndsNumber rest → (printAt level v).length ≤ fuel →
    Yields exact P rest (value levels fuel (printAt level v ++ rest))

theorem Yields.mono {outcome : Except Stop (Json × Text)} (h : Yields exact P rest outcome)
    (hPQ : ∀ v, P v → Q v) : Yields exact Q rest outcome := by
  cases outcome with
  | error stop => exact h
  | ok found => exact ⟨hPQ _ h.1, h.2⟩

/-- What is read behind a value that has been read. -/
theorem Yields.bind {more : Text} {outcome : Except Stop (Json × Text)}
    {next : Json × Text → Except Stop (Json × Text)} (h : Yields exact P more outcome)
    (hnext : ∀ v, P v → Yields exact Q rest (next (v, more))) : Yields exact Q rest (outcome >>= next) := by
  cases outcome with
  | error stop => exact h
  | ok found =>
    obtain ⟨hfound, hmore⟩ := h
    have hrest := hnext found.1 hfound
    rw [← hmore] at hrest
    exact hrest

theorem ReadsInto.mono (h : ReadsInto exact n v P) (hPQ : ∀ v', P v' → Q v') : ReadsInto exact n v Q :=
  fun levels level rest fuel hlevels hrest hfuel => (h levels level rest fuel hlevels hrest hfuel).mono hPQ

theorem endsNumber_cons {c : Char} (hdigit : Text.isAsciiDigit c = false) (hpoint : c ≠ '.')
    (he : c ≠ 'e') (hE : c ≠ 'E') (t : Text) : EndsNumber (c :: t) := by
  intro d hd
  obtain rfl : c = d := by simpa using hd
  exact ⟨hdigit, hpoint, he, hE⟩

/-! ### What is printed -/

theorem printAt_int (level : Nat) (n : Int) : printAt level (.int n) = Text.integer n := rfl

theorem printAt_double (level : Nat) (x : Binary64) : printAt level (.double x) = printDouble x := rfl

theorem printAt_object_nil (level : Nat) : printAt level (.object []) = ['\x7b', '\x7d'] := rfl

theorem printAt_object_cons (level : Nat) (f : WideText × Json) (fs : List (WideText × Json)) :
    printAt level (.object (f :: fs)) =
      '\x7b' :: printFields (level + 1) (f :: fs) ++ newLine level ++ ['\x7d'] := rfl

/-! ### Numbers -/

theorem ne_of_isOfDouble {c : Char} (h : isOfDouble c) : c ≠ '"' ∧ c ≠ '[' ∧ c ≠ '\x7b' := by
  refine ⟨?_, ?_, ?_⟩ <;> rintro rfl <;> exact absurd h (by decide)

theorem head_integer (n : Int) (rest : Text) :
    ∀ c, (Text.integer n ++ rest).head? = some c → c ≠ '"' ∧ c ≠ '[' ∧ c ≠ '\x7b' := by
  intro c hc
  cases n with
  | ofNat m =>
    have hne := Text.natural_ne_nil m
    rw [Text.integer, List.head?_append_of_ne_nil _ hne] at hc
    exact ne_of_isOfDouble (isOfDouble_of_digit (Text.isAsciiDigit_of_mem_natural (List.mem_of_head? hc)))
  | negSucc m =>
    obtain rfl : '-' = c := by simpa [Text.integer] using hc
    decide

/-- An integer is read back, if it is not too long. -/
theorem readsInto_int {i : Int} (h : exact → digitCount i ≤ Text.digitLimit) :
    ReadsInto exact n (.int i) (· = .int i) := by
  intro levels level rest fuel _ hrest hfuel
  have hpos : 0 < (printAt level (.int i)).length := by
    rw [printAt_int]
    cases i <;> simp [Text.integer, List.length_pos_iff, Text.natural_ne_nil]
  obtain ⟨fuel, rfl⟩ := Nat.exists_eq_add_of_lt (hpos.trans_le hfuel)
  rw [Nat.zero_add, printAt_int, value_scalar (head_integer i rest), scalar_integer i hrest]
  split
  · next hlong =>
    refine ⟨fun hexact => ?_, fun kind hkind => Cause.noConfusion hkind⟩
    have hshort := h hexact
    omega
  · exact ⟨rfl, rfl⟩

/-- A floating-point number is read as one, and a finite one as itself. -/
theorem readsInto_double (exact : Prop) (n : Nat) (x : Binary64) :
    ReadsInto exact n (.double x) (fun v => ∃ y, v = .double y ∧ (x.IsFinite → y = x)) := by
  intro levels level rest fuel _ hrest hfuel
  have hne := printDouble_ne_nil x
  have hpos : 0 < (printDouble x).length := List.length_pos_iff.2 hne
  have hhead : ∀ c, (printDouble x ++ rest).head? = some c → c ≠ '"' ∧ c ≠ '[' ∧ c ≠ '\x7b' := by
    intro c hc
    rw [List.head?_append_of_ne_nil _ hne] at hc
    exact ne_of_isOfDouble (isOfDouble_of_mem_printDouble (List.mem_of_head? hc))
  obtain ⟨fuel, rfl⟩ := Nat.exists_eq_add_of_lt (hpos.trans_le hfuel)
  obtain ⟨y, hy, hsame⟩ := exists_scalar_printDouble x hrest
  rw [Nat.zero_add, printAt_double, value_scalar hhead, hy]
  exact ⟨⟨y, rfl, hsame⟩, rfl⟩

/-! ### Objects -/

theorem skip_newLine (level : Nat) (t : Text) : skip (newLine level ++ t) = skip t := by
  have hspaces : ∀ c ∈ newLine level, (c = ' ' || c = '\t' || c = '\n' || c = '\r') = true := by
    intro c hc
    rcases List.mem_cons.1 hc with rfl | hc
    · decide
    · rw [List.eq_of_mem_replicate hc]
      decide
  exact List.dropWhile_append_of_pos hspaces

/-- A key is read as some key, and as itself if it has no halves of surrogate pairs. -/
def KeyBack (key key' : WideText) : Prop := ∀ s, key = .proper s → key' = key

theorem exists_string_key (key : WideText) (whole rest : Text) :
    ∃ key', KeyBack key key' ∧
      string whole [] (key.points.flatMap escapePoint ++ '"' :: rest) = .ok (key', rest) := by
  cases key with
  | proper s => exact ⟨.proper s, fun _ _ => rfl, string_escape s rest⟩
  | torn ps =>
    obtain ⟨key', hkey⟩ := exists_string_escapeWide (.torn ps) rest
    exact ⟨key', fun _ h => WideText.noConfusion h, hkey⟩

/-- What is written of a field behind the white space before it. -/
def fieldText (level : Nat) (f : WideText × Json) : Text :=
  '"' :: (f.1.points.flatMap escapePoint ++ '"' :: ':' :: ' ' :: printAt level f.2)

theorem printFields_cons (level : Nat) (f : WideText × Json) (fs : List (WideText × Json)) :
    printFields level (f :: fs) =
      newLine level ++ (fieldText level f ++ if fs = [] then [] else ',' :: printFields level fs) := by
  cases fs with
  | nil => simp [printFields, escapeWide, fieldText]
  | cons f fs => simp [printFields, escapeWide, fieldText]

theorem skip_of_not_space {c : Char} (h : (c = ' ' || c = '\t' || c = '\n' || c = '\r') = false)
    (t : Text) : skip (c :: t) = c :: t := by
  simp [skip, h]

theorem skip_of_isOfDouble {c : Char} (h : isOfDouble c) (t : Text) : skip (c :: t) = c :: t := by
  refine skip_of_not_space ?_ t
  rw [Bool.eq_false_iff]
  intro hspace
  simp only [Bool.or_eq_true, decide_eq_true_eq] at hspace
  rcases hspace with ((rfl | rfl) | rfl) | rfl <;> exact absurd h (by decide)

/-- A value begins with no white space. -/
theorem skip_printAt (level : Nat) (v : Json) (t : Text) :
    skip (' ' :: (printAt level v ++ t)) = printAt level v ++ t := by
  have hspace : skip (' ' :: (printAt level v ++ t)) = skip (printAt level v ++ t) := by
    simp [skip]
  rw [hspace]
  cases v with
  | null => rfl
  | bool b => cases b <;> rfl
  | int n =>
    cases n with
    | ofNat m =>
      obtain ⟨c, u, hc⟩ := List.exists_cons_of_ne_nil (Text.natural_ne_nil m)
      have hdigit : Text.isAsciiDigit c := Text.isAsciiDigit_of_mem_natural (hc ▸ List.mem_cons_self)
      rw [printAt_int, Text.integer, hc]
      exact skip_of_isOfDouble (isOfDouble_of_digit hdigit) _
    | negSucc m => rfl
  | double x =>
    obtain ⟨c, u, hc⟩ := List.exists_cons_of_ne_nil (printDouble_ne_nil x)
    rw [printAt_double, hc]
    exact skip_of_isOfDouble (isOfDouble_of_mem_printDouble (hc ▸ List.mem_cons_self)) _
  | text w => rfl
  | list items => cases items <;> rfl
  | object fields => cases fields <;> rfl

/-- What becomes of the fields of an object. -/
def FieldsBack (R : Json → Json → Prop) (fs gs : List (WideText × Json)) : Prop :=
  List.Forall₂ (fun f g => KeyBack f.1 g.1 ∧ R f.2 g.2) fs gs

/-- The object that fields make up, behind those in `seen`. -/
def gather (seen : Table Json WideText) (gs : List (WideText × Json)) : Table Json WideText :=
  gs.foldl (fun table g => Table.set g.1 g.2 table) seen

/-- The rest of an object, from behind the value of a field on; `seen` holds the fields read. -/
def afterValue (levels fuel : Nat) (seen : Table Json WideText) (t : Text) : Except Stop (Json × Text) :=
  match skip t with
  | '\x7d' :: rest => .ok (.object seen, rest)
  | ',' :: rest => fields levels fuel seen (skip rest)
  | rest => .error ⟨.comma, rest⟩

/-- The object is closed behind its last field. -/
theorem afterValue_close (levels fuel level : Nat) (seen : Table Json WideText) (rest : Text) :
    afterValue levels fuel seen (newLine level ++ '\x7d' :: rest) = .ok (.object seen, rest) := by
  rw [afterValue, skip_newLine, skip_of_not_space (by decide)]
  rfl

/-- Behind a comma comes another field. -/
theorem afterValue_comma (levels fuel : Nat) (seen : Table Json WideText) (t : Text) :
    afterValue levels fuel seen (',' :: t) = fields levels fuel seen (skip t) := by
  rw [afterValue, skip_of_not_space (by decide)]
  rfl

/-- One step of reading the fields of an object: a key, a value, and what comes behind. -/
theorem exists_fields_eq (levels level fuel : Nat) (f : WideText × Json) (seen : Table Json WideText)
    (more : Text) :
    ∃ key', KeyBack f.1 key' ∧ fields levels (fuel + 1) seen (fieldText level f ++ more) =
      (value levels fuel (printAt level f.2 ++ more) >>= fun found =>
        afterValue levels fuel (Table.set key' found.1 seen) found.2) := by
  obtain ⟨key', hback, hkey⟩ := exists_string_key f.1 (fieldText level f ++ more)
    (':' :: ' ' :: (printAt level f.2 ++ more))
  refine ⟨key', hback, ?_⟩
  have htext : fieldText level f ++ more =
      '"' :: (f.1.points.flatMap escapePoint ++ '"' :: ':' :: ' ' :: (printAt level f.2 ++ more)) := by
    simp [fieldText]
  rw [htext] at hkey ⊢
  rw [fields, hkey]
  dsimp only [bind, Except.bind]
  rw [skip_of_not_space (by decide)]
  change (value levels fuel (skip (' ' :: (printAt level f.2 ++ more))) >>= _) = _
  rw [skip_printAt]
  rfl

/-- The fields of an object are read one after the other. -/
theorem yields_fields {R : Json → Json → Prop} (level closing : Nat) {fs : List (WideText × Json)}
    (hne : fs ≠ []) (hfs : ∀ f ∈ fs, ReadsInto exact n f.2 (R f.2)) (hlevels : n ≤ levels)
    (seen : Table Json WideText) (rest : Text) (hfuel : (printFields level fs).length ≤ fuel) :
    Yields exact (fun v => ∃ gs, FieldsBack R fs gs ∧ v = .object (gather seen gs)) rest
      (fields levels fuel seen (skip (printFields level fs ++ (newLine closing ++ '\x7d' :: rest)))) := by
  -- A field that has been read goes over into `seen`, and the fuel that is left is enough for the others.
  induction fs generalizing seen fuel with
  | nil => exact absurd rfl hne
  | cons f fs ih =>
    rw [printFields_cons] at hfuel ⊢
    obtain ⟨fuel, rfl⟩ : ∃ n, fuel = n + 1 := Nat.exists_eq_add_one.2 (by simp [newLine] at hfuel; omega)
    generalize hmore : (if fs = [] then [] else ',' :: printFields level fs) ++
      (newLine closing ++ '\x7d' :: rest) = more
    have hbegin : skip (newLine level ++ (fieldText level f ++
        if fs = [] then [] else ',' :: printFields level fs) ++ (newLine closing ++ '\x7d' :: rest)) =
          fieldText level f ++ more := by
      rw [List.append_assoc, List.append_assoc, hmore, skip_newLine]
      exact skip_of_not_space (by decide) _
    have hends : EndsNumber more := by
      rw [← hmore]
      split <;> exact endsNumber_cons (by decide) (by decide) (by decide) (by decide) _
    have hlength : (printAt level f.2).length ≤ fuel := by
      simp only [fieldText, List.length_append, List.length_cons] at hfuel
      omega
    obtain ⟨key', hback, hstep⟩ := exists_fields_eq levels level fuel f seen more
    rw [hbegin, hstep]
    refine (hfs f List.mem_cons_self levels level more fuel hlevels hends hlength).bind fun v hv => ?_
    rw [← hmore]
    -- Behind the value stands the end of the object, or a comma and the next field.
    by_cases hlast : fs = []
    · subst hlast
      rw [if_pos rfl, List.nil_append, afterValue_close]
      exact ⟨⟨[(key', v)], .cons ⟨hback, hv⟩ .nil, rfl⟩, rfl⟩
    · rw [if_neg hlast] at hfuel ⊢
      rw [List.cons_append, afterValue_comma]
      have hfuel' : (printFields level fs).length ≤ fuel := by
        simp only [List.length_append, List.length_cons] at hfuel
        omega
      refine (ih hlast (fun g hg => hfs g (List.mem_cons_of_mem f hg)) _ hfuel').mono ?_
      rintro _ ⟨gs, hgs, rfl⟩
      exact ⟨(key', v) :: gs, .cons ⟨hback, hv⟩ hgs, rfl⟩

theorem exists_skip_printFields (level : Nat) (f : WideText × Json) (fs : List (WideText × Json))
    (t : Text) : ∃ u, skip (printFields level (f :: fs) ++ t) = '"' :: u := by
  rw [printFields_cons, List.append_assoc, skip_newLine, fieldText, List.cons_append, List.cons_append,
    skip_of_not_space (by decide)]
  exact ⟨_, rfl⟩

/-- An object is read back as its fields are, one level deeper. -/
theorem readsInto_object {R : Json → Json → Prop} {fs : List (WideText × Json)}
    (hfs : ∀ f ∈ fs, ReadsInto exact n f.2 (R f.2)) :
    ReadsInto exact (n + 1) (.object fs) fun v => ∃ gs, FieldsBack R fs gs ∧ v = .object (gather [] gs) := by
  intro levels level rest fuel hlevels hrest hfuel
  obtain ⟨levels, rfl⟩ := Nat.exists_eq_add_of_le' (Nat.one_le_of_lt hlevels)
  have hlevels : n ≤ levels := Nat.le_of_succ_le_succ hlevels
  cases fs with
  | nil =>
    cases fuel with
    | zero => simp [printAt_object_nil] at hfuel
    | succ fuel =>
      have hempty : value (levels + 1) (fuel + 1) (printAt level (.object []) ++ rest) = .ok (.object [], rest) := rfl
      rw [hempty]
      exact ⟨⟨[], .nil, rfl⟩, rfl⟩
  | cons f fs =>
    cases fuel with
    | zero => simp [printAt_object_cons] at hfuel
    | succ fuel =>
      rw [printAt_object_cons] at hfuel ⊢
      have hlength : (printFields (level + 1) (f :: fs)).length ≤ fuel := by
        simp only [List.cons_append, List.length_cons, List.length_append] at hfuel
        omega
      have hfields := yields_fields (level + 1) level (List.cons_ne_nil f fs) hfs hlevels [] rest hlength
      simp only [List.cons_append, List.append_assoc, List.nil_append]
      obtain ⟨u, hu⟩ := exists_skip_printFields (level + 1) f fs (newLine level ++ '\x7d' :: rest)
      rw [hu] at hfields
      -- A field stands first, so this is not read as the object without fields.
      rw [value_object, hu]
      split
      · next hbrace => exact absurd (List.cons.inj hbrace).1 (by decide)
      · exact hfields

/-! ### What is read back exactly -/

/-- Fields with different keys make up the object that has them in their order. -/
theorem gather_of_nodup {seen gs : Table Json WideText} (h : (seen ++ gs).keys.Nodup) :
    gather seen gs = seen ++ gs := by
  induction gs generalizing seen with
  | nil => simp [gather]
  | cons g gs ih =>
    have hsplit : seen ++ g :: gs = seen ++ [g] ++ gs := by simp
    have hnew : g.1 ∉ Table.keys seen := by
      rw [Table.keys, List.map_append, List.map_cons, List.nodup_append] at h
      intro hmem
      exact h.2.2 g.1 hmem g.1 List.mem_cons_self rfl
    rw [gather, List.foldl_cons, ← gather, Table.set_of_not_mem hnew]
    rw [hsplit] at h ⊢
    exact ih h

/-- Fields whose keys have no halves of surrogate pairs are read back, if their values are. -/
theorem FieldsBack.eq {fs gs : List (WideText × Json)} (h : FieldsBack (fun v v' => v' = v) fs gs)
    (hproper : ∀ f ∈ fs, ∃ s, f.1 = .proper s) : gs = fs := by
  induction h with
  | nil => rfl
  | cons hfield _ ih =>
    obtain ⟨s, hs⟩ := hproper _ List.mem_cons_self
    rw [ih fun f hf => hproper f (List.mem_cons_of_mem _ hf)]
    congr 1
    exact Prod.ext (hfield.1 s hs) hfield.2

/-- An object whose keys are proper and different is read back, if its values are. -/
theorem readsInto_object_self {fs : Table Json WideText} (hkeys : fs.keys.Nodup)
    (hproper : ∀ f ∈ fs, ∃ s, f.1 = .proper s) (hvalues : ∀ f ∈ fs, ReadsInto exact n f.2 (· = f.2)) :
    ReadsInto exact (n + 1) (.object fs) (· = .object fs) := by
  have hobject := readsInto_object (R := fun v v' => v' = v) hvalues
  refine hobject.mono ?_
  rintro v ⟨gs, hgs, rfl⟩
  obtain rfl := FieldsBack.eq hgs hproper
  rw [gather_of_nodup (by simpa using hkeys)]
  rfl

/-- An object on a line of its own is read back, by a reader that goes deep enough. -/
theorem readWithin_print {fs : List (WideText × Json)} (h : ReadsInto exact n (.object fs) P)
    (hlevels : n ≤ levels) :
    (∃ v, P v ∧ readWithin levels (print (.object fs) ++ ['\n']) = .ok v) ∨ ¬ exact ∧ ∃ stop,
      readWithin levels (print (.object fs) ++ ['\n']) = .error stop ∧ ∀ kind, stop.cause ≠ .nesting kind := by
  have hends : EndsNumber ['\n'] := endsNumber_cons (by decide) (by decide) (by decide) (by decide) []
  -- The reader's fuel is measured by its text, and is enough for what was printed.
  have hfuel : (printAt 0 (.object fs)).length ≤ 2 * (print (.object fs) ++ ['\n']).length + 1 := by
    rw [print, List.length_append]
    omega
  have hread := h levels 0 ['\n'] _ hlevels hends hfuel
  obtain ⟨u, hu⟩ : ∃ u, print (.object fs) ++ ['\n'] = '\x7b' :: u := by
    cases fs <;> exact ⟨_, rfl⟩
  have hmark : ¬ (print (.object fs) ++ ['\n']).head? = some '\uFEFF' := by
    rw [hu, List.head?_cons]
    decide
  have hskip : skip (print (.object fs) ++ ['\n']) = printAt 0 (.object fs) ++ ['\n'] := by
    rw [hu, skip_of_not_space (by decide), ← hu, print]
  rw [readWithin, if_neg hmark, hskip]
  cases hvalue : value levels (2 * (print (.object fs) ++ ['\n']).length + 1)
      (printAt 0 (.object fs) ++ ['\n']) with
  | error stop =>
    rw [hvalue] at hread
    exact .inr ⟨hread.1, stop, rfl, hread.2⟩
  | ok found =>
    rw [hvalue] at hread
    obtain ⟨hfound, hrest⟩ := hread
    refine .inl ⟨found.1, hfound, ?_⟩
    have hline : skip found.2 = [] := by
      rw [hrest]
      rfl
    simp only [bind, Except.bind, hline]

/-- The text of an object is not nested deeper than the object. -/
theorem not_deeperThan_print {fs : List (WideText × Json)} (h : ReadsInto exact n (.object fs) P) :
    ¬ DeeperThan n (print (.object fs) ++ ['\n']) := by
  rw [deeperThan_iff]
  rintro ⟨fault, kind, hfault, hcause⟩
  rw [parseWithin_eq] at hfault
  rcases readWithin_print h (Nat.le_refl n) with ⟨v, -, hread⟩ | ⟨-, stop, hread, hother⟩
  · rw [hread] at hfault
    cases hfault
  · rw [hread] at hfault
    cases hfault
    exact hother kind hcause

/-- An object on a line of its own is read back. -/
theorem parse_print {fs : List (WideText × Json)} (h : ReadsInto exact n (.object fs) P) :
    (∃ v, P v ∧ parse (print (.object fs) ++ ['\n']) = .ok v) ∨
      ¬ exact ∧ ∃ fault, parse (print (.object fs) ++ ['\n']) = .error fault := by
  have hsame := not_not.1 (not_deeperThan_print h)
  rw [← hsame, parseWithin_eq]
  rcases readWithin_print h (Nat.le_refl n) with ⟨v, hv, hread⟩ | ⟨hexact, stop, hread, -⟩
  · exact .inl ⟨v, hv, by rw [hread]; rfl⟩
  · exact .inr ⟨hexact, _, by rw [hread]; rfl⟩

/-! ### Carriage returns -/

theorem not_mem_return_newLine (level : Nat) : '\r' ∉ newLine level := by
  simp [newLine]

theorem not_mem_return_int (level : Nat) (n : Int) : '\r' ∉ printAt level (.int n) := by
  have hnatural (m : Nat) : '\r' ∉ Text.natural m :=
    fun h => absurd (Text.isAsciiDigit_of_mem_natural h) (by decide)
  rw [printAt_int]
  cases n with
  | ofNat m => exact hnatural m
  | negSucc m => simp [Text.integer, hnatural]

theorem not_mem_return_double (level : Nat) (x : Binary64) : '\r' ∉ printAt level (.double x) :=
  fun h => absurd (isOfDouble_of_mem_printDouble h) (by decide)

theorem not_mem_return_printFields (level : Nat) {fs : List (WideText × Json)}
    (h : ∀ f ∈ fs, '\r' ∉ printAt level f.2) : '\r' ∉ printFields level fs := by
  induction fs with
  | nil => simp [printFields]
  | cons f fs ih =>
    have hv := h f List.mem_cons_self
    have hfs := ih fun g hg => h g (List.mem_cons_of_mem f hg)
    have hkey := (escaped_points f.1.points).not_mem_return
    rw [printFields_cons]
    split <;> simp [fieldText, not_mem_return_newLine, hkey, hv, hfs]

/-- No carriage return is written in an object, if none is written in its fields. -/
theorem not_mem_return_object (level : Nat) {fs : List (WideText × Json)}
    (h : ∀ f ∈ fs, '\r' ∉ printAt (level + 1) f.2) : '\r' ∉ printAt level (.object fs) := by
  cases fs with
  | nil => simp [printAt_object_nil]
  | cons f fs =>
    have hfields := not_mem_return_printFields (level + 1) h
    simp [printAt_object_cons, hfields, not_mem_return_newLine]

end Userscript.Json
