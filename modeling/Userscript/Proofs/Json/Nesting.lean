import Userscript.Json.Reader
import Mathlib.Tactic.ByContra

/-!
# Nesting that is too deep

A reader that follows lists and objects only so deep reads a text as one without a limit does, or it
stops because they are nested too deep. It needs no more levels than it takes steps, so the reader of
whole texts, which may go as deep as it takes steps, never stops for that.

## Main definitions

* `Json.Nests` — reading stops because lists or objects are nested too deep
* `Json.DeeperThan` — lists or objects are nested in a text more than so many levels deep

## Main results

* `Limited.of_fuel`, `Unlimited.of_fuel` — what a limit does to reading, and when it does nothing
* `deeperThan_iff` — what is not read as without a limit is refused for its nesting
* `DeeperThan.mono`, `deeperThan_brackets` — the limit is one of depth
-/

namespace Userscript.Json

variable {α β : Type} {levels levels' fuel : Nat} {t : Text}

/-- Reading stops because lists or objects are nested too deep. -/
def Nests (outcome : Except Stop α) : Prop := ∃ kind rest, outcome = .error ⟨.nesting kind, rest⟩

theorem not_nests_ok (x : α) : ¬ Nests (.ok x) := by
  rintro ⟨kind, rest, h⟩
  cases h

theorem Nests.of_bind {outcome : Except Stop α} {next : α → Except Stop β} (h : Nests (outcome >>= next)) :
    Nests outcome ∨ ∃ x, outcome = .ok x ∧ Nests (next x) := by
  cases outcome with
  | error stop =>
    obtain ⟨kind, rest, h⟩ := h
    cases h
    exact .inl ⟨kind, rest, rfl⟩
  | ok x => exact .inr ⟨x, rfl, h⟩

theorem Nests.bind {outcome : Except Stop α} (h : Nests outcome) (next : α → Except Stop β) :
    Nests (outcome >>= next) := by
  obtain ⟨kind, rest, rfl⟩ := h
  exact ⟨kind, rest, rfl⟩

/-- The outcome of reading with a limit is the one of reading with a larger limit, unless reading stops
for the limit. -/
def Cuts (outcome outcome' : Except Stop α) : Prop := outcome = outcome' ∨ Nests outcome

theorem Cuts.bind {outcome outcome' : Except Stop α} {next next' : α → Except Stop β}
    (h : Cuts outcome outcome') (hnext : ∀ x, Cuts (next x) (next' x)) :
    Cuts (outcome >>= next) (outcome' >>= next') := by
  rcases h with rfl | hnests
  · cases outcome with
    | error stop => exact .inl rfl
    | ok x => exact hnext x
  · exact .inr (hnests.bind next)

/-! ### Values by their first character -/

/-- What a value may begin with. -/
theorem opening_cases (t : Text) :
    (∃ t', t = '"' :: t') ∨ (∃ t', t = '[' :: t') ∨ (∃ t', t = '\x7b' :: t') ∨
      ∀ c, t.head? = some c → c ≠ '"' ∧ c ≠ '[' ∧ c ≠ '\x7b' := by
  cases t with
  | nil => simp
  | cons c t =>
    by_cases hstring : c = '"'
    · exact .inl ⟨t, by rw [hstring]⟩
    by_cases hlist : c = '['
    · exact .inr (.inl ⟨t, by rw [hlist]⟩)
    by_cases hobject : c = '\x7b'
    · exact .inr (.inr (.inl ⟨t, by rw [hobject]⟩))
    · simp [hstring, hlist, hobject]

theorem value_string (levels fuel : Nat) (t : Text) :
    value levels (fuel + 1) ('"' :: t) = (string ('"' :: t) [] t).map fun (found, rest) => (.text found, rest) :=
  rfl

/-- A list is read with one level less, behind its bracket. -/
theorem value_list (levels fuel : Nat) (t : Text) : value (levels + 1) (fuel + 1) ('[' :: t) =
    match skip t with
    | ']' :: rest => .ok (.list [], rest)
    | t => items levels fuel [] t :=
  rfl

/-- An object is read with one level less, behind its brace. -/
theorem value_object (levels fuel : Nat) (t : Text) : value (levels + 1) (fuel + 1) ('\x7b' :: t) =
    match skip t with
    | '\x7d' :: rest => .ok (.object [], rest)
    | t => fields levels fuel [] t :=
  rfl

theorem nests_list (fuel : Nat) (t : Text) : Nests (value 0 (fuel + 1) ('[' :: t)) := ⟨_, _, rfl⟩

theorem nests_object (fuel : Nat) (t : Text) : Nests (value 0 (fuel + 1) ('\x7b' :: t)) := ⟨_, _, rfl⟩

/-- A value that is no string, no list and no object. -/
theorem value_scalar (h : ∀ c, t.head? = some c → c ≠ '"' ∧ c ≠ '[' ∧ c ≠ '\x7b') (levels fuel : Nat) :
    value levels (fuel + 1) t = scalar t := by
  rw [value]
  · exact fun t' ht => (h '"' (by rw [ht]; rfl)).1 rfl
  · exact fun t' ht => (h '[' (by rw [ht]; rfl)).2.1 rfl
  · exact fun t' ht => (h '\x7b' (by rw [ht]; rfl)).2.2 rfl

/-! ### Reading with two limits -/

/-- Of two limits the smaller one at most cuts reading short. -/
structure Limited (fuel : Nat) : Prop where
  value {levels levels' : Nat} (h : levels ≤ levels') (t : Text) :
    Cuts (value levels fuel t) (value levels' fuel t)
  items {levels levels' : Nat} (h : levels ≤ levels') (seen : List Json) (t : Text) :
    Cuts (items levels fuel seen t) (items levels' fuel seen t)
  fields {levels levels' : Nat} (h : levels ≤ levels') (seen : Table Json WideText) (t : Text) :
    Cuts (fields levels fuel seen t) (fields levels' fuel seen t)

theorem Limited.value_succ (h : Limited fuel) (hlevels : levels ≤ levels') (t : Text) :
    Cuts (Json.value levels (fuel + 1) t) (Json.value levels' (fuel + 1) t) := by
  rcases opening_cases t with ⟨t, rfl⟩ | ⟨t, rfl⟩ | ⟨t, rfl⟩ | hscalar
  · exact .inl rfl
  · cases levels with
    | zero => exact .inr (nests_list fuel t)
    | succ levels =>
      obtain ⟨levels', rfl⟩ := Nat.exists_eq_add_of_le' (Nat.one_le_of_lt hlevels)
      rw [value_list, value_list]
      split
      · exact .inl rfl
      · exact h.items (by omega) [] _
  · cases levels with
    | zero => exact .inr (nests_object fuel t)
    | succ levels =>
      obtain ⟨levels', rfl⟩ := Nat.exists_eq_add_of_le' (Nat.one_le_of_lt hlevels)
      rw [value_object, value_object]
      split
      · exact .inl rfl
      · exact h.fields (by omega) [] _
  · rw [value_scalar hscalar, value_scalar hscalar]
    exact .inl rfl

theorem Limited.items_succ (h : Limited fuel) (hlevels : levels ≤ levels') (seen : List Json) (t : Text) :
    Cuts (Json.items levels (fuel + 1) seen t) (Json.items levels' (fuel + 1) seen t) := by
  rw [Json.items, Json.items]
  refine (h.value hlevels t).bind ?_
  rintro ⟨v, rest⟩
  dsimp only
  split
  · exact .inl rfl
  · exact h.items hlevels _ _
  · exact .inl rfl

theorem Limited.fields_succ (h : Limited fuel) (hlevels : levels ≤ levels') (seen : Table Json WideText)
    (t : Text) : Cuts (Json.fields levels (fuel + 1) seen t) (Json.fields levels' (fuel + 1) seen t) := by
  unfold Json.fields
  dsimp only
  split
  · refine Cuts.bind (.inl rfl) ?_
    rintro ⟨key, rest⟩
    dsimp only
    split
    · refine (h.value hlevels _).bind ?_
      rintro ⟨v, rest⟩
      dsimp only
      split
      · exact .inl rfl
      · exact h.fields hlevels _ _
      · exact .inl rfl
    · exact .inl rfl
  · exact .inl rfl

theorem Limited.of_fuel (fuel : Nat) : Limited fuel := by
  induction fuel with
  | zero => exact ⟨fun _ _ => .inl rfl, fun _ _ _ => .inl rfl, fun _ _ _ => .inl rfl⟩
  | succ fuel ih => exact ⟨ih.value_succ, ih.items_succ, ih.fields_succ⟩

/-! ### As many levels as steps -/

theorem not_nests_unicodeEscape (t : Text) : ¬ Nests (unicodeEscape t) := by
  rintro ⟨kind, rest, h⟩
  unfold unicodeEscape at h
  repeat' split at h
  all_goals cases h

theorem not_nests_string (whole : Text) (seen : List CodePoint) (t : Text) : ¬ Nests (string whole seen t) := by
  fun_induction string whole seen t
  case case4 ih | case6 ih | case9 ih => exact ih
  case case5 t stop hescape =>
    have ht := not_nests_unicodeEscape t
    rw [hescape] at ht
    rintro ⟨kind, rest, ⟨⟩⟩
    exact ht ⟨kind, rest, rfl⟩
  case case2 => exact not_nests_ok _
  all_goals rintro ⟨kind, rest, ⟨⟩⟩

theorem not_nests_number (whole : Text) (negative : Bool) (t : Text) : ¬ Nests (number whole negative t) := by
  rintro ⟨kind, rest, h⟩
  unfold number at h
  dsimp only at h
  repeat' split at h
  all_goals cases h

theorem not_nests_scalar (t : Text) : ¬ Nests (scalar t) := by
  unfold scalar
  split
  · exact not_nests_ok _
  · split <;> exact not_nests_number _ _ _

/-- With as many levels as steps, reading never stops for the nesting. -/
structure Unlimited (fuel : Nat) : Prop where
  value {levels : Nat} (h : fuel ≤ levels) (t : Text) : ¬ Nests (value levels fuel t)
  items {levels : Nat} (h : fuel ≤ levels) (seen : List Json) (t : Text) : ¬ Nests (items levels fuel seen t)
  fields {levels : Nat} (h : fuel ≤ levels) (seen : Table Json WideText) (t : Text) :
    ¬ Nests (fields levels fuel seen t)

theorem Unlimited.value_succ (h : Unlimited fuel) (hlevels : fuel + 1 ≤ levels) (t : Text) :
    ¬ Nests (Json.value levels (fuel + 1) t) := by
  obtain ⟨levels, rfl⟩ := Nat.exists_eq_add_of_le' (Nat.one_le_of_lt hlevels)
  have hlevels : fuel ≤ levels := by omega
  rcases opening_cases t with ⟨t, rfl⟩ | ⟨t, rfl⟩ | ⟨t, rfl⟩ | hscalar
  · rw [value_string]
    have ht := not_nests_string ('"' :: t) [] t
    rintro ⟨kind, rest, hnests⟩
    cases hstring : string ('"' :: t) [] t with
    | error stop =>
      rw [hstring] at hnests ht
      cases hnests
      exact ht ⟨kind, rest, rfl⟩
    | ok found =>
      rw [hstring] at hnests
      cases hnests
  · rw [value_list]
    split
    · exact not_nests_ok _
    · exact h.items hlevels [] _
  · rw [value_object]
    split
    · exact not_nests_ok _
    · exact h.fields hlevels [] _
  · rw [value_scalar hscalar]
    exact not_nests_scalar t

theorem Unlimited.items_succ (h : Unlimited fuel) (hlevels : fuel + 1 ≤ levels) (seen : List Json) (t : Text) :
    ¬ Nests (Json.items levels (fuel + 1) seen t) := by
  have hlevels : fuel ≤ levels := by omega
  rw [Json.items]
  intro hnests
  rcases hnests.of_bind with hvalue | ⟨⟨v, rest⟩, -, hnests⟩
  · exact h.value hlevels t hvalue
  · revert hnests
    dsimp only
    split
    · exact not_nests_ok _
    · exact h.items hlevels _ _
    · rintro ⟨kind, rest, ⟨⟩⟩

theorem Unlimited.fields_succ (h : Unlimited fuel) (hlevels : fuel + 1 ≤ levels) (seen : Table Json WideText)
    (t : Text) : ¬ Nests (Json.fields levels (fuel + 1) seen t) := by
  have hlevels : fuel ≤ levels := by omega
  unfold Json.fields
  dsimp only
  split
  · intro hnests
    rcases hnests.of_bind with hkey | ⟨⟨key, rest⟩, -, hnests⟩
    · exact not_nests_string _ _ _ hkey
    revert hnests
    dsimp only
    split
    · intro hnests
      rcases hnests.of_bind with hvalue | ⟨⟨v, rest⟩, -, hnests⟩
      · exact h.value hlevels _ hvalue
      revert hnests
      dsimp only
      split
      · exact not_nests_ok _
      · exact h.fields hlevels _ _
      · rintro ⟨kind, rest, ⟨⟩⟩
    · rintro ⟨kind, rest, ⟨⟩⟩
  · rintro ⟨kind, rest, ⟨⟩⟩

theorem Unlimited.of_fuel (fuel : Nat) : Unlimited fuel := by
  induction fuel with
  | zero =>
    refine ⟨fun _ t => ?_, fun _ seen t => ?_, fun _ seen t => ?_⟩ <;> rintro ⟨kind, rest, ⟨⟩⟩
  | succ fuel ih => exact ⟨ih.value_succ, ih.items_succ, ih.fields_succ⟩

/-! ### Whole texts -/

/-- Lists or objects are nested in a text more than so many levels deep, as far as it can be read: it
makes a difference that they are not followed any deeper. -/
def DeeperThan (levels : Nat) (t : Text) : Prop := parseWithin levels t ≠ parse t

/-- What is read of a whole text with a limit. -/
def readWithin (levels : Nat) (t : Text) : Except Stop Json := do
  if t.head? = some '\uFEFF' then .error ⟨.byteOrderMark, t⟩
  else
    let (v, rest) ← value levels (2 * t.length + 1) (skip t)
    match skip rest with
    | [] => .ok v
    | rest => .error ⟨.extraData, rest⟩

theorem parseWithin_eq (levels : Nat) (t : Text) :
    parseWithin levels t = (readWithin levels t).mapError (Stop.fault t) :=
  rfl

theorem cuts_readWithin (h : levels ≤ levels') (t : Text) :
    Cuts (readWithin levels t) (readWithin levels' t) := by
  unfold readWithin
  split
  · exact .inl rfl
  · exact ((Limited.of_fuel _).value h _).bind fun found => .inl rfl

theorem not_nests_readWithin (h : 2 * t.length + 1 ≤ levels) : ¬ Nests (readWithin levels t) := by
  unfold readWithin
  split
  · rintro ⟨kind, rest, ⟨⟩⟩
  · intro hnests
    rcases hnests.of_bind with hvalue | ⟨⟨v, rest⟩, -, hnests⟩
    · exact (Unlimited.of_fuel _).value h _ hvalue
    revert hnests
    dsimp only
    split
    · exact not_nests_ok _
    · rintro ⟨kind, rest, ⟨⟩⟩

/-- Without a limit no text is refused for its nesting. -/
theorem parse_ne_nesting {fault : Fault} (h : parse t = .error fault) (kind : String) :
    fault.cause ≠ .nesting kind := by
  have hnests := not_nests_readWithin (t := t) (Nat.le_refl _)
  rw [parse, parseWithin_eq] at h
  cases hread : readWithin (2 * t.length + 1) t with
  | ok v =>
    rw [hread] at h
    cases h
  | error stop =>
    rw [hread] at h hnests
    cases h
    obtain ⟨cause, rest⟩ := stop
    rintro ⟨⟩
    exact hnests ⟨kind, rest, rfl⟩

/-- A text is nested more than so many levels deep exactly if it is refused for that. -/
theorem deeperThan_iff : DeeperThan levels t ↔
    ∃ fault kind, parseWithin levels t = .error fault ∧ fault.cause = .nesting kind := by
  constructor
  · intro hdeeper
    have hnests : Nests (readWithin levels t) := by
      by_contra hnests
      -- Of the two readers the one with the larger limit is not the one that stops for it.
      refine hdeeper ?_
      rw [parse, parseWithin_eq, parseWithin_eq]
      rcases Nat.le_total levels (2 * t.length + 1) with hle | hle
      · rw [(cuts_readWithin hle t).resolve_right hnests]
      · rw [(cuts_readWithin hle t).resolve_right (not_nests_readWithin (Nat.le_refl _))]
    obtain ⟨kind, rest, hread⟩ := hnests
    exact ⟨_, kind, by rw [parseWithin_eq, hread]; rfl, rfl⟩
  · rintro ⟨fault, kind, hfault, hcause⟩ hsame
    exact parse_ne_nesting (hsame.symm.trans hfault) kind hcause

/-- What is nested deeper than a limit is nested deeper than a smaller one. -/
theorem DeeperThan.mono (h : DeeperThan levels' t) (hlevels : levels ≤ levels') : DeeperThan levels t := by
  rw [deeperThan_iff] at h ⊢
  obtain ⟨fault, kind, hfault, hcause⟩ := h
  rcases cuts_readWithin hlevels t with hsame | ⟨kind', rest, hnests⟩
  · exact ⟨fault, kind, by rw [parseWithin_eq, hsame, ← parseWithin_eq, hfault], hcause⟩
  · exact ⟨_, kind', by rw [parseWithin_eq, hnests]; rfl, rfl⟩

theorem nests_brackets {n : Nat} (h : levels < n) (hfuel : 2 * levels < fuel) (t : Text) :
    Nests (value levels fuel (List.replicate n '[' ++ t)) := by
  induction levels generalizing n fuel with
  | zero =>
    obtain ⟨n, rfl⟩ := Nat.exists_eq_add_of_le' h
    obtain ⟨fuel, rfl⟩ := Nat.exists_eq_add_of_le' hfuel
    exact nests_list fuel _
  | succ levels ih =>
    obtain ⟨n, rfl⟩ := Nat.exists_eq_add_of_le' (show 2 ≤ n by omega)
    obtain ⟨fuel, rfl⟩ := Nat.exists_eq_add_of_le' (show 2 ≤ fuel by omega)
    -- One bracket takes a level and two steps, one for the value and one for the list.
    have hinner : Nests (value levels fuel (List.replicate (n + 1) '[' ++ t)) := ih (by omega) (by omega)
    exact hinner.bind _

/-- Brackets that are opened within each other are nested as deep as they are many. -/
theorem deeperThan_brackets {n : Nat} (h : levels < n) (t : Text) :
    DeeperThan levels (List.replicate n '[' ++ t) := by
  obtain ⟨n, rfl⟩ := Nat.exists_eq_add_of_le' (Nat.one_le_of_lt h)
  have hfuel : 2 * levels < 2 * (List.replicate (n + 1) '[' ++ t).length + 1 := by
    rw [List.length_append, List.length_replicate]
    omega
  have hread : Nests (readWithin levels (List.replicate (n + 1) '[' ++ t)) := (nests_brackets h hfuel t).bind _
  obtain ⟨kind, rest, hread⟩ := hread
  exact deeperThan_iff.2 ⟨_, kind, by rw [parseWithin_eq, hread]; rfl, rfl⟩

end Userscript.Json
