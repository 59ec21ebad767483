import Mathlib.Data.List.TakeDrop
import Userscript.Json.Printer
import Userscript.Json.Reader
import Userscript.Proofs.Number.Decimals

/-!
# Numbers written and read back

An integer that is not too long is read back as it was written. A floating-point number is always
written with a point, with an exponent or as a word, so it is read back as a floating-point number, and a
finite one as the same.

## Main definitions

* `Json.EndsNumber` — a text cannot go on with a number before it
* `Json.PointOrPower` — what makes a number a floating-point number
* `Json.Spells` — a text spells a decimal

## Main results

* `scalar_integer` — reading an integer that was written
* `spells_text`, `scalar_spells` — the written form of a decimal, and how it is read
* `exists_printDouble` — how a floating-point number is written
* `exists_scalar_printDouble` — reading a floating-point number that was written
-/

namespace Userscript.Json

open Text (natural isAsciiDigit)

variable {rest whole ds tail places : Text} {power : Int} {negative : Bool} {n : Nat} {c : Char}

/-- A text cannot go on with a number before it. -/
def EndsNumber (rest : Text) : Prop :=
  ∀ c, rest.head? = some c → isAsciiDigit c = false ∧ c ≠ '.' ∧ c ≠ 'e' ∧ c ≠ 'E'

/-- A text does not begin with a digit. -/
def EndsDigits (rest : Text) : Prop := ∀ c, rest.head? = some c → isAsciiDigit c = false

theorem EndsNumber.endsDigits (h : EndsNumber rest) : EndsDigits rest := fun c hc => (h c hc).1

theorem endsDigits_cons (h : isAsciiDigit c = false) (t : Text) : EndsDigits (c :: t) := by
  intro d hd
  obtain rfl : c = d := by simpa using hd
  exact h

theorem digits_append (hds : ∀ c ∈ ds, isAsciiDigit c) (htail : EndsDigits tail) :
    digits (ds ++ tail) = (ds, tail) := by
  rw [digits, List.span_eq_takeWhile_dropWhile]
  have htake : tail.takeWhile isAsciiDigit = [] := by
    cases tail with
    | nil => rfl
    | cons c t => simp [htail c rfl]
  have hdrop : tail.dropWhile isAsciiDigit = tail := by
    cases tail with
    | nil => rfl
    | cons c t => simp [htail c rfl]
  rw [List.takeWhile_append_of_pos hds, List.dropWhile_append_of_pos hds, htake, hdrop,
    List.append_nil]

/-! ### The parts of a number -/

theorem fraction_of_endsNumber (h : EndsNumber rest) : fraction rest = ([], rest) := by
  unfold fraction
  split
  · exact absurd rfl (h _ rfl).2.1
  · rfl

theorem exponent_of_endsNumber (h : EndsNumber rest) : exponent rest = (none, rest) := by
  unfold exponent
  cases rest with
  | nil => rfl
  | cons c t =>
    have hc := h c rfl
    simp [hc.2.2.1, hc.2.2.2]

theorem fraction_point (hne : ds ≠ []) (hds : ∀ c ∈ ds, isAsciiDigit c) (htail : EndsDigits tail) :
    fraction ('.' :: (ds ++ tail)) = (ds, tail) := by
  obtain ⟨d, u, rfl⟩ := List.exists_cons_of_ne_nil hne
  rw [fraction, digits_append hds htail]

/-- The power of ten with this sign and these digits. -/
def powerOf (sign : Char) (ds : Text) : Int :=
  if sign = '-' then -(Text.ofDigits ds : Int) else Text.ofDigits ds

theorem exponent_power (hne : ds ≠ []) (hds : ∀ c ∈ ds, isAsciiDigit c) (htail : EndsDigits tail)
    (sign : Char) (hsign : sign = '-' ∨ sign = '+') :
    exponent ('e' :: sign :: (ds ++ tail)) = (some (powerOf sign ds), tail) := by
  obtain ⟨d, u, rfl⟩ := List.exists_cons_of_ne_nil hne
  rcases hsign with rfl | rfl
  · simp only [exponent, Text.takeSign]
    rw [digits_append hds htail]
    rfl
  · simp only [exponent, Text.takeSign]
    rw [digits_append hds htail]
    rfl

/-- How a number is cut that begins with a digit, and with a zero only if that is its only one. -/
theorem number_append (hne : ds ≠ []) (hds : ∀ c ∈ ds, isAsciiDigit c)
    (hzero : ds = ['0'] ∨ ds.head? ≠ some '0') (htail : EndsDigits tail) :
    number whole negative (ds ++ tail) =
      if (fraction tail).1.isEmpty && (exponent (fraction tail).2).1.isNone then
        if Text.digitLimit < ds.length then .error ⟨.longInteger ds.length, whole⟩
        else
          .ok (.int (if negative then -(Text.ofDigits ds : Int) else Text.ofDigits ds),
            (exponent (fraction tail).2).2)
      else
        .ok (.double (.ofDecimal negative (Text.ofDigits (ds ++ (fraction tail).1))
          ((exponent (fraction tail).2).1.getD 0 - (fraction tail).1.length)),
          (exponent (fraction tail).2).2) := by
  have hempty : ds.isEmpty = false := by simpa using hne
  -- A zero is not followed by other digits, so it is read by itself.
  rcases hzero with rfl | hzero
  · rw [List.singleton_append, number]
    rfl
  · have hfirst : ∀ t, ds ++ tail = '0' :: t → False := by
      intro t ht
      obtain ⟨d, u, rfl⟩ := List.exists_cons_of_ne_nil hne
      exact hzero (congrArg some (List.cons.inj ht).1)
    rw [number, digits_append hds htail]
    · simp only [hempty, Bool.false_eq_true, if_false]
    · exact hfirst

/-! ### Integers -/

theorem natural_head (n : Nat) : natural n = ['0'] ∨ (natural n).head? ≠ some '0' := by
  rcases Nat.eq_zero_or_pos n with rfl | hn
  · exact .inl rfl
  · exact .inr (Text.head_natural hn)

theorem number_natural (h : EndsNumber rest) :
    number whole negative (natural n ++ rest) =
      if Text.digitLimit < (natural n).length then
        .error ⟨.longInteger (natural n).length, whole⟩
      else .ok (.int (if negative then -(n : Int) else n), rest) := by
  rw [number_append (Text.natural_ne_nil n) (fun c hc => Text.isAsciiDigit_of_mem_natural hc)
    (natural_head n) h.endsDigits, fraction_of_endsNumber h, exponent_of_endsNumber h,
    Text.ofDigits_natural]
  rfl

/-- A text that begins with a digit begins with no word. -/
theorem word?_of_isAsciiDigit (h : isAsciiDigit c) (t : Text) : word? (c :: t) = none := by
  have hne (d : Char) (hd : isAsciiDigit d = false) : d ≠ c := by
    rintro rfl
    rw [h] at hd
    cases hd
  simp [word?, words, Text.after?, hne 'n' (by decide), hne 't' (by decide), hne 'f' (by decide),
    hne 'N' (by decide), hne 'I' (by decide), hne '-' (by decide)]

theorem word?_minus (h : isAsciiDigit c) (t : Text) : word? ('-' :: c :: t) = none := by
  have hne : 'I' ≠ c := by
    rintro rfl
    exact absurd h (by decide)
  simp [word?, words, Text.after?, hne]

/-- A number without sign, and one behind its sign. -/
theorem scalar_of_isAsciiDigit (hne : ds ≠ []) (hds : ∀ c ∈ ds, isAsciiDigit c) (tail : Text)
    (negative : Bool) :
    scalar (Binary64.signText negative ++ (ds ++ tail)) =
      number (Binary64.signText negative ++ (ds ++ tail)) negative (ds ++ tail) := by
  obtain ⟨d, u, rfl⟩ := List.exists_cons_of_ne_nil hne
  have hd : isAsciiDigit d := hds d List.mem_cons_self
  have hminus : d ≠ '-' := by
    rintro rfl
    exact absurd hd (by decide)
  cases negative with
  | true => simp [scalar, Binary64.signText, word?_minus hd]
  | false => simp [scalar, Binary64.signText, word?_of_isAsciiDigit hd, hminus]

/-- How many digits an integer has. -/
def digitCount (n : Int) : Nat := (natural n.natAbs).length

/-- An integer is read as it was written, unless it is too long. -/
theorem scalar_integer (n : Int) (h : EndsNumber rest) :
    scalar (Text.integer n ++ rest) =
      if Text.digitLimit < digitCount n then
        .error ⟨.longInteger (digitCount n), Text.integer n ++ rest⟩
      else .ok (.int n, rest) := by
  have hdigits (m : Nat) : ∀ c ∈ natural m, isAsciiDigit c :=
    fun c hc => Text.isAsciiDigit_of_mem_natural hc
  cases n with
  | ofNat m =>
    have hscalar := scalar_of_isAsciiDigit (Text.natural_ne_nil m) (hdigits m) rest false
    rw [number_natural h] at hscalar
    exact hscalar
  | negSucc m =>
    have hscalar := scalar_of_isAsciiDigit (Text.natural_ne_nil (m + 1)) (hdigits (m + 1)) rest true
    rw [number_natural h] at hscalar
    exact hscalar

/-! ### Floating-point numbers -/

/-- What stands behind the whole part of a floating-point number: places behind a point, a power
of ten, or both. -/
inductive PointOrPower : Text → Int → Text → Prop
  | point {places : Text} (hne : places ≠ []) (hdigits : ∀ c ∈ places, isAsciiDigit c) :
    PointOrPower places 0 ('.' :: places)
  | power {sign : Char} {power : Text} (hsign : sign = '-' ∨ sign = '+') (hne : power ≠ [])
    (hdigits : ∀ c ∈ power, isAsciiDigit c) : PointOrPower [] (powerOf sign power) ('e' :: sign :: power)
  | both {places : Text} {sign : Char} {power : Text} (hplaces : places ≠ [])
    (hdigits : ∀ c ∈ places, isAsciiDigit c) (hsign : sign = '-' ∨ sign = '+') (hne : power ≠ [])
    (hpower : ∀ c ∈ power, isAsciiDigit c) :
    PointOrPower places (powerOf sign power) ('.' :: (places ++ 'e' :: sign :: power))

theorem PointOrPower.endsDigits (h : PointOrPower places power tail) (rest : Text) :
    EndsDigits (tail ++ rest) := by
  cases h with
  | point | power | both => exact endsDigits_cons (by decide) _

/-- The digits before and behind a point are read as one number, and each place counts against the power. -/
theorem number_pointOrPower (hne : ds ≠ []) (hds : ∀ c ∈ ds, isAsciiDigit c)
    (hzero : ds = ['0'] ∨ ds.head? ≠ some '0') (htail : PointOrPower places power tail) (h : EndsNumber rest) :
    number whole negative (ds ++ (tail ++ rest)) =
      .ok (.double (.ofDecimal negative (Text.ofDigits (ds ++ places)) (power - places.length)), rest) := by
  rw [number_append hne hds hzero (htail.endsDigits rest)]
  cases htail with
  | point hplaces hdigits =>
    rw [List.cons_append, fraction_point hplaces hdigits h.endsDigits, exponent_of_endsNumber h]
    simp [hplaces]
  | @power sign digits hsign hne hdigits =>
    have hpower := exponent_power hne hdigits h.endsDigits sign hsign
    have hfraction : fraction ('e' :: sign :: (digits ++ rest)) =
        ([], 'e' :: sign :: (digits ++ rest)) := rfl
    rw [List.cons_append, List.cons_append, hfraction, hpower]
    simp
  | @both places sign digits hplaces hdigits hsign hne hpower =>
    have hpower := exponent_power hne hpower h.endsDigits sign hsign
    have htail : '.' :: (places ++ 'e' :: sign :: digits) ++ rest =
        '.' :: (places ++ 'e' :: sign :: (digits ++ rest)) := by simp
    rw [htail, fraction_point hplaces hdigits (endsDigits_cons (by decide) _), hpower]
    simp

theorem isAsciiDigit_of_mem_replicate (h : c ∈ List.replicate n '0') : isAsciiDigit c := by
  rw [List.eq_of_mem_replicate h]
  decide

theorem forall_mem_zero : ∀ c ∈ ['0'], isAsciiDigit c :=
  List.forall_mem_singleton.2 (by decide)

/-- The digits before and behind the point of a decimal denote it, with the power behind them. -/
def Denotes (d : Binary64.Decimal) (ds places : Text) (power : Int) : Prop :=
  ∃ k : Nat, Text.ofDigits (ds ++ places) = d.digits * 10 ^ k ∧ power - places.length = d.exponent - k

theorem ofDecimal_of_denotes {d : Binary64.Decimal} (h : Denotes d ds places power) :
    Binary64.ofDecimal negative (Text.ofDigits (ds ++ places)) (power - places.length) =
      Binary64.ofDecimal negative d.digits d.exponent := by
  obtain ⟨k, hdigits, hpower⟩ := h
  rw [hdigits, hpower, Binary64.ofDecimal_scale]

/-- A text spells a decimal: digits, and behind them places, a power of ten or both. -/
inductive Spells (d : Binary64.Decimal) : Text → Prop
  | intro {ds places tail : Text} {power : Int} (hne : ds ≠ []) (hds : ∀ c ∈ ds, isAsciiDigit c)
    (hzero : ds = ['0'] ∨ ds.head? ≠ some '0') (htail : PointOrPower places power tail)
    (hdenotes : Denotes d ds places power) : Spells d (ds ++ tail)

section forms

variable {d : Binary64.Decimal} {first : Char} {others : Text} (hd : 0 < d.digits)
  (hnatural : natural d.digits = first :: others)

include hd hnatural

theorem digits_of_natural : first ≠ '0' ∧ ∀ c ∈ first :: others, isAsciiDigit c := by
  have hhead := Text.head_natural hd
  rw [hnatural] at hhead
  exact ⟨by simpa using hhead, fun c hc => Text.isAsciiDigit_of_mem_natural (hnatural ▸ hc)⟩

/-- The point stands before all the digits. -/
theorem spells_pointFirst {zeros : Nat} (hpoint : ((first :: others).length : Int) + d.exponent = -zeros) :
    Spells d ('0' :: '.' :: (List.replicate zeros '0' ++ first :: others)) := by
  obtain ⟨-, hdigits⟩ := digits_of_natural hd hnatural
  refine .intro (List.cons_ne_nil '0' []) forall_mem_zero (.inl rfl) (.point (by simp) ?_) ⟨0, ?_, ?_⟩
  · intro c hc
    rcases List.mem_append.1 hc with hc | hc
    · exact isAsciiDigit_of_mem_replicate hc
    · exact hdigits c hc
  · rw [← List.append_assoc, ← List.replicate_one, ← List.replicate_add, Text.ofDigits_zeros_append, ← hnatural,
      Text.ofDigits_natural, Nat.pow_zero, Nat.mul_one]
  · simp only [List.length_append, List.length_replicate]
    omega

/-- The point stands among the digits. -/
theorem spells_pointWithin {k : Nat} (hk : k < others.length)
    (hpoint : ((first :: others).length : Int) + d.exponent = k + 1) :
    Spells d (first :: others.take k ++ '.' :: others.drop k) := by
  obtain ⟨hzero, hdigits⟩ := digits_of_natural hd hnatural
  refine .intro (List.cons_ne_nil first _) ?_ (.inr (by simpa using hzero)) (.point ?_ ?_) ⟨0, ?_, ?_⟩
  · exact fun c hc => hdigits c (((List.take_sublist k others).cons_cons first).mem hc)
  · simpa using hk
  · exact fun c hc => hdigits c (List.mem_cons_of_mem first (List.mem_of_mem_drop hc))
  · rw [List.cons_append, List.take_append_drop, ← hnatural, Text.ofDigits_natural, Nat.pow_zero, Nat.mul_one]
  · rw [List.length_cons] at hpoint
    rw [List.length_drop]
    omega

/-- The point stands behind all the digits and some zeros. -/
theorem spells_pointLast {zeros : Nat} (hexponent : d.exponent = zeros) :
    Spells d (first :: others ++ List.replicate zeros '0' ++ ['.', '0']) := by
  obtain ⟨hzero, hdigits⟩ := digits_of_natural hd hnatural
  refine .intro (by simp) ?_ (.inr (by simpa using hzero)) (.point (List.cons_ne_nil '0' []) forall_mem_zero)
    ⟨zeros + 1, ?_, ?_⟩
  · intro c hc
    rcases List.mem_append.1 hc with hc | hc
    · exact hdigits c hc
    · exact isAsciiDigit_of_mem_replicate hc
  · rw [List.append_assoc, ← List.replicate_succ', ← hnatural, ← Text.natural_mul_pow hd, Text.ofDigits_natural]
  · simp only [List.length_singleton]
    omega

/-- One digit stands before the point, and a power of ten behind the places. -/
theorem spells_power {point : Int} {ds : Text} {sign : Char}
    (hpoint : ((first :: others).length : Int) + d.exponent - 1 = point) (hne : ds ≠ [])
    (hds : ∀ c ∈ ds, isAsciiDigit c) (hsign : sign = '-' ∨ sign = '+') (hpower : powerOf sign ds = point) :
    Spells d ([first] ++ (if others = [] then [] else '.' :: others) ++ 'e' :: sign :: ds) := by
  obtain ⟨hzero, hdigits⟩ := digits_of_natural hd hnatural
  have hone : ∀ c ∈ [first], isAsciiDigit c := List.forall_mem_singleton.2 (hdigits first List.mem_cons_self)
  have hothers : ∀ c ∈ others, isAsciiDigit c := fun c hc => hdigits c (List.mem_cons_of_mem first hc)
  have hdenotes : Denotes d [first] others (powerOf sign ds) := by
    refine ⟨0, ?_, ?_⟩
    · rw [List.singleton_append, ← hnatural, Text.ofDigits_natural, Nat.pow_zero, Nat.mul_one]
    · rw [List.length_cons] at hpoint
      omega
  rw [List.append_assoc]
  refine .intro (by simp) hone (.inr (by simpa using hzero)) ?_ hdenotes
  split
  · next hnone =>
    subst hnone
    exact .power hsign hne hds
  · next hsome => exact .both hsome hothers hsign hne hds

/-- A point that stands behind a digit is written among the digits, or behind zeros that fill the places. -/
theorem spells_point {k : Nat} (hpoint : ((first :: others).length : Int) + d.exponent = k + 1) :
    Spells d (first :: others.take k ++ List.replicate (k + 1 - (first :: others).length) '0' ++
      '.' :: if (others.drop k).isEmpty then ['0'] else others.drop k) := by
  rw [List.length_cons] at hpoint ⊢
  by_cases hwithin : k < others.length
  · have hzeros : k + 1 - (others.length + 1) = 0 := by omega
    have hplaces : (others.drop k).isEmpty = false := by simpa using hwithin
    rw [hzeros, hplaces, List.replicate_zero, List.append_nil]
    exact spells_pointWithin hd hnatural hwithin (by rw [List.length_cons]; omega)
  · have hplaces : (others.drop k).isEmpty = true := by simpa using hwithin
    rw [hplaces, List.take_of_length_le (by omega)]
    exact spells_pointLast hd hnatural (by omega)

/-- A power of ten is written with its sign and at least two digits. -/
theorem spells_exponent {point : Int} (hpoint : ((first :: others).length : Int) + d.exponent - 1 = point) :
    Spells d ([first] ++ (if others = [] then [] else '.' :: others) ++
      'e' :: (if point < 0 then '-' else '+') ::
        (List.replicate (2 - (natural point.natAbs).length) '0' ++ natural point.natAbs)) := by
  generalize hsign : (if point < 0 then '-' else '+') = sign
  have hpower : ∀ c ∈ List.replicate (2 - (natural point.natAbs).length) '0' ++ natural point.natAbs,
      isAsciiDigit c := by
    intro c hc
    rcases List.mem_append.1 hc with hc | hc
    · exact isAsciiDigit_of_mem_replicate hc
    · exact Text.isAsciiDigit_of_mem_natural hc
  have hsigns : sign = '-' ∨ sign = '+' := by
    rw [← hsign]
    split
    · exact .inl rfl
    · exact .inr rfl
  have hvalue : powerOf sign (List.replicate (2 - (natural point.natAbs).length) '0' ++ natural point.natAbs) =
      point := by
    rw [powerOf, Text.ofDigits_zeros_append, Text.ofDigits_natural, ← hsign]
    split_ifs <;> first | omega | contradiction
  exact spells_power hd hnatural hpoint (by simp [Text.natural_ne_nil]) hpower hsigns hvalue

end forms

/-- The written form of a decimal spells it. -/
theorem spells_text (d : Binary64.Decimal) (hd : 0 < d.digits) : Spells d d.text := by
  obtain ⟨first, others, hnatural⟩ := List.exists_cons_of_ne_nil (Text.natural_ne_nil d.digits)
  rw [Binary64.Decimal.text]
  dsimp only
  rw [hnatural]
  split
  · split
    · next hpoint => exact spells_pointFirst hd hnatural (by omega)
    · next hpoint =>
      obtain ⟨k, hk⟩ : ∃ k : Nat, ((first :: others).length : Int) + d.exponent = k + 1 :=
        ⟨(((first :: others).length : Int) + d.exponent - 1).toNat, by omega⟩
      have htoNat : ((k : Int) + 1).toNat = k + 1 := by omega
      rw [hk, htoNat, List.take_succ_cons, List.drop_succ_cons]
      exact spells_point hd hnatural hk
  · have hempty : (if (first :: others).length = 1 then [] else '.' :: (first :: others).drop 1) =
        if others = [] then [] else '.' :: others := by cases others <;> simp
    rw [hempty]
    simpa only [List.append_assoc, List.cons_append, List.nil_append, List.take_succ_cons, List.take_zero]
      using spells_exponent hd hnatural rfl

theorem digits_normalize_pos (d : Binary64.Decimal) (hd : 0 < d.digits) : 0 < d.normalize.digits := by
  rw [Binary64.Decimal.normalize, if_neg (by omega)]
  exact Nat.div_pos (Nat.le_of_dvd hd (Text.pow_dvd_of_zeros hd)) (Nat.pow_pos (by decide))

/-- No decimal with the digits zero reads back as a number other than zero. -/
theorem digits_onGrid?_pos {negative : Bool} {mantissa num den : Nat} {exponent exponent' : Int}
    {d : Binary64.Decimal} (h : 0 < mantissa)
    (hd : Binary64.onGrid? (.finite negative mantissa exponent) negative num den exponent' = some d) :
    0 < d.digits := by
  have hreads := Binary64.ofDecimal_of_onGrid? hd
  refine Nat.pos_of_ne_zero fun hzero => ?_
  rw [hzero, Binary64.ofDecimal, if_pos (.inl rfl), Binary64.signedZero] at hreads
  cases hreads
  exact absurd h (by decide)

theorem digits_shortest_pos (negative : Bool) {mantissa : Nat} (h : 0 < mantissa) (exponent : Int) :
    0 < (Binary64.shortest negative mantissa exponent).digits := by
  rw [Binary64.shortest]
  dsimp only
  refine digits_normalize_pos _ ?_
  have hnum : 0 < (Binary64.fraction mantissa exponent).1 := by
    rw [Binary64.fraction, Nat.shiftLeft_eq]
    exact Nat.mul_pos h (Nat.pow_pos (by decide))
  generalize hfound : List.findSome? _ _ = found
  cases found with
  | none => exact Nat.mul_pos hnum (Nat.pow_pos (by decide : 0 < 5))
  | some d =>
    obtain ⟨n, -, hgrid⟩ := List.exists_of_findSome?_eq_some hfound
    exact digits_onGrid?_pos h hgrid

/-- How a floating-point number is written. A finite one is written as a decimal that reads back. -/
theorem exists_printDouble (x : Binary64) :
    (x = .nan ∧ printDouble x = "NaN".toList) ∨
      (∃ negative, x = .infinite negative ∧ printDouble x = Binary64.signText negative ++ "Infinity".toList) ∨
      ∃ negative d t, Spells d t ∧ printDouble x = Binary64.signText negative ++ t ∧
        (x.IsFinite → Binary64.ofDecimal negative d.digits d.exponent = x) := by
  cases x with
  | nan => exact .inl ⟨rfl, rfl⟩
  | infinite negative => exact .inr (.inl ⟨negative, rfl, rfl⟩)
  | finite negative mantissa exponent =>
    have hprint : printDouble (.finite negative mantissa exponent) =
        Binary64.signText negative ++ (if mantissa = 0 then "0.0".toList
          else (Binary64.shortest negative mantissa exponent).text) := rfl
    refine .inr (.inr ?_)
    rw [hprint]
    by_cases hm : mantissa = 0
    · rw [if_pos hm]
      have hspells : Spells ⟨0, 0⟩ (['0'] ++ ['.', '0']) :=
        .intro (by simp) forall_mem_zero (.inl rfl) (.point (by simp) forall_mem_zero) ⟨1, rfl, rfl⟩
      refine ⟨negative, _, _, hspells, rfl, ?_⟩
      rintro ⟨_, _, _, hx, hfits⟩
      cases hx
      -- Zero has the least exponent.
      rw [hm] at hfits ⊢
      rw [hfits.2.2.2.resolve_left (by decide)]
      rfl
    · rw [if_neg hm]
      have hpos := Nat.pos_of_ne_zero hm
      refine ⟨negative, _, _, spells_text _ (digits_shortest_pos negative hpos exponent), rfl, ?_⟩
      rintro ⟨_, _, _, hx, hfits⟩
      cases hx
      exact Binary64.ofDecimal_shortest negative hfits hpos

/-- A decimal is read from each text that spells it. -/
theorem scalar_spells {d : Binary64.Decimal} {t : Text} (ht : Spells d t) (h : EndsNumber rest) :
    scalar (Binary64.signText negative ++ (t ++ rest)) =
      .ok (.double (.ofDecimal negative d.digits d.exponent), rest) := by
  cases ht with
  | intro hne hds hzero htail hdenotes =>
    rw [List.append_assoc, scalar_of_isAsciiDigit hne hds, number_pointOrPower hne hds hzero htail h,
      ofDecimal_of_denotes hdenotes]

/-- A floating-point number is read as one, and a finite one as itself. -/
theorem exists_scalar_printDouble (x : Binary64) (h : EndsNumber rest) :
    ∃ y, scalar (printDouble x ++ rest) = .ok (.double y, rest) ∧ (x.IsFinite → y = x) := by
  rcases exists_printDouble x with ⟨rfl, -⟩ | ⟨negative, rfl, -⟩ | ⟨negative, d, t, ht, htext, hreads⟩
  · exact ⟨.nan, rfl, fun _ => rfl⟩
  · refine ⟨.infinite negative, ?_, fun _ => rfl⟩
    cases negative <;> rfl
  · rw [htext, List.append_assoc]
    exact ⟨_, scalar_spells ht h, hreads⟩

/-- A character of a floating-point number. -/
def isOfDouble (c : Char) : Bool := isAsciiDigit c || ".e+-NaInfity".toList.contains c

theorem isOfDouble_of_digit (h : isAsciiDigit c) : isOfDouble c := by
  simp [isOfDouble, h]

theorem PointOrPower.isOfDouble (h : PointOrPower places power tail) : ∀ c ∈ tail, Json.isOfDouble c := by
  intro c hc
  cases h with
  | point hne hdigits =>
    rcases List.mem_cons.1 hc with rfl | hc
    · decide
    · exact isOfDouble_of_digit (hdigits c hc)
  | power hsign hne hdigits =>
    rcases List.mem_cons.1 hc with rfl | hc
    · decide
    rcases List.mem_cons.1 hc with rfl | hc
    · rcases hsign with rfl | rfl <;> decide
    · exact isOfDouble_of_digit (hdigits c hc)
  | both hplaces hdigits hsign hne hpower =>
    rcases List.mem_cons.1 hc with rfl | hc
    · decide
    rcases List.mem_append.1 hc with hc | hc
    · exact isOfDouble_of_digit (hdigits c hc)
    rcases List.mem_cons.1 hc with rfl | hc
    · decide
    rcases List.mem_cons.1 hc with rfl | hc
    · rcases hsign with rfl | rfl <;> decide
    · exact isOfDouble_of_digit (hpower c hc)

theorem Spells.isOfDouble {d : Binary64.Decimal} {t : Text} (h : Spells d t) : ∀ c ∈ t, Json.isOfDouble c := by
  cases h with
  | intro hne hds hzero htail hdenotes =>
    intro c hc
    rcases List.mem_append.1 hc with hc | hc
    · exact isOfDouble_of_digit (hds c hc)
    · exact htail.isOfDouble c hc

theorem Spells.ne_nil {d : Binary64.Decimal} {t : Text} (h : Spells d t) : t ≠ [] := by
  cases h with
  | intro hne => exact List.append_ne_nil_of_left_ne_nil hne _

theorem isOfDouble_of_mem_printDouble {x : Binary64} (h : c ∈ printDouble x) : isOfDouble c := by
  have hsign (negative : Bool) (hc : c ∈ Binary64.signText negative) : isOfDouble c := by
    cases negative with
    | false => simp [Binary64.signText] at hc
    | true =>
      rw [List.mem_singleton.1 hc]
      decide
  rcases exists_printDouble x with ⟨-, hnan⟩ | ⟨negative, -, hinf⟩ | ⟨negative, d, t, ht, htext, -⟩
  · rw [hnan] at h
    have hall : "NaN".toList.all isOfDouble := by decide
    exact List.all_eq_true.1 hall c h
  · rw [hinf] at h
    have hall : "Infinity".toList.all isOfDouble := by decide
    exact (List.mem_append.1 h).elim (hsign negative) (List.all_eq_true.1 hall c)
  · rw [htext] at h
    exact (List.mem_append.1 h).elim (hsign negative) (ht.isOfDouble c)

theorem printDouble_ne_nil (x : Binary64) : printDouble x ≠ [] := by
  rcases exists_printDouble x with ⟨-, hnan⟩ | ⟨negative, -, hinf⟩ | ⟨negative, d, t, ht, htext, -⟩
  · rw [hnan]
    decide
  · rw [hinf]
    simp
  · rw [htext]
    simp [ht.ne_nil]

end Userscript.Json
