import Userscript.Number.Decimal
import Userscript.Proofs.Number.Rounding
import Userscript.Proofs.Text.Digits

/-!
# Decimals that read back

A decimal is read by its value, however many zeros its digits end with. The shortest decimal of a number of the
format reads back as that number.

## Main results

* `ofDecimal_scale` — zeros at the end of the digits do not matter
* `ofDecimal_of_fits` — a number of the format is read from its exact value
* `ofDecimal_shortest` — the shortest decimal of a number of the format reads back
-/

namespace Userscript.Binary64

open Text (natural)

variable {negative : Bool} {mantissa digits : Nat} {exponent power : Int}

/-- Zeros at the end of the digits do not matter if the power of ten makes up for them. -/
theorem ofDecimal_scale (negative : Bool) (digits k : Nat) (power : Int) :
    ofDecimal negative (digits * 10 ^ k) (power - k) = ofDecimal negative digits power := by
  rcases Nat.eq_zero_or_pos digits with rfl | hpos
  · simp [ofDecimal]
  · have hten (n : Nat) : 0 < 10 ^ n := Nat.pow_pos (by decide)
    have hlength : ((natural (digits * 10 ^ k)).length : Int) + (power - k) = (natural digits).length + power := by
      rw [Text.natural_mul_pow hpos, List.length_append, List.length_replicate]
      omega
    have hzero : digits * 10 ^ k = 0 ↔ digits = 0 := iff_of_false (Nat.mul_pos hpos (hten k)).ne' hpos.ne'
    unfold ofDecimal
    rw [hlength]
    simp only [hzero, Nat.pow_eq]
    have hround : round negative (digits * 10 ^ k * 10 ^ (power - k).toNat) (10 ^ (-(power - k)).toNat) =
        round negative (digits * 10 ^ power.toNat) (10 ^ (-power).toNat) := by
      refine round_congr (hten _) (hten _) ?_
      have hexponents : k + (power - k).toNat + (-power).toNat = power.toNat + (-(power - k)).toNat := by omega
      rw [Nat.mul_assoc digits, Nat.mul_assoc digits, Nat.mul_assoc digits, ← Nat.pow_add, ← Nat.pow_add,
        ← Nat.pow_add, hexponents]
    rw [hround]

/-- The terms of the fraction that a decimal stands for. -/
theorem value_decimal (digits : Nat) (power : Int) :
    ((digits * 10 ^ power.toNat : Nat) : ℚ) / (10 ^ (-power).toNat : Nat) = digits * 10 ^ power := by
  rcases le_total 0 power with hsign | hsign
  · obtain ⟨k, rfl⟩ := Int.eq_ofNat_of_zero_le hsign
    simp
  · obtain ⟨k, rfl⟩ := Int.exists_eq_neg_ofNat hsign
    simp [div_eq_mul_inv]

/-! ### How large decimals and numbers of the format are -/

/-- A decimal is less than the power of ten that its digits reach up to. -/
theorem decimal_lt (digits : Nat) (power : Int) :
    (digits : ℚ) * 10 ^ power < 10 ^ ((natural digits).length + power) := by
  have hcount : (digits : ℚ) < 10 ^ ((natural digits).length : Int) := by
    rw [zpow_natCast]
    exact_mod_cast Text.lt_pow_length_natural digits
  calc (digits : ℚ) * 10 ^ power
      < 10 ^ ((natural digits).length : Int) * 10 ^ power := mul_lt_mul_of_pos_right hcount (by positivity)
    _ = 10 ^ ((natural digits).length + power) := (zpow_add₀ (by norm_num) _ _).symm

/-- A decimal is at least the power of ten of its first digit. -/
theorem le_decimal (hdigits : 0 < digits) (power : Int) :
    (10 : ℚ) ^ (((natural digits).length : Int) - 1 + power) ≤ digits * 10 ^ power := by
  have hcount : (10 : ℚ) ^ (((natural digits).length : Int) - 1) ≤ digits := by
    have hlength : 0 < (natural digits).length := List.length_pos_iff.2 (Text.natural_ne_nil digits)
    have hone : ((natural digits).length : Int) - 1 = ((natural digits).length - 1 : Nat) := by omega
    rw [hone, zpow_natCast]
    exact_mod_cast Text.pow_length_natural_le hdigits
  calc (10 : ℚ) ^ (((natural digits).length : Int) - 1 + power)
      = 10 ^ (((natural digits).length : Int) - 1) * 10 ^ power := zpow_add₀ (by norm_num) _ _
    _ ≤ digits * 10 ^ power := mul_le_mul_of_nonneg_right hcount (by positivity)

section fits

variable (hfits : Fits mantissa exponent)

include hfits

theorem Fits.le_value (hpos : 0 < mantissa) : (2 : ℚ) ^ (-1074 : Int) ≤ mantissa * 2 ^ exponent := by
  obtain ⟨-, hmin, -, -⟩ := hfits
  calc (2 : ℚ) ^ (-1074 : Int)
      ≤ 2 ^ exponent := zpow_le_zpow_right₀ (by norm_num) hmin
    _ ≤ mantissa * 2 ^ exponent := le_mul_of_one_le_left (by positivity) (by exact_mod_cast hpos)

theorem Fits.value_lt : (mantissa : ℚ) * 2 ^ exponent < 2 ^ (1024 : Int) := by
  obtain ⟨hlt, -, hmax, -⟩ := hfits
  calc (mantissa : ℚ) * 2 ^ exponent
      < 2 ^ (53 : Int) * 2 ^ exponent := mul_lt_mul_of_pos_right (by exact_mod_cast hlt) (by positivity)
    _ ≤ 2 ^ (53 : Int) * 2 ^ (971 : Int) :=
      mul_le_mul_of_nonneg_left (zpow_le_zpow_right₀ (by norm_num) hmax) (by positivity)
    _ = 2 ^ (1024 : Int) := by rw [← zpow_add₀ (by norm_num)]; norm_num

end fits

/-- A decimal for a number other than zero has digits. -/
theorem digits_pos (hpos : 0 < mantissa) (h : (digits : ℚ) * 10 ^ power = mantissa * 2 ^ exponent) :
    0 < digits := by
  refine Nat.pos_of_ne_zero ?_
  rintro rfl
  have hne : (mantissa : ℚ) * 2 ^ exponent ≠ 0 := by positivity
  exact hne (by rw [← h, Nat.cast_zero, zero_mul])

/-- A number of the format is within the powers of ten that are computed. -/
theorem magnitude_of_fits (hfits : Fits mantissa exponent) (hpos : 0 < mantissa)
    (h : (digits : ℚ) * 10 ^ power = mantissa * 2 ^ exponent) :
    ¬ ((natural digits).length + power < -330) ∧ ¬ (310 < (natural digits).length + power) := by
  constructor
  · intro hsmall
    -- There is no number of the format below this power of ten.
    have hcompare : (10 : ℚ) ^ (-330 : Int) < 2 ^ (-1074 : Int) := by
      have hpowers : 2 ^ 1074 < 10 ^ 330 := by decide +kernel
      rw [zpow_neg, zpow_neg]
      exact (inv_lt_inv₀ (by positivity) (by positivity)).2 (by exact_mod_cast hpowers)
    have hbelow : (mantissa : ℚ) * 2 ^ exponent < 2 ^ (-1074 : Int) := by
      calc (mantissa : ℚ) * 2 ^ exponent
          = digits * 10 ^ power := h.symm
        _ < 10 ^ ((natural digits).length + power) := decimal_lt digits power
        _ ≤ 10 ^ (-330 : Int) := zpow_le_zpow_right₀ (by norm_num) hsmall.le
        _ < 2 ^ (-1074 : Int) := hcompare
    exact absurd (hfits.le_value hpos) (not_le.2 hbelow)
  · intro hlarge
    -- There is none beyond this one either.
    have hcompare : (2 : ℚ) ^ (1024 : Int) < 10 ^ (310 : Int) := by
      have hpowers : 2 ^ 1024 < 10 ^ 310 := by decide +kernel
      exact_mod_cast hpowers
    have habove : (2 : ℚ) ^ (1024 : Int) < mantissa * 2 ^ exponent := by
      calc (2 : ℚ) ^ (1024 : Int)
          < 10 ^ (310 : Int) := hcompare
        _ ≤ 10 ^ (((natural digits).length : Int) - 1 + power) := zpow_le_zpow_right₀ (by norm_num) (by omega)
        _ ≤ digits * 10 ^ power := le_decimal (digits_pos hpos h) power
        _ = mantissa * 2 ^ exponent := h
    exact absurd hfits.value_lt (not_lt.2 habove.le)

/-- A number of the format is read from each decimal that is its exact value. -/
theorem ofDecimal_of_fits (hfits : Fits mantissa exponent) (hpos : 0 < mantissa)
    (h : (digits : ℚ) * 10 ^ power = mantissa * 2 ^ exponent) :
    ofDecimal negative digits power = .finite negative mantissa exponent := by
  obtain ⟨hsmall, hlarge⟩ := magnitude_of_fits hfits hpos h
  unfold ofDecimal
  dsimp only
  rw [if_neg (not_or.2 ⟨(digits_pos hpos h).ne', hsmall⟩), if_neg hlarge]
  refine round_of_fits hfits hpos (Nat.pow_pos (by decide)) ?_
  rw [← h, Nat.pow_eq, Nat.pow_eq, value_decimal]

/-! ### The shortest decimal -/

theorem ofDecimal_normalize (negative : Bool) (d : Decimal) :
    ofDecimal negative d.normalize.digits d.normalize.exponent = ofDecimal negative d.digits d.exponent := by
  unfold Decimal.normalize
  dsimp only
  split
  · rfl
  · next hd =>
    obtain ⟨q, hq⟩ := Text.pow_dvd_of_zeros (Nat.pos_of_ne_zero hd)
    generalize ((natural d.digits).reverse.takeWhile (· == '0')).length = zeros at hq ⊢
    have hscale := ofDecimal_scale negative q zeros (d.exponent + zeros)
    rw [Nat.pow_eq, hq, Nat.mul_div_cancel_left _ (Nat.pow_pos (by decide)), Nat.mul_comm, ← hscale,
      add_sub_cancel_right]

/-- A decimal on a grid is taken only if it reads back. -/
theorem ofDecimal_of_onGrid? {x : Binary64} {num den : Nat} {d : Decimal}
    (h : onGrid? x negative num den exponent = some d) : ofDecimal negative d.digits d.exponent = x := by
  simp only [onGrid?, Option.map_eq_some_iff] at h
  obtain ⟨digits, hdigits, rfl⟩ := h
  have hreads := List.find?_some hdigits
  exact beq_iff_eq.1 hreads

/-- The terms of the fraction that a number of the format stands for. -/
theorem value_fraction (mantissa : Nat) (exponent : Int) :
    (((fraction mantissa exponent).1 * 5 ^ (-exponent).toNat : Nat) : ℚ) * 10 ^ min exponent 0 =
      mantissa * 2 ^ exponent := by
  unfold fraction
  rw [Nat.shiftLeft_eq]
  rcases le_total 0 exponent with hsign | hsign
  · obtain ⟨k, rfl⟩ := Int.eq_ofNat_of_zero_le hsign
    simp
  · obtain ⟨k, rfl⟩ := Int.exists_eq_neg_ofNat hsign
    have hten : (10 : ℚ) ^ k = 2 ^ k * 5 ^ k := by rw [← mul_pow]; norm_num
    simp [hten]
    field_simp

/-- The shortest decimal of a number of the format reads back as that number. -/
theorem ofDecimal_shortest (negative : Bool) (hfits : Fits mantissa exponent) (hpos : 0 < mantissa) :
    ofDecimal negative (shortest negative mantissa exponent).digits (shortest negative mantissa exponent).exponent =
      .finite negative mantissa exponent := by
  unfold shortest
  dsimp only
  rw [ofDecimal_normalize]
  generalize hfound : List.findSome? _ _ = found
  cases found with
  | none => exact ofDecimal_of_fits hfits hpos (value_fraction mantissa exponent)
  | some d =>
    obtain ⟨n, -, hgrid⟩ := List.exists_of_findSome?_eq_some hfound
    exact ofDecimal_of_onGrid? hgrid

end Userscript.Binary64
