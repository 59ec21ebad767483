import Mathlib.Algebra.Order.Field.Power
import Mathlib.Data.Int.Log
import Mathlib.Data.Rat.Floor
import Mathlib.Tactic.FieldSimp
import Mathlib.Tactic.Linarith
import Mathlib.Tactic.NormNum
import Mathlib.Tactic.Positivity
import Userscript.Number.Binary64

/-!
# Rounding to a binary floating-point number

What a fraction is rounded to depends on its value and not on its terms, and a number of the format is rounded to
itself.

## Main definitions

* `Binary64.Fits` — a mantissa and an exponent are those of a number of the format
* `Binary64.IsFinite` — the finite numbers of the format

## Main results

* `floorLog2_eq_log` — the exponent of a fraction is its logarithm
* `round_congr` — equal fractions are rounded alike
* `round_of_fits` — a number of the format is not changed by rounding
-/

namespace Userscript

variable {num den num' den' : Nat}

theorem roundDiv_mul_mul {k : Nat} (num den : Nat) (hk : 0 < k) : roundDiv (num * k) (den * k) = roundDiv num den := by
  have htwice : 2 * (num % den * k) = 2 * (num % den) * k := (Nat.mul_assoc _ _ _).symm
  simp only [roundDiv, Nat.mul_div_mul_right _ _ hk, Nat.mul_mod_mul_right, htwice, Nat.mul_lt_mul_right hk,
    Nat.mul_left_inj hk.ne']

/-- Equal quotients are rounded alike. -/
theorem roundDiv_congr (hden : 0 < den) (hden' : 0 < den') (h : num * den' = num' * den) :
    roundDiv num den = roundDiv num' den' := by
  rw [← roundDiv_mul_mul num den hden', h, Nat.mul_comm den, roundDiv_mul_mul num' den' hden]

namespace Binary64

/-- A number with a mantissa of at most 53 bits, which are all taken up unless the exponent is the least one. -/
def Fits (mantissa : Nat) (exponent : Int) : Prop :=
  mantissa < 2 ^ precision ∧ minExponent ≤ exponent ∧ exponent ≤ maxExponent ∧
    (2 ^ (precision - 1) ≤ mantissa ∨ exponent = minExponent)

instance (mantissa : Nat) (exponent : Int) : Decidable (Fits mantissa exponent) :=
  inferInstanceAs (Decidable (_ ∧ _ ∧ _ ∧ _))

/-- A finite number of the format. -/
def IsFinite (x : Binary64) : Prop :=
  ∃ negative mantissa exponent, x = .finite negative mantissa exponent ∧ Fits mantissa exponent

/-! ### The exponent of a fraction -/

/-- The logarithm, rounded down, is the one exponent of two that a number lies above and the next does not. -/
theorem eq_log_two {q : ℚ} {k : Int} (hle : (2 : ℚ) ^ k ≤ q) (hlt : q < 2 ^ (k + 1)) : k = Int.log 2 q := by
  have hpos : 0 < q := lt_of_lt_of_le (by positivity) hle
  have hle : k ≤ Int.log 2 q := (Int.zpow_le_iff_le_log Nat.one_lt_two hpos).1 (by rwa [Nat.cast_ofNat])
  have hlt : Int.log 2 q < k + 1 := (Int.lt_zpow_iff_log_lt Nat.one_lt_two hpos).1 (by rwa [Nat.cast_ofNat])
  omega

theorem two_zpow_sub (a b : Nat) : (2 : ℚ) ^ ((a : Int) - b) = (2 ^ a : Nat) / (2 ^ b : Nat) := by
  rw [zpow_sub₀ (by norm_num), zpow_natCast, zpow_natCast]
  norm_cast

/-- A power of two is at most a fraction, multiplied out. -/
theorem two_zpow_sub_le_iff (hden : 0 < den) (a b : Nat) :
    (2 : ℚ) ^ ((a : Int) - b) ≤ num / den ↔ 2 ^ a * den ≤ num * 2 ^ b := by
  rw [two_zpow_sub, div_le_div_iff₀ (by positivity) (by exact_mod_cast hden)]
  exact_mod_cast Iff.rfl

theorem lt_two_zpow_sub_iff (hden : 0 < den) (a b : Nat) :
    (num : ℚ) / den < 2 ^ ((a : Int) - b) ↔ num * 2 ^ b < 2 ^ a * den := by
  rw [two_zpow_sub, div_lt_div_iff₀ (by exact_mod_cast hden) (by positivity)]
  exact_mod_cast Iff.rfl

/-- The exponent of a fraction is its logarithm, rounded down. -/
theorem floorLog2_eq_log (hnum : 0 < num) (hden : 0 < den) :
    floorLog2 num den = Int.log 2 ((num : ℚ) / den) := by
  have hup := Nat.log2_self_le hnum.ne'
  have hup' := Nat.lt_log2_self (n := num)
  have hdown := Nat.log2_self_le hden.ne'
  have hdown' := Nat.lt_log2_self (n := den)
  unfold floorLog2
  simp only [Nat.shiftLeft_eq]
  -- The difference of the two logarithms is the exponent, or it is one too large.
  split
  · next hlt =>
    refine eq_log_two ?_ ?_
    · have hexponent : (num.log2 : Int) - den.log2 - 1 = num.log2 - (den.log2 + 1 : Nat) := by omega
      rw [hexponent, two_zpow_sub_le_iff hden]
      exact Nat.mul_le_mul hup hdown'.le
    · have hexponent : (num.log2 : Int) - den.log2 - 1 + 1 = num.log2 - den.log2 := by omega
      rwa [hexponent, lt_two_zpow_sub_iff hden, Nat.mul_comm (2 ^ _)]
  · next hle =>
    refine eq_log_two ?_ ?_
    · rw [two_zpow_sub_le_iff hden, Nat.mul_comm (2 ^ _)]
      exact Nat.not_lt.1 hle
    · have hexponent : (num.log2 : Int) - den.log2 + 1 = (num.log2 + 1 : Nat) - den.log2 := by omega
      rw [hexponent, lt_two_zpow_sub_iff hden]
      exact Nat.mul_lt_mul_of_lt_of_le hup' hdown (by positivity)

theorem floorLog2_congr (hnum : 0 < num) (hden : 0 < den) (hnum' : 0 < num') (hden' : 0 < den')
    (h : num * den' = num' * den) : floorLog2 num den = floorLog2 num' den' := by
  have hvalue : (num : ℚ) / den = num' / den' := by
    rw [div_eq_div_iff (by positivity) (by positivity)]
    exact_mod_cast h
  rw [floorLog2_eq_log hnum hden, floorLog2_eq_log hnum' hden', hvalue]

/-! ### Rounding -/

/-- Equal fractions are rounded alike. -/
theorem round_congr {negative : Bool} (hden : 0 < den) (hden' : 0 < den') (h : num * den' = num' * den) :
    round negative num den = round negative num' den' := by
  unfold round
  by_cases hnum : num = 0
  · have hnum' : num' = 0 := by
      rw [hnum, Nat.zero_mul] at h
      exact (Nat.mul_eq_zero.1 h.symm).resolve_right hden.ne'
    rw [if_pos hnum, if_pos hnum']
  · have hnum' : num' ≠ 0 := by
      rintro rfl
      rw [Nat.zero_mul] at h
      exact hnum ((Nat.mul_eq_zero.1 h).resolve_right hden'.ne')
    rw [if_neg hnum, if_neg hnum',
      floorLog2_congr (Nat.pos_of_ne_zero hnum) hden (Nat.pos_of_ne_zero hnum') hden' h]
    -- Both fractions are scaled by the same power of two.
    generalize max minExponent _ = e
    have hshift (n : Nat) : 0 < 2 ^ n := by positivity
    have hlarge : roundDiv num (den <<< e.toNat) = roundDiv num' (den' <<< e.toNat) := by
      rw [Nat.shiftLeft_eq, Nat.shiftLeft_eq]
      refine roundDiv_congr (Nat.mul_pos hden (hshift _)) (Nat.mul_pos hden' (hshift _)) ?_
      rw [← Nat.mul_assoc, ← Nat.mul_assoc, h]
    have hsmall : roundDiv (num <<< (-e).toNat) den = roundDiv (num' <<< (-e).toNat) den' := by
      rw [Nat.shiftLeft_eq, Nat.shiftLeft_eq]
      refine roundDiv_congr hden hden' ?_
      rw [Nat.mul_right_comm, h, Nat.mul_right_comm]
    dsimp only
    rw [hlarge, hsmall]

/-- The exponent of a number of the format is the one that rounding gives it. -/
theorem Fits.exponent_eq {mantissa : Nat} {exponent : Int} (h : Fits mantissa exponent) (hpos : 0 < mantissa) :
    max minExponent (Int.log 2 ((mantissa : ℚ) * 2 ^ exponent) - (precision - 1)) = exponent := by
  obtain ⟨hlt, hmin, -, hfull⟩ := h
  have htwo : (2 : ℚ) ≠ 0 := by norm_num
  have hvalue : (0 : ℚ) < mantissa * 2 ^ exponent := by positivity
  have hpower (n : Nat) : (2 : ℚ) ^ (n + exponent) = (2 ^ n : Nat) * 2 ^ exponent := by
    rw [zpow_add₀ htwo, zpow_natCast]
    norm_cast
  have hbelow : Int.log 2 ((mantissa : ℚ) * 2 ^ exponent) < precision + exponent := by
    rw [← Int.lt_zpow_iff_log_lt Nat.one_lt_two hvalue, Nat.cast_ofNat, hpower]
    refine mul_lt_mul_of_pos_right ?_ (by positivity)
    exact_mod_cast hlt
  -- The mantissa has all its digits, or the exponent is the least one.
  rcases hfull with hfull | hleast
  · have habove : ((precision - 1 : Nat) : Int) + exponent ≤ Int.log 2 ((mantissa : ℚ) * 2 ^ exponent) := by
      rw [← Int.zpow_le_iff_le_log Nat.one_lt_two hvalue, Nat.cast_ofNat, hpower]
      refine mul_le_mul_of_nonneg_right ?_ (by positivity)
      exact_mod_cast hfull
    simp only [precision] at hbelow habove ⊢
    omega
  · simp only [precision] at hbelow ⊢
    omega

/-- The quotient that is rounded is the mantissa, if the exponent is that of the number. -/
theorem roundDiv_of_exact {mantissa : Nat} {exponent : Int} (hden : 0 < den)
    (h : (num : ℚ) = mantissa * 2 ^ exponent * den) :
    (if 0 ≤ exponent then roundDiv num (den <<< exponent.toNat) else roundDiv (num <<< (-exponent).toNat) den) =
      mantissa := by
  simp only [Nat.shiftLeft_eq]
  -- The power of two goes to the denominator or to the numerator, and the quotient is whole either way.
  split
  · next hsign =>
    obtain ⟨k, rfl⟩ := Int.eq_ofNat_of_zero_le hsign
    have hexact : num = mantissa * (den * 2 ^ k) := by
      rw [zpow_natCast] at h
      have h : (num : ℚ) = (mantissa * 2 ^ k * den : Nat) := by
        rw [h]
        norm_cast
      rw [Nat.cast_injective h, Nat.mul_assoc, Nat.mul_comm (2 ^ k)]
    rw [hexact]
    exact roundDiv_mul _ (by positivity)
  · next hsign =>
    obtain ⟨k, rfl⟩ := Int.exists_eq_neg_ofNat (by omega : exponent ≤ 0)
    have hexact : num * 2 ^ k = mantissa * den := by
      rw [zpow_neg, zpow_natCast] at h
      have h : ((num * 2 ^ k : Nat) : ℚ) = (mantissa * den : Nat) := by
        push_cast
        rw [h]
        field_simp
      exact Nat.cast_injective h
    rw [neg_neg, Int.toNat_natCast, hexact]
    exact roundDiv_mul _ hden

/-- A number of the format is not changed by rounding. -/
theorem round_of_fits {negative : Bool} {mantissa : Nat} {exponent : Int} (hfits : Fits mantissa exponent)
    (hpos : 0 < mantissa) (hden : 0 < den) (h : (num : ℚ) / den = mantissa * 2 ^ exponent) :
    round negative num den = .finite negative mantissa exponent := by
  have hnum : 0 < num := by
    refine Nat.pos_of_ne_zero ?_
    rintro rfl
    have hne : (mantissa : ℚ) * 2 ^ exponent ≠ 0 := by positivity
    exact hne (by rw [← h, Nat.cast_zero, zero_div])
  have hlog := floorLog2_eq_log hnum hden
  rw [h] at hlog
  have hmantissa := roundDiv_of_exact hden ((div_eq_iff (by positivity)).1 h)
  obtain ⟨hlt, -, hmax, -⟩ := id hfits
  have hne : mantissa ≠ 1 <<< precision := by
    rw [Nat.shiftLeft_eq, Nat.one_mul]
    exact hlt.ne
  unfold round
  rw [if_neg hnum.ne', hlog, hfits.exponent_eq hpos]
  dsimp only
  rw [hmantissa, if_neg hne]
  exact if_neg (not_lt.2 hmax)

end Binary64

end Userscript
