import Mathlib.Algebra.Group.Nat.Defs
import Mathlib.Data.List.Basic
import Mathlib.Data.List.TakeWhile
import Userscript.Text.Digit

/-!
# Digits of a number

## Main results

* `ofDigits_natural` — the digits of a number denote it
* `head_natural` — the first digit of a number is no zero, unless the number is zero
* `pow_dvd_of_zeros` — a number with zeros at its end is a multiple of that power of ten
* `natural_mul_pow` — a power of ten appends zeros
* `lt_pow_length_natural`, `pow_length_natural_le` — how large a number with so many digits is
-/

namespace Userscript.Text

variable {n : Nat} {c : Char}

theorem digit?_digitChar (h : n < 10) : digit? (Nat.digitChar n) = some n := by
  have : ∀ n : Fin 10, digit? (Nat.digitChar n) = some n.val := by decide
  exact this ⟨n, h⟩

theorem isDigit_of_mem_natural (h : c ∈ natural n) : isDigit c := by
  have hdigit := Nat.isDigit_of_mem_toDigits (by decide) (by decide) h
  rw [Char.isDigit, Bool.and_eq_true, decide_eq_true_eq, decide_eq_true_eq] at hdigit
  have hascii : asciiDigit? c = some (c.toNat - 48) := if_pos hdigit
  rw [isDigit, digit?_eq_of_asciiDigit? hascii]
  rfl

theorem ofDigits_natural (n : Nat) : ofDigits (natural n) = n := by
  induction n using Nat.strongRecOn with
  | _ n ih =>
    rw [natural, Nat.toDigits_eq_if (by decide)]
    split
    · next h => simp [ofDigits, digit?_digitChar h]
    · next h =>
      -- The last digit stands for the remainder, the others for the quotient.
      have hlast : n % 10 < 10 := Nat.mod_lt _ (by decide)
      have hfirst := ih (n / 10) (by omega)
      rw [natural] at hfirst
      rw [ofDigits, List.foldl_append, ← ofDigits, hfirst]
      simp [digit?_digitChar hlast]
      omega

theorem length_natural_mono {m : Nat} (h : m ≤ n) :
    (natural m).length ≤ (natural n).length := by
  rw [natural, natural, Nat.length_toDigits_le_iff (by decide) Nat.length_toDigits_pos]
  exact h.trans_lt ((Nat.length_toDigits_le_iff (by decide) Nat.length_toDigits_pos).1 le_rfl)

theorem natural_of_lt (h : n < 10) : natural n = [Nat.digitChar n] := by
  rw [natural, Nat.toDigits_eq_if (by decide), if_pos h]

theorem natural_of_le (h : 10 ≤ n) :
    natural n = natural (n / 10) ++ [Nat.digitChar (n % 10)] := by
  rw [natural, Nat.toDigits_eq_if (by decide), if_neg (by omega)]
  rfl

theorem natural_ne_nil (n : Nat) : natural n ≠ [] := Nat.toDigits_ne_nil

theorem isAsciiDigit_of_mem_natural (h : c ∈ natural n) : isAsciiDigit c := by
  have hdigit := Nat.isDigit_of_mem_toDigits (by decide) (by decide) h
  rw [Char.isDigit, Bool.and_eq_true, decide_eq_true_eq, decide_eq_true_eq] at hdigit
  have hascii : asciiDigit? c = some (c.toNat - 48) := if_pos hdigit
  rw [isAsciiDigit, hascii]
  rfl

theorem digitChar_ne_zero (h : n < 10) (h' : 0 < n) : Nat.digitChar n ≠ '0' := by
  have hall : ∀ n : Fin 10, 0 < n.val → Nat.digitChar n ≠ '0' := by decide
  exact hall ⟨n, h⟩ h'

/-- The first digit of a number is no zero, unless the number is zero. -/
theorem head_natural (h : 0 < n) : (natural n).head? ≠ some '0' := by
  induction n using Nat.strongRecOn with
  | _ n ih =>
    by_cases hn : n < 10
    · rw [natural_of_lt hn]
      simpa using digitChar_ne_zero hn h
    · rw [natural_of_le (by omega), List.head?_append_of_ne_nil _ (natural_ne_nil _)]
      exact ih (n / 10) (by omega) (by omega)

/-- A number with zeros at its end is a multiple of that power of ten. -/
theorem pow_dvd_of_zeros (h : 0 < n) :
    10 ^ ((natural n).reverse.takeWhile (· == '0')).length ∣ n := by
  induction n using Nat.strongRecOn with
  | _ n ih =>
    by_cases hn : n < 10
    · rw [natural_of_lt hn]
      have hnone : [Nat.digitChar n].reverse.takeWhile (· == '0') = [] := by
        simp [digitChar_ne_zero hn h]
      rw [hnone]
      exact Nat.one_dvd n
    · rw [natural_of_le (by omega), List.reverse_append, List.reverse_singleton,
        List.singleton_append, List.takeWhile_cons]
      split
      · next hlast =>
        -- The last digit is a zero, and the others are those of the tenth part.
        have hzero : n % 10 = 0 := by
          refine Nat.eq_zero_of_not_pos fun hpos => ?_
          exact digitChar_ne_zero (Nat.mod_lt n (by decide)) hpos (by simpa using hlast)
        have htenth := ih (n / 10) (by omega) (by omega)
        have hn : n = n / 10 * 10 := by omega
        rw [List.length_cons, Nat.pow_succ, hn]
        simpa using Nat.mul_dvd_mul_right htenth 10
      · exact Nat.one_dvd n

theorem natural_mul_ten (h : 0 < n) : natural (n * 10) = natural n ++ ['0'] := by
  rw [natural_of_le (by omega), Nat.mul_div_cancel _ (by decide), Nat.mul_mod_left]
  rfl

/-- A power of ten appends zeros. -/
theorem natural_mul_pow (h : 0 < n) (k : Nat) : natural (n * 10 ^ k) = natural n ++ List.replicate k '0' := by
  induction k with
  | zero => simp
  | succ k ih =>
    have hpos : 0 < n * 10 ^ k := Nat.mul_pos h (Nat.pow_pos (by decide))
    rw [Nat.pow_succ, ← Nat.mul_assoc, natural_mul_ten hpos, ih, List.append_assoc, ← List.replicate_succ']

theorem ofDigits_zeros_append (k : Nat) (t : Text) : ofDigits (List.replicate k '0' ++ t) = ofDigits t := by
  induction k with
  | zero => rfl
  | succ k ih => exact ih

/-- A number lies between two powers of ten by the count of its digits. -/
theorem lt_pow_length_natural (n : Nat) : n < 10 ^ (natural n).length :=
  (Nat.length_toDigits_le_iff (by decide) Nat.length_toDigits_pos).1 le_rfl

theorem pow_length_natural_le (h : 0 < n) : 10 ^ ((natural n).length - 1) ≤ n := by
  by_cases hone : (natural n).length = 1
  · rw [hone]
    exact h
  · have hpos : 0 < (natural n).length := Nat.length_toDigits_pos
    refine Nat.not_lt.1 fun hlt => ?_
    have hle : (natural n).length ≤ (natural n).length - 1 :=
      (Nat.length_toDigits_le_iff (by decide) (by omega)).2 hlt
    omega

end Userscript.Text
