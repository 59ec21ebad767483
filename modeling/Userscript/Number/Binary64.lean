/-!
# Binary floating-point numbers

The numbers of the 64-bit binary format, as exact values: a finite number is a signed
multiple of a power of two. Every operation computes its result exactly, as a fraction,
and rounds once, to the nearest number, a tie going to the even mantissa.

## Main definitions

* `Binary64` — not-a-number, the infinities and the finite numbers
* `roundDiv` — a quotient of natural numbers, rounded half to even
* `Binary64.round` — the number nearest to a fraction
* `Binary64.ofInt?`, `Binary64.quotient?` — conversion and division of integers, which
  fail on results beyond the largest number
* `Binary64.sub`, `Binary64.mul` — difference and product
* `Binary64.truncate?`, `Binary64.ceiling` — rounding to integers

## Main results

* `roundDiv_mul` — an exact quotient is not changed by rounding
* `le_roundDiv_mul`, `roundDiv_mul_le` — rounding moves a quotient by half a unit at most
-/

namespace Userscript

/-- The quotient of two natural numbers, rounded to the nearest one; a half goes to the
even neighbour. -/
def roundDiv (num den : Nat) : Nat :=
  let q := num / den
  let twice := 2 * (num % den)
  if den < twice ∨ (twice = den ∧ q % 2 = 1) then q + 1 else q

/-- An exact quotient is not changed by rounding. -/
theorem roundDiv_mul {den : Nat} (q : Nat) (h : 0 < den) : roundDiv (q * den) den = q := by
  have hne : ¬ (0 = den) := by omega
  simp [roundDiv, Nat.mul_div_cancel _ h, hne]

/-- The rounded quotient is at most half a unit too large. -/
theorem roundDiv_mul_le (num : Nat) {den : Nat} (h : 0 < den) :
    2 * (roundDiv num den * den) ≤ 2 * num + den := by
  have hdiv := Nat.div_add_mod num den
  have hlt := Nat.mod_lt num h
  have hmul : (num / den + 1) * den = den * (num / den) + den := by
    rw [Nat.add_mul, Nat.one_mul, Nat.mul_comm]
  have hmul' : num / den * den = den * (num / den) := Nat.mul_comm _ _
  simp only [roundDiv]
  split <;> omega

/-- The rounded quotient is at most half a unit too small. -/
theorem le_roundDiv_mul (num : Nat) {den : Nat} (h : 0 < den) :
    2 * num ≤ 2 * (roundDiv num den * den) + den := by
  have hdiv := Nat.div_add_mod num den
  have hlt := Nat.mod_lt num h
  have hmul : (num / den + 1) * den = den * (num / den) + den := by
    rw [Nat.add_mul, Nat.one_mul, Nat.mul_comm]
  have hmul' : num / den * den = den * (num / den) := Nat.mul_comm _ _
  simp only [roundDiv]
  split <;> omega

/-- A number of the 64-bit binary format. -/
inductive Binary64 where
  | nan
  | infinite (negative : Bool)
  /-- The number `mantissa · 2 ^ exponent`, with its sign. -/
  | finite (negative : Bool) (mantissa : Nat) (exponent : Int)
  deriving DecidableEq, Repr, Inhabited

namespace Binary64

/-- The least exponent of a finite number. -/
def minExponent : Int := -1074

/-- The greatest exponent of a finite number. -/
def maxExponent : Int := 971

/-- How many bits a mantissa has at most. -/
def precision : Nat := 53

/-- Zero with a sign. -/
def signedZero (negative : Bool) : Binary64 := .finite negative 0 minExponent

/-- Positive zero. -/
def zero : Binary64 := signedZero false

/-- The greatest `k` with `2 ^ k ≤ num / den`, for positive `num` and `den`. -/
def floorLog2 (num den : Nat) : Int :=
  let up := num.log2
  let down := den.log2
  if num <<< down < den <<< up then (up : Int) - down - 1 else (up : Int) - down

/-- The number nearest to `num / den`, with a sign. A tie goes to the even mantissa, and a
result beyond the largest finite number is infinite. -/
def round (negative : Bool) (num den : Nat) : Binary64 :=
  if num = 0 then signedZero negative
  else
    let e := max minExponent (floorLog2 num den - (precision - 1))
    let m := if 0 ≤ e then roundDiv num (den <<< e.toNat) else roundDiv (num <<< (-e).toNat) den
    let (m, e) := if m = 1 <<< precision then (1 <<< (precision - 1), e + 1) else (m, e)
    if maxExponent < e then .infinite negative else .finite negative m e

/-- The magnitude of a finite number as a fraction. -/
def fraction (mantissa : Nat) (exponent : Int) : Nat × Nat :=
  (mantissa <<< exponent.toNat, 1 <<< (-exponent).toNat)

/-- The number nearest to an integer; there is none if the integer is too large. -/
def ofInt? (n : Int) : Option Binary64 :=
  match round (n < 0) n.natAbs 1 with
  | .infinite _ => none
  | x => some x

/-- The number nearest to the quotient of two integers; there is none if the quotient is
too large. A zero quotient takes the sign of its terms. -/
def quotient? (a b : Int) : Option Binary64 :=
  match round (decide (a < 0) != decide (b < 0)) a.natAbs b.natAbs with
  | .infinite _ => none
  | x => some x

/-- The number with the other sign. -/
def neg : Binary64 → Binary64
  | nan => nan
  | infinite s => infinite !s
  | finite s m e => finite (!s) m e

/-- The sum of two numbers. -/
def add : Binary64 → Binary64 → Binary64
  | nan, _ | _, nan => nan
  | infinite s, infinite s' => if s = s' then infinite s else nan
  | infinite s, finite .. | finite .., infinite s => infinite s
  | finite s m e, finite s' m' e' =>
    let least := min e e'
    let term (s : Bool) (m : Nat) (e : Int) : Int :=
      (if s then -1 else 1) * (m <<< (e - least).toNat : Nat)
    let sum := term s m e + term s' m' e'
    let (num, den) := fraction sum.natAbs least
    if sum = 0 then signedZero (s && s') else round (sum < 0) num den

/-- The difference of two numbers. -/
def sub (x y : Binary64) : Binary64 := add x (neg y)

/-- The product of two numbers. -/
def mul : Binary64 → Binary64 → Binary64
  | nan, _ | _, nan => nan
  | infinite s, infinite s' => infinite (s != s')
  | infinite s, finite s' m _ | finite s m _, infinite s' => if m = 0 then nan else infinite (s != s')
  | finite s m e, finite s' m' e' =>
    let (num, den) := fraction (m * m') (e + e')
    round (s != s') num den

/-- Whether a number is greater than zero. -/
def isPositive : Binary64 → Bool
  | nan => false
  | infinite s => !s
  | finite s m _ => !s && m != 0

/-- Whether a number is less than a natural number. -/
def isBelow (x : Binary64) (n : Nat) : Bool :=
  match x with
  | nan => false
  | infinite s => s
  | finite s m e =>
    let (num, den) := fraction m e
    if s then m != 0 || n != 0 else num < n * den

/-- Whether a number is zero, of either sign. -/
def isZero : Binary64 → Bool
  | finite _ 0 _ => true
  | _ => false

/-- The integer part of a finite number, with its sign. -/
def truncate? : Binary64 → Option Int
  | finite s m e =>
    let (num, den) := fraction m e
    let n : Int := (num / den : Nat)
    some (if s then -n else n)
  | _ => none

/-- The least natural number that is not below the finite number `mantissa · 2 ^ exponent`. -/
def ceiling (mantissa : Nat) (exponent : Int) : Nat :=
  let (num, den) := fraction mantissa exponent
  (num + den - 1) / den

end Binary64

end Userscript
