import Userscript.Text.Blank

/-!
# Digits

The decimal digits of all scripts, and the writing of natural numbers.

## Main definitions

* `Text.digitZeros` — the zeros of the decimal scripts; nine digits follow each
* `Text.digit?` — the value of a decimal digit of any script
* `Text.asciiDigit?` — the value of a digit from `0` to `9`
* `Text.ofDigits`, `Text.natural` — reading and writing natural numbers in base ten
* `Text.hex` — a number in base sixteen, filled up with zeros
* `Text.digitLimit` — the most digits that an integer is read from
-/

namespace Userscript.Text

/-- The code points of the zeros of the decimal scripts. The digits of a script are the
ten characters from its zero on. -/
def digitZeros : List Nat :=
  [0x30, 0x660, 0x6F0, 0x7C0, 0x966, 0x9E6, 0xA66, 0xAE6, 0xB66, 0xBE6, 0xC66, 0xCE6, 0xD66,
    0xDE6, 0xE50, 0xED0, 0xF20, 0x1040, 0x1090, 0x17E0, 0x1810, 0x1946, 0x19D0, 0x1A80, 0x1A90,
    0x1B50, 0x1BB0, 0x1C40, 0x1C50, 0xA620, 0xA8D0, 0xA900, 0xA9D0, 0xA9F0, 0xAA50, 0xABF0,
    0xFF10, 0x104A0, 0x10D30, 0x11066, 0x110F0, 0x11136, 0x111D0, 0x112F0, 0x11450, 0x114D0,
    0x11650, 0x116C0, 0x11730, 0x118E0, 0x11950, 0x11C50, 0x11D50, 0x11DA0, 0x16A60, 0x16AC0,
    0x16B50, 0x1D7CE, 0x1D7D8, 0x1D7E2, 0x1D7EC, 0x1D7F6, 0x1E140, 0x1E2F0, 0x1E950, 0x1FBF0]

/-- The value of a decimal digit of any script. -/
def digit? (c : Char) : Option Nat :=
  (digitZeros.find? fun first => first ≤ c.toNat && c.toNat < first + 10).map (c.toNat - ·)

/-- Whether a character is a decimal digit of some script. -/
def isDigit (c : Char) : Bool := (digit? c).isSome

/-- The value of a digit from `0` to `9`. -/
def asciiDigit? (c : Char) : Option Nat :=
  if '0' ≤ c ∧ c ≤ '9' then some (c.toNat - 48) else none

/-- Whether a character is a digit from `0` to `9`. -/
def isAsciiDigit (c : Char) : Bool := (asciiDigit? c).isSome

/-- The number that a run of digits denotes. -/
def ofDigits (digits : Text) : Nat :=
  digits.foldl (fun n c => 10 * n + (digit? c).getD 0) 0

/-- A natural number in base ten. -/
def natural (n : Nat) : Text := Nat.toDigits 10 n

/-- An integer in base ten, with a minus sign if it is negative. -/
def integer : Int → Text
  | .ofNat n => natural n
  | .negSucc n => '-' :: natural (n + 1)

/-- A number in base sixteen with small letters, filled up with zeros to `width` digits. -/
def hex (width n : Nat) : Text :=
  let digits := Nat.toDigits 16 n
  List.replicate (width - digits.length) '0' ++ digits

/-- The most digits that an integer is read from. -/
def digitLimit : Nat := 4300

/-- The wording of the refusal of an integer with too many digits. -/
def tooManyDigits (digits : Nat) : String :=
  s!"Exceeds the limit ({digitLimit} digits) for integer string conversion: " ++
    s!"value has {digits} digits; use sys.set_int_max_str_digits() to increase the limit"

/-- The digits from `0` to `9` have the same value in both readings. -/
theorem digit?_eq_of_asciiDigit? {c : Char} {n : Nat} (h : asciiDigit? c = some n) :
    digit? c = some n := by
  simp only [asciiDigit?, Option.ite_none_right_eq_some, Option.some.injEq] at h
  obtain ⟨⟨hlow, hhigh⟩, rfl⟩ := h
  have hlow : 48 ≤ c.toNat := hlow
  have hhigh : c.toNat ≤ 57 := hhigh
  have : (48 ≤ c.toNat && c.toNat < 48 + 10) = true := by simp; omega
  simp [digit?, digitZeros, this]

end Userscript.Text
