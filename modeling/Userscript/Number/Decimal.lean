import Userscript.Number.Binary64
import Userscript.Text.Digit

/-!
# Decimal numbers

The decimal forms of a binary floating-point number: reading one, writing the shortest
one that reads back, and writing a fixed number of places.

## Main definitions

* `Binary64.ofDecimal` — the number nearest to `digits · 10 ^ exponent`
* `Binary64.read?` — reading a number, with blanks, a sign and underscores between digits
* `Binary64.shortest` — the fewest digits that read back
* `Binary64.text` — the written form: the shortest digits, positional from `1e-4` on and
  below `1e16`
* `Binary64.fixed` — the form with a fixed number of places
* `Number` — an integer, a floating-point number or a truth value
-/

namespace Userscript

namespace Binary64

/-- The number nearest to `digits · 10 ^ exponent`, with a sign. Powers that can only lead
to infinity or to zero are not computed. -/
def ofDecimal (negative : Bool) (digits : Nat) (exponent : Int) : Binary64 :=
  let magnitude := (Text.natural digits).length + exponent
  if digits = 0 ∨ magnitude < -330 then signedZero negative
  else if 310 < magnitude then .infinite negative
  else round negative (digits * Nat.pow 10 exponent.toNat) (Nat.pow 10 (-exponent).toNat)

/-- The number `p` of places with `10 ^ (p - 1) ≤ num / den < 10 ^ p`, for positive `num`
and `den`. -/
def places (num den : Nat) : Int :=
  if den ≤ num then ((Text.natural (num / den)).length : Int)
  else 1 - ((Text.natural ((den + num - 1) / num - 1)).length : Int)

/-- The decimal number `digits · 10 ^ exponent`. -/
structure Decimal where
  digits : Nat
  exponent : Int

/-- Of the two neighbours of a number on the grid of `10 ^ exponent`, the nearer one that
reads back as `x`; a tie goes to the even one. -/
def onGrid? (x : Binary64) (negative : Bool) (num den : Nat) (exponent : Int) : Option Decimal :=
  let num := num * Nat.pow 10 (-exponent).toNat
  let den := den * Nat.pow 10 exponent.toNat
  let below := num / den
  let near := roundDiv num den
  let far := if near = below then below + 1 else below
  [near, far].find? (fun d => ofDecimal negative d exponent == x) |>.map fun d => ⟨d, exponent⟩

/-- The decimal without the zeros its digits end with. -/
def Decimal.normalize (d : Decimal) : Decimal :=
  let zeros := ((Text.natural d.digits).reverse.takeWhile (· == '0')).length
  if d.digits = 0 then d else ⟨d.digits / Nat.pow 10 zeros, d.exponent + zeros⟩

/-- The decimal with the fewest digits that reads back as the finite number
`mantissa · 2 ^ exponent`; of several with that many digits, the nearest. Seventeen
digits always suffice; the exact value stands last as it reads back in any case. -/
def shortest (negative : Bool) (mantissa : Nat) (exponent : Int) : Decimal :=
  let (num, den) := fraction mantissa exponent
  let p := places num den
  let found := (List.range 17).findSome? fun (n : Nat) =>
    onGrid? (.finite negative mantissa exponent) negative num den (p - (n + 1))
  (found.getD ⟨num * Nat.pow 5 (-exponent).toNat, min exponent 0⟩).normalize

/-- The least and the greatest position of the decimal point, counted from the first
digit, for which a number is written without an exponent. -/
def positionalRange : Int × Int := (-3, 16)

/-- A decimal as it is written: with a point and at least one place, or with an exponent
of at least two digits. -/
def Decimal.text (d : Decimal) : Text :=
  let digits := Text.natural d.digits
  let point : Int := digits.length + d.exponent
  if positionalRange.1 ≤ point ∧ point ≤ positionalRange.2 then
    if point ≤ 0 then '0' :: '.' :: List.replicate (-point).toNat '0' ++ digits
    else
      let whole := digits.take point.toNat
      let rest := digits.drop point.toNat
      whole ++ List.replicate (point.toNat - digits.length) '0' ++ '.' ::
        (if rest.isEmpty then ['0'] else rest)
  else
    let power := Text.natural (point - 1).natAbs
    digits.take 1 ++ (if digits.length = 1 then [] else '.' :: digits.drop 1) ++
      ['e', if point - 1 < 0 then '-' else '+'] ++
      List.replicate (2 - power.length) '0' ++ power

/-- The sign of a number as it is written. -/
def signText (negative : Bool) : Text := if negative then ['-'] else []

/-- The written form of a number. -/
def text : Binary64 → Text
  | nan => "nan".toList
  | infinite s => signText s ++ "inf".toList
  | finite s m e =>
    signText s ++ (if m = 0 then "0.0".toList else (shortest s m e).text)

/-- A number with a fixed number of decimal places, at least one; the exact value is
rounded half to even, and a number that is rounded to zero keeps its sign. -/
def fixed (places : Nat) : Binary64 → Text
  | nan => "nan".toList
  | infinite s => signText s ++ "inf".toList
  | finite s m e =>
    let (num, den) := fraction m e
    let unit := Nat.pow 10 places
    let n := roundDiv (num * unit) den
    let rest := Text.natural (n % unit)
    signText s ++ Text.natural (n / unit) ++ '.' ::
      (List.replicate (places - rest.length) '0' ++ rest)

end Binary64

namespace Text

/-- Whether a character is left out around a number: every blank but the separators. -/
def isPadding (c : Char) : Bool := isBlank c && !(0x1C ≤ c.toNat && c.toNat ≤ 0x1F)

/-- The text without the padding around a number. -/
def unpad (t : Text) : Text :=
  ((t.dropWhile isPadding).reverse.dropWhile isPadding).reverse

/-- The sign before a number, and the rest. -/
def takeSign : Text → Bool × Text
  | '-' :: t => (true, t)
  | '+' :: t => (false, t)
  | t => (false, t)

/-- The run of digits at the beginning of a text, and the rest. A single underscore may
stand between two digits; `behind` says whether a digit stands right before the text. -/
def takeDigits (behind : Bool) : Text → Text × Text
  | [] => ([], [])
  | '_' :: c :: t =>
    if behind && isDigit c then
      let (digits, rest) := takeDigits true t
      (c :: digits, rest)
    else ([], '_' :: c :: t)
  | c :: t =>
    if isDigit c then
      let (digits, rest) := takeDigits true t
      (c :: digits, rest)
    else ([], c :: t)

/-- The integer that a text denotes: digits of any script, with a sign and padding. -/
def readInt? (t : Text) : Option Int :=
  let (negative, body) := takeSign (unpad t)
  match takeDigits false body with
  | ([], _) => none
  | (digits, []) => some (if negative then -(ofDigits digits : Int) else ofDigits digits)
  | _ => none

end Text

namespace Binary64

/-- The exponent of a number, at the end of a text. -/
def readExponent? : Text → Option Int
  | [] => some 0
  | c :: t =>
    if c = 'e' ∨ c = 'E' then
      let (negative, body) := Text.takeSign t
      match Text.takeDigits false body with
      | ([], _) => none
      | (digits, []) => some (if negative then -(Text.ofDigits digits : Int) else Text.ofDigits digits)
      | _ => none
    else none

/-- The number that an unsigned text denotes: digits with an optional point and an
optional exponent, or a name of infinity or of not-a-number in any case. -/
def readUnsigned? (negative : Bool) (t : Text) : Option Binary64 :=
  let word := String.ofList (t.map Char.toLower)
  if word = "nan" then some .nan
  else if word = "inf" ∨ word = "infinity" then some (.infinite negative)
  else
    let (whole, rest) := Text.takeDigits false t
    let (places, rest) :=
      match rest with
      | '.' :: rest => Text.takeDigits false rest
      | _ => ([], rest)
    if whole.isEmpty && places.isEmpty then none
    else (readExponent? rest).map fun power =>
      ofDecimal negative (Text.ofDigits (whole ++ places)) (power - places.length)

/-- The number that a text denotes, with a sign and padding. -/
def read? (t : Text) : Option Binary64 :=
  let (negative, body) := Text.takeSign (Text.unpad t)
  readUnsigned? negative body

end Binary64

/-- An integer or a floating-point number, or a truth value that stands for one. They are
written differently: `1`, `1.0` and `True`. -/
inductive Number where
  | int (n : Int)
  | double (x : Binary64)
  | truth (b : Bool)
  deriving DecidableEq

/-- The written form of a number. -/
def Number.text : Number → Text
  | int n => Text.integer n
  | double x => x.text
  | truth b => (if b then "True" else "False").toList

end Userscript
