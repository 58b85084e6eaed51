import SwaggerClient.Decimal.Shortest

/-!
# Numbers of a JSON text

A number is an integer of 64 bits, signed or not, or a double.  An integer that
does not fit, and every number with a fraction or an exponent, is a double.
-/

namespace SwaggerClient

/-- A number as a JSON text gives it. -/
inductive Number where
  | integer (value : Int)
  | double (negative : Bool) (magnitude : Binary64)
  deriving DecidableEq, Repr

/-- The parts of a number as it is written. -/
structure Numeral where
  negative : Bool
  /-- The digits in front of the point. -/
  whole : List Nat
  /-- The digits behind the point, if there is one. -/
  fraction : Option (List Nat)
  /-- The exponent: whether it is negative, and its digits. -/
  exponent : Option (Bool × List Nat)
  deriving Repr

namespace Numeral

/-- The greatest significand that is read digit by digit. -/
def maxSignificand : Nat := Nat.pow 2 64 - 1

/-- The greatest exponent that is read digit by digit. -/
def maxExponent : Nat := Nat.pow 2 31 - 1

/-- Reads digits into a number while it stays within a bound, and gives the
digits that are left. -/
def absorb (bound : Nat) : Nat → List Nat → Nat × List Nat
  | n, [] => (n, [])
  | n, d :: ds => if bound < n * 10 + d then (n, d :: ds) else absorb bound (n * 10 + d) ds

/-- A value in the range of doubles, or how many digits of the exponent have been
read when the number turns out too large; `none` when all of them have. -/
abbrev Result := Except (Option Nat) Number

variable (n : Numeral)

/-- A double made of a significand and a power of ten. -/
def ofParts (significand : Nat) (exponent : Int) : Result :=
  match Binary64.scaled significand exponent with
  | some magnitude => .ok (.double n.negative magnitude)
  | none => .error none

/-- The value of an integer without digits left out. -/
def ofInteger (significand : Nat) : Number :=
  if !n.negative then .integer significand
  else if significand = 0 ∨ Nat.pow 2 63 < significand then
    .double true ((Binary64.ofQuotient significand 1).getD .zero)
  else .integer (-significand)

/-- The value of a numeral.  Digits that do not fit into the significand count
only by their places. -/
def value : Result :=
  let (significand, rest) := absorb maxSignificand 0 n.whole
  let fraction := n.fraction.getD []
  let (significand', rest') := absorb maxSignificand significand fraction
  let places : Int := rest.length - (fraction.length - rest'.length : Nat)
  match n.exponent with
  | none =>
    if n.fraction.isNone && rest.isEmpty then .ok (n.ofInteger significand)
    else n.ofParts significand' places
  | some (down, digits) =>
    match absorb maxExponent 0 digits with
    | (e, []) => n.ofParts significand' (if down then places - e else places + e)
    | (_, left) =>
      if significand' = 0 || down then .ok (.double n.negative .zero)
      else .error (some (digits.length - left.length + 1))

end Numeral

namespace Number

/-- A text of digits with a point behind some of them. -/
def pointed (digits : List Char) (point : Nat) : List Char :=
  digits.take point ++ '.' :: digits.drop point

/-- A double greater than zero: with a point and at least one digit behind it when
the power of ten of its first digit is between −5 and 15, and otherwise with an
exponent. -/
def magnitudeText (x : Binary64) : List Char :=
  let d := Decimal.shortest x
  let digits := Nat.toDigits 10 d.digits
  let first : Int := digits.length - 1 + d.exponent
  if first < -5 ∨ 15 < first then
    (if digits.length = 1 then digits else pointed digits 1)
      ++ 'e' :: (if first < 0 then '-' else '+') :: Nat.toDigits 10 first.natAbs
  else if 0 ≤ d.exponent then
    digits ++ List.replicate d.exponent.toNat '0' ++ ['.', '0']
  else if 0 ≤ first then pointed digits (first.toNat + 1)
  else '0' :: '.' :: List.replicate (first.natAbs - 1) '0' ++ digits

/-- The text of a number. -/
def text : Number → String
  | .integer n => toString n
  | .double negative x =>
    let magnitude := if x.significand = 0 then ['0', '.', '0'] else magnitudeText x
    String.ofList (if negative then '-' :: magnitude else magnitude)

end Number

end SwaggerClient
