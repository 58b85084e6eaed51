/-!
# Doubles

The non-negative finite numbers of the 64-bit binary format, as a significand
times a power of two.  A product or quotient is the exact one rounded to the
nearest double, with a tie going to the even significand.
-/

namespace SwaggerClient

/-- A non-negative double.  The significand has 53 bits, or the exponent is the
least one and the significand may be smaller. -/
structure Binary64 where
  significand : Nat
  exponent : Int
  deriving DecidableEq, Repr

namespace Binary64

/-- The least exponent. -/
def minExponent : Int := -1074

/-- The greatest exponent. -/
def maxExponent : Int := 971

/-- The double zero. -/
def zero : Binary64 := ⟨0, minExponent⟩

/-- A quotient as one over another power of two: `num / den` is the result times
`2 ^ exponent`. -/
def rescale (num den : Nat) (exponent : Int) : Nat × Nat :=
  (num * Nat.pow 2 (-exponent).toNat, den * Nat.pow 2 exponent.toNat)

/-- The quotient of two numbers rounded to an integer, ties to even. -/
def roundDiv (num den : Nat) : Nat :=
  let floor := num / den
  let rest := num % den
  if den < 2 * rest ∨ (2 * rest = den ∧ floor % 2 = 1) then floor + 1 else floor

/-- The exponent of the double nearest to a quotient, before rounding. -/
def exponentOf (num den : Nat) : Int :=
  let guess := max (num.log2 - den.log2 - 52 : Int) minExponent
  let (n, d) := rescale num den guess
  if n / d < Nat.pow 2 52 ∧ minExponent < guess then guess - 1 else guess

/-- The double nearest to a quotient, unless the quotient is too large. -/
def ofQuotient (num den : Nat) : Option Binary64 :=
  if num = 0 then some zero
  else
    let exponent := exponentOf num den
    let (n, d) := rescale num den exponent
    let significand := roundDiv n d
    let rounded : Binary64 :=
      if significand = Nat.pow 2 53 then ⟨Nat.pow 2 52, exponent + 1⟩ else ⟨significand, exponent⟩
    if maxExponent < rounded.exponent then none else some rounded

variable (x : Binary64)

/-- The numerator of a double over its denominator. -/
def num : Nat := x.significand * Nat.pow 2 x.exponent.toNat

/-- The denominator of a double, a power of two. -/
def den : Nat := Nat.pow 2 (-x.exponent).toNat

/-- The double nearest to the quotient of two doubles; a quotient that would be
too large is not met here, and zero stands for it. -/
def div (y : Binary64) : Binary64 :=
  (ofQuotient (x.num * y.den) (x.den * y.num)).getD zero

/-- The double nearest to a power of ten, up to `10 ^ 308`. -/
def powerOfTen (n : Nat) : Binary64 :=
  (ofQuotient (Nat.pow 10 n) 1).getD zero

/-- The double nearest to the product of two doubles, unless that is too large. -/
def mul (y : Binary64) : Option Binary64 :=
  ofQuotient (x.num * y.num) (x.den * y.den)

/-- A double divided by a power of ten in steps of at most `10 ^ 308`; zero stays
zero. -/
def divPowerOfTen (x : Binary64) (n : Nat) : Binary64 :=
  if n ≤ 308 then x.div (powerOfTen n)
  else if x.significand = 0 then x
  else (x.div (powerOfTen 308)).divPowerOfTen (n - 308)
termination_by n

/-- A whole number times a power of ten, computed in doubles: the number and the
power are rounded each, and so is their product or quotient.  There is none when
the product is too large. -/
def scaled (significand : Nat) (exponent : Int) : Option Binary64 := do
  let x ← ofQuotient significand 1
  if 0 ≤ exponent then
    if exponent ≤ 308 then x.mul (powerOfTen exponent.toNat)
    else if x.significand = 0 then some x
    else none
  else some (x.divPowerOfTen (-exponent).toNat)

end Binary64

end SwaggerClient
