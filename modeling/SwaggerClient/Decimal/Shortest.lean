import SwaggerClient.Decimal.Binary64

/-!
# Shortest decimals

The shortest decimal that reads back as a given double: of the decimals in the
interval of numbers that round to it, those with the fewest digits, and of those
the nearest one.  The ends of the interval belong to it when the significand is
even, because ties go to even.
-/

namespace SwaggerClient

/-- A decimal: digits times a power of ten. -/
structure Decimal where
  digits : Nat
  exponent : Int
  deriving DecidableEq, Repr

namespace Decimal

/-- The interval of numbers that round to a double, in quarters of the unit of
its last place, and whether the ends belong to it. -/
structure Interval where
  low : Nat
  middle : Nat
  high : Nat
  closed : Bool
  /-- The power of two of one quarter. -/
  exponent : Int
  deriving Repr

/-- The interval of a double.  Below a power of two the doubles stand closer. -/
def Interval.of (x : Binary64) : Interval :=
  let m := x.significand
  let narrow := m == Nat.pow 2 52 && decide (Binary64.minExponent < x.exponent)
  { low := if narrow then 4 * m - 1 else 4 * m - 2
    middle := 4 * m
    high := 4 * m + 2
    closed := m % 2 == 0
    exponent := x.exponent - 2 }

namespace Interval

variable (i : Interval)

/-- A number of quarters, to be compared with decimals of an exponent. -/
def quarters (exponent : Int) (n : Nat) : Nat :=
  n * Nat.pow 2 i.exponent.toNat * Nat.pow 10 (-exponent).toNat

/-- The unit of the decimals of an exponent, to be compared with quarters. -/
def unit (exponent : Int) : Nat :=
  Nat.pow 2 (-i.exponent).toNat * Nat.pow 10 exponent.toNat

/-- Whether a decimal lies in the interval. -/
def contains (d : Decimal) : Bool :=
  let value := d.digits * i.unit d.exponent
  let low := i.quarters d.exponent i.low
  let high := i.quarters d.exponent i.high
  if i.closed then low ≤ value && value ≤ high else low < value && value < high

/-- The nearer of the two decimals of an exponent beside the middle that lie in
the interval; a tie goes to the even one. -/
def nearest? (exponent : Int) : Option Decimal :=
  let unit := i.unit exponent
  let middle := i.quarters exponent i.middle
  let below : Decimal := ⟨middle / unit, exponent⟩
  let above : Decimal := ⟨middle / unit + 1, exponent⟩
  match i.contains below, i.contains above with
  | false, false => none
  | true, false => some below
  | false, true => some above
  | true, true =>
    let rest := 2 * (middle % unit)
    if rest < unit ∨ (rest = unit ∧ below.digits % 2 = 0) then some below else some above

/-- The first decimal in the interval as the exponent goes down. -/
def search (exponent : Int) : Nat → Decimal
  | 0 => ⟨0, exponent⟩
  | steps + 1 => (i.nearest? exponent).getD (search (exponent - 1) steps)

end Interval

/-- The shortest decimal of a double that is not zero.  No double reaches
`10 ^ 309`, and the decimals of exponent −330 are finer than all doubles. -/
def shortest (x : Binary64) : Decimal :=
  (Interval.of x).search 309 640

end Decimal

end SwaggerClient
