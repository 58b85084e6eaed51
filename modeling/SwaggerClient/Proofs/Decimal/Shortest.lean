import Mathlib.Data.Nat.Basic
import SwaggerClient.Decimal.Shortest

/-!
# Digits of shortest decimals

The interval of a double that is not zero lies above zero, and so does every decimal
that is found in it.
-/

namespace SwaggerClient.Decimal

namespace Interval

variable {i : Interval}

theorem digits_pos_of_contains {d : Decimal} (hlow : 0 < i.low) (h : i.contains d) :
    0 < d.digits := by
  have hquarters : 0 < i.quarters d.exponent i.low :=
    Nat.mul_pos (Nat.mul_pos hlow (Nat.pow_pos (by decide))) (Nat.pow_pos (by decide))
  have hvalue : 0 < d.digits * i.unit d.exponent := by
    simp only [contains] at h
    split at h <;> simp only [Bool.and_eq_true, decide_eq_true_eq] at h <;> omega
  exact Nat.pos_of_mul_pos_right hvalue

theorem contains_of_nearest? {exponent : Int} {d : Decimal} (h : i.nearest? exponent = some d) :
    i.contains d := by
  unfold nearest? at h
  simp only at h
  split at h
  · cases h
  · cases h
    assumption
  · cases h
    assumption
  · split at h <;> cases h <;> assumption

/-- A search finds a decimal with digits, or comes to its end. -/
theorem search_digits_pos (hlow : 0 < i.low) (exponent : Int) (steps : Nat) :
    0 < (i.search exponent steps).digits ∨ i.search exponent steps = ⟨0, exponent - steps⟩ := by
  induction steps generalizing exponent with
  | zero => exact .inr (by simp [search])
  | succ steps ih =>
    rw [search]
    cases hd : i.nearest? exponent with
    | some d => exact .inl (digits_pos_of_contains hlow (contains_of_nearest? hd))
    | none =>
      rcases ih (exponent - 1) with hpos | hend
      · exact .inl hpos
      · refine .inr (hend.trans ?_)
        rw [Decimal.mk.injEq]
        omega

end Interval

theorem shortest_digits_pos {x : Binary64} (h : x.significand ≠ 0) :
    0 < (shortest x).digits ∨ shortest x = ⟨0, -331⟩ := by
  have hlow : 0 < (Interval.of x).low := by
    simp only [Interval.of]
    split <;> omega
  exact Interval.search_digits_pos hlow 309 640

end SwaggerClient.Decimal
