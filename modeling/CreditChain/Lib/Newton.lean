import Mathlib.Tactic.Linarith
import Mathlib.Tactic.Ring

/-!
# Roots by truncated Newton steps

A step takes `a` to the mean of `a` and `x / a`, both rounded down.
-/

namespace CreditChain.Newton

open Nat

def step (x a : Nat) : Nat := (a + x / a) / 2

/-- `a` is the root of `x` rounded down or, if that is nearer, rounded up. -/
structure Near (x a : Nat) : Prop where
  low : a * a ≤ x + a
  high : x < (a + 1) * (a + 1)

/-- The square of `a` is above `x`, by at most `x / b`. -/
def Within (b x a : Nat) : Prop := ∃ rest, a * a = x + rest ∧ b * rest ≤ x

variable {x a b : Nat}

theorem step_le (x a : Nat) : 2 * a * step x a ≤ a * a + x := by
  have half : 2 * step x a ≤ a + x / a := mul_div_le _ _
  have quotient : a * (x / a) ≤ x := mul_div_le x a
  nlinarith

/-- No step leads below the root: a mean is at least the root of the product. -/
theorem lt_step_sq (positive : 0 < a) : x < (step x a + 1) * (step x a + 1) := by
  have half : a + x / a < 2 * (step x a + 1) := lt_mul_div_succ _ (by decide)
  have quotient : x < a * (x / a + 1) := lt_mul_div_succ x positive
  have mean := two_mul_le_add_sq a (step x a + 1)
  nlinarith

/-- What a step leaves of an error. -/
theorem step_rest {rest : Nat} (sq : step x a * step x a = x + rest) :
    4 * (a * a) * (x + rest) ≤ (a * a + x) * (a * a + x) := by
  have le := step_le x a
  rw [← sq]
  calc 4 * (a * a) * (step x a * step x a) = 2 * a * step x a * (2 * a * step x a) := by ring
    _ ≤ (a * a + x) * (a * a + x) := Nat.mul_le_mul le le

section Positive

variable (positive : 0 < x)

include positive

theorem Near.pos (near : Near x a) : 0 < a := by
  have high := near.high
  rcases Nat.eq_zero_or_pos a with rfl | found
  · omega
  · exact found

/-- Once at the root, the steps stay there. -/
theorem Near.step (near : Near x a) : Near x (step x a) := by
  have nonzero := near.pos positive
  have le := step_le x a
  obtain ⟨low, high⟩ := near
  refine ⟨?_, lt_step_sq nonzero⟩
  generalize Newton.step x a = next at le ⊢
  rcases lt_or_ge a next with more | less
  · have one : next ≤ a + 1 := by nlinarith
    nlinarith
  · nlinarith

/-- The lesser of `a` and `x / a` is the root rounded down. -/
theorem Near.floor (near : Near x a) :
    min a (x / a) * min a (x / a) ≤ x ∧ x < (min a (x / a) + 1) * (min a (x / a) + 1) := by
  have nonzero := near.pos positive
  obtain ⟨low, high⟩ := near
  rcases lt_or_ge x (a * a) with above | below
  · obtain ⟨less, rfl⟩ : ∃ less, a = less + 1 := ⟨a - 1, by omega⟩
    have quotient : x / (less + 1) = less := by
      refine Nat.div_eq_of_lt_le ?_ ?_
      · nlinarith
      · nlinarith
    rw [quotient, min_eq_right (le_succ less)]
    exact ⟨by nlinarith, above⟩
  · rw [min_eq_left ((le_div_iff_mul_le nonzero).mpr below)]
    exact ⟨below, high⟩

theorem Within.near (within : Within b x a) (fine : 2 * x ≤ b * b) : Near x a := by
  obtain ⟨rest, sq, small⟩ := within
  have coarse : 0 < b := by nlinarith
  have le : a ≤ b := by nlinarith
  have close : rest ≤ a := by nlinarith
  exact ⟨by omega, by nlinarith⟩

/-- A step squares the error, or it ends at the root. -/
theorem Within.step (within : Within b x a) :
    Within (4 * b * b) x (step x a) ∨ Near x (step x a) := by
  obtain ⟨rest, sq, small⟩ := within
  have nonzero : 0 < a := by nlinarith
  rcases le_total x (Newton.step x a * Newton.step x a) with above | below
  · obtain ⟨rest', sq'⟩ := Nat.exists_eq_add_of_le above
    have error := step_rest sq'
    have squared : 4 * x * rest' ≤ rest * rest := by nlinarith
    refine .inl ⟨rest', sq', le_of_mul_le_mul_left ?_ positive⟩
    calc x * (4 * b * b * rest') = b * b * (4 * x * rest') := by ring
      _ ≤ b * b * (rest * rest) := mul_le_mul_left _ squared
      _ = b * rest * (b * rest) := by ring
      _ ≤ x * x := Nat.mul_le_mul small small
  · exact .inr ⟨by omega, lt_step_sq nonzero⟩

/-- The first step, from a number whose square is at least half and at most twice `x`. -/
theorem step_first (low : a * a ≤ 2 * x) (high : x ≤ 2 * (a * a)) :
    Within 8 x (step x a) ∨ Near x (step x a) := by
  have nonzero : 0 < a := by nlinarith
  rcases le_total x (Newton.step x a * Newton.step x a) with above | below
  · obtain ⟨rest', sq'⟩ := Nat.exists_eq_add_of_le above
    have error := step_rest sq'
    refine .inl ⟨rest', sq', ?_⟩
    obtain ⟨more, twice⟩ := Nat.exists_eq_add_of_le low
    obtain ⟨more', twice'⟩ := Nat.exists_eq_add_of_le high
    by_contra large
    nlinarith
  · exact .inr ⟨by omega, lt_step_sq nonzero⟩

/-- The bounds of all that follows. -/
def Close (b x a : Nat) : Prop := Within b x a ∨ Near x a

theorem Close.step (close : Close b x a) : Close (4 * b * b) x (step x a) :=
  close.elim (·.step positive) fun near => .inr (near.step positive)

theorem Close.near (close : Close b x a) (fine : 2 * x ≤ b * b) : Near x a :=
  close.elim (·.near positive fine) id

theorem Close.bounds (close : Close b x a) (coarse : 0 < b) : a * a ≤ 2 * x ∧ x ≤ 3 * (a * a) := by
  rcases close with ⟨rest, sq, small⟩ | near
  · exact ⟨by nlinarith, by nlinarith⟩
  · obtain ⟨low, high⟩ := near
    exact ⟨by nlinarith, by nlinarith⟩

/-- The sum whose half is the next number is within the type of `x`. -/
theorem sum_le (low : a * a ≤ 2 * x) (high : x ≤ 3 * (a * a)) {max : Nat} (le : x ≤ max)
    (large : 32 ≤ max) : 0 < a ∧ a + x / a ≤ max := by
  have nonzero : 0 < a := by nlinarith
  have quotient : x / a ≤ 3 * a := Nat.div_le_of_le_mul (by nlinarith)
  have square : 4 * a ≤ max := by nlinarith
  exact ⟨nonzero, by omega⟩

end Positive

end CreditChain.Newton
