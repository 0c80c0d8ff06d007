import CreditChain.Lib.Checked
import CreditChain.Lib.Newton
import Mathlib.Data.Nat.Log

/-!
# Integer roots: `math64` and `math128`

The functions of the two modules differ in the width of their integers, `2 ^ k` bits, and in the
number of Newton steps.
-/

namespace CreditChain

open Nat

open CreditChain.Except (bind_eq_ok)

namespace Math

def eInvalidArgFloorLog2 : Nat := 1

/-- The loop of `floor_log2`, where `n` is `2 ^ k` in the round that leaves `k` rounds. -/
def floorLog2Loop : Nat → Nat → Nat → Checked Nat
  | 0, _, res => .ok res
  | k + 1, x, res =>
    if x ≥ 2 ^ 2 ^ k then do
      let res ← Checked.add 255 res (2 ^ k)
      floorLog2Loop k (x / 2 ^ 2 ^ k) res
    else floorLog2Loop k x res

def floorLog2 (k x : Nat) : Checked Nat := do
  ensure (x ≠ 0) (.invalidArgument eInvalidArgFloorLog2)
  floorLog2Loop k x 0

/-- `(res + x / res) >> 1`. -/
def newtonStep (k x res : Nat) : Checked Nat := do
  let quotient ← Checked.div x res
  let sum ← Checked.add (2 ^ 2 ^ k - 1) res quotient
  return sum / 2

def newtonSteps (k x : Nat) : Nat → Nat → Checked Nat
  | 0, res => .ok res
  | steps + 1, res => do
    let res ← newtonStep k x res
    newtonSteps k x steps res

def sqrt (k steps x : Nat) : Checked Nat :=
  if x = 0 then .ok 0
  else do
    let log ← floorLog2 k x
    let shift ← Checked.add 255 log 1
    -- a shift by the width of the type or more aborts
    ensure (shift / 2 < 2 ^ k) .arithmetic
    let res ← newtonSteps k x steps (2 ^ (shift / 2))
    let quotient ← Checked.div x res
    return min res quotient

end Math

def Math64.sqrt (x : Nat) : Checked Nat := Math.sqrt 6 4 x

def Math128.sqrt (x : Nat) : Checked Nat := Math.sqrt 7 5 x

namespace Math

open Newton

variable {k x a b : Nat}

theorem floorLog2Loop_eq {res : Nat} (positive : x ≠ 0) (small : x < 2 ^ 2 ^ k)
    (fits : res + 2 ^ k ≤ 256) : floorLog2Loop k x res = .ok (res + Nat.log 2 x) := by
  induction k generalizing x res with
  | zero =>
    obtain rfl : x = 1 := by omega
    rfl
  | succ k ih =>
    have twice : 2 ^ (k + 1) = 2 ^ k + 2 ^ k := by ring
    have nonzero := Nat.two_pow_pos k
    rw [floorLog2Loop]
    split
    · next large =>
      have enough : 2 ^ k ≤ Nat.log 2 x := (le_log_iff_pow_le (by decide) positive).mpr large
      have rest : x / 2 ^ 2 ^ k < 2 ^ 2 ^ k := by
        rw [div_lt_iff_lt_mul (by positivity), ← pow_add, ← twice]
        exact small
      refine bind_eq_ok.mpr ⟨_, Checked.add_eq_ok.mpr ⟨by omega, rfl⟩, ?_⟩
      rw [ih (div_pos large (by positivity)).ne' rest (by omega), log_div_base_pow]
      congr 1
      omega
    · next less => exact ih positive (by omega) (by omega)

/-- The position of the first bit. -/
theorem floorLog2_eq (wide : k ≤ 8) (positive : x ≠ 0) (small : x < 2 ^ 2 ^ k) :
    floorLog2 k x = .ok (Nat.log 2 x) := by
  have most : 2 ^ k ≤ 2 ^ 8 := Nat.pow_le_pow_right (by decide) wide
  refine bind_eq_ok.mpr ⟨(), ensure_eq_ok.mpr positive, ?_⟩
  rw [floorLog2Loop_eq positive small (by omega), zero_add]

theorem newtonStep_eq (low : a * a ≤ 2 * x) (high : x ≤ 3 * (a * a)) (positive : 0 < x)
    (small : x < 2 ^ 2 ^ k) (wide : 32 < 2 ^ 2 ^ k) : newtonStep k x a = .ok (step x a) := by
  obtain ⟨nonzero, sum⟩ := sum_le positive low high (le_sub_one_of_lt small) (by omega)
  exact bind_eq_ok.mpr ⟨_, Checked.div_eq_ok.mpr ⟨nonzero.ne', rfl⟩,
    bind_eq_ok.mpr ⟨_, Checked.add_eq_ok.mpr ⟨sum, rfl⟩, rfl⟩⟩

theorem newtonSteps_eq (close : Close b x a) (coarse : 0 < b) (positive : 0 < x)
    (small : x < 2 ^ 2 ^ k) (wide : 32 < 2 ^ 2 ^ k) (steps : Nat) :
    ∃ res, newtonSteps k x steps a = .ok res ∧ Close ((fun b => 4 * b * b)^[steps] b) x res := by
  induction steps generalizing a b with
  | zero => exact ⟨a, rfl, close⟩
  | succ steps ih =>
    obtain ⟨low, high⟩ := close.bounds positive coarse
    obtain ⟨res, done, close'⟩ := ih (close.step positive) (by positivity)
    exact ⟨res, bind_eq_ok.mpr ⟨_, newtonStep_eq low high positive small wide, done⟩, close'⟩

/-- The bit after the first half of the bits of `x` is the first guess. -/
theorem guess_sq (positive : x ≠ 0) {half : Nat} (middle : half = (Nat.log 2 x + 1) / 2) :
    2 ^ half * 2 ^ half ≤ 2 * x ∧ x ≤ 2 * (2 ^ half * 2 ^ half) := by
  have low := pow_log_le_self 2 positive
  have high := lt_pow_succ_log_self (b := 2) (by decide) x
  rw [← pow_add]
  constructor
  · calc 2 ^ (half + half) ≤ 2 ^ (Nat.log 2 x + 1) := Nat.pow_le_pow_right (by decide) (by omega)
      _ ≤ 2 * x := by rw [pow_succ]; omega
  · calc x ≤ 2 ^ (Nat.log 2 x + 1) := high.le
      _ ≤ 2 ^ (half + half + 1) := Nat.pow_le_pow_right (by decide) (by omega)
      _ = 2 * 2 ^ (half + half) := by ring

theorem sqrt_eq {steps : Nat} (small : x < 2 ^ 2 ^ k) (wide : 3 ≤ k) (narrow : k ≤ 7)
    (enough : 2 * 2 ^ 2 ^ k ≤ (fun b => 4 * b * b)^[steps] 8 * (fun b => 4 * b * b)^[steps] 8) :
    ∃ r, sqrt k (steps + 1) x = .ok r ∧ r * r ≤ x ∧ x < (r + 1) * (r + 1) := by
  rcases Nat.eq_zero_or_pos x with rfl | positive
  · exact ⟨0, rfl, le_refl 0, one_pos⟩
  have large : 2 ^ 2 ^ 3 ≤ 2 ^ 2 ^ k :=
    Nat.pow_le_pow_right (by decide) (Nat.pow_le_pow_right (by decide) wide)
  have bits : 2 ^ k ≤ 2 ^ 7 := Nat.pow_le_pow_right (by decide) narrow
  have log : Nat.log 2 x < 2 ^ k := log_lt_of_lt_pow positive.ne' small
  obtain ⟨low, high⟩ := guess_sq positive.ne' rfl
  obtain ⟨res, done, close⟩ := newtonSteps_eq (step_first positive low high) (by decide) positive
    small (by omega) steps
  have first := newtonStep_eq low (by omega) positive small (by omega)
  have near := close.near positive (by omega)
  refine ⟨_, ?_, near.floor positive⟩
  rw [sqrt, if_neg positive.ne', floorLog2_eq (by omega) positive.ne' small]
  simp only [newtonSteps, bind_eq_ok, Checked.add_eq_ok, Checked.div_eq_ok, ensure_eq_ok]
  exact ⟨_, rfl, _, ⟨by omega, rfl⟩, (), by omega, res, ⟨_, first, done⟩, _,
    ⟨(near.pos positive).ne', rfl⟩, rfl⟩

/-- Both functions round the root down and never abort. -/
theorem sqrt_exact :
    (∀ x : BitVec 64, ∃ r, Math64.sqrt x.toNat = .ok r ∧
      r * r ≤ x.toNat ∧ x.toNat < (r + 1) * (r + 1)) ∧
    ∀ x : BitVec 128, ∃ r, Math128.sqrt x.toNat = .ok r ∧
      r * r ≤ x.toNat ∧ x.toNat < (r + 1) * (r + 1) :=
  ⟨fun x => sqrt_eq x.isLt (by decide) (by decide) (by decide),
    fun x => sqrt_eq x.isLt (by decide) (by decide) (by decide)⟩

end Math

end CreditChain
