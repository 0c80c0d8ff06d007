import Mathlib.Algebra.BigOperators.Fin
import Mathlib.Algebra.Order.BigOperators.Group.Finset
import Mathlib.Data.List.GetD
import Mathlib.Tactic.Ring

/-!
# Fixed-point numbers

An unsigned number of `width` bits, `frac` of them behind the point.  Sums and differences
that leave the type fail.  Products, quotients and ceilings are cut off behind the last bit.

* `Fixed.add_mk` and its like evaluate an operation whose result fits.
-/

namespace CreditChain

open List Nat

/-- The bits of a number; its value is `bits / 2 ^ frac`. -/
structure Fixed (width frac : Nat) where
  bits : Nat
  deriving DecidableEq

namespace Fixed

variable {width frac : Nat}

/-- An integer. -/
def ofNat (n : Nat) : Fixed width frac := ⟨n * 2 ^ frac⟩

/-- The smallest positive number. -/
def delta : Fixed width frac := ⟨1⟩

variable (a b : Fixed width frac)

def add : Option (Fixed width frac) :=
  if a.bits + b.bits < 2 ^ width then some ⟨a.bits + b.bits⟩ else none

def sub : Option (Fixed width frac) := if b.bits ≤ a.bits then some ⟨a.bits - b.bits⟩ else none

/-- **Assumption**: where its debug assertions are off, as in a release build, the library
wraps a result around that leaves the type. -/
def wrapped (bits : Nat) : Fixed width frac := ⟨bits % 2 ^ width⟩

def mul : Fixed width frac := wrapped (a.bits * b.bits / 2 ^ frac)

/-- A division by zero fails. -/
def div : Option (Fixed width frac) :=
  if b.bits = 0 then none else some (wrapped (a.bits * 2 ^ frac / b.bits))

def floor (a : Fixed width frac) : Fixed width frac := ⟨a.bits / 2 ^ frac * 2 ^ frac⟩

def ceil (a : Fixed width frac) : Fixed width frac :=
  wrapped ((a.bits + (2 ^ frac - 1)) / 2 ^ frac * 2 ^ frac)

/-- The integer part. -/
def toNat (a : Fixed width frac) : Nat := a.bits / 2 ^ frac

def max : Fixed width frac := if a.bits ≤ b.bits then b else a

def min : Fixed width frac := if a.bits ≤ b.bits then a else b

variable {x y : Nat}

theorem ofNat_eq (n : Nat) : (ofNat n : Fixed width frac) = ⟨n * 2 ^ frac⟩ := rfl

theorem add_mk (fits : x + y < 2 ^ width) : (⟨x⟩ : Fixed width frac).add ⟨y⟩ = some ⟨x + y⟩ :=
  if_pos fits

theorem sub_mk (enough : y ≤ x) : (⟨x⟩ : Fixed width frac).sub ⟨y⟩ = some ⟨x - y⟩ := if_pos enough

theorem mul_mk (fits : x * y / 2 ^ frac < 2 ^ width) :
    (⟨x⟩ : Fixed width frac).mul ⟨y⟩ = ⟨x * y / 2 ^ frac⟩ := by
  rw [mul, wrapped, mod_eq_of_lt fits]

theorem div_mk (positive : 0 < y) (fits : x * 2 ^ frac / y < 2 ^ width) :
    (⟨x⟩ : Fixed width frac).div ⟨y⟩ = some ⟨x * 2 ^ frac / y⟩ := by
  rw [div, if_neg positive.ne', wrapped, mod_eq_of_lt fits]

theorem ceil_mk (fits : (x + (2 ^ frac - 1)) / 2 ^ frac * 2 ^ frac < 2 ^ width) :
    (⟨x⟩ : Fixed width frac).ceil = ⟨(x + (2 ^ frac - 1)) / 2 ^ frac * 2 ^ frac⟩ := by
  rw [ceil, wrapped, mod_eq_of_lt fits]

theorem floor_mk (x : Nat) : (⟨x⟩ : Fixed width frac).floor = ⟨x / 2 ^ frac * 2 ^ frac⟩ := rfl

theorem toNat_mk (n : Nat) : (⟨n * 2 ^ frac⟩ : Fixed width frac).toNat = n :=
  Nat.mul_div_cancel n (Nat.two_pow_pos frac)

theorem max_mk (x y : Nat) : (⟨x⟩ : Fixed width frac).max ⟨y⟩ = ⟨Nat.max x y⟩ := by
  unfold max
  split
  · rename_i le
    exact congrArg mk (max_eq_right le).symm
  · rename_i le
    exact congrArg mk (Nat.max_eq_left (Nat.le_of_not_le le)).symm

end Fixed

/-! ## The nearest integer -/

/-- The integer nearest to `a / (2 * half)`. -/
def nearest (half a : Nat) : Nat := (a + half) / (2 * half)

/-- What rounding adds. -/
def gained (half a : Nat) : Nat := nearest half a * (2 * half) - a

/-- What rounding takes away. -/
def lost (half a : Nat) : Nat := a - nearest half a * (2 * half)

section Nearest

variable {half a b : Nat}

/-- What rounding gains and loses. -/
theorem nearest_balance (half a : Nat) :
    nearest half a * (2 * half) + lost half a = a + gained half a := by
  unfold gained lost
  omega

@[simp] theorem nearest_zero (positive : 0 < half) : nearest half 0 = 0 := by
  exact div_eq_of_lt (by omega)

theorem nearest_le (positive : 0 < half) (le : a ≤ b * (2 * half)) : nearest half a ≤ b := by
  refine le_of_lt_succ (Nat.div_lt_of_lt_mul ?_)
  calc a + half ≤ b * (2 * half) + half := Nat.add_le_add_right le half
    _ < b * (2 * half) + 2 * half := by omega
    _ = 2 * half * (b + 1) := by ring

theorem nearest_mul (positive : 0 < half) (n : Nat) : nearest half (n * (2 * half)) = n := by
  unfold nearest
  rw [add_comm, add_mul_div_right _ _ (by omega), div_eq_of_lt (by omega), zero_add]

theorem gained_le (half a : Nat) : gained half a ≤ half := by
  have le : nearest half a * (2 * half) ≤ a + half := div_mul_le_self _ _
  unfold gained
  omega

theorem lost_le (positive : 0 < half) (a : Nat) : lost half a ≤ half := by
  have lt : a + half < (2 * half) * (nearest half a + 1) := lt_mul_div_succ _ (by omega)
  rw [mul_succ, mul_comm] at lt
  unfold lost
  omega

/-- Rounding either gains or loses, and at most one half. -/
theorem gained_add_lost_le (positive : 0 < half) (a : Nat) :
    gained half a + lost half a ≤ half := by
  have gain := gained_le half a
  have loss := lost_le positive a
  unfold gained lost at *
  omega

/-- Rounding errs by no more than the number itself. -/
theorem gained_add_lost_le_self (positive : 0 < half) (a : Nat) :
    gained half a + lost half a ≤ a := by
  rcases lt_or_ge a half with small | large
  · have zero : nearest half a = 0 := div_eq_of_lt (by omega)
    rw [gained, lost, zero]
    omega
  · exact (gained_add_lost_le positive a).trans large

end Nearest

/-! ## Parts of a list of amounts -/

/-- What the places `part` of a list of amounts hold together. -/
def heldBy (amounts : List Nat) (part : Finset Nat) : Nat := ∑ i ∈ part, amounts.getD i 0

section Parts

variable {f : Nat → Nat}

theorem heldBy_map (zero : f 0 = 0) (amounts : List Nat) (part : Finset Nat) :
    heldBy (amounts.map f) part = ∑ i ∈ part, f (amounts.getD i 0) := by
  refine Finset.sum_congr rfl fun i _ => ?_
  have mapped := getD_map amounts 0 f (n := i)
  rw [zero] at mapped
  exact mapped

variable (amounts : List Nat) (part : Finset Nat)

theorem heldBy_range : heldBy amounts (.range amounts.length) = amounts.sum := by
  unfold heldBy
  induction amounts with
  | nil => rfl
  | cons amount rest ih =>
    rw [length_cons, Finset.sum_range_succ', sum_cons, ← ih, add_comm]
    rfl

/-- The places outside `part`. -/
def others : Finset Nat := .range amounts.length \ part

theorem heldBy_inter : heldBy amounts (.range amounts.length ∩ part) = heldBy amounts part := by
  refine Finset.sum_subset Finset.inter_subset_right fun i mem outside => ?_
  refine getD_eq_default _ _ (not_lt.mp fun lt => outside ?_)
  exact Finset.mem_inter.mpr ⟨Finset.mem_range.mpr lt, mem⟩

theorem heldBy_add_others :
    heldBy amounts part + heldBy amounts (others amounts part) = amounts.sum := by
  rw [← heldBy_inter amounts part, ← heldBy_range amounts]
  exact Finset.sum_inter_add_sum_sdiff _ _ _

theorem heldBy_le : heldBy amounts part ≤ amounts.sum := by
  rw [← heldBy_add_others amounts part]
  exact le_add_right _ _

/-- Quotients that are cut off one by one sum to no more than the quotient of the sum. -/
theorem heldBy_div_le (zero : f 0 = 0) (q : Nat) :
    heldBy (amounts.map fun a => f a / q) part ≤ heldBy (amounts.map f) part / q := by
  rcases Nat.eq_zero_or_pos q with rfl | positive
  · simp [heldBy]
  · rw [le_div_iff_mul_le positive, heldBy_map zero, heldBy_map (by rw [zero, Nat.zero_div]),
      Finset.sum_mul]
    exact Finset.sum_le_sum fun i _ => div_mul_le_self _ _

/-- What is cut off from the quotients is less than the divisor for each of them. -/
theorem heldBy_le_div (zero : f 0 = 0) {q : Nat} (positive : 0 < q) :
    heldBy (amounts.map f) part ≤
      heldBy (amounts.map fun a => f a / q) part * q + amounts.length * (q - 1) := by
  rw [← heldBy_inter (amounts.map f), ← heldBy_inter (amounts.map fun a => f a / q), heldBy_map zero,
    heldBy_map (by rw [zero, Nat.zero_div]), length_map, length_map, Finset.sum_mul]
  have few : (.range amounts.length ∩ part).card * (q - 1) ≤ amounts.length * (q - 1) := by
    refine mul_le_mul_right _ ((Finset.card_le_card Finset.inter_subset_left).trans ?_)
    rw [Finset.card_range]
  refine Nat.le_trans ?_ (Nat.add_le_add_left few _)
  rw [← smul_eq_mul (Finset.card _), ← Finset.sum_const, ← Finset.sum_add_distrib]
  refine Finset.sum_le_sum fun i _ => ?_
  have split := div_add_mod (f (amounts.getD i 0)) q
  have small := mod_lt (f (amounts.getD i 0)) positive
  rw [mul_comm] at split
  omega

end Parts

end CreditChain
