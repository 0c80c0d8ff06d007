import Mathlib.Data.Nat.Bitwise
import Mathlib.Data.Nat.Factorization.Basic
import Mathlib.Tactic.Ring

/-!
# 64-bit words

A word is a natural number below `2 ^ 64`.  The operations on bits are those of a machine
word; additions and subtractions are checked.

A number with `l` trailing ones is `ones l q`: the ones, a zero, and the bits of `q`.
Every number has this form (`exists_ones`), and the operations on bits are evaluated on it.
-/

namespace CreditChain

open List Nat

/-- The largest value of a `u64`. -/
def u64Max : Nat := 2 ^ 64 - 1

-- `trailing_zeros` and `count_ones` of a `u64`
def trailingZeros64 (n : Nat) : Nat := ((List.range 64).find? fun i => n.testBit i).getD 64

def countOnes64 (n : Nat) : Nat := (List.range 64).countP fun i => n.testBit i

-- `(!n).trailing_zeros()` of a `u64`
def trailingOnes64 (n : Nat) : Nat := ((List.range 64).find? fun i => !n.testBit i).getD 64

-- `leading_zeros` of a `u64`
def leadingZeros64 (n : Nat) : Nat := ((List.range 64).find? fun i => n.testBit (63 - i)).getD 64

-- `!n` and `n << k` of a `u64`
def not64 (n : Nat) : Nat := 2 ^ 64 - (n + 1)

def shl64 (n k : Nat) : Nat := n <<< k % 2 ^ 64

/-- `a + b`, unless it overflows. -/
def add64 (a b : Nat) : Option Nat := if a + b < 2 ^ 64 then some (a + b) else none

/-- `a - b`, unless it underflows. -/
def sub64 (a b : Nat) : Option Nat := if b ≤ a then some (a - b) else none

/-- `iter().sum::<u64>()`: no partial sum overflows before the whole one. -/
def sum64 (l : List Nat) : Option Nat := if l.sum < 2 ^ 64 then some l.sum else none

theorem sum64_eq {l : List Nat} (small : l.sum < 2 ^ 64) : sum64 l = some l.sum := if_pos small

/-- `l` trailing ones, a zero, and the bits of `q`. -/
def ones (l q : Nat) : Nat := 2 ^ (l + 1) * q + (2 ^ l - 1)

theorem some_bind {α β : Type} (a : α) (f : α → Option β) : (some a >>= f) = f a := rfl

theorem guard_bind {α : Type} {p : Prop} [Decidable p] (holds : p) (next : Unit → Option α) :
    (guard p >>= next) = next () := by
  rw [guard, if_pos holds]
  rfl

namespace Word64

variable {n : Nat}

theorem testBit_not64 (small : n < 2 ^ 64) (i : Nat) :
    (not64 n).testBit i = (decide (i < 64) && !n.testBit i) :=
  testBit_two_pow_sub_succ small i

variable {k a b l q w c : Nat}

/-- Clearing a bit. -/
theorem testBit_clear (small : n < 2 ^ 64) (inside : k < 64) (i : Nat) :
    (n &&& not64 (2 ^ k)).testBit i = (n.testBit i && !decide (k = i)) := by
  rw [testBit_and, testBit_not64 (Nat.pow_lt_pow_right (by decide) inside), testBit_two_pow]
  by_cases low : i < 64
  · simp [low]
  · have large : n < 2 ^ i :=
      small.trans_le (Nat.pow_le_pow_right (by decide) (not_lt.mp low))
    simp [testBit_lt_two_pow large]

theorem shl64_eq (small : n * 2 ^ k < 2 ^ 64) : shl64 n k = n * 2 ^ k := by
  rw [shl64, shiftLeft_eq, mod_eq_of_lt small]

theorem add64_eq (small : a + b < 2 ^ 64) : add64 a b = some (a + b) := if_pos small

theorem sub64_eq (le : b ≤ a) : sub64 a b = some (a - b) := if_pos le

/-! ## Trailing and leading bits -/

theorem testBit_ones (l q i : Nat) :
    (ones l q).testBit i =
      if i < l then true else if i = l then false else q.testBit (i - (l + 1)) := by
  have small : 2 ^ l - 1 < 2 ^ (l + 1) := by
    have := Nat.pow_lt_pow_right (a := 2) (by decide) (lt_succ_self l)
    omega
  rw [ones, testBit_two_pow_mul_add q small]
  rcases lt_trichotomy i l with lt | rfl | gt
  · simp [lt, lt_succ_of_lt lt]
  · simp
  · simp [not_lt_of_gt gt, gt.ne', (succ_le_of_lt gt).not_gt]

theorem ones_succ (l q : Nat) : ones l q + 1 = 2 ^ l * (2 * q + 1) := by
  have := Nat.one_le_two_pow (n := l)
  rw [ones, pow_succ, mul_add, ← mul_assoc]
  omega

theorem ones_one_add (l q : Nat) : ones (l + 1) q = 2 * ones l q + 1 := by
  have := ones_succ l q
  have next := ones_succ (l + 1) q
  rw [pow_succ, mul_comm _ 2, mul_assoc] at next
  omega

theorem two_pow_mul_ones (l t q : Nat) :
    2 ^ l * (ones (t + 1) q + 1) = 2 ^ (l + 1) * (ones t q + 1) := by
  rw [ones_one_add]
  ring

/-- Every number is a run of ones, a zero, and further bits. -/
theorem exists_ones (n : Nat) : ∃ l q, n = ones l q := by
  obtain ⟨l, m, odd, eq⟩ := exists_eq_two_pow_mul_odd (succ_ne_zero n)
  obtain ⟨q, rfl⟩ := odd
  refine ⟨l, q, ?_⟩
  have := ones_succ l q
  omega

theorem lt_of_ones_lt (small : ones l q < 2 ^ w - 1) : l < w := by
  by_contra large
  have : 2 ^ w ≤ 2 ^ l := Nat.pow_le_pow_right (by decide) (not_lt.mp large)
  unfold ones at small
  omega

theorem trailingOnes64_ones (small : l < 64) : trailingOnes64 (ones l q) = l := by
  have found : (range 64).find? (fun i => !(ones l q).testBit i) = some l := by
    rw [find?_range_eq_some]
    refine ⟨by simp [testBit_ones], mem_range.mpr small, ?_⟩
    intro i lt
    simp [testBit_ones, lt]
  rw [trailingOnes64, found, Option.getD_some]

theorem trailingZeros64_not64 (level : l < 64) (small : ones l q < 2 ^ 64) :
    trailingZeros64 (not64 (ones l q)) = l := by
  have found : (range 64).find? (fun i => (not64 (ones l q)).testBit i) = some l := by
    rw [find?_range_eq_some]
    refine ⟨by simp [testBit_not64 small, testBit_ones, level], mem_range.mpr level, ?_⟩
    intro i lt
    simp [testBit_not64 small, testBit_ones, lt]
  rw [trailingZeros64, found, Option.getD_some]

theorem trailingZeros64_eq (level : l < 64) : trailingZeros64 (2 ^ l * (2 * q + 1)) = l := by
  have found : (range 64).find? (fun i => (2 ^ l * (2 * q + 1)).testBit i) = some l := by
    rw [find?_range_eq_some]
    refine ⟨?_, mem_range.mpr level, ?_⟩
    · rw [mul_comm, testBit_mul_two_pow]
      simp
    · intro i lt
      rw [mul_comm, testBit_mul_two_pow]
      simp [lt.not_ge]
  rw [trailingZeros64, found, Option.getD_some]

theorem testBit_top (low : 2 ^ c ≤ n) (high : n < 2 ^ (c + 1)) : n.testBit c = true := by
  rw [testBit_eq_decide_div_mod_eq]
  have : n / 2 ^ c = 1 := by
    apply Nat.div_eq_of_lt_le
    · omega
    · omega
  rw [this]
  rfl

theorem leadingZeros64_eq (level : c < 64) (low : 2 ^ c ≤ n)
    (high : n < 2 ^ (c + 1)) : leadingZeros64 n = 63 - c := by
  have found : (range 64).find? (fun i => n.testBit (63 - i)) = some (63 - c) := by
    rw [find?_range_eq_some]
    refine ⟨?_, mem_range.mpr (by omega), ?_⟩
    · rw [Nat.sub_sub_self (by omega)]
      exact testBit_top low high
    intro i lt
    have above : n < 2 ^ (63 - i) :=
      high.trans_le (Nat.pow_le_pow_right (by decide) (by omega))
    rw [testBit_lt_two_pow above]
    rfl
  rw [leadingZeros64, found, Option.getD_some]

/-! ## The number of ones -/

/-- The ones among the lowest `w` bits. -/
def countBits (w n : Nat) : Nat := (List.range w).countP fun i => n.testBit i

theorem countBits_succ (w n : Nat) : countBits (w + 1) n = n % 2 + countBits w (n / 2) := by
  unfold countBits
  rw [range_succ_eq_map, countP_cons, countP_map]
  have shift : ((fun i => n.testBit i) ∘ succ) = fun i => (n / 2).testBit i := by
    funext i
    exact testBit_succ n i
  rw [shift, add_comm]
  rcases mod_two_eq_zero_or_one n with even | odd
  · simp [even]
  · simp [odd]

theorem countBits_of_lt (small : n < 2 ^ w) : countBits (w + 1) n = countBits w n := by
  unfold countBits
  rw [range_succ, countP_append, countP_singleton, testBit_lt_two_pow small]
  simp

theorem countBits_le (w n : Nat) : countBits w n ≤ n := by
  induction w generalizing n with
  | zero => exact zero_le n
  | succ w ih =>
    rw [countBits_succ]
    have := ih (n / 2)
    omega

theorem countOnes64_le (n : Nat) : countOnes64 n ≤ n := countBits_le 64 n

theorem countOnes64_eq (small : n < 2 ^ 64) : countOnes64 n = n % 2 + countOnes64 (n / 2) := by
  have half : n / 2 < 2 ^ 63 := by omega
  calc countOnes64 n = n % 2 + countBits 63 (n / 2) := countBits_succ 63 n
    _ = n % 2 + countOnes64 (n / 2) := by rw [← countBits_of_lt half]; rfl

theorem countOnes64_mul_two_pow (small : 2 ^ k * n < 2 ^ 64) :
    countOnes64 (2 ^ k * n) = countOnes64 n := by
  induction k with
  | zero => simp
  | succ k ih =>
    have twice : 2 ^ (k + 1) * n = 2 * (2 ^ k * n) := by ring
    rw [twice] at small ⊢
    rw [countOnes64_eq small, mul_mod_right, Nat.mul_div_cancel_left _ (by decide), Nat.zero_add]
    exact ih (by omega)

end Word64

end CreditChain
