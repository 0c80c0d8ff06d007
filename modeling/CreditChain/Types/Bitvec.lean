import Mathlib.Data.List.Range
import Mathlib.Tactic.IntervalCases

/-!
# Signer bit masks

The bit vector of `creditchain-bitvec`: a vector of bytes, read from the most
significant bit on.  Positions are `u16` in the source, so a `usize` index is reduced
by `asU16` before it reaches a mask.

* `Bitvec.isSet_set`: setting a position sets that position and no other.
* `Bitvec.mem_iterOnes`, `Bitvec.iterOnes_sorted`: the iteration lists the set
  positions in increasing order.
* `Bitvec.isSet_of_lastSetBit`: the last set bit is set.
-/

namespace CreditChain

open List

/-- The cast `x as u16`. -/
def asU16 (n : Nat) : Nat := n % 65536

theorem asU16_of_lt {n : Nat} (lt : n < 65536) : asU16 n = n := Nat.mod_eq_of_lt lt

/-- A bit vector, stored as bytes. -/
structure Bitvec where
  inner : List (BitVec 8)
  deriving DecidableEq

namespace Bitvec

/-- The byte with only the bit at big-endian position `i` set: `0b1000_0000 >> i`. -/
def bitAt (i : Nat) : BitVec 8 := 0x80#8 >>> i

/-- Number of buckets required for `numBits` bits. -/
def requiredBuckets (numBits : Nat) : Nat := if numBits = 0 then 0 else (numBits - 1) / 8 + 1

/-- The default bit vector: no buckets. -/
def default : Bitvec := ⟨[]⟩

/-- Enough zero buckets for `numBits` bits. -/
def withNumBits (numBits : Nat) : Bitvec := ⟨List.replicate (requiredBuckets numBits) 0⟩

variable (b : Bitvec)

/-- Mark position `pos`, growing the vector when it is too short. -/
def set (pos : Nat) : Bitvec :=
  let bucket := pos / 8
  let inner :=
    if b.inner.length ≤ bucket then
      b.inner ++ List.replicate (bucket + 1 - b.inner.length) 0
    else b.inner
  ⟨inner.modify bucket (· ||| bitAt (pos - bucket * 8))⟩

/-- Is position `pos` marked? -/
def isSet (pos : Nat) : Bool :=
  let bucket := pos / 8
  match b.inner[bucket]? with
  | none => false
  | some byte => (byte &&& bitAt (pos - bucket * 8)) != 0

/-- Number of set bits of one byte. -/
def byteOnes (byte : BitVec 8) : Nat := (List.range 8).countP fun i => (byte &&& bitAt i) != 0

/-- Number of set bits. -/
def countOnes : Nat := (b.inner.map byteOnes).sum

/-- Number of trailing zero bits of one byte. -/
def trailingZeros (byte : BitVec 8) : Nat := ((List.range 8).find? fun i => byte.getLsbD i).getD 8

/-- Index of the last set bit. -/
def lastSetBit : Option Nat :=
  (b.inner.reverse.zipIdx.find? fun entry => entry.1 != 0).map fun entry =>
    8 * (b.inner.length - entry.2) - trailingZeros entry.1 - 1

/-- All positions whose bit is set, in increasing order. -/
def iterOnes : List Nat := (List.range (b.inner.length * 8)).filter fun idx => b.isSet (asU16 idx)

/-- Number of buckets. -/
def numBuckets : Nat := b.inner.length

/-! ## One byte -/

theorem bitAt_and_bitAt {i j : Nat} (hi : i < 8) (hj : j < 8) :
    (bitAt i &&& bitAt j) != 0 ↔ i = j := by
  interval_cases i <;> interval_cases j <;> decide

/-- Testing one position of a byte after setting another. -/
theorem or_bitAt_and_bitAt {byte : BitVec 8} {i j : Nat} (hi : i < 8) (hj : j < 8) :
    ((byte ||| bitAt i) &&& bitAt j != 0) = (decide (i = j) || (byte &&& bitAt j != 0)) := by
  have distrib : (byte ||| bitAt i) &&& bitAt j = (byte &&& bitAt j) ||| (bitAt i &&& bitAt j) := by
    ext k hk
    simp [Bool.and_or_distrib_right]
  have orZero : ∀ x y : BitVec 8, (x ||| y != 0) = ((x != 0) || (y != 0)) := by
    intro x y
    have zero : x ||| y = 0 ↔ x = 0 ∧ y = 0 := BitVec.or_eq_zero_iff
    rw [Bool.eq_iff_iff]
    simp only [bne_iff_ne, Bool.or_eq_true]
    tauto
  have single : (bitAt i &&& bitAt j != 0) = decide (i = j) := by
    rw [Bool.eq_iff_iff]
    simpa using bitAt_and_bitAt hi hj
  rw [distrib, orZero, single, Bool.or_comm]

/-! ## Setting and testing -/

/-- A byte that is not there reads as zero. -/
theorem isSet_eq (b : Bitvec) (pos : Nat) :
    b.isSet pos = ((b.inner[pos / 8]?.getD 0 &&& bitAt (pos % 8)) != 0) := by
  have sub : pos - pos / 8 * 8 = pos % 8 := by omega
  simp only [isSet, sub]
  cases b.inner[pos / 8]? with
  | none => simp
  | some byte => rfl

variable {pos : Nat} {b : Bitvec}

theorem lt_of_isSet (isSet : b.isSet pos) : pos < b.numBuckets * 8 := by
  by_contra outside
  have short : b.inner.length ≤ pos / 8 := by
    unfold numBuckets at outside
    omega
  rw [isSet_eq, getElem?_eq_none short] at isSet
  simp at isSet

@[simp] theorem isSet_withNumBits (numBits pos : Nat) :
    (withNumBits numBits).isSet pos = false := by
  rw [isSet_eq, withNumBits, getElem?_replicate]
  split
  · simp
  · simp

/-- Setting a position inside the vector keeps its size. -/
theorem numBuckets_set (inside : pos < b.numBuckets * 8) :
    (b.set pos).numBuckets = b.numBuckets := by
  have long : ¬ b.inner.length ≤ pos / 8 := by
    unfold numBuckets at inside
    omega
  simp [set, numBuckets, long]

/-- The vector grows by bytes that are zero. -/
theorem exists_grown (b : Bitvec) (pos : Nat) : ∃ grown : List (BitVec 8),
    (b.set pos).inner = grown.modify (pos / 8) (· ||| bitAt (pos % 8)) ∧
      pos / 8 < grown.length ∧ ∀ i : Nat, grown[i]?.getD 0 = b.inner[i]?.getD 0 := by
  have sub : pos - pos / 8 * 8 = pos % 8 := by omega
  simp only [set, sub]
  split
  · refine ⟨_, rfl, ?_, ?_⟩
    · rw [length_append, length_replicate]
      omega
    intro i
    rw [getElem?_append]
    split
    · rfl
    · rename_i beyond
      rw [getElem?_eq_none (not_lt.mp beyond), getElem?_replicate]
      split
      · rfl
      · rfl
  · exact ⟨_, rfl, by omega, fun _ => rfl⟩

/-- Setting a position sets that position and no other. -/
theorem isSet_set {other : Nat} :
    (b.set pos).isSet other = (decide (pos = other) || b.isSet other) := by
  obtain ⟨grown, eq, long, bytes⟩ := b.exists_grown pos
  rw [isSet_eq, isSet_eq, eq, ← bytes, getElem?_modify]
  by_cases bucket : pos / 8 = other / 8
  · have same : (decide (pos = other)) = decide (pos % 8 = other % 8) := by
      rw [Bool.eq_iff_iff]
      simp only [decide_eq_true_eq]
      omega
    rw [bucket] at long
    simp only [bucket, same, getElem?_eq_getElem long]
    exact or_bitAt_and_bitAt (Nat.mod_lt _ (by decide)) (Nat.mod_lt _ (by decide))
  · have apart : pos ≠ other := by
      rintro rfl
      exact bucket rfl
    simp [bucket, apart]

/-- The lowest set bit of a byte, read from the other end. -/
theorem trailingZeros_spec : ∀ byte : BitVec 8, byte ≠ 0 →
    trailingZeros byte < 8 ∧ (byte &&& bitAt (7 - trailingZeros byte)) != 0 := by
  decide +kernel

theorem isSet_of_lastSetBit (last : b.lastSetBit = some pos) : b.isSet pos := by
  obtain ⟨⟨byte, idx⟩, found, rfl⟩ := Option.map_eq_some_iff.mp last
  have nonzero : byte ≠ 0 := by simpa using find?_some found
  have mem := mem_of_find?_eq_some found
  have atIdx := mk_mem_zipIdx_iff_getElem?.mp mem
  have bound := (List.getElem?_eq_some_iff.mp atIdx).1
  rw [length_reverse] at bound
  rw [getElem?_reverse bound] at atIdx
  obtain ⟨few, set⟩ := trailingZeros_spec byte nonzero
  have bucket : (8 * (b.inner.length - idx) - trailingZeros byte - 1) / 8 =
      b.inner.length - 1 - idx := by omega
  have inByte : (8 * (b.inner.length - idx) - trailingZeros byte - 1) % 8 =
      7 - trailingZeros byte := by omega
  rw [isSet_eq, bucket, inByte, atIdx]
  exact set

/-! ## Iterating -/

theorem mem_iterOnes (small : b.numBuckets * 8 ≤ 65536) : pos ∈ b.iterOnes ↔ b.isSet pos := by
  simp only [iterOnes, mem_filter, mem_range]
  constructor
  · rintro ⟨inside, isSet⟩
    unfold numBuckets at small
    rwa [asU16_of_lt (by omega)] at isSet
  · intro isSet
    have inside := lt_of_isSet isSet
    refine ⟨inside, ?_⟩
    rwa [asU16_of_lt (by omega)]

/-- The positions come in increasing order. -/
theorem iterOnes_sorted (b : Bitvec) : b.iterOnes.Pairwise (· < ·) :=
  .filter _ pairwise_lt_range

theorem iterOnes_nodup (b : Bitvec) : b.iterOnes.Nodup :=
  b.iterOnes_sorted.imp fun lt => lt.ne

/-- The set positions of the first buckets are counted bucket by bucket. -/
theorem countP_isSet_take (b : Bitvec) {n : Nat} (le : n ≤ b.inner.length) :
    (List.range (n * 8)).countP (fun pos => b.isSet pos) =
      ((b.inner.take n).map byteOnes).sum := by
  induction n with
  | zero => rfl
  | succ n ih =>
    have bucket : b.inner[n]? = some b.inner[n] := getElem?_eq_getElem (by omega)
    rw [add_mul, range_add, countP_append, ih (by omega),
      take_add_one, bucket, map_append, sum_append, countP_map]
    congr 1
    rw [Option.toList_some, map_singleton, sum_singleton]
    refine countP_congr fun i mem => ?_
    have inside := mem_range.mp mem
    have inBucket : (n * 8 + i) / 8 = n := by omega
    have inByte : (n * 8 + i) % 8 = i := by omega
    rw [Function.comp_apply, isSet_eq, inBucket, inByte, bucket, Option.getD_some]

theorem length_iterOnes (small : b.numBuckets * 8 ≤ 65536) : b.iterOnes.length = b.countOnes := by
  unfold numBuckets at small
  have plain : b.iterOnes = (range (b.inner.length * 8)).filter fun pos => b.isSet pos :=
    filter_congr fun pos mem => by
      rw [asU16_of_lt (by have := mem_range.mp mem; omega)]
  rw [plain, ← countP_eq_length_filter, countP_isSet_take b le_rfl, take_length, countOnes]

end Bitvec

end CreditChain
