import CreditChain.Lib.Word64
import Mathlib.Data.Nat.Log

/-!
# Merkle trees over a growing list of leaves

`subtree` is the hash of a perfect binary tree whose missing leaves are at the right: a
subtree without leaves has the placeholder as its hash.  `nodeHash` is the hash of a node,
given by its level above the leaves and its place in the level.
-/

namespace CreditChain

open List

/-- The hash of an internal node and the hash that stands for an empty subtree. -/
structure MerkleHasher (H : Type) where
  internal : H → H → H
  placeholder : H

namespace MerkleTree

section Hashes

variable {H : Type} (hasher : MerkleHasher H)

/-- The hash of a tree of height `level` whose first leaves are `leaves`. -/
def subtree : Nat → List H → H
  | 0, leaves => leaves.headD hasher.placeholder
  | level + 1, leaves =>
    if leaves.isEmpty then hasher.placeholder
    else hasher.internal (subtree level (leaves.take (2 ^ level)))
      (subtree level (leaves.drop (2 ^ level)))

/-- The hash of the smallest tree that holds all leaves. -/
def rootHash (leaves : List H) : H := subtree hasher (Nat.clog 2 leaves.length) leaves

/-- The hash of the node with `pos` nodes to its left on its level. -/
def nodeHash (leaves : List H) (level pos : Nat) : H :=
  subtree hasher level (leaves.drop (2 ^ level * pos))

variable {hasher} {leaves : List H} {level pos : Nat}

@[simp] theorem subtree_nil (level : Nat) : subtree hasher level [] = hasher.placeholder := by
  cases level with
  | zero | succ level => rfl

theorem subtree_take {count : Nat} (enough : 2 ^ level ≤ count) :
    subtree hasher level (leaves.take count) = subtree hasher level leaves := by
  induction level generalizing leaves count with
  | zero =>
    cases leaves with
    | nil => simp
    | cons leaf leaves =>
      cases count with
      | zero => simp at enough
      | succ count => rfl
  | succ level ih =>
    have positive : count ≠ 0 := by
      have := Nat.two_pow_pos level
      omega
    have empty : (leaves.take count).isEmpty = leaves.isEmpty := by
      rw [Bool.eq_iff_iff]
      simp [positive]
    rw [subtree, subtree, empty, take_take, min_eq_left (by omega), drop_take,
      ih (by omega : 2 ^ level ≤ count - 2 ^ level)]

theorem rootHash_eq (leaves : List H) :
    rootHash hasher leaves = nodeHash hasher leaves (Nat.clog 2 leaves.length) 0 := rfl

theorem nodeHash_zero (inside : pos < leaves.length) : nodeHash hasher leaves 0 pos = leaves[pos] := by
  rw [nodeHash, pow_zero, one_mul, drop_eq_getElem_cons inside]
  rfl

theorem nodeHash_empty (outside : leaves.length ≤ 2 ^ level * pos) :
    nodeHash hasher leaves level pos = hasher.placeholder := by
  rw [nodeHash, drop_of_length_le outside, subtree_nil]

/-- Where the leaves of a node, of its right child and of the next node start. -/
theorem two_pow_children (level pos : Nat) : 2 ^ (level + 1) * pos = 2 ^ level * (2 * pos) ∧
    2 ^ (level + 1) * pos + 2 ^ level = 2 ^ level * (2 * pos + 1) ∧
    2 ^ (level + 1) * (pos + 1) = 2 ^ level * (2 * pos + 1) + 2 ^ level ∧
    2 ^ (level + 1) * (pos + 1) = 2 ^ level * (2 * pos + 1 + 1) :=
  ⟨by ring, by ring, by ring, by ring⟩

/-- The hash of a node from the hashes of its children. -/
theorem nodeHash_succ (inside : 2 ^ (level + 1) * pos < leaves.length) :
    nodeHash hasher leaves (level + 1) pos =
      hasher.internal (nodeHash hasher leaves level (2 * pos))
        (nodeHash hasher leaves level (2 * pos + 1)) := by
  have nonempty : (leaves.drop (2 ^ (level + 1) * pos)).isEmpty = false := by
    rw [isEmpty_eq_false_iff, ne_eq, drop_eq_nil_iff]
    omega
  obtain ⟨left, right, -⟩ := two_pow_children level pos
  rw [nodeHash, subtree, nonempty, subtree_take (le_rfl), drop_drop, left]
  rfl

/-- A node at an odd place and its left sibling. -/
theorem nodeHash_odd (odd : pos % 2 = 1) (inside : 2 ^ level * pos ≤ leaves.length) :
    nodeHash hasher leaves (level + 1) (pos / 2) =
      hasher.internal (nodeHash hasher leaves level (pos - 1))
        (nodeHash hasher leaves level pos) := by
  obtain ⟨half, rfl⟩ : ∃ half, pos = 2 * half + 1 := ⟨pos / 2, by omega⟩
  have positive := Nat.two_pow_pos level
  obtain ⟨-, double, -⟩ := two_pow_children level half
  rw [show (2 * half + 1) / 2 = half by omega, nodeHash_succ (by omega), Nat.add_sub_cancel]

/-- A node at an even place with nothing to its right. -/
theorem nodeHash_even (even : pos % 2 = 0) (inside : 2 ^ level * pos < leaves.length)
    (last : leaves.length ≤ 2 ^ level * (pos + 1)) :
    nodeHash hasher leaves (level + 1) (pos / 2) =
      hasher.internal (nodeHash hasher leaves level pos) hasher.placeholder := by
  obtain ⟨half, rfl⟩ : ∃ half, pos = 2 * half := ⟨pos / 2, by omega⟩
  obtain ⟨double, -⟩ := two_pow_children level half
  rw [Nat.mul_div_cancel_left _ (by decide), nodeHash_succ (by omega), nodeHash_empty last]

/-- The hash of a full subtree is not changed by further leaves. -/
theorem nodeHash_append {more : List H} (full : 2 ^ level * (pos + 1) ≤ leaves.length) :
    nodeHash hasher (leaves ++ more) level pos = nodeHash hasher leaves level pos := by
  have positive := Nat.two_pow_pos level
  have inside : 2 ^ level * pos + 2 ^ level ≤ leaves.length := by
    exact full
  have same : ((leaves ++ more).drop (2 ^ level * pos)).take (2 ^ level) =
      (leaves.drop (2 ^ level * pos)).take (2 ^ level) := by
    rw [drop_append_of_le_length (by omega), take_append_of_le_length]
    rw [length_drop]
    omega
  rw [nodeHash, nodeHash, ← subtree_take (le_rfl), same, subtree_take (le_rfl)]

/-! ## Paths -/

variable (hasher) in
/-- One step up: the place in the level says on which side the sibling is. -/
def join (hash sibling : H) (pos : Nat) : H :=
  if pos % 2 = 0 then hasher.internal hash sibling else hasher.internal sibling hash

variable (hasher) in
/-- Hash up from the node at place `pos` of a level. -/
def climb : List H → H → Nat → H
  | [], hash, _ => hash
  | sibling :: siblings, hash, pos => climb siblings (join hasher hash sibling pos) (pos / 2)

/-- The place of the sibling. -/
def siblingPos (pos : Nat) : Nat := if pos % 2 = 1 then pos - 1 else pos + 1

/-- The siblings on the path up, level by level. -/
def siblingPath : Nat → Nat → Nat → List (Nat × Nat)
  | 0, _, _ => []
  | count + 1, level, pos => (level, siblingPos pos) :: siblingPath count (level + 1) (pos / 2)

@[simp] theorem length_siblingPath (count level pos : Nat) :
    (siblingPath count level pos).length = count := by
  induction count generalizing level pos with
  | zero => rfl
  | succ count ih => rw [siblingPath, length_cons, ih]

theorem join_eq (inside : 2 ^ level * pos < leaves.length) :
    join hasher (nodeHash hasher leaves level pos) (nodeHash hasher leaves level (siblingPos pos))
      pos = nodeHash hasher leaves (level + 1) (pos / 2) := by
  obtain ⟨half, rfl | rfl⟩ : ∃ half, pos = 2 * half ∨ pos = 2 * half + 1 := ⟨pos / 2, by omega⟩
  · obtain ⟨double, -⟩ := two_pow_children level half
    rw [join, siblingPos, if_pos (by omega), if_neg (by omega), Nat.mul_div_cancel_left _ (by decide),
      nodeHash_succ (by omega)]
  · obtain ⟨-, double, -⟩ := two_pow_children level half
    have positive := Nat.two_pow_pos level
    rw [join, siblingPos, if_neg (by omega), if_pos (by omega),
      show (2 * half + 1) / 2 = half by omega, nodeHash_succ (by omega), Nat.add_sub_cancel]

/-- Hashing up from a leaf with the siblings of its path gives the hash of the root. -/
theorem climb_complete {count : Nat} (inside : 2 ^ level * pos < leaves.length) :
    climb hasher ((siblingPath count level pos).map fun place =>
        nodeHash hasher leaves place.1 place.2) (nodeHash hasher leaves level pos) pos =
      nodeHash hasher leaves (level + count) (pos / 2 ^ count) := by
  induction count generalizing level pos with
  | zero => simp [siblingPath, climb]
  | succ count ih =>
    have half : 2 ^ (level + 1) * (pos / 2) ≤ 2 ^ level * pos := by
      rw [pow_succ, mul_assoc]
      exact Nat.mul_le_mul_left _ (Nat.mul_div_le pos 2)
    rw [siblingPath, map_cons, climb, join_eq inside, ih (by omega), Nat.div_div_eq_div_mul,
      pow_succ, mul_comm 2, ← add_assoc, add_right_comm]

theorem climb_append (siblings : List H) (sibling hash : H) (pos : Nat) :
    climb hasher (siblings ++ [sibling]) hash pos =
      join hasher (climb hasher siblings hash pos) sibling (pos / 2 ^ siblings.length) := by
  induction siblings generalizing hash pos with
  | nil => simp [climb]
  | cons first siblings ih =>
    rw [cons_append, climb, ih, climb, length_cons, Nat.div_div_eq_div_mul, pow_succ, mul_comm 2]

/-- A hash without collisions, whose values are not the placeholder. -/
structure OneWay (hasher : MerkleHasher H) : Prop where
  injective : ∀ {a b c d : H}, hasher.internal a b = hasher.internal c d → a = c ∧ b = d
  proper : ∀ a b : H, hasher.internal a b ≠ hasher.placeholder

/-- A digest that is not the hash of an internal node. -/
def Atomic (hasher : MerkleHasher H) (hash : H) : Prop := ∀ a b, hasher.internal a b ≠ hash

variable {hash sibling : H}

theorem join_ne {other : H} (atomic : Atomic hasher other) :
    join hasher hash sibling pos ≠ other := by
  unfold join
  split
  · exact atomic _ _
  · exact atomic _ _

theorem join_inj (oneWay : OneWay hasher) {children : Nat → H} {half : Nat}
    (same : join hasher hash sibling pos =
      hasher.internal (children (2 * half)) (children (2 * half + 1))) :
    hash = children (2 * half + pos % 2) := by
  unfold join at same
  rcases Nat.mod_two_eq_zero_or_one pos with even | odd
  · rw [if_pos even] at same
    rw [even]
    exact (oneWay.injective same).1
  · rw [if_neg (by omega)] at same
    rw [odd]
    exact (oneWay.injective same).2

/-- What is hashed up to a node is the leaf that the path leads to, and the path has the
length of the tree's. -/
theorem climb_sound (oneWay : OneWay hasher) (atomic : ∀ leaf ∈ leaves, Atomic hasher leaf)
    {siblings : List H} {index : Nat} (element : Atomic hasher hash)
    (proper : hash ≠ hasher.placeholder)
    (same : climb hasher siblings hash index = nodeHash hasher leaves level pos) :
    siblings.length = level ∧ leaves[2 ^ level * pos + index % 2 ^ level]? = some hash := by
  induction level generalizing siblings pos with
  | zero =>
    rw [pow_zero, one_mul, Nat.mod_one, add_zero]
    have leafOrNone : Atomic hasher (nodeHash hasher leaves 0 pos) := by
      rcases lt_or_ge pos leaves.length with inside | outside
      · rw [nodeHash_zero inside]
        exact atomic _ (getElem_mem inside)
      · rw [nodeHash_empty (by rwa [pow_zero, one_mul])]
        exact oneWay.proper
    rcases eq_nil_or_concat siblings with rfl | ⟨init, last, rfl⟩
    · rcases lt_or_ge pos leaves.length with inside | outside
      · rw [climb, nodeHash_zero inside] at same
        exact ⟨rfl, by rw [getElem?_eq_getElem inside, same]⟩
      · rw [nodeHash_empty (by rwa [pow_zero, one_mul])] at same
        exact absurd same proper
    · rw [concat_eq_append, climb_append] at same
      exact absurd same (join_ne leafOrNone)
  | succ level ih =>
    rcases lt_or_ge (2 ^ (level + 1) * pos) leaves.length with inside | outside
    · rw [nodeHash_succ inside] at same
      rcases eq_nil_or_concat siblings with rfl | ⟨init, last, rfl⟩
      · exact absurd same.symm (element _ _)
      rw [concat_eq_append, climb_append] at same
      obtain ⟨length, found⟩ := ih (join_inj oneWay same)
      rw [length] at found
      refine ⟨by rw [length_concat, length], ?_⟩
      rw [← found, Nat.mod_pow_succ]
      congr 1
      ring
    · rw [nodeHash_empty outside] at same
      rcases eq_nil_or_concat siblings with rfl | ⟨init, last, rfl⟩
      · exact absurd same proper
      · rw [concat_eq_append, climb_append] at same
        exact absurd same (join_ne oneWay.proper)

end Hashes

/-! ## Peaks -/

/-- The roots of the full subtrees that `m` nodes at `level` form, up to `count` levels
higher, from right to left: one for each binary digit of `m`. -/
def peaks (level : Nat) : Nat → Nat → List (Nat × Nat)
  | 0, _ => []
  | count + 1, m =>
    if m % 2 = 1 then (level, m - 1) :: peaks (level + 1) count (m / 2)
    else peaks (level + 1) count (m / 2)

variable {level count m : Nat}

@[simp] theorem peaks_odd (m : Nat) :
    peaks level (count + 1) (2 * m + 1) = (level, 2 * m) :: peaks (level + 1) count m := by
  rw [peaks, if_pos (by omega), Nat.add_sub_cancel, show (2 * m + 1) / 2 = m by omega]

@[simp] theorem peaks_even (m : Nat) :
    peaks level (count + 1) (2 * m) = peaks (level + 1) count m := by
  rw [peaks, if_neg (by omega), Nat.mul_div_cancel_left _ (by decide)]

@[simp] theorem peaks_zero (level count : Nat) : peaks level count 0 = [] := by
  induction count generalizing level with
  | zero => rfl
  | succ count ih => rw [← Nat.mul_zero 2, peaks_even, ih]

theorem length_peaks : (peaks level count m).length = Word64.countBits count m := by
  induction count generalizing level m with
  | zero => rfl
  | succ count ih =>
    rw [peaks, Word64.countBits_succ]
    split
    · rw [length_cons, ih]
      omega
    · rw [ih]
      omega

theorem peaks_append : peaks level (count + 1) m = peaks level count m ++
    if m / 2 ^ count % 2 = 1 then [(level + count, m / 2 ^ count - 1)] else [] := by
  induction count generalizing level m with
  | zero => simp [peaks]
  | succ count ih =>
    have top : m / 2 / 2 ^ count = m / 2 ^ (count + 1) := by
      rw [Nat.div_div_eq_div_mul, pow_succ, mul_comm]
    have next : level + 1 + count = level + (count + 1) := by omega
    obtain ⟨half, even | odd⟩ : ∃ half, m = 2 * half ∨ m = 2 * half + 1 := ⟨m / 2, by omega⟩
    · rw [show m / 2 = half by omega] at top
      rw [even, peaks_even, peaks_even, ih, ← even, top, next]
    · rw [show m / 2 = half by omega] at top
      rw [odd, peaks_odd, peaks_odd, ih, ← odd, top, next, cons_append]

theorem peaks_two_pow (t : Nat) :
    peaks level (t + count) (2 ^ t * m) = peaks (level + t) count m := by
  induction t generalizing level with
  | zero => simp
  | succ t ih =>
    rw [show 2 ^ (t + 1) * m = 2 * (2 ^ t * m) by ring, add_right_comm, peaks_even, ih,
      add_right_comm, add_assoc]

/-- The last peak is at the level of the lowest digit. -/
theorem exists_last_peak {n : Nat} (positive : 0 < n) (small : n ≤ 2 ^ 63) :
    ∃ t k, t ≤ 63 ∧ n = 2 ^ t * (2 * k + 1) ∧
      peaks 0 64 n = (t, 2 * k) :: peaks (t + 1) (63 - t) k := by
  obtain ⟨t, odd, isOdd, factors⟩ := Nat.exists_eq_two_pow_mul_odd positive.ne'
  obtain ⟨k, rfl⟩ := isOdd
  have atLeast : 2 ^ t ≤ n := factors ▸ Nat.le_mul_of_pos_right _ (Nat.succ_pos _)
  have level : t ≤ 63 :=
    (Nat.pow_le_pow_iff_right (a := 2) (by decide)).mp (atLeast.trans small)
  refine ⟨t, k, level, factors, ?_⟩
  calc peaks 0 64 n
    _ = peaks 0 (t + (63 - t + 1)) (2 ^ t * (2 * k + 1)) := by
      rw [← factors, show t + (63 - t + 1) = 64 by omega]
    _ = peaks t (63 - t + 1) (2 * k + 1) := by rw [peaks_two_pow, zero_add]
    _ = _ := peaks_odd k

theorem eq_zero_of_peaks {m : Nat} (small : m < 2 ^ count) (none : peaks level count m = []) :
    m = 0 := by
  induction count generalizing level m with
  | zero => simpa using small
  | succ count ih =>
    obtain ⟨half, rfl | rfl⟩ : ∃ half, m = 2 * half ∨ m = 2 * half + 1 := ⟨m / 2, by omega⟩
    · rw [peaks_even] at none
      rw [ih (by omega) none]
    · rw [peaks_odd] at none
      cases none

/-- Peaks end at the last node. -/
theorem peak_end {peak : Nat × Nat} (mem : peak ∈ peaks level count m) :
    2 ^ peak.1 * (peak.2 + 1) ≤ 2 ^ level * m := by
  induction count generalizing level m with
  | zero => cases mem
  | succ count ih =>
    have half : 2 ^ (level + 1) * (m / 2) ≤ 2 ^ level * m := by
      rw [pow_succ, mul_assoc]
      exact Nat.mul_le_mul_left _ (Nat.mul_div_le m 2)
    rw [peaks] at mem
    split at mem
    · rcases mem_cons.mp mem with rfl | rest
      · rw [Nat.sub_add_cancel (by omega)]
      · exact (ih rest).trans half
    · exact (ih mem).trans half

end MerkleTree

end CreditChain
