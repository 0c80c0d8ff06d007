import CreditChain.Accumulator.Persisted

/-!
# What the persisted accumulator computes

The reader serves the nodes of the full subtrees of the first leaves (`Serves`).
-/

namespace CreditChain.MerkleAccumulatorView

open MerkleTree Position List Nat
open CreditChain.Except (ok_bind)

variable {H : Type} {hasher : MerkleHasher H} {view : MerkleAccumulatorView H} {leaves : List H}

/-- The reader has the nodes whose leaves are all among the first `frozen` ones. -/
def Serves (hasher : MerkleHasher H) (reader : HashReader H) (leaves : List H) (frozen : Nat) :
    Prop :=
  ∀ l q, 2 ^ l * (q + 1) ≤ frozen → reader (node l q) = .ok (nodeHash hasher leaves l q)

theorem Serves.read {frozen l q : Nat} (serves : Serves hasher view.reader leaves frozen)
    (inside : 2 ^ l * (q + 1) ≤ frozen) :
    view.read (node l q) = .ok (nodeHash hasher leaves l q) := by
  rw [MerkleAccumulatorView.read, serves l q inside]
  rfl

section

variable (serves : Serves hasher view.reader leaves leaves.length)
  (count : view.numLeaves = leaves.length) (positive : 0 < leaves.length)
  (small : leaves.length ≤ 2 ^ 63)

include serves count positive small

theorem getHashLoop_node {fuel l q : Nat} (enough : l < fuel) (within : 2 ^ l * (q + 1) ≤ 2 ^ 63) :
    view.getHashLoop hasher fuel (node l q) = .ok (nodeHash hasher leaves l q) := by
  induction l generalizing fuel q with
  | zero =>
    obtain ⟨fuel, rfl⟩ : ∃ n, fuel = n + 1 := ⟨fuel - 1, by omega⟩
    rw [getHashLoop, rightmostLeafIndex, count, Word64.sub64_eq positive, orPanic_some,
      ok_bind, isPlaceholder_node within (by omega), isFreezable_node within (by omega)]
    simp only [orPanic_some, ok_bind, decide_eq_true_eq]
    split
    · rw [nodeHash_empty (by omega)]
    · rw [if_pos (by omega)]
      exact serves.read (by omega)
  | succ l ih =>
    obtain ⟨fuel, rfl⟩ : ∃ n, fuel = n + 1 := ⟨fuel - 1, by omega⟩
    obtain ⟨-, -, split, -⟩ := two_pow_children l q
    have half := Nat.two_pow_pos l
    have left : view.getHashLoop hasher fuel (node l (2 * q)) = _ := ih (by omega) (by omega)
    have right : view.getHashLoop hasher fuel (node l (2 * q + 1)) = _ :=
      ih (by omega) (by rw [mul_add _ _ 1]; omega)
    rw [getHashLoop, rightmostLeafIndex, count, Word64.sub64_eq positive, orPanic_some,
      ok_bind, isPlaceholder_node within (by omega), isFreezable_node within (by omega),
      leftChild_node within, rightChild_node within]
    simp only [orPanic_some, ok_bind, decide_eq_true_eq]
    split
    · rw [nodeHash_empty (by omega)]
    split
    · exact serves.read (by omega)
    · rw [left, right, nodeHash_succ (by omega)]
      rfl

/-- The hash of any node of the tree is computed. -/
theorem getHash_node {l q : Nat} (within : 2 ^ l * (q + 1) ≤ 2 ^ 63) :
    view.getHash hasher (node l q) = .ok (nodeHash hasher leaves l q) := by
  rw [getHash, level_node within]
  exact getHashLoop_node serves count positive small (lt_succ_self l) within

theorem getRootHash_eq : view.getRootHash hasher = .ok (rootHash hasher leaves) := by
  have height : clog 2 leaves.length ≤ 63 := clog_le_of_le_pow small
  rw [getRootHash, count, rootFromLeafCount_eq positive small]
  refine getHash_node serves count positive small ?_
  rw [Nat.mul_one]
  exact Nat.pow_le_pow_right (by decide) height

end

/-! ## The left siblings -/

section Append

/-- The peaks that were not frozen before, with their hashes. -/
def fresh (hasher : MerkleHasher H) (leaves : List H) (frozen l count m : Nat) :
    List (AccumulatorNode H) :=
  ((peaks l count m).filter fun peak => frozen < 2 ^ peak.1 * (peak.2 + 1)).map fun peak =>
    (node peak.1 peak.2, nodeHash hasher leaves peak.1 peak.2)

variable {frozen l count m : Nat}

@[simp] theorem fresh_even : fresh hasher leaves frozen l (count + 1) (2 * m) =
    fresh hasher leaves frozen (l + 1) count m := by
  rw [fresh, peaks_even, fresh]

theorem fresh_odd_new (made : frozen < 2 ^ l * (2 * m + 1)) :
    fresh hasher leaves frozen l (count + 1) (2 * m + 1) =
      (node l (2 * m), nodeHash hasher leaves l (2 * m)) ::
        fresh hasher leaves frozen (l + 1) count m := by
  rw [fresh, peaks_odd, filter_cons_of_pos (by simpa using made), map_cons, fresh]

theorem fresh_eq_nil (old : 2 ^ l * m ≤ frozen) : fresh hasher leaves frozen l count m = [] := by
  rw [fresh, map_eq_nil_iff, filter_eq_nil_iff]
  intro peak mem
  have := peak_end mem
  simp only [decide_eq_true_eq]
  omega

@[simp] theorem fresh_zero : fresh hasher leaves frozen l count 0 = [] :=
  fresh_eq_nil (by simp)

/-- A left sibling is the last peak made, or is read. -/
theorem popLeft_eq (serves : Serves hasher view.reader leaves frozen) :
    view.popLeft (node l (2 * m)) (fresh hasher leaves frozen l (count + 1) (2 * m + 1)) =
      .ok (nodeHash hasher leaves l (2 * m), fresh hasher leaves frozen (l + 1) count m) := by
  have positive := Nat.two_pow_pos l
  obtain ⟨-, split, -⟩ := two_pow_children l m
  rcases lt_or_ge frozen (2 ^ l * (2 * m + 1)) with made | old
  · rw [fresh_odd_new made, popLeft, if_pos rfl]
  · rw [fresh_eq_nil old, fresh_eq_nil (by omega), popLeft, serves.read old]
    rfl

/-- The nodes above the place `m` of a level that are complete with it. -/
def completed : Nat → Nat → Nat → List (Nat × Nat)
  | 0, _, _ => []
  | t + 1, l, m => (l + 1, m / 2) :: completed t (l + 1) (m / 2)

/-- Nodes with their hashes. -/
def hashed (hasher : MerkleHasher H) (leaves : List H) (nodes : List (Nat × Nat)) :
    List (AccumulatorNode H) :=
  nodes.map fun place => (node place.1 place.2, nodeHash hasher leaves place.1 place.2)

theorem inside_of_full (small : leaves.length < 2 ^ 63)
    (full : 2 ^ l * (m + 1) ≤ leaves.length) : Inside l m ∧ l < 63 := by
  have positive := Nat.two_pow_pos l
  have split := Nat.mul_add_one (2 ^ l) m
  refine ⟨⟨by omega, by omega⟩, ?_⟩
  exact (Nat.pow_lt_pow_iff_right (a := 2) (by decide)).mp (by omega)

theorem within_of_lt (level : l ≤ 63) (low : 2 ^ l * m < 2 ^ 63) : 2 ^ l * (m + 1) ≤ 2 ^ 63 := by
  obtain ⟨d, split⟩ : ∃ d, 63 = l + d := ⟨63 - l, by omega⟩
  rw [split, Nat.pow_add] at low ⊢
  exact Nat.mul_le_mul_left _ (Nat.lt_of_mul_lt_mul_left low)

/-- A node at place `m` is merged as often as `m` has trailing ones. -/
theorem freezeParents_eq {t q fuel : Nat} (serves : Serves hasher view.reader leaves frozen)
    (small : leaves.length < 2 ^ 63) (made : frozen < 2 ^ l * (ones t q + 1))
    (full : 2 ^ l * (ones t q + 1) ≤ leaves.length) (levels : t < count) (enough : t < fuel) :
    view.freezeParents hasher fuel (node l (ones t q)) (nodeHash hasher leaves l (ones t q))
        (fresh hasher leaves frozen l count (ones t q)) =
      .ok (hashed hasher leaves (completed t l (ones t q)),
        fresh hasher leaves frozen l count (ones t q + 1)) := by
  induction t generalizing l count fuel with
  | zero =>
    obtain ⟨fuel, rfl⟩ : ∃ n, fuel = n + 1 := ⟨fuel - 1, by omega⟩
    obtain ⟨count, rfl⟩ : ∃ n, count = n + 1 := ⟨count - 1, by omega⟩
    obtain ⟨inside, below⟩ := inside_of_full small full
    have even : ones 0 q = 2 * q := by simp [ones]
    rw [even] at made inside ⊢
    rw [freezeParents, isRightChild_node inside below, fresh_odd_new made, fresh_even]
    simp only [orPanic_some, ok_bind, mul_mod_right, zero_ne_one, decide_false,
      Bool.false_eq_true, if_false]
    rfl
  | succ t ih =>
    obtain ⟨fuel, rfl⟩ : ∃ n, fuel = n + 1 := ⟨fuel - 1, by omega⟩
    obtain ⟨count, rfl⟩ : ∃ n, count = n + 1 := ⟨count - 1, by omega⟩
    obtain ⟨inside, below⟩ := inside_of_full small full
    have up := Word64.two_pow_mul_ones l t q
    have rest := ih (up ▸ made) (up ▸ full) (lt_of_succ_lt_succ levels) (lt_of_succ_lt_succ enough)
    have positive := Nat.two_pow_pos (l + 1)
    have merged : hasher.internal (nodeHash hasher leaves l (2 * ones t q))
        (nodeHash hasher leaves l (2 * ones t q + 1)) = nodeHash hasher leaves (l + 1) (ones t q) := by
      have split := Nat.mul_add_one (2 ^ (l + 1)) (ones t q)
      exact (nodeHash_succ (by omega)).symm
    rw [Word64.ones_one_add] at inside ⊢
    rw [freezeParents, isRightChild_node inside below, sibling_node inside below,
      parent_node inside below, if_pos (by omega), Nat.add_sub_cancel,
      show (2 * ones t q + 1) / 2 = ones t q by omega]
    have odd : decide ((2 * ones t q + 1) % 2 = 1) = true := decide_eq_true (by omega)
    simp only [orPanic_some, ok_bind, odd, if_true, popLeft_eq serves, merged, rest]
    rw [show 2 * ones t q + 1 + 1 = 2 * (ones t q + 1) by omega, fresh_even, completed,
      show (2 * ones t q + 1) / 2 = ones t q by omega]
    rfl

/-- The nodes that a leaf completes, the leaf first. -/
def completedBy (n : Nat) : List (Nat × Nat) := (0, n) :: completed (trailingOnes64 n) 0 n

theorem freezeLeaves_eq (serves : Serves hasher view.reader leaves view.numLeaves)
    (small : leaves.length < 2 ^ 63) {newLeaves : List H} {leafOffset : Nat}
    (given : leaves.drop (view.numLeaves + leafOffset) = newLeaves) :
    view.freezeLeaves hasher leafOffset newLeaves
        (fresh hasher leaves view.numLeaves 0 64 (view.numLeaves + leafOffset)) =
      .ok (hashed hasher leaves ((List.range' (view.numLeaves + leafOffset)
          newLeaves.length).flatMap completedBy),
        fresh hasher leaves view.numLeaves 0 64
          (view.numLeaves + leafOffset + newLeaves.length)) := by
  induction newLeaves generalizing leafOffset with
  | nil => rfl
  | cons leaf newLeaves ih =>
    have inside : view.numLeaves + leafOffset < leaves.length := by
      have nonempty : leaves.drop (view.numLeaves + leafOffset) ≠ [] := by
        rw [given]
        exact cons_ne_nil _ _
      rwa [ne_eq, drop_eq_nil_iff, not_le] at nonempty
    rw [drop_eq_getElem_cons inside, cons.injEq] at given
    obtain ⟨isLeaf, given⟩ := given
    have rest : view.freezeLeaves hasher (leafOffset + 1) newLeaves _ = _ := ih given
    obtain ⟨t, q, index⟩ := Word64.exists_ones (view.numLeaves + leafOffset)
    have levels : t < 64 := Word64.lt_of_ones_lt (l := t) (q := q) (by omega)
    have parents := freezeParents_eq (l := 0) (q := q) (t := t) serves small
      (by rw [← index]; omega) (by rw [← index]; omega) levels levels
    rw [← index, nodeHash_zero inside, isLeaf] at parents
    have merges : trailingOnes64 (view.numLeaves + leafOffset) = t := by
      rw [index, Word64.trailingOnes64_ones levels]
    have leafHash : nodeHash hasher leaves 0 (view.numLeaves + leafOffset) = leaf := by
      rw [nodeHash_zero inside, isLeaf]
    have leafPos : fromLeafIndex (view.numLeaves + leafOffset) = _ := fromLeafIndex_eq (by omega)
    rw [freezeLeaves, Word64.add64_eq (by omega)]
    simp only [orPanic_some, ok_bind, leafPos, parents]
    rw [← Nat.add_assoc] at rest
    rw [rest, length_cons, range'_succ, flatMap_cons, completedBy, merges]
    simp only [ok_bind, hashed, map_append, map_cons, leafHash]
    rw [show view.numLeaves + leafOffset + 1 + newLeaves.length =
      view.numLeaves + leafOffset + (newLeaves.length + 1) by omega]

/-- Up to the root, the node is the one with the last leaf. -/
theorem walkToRoot_eq {steps : Nat} (serves : Serves hasher view.reader leaves frozen)
    (small : leaves.length < 2 ^ 63) (low : 2 ^ l * m < leaves.length)
    (high : leaves.length ≤ 2 ^ l * (m + 1)) (levels : steps ≤ count) (height : l + steps ≤ 63) :
    view.walkToRoot hasher steps (node l m) (nodeHash hasher leaves l m)
        (fresh hasher leaves frozen l count m) =
      .ok (nodeHash hasher leaves (l + steps) (m / 2 ^ steps),
        fresh hasher leaves frozen (l + steps) (count - steps) (m / 2 ^ steps)) := by
  induction steps generalizing l count m with
  | zero => simp [walkToRoot]
  | succ steps ih =>
    obtain ⟨count, rfl⟩ : ∃ n, count = n + 1 := ⟨count - 1, by omega⟩
    have below : l < 63 := by omega
    have inside : Inside l m := ⟨within_of_lt (by omega) (by omega), by omega⟩
    have up : m / 2 / 2 ^ steps = m / 2 ^ (steps + 1) := by
      rw [Nat.div_div_eq_div_mul, Nat.pow_succ, Nat.mul_comm]
    rw [walkToRoot, isLeftChild_node inside below, sibling_node inside below,
      parent_node inside below, ← Nat.add_assoc, Nat.add_right_comm, ← up, Nat.add_sub_add_right]
    obtain ⟨half, rfl | rfl⟩ : ∃ half, m = 2 * half ∨ m = 2 * half + 1 := ⟨m / 2, by omega⟩
    · obtain ⟨left, right, next, next'⟩ := two_pow_children l half
      have merged : _ = hasher.internal _ _ := nodeHash_even (mul_mod_right 2 half) low high
      rw [Nat.mul_div_cancel_left _ (by decide)] at merged ⊢
      have rest := ih (l := l + 1) (m := half) (by omega) (by omega)
        (le_of_succ_le_succ levels) (by omega)
      have even : decide (2 * half % 2 = 0) = true := decide_eq_true (by omega)
      simp only [orPanic_some, ok_bind, even, if_true, ← merged, fresh_even, rest]
    · obtain ⟨left, right, next, next'⟩ := two_pow_children l half
      have merged : _ = hasher.internal _ _ :=
        nodeHash_odd (show (2 * half + 1) % 2 = 1 by omega) low.le
      rw [show (2 * half + 1) / 2 = half by omega, Nat.add_sub_cancel] at merged
      have rest := ih (l := l + 1) (m := half) (by omega) (by omega)
        (le_of_succ_le_succ levels) (by omega)
      have odd : decide ((2 * half + 1) % 2 = 0) = false := decide_eq_false (by omega)
      rw [if_pos (by omega), Nat.add_sub_cancel, show (2 * half + 1) / 2 = half by omega]
      simp only [orPanic_some, ok_bind, odd, Bool.false_eq_true, if_false,
        popLeft_eq serves, ← merged, rest]

end Append

theorem maxToFreeze_isSome {numNewLeaves rootLevel : Nat} (batch : numNewLeaves < 2 ^ 63 - 31)
    (height : rootLevel ≤ 63) :
    maxToFreeze numNewLeaves rootLevel = some (numNewLeaves * 2 + rootLevel) := by
  unfold maxToFreeze u64Max maxAccumulatorProofDepth
  rw [guard_bind height, guard_bind (by omega), guard_bind (by omega)]

/-- The last peak is the left sibling made last, and the root is reached from it. -/
theorem walk_from_last {frozen : Nat} (serves : Serves hasher view.reader leaves frozen)
    (small : leaves.length < 2 ^ 63) (made : frozen < leaves.length) :
    ∃ t k, t ≤ Nat.clog 2 leaves.length ∧ 2 ^ t * (2 * k + 1) ≤ 2 ^ 63 ∧
      fresh hasher leaves frozen 0 64 leaves.length =
        (node t (2 * k), nodeHash hasher leaves t (2 * k)) ::
          fresh hasher leaves frozen (t + 1) (63 - t) k ∧
      view.walkToRoot hasher (Nat.clog 2 leaves.length - t) (node t (2 * k))
          (nodeHash hasher leaves t (2 * k)) (fresh hasher leaves frozen (t + 1) (63 - t) k) =
        .ok (rootHash hasher leaves, []) := by
  have height : clog 2 leaves.length ≤ 63 := clog_le_of_le_pow small.le
  have inTree := le_pow_clog (b := 2) (by decide) leaves.length
  obtain ⟨t, k, -, factors, top⟩ :=
    exists_last_peak (n := leaves.length) (by omega) small.le
  have atLeast : 2 ^ t ≤ leaves.length := factors ▸ Nat.le_mul_of_pos_right _ (succ_pos _)
  have level : t ≤ clog 2 leaves.length :=
    (Nat.pow_le_pow_iff_right (a := 2) (by decide)).mp (atLeast.trans inTree)
  have positive := Nat.two_pow_pos t
  have last : 2 ^ t * (2 * k) + 2 ^ t = leaves.length := by
    rw [factors]
    ring
  refine ⟨t, k, level, by omega, ?_, ?_⟩
  · rw [fresh, top, filter_cons_of_pos (by simp only [decide_eq_true_eq]; omega), map_cons, fresh]
  have walk := walkToRoot_eq (l := t) (m := 2 * k) serves small (by omega) (by omega)
    (show clog 2 leaves.length - t ≤ 63 - t + 1 by omega) (by omega)
  have root : 2 * k / 2 ^ (clog 2 leaves.length - t) = 0 := by
    apply div_eq_of_lt
    apply Nat.lt_of_mul_lt_mul_left (a := 2 ^ t)
    rw [← Nat.pow_add, Nat.add_sub_cancel' level]
    omega
  rw [fresh_even, root, Nat.add_sub_cancel' level, fresh_zero] at walk
  exact walk

/-- Appending returns the root hash of all leaves, and the nodes of the new full subtrees in
post-order. -/
theorem append_eq (serves : Serves hasher view.reader leaves view.numLeaves)
    (small : leaves.length < 2 ^ 63) (known : view.numLeaves ≤ leaves.length)
    {newLeaves : List H} (given : leaves.drop view.numLeaves = newLeaves)
    (batch : newLeaves.length < 2 ^ 63 - 31) :
    view.append hasher newLeaves =
      .ok (rootHash hasher leaves, hashed hasher leaves
        ((List.range' view.numLeaves newLeaves.length).flatMap completedBy)) := by
  have total : view.numLeaves + newLeaves.length = leaves.length := by
    rw [← given, length_drop]
    omega
  have height : clog 2 leaves.length ≤ 63 := clog_le_of_le_pow small.le
  rw [append]
  split
  · rename_i empty
    rw [List.isEmpty_iff] at empty
    rw [empty, length_nil, add_zero] at total
    rw [empty]
    split
    · rename_i none
      rw [length_eq_zero_iff.mp (total.symm.trans none)]
      rfl
    · rename_i positive
      rw [total] at serves positive
      have root := getRootHash_eq serves total (pos_of_ne_zero positive) small.le
      rw [getRootHash] at root
      rw [← bind_assoc, root]
      rfl
  · rename_i nonempty
    have positive : 0 < newLeaves.length := by
      rw [List.isEmpty_iff] at nonempty
      exact length_pos_iff.mpr nonempty
    have frozen : view.freezeLeaves hasher 0 newLeaves _ = _ := freezeLeaves_eq serves small given
    rw [add_zero, fresh_eq_nil (by omega), total] at frozen
    have rootLevel := rootLevelFromLeafCount_eq (n := leaves.length) (by omega) small.le
    obtain ⟨t, k, level, within, top, walk⟩ := walk_from_last serves small (by omega)
    rw [top] at frozen
    rw [Word64.add64_eq (by omega), total]
    simp only [orPanic_some, ok_bind, rootLevel, maxToFreeze_isSome batch height, frozen,
      level_node within, walk]
    rfl

theorem mapM_ok {α β : Type} {f : α → Fallible β} {g : α → β} {items : List α}
    (each : ∀ item ∈ items, f item = .ok (g item)) : items.mapM f = .ok (items.map g) := by
  induction items with
  | nil => rfl
  | cons item items ih =>
    rw [mapM_cons, each item mem_cons_self, ih fun other mem => each other (mem_cons_of_mem _ mem)]
    rfl

/-- The hashes of the peaks are returned, from left to right. -/
theorem getFrozenSubtreeHashes_eq (serves : Serves hasher view.reader leaves leaves.length)
    (count : view.numLeaves = leaves.length) (small : leaves.length ≤ 2 ^ 63) :
    view.getFrozenSubtreeHashes =
      .ok ((peaks 0 64 leaves.length).reverse.map fun peak =>
        nodeHash hasher leaves peak.1 peak.2) := by
  rw [getFrozenSubtreeHashes, count, FrozenSubTreeIterator.collect_new small, orPanic_some,
    ok_bind, mapM_map]
  refine mapM_ok fun peak mem => serves.read ?_
  have := peak_end (mem_reverse.mp mem)
  omega

end CreditChain.MerkleAccumulatorView
