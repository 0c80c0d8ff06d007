import CreditChain.Lib.MerkleTree

/-!
# Positions in an accumulator

A `Position` is the number of a node in an in-order traversal of the tree; moves in the
tree are operations on the bits of this number.  `none` is a failed assertion or an
overflow of the source.

`node level pos` is the position of a node given by its level above the leaves and its
place in the level.  There is one lemma for each function that says what it does to it.
-/

namespace CreditChain

open Word64 Option Nat

def maxAccumulatorProofDepth : Nat := 63

def isolateRightmostZeroBit (v : Nat) : Nat := not64 v &&& ((v + 1) % 2 ^ 64)

def smearOnesForU64 (v : Nat) : Nat :=
  let n := v
  let n := n ||| n >>> 1
  let n := n ||| n >>> 2
  let n := n ||| n >>> 4
  let n := n ||| n >>> 8
  let n := n ||| n >>> 16
  n ||| n >>> 32

def turnOffRightMostNBits (v n : Nat) : Option Nat := do
  guard (n < 64)
  some (shl64 (v >>> n) n)

structure Position where
  index : Nat
  deriving DecidableEq

inductive NodeDirection where
  | left
  | right
  deriving DecidableEq

namespace Position

variable (p : Position)

def level : Nat := trailingZeros64 (not64 p.index)

def isLeaf : Bool := p.index &&& 1 == 0

def fromLevelAndPos (level pos : Nat) : Option Position := do
  guard (level < 64)
  guard (0 < shl64 1 level)
  let levelOneBits := shl64 1 level - 1
  let shiftedPos := if level = 63 then 0 else shl64 pos (level + 1)
  some ⟨shiftedPos ||| levelOneBits⟩

def parent : Option Position := do
  guard (p.index < u64Max - 1)
  some ⟨(p.index ||| isolateRightmostZeroBit p.index) &&&
    not64 (shl64 (isolateRightmostZeroBit p.index) 1)⟩

def child (dir : NodeDirection) : Option Position := do
  guard (¬ p.isLeaf)
  guard (p.index < u64Max - 1)
  let directionBit := match dir with
    | .left => 0
    | .right => isolateRightmostZeroBit p.index
  some ⟨(p.index ||| directionBit) &&& not64 (isolateRightmostZeroBit p.index >>> 1)⟩

def leftChild : Option Position := do
  guard (¬ p.isLeaf)
  p.child .left

def rightChild : Option Position := do
  guard (¬ p.isLeaf)
  p.child .right

def isLeftChild : Option Bool := do
  guard (p.index < u64Max - 1)
  some (p.index &&& shl64 (isolateRightmostZeroBit p.index) 1 == 0)

def isRightChild : Option Bool := p.isLeftChild.map (! ·)

variable (leafCount node leafIndex : Nat)

def fromLeafIndex : Option Position := fromLevelAndPos 0 leafIndex

def sibling : Option Position := do
  guard (p.index < u64Max - 1)
  some ⟨p.index ^^^ shl64 (isolateRightmostZeroBit p.index) 1⟩

def rootFromLeafIndex : Option Position := do
  let leaf ← fromLeafIndex leafIndex
  some ⟨smearOnesForU64 leaf.index >>> 1⟩

def rootFromLeafCount : Option Position := do
  guard (0 < leafCount)
  rootFromLeafIndex (leafCount - 1)

def rootLevelFromLeafCount : Option Nat := do
  guard (0 < leafCount)
  some (maxAccumulatorProofDepth + 1 - leadingZeros64 (leafCount - 1))

def rightMostChild : Option Position := do
  guard (p.level < 64)
  let sum ← add64 p.index (shl64 1 p.level)
  let index ← sub64 sum 1
  some ⟨index⟩

def leftMostChild : Option Position := do
  let index ← turnOffRightMostNBits p.index p.level
  some ⟨index⟩

/-- All leaves below the node are there. -/
def isFreezable : Option Bool := do
  let leaf ← fromLeafIndex leafIndex
  let rightMostChild ← p.rightMostChild
  some (rightMostChild.index ≤ leaf.index)

/-- No leaf below the node is there. -/
def isPlaceholder : Option Bool := do
  let leaf ← fromLeafIndex leafIndex
  if p.index ≤ leaf.index then some false
  else do
    let leftMostChild ← p.leftMostChild
    some (decide (¬ leftMostChild.index ≤ leaf.index))

def childrenOfNode : Option Nat := sub64 (shl64 (isolateRightmostZeroBit node) 1) 2

/-- How many nodes the subtrees to the left have. -/
def nodesToLeftOf : Option Nat := do
  let onesUpToLevel ← sub64 (isolateRightmostZeroBit node) 1
  let unsetLevelZeros := node ^^^ onesUpToLevel
  sub64 unsetLevelZeros (countOnes64 unsetLevelZeros)

/-- A node comes after its children and what is left of it. -/
def inorderToPostorder : Option Nat := do
  let children ← childrenOfNode node
  let leftNodes ← nodesToLeftOf node
  add64 children leftNodes

def toPostorderIndex : Option Nat := inorderToPostorder p.index

/-- The first items of `AncestorSiblingIterator`. -/
def ancestorSiblings : Nat → Position → Option (List Position)
  | 0, _ => some []
  | count + 1, position => do
      let currentSiblingPosition ← position.sibling
      let position ← position.parent
      let rest ← ancestorSiblings count position
      some (currentSiblingPosition :: rest)

end Position

/-- The full subtrees from left to right, one for each bit. -/
structure FrozenSubTreeIterator where
  bitmap : Nat
  seenLeaves : Nat

namespace FrozenSubTreeIterator

def new (numLeaves : Nat) : FrozenSubTreeIterator := ⟨numLeaves, 0⟩

def next (it : FrozenSubTreeIterator) : Option (Option (Position × FrozenSubTreeIterator)) := do
  guard (it.seenLeaves < u64Max - it.bitmap)
  if it.bitmap = 0 then some none
  else do
    let rootOffset := smearOnesForU64 it.bitmap >>> 1
    guard (rootOffset < it.bitmap)
    let numLeaves ← add64 rootOffset 1
    let leftmostLeaf ← Position.fromLeafIndex it.seenLeaves
    let root ← add64 leftmostLeaf.index rootOffset
    let seenLeaves ← add64 it.seenLeaves numLeaves
    some (some (⟨root⟩, ⟨it.bitmap &&& not64 numLeaves, seenLeaves⟩))

/-- All items; each takes one bit of the bitmap. -/
def collect : Nat → FrozenSubTreeIterator → Option (List Position)
  | 0, _ => none
  | fuel + 1, it => do
      match ← it.next with
      | none => some []
      | some (position, it) => (position :: ·) <$> collect fuel it

end FrozenSubTreeIterator

/-! ## Nodes -/

namespace Position

/-- The node with `pos` nodes to its left on its level. -/
def node (level pos : Nat) : Position := ⟨ones level pos⟩

variable {l q : Nat}

theorem index_node (l q : Nat) : (node l q).index = 2 * (2 ^ l * q) + (2 ^ l - 1) := by
  rw [node, ones]
  ring

theorem index_leaf (q : Nat) : (node 0 q).index = 2 * q := by
  rw [index_node, Nat.pow_zero, Nat.one_mul, Nat.add_zero]

theorem node_injective {l q l' q' : Nat} (same : node l q = node l' q') : l = l' ∧ q = q' := by
  have index : ones l q = ones l' q' := congrArg Position.index same
  have level : l = l' := by
    rcases lt_trichotomy l l' with lt | eq | gt
    · have bit := congrArg (testBit · l) index
      simp [testBit_ones, lt] at bit
    · exact eq
    · have bit := congrArg (testBit · l') index
      simp [testBit_ones, gt] at bit
  rw [level] at index
  have := Nat.two_pow_pos (l' + 1)
  unfold ones at index
  exact ⟨level, Nat.eq_of_mul_eq_mul_left this (by omega)⟩

theorem ones_add (l q : Nat) : ones l q + 1 + 2 ^ l = 2 * (2 ^ l * (q + 1)) := by
  rw [ones_succ]
  ring

theorem ones_lt (inside : 2 ^ l * (q + 1) ≤ 2 ^ 63) : ones l q < 2 ^ 64 - 1 := by
  have positive := Nat.two_pow_pos l
  have index := ones_add l q
  omega

theorem level_lt (inside : 2 ^ l * (q + 1) ≤ 2 ^ 63) : l < 64 :=
  lt_of_ones_lt (ones_lt inside)

theorem isolate_ones (level : l < 64) (small : ones l q < 2 ^ 64 - 1) :
    isolateRightmostZeroBit (ones l q) = 2 ^ l := by
  have half : 2 ^ l < 2 ^ (l + 1) := Nat.pow_lt_pow_right (by decide) (lt_succ_self l)
  have next : ones l q + 1 = 2 ^ (l + 1) * q + 2 ^ l := by
    rw [ones_succ]
    ring
  apply eq_of_testBit_eq
  intro i
  rw [isolateRightmostZeroBit, mod_eq_of_lt (by omega), testBit_and,
    testBit_not64 (by omega), next, testBit_two_pow_mul_add q half,
    testBit_ones]
  rcases lt_trichotomy i l with lt | rfl | gt
  · simp [lt, lt.ne']
  · simp [level]
  · simp [gt.ne', gt.ne, (succ_le_of_lt gt).not_gt]

theorem shl_isolate (inside : 2 ^ l * (q + 1) ≤ 2 ^ 63) (below : l < 63) :
    shl64 (isolateRightmostZeroBit (ones l q)) 1 = 2 ^ (l + 1) := by
  rw [isolate_ones (level_lt inside) (ones_lt inside), shl64_eq, pow_one, Nat.pow_succ]
  rw [pow_one, ← Nat.pow_succ]
  exact Nat.pow_lt_pow_right (by decide) (succ_lt_succ below)

theorem level_node (inside : 2 ^ l * (q + 1) ≤ 2 ^ 63) : (node l q).level = l :=
  trailingZeros64_not64 (level_lt inside) ((ones_lt inside).trans_le (by decide))

theorem isLeaf_node : (node l q).isLeaf = decide (l = 0) := by
  rw [isLeaf, node]
  cases l with
  | zero => simp [ones]
  | succ l =>
    rw [ones_one_add]
    simp

theorem fromLeafIndex_eq {leafIndex : Nat} (small : leafIndex < 2 ^ 63) :
    fromLeafIndex leafIndex = some (node 0 leafIndex) := by
  simp [fromLeafIndex, fromLevelAndPos, shl64, node, ones]
  omega

/-- A node that is inside the largest tree, and is not its last leaf. -/
structure Inside (l q : Nat) : Prop where
  within : 2 ^ l * (q + 1) ≤ 2 ^ 63
  notLast : 2 ^ l * q < 2 ^ 63 - 1

theorem Inside.assertion (inside : Inside l q) : (node l q).index < u64Max - 1 := by
  change ones l q < u64Max - 1
  have index := ones_add l q
  obtain ⟨within, notLast⟩ := inside
  unfold u64Max
  cases l with
  | zero => omega
  | succ l =>
    have := Nat.two_pow_pos l
    omega

theorem Inside.of_succ (within : 2 ^ (l + 1) * (q + 1) ≤ 2 ^ 63) : Inside (l + 1) q := by
  refine ⟨within, ?_⟩
  have := Nat.two_pow_pos l
  rw [mul_add, Nat.pow_succ] at within
  rw [Nat.pow_succ]
  omega

theorem parent_node (inside : Inside l q) (below : l < 63) :
    (node l q).parent = some (node (l + 1) (q / 2)) := by
  have small := ones_lt inside.within
  have isolated := isolate_ones (level_lt inside.within) small
  have joined : ones l q ||| 2 ^ l < 2 ^ 64 :=
    or_lt_two_pow (small.trans_le (by decide))
      (Nat.pow_lt_pow_right (by decide) (level_lt inside.within))
  have cleared : (ones l q ||| 2 ^ l) &&& not64 (2 ^ (l + 1)) = ones (l + 1) (q / 2) := by
    apply eq_of_testBit_eq
    intro i
    rw [testBit_clear joined (succ_lt_succ below), testBit_or, testBit_ones, testBit_ones]
    grind
  rw [parent, guard_bind inside.assertion, node, shl_isolate inside.within below, isolated, cleared]
  rfl

/-- The bits of a child. -/
theorem testBit_child (l q i : Nat) (right : Bool) :
    (ones l (2 * q + right.toNat)).testBit i =
      if i < l then true else if i = l then false else if i = l + 1 then right
      else q.testBit (i - (l + 2)) := by
  rw [testBit_ones]
  rcases lt_trichotomy i (l + 1) with lt | rfl | gt
  · grind
  · cases right with
    | false | true => simp
  · have half : (2 * q + right.toNat) / 2 = q := by
      have := right.toNat_le
      omega
    grind

section

variable (inside : 2 ^ (l + 1) * (q + 1) ≤ 2 ^ 63)

include inside

theorem child_node (dir : NodeDirection) :
    (node (l + 1) q).child dir = some (node l (2 * q + (dir == .right).toNat)) := by
  have small := ones_lt inside
  have level := level_lt inside
  have inner : ¬ (node (l + 1) q).isLeaf := by simp [isLeaf_node]
  have isolated : isolateRightmostZeroBit (node (l + 1) q).index = 2 ^ (l + 1) :=
    isolate_ones level small
  have shifted : 2 ^ (l + 1) >>> 1 = 2 ^ l := by
    rw [shiftRight_eq_div_pow, Nat.pow_succ, Nat.mul_div_cancel _ (by decide)]
  have joined : ones (l + 1) q ||| 2 ^ (l + 1) < 2 ^ 64 :=
    or_lt_two_pow (small.trans_le (by decide)) (Nat.pow_lt_pow_right (by decide) level)
  unfold child
  rw [guard_bind inner, guard_bind (Inside.of_succ inside).assertion, isolated, shifted]
  refine congrArg some (congrArg Position.mk (eq_of_testBit_eq fun i => ?_))
  cases dir with
  | left =>
    rw [testBit_clear (by rw [or_zero]; exact small.trans_le (by decide))
      (lt_of_succ_lt level), or_zero, testBit_child, node, testBit_ones]
    grind
  | right =>
    change ((ones (l + 1) q ||| 2 ^ (l + 1)) &&& not64 (2 ^ l)).testBit i = _
    rw [testBit_clear joined (lt_of_succ_lt level), testBit_child, testBit_or, testBit_ones]
    grind

theorem leftChild_node : (node (l + 1) q).leftChild = some (node l (2 * q)) := by
  rw [leftChild, guard_bind (by simp [isLeaf_node]), child_node inside]
  rfl

theorem rightChild_node : (node (l + 1) q).rightChild = some (node l (2 * q + 1)) := by
  rw [rightChild, guard_bind (by simp [isLeaf_node]), child_node inside]
  rfl

end

theorem isLeftChild_node (inside : Inside l q) (below : l < 63) :
    (node l q).isLeftChild = some (decide (q % 2 = 0)) := by
  have bit : (ones l q).testBit (l + 1) = decide (q % 2 = 1) := by
    rw [testBit_ones, if_neg (by omega), if_neg (by omega), Nat.sub_self, testBit_zero]
  rw [isLeftChild, guard_bind inside.assertion, node, shl_isolate inside.within below,
    and_two_pow, bit]
  rcases mod_two_eq_zero_or_one q with even | odd
  · simp [even]
  · simp [odd]

theorem isRightChild_node (inside : Inside l q) (below : l < 63) :
    (node l q).isRightChild = some (decide (q % 2 = 1)) := by
  rw [isRightChild, isLeftChild_node inside below]
  rcases mod_two_eq_zero_or_one q with even | odd
  · simp [even]
  · simp [odd]

theorem sibling_node (inside : Inside l q) (below : l < 63) :
    (node l q).sibling = some (node l (if q % 2 = 1 then q - 1 else q + 1)) := by
  rw [sibling, guard_bind inside.assertion, node, shl_isolate inside.within below]
  refine congrArg some (congrArg Position.mk (eq_of_testBit_eq fun i => ?_))
  obtain ⟨half, rfl | rfl⟩ : ∃ half, q = 2 * half ∨ q = 2 * half + 1 := ⟨q / 2, by omega⟩
  all_goals
    have even := testBit_child l half i false
    have odd := testBit_child l half i true
    grind

/-! ## Roots, leaves and the post-order index -/

/-- `n` has every bit of `v` and the `w - 1` bits below it. -/
def Smeared (v w n : Nat) : Prop := ∀ i, n.testBit i = true ↔ ∃ d, d < w ∧ v.testBit (i + d) = true

variable {v n : Nat}

theorem Smeared.double {w : Nat} (smeared : Smeared v w n) : Smeared v (w + w) (n ||| n >>> w) := by
  intro i
  rw [testBit_or, Bool.or_eq_true, testBit_shiftRight, smeared i, smeared (w + i)]
  constructor
  · rintro (⟨d, lt, bit⟩ | ⟨d, lt, bit⟩)
    · exact ⟨d, by omega, bit⟩
    · exact ⟨w + d, by omega, by rw [show i + (w + d) = w + i + d by omega]; exact bit⟩
  · rintro ⟨d, lt, bit⟩
    rcases lt_or_ge d w with low | high
    · exact .inl ⟨d, low, bit⟩
    · exact .inr ⟨d - w, by omega, by rw [show w + i + (d - w) = i + d by omega]; exact bit⟩

theorem smeared_smearOnes (v : Nat) : Smeared v 64 (smearOnesForU64 v) := by
  have start : Smeared v 1 v := by
    intro i
    constructor
    · exact fun bit => ⟨0, by decide, bit⟩
    · rintro ⟨d, lt, bit⟩
      rw [show d = 0 by omega] at bit
      exact bit
  exact start.double.double.double.double.double.double

theorem smearOnes_eq {c : Nat} (level : c < 64) (low : 2 ^ c ≤ v) (high : v < 2 ^ (c + 1)) :
    smearOnesForU64 v = 2 ^ (c + 1) - 1 := by
  apply eq_of_testBit_eq
  intro i
  rw [Bool.eq_iff_iff, smeared_smearOnes, testBit_two_pow_sub_one, decide_eq_true_iff]
  constructor
  · rintro ⟨d, -, bit⟩
    by_contra above
    have large : v < 2 ^ (i + d) :=
      high.trans_le (Nat.pow_le_pow_right (by decide) (by omega))
    rw [testBit_lt_two_pow large] at bit
    cases bit
  · intro lt
    exact ⟨c - i, by omega, by rw [show i + (c - i) = c by omega]; exact testBit_top low high⟩

/-- The highest bit of the index of the last leaf gives the height of the tree. -/
theorem exists_top (positive : 0 < n) (small : n < 2 ^ 63) :
    ∃ c < 63, 2 ^ c ≤ n ∧ n < 2 ^ (c + 1) ∧ Nat.clog 2 (n + 1) = c + 1 := by
  have low := pow_log_le_self 2 positive.ne'
  have high := lt_pow_succ_log_self (b := 2) (by decide) n
  refine ⟨log 2 n, ?_, low, high, le_antisymm ?_ ?_⟩
  · exact (Nat.pow_lt_pow_iff_right (by decide)).mp (low.trans_lt small)
  · exact (clog_le_iff_le_pow (by decide)).mpr high
  · exact (lt_clog_iff_pow_lt (by decide)).mpr (lt_succ_of_le low)

theorem rootFromLeafCount_eq (positive : 0 < n) (small : n ≤ 2 ^ 63) :
    rootFromLeafCount n = some (node (Nat.clog 2 n) 0) := by
  obtain ⟨index, rfl⟩ : ∃ index, n = index + 1 := ⟨n - 1, by omega⟩
  rw [rootFromLeafCount, rootFromLeafIndex, fromLeafIndex_eq (by omega)]
  refine congrArg some (congrArg Position.mk ?_)
  change smearOnesForU64 (ones 0 index) >>> 1 = ones _ 0
  have leaf : ones 0 index = 2 * index := by simp [ones]
  rcases Nat.eq_zero_or_pos index with rfl | above
  · rfl
  · obtain ⟨c, level, low, high, top⟩ := exists_top above (by omega)
    rw [top, smearOnes_eq (c := c + 1) (by omega) (by rw [Nat.pow_succ]; omega)
      (by rw [Nat.pow_succ]; omega), ones]
    omega

theorem rootLevelFromLeafCount_eq (positive : 0 < n) (small : n ≤ 2 ^ 63) :
    rootLevelFromLeafCount n = some (Nat.clog 2 n) := by
  obtain ⟨index, rfl⟩ : ∃ index, n = index + 1 := ⟨n - 1, by omega⟩
  rw [rootLevelFromLeafCount, Nat.add_sub_cancel]
  rcases Nat.eq_zero_or_pos index with rfl | above
  · rfl
  obtain ⟨c, level, low, high, top⟩ := exists_top above (by omega)
  rw [leadingZeros64_eq (by omega) low high]
  refine congrArg some ?_
  unfold maxAccumulatorProofDepth
  omega

section

variable (within : 2 ^ l * (q + 1) ≤ 2 ^ 63)

include within

theorem rightMostChild_node : (node l q).rightMostChild = some (node 0 (2 ^ l * (q + 1) - 1)) := by
  have level := level_lt within
  have index := ones_add l q
  have bit : shl64 1 l = 2 ^ l := by
    rw [shl64_eq (by omega), Nat.one_mul]
  have sum : add64 (node l q).index (2 ^ l) = some (2 * (2 ^ l * (q + 1)) - 1) := by
    change add64 (ones l q) (2 ^ l) = _
    rw [add64_eq (by omega)]
    exact congrArg some (by omega)
  rw [rightMostChild, level_node within, guard_bind level, bit, sum, some_bind, sub64_eq (by omega)]
  refine congrArg some (congrArg Position.mk ?_)
  unfold ones
  omega

theorem leftMostChild_node : (node l q).leftMostChild = some (node 0 (2 ^ l * q)) := by
  have level := level_lt within
  have positive := Nat.two_pow_pos l
  have split := Nat.mul_add_one (2 ^ l) q
  have double : 2 * q * 2 ^ l = 2 * (2 ^ l * q) := by ring
  have high : ones l q >>> l = 2 * q := by
    rw [shiftRight_eq_div_pow, ones, Nat.pow_succ, Nat.mul_assoc, mul_add_div positive,
      div_eq_of_lt (by omega), Nat.add_zero]
  rw [leftMostChild, turnOffRightMostNBits, level_node within, guard_bind level]
  refine congrArg some (congrArg Position.mk ?_)
  change shl64 (ones l q >>> l) l = _
  rw [high, shl64_eq (by omega), double]
  simp [ones]

theorem isFreezable_node {leafIndex : Nat} (small : leafIndex < 2 ^ 63) :
    (node l q).isFreezable leafIndex = some (decide (2 ^ l * (q + 1) ≤ leafIndex + 1)) := by
  rw [isFreezable, fromLeafIndex_eq small, rightMostChild_node within]
  refine congrArg some (decide_eq_decide.mpr ?_)
  rw [index_leaf, index_leaf]
  omega

theorem isPlaceholder_node {leafIndex : Nat} (small : leafIndex < 2 ^ 63) :
    (node l q).isPlaceholder leafIndex = some (decide (leafIndex < 2 ^ l * q)) := by
  rw [isPlaceholder, fromLeafIndex_eq small, leftMostChild_node within]
  simp only [bind_eq_bind, bind_some]
  split
  · rename_i before
    rw [index_node, index_leaf] at before
    rw [decide_eq_false (by omega)]
  · rw [index_leaf, index_leaf]
    exact congrArg some (decide_eq_decide.mpr (by omega))

/-- The number of nodes that come before the node in post-order. -/
def postorder (l q : Nat) : Nat := 2 ^ (l + 1) * (q + 1) - 2 - countOnes64 q

theorem toPostorderIndex_node (below : l < 63) :
    (node l q).toPostorderIndex = some (postorder l q) := by
  have level := level_lt within
  have small := ones_lt within
  have positive := Nat.two_pow_pos l
  have twice : 2 ^ (l + 1) * (q + 1) = 2 * (2 ^ l * (q + 1)) := by ring
  have split : 2 ^ (l + 1) * (q + 1) = 2 ^ (l + 1) * q + 2 * 2 ^ l := by ring
  have unset : ones l q ^^^ (2 ^ l - 1) = 2 ^ (l + 1) * q := by
    apply eq_of_testBit_eq
    intro i
    rw [testBit_xor, testBit_ones]
    grind
  have count : countOnes64 (2 ^ (l + 1) * q) = countOnes64 q := countOnes64_mul_two_pow (by omega)
  have few := countOnes64_le (2 ^ (l + 1) * q)
  rw [count] at few
  have children : childrenOfNode (ones l q) = some (2 ^ (l + 1) - 2) := by
    rw [childrenOfNode, shl_isolate within below, sub64_eq]
    omega
  have left : nodesToLeftOf (ones l q) = some (2 ^ (l + 1) * q - countOnes64 q) := by
    rw [nodesToLeftOf, isolate_ones level small, sub64_eq positive, some_bind, unset]
    change sub64 _ (countOnes64 (2 ^ (l + 1) * q)) = _
    rw [count, sub64_eq few]
  change inorderToPostorder (ones l q) = _
  rw [inorderToPostorder, children, left, some_bind, some_bind, postorder]
  rw [add64_eq (by omega)]
  exact congrArg some (by omega)

end

/-- The next node in post-order after a right child is its parent. -/
theorem postorder_odd (odd : q % 2 = 1) (small : q < 2 ^ 64) :
    postorder (l + 1) (q / 2) = postorder l q + 1 := by
  have count := countOnes64_eq small
  have few := countOnes64_le (q / 2)
  obtain ⟨half, rfl⟩ : ∃ half, q = 2 * half + 1 := ⟨q / 2, by omega⟩
  obtain ⟨-, -, -, twice⟩ := MerkleTree.two_pow_children (l + 1) half
  have enough : 2 * (2 * half + 2) ≤ 2 ^ (l + 1) * (2 * half + 1 + 1) :=
    mul_le_mul_right _ (le_self_pow (succ_ne_zero l) 2)
  rw [show (2 * half + 1) / 2 = half by omega] at *
  rw [postorder, postorder]
  omega

/-- The next node in post-order after a left child is the next leaf. -/
theorem postorder_even (even : q % 2 = 0) (within : 2 ^ l * (q + 1) ≤ 2 ^ 63) :
    postorder 0 (2 ^ l * (q + 1)) = postorder l q + 1 := by
  have atLeast : q + 1 ≤ 2 ^ l * (q + 1) := Nat.le_mul_of_pos_left _ (Nat.two_pow_pos l)
  have count : countOnes64 (2 ^ l * (q + 1)) = countOnes64 q + 1 := by
    rw [countOnes64_mul_two_pow (by omega), countOnes64_eq (n := q) (by omega),
      countOnes64_eq (n := q + 1) (by omega), show (q + 1) / 2 = q / 2 by omega]
    omega
  have few := countOnes64_le q
  have twice : 2 ^ (l + 1) * (q + 1) = 2 * (2 ^ l * (q + 1)) := by ring
  rw [postorder, postorder]
  omega

end Position

/-! ## The full subtrees -/

namespace FrozenSubTreeIterator

open Position

variable {seenLeaves bitmap c : Nat}

theorem next_zero (small : seenLeaves ≤ 2 ^ 63) : next ⟨0, seenLeaves⟩ = some none := by
  rw [next, guard_bind (by simp only [u64Max]; omega), if_pos rfl]

theorem next_eq (low : 2 ^ c ≤ bitmap) (high : bitmap < 2 ^ (c + 1))
    (aligned : 2 ^ c ∣ seenLeaves) (small : seenLeaves + bitmap ≤ 2 ^ 63) :
    next ⟨bitmap, seenLeaves⟩ =
      some (some (node c (seenLeaves / 2 ^ c), ⟨bitmap - 2 ^ c, seenLeaves + 2 ^ c⟩)) := by
  have positive := Nat.two_pow_pos c
  have level : c < 64 :=
    (Nat.pow_lt_pow_iff_right (a := 2) (by decide)).mp (by omega)
  have offset : smearOnesForU64 bitmap >>> 1 = 2 ^ c - 1 := by
    rw [smearOnes_eq level low high]
    omega
  have taken : bitmap &&& not64 (2 ^ c) = bitmap - 2 ^ c := by
    obtain ⟨rest, rfl⟩ : ∃ rest, bitmap = 2 ^ c * 1 + rest := ⟨bitmap - 2 ^ c, by omega⟩
    rw [Nat.mul_one, Nat.add_sub_cancel_left]
    apply eq_of_testBit_eq
    intro i
    have bits := testBit_two_pow_mul_add 1 (by omega : rest < 2 ^ c) i
    rw [Nat.mul_one] at bits
    rw [testBit_clear (by omega) level, bits]
    rcases lt_trichotomy i c with lt | rfl | gt
    · simp [lt, lt.ne']
    · simp [testBit_lt_two_pow (by omega : rest < 2 ^ i)]
    have above : rest < 2 ^ i :=
      lt_trans (by omega) (Nat.pow_lt_pow_right (by decide) gt)
    rw [testBit_lt_two_pow above, show i - c = i - c - 1 + 1 by omega, testBit_add_one]
    simp
  have index : 2 * seenLeaves + (2 ^ c - 1) = ones c (seenLeaves / 2 ^ c) := by
    rw [ones, Nat.pow_succ, Nat.mul_assoc, Nat.mul_left_comm, Nat.mul_div_cancel' aligned]
  rw [next, guard_bind (by simp only [u64Max]; omega), if_neg (by simp only; omega)]
  simp only [offset]
  rw [guard_bind (by omega), add64_eq (by omega), fromLeafIndex_eq (by omega)]
  simp only [bind_eq_bind, bind_some, index_leaf, Nat.sub_add_cancel positive]
  rw [add64_eq (by omega), add64_eq (by omega)]
  simp only [taken, index]
  rfl

theorem collect_eq {fuel : Nat} (enough : c < fuel) (high : bitmap < 2 ^ c)
    (aligned : 2 ^ c ∣ seenLeaves) (small : seenLeaves + bitmap ≤ 2 ^ 63) :
    collect fuel ⟨bitmap, seenLeaves⟩ =
      some ((MerkleTree.peaks 0 c (seenLeaves + bitmap)).reverse.map fun peak =>
        node peak.1 peak.2) := by
  induction c generalizing fuel bitmap seenLeaves with
  | zero =>
    obtain ⟨fuel, rfl⟩ : ∃ n, fuel = n + 1 := ⟨fuel - 1, by omega⟩
    rw [show bitmap = 0 by simpa using high, collect, next_zero (by omega)]
    rfl
  | succ c ih =>
    have positive := Nat.two_pow_pos c
    obtain ⟨k, rfl⟩ : ∃ k, seenLeaves = 2 ^ c * (2 * k) := by
      obtain ⟨k, rfl⟩ := aligned
      exact ⟨k, by ring⟩
    have aligned' : 2 ^ c ∣ 2 ^ c * (2 * k) := ⟨2 * k, rfl⟩
    rw [MerkleTree.peaks_append, mul_add_div positive, zero_add]
    rcases lt_or_ge bitmap (2 ^ c) with less | more
    · rw [div_eq_of_lt less, if_neg (by omega), List.append_nil]
      exact ih (lt_of_succ_lt enough) less aligned' small
    obtain ⟨fuel, rfl⟩ : ∃ n, fuel = n + 1 := ⟨fuel - 1, by omega⟩
    have one : bitmap / 2 ^ c = 1 := Nat.div_eq_of_lt_le (by omega) (by omega)
    have total : 2 ^ c * (2 * k) + 2 ^ c + (bitmap - 2 ^ c) = 2 ^ c * (2 * k) + bitmap := by
      omega
    have rest : collect fuel ⟨bitmap - 2 ^ c, 2 ^ c * (2 * k) + 2 ^ c⟩ = _ :=
      ih (by omega) (by omega) (dvd_add aligned' (dvd_refl _)) (by omega)
    rw [collect, next_eq more (by rw [Nat.pow_succ]; omega) aligned' small,
      Nat.mul_div_cancel_left _ positive, one, if_pos (by omega), List.reverse_append,
      ← total]
    simp only [bind_eq_bind, bind_some, rest]
    rfl

/-- The iterator yields the peaks from left to right. -/
theorem collect_new {numLeaves : Nat} (small : numLeaves ≤ 2 ^ 63) :
    collect 65 (new numLeaves) =
      some ((MerkleTree.peaks 0 64 numLeaves).reverse.map fun peak => node peak.1 peak.2) := by
  have collected := collect_eq (by decide : 64 < 65) (by omega : numLeaves < 2 ^ 64)
    (dvd_zero _) (by omega)
  rw [zero_add] at collected
  exact collected

end FrozenSubTreeIterator

end CreditChain
