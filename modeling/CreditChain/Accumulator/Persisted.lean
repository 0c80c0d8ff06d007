import CreditChain.Accumulator.Position
import CreditChain.Lib.Action

/-!
# The persisted Merkle accumulator

`MerkleAccumulatorView` is an accumulator whose frozen nodes are read from a store.  It
appends leaves without keeping more than the nodes it makes on the way: the left siblings
that are not among them are read back.

A loop that would not end within the 64 levels of a tree counts as a panic.
-/

namespace CreditChain

abbrev HashReader (H : Type) := Position → Except String H

/-- A node that is to be stored. -/
abbrev AccumulatorNode (H : Type) := Position × H

def maxToFreeze (numNewLeaves rootLevel : Nat) : Option Nat := do
  guard (rootLevel ≤ maxAccumulatorProofDepth)
  guard (numNewLeaves < u64Max / 2)
  guard (numNewLeaves * 2 ≤ u64Max - rootLevel)
  some (numNewLeaves * 2 + rootLevel)

structure MerkleAccumulatorView (H : Type) where
  reader : HashReader H
  numLeaves : Nat

namespace MerkleAccumulatorView

variable {H : Type} (hasher : MerkleHasher H) (view : MerkleAccumulatorView H)

/-- A read of a frozen node. -/
def read (position : Position) : Fallible H :=
  (view.reader position).mapError .error

/-- The hash of the left sibling: the last one made, which has to be this one, or a stored
one. -/
def popLeft (sibling : Position) :
    List (AccumulatorNode H) → Fallible (H × List (AccumulatorNode H))
  | (x, leftHash) :: leftSiblings =>
    if x = sibling then .ok (leftHash, leftSiblings) else .error .panicked
  | [] => do
      let leftHash ← view.read sibling
      .ok (leftHash, [])

/-- The inner loop of `append`: the parents that are frozen with a node, and the left
siblings that remain, the last one first. -/
def freezeParents : Nat → Position → H →
    List (AccumulatorNode H) → Fallible (List (AccumulatorNode H) × List (AccumulatorNode H))
  | 0, _, _, _ => .error .panicked
  | fuel + 1, pos, hash, leftSiblings => do
      if ← orPanic pos.isRightChild then
        let sibling ← orPanic pos.sibling
        let (leftHash, leftSiblings) ← view.popLeft sibling leftSiblings
        let hash := hasher.internal leftHash hash
        let pos ← orPanic pos.parent
        let (frozen, leftSiblings) ← freezeParents fuel pos hash leftSiblings
        .ok ((pos, hash) :: frozen, leftSiblings)
      else .ok ([], (pos, hash) :: leftSiblings)

/-- The loop of `append` over the new leaves. -/
def freezeLeaves : Nat → List H → List (AccumulatorNode H) →
    Fallible (List (AccumulatorNode H) × List (AccumulatorNode H))
  | _, [], leftSiblings => .ok ([], leftSiblings)
  | leafOffset, leaf :: newLeaves, leftSiblings => do
      let leafIndex ← orPanic (add64 view.numLeaves leafOffset)
      let leafPos ← orPanic (Position.fromLeafIndex leafIndex)
      let (frozen, leftSiblings) ← view.freezeParents hasher 64 leafPos leaf leftSiblings
      let (rest, leftSiblings) ← freezeLeaves (leafOffset + 1) newLeaves leftSiblings
      .ok ((leafPos, leaf) :: frozen ++ rest, leftSiblings)

/-- The last loop of `append`, up to the root. -/
def walkToRoot : Nat → Position → H →
    List (AccumulatorNode H) → Fallible (H × List (AccumulatorNode H))
  | 0, _, hash, leftSiblings => .ok (hash, leftSiblings)
  | count + 1, pos, hash, leftSiblings => do
      let (hash, leftSiblings) ← (do
        if ← orPanic pos.isLeftChild then
          .ok (hasher.internal hash hasher.placeholder, leftSiblings)
        else
          let sibling ← orPanic pos.sibling
          let (leftHash, leftSiblings) ← view.popLeft sibling leftSiblings
          .ok (hasher.internal leftHash hash, leftSiblings))
      let pos ← orPanic pos.parent
      walkToRoot count pos hash leftSiblings

def rightmostLeafIndex : Option Nat := sub64 view.numLeaves 1

/-- `get_hash`, down to the given depth. -/
def getHashLoop : Nat → Position → Fallible H
  | 0, _ => .error .panicked
  | fuel + 1, position => do
      let idx ← orPanic view.rightmostLeafIndex
      if ← orPanic (position.isPlaceholder idx) then .ok hasher.placeholder
      else if ← orPanic (position.isFreezable idx) then view.read position
      else
        let leftChild ← orPanic position.leftChild
        let left ← getHashLoop fuel leftChild
        let rightChild ← orPanic position.rightChild
        let right ← getHashLoop fuel rightChild
        .ok (hasher.internal left right)

def getHash (position : Position) : Fallible H :=
  view.getHashLoop hasher (position.level + 1) position

def append (newLeaves : List H) : Fallible (H × List (AccumulatorNode H)) :=
  if newLeaves.isEmpty then
    if view.numLeaves = 0 then .ok (hasher.placeholder, [])
    else do
      let root ← orPanic (Position.rootFromLeafCount view.numLeaves)
      let rootHash ← view.getHash hasher root
      .ok (rootHash, [])
  else do
    let lastNewLeafCount ← orPanic (add64 view.numLeaves newLeaves.length)
    let rootLevel ← orPanic (Position.rootLevelFromLeafCount lastNewLeafCount)
    let _ ← orPanic (maxToFreeze newLeaves.length rootLevel)
    let (toFreeze, leftSiblings) ← view.freezeLeaves hasher 0 newLeaves []
    match leftSiblings with
    | [] => .error .panicked
    | (pos, hash) :: leftSiblings =>
      let (hash, leftSiblings) ←
        view.walkToRoot hasher (rootLevel - pos.level) pos hash leftSiblings
      if leftSiblings.isEmpty then .ok (hash, toFreeze) else .error .panicked

def getHashes (positions : List Position) : Fallible (List H) :=
  positions.mapM (view.getHash hasher)

def getRootHash : Fallible H := do
  let root ← orPanic (Position.rootFromLeafCount view.numLeaves)
  view.getHash hasher root

def getSiblingPositions (leafIndex : Nat) (filter : Position → Bool) : Option (List Position) := do
  let rootPos ← Position.rootFromLeafCount view.numLeaves
  let leaf ← Position.fromLeafIndex leafIndex
  let siblings ← Position.ancestorSiblings rootPos.level leaf
  some (siblings.filter filter)

def getSiblings (leafIndex : Nat) (filter : Position → Bool) : Fallible (List H) := do
  let positions ← orPanic (view.getSiblingPositions leafIndex filter)
  view.getHashes hasher positions

def getFrozenSubtreeHashes : Fallible (List H) := do
  let positions ← orPanic (FrozenSubTreeIterator.collect 65 (.new view.numLeaves))
  positions.mapM view.read

end MerkleAccumulatorView

end CreditChain
