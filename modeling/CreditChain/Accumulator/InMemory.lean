import CreditChain.Lib.MerkleTree
import CreditChain.Types.Ledger

/-!
# The in-memory Merkle accumulator

`InMemoryAccumulator` keeps the roots of the full subtrees of an append-only Merkle
tree, from left to right, and the root hash of the whole tree.  The digest type and the
hash of an internal node are parameters (`MerkleHasher`).

`none` stands for a panic of the source: an `expect` that does not hold, or the leaf
count overflowing.
-/

namespace CreditChain

structure InMemoryAccumulator (H : Type) where
  frozenSubtreeRoots : List H
  numLeaves : Nat
  rootHash : H

/-- Why an accumulator or an extension proof is rejected. -/
inductive AccumulatorError (H : Type) where
  | numFrozenSubtrees (len numLeaves : Nat)
  | rootHashMismatch (actual expected : H)
  | panicked

namespace InMemoryAccumulator

variable {H : Type} (hasher : MerkleHasher H)

/-- The loop of `compute_root_hash`, over the bits of the leaf count and the subtree
roots from right to left.  A `u64` has 64 bits, so 64 rounds exhaust it. -/
def computeRootLoop : Nat → Nat → List H → H → Option H
  | 0, _, _, current => some current
  | rounds + 1, bitmap, roots, current =>
    if bitmap = 0 then some current
    else if bitmap % 2 = 1 then
      match roots with
      | [] => none
      | root :: roots =>
        computeRootLoop rounds (bitmap / 2) roots (hasher.internal root current)
    else computeRootLoop rounds (bitmap / 2) roots (hasher.internal current hasher.placeholder)

def computeRootHash (frozenSubtreeRoots : List H) (numLeaves : Nat) : Option H :=
  match frozenSubtreeRoots with
  | [] => some hasher.placeholder
  | [root] => some root
  | _ =>
    computeRootLoop hasher 64 (numLeaves / 2 ^ trailingZeros64 numLeaves)
      frozenSubtreeRoots.reverse hasher.placeholder

def new (frozenSubtreeRoots : List H) (numLeaves : Nat) :
    Except (AccumulatorError H) (InMemoryAccumulator H) :=
  if frozenSubtreeRoots.length ≠ countOnes64 numLeaves then
    .error (.numFrozenSubtrees frozenSubtreeRoots.length numLeaves)
  else
    match computeRootHash hasher frozenSubtreeRoots numLeaves with
    | none => .error .panicked
    | some rootHash => .ok ⟨frozenSubtreeRoots, numLeaves, rootHash⟩

/-- Pop the last two roots and push their parent. -/
def mergeLast (roots : List H) : Option (List H) :=
  match roots.reverse with
  | right :: left :: rest => some (rest.reverse ++ [hasher.internal left right])
  | _ => none

/-- The carry loop of `append_one`. -/
def mergeTimes : Nat → List H → Option (List H)
  | 0, roots => some roots
  | n + 1, roots => (mergeLast hasher roots).bind (mergeTimes n)

def appendOne (roots : List H) (numExistingLeaves : Nat) (leaf : H) : Option (List H) :=
  mergeTimes hasher (trailingOnes64 numExistingLeaves) (roots ++ [leaf])

/-- The loop of `append` over the new leaves. -/
def appendLoop : List H → List H → Nat → Option (List H × Nat)
  | [], roots, numLeaves => some (roots, numLeaves)
  | leaf :: leaves, roots, numLeaves =>
    match appendOne hasher roots numLeaves leaf with
    | none => none
    | some roots => if numLeaves = u64Max then none else appendLoop leaves roots (numLeaves + 1)

def append (acc : InMemoryAccumulator H) (leaves : List H) : Option (InMemoryAccumulator H) :=
  match appendLoop hasher leaves acc.frozenSubtreeRoots acc.numLeaves with
  | none => none
  | some (roots, numLeaves) => (new hasher roots numLeaves).toOption

def version (acc : InMemoryAccumulator H) : Version :=
  if acc.numLeaves = 0 then 0 else acc.numLeaves - 1

/-- The default accumulator: no leaves. -/
def default : InMemoryAccumulator H := ⟨[], 0, hasher.placeholder⟩

end InMemoryAccumulator

structure AccumulatorExtensionProof (H : Type) where
  frozenSubtreeRoots : List H
  numLeaves : Nat
  leaves : List H

/-- `AccumulatorExtensionProof::verify`: rebuild the original tree and append the leaves. -/
def AccumulatorExtensionProof.verify {H : Type} [DecidableEq H] (hasher : MerkleHasher H)
    (proof : AccumulatorExtensionProof H) (originalRoot : H) :
    Except (AccumulatorError H) (InMemoryAccumulator H) := do
  let originalTree ← InMemoryAccumulator.new hasher proof.frozenSubtreeRoots proof.numLeaves
  if originalTree.rootHash ≠ originalRoot then
    throw (.rootHashMismatch originalTree.rootHash originalRoot)
  match InMemoryAccumulator.append hasher originalTree proof.leaves with
  | none => .error .panicked
  | some tree => .ok tree

end CreditChain
