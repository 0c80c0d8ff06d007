import CreditChain.Accumulator.Agreement
import Mathlib.Data.Nat.Pairing

/-!
# Inclusion proofs

`AccumulatorProof` carries the siblings on the path from a leaf to the root.  `getProof`
makes one from the stored nodes, and `verifyTransactionInfo` checks one against the
accumulator hash of a ledger info.

* `inclusion_proofs`: proofs that are made verify, and what verifies is in the accumulator.

A `TransactionInfo` is used by its hash only, and its type is a parameter.
-/

namespace CreditChain

open MerkleTree Position List Nat

structure AccumulatorProof (H : Type) where
  siblings : List H

/-- Why an inclusion proof is rejected. -/
inductive InclusionError (H : Type) where
  | tooManySiblings (len : Nat)
  | rootHashMismatch (actual expected : H)
  | versionTooNew (transactionVersion ledgerInfoVersion : Version)
  deriving DecidableEq

def AccumulatorProof.verify {H : Type} [DecidableEq H] (hasher : MerkleHasher H)
    (proof : AccumulatorProof H) (expectedRootHash elementHash : H) (elementIndex : Nat) :
    Except (InclusionError H) Unit := do
  ensure (proof.siblings.length ≤ maxAccumulatorProofDepth) (.tooManySiblings proof.siblings.length)
  let actualRootHash := (proof.siblings.foldl (fun (hash, index) siblingHash =>
      (if index % 2 = 0 then hasher.internal hash siblingHash
        else hasher.internal siblingHash hash, index / 2)) (elementHash, elementIndex)).1
  ensure (actualRootHash = expectedRootHash) (.rootHashMismatch actualRootHash expectedRootHash)

def verifyTransactionInfo {TransactionInfo : Type} (hashOf : TransactionInfo → HashValue)
    (hasher : MerkleHasher HashValue) (ledgerInfo : LedgerInfo) (transactionVersion : Version)
    (transactionInfo : TransactionInfo) (proof : AccumulatorProof HashValue) :
    Except (InclusionError HashValue) Unit := do
  ensure (transactionVersion ≤ ledgerInfo.version)
    (.versionTooNew transactionVersion ledgerInfo.version)
  proof.verify hasher ledgerInfo.transactionAccumulatorHash (hashOf transactionInfo)
    transactionVersion

def MerkleAccumulatorView.getProof {H : Type} (hasher : MerkleHasher H)
    (view : MerkleAccumulatorView H) (leafIndex : Nat) : Fallible (AccumulatorProof H) := do
  ensure (leafIndex < view.numLeaves)
    (.error s!"invalid leaf_index {leafIndex}, num_leaves {view.numLeaves}")
  let siblings ← view.getSiblings hasher leafIndex fun _ => true
  .ok ⟨siblings⟩

open MerkleAccumulatorView

section Proofs

variable {H : Type} {hasher : MerkleHasher H} {leaves : List H}

theorem foldl_siblings (siblings : List H) (hash : H) (index : Nat) :
    (siblings.foldl (fun (hash, index) siblingHash =>
      (if index % 2 = 0 then hasher.internal hash siblingHash
        else hasher.internal siblingHash hash, index / 2)) (hash, index)).1 =
      climb hasher siblings hash index := by
  induction siblings generalizing hash index with
  | nil => rfl
  | cons sibling siblings ih => rw [foldl_cons, ih, climb, join]

variable {proof : AccumulatorProof H} {index count l q i : Nat}

theorem verify_eq_ok [DecidableEq H] {root element : H} :
    proof.verify hasher root element index = .ok () ↔
      proof.siblings.length ≤ 63 ∧ climb hasher proof.siblings element index = root := by
  rw [AccumulatorProof.verify, Except.bind_eq_ok]
  simp only [foldl_siblings]
  constructor
  · rintro ⟨_, short, same⟩
    exact ⟨ensure_eq_ok.mp short, ensure_eq_ok.mp same⟩
  · rintro ⟨short, same⟩
    exact ⟨(), ensure_eq_ok.mpr short, ensure_eq_ok.mpr same⟩

/-! ## Making a proof -/

theorem ancestorSiblings_node (low : 2 ^ l * q < 2 ^ 63 - 1) (height : l + count ≤ 63) :
    ancestorSiblings count (node l q) =
      some ((siblingPath count l q).map fun place => node place.1 place.2) := by
  induction count generalizing l q with
  | zero => rfl
  | succ count ih =>
    have below : l < 63 := by omega
    have inside : Inside l q := ⟨within_of_lt (by omega) (by omega), low⟩
    have half : 2 ^ (l + 1) * (q / 2) ≤ 2 ^ l * q := by
      rw [pow_succ, mul_assoc]
      exact mul_le_mul_left _ (mul_div_le q 2)
    rw [ancestorSiblings, sibling_node inside below, parent_node inside below,
      some_bind, some_bind, ih (by omega) (by omega)]
    rfl

/-- Siblings on a path are nodes of the largest tree. -/
theorem siblingPath_within (low : 2 ^ l * q < 2 ^ 63) (height : l + count ≤ 63)
    {place : Nat × Nat} (mem : place ∈ siblingPath count l q) :
    2 ^ place.1 * (place.2 + 1) ≤ 2 ^ 63 := by
  induction count generalizing l q with
  | zero => cases mem
  | succ count ih =>
    have half : 2 ^ (l + 1) * (q / 2) ≤ 2 ^ l * q := by
      rw [pow_succ, mul_assoc]
      exact mul_le_mul_left _ (mul_div_le q 2)
    rcases mem_cons.mp mem with rfl | rest
    · have parent := within_of_lt (l := l + 1) (m := q / 2) (by omega) (by omega)
      have least : siblingPos q + 1 ≤ 2 * (q / 2 + 1) := by
        unfold siblingPos
        split
        · omega
        · omega
      have := mul_le_mul_left (2 ^ l) least
      rw [pow_succ, mul_assoc] at parent
      exact this.trans parent
    · exact ih (by omega) (by omega) rest

variable {view : MerkleAccumulatorView H}

section

variable (serves : MerkleAccumulatorView.Serves hasher view.reader leaves leaves.length)

include serves

/-- The proof that is made. -/
theorem getProof_eq (count : view.numLeaves = leaves.length) (small : leaves.length ≤ 2 ^ 63)
    (inside : i < leaves.length) (notLast : i < 2 ^ 63 - 1) :
    view.getProof hasher i = .ok ⟨(siblingPath (Nat.clog 2 leaves.length) 0 i).map fun place =>
      nodeHash hasher leaves place.1 place.2⟩ := by
  have positive : 0 < leaves.length := by omega
  have height : clog 2 leaves.length ≤ 63 := clog_le_of_le_pow small
  have rootLevel : (node (clog 2 leaves.length) 0).level = clog 2 leaves.length := by
    refine level_node ?_
    rw [Nat.mul_one]
    exact Nat.pow_le_pow_right (by decide) height
  have positions : view.getSiblingPositions i (fun _ => true) =
      some ((siblingPath (clog 2 leaves.length) 0 i).map fun place =>
        node place.1 place.2) := by
    rw [getSiblingPositions, count, rootFromLeafCount_eq positive small,
      fromLeafIndex_eq (by omega)]
    simp only [Option.bind_eq_bind, Option.bind_some, rootLevel]
    rw [ancestorSiblings_node (by rw [pow_zero]; omega) (by omega), Option.bind_some, filter_true]
  have siblings : view.getSiblings hasher i (fun _ => true) =
      .ok ((siblingPath (clog 2 leaves.length) 0 i).map fun place =>
        nodeHash hasher leaves place.1 place.2) := by
    rw [getSiblings, positions, orPanic_some, Except.ok_bind, getHashes, mapM_map]
    refine mapM_ok fun place mem =>
      getHash_node serves count positive small ?_
    exact siblingPath_within (by rw [pow_zero]; omega) (by omega) mem
  rw [getProof, ensure, if_pos (count ▸ inside), siblings]
  rfl

/-- The path of a leaf leads to the root. -/
theorem getProof_verifies [DecidableEq H]
    (count : view.numLeaves = leaves.length) (small : leaves.length ≤ 2 ^ 63)
    (inside : i < leaves.length) (notLast : i < 2 ^ 63 - 1) :
    ∃ proof, view.getProof hasher i = .ok proof ∧
      proof.verify hasher (rootHash hasher leaves) leaves[i] i = .ok () := by
  have inTree := le_pow_clog (b := 2) (by decide) leaves.length
  have leaf : nodeHash hasher leaves 0 i = leaves[i] := nodeHash_zero inside
  refine ⟨_, getProof_eq serves count small inside notLast, verify_eq_ok.mpr ⟨?_, ?_⟩⟩
  · rw [length_map, length_siblingPath]
    exact clog_le_of_le_pow small
  · rw [← leaf, climb_complete (by rw [pow_zero]; omega),
      zero_add, div_eq_of_lt (by omega), rootHash_eq]

end

/-- What verifies is the leaf at its index. -/
theorem verify_sound [DecidableEq H] (oneWay : OneWay hasher)
    (atomic : ∀ leaf ∈ leaves, Atomic hasher leaf) {element : H} (atom : Atomic hasher element)
    (proper : element ≠ hasher.placeholder) (inside : index < leaves.length)
    (verified : proof.verify hasher (rootHash hasher leaves) element index = .ok ()) :
    leaves[index]? = some element := by
  have inTree := le_pow_clog (b := 2) (by decide) leaves.length
  obtain ⟨-, same⟩ := verify_eq_ok.mp verified
  rw [rootHash_eq] at same
  obtain ⟨-, found⟩ := climb_sound oneWay atomic atom proper same
  rwa [mul_zero, zero_add, mod_eq_of_lt (by omega)] at found

end Proofs

/-! ## Transactions -/

/-- **Inclusion proofs of transactions are complete and sound.**  The leaves are hashes of
transaction infos; no such hash is the placeholder or the hash of an internal node. -/
theorem inclusion_proofs {TransactionInfo : Type} {hashOf : TransactionInfo → HashValue}
    {hasher : MerkleHasher HashValue} (oneWay : OneWay hasher)
    (apart : ∀ info, Atomic hasher (hashOf info)) (proper : ∀ info, hashOf info ≠ hasher.placeholder)
    {leaves : List HashValue} (infos : ∀ leaf ∈ leaves, ∃ info, hashOf info = leaf)
    (nonempty : leaves ≠ []) :
    (∀ view : MerkleAccumulatorView HashValue,
      MerkleAccumulatorView.Serves hasher view.reader leaves leaves.length →
      view.numLeaves = leaves.length → leaves.length ≤ 2 ^ 63 →
      ∀ (i : Nat) (inside : i < leaves.length), i < 2 ^ 63 - 1 →
        ∃ proof, view.getProof hasher i = .ok proof ∧
          proof.verify hasher (rootHash hasher leaves) leaves[i] i = .ok ()) ∧
    ∀ ledgerInfo : LedgerInfo, ledgerInfo.version = leaves.length - 1 →
      ledgerInfo.transactionAccumulatorHash = rootHash hasher leaves →
      ∀ version info proof,
        verifyTransactionInfo hashOf hasher ledgerInfo version info proof = .ok () →
          version < leaves.length ∧ leaves[version]? = some (hashOf info) := by
  refine ⟨fun view serves count small i inside notLast =>
    getProof_verifies serves count small inside notLast, ?_⟩
  intro ledgerInfo isVersion isRoot version info proof verified
  obtain ⟨_, notNew, verified⟩ := of_bind verified
  have inside : version < leaves.length := by
    have notNew := ensure_eq_ok.mp notNew
    have positive := length_pos_iff.mpr nonempty
    rw [isVersion] at notNew
    exact notNew.trans_lt (sub_lt positive (by decide))
  have atomic : ∀ leaf ∈ leaves, Atomic hasher leaf := by
    intro leaf mem
    obtain ⟨info, rfl⟩ := infos leaf mem
    exact apart info
  rw [isRoot] at verified
  exact ⟨inside, verify_sound oneWay atomic (apart info) (proper info) inside verified⟩

namespace PaddedPath

/-- Internal nodes have odd digests. -/
def hasher : MerkleHasher Nat := ⟨fun left right => 2 * Nat.pair left right + 1, 0⟩

theorem oneWay : OneWay hasher := by
  refine ⟨?_, ?_⟩
  · intro a b c d same
    simp only [hasher] at same
    exact pair_eq_pair.mp (by omega)
  · intro a b
    exact succ_ne_zero _

theorem atomic_even (n : Nat) : Atomic hasher (2 * n) := by
  intro a b same
  simp only [hasher] at same
  omega

def ledgerInfo (leaves : List Nat) : LedgerInfo :=
  ⟨⟨1, 1, 0, rootHash hasher leaves, leaves.length - 1, 0, none⟩, 0⟩

/-- The hashes of transaction infos, here numbers. -/
def hashOf (info : Nat) : Nat := 2 * (info + 1)

def leaves : List Nat := [2, 4, 6]

theorem three_transactions :
    ∃ proof, (StoredAccumulator.ofLeaves hasher leaves).view.getProof hasher 1 = .ok proof ∧
      proof.verify hasher (rootHash hasher leaves) 4 1 = .ok () ∧
      ∀ version info,
        verifyTransactionInfo hashOf hasher (ledgerInfo leaves) version info proof = .ok () →
          version < 3 ∧ leaves[version]? = some (hashOf info) := by
  have infos : ∀ leaf ∈ leaves, ∃ info, hashOf info = leaf := by
    intro leaf mem
    simp only [leaves, mem_cons, not_mem_nil, or_false] at mem
    rcases mem with rfl | rfl | rfl
    · exact ⟨0, rfl⟩
    · exact ⟨1, rfl⟩
    · exact ⟨2, rfl⟩
  have serves : MerkleAccumulatorView.Serves hasher (StoredAccumulator.ofLeaves hasher leaves).reader
      (leaves ++ []) leaves.length := StoredAccumulator.serves_ofLeaves (by decide)
  have both := inclusion_proofs oneWay (fun info => atomic_even (info + 1))
    (fun info => mul_ne_zero (by decide) (succ_ne_zero info)) infos (by decide)
  obtain ⟨proof, made, verified⟩ := both.1 (StoredAccumulator.ofLeaves hasher leaves).view serves
    rfl (by decide) 1 (by decide) (by decide)
  exact ⟨proof, made, verified, fun version info =>
    both.2 (ledgerInfo leaves) rfl rfl version info proof⟩

/-- The hashes of five transaction infos; the info `0` would have the placeholder as its hash. -/
def five : List Nat := [2, 4, 6, 8, 10]

/-- The path to the empty node above leaves 6 and 7. -/
def shortProof : AccumulatorProof Nat := ⟨[nodeHash hasher five 1 2, nodeHash hasher five 2 0]⟩

/-- A transaction info whose hash is the placeholder passes at version 3, with a path that
ends above the leaves; and there is no proof for leaf `2 ^ 63 - 1`. -/
theorem placeholder_accepted :
    (OneWay hasher ∧ (∀ info, Atomic hasher (2 * info)) ∧ (∀ leaf ∈ five, ∃ info, 2 * info = leaf) ∧
      verifyTransactionInfo (2 * ·) hasher (ledgerInfo five) 3 0 shortProof = .ok () ∧
      five[3]? ≠ some (2 * 0)) ∧
    ∀ view : MerkleAccumulatorView Nat, view.numLeaves = 2 ^ 63 →
      view.getProof hasher (2 ^ 63 - 1) = .error .panicked := by
  refine ⟨⟨oneWay, atomic_even, ?_, by decide, by decide⟩, ?_⟩
  · intro leaf mem
    exact ⟨leaf / 2, by
      simp only [five, mem_cons, not_mem_nil, or_false] at mem
      omega⟩
  intro view count
  have positions : view.getSiblingPositions (2 ^ 63 - 1) (fun _ => true) = none := by
    rw [getSiblingPositions, count]
    rfl
  rw [getProof, ensure, if_pos (by rw [count]; decide), getSiblings, positions]
  rfl

end PaddedPath

end CreditChain
