import CreditChain.Lib.Action
import CreditChain.Lib.MerkleTree
import CreditChain.Lib.Table
import Mathlib.Data.Nat.Pairing

/-!
# Sparse Merkle proofs

A sparse Merkle tree holds a map from 256-bit keys to value hashes.  In its canonical form a
subtree with one entry is that entry's leaf, and one without entries is the placeholder.

* `SparseMerkleProof.verify_unique`: an accepted proof shows what the map of the root has for the
  key, and no accepted proof shows anything else.
* `SparseMerkleRangeProof.verify_path`: the range proofs that are accepted.  With more siblings
  than a key has bits, their number is subtracted from 256 and the check panics.
-/

namespace CreditChain

open MerkleTree List Nat

/-- The hash of a leaf, next to those of an internal node and of the empty tree. -/
structure SparseMerkleHasher (H : Type) extends MerkleHasher H where
  leaf : BitVec 256 → H → H

@[ext] structure SparseMerkleLeafNode (H : Type) where
  key : BitVec 256
  valueHash : H

/-- The bits of a key, the most significant one first. -/
def iterBits (key : BitVec 256) : List Bool := ((List.range 256).map key.getLsbD).reverse

@[simp] theorem length_iterBits (key : BitVec 256) : (iterBits key).length = 256 := by
  simp [iterBits]

def commonPrefixBitsLen (key other : BitVec 256) : Nat :=
  (((iterBits key).zip (iterBits other)).takeWhile fun (x, y) => x = y).length

/-- Why a proof is rejected; `subtractOverflow` is a panic. -/
inductive SparseMerkleError (H : Type) where
  | tooManySiblings (rootDepth len : Nat)
  | keyMismatch (inProof expected : BitVec 256)
  | valueHashMismatch (inProof expected : H)
  | nonInclusionProof (expected : H)
  | keyExists (key : BitVec 256)
  | otherSubtree (key inProof : BitVec 256)
  | rootHashMismatch (actual expected : H)
  | missingLeftSibling
  | missingRightSibling
  | subtractOverflow
  deriving DecidableEq

section Definitions

variable {H : Type} (hasher : SparseMerkleHasher H)

def SparseMerkleLeafNode.hash (leaf : SparseMerkleLeafNode H) : H :=
  hasher.leaf leaf.key leaf.valueHash

/-- The hash of the node above: a set bit stands for a right child. -/
def SparseMerkleHasher.above (bit : Bool) (hash sibling : H) : H :=
  if bit then hasher.internal sibling hash else hasher.internal hash sibling

structure SparseMerkleProof (H : Type) where
  leaf : Option (SparseMerkleLeafNode H)
  siblings : List H

structure SparseMerkleRangeProof (H : Type) where
  rightSiblings : List H

variable [DecidableEq H] (proof : SparseMerkleProof H)

/-- What the leaf of a proof must be for the element. -/
def SparseMerkleProof.checkLeaf (elementKey : BitVec 256) (elementHash : Option H) (rootDepth : Nat)
    : Except (SparseMerkleError H) Unit :=
  match elementHash, proof.leaf with
  | some hash, some leaf => do
    ensure (elementKey = leaf.key) (.keyMismatch leaf.key elementKey)
    ensure (hash = leaf.valueHash) (.valueHashMismatch leaf.valueHash hash)
  | some hash, none => .error (.nonInclusionProof hash)
  | none, some leaf => do
    ensure (elementKey ≠ leaf.key) (.keyExists elementKey)
    ensure (rootDepth + proof.siblings.length ≤ commonPrefixBitsLen elementKey leaf.key)
      (.otherSubtree elementKey leaf.key)
  | none, none => .ok ()

def SparseMerkleProof.verifyByHashPartial (expectedRootHash : H) (elementKey : BitVec 256)
    (elementHash : Option H) (rootDepth : Nat) : Except (SparseMerkleError H) Unit := do
  let len := proof.siblings.length
  ensure (len + rootDepth ≤ 256) (.tooManySiblings rootDepth len)
  proof.checkLeaf elementKey elementHash rootDepth
  let currentHash := proof.leaf.elim hasher.placeholder (·.hash hasher)
  let actualRootHash := (proof.siblings.reverse.zip
    ((iterBits elementKey).reverse.drop (256 - len - rootDepth))).foldl
      (fun hash (siblingHash, bit) => hasher.above bit hash siblingHash) currentHash
  ensure (actualRootHash = expectedRootHash) (.rootHashMismatch actualRootHash expectedRootHash)

def SparseMerkleProof.verifyByHash (expectedRootHash : H) (elementKey : BitVec 256)
    (elementHash : Option H) : Except (SparseMerkleError H) Unit :=
  proof.verifyByHashPartial hasher expectedRootHash elementKey elementHash 0

/-- The loop over the bits, with the left and right siblings still to come. -/
def SparseMerkleRangeProof.fold : List Bool → H → List H → List H →
    Except (SparseMerkleError H) H
  | [], currentHash, _, _ => .ok currentHash
  | true :: bits, currentHash, left :: lefts, rights =>
    fold bits (hasher.internal left currentHash) lefts rights
  | true :: _, _, [], _ => .error .missingLeftSibling
  | false :: bits, currentHash, lefts, right :: rights =>
    fold bits (hasher.internal currentHash right) lefts rights
  | false :: _, _, _, [] => .error .missingRightSibling

def SparseMerkleRangeProof.verify (proof : SparseMerkleRangeProof H) (expectedRootHash : H)
    (rightmostKnownLeaf : SparseMerkleLeafNode H) (leftSiblings : List H) :
    Except (SparseMerkleError H) Unit := do
  let numSiblings := leftSiblings.length + proof.rightSiblings.length
  ensure (numSiblings ≤ 256) .subtractOverflow
  let currentHash ← fold hasher
    ((iterBits rightmostKnownLeaf.key).reverse.drop (256 - numSiblings))
    (rightmostKnownLeaf.hash hasher) leftSiblings proof.rightSiblings
  ensure (currentHash = expectedRootHash) (.rootHashMismatch currentHash expectedRootHash)

end Definitions

variable {H : Type} {hasher : SparseMerkleHasher H}

/-! ## Range proofs -/

namespace SparseMerkleRangeProof

theorem fold_ne_overflow (bits : List Bool) (currentHash : H) (lefts rights : List H) :
    fold hasher bits currentHash lefts rights ≠ .error .subtractOverflow := by
  fun_induction fold hasher bits currentHash lefts rights with
  | case1 => nofun
  | case2 bits hash left lefts rights ih => exact ih
  | case3 => nofun
  | case4 bits hash lefts right rights ih => exact ih
  | case5 => nofun

/-- With as many bits as siblings, all of them are taken. -/
theorem fold_ok {bits : List Bool} {currentHash root : H} {lefts rights : List H}
    (count : bits.length = lefts.length + rights.length)
    (folded : fold hasher bits currentHash lefts rights = .ok root) :
    ∃ path : List (Bool × H), path.map (·.1) = bits ∧ (path.filter (·.1)).map (·.2) = lefts ∧
      (path.filter (!·.1)).map (·.2) = rights ∧
      path.foldl (fun hash (bit, sibling) => hasher.above bit hash sibling) currentHash = root := by
  fun_induction fold hasher bits currentHash lefts rights with
  | case1 hash lefts rights =>
    cases folded
    rw [length_nil, eq_comm, Nat.add_eq_zero_iff, length_eq_zero_iff, length_eq_zero_iff] at count
    exact ⟨[], rfl, count.1.symm, count.2.symm, rfl⟩
  | case2 bits hash left lefts rights ih =>
    simp only [length_cons] at count
    obtain ⟨path, rfl, rfl, rfl, rfl⟩ := ih (by omega) folded
    exact ⟨(true, left) :: path, rfl, rfl, rfl, rfl⟩
  | case3 => cases folded
  | case4 bits hash lefts right rights ih =>
    simp only [length_cons] at count
    obtain ⟨path, rfl, rfl, rfl, rfl⟩ := ih (by omega) folded
    exact ⟨(false, right) :: path, rfl, rfl, rfl, rfl⟩
  | case5 => cases folded

section

variable [DecidableEq H] (hasher) (proof : SparseMerkleRangeProof H) (root : H)
  (leaf : SparseMerkleLeafNode H) (lefts : List H)

/-- The siblings are those of a path along the top bits of the key, left ones at set bits, that
leads to the root. -/
def IsPath : Prop :=
  ∃ path : List (Bool × H), path.map (·.1) =
      ((iterBits leaf.key).take (lefts.length + proof.rightSiblings.length)).reverse ∧
    (path.filter (·.1)).map (·.2) = lefts ∧
    (path.filter (!·.1)).map (·.2) = proof.rightSiblings ∧
    path.foldl (fun hash (bit, sibling) => hasher.above bit hash sibling) (leaf.hash hasher) = root

variable {hasher proof root leaf lefts}
  (fits : lefts.length + proof.rightSiblings.length ≤ 256)

include fits

theorem verify_eq : proof.verify hasher root leaf lefts =
    fold hasher ((iterBits leaf.key).take (lefts.length + proof.rightSiblings.length)).reverse
      (leaf.hash hasher) lefts proof.rightSiblings >>= fun currentHash =>
    ensure (currentHash = root) (.rootHashMismatch currentHash root) := by
  unfold verify
  simp only [drop_reverse, length_iterBits, Nat.sub_sub_self fits, ensure, if_pos fits,
    Except.ok_bind]

theorem verify_ne_overflow : proof.verify hasher root leaf lefts ≠ .error .subtractOverflow := by
  rw [verify_eq fits]
  cases folded : fold hasher ((iterBits leaf.key).take (lefts.length + _)).reverse
    (leaf.hash hasher) lefts proof.rightSiblings with
  | error reason =>
    intro same
    cases same
    exact fold_ne_overflow _ _ _ _ folded
  | ok hash =>
    simp only [Except.ok_bind, ensure]
    split
    · nofun
    · nofun

theorem isPath_of_verify (ok : proof.verify hasher root leaf lefts = .ok ()) :
    proof.IsPath hasher root leaf lefts := by
  rw [verify_eq fits] at ok
  obtain ⟨hash, folded, same⟩ := of_bind ok
  rw [ensure_eq_ok.mp same] at folded
  refine fold_ok ?_ folded
  rw [length_reverse, length_take, length_iterBits, min_eq_left fits]

end

/-- The check does not panic, and accepts paths only, if and only if there are at most as many
siblings as a key has bits. -/
theorem verify_path [DecidableEq H] (hasher : SparseMerkleHasher H)
    (proof : SparseMerkleRangeProof H) (root : H) (leaf : SparseMerkleLeafNode H) (lefts : List H) :
    (proof.verify hasher root leaf lefts ≠ .error .subtractOverflow ∧
      (proof.verify hasher root leaf lefts = .ok () → proof.IsPath hasher root leaf lefts)) ↔
    lefts.length + proof.rightSiblings.length ≤ 256 := by
  refine ⟨fun exact => not_lt.mp fun more => exact.1 ?_,
    fun fits => ⟨verify_ne_overflow fits, isPath_of_verify fits⟩⟩
  unfold verify
  simp only [ensure, if_neg more.not_ge]
  rfl

end SparseMerkleRangeProof

/-- Hashes of numbers: leaves, internal nodes and the placeholder have different remainders. -/
def numbered : SparseMerkleHasher Nat where
  internal left right := 3 * Nat.pair left right + 1
  placeholder := 0
  leaf key hash := 3 * Nat.pair key.toNat hash + 2

/-- The key whose bits are 1 and then 0. -/
def topKey : BitVec 256 := 1#256 <<< 255

/-- A right sibling next to a leaf, and a left one above. -/
theorem two_siblings_path :
    let root := numbered.internal 6 (numbered.internal (numbered.leaf topKey 8) 4)
    SparseMerkleRangeProof.verify numbered ⟨[4]⟩ root ⟨topKey, 8⟩ [6] = .ok () ∧
      SparseMerkleRangeProof.IsPath numbered ⟨[4]⟩ root ⟨topKey, 8⟩ [6] := by
  intro root
  have accepted : SparseMerkleRangeProof.verify numbered ⟨[4]⟩ root ⟨topKey, 8⟩ [6] = .ok () := by
    decide +kernel
  refine ⟨accepted, ?_⟩
  exact ((SparseMerkleRangeProof.verify_path _ _ _ _ _).mpr (by decide)).2 accepted

/-- One right sibling more than a key has bits. -/
theorem too_many_siblings_panic :
    SparseMerkleRangeProof.verify numbered ⟨List.replicate 257 0⟩ 0 ⟨0, 0⟩ [] =
      .error .subtractOverflow := by
  rw [SparseMerkleRangeProof.verify, length_replicate]
  rfl

/-! ## Proofs of one key -/

/-- Hashes have no collisions, and those of leaves, of internal nodes and of the empty tree are
different. -/
structure SparseMerkleHasher.Separated (hasher : SparseMerkleHasher H) : Prop where
  oneWay : OneWay hasher.toMerkleHasher
  leaf : ∀ {key key' : BitVec 256} {hash hash' : H},
    hasher.leaf key hash = hasher.leaf key' hash' → key = key' ∧ hash = hash'
  atomic : ∀ (key : BitVec 256) (hash : H), Atomic hasher.toMerkleHasher (hasher.leaf key hash)
  proper : ∀ (key : BitVec 256) (hash : H), hasher.leaf key hash ≠ hasher.placeholder

/-- The last bits of a key, the most significant one first. -/
def lowBits (key : BitVec 256) (height : Nat) : List Bool :=
  ((List.range height).map key.getLsbD).reverse

theorem lowBits_succ (key : BitVec 256) (height : Nat) :
    lowBits key (height + 1) = key.getLsbD height :: lowBits key height := by
  simp [lowBits, range_succ]

section Paths

variable (hasher)

/-- The hash of the subtree with these entries, whose keys agree above their last `height` bits. -/
def canonicalRoot (height : Nat) (entries : List (BitVec 256 × H)) : H :=
  match entries, height with
  | [], _ => hasher.placeholder
  | [(key, hash)], _ => hasher.leaf key hash
  | _, 0 => hasher.placeholder
  | entries, height + 1 => hasher.internal
    (canonicalRoot height (entries.filter (·.1.getLsbD height = false)))
    (canonicalRoot height (entries.filter (·.1.getLsbD height = true)))

/-- The hash of the node that a path ends at. -/
def endHash (leaf : Option (SparseMerkleLeafNode H)) : H :=
  leaf.elim hasher.placeholder (·.hash hasher)

/-- The root of a path, from its bits and siblings from the top down. -/
def pathRoot (bits : List Bool) (siblings : List H) (leaf : Option (SparseMerkleLeafNode H)) : H :=
  (siblings.zip bits).foldr (fun (sibling, bit) hash => hasher.above bit hash sibling)
    (endHash hasher leaf)

end Paths

/-- The keys of any two entries differ in their last `height` bits. -/
def Spread (height : Nat) (entries : List (BitVec 256 × H)) : Prop :=
  entries.Pairwise fun a b => ∃ i < height, a.1.getLsbD i ≠ b.1.getLsbD i

theorem Spread.filter {height : Nat} {entries : List (BitVec 256 × H)}
    (spread : Spread (height + 1) entries) (bit : Bool) :
    Spread height (entries.filter (·.1.getLsbD height = bit)) := by
  refine (List.Pairwise.filter _ spread).imp_of_mem ?_
  intro a b memA memB differ
  obtain ⟨i, lt, ne⟩ := differ
  refine ⟨i, lt_of_le_of_ne (le_of_lt_succ lt) ?_, ne⟩
  rintro rfl
  simp only [mem_filter, decide_eq_true_eq] at memA memB
  exact ne (memA.2.trans memB.2.symm)

/-- The canonical tree has a path along every key, to the entry of the key if there is one. -/
theorem exists_path (key : BitVec 256) {height : Nat} {entries : List (BitVec 256 × H)}
    (spread : Spread height entries) :
    ∃ leaf siblings, siblings.length ≤ height ∧
      canonicalRoot hasher height entries = pathRoot hasher (lowBits key height) siblings leaf ∧
      ∀ hash, (key, hash) ∈ entries ↔ leaf = some ⟨key, hash⟩ := by
  induction height generalizing entries with
  | zero =>
    rcases entries with _ | ⟨a, _ | ⟨b, entries⟩⟩
    · exact ⟨none, [], le_refl 0, rfl, by simp⟩
    · exact ⟨some ⟨a.1, a.2⟩, [], le_refl 0, rfl, by simp [Prod.ext_iff, eq_comm]⟩
    · obtain ⟨i, lt, -⟩ := (pairwise_cons.mp spread).1 b mem_cons_self
      exact absurd lt (not_lt_zero i)
  | succ height ih =>
    obtain ⟨leaf, siblings, short, path, found⟩ := ih (spread.filter (key.getLsbD height))
    rcases entries with _ | ⟨a, _ | ⟨b, entries⟩⟩
    · exact ⟨none, [], zero_le _, rfl, by simp⟩
    · exact ⟨some ⟨a.1, a.2⟩, [], zero_le _, rfl, by simp [Prod.ext_iff, eq_comm]⟩
    refine ⟨leaf, canonicalRoot hasher height
      ((a :: b :: entries).filter (·.1.getLsbD height = !key.getLsbD height)) :: siblings,
      succ_le_succ short, ?_, fun hash => ?_⟩
    · rw [lowBits_succ]
      change _ = hasher.above _ (pathRoot hasher (lowBits key height) siblings leaf) _
      rw [← path]
      cases key.getLsbD height with
      | false | true => rfl
    · rw [← found, mem_filter, decide_eq_true rfl, and_iff_left rfl]

/-- Paths along the same bits with the same root end alike. -/
theorem pathRoot_inj (separated : hasher.Separated) {bits : List Bool} {siblings siblings' : List H}
    {leaf leaf' : Option (SparseMerkleLeafNode H)} (short : siblings.length ≤ bits.length)
    (short' : siblings'.length ≤ bits.length)
    (same : pathRoot hasher bits siblings leaf = pathRoot hasher bits siblings' leaf') :
    leaf = leaf' := by
  have apart (bit : Bool) (below sibling : H) (leaf : Option (SparseMerkleLeafNode H)) :
      hasher.above bit below sibling ≠ endHash hasher leaf := by
    have atomic : Atomic hasher.toMerkleHasher (endHash hasher leaf) := by
      cases leaf with
      | none => exact separated.oneWay.proper
      | some leaf => exact separated.atomic _ _
    cases bit with
    | false | true => exact atomic _ _
  induction bits generalizing siblings siblings' with
  | nil =>
    rw [eq_nil_of_length_eq_zero (le_zero.mp short),
      eq_nil_of_length_eq_zero (le_zero.mp short')] at same
    cases leaf with
    | none =>
      cases leaf' with
      | none => rfl
      | some leaf' => exact absurd same.symm (separated.proper _ _)
    | some leaf =>
      cases leaf' with
      | none => exact absurd same (separated.proper _ _)
      | some leaf' =>
        obtain ⟨key, hash⟩ := separated.leaf same
        exact congrArg some (SparseMerkleLeafNode.ext key hash)
  | cons bit bits ih =>
    rcases siblings with _ | ⟨sibling, siblings⟩
    · rcases siblings' with _ | ⟨sibling', siblings'⟩
      · exact @ih [] [] (zero_le _) (zero_le _) same
      · exact absurd same.symm (apart _ _ _ _)
    rcases siblings' with _ | ⟨sibling', siblings'⟩
    · exact absurd same (apart _ _ _ _)
    refine ih (le_of_succ_le_succ short) (le_of_succ_le_succ short') ?_
    change hasher.above _ _ _ = hasher.above _ _ _ at same
    unfold SparseMerkleHasher.above at same
    split at same
    · exact (separated.oneWay.injective same).2
    · exact (separated.oneWay.injective same).1

theorem verifyByHash_ok [DecidableEq H] {proof : SparseMerkleProof H} {root : H}
    {key : BitVec 256} {value : Option H}
    (accepted : proof.verifyByHash hasher root key value = .ok ()) :
    proof.siblings.length ≤ (iterBits key).length ∧
      pathRoot hasher (iterBits key) proof.siblings proof.leaf = root ∧
      ∀ hash, value = some hash ↔ proof.leaf = some ⟨key, hash⟩ := by
  obtain ⟨_, short, rest⟩ := of_bind accepted
  obtain ⟨_, leaf, same⟩ := of_bind rest
  have short : proof.siblings.length ≤ 256 := ensure_eq_ok.mp short
  refine ⟨short.trans (length_iterBits key).ge, ?_, fun hash => ?_⟩
  · rw [← ensure_eq_ok.mp same, drop_reverse, length_iterBits, Nat.sub_zero,
      Nat.sub_sub_self short, pathRoot, zip_eq_zip_take_min, length_iterBits,
      min_eq_left short, take_length, zip, ← reverse_zipWith (by simp [short]),
      foldl_reverse]
    rfl
  · unfold SparseMerkleProof.checkLeaf at leaf
    split at leaf
    · obtain ⟨_, sameKey, sameHash⟩ := of_bind leaf
      rw [ensure_eq_ok.mp sameKey, ensure_eq_ok.mp sameHash]
      grind [SparseMerkleLeafNode]
    · cases leaf
    · obtain ⟨_, other, -⟩ := of_bind leaf
      have other := ensure_eq_ok.mp other
      grind
    · rename_i found
      simp [found]

/-- An accepted proof shows what the map of the root has for the key, and all accepted proofs
show the same. -/
theorem SparseMerkleProof.verify_unique [DecidableEq H] (separated : hasher.Separated)
    {proof : SparseMerkleProof H} {root : H} {key : BitVec 256} {value : Option H}
    (accepted : proof.verifyByHash hasher root key value = .ok ()) :
    (∀ map : Table (BitVec 256) H, canonicalRoot hasher 256 map.entries = root →
      map.find? key = value) ∧
    ∀ (proof' : SparseMerkleProof H) (value' : Option H),
      proof'.verifyByHash hasher root key value' = .ok () → value' = value := by
  obtain ⟨short, path, shows⟩ := verifyByHash_ok accepted
  refine ⟨fun map isRoot => ?_, fun proof' value' accepted' => ?_⟩
  · have spread : Spread 256 map.entries := by
      refine (pairwise_map.mp map.distinct).imp fun {a b} ne => ?_
      by_contra same
      exact ne (BitVec.eq_of_getLsbD_eq fun i lt => by_contra fun differ => same ⟨i, lt, differ⟩)
    obtain ⟨leaf, siblings, short', path', found⟩ := @exists_path _ hasher key _ _ spread
    have ends : leaf = proof.leaf := pathRoot_inj separated
      (short'.trans (length_iterBits key).ge) short (path'.symm.trans (isRoot.trans path.symm))
    ext hash
    rw [shows, ← ends, ← found, Table.find?_eq_some]
  · obtain ⟨short', path', shows'⟩ := verifyByHash_ok accepted'
    have ends := pathRoot_inj separated short' short (path'.trans path.symm)
    ext hash
    rw [shows, shows', ends]

theorem numbered_separated : numbered.Separated where
  oneWay := by
    refine ⟨?_, ?_⟩
    · intro a b c d same
      simp only [numbered] at same
      exact pair_eq_pair.mp (by omega)
    · intro a b
      exact succ_ne_zero _
  leaf same := by
    obtain ⟨sameKey, sameHash⟩ := pair_eq_pair.mp
      (Nat.eq_of_mul_eq_mul_left (by decide) (Nat.add_right_cancel same))
    exact ⟨BitVec.eq_of_toNat_eq sameKey, sameHash⟩
  atomic key hash a b same := by
    simp only [numbered] at same
    omega
  proper key hash := succ_ne_zero _

/-- A map with two keys, which differ in their first bits. -/
def twoLeaves : Table (BitVec 256) Nat := (Table.empty.insert 0 7).insert topKey 8

/-- One of the keys is proved to be there, and a third key not to be. -/
theorem two_leaves_unique :
    let root := numbered.internal (numbered.leaf 0 7) (numbered.leaf topKey 8)
    (twoLeaves.find? 0 = some 7 ∧ ∀ (proof' : SparseMerkleProof Nat) (value' : Option Nat),
      proof'.verifyByHash numbered root 0 value' = .ok () → value' = some 7) ∧
    (twoLeaves.find? 1 = none ∧ ∀ (proof' : SparseMerkleProof Nat) (value' : Option Nat),
      proof'.verifyByHash numbered root 1 value' = .ok () → value' = none) := by
  intro root
  have isRoot : canonicalRoot numbered 256 twoLeaves.entries = root := by decide +kernel
  have present := SparseMerkleProof.verify_unique numbered_separated (show
    SparseMerkleProof.verifyByHash numbered ⟨some ⟨0, 7⟩, [numbered.leaf topKey 8]⟩ root 0
      (some 7) = .ok () by decide +kernel)
  have absent := SparseMerkleProof.verify_unique numbered_separated (show
    SparseMerkleProof.verifyByHash numbered ⟨some ⟨0, 7⟩, [numbered.leaf topKey 8]⟩ root 1
      none = .ok () by decide +kernel)
  exact ⟨⟨present.1 twoLeaves isRoot, present.2⟩, absent.1 twoLeaves isRoot, absent.2⟩

end CreditChain
