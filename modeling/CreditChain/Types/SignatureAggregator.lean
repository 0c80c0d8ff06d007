import CreditChain.Lib.SortedMap
import CreditChain.Types.ValidatorVerifier
import Mathlib.Tactic.Linarith

/-!
# Collecting signatures

`SignatureAggregator` collects the signatures of validators on one message.  It first
aggregates all of them and verifies the result at once; only when that fails are the
signatures that are not marked as verified checked one by one.

* `marked_of_known`: the order of the signers' mask, as a reordering of the shares.
* `aggregateSignatures_signers`: the mask that aggregation produces names the authors of
  the shares, as the checks of `ValidatorVerifier` read it.
* `aggregateAndVerify_verifies`: what comes out verifies, if every signature marked as
  verified is valid for the message of the aggregator.
-/

namespace CreditChain

open Bitvec List
open Std.ExtTreeMap (map_fst_toList_eq_keys mem_iff_isSome_getElem? mem_of_mem_filterMap)

/-- What the scheme promises: shares that verify one by one verify together, in any order. -/
structure Bls.Complete {M : Type} (bls : Bls M) : Prop where
  aggregate_nil : bls.aggregate [] = none
  aggregateKeys : ∀ keys, keys ≠ [] → (bls.aggregateKeys keys).isSome
  multi : ∀ (message : M) (shares : List (PublicKey × Signature)) keys key sig,
    (∀ share ∈ shares, bls.verify share.2 message share.1 = true) →
    keys.Perm (shares.map (·.1)) → bls.aggregate (shares.map (·.2)) = some sig →
    bls.aggregateKeys keys = some key → bls.verify sig message key = true
  aggregate : ∀ (shares shares' : List (M × PublicKey × Signature)) sig,
    (∀ share ∈ shares, bls.verify share.2.2 share.1 share.2.1 = true) →
    shares'.Perm shares → bls.aggregate (shares.map (·.2.2)) = some sig →
    bls.verifyAggregate sig (shares'.map (·.1)) (shares'.map (·.2.1)) = true

theorem Bls.linear_complete {M : Type} (tag : M → Nat) : (Bls.linear tag).Complete where
  aggregate_nil := rfl
  aggregateKeys keys nonempty := by
    simp [Bls.linear, nonempty]
  multi := by
    intro message shares keys key sig valid perm made found
    have valid : ∀ share ∈ shares, share.2 = share.1 * tag message := by
      simpa [Bls.linear] using valid
    have sumSigs : (shares.map (·.2)).sum = (shares.map (·.1)).sum * tag message := by
      rw [← sum_map_mul_right]
      exact congrArg sum (map_congr_left valid)
    simp only [Bls.linear] at made found ⊢
    split at made
    · cases made
    split at found
    · cases found
    · cases made
      cases found
      rw [beq_iff_eq, sumSigs, perm.sum_eq]
  aggregate := by
    intro shares shares' sig valid perm made
    have valid : ∀ share ∈ shares, share.2.2 = share.2.1 * tag share.1 := by
      simpa [Bls.linear] using valid
    have zipped : (shares'.map (·.1)).zip (shares'.map (·.2.1)) =
        shares'.map fun share => (share.1, share.2.1) := by
      rw [zip_map']
    simp only [Bls.linear] at made ⊢
    split at made
    · cases made
    · cases made
      rw [beq_iff_eq, zipped, map_map, ((perm.map _).sum_eq)]
      exact congrArg sum (map_congr_left valid)

/-- A validator set with its optimistic-verification state. -/
structure OptimisticVerifier where
  verifier : ValidatorVerifier
  optimisticSigVerification : Bool
  pessimisticVerifySet : List AccountAddress
  deriving DecidableEq

namespace OptimisticVerifier

/-- `optimistic_verify`: the signature as it is marked afterwards. -/
def optimisticVerify {M : Type} (bls : Bls M) (ov : OptimisticVerifier) (author : AccountAddress)
    (message : M) (signature : SignatureWithStatus) : Except VerifyError SignatureWithStatus :=
  if ov.verifier.getPublicKey author = none then .error .unknownAuthor
  else if (!ov.optimisticSigVerification || ov.pessimisticVerifySet.contains author) &&
      !signature.verified then do
    ov.verifier.verify bls author message signature.signature
    .ok { signature with verified := true }
  else .ok signature

/-- `add_pessimistic_verify_set`, for several authors. -/
def addPessimisticVerifySet (ov : OptimisticVerifier) (authors : List AccountAddress) :
    OptimisticVerifier :=
  { ov with pessimisticVerifySet := ov.pessimisticVerifySet ++ authors }

end OptimisticVerifier

/-- Whether `filter_invalid_signatures` keeps a signature. -/
def ValidatorVerifier.keepsSignature {M : Type} (bls : Bls M) (v : ValidatorVerifier) (message : M)
    (author : AccountAddress) (signature : SignatureWithStatus) : Bool :=
  signature.verified || (v.verify bls author message signature.signature).isOk

/-- `filter_invalid_signatures`: the signatures that stay, and the authors of the others. -/
def ValidatorVerifier.filterInvalidSignatures {M : Type} (bls : Bls M) (v : ValidatorVerifier)
    (message : M) (signatures : Map AccountAddress SignatureWithStatus) :
    Map AccountAddress SignatureWithStatus × List AccountAddress :=
  (signatures.filterMap fun author signature =>
      if v.keepsSignature bls message author signature then
        some { signature with verified := true }
      else none,
    (signatures.toList.filter fun entry =>
      !v.keepsSignature bls message entry.1 entry.2).map (·.1))

structure SignatureAggregator (T : Type) where
  data : T
  signatures : Map AccountAddress SignatureWithStatus
  deriving DecidableEq

namespace SignatureAggregator

variable {M T : Type}

def new (data : T) : SignatureAggregator T := ⟨data, ∅⟩

variable (a : SignatureAggregator T)

def addSignature (validator : AccountAddress) (signature : SignatureWithStatus) :
    SignatureAggregator T :=
  { a with signatures := a.signatures.insert validator signature }

def allVoters : List AccountAddress := a.signatures.keys

def checkVotingPower (v : ValidatorVerifier) (checkSuperMajority : Bool) : Except VerifyError Nat :=
  v.checkVotingPower a.allVoters checkSuperMajority

def tryAggregate (bls : Bls M) (a : SignatureAggregator T) (v : ValidatorVerifier) :
    Except VerifyError AggregateSignature := do
  let _ ← a.checkVotingPower v true
  v.aggregateSignatures bls (a.signatures.toList.map fun entry => (entry.1, entry.2.signature))

/-- `aggregate_and_verify`, with the aggregator and the verifier it leaves behind. -/
def aggregateAndVerify (bls : Bls M) (wrap : T → M) (a : SignatureAggregator T)
    (ov : OptimisticVerifier) :
    Except VerifyError (T × AggregateSignature) × SignatureAggregator T × OptimisticVerifier :=
  match a.tryAggregate bls ov.verifier with
  | .error e => (.error e, a, ov)
  | .ok aggregated =>
    match ov.verifier.verifyMultiSignatures bls (wrap a.data) aggregated with
    | .ok _ => (.ok (a.data, aggregated), a, ov)
    | .error _ =>
      let filtered := ov.verifier.filterInvalidSignatures bls (wrap a.data) a.signatures
      let a' : SignatureAggregator T := ⟨a.data, filtered.1⟩
      ((a'.tryAggregate bls ov.verifier).map fun aggregated => (a.data, aggregated), a',
        ov.addPessimisticVerifySet filtered.2)

end SignatureAggregator

variable {agg : AggregateSignature} {author : AccountAddress}

namespace ValidatorVerifier

variable {v : ValidatorVerifier} {M P : Type} {bls : Bls M}

/-! ## The mask of an aggregate -/

variable {addr : AccountAddress} {index n power : Nat}

theorem lt_len_of_index (found : v.addressToValidatorIndex addr = some index) : index < v.len := by
  obtain ⟨info, position, -⟩ := addressToValidatorIndex_some found
  exact (List.getElem?_eq_some_iff.mp position).1

/-- An index belongs to one address. -/
theorem address_unique {addr' : AccountAddress}
    (found : v.addressToValidatorIndex addr = some index)
    (found' : v.addressToValidatorIndex addr' = some index) : addr = addr' := by
  obtain ⟨info, position, same⟩ := addressToValidatorIndex_some found
  obtain ⟨info', position', same'⟩ := addressToValidatorIndex_some found'
  rw [position] at position'
  cases position'
  exact same.symm.trans same'

variable {mask : Bitvec}

/-- The collected mask marks the authors of the shares and nobody else. -/
theorem collectShares_ok {shares : List (AccountAddress × Signature)} {mask' : Bitvec}
    {sigs sigs' : List Signature} (small : v.len ≤ 65536)
    (collected : v.collectShares shares mask sigs = .ok (mask', sigs')) :
    sigs' = sigs ++ shares.map (·.2) ∧
      (v.len ≤ mask.numBuckets * 8 → mask'.numBuckets = mask.numBuckets) ∧
      (∀ share ∈ shares, ∃ index, v.addressToValidatorIndex share.1 = some index) ∧
      ∀ pos, mask'.isSet pos ↔ mask.isSet pos ∨
        ∃ share ∈ shares, v.addressToValidatorIndex share.1 = some pos := by
  induction shares generalizing mask sigs with
  | nil =>
    cases collected
    simp
  | cons share shares ih =>
    obtain ⟨addr, sig⟩ := share
    rw [collectShares] at collected
    split at collected
    · cases collected
    rename_i index found
    have bound := lt_len_of_index found
    simp only [asU16_of_lt (bound.trans_le small)] at collected
    obtain ⟨sigsEq, bucketsEq, known, set⟩ := ih collected
    refine ⟨?_, ?_, ?_, ?_⟩
    · rw [sigsEq, append_assoc]
      rfl
    · intro wide
      have buckets := numBuckets_set (bound.trans_le wide)
      rw [buckets] at bucketsEq
      exact bucketsEq wide
    · intro share mem
      rcases mem_cons.mp mem with rfl | later
      · exact ⟨index, found⟩
      · exact known share later
    · intro pos
      rw [set, isSet_set]
      simp only [Bool.or_eq_true, decide_eq_true_eq, mem_cons, exists_eq_or_imp, found,
        Option.some.injEq]
      tauto

/-- The entries of known authors in the order of the mask, with position and validator. -/
structure Marked (v : ValidatorVerifier) (entries : List (AccountAddress × P))
    (marked : List (Nat × ValidatorConsensusInfo × P)) : Prop where
  sorted : (marked.map (·.1)).Pairwise (· < ·)
  found : ∀ entry ∈ marked, v.validatorInfos[entry.1]? = some entry.2.1
  index : ∀ entry ∈ marked, v.addressToValidatorIndex entry.2.1.address = some entry.1
  perm : (marked.map fun entry => (entry.2.1.address, entry.2.2)).Perm entries

variable {entries : List (AccountAddress × P)}

/-- The entries with their positions, still in their own order. -/
theorem exists_positions
    (known : ∀ entry ∈ entries, ∃ index, v.addressToValidatorIndex entry.1 = some index) :
    ∃ raw : List (Nat × ValidatorConsensusInfo × P),
      (∀ entry ∈ raw, v.validatorInfos[entry.1]? = some entry.2.1 ∧
        v.addressToValidatorIndex entry.2.1.address = some entry.1) ∧
      raw.map (fun entry => (entry.2.1.address, entry.2.2)) = entries := by
  induction entries with
  | nil => exact ⟨[], by simp, rfl⟩
  | cons entry entries ih =>
    obtain ⟨raw, found, same⟩ := ih fun entry mem => known entry (mem_cons_of_mem _ mem)
    obtain ⟨index, at_index⟩ := known entry mem_cons_self
    obtain ⟨info, position, address⟩ := addressToValidatorIndex_some at_index
    refine ⟨(index, info, entry.2) :: raw, ?_, ?_⟩
    · intro entry' mem
      rcases mem_cons.mp mem with rfl | later
      · rw [address]
        exact ⟨position, at_index⟩
      · exact found entry' later
    · rw [map_cons, same, address]

theorem marked_of_known (distinct : (entries.map (·.1)).Nodup)
    (known : ∀ entry ∈ entries, ∃ index, v.addressToValidatorIndex entry.1 = some index) :
    ∃ marked, v.Marked entries marked := by
  obtain ⟨raw, found, same⟩ := exists_positions known
  let marked := raw.mergeSort fun a b => decide (a.1 ≤ b.1)
  have perm : marked.Perm raw := mergeSort_perm _ _
  have ordered : marked.Pairwise fun a b => a.1 ≤ b.1 :=
    pairwise_mergeSort' (fun a b => a.1 ≤ b.1) raw
  -- equal positions would be equal addresses
  have apart : marked.Pairwise fun a b => a.2.1.address ≠ b.2.1.address := by
    have nodup : (raw.map fun entry => entry.2.1.address).Nodup := by
      rw [← same, map_map] at distinct
      exact distinct
    exact pairwise_map.mp ((perm.map _).nodup_iff.mpr nodup)
  refine ⟨marked, ?_, ?_, ?_, ?_⟩
  · rw [pairwise_map]
    refine (ordered.and apart).imp_of_mem ?_
    intro a b inA inB related
    refine lt_of_le_of_ne related.1 ?_
    intro equal
    have indexA := (found a (perm.mem_iff.mp inA)).2
    have indexB := (found b (perm.mem_iff.mp inB)).2
    rw [← equal] at indexB
    exact related.2 (address_unique indexA indexB)
  · intro entry mem
    exact (found entry (perm.mem_iff.mp mem)).1
  · intro entry mem
    exact (found entry (perm.mem_iff.mp mem)).2
  · rw [← same]
    exact perm.map _

variable {marked : List (Nat × ValidatorConsensusInfo × P)}

theorem Marked.mem_positions (done : v.Marked entries marked) {pos : Nat} :
    pos ∈ marked.map (·.1) ↔ ∃ entry ∈ entries, v.addressToValidatorIndex entry.1 = some pos := by
  constructor
  · intro mem
    obtain ⟨entry, inMarked, rfl⟩ := mem_map.mp mem
    refine ⟨_, done.perm.mem_iff.mp (mem_map_of_mem inMarked), done.index entry inMarked⟩
  · intro exists_entry
    obtain ⟨entry, mem, found⟩ := exists_entry
    obtain ⟨entry', inMarked, rfl⟩ := mem_map.mp (done.perm.mem_iff.mpr mem)
    have same := done.index entry' inMarked
    rw [found] at same
    cases same
    exact mem_map_of_mem inMarked

/-- A mask that marks the authors of the entries lists their positions in order. -/
theorem Marked.iterOnes_eq (done : v.Marked entries marked) (fits : mask.numBuckets * 8 ≤ 65536)
    (set : ∀ pos, mask.isSet pos ↔ ∃ entry ∈ entries, v.addressToValidatorIndex entry.1 = some pos) :
    mask.iterOnes = marked.map (·.1) := by
  have sameMembers : ∀ pos, pos ∈ mask.iterOnes ↔ pos ∈ marked.map (·.1) := by
    intro pos
    rw [mem_iterOnes fits, set, done.mem_positions]
  have nodup : (marked.map (·.1)).Nodup := done.sorted.imp fun lt => lt.ne
  have perm := (perm_ext_iff_of_nodup mask.iterOnes_nodup nodup).mpr sameMembers
  exact perm.eq_of_pairwise (fun a b _ _ lt gt => absurd lt (lt_asymm gt))
    mask.iterOnes_sorted done.sorted

theorem requiredBuckets_wide (n : Nat) : n ≤ requiredBuckets n * 8 := by
  unfold requiredBuckets
  split
  · omega
  · omega

theorem requiredBuckets_fits (small : n < 65536) : requiredBuckets n * 8 ≤ 65536 := by
  unfold requiredBuckets
  split
  · omega
  · omega

theorem checkNumOfVoters_ok (buckets : mask.numBuckets = requiredBuckets n)
    (below : ∀ pos, mask.isSet pos → pos < n) : checkNumOfVoters n mask = .ok () := by
  rw [checkNumOfVoters, if_neg (not_not.mpr buckets)]
  cases last : mask.lastSetBit with
  | none => rfl
  | some pos =>
    have bound := below pos (isSet_of_lastSetBit last)
    dsimp only
    rw [if_neg bound.not_ge]

/-- The addresses read off a mask are those of the entries that it marks. -/
theorem Marked.getSignersAddresses_perm (done : v.Marked entries marked) (small : v.len ≤ 65536)
    (set : ∀ pos, agg.validatorBitmask.isSet pos ↔
      ∃ entry ∈ entries, v.addressToValidatorIndex entry.1 = some pos) :
    (agg.getSignersAddresses v.getOrderedAccountAddresses).Perm (entries.map (·.1)) := by
  let positions := (range v.len).filter fun pos => agg.validatorBitmask.isSet pos
  have perm : positions.Perm (marked.map (·.1)) := by
    refine (perm_ext_iff_of_nodup (nodup_range.filter _) (done.sorted.imp fun lt => lt.ne)).mpr ?_
    intro pos
    rw [mem_filter, mem_range, set, done.mem_positions]
    constructor
    · exact And.right
    · intro there
      obtain ⟨entry, mem, found⟩ := there
      exact ⟨lt_len_of_index found, entry, mem, found⟩
  -- Both lists look the addresses up, in the order of their positions.
  have read : agg.getSignersAddresses v.getOrderedAccountAddresses =
      positions.filterMap fun pos => v.getOrderedAccountAddresses[pos]? := by
    have read : positions = v.getOrderedAccountAddresses.zipIdx.filterMap fun entry =>
        if agg.validatorBitmask.isSet (asU16 entry.2) then some entry.2 else none := by
      have length : v.getOrderedAccountAddresses.length = v.len := length_map _
      rw [← length] at small
      rw [show positions = ((v.getOrderedAccountAddresses.zipIdx.map (·.2)).filter fun pos =>
          agg.validatorBitmask.isSet pos) by
        rw [zipIdx_map_snd, ← range_eq_range', length], ← filterMap_eq_filter,
        filterMap_map]
      refine filterMap_congr fun entry mem => ?_
      have bound := (List.getElem?_eq_some_iff.mp (mk_mem_zipIdx_iff_getElem?.mp mem)).1
      simp only [Function.comp_apply, Option.guard, asU16_of_lt (bound.trans_le small)]
    rw [read, filterMap_filterMap]
    refine filterMap_congr fun entry mem => ?_
    split
    · exact (mk_mem_zipIdx_iff_getElem?.mp mem).symm
    · rfl
  have looked : (marked.map (·.1)).filterMap (fun pos => v.getOrderedAccountAddresses[pos]?) =
      marked.map fun entry => entry.2.1.address := by
    rw [filterMap_map, ← filterMap_eq_map]
    refine filterMap_congr fun entry mem => ?_
    rw [Function.comp_apply, getOrderedAccountAddresses, getElem?_map, done.found entry mem]
    rfl
  have authors := done.perm.map (·.1)
  rw [map_map] at authors
  rw [read]
  exact (perm.filterMap _).trans (looked ▸ authors)

variable {signatures : List (AccountAddress × Signature)}

/-- Aggregation succeeds only for known authors; its mask then marks them. -/
theorem aggregateSignatures_marks (small : v.len ≤ 65536)
    (aggregated : v.aggregateSignatures bls signatures = .ok agg)
    (entries : List (AccountAddress × P)) (distinct : (entries.map (·.1)).Nodup)
    (authors : signatures.map (·.1) = entries.map (·.1)) :
    ∃ sig marked, agg.sig = some sig ∧ bls.aggregate (signatures.map (·.2)) = some sig ∧
      v.Marked entries marked ∧
      (v.len < 65536 → agg.validatorBitmask.numBuckets = requiredBuckets v.len) ∧
      ∀ pos, agg.validatorBitmask.isSet pos ↔
        ∃ entry ∈ entries, v.addressToValidatorIndex entry.1 = some pos := by
  obtain ⟨⟨mask, sigs⟩, collected, rest⟩ := of_bind aggregated
  obtain ⟨sigsEq, buckets, known, set⟩ := collectShares_ok small collected
  have knownEntries : ∀ entry ∈ entries, ∃ index, v.addressToValidatorIndex entry.1 = some index := by
    intro entry mem
    have inAuthors : entry.1 ∈ signatures.map (·.1) := authors ▸ mem_map_of_mem mem
    obtain ⟨share, inShares, same⟩ := mem_map.mp inAuthors
    rw [← same]
    exact known share inShares
  obtain ⟨marked, done⟩ := marked_of_known distinct knownEntries
  dsimp only at rest
  split at rest
  · cases rest
  rename_i sig multi
  cases rest
  rw [sigsEq, nil_append] at multi
  refine ⟨sig, marked, rfl, multi, done, ?_, ?_⟩
  · intro below
    have length : (withNumBits (asU16 v.len)).numBuckets = requiredBuckets v.len := by
      simp [numBuckets, withNumBits, asU16_of_lt below]
    exact (buckets (length ▸ requiredBuckets_wide v.len)).trans length
  · intro pos
    have byAuthor : ∀ {Q : Type} (l : List (AccountAddress × Q)),
        (∃ entry ∈ l, v.addressToValidatorIndex entry.1 = some pos) ↔
          ∃ addr ∈ l.map (·.1), v.addressToValidatorIndex addr = some pos := by
      simp
    rw [set, byAuthor, byAuthor, authors]
    simp

/-- The mask names the authors as the checks read it. -/
theorem aggregateSignatures_signers (small : v.len < 65536)
    (aggregated : v.aggregateSignatures bls signatures = .ok agg)
    (entries : List (AccountAddress × P)) (distinct : (entries.map (·.1)).Nodup)
    (authors : signatures.map (·.1) = entries.map (·.1))
    (checked : v.checkVotingPower (entries.map (·.1)) true = .ok power) :
    ∃ sig marked, agg.sig = some sig ∧ bls.aggregate (signatures.map (·.2)) = some sig ∧
      v.Marked entries marked ∧ v.Signers agg.validatorBitmask (marked.map (·.2.1)) ∧
      (agg.getSignersAddresses v.getOrderedAccountAddresses).Perm (entries.map (·.1)) := by
  obtain ⟨sig, marked, found, multi, done, buckets, set⟩ :=
    aggregateSignatures_marks small.le aggregated entries distinct authors
  have buckets := buckets small
  obtain ⟨summed, quorum⟩ := checkVotingPower_ok.mp checked
  obtain ⟨knownPower, rfl⟩ := sumVotingPower_ok.mp summed
  refine ⟨sig, marked, found, multi, done, ⟨?_, ?_, ?_, ?_⟩,
    done.getSignersAddresses_perm small.le set⟩
  · rw [asU16_of_lt small]
    refine checkNumOfVoters_ok buckets ?_
    intro pos isSet
    obtain ⟨entry, -, found⟩ := (set pos).mp isSet
    exact lt_len_of_index found
  · rw [done.iterOnes_eq (by rw [buckets]; exact requiredBuckets_fits small) set,
      forall₂_map_left_iff, forall₂_map_right_iff, forall₂_same]
    exact done.found
  · intro info mem
    obtain ⟨entry, inMarked, rfl⟩ := mem_map.mp mem
    refine knownPower _ ?_
    exact mem_map_of_mem (done.perm.mem_iff.mp (mem_map_of_mem inMarked))
  · have sums := ((done.perm.map Prod.fst).map v.powerOf).sum_eq
    rw [← sums, map_map, map_map] at quorum
    rw [map_map]
    exact quorum

variable {message : M} {signature : Signature}

theorem verify_ok :
    v.verify bls author message signature = .ok () ↔
      ∃ key, v.getPublicKey author = some key ∧ bls.verify signature message key = true := by
  unfold verify
  cases v.getPublicKey author with
  | none | some key => simp

/-- The key of an author, as the checks look it up. -/
def keyOf (v : ValidatorVerifier) (author : AccountAddress) : PublicKey :=
  (v.getPublicKey author).getD 0

theorem bls_verify_keyOf (valid : v.verify bls author message signature = .ok ()) :
    bls.verify signature message (v.keyOf author) = true := by
  obtain ⟨key, found, verified⟩ := verify_ok.mp valid
  rw [keyOf, found]
  exact verified

theorem Marked.keyOf_eq (done : v.Marked entries marked)
    {entry : Nat × ValidatorConsensusInfo × P} (mem : entry ∈ marked) :
    v.keyOf entry.2.1.address = entry.2.1.publicKey := by
  rw [keyOf, getPublicKey, infoOf, done.index entry mem, Option.bind_some, done.found entry mem]
  rfl

/-- The aggregate of signatures that are valid one by one is valid. -/
theorem verifyMultiSignatures_of_valid (complete : bls.Complete) (small : v.len < 65536)
    (distinct : (signatures.map (·.1)).Nodup)
    (valid : ∀ share ∈ signatures, v.verify bls share.1 message share.2 = .ok ())
    (checked : v.checkVotingPower (signatures.map (·.1)) true = .ok power)
    (aggregated : v.aggregateSignatures bls signatures = .ok agg) :
    v.verifyMultiSignatures bls message agg = .ok () := by
  obtain ⟨sig, marked, found, made, done, signers, -⟩ :=
    aggregateSignatures_signers small aggregated signatures distinct rfl checked
  have nonempty : (marked.map (·.2.1)).map (·.publicKey) ≠ [] := by
    intro none
    have empty : marked = [] := by simpa using none
    have perm := done.perm
    rw [empty, map_nil, nil_perm] at perm
    rw [perm] at made
    exact absurd made (by simp [complete.aggregate_nil])
  obtain ⟨key, keys⟩ := Option.isSome_iff_exists.mp (complete.aggregateKeys _ nonempty)
  refine verifyMultiSignatures_ok.mpr ⟨_, sig, key, signers, found, keys, ?_⟩
  refine complete.multi message (signatures.map fun share => (v.keyOf share.1, share.2)) _ key sig
    ?_ ?_ ?_ keys
  · intro share mem
    obtain ⟨entry, inSignatures, rfl⟩ := mem_map.mp mem
    exact bls_verify_keyOf (valid entry inSignatures)
  · have perm := done.perm.map fun share => v.keyOf share.1
    rw [map_map] at perm
    rw [map_map, map_map]
    refine .trans (Perm.of_eq ?_) perm
    exact map_congr_left fun entry mem => (done.keyOf_eq mem).symm
  · rw [map_map]
    exact made

end ValidatorVerifier

open ValidatorVerifier

namespace SignatureAggregator

variable {M T : Type} {bls : Bls M} {wrap : T → M} {a a' : SignatureAggregator T}
  {ov ov' : OptimisticVerifier}

/-- Every signature marked as verified is valid for the message of the aggregator. -/
def FlagsSound (bls : Bls M) (wrap : T → M) (v : ValidatorVerifier) (a : SignatureAggregator T) :
    Prop :=
  ∀ author signature, a.signatures[author]? = some signature → signature.verified = true →
    v.verify bls author (wrap a.data) signature.signature = .ok ()

variable {v : ValidatorVerifier}

theorem FlagsSound.new (data : T) : (SignatureAggregator.new data).FlagsSound bls wrap v := by
  intro author signature found
  simp [SignatureAggregator.new] at found

variable {signature : SignatureWithStatus}

theorem FlagsSound.addSignature {validator : AccountAddress} (sound : a.FlagsSound bls wrap v)
    (valid : signature.verified = true →
      v.verify bls validator (wrap a.data) signature.signature = .ok ()) :
    (a.addSignature validator signature).FlagsSound bls wrap v := by
  intro author signature' found
  rw [SignatureAggregator.addSignature, Map.getElem?_insert_eq] at found
  split at found
  · rename_i same
    cases found
    rw [← same]
    exact valid
  · exact sound author signature' found

theorem tryAggregate_ok (aggregated : a.tryAggregate bls v = .ok agg) :
    (∃ power, v.checkVotingPower a.allVoters true = .ok power) ∧
      v.aggregateSignatures bls
        (a.signatures.toList.map fun entry => (entry.1, entry.2.signature)) = .ok agg := by
  obtain ⟨power, checked, rest⟩ := of_bind aggregated
  exact ⟨⟨power, checked⟩, rest⟩

/-- The aggregator without the signatures that do not verify. -/
def filtered (bls : Bls M) (wrap : T → M) (v : ValidatorVerifier) (a : SignatureAggregator T) :
    SignatureAggregator T :=
  ⟨a.data, (v.filterInvalidSignatures bls (wrap a.data) a.signatures).1⟩

section

variable (sound : a.FlagsSound bls wrap v)

include sound

theorem FlagsSound.keepsSignature_iff (found : a.signatures[author]? = some signature) :
    v.keepsSignature bls (wrap a.data) author signature = true ↔
      v.verify bls author (wrap a.data) signature.signature = .ok () := by
  rw [keepsSignature, Bool.or_eq_true]
  constructor
  · intro keeps
    rcases keeps with flagged | valid
    · exact sound author signature found flagged
    cases outcome : v.verify bls author (wrap a.data) signature.signature with
    | ok u => rfl
    | error e =>
      rw [outcome] at valid
      cases valid
  · intro valid
    rw [valid]
    exact .inr rfl

/-- Filtering keeps the valid signatures, and marks them. -/
theorem FlagsSound.filtered_eq
    (author : AccountAddress) : (a.filtered bls wrap v).signatures[author]? =
      (a.signatures[author]?.filter fun signature =>
        v.verify bls author (wrap a.data) signature.signature = .ok ()).map
          fun signature => { signature with verified := true } := by
  refine Std.ExtTreeMap.getElem?_filterMap'.trans ?_
  cases found : a.signatures[author]? with
  | none => rfl
  | some signature =>
    simp only [Option.bind_some, sound.keepsSignature_iff found, Option.filter_some,
      decide_eq_true_eq]
    split
    · rfl
    · rfl

/-- After filtering everything is valid. -/
theorem FlagsSound.filtered_valid
    (kept : (a.filtered bls wrap v).signatures[author]? = some signature) :
    v.verify bls author (wrap a.data) signature.signature = .ok () := by
  rw [sound.filtered_eq] at kept
  obtain ⟨old, chosen, rfl⟩ := Option.map_eq_some_iff.mp kept
  exact of_decide_eq_true (Option.filter_eq_some_iff.mp chosen).2

end

theorem map_fst_shares (signatures : Map AccountAddress SignatureWithStatus) :
    (signatures.toList.map fun entry => (entry.1, entry.2.signature)).map (·.1) =
      signatures.keys := by
  rw [map_map]
  exact map_fst_toList_eq_keys

/-- An aggregator whose signatures are all valid aggregates to a valid signature. -/
theorem tryAggregate_verifies (complete : bls.Complete) (small : v.len < 65536)
    (valid : ∀ author signature, a.signatures[author]? = some signature →
      v.verify bls author (wrap a.data) signature.signature = .ok ())
    (aggregated : a.tryAggregate bls v = .ok agg) :
    v.verifyMultiSignatures bls (wrap a.data) agg = .ok () := by
  obtain ⟨⟨power, checked⟩, made⟩ := tryAggregate_ok aggregated
  rw [allVoters, ← map_fst_shares] at checked
  refine verifyMultiSignatures_of_valid complete small ?_ ?_ checked made
  · rw [map_fst_shares]
    exact Map.keys_nodup _
  · intro share mem
    obtain ⟨entry, inList, rfl⟩ := mem_map.mp mem
    exact valid _ _ (Std.ExtTreeMap.mem_toList_iff_getElem?_eq_some.mp inList)

/-- An aggregate names the authors of all signatures, and they are a quorum. -/
theorem tryAggregate_signers (small : v.len ≤ 65536) (aggregated : a.tryAggregate bls v = .ok agg) :
    (agg.getSignersAddresses v.getOrderedAccountAddresses).Perm a.allVoters ∧
      v.quorumVotingPower ≤ (a.allVoters.map v.powerOf).sum := by
  obtain ⟨⟨power, checked⟩, made⟩ := tryAggregate_ok aggregated
  obtain ⟨summed, quorum⟩ := checkVotingPower_ok.mp checked
  obtain ⟨-, rfl⟩ := sumVotingPower_ok.mp summed
  refine ⟨?_, quorum⟩
  have keys : a.signatures.toList.map (·.1) = a.allVoters :=
    map_fst_toList_eq_keys
  obtain ⟨-, marked, -, -, done, -, set⟩ := aggregateSignatures_marks small
    made a.signatures.toList (keys ▸ Map.keys_nodup _) (by rw [map_map]; rfl)
  rw [← keys]
  exact done.getSignersAddresses_perm small set

/-- The first aggregate fails, or it verifies, or only the valid signatures are aggregated. -/
theorem aggregateAndVerify_cases (bls : Bls M) (wrap : T → M) (a : SignatureAggregator T)
    (ov : OptimisticVerifier) :
    (∃ e, a.tryAggregate bls ov.verifier = .error e ∧
      a.aggregateAndVerify bls wrap ov = (.error e, a, ov)) ∨
    ∃ agg, a.tryAggregate bls ov.verifier = .ok agg ∧
      ((ov.verifier.verifyMultiSignatures bls (wrap a.data) agg = .ok () ∧
          a.aggregateAndVerify bls wrap ov = (.ok (a.data, agg), a, ov)) ∨
        (ov.verifier.verifyMultiSignatures bls (wrap a.data) agg ≠ .ok () ∧
          ∃ authors, a.aggregateAndVerify bls wrap ov =
            (((a.filtered bls wrap ov.verifier).tryAggregate bls ov.verifier).map (a.data, ·),
              a.filtered bls wrap ov.verifier, ov.addPessimisticVerifySet authors))) := by
  unfold aggregateAndVerify
  cases first : a.tryAggregate bls ov.verifier with
  | error e => exact .inl ⟨e, rfl, rfl⟩
  | ok agg =>
    refine .inr ⟨agg, rfl, ?_⟩
    dsimp only
    cases whole : ov.verifier.verifyMultiSignatures bls (wrap a.data) agg with
    | ok u => exact .inl ⟨rfl, rfl⟩
    | error e => exact .inr ⟨nofun, _, rfl⟩

/-- A result is an aggregate of the signatures left behind, none of which is new. -/
theorem aggregateAndVerify_left :
    (∀ author ∈ (a.aggregateAndVerify bls wrap ov).2.1.signatures, author ∈ a.signatures) ∧
      ∀ data agg, (a.aggregateAndVerify bls wrap ov).1 = .ok (data, agg) → data = a.data ∧
        (a.aggregateAndVerify bls wrap ov).2.1.tryAggregate bls ov.verifier = .ok agg := by
  rcases aggregateAndVerify_cases bls wrap a ov with ⟨e, -, result⟩ |
    ⟨first, made, ⟨-, result⟩ | ⟨-, authors, result⟩⟩
  · rw [result]
    exact ⟨fun _ mem => mem, nofun⟩
  · rw [result]
    refine ⟨fun _ mem => mem, ?_⟩
    intro data agg same
    cases same
    exact ⟨rfl, made⟩
  · rw [result]
    constructor
    · exact fun author mem => mem_of_mem_filterMap mem
    · intro data agg done
      obtain ⟨again, second, pair⟩ := Except.map_eq_ok.mp done
      cases pair
      exact ⟨rfl, second⟩

/-- **The aggregator is right as long as its marks are.** -/
theorem aggregateAndVerify_verifies {data : T}
    (complete : bls.Complete) (small : ov.verifier.len < 65536)
    (sound : a.FlagsSound bls wrap ov.verifier)
    (done : (a.aggregateAndVerify bls wrap ov).1 = .ok (data, agg)) :
    data = a.data ∧ ov.verifier.verifyMultiSignatures bls (wrap data) agg = .ok () := by
  rcases aggregateAndVerify_cases bls wrap a ov with ⟨e, -, result⟩ |
    ⟨first, -, ⟨whole, result⟩ | ⟨-, authors, result⟩⟩
  · rw [result] at done
    cases done
  · rw [result] at done
    cases done
    exact ⟨rfl, whole⟩
  · rw [result] at done
    obtain ⟨again, second, pair⟩ := Except.map_eq_ok.mp done
    cases pair
    exact ⟨rfl, tryAggregate_verifies (a := a.filtered bls wrap ov.verifier) complete small
      (fun author signature kept => sound.filtered_valid kept) second⟩

theorem aggregateAndVerify_frame :
    (a.aggregateAndVerify bls wrap ov).2.1.data = a.data ∧
      (a.aggregateAndVerify bls wrap ov).2.2.verifier = ov.verifier := by
  rcases aggregateAndVerify_cases bls wrap a ov with ⟨e, -, result⟩ |
    ⟨first, -, ⟨-, result⟩ | ⟨-, authors, result⟩⟩
  all_goals
    rw [result]
    exact ⟨rfl, rfl⟩

theorem FlagsSound.aggregateAndVerify (sound : a.FlagsSound bls wrap ov.verifier) :
    (a.aggregateAndVerify bls wrap ov).2.1.FlagsSound bls wrap ov.verifier := by
  rcases aggregateAndVerify_cases bls wrap a ov with ⟨e, -, result⟩ |
    ⟨first, -, ⟨-, result⟩ | ⟨-, authors, result⟩⟩
  · rw [result]
    exact sound
  · rw [result]
    exact sound
  · rw [result]
    intro author signature kept _
    exact sound.filtered_valid kept

/-! ## When aggregation succeeds -/

theorem collectShares_known {shares : List (AccountAddress × Signature)}
    (known : ∀ share ∈ shares, (v.getPublicKey share.1).isSome) (mask : Bitvec)
    (sigs : List Signature) :
    ∃ mask', v.collectShares shares mask sigs = .ok (mask', sigs ++ shares.map (·.2)) := by
  induction shares generalizing mask sigs with
  | nil => exact ⟨mask, by rw [map_nil, append_nil]; rfl⟩
  | cons share shares ih =>
    obtain ⟨addr, sig⟩ := share
    have key := known (addr, sig) mem_cons_self
    unfold collectShares
    cases found : v.addressToValidatorIndex addr with
    | none =>
      rw [getPublicKey, infoOf, found] at key
      cases key
    | some index =>
      obtain ⟨mask', rest⟩ := ih (fun share mem => known share (mem_cons_of_mem _ mem))
        (mask.set (asU16 index)) (sigs ++ [sig])
      refine ⟨mask', rest.trans ?_⟩
      rw [append_assoc]
      rfl

/-- Enough signatures of known authors aggregate, if the scheme aggregates any signatures. -/
theorem tryAggregate_isOk (aggregates : ∀ sigs, sigs ≠ [] → (bls.aggregate sigs).isSome)
    (positive : 0 < v.quorumVotingPower)
    (known : ∀ author ∈ a.signatures, (v.getPublicKey author).isSome)
    (enough : v.quorumVotingPower ≤ (a.signatures.keys.map v.powerOf).sum) :
    ∃ agg, a.tryAggregate bls v = .ok agg := by
  have checked : a.checkVotingPower v true = .ok (a.signatures.keys.map v.powerOf).sum := by
    refine checkVotingPower_ok.mpr ⟨sumVotingPower_ok.mpr ⟨?_, rfl⟩, enough⟩
    intro author mem
    have key := known author (Std.ExtTreeMap.mem_keys.mp mem)
    rw [getPublicKey, Option.isSome_map] at key
    rw [getVotingPower, Option.isSome_map]
    exact key
  have shares : ∀ share ∈ a.signatures.toList.map fun entry => (entry.1, entry.2.signature),
      (v.getPublicKey share.1).isSome := by
    intro share mem
    obtain ⟨entry, inside, rfl⟩ := mem_map.mp mem
    refine known _ (mem_iff_isSome_getElem?.mpr ?_)
    rw [Std.ExtTreeMap.mem_toList_iff_getElem?_eq_some.mp inside]
    rfl
  obtain ⟨mask, collected⟩ := collectShares_known shares (withNumBits (asU16 v.len)) []
  have nonempty : [] ++ (a.signatures.toList.map fun entry =>
      (entry.1, entry.2.signature)).map (·.2) ≠ [] := by
    intro none
    have empty : a.signatures.toList = [] := by simpa using none
    rw [← map_fst_toList_eq_keys, empty] at enough
    exact absurd enough positive.not_ge
  obtain ⟨sig, made⟩ := Option.isSome_iff_exists.mp (aggregates _ nonempty)
  refine ⟨⟨mask, some sig⟩, Except.bind_eq_ok.mpr ⟨_, checked, Except.bind_eq_ok.mpr
    ⟨_, collected, ?_⟩⟩⟩
  simp only [made]

/-- The authors whose stored signatures are valid. -/
def validVoters (bls : Bls M) (wrap : T → M) (v : ValidatorVerifier) (a : SignatureAggregator T) :
    List AccountAddress :=
  (a.signatures.toList.filter fun entry =>
    v.verify bls entry.1 (wrap a.data) entry.2.signature = .ok ()).map (·.1)

theorem FlagsSound.keys_filtered (sound : a.FlagsSound bls wrap v) :
    (a.filtered bls wrap v).signatures.keys.Perm (a.validVoters bls wrap v) := by
  refine (perm_ext_iff_of_nodup (Map.keys_nodup _) ?_).mpr ?_
  · refine .sublist (.map _ filter_sublist) ?_
    rw [map_fst_toList_eq_keys]
    exact Map.keys_nodup _
  intro author
  simp only [Std.ExtTreeMap.mem_keys, mem_iff_isSome_getElem?, sound.filtered_eq,
    Option.isSome_map, validVoters, mem_map, mem_filter, Prod.exists,
    Std.ExtTreeMap.mem_toList_iff_getElem?_eq_some, Option.isSome_iff_exists,
    Option.filter_eq_some_iff]
  constructor
  · intro kept
    obtain ⟨signature, found, valid⟩ := kept
    exact ⟨author, signature, ⟨found, valid⟩, rfl⟩
  · intro kept
    obtain ⟨author, signature, ⟨found, valid⟩, rfl⟩ := kept
    exact ⟨signature, found, valid⟩

/-- **Optimistic aggregation is sound and complete**, for a positive quorum: what comes out
verifies, a quorum of valid signatures is enough, and the fallback drops the invalid
signatures and no others. -/
theorem aggregateAndVerify_exact (complete : bls.Complete)
    (aggregates : ∀ sigs, sigs ≠ [] → (bls.aggregate sigs).isSome)
    (small : ov.verifier.len < 65536) (positive : 0 < ov.verifier.quorumVotingPower)
    (known : ∀ author ∈ a.signatures, (ov.verifier.getPublicKey author).isSome)
    (sound : a.FlagsSound bls wrap ov.verifier) :
    (∀ data agg, (a.aggregateAndVerify bls wrap ov).1 = .ok (data, agg) → data = a.data ∧
      ov.verifier.verifyMultiSignatures bls (wrap a.data) agg = .ok ()) ∧
    (ov.verifier.quorumVotingPower ≤
        ((a.validVoters bls wrap ov.verifier).map ov.verifier.powerOf).sum →
      ∃ agg, (a.aggregateAndVerify bls wrap ov).1 = .ok (a.data, agg)) ∧
    ∀ agg, a.tryAggregate bls ov.verifier = .ok agg →
      ov.verifier.verifyMultiSignatures bls (wrap a.data) agg ≠ .ok () →
      ∀ author, (a.aggregateAndVerify bls wrap ov).2.1.signatures[author]? =
        (a.signatures[author]?.filter fun signature =>
          ov.verifier.verify bls author (wrap a.data) signature.signature = .ok ()).map
            fun signature => { signature with verified := true } := by
  refine ⟨?_, ?_, ?_⟩
  · intro data agg done
    obtain ⟨rfl, verifies⟩ := aggregateAndVerify_verifies complete small sound done
    exact ⟨rfl, verifies⟩
  · intro enough
    have fewer : (a.validVoters bls wrap ov.verifier).Sublist a.signatures.keys := by
      rw [← map_fst_toList_eq_keys]
      exact .map _ filter_sublist
    have all := enough.trans ((fewer.map ov.verifier.powerOf).sum_le_sum fun _ _ => Nat.zero_le _)
    obtain ⟨first, made⟩ := tryAggregate_isOk aggregates positive known all
    rcases aggregateAndVerify_cases bls wrap a ov with ⟨e, failed, -⟩ |
      ⟨agg, -, ⟨-, result⟩ | ⟨-, authors, result⟩⟩
    · rw [made] at failed
      cases failed
    · exact ⟨agg, by rw [result]⟩
    have knownLeft : ∀ author ∈ (a.filtered bls wrap ov.verifier).signatures,
        (ov.verifier.getPublicKey author).isSome := by
      intro author mem
      exact known author (mem_of_mem_filterMap mem)
    rw [← (sound.keys_filtered.map ov.verifier.powerOf).sum_eq] at enough
    obtain ⟨second, again⟩ := tryAggregate_isOk aggregates positive knownLeft enough
    exact ⟨second, by rw [result, again]; rfl⟩
  · intro agg made fails author
    rcases aggregateAndVerify_cases bls wrap a ov with ⟨e, failed, -⟩ |
      ⟨first, made', ⟨whole, -⟩ | ⟨-, authors, result⟩⟩
    · rw [made] at failed
      cases failed
    · rw [made] at made'
      cases made'
      exact absurd whole fails
    · rw [result]
      exact sound.filtered_eq author

namespace Mixed

def validators : OptimisticVerifier :=
  ⟨.new [⟨1, 1, 1⟩, ⟨2, 10, 1⟩, ⟨3, 100, 1⟩, ⟨4, 1000, 1⟩], true, []⟩

/-- A marked signature, two others that are valid, and one that is not. -/
def mixed : SignatureAggregator Nat :=
  (((new 7).addSignature 1 ⟨7, true⟩).addSignature 2 ⟨70, false⟩ |>.addSignature 3
    ⟨700, false⟩).addSignature 4 ⟨5, false⟩

/-- The valid signatures make up for the invalid one. -/
theorem mixed_exact :
    ∃ agg, (mixed.aggregateAndVerify (.linear id) id validators).1 = .ok (7, agg) := by
  refine (aggregateAndVerify_exact (Bls.linear_complete id) ?_ (by decide) (by decide) ?_ ?_).2.1
    (by decide +kernel)
  · intro sigs nonempty
    simp [Bls.linear, nonempty]
  · intro author mem
    have listed : author = 1 ∨ author = 2 ∨ author = 3 ∨ author = 4 := by
      have keys := Std.ExtTreeMap.mem_keys.mpr mem
      rw [show mixed.signatures.keys = [1, 2, 3, 4] by decide +kernel] at keys
      simpa using keys
    rcases listed with rfl | rfl | rfl | rfl
    all_goals decide
  · refine .addSignature (.addSignature (.addSignature
      (.addSignature (.new 7) ?_) nofun) nofun) nofun
    intro _
    rfl

/-- Without validators the quorum is zero, but there is nothing to aggregate. -/
theorem nothing_to_aggregate :
    (new 7).FlagsSound (.linear id) id (.new []) ∧
      (ValidatorVerifier.new []).quorumVotingPower ≤
        (((new 7).validVoters (.linear id) id (.new [])).map
          (ValidatorVerifier.new []).powerOf).sum ∧
      ((new 7).aggregateAndVerify (.linear id) id ⟨.new [], true, []⟩).1 =
        .error .failedToAggregateSignature :=
  ⟨.new 7, by decide, by decide +kernel⟩

end Mixed

end SignatureAggregator

end CreditChain
