import CreditChain.Types.Ledger
import CreditChain.Lib.Action
import CreditChain.Lib.Quorum

/-!
# Verifying signatures of a validator set

`ValidatorVerifier` checks single signatures, multi-signatures on one message and
aggregate signatures on a message per signer.  The BLS scheme itself is a parameter
(`Bls`), over the type `M` of messages that are signed.

* `verifyMultiSignatures_ok` and `verifyAggregateSignatures_ok` say exactly when the
  two aggregate checks accept.
* `Signers.quorum_le` turns the voting power the checks add up along the mask into a sum
  over the set of signing addresses, when the addresses of the validator set are distinct.
-/

namespace CreditChain

open List

/-- The BLS operations that the validator set relies on. -/
structure Bls (M : Type) where
  /-- `Signature::verify`: a share or a multi-signature on one message. -/
  verify : Signature → M → PublicKey → Bool
  /-- `Signature::aggregate`. -/
  aggregate : List Signature → Option Signature
  /-- `PublicKey::aggregate`. -/
  aggregateKeys : List PublicKey → Option PublicKey
  /-- `Signature::verify_aggregate`: message `i` is signed under key `i`. -/
  verifyAggregate : Signature → List M → List PublicKey → Bool

/-- A linear scheme: the signature on `m` under key `k` is `k * tag m`, aggregation is
addition. -/
def Bls.linear {M : Type} (tag : M → Nat) : Bls M where
  verify sig message key := sig == key * tag message
  aggregate sigs := if sigs.isEmpty then none else some sigs.sum
  aggregateKeys keys := if keys.isEmpty then none else some keys.sum
  verifyAggregate sig messages keys := sig == ((messages.zip keys).map fun p => p.2 * tag p.1).sum

inductive VerifyError where
  | unknownAuthor
  | tooLittleVotingPower (votingPower expectedVotingPower : Nat)
  | emptySignature
  | invalidMultiSignature
  | invalidAggregatedSignature
  | inconsistentBlockInfo
  | failedToAggregatePubKey
  | failedToAggregateSignature
  | failedToVerifyMultiSignature
  | invalidBitVec
  | failedToVerifyAggregatedSignature
  deriving DecidableEq

/-- The text of a `VerifyError`. -/
def VerifyError.toText : VerifyError → String
  | unknownAuthor => "Author is unknown"
  | tooLittleVotingPower votingPower expectedVotingPower =>
    s!"The voting power ({votingPower}) is less than expected voting power ({expectedVotingPower})"
  | emptySignature => "Signature is empty"
  | invalidMultiSignature => "Multi signature is invalid"
  | invalidAggregatedSignature => "Aggregated signature is invalid"
  | inconsistentBlockInfo => "Inconsistent Block Info"
  | failedToAggregatePubKey => "Failed to aggregate public keys"
  | failedToAggregateSignature => "Failed to aggregate signatures"
  | failedToVerifyMultiSignature => "Failed to verify multi-signature"
  | invalidBitVec => "Invalid bitvec from the multi-signature"
  | failedToVerifyAggregatedSignature => "Failed to verify aggreagated signature"

namespace ValidatorVerifier

/-- `sum_voting_power` over the validator infos. -/
def sumInfos (infos : List ValidatorConsensusInfo) : Nat := (infos.map (·.votingPower)).sum

/-- `ValidatorVerifier::new`: two thirds plus one, or zero for an empty set. -/
def new (infos : List ValidatorConsensusInfo) : ValidatorVerifier where
  validatorInfos := infos
  quorumVotingPower := if infos.isEmpty then 0 else sumInfos infos * 2 / 3 + 1
  totalVotingPower := sumInfos infos

variable (v : ValidatorVerifier)

def len : Nat := v.validatorInfos.length

variable (addr : AccountAddress)

/-- `address_to_validator_index`: later entries of the vector overwrite earlier ones. -/
def addressToValidatorIndex : Option Nat :=
  (v.validatorInfos.zipIdx.reverse.find? fun entry => entry.1.address == addr).map (·.2)

/-- The validator info that the index points to. -/
def infoOf : Option ValidatorConsensusInfo :=
  (v.addressToValidatorIndex addr).bind fun index => v.validatorInfos[index]?

def getPublicKey : Option PublicKey := (v.infoOf addr).map (·.publicKey)

def getVotingPower : Option Nat := (v.infoOf addr).map (·.votingPower)

def getOrderedAccountAddresses : List AccountAddress := v.validatorInfos.map (·.address)

variable {M : Type} (bls : Bls M)

/-- `verify`: one signature of a known author. -/
def verify (author : AccountAddress) (message : M)
    (signature : Signature) : Except VerifyError Unit :=
  match v.getPublicKey author with
  | some key =>
    if bls.verify signature message key then .ok () else .error .invalidMultiSignature
  | none => .error .unknownAuthor

/-- `sum_voting_power` of authors, failing at the first unknown one. -/
def sumVotingPower : List AccountAddress → Except VerifyError Nat
  | [] => .ok 0
  | author :: authors =>
    match v.getVotingPower author with
    | none => .error .unknownAuthor
    | some power => (sumVotingPower authors).map (power + ·)

def checkAggregatedVotingPower (power : Nat) (checkSuperMajority : Bool) :
    Except VerifyError Nat :=
  let target :=
    if checkSuperMajority then v.quorumVotingPower
    else v.totalVotingPower - v.quorumVotingPower + 1
  if power < target then .error (.tooLittleVotingPower power target) else .ok power

def checkVotingPower (authors : List AccountAddress) (checkSuperMajority : Bool) :
    Except VerifyError Nat := do
  let power ← v.sumVotingPower authors
  v.checkAggregatedVotingPower power checkSuperMajority

/-- `check_num_of_voters`: no more positions than validators. -/
def checkNumOfVoters (numValidators : Nat) (mask : Bitvec) : Except VerifyError Unit :=
  if mask.numBuckets ≠ Bitvec.requiredBuckets numValidators then .error .invalidBitVec
  else
    match mask.lastSetBit with
    | some lastBit => if numValidators ≤ lastBit then .error .invalidBitVec else .ok ()
    | none => .ok ()

/-- The loop that collects the validators at the marked positions. -/
def lookupSigners : List Nat → Except VerifyError (List ValidatorConsensusInfo)
  | [] => .ok []
  | index :: indices =>
    match v.validatorInfos[index]? with
    | none => .error .unknownAuthor
    | some info => (lookupSigners indices).map (info :: ·)

/-- What both checks of an aggregate do: known validators are marked, they are a quorum, and the
signature is checked against their keys. -/
def verifyQuorum (agg : AggregateSignature)
    (check : Signature → List PublicKey → Except VerifyError Unit) : Except VerifyError Unit := do
  checkNumOfVoters (asU16 v.len) agg.validatorBitmask
  let signers ← v.lookupSigners agg.validatorBitmask.iterOnes
  let _ ← v.checkVotingPower (signers.map (·.address)) true
  match agg.sig with
  | none => .error .emptySignature
  | some sig => check sig (signers.map (·.publicKey))

def verifyMultiSignatures (message : M) (agg : AggregateSignature) :
    Except VerifyError Unit :=
  v.verifyQuorum agg fun multiSig keys =>
    match bls.aggregateKeys keys with
    | none => .error .failedToAggregatePubKey
    | some key =>
      if bls.verify multiSig message key then .ok () else .error .invalidMultiSignature

def verifyAggregateSignatures (messages : List M) (agg : AggregateSignature) :
    Except VerifyError Unit :=
  v.verifyQuorum agg fun aggSig keys =>
    if bls.verifyAggregate aggSig messages keys then .ok () else .error .invalidAggregatedSignature

/-- The loop of `aggregate_signatures`: the mask and the shares, in order. -/
def collectShares : List (AccountAddress × Signature) → Bitvec → List Signature →
    Except VerifyError (Bitvec × List Signature)
  | [], mask, sigs => .ok (mask, sigs)
  | (addr, sig) :: rest, mask, sigs =>
    match v.addressToValidatorIndex addr with
    | none => .error .unknownAuthor
    | some index => collectShares rest (mask.set (asU16 index)) (sigs ++ [sig])

def aggregateSignatures (signatures : List (AccountAddress × Signature)) :
    Except VerifyError AggregateSignature := do
  let (mask, sigs) ← v.collectShares signatures (.withNumBits (asU16 v.len)) []
  match bls.aggregate sigs with
  | none => .error .failedToAggregateSignature
  | some sig => .ok ⟨mask, some sig⟩

/-! ## What the checks accept -/

variable {v bls}

/-- The voting power of an address, zero when it is unknown. -/
def powerOf (v : ValidatorVerifier) (addr : AccountAddress) : Nat := (v.getVotingPower addr).getD 0

variable {signers : List ValidatorConsensusInfo}

theorem lookupSigners_ok {indices : List Nat} :
    v.lookupSigners indices = .ok signers ↔
      List.Forall₂ (fun index info => v.validatorInfos[index]? = some info) indices signers := by
  induction indices generalizing signers with
  | nil =>
    rw [lookupSigners, forall₂_nil_left_iff]
    constructor
    · intro same
      cases same
      rfl
    · intro same
      rw [same]
  | cons index indices ih =>
    rw [lookupSigners]
    cases found : v.validatorInfos[index]? with
    | none =>
      constructor
      · intro impossible
        cases impossible
      intro all
      cases all with
      | cons head tail =>
        rw [found] at head
        cases head
    | some info =>
      simp only [Except.map_eq_ok]
      constructor
      · intro parts
        obtain ⟨rest, looked, same⟩ := parts
        rw [← same]
        exact .cons found (ih.mp looked)
      · intro all
        cases all with
        | cons head tail =>
          rw [found] at head
          cases head
          exact ⟨_, ih.mpr tail, rfl⟩

variable {authors : List AccountAddress}

theorem sumVotingPower_ok {power : Nat} :
    v.sumVotingPower authors = .ok power ↔
      (∀ author ∈ authors, (v.getVotingPower author).isSome) ∧
        power = (authors.map v.powerOf).sum := by
  induction authors generalizing power with
  | nil =>
    constructor
    · intro same
      cases same
      exact ⟨forall_mem_nil _, rfl⟩
    · intro parts
      rw [parts.2]
      rfl
  | cons author authors ih =>
    rw [sumVotingPower]
    cases known : v.getVotingPower author with
    | none => simp [known]
    | some own =>
      simp only [Except.map_eq_ok, ih, mem_cons, forall_eq_or_imp, map_cons,
        sum_cons, powerOf, known, Option.isSome_some, Option.getD_some, true_and]
      constructor
      · intro parts
        obtain ⟨rest, ⟨all, sum⟩, total⟩ := parts
        exact ⟨all, by rw [← total, sum]⟩
      · intro parts
        exact ⟨_, ⟨parts.1, rfl⟩, parts.2.symm⟩

theorem checkVotingPower_ok {power : Nat} :
    v.checkVotingPower authors true = .ok power ↔
      v.sumVotingPower authors = .ok power ∧ v.quorumVotingPower ≤ power := by
  simp only [checkVotingPower, Except.bind_eq_ok, checkAggregatedVotingPower, if_true]
  constructor
  · intro parts
    obtain ⟨sum, summed, checked⟩ := parts
    split at checked
    · cases checked
    · cases checked
      exact ⟨summed, by omega⟩
  · intro parts
    refine ⟨power, parts.1, ?_⟩
    rw [if_neg (by omega)]

/-- The part that both aggregate checks share: the mask names `signers`, all of them
known, and their voting power reaches the quorum. -/
structure Signers (v : ValidatorVerifier) (mask : Bitvec)
    (signers : List ValidatorConsensusInfo) : Prop where
  voters : checkNumOfVoters (asU16 v.len) mask = .ok ()
  found : List.Forall₂ (fun index info => v.validatorInfos[index]? = some info)
    mask.iterOnes signers
  known : ∀ info ∈ signers, (v.getVotingPower info.address).isSome
  power : v.quorumVotingPower ≤ (signers.map fun info => v.powerOf info.address).sum

variable {agg : AggregateSignature}

theorem verifyQuorum_ok {check : Signature → List PublicKey → Except VerifyError Unit} :
    v.verifyQuorum agg check = .ok () ↔ ∃ signers sig, v.Signers agg.validatorBitmask signers ∧
      agg.sig = some sig ∧ check sig (signers.map (·.publicKey)) = .ok () := by
  simp only [verifyQuorum, Except.bind_eq_ok, lookupSigners_ok, checkVotingPower_ok,
    sumVotingPower_ok, mem_map, forall_exists_index, and_imp, forall_apply_eq_imp_iff₂, map_map]
  constructor
  · intro parts
    obtain ⟨⟨⟩, voters, signers, found, power, ⟨⟨known, rfl⟩, quorum⟩, rest⟩ := parts
    split at rest
    · cases rest
    · rename_i sig signed
      exact ⟨signers, sig, ⟨voters, found, known, quorum⟩, signed, rest⟩
  · intro parts
    obtain ⟨signers, sig, ⟨voters, found, known, quorum⟩, signed, checked⟩ := parts
    refine ⟨(), voters, signers, found, _, ⟨⟨known, rfl⟩, quorum⟩, ?_⟩
    rw [signed]
    exact checked

/-- A multi-signature is accepted when a quorum is marked and the signature verifies
under the aggregate of the marked keys. -/
theorem verifyMultiSignatures_ok {message : M} :
    v.verifyMultiSignatures bls message agg = .ok () ↔
      ∃ signers sig key, v.Signers agg.validatorBitmask signers ∧ agg.sig = some sig ∧
        bls.aggregateKeys (signers.map (·.publicKey)) = some key ∧
          bls.verify sig message key = true := by
  rw [verifyMultiSignatures, verifyQuorum_ok]
  refine exists_congr fun signers => exists_congr fun sig => ?_
  cases bls.aggregateKeys (signers.map (·.publicKey)) with
  | none => simp
  | some key => simp

/-- An aggregate signature is accepted when a quorum is marked and the signature
verifies for one message per marked key. -/
theorem verifyAggregateSignatures_ok {messages : List M} :
    v.verifyAggregateSignatures bls messages agg = .ok () ↔
      ∃ signers sig, v.Signers agg.validatorBitmask signers ∧ agg.sig = some sig ∧
        bls.verifyAggregate sig messages (signers.map (·.publicKey)) = true := by
  rw [verifyAggregateSignatures, verifyQuorum_ok]
  refine exists_congr fun signers => exists_congr fun sig => ?_
  simp

/-! ## Signers as a set of addresses -/

theorem exists_of_forall₂ {α β : Type} {R : α → β → Prop} {as : List α} {bs : List β}
    (all : List.Forall₂ R as bs) {b : β} (mem : b ∈ bs) : ∃ a ∈ as, R a b := by
  induction all with
  | nil => cases mem
  | cons head tail ih =>
    rcases mem_cons.mp mem with rfl | later
    · exact ⟨_, mem_cons_self, head⟩
    · obtain ⟨a, mem', related⟩ := ih later
      exact ⟨a, mem_cons_of_mem _ mem', related⟩

variable {info : ValidatorConsensusInfo}

theorem Signers.mem_infos {mask : Bitvec} (signed : v.Signers mask signers) (mem : info ∈ signers) :
    info ∈ v.validatorInfos := by
  obtain ⟨index, -, found⟩ := exists_of_forall₂ signed.found mem
  exact mem_of_getElem? found

section

variable (distinct : (v.validatorInfos.map (·.address)).Nodup)

include distinct

/-- The marked validators are pairwise different entries, so with distinct addresses in
the validator set their addresses are distinct. -/
theorem nodup_of_found {indices : List Nat}
    (found : List.Forall₂ (fun index info => v.validatorInfos[index]? = some info)
      indices signers) (nodup : indices.Nodup) : (signers.map (·.address)).Nodup := by
  induction found with
  | nil => exact nodup_nil
  | @cons index info indices signers head tail ih =>
    rw [nodup_cons] at nodup
    rw [map_cons, nodup_cons]
    refine ⟨?_, ih nodup.2⟩
    intro again
    obtain ⟨other, mem, same⟩ := mem_map.mp again
    obtain ⟨index', mem', head'⟩ := exists_of_forall₂ tail mem
    have left : (v.validatorInfos.map (·.address))[index]? = some info.address := by
      rw [getElem?_map, head]
      rfl
    have right : (v.validatorInfos.map (·.address))[index']? = some info.address := by
      rw [getElem?_map, head', ← same]
      rfl
    have bound := (List.getElem?_eq_some_iff.mp left).1
    have equal := (getElem?_inj bound distinct).mp (left.trans right.symm)
    rw [equal] at nodup
    exact nodup.1 mem'

theorem Signers.nodup {mask : Bitvec} (signed : v.Signers mask signers) :
    (signers.map (·.address)).Nodup :=
  nodup_of_found distinct signed.found mask.iterOnes_nodup

/-- The addresses that a mask names. -/
def signerSet (signers : List ValidatorConsensusInfo) : Finset AccountAddress :=
  (signers.map (·.address)).toFinset

/-- The signers reach the quorum also as a set. -/
theorem Signers.quorum_le {mask : Bitvec} (signed : v.Signers mask signers) :
    v.quorumVotingPower ≤ ∑ addr ∈ signerSet signers, v.powerOf addr := by
  have sum := sum_toFinset v.powerOf (signed.nodup distinct)
  rw [map_map] at sum
  unfold signerSet
  rw [sum]
  exact signed.power

end

theorem addressToValidatorIndex_some {addr : AccountAddress} {index : Nat}
    (found : v.addressToValidatorIndex addr = some index) :
    ∃ info, v.validatorInfos[index]? = some info ∧ info.address = addr := by
  obtain ⟨entry, first, rfl⟩ := Option.map_eq_some_iff.mp found
  have mem := mem_reverse.mp (mem_of_find?_eq_some first)
  have same := find?_some first
  exact ⟨entry.1, mk_mem_zipIdx_iff_getElem?.mp mem, beq_iff_eq.mp same⟩

theorem exists_index (mem : info ∈ v.validatorInfos) :
    ∃ index, v.addressToValidatorIndex info.address = some index := by
  obtain ⟨position, found⟩ := mem_iff_getElem?.mp mem
  have marked := mem_reverse.mpr (mk_mem_zipIdx_iff_getElem?.mpr found)
  have some : (v.validatorInfos.zipIdx.reverse.find?
      fun entry => entry.1.address == info.address).isSome := by
    rw [find?_isSome]
    exact ⟨_, marked, beq_self_eq_true _⟩
  obtain ⟨entry, first⟩ := Option.isSome_iff_exists.mp some
  exact ⟨entry.2, by rw [addressToValidatorIndex, first]; rfl⟩

section

variable (distinct : (v.validatorInfos.map (·.address)).Nodup)

include distinct

/-- With distinct addresses an address determines its entry. -/
theorem infoOf_address (mem : info ∈ v.validatorInfos) : v.infoOf info.address = some info := by
  obtain ⟨index, found⟩ := exists_index mem
  obtain ⟨info', at_index, same⟩ := addressToValidatorIndex_some found
  have equal := inj_on_of_nodup_map distinct (mem_of_getElem? at_index) mem same
  rw [infoOf, found, Option.bind_some, at_index, equal]

theorem powerOf_address (mem : info ∈ v.validatorInfos) :
    v.powerOf info.address = info.votingPower := by
  rw [powerOf, getVotingPower, infoOf_address distinct mem]
  rfl

/-- The voting power of all addresses is the total of the entries. -/
theorem sum_powerOf :
    ∑ addr ∈ (v.validatorInfos.map (·.address)).toFinset, v.powerOf addr =
      sumInfos v.validatorInfos := by
  rw [sum_toFinset v.powerOf distinct, map_map]
  congr 1
  exact map_congr_left fun info mem => powerOf_address distinct mem

end

/-! ## Two quorums -/

/-- **Quorum intersection.**  The common signers of two accepted signatures, whatever the
messages, hold more than a third of the voting power. -/
theorem verified_common_power {infos : List ValidatorConsensusInfo} (nonempty : infos ≠ [])
    (distinct : (infos.map (·.address)).Nodup) {M : Type} {bls : Bls M} {message message' : M}
    {agg agg' : AggregateSignature}
    (one : (new infos).verifyMultiSignatures bls message agg = .ok ())
    (other : (new infos).verifyMultiSignatures bls message' agg' = .ok ()) :
    ∃ signers signers', (new infos).Signers agg.validatorBitmask signers ∧
      (new infos).Signers agg'.validatorBitmask signers' ∧ (new infos).totalVotingPower <
        3 * ∑ addr ∈ signerSet signers ∩ signerSet signers', (new infos).powerOf addr := by
  obtain ⟨signers, -, -, signed, -⟩ := verifyMultiSignatures_ok.mp one
  obtain ⟨signers', -, -, signed', -⟩ := verifyMultiSignatures_ok.mp other
  refine ⟨signers, signers', signed, signed', ?_⟩
  have known : ∀ {mask signers}, (new infos).Signers mask signers →
      signerSet signers ⊆ (infos.map (·.address)).toFinset := by
    intro mask signers signed addr mem
    obtain ⟨info, there, rfl⟩ := mem_map.mp (mem_toFinset.mp mem)
    exact mem_toFinset.mpr (mem_map_of_mem (signed.mem_infos there))
  have within : ∑ addr ∈ signerSet signers ∪ signerSet signers', (new infos).powerOf addr ≤
      sumInfos infos :=
    (Finset.sum_le_sum_of_subset (Finset.union_subset (known signed) (known signed'))).trans
      (sum_powerOf (v := new infos) distinct).le
  have quorum := signed.quorum_le distinct
  have quorum' := signed'.quorum_le distinct
  have isQuorum : (new infos).quorumVotingPower = sumInfos infos * 2 / 3 + 1 :=
    if_neg (by simpa using nonempty)
  rw [isQuorum] at quorum quorum'
  have both := @Finset.sum_union_inter _ _ (signerSet signers) (signerSet signers')
    _ (new infos).powerOf _
  change sumInfos infos < _
  omega

/-- Four validators of which three sign each time. -/
theorem three_of_four_twice : ∃ signers signers',
    (new [⟨1, 1, 1⟩, ⟨2, 2, 1⟩, ⟨3, 4, 1⟩, ⟨4, 8, 1⟩]).Signers ⟨[224]⟩ signers ∧
    (new [⟨1, 1, 1⟩, ⟨2, 2, 1⟩, ⟨3, 4, 1⟩, ⟨4, 8, 1⟩]).Signers ⟨[112]⟩ signers' ∧
    4 < 3 * ∑ addr ∈ signerSet signers ∩ signerSet signers',
      (new [⟨1, 1, 1⟩, ⟨2, 2, 1⟩, ⟨3, 4, 1⟩, ⟨4, 8, 1⟩]).powerOf addr := by
  have first : (new [⟨1, 1, 1⟩, ⟨2, 2, 1⟩, ⟨3, 4, 1⟩, ⟨4, 8, 1⟩]).verifyMultiSignatures
      (.linear id) 10 ⟨⟨[224]⟩, some 70⟩ = .ok () := by decide
  have second : (new [⟨1, 1, 1⟩, ⟨2, 2, 1⟩, ⟨3, 4, 1⟩, ⟨4, 8, 1⟩]).verifyMultiSignatures
      (.linear id) 20 ⟨⟨[112]⟩, some 280⟩ = .ok () := by decide
  exact verified_common_power (by decide) (by decide) first second

end ValidatorVerifier

def LedgerInfoWithSignatures.verifySignatures {M : Type} (bls : Bls M) (wrap : LedgerInfo → M)
    (li : LedgerInfoWithSignatures) (v : ValidatorVerifier) : Except VerifyError Unit :=
  v.verifyMultiSignatures bls (wrap li.ledgerInfo) li.signatures

end CreditChain
