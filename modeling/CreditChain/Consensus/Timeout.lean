import CreditChain.Consensus.Types
import CreditChain.Types.SignatureAggregator

/-!
# Two-chain timeouts and timeout certificates

A validator that gives up a round signs the round together with the round of its
highest certificate (`TimeoutSigningRepr`).  A timeout certificate carries one timeout
in full, the aggregate of the signatures, and the signed certificate round of each
signer in the order of the signers' mask.

`TwoChainTimeoutWithPartialSignatures` collects timeouts: it keeps the timeout with the
highest certificate round and, for each author, the first signature with its round.
-/

namespace CreditChain

open ValidatorVerifier List

structure TwoChainTimeout where
  epoch : Nat
  round : Round
  quorumCert : QuorumCert
  deriving DecidableEq

namespace TwoChainTimeout

def hqcRound (t : TwoChainTimeout) : Round := t.quorumCert.certifiedBlock.round

def signingFormat (t : TwoChainTimeout) : TimeoutSigningRepr where
  epoch := t.epoch
  round := t.round
  hqcRound := t.hqcRound

end TwoChainTimeout

/-- `AggregateSignatureWithRounds`: `rounds` follows the marked positions of the mask. -/
structure AggregateSignatureWithRounds where
  sig : AggregateSignature
  rounds : List Round
  deriving DecidableEq

def AggregateSignatureWithRounds.getVotersAndRounds (s : AggregateSignatureWithRounds)
    (addresses : List AccountAddress) : List (AccountAddress × Round) :=
  (s.sig.getSignersAddresses addresses).zip s.rounds

structure TwoChainTimeoutCertificate where
  timeout : TwoChainTimeout
  signaturesWithRounds : AggregateSignatureWithRounds
  deriving DecidableEq

namespace TwoChainTimeoutCertificate

variable (tc : TwoChainTimeoutCertificate)

def epoch : Nat := tc.timeout.epoch

def round : Round := tc.timeout.round

def highestHqcRound : Round := tc.timeout.hqcRound

/-- What each voter must have signed. -/
def timeoutMessages (validators : ValidatorVerifier) : List TimeoutSigningRepr :=
  (tc.signaturesWithRounds.getVotersAndRounds validators.getOrderedAccountAddresses).map
    fun voter => ⟨tc.timeout.epoch, tc.timeout.round, voter.2⟩

end TwoChainTimeoutCertificate

section Verify

variable [Crypto]

def TwoChainTimeout.verify (t : TwoChainTimeout) (validators : ValidatorVerifier) :
    Except String Unit := do
  ensure (t.hqcRound < t.round) "Timeout round should be larger than the QC round"
  t.quorumCert.verify validators

/-- `TwoChainTimeoutCertificate::verify`: the carried timeout is valid, every voter signed
its own round, and the carried timeout has the highest of these rounds. -/
def TwoChainTimeoutCertificate.verify (tc : TwoChainTimeoutCertificate)
    (validators : ValidatorVerifier) : Except String Unit := do
  tc.timeout.verify validators
  (validators.verifyAggregateSignatures Crypto.bls
    ((tc.timeoutMessages validators).map SignedMessage.timeout)
    tc.signaturesWithRounds.sig).mapError VerifyError.toText
  match tc.signaturesWithRounds.rounds.max? with
  | none => .error "Empty rounds"
  | some signedHqc =>
    let hqcRound := tc.timeout.hqcRound
    ensure (hqcRound = signedHqc)
      s!"Inconsistent hqc round, qc has round {hqcRound}, highest signed round {signedHqc}"

theorem TwoChainTimeoutCertificate.verify_parts {tc : TwoChainTimeoutCertificate}
    {validators : ValidatorVerifier} (verified : tc.verify validators = .ok ()) :
    validators.verifyAggregateSignatures Crypto.bls
        ((tc.timeoutMessages validators).map SignedMessage.timeout)
        tc.signaturesWithRounds.sig = .ok () ∧
      tc.signaturesWithRounds.rounds.max? = some tc.timeout.hqcRound := by
  unfold TwoChainTimeoutCertificate.verify at verified
  simp only [Except.bind_eq_ok, Except.mapError_eq_ok] at verified
  obtain ⟨⟨⟩, _, ⟨⟩, aggregate, highest⟩ := verified
  refine ⟨aggregate, ?_⟩
  split at highest
  · cases highest
  · rename_i found
    rw [found, ensure_eq_ok.mp highest]

end Verify

/-! ## Votes

A vote may carry the timeout of its author. -/

structure Vote where
  voteData : VoteData
  author : Author
  ledgerInfo : LedgerInfo
  signature : SignatureWithStatus
  twoChainTimeout : Option (TwoChainTimeout × Signature)
  deriving DecidableEq

namespace Vote

def newWithSignature (voteData : VoteData) (author : Author) (ledgerInfo : LedgerInfo)
    (signature : Signature) : Vote where
  voteData := voteData
  author := author
  ledgerInfo := ledgerInfo
  signature := .ofSignature signature
  twoChainTimeout := none

def epoch (v : Vote) : Nat := v.voteData.proposed.epoch

def round (v : Vote) : Round := v.voteData.proposed.round

def isTimeout (v : Vote) : Bool := v.twoChainTimeout.isSome

end Vote

/-! ## Collecting timeouts -/

structure PartialSignaturesWithRound where
  signatures : Map AccountAddress (Round × Signature)
  deriving DecidableEq

namespace PartialSignaturesWithRound

def empty : PartialSignaturesWithRound := ⟨∅⟩

variable (p : PartialSignaturesWithRound)

/-- `add_signature`: the first signature of an author stays. -/
def addSignature (validator : AccountAddress) (round : Round) (signature : Signature) :
    PartialSignaturesWithRound :=
  ⟨p.signatures.insertIfNew validator (round, signature)⟩

/-- The entries of the authors that have an index, with it. -/
def indexed (v : ValidatorVerifier) : List (AccountAddress × Nat × Round × Signature) :=
  p.signatures.toList.filterMap fun entry =>
    (v.addressToValidatorIndex entry.1).map fun index => (entry.1, index, entry.2)

/-- `get_partial_sig_with_rounds`: signatures by author, rounds by index. -/
def getPartialSigWithRounds (v : ValidatorVerifier) : Map AccountAddress Signature × List Round :=
  (.ofList ((p.indexed v).map fun entry => (entry.1, entry.2.2.2)) compare,
    (Std.ExtTreeMap.ofList ((p.indexed v).map fun entry => (entry.2.1, entry.2.2.1))
      compare).toList.map (·.2))

end PartialSignaturesWithRound

/-- `AggregateSignatureWithRounds::new`; `none` is the failed assertion. -/
def AggregateSignatureWithRounds.new (sig : AggregateSignature) (rounds : List Round) :
    Option AggregateSignatureWithRounds :=
  if sig.getNumVoters = rounds.length then some ⟨sig, rounds⟩ else none

structure TwoChainTimeoutWithPartialSignatures where
  timeout : TwoChainTimeout
  signatures : PartialSignaturesWithRound
  deriving DecidableEq

namespace TwoChainTimeoutWithPartialSignatures

def new (timeout : TwoChainTimeout) : TwoChainTimeoutWithPartialSignatures :=
  ⟨timeout, .empty⟩

variable (p : TwoChainTimeoutWithPartialSignatures)

def signers : List Author := p.signatures.signatures.keys

/-- `add`: the kept timeout and the recorded signatures follow different rules. -/
def add (author : Author) (timeout : TwoChainTimeout) (signature : Signature) :
    TwoChainTimeoutWithPartialSignatures where
  timeout := if p.timeout.hqcRound < timeout.hqcRound then timeout else p.timeout
  signatures := p.signatures.addSignature author timeout.hqcRound signature

/-- `aggregate_signatures`; `none` is a panic. -/
def aggregateSignatures [Crypto] (p : TwoChainTimeoutWithPartialSignatures)
    (verifier : ValidatorVerifier) : Option (Except VerifyError TwoChainTimeoutCertificate) :=
  let (partialSig, orderedRounds) := p.signatures.getPartialSigWithRounds verifier
  match verifier.aggregateSignatures Crypto.bls partialSig.toList with
  | .error e => some (.error e)
  | .ok aggregatedSig =>
    (AggregateSignatureWithRounds.new aggregatedSig orderedRounds).map fun signatures =>
      .ok ⟨p.timeout, signatures⟩

end TwoChainTimeoutWithPartialSignatures

/-! ## What a collected certificate contains -/

namespace PartialSignaturesWithRound

variable {p : PartialSignaturesWithRound} {v : ValidatorVerifier}

section

variable (known : ∀ entry ∈ p.signatures.toList,
  ∃ index, v.addressToValidatorIndex entry.1 = some index)

include known

/-- With known authors nobody is left out of the partial signatures. -/
theorem indexed_map :
    (p.indexed v).map (fun entry => (entry.1, entry.2.2)) = p.signatures.toList := by
  unfold indexed
  rw [map_filterMap]
  refine (filterMap_congr ?_).trans filterMap_some
  intro entry mem
  obtain ⟨index, found⟩ := known entry mem
  rw [found]
  rfl

theorem getPartialSigWithRounds_sigs :
    (p.getPartialSigWithRounds v).1.toList =
      p.signatures.toList.map fun entry => (entry.1, entry.2.2) := by
  have same : (p.indexed v).map (fun entry => (entry.1, entry.2.2.2)) =
      p.signatures.toList.map fun entry => (entry.1, entry.2.2) := by
    rw [← indexed_map known, map_map]
    rfl
  rw [getPartialSigWithRounds, same]
  refine Map.toList_ofList (.refl _) (pairwise_map.mpr ?_)
  exact Std.ExtTreeMap.ordered_keys_toList

end

/-- The rounds come in the order of the mask. -/
theorem getPartialSigWithRounds_rounds
    {marked : List (Nat × ValidatorConsensusInfo × Round × Signature)}
    (done : v.Marked p.signatures.toList marked) :
    (p.getPartialSigWithRounds v).2 = marked.map fun entry => entry.2.2.1 := by
  have listed : (Std.ExtTreeMap.ofList ((p.indexed v).map fun entry => (entry.2.1, entry.2.2.1))
      compare).toList = marked.map fun entry => (entry.1, entry.2.2.1) := by
    refine Map.toList_ofList ?_ ?_
    · have perm := done.perm.filterMap fun entry =>
        (v.addressToValidatorIndex entry.1).map fun index => (index, entry.2.1)
      rw [filterMap_map] at perm
      rw [indexed, map_filterMap]
      simp only [Option.map_map, Function.comp_def] at perm ⊢
      refine .trans (Perm.of_eq ?_) perm
      rw [← filterMap_eq_map]
      refine filterMap_congr ?_
      intro entry mem
      rw [done.index entry mem]
      rfl
    · have sorted := pairwise_map.mp done.sorted
      refine pairwise_map.mpr (sorted.imp ?_)
      intro a b lt
      exact Nat.compare_eq_lt.mpr lt
  rw [getPartialSigWithRounds, listed, map_map]
  rfl

end PartialSignaturesWithRound

open PartialSignaturesWithRound

namespace TwoChainTimeoutWithPartialSignatures

variable {p : TwoChainTimeoutWithPartialSignatures} {author : Author} {timeout : TwoChainTimeout}
  {signature : Signature}

theorem add_recorded {author' : Author} {entry : Round × Signature} :
    (p.add author timeout signature).signatures.signatures[author']? = some entry ↔
      p.signatures.signatures[author']? = some entry ∨
        p.signatures.signatures[author']? = none ∧ author' = author ∧
          entry = (timeout.hqcRound, signature) := by
  rw [add, addSignature, Map.getElem?_insertIfNew_eq]
  by_cases same : author = author'
  · subst same
    cases p.signatures.signatures[author]? with
    | none => simp [eq_comm]
    | some old => simp
  · simp [same, Ne.symm same]

theorem add_hqcRound : p.timeout.hqcRound ≤ (p.add author timeout signature).timeout.hqcRound ∧
    timeout.hqcRound ≤ (p.add author timeout signature).timeout.hqcRound := by
  unfold add
  split
  · rename_i higher
    exact ⟨higher.le, le_rfl⟩
  · rename_i notHigher
    exact ⟨le_rfl, not_lt.mp notHigher⟩

/-- Somebody's recorded signature is for the certificate round of the kept timeout. -/
def Attained (p : TwoChainTimeoutWithPartialSignatures) : Prop :=
  ∃ (author : Author) (sig : Signature),
    p.signatures.signatures[author]? = some (p.timeout.hqcRound, sig)

/-- A timeout that raises the certificate round of the kept one has to be recorded. -/
theorem attained_add
    (rises : p.timeout.hqcRound ≤ timeout.hqcRound ∧ p.signatures.signatures[author]? = none ∨
      p.Attained ∧ timeout.hqcRound ≤ p.timeout.hqcRound) :
    (p.add author timeout signature).Attained := by
  rcases rises with ⟨higher, unrecorded⟩ | ⟨⟨author', sig, recorded⟩, lower⟩
  · refine ⟨author, signature, add_recorded.mpr (.inr ⟨unrecorded, rfl, ?_⟩)⟩
    have same : (p.add author timeout signature).timeout.hqcRound = timeout.hqcRound := by
      refine le_antisymm ?_ add_hqcRound.2
      unfold add
      split
      · exact le_rfl
      · exact higher
    rw [same]
  · refine ⟨author', sig, add_recorded.mpr (.inl ?_)⟩
    have same : (p.add author timeout signature).timeout = p.timeout :=
      if_neg lower.not_gt
    rw [same]
    exact recorded

/-- There is a message for each voter that has a round. -/
theorem timeoutMessages_eq (tc : TwoChainTimeoutCertificate) (v : ValidatorVerifier) :
    tc.timeoutMessages v = (tc.signaturesWithRounds.rounds.take
      (min (tc.signaturesWithRounds.sig.getSignersAddresses v.getOrderedAccountAddresses).length
        tc.signaturesWithRounds.rounds.length)).map fun hqc =>
      ⟨tc.timeout.epoch, tc.timeout.round, hqc⟩ := by
  unfold TwoChainTimeoutCertificate.timeoutMessages AggregateSignatureWithRounds.getVotersAndRounds
  rw [zip_eq_zip_take_min]
  generalize tc.signaturesWithRounds.sig.getSignersAddresses _ = voters
  generalize tc.signaturesWithRounds.rounds = rounds
  have zipped : ((voters.take (min voters.length rounds.length)).zip
      (rounds.take (min voters.length rounds.length))).map Prod.snd = _ := map_snd_zip (by simp)
  have messages := congrArg
    (map fun hqc => (⟨tc.timeout.epoch, tc.timeout.round, hqc⟩ : TimeoutSigningRepr)) zipped
  rw [map_map] at messages
  exact messages

variable [Crypto] {v : ValidatorVerifier} {epoch : Nat} {round : Round}

/-- Timeouts of one round, each valid and signed by its author; the kept one has the
highest certificate round. -/
structure Collected (v : ValidatorVerifier) (epoch : Nat) (round : Round)
    (p : TwoChainTimeoutWithPartialSignatures) : Prop where
  epoch_eq : p.timeout.epoch = epoch
  round_eq : p.timeout.round = round
  verified : p.timeout.verify v = .ok ()
  signed : ∀ (author : Author) (hqc : Round) (sig : Signature),
    p.signatures.signatures[author]? = some (hqc, sig) →
      v.verify Crypto.bls author (.timeout ⟨epoch, round, hqc⟩) sig = .ok ()
  below : ∀ (author : Author) (hqc : Round) (sig : Signature),
    p.signatures.signatures[author]? = some (hqc, sig) → hqc ≤ p.timeout.hqcRound

variable {tc : TwoChainTimeoutCertificate}

/-- The signers of an aggregated certificate, in the order of its mask. -/
theorem aggregateSignatures_marked (small : v.len < 65536) {power : Nat}
    (checked : v.checkVotingPower p.signers true = .ok power)
    (done : p.aggregateSignatures v = some (.ok tc)) :
    ∃ sig marked, tc.timeout = p.timeout ∧ tc.signaturesWithRounds.sig.sig = some sig ∧
      Crypto.bls.aggregate (p.signatures.signatures.toList.map (·.2.2)) = some sig ∧
      v.Marked p.signatures.signatures.toList marked ∧
      v.Signers tc.signaturesWithRounds.sig.validatorBitmask (marked.map (·.2.1)) ∧
      (tc.signaturesWithRounds.sig.getSignersAddresses v.getOrderedAccountAddresses).Perm
        p.signers ∧
      tc.signaturesWithRounds.rounds = marked.map (·.2.2.1) := by
  have known : ∀ entry ∈ p.signatures.signatures.toList,
      ∃ index, v.addressToValidatorIndex entry.1 = some index := by
    intro entry mem
    obtain ⟨summed, -⟩ := checkVotingPower_ok.mp checked
    have inKeys : entry.1 ∈ p.signers := by
      rw [signers, ← Std.ExtTreeMap.map_fst_toList_eq_keys]
      exact mem_map_of_mem mem
    have power := (sumVotingPower_ok.mp summed).1 entry.1 inKeys
    rw [getVotingPower, Option.isSome_map] at power
    obtain ⟨info, found⟩ := Option.isSome_iff_exists.mp power
    obtain ⟨index, at_index, -⟩ := Option.bind_eq_some_iff.mp found
    exact ⟨index, at_index⟩
  have sigs := getPartialSigWithRounds_sigs known
  unfold aggregateSignatures at done
  dsimp only at done
  rw [sigs] at done
  split at done
  · cases done
  rename_i agg aggregated
  obtain ⟨withRounds, made, pair⟩ := Option.map_eq_some_iff.mp done
  cases pair
  unfold AggregateSignatureWithRounds.new at made
  split at made
  · cases made
    have distinct : (p.signatures.signatures.toList.map (·.1)).Nodup := by
      rw [Std.ExtTreeMap.map_fst_toList_eq_keys]
      exact Map.keys_nodup _
    rw [signers, ← Std.ExtTreeMap.map_fst_toList_eq_keys] at checked
    obtain ⟨sig, marked, found, aggregate, marks, signed, voters⟩ :=
      aggregateSignatures_signers small aggregated
        p.signatures.signatures.toList distinct (by rw [map_map]; rfl) checked
    rw [map_map] at aggregate
    rw [Std.ExtTreeMap.map_fst_toList_eq_keys] at voters
    exact ⟨sig, marked, rfl, found, aggregate, marks, signed, voters,
      getPartialSigWithRounds_rounds marks⟩
  · cases made

theorem Collected.verifyAggregate (complete : Bls.Complete (M := SignedMessage) Crypto.bls)
    (collected : p.Collected v epoch round) {sig : Signature}
    {marked : List (Nat × ValidatorConsensusInfo × Round × Signature)}
    (kept : tc.timeout = p.timeout) (found : tc.signaturesWithRounds.sig.sig = some sig)
    (made : Crypto.bls.aggregate (p.signatures.signatures.toList.map (·.2.2)) = some sig)
    (marks : v.Marked p.signatures.signatures.toList marked)
    (signed : v.Signers tc.signaturesWithRounds.sig.validatorBitmask (marked.map (·.2.1)))
    (voters : (tc.signaturesWithRounds.sig.getSignersAddresses v.getOrderedAccountAddresses).Perm
      p.signers)
    (rounds : tc.signaturesWithRounds.rounds = marked.map (·.2.2.1)) :
    v.verifyAggregateSignatures Crypto.bls ((tc.timeoutMessages v).map SignedMessage.timeout)
      tc.signaturesWithRounds.sig = .ok () := by
  let share := fun entry : AccountAddress × Round × Signature =>
    (SignedMessage.timeout ⟨epoch, round, entry.2.1⟩, v.keyOf entry.1, entry.2.2)
  have valid : ∀ s ∈ p.signatures.signatures.toList.map share,
      Crypto.bls.verify s.2.2 s.1 s.2.1 = true := by
    intro s mem
    obtain ⟨entry, inList, rfl⟩ := mem_map.mp mem
    refine bls_verify_keyOf (collected.signed entry.1 entry.2.1 entry.2.2 ?_)
    exact Std.ExtTreeMap.mem_toList_iff_getElem?_eq_some.mp inList
  have perm := marks.perm.map share
  rw [map_map] at perm
  have all := complete.aggregate _ _ sig valid perm (by rw [map_map]; exact made)
  -- the messages to check are the recorded rounds, in the order of the mask
  have enough : tc.signaturesWithRounds.rounds.length ≤
      (tc.signaturesWithRounds.sig.getSignersAddresses v.getOrderedAccountAddresses).length := by
    have length := marks.perm.length_eq
    rw [length_map] at length
    rw [voters.length_eq, rounds, length_map, length, signers,
      ← Std.ExtTreeMap.map_fst_toList_eq_keys, length_map]
  rw [timeoutMessages_eq, min_eq_right enough, take_length, rounds]
  refine verifyAggregateSignatures_ok.mpr ⟨_, sig, signed, found, ?_⟩
  rw [map_map, map_map] at all
  rw [map_map, map_map, map_map, kept, collected.epoch_eq, collected.round_eq]
  have keys : marked.map ((·.publicKey) ∘ fun entry => entry.2.1) =
      marked.map ((·.2.1) ∘ share ∘ fun entry => (entry.2.1.address, entry.2.2)) :=
    map_congr_left fun entry mem => (marks.keyOf_eq mem).symm
  rw [keys]
  exact all

/-- **A collected certificate is valid exactly when somebody's recorded signature is for
the certificate round of the kept timeout.** -/
theorem Collected.verify_iff (complete : Bls.Complete (M := SignedMessage) Crypto.bls)
    (small : v.len < 65536) (collected : p.Collected v epoch round) {power : Nat}
    (checked : v.checkVotingPower p.signers true = .ok power)
    (done : p.aggregateSignatures v = some (.ok tc)) : tc.verify v = .ok () ↔ p.Attained := by
  obtain ⟨sig, marked, kept, found, made, marks, signed, voters, rounds⟩ :=
    aggregateSignatures_marked small checked done
  have aggregate := collected.verifyAggregate complete kept found made marks signed voters rounds
  have recorded : ∀ hqc, hqc ∈ tc.signaturesWithRounds.rounds ↔
      ∃ (author : Author) (sig : Signature),
        p.signatures.signatures[author]? = some (hqc, sig) := by
    intro hqc
    have perm := marks.perm.map fun entry => entry.2.1
    rw [map_map] at perm
    have same : hqc ∈ tc.signaturesWithRounds.rounds ↔
        hqc ∈ p.signatures.signatures.toList.map (·.2.1) := by
      rw [rounds]
      exact perm.mem_iff
    rw [same, mem_map]
    constructor
    · rintro ⟨⟨author, hqc', sig⟩, mem, rfl⟩
      exact ⟨author, sig, Std.ExtTreeMap.mem_toList_iff_getElem?_eq_some.mp mem⟩
    · rintro ⟨author, sig, known⟩
      exact ⟨(author, hqc, sig), Std.ExtTreeMap.mem_toList_iff_getElem?_eq_some.mpr known, rfl⟩
  have timeoutOk : tc.timeout.verify v = .ok () := kept ▸ collected.verified
  constructor
  · intro accepted
    have mem := max?_mem (tc.verify_parts accepted).2
    rw [recorded, kept] at mem
    exact mem
  rintro ⟨author, sig', known⟩
  have highest : tc.signaturesWithRounds.rounds.max? = some p.timeout.hqcRound := by
    refine List.max?_eq_some_iff.mpr ⟨(recorded _).mpr ⟨author, sig', known⟩, ?_⟩
    intro hqc mem
    obtain ⟨author', sig'', known'⟩ := (recorded hqc).mp mem
    exact collected.below author' hqc sig'' known'
  unfold TwoChainTimeoutCertificate.verify
  rw [timeoutOk, aggregate, kept, highest]
  exact ensure_eq_ok.mpr rfl

/-! ## What adding a timeout keeps -/

/-- A timeout of the round that is valid and signed by its author. -/
structure TimeoutOk (v : ValidatorVerifier) (epoch : Nat) (round : Round) (author : Author)
    (timeout : TwoChainTimeout) (signature : Signature) : Prop where
  epoch_eq : timeout.epoch = epoch
  round_eq : timeout.round = round
  verified : timeout.verify v = .ok ()
  signed : v.verify Crypto.bls author (.timeout timeout.signingFormat) signature = .ok ()

theorem TimeoutOk.collected_new (valid : TimeoutOk v epoch round author timeout signature) :
    (new timeout).Collected v epoch round where
  epoch_eq := valid.epoch_eq
  round_eq := valid.round_eq
  verified := valid.verified
  signed := by
    intro author hqc sig recorded
    simp [new, empty] at recorded
  below := by
    intro author hqc sig recorded
    simp [new, empty] at recorded

theorem Collected.add (collected : p.Collected v epoch round)
    (valid : TimeoutOk v epoch round author timeout signature) :
    (p.add author timeout signature).Collected v epoch round where
  epoch_eq := by
    unfold TwoChainTimeoutWithPartialSignatures.add
    split
    · exact valid.epoch_eq
    · exact collected.epoch_eq
  round_eq := by
    unfold TwoChainTimeoutWithPartialSignatures.add
    split
    · exact valid.round_eq
    · exact collected.round_eq
  verified := by
    unfold TwoChainTimeoutWithPartialSignatures.add
    split
    · exact valid.verified
    · exact collected.verified
  signed := by
    intro author' hqc sig recorded
    rcases add_recorded.mp recorded with before | ⟨-, rfl, new⟩
    · exact collected.signed author' hqc sig before
    cases new
    have signed := valid.signed
    rw [TwoChainTimeout.signingFormat, valid.epoch_eq, valid.round_eq] at signed
    exact signed
  below := by
    intro author' hqc sig recorded
    rcases add_recorded.mp recorded with before | ⟨-, rfl, new⟩
    · exact (collected.below author' hqc sig before).trans add_hqcRound.1
    · cases new
      exact add_hqcRound.2

end TwoChainTimeoutWithPartialSignatures

end CreditChain
