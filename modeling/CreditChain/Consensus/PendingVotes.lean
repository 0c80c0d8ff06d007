import CreditChain.Consensus.Timeout
import CreditChain.Lib.Run

/-!
# Pending votes of one round

`PendingVotes` collects votes and timeouts until one of them completes a quorum
certificate or a timeout certificate.  A vote may carry a timeout, which then counts like
one that came alone.

* `timeout_certificate_verifies`: every timeout certificate is valid, as long as no author
  raises the kept timeout after its own signature was recorded.

Counters, and the numbering of ledger infos that only they use, are left out.
-/

namespace CreditChain

open TwoChainTimeoutWithPartialSignatures

inductive RoundTimeoutReason where
  | unknown
  | proposalNotReceived
  | payloadUnavailable (missingAuthors : Bitvec)
  | noQC
  deriving DecidableEq

structure RoundTimeout where
  timeout : TwoChainTimeout
  author : Author
  reason : RoundTimeoutReason
  signature : Signature

/-- `VoteReceptionResult`, as far as `PendingVotes` returns it. -/
inductive VoteReceptionResult where
  | voteAdded (votingPower : Nat)
  | duplicateVote
  | equivocateVote
  | newQuorumCertificate (qc : QuorumCert)
  | new2ChainTimeoutCertificate (tc : TwoChainTimeoutCertificate)
  | errorAddingVote (e : VerifyError)
  | errorAggregatingSignature (e : VerifyError)
  | errorAggregatingTimeoutCertificate (e : VerifyError)
  | echoTimeout (votingPower : Nat)
  | unknownAuthor (author : Author)
  deriving DecidableEq

inductive VoteStatus where
  | enoughVotes (li : LedgerInfoWithSignatures)
  | notEnoughVotes (aggregator : SignatureAggregator LedgerInfo)
  deriving DecidableEq

structure TwoChainTimeoutVotes where
  timeoutReason : Map Author RoundTimeoutReason
  partial2chainTc : TwoChainTimeoutWithPartialSignatures
  deriving DecidableEq

namespace TwoChainTimeoutVotes

def new (timeout : TwoChainTimeout) : TwoChainTimeoutVotes :=
  ⟨∅, .new timeout⟩

def add (votes : TwoChainTimeoutVotes) (author : Author) (timeout : TwoChainTimeout)
    (signature : Signature) (reason : RoundTimeoutReason) : TwoChainTimeoutVotes where
  timeoutReason := votes.timeoutReason.insertIfNew author reason
  partial2chainTc := votes.partial2chainTc.add author timeout signature

end TwoChainTimeoutVotes

structure PendingVotes where
  liDigestToVotes : Map HashValue VoteStatus
  maybe2chainTimeoutVotes : Option TwoChainTimeoutVotes
  authorToVote : Map Author (Vote × HashValue)
  echoTimeout : Bool
  deriving DecidableEq

namespace PendingVotes

def new : PendingVotes := ⟨∅, none, ∅, false⟩

variable [Crypto] (self : PendingVotes)

/-- The part of `insert_round_timeout` and `insert_vote` that counts a timeout.  An early
return is an `error`; otherwise the voting power of the timeouts goes on.  `none` is a
panic. -/
def addTimeout (author : Author) (timeout : TwoChainTimeout) (signature : Signature)
    (reason : RoundTimeoutReason) (verifier : ValidatorVerifier) : Option
    (Except VoteReceptionResult Nat × PendingVotes) :=
  let votes := (self.maybe2chainTimeoutVotes.getD (.new timeout)).add author timeout signature
    reason
  let self := { self with maybe2chainTimeoutVotes := some votes }
  match verifier.checkVotingPower votes.partial2chainTc.signers true with
  | .ok _ =>
    (votes.partial2chainTc.aggregateSignatures verifier).map fun
      | .ok tc => (.error (.new2ChainTimeoutCertificate tc), self)
      | .error e => (.error (.errorAggregatingTimeoutCertificate e), self)
  | .error (.tooLittleVotingPower tcVotingPower _) =>
    if self.echoTimeout then some (.ok tcVotingPower, self)
    else if verifier.totalVotingPower < verifier.quorumVotingPower then none
    else if verifier.totalVotingPower - verifier.quorumVotingPower + 1 ≤ tcVotingPower then
      some (.error (.echoTimeout tcVotingPower), { self with echoTimeout := true })
    else some (.ok tcVotingPower, self)
  | .error e => some (.error (.errorAddingVote e), self)

/-- `insert_round_timeout`; `none` is a panic. -/
def insertRoundTimeout (roundTimeout : RoundTimeout) (verifier : ValidatorVerifier) : Option
    (VoteReceptionResult × PendingVotes) :=
  (self.addTimeout roundTimeout.author roundTimeout.timeout roundTimeout.signature
    roundTimeout.reason verifier).map fun
    | (.error result, self) => (result, self)
    | (.ok tcVotingPower, self) => (.voteAdded tcVotingPower, self)

/-- What `insert_vote` answers to a vote of an author it has heard of. -/
def seenBefore (vote : Vote) (liDigest : HashValue) : Option VoteReceptionResult :=
  match self.authorToVote[vote.author]? with
  | none => none
  | some (previouslySeenVote, previousLiDigest) =>
    if liDigest = previousLiDigest then
      if vote.isTimeout && !previouslySeenVote.isTimeout then none else some .duplicateVote
    else some .equivocateVote

/-- The part of `insert_vote` that counts a vote for a ledger info.  An early return is an
`error`; otherwise the voting power of the votes goes on.  `none` is a panic. -/
def addVote (status : VoteStatus) (vote : Vote) (validator : OptimisticVerifier) :
    Option (Except VoteReceptionResult Nat × VoteStatus × OptimisticVerifier) :=
  match status with
  | .enoughVotes li =>
    some (.error (.newQuorumCertificate ⟨vote.voteData, li⟩), status, validator)
  | .notEnoughVotes aggregator =>
    let aggregator := aggregator.addSignature vote.author vote.signature
    match aggregator.checkVotingPower validator.verifier true with
    | .ok votingPower =>
      if votingPower < validator.verifier.quorumVotingPower then none
      else
        match aggregator.aggregateAndVerify Crypto.bls SignedMessage.ledgerInfo validator with
        | (.ok (ledgerInfo, aggregatedSig), _, validator) =>
          let li : LedgerInfoWithSignatures := ⟨ledgerInfo, aggregatedSig⟩
          some (.error (.newQuorumCertificate ⟨vote.voteData, li⟩), .enoughVotes li, validator)
        | (.error (.tooLittleVotingPower votingPower _), aggregator, validator) =>
          some (.ok votingPower, .notEnoughVotes aggregator, validator)
        | (.error e, aggregator, validator) =>
          some (.error (.errorAggregatingSignature e), .notEnoughVotes aggregator, validator)
    | .error (.tooLittleVotingPower votingPower _) =>
      some (.ok votingPower, .notEnoughVotes aggregator, validator)
    | .error e => some (.error (.errorAddingVote e), .notEnoughVotes aggregator, validator)

/-- `insert_vote`; `none` is a panic. -/
def insertVote (vote : Vote) (validator : OptimisticVerifier) : Option
    (VoteReceptionResult × PendingVotes × OptimisticVerifier) :=
  let liDigest := vote.ledgerInfo.hash
  match self.seenBefore vote liDigest with
  | some result => some (result, self, validator)
  | none =>
    let status := self.liDigestToVotes[liDigest]?.getD (.notEnoughVotes (.new vote.ledgerInfo))
    let self := { self with
      authorToVote := self.authorToVote.insert vote.author (vote, liDigest)
      liDigestToVotes := self.liDigestToVotes.insert liDigest status }
    if validator.verifier.getVotingPower vote.author = none then
      some (.unknownAuthor vote.author, self, validator)
    else do
      let (outcome, status, validator) ← addVote status vote validator
      let self := { self with liDigestToVotes := self.liDigestToVotes.insert liDigest status }
      match outcome, vote.twoChainTimeout with
      | .error result, _ => some (result, self, validator)
      | .ok votingPower, none => some (.voteAdded votingPower, self, validator)
      | .ok votingPower, some (timeout, signature) =>
        (self.addTimeout vote.author timeout signature .unknown validator.verifier).map fun
          | (.error result, self) => (result, self, validator)
          | (.ok _, self) => (.voteAdded votingPower, self, validator)

/-! ## What an insertion does to the timeouts -/

section Insertions

variable {self self' : PendingVotes} {author : Author} {timeout : TwoChainTimeout}
  {signature : Signature} {reason : RoundTimeoutReason} {verifier : ValidatorVerifier}
  {outcome : Except VoteReceptionResult Nat}

/-- The timeouts after one more. -/
def timeoutsWith (self : PendingVotes) (author : Author) (timeout : TwoChainTimeout)
    (signature : Signature) : TwoChainTimeoutWithPartialSignatures :=
  let kept := (self.maybe2chainTimeoutVotes.map TwoChainTimeoutVotes.partial2chainTc).getD
    (TwoChainTimeoutWithPartialSignatures.new timeout)
  kept.add author timeout signature

/-- The timeouts are kept in any case, and the votes stay; a certificate is an aggregate of all
timeouts. -/
theorem addTimeout_spec
    (done : self.addTimeout author timeout signature reason verifier = some (outcome, self')) :
    (self'.liDigestToVotes = self.liDigestToVotes ∧ self'.authorToVote = self.authorToVote ∧
      ∀ qc, outcome ≠ .error (.newQuorumCertificate qc)) ∧
    (∃ votes, self'.maybe2chainTimeoutVotes = some votes ∧
      votes.partial2chainTc = self.timeoutsWith author timeout signature) ∧
    ∀ tc, outcome = .error (.new2ChainTimeoutCertificate tc) →
      (∃ power, verifier.checkVotingPower (self.timeoutsWith author timeout signature).signers true =
        .ok power) ∧
      (self.timeoutsWith author timeout signature).aggregateSignatures verifier =
        some (.ok tc) := by
  have kept : ((self.maybe2chainTimeoutVotes.getD (.new timeout)).add author timeout signature
      reason).partial2chainTc = self.timeoutsWith author timeout signature := by
    unfold timeoutsWith
    cases self.maybe2chainTimeoutVotes with
    | none | some votes => rfl
  unfold addTimeout at done
  dsimp only at done
  rw [kept] at done
  split at done
  · rename_i power checked
    obtain ⟨aggregated, made, pair⟩ := Option.map_eq_some_iff.mp done
    cases aggregated with
    | ok tc =>
      cases pair
      refine ⟨⟨rfl, rfl, nofun⟩, ⟨_, rfl, kept⟩, ?_⟩
      intro tc' same
      cases same
      exact ⟨⟨power, checked⟩, made⟩
    | error e =>
      cases pair
      refine ⟨⟨rfl, rfl, nofun⟩, ⟨_, rfl, kept⟩, ?_⟩
      intro tc' same
      cases same
  · split at done
    · cases done
      exact ⟨⟨rfl, rfl, nofun⟩, ⟨_, rfl, kept⟩, nofun⟩
    split at done
    · cases done
    split at done
    all_goals
      cases done
      exact ⟨⟨rfl, rfl, nofun⟩, ⟨_, rfl, kept⟩, nofun⟩
  · cases done
    exact ⟨⟨rfl, rfl, nofun⟩, ⟨_, rfl, kept⟩, nofun⟩

variable {validator validator' : OptimisticVerifier} {status status' : VoteStatus} {vote : Vote}

theorem addVote_spec (done : addVote status vote validator = some (outcome, status', validator')) :
    validator'.verifier = validator.verifier ∧
      ∀ tc, outcome ≠ .error (.new2ChainTimeoutCertificate tc) := by
  unfold addVote at done
  split at done
  · cases done
    exact ⟨rfl, nofun⟩
  rename_i aggregator
  have frame := @SignatureAggregator.aggregateAndVerify_frame SignedMessage LedgerInfo Crypto.bls
    .ledgerInfo (aggregator.addSignature vote.author vote.signature) validator
  dsimp only at done
  split at done
  · split at done
    · cases done
    split at done
    all_goals
      rename_i result
      rw [result] at frame
      cases done
      exact ⟨frame.2, nofun⟩
  all_goals
    cases done
    exact ⟨rfl, nofun⟩

end Insertions

/-! ## Runs -/

inductive Input where
  | roundTimeout (roundTimeout : RoundTimeout)
  | vote (vote : Vote)

/-- The timeout that comes with an input, and who signed it. -/
def Input.carried : Input → Option (Author × TwoChainTimeout × Signature)
  | .roundTimeout message => some (message.author, message.timeout, message.signature)
  | .vote message => message.twoChainTimeout.map fun carried => (message.author, carried)

def insert : Input → PendingVotes × OptimisticVerifier →
    Option (VoteReceptionResult × PendingVotes × OptimisticVerifier)
  | .roundTimeout message, (self, validator) =>
    (self.insertRoundTimeout message validator.verifier).map fun answer =>
      (answer.1, answer.2, validator)
  | .vote message, (self, validator) => self.insertVote message validator

section Specification

variable {self self' : PendingVotes} {validator validator' : OptimisticVerifier}
  {result : VoteReceptionResult}

/-- The timeouts of `self'` are those of `self` and one more, and a certificate in the
result is an aggregate of them. -/
def Counts (self self' : PendingVotes) (verifier : ValidatorVerifier)
    (result : VoteReceptionResult) (carried : Author × TwoChainTimeout × Signature) : Prop :=
  let timeouts := self.timeoutsWith carried.1 carried.2.1 carried.2.2
  (∃ votes, self'.maybe2chainTimeoutVotes = some votes ∧ votes.partial2chainTc = timeouts) ∧
    ∀ tc, result = .new2ChainTimeoutCertificate tc →
      (∃ power, verifier.checkVotingPower timeouts.signers true = .ok power) ∧
        timeouts.aggregateSignatures verifier = some (.ok tc)

/-- An insertion leaves the timeouts alone, or counts the one that came with it. -/
theorem insertVote_spec {vote : Vote}
    (done : self.insertVote vote validator = some (result, self', validator')) :
    validator'.verifier = validator.verifier ∧
      ((self'.maybe2chainTimeoutVotes = self.maybe2chainTimeoutVotes ∧
          ∀ tc, result ≠ .new2ChainTimeoutCertificate tc) ∨
        ∃ carried, (Input.vote vote).carried = some carried ∧
          Counts self self' validator.verifier result carried) := by
  unfold insertVote at done
  dsimp only at done
  split at done
  · rename_i answer seen
    cases done
    refine ⟨rfl, .inl ⟨rfl, ?_⟩⟩
    rintro tc rfl
    unfold seenBefore at seen
    split at seen
    · cases seen
    split at seen
    · split at seen
      · cases seen
      · cases seen
    · cases seen
  · split at done
    · cases done
      exact ⟨rfl, .inl ⟨rfl, nofun⟩⟩
    obtain ⟨⟨outcome, status, validator₁⟩, voted, done⟩ := Option.bind_eq_some_iff.mp done
    obtain ⟨sameVerifier, noCertificate⟩ := addVote_spec voted
    dsimp only at done
    split at done
    · cases done
      refine ⟨sameVerifier, .inl ⟨rfl, ?_⟩⟩
      rintro tc rfl
      exact noCertificate tc rfl
    · cases done
      exact ⟨sameVerifier, .inl ⟨rfl, nofun⟩⟩
    rename_i timeout signature carried
    obtain ⟨⟨outcome', self₁⟩, added, pair⟩ := Option.map_eq_some_iff.mp done
    obtain ⟨-, kept, certificate⟩ := addTimeout_spec added
    rw [sameVerifier] at certificate
    have carries : (Input.vote vote).carried = some (vote.author, timeout, signature) := by
      rw [Input.carried, carried, Option.map_some]
    cases outcome' with
    | error answer =>
      cases pair
      refine ⟨sameVerifier, .inr ⟨_, carries, kept, ?_⟩⟩
      rintro tc rfl
      exact certificate tc rfl
    | ok power =>
      cases pair
      exact ⟨sameVerifier, .inr ⟨_, carries, kept, nofun⟩⟩

theorem insert_spec {input : Input}
    (done : insert input (self, validator) = some (result, self', validator')) :
    validator'.verifier = validator.verifier ∧
      ((self'.maybe2chainTimeoutVotes = self.maybe2chainTimeoutVotes ∧
          ∀ tc, result ≠ .new2ChainTimeoutCertificate tc) ∨
        ∃ carried, input.carried = some carried ∧
          Counts self self' validator.verifier result carried) := by
  cases input with
  | vote vote => exact insertVote_spec done
  | roundTimeout roundTimeout =>
    obtain ⟨answer, inserted, pair⟩ := Option.map_eq_some_iff.mp done
    cases pair
    obtain ⟨⟨outcome, self₁⟩, added, pair⟩ := Option.map_eq_some_iff.mp inserted
    obtain ⟨-, kept, certificate⟩ := addTimeout_spec added
    refine ⟨rfl, .inr ⟨_, rfl, ?_⟩⟩
    cases outcome with
    | error answer =>
      cases pair
      refine ⟨kept, ?_⟩
      rintro tc rfl
      exact certificate tc rfl
    | ok power =>
      cases pair
      exact ⟨kept, nofun⟩

end Specification

variable (v : ValidatorVerifier) (epoch : Nat) (round : Round)

/-- Every timeout inserted is of the round, valid, and signed by its author. -/
def Valid (input : Input) : Prop :=
  ∀ carried, input.carried = some carried →
    TwoChainTimeoutWithPartialSignatures.TimeoutOk v epoch round carried.1 carried.2.1 carried.2.2

/-- Who raises the certificate round of the kept timeout has no signature recorded yet. -/
def RaisesFirst (input : Input) : Prop :=
  ∀ carried votes, input.carried = some carried → self.maybe2chainTimeoutVotes = some votes →
    votes.partial2chainTc.timeout.hqcRound < carried.2.1.hqcRound →
      votes.partial2chainTc.signatures.signatures[carried.1]? = none

/-- What the collected timeouts have in common. -/
def Sound (self : PendingVotes) : Prop :=
  ∀ votes, self.maybe2chainTimeoutVotes = some votes →
    votes.partial2chainTc.Collected v epoch round ∧ votes.partial2chainTc.Attained

/-- The states of pending votes in runs of valid inputs that all meet `allowed`. -/
abbrev Reached (allowed : PendingVotes → Input → Prop) : PendingVotes × OptimisticVerifier → Prop :=
  Run.Reaches (fun input s => (insert input s).map (·.2))
    (fun s input => Valid v epoch round input ∧ allowed s.1 input)
    (fun s => s.1 = .new ∧ s.2.verifier = v)

section Timeouts

variable {v : ValidatorVerifier} {epoch : Nat} {round : Round} {self self' : PendingVotes}
  {validator validator' : OptimisticVerifier} {input : Input} {result : VoteReceptionResult}
  {carried : Author × TwoChainTimeout × Signature}

/-- What an input brings keeps the invariant of the collected timeouts. -/
theorem Sound.timeoutsWith (sound : self.Sound v epoch round)
    (carries : input.carried = some carried) (valid : Valid v epoch round input)
    (raises : self.RaisesFirst input) :
    (self.timeoutsWith carried.1 carried.2.1 carried.2.2).Collected v epoch round ∧
      (self.timeoutsWith carried.1 carried.2.1 carried.2.2).Attained := by
  have ok := valid carried carries
  unfold PendingVotes.timeoutsWith
  cases kept : self.maybe2chainTimeoutVotes with
  | none =>
    refine ⟨ok.collected_new.add ok, ?_⟩
    apply attained_add
    exact .inl ⟨le_rfl, by
      simp [TwoChainTimeoutWithPartialSignatures.new, PartialSignaturesWithRound.empty]⟩
  | some votes =>
    obtain ⟨collected, attained⟩ := sound votes kept
    refine ⟨collected.add ok, ?_⟩
    apply attained_add
    rcases Nat.lt_or_ge votes.partial2chainTc.timeout.hqcRound carried.2.1.hqcRound with
      higher | lower
    · exact .inl ⟨higher.le, raises carried votes carries kept higher⟩
    · exact .inr ⟨attained, lower⟩

theorem Sound.insert (sound : self.Sound v epoch round) (valid : Valid v epoch round input)
    (raises : self.RaisesFirst input)
    (done : PendingVotes.insert input (self, validator) = some (result, self', validator')) :
    self'.Sound v epoch round := by
  obtain ⟨-, ⟨same, -⟩ | ⟨carried, carries, ⟨votes, kept, timeouts⟩, -⟩⟩ := insert_spec done
  · unfold Sound
    rw [same]
    exact sound
  · intro votes' kept'
    rw [kept] at kept'
    cases kept'
    rw [timeouts]
    exact sound.timeoutsWith carries valid raises

theorem Reached.sound {s : PendingVotes × OptimisticVerifier}
    (reached : Reached v epoch round RaisesFirst s) :
    s.1.Sound v epoch round ∧ s.2.verifier = v := by
  refine Run.Reaches.invariant (I := fun s => s.1.Sound v epoch round ∧ s.2.verifier = v)
    ?_ ?_ reached
  · rintro ⟨self, validator⟩ ⟨rfl, sameVerifier⟩
    refine ⟨?_, sameVerifier⟩
    intro votes kept
    cases kept
  · rintro ⟨self, validator⟩ input ⟨self', validator'⟩ ⟨sound, sameVerifier⟩ ⟨valid, raises⟩ done
    obtain ⟨⟨result, next⟩, inserted, rfl⟩ := Option.map_eq_some_iff.mp done
    exact ⟨sound.insert valid raises inserted, (insert_spec inserted).1.trans sameVerifier⟩

end Timeouts

/-- **Every timeout certificate that is formed is valid**, in every run in which nobody
raises the kept timeout after its own signature was recorded. -/
theorem timeout_certificate_verifies (complete : Bls.Complete (M := SignedMessage) Crypto.bls)
    {v : ValidatorVerifier} (small : v.len < 65536) {epoch : Nat} {round : Round}
    {s s' : PendingVotes × OptimisticVerifier} (reached : Reached v epoch round RaisesFirst s)
    {input : Input} (valid : Valid v epoch round input) (raises : s.1.RaisesFirst input)
    {tc : TwoChainTimeoutCertificate}
    (done : insert input s = some (.new2ChainTimeoutCertificate tc, s')) :
    tc.verify v = .ok () := by
  obtain ⟨sound, rfl⟩ := reached.sound
  obtain ⟨-, ⟨-, noCertificate⟩ | ⟨carried, carries, -, certificate⟩⟩ := insert_spec done
  · exact absurd rfl (noCertificate tc)
  · obtain ⟨⟨power, checked⟩, aggregated⟩ := certificate tc rfl
    obtain ⟨collected, attained⟩ := sound.timeoutsWith carries valid raises
    exact (collected.verify_iff complete small checked aggregated).mpr attained

end PendingVotes

/-! ## An author that raises its own timeout

Four validators of equal power give up round 2.  Validator 1 first names the genesis
certificate and then the certificate of round 1. -/

namespace RaisedTimeout

def tag : SignedMessage → Nat
  | .ledgerInfo li => li.consensusDataHash + 1
  | .timeout repr => repr.hqcRound + 1
  | .blockData _ => 0

local instance crypto : Crypto :=
  .ofRounds (.linear tag) fun key message => some (key * tag message)

def validators : ValidatorVerifier := .new [⟨1, 1, 1⟩, ⟨2, 10, 1⟩, ⟨3, 100, 1⟩, ⟨4, 1000, 1⟩]

def start : PendingVotes × OptimisticVerifier := (.new, ⟨validators, true, []⟩)

def blockInfo (round : Round) : BlockInfo := ⟨1, round, round + 1, 0, 0, 0, none⟩

/-- The genesis certificate, and a certificate of round 1 signed by validators 1 to 3. -/
def certificate : Round → QuorumCert
  | 0 => ⟨⟨blockInfo 0, blockInfo 0⟩, ⟨⟨blockInfo 0, 1⟩, .empty⟩⟩
  | round => ⟨⟨blockInfo round, blockInfo 0⟩,
      ⟨⟨blockInfo 0, round + 1⟩, ⟨⟨[0b11100000]⟩, some (111 * (round + 2))⟩⟩⟩

def message (author : Author) (key : PrivateKey) (hqc : Round) : PendingVotes.Input :=
  .roundTimeout ⟨⟨1, 2, certificate hqc⟩, author, .unknown, key * (hqc + 1)⟩

def formed (rounds : List Round) (sig : Signature) : TwoChainTimeoutCertificate :=
  ⟨⟨1, 2, certificate 1⟩, ⟨⟨⟨[0b11100000]⟩, some sig⟩, rounds⟩⟩

theorem valid {author : Author} {key : PrivateKey} {hqc : Round}
    (verified : (⟨1, 2, certificate hqc⟩ : TwoChainTimeout).verify validators = .ok ())
    (signed : validators.verify Crypto.bls author
      (.timeout (⟨1, 2, certificate hqc⟩ : TwoChainTimeout).signingFormat) (key * (hqc + 1)) =
        .ok ()) :
    PendingVotes.Valid validators 1 2 (message author key hqc) := by
  intro carried carries
  cases carries
  exact ⟨rfl, rfl, verified, signed⟩

/-- The state after some messages. -/
def pending (hqc : Round) (recorded : List (Author × Round × Signature)) (echoTimeout : Bool) :
    PendingVotes × OptimisticVerifier :=
  (⟨∅, some ⟨.ofList (recorded.map fun entry => (entry.1, .unknown)) compare,
      ⟨⟨1, 2, certificate hqc⟩, ⟨.ofList recorded compare⟩⟩⟩, ∅, echoTimeout⟩, start.2)

theorem started (allowed : PendingVotes → PendingVotes.Input → Prop) :
    PendingVotes.Reached validators 1 2 allowed start :=
  .start ⟨rfl, rfl⟩

/-- Validator 2 raises the timeout with its first message: the certificate is valid. -/
theorem first_message_raises : (formed [0, 1, 0] 121).verify validators = .ok () := by
  have reached : PendingVotes.Reached validators 1 2 PendingVotes.RaisesFirst
      (pending 1 [(1, 0, 1), (2, 1, 20)] true) := by
    refine (started _).of_inputs [message 1 1 0, message 2 10 1] ?_
    refine ⟨⟨valid (by decide) (by decide), ?_⟩, pending 0 [(1, 0, 1)] false, by decide,
      ⟨valid (by decide) (by decide), ?_⟩, _, by decide, rfl⟩
    · intro carried votes _ kept
      cases kept
    · intro carried votes carries kept _
      cases carries
      cases kept
      decide
  have raises : (pending 1 [(1, 0, 1), (2, 1, 20)] true).1.RaisesFirst (message 3 100 0) := by
    intro carried votes carries kept _
    cases carries
    cases kept
    decide
  have inserted : PendingVotes.insert (message 3 100 0) (pending 1 [(1, 0, 1), (2, 1, 20)] true) =
      some (.new2ChainTimeoutCertificate (formed [0, 1, 0] 121),
        pending 1 [(1, 0, 1), (2, 1, 20), (3, 0, 100)] true) := by
    decide
  exact PendingVotes.timeout_certificate_verifies (Bls.linear_complete tag) (by decide) reached
    (valid (by decide) (by decide)) raises inserted

/-- Validator 1 raises the timeout with its second message: a certificate is formed that
does not verify. -/
theorem second_message_raises :
    Bls.Complete (M := SignedMessage) Crypto.bls ∧
      validators.powerOf 1 < validators.totalVotingPower - validators.quorumVotingPower + 1 ∧
      ∃ s s', PendingVotes.Reached validators 1 2 (fun _ _ => True) s ∧
        PendingVotes.Valid validators 1 2 (message 3 100 0) ∧
        PendingVotes.insert (message 3 100 0) s =
          some (.new2ChainTimeoutCertificate (formed [0, 0, 0] 111), s') ∧
        (formed [0, 0, 0] 111).verify validators =
          .error "Inconsistent hqc round, qc has round 1, highest signed round 0" := by
  refine ⟨Bls.linear_complete tag, by decide, pending 1 [(1, 0, 1), (2, 0, 10)] true,
    pending 1 [(1, 0, 1), (2, 0, 10), (3, 0, 100)] true, ?_, valid (by decide) (by decide),
    by decide, by decide⟩
  refine (started fun _ _ => True).of_inputs [message 1 1 0, message 1 1 1, message 2 10 0] ?_
  exact ⟨⟨valid (by decide) (by decide), trivial⟩, pending 0 [(1, 0, 1)] false, by decide,
    ⟨valid (by decide) (by decide), trivial⟩, pending 1 [(1, 0, 1)] false, by decide,
    ⟨valid (by decide) (by decide), trivial⟩, _, by decide, rfl⟩

end RaisedTimeout

end CreditChain
