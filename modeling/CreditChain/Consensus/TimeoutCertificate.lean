import CreditChain.Consensus.Timeout

/-!
# What a timeout certificate proves

The check of a timeout certificate takes the signers from the mask of the aggregate signature,
the signed rounds from a vector of its own, the messages from zipping the two, and the highest
round from the whole vector.  Nothing checks the length of the vector: rounds after the last
signer are signed by nobody and still count for the highest.

* `verify_exact`: it is exact if and only if the rest of the vector does not raise the highest.
* `unsigned_round_accepted`: a certificate with one round more.
-/

namespace CreditChain

open ValidatorVerifier List

/-- The verification of aggregates is ideal: it accepts exactly the lists of equal length in which
every key has signed its message. -/
def Bls.Ideal {M : Type} (bls : Bls M) (signed : PublicKey → M → Prop) : Prop :=
  ∀ sig messages keys, bls.verifyAggregate sig messages keys = true ↔
    List.Forall₂ (fun message key => signed key message) messages keys

namespace TwoChainTimeoutCertificate

/-- The signers are a quorum, each has signed its one of the rounds, and the carried timeout has
the highest of these rounds. -/
def ExactBy (tc : TwoChainTimeoutCertificate) (validators : ValidatorVerifier)
    (signed : PublicKey → SignedMessage → Prop) (rounds : List Round) : Prop :=
  ∃ signers : List ValidatorConsensusInfo,
    validators.Signers tc.signaturesWithRounds.sig.validatorBitmask signers ∧
    List.Forall₂ (fun info hqc => signed info.publicKey
      (.timeout ⟨tc.timeout.epoch, tc.timeout.round, hqc⟩)) signers rounds ∧
    rounds.max? = some tc.timeout.hqcRound

/-- The signers are a quorum, each has signed a round, and the carried timeout has the highest of
these rounds. -/
def Exact (tc : TwoChainTimeoutCertificate) (validators : ValidatorVerifier)
    (signed : PublicKey → SignedMessage → Prop) : Prop :=
  ∃ rounds, tc.ExactBy validators signed rounds

/-- The rounds that the certificate lists for its voters. -/
def voterRounds (tc : TwoChainTimeoutCertificate) : List Round :=
  tc.signaturesWithRounds.rounds.take tc.signaturesWithRounds.sig.getNumVoters

section Verify

variable [Crypto] {tc : TwoChainTimeoutCertificate} {validators : ValidatorVerifier}

omit [Crypto] in
theorem length_signers {signers : List ValidatorConsensusInfo}
    (quorum : validators.Signers tc.signaturesWithRounds.sig.validatorBitmask signers) :
    tc.signaturesWithRounds.sig.getNumVoters = signers.length := by
  have fits : tc.signaturesWithRounds.sig.validatorBitmask.numBuckets * 8 ≤ 65536 := by
    have voters := quorum.voters
    unfold checkNumOfVoters at voters
    split at voters
    · cases voters
    · rename_i same
      rw [not_not.mp same]
      exact requiredBuckets_fits (Nat.mod_lt _ (by decide))
  rw [AggregateSignature.getNumVoters, ← Bitvec.length_iterOnes fits]
  exact quorum.found.length_eq

variable {signed : PublicKey → SignedMessage → Prop}
  (ideal : Bls.Ideal (M := SignedMessage) Crypto.bls signed)
  (verified : tc.verify validators = .ok ())

include ideal verified

/-- The rounds that an accepted certificate lists for its voters are signed. -/
theorem verify_signed : ∃ signers : List ValidatorConsensusInfo,
    validators.Signers tc.signaturesWithRounds.sig.validatorBitmask signers ∧
    List.Forall₂ (fun info hqc => signed info.publicKey
      (.timeout ⟨tc.timeout.epoch, tc.timeout.round, hqc⟩)) signers tc.voterRounds := by
  obtain ⟨signers, sig, quorum, _, accepted⟩ :=
    verifyAggregateSignatures_ok.mp (verify_parts verified).1
  have all := (ideal sig _ _).mp accepted
  -- Zipping drops what is too much on either side, and nothing may be missing.
  have length := all.length_eq
  rw [TwoChainTimeoutWithPartialSignatures.timeoutMessages_eq] at all length
  rw [length_map, length_map, length_map, length_take, min_eq_left (min_le_right _ _)] at length
  rw [length, map_map, forall₂_map_left_iff, forall₂_map_right_iff] at all
  refine ⟨signers, quorum, ?_⟩
  rw [voterRounds, length_signers quorum]
  exact all.flip

/-- **A verified certificate is exact by the rounds of its voters if and only if these have the
highest round of all.**  Without voters that sign two rounds no other rounds make it exact. -/
theorem verify_exact :
    (tc.ExactBy validators signed tc.voterRounds ↔
      tc.voterRounds.max? = tc.signaturesWithRounds.rounds.max?) ∧
    ((∀ key hqc hqc', signed key (.timeout ⟨tc.timeout.epoch, tc.timeout.round, hqc⟩) →
        signed key (.timeout ⟨tc.timeout.epoch, tc.timeout.round, hqc'⟩) → hqc = hqc') →
      (tc.Exact validators signed ↔
        tc.voterRounds.max? = tc.signaturesWithRounds.rounds.max?)) := by
  obtain ⟨signers, quorum, all⟩ := verify_signed ideal verified
  rw [(verify_parts verified).2]
  have listed (same : tc.voterRounds.max? = some tc.timeout.hqcRound) :
      tc.ExactBy validators signed tc.voterRounds := ⟨signers, quorum, all, same⟩
  refine ⟨⟨fun exact => ?_, listed⟩, fun single => ⟨fun exact => ?_, fun same => ⟨_, listed same⟩⟩⟩
  · obtain ⟨_, -, -, same⟩ := exact
    exact same
  -- the mask determines the signers, and these their rounds
  · obtain ⟨rounds, signers', quorum', all', same⟩ := exact
    have again : signers' = signers := by
      refine right_unique_forall₂' (fun _ _ _ left right => ?_) quorum'.found quorum.found
      exact Option.some.inj (left.symm.trans right)
    subst again
    have sameRounds : tc.voterRounds = rounds := by
      refine right_unique_forall₂' (fun info hqc hqc' left right => ?_) all all'
      exact single info.publicKey hqc hqc' left right
    rw [sameRounds]
    exact same

end Verify

end TwoChainTimeoutCertificate

/-! ## A round that nobody signed -/

namespace ExtraRound

/-- Every validator signed the timeout of round 6 with certificate round 1, and nothing else. -/
def signed (_ : PublicKey) (message : SignedMessage) : Prop := message = .timeout ⟨1, 6, 1⟩

instance (key : PublicKey) (message : SignedMessage) : Decidable (signed key message) :=
  inferInstanceAs (Decidable (message = _))

local instance crypto : Crypto where
  voteDataHash _ := 0
  blockDataHash _ := 0
  ledgerInfoHash _ := 0
  waypointHash _ := 0
  accumulator := ⟨fun left right => left + right + 1, 0⟩
  bls :=
    { verify := fun _ _ _ => true
      aggregate := List.head?
      aggregateKeys := List.head?
      verifyAggregate := fun _ messages keys =>
        decide (List.Forall₂ (fun message key => signed key message) messages keys) }
  publicKey key := key
  sign _ _ := some 0

theorem ideal : Bls.Ideal (M := SignedMessage) Crypto.bls signed :=
  fun _ _ _ => decide_eq_true_iff

def validators : ValidatorVerifier := .new [⟨1, 1, 1⟩, ⟨2, 2, 1⟩, ⟨3, 3, 1⟩, ⟨4, 4, 1⟩]

/-- Marks the first three validators. -/
def quorum : AggregateSignature := ⟨⟨[224]⟩, some 0⟩

/-- A certificate of a round, over the block of the round before. -/
def certificate (round : Round) : QuorumCert :=
  ⟨⟨⟨1, round, round, 0, 0, 0, none⟩, ⟨1, round - 1, round - 1, 0, 0, 0, none⟩⟩,
    ⟨⟨⟨1, round - 1, round - 1, 0, 0, 0, none⟩, 0⟩, quorum⟩⟩

/-- The timeout certificate of round 6 with a highest certificate and the rounds. -/
def timeoutCertificate (hqc : Round) (rounds : List Round) : TwoChainTimeoutCertificate :=
  ⟨⟨1, 6, certificate hqc⟩, ⟨quorum, rounds⟩⟩

/-- A fourth round that nobody signed does no harm where it is no higher. -/
theorem verify_exact_four : (timeoutCertificate 1 [1, 1, 1, 1]).verify validators = .ok () ∧
    (timeoutCertificate 1 [1, 1, 1, 1]).Exact validators signed := by
  have verified : (timeoutCertificate 1 [1, 1, 1, 1]).verify validators = .ok () := by decide
  refine ⟨verified, ((TwoChainTimeoutCertificate.verify_exact ideal verified).2 ?_).mpr (by decide)⟩
  intro key hqc hqc' left right
  cases left
  cases right
  rfl

/-- The certificate of round 5 is carried, the three signers signed round 1, and the fourth round
belongs to nobody. -/
theorem unsigned_round_accepted :
    (timeoutCertificate 5 [1, 1, 1, 5]).verify validators = .ok () ∧
      ¬ (timeoutCertificate 5 [1, 1, 1, 5]).Exact validators signed := by
  refine ⟨by decide, ?_⟩
  rintro ⟨rounds, signers, _, all, highest⟩
  have mem : (5 : Round) ∈ rounds := max?_mem highest
  obtain ⟨info, _, isSigned⟩ := exists_of_forall₂ all mem
  cases isSigned

end ExtraRound

end CreditChain
