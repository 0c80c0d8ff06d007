import CreditChain.SafetyRules.Discipline

/-!
# The validators of one epoch

A `Committee` fixes an epoch, its validator set, which validators are faulty, and the
safety-rules instance each honest validator starts with.  A run is any interleaving of
vote, order vote and timeout requests at honest validators.  The arguments come from the
adversary, who may put any signature on anything as long as it is `Unforged`: what an
honest key appears to have signed, its owner has released before.
-/

namespace CreditChain

open CreditChain.Action Trace ValidatorVerifier List

/-- Hashing as the protocol needs it: different blocks and votes have different digests,
and none of a vote's is the zero that order votes carry in its place. -/
structure CollisionFree [Crypto] : Prop where
  block : Function.Injective Crypto.blockDataHash
  voteData : Function.Injective Crypto.voteDataHash
  voteData_ne_zero : ∀ data, Crypto.voteDataHash data ≠ HashValue.zero

/-- The validators that `sig` verifies for have signed, according to `signed`.  Keys are points
that add up, and a sum of keys says nothing about keys outside the validator set, so that only
lists of different validators count. -/
structure Unforged [Crypto] (validators : List ValidatorConsensusInfo)
    (signed : PublicKey → SignedMessage → Prop) (sig : Signature) : Prop where
  multi : ∀ message key, ∀ signers : List ValidatorConsensusInfo, signers.Subperm validators →
    Crypto.bls.aggregateKeys (signers.map (·.publicKey)) = some key →
    Crypto.bls.verify sig message key = true → ∀ info ∈ signers, signed info.publicKey message
  aggregate : ∀ messages, ∀ signers : List ValidatorConsensusInfo, signers.Subperm validators →
    Crypto.bls.verifyAggregate sig messages (signers.map (·.publicKey)) = true →
    List.Forall₂ (fun info message => signed info.publicKey message) signers messages

namespace SafetyRules

/-- An instance at the start of an epoch, with signature verification on. -/
structure Ready (s : SafetyRules) (state : EpochState) : Prop where
  skipSigVerify : s.skipSigVerify = false
  epochState : s.epochState = some state
  stored : s.stored = .start state.epoch
  coherent : s.Coherent

/-- The requests that votes, order votes and timeouts answer. -/
def Request.Signs : Request → Prop
  | .constructAndSignVoteTwoChain _ _ _ | .constructAndSignOrderVote _
  | .signTimeoutWithQc _ _ => True
  | _ => False

/-- The aggregate signatures of a timeout certificate. -/
def tcSignatures (tc : TwoChainTimeoutCertificate) : List AggregateSignature :=
  [tc.timeout.quorumCert.signedLedgerInfo.signatures, tc.signaturesWithRounds.sig]

/-- The aggregate signatures of the certificates that a request is checked against. -/
def Request.signatures : Request → List AggregateSignature
  | .constructAndSignVoteTwoChain _ proposal timeoutCert =>
    proposal.block.quorumCert.signedLedgerInfo.signatures :: timeoutCert.toList.flatMap tcSignatures
  | .constructAndSignOrderVote proposal => [proposal.quorumCert.signedLedgerInfo.signatures]
  | .signTimeoutWithQc timeout timeoutCert =>
    timeout.quorumCert.signedLedgerInfo.signatures :: timeoutCert.toList.flatMap tcSignatures
  | _ => []

end SafetyRules

open SafetyRules

/-- The threshold of `ValidatorVerifier::new`. -/
theorem ValidatorVerifier.new_quorum {infos : List ValidatorConsensusInfo} (nonempty : infos ≠ []) :
    (new infos).quorumVotingPower =
      Quorum.twoThirds (sumInfos infos) := by
  cases infos with
  | nil => exact absurd rfl nonempty
  | cons info infos => rfl

/-- The validators of an epoch.  Fewer than `total - quorum + 1` of the voting power is faulty. -/
structure Committee where
  epoch : Nat
  validators : List ValidatorConsensusInfo
  distinct : (validators.map (·.address)).Nodup
  faulty : Finset AccountAddress
  few : ∑ v ∈ faulty, (ValidatorVerifier.new validators).powerOf v <
    ValidatorVerifier.sumInfos validators -
      Quorum.twoThirds (ValidatorVerifier.sumInfos validators) + 1
  start : AccountAddress → SafetyRules
  ready : ∀ info ∈ validators, info.address ∉ faulty →
    (start info.address).Ready ⟨epoch, .new validators⟩

namespace Committee

variable (C : Committee)

def verifier : ValidatorVerifier := .new C.validators

def Honest (v : AccountAddress) : Prop := v ∈ C.validators.map (·.address) ∧ v ∉ C.faulty

/-- Two thirds of the voting power, plus one. -/
def Quorum (S : Finset AccountAddress) : Prop :=
  S ⊆ (C.validators.map (·.address)).toFinset ∧
    Quorum.twoThirds (ValidatorVerifier.sumInfos C.validators) ≤ ∑ v ∈ S, C.verifier.powerOf v

variable {C} {v w : AccountAddress}

theorem Honest.validators_ne_nil (honest : C.Honest v) : C.validators ≠ [] := by
  intro none
  have mem := honest.1
  rw [none] at mem
  cases mem

theorem Honest.ready (honest : C.Honest v) : (C.start v).Ready ⟨C.epoch, C.verifier⟩ := by
  obtain ⟨info, mem, rfl⟩ := mem_map.mp honest.1
  exact C.ready info mem honest.2

/-- Two quorums share an honest validator. -/
theorem exists_honest_mem {S T : Finset AccountAddress} (left : C.Quorum S)
    (right : C.Quorum T) : ∃ v ∈ S, v ∈ T ∧ C.Honest v := by
  have total := sum_powerOf (v := C.verifier) C.distinct
  have fits : Quorum.twoThirds (sumInfos C.validators) ≤ sumInfos C.validators := by
    refine left.2.trans (le_of_le_of_eq ?_ total)
    exact Finset.sum_le_sum_of_subset left.1
  have heavy := Quorum.twoThirds_intersect C.few fits left.2 right.2
  obtain ⟨v, inS, inT, notFaulty⟩ :=
    Quorum.exists_mem_inter_not_faulty left.1 right.1 (total ▸ heavy)
  exact ⟨v, inS, inT, mem_toFinset.mp (left.1 inS), notFaulty⟩

/-- The signers of an accepted mask form a quorum, if there is an honest validator at all. -/
theorem quorum_of_signers {mask : Bitvec} {signers : List ValidatorConsensusInfo}
    (nonempty : C.validators ≠ []) (signed : C.verifier.Signers mask signers) :
    C.Quorum (signerSet signers) := by
  constructor
  · intro addr mem
    obtain ⟨info, inSigners, rfl⟩ := mem_map.mp (mem_toFinset.mp mem)
    exact mem_toFinset.mpr (mem_map_of_mem (signed.mem_infos inSigners))
  · have quorum := signed.quorum_le C.distinct
    rw [verifier, new_quorum nonempty] at quorum
    exact quorum

/-- The signers of a mask are different validators. -/
theorem subperm_of_signers {mask : Bitvec} {signers : List ValidatorConsensusInfo}
    (signed : C.verifier.Signers mask signers) : signers.Subperm C.validators :=
  (Nodup.of_map _ (signed.nodup C.distinct)).subperm fun _ mem => signed.mem_infos mem

/-! ## Runs -/

/-- Who is asked what, in the order of time. -/
abbrev Schedule := List (AccountAddress × Call)

variable {run : Schedule} {call : Call}

def calls (run : Schedule) (v : AccountAddress) : List Call :=
  (run.filter fun entry => entry.1 = v).map (·.2)

theorem calls_snoc_self : calls (run ++ [(v, call)]) v = calls run v ++ [call] := by
  simp [calls]

theorem calls_snoc_other (other : v ≠ w) : calls (run ++ [(v, call)]) w = calls run w := by
  simp [calls, other]

variable [Crypto] (C) (run)

/-- What validator `v` did in a run. -/
def log (v : AccountAddress) : List Run.Event := trace step (calls run v) (C.start v)

/-- The instance of validator `v` at the end of a run. -/
def state (v : AccountAddress) : SafetyRules := final step (calls run v) (C.start v)

def Voted (v : AccountAddress) (vote : Vote) : Prop :=
  ∃ e ∈ C.log run v, e.response = .ok (.vote vote)

def OrderVoted (v : AccountAddress) (vote : OrderVote) : Prop :=
  ∃ e ∈ C.log run v, e.response = .ok (.orderVote vote)

def TimedOut (v : AccountAddress) (timeout : TwoChainTimeout) : Prop :=
  ∃ e ∈ C.log run v, Run.TimesOut e timeout

/-- The messages whose signatures `v` has released.  Proposals are signed elsewhere, and
nothing is assumed about them. -/
inductive Released (run : Schedule) (v : AccountAddress) : SignedMessage → Prop
  | vote {vote : Vote} : C.Voted run v vote → Released run v (.ledgerInfo vote.ledgerInfo)
  | orderVote {vote : OrderVote} : C.OrderVoted run v vote →
      Released run v (.ledgerInfo vote.ledgerInfo)
  | timeout {timeout : TwoChainTimeout} : C.TimedOut run v timeout →
      Released run v (.timeout timeout.signingFormat)
  | proposal (data : BlockData) : Released run v (.blockData data)

/-- The honest owners of a key have released the message. -/
def Signed (key : PublicKey) (message : SignedMessage) : Prop :=
  ∀ info ∈ C.validators, info.publicKey = key → info.address ∉ C.faulty →
    C.Released run info.address message

/-- The signature, if there is one, is no forgery. -/
def NotForged (agg : AggregateSignature) : Prop :=
  ∀ sig, agg.sig = some sig → Unforged C.validators (C.Signed run) sig

/-- The interleavings of requests at honest validators, on arguments without forgeries. -/
inductive Runs : Schedule → Prop
  | nil : Runs []
  | snoc {run : Schedule} {v : AccountAddress} {request : Request}
      {outcomes : List StorageOutcome} : Runs run → C.Honest v → request.Signs →
      (∀ agg ∈ request.signatures, C.NotForged run agg) →
      Runs (run ++ [(v, (request, outcomes))])

variable {C run}

theorem log_snoc_self : C.log (run ++ [(v, call)]) v =
    C.log run v ++ [⟨C.state run v, call, (step call (C.state run v)).1,
      (step call (C.state run v)).2⟩] := by
  rw [log, calls_snoc_self, trace_append]
  rfl

theorem state_snoc_self : C.state (run ++ [(v, call)]) v = (step call (C.state run v)).2 := by
  rw [state, calls_snoc_self, final_append]
  rfl

theorem log_snoc_other (other : v ≠ w) : C.log (run ++ [(v, call)]) w = C.log run w := by
  rw [log, calls_snoc_other other, log]

theorem state_snoc_other (other : v ≠ w) : C.state (run ++ [(v, call)]) w = C.state run w := by
  rw [state, calls_snoc_other other, state]

/-- What has happened stays. -/
theorem mem_log_snoc {e : Run.Event} (mem : e ∈ C.log run w) :
    e ∈ C.log (run ++ [(v, call)]) w := by
  by_cases same : v = w
  · subst same
    rw [log_snoc_self]
    exact mem_append_left _ mem
  · rw [log_snoc_other same]
    exact mem

/-- An event of a longer run is old, or the last one. -/
theorem of_mem_log_snoc {e : Run.Event} (mem : e ∈ C.log (run ++ [(v, call)]) w) :
    e ∈ C.log run w ∨ w = v ∧ e = ⟨C.state run v, call, (step call (C.state run v)).1,
      (step call (C.state run v)).2⟩ := by
  by_cases same : v = w
  · subst same
    rw [log_snoc_self] at mem
    rcases mem_append.mp mem with old | last
    · exact .inl old
    · exact .inr ⟨rfl, mem_singleton.mp last⟩
  · rw [log_snoc_other same] at mem
    exact .inl mem

variable {message : SignedMessage}

theorem Released.snoc (released : C.Released run w message) :
    C.Released (run ++ [(v, call)]) w message := by
  cases released with
  | vote voted =>
    obtain ⟨e, mem, response⟩ := voted
    exact .vote ⟨e, mem_log_snoc mem, response⟩
  | orderVote voted =>
    obtain ⟨e, mem, response⟩ := voted
    exact .orderVote ⟨e, mem_log_snoc mem, response⟩
  | timeout timedOut =>
    obtain ⟨e, mem, timesOut⟩ := timedOut
    exact .timeout ⟨e, mem_log_snoc mem, timesOut⟩
  | proposal data => exact .proposal data

/-! ## What certificates say about honest validators -/

/-- A quorum whose honest members have all released a message of the given kind. -/
def QuorumReleased (C : Committee) (run : Schedule) (kind : SignedMessage → Prop) : Prop :=
  ∃ S, C.Quorum S ∧ ∀ w ∈ S, C.Honest w → ∃ message, kind message ∧ C.Released run w message

theorem QuorumReleased.snoc {kind : SignedMessage → Prop}
    (released : C.QuorumReleased run kind) : C.QuorumReleased (run ++ [(v, call)]) kind := by
  obtain ⟨S, quorum, members⟩ := released
  refine ⟨S, quorum, ?_⟩
  intro w mem honest
  obtain ⟨message, holds, done⟩ := members w mem honest
  exact ⟨message, holds, done.snoc⟩

variable {agg : AggregateSignature}

theorem NotForged.snoc (unforged : C.NotForged run agg) : C.NotForged (run ++ [(v, call)]) agg := by
  have later : ∀ key message, C.Signed run key message →
      C.Signed (run ++ [(v, call)]) key message :=
    fun key message signed info mem owner honest => (signed info mem owner honest).snoc
  intro sig found
  obtain ⟨multi, aggregate⟩ := unforged sig found
  refine ⟨?_, ?_⟩
  · intro message key signers different keys valid info mem
    exact later _ _ (multi message key signers different keys valid info mem)
  · intro messages signers different valid
    exact (aggregate messages signers different valid).imp fun info message => later _ message

/-- A multi-signature that verifies for a quorum was released by its honest members. -/
theorem multi_signed (nonempty : C.validators ≠ [])
    (verified : C.verifier.verifyMultiSignatures Crypto.bls message agg = .ok ())
    (unforged : C.NotForged run agg) : C.QuorumReleased run (· = message) := by
  obtain ⟨signers, sig, key, signed, found, keys, valid⟩ := verifyMultiSignatures_ok.mp verified
  refine ⟨_, quorum_of_signers nonempty signed, ?_⟩
  intro w mem honest
  obtain ⟨info, inSigners, rfl⟩ := mem_map.mp (mem_toFinset.mp mem)
  have hasSigned := (unforged sig found).multi message key signers (subperm_of_signers signed) keys
    valid info inSigners
  exact ⟨message, rfl, hasSigned info (signed.mem_infos inSigners) rfl honest.2⟩

/-- An aggregate signature that verifies for a quorum: each honest member released one of
the messages. -/
theorem aggregate_signed {messages : List SignedMessage} (nonempty : C.validators ≠ [])
    (verified : C.verifier.verifyAggregateSignatures Crypto.bls messages agg = .ok ())
    (unforged : C.NotForged run agg) : C.QuorumReleased run (· ∈ messages) := by
  obtain ⟨signers, sig, signed, found, valid⟩ := verifyAggregateSignatures_ok.mp verified
  refine ⟨_, quorum_of_signers nonempty signed, ?_⟩
  intro w mem honest
  obtain ⟨info, inSigners, rfl⟩ := mem_map.mp (mem_toFinset.mp mem)
  have all := (unforged sig found).aggregate messages signers (subperm_of_signers signed) valid
  obtain ⟨message, inMessages, hasSigned⟩ := exists_of_forall₂ all.flip inSigners
  exact ⟨message, inMessages, hasSigned info (signed.mem_infos inSigners) rfl honest.2⟩

end Committee

end CreditChain
