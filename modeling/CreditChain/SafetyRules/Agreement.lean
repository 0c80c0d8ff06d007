import CreditChain.Lib.Digest
import CreditChain.Lib.TwoChain
import CreditChain.SafetyRules.Network
import Mathlib.Tactic.DeriveCountable

/-!
# Agreement

Two blocks of positive round that the validators of one epoch decide lie on one chain.

The abstract argument is `TwoChain.agreement`.  This module shows that every run of a
`Committee` is an instance of it (`Committee.twoChain`).

Certificates of round 0 need no signatures, so nothing can be said about the blocks they
name: two order votes on such certificates decide unrelated blocks (`FourValidators.stray_disagree`).
-/

namespace CreditChain

open CreditChain.Action Trace SafetyRules List
open CreditChain.Except (map_eq_ok map_ne_ok)

/-! ## What the checks establish -/

theorem nextRound_ok {round next : Round} (found : nextRound round = .ok next) :
    next = round + 1 := by
  unfold nextRound at found
  split at found
  · cases found
    rfl
  · cases found

theorem BlockData.round_of_verifyWellFormed {data : BlockData} {now : Nat}
    (wellFormed : data.verifyWellFormed now = .ok ()) :
    data.quorumCert.certifiedBlock.round < data.round := by
  have rest := of_check wellFormed
  obtain ⟨_, later, -⟩ := of_bind rest
  exact ensure_eq_ok.mp later

/-- The voting rule: the block follows its certificate, or a timeout certificate. -/
theorem safeToVote_ok {block : Block} {maybeTc : Option TwoChainTimeoutCertificate}
    (safe : safeToVote block maybeTc = .ok ())
    (later : block.quorumCert.certifiedBlock.round < block.round) :
    block.round = block.quorumCert.certifiedBlock.round + 1 ∨
      ∃ tc, maybeTc = some tc ∧ block.round = tc.round + 1 ∧
        tc.highestHqcRound ≤ block.quorumCert.certifiedBlock.round := by
  obtain ⟨afterQc, next, rest⟩ := of_bind safe
  have next := nextRound_ok next
  obtain ⟨follows, computed, passed⟩ := of_bind rest
  have follows := ensure_eq_ok.mp passed
  split at computed
  · rename_i same
    exact .inl (same.trans next)
  obtain ⟨afterTc, nextTc, same⟩ := map_eq_ok.mp computed
  have nextTc := nextRound_ok nextTc
  have both := of_decide_eq_true (same.trans follows)
  cases maybeTc with
  | none =>
    -- without a timeout certificate the block is of round 1, and so follows round 0
    have first : block.round = 0 + 1 := both.1.trans nextTc
    refine .inl ?_
    rw [first] at later ⊢
    rw [Nat.lt_one_iff.mp later]
  | some tc => exact .inr ⟨tc, rfl, both.1.trans nextTc, both.2⟩

theorem constructLedgerInfo2chain_ok {block : Block} {hash : HashValue} {li : LedgerInfo}
    (constructed : constructLedgerInfo2chain block hash = .ok li) :
    li = ⟨if block.quorumCert.certifiedBlock.round + 1 = block.round then
      block.quorumCert.certifiedBlock else .empty, hash⟩ := by
  obtain ⟨after, next, rest⟩ := of_bind constructed
  rw [nextRound_ok next] at rest
  cases rest
  rfl

theorem BlockData.hashInput_round {data data' : BlockData} (same : data.hashInput = data'.hashInput) :
    data.round = data'.round := by
  unfold BlockData.hashInput at same
  split at same
  · split at same
    · injection same
    · cases same
  · split at same
    · cases same
    · cases same
      rfl

section Protocol

variable [Crypto] {v : ValidatorVerifier}

theorem QuorumCert.verify_ok {qc : QuorumCert}
    (verified : qc.verify v = .ok ()) (pos : 0 < qc.certifiedBlock.round) :
    qc.ledgerInfo.consensusDataHash = qc.voteData.hash ∧
      v.verifyMultiSignatures Crypto.bls (.ledgerInfo qc.ledgerInfo)
        qc.signedLedgerInfo.signatures = .ok () := by
  obtain ⟨_, hash, rest⟩ := of_bind verified
  rw [if_neg pos.ne'] at rest
  obtain ⟨_, signed, -⟩ := of_bind rest
  exact ⟨ensure_eq_ok.mp hash, Except.mapError_eq_ok.mp signed⟩

/-- Proposals from others extend the block that their certificate names. -/
theorem Block.parentId_of_validateSignature {block : Block}
    (validated : block.validateSignature v = .ok ()) :
    block.blockData.parentId = block.quorumCert.certifiedBlock.id := by
  unfold Block.validateSignature at validated
  unfold BlockData.parentId
  cases kind : block.blockData.blockType with
  | dagBlock author failedAuthors validatorTxns payload nodeDigests parentBlockId parents =>
    rw [kind] at validated
    cases validated
  | _ => rfl

namespace Committee

variable (C : Committee) (run : Schedule)

/-! ## What votes rest on -/

/-- The honest members of a quorum have released votes on `b`, as far as the digest goes. -/
def Certified (b : BlockInfo) : Prop :=
  ∃ voteData : VoteData, voteData.proposed = b ∧ C.QuorumReleased run fun message =>
    ∃ li, message = .ledgerInfo li ∧ li.consensusDataHash = voteData.hash

/-- What a vote of an honest validator rests on: a block with the digest it names, a certified
parent, and a round that follows the parent or a timeout certificate. -/
structure Grounded (vote : Vote) : Prop where
  block : ∃ data : BlockData, data.hash = vote.voteData.proposed.id ∧ data.round = vote.round ∧
    data.parentId = vote.voteData.parent.id
  later : vote.voteData.parent.round < vote.round
  ledgerInfo : vote.ledgerInfo =
    ⟨if vote.voteData.parent.round + 1 = vote.round then vote.voteData.parent else .empty,
      vote.voteData.hash⟩
  certified : 0 < vote.voteData.parent.round → C.Certified run vote.voteData.parent
  safe : vote.round = vote.voteData.parent.round + 1 ∨
    ∃ epoch t, vote.round = t + 1 ∧ C.QuorumReleased run fun message =>
      ∃ q, message = .timeout ⟨epoch, t, q⟩ ∧ q ≤ vote.voteData.parent.round

/-- What an order vote of an honest validator rests on. -/
structure OrderGrounded (proposal : OrderVoteProposal) (vote : OrderVote) : Prop where
  ledgerInfo : vote.ledgerInfo = ⟨proposal.quorumCert.certifiedBlock, .zero⟩
  id : proposal.quorumCert.certifiedBlock.id = proposal.block.id
  certified : 0 < proposal.quorumCert.certifiedBlock.round →
    C.Certified run proposal.quorumCert.certifiedBlock

variable {C run} {v w : AccountAddress} {call : Call}

theorem Certified.snoc {b : BlockInfo} (certified : C.Certified run b) :
    C.Certified (run ++ [(v, call)]) b := by
  obtain ⟨voteData, proposed, released⟩ := certified
  exact ⟨voteData, proposed, released.snoc⟩

theorem Grounded.snoc {vote : Vote} (grounded : C.Grounded run vote) :
    C.Grounded (run ++ [(v, call)]) vote where
  block := grounded.block
  later := grounded.later
  ledgerInfo := grounded.ledgerInfo
  certified pos := (grounded.certified pos).snoc
  safe := by
    rcases grounded.safe with next | ⟨epoch, t, next, released⟩
    · exact .inl next
    · exact .inr ⟨epoch, t, next, released.snoc⟩

theorem OrderGrounded.snoc {proposal : OrderVoteProposal} {vote : OrderVote}
    (grounded : C.OrderGrounded run proposal vote) :
    C.OrderGrounded (run ++ [(v, call)]) proposal vote :=
  ⟨grounded.ledgerInfo, grounded.id, fun pos => (grounded.certified pos).snoc⟩

/-- An accepted certificate of positive round. -/
theorem certified_of_verify {qc : QuorumCert} (nonempty : C.validators ≠ [])
    (verified : qc.verify C.verifier = .ok ())
    (unforged : C.NotForged run qc.signedLedgerInfo.signatures)
    (pos : 0 < qc.certifiedBlock.round) : C.Certified run qc.certifiedBlock := by
  obtain ⟨hash, signed⟩ := qc.verify_ok verified pos
  obtain ⟨S, quorum, released⟩ := multi_signed nonempty signed unforged
  refine ⟨qc.voteData, rfl, S, quorum, ?_⟩
  intro w mem honest
  obtain ⟨message, same, done⟩ := released w mem honest
  exact ⟨message, ⟨qc.ledgerInfo, same, hash⟩, done⟩

/-- An accepted timeout certificate: a quorum gave up its round, none of its honest members
with a certificate later than the one the timeout certificate carries. -/
theorem released_of_tc_verify {tc : TwoChainTimeoutCertificate} (nonempty : C.validators ≠ [])
    (verified : tc.verify C.verifier = .ok ())
    (unforged : C.NotForged run tc.signaturesWithRounds.sig) :
    C.QuorumReleased run fun message =>
      ∃ q, message = .timeout ⟨tc.epoch, tc.round, q⟩ ∧ q ≤ tc.highestHqcRound := by
  obtain ⟨signed, highest⟩ := tc.verify_parts verified
  obtain ⟨S, quorum, released⟩ := aggregate_signed nonempty signed unforged
  refine ⟨S, quorum, ?_⟩
  intro w mem honest
  obtain ⟨message, inMessages, done⟩ := released w mem honest
  obtain ⟨repr, inReprs, rfl⟩ := mem_map.mp inMessages
  obtain ⟨voter, inVoters, rfl⟩ := mem_map.mp inReprs
  exact ⟨_, ⟨voter.2, rfl, (max?_eq_some_iff.mp highest).2 _ (of_mem_zip inVoters).2⟩, done⟩

/-! ## Every release is grounded -/

variable (C run)

/-- What holds of the instance of an honest validator during a run. -/
structure StateOk (s : SafetyRules) : Prop where
  skipSigVerify : s.skipSigVerify = false
  epochState : s.epochState = some ⟨C.epoch, C.verifier⟩
  epoch : s.stored.epoch = C.epoch
  invariant : s.Invariant
  lastVote : ∀ vote, s.stored.lastVote = some vote → C.Grounded run vote

/-- What holds of what an honest validator returns. -/
structure EventOk (e : Run.Event) : Prop where
  vote : ∀ vote, e.response = .ok (.vote vote) → C.Grounded run vote
  orderVote : ∀ vote, e.response = .ok (.orderVote vote) →
    ∃ proposal, e.request.1 = .constructAndSignOrderVote proposal ∧
      C.OrderGrounded run proposal vote

variable {C run} {s : SafetyRules}

omit [Crypto] in
theorem verified_elim {P : ValidatorVerifier → Prop}
    (skip : s.skipSigVerify = false) (state : s.epochState = some ⟨C.epoch, C.verifier⟩)
    (verified : s.Verified P) : P C.verifier := by
  obtain ⟨state', found, holds⟩ := verified skip
  rw [state] at found
  cases found
  exact holds

theorem grounded_of_fresh {data data' : SafetyData} {now : Nat}
    {proposal : VoteProposal} {timeoutCert : Option TwoChainTimeoutCertificate} {vote : Vote}
    (nonempty : C.validators ≠ [])
    (skip : s.skipSigVerify = false) (state : s.epochState = some ⟨C.epoch, C.verifier⟩)
    (proposalOk : ProposalOk s now proposal vote.voteData)
    (tcOk : ∀ tc, timeoutCert = some tc → s.Verified fun v => tc.verify v = .ok ())
    (fresh : FreshVote data proposal timeoutCert vote data')
    (unforged : ∀ agg ∈ (Request.constructAndSignVoteTwoChain now proposal timeoutCert).signatures,
      C.NotForged run agg) : C.Grounded run vote := by
  obtain ⟨parent, stateId, version, proposed⟩ := genVoteData_ok fresh.voteData
  have round := fresh.round
  have later := BlockData.round_of_verifyWellFormed proposalOk.wellFormed
  have qc := verified_elim skip state proposalOk.qc
  have signature := verified_elim skip state proposalOk.signature
  refine ⟨⟨proposal.block.blockData, ?_, round.symm, ?_⟩, ?_, ?_, ?_, ?_⟩
  · rw [proposed]
    rfl
  · rw [parent]
    exact Block.parentId_of_validateSignature signature
  · rw [parent, round]
    exact later
  · rw [parent, round]
    exact constructLedgerInfo2chain_ok fresh.ledgerInfo
  · rw [parent]
    exact certified_of_verify nonempty qc (unforged _ mem_cons_self)
  rw [parent, round]
  rcases safeToVote_ok fresh.safe later with next | ⟨tc, found, next, le⟩
  · exact .inl next
  refine .inr ⟨tc.epoch, tc.round, next, ?_⟩
  have carried : tc.signaturesWithRounds.sig ∈
      (Request.constructAndSignVoteTwoChain now proposal timeoutCert).signatures := by
    rw [found]
    simp [Request.signatures, tcSignatures]
  obtain ⟨S, quorum, released⟩ := released_of_tc_verify nonempty
    (verified_elim skip state (tcOk tc found)) (unforged _ carried)
  refine ⟨S, quorum, ?_⟩
  intro w mem honest
  obtain ⟨message, ⟨q, same, low⟩, done⟩ := released w mem honest
  exact ⟨message, ⟨q, same, low.trans le⟩, done⟩

theorem StateOk.of_frame {s' : SafetyRules} (ok : C.StateOk run s) (frame : Frame s s')
    (invariant : s'.Invariant) (epoch : s'.stored.epoch = s.stored.epoch)
    (lastVote : ∀ vote, s'.stored.lastVote = some vote → C.Grounded run vote) :
    C.StateOk run s' :=
  ⟨frame.skipSigVerify.trans ok.skipSigVerify, frame.epochState.trans ok.epochState,
    epoch.trans ok.epoch, invariant, lastVote⟩

/-- One request keeps the instance in order and returns only what is grounded. -/
theorem StateOk.step (ok : C.StateOk run s) (nonempty : C.validators ≠ [])
    {request : Request} (outcomes : List StorageOutcome) (signs : request.Signs)
    (unforged : ∀ agg ∈ request.signatures, C.NotForged run agg) :
    C.StateOk run (step (request, outcomes) s).2 ∧
      C.EventOk run ⟨s, (request, outcomes), (step (request, outcomes) s).1,
        (step (request, outcomes) s).2⟩ := by
  have invariant := (step_answered ok.invariant (request, outcomes)).invariant
  have coherent : (s.withOutcomes outcomes).Coherent := ok.invariant.coherent
  have ok : C.StateOk run (s.withOutcomes outcomes) :=
    ⟨ok.skipSigVerify, ok.epochState, ok.epoch, ⟨coherent, ok.invariant.sound⟩, ok.lastVote⟩
  cases request with
  | initializeWith proof | signProposal blockData | signCommitVote ledgerInfo newLedgerInfo
  | restart enableCachedSafetyData skipSigVerify =>
    exact absurd signs id
  | constructAndSignVoteTwoChain now proposal timeoutCert =>
    obtain ⟨outcome, s', stepped, voted⟩ := step_vote coherent now proposal timeoutCert
    rw [stepped] at invariant ⊢
    rcases voted.result with ⟨stored, returned⟩ | ⟨vote, proposalOk, tcOk, fresh, returned⟩
    · refine ⟨ok.of_frame voted.toFrame invariant (congrArg _ stored) ?_, ?_, ?_⟩
      · rw [stored]
        exact ok.lastVote
      · intro vote response
        obtain ⟨vote', found, same⟩ := map_eq_ok.mp response
        cases same
        exact ok.lastVote vote (returned vote found).1
      · intro vote response
        exact absurd response (map_ne_ok nofun)
    · have grounded := grounded_of_fresh nonempty ok.skipSigVerify ok.epochState proposalOk tcOk
        fresh unforged
      refine ⟨ok.of_frame voted.toFrame invariant fresh.sameEpoch.symm ?_, ?_, ?_⟩
      · intro vote' found
        rw [fresh.lastVote] at found
        cases found
        exact grounded
      · intro vote' response
        obtain ⟨vote'', found, same⟩ := map_eq_ok.mp response
        cases same
        rw [returned _ found]
        exact grounded
      · intro vote' response
        exact absurd response (map_ne_ok nofun)
  | constructAndSignOrderVote proposal =>
    obtain ⟨outcome, s', stepped, voted⟩ := step_orderVote coherent proposal
    rw [stepped] at invariant ⊢
    rcases voted.result with ⟨stored, none⟩ | ⟨proposalOk, -, stored, returned⟩
    · refine ⟨ok.of_frame voted.toFrame invariant (congrArg _ stored) ?_, ?_, ?_⟩
      · rw [stored]
        exact ok.lastVote
      · intro vote response
        exact absurd response (map_ne_ok nofun)
      · intro vote response
        obtain ⟨vote', found, -⟩ := map_eq_ok.mp response
        exact absurd found (none vote')
    · rw [SafetyData.observeQc_eq] at stored
      refine ⟨ok.of_frame voted.toFrame invariant (by rw [stored]) ?_, ?_, ?_⟩
      · rw [stored]
        exact ok.lastVote
      · intro vote response
        exact absurd response (map_ne_ok nofun)
      intro vote response
      obtain ⟨vote', found, same⟩ := map_eq_ok.mp response
      cases same
      refine ⟨proposal, rfl, ?_, proposalOk.id, ?_⟩
      · rw [returned vote found, proposalOk.blockInfo]
      · exact certified_of_verify nonempty
          (verified_elim ok.skipSigVerify ok.epochState proposalOk.qc)
          (unforged _ mem_cons_self)
  | signTimeoutWithQc timeout timeoutCert =>
    obtain ⟨outcome, s', stepped, timedOut⟩ := step_timeout coherent timeout timeoutCert
    rw [stepped] at invariant ⊢
    refine ⟨?_, ?_, ?_⟩
    · rcases timedOut.result with ⟨stored, -⟩ | ⟨-, -, recorded⟩
      · exact ok.of_frame timedOut.toFrame invariant (congrArg _ stored)
          fun vote found => ok.lastVote vote (stored ▸ found)
      obtain ⟨-, stored⟩ := recordTimeout_ok recorded
      refine ok.of_frame timedOut.toFrame invariant (by rw [stored]) ?_
      rw [stored]
      exact ok.lastVote
    all_goals
      intro vote response
      exact absurd response (map_ne_ok nofun)

/-- What holds at every point of a run. -/
structure Sound (C : Committee) (run : Schedule) : Prop where
  state : ∀ v, C.Honest v → C.StateOk run (C.state run v)
  event : ∀ v, C.Honest v → ∀ e ∈ C.log run v, C.EventOk run e

theorem StateOk.snoc (ok : C.StateOk run s) : C.StateOk (run ++ [(v, call)]) s :=
  { ok with lastVote := fun vote found => (ok.lastVote vote found).snoc }

variable {e : Run.Event}

theorem EventOk.snoc (ok : C.EventOk run e) : C.EventOk (run ++ [(v, call)]) e where
  vote vote response := (ok.vote vote response).snoc
  orderVote vote response := by
    obtain ⟨proposal, request, grounded⟩ := ok.orderVote vote response
    exact ⟨proposal, request, grounded.snoc⟩

omit [Crypto] in
theorem Honest.invariant (honest : C.Honest v) : (C.start v).Invariant :=
  ⟨honest.ready.coherent, honest.ready.stored ▸ SafetyData.start_sound _⟩

/-- Whatever an honest validator releases or has on record is grounded. -/
theorem Runs.sound (runs : C.Runs run) : C.Sound run := by
  induction runs with
  | nil =>
    refine ⟨?_, ?_⟩
    · intro v honest
      have ready := honest.ready
      refine ⟨ready.skipSigVerify, ready.epochState, congrArg SafetyData.epoch ready.stored,
        honest.invariant, ?_⟩
      intro vote found
      have found : (C.start v).stored.lastVote = some vote := found
      rw [ready.stored] at found
      cases found
    · intro v _ e mem
      cases mem
  | @snoc run v request outcomes _ honest signs unforged ih =>
    obtain ⟨stateOk, eventOk⟩ := (ih.state v honest).step
      honest.validators_ne_nil outcomes signs unforged
    refine ⟨?_, ?_⟩
    · intro w honestW
      by_cases same : v = w
      · subst same
        rw [state_snoc_self]
        exact stateOk.snoc
      · rw [state_snoc_other same]
        exact (ih.state w honestW).snoc
    · intro w honestW e mem
      rcases of_mem_log_snoc mem with old | ⟨rfl, rfl⟩
      · exact (ih.event w honestW e old).snoc
      · exact eventOk.snoc

theorem Runs.grounded (runs : C.Runs run) (honest : C.Honest v) {vote : Vote}
    (voted : C.Voted run v vote) : C.Grounded run vote := by
  obtain ⟨e, mem, response⟩ := voted
  exact (runs.sound.event v honest e mem).vote vote response

theorem Runs.orderGrounded (runs : C.Runs run) (honest : C.Honest v) {vote : OrderVote}
    (voted : C.OrderVoted run v vote) : ∃ proposal, C.OrderGrounded run proposal vote := by
  obtain ⟨e, mem, response⟩ := voted
  obtain ⟨proposal, -, grounded⟩ := (runs.sound.event v honest e mem).orderVote vote response
  exact ⟨proposal, grounded⟩

/-! ## The run as an instance of the two-chain protocol -/

/-- Two events of a validator are ordered in time. -/
theorem Honest.order (honest : C.Honest v) {e' : Run.Event} (mem : e ∈ C.log run v)
    (mem' : e' ∈ C.log run v) : e = e' ∨ Precedes e e' ∨ Precedes e' e := by
  have precedes : (C.log run v).Pairwise Precedes := trace_precedes honest.invariant _
  refine Pairwise.forall_of_forall_of_flip
    (R := fun e e' => e = e' ∨ Precedes e e' ∨ Precedes e' e) (fun _ _ => .inl rfl)
    (precedes.imp ?_) (precedes.imp ?_) mem mem'
  · intro a b before
    exact .inr (.inl before)
  · intro a b before
    exact .inr (.inr before)

theorem Honest.answered (honest : C.Honest v) (mem : e ∈ C.log run v) :
    Answered e.before e.request.1 e.response e.after :=
  trace_answered honest.invariant _ e mem

/-- The state around an event belongs to the epoch. -/
theorem Runs.epoch_of_mem (runs : C.Runs run) (honest : C.Honest v)
    (mem : e ∈ C.log run v) : e.after.stored.epoch = C.epoch := by
  induction runs with
  | nil => cases mem
  | @snoc run v' request outcomes runs' honest' signs unforged ih =>
    rcases of_mem_log_snoc mem with old | ⟨rfl, rfl⟩
    · exact ih old
    · have ok := (runs'.sound.state v honest).step honest.validators_ne_nil outcomes signs unforged
      exact ok.1.epoch

section Instance

variable (free : CollisionFree) (runs : C.Runs run)

include free runs

/-- A release that carries the digest of vote data is a vote with these data. -/
theorem voted_of_released (honest : C.Honest w) {li : LedgerInfo} {voteData : VoteData}
    (released : C.Released run w (.ledgerInfo li))
    (hash : li.consensusDataHash = voteData.hash) :
    ∃ vote, C.Voted run w vote ∧ vote.voteData = voteData := by
  cases released with
  | vote voted =>
    rw [(runs.grounded honest voted).ledgerInfo] at hash
    exact ⟨_, voted, free.voteData hash⟩
  | orderVote voted =>
    obtain ⟨proposal, grounded⟩ := runs.orderGrounded honest voted
    rw [grounded.ledgerInfo] at hash
    exact absurd hash.symm (free.voteData_ne_zero voteData)

theorem Certified.voted {b : BlockInfo} (certified : C.Certified run b) :
    ∃ g S, C.Quorum S ∧ ∀ w ∈ S, C.Honest w →
      ∃ vote, C.Voted run w vote ∧ vote.voteData = ⟨b, g⟩ := by
  obtain ⟨voteData, rfl, S, quorum, released⟩ := certified
  refine ⟨voteData.parent, S, quorum, ?_⟩
  intro w mem honest
  obtain ⟨_, ⟨li, rfl, hash⟩, done⟩ := released w mem honest
  exact voted_of_released free runs honest done hash

/-- A certified block info names a block with its digest and round. -/
theorem Certified.block {b : BlockInfo} (certified : C.Certified run b) :
    ∃ data : BlockData, data.hash = b.id ∧ data.round = b.round := by
  obtain ⟨g, S, quorum, votes⟩ := certified.voted free runs
  obtain ⟨w, mem, -, honest⟩ := exists_honest_mem quorum quorum
  obtain ⟨vote, voted, same⟩ := votes w mem honest
  obtain ⟨data, hash, round, -⟩ := (runs.grounded honest voted).block
  unfold Vote.round at round
  rw [same] at hash round
  exact ⟨data, hash, round⟩

theorem vote_unique (honest : C.Honest v) {vote vote' : Vote} (voted : C.Voted run v vote)
    (voted' : C.Voted run v vote') (round : vote.round = vote'.round) :
    vote.voteData = vote'.voteData := by
  have grounded := runs.grounded honest voted
  have grounded' := runs.grounded honest voted'
  obtain ⟨e, mem, response⟩ := voted
  obtain ⟨e', mem', response'⟩ := voted'
  have epoch := runs.epoch_of_mem honest mem
  have epoch' := runs.epoch_of_mem honest mem'
  have answered := honest.answered mem
  have answered' := honest.answered mem'
  have voteEpoch := (answered.invariant.sound vote (answered.vote vote response)).1
  have voteEpoch' := (answered'.invariant.sound vote' (answered'.vote vote' response')).1
  have sameEpoch : vote.epoch = vote'.epoch := by omega
  have sameInfo : vote.ledgerInfo = vote'.ledgerInfo := by
    rcases honest.order mem mem' with rfl | before | after
    · rw [response] at response'
      cases response'
      rfl
    · exact before.sameVote vote vote' response response' sameEpoch round
    · exact (after.sameVote vote' vote response' response sameEpoch.symm round.symm).symm
  rw [grounded.ledgerInfo, grounded'.ledgerInfo] at sameInfo
  exact free.voteData (congrArg LedgerInfo.consensusDataHash sameInfo)

variable {timeout : TwoChainTimeout}

omit free in
theorem vote_timeout (honest : C.Honest v) {vote : Vote} (voted : C.Voted run v vote)
    (timedOut : C.TimedOut run v timeout)
    (le : vote.round ≤ timeout.round) : vote.voteData.parent.round ≤ timeout.hqcRound := by
  obtain ⟨e, mem, response⟩ := voted
  obtain ⟨e', mem', timesOut⟩ := timedOut
  obtain ⟨timeoutCert, signature, request', response'⟩ := timesOut
  have answered := honest.answered mem
  have answered' := honest.answered mem'
  have voteEpoch := (answered.invariant.sound vote (answered.vote vote response)).1
  have epoch := runs.epoch_of_mem honest mem
  have epoch' := runs.epoch_of_mem honest mem'
  obtain ⟨before', after', covered, -⟩ :=
    answered'.timeout timeout timeoutCert signature request' response'
  have sameEpoch : timeout.epoch = vote.epoch := by omega
  rcases honest.order mem mem' with rfl | before | after
  · rw [response] at response'
    cases response'
  · exact before.timeoutCovers _ _ timeout (.vote response rfl rfl)
      ⟨timeoutCert, signature, request', response'⟩ sameEpoch
  · -- the vote is the one that was on record when the timeout was signed
    have recorded := after.timeoutBars.vote timeout vote
      ⟨timeoutCert, signature, request', response'⟩ response sameEpoch.symm le
    exact (answered'.invariant.sound vote recorded).2.2.trans covered

theorem order_timeout (honest : C.Honest v) {vote : OrderVote} (voted : C.OrderVoted run v vote)
    (timedOut : C.TimedOut run v timeout) (le : vote.ledgerInfo.commitInfo.round ≤ timeout.round) :
    vote.ledgerInfo.commitInfo.round ≤ timeout.hqcRound := by
  obtain ⟨e, mem, response⟩ := voted
  obtain ⟨e', mem', timesOut⟩ := timedOut
  obtain ⟨timeoutCert, signature, request', response'⟩ := timesOut
  obtain ⟨proposal, request, grounded⟩ := (runs.sound.event v honest e mem).orderVote vote response
  have answered := honest.answered mem
  have answered' := honest.answered mem'
  have epoch := runs.epoch_of_mem honest mem
  have epoch' := runs.epoch_of_mem honest mem'
  obtain ⟨before, after, -⟩ := answered.orderVote proposal vote request response
  obtain ⟨before', after', -⟩ := answered'.timeout timeout timeoutCert signature request' response'
  have sameEpoch : timeout.epoch = proposal.block.epoch := by omega
  rw [grounded.ledgerInfo] at le ⊢
  rcases honest.order mem mem' with rfl | earlier | later
  · rw [response] at response'
    cases response'
  · exact earlier.timeoutCovers _ _ timeout (.orderVote ⟨request, response⟩ rfl rfl)
      ⟨timeoutCert, signature, request', response'⟩ sameEpoch
  have barred := later.timeoutBars.orderVote timeout proposal vote
    ⟨timeoutCert, signature, request', response'⟩ ⟨request, response⟩ sameEpoch.symm
  rcases eq_zero_or_pos proposal.quorumCert.certifiedBlock.round with zero | pos
  · exact zero ▸ Nat.zero_le _
  -- the certified block info has the round of the block with its digest
  obtain ⟨data, hash, round⟩ := (grounded.certified pos).block free runs
  have sameRound := BlockData.hashInput_round (free.block (hash.trans grounded.id))
  have blockRound : proposal.block.round = proposal.quorumCert.certifiedBlock.round :=
    sameRound.symm.trans round
  exact absurd (blockRound ▸ le) barred.not_ge

/-- The run of a committee as an instance of the abstract protocol. -/
def twoChain : TwoChain AccountAddress BlockInfo where
  honest := C.Honest
  quorum S := ∃ T : Finset AccountAddress, C.Quorum T ∧ S = ↑T
  round := BlockInfo.round
  voted v b p := ∃ vote, C.Voted run v vote ∧ vote.voteData = ⟨b, p⟩
  orderVoted v b := ∃ vote, C.OrderVoted run v vote ∧ vote.ledgerInfo.commitInfo = b
  timedOut v t q := ∃ timeout, C.TimedOut run v timeout ∧ timeout.round = t ∧
    timeout.hqcRound = q
  intersect := by
    intro S T left right
    obtain ⟨S, quorumS, rfl⟩ := left
    obtain ⟨T, quorumT, rfl⟩ := right
    exact exists_honest_mem quorumS quorumT
  vote_unique := by
    intro v b p b' p' honest left right same
    obtain ⟨vote, voted, data⟩ := left
    obtain ⟨vote', voted', data'⟩ := right
    have round : vote.round = vote'.round := by
      unfold Vote.round
      rw [data, data']
      exact same
    have equal := vote_unique free runs honest voted voted' round
    rw [data, data'] at equal
    cases equal
    exact ⟨rfl, rfl⟩
  vote_timeout := by
    intro v b p t q honest left right le
    obtain ⟨vote, voted, data⟩ := left
    obtain ⟨timeout, timedOut, rfl, rfl⟩ := right
    have covered := vote_timeout runs honest voted timedOut (by unfold Vote.round; rw [data]; exact le)
    rw [data] at covered
    exact covered
  order_timeout := by
    intro v b t q honest left right le
    obtain ⟨vote, voted, rfl⟩ := left
    obtain ⟨timeout, timedOut, rfl, rfl⟩ := right
    exact order_timeout free runs honest voted timedOut le
  vote_round := by
    intro v b p honest left
    obtain ⟨vote, voted, data⟩ := left
    have later := (runs.grounded honest voted).later
    unfold Vote.round at later
    rw [data] at later
    exact later
  vote_parent := by
    intro v b p honest left pos
    obtain ⟨vote, voted, data⟩ := left
    have certified := (runs.grounded honest voted).certified
    rw [data] at certified
    obtain ⟨g, S, quorum, votes⟩ := (certified pos).voted free runs
    exact ⟨g, ↑S, ⟨S, quorum, rfl⟩, votes⟩
  vote_safe := by
    intro v b p honest left
    obtain ⟨vote, voted, data⟩ := left
    have safe := (runs.grounded honest voted).safe
    unfold Vote.round at safe
    rw [data] at safe
    rcases safe with next | ⟨epoch, t, next, S, quorum, released⟩
    · exact .inl next
    refine .inr ⟨t, ↑S, ⟨S, quorum, rfl⟩, next, ?_⟩
    intro w inS honestW
    obtain ⟨message, ⟨q, same, low⟩, done⟩ := released w inS honestW
    subst same
    generalize format : (⟨epoch, t, q⟩ : TimeoutSigningRepr) = repr at done
    cases done with
    | timeout timedOut =>
      cases format
      exact ⟨_, ⟨_, timedOut, rfl, rfl⟩, low⟩
  order_certified := by
    intro v b honest left pos
    obtain ⟨vote, voted, rfl⟩ := left
    obtain ⟨proposal, grounded⟩ := runs.orderGrounded honest voted
    rw [grounded.ledgerInfo] at pos ⊢
    obtain ⟨g, S, quorum, votes⟩ := (grounded.certified pos).voted free runs
    exact ⟨g, ↑S, ⟨S, quorum, rfl⟩, votes⟩

end Instance

/-! ## Decided blocks -/

variable (C) in
/-- A quorum voted with ledger infos that commit `b`, or order voted for `b`. -/
def Decided (run : Schedule) (b : BlockInfo) : Prop :=
  (∃ S, C.Quorum S ∧ ∀ v ∈ S, C.Honest v →
    ∃ vote, C.Voted run v vote ∧ vote.ledgerInfo.commitInfo = b) ∨
  ∃ S, C.Quorum S ∧ ∀ v ∈ S, C.Honest v →
    ∃ vote, C.OrderVoted run v vote ∧ vote.ledgerInfo.commitInfo = b

/-- A block with digest `child` names `parent`. -/
def ParentOf (parent child : HashValue) : Prop :=
  ∃ data : BlockData, data.hash = child ∧ data.parentId = parent

/-- `Ancestor a b`: block `a` is `b` or lies below it. -/
def Ancestor : HashValue → HashValue → Prop := Relation.ReflTransGen ParentOf

section Instance

variable (free : CollisionFree) (runs : C.Runs run)

theorem decided_twoChain {b : BlockInfo} (decided : C.Decided run b) (pos : 0 < b.round) :
    (twoChain free runs).Decided b := by
  rcases decided with ⟨S, quorum, votes⟩ | ⟨S, quorum, votes⟩
  · refine .inl ⟨↑S, ⟨S, quorum, rfl⟩, ?_⟩
    intro v mem honest
    obtain ⟨vote, voted, commits⟩ := votes v mem honest
    rw [(runs.grounded honest voted).ledgerInfo] at commits
    split at commits
    · rename_i next
      refine ⟨vote.voteData.proposed, ⟨vote, voted, ?_⟩, ?_⟩
      · rw [← commits]
      · rw [← commits]
        exact next.symm
    · rw [← commits] at pos
      exact absurd pos (lt_irrefl 0)
  · exact .inr ⟨↑S, ⟨S, quorum, rfl⟩, votes⟩

theorem ancestor_of_chain {b a : BlockInfo} (chain : (twoChain free runs).Chain b a) :
    Ancestor a.id b.id := by
  induction chain with
  | refl b => exact .refl
  | step certified _ ih =>
    obtain ⟨v, honest, vote, voted, data⟩ := certified.exists_voted
    obtain ⟨block, hash, -, parent⟩ := (runs.grounded honest voted).block
    rw [data] at hash parent
    exact ih.tail ⟨block, hash, parent⟩

end Instance

/-- **Agreement.**  In every run, of two decided blocks of positive round one is an ancestor
of the other. -/
theorem decided_on_one_chain (free : CollisionFree) (runs : C.Runs run) {b b' : BlockInfo}
    (decided : C.Decided run b) (decided' : C.Decided run b') (pos : 0 < b.round)
    (pos' : 0 < b'.round) : Ancestor b.id b'.id ∨ Ancestor b'.id b.id := by
  rcases TwoChain.agreement (decided_twoChain free runs decided pos)
    (decided_twoChain free runs decided' pos') pos pos' with chain | chain
  · exact .inl (ancestor_of_chain free runs chain)
  · exact .inr (ancestor_of_chain free runs chain)

end Committee

end Protocol

/-! ## Four validators

The votes of three of them on a chain of three blocks decide the first two.  Their order votes on
two certificates of round 0 decide two blocks that have nothing in common. -/

namespace FourValidators

instance countable_byte : Countable (BitVec 8) :=
  Function.Injective.countable (f := BitVec.toNat) fun _ _ => BitVec.eq_of_toNat_eq

deriving instance Countable for ValidatorConsensusInfo, ValidatorVerifier, EpochState, BlockInfo,
  LedgerInfo, Bitvec, AggregateSignature, LedgerInfoWithSignatures, VoteData, QuorumCert,
  BatchInfo, ProofOfStore, PayloadExecutionLimit, Payload, BlockType, BlockData, BlockHashInput,
  TimeoutSigningRepr, SignedMessage

def info (round id : Nat) : BlockInfo := ⟨1, round, id, 0, 0, 0, none⟩

variable (round : Nat)

/-- Votes on the chain: the digest of the vote on round `r` is `r + 1`. -/
def voteData : VoteData := ⟨info round round, info (round - 1) (round - 1)⟩

def ledgerInfo : LedgerInfo := ⟨info (round - 1) (round - 1), round + 1⟩

/-- The certificate of a round of the chain, by the first three validators; the one of round 0 is
the genesis certificate. -/
def certificate : QuorumCert :=
  ⟨voteData round, ⟨ledgerInfo round,
    if round = 0 then ⟨⟨[]⟩, none⟩ else ⟨⟨[224]⟩, some (7 * 16 ^ round)⟩⟩⟩

def block : Block := ⟨⟨1, round, 0, certificate (round - 1), .nilBlock []⟩, none⟩

/-- A block outside the chain, told apart by its round. -/
def stray : Block := ⟨⟨1, round, 0, certificate 0, .nilBlock []⟩, none⟩

/-- A certificate of round 0 for a digest. -/
def forged (id : Nat) : QuorumCert := ⟨⟨info 0 id, info 0 id⟩, ⟨⟨info 0 id, id + 1⟩, ⟨⟨[]⟩, none⟩⟩⟩

/-- What keys are multiplied with: sums of keys below 16 are digits of a signature. -/
noncomputable def tag (message : SignedMessage) : Nat :=
  16 ^ Digest.table [.ledgerInfo (ledgerInfo 1), .ledgerInfo (ledgerInfo 2)] message

noncomputable local instance crypto : Crypto where
  voteDataHash := Digest.table
    [voteData 0, voteData 1, voteData 2, voteData 3, (forged 4).voteData, (forged 5).voteData]
  blockDataHash := Digest.table [(block 1).blockData.hashInput, (block 2).blockData.hashInput,
    (block 3).blockData.hashInput, (stray 7).blockData.hashInput, (stray 8).blockData.hashInput]
  ledgerInfoHash _ := 0
  waypointHash _ := 0
  accumulator := ⟨fun left right => left + right + 1, 0⟩
  bls := { Bls.linear tag with verifyAggregate := fun _ _ _ => false }
  publicKey key := key
  sign key message := some (key * tag message)

theorem collisionFree : CollisionFree where
  block := Digest.table_injective _
  voteData := Digest.table_injective _
  voteData_ne_zero := Digest.table_ne_zero _

/-- No two sets of validators have the same sum of keys. -/
def validators : List ValidatorConsensusInfo := [⟨1, 1, 1⟩, ⟨2, 2, 1⟩, ⟨3, 4, 1⟩, ⟨4, 8, 1⟩]

def signer (address : AccountAddress) : SafetyRules where
  persistentStorage := ⟨true, none, ⟨.start 1, ⟨0, 0⟩, address, some (2 ^ (address - 1)), [], []⟩⟩
  validatorSigner := some ⟨address, 2 ^ (address - 1)⟩
  epochState := some ⟨1, .new validators⟩
  skipSigVerify := false

def committee : Committee where
  epoch := 1
  validators := validators
  distinct := by decide
  faulty := ∅
  few := by decide
  start := signer
  ready := by
    intro _ _ _
    refine ⟨rfl, rfl, rfl, ?_⟩
    intro data impossible
    cases impossible

/-- The request to vote on the block of a round. -/
def voteCall : Call :=
  (.constructAndSignVoteTwoChain 0 ⟨⟨[], 0, []⟩, block round, none, true⟩ none, [])

/-- The request to order vote on a stray block by a certificate of round 0. -/
def orderCall (round id : Nat) : Call :=
  (.constructAndSignOrderVote ⟨stray round, info 0 id, forged id⟩, [])

/-- The first three validators are asked the same. -/
def asked (call : Call) : Committee.Schedule := [(1, call), (2, call), (3, call)]

abbrev three : Finset AccountAddress := {1, 2, 3}

theorem quorum : committee.Quorum three := ⟨by decide, by decide⟩

variable {v : AccountAddress}

theorem one_of_three (mem : v ∈ three) : v = 1 ∨ v = 2 ∨ v = 3 := by
  simpa using mem

theorem same_digit {k k' d d' : Nat} (small : k < 16) (positive : 0 < k')
    (same : k * 16 ^ d = k' * 16 ^ d') : d' ≤ d := by
  refine not_lt.mp fun lower => ?_
  have below : k * 16 ^ d < k' * 16 ^ d' :=
    calc k * 16 ^ d < 16 * 16 ^ d := Nat.mul_lt_mul_of_pos_right small (by positivity)
      _ = 16 ^ (d + 1) := (Nat.pow_succ').symm
      _ ≤ 16 ^ d' := Nat.pow_le_pow_right (by decide) lower
      _ ≤ k' * 16 ^ d' := Nat.le_mul_of_pos_left _ positive
  exact absurd same below.ne

/-- A sum of keys tells whose they are. -/
theorem signers_of_seven : ∀ signers ∈ validators.sublists, signers ≠ [] →
    0 < (signers.map (·.publicKey)).sum ∧ (signers.map (·.publicKey)).sum < 16 ∧
    ((signers.map (·.publicKey)).sum = 7 → ∀ info ∈ signers, ∀ other ∈ validators,
      other.publicKey = info.publicKey → other.address ∈ three) := by
  decide

variable {run : Committee.Schedule}

/-- The three validators' signature on what they have released is no forgery. -/
theorem unforged (message : SignedMessage)
    (released : ∀ v ∈ three, committee.Released run v message) :
    Unforged validators (committee.Signed run) (7 * tag message) := by
  constructor
  · intro message' key signers different keys verified info mem other listed owner _
    obtain ⟨chosen, perm, sublist⟩ := different
    have nonempty : signers ≠ [] := ne_nil_of_mem mem
    have sum : key = (chosen.map (·.publicKey)).sum := by
      have kept : (signers.map (·.publicKey)).isEmpty ≠ true := by simpa using nonempty
      have added := (if_neg kept).symm.trans keys
      rw [← Option.some.inj added, (perm.map _).sum_eq]
    have same : 7 * tag message = key * tag message' := beq_iff_eq.mp verified
    obtain ⟨positive, small, owners⟩ := signers_of_seven chosen (mem_sublists.mpr sublist)
      (ne_nil_of_mem (perm.mem_iff.mpr mem))
    rw [← sum] at positive small owners
    have digits := (same_digit (by decide) positive same).antisymm
      (same_digit small (by decide) same.symm)
    have alike := Digest.table_injective _ digits
    subst alike
    have seven : key = 7 := (Nat.eq_of_mul_eq_mul_right (by unfold tag; positivity) same).symm
    exact released _ (owners seven info (perm.mem_iff.mpr mem) other listed owner)
  · intro messages signers _ verified
    cases verified

/-- One more request to the three validators, with one aggregate signature. -/
theorem runs_asked {call : Call} {agg : AggregateSignature}
    (runs : committee.Runs run) (signs : call.1.Signs)
    (one : call.1.signatures = [agg]) (unforged : committee.NotForged run agg) :
    committee.Runs (run ++ asked call) := by
  have next : ∀ {run} {v : AccountAddress}, v ∈ validators.map (·.address) →
      committee.Runs run → committee.NotForged run agg → committee.Runs (run ++ [(v, call)]) := by
    intro run v mem runs unforged
    refine .snoc runs ⟨mem, Finset.notMem_empty v⟩ signs ?_
    rw [one]
    exact forall_mem_singleton.mpr unforged
  have first := next (v := 1) (by decide) runs unforged
  have second := next (v := 2) (by decide) first unforged.snoc
  have third := next (v := 3) (by decide) second unforged.snoc.snoc
  rwa [append_assoc, append_assoc] at third

def chain : Committee.Schedule := asked (voteCall 1) ++ asked (voteCall 2) ++ asked (voteCall 3)

/-- The vote of a validator on the block of a round. -/
noncomputable def vote (v : AccountAddress) : Vote :=
  .newWithSignature (voteData round) v (ledgerInfo round)
    (2 ^ (v - 1) * tag (.ledgerInfo (ledgerInfo round)))

theorem voted_one (mem : v ∈ three) : committee.Voted (asked (voteCall 1)) v (vote 1 v) := by
  rcases one_of_three mem with rfl | rfl | rfl
  all_goals exact ⟨_, .head _, rfl⟩

theorem voted_two (mem : v ∈ three) :
    committee.Voted (asked (voteCall 1) ++ asked (voteCall 2)) v (vote 2 v) := by
  rcases one_of_three mem with rfl | rfl | rfl
  all_goals exact ⟨_, .tail _ (.head _), rfl⟩

theorem chain_runs : committee.Runs chain := by
  have first : committee.Runs ([] ++ asked (voteCall 1)) := runs_asked .nil trivial rfl nofun
  have second : committee.Runs (asked (voteCall 1) ++ asked (voteCall 2)) := by
    refine runs_asked first trivial rfl ?_
    rintro sig ⟨⟩
    exact unforged (.ledgerInfo (ledgerInfo 1)) fun v mem => .vote (voted_one mem)
  refine runs_asked second trivial rfl ?_
  rintro sig ⟨⟩
  exact unforged (.ledgerInfo (ledgerInfo 2)) fun v mem => .vote (voted_two mem)

/-- The first two blocks of the chain are decided. -/
theorem chain_decided (round : Nat) (range : round = 1 ∨ round = 2) :
    committee.Decided chain (info round round) := by
  refine .inl ⟨three, quorum, ?_⟩
  intro v mem _
  rcases range with rfl | rfl
  · rcases one_of_three mem with rfl | rfl | rfl
    all_goals exact ⟨_, ⟨_, .tail _ (.head _), rfl⟩, rfl⟩
  · rcases one_of_three mem with rfl | rfl | rfl
    all_goals exact ⟨_, ⟨_, .tail _ (.tail _ (.head _)), rfl⟩, rfl⟩

theorem chain_agrees :
    Committee.Ancestor (info 1 1).id (info 2 2).id ∨
      Committee.Ancestor (info 2 2).id (info 1 1).id :=
  Committee.decided_on_one_chain collisionFree chain_runs (chain_decided 1 (.inl rfl))
    (chain_decided 2 (.inr rfl)) (by decide) (by decide)

def strays : Committee.Schedule := asked (orderCall 7 4) ++ asked (orderCall 8 5)

theorem stray_runs : committee.Runs strays := by
  have first : committee.Runs ([] ++ asked (orderCall 7 4)) := runs_asked .nil trivial rfl nofun
  exact runs_asked first trivial rfl nofun

theorem stray_decided (id : Nat) (range : id = 4 ∨ id = 5) :
    committee.Decided strays (info 0 id) := by
  refine .inr ⟨three, quorum, ?_⟩
  intro v mem _
  rcases range with rfl | rfl
  · rcases one_of_three mem with rfl | rfl | rfl
    all_goals exact ⟨_, ⟨_, .head _, rfl⟩, rfl⟩
  · rcases one_of_three mem with rfl | rfl | rfl
    all_goals exact ⟨_, ⟨_, .tail _ (.head _), rfl⟩, rfl⟩

theorem no_ancestor_of_zero {a : HashValue} (ancestor : Committee.Ancestor a 0) : a = 0 := by
  rcases Relation.ReflTransGen.cases_tail ancestor with same | ⟨parent, -, data, digest, -⟩
  · exact same.symm
  · exact absurd digest (Digest.table_ne_zero _ _)

/-- A stray block has the genesis digest 0 for a parent, which is no block's digest. -/
theorem stray_ancestor {round : Nat} {a : HashValue}
    (ancestor : Committee.Ancestor a (stray round).id) : a = (stray round).id ∨ a = 0 := by
  rcases Relation.ReflTransGen.cases_tail ancestor with same | ⟨parent, below, data, digest, names⟩
  · exact .inl same.symm
  have sameInput : data.hashInput = (stray round).blockData.hashInput :=
    Digest.table_injective _ digest
  have zero : parent = 0 := by
    unfold BlockData.hashInput at sameInput
    split at sameInput
    · cases sameInput
    · cases sameInput
      exact names.symm
  exact .inr (no_ancestor_of_zero (zero ▸ below))

/-- Both stray blocks are decided, and neither is an ancestor of the other. -/
theorem stray_disagree :
    committee.Runs strays ∧ committee.Decided strays (info 0 4) ∧
    committee.Decided strays (info 0 5) ∧
    ¬ (Committee.Ancestor 4 5 ∨ Committee.Ancestor 5 4) := by
  refine ⟨stray_runs, stray_decided 4 (.inl rfl), stray_decided 5 (.inr rfl), ?_⟩
  rintro (ancestor | ancestor)
  · have impossible : (4 : HashValue) = 5 ∨ _ := @stray_ancestor 8 4 ancestor
    exact absurd impossible (by decide)
  · have impossible : (5 : HashValue) = 4 ∨ _ := @stray_ancestor 7 5 ancestor
    exact absurd impossible (by decide)

end FourValidators

end CreditChain
