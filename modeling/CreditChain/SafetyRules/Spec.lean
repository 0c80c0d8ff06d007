import CreditChain.SafetyRules.Rules

/-!
# What each operation of the safety rules does

For every operation, one statement about its outcome and the state it leaves behind,
whatever the outcomes of the store accesses are.  The copy of the persisted record is
assumed to agree with the store beforehand (`Coherent`), and does so afterwards.

* `Reads m s P`: `m` leaves the record alone and returns only values that satisfy `P`.
-/

namespace CreditChain

open CreditChain.Action

/-! ## The rules on the record -/

variable {timeout : TwoChainTimeout}

namespace SafetyData

theorem observeQc_eq (data : SafetyData) (qc : QuorumCert) :
    data.observeQc qc =
      { data with
        oneChainRound := max data.oneChainRound qc.certifiedBlock.round
        preferredRound := max data.preferredRound qc.parentBlock.round } := by
  unfold observeQc
  by_cases one : data.oneChainRound < qc.certifiedBlock.round
  · by_cases two : data.preferredRound < qc.parentBlock.round
    · simp [one, two, max_eq_right one.le, max_eq_right two.le]
    · simp [one, two, max_eq_right one.le, max_eq_left (not_lt.mp two)]
  · by_cases two : data.preferredRound < qc.parentBlock.round
    · simp [one, two, max_eq_left (not_lt.mp one), max_eq_right two.le]
    · simp [one, two, max_eq_left (not_lt.mp one), max_eq_left (not_lt.mp two)]

theorem updateHighestTimeoutRound_eq (data : SafetyData) (timeout : TwoChainTimeout) :
    data.updateHighestTimeoutRound timeout =
      { data with highestTimeoutRound := max data.highestTimeoutRound timeout.round } := by
  unfold updateHighestTimeoutRound
  split
  · rename_i lower
    rw [max_eq_right lower.le]
  · rename_i notLower
    rw [max_eq_left (not_lt.mp notLower)]

/-- A timeout is refused when its certificate is older than the one-chain round. -/
theorem safeToTimeout_ok {data : SafetyData} {maybeTc : Option TwoChainTimeoutCertificate}
    (safe : data.safeToTimeout timeout maybeTc = .ok ()) :
    data.oneChainRound ≤ timeout.hqcRound := by
  obtain ⟨afterQc, -, rest⟩ := of_bind safe
  obtain ⟨follows, -, rest⟩ := of_bind rest
  exact (ensure_eq_ok.mp rest).2

end SafetyData

theorem SafetyRules.recordTimeout_ok {data data' : SafetyData}
    (recorded : recordTimeout data timeout = .ok data') :
    data.lastVotedRound ≤ timeout.round ∧
      data' = { data with
        lastVotedRound := timeout.round
        highestTimeoutRound := max data.highestTimeoutRound timeout.round } := by
  obtain ⟨_, notLower, rest⟩ := of_bind recorded
  obtain ⟨data₁, caughtUp, rest⟩ := of_bind rest
  have le := not_lt.mp (ensure_eq_ok.mp notLower)
  have updated : data₁ = { data with lastVotedRound := timeout.round } := by
    unfold SafetyData.verifyAndUpdateLastVoteRound at caughtUp
    split at caughtUp
    · rename_i lower
      rw [if_neg lower.not_ge] at caughtUp
      cases caughtUp
      rfl
    · rename_i notBelow
      cases caughtUp
      rw [← le_antisymm le (not_lt.mp notBelow)]
  cases rest
  rw [updated, SafetyData.updateHighestTimeoutRound_eq]
  exact ⟨le, rfl⟩

namespace SafetyRules

/-- The in-memory copy, when there is one, is the persisted record. -/
def Coherent (s : SafetyRules) : Prop := ∀ data, s.cached = some data → data = s.stored

/-- Epoch, signer and verification mode are untouched. -/
structure Frame (s s' : SafetyRules) : Prop where
  epochState : s'.epochState = s.epochState
  skipSigVerify : s'.skipSigVerify = s.skipSigVerify
  validatorSigner : s'.validatorSigner = s.validatorSigner

/-- Nothing but the in-memory copy and the pending outcomes may have changed. -/
structure Quiet (s s' : SafetyRules) : Prop extends Frame s s' where
  stored : s'.stored = s.stored
  coherent : s.Coherent → s'.Coherent

theorem Frame.refl (s : SafetyRules) : Frame s s := ⟨rfl, rfl, rfl⟩

variable {a b c s' s₀ : SafetyRules}

theorem Frame.trans (left : Frame a b) (right : Frame b c) : Frame a c :=
  ⟨right.epochState.trans left.epochState, right.skipSigVerify.trans left.skipSigVerify,
    right.validatorSigner.trans left.validatorSigner⟩

theorem Quiet.refl (s : SafetyRules) : Quiet s s := ⟨.refl s, rfl, id⟩

theorem Quiet.trans (left : Quiet a b) (right : Quiet b c) : Quiet a c :=
  ⟨left.toFrame.trans right.toFrame, right.stored.trans left.stored,
    fun coherent => right.coherent (left.coherent coherent)⟩

/-- A check against the validator set of the current epoch, unless it is switched off. -/
def Verified (s : SafetyRules) (P : ValidatorVerifier → Prop) : Prop :=
  s.skipSigVerify = false → ∃ state, s.epochState = some state ∧ P state.verifier

theorem Frame.verified {s : SafetyRules} (frame : Frame s s') {P : ValidatorVerifier → Prop}
    (verified : s'.Verified P) : s.Verified P := by
  unfold Verified at *
  rw [frame.skipSigVerify, frame.epochState] at verified
  exact verified

/-! ## Operations that only read -/

/-- `m` only reads, and returns only values that satisfy `P`. -/
def Reads {α : Type} (m : SafetyM α) (s : SafetyRules) (P : α → Prop) : Prop :=
  Ensures m s fun outcome s' => Quiet s s' ∧ ∀ a, outcome = .ok a → P a

section Reads

variable {α β : Type} {s : SafetyRules} {P : α → Prop}

theorem Reads.pure {a : α} (holds : P a) : Reads (.pure a) s P := by
  refine ⟨.refl s, ?_⟩
  intro b same
  cases same
  exact holds

theorem Reads.throw {e : Error} : Reads (MonadExcept.throw e) s P := by
  refine ⟨.refl s, ?_⟩
  intro b same
  cases same

theorem Reads.check {x : Except Error α} : Reads (check x) s fun a => x = .ok a := by
  refine ⟨.refl s, ?_⟩
  intro a same
  exact same

variable {m : SafetyM α}

theorem Reads.imp {Q : α → Prop} (reads : Reads m s P) (weaken : ∀ a, P a → Q a) : Reads m s Q :=
  Ensures.imp reads fun _ _ holds => ⟨holds.1, fun a same => weaken a (holds.2 a same)⟩

variable {f : α → SafetyM β}

theorem Reads.bind {Q : β → Prop} (first : Reads m s P)
    (rest : ∀ a s', Quiet s s' → P a → Reads (f a) s' Q) :
    Reads (m >>= f) s Q := by
  refine Ensures.bind first ?_ ?_
  · intro e s' holds
    refine ⟨holds.1, ?_⟩
    intro b same
    cases same
  · intro a s' holds
    refine .imp (rest a s' holds.1 (holds.2 a rfl)) ?_
    intro outcome s'' after
    exact ⟨holds.1.trans after.1, after.2⟩

variable {Q : Except Error β → SafetyRules → Prop}

theorem ensures_get_bind {f : SafetyRules → SafetyM β} (rest : Ensures (f s) s Q) :
    Ensures (MonadState.get >>= f) s Q := by
  exact rest

/-- One more read of an operation that has only read since `s₀`. -/
theorem Reads.then {s₀ : SafetyRules} (first : Reads m s P) (quiet : Quiet s₀ s)
    (failed : ∀ e s', Quiet s₀ s' → Q (.error e) s')
    (rest : ∀ a s', Quiet s₀ s' → P a → Ensures (f a) s' Q) : Ensures (m >>= f) s Q := by
  refine .bind first ?_ ?_
  · intro e s' holds
    exact failed e s' (quiet.trans holds.1)
  · intro a s' holds
    exact rest a s' (quiet.trans holds.1) (holds.2 a rfl)

end Reads

variable {s : SafetyRules}

theorem nextOutcome_reads : Reads nextOutcome s fun _ => True := by
  unfold nextOutcome Reads Ensures
  rw [exec_bind, exec_get]
  dsimp only
  cases s.persistentStorage.internalStore.outcomes with
  | nil => exact ⟨.refl s, fun _ _ => trivial⟩
  | cons outcome rest =>
    exact ⟨⟨⟨rfl, rfl, rfl⟩, rfl, fun coherent => coherent⟩, fun _ _ => trivial⟩

variable {α : Type}

theorem getEntry_reads {entry : Storage → Except StorageError α} :
    Reads (getEntry entry) s fun a =>
      ∃ store, store.safetyData = s.stored ∧ entry store = .ok a := by
  refine .bind nextOutcome_reads ?_
  intro outcome s' quiet _
  cases outcome with
  | fail e | failAfterWrite e => exact .throw
  | ok =>
    refine ensures_get_bind (Reads.imp Reads.check ?_)
    intro a found
    exact ⟨_, quiet.stored, Except.mapError_eq_ok.mp found⟩

/-- Refreshing the in-memory copy with the persisted record is not observable. -/
theorem Quiet.setCache (quiet : Quiet s s') : Quiet s (s'.setCache (some s.stored)) := by
  refine ⟨⟨quiet.epochState, quiet.skipSigVerify, quiet.validatorSigner⟩, quiet.stored, ?_⟩
  intro _ data copy
  cases copy
  exact quiet.stored.symm

/-- `safety_data` returns the persisted record. -/
theorem safetyData_reads (coherent : s.Coherent) :
    Reads safetyData s fun data => data = s.stored := by
  have entry : Reads (getEntry fun store => .ok store.safetyData) s
      fun data => data = s.stored := by
    refine .imp getEntry_reads ?_
    intro data found
    obtain ⟨store, same, found⟩ := found
    cases found
    exact same
  refine ensures_get_bind ?_
  split
  · cases copy : s.cached with
    | some data => exact Reads.pure (coherent data copy)
    | none =>
      refine .bind entry ?_ ?_
      · intro e s' holds
        exact ⟨holds.1, fun _ same => nomatch same⟩
      intro data s' holds
      obtain rfl := holds.2 data rfl
      refine ⟨holds.1.setCache, ?_⟩
      intro data same
      cases same
      rfl
  · exact entry

theorem signer_reads : Reads signer s fun signer => s.validatorSigner = some signer := by
  refine ensures_get_bind ?_
  cases s.validatorSigner with
  | some signer => exact Reads.pure rfl
  | none => exact Reads.throw

theorem getEpochState_reads : Reads getEpochState s fun state => s.epochState = some state := by
  refine ensures_get_bind ?_
  cases s.epochState with
  | some state => exact Reads.pure rfl
  | none => exact Reads.throw

theorem sign_reads [Crypto] {message : SignedMessage} : Reads (sign message) s fun _ => True := by
  refine .bind signer_reads ?_
  intro signer s' _ _
  cases Crypto.sign signer.privateKey message with
  | some signature => exact .pure trivial
  | none => exact .throw

variable {x : ValidatorVerifier → Except α Unit} {wrap : α → Error}

/-- A check of the validator set that is skipped when verification is off. -/
theorem verified_reads :
    Reads (do
      let epochState ← getEpochState
      if (← MonadState.get).skipSigVerify then Pure.pure ()
      else check ((x epochState.verifier).mapError wrap)) s
      fun _ => s.Verified fun v => x v = .ok () := by
  refine .bind getEpochState_reads ?_
  intro state s' quiet found
  refine ensures_get_bind ?_
  split
  · rename_i skipped
    refine Reads.pure ?_
    intro checking
    rw [quiet.skipSigVerify, checking] at skipped
    cases skipped
  · refine Reads.imp Reads.check ?_
    intro _ passed _
    exact ⟨state, found, Except.mapError_eq_ok.mp passed⟩

/-- The same check, where the validator set is only needed when verification is on. -/
theorem verified_reads' :
    Reads (do
      if (← MonadState.get).skipSigVerify then Pure.pure ()
      else
        let epochState ← getEpochState
        check ((x epochState.verifier).mapError wrap)) s
      fun _ => s.Verified fun v => x v = .ok () := by
  refine ensures_get_bind ?_
  split
  · rename_i skipped
    refine Reads.pure ?_
    intro checking
    rw [checking] at skipped
    cases skipped
  · refine Reads.bind getEpochState_reads ?_
    intro state s' _ found
    refine .imp .check ?_
    intro _ passed _
    exact ⟨state, found, Except.mapError_eq_ok.mp passed⟩

variable [Crypto]

theorem verifyQc_reads {qc : QuorumCert} :
    Reads (verifyQc qc) s fun _ => s.Verified fun v => qc.verify v = .ok () :=
  verified_reads

theorem verifyMaybeTc_reads {maybeTc : Option TwoChainTimeoutCertificate} :
    Reads (verifyMaybeTc maybeTc) s fun _ =>
      ∀ tc, maybeTc = some tc → s.Verified fun v => tc.verify v = .ok () := by
  cases maybeTc with
  | none =>
    refine .pure ?_
    intro tc impossible
    cases impossible
  | some tc =>
    refine Reads.imp (verified_reads (x := tc.verify)) ?_
    intro _ passed tc' same
    cases same
    exact passed

theorem validateBlockSignature_reads {block : Block} :
    Reads (validateBlockSignature block) s fun _ =>
      s.Verified fun v => block.validateSignature v = .ok () :=
  verified_reads'

/-! ## Proposals -/

/-- A proposal that passed `verify_proposal`, with the vote data it leads to. -/
structure ProposalOk (s : SafetyRules) (now : Nat) (proposal : VoteProposal)
    (voteData : VoteData) : Prop where
  epoch : proposal.block.epoch = s.stored.epoch
  qc : s.Verified fun v => proposal.block.quorumCert.verify v = .ok ()
  signature : s.Verified fun v => proposal.block.validateSignature v = .ok ()
  wellFormed : proposal.block.blockData.verifyWellFormed now = .ok ()
  voteData : proposal.genVoteData = .ok voteData

variable {proposal : VoteProposal} {now : Nat}

theorem verifyProposal_reads (coherent : s.Coherent) :
    Reads (verifyProposal now proposal) s (ProposalOk s now proposal) := by
  refine .bind (safetyData_reads coherent) ?_
  rintro data s₁ quiet₁ rfl
  refine .bind .check ?_
  intro _ s₂ quiet₂ epoch
  refine .bind verifyQc_reads ?_
  intro _ s₃ quiet₃ qc
  refine .bind validateBlockSignature_reads ?_
  intro _ s₄ quiet₄ signature
  refine .bind .check ?_
  intro _ s₅ quiet₅ wellFormed
  refine .imp .check ?_
  intro voteData generated
  have quiet := quiet₁.trans quiet₂
  exact
    { epoch := ensure_eq_ok.mp epoch
      qc := quiet.verified qc
      signature := (quiet.trans quiet₃).verified signature
      wellFormed := Except.mapError_eq_ok.mp wellFormed
      voteData := Except.mapError_eq_ok.mp generated }

/-- An order vote proposal that passed `verify_order_vote_proposal`. -/
structure OrderProposalOk (s : SafetyRules) (proposal : OrderVoteProposal) : Prop where
  epoch : proposal.block.epoch = s.stored.epoch
  blockInfo : proposal.quorumCert.certifiedBlock = proposal.blockInfo
  id : proposal.quorumCert.certifiedBlock.id = proposal.block.id
  qc : s.Verified fun v => proposal.quorumCert.verify v = .ok ()

theorem verifyOrderVoteProposal_reads (coherent : s.Coherent) {proposal : OrderVoteProposal} :
    Reads (verifyOrderVoteProposal proposal) s fun _ => OrderProposalOk s proposal := by
  refine .bind (safetyData_reads coherent) ?_
  rintro data s₁ quiet₁ rfl
  refine .bind .check ?_
  intro _ s₂ quiet₂ epoch
  refine .bind .check ?_
  intro _ s₃ quiet₃ blockInfo
  refine .bind .check ?_
  intro _ s₄ quiet₄ id
  refine .imp verifyQc_reads ?_
  intro _ qc
  exact
    { epoch := ensure_eq_ok.mp epoch
      blockInfo := ensure_eq_ok.mp blockInfo
      id := ensure_eq_ok.mp id
      qc := ((quiet₁.trans quiet₂).trans (quiet₃.trans quiet₄)).verified qc }

/-! ## Writing the record -/

/-- After an operation that may write the record: it stays and nothing is returned, or `written`
holds. -/
structure Wrote {α : Type} (s : SafetyRules) (written : Prop) (outcome : Except Error α)
    (s' : SafetyRules) : Prop extends Frame s s' where
  coherent : s'.Coherent
  result : (s'.stored = s.stored ∧ ∀ a, outcome ≠ .ok a) ∨ written

omit [Crypto] in
theorem Quiet.wrote {e : Error} {written : Prop} (coherent : s.Coherent) (quiet : Quiet s s') :
    Wrote s written (.error e : Except Error α) s' :=
  ⟨quiet.toFrame, quiet.coherent coherent, .inl ⟨quiet.stored, nofun⟩⟩

omit [Crypto] in
theorem setSafetyData_ensures (coherent : s.Coherent) {data : SafetyData} :
    Ensures (setSafetyData data) s fun outcome s' => Wrote s (s'.stored = data) outcome s' := by
  refine nextOutcome_reads.then (.refl s) (fun _ _ quiet => quiet.wrote coherent) ?_
  intro outcome s' quiet _
  refine ensures_get_bind ?_
  have frame := quiet.toFrame
  have dropped : ∀ t : SafetyRules, (t.setCache none).Coherent := by
    intro t copy impossible
    cases impossible
  cases outcome with
  | ok =>
    refine ⟨⟨frame.epochState, frame.skipSigVerify, frame.validatorSigner⟩, ?_, .inr rfl⟩
    intro copy same
    cases same
    rfl
  | fail e =>
    exact ⟨⟨frame.epochState, frame.skipSigVerify, frame.validatorSigner⟩, dropped _,
      .inl ⟨quiet.stored, nofun⟩⟩
  | failAfterWrite e =>
    exact ⟨⟨frame.epochState, frame.skipSigVerify, frame.validatorSigner⟩, dropped _, .inr rfl⟩

omit [Crypto] in
/-- A write of `data` by an operation that has only read since `s₀`. -/
theorem setSafetyData_then {β : Type} (coherent : s₀.Coherent)
    (quiet : Quiet s₀ s) {data : SafetyData} {f : PUnit → SafetyM β}
    {Q : Except Error β → SafetyRules → Prop}
    (failed : ∀ e s', Frame s₀ s' → s'.Coherent →
      s'.stored = data ∨ s'.stored = s₀.stored → Q (.error e) s')
    (rest : ∀ s', Frame s₀ s' → s'.Coherent → s'.stored = data → Ensures (f ⟨⟩) s' Q) :
    Ensures (setSafetyData data >>= f) s Q := by
  refine .bind (setSafetyData_ensures (quiet.coherent coherent)) ?_ ?_
  · intro e s' wrote
    refine failed e s' (quiet.toFrame.trans wrote.toFrame) wrote.coherent ?_
    exact wrote.result.symm.imp id fun kept => kept.1.trans quiet.stored
  · intro _ s' wrote
    refine rest s' (quiet.toFrame.trans wrote.toFrame) wrote.coherent ?_
    exact wrote.result.resolve_left fun kept => kept.2 _ rfl

/-! ## Votes -/

/-- A new vote on a verified proposal, and the record it leaves. -/
structure FreshVote (data : SafetyData) (proposal : VoteProposal)
    (timeoutCert : Option TwoChainTimeoutCertificate) (vote : Vote) (data' : SafetyData) :
    Prop where
  later : data.lastVotedRound < proposal.block.round
  safe : safeToVote proposal.block timeoutCert = .ok ()
  voteData : proposal.genVoteData = .ok vote.voteData
  ledgerInfo : constructLedgerInfo2chain proposal.block vote.voteData.hash = .ok vote.ledgerInfo
  record : data' = { ({ data with lastVotedRound := proposal.block.round }).observeQc
    proposal.block.quorumCert with lastVote := some vote }

/-- What `guarded_construct_and_sign_vote_two_chain` does: the record stays and the vote,
if any, is the recorded one for this round; or a new vote is recorded, and returned
unless the write failed. -/
structure Voted (s : SafetyRules) (now : Nat) (proposal : VoteProposal)
    (timeoutCert : Option TwoChainTimeoutCertificate) (outcome : Except Error Vote)
    (s' : SafetyRules) : Prop extends Frame s s' where
  coherent : s'.Coherent
  result :
    (s'.stored = s.stored ∧ ∀ vote, outcome = .ok vote →
      s.stored.lastVote = some vote ∧ vote.round = proposal.block.round ∧
        proposal.block.epoch = s.stored.epoch) ∨
    ∃ vote, ProposalOk s now proposal vote.voteData ∧
      (∀ tc, timeoutCert = some tc → s.Verified fun v => tc.verify v = .ok ()) ∧
      FreshVote s.stored proposal timeoutCert vote s'.stored ∧
      ∀ returned, outcome = .ok returned → returned = vote

variable {timeoutCert : Option TwoChainTimeoutCertificate}

theorem Quiet.voted {e : Error} (coherent : s.Coherent) (quiet : Quiet s s') :
    Voted s now proposal timeoutCert (.error e) s' := by
  refine ⟨quiet.toFrame, quiet.coherent coherent, .inl ⟨quiet.stored, ?_⟩⟩
  intro vote impossible
  cases impossible

theorem constructVote_ensures (coherent₀ : s₀.Coherent) (quiet : Quiet s₀ s) {voteData : VoteData}
    (proposalOk : ProposalOk s₀ now proposal voteData)
    (tcOk : ∀ tc, timeoutCert = some tc → s₀.Verified fun v => tc.verify v = .ok ()) :
    Ensures (constructVote proposal.block voteData timeoutCert s₀.stored) s
      (Voted s₀ now proposal timeoutCert) := by
  have failed : ∀ e s', Quiet s₀ s' → Voted s₀ now proposal timeoutCert (.error e) s' :=
    fun e s' quiet => quiet.voted coherent₀
  refine Reads.check.then quiet failed ?_
  intro data s₁ quiet rule
  refine Reads.check.then quiet failed ?_
  intro _ s₂ quiet safe
  refine signer_reads.then quiet failed ?_
  intro signer s₃ quiet _
  refine Reads.check.then quiet failed ?_
  intro ledgerInfo s₄ quiet constructed
  refine sign_reads.then quiet failed ?_
  intro signature s₅ quiet _
  unfold SafetyData.verifyAndUpdateLastVoteRound at rule
  split at rule
  · cases rule
  rename_i later
  cases rule
  have fresh : ∀ data', data' = _ → FreshVote s₀.stored proposal timeoutCert
      (.newWithSignature voteData signer.author ledgerInfo signature) data' :=
    fun data' record =>
      { later := not_le.mp later
        safe := safe
        voteData := proposalOk.voteData
        ledgerInfo := constructed
        record := record }
  refine setSafetyData_then coherent₀ quiet ?_ ?_
  · intro e s' frame coherent written
    refine ⟨frame, coherent, ?_⟩
    rcases written with stored | stored
    · refine .inr ⟨_, proposalOk, tcOk, fresh _ stored, ?_⟩
      intro returned impossible
      cases impossible
    · refine .inl ⟨stored, ?_⟩
      intro vote impossible
      cases impossible
  · intro s' frame coherent stored
    refine ⟨frame, coherent, .inr ⟨_, proposalOk, tcOk, fresh _ stored, ?_⟩⟩
    intro returned same
    cases same
    rfl

/-- Either the record is unchanged, or it is the one the rule prescribes; what is returned is tied
to it. -/
theorem vote_ensures (coherent : s.Coherent) :
    Ensures (guardedConstructAndSignVoteTwoChain now proposal timeoutCert) s
      (Voted s now proposal timeoutCert) := by
  have failed : ∀ e s', Quiet s s' → Voted s now proposal timeoutCert (.error e) s' :=
    fun e s' quiet => quiet.voted coherent
  refine signer_reads.then (.refl s) failed ?_
  intro _ s₁ quiet₁ _
  refine (verifyProposal_reads (quiet₁.coherent coherent)).then quiet₁ failed ?_
  intro voteData s₂ quiet₂ proposalOk
  refine verifyMaybeTc_reads.then quiet₂ failed ?_
  intro _ s₃ quiet₃ tcOk
  refine (safetyData_reads (quiet₃.coherent coherent)).then quiet₃ failed ?_
  intro data s₄ quiet₄ same
  obtain rfl : data = s.stored := same.trans quiet₃.stored
  have proposalOk : ProposalOk s now proposal voteData :=
    { epoch := proposalOk.epoch.trans (congrArg SafetyData.epoch quiet₁.stored)
      qc := quiet₁.verified proposalOk.qc
      signature := quiet₁.verified proposalOk.signature
      wellFormed := proposalOk.wellFormed
      voteData := proposalOk.voteData }
  have construct := constructVote_ensures coherent quiet₄ proposalOk
    fun tc found => quiet₂.verified (tcOk tc found)
  cases last : s.stored.lastVote with
  | none => exact construct
  | some vote =>
    dsimp only
    split
    · rename_i same
      refine ⟨quiet₄.toFrame, quiet₄.coherent coherent, .inl ⟨quiet₄.stored, ?_⟩⟩
      intro returned equal
      cases equal
      exact ⟨last, same, proposalOk.epoch⟩
    · exact construct

/-! ## Order votes and timeouts -/

/-- What `guarded_construct_and_sign_order_vote` does. -/
def OrderVoted (s : SafetyRules) (proposal : OrderVoteProposal)
    (outcome : Except Error OrderVote) (s' : SafetyRules) : Prop :=
  Wrote s (OrderProposalOk s proposal ∧ s.stored.highestTimeoutRound < proposal.block.round ∧
    s'.stored = s.stored.observeQc proposal.quorumCert ∧
    ∀ vote, outcome = .ok vote → vote.ledgerInfo = ⟨proposal.blockInfo, .zero⟩) outcome s'

theorem orderVote_ensures (coherent : s.Coherent) {proposal : OrderVoteProposal} :
    Ensures (guardedConstructAndSignOrderVote proposal) s (OrderVoted s proposal) := by
  have failed : ∀ e s', Quiet s s' → OrderVoted s proposal (.error e) s' :=
    fun _ _ quiet => quiet.wrote coherent
  refine signer_reads.then (.refl s) failed ?_
  intro _ s₁ quiet₁ _
  refine (verifyOrderVoteProposal_reads (quiet₁.coherent coherent)).then quiet₁ failed ?_
  intro _ s₂ quiet₂ proposalOk
  refine (safetyData_reads (quiet₂.coherent coherent)).then quiet₂ failed ?_
  intro data s₃ quiet₃ same
  obtain rfl : data = s.stored := same.trans quiet₂.stored
  refine Reads.check.then quiet₃ failed ?_
  intro _ s₄ quiet₄ safe
  refine signer_reads.then quiet₄ failed ?_
  intro signer s₅ quiet₅ _
  refine sign_reads.then quiet₅ failed ?_
  intro signature s₆ quiet₆ _
  have proposalOk : OrderProposalOk s proposal :=
    { epoch := proposalOk.epoch.trans (congrArg SafetyData.epoch quiet₁.stored)
      blockInfo := proposalOk.blockInfo
      id := proposalOk.id
      qc := quiet₁.verified proposalOk.qc }
  have later : s.stored.highestTimeoutRound < proposal.block.round := by
    have later := ensure_eq_ok.mp safe
    rwa [SafetyData.observeQc_eq] at later
  refine setSafetyData_then coherent quiet₆ ?_ ?_
  · intro e s' frame coherent' written
    refine ⟨frame, coherent', ?_⟩
    rcases written with stored | stored
    · exact .inr ⟨proposalOk, later, stored, nofun⟩
    · exact .inl ⟨stored, nofun⟩
  · intro s' frame coherent' stored
    refine ⟨frame, coherent', .inr ⟨proposalOk, later, stored, ?_⟩⟩
    intro vote same
    cases same
    rfl

/-- What `guarded_sign_timeout_with_qc` does. -/
def TimedOut (s : SafetyRules) (timeout : TwoChainTimeout)
    (timeoutCert : Option TwoChainTimeoutCertificate) (outcome : Except Error Signature)
    (s' : SafetyRules) : Prop :=
  Wrote s (timeout.epoch = s.stored.epoch ∧
    s.stored.safeToTimeout timeout timeoutCert = .ok () ∧
    recordTimeout s.stored timeout = .ok s'.stored) outcome s'

theorem timeout_ensures (coherent : s.Coherent) :
    Ensures (guardedSignTimeoutWithQc timeout timeoutCert) s (TimedOut s timeout timeoutCert) := by
  have failed : ∀ e s', Quiet s s' → TimedOut s timeout timeoutCert (.error e) s' :=
    fun _ _ quiet => quiet.wrote coherent
  refine signer_reads.then (.refl s) failed ?_
  intro _ s₁ quiet₁ _
  refine (safetyData_reads (quiet₁.coherent coherent)).then quiet₁ failed ?_
  intro data s₂ quiet₂ same
  obtain rfl : data = s.stored := same.trans quiet₁.stored
  refine Reads.check.then quiet₂ failed ?_
  intro _ s₃ quiet₃ epoch
  refine (verified_reads' : Reads (verifyTimeout timeout) s₃ _).then quiet₃ failed ?_
  intro _ s₄ quiet₄ _
  refine verifyMaybeTc_reads.then quiet₄ failed ?_
  intro _ s₅ quiet₅ _
  refine Reads.check.then quiet₅ failed ?_
  intro _ s₆ quiet₆ safe
  refine Reads.check.then quiet₆ failed ?_
  intro data s₇ quiet₇ recorded
  refine setSafetyData_then coherent quiet₇ ?_ ?_
  · intro e s' frame coherent' written
    refine ⟨frame, coherent', ?_⟩
    rcases written with stored | stored
    · exact .inr ⟨ensure_eq_ok.mp epoch, safe, stored ▸ recorded⟩
    · exact .inl ⟨stored, nofun⟩
  · intro s' frame coherent' stored
    refine .imp sign_reads ?_
    intro outcome s'' after
    obtain ⟨quiet, -⟩ := after
    refine ⟨frame.trans quiet.toFrame, quiet.coherent coherent', .inr ?_⟩
    exact ⟨ensure_eq_ok.mp epoch, safe, (quiet.stored.trans stored) ▸ recorded⟩

end SafetyRules

end CreditChain
