import CreditChain.Lib.Trace
import CreditChain.SafetyRules.Spec

/-!
# The voting discipline of one validator

A run is any sequence of calls of the public interface and of restarts, each with any
outcomes of the store accesses it makes.  A process that dies within a call is a call
whose last access fails, followed by a restart.

`SafetyData.Le` is the order in which the persisted record moves.  Every call respects
it, and what a call returns is tied to the record it leaves (`step_answered`); the rules of
`Trace` give the rest.
-/

namespace CreditChain

open CreditChain.Action Trace

/-! ## The order of records -/

namespace SafetyData

/-- The recorded vote belongs to this epoch and is covered by the recorded rounds. -/
def Sound (d : SafetyData) : Prop :=
  ∀ vote, d.lastVote = some vote →
    vote.epoch = d.epoch ∧ vote.round ≤ d.lastVotedRound ∧
      vote.voteData.parent.round ≤ d.oneChainRound

/-- Within an epoch rounds grow, and the recorded vote changes only to a later one. -/
structure Grows (d d' : SafetyData) : Prop where
  lastVotedRound : d.lastVotedRound ≤ d'.lastVotedRound
  preferredRound : d.preferredRound ≤ d'.preferredRound
  oneChainRound : d.oneChainRound ≤ d'.oneChainRound
  highestTimeoutRound : d.highestTimeoutRound ≤ d'.highestTimeoutRound
  lastVote : d'.lastVote = d.lastVote ∨
    ∃ vote, d'.lastVote = some vote ∧ d.lastVotedRound < vote.round

/-- The record moves to a later epoch, or grows. -/
def Le (d d' : SafetyData) : Prop := d.epoch < d'.epoch ∨ d.epoch = d'.epoch ∧ d.Grows d'

theorem Grows.refl (d : SafetyData) : d.Grows d :=
  ⟨le_rfl, le_rfl, le_rfl, le_rfl, .inl rfl⟩

variable {a b c d' : SafetyData}

theorem Grows.trans (left : a.Grows b) (right : b.Grows c) : a.Grows c := by
  refine ⟨left.lastVotedRound.trans right.lastVotedRound,
    left.preferredRound.trans right.preferredRound,
    left.oneChainRound.trans right.oneChainRound,
    left.highestTimeoutRound.trans right.highestTimeoutRound, ?_⟩
  rcases right.lastVote with same | ⟨vote, found, later⟩
  · rw [same]
    exact left.lastVote
  · exact .inr ⟨vote, found, left.lastVotedRound.trans_lt later⟩

theorem Le.refl (d : SafetyData) : d.Le d := .inr ⟨rfl, Grows.refl d⟩

variable {d : SafetyData}

theorem Le.of_eq (same : d' = d) : d.Le d' := same ▸ Le.refl d

theorem Le.trans (left : a.Le b) (right : b.Le c) : a.Le c := by
  rcases left with before | ⟨same, grows⟩
  · rcases right with before' | ⟨same', -⟩
    · exact .inl (before.trans before')
    · exact .inl (same' ▸ before)
  · rcases right with before' | ⟨same', grows'⟩
    · exact .inl (same ▸ before')
    · exact .inr ⟨same.trans same', grows.trans grows'⟩

theorem Le.grows (le : d.Le d') (same : d.epoch = d'.epoch) : d.Grows d' := by
  rcases le with before | ⟨-, grows⟩
  · omega
  · exact grows

/-- The epoch does not decrease, nor do the rounds within an epoch. -/
structure Advances (d d' : SafetyData) : Prop where
  epoch : d.epoch ≤ d'.epoch
  lastVotedRound : d.epoch = d'.epoch → d.lastVotedRound ≤ d'.lastVotedRound
  oneChainRound : d.epoch = d'.epoch → d.oneChainRound ≤ d'.oneChainRound
  preferredRound : d.epoch = d'.epoch → d.preferredRound ≤ d'.preferredRound
  highestTimeoutRound : d.epoch = d'.epoch → d.highestTimeoutRound ≤ d'.highestTimeoutRound

theorem Le.advances (le : d.Le d') : d.Advances d' where
  epoch := by
    rcases le with before | ⟨same, -⟩
    · exact before.le
    · exact same.le
  lastVotedRound same := (le.grows same).lastVotedRound
  oneChainRound same := (le.grows same).oneChainRound
  preferredRound same := (le.grows same).preferredRound
  highestTimeoutRound same := (le.grows same).highestTimeoutRound

theorem start_sound (epoch : Nat) : (SafetyData.start epoch).Sound := by
  intro vote impossible
  cases impossible

theorem observeQc_grows (d : SafetyData) (qc : QuorumCert) : d.Grows (d.observeQc qc) := by
  rw [observeQc_eq]
  exact ⟨le_rfl, le_max_left _ _, le_max_left _ _, le_rfl, .inl rfl⟩

theorem Sound.observeQc (sound : d.Sound) (qc : QuorumCert) : (d.observeQc qc).Sound := by
  intro vote found
  rw [observeQc_eq] at found ⊢
  obtain ⟨epoch, round, parent⟩ := sound vote found
  exact ⟨epoch, round, parent.trans (le_max_left _ _)⟩

end SafetyData

open SafetyData

namespace SafetyRules

variable [Crypto] {s : SafetyRules} {proposal : VoteProposal}

/-- The vote data of a proposal describe its block and the certified parent. -/
theorem genVoteData_ok {voteData : VoteData} (generated : proposal.genVoteData = .ok voteData) :
    voteData.parent = proposal.block.quorumCert.certifiedBlock ∧
      ∃ stateId version, voteData.proposed =
        proposal.block.genBlockInfo stateId version proposal.nextEpochState := by
  unfold VoteProposal.genVoteData at generated
  split at generated
  · cases generated
    exact ⟨rfl, _, _, rfl⟩
  · obtain ⟨newTree, -, rfl⟩ := of_return generated
    exact ⟨rfl, _, _, rfl⟩

section Fresh

variable {data data' : SafetyData} {proposal : VoteProposal}
  {timeoutCert : Option TwoChainTimeoutCertificate} {vote : Vote}

section

variable (fresh : FreshVote data proposal timeoutCert vote data')

include fresh

theorem FreshVote.round : vote.round = proposal.block.round := by
  obtain ⟨-, stateId, version, proposed⟩ := genVoteData_ok fresh.voteData
  unfold Vote.round
  rw [proposed]
  rfl

theorem FreshVote.epoch : vote.epoch = proposal.block.epoch := by
  obtain ⟨-, stateId, version, proposed⟩ := genVoteData_ok fresh.voteData
  unfold Vote.epoch
  rw [proposed]
  rfl

theorem FreshVote.grows : data.Grows data' := by
  rw [fresh.record, observeQc_eq]
  refine ⟨fresh.later.le, le_max_left _ _, le_max_left _ _, le_rfl, ?_⟩
  exact .inr ⟨vote, rfl, fresh.round ▸ fresh.later⟩

theorem FreshVote.sound (epoch : proposal.block.epoch = data.epoch) : data'.Sound := by
  intro vote' found
  rw [fresh.record, observeQc_eq] at found ⊢
  cases found
  refine ⟨fresh.epoch.trans epoch, fresh.round.le, ?_⟩
  rw [(genVoteData_ok fresh.voteData).1]
  exact le_max_right _ _

theorem FreshVote.lastVote : data'.lastVote = some vote := by
  rw [fresh.record]

theorem FreshVote.sameEpoch : data.epoch = data'.epoch := by
  rw [fresh.record, observeQc_eq]

end

end Fresh

/-! ## Operations that leave the record alone -/

/-- The record is kept, and the in-memory copy agrees with it if it did. -/
structure Kept (s s' : SafetyRules) : Prop where
  stored : s'.stored = s.stored
  coherent : s.Coherent → s'.Coherent

def Keeps {α : Type} (m : SafetyM α) (s : SafetyRules) : Prop := Ensures m s fun _ s' => Kept s s'

section Keeps

omit [Crypto]

variable {α β : Type}

theorem Kept.trans {a b c : SafetyRules} (left : Kept a b) (right : Kept b c) : Kept a c :=
  ⟨right.stored.trans left.stored, fun coherent => right.coherent (left.coherent coherent)⟩

variable {m : SafetyM α}

theorem Reads.keeps {P : α → Prop} (reads : Reads m s P) : Keeps m s :=
  Ensures.imp reads fun _ _ holds => ⟨holds.1.stored, holds.1.coherent⟩

theorem Keeps.bind {f : α → SafetyM β} (first : Keeps m s)
    (rest : ∀ a s', Kept s s' → Keeps (f a) s') : Keeps (m >>= f) s := by
  refine Ensures.bind first ?_ ?_
  · intro e s' kept
    exact kept
  · intro a s' kept
    exact Ensures.imp (rest a s' kept) fun _ _ after => kept.trans after

theorem Keeps.tryCatch {handler : Error → SafetyM α} (first : Keeps m s)
    (rest : ∀ e s', Kept s s' → Keeps (handler e) s') :
    Keeps (MonadExcept.tryCatch m handler) s := by
  refine ensures_tryCatch.mpr (Ensures.imp first ?_)
  intro outcome s' kept
  cases outcome with
  | ok a => exact kept
  | error e => exact Ensures.imp (rest e s' kept) fun _ _ after => kept.trans after

theorem setWaypoint_keeps {waypoint : Waypoint} : Keeps (setWaypoint waypoint) s := by
  refine Keeps.bind nextOutcome_reads.keeps ?_
  intro outcome s' _
  refine ensures_get_bind ?_
  cases outcome with
  | ok | fail e | failAfterWrite e => exact ⟨rfl, id⟩

theorem tryEntry_keeps {entry : Storage → Except StorageError α} :
    Keeps (MonadExcept.tryCatch (some <$> getEntry entry) fun _ => Pure.pure none) s := by
  refine Keeps.tryCatch ?_ ?_
  · exact Keeps.bind getEntry_reads.keeps fun _ _ _ => ⟨rfl, id⟩
  · intro _ _ _
    exact ⟨rfl, id⟩

end Keeps

theorem consensusSkByPk_keeps {pk : PublicKey} : Keeps (consensusSkByPk pk) s := by
  refine Keeps.bind tryEntry_keeps ?_
  intro explicitSk s₁ _
  refine Keeps.bind tryEntry_keeps ?_
  intro defaultSk s₂ _
  cases explicitSk.or defaultSk with
  | none => exact ⟨rfl, id⟩
  | some key =>
    dsimp only
    split
    all_goals exact ⟨rfl, id⟩

theorem reconcileKey_keeps {epochState : EpochState} : Keeps (reconcileKey epochState) s := by
  refine Keeps.bind getEntry_reads.keeps ?_
  intro author s₁ _
  refine Keeps.tryCatch ?_ ?_
  · cases epochState.verifier.getPublicKey author with
    | none => exact ⟨rfl, id⟩
    | some expectedKey =>
      refine ensures_get_bind ?_
      dsimp only
      split
      · exact ⟨rfl, id⟩
      refine Keeps.bind (Keeps.tryCatch consensusSkByPk_keeps ?_) ?_
      · intro e s' _
        cases e with
        | secureStorageMissingDataError reason | _ => exact ⟨rfl, id⟩
      · intro key s' _
        exact ⟨rfl, id⟩
  · intro e s' _
    exact ⟨rfl, id⟩

/-- What `guarded_initialize` does to the record: nothing, or the start of a later epoch. -/
structure Initialized (s s' : SafetyRules) : Prop where
  coherent : s'.Coherent
  stored : s'.stored = s.stored ∨
    ∃ epoch, s.stored.epoch < epoch ∧ s'.stored = SafetyData.start epoch

variable {s' : SafetyRules}

omit [Crypto] in
theorem Kept.initialized (kept : Kept s s') (coherent : s.Coherent) : Initialized s s' :=
  ⟨kept.coherent coherent, .inl kept.stored⟩

omit [Crypto] in
theorem Initialized.after {s₁ s₂ : SafetyRules} (first : Initialized s s₁) (kept : Kept s₁ s₂) :
    Initialized s s₂ := by
  refine ⟨kept.coherent first.coherent, ?_⟩
  rw [kept.stored]
  exact first.stored

theorem initialize_ensures (coherent : s.Coherent) {proof : EpochChangeProof} :
    Ensures (guardedInitialize proof) s fun _ s' => Initialized s s' := by
  refine Ensures.bind getEntry_reads.keeps (fun _ _ kept => kept.initialized coherent) ?_
  intro waypoint s₁ kept₁
  refine Ensures.bind (P := fun _ s' => Kept s s') kept₁
    (fun _ _ kept => kept.initialized coherent) ?_
  intro lastLi s₂ kept₂
  dsimp only
  cases lastLi.ledgerInfo.nextEpochState with
  | none => exact kept₂.initialized coherent
  | some epochState =>
    refine Ensures.bind (P := fun _ s' => Kept s s') kept₂
      (fun _ _ kept => kept.initialized coherent) ?_
    intro newWaypoint s₃ kept₃
    refine Ensures.bind (P := fun _ s' => Kept s s') ?_
      (fun _ _ kept => kept.initialized coherent) ?_
    · split
      · exact Ensures.imp setWaypoint_keeps fun _ _ after => kept₃.trans after
      · exact kept₃
    intro _ s₄ kept₄
    refine (safetyData_reads (kept₄.coherent coherent)).then (Quiet.refl _) ?_ ?_
    · intro e s' quiet
      exact (kept₄.initialized coherent).after ⟨quiet.stored, quiet.coherent⟩
    intro current s₅ quiet₅ same
    have kept₅ : Kept s s₅ := kept₄.trans ⟨quiet₅.stored, quiet₅.coherent⟩
    have current : current = s.stored := same.trans kept₄.stored
    refine Ensures.bind (P := fun _ s' => Kept s s') kept₅
      (fun _ _ kept => kept.initialized coherent) ?_
    intro _ s₆ kept₆
    refine Ensures.bind (P := fun _ s' => Initialized s s') ?_ (fun _ _ holds => holds) ?_
    · split
      · rename_i later
        refine Ensures.imp (setSafetyData_ensures (kept₆.coherent coherent)) ?_
        intro outcome s' wrote
        refine ⟨wrote.coherent, ?_⟩
        rcases wrote.result with ⟨stored, -⟩ | stored
        · exact .inl (stored.trans kept₆.stored)
        · exact .inr ⟨_, current ▸ later, stored⟩
      · exact kept₆.initialized coherent
    intro _ s₇ initialized
    refine Ensures.bind (P := fun _ s' => Initialized s s') (initialized.after ⟨rfl, id⟩)
      (fun _ _ holds => holds) ?_
    intro _ s₈ initialized
    exact Ensures.imp reconcileKey_keeps fun _ _ kept => initialized.after kept

/-! ## Runs -/

/-- A call of the public interface, or a restart of the process. -/
inductive Request where
  | initializeWith (proof : EpochChangeProof)
  | signProposal (blockData : BlockData)
  | constructAndSignVoteTwoChain (now : Nat) (proposal : VoteProposal)
      (timeoutCert : Option TwoChainTimeoutCertificate)
  | constructAndSignOrderVote (proposal : OrderVoteProposal)
  | signTimeoutWithQc (timeout : TwoChainTimeout)
      (timeoutCert : Option TwoChainTimeoutCertificate)
  | signCommitVote (ledgerInfo : LedgerInfoWithSignatures) (newLedgerInfo : LedgerInfo)
  | restart (enableCachedSafetyData skipSigVerify : Bool)

inductive Reply where
  | initialized
  | proposal (signature : Signature)
  | vote (vote : Vote)
  | orderVote (vote : OrderVote)
  | timeout (signature : Signature)
  | commitVote (signature : Signature)
  | restarted

/-- A request with the outcomes of the store accesses it makes. -/
abbrev Call := Request × List StorageOutcome

abbrev Run.Event := Trace.Event SafetyRules Call (Except Error Reply)

def withOutcomes (s : SafetyRules) (outcomes : List StorageOutcome) : SafetyRules :=
  s.setStore { s.persistentStorage.internalStore with outcomes := outcomes }

/-- `PersistentSafetyStorage::new` and `SafetyRules::new` on the existing store. -/
def restart (s : SafetyRules) (enableCachedSafetyData skipSigVerify : Bool) : SafetyRules where
  persistentStorage := ⟨enableCachedSafetyData, none, s.persistentStorage.internalStore⟩
  validatorSigner := none
  epochState := none
  skipSigVerify := skipSigVerify

def serve : Request → SafetyM Reply
  | .initializeWith proof => do
      guardedInitialize proof
      pure .initialized
  | .signProposal blockData => do
      let signature ← guardedSignProposal blockData
      pure (.proposal signature)
  | .constructAndSignVoteTwoChain now proposal timeoutCert => do
      let vote ← guardedConstructAndSignVoteTwoChain now proposal timeoutCert
      pure (.vote vote)
  | .constructAndSignOrderVote proposal => do
      let vote ← guardedConstructAndSignOrderVote proposal
      pure (.orderVote vote)
  | .signTimeoutWithQc timeout timeoutCert => do
      let signature ← guardedSignTimeoutWithQc timeout timeoutCert
      pure (.timeout signature)
  | .signCommitVote ledgerInfo newLedgerInfo => do
      let signature ← guardedSignCommitVote ledgerInfo newLedgerInfo
      pure (.commitVote signature)
  | .restart enableCachedSafetyData skipSigVerify => do
      modify fun s => s.restart enableCachedSafetyData skipSigVerify
      pure .restarted

def step (call : Call) (s : SafetyRules) : Except Error Reply × SafetyRules :=
  (serve call.1).exec (s.withOutcomes call.2)

/-- An instance whose store is as `PersistentSafetyStorage::initialize` leaves it. -/
structure Initial (s : SafetyRules) : Prop where
  stored : s.stored = SafetyData.start 1
  coherent : s.Coherent

/-- What holds of an instance between calls. -/
structure Invariant (s : SafetyRules) : Prop where
  coherent : s.Coherent
  sound : s.stored.Sound

/-! ### What a call does -/

/-- The record moves forward, and votes, order votes and timeouts are tied to it. -/
structure Answered (s : SafetyRules) (request : Request) (response : Except Error Reply)
    (s' : SafetyRules) : Prop where
  invariant : s'.Invariant
  le : s.stored.Le s'.stored
  vote : ∀ vote, response = .ok (.vote vote) → s'.stored.lastVote = some vote
  orderVote : ∀ proposal vote, request = .constructAndSignOrderVote proposal →
    response = .ok (.orderVote vote) →
      proposal.block.epoch = s.stored.epoch ∧ s'.stored.epoch = s.stored.epoch ∧
        s.stored.highestTimeoutRound < proposal.block.round ∧
        proposal.quorumCert.certifiedBlock.round ≤ s'.stored.oneChainRound
  timeout : ∀ timeout timeoutCert signature, request = .signTimeoutWithQc timeout timeoutCert →
    response = .ok (.timeout signature) →
      timeout.epoch = s.stored.epoch ∧ s'.stored.epoch = s.stored.epoch ∧
        s'.stored.oneChainRound ≤ timeout.hqcRound ∧
        timeout.round ≤ s'.stored.lastVotedRound ∧
        timeout.round ≤ s'.stored.highestTimeoutRound

/-- A reply that is neither a vote, nor an order vote, nor a timeout. -/
def Silent (response : Except Error Reply) : Prop :=
  ∀ reply, response = .ok reply →
    (∀ vote, reply ≠ .vote vote) ∧ (∀ vote, reply ≠ .orderVote vote) ∧
      ∀ signature, reply ≠ .timeout signature

section
omit [Crypto]

theorem Silent.error (e : Error) : Silent (.error e) := by
  intro reply impossible
  cases impossible

variable {request : Request}

theorem Silent.answered {response : Except Error Reply} (silent : Silent response)
    (invariant : s'.Invariant) (le : s.stored.Le s'.stored) :
    Answered s request response s' where
  invariant := invariant
  le := le
  vote vote returned := absurd rfl ((silent _ returned).1 vote)
  orderVote _ vote _ returned := absurd rfl ((silent _ returned).2.1 vote)
  timeout _ _ signature _ returned := absurd rfl ((silent _ returned).2.2 signature)

theorem Kept.invariant (kept : Kept s s') (invariant : s.Invariant) : s'.Invariant :=
  ⟨kept.coherent invariant.coherent, kept.stored ▸ invariant.sound⟩

/-- The reply wraps what the operation returns. -/
theorem ensures_reply {α : Type} {m : SafetyM α} {reply : α → Reply}
    {P : Except Error α → SafetyRules → Prop} {Q : Except Error Reply → SafetyRules → Prop}
    (first : Ensures m s P) (holds : ∀ outcome s', P outcome s' → Q (outcome.map reply) s') :
    Ensures (m >>= fun a => pure (reply a)) s Q := by
  unfold Ensures
  rw [exec_bind_pure]
  exact holds _ _ first

/-- An operation that keeps the record and whose reply is silent. -/
theorem Keeps.answered {α : Type} {m : SafetyM α} {reply : α → Reply} (keeps : Keeps m s)
    (invariant : s.Invariant) (silent : ∀ a, Silent (.ok (reply a))) :
    Ensures (m >>= fun a => pure (reply a)) s (Answered s request) := by
  refine ensures_reply keeps ?_
  intro outcome s' kept
  have silent : Silent (outcome.map reply) := by
    cases outcome with
    | error e => exact Silent.error e
    | ok a => exact silent a
  exact silent.answered (kept.invariant invariant) (.of_eq kept.stored)

theorem Initialized.answered {outcome : Except Error Unit} (invariant : s.Invariant)
    (initialized : Initialized s s') :
    Answered s request (outcome.map fun _ => .initialized) s' := by
  have silent : Silent (outcome.map fun _ => .initialized) := by
    intro reply returned
    obtain ⟨-, -, rfl⟩ := Except.map_eq_ok.mp returned
    simp
  rcases initialized.stored with stored | ⟨epoch, later, stored⟩
  · exact silent.answered ⟨initialized.coherent, stored ▸ invariant.sound⟩ (.of_eq stored)
  · have le : s.stored.Le s'.stored := .inl (by rw [stored]; exact later)
    exact silent.answered ⟨initialized.coherent, stored ▸ start_sound epoch⟩ le

end

variable {timeoutCert : Option TwoChainTimeoutCertificate}

theorem Voted.answered {now : Nat} {outcome : Except Error Vote} (invariant : s.Invariant)
    (voted : Voted s now proposal timeoutCert outcome s') :
    Answered s (.constructAndSignVoteTwoChain now proposal timeoutCert) (outcome.map .vote) s' := by
  have moved : s'.Invariant ∧ s.stored.Le s'.stored ∧
      ∀ vote, outcome = .ok vote → s'.stored.lastVote = some vote := by
    rcases voted.result with ⟨stored, returned⟩ | ⟨vote, proposalOk, -, fresh, returned⟩
    · refine ⟨⟨voted.coherent, stored ▸ invariant.sound⟩, .of_eq stored, ?_⟩
      intro vote same
      rw [stored]
      exact (returned vote same).1
    · refine ⟨⟨voted.coherent, fresh.sound proposalOk.epoch⟩,
        .inr ⟨fresh.sameEpoch, fresh.grows⟩, ?_⟩
      intro vote' same
      rw [returned vote' same]
      exact fresh.lastVote
  obtain ⟨invariant', le, recorded⟩ := moved
  refine ⟨invariant', le, ?_, ?_, ?_⟩
  · intro vote returned
    obtain ⟨vote', found, same⟩ := Except.map_eq_ok.mp returned
    cases same
    exact recorded vote found
  · intro _ _ impossible
    cases impossible
  · intro _ _ _ impossible
    cases impossible

theorem OrderVoted.answered {proposal : OrderVoteProposal} {outcome : Except Error OrderVote}
    (invariant : s.Invariant) (voted : OrderVoted s proposal outcome s') :
    Answered s (.constructAndSignOrderVote proposal) (outcome.map .orderVote) s' := by
  rcases voted.result with ⟨stored, none⟩ | ⟨proposalOk, later, stored, -⟩
  · refine Silent.answered ?_ ⟨voted.coherent, stored ▸ invariant.sound⟩ (.of_eq stored)
    intro reply returned
    obtain ⟨vote, found, -⟩ := Except.map_eq_ok.mp returned
    exact absurd found (none vote)
  have epoch : s'.stored.epoch = s.stored.epoch := by
    rw [stored, observeQc_eq]
  have grows : s.stored.Grows s'.stored := stored ▸ observeQc_grows _ _
  refine ⟨⟨voted.coherent, stored ▸ invariant.sound.observeQc _⟩, .inr ⟨epoch.symm, grows⟩,
    ?_, ?_, ?_⟩
  · intro vote returned
    exact absurd returned (Except.map_ne_ok nofun)
  · intro proposal' vote same _
    cases same
    refine ⟨proposalOk.epoch, epoch, later, ?_⟩
    rw [stored, observeQc_eq]
    exact le_max_right _ _
  · intro _ _ _ impossible
    cases impossible

omit [Crypto] in
theorem TimedOut.answered {timeout : TwoChainTimeout} {outcome : Except Error Signature}
    (invariant : s.Invariant)
    (timedOut : TimedOut s timeout timeoutCert outcome s') :
    Answered s (.signTimeoutWithQc timeout timeoutCert) (outcome.map .timeout) s' := by
  rcases timedOut.result with ⟨stored, none⟩ | ⟨epoch, safe, recorded⟩
  · refine Silent.answered ?_ ⟨timedOut.coherent, stored ▸ invariant.sound⟩ (.of_eq stored)
    intro reply returned
    obtain ⟨signature, found, -⟩ := Except.map_eq_ok.mp returned
    exact absurd found (none signature)
  obtain ⟨le, stored⟩ := recordTimeout_ok recorded
  have sameEpoch : s'.stored.epoch = s.stored.epoch := by rw [stored]
  have grows : s.stored.Grows s'.stored := by
    rw [stored]
    exact ⟨le, le_rfl, le_rfl, le_max_left _ _, .inl rfl⟩
  have sound : s'.stored.Sound := by
    intro vote found
    rw [stored] at found ⊢
    obtain ⟨epoch, round, parent⟩ := invariant.sound vote found
    exact ⟨epoch, round.trans le, parent⟩
  refine ⟨⟨timedOut.coherent, sound⟩, .inr ⟨sameEpoch.symm, grows⟩, ?_, ?_, ?_⟩
  · intro vote returned
    exact absurd returned (Except.map_ne_ok nofun)
  · intro _ _ impossible
    cases impossible
  intro timeout' timeoutCert' signature same _
  cases same
  refine ⟨epoch, sameEpoch, ?_, ?_, ?_⟩
  · rw [stored]
    exact safeToTimeout_ok safe
  · rw [stored]
  · rw [stored]
    exact le_max_right _ _

theorem signProposal_keeps (coherent : s.Coherent) {blockData : BlockData} :
    Keeps (guardedSignProposal blockData) s := by
  have author : ∀ s', Keeps (verifyAuthor blockData.author) s' := by
    intro s'
    refine Keeps.bind signer_reads.keeps ?_
    intro signer s'' _
    cases blockData.author with
    | none | some author => exact ⟨rfl, id⟩
  refine Keeps.bind signer_reads.keeps ?_
  intro _ s₁ kept₁
  refine Keeps.bind (author s₁) ?_
  intro _ s₂ kept₂
  refine Keeps.bind (safetyData_reads (kept₂.coherent (kept₁.coherent coherent))).keeps ?_
  intro data s₃ _
  refine Keeps.bind Reads.check.keeps ?_
  intro _ s₄ _
  refine Keeps.bind Reads.check.keeps ?_
  intro _ s₅ _
  refine Keeps.bind verifyQc_reads.keeps ?_
  intro _ s₆ _
  refine Keeps.bind Reads.check.keeps ?_
  intro _ s₇ _
  exact sign_reads.keeps

theorem signCommitVote_keeps {ledgerInfo : LedgerInfoWithSignatures} {newLedgerInfo : LedgerInfo} :
    Keeps (guardedSignCommitVote ledgerInfo newLedgerInfo) s := by
  refine Keeps.bind signer_reads.keeps ?_
  intro _ s₁ _
  refine Keeps.bind Reads.check.keeps ?_
  intro _ s₂ _
  refine Keeps.bind Reads.check.keeps ?_
  intro _ s₃ _
  refine Keeps.bind ⟨rfl, id⟩ ?_
  intro current s₄ _
  split
  · exact sign_reads.keeps
  refine Keeps.bind getEpochState_reads.keeps ?_
  intro _ s₅ _
  refine Keeps.bind Reads.check.keeps ?_
  intro _ s₆ _
  exact sign_reads.keeps

theorem serve_ensures (invariant : s.Invariant) (request : Request) :
    Ensures (serve request) s (Answered s request) := by
  have silent : ∀ reply : Reply, ((∀ vote, reply ≠ .vote vote) ∧
      (∀ vote, reply ≠ .orderVote vote) ∧ ∀ signature, reply ≠ .timeout signature) →
      Silent (.ok reply) := by
    intro reply none reply' same
    cases same
    exact none
  cases request with
  | initializeWith proof =>
    exact ensures_reply (initialize_ensures invariant.coherent)
      fun _ _ initialized => initialized.answered invariant
  | signProposal blockData =>
    exact (signProposal_keeps invariant.coherent).answered invariant fun _ => silent _ (by simp)
  | signCommitVote ledgerInfo newLedgerInfo =>
    exact signCommitVote_keeps.answered invariant fun _ => silent _ (by simp)
  | restart enableCachedSafetyData skipSigVerify =>
    refine (silent _ (by simp)).answered ⟨?_, invariant.sound⟩ (SafetyData.Le.refl _)
    intro data impossible
    cases impossible
  | constructAndSignVoteTwoChain now proposal timeoutCert =>
    exact ensures_reply (vote_ensures invariant.coherent) fun _ _ voted => voted.answered invariant
  | constructAndSignOrderVote proposal =>
    exact ensures_reply (orderVote_ensures invariant.coherent)
      fun _ _ voted => voted.answered invariant
  | signTimeoutWithQc timeout timeoutCert =>
    exact ensures_reply (timeout_ensures invariant.coherent)
      fun _ _ timedOut => timedOut.answered invariant

variable {outcomes : List StorageOutcome}

section

variable (coherent : (s.withOutcomes outcomes).Coherent)

include coherent

theorem step_vote
    (now : Nat) (proposal : VoteProposal) (timeoutCert : Option TwoChainTimeoutCertificate) :
    ∃ outcome s', step (.constructAndSignVoteTwoChain now proposal timeoutCert, outcomes) s =
      (outcome.map .vote, s') ∧
        Voted (s.withOutcomes outcomes) now proposal timeoutCert outcome s' :=
  ⟨_, _, exec_bind_pure _ _ _, vote_ensures coherent⟩

theorem step_orderVote (proposal : OrderVoteProposal) :
    ∃ outcome s', step (.constructAndSignOrderVote proposal, outcomes) s =
      (outcome.map .orderVote, s') ∧ OrderVoted (s.withOutcomes outcomes) proposal outcome s' :=
  ⟨_, _, exec_bind_pure _ _ _, orderVote_ensures coherent⟩

theorem step_timeout (timeout : TwoChainTimeout) (timeoutCert : Option TwoChainTimeoutCertificate) :
    ∃ outcome s', step (.signTimeoutWithQc timeout timeoutCert, outcomes) s =
      (outcome.map .timeout, s') ∧
        TimedOut (s.withOutcomes outcomes) timeout timeoutCert outcome s' :=
  ⟨_, _, exec_bind_pure _ _ _, timeout_ensures coherent⟩

end

theorem step_answered (invariant : s.Invariant) (call : Call) :
    Answered s call.1 (step call s).1 (step call s).2 := by
  have invariant' : (s.withOutcomes call.2).Invariant := ⟨invariant.coherent, invariant.sound⟩
  have served := serve_ensures invariant' call.1
  exact ⟨served.invariant, served.le, served.vote, served.orderVote, served.timeout⟩

/-! ## Whole runs -/

omit [Crypto] in
theorem Initial.invariant (initial : s.Initial) : s.Invariant :=
  ⟨initial.coherent, initial.stored ▸ start_sound 1⟩

namespace Run

/-- Two votes for one epoch and round carry one ledger info. -/
def SameVote (e e' : Event) : Prop :=
  ∀ vote vote', e.response = .ok (.vote vote) → e'.response = .ok (.vote vote') →
    vote.epoch = vote'.epoch → vote.round = vote'.round → vote.ledgerInfo = vote'.ledgerInfo

/-- A returned timeout signature. -/
def TimesOut (e : Event) (timeout : TwoChainTimeout) : Prop :=
  ∃ timeoutCert signature, e.request.1 = .signTimeoutWithQc timeout timeoutCert ∧
    e.response = .ok (.timeout signature)

/-- An order vote returned for a proposal. -/
def OrderVotes (e : Event) (proposal : OrderVoteProposal) (vote : OrderVote) : Prop :=
  e.request.1 = .constructAndSignOrderVote proposal ∧ e.response = .ok (.orderVote vote)

/-- An order vote is for the block that the certificate of its proposal certifies; that is the
proposed block by its id, and the certificate was checked. -/
def OrderVoteNames (e : Event) : Prop :=
  ∀ proposal vote, OrderVotes e proposal vote →
    vote.ledgerInfo = ⟨proposal.quorumCert.certifiedBlock, .zero⟩ ∧
      proposal.quorumCert.certifiedBlock.id = proposal.block.id ∧
      e.before.Verified fun v => proposal.quorumCert.verify v = .ok ()

/-- A timeout bars later votes and order votes up to its round, except for the vote that
was on record. -/
structure TimeoutBars (e e' : Event) : Prop where
  vote : ∀ timeout vote, TimesOut e timeout → e'.response = .ok (.vote vote) →
    vote.epoch = timeout.epoch → vote.round ≤ timeout.round → e.after.stored.lastVote = some vote
  orderVote : ∀ timeout proposal vote, TimesOut e timeout → OrderVotes e' proposal vote →
    proposal.block.epoch = timeout.epoch → timeout.round < proposal.block.round

/-- A vote or order vote of `epoch` that observed a certificate of `round`.  What a vote
observed is the certificate of the parent it names: a vote that is sent again for another
proposal of its round observes nothing new. -/
inductive Observes (e : Event) (epoch : Nat) (round : Round) : Prop
  | vote {vote : Vote} : e.response = .ok (.vote vote) → vote.epoch = epoch →
      vote.voteData.parent.round = round → Observes e epoch round
  | orderVote {proposal : OrderVoteProposal} {vote : OrderVote} : OrderVotes e proposal vote →
      proposal.block.epoch = epoch → proposal.quorumCert.certifiedBlock.round = round →
      Observes e epoch round

/-- A timeout names a certificate no older than one observed before in its epoch. -/
def TimeoutCovers (e e' : Event) : Prop :=
  ∀ epoch round timeout, Observes e epoch round → TimesOut e' timeout →
    timeout.epoch = epoch → round ≤ timeout.hqcRound

/-- The same for timeouts of any epoch. -/
def TimeoutCoversAllEpochs (e e' : Event) : Prop :=
  ∀ epoch round timeout, Observes e epoch round → TimesOut e' timeout → round ≤ timeout.hqcRound

end Run

/-- A call and a later one, with the record between them. -/
structure Precedes (e e' : Run.Event) : Prop where
  first : Answered e.before e.request.1 e.response e.after
  second : Answered e'.before e'.request.1 e'.response e'.after
  between : e.after.stored.Le e'.before.stored

section

variable (invariant : s.Invariant)

include invariant

theorem trace_invariant (calls : List Call) :
    ∀ e ∈ trace step calls s, e.Of step ∧ e.before.Invariant := by
  have preserved : ∀ call t, Invariant t → Invariant (step call t).2 :=
    fun call _ invariant => (step_answered invariant call).invariant
  exact trace_forall preserved invariant

theorem trace_orderVoteNames (calls : List Call) :
    ∀ e ∈ trace step calls s, Run.OrderVoteNames e := by
  intro e mem proposal vote orderVotes
  obtain ⟨request, response⟩ := orderVotes
  obtain ⟨of, before⟩ := trace_invariant invariant calls e mem
  have coherent : (e.before.withOutcomes e.request.2).Coherent := before.coherent
  obtain ⟨outcome, s', stepped, voted⟩ := step_orderVote coherent proposal
  rw [← request] at stepped
  have same : outcome.map .orderVote = e.response := congrArg Prod.fst (stepped.symm.trans of)
  rw [← same] at response
  obtain ⟨vote, found, same⟩ := Except.map_eq_ok.mp response
  cases same
  rcases voted.result with ⟨-, none⟩ | ⟨proposalOk, -, -, returned⟩
  · exact absurd found (none vote)
  · refine ⟨?_, proposalOk.id, proposalOk.qc⟩
    rw [returned vote found, proposalOk.blockInfo]

theorem trace_answered (calls : List Call) :
    ∀ e ∈ trace step calls s, Answered e.before e.request.1 e.response e.after := by
  intro e mem
  obtain ⟨of, before⟩ := trace_invariant invariant calls e mem
  have answered := step_answered before e.request
  rw [of] at answered
  exact answered

theorem trace_precedes (calls : List Call) : (trace step calls s).Pairwise Precedes := by
  have ordered : (trace step calls s).Pairwise fun e e' => e.after.stored.Le e'.before.stored :=
    trace_pairwise (R := fun (a b : SafetyRules) => a.stored.Le b.stored)
      (fun _ => SafetyData.Le.refl _) SafetyData.Le.trans
      (fun call _ invariant => (step_answered invariant call).invariant)
      (fun call _ invariant => (step_answered invariant call).le) invariant
  refine ordered.imp_of_mem ?_
  intro e e' mem mem' between
  exact ⟨trace_answered invariant calls e mem, trace_answered invariant calls e' mem', between⟩

end

section Precedes

variable {e e' : Run.Event}

omit [Crypto]

section

variable (precedes : Precedes e e')

include precedes

/-- A later vote of the same epoch is the recorded one, or new to the record. -/
theorem Precedes.vote {vote : Vote}
    (returned : e'.response = .ok (.vote vote)) (epoch : vote.epoch = e.after.stored.epoch) :
    e.after.stored.lastVote = some vote ∨ e.after.stored.lastVotedRound < vote.round := by
  have recorded := precedes.second.vote vote returned
  have sameEpoch := (precedes.second.invariant.sound vote recorded).1
  have grows := (precedes.between.trans precedes.second.le).grows (epoch.symm.trans sameEpoch)
  rcases grows.lastVote with same | ⟨vote', found, later⟩
  · exact .inl (same ▸ recorded)
  · rw [recorded] at found
    cases found
    exact .inr later

theorem Precedes.sameVote : Run.SameVote e e' := by
  intro vote vote' returned returned' epoch round
  have recorded := precedes.first.vote vote returned
  obtain ⟨voteEpoch, le, -⟩ := precedes.first.invariant.sound vote recorded
  rcases precedes.vote returned' (epoch.symm.trans voteEpoch) with same | later
  · rw [recorded] at same
    cases same
    rfl
  · exact absurd (round ▸ le) later.not_ge

theorem Precedes.timeoutBars : Run.TimeoutBars e e' := by
  constructor
  · intro timeout vote timesOut returned epoch round
    obtain ⟨timeoutCert, signature, request, response⟩ := timesOut
    obtain ⟨before, after, -, voted, -⟩ :=
      precedes.first.timeout timeout timeoutCert signature request response
    rcases precedes.vote returned (epoch.trans (before.trans after.symm)) with same | later
    · exact same
    · exact absurd (round.trans voted) later.not_ge
  · intro timeout proposal vote timesOut orderVotes epoch
    obtain ⟨timeoutCert, signature, request, response⟩ := timesOut
    obtain ⟨request', response'⟩ := orderVotes
    obtain ⟨before, after, -, -, timedOut⟩ :=
      precedes.first.timeout timeout timeoutCert signature request response
    obtain ⟨blockEpoch, -, later, -⟩ := precedes.second.orderVote proposal vote request' response'
    have grows := precedes.between.grows (by omega)
    exact (timedOut.trans grows.highestTimeoutRound).trans_lt later

theorem Precedes.timeoutCovers : Run.TimeoutCovers e e' := by
  intro epoch round timeout observes timesOut sameEpoch
  obtain ⟨timeoutCert, signature, request, response⟩ := timesOut
  obtain ⟨before, after, covered, -⟩ :=
    precedes.second.timeout timeout timeoutCert signature request response
  have observed : e.after.stored.epoch = epoch ∧ round ≤ e.after.stored.oneChainRound := by
    cases observes with
    | vote returned voteEpoch parent =>
      have recorded := precedes.first.vote _ returned
      obtain ⟨epoch', -, le⟩ := precedes.first.invariant.sound _ recorded
      exact ⟨epoch'.symm.trans voteEpoch, parent ▸ le⟩
    | orderVote orderVotes blockEpoch certified =>
      obtain ⟨request', response'⟩ := orderVotes
      obtain ⟨epoch', after, -, le⟩ := precedes.first.orderVote _ _ request' response'
      exact ⟨after.trans (epoch'.symm.trans blockEpoch), certified ▸ le⟩
  have grows := (precedes.between.trans precedes.second.le).grows (by omega)
  exact observed.2.trans (grows.oneChainRound.trans covered)

end

end Precedes

/-- **Voting discipline.**  In every run of an instance:
votes for one epoch and round agree; a timeout bars votes and order votes up to its round;
a timeout covers what was observed before in its epoch; an order vote is for the certified
block of its proposal; the record only moves forward. -/
theorem voting_discipline (initial : s.Initial) (calls : List Call) :
    (trace step calls s).Pairwise Run.SameVote ∧
    (trace step calls s).Pairwise Run.TimeoutBars ∧
    (trace step calls s).Pairwise Run.TimeoutCovers ∧
    (∀ e ∈ trace step calls s, Run.OrderVoteNames e) ∧
    (∀ e ∈ trace step calls s, e.before.stored.Advances e.after.stored) ∧
    (trace step calls s).Pairwise fun e e' => e.after.stored.Advances e'.before.stored := by
  have precedes := trace_precedes initial.invariant calls
  refine ⟨precedes.imp Precedes.sameVote, precedes.imp Precedes.timeoutBars,
    precedes.imp Precedes.timeoutCovers, trace_orderVoteNames initial.invariant calls, ?_,
    precedes.imp fun before => before.between.advances⟩
  intro e mem
  exact (trace_answered initial.invariant calls e mem).le.advances

end SafetyRules

/-! ## A run across an epoch change

In epoch 1 a validator votes, times out, sends its vote again, order votes and times out
again.  It then enters epoch 2 and times out there in round 1, with a certificate of round
0: the rounds it observed in epoch 1 are gone from the record. -/

namespace EpochCrossing

local instance crypto : Crypto :=
  .ofRounds ⟨fun signature _ key => signature == key, List.head?, List.head?,
    fun signature _ keys => keys.all (signature == ·)⟩ fun key _ => some key

def epochState (epoch : Nat) : EpochState := ⟨epoch, .new [⟨1, 7, 1⟩]⟩

def blockInfo (epoch round : Nat) : BlockInfo := ⟨epoch, round, round + 1, 0, 0, 0, none⟩

def certificate (epoch round : Nat) : QuorumCert :=
  ⟨⟨blockInfo epoch round, blockInfo epoch (round - 1)⟩, ⟨⟨BlockInfo.empty, 0⟩, ⟨⟨[]⟩, none⟩⟩⟩

def block (round : Nat) : Block := ⟨⟨1, round, 0, certificate 1 (round - 1), .nilBlock []⟩, none⟩

def start : SafetyRules where
  persistentStorage :=
    { enableCachedSafetyData := true
      cachedSafetyData := none
      internalStore := ⟨SafetyData.start 1, ⟨0, 1⟩, 1, some 7, [], []⟩ }
  validatorSigner := some ⟨1, 7⟩
  epochState := some (epochState 1)
  skipSigVerify := true

def proposal : VoteProposal := ⟨⟨[], 0, []⟩, block 2, none, true⟩

def epochChange : EpochChangeProof :=
  ⟨[⟨⟨⟨1, 5, 6, 0, 0, 0, some (epochState 2)⟩, 0⟩, ⟨⟨[]⟩, none⟩⟩], false⟩

def timeout : TwoChainTimeout := ⟨2, 1, certificate 2 0⟩

def calls : List SafetyRules.Call :=
  [(.constructAndSignVoteTwoChain 0 proposal none, []),
    (.signTimeoutWithQc ⟨1, 2, certificate 1 1⟩ none, []),
    (.constructAndSignVoteTwoChain 0 proposal none, []),
    (.constructAndSignOrderVote ⟨block 3, blockInfo 1 3, certificate 1 3⟩, []),
    (.signTimeoutWithQc ⟨1, 4, certificate 1 3⟩ none, []),
    (.initializeWith epochChange, []),
    (.signTimeoutWithQc timeout none, [])]

def vote : Vote := Vote.newWithSignature ⟨blockInfo 1 2, blockInfo 1 1⟩ 1 ⟨blockInfo 1 1, 3⟩ 7

theorem start_initial : start.Initial := by
  refine ⟨rfl, ?_⟩
  intro data impossible
  cases impossible

/-- The run above meets the discipline. -/
theorem disciplined :
    (trace SafetyRules.step calls start).Pairwise SafetyRules.Run.SameVote ∧
    (trace SafetyRules.step calls start).Pairwise SafetyRules.Run.TimeoutBars ∧
    (trace SafetyRules.step calls start).Pairwise SafetyRules.Run.TimeoutCovers ∧
    (∀ e ∈ trace SafetyRules.step calls start, SafetyRules.Run.OrderVoteNames e) ∧
    (∀ e ∈ trace SafetyRules.step calls start, e.before.stored.Advances e.after.stored) ∧
    (trace SafetyRules.step calls start).Pairwise
      fun e e' => e.after.stored.Advances e'.before.stored :=
  SafetyRules.voting_discipline start_initial calls

/-- The vote of epoch 1 observed round 1; the timeout of epoch 2 names round 0. -/
theorem timeout_below_observed_round :
    start.Initial ∧ ¬ (trace SafetyRules.step calls start).Pairwise
      SafetyRules.Run.TimeoutCoversAllEpochs := by
  refine ⟨start_initial, ?_⟩
  intro covers
  have outer := List.pairwise_iff_getElem.mp covers 0 6 (by decide) (by decide) (by decide)
  have voted : (trace SafetyRules.step calls start)[0].response = .ok (.vote vote) := rfl
  have le : 1 ≤ timeout.hqcRound :=
    outer 1 1 timeout (.vote voted rfl rfl) ⟨none, 7, rfl, rfl⟩
  exact absurd le (by decide)

end EpochCrossing

end CreditChain
