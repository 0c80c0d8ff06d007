import CreditChain.Governance.Governance

/-!
# Approved hashes over runs

Any accounts call governance at times that do not decrease, and everything that a call reads of
other modules may change between two calls.

The list of approved hashes does not follow the proposals in every run.  Anyone can have the hash
of a resolved proposal put back, and votes against a proposal that was successful early can let it
fail while its hash stays.
-/

namespace CreditChain.Governance

open Table GovernanceState Option

/-! ## Runs -/

inductive Call where
  | createProposalV2 (proposer stakePool : Address)
      (executionHash metadataLocation metadataHash : List UInt8) (isMultiStepProposal : Bool)
  | vote (voter stakePool : Address) (proposalId : Nat) (shouldPass : Bool)
  | partialVote (voter stakePool : Address) (proposalId votingPower : Nat) (shouldPass : Bool)
  | addApprovedScriptHashScript (proposalId : Nat)
  | resolve (proposalId : Nat) (signerAddress : Address)
  | resolveMultiStepProposal (proposalId : Nat) (signerAddress : Address)
      (nextExecutionHash : List UInt8)

namespace Call

def run (env : GovernanceEnv) (s : GovernanceState) : Call → Checked GovernanceState
  | createProposalV2 proposer stakePool executionHash metadataLocation metadataHash multi =>
    s.createProposalV2 env proposer stakePool executionHash metadataLocation metadataHash multi
  | vote voter stakePool proposalId shouldPass => s.vote env voter stakePool proposalId shouldPass
  | partialVote voter stakePool proposalId votingPower shouldPass =>
    s.partialVote env voter stakePool proposalId votingPower shouldPass
  | addApprovedScriptHashScript proposalId => s.addApprovedScriptHashScript env proposalId
  | resolve proposalId signerAddress => (s.resolve env proposalId signerAddress).map (·.1)
  | resolveMultiStepProposal proposalId signerAddress nextExecutionHash =>
    (s.resolveMultiStepProposal env proposalId signerAddress nextExecutionHash).map (·.1)

/-- The proposal that the call votes on. -/
def votesOn : Call → Option Nat
  | vote _ _ proposalId _ => some proposalId
  | partialVote _ _ proposalId _ _ => some proposalId
  | _ => none

/-- The proposal of which the call resolves a step, and the hash of the step after it. -/
def resolvesStep : Call → Option (Nat × List UInt8)
  | resolve proposalId _ => some (proposalId, [])
  | resolveMultiStepProposal proposalId _ nextExecutionHash => some (proposalId, nextExecutionHash)
  | _ => none

end Call

/-- The state, the time of the last call and what happened so far: the time of the last vote on
each proposal, and the proposals of which the last step was resolved. -/
structure World where
  state : GovernanceState
  now : Nat
  lastVote : Table Nat Nat
  resolved : List Nat
  deriving DecidableEq

namespace World

def proposal? (w : World) (id : Nat) : Option Proposal := w.state.forum.proposals.find? id

def noteVote (w : World) (env : GovernanceEnv) (call : Call) : Table Nat Nat :=
  match call.votesOn with
  | some id => w.lastVote.insert id env.now
  | none => w.lastVote

def noteResolution (w : World) (call : Call) : List Nat :=
  match call.resolvesStep with
  | some (id, []) => id :: w.resolved
  | _ => w.resolved

/-- A call that does not abort, at a time that is not before the last call. -/
def step (input : GovernanceEnv × Call) (w : World) : Option World :=
  if w.now ≤ input.1.now then
    (input.2.run input.1 w.state).committed.map fun state =>
      { state
        now := input.1.now
        lastVote := w.noteVote input.1 input.2
        resolved := w.noteResolution input.2 }
  else none

/-- Governance before the first proposal. -/
structure Initial (w : World) : Prop where
  forum : w.state.forum = .empty
  records : w.state.votingRecordsV2.getD .empty = .empty
  approved : w.state.approvedExecutionHashes = .empty
  lastVote : w.lastVote = .empty
  resolved : w.resolved = []

theorem step_eq_some {w w' : World} {env : GovernanceEnv} {call : Call}
    (done : step (env, call) w = some w') :
    w.now ≤ env.now ∧ ∃ state, call.run env w.state = .ok state ∧
      w' = ⟨state, env.now, w.noteVote env call, w.noteResolution call⟩ := by
  unfold step at done
  split at done
  · rename_i le
    rw [map_eq_some_iff] at done
    obtain ⟨state, committed, rfl⟩ := done
    exact ⟨le, state, Checked.committed_eq_some.mp committed, rfl⟩
  · cases done

end World

section

variable {w w' : World} {env : GovernanceEnv} {id : Nat}

theorem find?_setProposal {forum : VotingForum} {p : Proposal} {a : Nat} :
    (forum.setProposal id p).proposals.find? a =
      if a = id then some p else forum.proposals.find? a :=
  find?_insert

/-- The calls that resolve a step have the same effect. -/
theorem run_resolvesStep {s s' : GovernanceState} {next : List UInt8} (call : Call)
    (resolves : call.resolvesStep = some (id, next)) (ran : call.run env s = .ok s') :
    ∃ p p', GovernanceState.Resolved env s s' id next p p' := by
  cases call with
  | resolve proposalId signerAddress =>
    cases resolves
    obtain ⟨⟨_, signer⟩, resolved, rfl⟩ := Except.map_eq_ok.mp ran
    exact resolve_effect resolved
  | resolveMultiStepProposal proposalId signerAddress hash =>
    cases resolves
    obtain ⟨⟨_, signer⟩, resolved, rfl⟩ := Except.map_eq_ok.mp ran
    exact resolveMultiStepProposal_effect resolved
  | _ => cases resolves

/-! ## Votes and times -/

/-- What is recorded about a proposal: its votes are the used power, and its attributes have the
time of its last vote. -/
structure Tracks (s : GovernanceState) (lastVote : Table Nat Nat) (resolved : List Nat)
    (id : Nat) : Prop where
  used : s.usedVotingPower id =
    (s.forum.proposals.find? id).elim 0 fun p => p.yesVotes + p.noVotes
  time : (s.forum.proposals.find? id).bind (fun p => p.metadata.find? .resolvableTime) =
    (lastVote.find? id).map Bcs.ofU64
  fits : ∀ time, lastVote.find? id = some time → time ≤ u64Max
  resolved : id ∈ resolved ↔ (s.forum.proposals.find? id).any (·.isResolved) = true

def Tracked (w : World) : Prop := ∀ id, Tracks w.state w.lastVote w.resolved id

theorem Tracked.initial (initial : w.Initial) : Tracked w := by
  intro id
  have none : w.state.forum.proposals.find? id = none := by
    rw [initial.forum]
    rfl
  refine ⟨?_, ?_, ?_, ?_⟩
  · rw [none, usedVotingPower, initial.records]
    rfl
  · rw [none, initial.lastVote]
    rfl
  · rw [initial.lastVote]
    intro time found
    cases found
  · rw [none, initial.resolved]
    simp

section

variable {s s' : GovernanceState} {lastVote : Table Nat Nat} {resolved : List Nat}

/-- Only what is read matters. -/
theorem Tracks.congr {a : Nat} (tracks : Tracks s lastVote resolved a)
    (proposal : s'.forum.proposals.find? a = s.forum.proposals.find? a)
    (used : s'.usedVotingPower a = s.usedVotingPower a) : Tracks s' lastVote resolved a := by
  refine ⟨?_, ?_, tracks.fits, ?_⟩
  · rw [used, proposal, tracks.used]
  · rw [proposal, tracks.time]
  · rw [proposal, tracks.resolved]

theorem Tracks.created {a : Nat} {p : Proposal} (tracks : Tracks s lastVote resolved a)
    (fresh : s.forum.proposals.find? a = none) (noVotes : p.yesVotes + p.noVotes = 0)
    (unresolved : p.isResolved = false) (noTime : p.metadata.find? .resolvableTime = none)
    (proposal : s'.forum.proposals.find? a = some p)
    (used : s'.usedVotingPower a = s.usedVotingPower a) : Tracks s' lastVote resolved a := by
  have before := tracks.used
  have timeBefore := tracks.time
  have resolvedBefore := tracks.resolved
  rw [fresh] at before timeBefore resolvedBefore
  refine ⟨?_, ?_, tracks.fits, ?_⟩
  · rw [used, proposal, before]
    exact noVotes.symm
  · rw [proposal, ← timeBefore]
    exact noTime
  · rw [resolvedBefore, proposal, any_some, unresolved]
    rfl

theorem Tracks.voted {votes : Nat} {shouldPass : Bool} {p : Proposal}
    (tracks : ∀ a, Tracks s lastVote resolved a)
    (voted : GovernanceState.Voted env s s' id votes shouldPass p) (a : Nat) :
    Tracks s' (lastVote.insert id env.now) resolved a := by
  by_cases same : a = id
  · subst same
    have proposal : s'.forum.proposals.find? a = some (p.voted env.now votes shouldPass) := by
      rw [voted.forum, find?_setProposal, if_pos rfl]
    have before := (tracks a).used
    rw [voted.found, elim_some] at before
    refine ⟨?_, ?_, ?_, ?_⟩
    · rw [proposal, elim_some, Proposal.voted_total, voted.used, if_pos rfl, before]
    · rw [proposal, find?_insert_self]
      exact find?_insert_self
    · rw [find?_insert_self]
      intro time now
      cases now
      exact env.nowFits
    · rw [(tracks a).resolved, proposal, voted.found]
      rfl
  · have proposal : s'.forum.proposals.find? a = s.forum.proposals.find? a := by
      rw [voted.forum, find?_setProposal, if_neg same]
    have kept : Tracks s' lastVote resolved a := by
      refine (tracks a).congr proposal ?_
      rw [voted.used, if_neg (Ne.symm same), add_zero]
    have time : (lastVote.insert id env.now).find? a = lastVote.find? a := find?_insert_of_ne same
    refine ⟨kept.used, ?_, ?_, kept.resolved⟩
    · rw [time, kept.time]
    · rw [time]
      exact kept.fits

theorem Tracks.resolvedStep {next : List UInt8} {p p' : Proposal}
    (tracks : ∀ a, Tracks s lastVote resolved a)
    (step : GovernanceState.Resolved env s s' id next p p') (a : Nat) :
    Tracks s' lastVote (if next.length = 0 then id :: resolved else resolved) a := by
  have used : s'.usedVotingPower a = s.usedVotingPower a := by
    rw [usedVotingPower, step.records]
    rfl
  by_cases same : a = id
  · subst same
    have proposal : s'.forum.proposals.find? a = some p' := by
      rw [step.forum, find?_setProposal, if_pos rfl]
    have before := tracks a
    have votes := step.resolution.toSameVotes
    refine ⟨?_, ?_, before.fits, ?_⟩
    · rw [used, proposal, before.used, step.found, elim_some, elim_some,
        votes.yesVotes, votes.noVotes]
    · rw [proposal, ← before.time, step.found]
      exact votes.resolvableTime
    rw [proposal, any_some, step.resolution.resolved]
    split
    · rename_i final
      simp [final]
    · rename_i final
      rw [before.resolved, step.found, any_some, step.may.unresolved]
      simp [final]
  · have kept := (tracks a).congr (by rw [step.forum, find?_setProposal, if_neg same]) used
    refine ⟨kept.used, kept.time, kept.fits, ?_⟩
    rw [← kept.resolved]
    split
    · rw [List.mem_cons, or_iff_right same]
    · rfl

end

/-- The list of resolved proposals after a call that resolves a step. -/
theorem noteResolution_eq (call : Call) {next : List UInt8}
    (resolves : call.resolvesStep = some (id, next)) :
    w.noteResolution call = if next.length = 0 then id :: w.resolved else w.resolved := by
  unfold World.noteResolution
  rw [resolves]
  cases next with
  | nil | cons byte bytes => rfl

/-- A call keeps the votes of every proposal equal to the power that is recorded as used for it, and
the time of its last vote. -/
theorem Tracked.step {call : Call} (tracked : Tracked w)
    (done : World.step (env, call) w = some w') : Tracked w' := by
  obtain ⟨-, state, ran, rfl⟩ := World.step_eq_some done
  intro a
  cases call with
  | createProposalV2 proposer stakePool hash location metadataHash multi =>
    obtain ⟨fresh, p, absent, yes, no, unresolved, noTime, proposals, records, -⟩ :=
      createProposalV2_effect ran
    have used : state.usedVotingPower a = w.state.usedVotingPower a := by
      rw [usedVotingPower, records]
      rfl
    by_cases same : a = fresh
    · subst same
      refine (tracked a).created absent ?_ unresolved noTime ?_ used
      · rw [yes, no]
      · rw [proposals, find?_insert_self]
    · refine (tracked a).congr ?_ used
      rw [proposals, find?_insert_of_ne same]
  | vote voter stakePool proposalId shouldPass
  | partialVote voter stakePool proposalId votingPower shouldPass =>
    obtain ⟨votes, p, -, voted⟩ := voteInternal_effect ran
    exact .voted tracked voted a
  | addApprovedScriptHashScript proposalId =>
    obtain ⟨p, -, -, rfl⟩ := addApprovedScriptHash_effect ran
    exact (tracked a).congr rfl rfl
  | resolve proposalId signerAddress
  | resolveMultiStepProposal proposalId signerAddress next =>
    obtain ⟨p, p', resolved⟩ := run_resolvesStep _ rfl ran
    rw [noteResolution_eq _ rfl]
    exact .resolvedStep tracked resolved a

/-! ## Approved hashes -/

/-- Every approved hash is the one of an open successful proposal. -/
def Approvals (s : GovernanceState) (now : Nat) : Prop :=
  ∀ id hash, s.approvedExecutionHashes.find? id = some hash →
    ∃ p, s.forum.proposals.find? id = some p ∧ p.isResolved = false ∧ p.Succeeded now ∧
      p.executionHash = hash

/-- A vote against a successful proposal leaves more votes in favour. -/
def LeavesMargin (env : GovernanceEnv) (s : GovernanceState) (stakePool : Address)
    (proposalId votingPower : Nat) (shouldPass : Bool) : Prop :=
  shouldPass = false → ∀ p votes, s.forum.proposals.find? proposalId = some p →
    p.Succeeded env.now → s.votesOf env stakePool proposalId votingPower = .ok votes →
    p.noVotes + votes < p.yesVotes

/-- No hash of a resolved proposal is put back, and a successful proposal stays successful. -/
def Careful (w : World) (input : GovernanceEnv × Call) : Prop :=
  match input.2 with
  | .vote _ stakePool proposalId shouldPass =>
    LeavesMargin input.1 w.state stakePool proposalId u64Max shouldPass
  | .partialVote _ stakePool proposalId votingPower shouldPass =>
    LeavesMargin input.1 w.state stakePool proposalId votingPower shouldPass
  | .addApprovedScriptHashScript proposalId =>
    ∀ p, w.proposal? proposalId = some p → p.isResolved = false
  | _ => True

section

variable {s s' : GovernanceState} {now : Nat}

theorem Approvals.later (approvals : Approvals s now) {time : Nat} (le : now ≤ time) :
    Approvals s time := by
  intro id hash listed
  obtain ⟨p, found, unresolved, succeeded, same⟩ := approvals id hash listed
  exact ⟨p, found, unresolved, succeeded.later le, same⟩

theorem Approvals.voted {stakePool : Address} {votingPower votes : Nat} {shouldPass : Bool}
    {p : Proposal} (approvals : Approvals s env.now)
    (margin : LeavesMargin env s stakePool id votingPower shouldPass)
    (counted : s.votesOf env stakePool id votingPower = .ok votes)
    (voted : GovernanceState.Voted env s s' id votes shouldPass p) : Approvals s' env.now := by
  intro a hash listed
  rw [voted.forum, find?_setProposal]
  rw [voted.approved] at listed
  split at listed
  · rename_i succeeded
    rw [find?_insert] at listed
    split_ifs at listed ⊢
    · cases listed
      exact ⟨_, rfl, voted.unresolved, succeeded, rfl⟩
    · exact approvals a hash listed
  rename_i succeeded
  obtain ⟨q, found, unresolved, before, hashed⟩ := approvals a hash listed
  by_cases same : a = id
  · subst same
    rw [voted.found] at found
    cases found
    obtain ⟨state, evaluated⟩ := voted.evaluated
    have stays := before.voted voted.running evaluated fun against =>
      margin against p votes voted.found before counted
    exact absurd stays succeeded
  · rw [if_neg same]
    exact ⟨q, found, unresolved, before, hashed⟩

theorem Approvals.resolvedStep {next : List UInt8} {p p' : Proposal}
    (approvals : Approvals s env.now)
    (step : GovernanceState.Resolved env s s' id next p p') : Approvals s' env.now := by
  intro a hash listed
  rw [step.forum, find?_setProposal]
  rw [step.approved] at listed
  have succeeded : p'.Succeeded env.now :=
    step.resolution.toSameVotes.succeeded.mpr step.may.succeeded
  by_cases same : a = id
  · subst same
    rw [if_pos rfl]
    split at listed
    · rw [find?_erase_self] at listed
      cases listed
    rename_i final
    rw [find?_insert_self] at listed
    cases listed
    refine ⟨p', rfl, ?_, succeeded, step.resolution.next final⟩
    rw [step.resolution.resolved, decide_eq_false final]
  · have kept : s.approvedExecutionHashes.find? a = some hash := by
      split at listed
      · rwa [find?_erase_of_ne same] at listed
      · rwa [find?_insert_of_ne same] at listed
    rw [if_neg same]
    exact approvals a hash kept

end

/-- A call of the right kind keeps every approved hash the one of an open successful proposal. -/
theorem Approvals.step {call : Call} (approvals : Approvals w.state w.now)
    (careful : Careful w (env, call)) (done : World.step (env, call) w = some w') :
    Approvals w'.state w'.now := by
  obtain ⟨le, state, ran, rfl⟩ := World.step_eq_some done
  have now := approvals.later le
  cases call with
  | createProposalV2 proposer stakePool hash location metadataHash multi =>
    obtain ⟨fresh, p, absent, -, -, -, -, proposals, -, approved⟩ := createProposalV2_effect ran
    intro a hash listed
    rw [show state.approvedExecutionHashes = _ from approved] at listed
    obtain ⟨q, found, rest⟩ := now a hash listed
    refine ⟨q, ?_, rest⟩
    have old : a ≠ fresh := by
      rintro rfl
      rw [absent] at found
      cases found
    rw [show state.forum.proposals = _ from proposals, find?_insert_of_ne old, found]
  | vote voter stakePool proposalId shouldPass
  | partialVote voter stakePool proposalId votingPower shouldPass =>
    obtain ⟨votes, p, counted, voted⟩ := voteInternal_effect ran
    exact now.voted careful counted voted
  | addApprovedScriptHashScript proposalId =>
    obtain ⟨p, found, succeeded, rfl⟩ := addApprovedScriptHash_effect ran
    intro a hash listed
    rw [find?_insert] at listed
    split at listed
    · rename_i same
      subst same
      cases listed
      exact ⟨p, found, careful p found, succeeded, rfl⟩
    · exact now a hash listed
  | resolve proposalId signerAddress
  | resolveMultiStepProposal proposalId signerAddress next =>
    obtain ⟨p, p', resolved⟩ := run_resolvesStep _ rfl ran
    exact now.resolvedStep resolved

/-! ## Over runs -/

/-- What a call must find to resolve a step: an open proposal that is successful now and has the
hash of the running script, and a last vote in an earlier second. -/
def ResolvesSoundly (w : World) : Prop :=
  ∀ env call id next w', call.resolvesStep = some (id, next) →
    World.step (env, call) w = some w' →
    ∃ p time, w.proposal? id = some p ∧ p.Succeeded env.now ∧ env.scriptHash = p.executionHash ∧
      w.lastVote.find? id = some time ∧ time < env.now ∧ id ∉ w.resolved

theorem resolvesSoundly_of_tracked (tracked : Tracked w) : ResolvesSoundly w := by
  intro env call id next w' resolves done
  obtain ⟨-, state, ran, -⟩ := World.step_eq_some done
  obtain ⟨p, p', step⟩ := run_resolvesStep call resolves ran
  obtain ⟨recorded, time, kept, read, later⟩ := step.may.later
  have times := (tracked id).time
  rw [step.found, bind_some, kept] at times
  obtain ⟨last, voted, same⟩ := map_eq_some_iff.mp times.symm
  have equal : some last = some time := by
    rw [← read, ← same, Bcs.toU64_ofU64 ((tracked id).fits last voted)]
  cases equal
  refine ⟨p, time, step.found, step.may.succeeded, step.may.hash, voted, later, ?_⟩
  rw [(tracked id).resolved, step.found, any_some, step.may.unresolved]
  exact Bool.false_ne_true

theorem approvals_over_runs {w : World}
    (reached : Run.Reaches World.step (fun _ _ => True) World.Initial w) :
    (∀ id p, w.proposal? id = some p → p.yesVotes + p.noVotes = w.state.usedVotingPower id) ∧
      ResolvesSoundly w ∧
      (Run.Reaches World.step Careful World.Initial w →
        ∀ time, w.now ≤ time → Approvals w.state time) := by
  have tracked : Tracked w := by
    refine reached.invariant (fun _ => .initial) ?_
    rintro s ⟨env, call⟩ s' tracked - done
    exact tracked.step done
  refine ⟨?_, resolvesSoundly_of_tracked tracked, ?_⟩
  · intro id p found
    rw [(tracked id).used, show w.state.forum.proposals.find? id = some p from found]
    rfl
  intro carefully time le
  refine .later ?_ le
  refine carefully.invariant (I := fun w => Approvals w.state w.now) ?_ ?_
  · intro w initial id hash listed
    rw [initial.approved] at listed
    cases listed
  · rintro s ⟨env, call⟩ s' approvals careful done
    exact approvals.step careful done

/-- **Decisions are final.**  Whatever is called after the voting period of a proposal, its votes
stay; and nothing of a resolved proposal changes. -/
theorem decision_final {p : Proposal} (found : w.proposal? id = some p)
    (closed : p.isResolved = true ∨ p.isVotingPeriodOver w.now = true)
    (later : Run.Reaches World.step (fun _ _ => True) (· = w) w') :
    w.now ≤ w'.now ∧ ∃ p', w'.proposal? id = some p' ∧ p.SameVotes p' ∧
      (p.isResolved = true → p' = p) := by
  induction later with
  | start first =>
    cases first
    exact ⟨le_rfl, p, found, ⟨rfl, rfl, rfl, rfl, rfl, rfl⟩, fun _ => rfl⟩
  | @step v v' input _ _ done ih =>
  obtain ⟨env, call⟩ := input
  obtain ⟨before, q, present, same, fixed⟩ := ih
  obtain ⟨passed, state, ran, rfl⟩ := World.step_eq_some done
  refine ⟨before.trans passed, ?_⟩
  unfold World.proposal? at present ⊢
  cases call with
  | createProposalV2 proposer stakePool hash location metadataHash multi =>
    obtain ⟨fresh, _, absent, -, -, -, -, proposals, -⟩ := createProposalV2_effect ran
    refine ⟨q, ?_, same, fixed⟩
    rwa [proposals, find?_insert_of_ne]
    rintro rfl
    exact some_ne_none q (present.symm.trans absent)
  | vote voter stakePool proposalId shouldPass
  | partialVote voter stakePool proposalId votingPower shouldPass =>
    obtain ⟨votes, q', -, voted⟩ := voteInternal_effect ran
    refine ⟨q, ?_, same, fixed⟩
    rwa [voted.forum, find?_setProposal, if_neg]
    rintro rfl
    cases present.symm.trans voted.found
    rcases closed with resolved | ended
    · exact Bool.false_ne_true (voted.unresolved.symm.trans (fixed resolved ▸ resolved))
    · have running := of_decide_eq_false voted.running
      rw [same.expirationSecs] at running
      exact running ((of_decide_eq_true ended).trans_le (before.trans passed))
  | addApprovedScriptHashScript proposalId =>
    obtain ⟨_, -, -, rfl⟩ := addApprovedScriptHash_effect ran
    exact ⟨q, present, same, fixed⟩
  | resolve proposalId signerAddress
  | resolveMultiStepProposal proposalId signerAddress next =>
    obtain ⟨q', q'', resolved⟩ := run_resolvesStep _ rfl ran
    simp only [resolved.forum, find?_setProposal]
    split_ifs with here
    · subst here
      cases present.symm.trans resolved.found
      have pending := resolved.may.unresolved
      obtain ⟨yes, no, least, ends, early, time⟩ := resolved.resolution.toSameVotes
      refine ⟨q'', rfl, ⟨yes.trans same.1, no.trans same.2, least.trans same.3, ends.trans same.4,
        early.trans same.5, time.trans same.6⟩, fun isResolved => ?_⟩
      rw [fixed isResolved, isResolved] at pending
      cases pending
    · exact ⟨q, present, same, fixed⟩

end

/-! ## Two runs -/

namespace HalfOfSupply

/-- Two pools; the one of voter 7 has more than half of a supply of 10, and that of voter 8 has
`power`. -/
def env (now power : Nat) (nowFits : now ≤ u64Max) : GovernanceEnv where
  now
  nowFits
  config := ⟨1, 1, 100⟩
  stake := { StakeState.initial with
    pools := fun pool =>
      if pool = 1 then some ⟨6, 0, 0, 0, 1000, 7, 7⟩
      else if pool = 2 then some ⟨power, 0, 0, 0, 1000, 8, 8⟩
      else none }
  allowValidatorSetChange := true
  supply := some 10
  scriptHash := [5]
  signerCaps := [1]
  isMasterSigner := true
  governancePermission := true
  isUtf8 := fun _ => true

def before : World where
  state := ⟨.empty, .empty, some .empty, .empty⟩
  now := 0
  lastVote := .empty
  resolved := []

theorem before_initial : before.Initial := ⟨rfl, rfl, rfl, rfl, rfl⟩

/-- The proposal is made, and voter 7 votes for it. -/
def approve : List (GovernanceEnv × Call) :=
  [(env 10 4 (by decide), .createProposalV2 7 1 [5] [] [] false),
    (env 11 4 (by decide), .vote 7 1 0 true)]

/-- The proposal is resolved, and its hash is put back. -/
def resolveAndPutBack : List (GovernanceEnv × Call) :=
  [(env 12 4 (by decide), .resolve 0 1), (env 13 4 (by decide), .addApprovedScriptHashScript 0)]

/-- Voter 8 votes against it, with stake that was not there when the proposal was made. -/
def voteAgainst : List (GovernanceEnv × Call) := [(env 12 9 (by decide), .vote 8 2 0 false)]

/-- Another proposal, after the voting period of the first. -/
def another : List (GovernanceEnv × Call) :=
  [(env 120 4 (by decide), .createProposalV2 8 2 [5] [] [] false),
    (env 121 4 (by decide), .vote 8 2 1 true)]

def after (inputs : List (GovernanceEnv × Call)) : World :=
  (inputs.foldlM (fun w input => World.step input w) before).getD before

theorem reached {inputs : List (GovernanceEnv × Call)}
    (runs : (inputs.foldlM (fun w input => World.step input w) before).isSome = true) :
    Run.Reaches World.step (fun _ _ => True) World.Initial (after inputs) := by
  obtain ⟨w, done⟩ := isSome_iff_exists.mp runs
  unfold after
  rw [done]
  exact (Run.Reaches.start before_initial).of_foldlM (fun _ _ => trivial) done

theorem approvals_over_runs_half :
    Run.Reaches World.step Careful World.Initial (after approve) ∧
      (after approve).state.approvedExecutionHashes.find? 0 = some [5] ∧
      Approvals (after approve).state (after approve).now := by
  have carefully : Run.Reaches World.step Careful World.Initial (after approve) := by
    refine (Run.Reaches.start before_initial).of_inputs approve ?_
    refine ⟨trivial, after (approve.take 1), by decide +kernel, ?_, _, by decide +kernel, rfl⟩
    exact fun against => absurd against (by decide)
  refine ⟨carefully, by decide +kernel, ?_⟩
  exact (approvals_over_runs (reached (by decide +kernel))).2.2 carefully _ le_rfl

/-- A resolved proposal and one that has failed stay as they are. -/
theorem resolved_stays :
    (after (approve ++ resolveAndPutBack)).proposal? 0 =
      (after (approve ++ resolveAndPutBack.take 1)).proposal? 0 ∧
    ∃ p p', (after (approve ++ voteAgainst ++ another.take 1)).proposal? 0 = some p ∧
      p.getState 120 = .ok .failed ∧
      (after (approve ++ voteAgainst ++ another)).proposal? 0 = some p' ∧ p.SameVotes p' := by
  constructor
  · obtain ⟨p, found, resolved⟩ := (any_eq_true _ _).mp (by decide +kernel :
      ((after (approve ++ resolveAndPutBack.take 1)).proposal? 0).any (·.isResolved) = true)
    obtain ⟨-, p', found', -, kept⟩ := decision_final found (.inl resolved)
      (Run.Reaches.of_inputs (.start rfl) (resolveAndPutBack.drop 1)
        ⟨trivial, after (approve ++ resolveAndPutBack), by decide +kernel, rfl⟩)
    rw [found, found', kept resolved]
  · obtain ⟨p, found, ended⟩ := (any_eq_true _ _).mp (by decide +kernel :
      ((after (approve ++ voteAgainst ++ another.take 1)).proposal? 0).any (fun p =>
        p.isVotingPeriodOver 120 && decide (p.getState 120 = .ok .failed)) = true)
    obtain ⟨past, failed⟩ := Bool.and_eq_true_iff.mp ended
    obtain ⟨-, p', found', same, -⟩ := decision_final found (.inr past)
      (Run.Reaches.of_inputs (.start rfl) (another.drop 1)
        ⟨trivial, after (approve ++ voteAgainst ++ another), by decide +kernel, rfl⟩)
    exact ⟨p, p', found, of_decide_eq_true failed, found', same⟩

/-- The hash of a resolved proposal is approved, and so is the hash of one that fails. -/
theorem approved_without_open_success :
    (∃ w, Run.Reaches World.step (fun _ _ => True) World.Initial w ∧
      w.state.approvedExecutionHashes.find? 0 = some [5] ∧
      (w.proposal? 0).map (·.isResolved) = some true) ∧
    (∃ w, Run.Reaches World.step (fun _ _ => True) World.Initial w ∧
      w.state.approvedExecutionHashes.find? 0 = some [5] ∧
      (w.proposal? 0).map (·.getState w.now) = some (.ok .failed)) :=
  ⟨⟨after (approve ++ resolveAndPutBack), reached (by decide +kernel), by decide +kernel,
      by decide +kernel⟩,
    ⟨after (approve ++ voteAgainst), reached (by decide +kernel), by decide +kernel,
      by decide +kernel⟩⟩

end HalfOfSupply

end CreditChain.Governance
