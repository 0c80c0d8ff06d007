import CreditChain.Governance.Voting
import CreditChain.Staking.Stake

/-!
# Governance on chain

Stake pools propose and vote in the forum with their voting power.  For every proposal the power
that each pool has used is recorded, and the hash of the script of a successful proposal is put on
a list of approved hashes.  What a call reads of other modules is in its environment.
-/

namespace CreditChain

open Option

open CreditChain.Except (bind_eq_ok)

/-! ## State -/

structure RecordKey where
  stakePool : Address
  proposalId : Nat
  deriving DecidableEq

/-- What the module stores.  `votingRecords` is from the time before a pool could use a part of its
power; `votingRecordsV2` is there once that is possible. -/
structure GovernanceState where
  forum : VotingForum
  votingRecords : Table RecordKey Bool
  votingRecordsV2 : Option (Table RecordKey Nat)
  approvedExecutionHashes : Table Nat (List UInt8)
  deriving DecidableEq

structure GovernanceConfig where
  minVotingThreshold : Nat
  requiredProposerStake : Nat
  votingDurationSecs : Nat

/-- What a call reads of other modules: the clock in seconds, the configuration, the stake pools,
the supply of the coin, the hash of the running script, the accounts that governance can sign for,
the rights of the signer, and which bytes are a text. -/
structure GovernanceEnv where
  now : Nat
  nowFits : now ≤ u64Max
  config : GovernanceConfig
  stake : StakeState
  allowValidatorSetChange : Bool
  supply : Option Nat
  scriptHash : List UInt8
  signerCaps : List Address
  isMasterSigner : Bool
  governancePermission : Bool
  isUtf8 : List UInt8 → Bool

namespace GovernanceError

def insufficientProposerStake : Nat := 1
def notDelegatedVoter : Nat := 2
def insufficientStakeLockup : Nat := 3
def noVotingPower : Nat := 5
def proposalNotResolvableYet : Nat := 6
def proposalNotResolvedYet : Nat := 8
def metadataLocationTooLong : Nat := 9
def metadataHashTooLong : Nat := 10
def partialVotingNotInitialized : Nat := 13
def proposalExpired : Nat := 15
def noGovernancePermission : Nat := 16

-- of the permissioned signers and of the strings
def notMasterSigner : Nat := 1
def invalidUtf8 : Abort := .code 1

end GovernanceError

open GovernanceError

/-! ## Views of the stake pools -/

namespace StakeState

variable (s : StakeState) (poolAddress : Address)

def getLockupSecs : Checked Nat := do
  let stakePool ← s.getPool poolAddress
  return stakePool.lockedUntilSecs

def getDelegatedVoter : Checked Address := do
  let stakePool ← s.getPool poolAddress
  return stakePool.delegatedVoter

def getCurrentEpochVotingPower : Checked Nat := do
  let stakePool ← s.getPool poolAddress
  let validatorState := s.set.getValidatorState poolAddress
  if validatorState = .active ∨ validatorState = .pendingInactive then
    Checked.add u64Max stakePool.active stakePool.pendingInactive
  else return 0

end StakeState

namespace GovernanceEnv

variable (env : GovernanceEnv)

/-- All stake that is not inactive, where the validator set may change. -/
def getVotingPower (poolAddress : Address) : Checked Nat :=
  if env.allowValidatorSetChange = true then do
    let stakePool ← env.stake.getPool poolAddress
    let power ← Checked.add u64Max stakePool.active stakePool.pendingActive
    Checked.add u64Max power stakePool.pendingInactive
  else env.stake.getCurrentEpochVotingPower poolAddress

def checkGovernancePermission : Checked Unit :=
  ensure (env.governancePermission = true) (.permissionDenied noGovernancePermission)

def assertMasterSigner : Checked Unit :=
  ensure (env.isMasterSigner = true) (.permissionDenied notMasterSigner)

/-- The account that is signed for. -/
def getSigner (signerAddress : Address) : Checked Address := do
  ensure (signerAddress ∈ env.signerCaps) VotingError.keyNotFound
  return signerAddress

def createProposalMetadata (metadataLocation metadataHash : List UInt8) : Checked Metadata := do
  ensure (env.isUtf8 metadataLocation = true) invalidUtf8
  ensure (metadataLocation.length ≤ 256) (.invalidArgument metadataLocationTooLong)
  ensure (env.isUtf8 metadataHash = true) invalidUtf8
  ensure (metadataHash.length ≤ 256) (.invalidArgument metadataHashTooLong)
  let metadata ← Metadata.add .empty .metadataLocation metadataLocation
  metadata.add .metadataHash metadataHash

end GovernanceEnv

/-! ## The calls -/

namespace GovernanceState

variable (env : GovernanceEnv) (s : GovernanceState) (voter stakePool : Address)
  (proposalId votingPower : Nat) (shouldPass : Bool)

/-- The records of the used power; they have to be there. -/
def assertVotingInitialization : Checked (Table RecordKey Nat) :=
  Checked.orAbort s.votingRecordsV2 (.invalidState partialVotingNotInitialized)

def hasEntirelyVoted : Bool :=
  s.votingRecords.contains ⟨stakePool, proposalId⟩

/-- The power of a pool that is left for a proposal; what it has used may not exceed it. -/
def getRemainingVotingPower : Checked Nat := do
  let votes ← s.assertVotingInitialization
  let p ← s.forum.getProposal proposalId
  let lockupUntil ← env.stake.getLockupSecs stakePool
  if p.expirationSecs > lockupUntil ∨ env.now > p.expirationSecs then return 0
  else if s.hasEntirelyVoted stakePool proposalId = true then return 0
  else do
    let power ← env.getVotingPower stakePool
    Checked.sub power ((votes.find? ⟨stakePool, proposalId⟩).getD 0)

/-- The stake must be locked until the proposal expires. -/
def assertProposalExpiration : Checked Unit := do
  let _ ← s.assertVotingInitialization
  let p ← s.forum.getProposal proposalId
  let lockupUntil ← env.stake.getLockupSecs stakePool
  ensure (p.expirationSecs ≤ lockupUntil) (.invalidArgument insufficientStakeLockup)
  ensure (env.now ≤ p.expirationSecs) (.invalidArgument proposalExpired)

def createProposalV2 (proposer stakePool : Address)
    (executionHash metadataLocation metadataHash : List UInt8) (isMultiStepProposal : Bool) :
    Checked GovernanceState := do
  env.checkGovernancePermission
  let delegatedVoter ← env.stake.getDelegatedVoter stakePool
  ensure (delegatedVoter = proposer) (.invalidArgument notDelegatedVoter)
  let stakeBalance ← env.getVotingPower stakePool
  ensure (stakeBalance ≥ env.config.requiredProposerStake)
    (.invalidArgument insufficientProposerStake)
  let proposalExpiration ← Checked.add u64Max env.now env.config.votingDurationSecs
  let lockupUntil ← env.stake.getLockupSecs stakePool
  ensure (lockupUntil ≥ proposalExpiration) (.invalidArgument insufficientStakeLockup)
  let proposalMetadata ← env.createProposalMetadata metadataLocation metadataHash
  -- more than half of the supply; no later change of the supply is taken into account
  let earlyResolutionVoteThreshold := env.supply.map fun totalSupply => totalSupply / 2 + 1
  let forum ← s.forum.createProposalV2 env.now proposer executionHash
    env.config.minVotingThreshold proposalExpiration earlyResolutionVoteThreshold
    proposalMetadata isMultiStepProposal
  return { s with forum }

/-- Put the hash of a successful proposal on the list; whether it is resolved is not asked. -/
def addApprovedScriptHash : Checked GovernanceState := do
  let p ← s.forum.getProposal proposalId
  let state ← p.getState env.now
  ensure (state = .succeeded) (.invalidArgument proposalNotResolvableYet)
  return { s with
    approvedExecutionHashes := s.approvedExecutionHashes.insert proposalId p.executionHash }

/-- The votes of a call: all that is left, if more is asked for. -/
def votesOf : Checked Nat := do
  let remaining ← s.getRemainingVotingPower env stakePool proposalId
  return min votingPower remaining

/-- Count the votes as used by the pool. -/
def recordVotes (votes : Nat) : Checked GovernanceState := do
  let records ← Checked.borrow s.votingRecordsV2
  let used ← Checked.add u64Max ((records.find? ⟨stakePool, proposalId⟩).getD 0) votes
  return { s with votingRecordsV2 := some (records.insert ⟨stakePool, proposalId⟩ used) }

/-- Approve the proposal if the votes make it successful. -/
def approveIfSucceeded : Checked GovernanceState := do
  let p ← s.forum.getProposal proposalId
  let state ← p.getState env.now
  if state = .succeeded then s.addApprovedScriptHash env proposalId else return s

def voteInternal : Checked GovernanceState := do
  env.assertMasterSigner
  let delegatedVoter ← env.stake.getDelegatedVoter stakePool
  ensure (delegatedVoter = voter) (.invalidArgument notDelegatedVoter)
  s.assertProposalExpiration env stakePool proposalId
  let votes ← s.votesOf env stakePool proposalId votingPower
  ensure (votes > 0) (.invalidArgument noVotingPower)
  let forum ← s.forum.vote env.now proposalId votes shouldPass
  let recorded ← recordVotes { s with forum } stakePool proposalId votes
  recorded.approveIfSucceeded env proposalId

def vote : Checked GovernanceState :=
  s.voteInternal env voter stakePool proposalId u64Max shouldPass

def partialVote : Checked GovernanceState :=
  s.voteInternal env voter stakePool proposalId votingPower shouldPass

def addApprovedScriptHashScript : Checked GovernanceState :=
  s.addApprovedScriptHash env proposalId

/-- Only the hash of a resolved proposal is removed. -/
def removeApprovedHash : Checked GovernanceState := do
  let p ← s.forum.getProposal proposalId
  ensure (p.isResolved = true) (.invalidArgument proposalNotResolvedYet)
  return { s with approvedExecutionHashes := s.approvedExecutionHashes.erase proposalId }

/-- Resolve a proposal of one step, and sign for an account. -/
def resolve (signerAddress : Address) : Checked (GovernanceState × Address) := do
  let forum ← s.forum.resolve env.now env.scriptHash proposalId
  let s ← removeApprovedHash { s with forum } proposalId
  let signer ← env.getSigner signerAddress
  return (s, signer)

/-- After the last step the approved hash is removed, after another one it is replaced. -/
def updateApproved (nextExecutionHash : List UInt8) : Checked GovernanceState :=
  if nextExecutionHash.length = 0 then s.removeApprovedHash proposalId
  else s.addApprovedScriptHash env proposalId

/-- Resolve a step of a proposal, and sign for an account. -/
def resolveMultiStepProposal (signerAddress : Address) (nextExecutionHash : List UInt8) :
    Checked (GovernanceState × Address) := do
  let forum ← s.forum.resolveProposalV2 env.now env.scriptHash proposalId nextExecutionHash
  let s ← updateApproved env { s with forum } proposalId nextExecutionHash
  let signer ← env.getSigner signerAddress
  return (s, signer)

/-! ## What the calls do -/

variable {env : GovernanceEnv} {s s' : GovernanceState} {proposalId : Nat}

/-- The power that the pools have used for a proposal. -/
def usedVotingPower (s : GovernanceState) (proposalId : Nat) : Nat :=
  (s.votingRecordsV2.getD .empty).sum fun key power =>
    if key.proposalId = proposalId then power else 0

theorem addApprovedScriptHash_effect (done : s.addApprovedScriptHash env proposalId = .ok s') :
    ∃ p, s.forum.proposals.find? proposalId = some p ∧ p.Succeeded env.now ∧
      s' = { s with
        approvedExecutionHashes :=
          s.approvedExecutionHashes.insert proposalId p.executionHash } := by
  unfold addApprovedScriptHash at done
  simp only [bind_eq_ok, VotingForum.getProposal_eq_ok, ensure_eq_ok] at done
  obtain ⟨p, found, state, evaluated, -, succeeded, last⟩ := done
  subst succeeded
  exact ⟨p, found, evaluated, (Except.ok.inj last).symm⟩

variable {stakePool : Address}

theorem recordVotes_effect {votes : Nat}
    (done : s.recordVotes stakePool proposalId votes = .ok s') :
    s'.forum = s.forum ∧ s'.approvedExecutionHashes = s.approvedExecutionHashes ∧
      ∀ id, s'.usedVotingPower id =
        s.usedVotingPower id + if proposalId = id then votes else 0 := by
  unfold recordVotes at done
  simp only [bind_eq_ok, Checked.borrow_eq_ok, Checked.add_eq_ok] at done
  obtain ⟨records, there, used, ⟨-, rfl⟩, last⟩ := done
  cases last
  refine ⟨rfl, rfl, fun id => ?_⟩
  unfold usedVotingPower
  rw [there, getD_some, getD_some]
  have change := Table.sum_insert_add (t := records) (k := ⟨stakePool, proposalId⟩)
    (v := (records.find? ⟨stakePool, proposalId⟩).getD 0 + votes)
    (f := fun key power => if key.proposalId = id then power else 0)
  cases before : records.find? ⟨stakePool, proposalId⟩ with
  | none | some power =>
    simp only [before, elim_none, elim_some, getD_none, getD_some] at change ⊢
    split_ifs at change ⊢
    all_goals omega

/-- After the votes of a call, the proposal is approved if it is successful now. -/
theorem approveIfSucceeded_effect (done : s.approveIfSucceeded env proposalId = .ok s') :
    ∃ p state, s.forum.proposals.find? proposalId = some p ∧ p.getState env.now = .ok state ∧
      s' = { s with
        approvedExecutionHashes :=
          if p.Succeeded env.now then
            s.approvedExecutionHashes.insert proposalId p.executionHash
          else s.approvedExecutionHashes } := by
  unfold approveIfSucceeded at done
  simp only [bind_eq_ok, VotingForum.getProposal_eq_ok] at done
  obtain ⟨p, found, state, evaluated, last⟩ := done
  refine ⟨p, state, found, evaluated, ?_⟩
  split at last
  · obtain ⟨q, same, succeeded, rfl⟩ := addApprovedScriptHash_effect last
    rw [found] at same
    cases same
    rw [if_pos succeeded]
  · rename_i passed
    have open' : ¬ p.Succeeded env.now := fun succeeded =>
      passed (Except.ok.inj (evaluated.symm.trans succeeded))
    rw [if_neg open']
    exact (Except.ok.inj last).symm

/-- The effect of `votes` votes on a proposal. -/
structure Voted (env : GovernanceEnv) (s s' : GovernanceState) (proposalId votes : Nat)
    (shouldPass : Bool) (p : Proposal) : Prop where
  found : s.forum.proposals.find? proposalId = some p
  running : p.isVotingPeriodOver env.now = false
  unresolved : p.isResolved = false
  evaluated : ∃ state, (p.voted env.now votes shouldPass).getState env.now = .ok state
  forum : s'.forum = s.forum.setProposal proposalId (p.voted env.now votes shouldPass)
  used : ∀ id, s'.usedVotingPower id =
    s.usedVotingPower id + if proposalId = id then votes else 0
  approved : s'.approvedExecutionHashes =
    if (p.voted env.now votes shouldPass).Succeeded env.now then
      s.approvedExecutionHashes.insert proposalId p.executionHash
    else s.approvedExecutionHashes

/-- What a vote changes: the votes of the proposal and the power that is recorded as used. -/
theorem voteInternal_effect {voter : Address} {votingPower : Nat} {shouldPass : Bool}
    (done : s.voteInternal env voter stakePool proposalId votingPower shouldPass = .ok s') :
    ∃ votes p, s.votesOf env stakePool proposalId votingPower = .ok votes ∧
      Voted env s s' proposalId votes shouldPass p := by
  unfold voteInternal at done
  simp only [bind_eq_ok] at done
  obtain ⟨-, -, -, -, -, -, -, -, votes, counted, -, -, forum, cast, recorded, record, last⟩ := done
  obtain ⟨p, found, running, unresolved, rfl⟩ := VotingForum.vote_effect cast
  obtain ⟨sameForum, sameApproved, used⟩ := recordVotes_effect record
  obtain ⟨q, state, foundVoted, evaluated, rfl⟩ := approveIfSucceeded_effect last
  rw [sameForum] at foundVoted
  have voted : some (p.voted env.now votes shouldPass) = some q := by
    rw [← foundVoted]
    exact Table.find?_insert_self.symm
  cases voted
  refine ⟨votes, p, counted, found, running, unresolved, ⟨state, evaluated⟩, sameForum, used, ?_⟩
  rw [← sameApproved]
  rfl

variable {metadataLocation metadataHash : List UInt8}

theorem createProposalMetadata_resolvableTime {metadata : Metadata}
    (done : env.createProposalMetadata metadataLocation metadataHash = .ok metadata) :
    metadata.find? .resolvableTime = none := by
  unfold GovernanceEnv.createProposalMetadata at done
  simp only [bind_eq_ok] at done
  obtain ⟨-, -, -, -, -, -, -, -, located, location, hash⟩ := done
  rw [VotingForum.add_eq_ok hash, VotingForum.add_eq_ok location]
  rfl

/-- A new proposal has no votes. -/
theorem createProposalV2_effect {proposer : Address}
    {executionHash : List UInt8} {isMultiStepProposal : Bool}
    (done : s.createProposalV2 env proposer stakePool executionHash metadataLocation metadataHash
      isMultiStepProposal = .ok s') :
    ∃ id p, s.forum.proposals.find? id = none ∧ p.yesVotes = 0 ∧ p.noVotes = 0 ∧
      p.isResolved = false ∧ p.metadata.find? .resolvableTime = none ∧
      s'.forum.proposals = s.forum.proposals.insert id p ∧
      s'.votingRecordsV2 = s.votingRecordsV2 ∧
      s'.approvedExecutionHashes = s.approvedExecutionHashes := by
  unfold createProposalV2 at done
  simp only [bind_eq_ok] at done
  obtain ⟨-, -, -, -, -, -, -, -, -, -, expiration, -, -, -, -, -, metadata, created, forum,
    proposed, last⟩ := done
  cases last
  obtain ⟨id, p, fresh, yes, no, unresolved, kept, proposals⟩ :=
    VotingForum.createProposalV2_effect proposed
  refine ⟨id, p, fresh, yes, no, unresolved, ?_, proposals, rfl, rfl⟩
  rw [kept, createProposalMetadata_resolvableTime created]

theorem removeApprovedHash_effect (done : s.removeApprovedHash proposalId = .ok s') :
    s' = { s with approvedExecutionHashes := s.approvedExecutionHashes.erase proposalId } := by
  unfold removeApprovedHash at done
  simp only [bind_eq_ok] at done
  obtain ⟨-, -, -, -, last⟩ := done
  exact (Except.ok.inj last).symm

/-- The effect of the resolution of a step: the approved hash follows it. -/
structure Resolved (env : GovernanceEnv) (s s' : GovernanceState) (proposalId : Nat)
    (nextExecutionHash : List UInt8) (p p' : Proposal) : Prop where
  found : s.forum.proposals.find? proposalId = some p
  may : p.Resolvable env.now env.scriptHash
  resolution : p.Resolution p' nextExecutionHash
  forum : s'.forum = s.forum.setProposal proposalId p'
  records : s'.votingRecordsV2 = s.votingRecordsV2
  approved : s'.approvedExecutionHashes =
    if nextExecutionHash.length = 0 then s.approvedExecutionHashes.erase proposalId
    else s.approvedExecutionHashes.insert proposalId nextExecutionHash

variable {signerAddress signer : Address}

theorem resolve_effect (done : s.resolve env proposalId signerAddress = .ok (s', signer)) :
    ∃ p p', Resolved env s s' proposalId [] p p' := by
  unfold resolve at done
  simp only [bind_eq_ok] at done
  obtain ⟨forum, resolved, next, removed, account, -, last⟩ := done
  cases last
  obtain ⟨p, p', found, may, resolution, rfl⟩ := VotingForum.resolve_effect resolved
  cases removeApprovedHash_effect removed
  exact ⟨p, p', found, may, resolution, rfl, rfl, rfl⟩

theorem resolveMultiStepProposal_effect {nextExecutionHash : List UInt8}
    (done : s.resolveMultiStepProposal env proposalId signerAddress nextExecutionHash =
      .ok (s', signer)) :
    ∃ p p', Resolved env s s' proposalId nextExecutionHash p p' := by
  unfold resolveMultiStepProposal at done
  simp only [bind_eq_ok] at done
  obtain ⟨forum, resolved, next, updated, account, -, last⟩ := done
  cases last
  obtain ⟨p, p', found, may, resolution, rfl⟩ := VotingForum.resolveProposalV2_effect resolved
  unfold updateApproved at updated
  split at updated
  · rename_i final
    cases removeApprovedHash_effect updated
    exact ⟨p, p', found, may, resolution, rfl, rfl, (if_pos final).symm⟩
  rename_i final
  obtain ⟨q, foundNext, -, rfl⟩ := addApprovedScriptHash_effect updated
  have same : some p' = some q := by
    rw [← foundNext]
    exact Table.find?_insert_self.symm
  cases same
  refine ⟨p, p', found, may, resolution, rfl, rfl, ?_⟩
  rw [if_neg final, ← resolution.next final]

end GovernanceState

end CreditChain
