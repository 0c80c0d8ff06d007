import CreditChain.Framework.Pool

/-!
# The voting forum

Proposals with their votes.  What the forum tracks of a proposal beyond its fields is in a map of
serialized values: the time of the last vote, whether the proposal has several steps, and whether
these are being executed.
-/

namespace CreditChain

open Checked

open CreditChain.Except (bind_eq_ok)

/-! ## Serialized values -/

namespace Bcs

def ofBool (b : Bool) : List UInt8 := [if b then 1 else 0]

def toBool : List UInt8 → Option Bool
  | [0] => some false
  | [1] => some true
  | _ => none

/-- The lowest bytes of a number, the lowest first. -/
def ofNat : Nat → Nat → List UInt8
  | 0, _ => []
  | width + 1, n => .ofNat n :: ofNat width (n / 256)

def toNat (bytes : List UInt8) : Nat := bytes.foldr (fun byte rest => byte.toNat + 256 * rest) 0

def ofU64 (n : Nat) : List UInt8 := ofNat 8 n

def toU64 (bytes : List UInt8) : Option Nat := if bytes.length = 8 then some (toNat bytes) else none

theorem length_ofNat (width n : Nat) : (ofNat width n).length = width := by
  induction width generalizing n with
  | zero => rfl
  | succ width ih => rw [ofNat, List.length_cons, ih]

theorem toNat_ofNat (width n : Nat) : toNat (ofNat width n) = n % 256 ^ width := by
  induction width generalizing n with
  | zero => rw [pow_zero, Nat.mod_one]; rfl
  | succ width ih =>
    calc toNat (ofNat (width + 1) n) = (UInt8.ofNat n).toNat + 256 * toNat (ofNat width (n / 256)) :=
          rfl
      _ = n % 256 + 256 * (n / 256 % 256 ^ width) := by rw [UInt8.toNat_ofNat', ih]
      _ = n % 256 ^ (width + 1) := by rw [pow_succ', Nat.mod_mul]

theorem toU64_ofU64 {n : Nat} (fits : n ≤ u64Max) : toU64 (ofU64 n) = some n := by
  have small : n < 256 ^ 8 := by
    unfold u64Max at fits
    omega
  unfold toU64 ofU64
  rw [if_pos (length_ofNat 8 n), toNat_ofNat, Nat.mod_eq_of_lt small]

end Bcs

/-! ## Proposals -/

/-- The attributes of a proposal. -/
inductive MetadataKey where
  | metadataLocation
  | metadataHash
  | resolvableTime
  | isMultiStepProposal
  | isMultiStepProposalInExecution
  deriving DecidableEq

abbrev Metadata := Table MetadataKey (List UInt8)

/-- A proposal.  Its content, a value without fields here, is taken out when it is resolved. -/
structure Proposal where
  proposer : Address
  executionContent : Option Unit
  metadata : Metadata
  creationTimeSecs : Nat
  executionHash : List UInt8
  minVoteThreshold : Nat
  expirationSecs : Nat
  earlyResolutionVoteThreshold : Option Nat
  yesVotes : Nat
  noVotes : Nat
  isResolved : Bool
  resolutionTimeSecs : Nat
  deriving DecidableEq

structure VotingForum where
  proposals : Table Nat Proposal
  nextProposalId : Nat
  deriving DecidableEq

inductive ProposalState where
  | pending
  | succeeded
  | failed
  deriving DecidableEq

namespace VotingError

def proposalExecutionHashNotMatching : Nat := 1
def proposalCannotBeResolved : Nat := 2
def proposalAlreadyResolved : Nat := 3
def proposalEmptyExecutionHash : Nat := 4
def proposalVotingAlreadyEnded : Nat := 5
def invalidMinVoteThreshold : Nat := 7
def resolutionCannotBeAtomic : Nat := 8
def multiStepProposalInExecution : Nat := 9
def multiStepProposalCannotUseSingleStepResolveFunction : Nat := 10
def singleStepProposalCannotHaveNextExecutionHash : Nat := 11

-- of the maps, of the deserialization and of an option that is empty
def keyAlreadyExists : Abort := .invalidArgument 1
def keyNotFound : Abort := .invalidArgument 2
def fromBytes : Abort := .invalidArgument 1
def optionNotSet : Abort := .code 0x40001

end VotingError

open VotingError

/-- Add an attribute that must not be there. -/
def Metadata.add (metadata : Metadata) (key : MetadataKey) (value : List UInt8) :
    Checked Metadata := do
  ensure (metadata.contains key = false) keyAlreadyExists
  return metadata.insert key value

/-- Read an attribute that must be there. -/
def Metadata.borrow (metadata : Metadata) (key : MetadataKey) : Checked (List UInt8) :=
  Checked.orAbort (metadata.find? key) keyNotFound

namespace Proposal

variable (p : Proposal)

/-- Either side has reached the threshold. -/
def canBeResolvedEarly : Bool :=
  match p.earlyResolutionVoteThreshold with
  | some threshold => p.yesVotes ≥ threshold || p.noVotes ≥ threshold
  | none => false

def isVotingPeriodOver (now : Nat) : Bool := now > p.expirationSecs

def isVotingClosed (now : Nat) : Bool := p.canBeResolvedEarly || p.isVotingPeriodOver now

/-- `get_proposal_state`; the votes are added up only if more of them are in favour. -/
def getState (now : Nat) : Checked ProposalState :=
  if p.isVotingClosed now = true then
    if p.yesVotes > p.noVotes then do
      let votes ← Checked.add u128Max p.yesVotes p.noVotes
      return if votes ≥ p.minVoteThreshold then .succeeded else .failed
    else return .failed
  else return .pending

/-- Only a proposal with several steps has the flag. -/
def notInExecution : Bool :=
  match p.metadata.find? .isMultiStepProposalInExecution with
  | none => true
  | some flag => flag == Bcs.ofBool false

def isMultiStep : Checked Bool :=
  match p.metadata.find? .isMultiStepProposal with
  | none => return false
  | some flag => Checked.orAbort (Bcs.toBool flag) fromBytes

end Proposal

/-! ## The calls -/

namespace VotingForum

def empty : VotingForum := ⟨.empty, 0⟩

variable (forum : VotingForum)

def setProposal (id : Nat) (p : Proposal) : VotingForum :=
  { forum with proposals := forum.proposals.insert id p }

def getProposal (id : Nat) : Checked Proposal := Checked.borrow (forum.proposals.find? id)

/-- The flag for the execution of several steps, unset, or no flag. -/
def flagSteps (metadata : Metadata) (isMultiStepProposal : Bool) : Checked Metadata :=
  if isMultiStepProposal = true then
    metadata.add .isMultiStepProposalInExecution (Bcs.ofBool false)
  else return metadata.erase .isMultiStepProposalInExecution

variable (now : Nat) (scriptHash : List UInt8) (proposalId : Nat)

def createProposalV2 (proposer : Address) (executionHash : List UInt8)
    (minVoteThreshold expirationSecs : Nat) (earlyResolutionVoteThreshold : Option Nat)
    (metadata : Metadata) (isMultiStepProposal : Bool) : Checked VotingForum := do
  ensure (earlyResolutionVoteThreshold.all (minVoteThreshold ≤ ·) = true)
    (.invalidArgument invalidMinVoteThreshold)
  ensure (executionHash.length > 0) (.invalidArgument proposalEmptyExecutionHash)
  let nextProposalId ← Checked.add u64Max forum.nextProposalId 1
  let metadata ← metadata.add .isMultiStepProposal (Bcs.ofBool isMultiStepProposal)
  let metadata ← flagSteps metadata isMultiStepProposal
  ensure (forum.proposals.contains forum.nextProposalId = false) .occupied
  return {
    proposals := forum.proposals.insert forum.nextProposalId
      { proposer
        creationTimeSecs := now
        executionContent := some ()
        executionHash
        metadata
        minVoteThreshold
        expirationSecs
        earlyResolutionVoteThreshold
        yesVotes := 0
        noVotes := 0
        isResolved := false
        resolutionTimeSecs := 0 }
    nextProposalId }

variable (p : Proposal)

def castVotes (numVotes : Nat) (shouldPass : Bool) : Checked Proposal :=
  if shouldPass = true then do
    let yesVotes ← Checked.add u128Max p.yesVotes numVotes
    return { p with yesVotes }
  else do
    let noVotes ← Checked.add u128Max p.noVotes numVotes
    return { p with noVotes }

/-- Votes count until the expiration, also after an early success. -/
def vote (now proposalId numVotes : Nat) (shouldPass : Bool) : Checked VotingForum := do
  let p ← forum.getProposal proposalId
  ensure (p.isVotingPeriodOver now = false) (.invalidState proposalVotingAlreadyEnded)
  ensure (p.isResolved = false) (.invalidState proposalAlreadyResolved)
  ensure (p.notInExecution = true) (.invalidState multiStepProposalInExecution)
  let p ← castVotes p numVotes shouldPass
  return forum.setProposal proposalId
    { p with metadata := p.metadata.insert .resolvableTime (Bcs.ofU64 now) }

/-- The checks of a resolution, and the proposal; the hash is the one of the running script. -/
def isProposalResolvable : Checked Proposal := do
  let p ← forum.getProposal proposalId
  let state ← p.getState now
  ensure (state = .succeeded) (.invalidState proposalCannotBeResolved)
  ensure (p.isResolved = false) (.invalidState proposalAlreadyResolved)
  let recorded ← p.metadata.borrow .resolvableTime
  let resolvableTime ← Checked.orAbort (Bcs.toU64 recorded) fromBytes
  ensure (now > resolvableTime) (.invalidState resolutionCannotBeAtomic)
  ensure (scriptHash = p.executionHash) (.invalidArgument proposalExecutionHashNotMatching)
  return p

/-- Resolve a proposal of one step. -/
def resolve : Checked VotingForum := do
  let p ← forum.isProposalResolvable now scriptHash proposalId
  let isMultiStep ← p.isMultiStep
  ensure (isMultiStep = false) (.permissionDenied
    multiStepProposalCannotUseSingleStepResolveFunction)
  let _ ← Checked.orAbort p.executionContent optionNotSet
  return forum.setProposal proposalId
    { p with isResolved := true, resolutionTimeSecs := now, executionContent := none }

/-- No more votes after the first step. -/
def markInExecution : Proposal :=
  match p.metadata.find? .isMultiStepProposalInExecution with
  | none => p
  | some _ =>
    { p with metadata := p.metadata.insert .isMultiStepProposalInExecution (Bcs.ofBool true) }

def unmarkInExecution (isMultiStep : Bool) : Checked Proposal :=
  if isMultiStep = true then do
    let _ ← p.metadata.borrow .isMultiStepProposalInExecution
    return { p with
      metadata := p.metadata.insert .isMultiStepProposalInExecution (Bcs.ofBool false) }
  else return p

/-- The last step resolves the proposal, any other one replaces its hash. -/
def finishStep (now : Nat) (isMultiStep : Bool) (nextExecutionHash : List UInt8) :
    Checked Proposal :=
  if nextExecutionHash.length = 0 then
    unmarkInExecution { p with isResolved := true, resolutionTimeSecs := now } isMultiStep
  else return { p with executionHash := nextExecutionHash }

/-- Resolve one step of a proposal. -/
def resolveProposalV2 (nextExecutionHash : List UInt8) : Checked VotingForum := do
  let p ← forum.isProposalResolvable now scriptHash proposalId
  let isMultiStep ← (markInExecution p).isMultiStep
  ensure (isMultiStep = true ∨ nextExecutionHash.length = 0)
    (.invalidArgument singleStepProposalCannotHaveNextExecutionHash)
  let stepped ← finishStep (markInExecution p) now isMultiStep nextExecutionHash
  return forum.setProposal proposalId stepped

end VotingForum

/-! ## Success -/

namespace Proposal

variable {p p' : Proposal} {now time : Nat}

/-- The proposal is successful at this time. -/
def Succeeded (p : Proposal) (now : Nat) : Prop := p.getState now = .ok .succeeded

instance : Decidable (p.Succeeded now) := inferInstanceAs (Decidable (_ = _))

theorem succeeded_iff :
    p.Succeeded now ↔ p.isVotingClosed now = true ∧ p.noVotes < p.yesVotes ∧
      p.yesVotes + p.noVotes ≤ u128Max ∧ p.minVoteThreshold ≤ p.yesVotes + p.noVotes := by
  unfold Succeeded getState
  split
  · rename_i closed
    split
    · rename_i favoured
      rw [bind_eq_ok]
      simp only [add_eq_ok, closed, true_and]
      constructor
      · rintro ⟨votes, ⟨fits, rfl⟩, passed⟩
        split at passed
        · rename_i enough
          exact ⟨favoured, fits, enough⟩
        · cases passed
      · rintro ⟨-, fits, enough⟩
        refine ⟨_, ⟨fits, rfl⟩, ?_⟩
        rw [if_pos enough]
        rfl
    · rename_i favoured
      exact ⟨(fun impossible => by cases impossible), fun parts => absurd parts.2.1 favoured⟩
  · rename_i closed
    exact ⟨(fun impossible => by cases impossible), fun parts => absurd parts.1 closed⟩

theorem isVotingClosed_later (le : now ≤ time) (closed : p.isVotingClosed now = true) :
    p.isVotingClosed time = true := by
  unfold isVotingClosed isVotingPeriodOver at *
  rw [Bool.or_eq_true, decide_eq_true_eq] at *
  exact closed.imp_right fun ended => ended.trans_le le

/-- Success is kept as time passes. -/
theorem Succeeded.later (succeeded : p.Succeeded now) (le : now ≤ time) : p.Succeeded time := by
  rw [succeeded_iff] at succeeded ⊢
  exact ⟨isVotingClosed_later le succeeded.1, succeeded.2⟩

/-- What success is read from. -/
structure SameVotes (p p' : Proposal) : Prop where
  yesVotes : p'.yesVotes = p.yesVotes
  noVotes : p'.noVotes = p.noVotes
  minVoteThreshold : p'.minVoteThreshold = p.minVoteThreshold
  expirationSecs : p'.expirationSecs = p.expirationSecs
  early : p'.earlyResolutionVoteThreshold = p.earlyResolutionVoteThreshold
  resolvableTime : p'.metadata.find? .resolvableTime = p.metadata.find? .resolvableTime

/-- The proposal after a vote. -/
def voted (p : Proposal) (now numVotes : Nat) (shouldPass : Bool) : Proposal :=
  { p with
    yesVotes := p.yesVotes + (if shouldPass = true then numVotes else 0)
    noVotes := p.noVotes + (if shouldPass = true then 0 else numVotes)
    metadata := p.metadata.insert .resolvableTime (Bcs.ofU64 now) }

theorem voted_total (numVotes : Nat) (shouldPass : Bool) :
    (p.voted now numVotes shouldPass).yesVotes + (p.voted now numVotes shouldPass).noVotes =
      p.yesVotes + p.noVotes + numVotes := by
  cases shouldPass with
  | false => simp [voted, add_assoc]
  | true => simp [voted, add_right_comm]

theorem canBeResolvedEarly_voted {numVotes : Nat} {shouldPass : Bool}
    (early : p.canBeResolvedEarly = true) :
    (p.voted now numVotes shouldPass).canBeResolvedEarly = true := by
  unfold canBeResolvedEarly at *
  show (match p.earlyResolutionVoteThreshold with
    | some threshold => decide (p.yesVotes + _ ≥ threshold) || decide (p.noVotes + _ ≥ threshold)
    | none => false) = true
  generalize p.earlyResolutionVoteThreshold = bound at early ⊢
  cases bound with
  | none => cases early
  | some threshold =>
    simp only [Bool.or_eq_true, decide_eq_true_eq] at early ⊢
    omega

variable {state : ProposalState}

/-- A vote leaves an early success as long as it leaves more votes in favour. -/
theorem Succeeded.voted {numVotes : Nat} {shouldPass : Bool} (succeeded : p.Succeeded now)
    (running : p.isVotingPeriodOver now = false)
    (evaluated : (p.voted time numVotes shouldPass).getState now = .ok state)
    (margin : shouldPass = false → p.noVotes + numVotes < p.yesVotes) :
    (p.voted time numVotes shouldPass).Succeeded now := by
  rw [succeeded_iff] at succeeded ⊢
  obtain ⟨closed, favoured, -, enough⟩ := succeeded
  have closedVoted : (p.voted time numVotes shouldPass).isVotingClosed now = true := by
    unfold isVotingClosed at closed ⊢
    rw [running, Bool.or_false] at closed
    rw [canBeResolvedEarly_voted closed, Bool.true_or]
  have favouredVoted :
      (p.voted time numVotes shouldPass).noVotes < (p.voted time numVotes shouldPass).yesVotes := by
    cases shouldPass with
    | false => simpa [Proposal.voted] using margin rfl
    | true =>
      show p.noVotes + 0 < p.yesVotes + numVotes
      omega
  -- the votes have been added up
  unfold getState at evaluated
  rw [if_pos closedVoted, if_pos favouredVoted, bind_eq_ok] at evaluated
  obtain ⟨votes, added, -⟩ := evaluated
  refine ⟨closedVoted, favouredVoted, (Checked.add_eq_ok.mp added).1, ?_⟩
  rw [voted_total]
  show p.minVoteThreshold ≤ _
  omega

theorem SameVotes.succeeded (same : SameVotes p p') : p'.Succeeded now ↔ p.Succeeded now := by
  rw [succeeded_iff, succeeded_iff]
  unfold isVotingClosed canBeResolvedEarly isVotingPeriodOver
  rw [same.yesVotes, same.noVotes, same.minVoteThreshold, same.expirationSecs, same.early]

theorem SameVotes.trans {a b c : Proposal} (first : a.SameVotes b)
    (second : b.SameVotes c) : a.SameVotes c where
  yesVotes := second.yesVotes.trans first.yesVotes
  noVotes := second.noVotes.trans first.noVotes
  minVoteThreshold := second.minVoteThreshold.trans first.minVoteThreshold
  expirationSecs := second.expirationSecs.trans first.expirationSecs
  early := second.early.trans first.early
  resolvableTime := second.resolvableTime.trans first.resolvableTime

/-- The proposal may be resolved: it is open and successful, the script is its own, and its last
vote was in an earlier second. -/
structure Resolvable (p : Proposal) (now : Nat) (scriptHash : List UInt8) : Prop where
  succeeded : p.Succeeded now
  unresolved : p.isResolved = false
  later : ∃ recorded time, p.metadata.find? .resolvableTime = some recorded ∧
    Bcs.toU64 recorded = some time ∧ time < now
  hash : scriptHash = p.executionHash

/-- What the resolution of a step changes. -/
structure Resolution (p p' : Proposal) (nextExecutionHash : List UInt8) : Prop extends
    SameVotes p p' where
  resolved : p'.isResolved = decide (nextExecutionHash.length = 0)
  next : nextExecutionHash.length ≠ 0 → p'.executionHash = nextExecutionHash

end Proposal

/-! ## What the calls do -/

namespace VotingForum

variable {forum forum' : VotingForum} {now proposalId : Nat} {scriptHash : List UInt8}
  {p p' : Proposal}

theorem getProposal_eq_ok :
    forum.getProposal proposalId = .ok p ↔ forum.proposals.find? proposalId = some p :=
  borrow_eq_ok

variable {metadata : Metadata} {metadata' : Metadata}

theorem add_eq_ok {key : MetadataKey} {value : List UInt8}
    (done : metadata.add key value = .ok metadata') : metadata' = metadata.insert key value := by
  unfold Metadata.add at done
  rw [bind_eq_ok] at done
  obtain ⟨-, -, last⟩ := done
  exact (Except.ok.inj last).symm

variable {isMultiStepProposal shouldPass isMultiStep : Bool}

/-- The flags of a new proposal do not touch the time of the last vote. -/
theorem flagSteps_resolvableTime (done : flagSteps metadata isMultiStepProposal = .ok metadata') :
    metadata'.find? .resolvableTime = metadata.find? .resolvableTime := by
  unfold flagSteps at done
  split at done
  · rw [add_eq_ok done, Table.find?_insert_of_ne (by decide)]
  · cases done
    exact Table.find?_erase_of_ne (by decide)

/-- A new proposal has no votes, and the attributes that it is given. -/
theorem createProposalV2_effect {proposer : Address} {executionHash : List UInt8}
    {minVoteThreshold expirationSecs : Nat} {early : Option Nat}
    (done : forum.createProposalV2 now proposer executionHash minVoteThreshold expirationSecs early
      metadata isMultiStepProposal = .ok forum') :
    ∃ id p, forum.proposals.find? id = none ∧ p.yesVotes = 0 ∧ p.noVotes = 0 ∧
      p.isResolved = false ∧
      p.metadata.find? .resolvableTime = metadata.find? .resolvableTime ∧
      forum'.proposals = forum.proposals.insert id p := by
  unfold createProposalV2 at done
  simp only [bind_eq_ok, ensure_eq_ok] at done
  obtain ⟨-, -, -, -, nextProposalId, -, withKind, kind, flagged, flags, -, fresh, last⟩ := done
  cases last
  refine ⟨_, _, ?_, rfl, rfl, rfl, ?_, rfl⟩
  · rwa [Table.contains, Option.isSome_eq_false_iff, Option.isNone_iff_eq_none] at fresh
  · rw [flagSteps_resolvableTime flags, add_eq_ok kind, Table.find?_insert_of_ne (by decide)]

theorem castVotes_eq_ok {numVotes : Nat} (cast : castVotes p numVotes shouldPass = .ok p') :
    { p' with metadata := p'.metadata.insert .resolvableTime (Bcs.ofU64 now) } =
      p.voted now numVotes shouldPass := by
  cases shouldPass with
  | false | true =>
    obtain ⟨votes, added, last⟩ := of_bind cast
    cases last
    obtain ⟨-, rfl⟩ := Checked.add_eq_ok.mp added
    rfl

/-- A vote is counted while the proposal is open, and its time is kept. -/
theorem vote_effect {numVotes : Nat}
    (done : forum.vote now proposalId numVotes shouldPass = .ok forum') :
    ∃ p, forum.proposals.find? proposalId = some p ∧ p.isVotingPeriodOver now = false ∧
      p.isResolved = false ∧
      forum' = forum.setProposal proposalId (p.voted now numVotes shouldPass) := by
  unfold vote at done
  simp only [bind_eq_ok, ensure_eq_ok, getProposal_eq_ok] at done
  obtain ⟨p, found, -, running, -, unresolved, -, -, cast, counted, last⟩ := done
  refine ⟨p, found, running, unresolved, ?_⟩
  rw [← castVotes_eq_ok counted]
  exact (Except.ok.inj last).symm

theorem isProposalResolvable_eq_ok
    (done : forum.isProposalResolvable now scriptHash proposalId = .ok p) :
    forum.proposals.find? proposalId = some p ∧ p.Resolvable now scriptHash := by
  unfold isProposalResolvable at done
  simp only [bind_eq_ok, ensure_eq_ok, getProposal_eq_ok, Metadata.borrow, orAbort_eq_ok] at done
  obtain ⟨q, found, state, evaluated, -, succeeded, -, unresolved, recorded, kept, time, read, -,
    later, -, hash, last⟩ := done
  cases last
  subst succeeded
  exact ⟨found, evaluated, unresolved, ⟨recorded, time, kept, read, later⟩, hash⟩

/-- A resolution needs a successful proposal, its script and a later second. -/
theorem resolve_effect (done : forum.resolve now scriptHash proposalId = .ok forum') :
    ∃ p p', forum.proposals.find? proposalId = some p ∧ p.Resolvable now scriptHash ∧
      p.Resolution p' [] ∧ forum' = forum.setProposal proposalId p' := by
  unfold resolve at done
  simp only [bind_eq_ok] at done
  obtain ⟨p, resolvable, -, -, -, -, -, -, last⟩ := done
  obtain ⟨found, may⟩ := isProposalResolvable_eq_ok resolvable
  refine ⟨p, _, found, may, ?_, (Except.ok.inj last).symm⟩
  exact ⟨⟨rfl, rfl, rfl, rfl, rfl, rfl⟩, rfl, fun nonempty => absurd rfl nonempty⟩

/-- The flag for the execution is not read for success. -/
theorem sameVotes_flag (p : Proposal) (flag : List UInt8) :
    p.SameVotes
      { p with metadata := p.metadata.insert .isMultiStepProposalInExecution flag } :=
  ⟨rfl, rfl, rfl, rfl, rfl, Table.find?_insert_of_ne (by decide)⟩

theorem sameVotes_markInExecution (p : Proposal) : p.SameVotes (markInExecution p) := by
  unfold markInExecution
  cases p.metadata.find? .isMultiStepProposalInExecution with
  | none => exact ⟨rfl, rfl, rfl, rfl, rfl, rfl⟩
  | some _ => exact sameVotes_flag p _

theorem unmarkInExecution_eq_ok (done : unmarkInExecution p isMultiStep = .ok p') :
    p.SameVotes p' ∧ p'.isResolved = p.isResolved := by
  unfold unmarkInExecution at done
  cases isMultiStep with
  | false =>
    cases done
    exact ⟨⟨rfl, rfl, rfl, rfl, rfl, rfl⟩, rfl⟩
  | true =>
    rw [if_pos rfl, bind_eq_ok] at done
    obtain ⟨-, -, last⟩ := done
    cases last
    exact ⟨sameVotes_flag p _, rfl⟩

variable {nextExecutionHash : List UInt8}

theorem finishStep_eq_ok (unresolved : p.isResolved = false)
    (done : finishStep p now isMultiStep nextExecutionHash = .ok p') :
    p.Resolution p' nextExecutionHash := by
  unfold finishStep at done
  split at done
  · rename_i last
    obtain ⟨same, resolved⟩ := unmarkInExecution_eq_ok done
    have first : p.SameVotes { p with isResolved := true, resolutionTimeSecs := now } :=
      ⟨rfl, rfl, rfl, rfl, rfl, rfl⟩
    exact ⟨first.trans same, resolved.trans (decide_eq_true last).symm, fun more =>
      absurd last more⟩
  · rename_i last
    cases done
    exact ⟨⟨rfl, rfl, rfl, rfl, rfl, rfl⟩, unresolved.trans (decide_eq_false last).symm,
      fun _ => rfl⟩

theorem markInExecution_isResolved (p : Proposal) :
    (markInExecution p).isResolved = p.isResolved := by
  unfold markInExecution
  cases p.metadata.find? .isMultiStepProposalInExecution with
  | none | some _ => rfl

theorem resolveProposalV2_effect
    (done : forum.resolveProposalV2 now scriptHash proposalId nextExecutionHash = .ok forum') :
    ∃ p p', forum.proposals.find? proposalId = some p ∧ p.Resolvable now scriptHash ∧
      p.Resolution p' nextExecutionHash ∧ forum' = forum.setProposal proposalId p' := by
  unfold resolveProposalV2 at done
  simp only [bind_eq_ok] at done
  obtain ⟨p, resolvable, isMultiStep, -, -, -, stepped, finished, last⟩ := done
  obtain ⟨found, may⟩ := isProposalResolvable_eq_ok resolvable
  have finish := finishStep_eq_ok ((markInExecution_isResolved p).trans may.unresolved) finished
  refine ⟨p, stepped, found, may, ?_, (Except.ok.inj last).symm⟩
  exact ⟨(sameVotes_markInExecution p).trans finish.toSameVotes, finish.resolved, finish.next⟩

end VotingForum

end CreditChain
