import CreditChain.SafetyRules.Storage

/-!
# The safety rules

The operations by which a validator signs proposals, votes, order votes, timeouts and
commit votes, in the order of checks and writes of the source.  Pure checks are
`Except` values; what reads or writes the instance is an `Action` on `SafetyRules`.
-/

namespace CreditChain

structure VoteProposal where
  accumulatorExtensionProof : AccumulatorExtensionProof HashValue
  block : Block
  nextEpochState : Option EpochState
  decoupledExecution : Bool

structure OrderVoteProposal where
  block : Block
  blockInfo : BlockInfo
  quorumCert : QuorumCert

structure EpochChangeProof where
  ledgerInfoWithSigs : List LedgerInfoWithSignatures
  more : Bool

/-- The text of a rejected accumulator or extension proof. -/
def AccumulatorError.toText : AccumulatorError HashValue → String
  | numFrozenSubtrees len numLeaves =>
    s!"The number of frozen subtrees does not match the number of leaves. frozen_subtree_roots.len(): {len}. num_leaves: {numLeaves}."
  | rootHashMismatch actual expected =>
    s!"AccumulatorExtensionProof: Root hashes do not match. Actual root hash: {actual}. Expected root hash: {expected}."
  | panicked => "Appending leaves to a valid accumulator should create another valid accumulator."

variable [Crypto]

/-- `gen_vote_data`: a dummy execution result when execution is decoupled, else the one
the extension proof leads to. -/
def VoteProposal.genVoteData (proposal : VoteProposal) : Except String VoteData :=
  if proposal.decoupledExecution then
    .ok ⟨proposal.block.genBlockInfo Crypto.accumulator.placeholder 0 proposal.nextEpochState,
      proposal.block.quorumCert.certifiedBlock⟩
  else do
    let newTree ← (proposal.accumulatorExtensionProof.verify Crypto.accumulator
      proposal.block.quorumCert.certifiedBlock.executedStateId).mapError AccumulatorError.toText
    .ok ⟨proposal.block.genBlockInfo newTree.rootHash newTree.version proposal.nextEpochState,
      proposal.block.quorumCert.certifiedBlock⟩

/-! ## Waypoints and epoch changes -/

def Waypoint.newAny (li : LedgerInfo) : Waypoint where
  version := li.version
  value := Crypto.waypointHash
    ⟨li.epoch, li.commitInfo.executedStateId, li.version, li.commitInfo.timestampUsecs,
      li.nextEpochState⟩

def Waypoint.newEpochBoundary (li : LedgerInfo) : Except String Waypoint := do
  ensure li.endsEpoch "No validator set"
  .ok (.newAny li)

def Waypoint.verify (w : Waypoint) (li : LedgerInfo) : Except String Unit := do
  let version := w.version
  let givenVersion := li.version
  ensure (givenVersion = version)
    s!"Waypoint version mismatch: waypoint version = {version}, given version = {givenVersion}"
  let value := w.value
  let givenValue := (Waypoint.newAny li).value
  ensure (givenValue = value)
    s!"Waypoint value mismatch: waypoint value = {value}, given value = {givenValue}"

def EpochState.verify (state : EpochState) (li : LedgerInfoWithSignatures) :
    Except String Unit := do
  let epoch := state.epoch
  let given := li.ledgerInfo.epoch
  ensure (epoch = given) s!"LedgerInfo has unexpected epoch {given}, expected {epoch}"
  (li.verifySignatures Crypto.bls SignedMessage.ledgerInfo state.verifier).mapError
    VerifyError.toText

/-- What vouches for ledger infos (`Verifier`). -/
structure Verifier where
  verify : LedgerInfoWithSignatures → Except String Unit
  epochChangeVerificationRequired : Nat → Bool
  isLedgerInfoStale : LedgerInfo → Bool

def Waypoint.verifier (w : Waypoint) : Verifier where
  verify li := w.verify li.ledgerInfo
  epochChangeVerificationRequired _ := true
  isLedgerInfoStale li := decide (li.version < w.version)

def EpochState.asVerifier (state : EpochState) : Verifier where
  verify li := state.verify li
  epochChangeVerificationRequired epoch := decide (state.epoch < epoch)
  isLedgerInfoStale li := decide (li.epoch < state.epoch)

/-- The loop of `verify`: while the first ledger info may be trusted by a waypoint, every
other one is trusted by the validator set that the one before carries. -/
def Verifier.verifyChain : Verifier → List LedgerInfoWithSignatures → Except String Unit
  | _, [] => .ok ()
  | verifier, li :: rest => do
      verifier.verify li
      match li.ledgerInfo.nextEpochState with
      | none => .error "LedgerInfo doesn't carry a ValidatorSet"
      | some next => verifyChain next.asVerifier rest

/-- `EpochChangeProof::verify`: ledger infos that the verifier is ahead of are skipped. -/
def EpochChangeProof.verify (proof : EpochChangeProof) (verifier : Verifier) :
    Except String LedgerInfoWithSignatures :=
  match proof.ledgerInfoWithSigs.getLast? with
  | none => .error "The EpochChangeProof is empty"
  | some last => do
      ensure (¬ verifier.isLedgerInfoStale last.ledgerInfo)
        "The EpochChangeProof is stale as our verifier is already ahead of the entire EpochChangeProof"
      verifier.verifyChain
        (proof.ledgerInfoWithSigs.dropWhile fun li => verifier.isLedgerInfoStale li.ledgerInfo)
      .ok last

/-! ## Rules on the persisted record -/

def nextRound (round : Round) : Except Error Round :=
  if round + 1 ≤ u64Max then .ok (round + 1) else .error (.incorrectRound round)

namespace SafetyData

variable (data : SafetyData)

def verifyEpoch (epoch : Nat) : Except Error Unit :=
  ensure (epoch = data.epoch) (.incorrectEpoch epoch data.epoch)

/-- `verify_and_update_last_vote_round`: the first voting rule. -/
def verifyAndUpdateLastVoteRound (round : Round) : Except Error SafetyData :=
  if round ≤ data.lastVotedRound then .error (.incorrectLastVotedRound round data.lastVotedRound)
  else .ok { data with lastVotedRound := round }

/-- `observe_qc`: remember the highest one-chain and two-chain rounds. -/
def observeQc (qc : QuorumCert) : SafetyData :=
  let oneChain := qc.certifiedBlock.round
  let twoChain := qc.parentBlock.round
  let data :=
    if data.oneChainRound < oneChain then { data with oneChainRound := oneChain } else data
  if data.preferredRound < twoChain then { data with preferredRound := twoChain } else data

def updateHighestTimeoutRound (timeout : TwoChainTimeout) : SafetyData :=
  if data.highestTimeoutRound < timeout.round then
    { data with highestTimeoutRound := timeout.round }
  else data

/-- `verify_and_update_preferred_round`: the second voting rule. -/
def verifyAndUpdatePreferredRound (qc : QuorumCert) : Except Error SafetyData :=
  let oneChainRound := qc.certifiedBlock.round
  if oneChainRound < data.preferredRound then
    .error (.incorrectPreferredRound oneChainRound data.preferredRound)
  else .ok (data.observeQc qc)

def safeForOrderVote (block : Block) : Except Error Unit :=
  ensure (data.highestTimeoutRound < block.round)
    (.notSafeForOrderVote block.round data.highestTimeoutRound)

/-- `safe_to_timeout`: the round follows the certificate or the timeout certificate, and
the certificate is not older than the one-chain round. -/
def safeToTimeout (timeout : TwoChainTimeout) (maybeTc : Option TwoChainTimeoutCertificate) : Except
    Error Unit := do
  let round := timeout.round
  let qcRound := timeout.hqcRound
  let tcRound := (maybeTc.map (·.round)).getD 0
  let afterQc ← nextRound qcRound
  -- the source only computes the second successor when the first comparison fails
  let follows ← (if round = afterQc then .ok true
    else (nextRound tcRound).map fun afterTc => decide (round = afterTc))
  ensure (follows = true ∧ data.oneChainRound ≤ qcRound)
    (.notSafeToTimeout round qcRound tcRound data.oneChainRound)

end SafetyData

/-- `safe_to_vote`: the block follows its certificate, or a timeout certificate none of
whose signers had seen a later certificate. -/
def safeToVote (block : Block) (maybeTc : Option TwoChainTimeoutCertificate) :
    Except Error Unit := do
  let round := block.round
  let qcRound := block.quorumCert.certifiedBlock.round
  let tcRound := (maybeTc.map (·.round)).getD 0
  let hqcRound := (maybeTc.map (·.highestHqcRound)).getD 0
  let afterQc ← nextRound qcRound
  let safe ← (if round = afterQc then .ok true
    else (nextRound tcRound).map fun afterTc => decide (round = afterTc ∧ hqcRound ≤ qcRound))
  ensure (safe = true) (.notSafeToVote round qcRound tcRound hqcRound)

/-- `construct_ledger_info_2chain`: commit the parent when the rounds are consecutive. -/
def constructLedgerInfo2chain (proposedBlock : Block) (consensusDataHash : HashValue) :
    Except Error LedgerInfo := do
  let block0 := proposedBlock.quorumCert.certifiedBlock.round
  let afterBlock0 ← nextRound block0
  let commitInfo :=
    if afterBlock0 = proposedBlock.round then proposedBlock.quorumCert.certifiedBlock
    else .empty
  .ok ⟨commitInfo, consensusDataHash⟩

namespace SafetyRules

def signer : SafetyM ValidatorSigner := do
  match (← get).validatorSigner with
  | some signer => pure signer
  | none => throw (.notInitialized "validator_signer")

def getEpochState : SafetyM EpochState := do
  match (← get).epochState with
  | some state => pure state
  | none => throw (.notInitialized "epoch_state")

def sign (message : SignedMessage) : SafetyM Signature := do
  let signer ← signer
  match Crypto.sign signer.privateKey message with
  | some signature => pure signature
  | none => throw (.serializationError "signing failed")

def verifyAuthor (author : Option Author) : SafetyM Unit := do
  let signer ← signer
  match author with
  | none => throw (.invalidProposal "No author found in the proposal")
  | some author =>
    .check (ensure (signer.author = author)
      (.invalidProposal "Proposal author is not validator signer!"))

def verifyQc (qc : QuorumCert) : SafetyM Unit := do
  let epochState ← getEpochState
  if (← get).skipSigVerify then pure ()
  else .check ((qc.verify epochState.verifier).mapError .invalidQuorumCertificate)

def verifyTc (tc : TwoChainTimeoutCertificate) : SafetyM Unit := do
  let epochState ← getEpochState
  if (← get).skipSigVerify then pure ()
  else .check ((tc.verify epochState.verifier).mapError .invalidTimeoutCertificate)

/-- The check of an optional timeout certificate. -/
def verifyMaybeTc (maybeTc : Option TwoChainTimeoutCertificate) : SafetyM Unit :=
  match maybeTc with
  | some tc => verifyTc tc
  | none => pure ()

/-- The signature check of a proposal. -/
def validateBlockSignature (block : Block) : SafetyM Unit := do
  if (← get).skipSigVerify then pure ()
  else
    let epochState ← getEpochState
    .check ((block.validateSignature epochState.verifier).mapError .invalidProposal)

variable (now : Nat) (data : SafetyData) (timeout : TwoChainTimeout) (proposal : OrderVoteProposal)

/-- `verify_proposal` at the local time `now`. -/
def verifyProposal (proposal : VoteProposal) : SafetyM VoteData := do
  let proposedBlock := proposal.block
  let data ← safetyData
  .check (data.verifyEpoch proposedBlock.epoch)
  verifyQc proposedBlock.quorumCert
  validateBlockSignature proposedBlock
  .check ((proposedBlock.blockData.verifyWellFormed now).mapError .invalidProposal)
  .check (proposal.genVoteData.mapError .invalidAccumulatorExtension)

def verifyOrderVoteProposal : SafetyM Unit := do
  let proposedBlock := proposal.block
  let data ← safetyData
  .check (data.verifyEpoch proposedBlock.epoch)
  let qc := proposal.quorumCert
  .check (ensure (qc.certifiedBlock = proposal.blockInfo)
    (.invalidOneChainQuorumCertificate qc.certifiedBlock.id proposal.blockInfo.id))
  .check (ensure (qc.certifiedBlock.id = proposedBlock.id)
    (.invalidOneChainQuorumCertificate qc.certifiedBlock.id proposedBlock.id))
  verifyQc qc

/-- The signature check of a timeout. -/
def verifyTimeout : SafetyM Unit := do
  if (← get).skipSigVerify then pure ()
  else
    let epochState ← getEpochState
    .check ((timeout.verify epochState.verifier).mapError .invalidTimeout)

/-- The record after a timeout: the voted round catches up with it. -/
def recordTimeout : Except Error SafetyData := do
  ensure (¬ timeout.round < data.lastVotedRound)
    (.incorrectLastVotedRound timeout.round data.lastVotedRound)
  let data ← (if data.lastVotedRound < timeout.round then
      data.verifyAndUpdateLastVoteRound timeout.round
    else .ok data)
  .ok (data.updateHighestTimeoutRound timeout)

def guardedSignTimeoutWithQc (timeoutCert : Option TwoChainTimeoutCertificate) :
    SafetyM Signature := do
  let _ ← signer
  let data ← safetyData
  .check (data.verifyEpoch timeout.epoch)
  verifyTimeout timeout
  verifyMaybeTc timeoutCert
  .check (data.safeToTimeout timeout timeoutCert)
  let data ← .check (recordTimeout data timeout)
  setSafetyData data
  sign (.timeout timeout.signingFormat)

/-- The part of a vote that is new: the two voting rules, the record and the signature. -/
def constructVote (proposedBlock : Block) (voteData : VoteData)
    (timeoutCert : Option TwoChainTimeoutCertificate) (data : SafetyData) : SafetyM Vote := do
  -- two voting rules
  let data ← .check (data.verifyAndUpdateLastVoteRound proposedBlock.round)
  .check (safeToVote proposedBlock timeoutCert)
  -- record 1-chain data
  let data := data.observeQc proposedBlock.quorumCert
  let author := (← signer).author
  let ledgerInfo ← .check (constructLedgerInfo2chain proposedBlock voteData.hash)
  let signature ← sign (.ledgerInfo ledgerInfo)
  let vote := .newWithSignature voteData author ledgerInfo signature
  setSafetyData { data with lastVote := some vote }
  pure vote

def guardedConstructAndSignVoteTwoChain (proposal : VoteProposal)
    (timeoutCert : Option TwoChainTimeoutCertificate) : SafetyM Vote := do
  let _ ← signer
  let voteData ← verifyProposal now proposal
  verifyMaybeTc timeoutCert
  let proposedBlock := proposal.block
  let data ← safetyData
  -- if already voted on this round, send back the previous vote
  match data.lastVote with
  | some vote =>
    if vote.round = proposedBlock.round then pure vote
    else constructVote proposedBlock voteData timeoutCert data
  | none => constructVote proposedBlock voteData timeoutCert data

def guardedConstructAndSignOrderVote : SafetyM OrderVote := do
  let _ ← signer
  verifyOrderVoteProposal proposal
  let proposedBlock := proposal.block
  let data ← safetyData
  -- record 1-chain data
  let data := data.observeQc proposal.quorumCert
  .check (data.safeForOrderVote proposedBlock)
  let author := (← signer).author
  let ledgerInfo : LedgerInfo := ⟨proposal.blockInfo, .zero⟩
  let signature ← sign (.ledgerInfo ledgerInfo)
  setSafetyData data
  pure ⟨author, ledgerInfo, .ofSignature signature⟩

/-- `guarded_sign_proposal`: the observed rounds are not persisted. -/
def guardedSignProposal (blockData : BlockData) : SafetyM Signature := do
  let _ ← signer
  verifyAuthor blockData.author
  let data ← safetyData
  .check (data.verifyEpoch blockData.epoch)
  let round := blockData.round
  let lastVotedRound := data.lastVotedRound
  .check (ensure (lastVotedRound < round) (.invalidProposal
    s!"Proposed round {round} is not higher than last voted round {lastVotedRound}"))
  verifyQc blockData.quorumCert
  let _ ← .check (data.verifyAndUpdatePreferredRound blockData.quorumCert)
  sign (.blockData blockData)

def guardedSignCommitVote (ledgerInfo : LedgerInfoWithSignatures) (newLedgerInfo : LedgerInfo) :
    SafetyM Signature := do
  let _ ← signer
  let oldLedgerInfo := ledgerInfo.ledgerInfo
  .check (ensure
    (oldLedgerInfo.commitInfo.isOrderedOnly Crypto.accumulator.placeholder ∨
      oldLedgerInfo.commitInfo = newLedgerInfo.commitInfo)
    (.invalidOrderedLedgerInfo oldLedgerInfo))
  .check (ensure (oldLedgerInfo.commitInfo.matchOrderedOnly newLedgerInfo.commitInfo)
    (.inconsistentExecutionResult oldLedgerInfo.commitInfo newLedgerInfo.commitInfo))
  if (← get).skipSigVerify then pure ()
  else
    let epochState ← getEpochState
    Action.check ((ledgerInfo.verifySignatures Crypto.bls SignedMessage.ledgerInfo
      epochState.verifier).mapError fun e => .invalidQuorumCertificate e.toText)
  sign (.ledgerInfo newLedgerInfo)

/-- The last part of `guarded_initialize`: find the key of this validator in the new set. -/
def reconcileKey (epochState : EpochState) : SafetyM Unit := do
  let author ← getEntry fun store => .ok store.ownerAccount
  let found : SafetyM Unit :=
    match epochState.verifier.getPublicKey author with
    | none => throw (.validatorNotInSet (toString author))
    | some expectedKey => do
        let currentKey := (← get).validatorSigner.map fun s => Crypto.publicKey s.privateKey
        if currentKey = some expectedKey then pure ()
        else
          let consensusKey ← tryCatch (consensusSkByPk expectedKey) fun e =>
            match e with
            | .secureStorageMissingDataError reason => throw (.validatorKeyNotFound reason)
            | e => throw e
          modify fun s => { s with validatorSigner := some ⟨author, consensusKey⟩ }
  tryCatch found fun e => do
    modify fun s => { s with validatorSigner := none }
    throw e

def guardedInitialize (proof : EpochChangeProof) : SafetyM Unit := do
  let waypoint ← getEntry fun store => .ok store.waypoint
  let lastLi ← .check ((proof.verify waypoint.verifier).mapError .invalidEpochChangeProof)
  let ledgerInfo := lastLi.ledgerInfo
  match ledgerInfo.nextEpochState with
  | none => throw .invalidLedgerInfo
  | some epochState =>
    let newWaypoint ← .check
      ((Waypoint.newEpochBoundary ledgerInfo).mapError .internalError)
    (if waypoint.version < newWaypoint.version then setWaypoint newWaypoint else pure ())
    let currentEpoch := (← safetyData).epoch
    .check (ensure (¬ epochState.epoch < currentEpoch)
      (.waypointOutOfDate waypoint.version newWaypoint.version currentEpoch epochState.epoch))
    -- start new epoch
    (if currentEpoch < epochState.epoch then setSafetyData (.start epochState.epoch)
      else pure ())
    modify fun s => { s with epochState := some epochState }
    reconcileKey epochState

end SafetyRules

end CreditChain
