import CreditChain.Accumulator.InMemory
import CreditChain.Types.ValidatorVerifier

/-!
# Votes, certificates and blocks

The consensus messages, with the checks that are independent of a validator's state.
Hashing, the signature scheme and signing are parameters, collected in `Crypto`; the
digest of a block covers its `BlockHashInput`, which for an optimistic proposal leaves
out the signatures of the parent's certificate.

Transactions and validator transactions are opaque: no check below looks inside them.
-/

namespace CreditChain

/-- `VoteData`: the block voted on and the block it extends. -/
structure VoteData where
  proposed : BlockInfo
  parent : BlockInfo
  deriving DecidableEq

structure QuorumCert where
  voteData : VoteData
  signedLedgerInfo : LedgerInfoWithSignatures
  deriving DecidableEq

namespace QuorumCert

variable (qc : QuorumCert)

def certifiedBlock : BlockInfo := qc.voteData.proposed

def parentBlock : BlockInfo := qc.voteData.parent

def ledgerInfo : LedgerInfo := qc.signedLedgerInfo.ledgerInfo

def commitInfo : BlockInfo := qc.ledgerInfo.commitInfo

def endsEpoch : Bool := qc.ledgerInfo.endsEpoch

end QuorumCert

/-! ## Payloads -/

/-- The parts of a `BatchInfo` that the payload checks read, and its digest. -/
structure BatchInfo where
  epoch : Nat
  digest : HashValue
  deriving DecidableEq

structure ProofOfStore where
  info : BatchInfo
  multiSignature : AggregateSignature
  deriving DecidableEq

abbrev SignedTransaction := Nat

abbrev ValidatorTransaction := Nat

inductive PayloadExecutionLimit where
  | none
  | maxTransactionsToExecute (limit : Nat)
  | txnAndGasLimits (transactionLimit gasLimit : Option Nat)
  deriving DecidableEq

inductive Payload where
  | directMempool (txns : List SignedTransaction)
  | inQuorumStore (proofs : List ProofOfStore)
  | inQuorumStoreWithLimit (proofs : List ProofOfStore) (maxTxnsToExecute : Option Nat)
  | quorumStoreInlineHybrid (inlineBatches : List (BatchInfo × List SignedTransaction))
      (proofs : List ProofOfStore) (maxTxnsToExecute : Option Nat)
  | quorumStoreInlineHybridV2 (inlineBatches : List (BatchInfo × List SignedTransaction))
      (proofs : List ProofOfStore) (limits : PayloadExecutionLimit)
  | optQuorumStore (inlineBatches : List (BatchInfo × List SignedTransaction))
      (optBatches : List BatchInfo) (proofs : List ProofOfStore)
      (limits : PayloadExecutionLimit)
  deriving DecidableEq

namespace Payload

def isEmpty : Payload → Bool
  | directMempool txns => txns.isEmpty
  | inQuorumStore proofs => proofs.isEmpty
  | inQuorumStoreWithLimit proofs _ => proofs.isEmpty
  | quorumStoreInlineHybrid inlineBatches proofs _
  | quorumStoreInlineHybridV2 inlineBatches proofs _ =>
    proofs.isEmpty && inlineBatches.isEmpty
  | optQuorumStore inlineBatches optBatches proofs _ =>
    optBatches.isEmpty && proofs.isEmpty && inlineBatches.isEmpty

def verifyEpoch (epoch : Nat) : Payload → Except String Unit
  | directMempool _ => .ok ()
  | inQuorumStore proofs | inQuorumStoreWithLimit proofs _ =>
    ensure (proofs.all fun p => p.info.epoch == epoch) "Payload epoch doesn't match given epoch"
  | quorumStoreInlineHybrid inlineBatches proofs _
  | quorumStoreInlineHybridV2 inlineBatches proofs _ => do
      ensure (proofs.all fun p => p.info.epoch == epoch)
        "Payload proof epoch doesn't match given epoch"
      ensure (inlineBatches.all fun b => b.1.epoch == epoch)
        "Payload inline batch epoch doesn't match given epoch"
  | optQuorumStore inlineBatches optBatches proofs _ => do
      ensure (inlineBatches.all fun b => b.1.epoch == epoch)
        "OptQS InlineBatch epoch doesn't match given epoch"
      ensure (optBatches.all fun b => b.epoch == epoch)
        "OptQS OptBatch epoch doesn't match given epoch"
      ensure (proofs.all fun p => p.info.epoch == epoch)
        "OptQS Proof epoch doesn't match given epoch"

end Payload

/-! ## Blocks -/

inductive BlockType where
  | proposal (payload : Payload) (author : Author) (failedAuthors : List (Round × Author))
  | nilBlock (failedAuthors : List (Round × Author))
  | genesis
  | proposalExt (validatorTxns : List ValidatorTransaction) (payload : Payload)
      (author : Author) (failedAuthors : List (Round × Author))
  | optimisticProposal (validatorTxns : List ValidatorTransaction) (payload : Payload)
      (author : Author) (grandparentQc : QuorumCert)
  | dagBlock (author : Author) (failedAuthors : List (Round × Author))
      (validatorTxns : List ValidatorTransaction) (payload : Payload)
      (nodeDigests : List HashValue) (parentBlockId : HashValue) (parentsBitvec : Bitvec)
  deriving DecidableEq

structure BlockData where
  epoch : Nat
  round : Round
  timestampUsecs : Nat
  quorumCert : QuorumCert
  blockType : BlockType
  deriving DecidableEq

/-- What the digest of a block covers. -/
inductive BlockHashInput where
  | full (data : BlockData)
  | opt (epoch : Nat) (round : Round) (timestampUsecs : Nat) (quorumCertVoteData : VoteData)
      (blockType : BlockType)
  deriving DecidableEq

namespace BlockData

def author (b : BlockData) : Option Author :=
  match b.blockType with
  | .proposal _ author _ | .dagBlock author _ _ _ _ _ _ | .proposalExt _ _ author _
  | .optimisticProposal _ _ author _ => some author
  | .nilBlock _ | .genesis => none

variable (b : BlockData)

def parentId : HashValue :=
  match b.blockType with
  | .dagBlock _ _ _ _ _ parentBlockId _ => parentBlockId
  | _ => b.quorumCert.certifiedBlock.id

def payload (b : BlockData) : Option Payload :=
  match b.blockType with
  | .proposal payload _ _ | .dagBlock _ _ _ payload _ _ _ | .proposalExt _ payload _ _
  | .optimisticProposal _ payload _ _ => some payload
  | .nilBlock _ | .genesis => none

def failedAuthors : Option (List (Round × Author)) :=
  match b.blockType with
  | .proposal _ _ failed | .nilBlock failed | .dagBlock _ failed _ _ _ _ _
  | .proposalExt _ _ _ failed => some failed
  | .optimisticProposal _ _ _ _ | .genesis => none

def isGenesisBlock : Bool := b.blockType matches .genesis

def isNilBlock : Bool := b.blockType matches .nilBlock _

def isOptBlock : Bool := b.blockType matches .optimisticProposal _ _ _ _

def hashInput : BlockHashInput :=
  if b.isOptBlock then
    .opt b.epoch b.round b.timestampUsecs b.quorumCert.voteData b.blockType
  else .full b

end BlockData

/-- The part of a `Block` that travels; its id is the hash of the data. -/
structure Block where
  blockData : BlockData
  signature : Option Signature
  deriving DecidableEq

structure TimeoutSigningRepr where
  epoch : Nat
  round : Round
  hqcRound : Round
  deriving DecidableEq

/-- The messages that consensus signs.  The hashers of the source carry a seed for each
type, so that messages of different types never have the same signed bytes. -/
inductive SignedMessage where
  | ledgerInfo (li : LedgerInfo)
  | timeout (repr : TimeoutSigningRepr)
  | blockData (data : BlockData)
  deriving DecidableEq

/-- The fields of a ledger info that a waypoint hashes (`Ledger2WaypointConverter`). -/
structure Ledger2WaypointConverter where
  epoch : Nat
  rootHash : HashValue
  version : Version
  timestampUsecs : Nat
  nextEpochState : Option EpochState
  deriving DecidableEq

abbrev PrivateKey := Nat

/-- Hashing and signing. -/
class Crypto where
  voteDataHash : VoteData → HashValue
  blockDataHash : BlockHashInput → HashValue
  ledgerInfoHash : LedgerInfo → HashValue
  waypointHash : Ledger2WaypointConverter → HashValue
  accumulator : MerkleHasher HashValue
  bls : Bls SignedMessage
  publicKey : PrivateKey → PublicKey
  sign : PrivateKey → SignedMessage → Option Signature

/-- Digests that tell rounds apart. -/
abbrev Crypto.ofRounds (bls : Bls SignedMessage)
    (sign : PrivateKey → SignedMessage → Option Signature) : Crypto where
  voteDataHash data := data.proposed.round + 1
  blockDataHash
    | .full data => data.round + 1
    | .opt _ round _ _ _ => round + 1
  ledgerInfoHash li := li.commitInfo.round + 1
  waypointHash converter := converter.epoch
  accumulator := ⟨fun left right => left + right + 1, 0⟩
  bls := bls
  publicKey key := key
  sign := sign

variable [Crypto]

def VoteData.hash (data : VoteData) : HashValue := Crypto.voteDataHash data

def BlockData.hash (data : BlockData) : HashValue := Crypto.blockDataHash data.hashInput

def LedgerInfo.hash (li : LedgerInfo) : HashValue := Crypto.ledgerInfoHash li

namespace Block

variable (b : Block)

def id : HashValue := b.blockData.hash

def epoch : Nat := b.blockData.epoch

def round : Round := b.blockData.round

def quorumCert : QuorumCert := b.blockData.quorumCert

def timestampUsecs : Nat := b.blockData.timestampUsecs

def parentId : HashValue := b.blockData.parentId

def genBlockInfo (executedStateId : HashValue) (version : Version)
    (nextEpochState : Option EpochState) : BlockInfo where
  epoch := b.epoch
  round := b.round
  id := b.id
  executedStateId := executedStateId
  version := version
  timestampUsecs := b.timestampUsecs
  nextEpochState := nextEpochState

end Block

/-! ## State-independent checks -/

/-- Well-formedness of a vote, independent of the current state. -/
def VoteData.verify (data : VoteData) : Except String Unit := do
  ensure (data.parent.epoch = data.proposed.epoch) "Parent and proposed epochs do not match"
  ensure (data.parent.round < data.proposed.round) "Proposed round is less than parent round"
  ensure (data.parent.timestampUsecs ≤ data.proposed.timestampUsecs)
    "Proposed happened before parent"
  ensure (data.proposed.version = 0 ∨ data.parent.version ≤ data.proposed.version)
    "Proposed version is less than parent version"

/-- A certificate of round 0 is taken for a genesis certificate and has no signatures to
check; every other certificate needs a quorum behind its ledger info. -/
def QuorumCert.verify (qc : QuorumCert) (validator : ValidatorVerifier) : Except String Unit := do
  ensure (qc.ledgerInfo.consensusDataHash = qc.voteData.hash)
    "Quorum Cert's hash mismatch LedgerInfo"
  if qc.certifiedBlock.round = 0 then
    ensure (qc.parentBlock = qc.certifiedBlock)
      "Genesis QC has inconsistent parent block with certified block"
    ensure (qc.certifiedBlock = qc.commitInfo)
      "Genesis QC has inconsistent commit block with certified block"
    ensure (qc.signedLedgerInfo.getNumVoters = 0) "Genesis QC should not carry signatures"
  else
    (qc.signedLedgerInfo.verifySignatures Crypto.bls SignedMessage.ledgerInfo validator).mapError
      fun _ => "Fail to verify QuorumCert"
    qc.voteData.verify

/-- The signature of a proposal that has an author. -/
def Block.verifyProposerSignature (b : Block) (validator : ValidatorVerifier) (author : Author) :
    Except String Unit :=
  match b.signature with
  | none => .error "Missing signature in Proposal"
  | some signature =>
    (validator.verify Crypto.bls author (.blockData b.blockData) signature).mapError
      VerifyError.toText

/-- `validate_signature`: the proposal and the certificates it carries. -/
def Block.validateSignature (b : Block) (validator : ValidatorVerifier) : Except String Unit :=
  match b.blockData.blockType with
  | .genesis => .error "We should not accept genesis from others"
  | .nilBlock _ => b.quorumCert.verify validator
  | .proposal _ author _ | .proposalExt _ _ author _ => do
      b.verifyProposerSignature validator author
      b.quorumCert.verify validator
  | .optimisticProposal _ _ _ grandparentQc => do
      grandparentQc.verify validator
      b.quorumCert.verify validator
  | .dagBlock _ _ _ _ _ _ _ => .error "We should not accept DAG block from others"

/-- Failed authors name increasing rounds strictly between the parent and the block. -/
def checkFailedAuthors (succRound : Round) : Round → List (Round × Author) → Except String Unit
  | _, [] => .ok ()
  | bound, (round, _) :: rest => do
      ensure (bound < round ∧ round < succRound) "Incorrect round in failed authors"
      checkFailedAuthors succRound round rest

/-- The failed authors of a block on `parent`; `none` is the overflow of the round. -/
def BlockData.verifyFailedAuthors (b : BlockData) (parent : BlockInfo) : Except String Unit :=
  match b.failedAuthors with
  | none => .ok ()
  | some failedAuthors => do
      let succRound := b.round + if b.isNilBlock then 1 else 0
      ensure (succRound ≤ u64Max) "attempt to add with overflow"
      ensure (parent.round + 1 ≤ succRound) "Block round is smaller than block's parent round"
      ensure (failedAuthors.length ≤ succRound - (parent.round + 1))
        "Block has more failed authors than missed rounds"
      checkFailedAuthors succRound parent.round failedAuthors

/-- How far ahead of the local clock a block may be, in microseconds. -/
def timebound : Nat := 300000000

def BlockData.verifyTimestamp (b : BlockData) (parent : BlockInfo) (now : Nat) :
    Except String Unit :=
  if b.isNilBlock || parent.hasReconfiguration then
    ensure (b.timestampUsecs = parent.timestampUsecs)
      "Nil/reconfig suffix block must have same timestamp as parent"
  else do
    ensure (parent.timestampUsecs < b.timestampUsecs)
      "Blocks must have strictly increasing timestamps"
    ensure (b.timestampUsecs ≤ min (now + timebound) u64Max)
      "Blocks must not be too far in the future"

/-- `verify_well_formed` at the local time `now`. -/
def BlockData.verifyWellFormed (b : BlockData) (now : Nat) : Except String Unit := do
  ensure (¬ b.isGenesisBlock) "We must not accept genesis from others"
  let parent := b.quorumCert.certifiedBlock
  ensure (parent.round < b.round) "Block must have a greater round than parent's block"
  ensure (parent.epoch = b.epoch) "block's parent should be in the same epoch"
  ensure (parent.hasReconfiguration → (b.payload.map Payload.isEmpty).getD true)
    "Reconfiguration suffix should not carry payload"
  match b.payload with
  | some payload => payload.verifyEpoch b.epoch
  | none => .ok ()
  b.verifyFailedAuthors parent
  b.verifyTimestamp parent now
  ensure (¬ b.quorumCert.endsEpoch) "Block cannot be proposed in an epoch that has ended"

end CreditChain
