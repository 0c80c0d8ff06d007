import CreditChain.Lib.Word64
import CreditChain.Types.Bitvec

/-!
# Ledger infos and the data they are made of

The records that validators sign, with the validator set they carry across epochs.
Identifiers that the code only compares or orders (digests, account addresses, keys,
signatures) are natural numbers.  A digest is 32 bytes in the source; here it is
unbounded, so that a collision-free hash exists.

Equality of two `ValidatorVerifier`s ignores the optimistic-verification state in the
source.  That state is therefore kept apart, in `OptimisticVerifier`, and the derived
equality of the records below is the one the code uses.
-/

namespace CreditChain

/-- A digest (`HashValue`). -/
abbrev HashValue := Nat

/-- `HashValue::zero()`. -/
def HashValue.zero : HashValue := (0 : Nat)

/-- An account address; addresses are ordered, as the keys of the source's sorted maps. -/
abbrev AccountAddress := Nat

/-- The author of a consensus message. -/
abbrev Author := AccountAddress

/-- A consensus round (`u64`). -/
abbrev Round := Nat

/-- A transaction version (`u64`). -/
abbrev Version := Nat

/-- What protects a transaction against being replayed. -/
inductive ReplayProtector where
  | nonce (nonce : Nat)
  | sequenceNumber (number : Nat)
  deriving DecidableEq

/-- A BLS public key. -/
abbrev PublicKey := Nat

/-- A BLS signature, multi-signature or aggregate signature. -/
abbrev Signature := Nat

structure ValidatorConsensusInfo where
  address : AccountAddress
  publicKey : PublicKey
  votingPower : Nat
  deriving DecidableEq

/-- `ValidatorVerifier`, without its optimistic-verification state. -/
structure ValidatorVerifier where
  validatorInfos : List ValidatorConsensusInfo
  quorumVotingPower : Nat
  totalVotingPower : Nat
  deriving DecidableEq

structure EpochState where
  epoch : Nat
  verifier : ValidatorVerifier
  deriving DecidableEq

structure BlockInfo where
  epoch : Nat
  round : Round
  id : HashValue
  executedStateId : HashValue
  version : Version
  timestampUsecs : Nat
  nextEpochState : Option EpochState
  deriving DecidableEq

namespace BlockInfo

def empty : BlockInfo where
  epoch := 0
  round := 0
  id := .zero
  executedStateId := .zero
  version := 0
  timestampUsecs := 0
  nextEpochState := none

def hasReconfiguration (b : BlockInfo) : Bool := b.nextEpochState.isSome

/-- `next_block_epoch`: the epoch after this block committed. -/
def nextBlockEpoch (b : BlockInfo) : Nat :=
  match b.nextEpochState with
  | some state => state.epoch
  | none => b.epoch

def allowTimestampChange (b : BlockInfo) (timestamp : Nat) : Bool :=
  b.hasReconfiguration && decide (timestamp ≤ b.timestampUsecs)

/-- `change_timestamp`; `none` is the failed assertion. -/
def changeTimestamp (b : BlockInfo) (timestamp : Nat) : Option BlockInfo :=
  if b.allowTimestampChange timestamp then some { b with timestampUsecs := timestamp } else none

/-- `match_ordered_only`: agreement on the fields that execution does not change. -/
def matchOrderedOnly (b executed : BlockInfo) : Bool :=
  b.epoch == executed.epoch && b.round == executed.round && b.id == executed.id &&
    (b.timestampUsecs == executed.timestampUsecs ||
      (decide (executed.timestampUsecs < b.timestampUsecs) && executed.hasReconfiguration))

/-- `is_ordered_only`: the dummy execution results of the ordering stage, and not empty. -/
def isOrderedOnly (placeholder : HashValue) (b : BlockInfo) : Bool :=
  b != empty && b.nextEpochState.isNone && b.executedStateId == placeholder && b.version == 0

end BlockInfo

structure LedgerInfo where
  commitInfo : BlockInfo
  consensusDataHash : HashValue
  deriving DecidableEq

namespace LedgerInfo

variable (li : LedgerInfo)

def epoch : Nat := li.commitInfo.epoch

def version : Version := li.commitInfo.version

def transactionAccumulatorHash : HashValue := li.commitInfo.executedStateId

def nextEpochState : Option EpochState := li.commitInfo.nextEpochState

def endsEpoch : Bool := li.nextEpochState.isSome

end LedgerInfo

/-- `AggregateSignature`: the signers' mask and what was aggregated from their shares. -/
structure AggregateSignature where
  validatorBitmask : Bitvec
  sig : Option Signature
  deriving DecidableEq

namespace AggregateSignature

def empty : AggregateSignature := ⟨.default, none⟩

def getNumVoters (agg : AggregateSignature) : Nat := agg.validatorBitmask.countOnes

/-- `get_signers_addresses`: the addresses at the marked positions. -/
def getSignersAddresses (agg : AggregateSignature) (addresses : List AccountAddress) :
    List AccountAddress :=
  addresses.zipIdx.filterMap fun entry =>
    if agg.validatorBitmask.isSet (asU16 entry.2) then some entry.1 else none

end AggregateSignature

/-- `SignatureWithStatus`: a signature and whether it has been verified. -/
structure SignatureWithStatus where
  signature : Signature
  verified : Bool
  deriving DecidableEq

/-- `SignatureWithStatus::from`. -/
def SignatureWithStatus.ofSignature (signature : Signature) : SignatureWithStatus :=
  ⟨signature, false⟩

/-- `LedgerInfoWithSignatures` (its only variant, `LedgerInfoWithV0`). -/
structure LedgerInfoWithSignatures where
  ledgerInfo : LedgerInfo
  signatures : AggregateSignature
  deriving DecidableEq

def LedgerInfoWithSignatures.commitInfo (li : LedgerInfoWithSignatures) : BlockInfo :=
  li.ledgerInfo.commitInfo

def LedgerInfoWithSignatures.getNumVoters (li : LedgerInfoWithSignatures) : Nat :=
  li.signatures.getNumVoters

end CreditChain
