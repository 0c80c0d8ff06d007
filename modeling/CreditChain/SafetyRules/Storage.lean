import CreditChain.Consensus.Timeout

/-!
# Persistent state of the safety rules

`SafetyData` is the record that the safety rules persist, `PersistentSafetyStorage` the
store with its in-memory copy of that record, and `SafetyRules` the whole instance.

Each access of the store has an outcome that the environment chooses
(`Storage.outcomes`, consumed in order): it works, it fails, or, for a write, it fails
after the new value has reached the store.  A failed write drops the in-memory copy.

With the copy disabled, the source decodes the stored record at the type of the result
of the read.  Whether that succeeds is again an outcome of the environment.
-/

namespace CreditChain

structure OrderVote where
  author : Author
  ledgerInfo : LedgerInfo
  signature : SignatureWithStatus

structure SafetyData where
  epoch : Nat
  lastVotedRound : Round
  preferredRound : Round
  oneChainRound : Round
  lastVote : Option Vote
  highestTimeoutRound : Round

/-- The record at the start of an epoch. -/
def SafetyData.start (epoch : Nat) : SafetyData := ⟨epoch, 0, 0, 0, none, 0⟩

structure Waypoint where
  version : Version
  value : HashValue
  deriving DecidableEq

/-- `Error`: why the safety rules refuse a request.  `panicked` is an abort of the source. -/
inductive Error where
  | incorrectEpoch (provided expected : Nat)
  | incorrectRound (round : Round)
  | incorrectLastVotedRound (round lastVotedRound : Round)
  | incorrectPreferredRound (round preferredRound : Round)
  | invalidAccumulatorExtension (reason : String)
  | invalidEpochChangeProof (reason : String)
  | internalError (reason : String)
  | invalidLedgerInfo
  | invalidProposal (reason : String)
  | invalidQuorumCertificate (reason : String)
  | notInitialized (field : String)
  | notSafeForOrderVote (round highestTimeoutRound : Round)
  | secureStorageMissingDataError (reason : String)
  | secureStorageUnexpectedError (reason : String)
  | serializationError (reason : String)
  | validatorKeyNotFound (reason : String)
  | validatorNotInSet (author : String)
  | notSafeToVote (round qcRound tcRound hqcRound : Round)
  | notSafeToTimeout (round qcRound tcRound oneChainRound : Round)
  | invalidTimeoutCertificate (reason : String)
  | inconsistentExecutionResult (ordered executed : BlockInfo)
  | invalidOrderedLedgerInfo (ledgerInfo : LedgerInfo)
  | waypointOutOfDate (previous updated : Version) (currentEpoch providedEpoch : Nat)
  | invalidTimeout (reason : String)
  | invalidOneChainQuorumCertificate (certified block : HashValue)
  | panicked (reason : String)

/-- An error of the secure storage, as far as the safety rules tell them apart. -/
inductive StorageError where
  | missingData (reason : String)
  | unexpected (reason : String)

def StorageError.toError : StorageError → Error
  | missingData reason => .secureStorageMissingDataError reason
  | unexpected reason => .secureStorageUnexpectedError reason

def StorageError.reason : StorageError → String
  | missingData reason | unexpected reason => reason

/-- How one access of the store ends. -/
inductive StorageOutcome where
  | ok
  | fail (e : StorageError)
  | failAfterWrite (e : StorageError)

/-- The entries of the secure storage, and how the coming accesses end. -/
structure Storage where
  safetyData : SafetyData
  waypoint : Waypoint
  ownerAccount : Author
  consensusKey : Option PrivateKey
  consensusKeyOf : List (PublicKey × PrivateKey)
  outcomes : List StorageOutcome

structure PersistentSafetyStorage where
  enableCachedSafetyData : Bool
  cachedSafetyData : Option SafetyData
  internalStore : Storage

structure ValidatorSigner where
  author : Author
  privateKey : PrivateKey

structure SafetyRules where
  persistentStorage : PersistentSafetyStorage
  validatorSigner : Option ValidatorSigner
  epochState : Option EpochState
  skipSigVerify : Bool

/-- An operation of the safety rules. -/
abbrev SafetyM (α : Type) := Action SafetyRules Error α

namespace SafetyRules

variable (s : SafetyRules)

/-- The persisted record. -/
def stored : SafetyData := s.persistentStorage.internalStore.safetyData

def cached : Option SafetyData := s.persistentStorage.cachedSafetyData

def setStore (store : Storage) : SafetyRules :=
  { s with persistentStorage := { s.persistentStorage with internalStore := store } }

def setCache (cache : Option SafetyData) : SafetyRules :=
  { s with persistentStorage := { s.persistentStorage with cachedSafetyData := cache } }

/-- The outcome of the next access; accesses past the list work. -/
def nextOutcome : SafetyM StorageOutcome := do
  let s ← get
  let store := s.persistentStorage.internalStore
  match store.outcomes with
  | [] => pure .ok
  | outcome :: rest =>
    set (s.setStore { store with outcomes := rest })
    pure outcome

/-- One read of the store. -/
def getEntry {α : Type} (entry : Storage → Except StorageError α) : SafetyM α := do
  match ← nextOutcome with
  | .ok =>
    let s ← get
    Action.check ((entry s.persistentStorage.internalStore).mapError StorageError.toError)
  | .fail e | .failAfterWrite e => throw e.toError

def safetyData : SafetyM SafetyData := do
  let s ← get
  if s.persistentStorage.enableCachedSafetyData then
    match s.cached with
    | some data => pure data
    | none =>
      let data ← getEntry fun store => .ok store.safetyData
      modify fun s => s.setCache (some data)
      pure data
  else
    getEntry fun store => .ok store.safetyData

def setSafetyData (data : SafetyData) : SafetyM Unit := do
  let outcome ← nextOutcome
  let s ← get
  let written := s.setStore { s.persistentStorage.internalStore with safetyData := data }
  match outcome with
  | .ok => set (written.setCache (some data))
  | .fail e =>
    set (s.setCache none)
    throw (.secureStorageUnexpectedError e.reason)
  | .failAfterWrite e =>
    set (written.setCache none)
    throw (.secureStorageUnexpectedError e.reason)

def setWaypoint (waypoint : Waypoint) : SafetyM Unit := do
  let outcome ← nextOutcome
  let s ← get
  let written := s.setStore { s.persistentStorage.internalStore with waypoint := waypoint }
  match outcome with
  | .ok => set written
  | .fail e => throw e.toError
  | .failAfterWrite e =>
    set written
    throw e.toError

/-- `consensus_sk_by_pk`: the key stored for `pk`, else the default key, if it is the right one. -/
def consensusSkByPk [Crypto] (pk : PublicKey) : SafetyM PrivateKey := do
  let explicitSk ← tryCatch (some <$> getEntry fun store =>
      match store.consensusKeyOf.lookup pk with
      | some key => .ok key
      | none => .error (.missingData "key not set")) fun _ => pure none
  let defaultSk ← tryCatch (some <$> getEntry fun store =>
      match store.consensusKey with
      | some key => .ok key
      | none => .error (.missingData "key not set")) fun _ => pure none
  match explicitSk.or defaultSk with
  | none => throw (.validatorKeyNotFound "not found!")
  | some key =>
    if Crypto.publicKey key ≠ pk then
      throw (.secureStorageMissingDataError "Incorrect sk saved for the expected pk")
    else pure key

end SafetyRules

end CreditChain
