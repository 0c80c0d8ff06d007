import CreditChain.Aggregator.Delta
import CreditChain.Lib.OrderedMap

/-!
# Versioned delayed fields

Aggregators, snapshots of aggregators and strings derived from snapshots.  A transaction writes a
value, or a change on top of a value that is not known yet: a delta for an aggregator, a snapshot
of an aggregator at the start of the transaction with a delta, or a string for a snapshot at the
end of the transaction.  A commit puts values in the place of the changes of one transaction.
-/

namespace CreditChain

/-! ## Values and changes -/

inductive DelayedFieldValue where
  | aggregator (value : Nat)
  | snapshot (value : Nat)
  | derived (value : List UInt8)
  deriving DecidableEq

namespace DelayedFieldValue

variable {ε : Type}

def intoAggregatorValue : DelayedFieldValue → Except (PanicOr ε) Nat
  | aggregator value => .ok value
  | snapshot _ =>
    .error (.codeInvariantError "Tried calling into_aggregator_value on Snapshot value")
  | derived _ =>
    .error (.codeInvariantError "Tried calling into_aggregator_value on String SnapshotValue")

def intoSnapshotValue : DelayedFieldValue → Except (PanicOr ε) Nat
  | snapshot value => .ok value
  | aggregator _ =>
    .error (.codeInvariantError "Tried calling into_snapshot_value on Aggregator value")
  | derived _ =>
    .error (.codeInvariantError "Tried calling into_snapshot_value on String SnapshotValue")

end DelayedFieldValue

inductive SnapshotToStringFormula where
  | concat (before after : List UInt8)
  deriving DecidableEq

/-- The decimal digits of a number between two strings. -/
def SnapshotToStringFormula.applyTo : SnapshotToStringFormula → Nat → List UInt8
  | concat before after, base =>
    before ++ (Nat.toDigits 10 base).map (fun digit => .ofNat digit.toNat) ++ after

/-- A change, on the field itself or on another field. -/
inductive DelayedApplyEntry (K : Type) where
  | aggregatorDelta (delta : DeltaOp)
  | snapshotDelta (baseAggregator : K) (delta : DeltaOp)
  | snapshotDerived (baseSnapshot : K) (formula : SnapshotToStringFormula)
  deriving DecidableEq

/-- The field that a change applies to, before or after the transaction. -/
inductive ApplyBase (K : Type) where
  | previous (id : K)
  | current (id : K)

namespace DelayedApplyEntry

variable {K : Type}

def getApplyBaseIdOption : DelayedApplyEntry K → Option (ApplyBase K)
  | aggregatorDelta _ => none
  | snapshotDelta baseAggregator _ => some (.previous baseAggregator)
  | snapshotDerived baseSnapshot _ => some (.current baseSnapshot)

def applyToBase (entry : DelayedApplyEntry K) (baseValue : DelayedFieldValue) :
    Except (PanicOr DelayedFieldsSpeculativeError) DelayedFieldValue :=
  match entry with
  | aggregatorDelta delta => do
      let base ← baseValue.intoAggregatorValue
      return .aggregator (← delta.applyTo base)
  | snapshotDelta _ delta => do
      let base ← baseValue.intoAggregatorValue
      return .snapshot (← delta.applyTo base)
  | snapshotDerived _ formula => do
      let base ← baseValue.intoSnapshotValue
      return .derived (formula.applyTo base)

end DelayedApplyEntry

/-- What a transaction does to a field. -/
inductive DelayedEntry (K : Type) where
  | create (value : DelayedFieldValue)
  | apply (entry : DelayedApplyEntry K)

inductive MVDelayedFieldsError where
  | notFound
  | dependency (txnIdx : Nat)
  | deltaApplicationFailure

def MVDelayedFieldsError.fromPanicOr :
    PanicOr DelayedFieldsSpeculativeError → PanicOr MVDelayedFieldsError
  | .panicked => .panicked
  | .codeInvariantError message => .codeInvariantError message
  | .or _ => .or .deltaApplicationFailure

/-! ## The entries of a field -/

/-- A change that a read may use in the place of an estimate. -/
inductive EstimatedEntry (K : Type) where
  | noBypass
  | bypass (entry : DelayedApplyEntry K)

inductive VersionEntry (K : Type) where
  | value (value : DelayedFieldValue) (maybeApply : Option (DelayedApplyEntry K))
  | apply (entry : DelayedApplyEntry K)
  | estimate (entry : EstimatedEntry K)

/-- The change that an entry keeps for estimates. -/
def VersionEntry.change {K : Type} : VersionEntry K → Option (DelayedApplyEntry K)
  | .value _ maybeApply => maybeApply
  | .apply entry => some entry
  | .estimate _ => none

/-- The entries of the transactions that change a field, and its value before the block. -/
structure VersionedField (K : Type) where
  versionedMap : OrderedMap Nat (VersionEntry K)
  baseValue : Option DelayedFieldValue
  readEstimateDeltas : Bool

/-- A value, or a change on a field up to an index. -/
inductive VersionedRead (K : Type) where
  | value (value : DelayedFieldValue)
  | dependentApply (id : K) (txnIdx : Nat) (entry : DelayedApplyEntry K)

namespace VersionedField

variable {K : Type} [DecidableEq K]

def new (baseValue : Option DelayedFieldValue) : VersionedField K := ⟨.empty, baseValue, true⟩

/-- Whether two changes are of one sort. -/
def variantEq : DelayedApplyEntry K → DelayedApplyEntry K → Bool
  | .aggregatorDelta _, .aggregatorDelta _ => true
  | .snapshotDelta _ _, .snapshotDelta _ _ => true
  | .snapshotDerived _ _, .snapshotDerived _ _ => true
  | _, _ => false

/-- Whether a new entry does what the estimate in its place has promised. -/
def keepsEstimate (old entry : VersionEntry K) : Except (PanicOr MVDelayedFieldsError) Bool :=
  match old with
  | .estimate (.bypass left) =>
    match entry.change with
    | some right =>
      if variantEq left right then .ok (left = right)
      else .error (.codeInvariantError
        "Storing an entry for aggregator ID that previously had a different type of entry")
    | none => .ok false
  | .estimate .noBypass =>
    match entry with
    | .value _ none => .ok true
    | _ => .ok false
  | _ => .ok true

variable (f : VersionedField K) (txnIdx : Nat)

/-- The entry of a speculative execution. -/
def insertSpeculativeValue (entry : VersionEntry K) : Except (PanicOr MVDelayedFieldsError)
    (VersionedField K) :=
  match entry, f.versionedMap.find? txnIdx with
  | .estimate _, _ => .error .panicked
  | entry, none => .ok { f with versionedMap := f.versionedMap.insert txnIdx entry }
  | entry, some old => do
      let keeps ← keepsEstimate old entry
      return { f with
        versionedMap := f.versionedMap.insert txnIdx entry,
        readEstimateDeltas := f.readEstimateDeltas && keeps }

/-- Put the value of a commit in the place of an entry; `none` is a panic. -/
def insertFinalValue (value : DelayedFieldValue) : Option (VersionedField K) :=
  match f.versionedMap.find? txnIdx with
  | some (.value v _) =>
    if v = value then
      some { f with versionedMap := f.versionedMap.insert txnIdx (.value value none) }
    else none
  | some (.apply _) =>
    some { f with versionedMap := f.versionedMap.insert txnIdx (.value value none) }
  | _ => none

/-- The latest value below an index, all entries there being values.  If there is none, the first
entry is a prediction. -/
def readLatestPredictedValue (nextIdxToCommit : Nat) : Except (PanicOr MVDelayedFieldsError)
    DelayedFieldValue :=
  match f.versionedMap.lastBelow nextIdxToCommit with
  | some (_, .value v _) => .ok v
  | some _ => .error .panicked
  | none =>
    match f.baseValue, f.versionedMap.front? with
    | some value, _ => .ok value
    | none, some (_, .value v _) => .ok v
    | none, _ => .error (.or .notFound)

/-- Apply deltas to the value of an aggregator. -/
def resolveAggregator (accumulator : DeltaOp) (value : Nat) :
    Except (PanicOr MVDelayedFieldsError) DelayedFieldValue :=
  ((accumulator.applyTo value).mapError MVDelayedFieldsError.fromPanicOr).map .aggregator

/-- The walk down the entries of an aggregator, the latest first, with the deltas so far. -/
def applyAggregatorChangeSuffix (baseValue : Option DelayedFieldValue)
    (readEstimateDeltas : Bool) (accumulator : DeltaOp) :
    List (Nat × VersionEntry K) → Except (PanicOr MVDelayedFieldsError) DelayedFieldValue
  | [] =>
    match baseValue with
    | none => .error (.or .notFound)
    | some (.aggregator v) => resolveAggregator accumulator v
    | some _ => .error (.codeInvariantError
        "Found non-DelayedFieldValue::Aggregator base value for aggregator with delta")
  | (idx, entry) :: entries =>
    match entry with
    | .value (.aggregator v) _ => resolveAggregator accumulator v
    | .value _ _ => .error .panicked
    | .apply (.aggregatorDelta delta) => do
        let accumulator ← (accumulator.mergeWithPreviousDelta delta).mapError
          MVDelayedFieldsError.fromPanicOr
        applyAggregatorChangeSuffix baseValue readEstimateDeltas accumulator entries
    | .apply _ => .error .panicked
    | .estimate .noBypass => .error (.or (.dependency idx))
    | .estimate (.bypass change) =>
      if readEstimateDeltas then
        match change with
        | .aggregatorDelta delta => do
            let accumulator ← (accumulator.mergeWithPreviousDelta delta).mapError
              MVDelayedFieldsError.fromPanicOr
            applyAggregatorChangeSuffix baseValue readEstimateDeltas accumulator entries
        | _ => .error .panicked
      else .error (.or (.dependency idx))

/-- A change that is read at `idx`, with the entries below it. -/
def readApply (idx : Nat) (entry : DelayedApplyEntry K) (entries : List (Nat × VersionEntry K)) :
    Except (PanicOr MVDelayedFieldsError) (VersionedRead K) :=
  match entry.getApplyBaseIdOption, entry with
  | none, .aggregatorDelta delta =>
    (applyAggregatorChangeSuffix f.baseValue f.readEstimateDeltas delta entries).map .value
  | none, _ => .error .panicked
  | some (.previous id), _ => .ok (.dependentApply id idx entry)
  | some (.current id), _ => .ok (.dependentApply id (idx + 1) entry)

/-- The entries below an index, the latest first. -/
def entriesBelow : List (Nat × VersionEntry K) := f.versionedMap.descending txnIdx

/-- A read of some entries, the latest first. -/
def readEntries : List (Nat × VersionEntry K) → Except (PanicOr MVDelayedFieldsError)
    (VersionedRead K)
  | [] =>
    match f.baseValue with
    | none => .error (.or .notFound)
    | some value => .ok (.value value)
  | (idx, entry) :: entries =>
    match entry with
    | .value v _ => .ok (.value v)
    | .apply entry => f.readApply idx entry entries
    | .estimate .noBypass => .error (.or (.dependency idx))
    | .estimate (.bypass entry) =>
      if f.readEstimateDeltas then f.readApply idx entry entries
      else .error (.or (.dependency idx))

def read : Except (PanicOr MVDelayedFieldsError) (VersionedRead K) :=
  f.readEntries (f.entriesBelow txnIdx)

end VersionedField

/-! ## All fields -/

/-- The fields, and the index of the transaction that commits next. -/
structure VersionedDelayedFields (K : Type) where
  values : K → Option (VersionedField K)
  nextIdxToCommit : Nat

inductive CommitError where
  | codeInvariantError (message : String)
  | reExecutionNeeded (message : String)

namespace VersionedDelayedFields

variable {K : Type} [DecidableEq K]

def empty : VersionedDelayedFields K := ⟨fun _ => none, 0⟩

variable (d : VersionedDelayedFields K) (id : K) (txnIdx : Nat)
  (recurse : Option (K → Nat → Except (PanicOr MVDelayedFieldsError) DelayedFieldValue))

def setField (f : VersionedField K) : VersionedDelayedFields K :=
  { d with values := Function.update d.values id (some f) }

def setBaseValue (baseValue : DelayedFieldValue) : VersionedDelayedFields K :=
  match d.values id with
  | some _ => d
  | none => d.setField id (.new (some baseValue))

/-- A field that its transaction creates. -/
def initializeField (entry : VersionEntry K) (occupied : String) :
    Except (PanicOr MVDelayedFieldsError) (VersionedDelayedFields K) := do
  let created ← (VersionedField.new none).insertSpeculativeValue txnIdx entry
  ensure ((d.values id).isNone = true) (.codeInvariantError occupied)
  return d.setField id created

def initializeDelayedField (value : DelayedFieldValue) :
    Except (PanicOr MVDelayedFieldsError) (VersionedDelayedFields K) :=
  d.initializeField id txnIdx (.value value none)
    "VersionedValue when initializing delayed field may not already exist for same id"

def initializeDependentDelayedField (entry : DelayedApplyEntry K) :
    Except (PanicOr MVDelayedFieldsError) (VersionedDelayedFields K) :=
  d.initializeField id txnIdx (.apply entry)
    "VersionedValue when initializing dependent delayed field may not already exist for same id"

/-- What a transaction has done to a field. -/
def recordChange (change : DelayedEntry K) :
    Except (PanicOr MVDelayedFieldsError) (VersionedDelayedFields K) :=
  match change with
  | .create value => d.initializeDelayedField id txnIdx value
  | .apply (.aggregatorDelta delta) =>
    match d.values id with
    | none => .error (.or .notFound)
    | some f => do
        let f ← f.insertSpeculativeValue txnIdx (.apply (.aggregatorDelta delta))
        return d.setField id f
  | .apply entry => d.initializeDependentDelayedField id txnIdx entry

/-! ### Reads -/

/-- Go on from the read of a field to the field that it depends on, unless that is too deep. -/
def readDependent : VersionedRead K → Except (PanicOr MVDelayedFieldsError) DelayedFieldValue
  | .value v => .ok v
  | .dependentApply dependentId dependentTxnIdx entry =>
    if dependentId = id then
      .error (.codeInvariantError "ID of dependent apply is same as self")
    else
      match recurse with
      | none => .error (.codeInvariantError "Recursive depth for read()")
      | some recurse => do
          let sourceValue ← recurse dependentId dependentTxnIdx
          (entry.applyToBase sourceValue).mapError MVDelayedFieldsError.fromPanicOr

def readField : Except (PanicOr MVDelayedFieldsError) DelayedFieldValue :=
  match d.values id with
  | none => .error (.or .notFound)
  | some f => f.read txnIdx >>= readDependent id recurse

/-- A read with the number of fields that it may still go on to: the depth of the first read is
0, and a read at depth 3 may not depend on another field. -/
def readCheckedDepth (d : VersionedDelayedFields K) : Nat → K → Nat →
    Except (PanicOr MVDelayedFieldsError) DelayedFieldValue
  | 0, id, txnIdx => d.readField id txnIdx none
  | more + 1, id, txnIdx => d.readField id txnIdx (some (d.readCheckedDepth more))

def read : Except (PanicOr MVDelayedFieldsError) DelayedFieldValue :=
  d.readCheckedDepth 3 id txnIdx

/-! ### Commits -/

/-- A commit of one transaction.  What it has written before it fails stays. -/
abbrev Commit (K : Type) := Action (VersionedDelayedFields K) (PanicOr CommitError)

/-- Snapshots and derived strings, for which other fields come first. -/
structure Todo (K : Type) where
  deltas : List (K × K × DeltaOp)
  derived : List (K × K × SnapshotToStringFormula)

/-- The field of an identifier; without one, the commit fails with `e`. -/
def fieldOr (e : PanicOr CommitError) : Commit K (VersionedField K) := do
  let d ← get
  .check (match d.values id with
    | some f => .ok f
    | none => .error e)

/-- The value of a delta on the latest value. -/
def commitDelta (unreadable : String) (delta : DeltaOp)
    (prevValue : Except (PanicOr MVDelayedFieldsError) DelayedFieldValue) :
    Except (PanicOr CommitError) Nat :=
  match prevValue with
  | .ok (.aggregator base) => (delta.applyTo base).mapError fun
      | .panicked => .panicked
      | _ => .or (.reExecutionNeeded "Failed to apply delta to base")
  | .ok _ => .error (.or (.codeInvariantError "Cannot apply delta to non-DelayedField::Aggregator"))
  | .error .panicked => .error .panicked
  | .error _ => .error (.or (.codeInvariantError unreadable))

/-- The string of a formula on the latest value. -/
def commitDerived (unreadable : String) (formula : SnapshotToStringFormula)
    (prevValue : Except (PanicOr MVDelayedFieldsError) DelayedFieldValue) :
    Except (PanicOr CommitError) (List UInt8) :=
  match prevValue with
  | .ok (.snapshot base) => .ok (formula.applyTo base)
  | .ok _ => .error (.or (.codeInvariantError "Cannot apply delta to non-DelayedField::Aggregator"))
  | .error .panicked => .error .panicked
  | .error _ => .error (.or (.codeInvariantError unreadable))

def insertFinal (value : DelayedFieldValue) : Commit K Unit := do
  let f ← fieldOr id .panicked
  let f ← .check (match f.insertFinalValue txnIdx value with
    | some f => .ok f
    | none => .error .panicked)
  modify fun d => d.setField id f

variable (idxToCommit : Nat)

/-- The entry of a field in the first pass: values and deltas of aggregators are committed. -/
def commitEntry (todo : Todo K) (id : K) (f : VersionedField K) : Option (VersionEntry K) → Commit K
    (Todo K)
  | none => throw .panicked
  | some (.value _ none) => return todo
  | some (.value v (some _)) => do
      insertFinal id idxToCommit v
      return todo
  | some (.apply (.aggregatorDelta delta)) => do
      let value ← .check (commitDelta
        "Cannot read latest committed value for Apply(AggregatorDelta) during commit" delta
        (f.readLatestPredictedValue idxToCommit))
      insertFinal id idxToCommit (.aggregator value)
      return todo
  | some (.apply (.snapshotDelta baseAggregator delta)) =>
    return { todo with deltas := todo.deltas ++ [(id, baseAggregator, delta)] }
  | some (.apply (.snapshotDerived baseSnapshot formula)) =>
    return { todo with derived := todo.derived ++ [(id, baseSnapshot, formula)] }
  | some (.estimate _) => throw (.or (.codeInvariantError "Cannot commit an estimate"))

def commitField (todo : Todo K) (id : K) : Commit K (Todo K) := do
  let f ← fieldOr id .panicked
  commitEntry idxToCommit todo id f (f.versionedMap.find? idxToCommit)

def missingBase : PanicOr CommitError :=
  .or (.codeInvariantError "Cannot find base_aggregator for Apply(SnapshotDelta) during commit")

def unreadableBase : String :=
  "Cannot read latest committed value for base aggregator for ApplySnapshotDelta) during commit"

/-- The second pass: snapshots of aggregators before the transaction. -/
def commitSnapshot (item : K × K × DeltaOp) : Commit K Unit := do
  let f ← fieldOr item.2.1 missingBase
  let value ← .check
    (commitDelta unreadableBase item.2.2 (f.readLatestPredictedValue idxToCommit))
  insertFinal item.1 idxToCommit (.snapshot value)

/-- The third pass: strings of snapshots after the transaction. -/
def commitString (item : K × K × SnapshotToStringFormula) : Commit K Unit := do
  let f ← fieldOr item.2.1 missingBase
  let value ← .check
    (commitDerived unreadableBase item.2.2 (f.readLatestPredictedValue (idxToCommit + 1)))
  insertFinal item.1 idxToCommit (.derived value)

def tryCommit (ids : List K) : Commit K Unit := do
  let d ← get
  .check (ensure (idxToCommit = d.nextIdxToCommit)
    (.or (.codeInvariantError "idx_to_commit must be next_idx_to_commit")))
  let todo ← ids.foldlM (commitField idxToCommit) ⟨[], []⟩
  todo.deltas.forM (commitSnapshot idxToCommit)
  todo.derived.forM (commitString idxToCommit)
  modify fun d => { d with nextIdxToCommit := d.nextIdxToCommit + 1 }

end VersionedDelayedFields

end CreditChain
