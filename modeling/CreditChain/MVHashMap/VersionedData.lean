import CreditChain.Aggregator.Delta
import CreditChain.Lib.OrderedMap
import Mathlib.Data.Finset.Basic

/-!
# Versioned data

For each key, the writes of the transactions of a block in the order of their indices.  A base
value stands before the write of transaction 0: the position of the write of transaction `t` is
`t + 1`.  A reader is registered at the entry that it reads; a write or a removal moves the
readers to the entry that they would read then, or returns them.
-/

namespace CreditChain

/-! ## Values -/

/-- What the map uses of a write: its bytes, and the metadata that a read after it observes. -/
class TransactionWrite (V : Type) (Meta : outParam Type) where
  bytes : V → Option (List UInt8)
  asStateValueMetadata : V → Option Meta

/-- Sixteen bytes, the lowest first. -/
def u128FromBytes (bytes : List UInt8) : Option Nat :=
  if bytes.length = 16 then some (bytes.foldr (fun byte rest => byte.toNat + 256 * rest) 0)
  else none

/-- The number that a write holds: `none` if its bytes are no number. -/
def asU128 {V Meta : Type} [TransactionWrite V Meta] (value : V) : Option (Option Nat) :=
  match TransactionWrite.bytes value with
  | some bytes => (u128FromBytes bytes).map some
  | none => some none

/-- A value as it is stored, or with its identifiers exchanged and the layout that this needs. -/
inductive ValueWithLayout (V Layout : Type) where
  | rawFromStorage (value : V)
  | exchanged (value : V) (layout : Option Layout)

namespace ValueWithLayout

variable {V Layout Meta : Type} [TransactionWrite V Meta]

def bytesLen : ValueWithLayout V Layout → Option Nat
  | rawFromStorage value => (TransactionWrite.bytes value).map List.length
  | exchanged value _ => (TransactionWrite.bytes value).map List.length

/-- The value, unless it has a layout. -/
def extractValueNoLayout : ValueWithLayout V Layout → Option V
  | rawFromStorage value => some value
  | exchanged value none => some value
  | exchanged _ (some _) => none

end ValueWithLayout

/-- A transaction and its incarnation, or the state before the block. -/
inductive DataVersion where
  | storage
  | transaction (txnIdx incarnation : Nat)

inductive MVDataError where
  | uninitialized
  | unresolved (delta : DeltaOp)
  | dependency (txnIdx : Nat)
  | deltaApplicationFailure

inductive MVDataOutput (V Layout : Type) where
  | resolved (value : Nat)
  | versioned (version : DataVersion) (value : ValueWithLayout V Layout)

/-! ## Entries -/

/-- A transaction and its incarnation. -/
abbrev Dependencies := Finset (Nat × Nat)

inductive EntryCell (V Layout : Type) where
  | resourceWrite (incarnation : Nat) (valueWithLayout : ValueWithLayout V Layout)
      (dependencies : Dependencies)
  | delta (op : DeltaOp) (shortcut : Option Nat)

/-- Contents, and whether they are an estimate of what the transaction writes next. -/
structure MVEntry (α : Type) where
  value : α
  isEstimate : Bool

namespace ShiftedTxnIndex

/-- The position of the write of a transaction. -/
def new (txnIdx : Nat) : Nat := txnIdx + 1

/-- The position of the base value. -/
def zeroIdx : Nat := 0

def version (position incarnation : Nat) : DataVersion :=
  if position > 0 then .transaction (position - 1) incarnation else .storage

end ShiftedTxnIndex

/-- The entries of one key. -/
structure VersionedValue (V Layout : Type) where
  versionedMap : OrderedMap Nat (MVEntry (EntryCell V Layout))

def newWriteEntry {V Layout : Type} (incarnation : Nat) (value : ValueWithLayout V Layout)
    (dependencies : Dependencies) : MVEntry (EntryCell V Layout) :=
  ⟨.resourceWrite incarnation value dependencies, false⟩

section

variable {V Layout Meta : Type} [DecidableEq V] [DecidableEq Meta] [TransactionWrite V Meta]

/-- Whether a read of one value is as good as a read of the other. -/
def compareValuesAndLayouts (onlyCompareMetadata : Bool) (prevValue newValue : V)
    (prevLayout newLayout : Option Layout) : Bool :=
  if onlyCompareMetadata then
    TransactionWrite.asStateValueMetadata prevValue ==
      TransactionWrite.asStateValueMetadata newValue
  else
    prevLayout.isNone && newLayout.isNone && prevValue == newValue

/-- Whether a read of a stored value is as good as a read of a new value.  A value that has not
been exchanged never is. -/
def ValueWithLayout.passes (onlyCompareMetadata : Bool) (newData : V) (newLayout : Option Layout) :
    ValueWithLayout V Layout → Bool
  | .rawFromStorage _ => false
  | .exchanged previous previousLayout =>
    compareValuesAndLayouts onlyCompareMetadata previous newData previousLayout newLayout

namespace VersionedValue

def default : VersionedValue V Layout := ⟨.empty⟩

variable (onlyCompareMetadata : Bool) (v : VersionedValue V Layout) (txnIdx : Nat)

/-- Put the dependencies of the entry at a position. -/
def setDependencies (position incarnation : Nat) (value : ValueWithLayout V Layout)
    (isEstimate : Bool) (dependencies : Dependencies) : VersionedValue V Layout :=
  ⟨v.versionedMap.insert position ⟨.resourceWrite incarnation value dependencies, isEstimate⟩⟩

/-- Take the readers above `txnIdx` from the entry that they read if there is a write of
`txnIdx`, and whether the write keeps their reads valid. -/
def splitOffAffectedReadDependencies (newData : V) (newLayout : Option Layout) :
    Dependencies × Bool × VersionedValue V Layout :=
  match v.versionedMap.lastBelow (ShiftedTxnIndex.new txnIdx + 1) with
  | some (position, ⟨.resourceWrite incarnation value dependencies, isEstimate⟩) =>
    let affected := dependencies.filter fun reader => txnIdx + 1 ≤ reader.1
    (affected, decide affected.Nonempty && value.passes onlyCompareMetadata newData newLayout,
      v.setDependencies position incarnation value isEstimate
        (dependencies.filter fun reader => ¬ txnIdx + 1 ≤ reader.1))
  | some (_, ⟨.delta _ _, _⟩) => (∅, false, v)
  | none => (∅, false, v)

/-- The readers of a removed entry: those that the entry below does not take. -/
def handleRemovedDependencies (dependencies : Dependencies) (removedData : V)
    (removedLayout : Option Layout) : Dependencies × VersionedValue V Layout :=
  if dependencies = ∅ then (∅, v)
  else
    match v.versionedMap.lastBelow (ShiftedTxnIndex.new txnIdx + 1) with
    | some (position, ⟨.resourceWrite incarnation value next, isEstimate⟩) =>
      if value.passes onlyCompareMetadata removedData removedLayout then
        (∅, v.setDependencies position incarnation value isEstimate (next ∪ dependencies))
      else (dependencies, v)
    | some (_, ⟨.delta _ _, _⟩) => (dependencies, v)
    | none => (dependencies, v)

end VersionedValue

/-! ## Reading -/

variable (accumulator : Except Unit DeltaOp)

/-- A delta on the value of a write. -/
def applyAccumulated (value : Nat) : Except (PanicOr MVDataError) (MVDataOutput V Layout) :=
  match accumulator with
  | .error _ => .error (.or .deltaApplicationFailure)
  | .ok op =>
    match op.applyTo value with
    | .ok result => .ok (.resolved result)
    | .error _ => .error (.or .deltaApplicationFailure)

/-- A write below deltas. -/
def resolveWrite (version : DataVersion) (valueWithLayout : ValueWithLayout V Layout) : Except
    (PanicOr MVDataError) (MVDataOutput V Layout) :=
  match valueWithLayout.extractValueNoLayout.bind asU128 with
  | none => .error .panicked
  | some none => .ok (.versioned version valueWithLayout)
  | some (some value) => applyAccumulated accumulator value

def mergeAccumulated (delta : DeltaOp) : Except Unit DeltaOp :=
  match accumulator with
  | .error _ => .error ()
  | .ok op => (op.mergeWithPreviousDelta delta).mapError fun _ => ()

/-- The result of a read, and the position of the entry that records the reader. -/
abbrev ReadOutcome (V Layout : Type) :=
  Except (PanicOr MVDataError) (MVDataOutput V Layout) × Option Nat

/-- The walk down the entries, with the deltas that have been met. -/
def readFrom : Option (Except Unit DeltaOp) → List (Nat × MVEntry (EntryCell V Layout)) →
    ReadOutcome V Layout
  | none, [] => (.error (.or .uninitialized), none)
  | some (.ok op), [] => (.error (.or (.unresolved op)), none)
  | some (.error _), [] => (.error (.or .deltaApplicationFailure), none)
  | accumulator, (position, entry) :: entries =>
    if entry.isEstimate then
      match ShiftedTxnIndex.version position 0 with
      | .transaction txnIdx _ => (.error (.or (.dependency txnIdx)), none)
      | .storage => (.error .panicked, none)
    else
      match entry.value, accumulator with
      | .resourceWrite incarnation value _, none =>
        (.ok (.versioned (ShiftedTxnIndex.version position incarnation) value), some position)
      | .resourceWrite incarnation value _, some accumulator =>
        (resolveWrite accumulator (ShiftedTxnIndex.version position incarnation) value, none)
      | .delta _ (some shortcut), some accumulator => (applyAccumulated accumulator shortcut, none)
      | .delta op none, some accumulator =>
        readFrom (some (mergeAccumulated accumulator op)) entries
      | .delta _ (some shortcut), none => (.ok (.resolved shortcut), none)
      | .delta op none, none => readFrom (some (.ok op)) entries

namespace VersionedValue

variable (v : VersionedValue V Layout)

/-- The entries that a reader can see, the latest first. -/
def visible (readerTxnIdx : Nat) : List (Nat × MVEntry (EntryCell V Layout)) :=
  (v.versionedMap.below (ShiftedTxnIndex.new readerTxnIdx)).entries.reverse

/-- Register a reader at a position. -/
def record (position : Nat) (reader : Nat × Nat) : VersionedValue V Layout :=
  match v.versionedMap.find? position with
  | some ⟨.resourceWrite incarnation value dependencies, isEstimate⟩ =>
    v.setDependencies position incarnation value isEstimate (insert reader dependencies)
  | _ => v

/-- What a transaction reads; with an incarnation, it is registered. -/
def read (readerTxnIdx : Nat) (readerIncarnation : Option Nat) : Except (PanicOr MVDataError)
    (MVDataOutput V Layout) × VersionedValue V Layout :=
  let outcome := readFrom none (v.visible readerTxnIdx)
  (outcome.1, match outcome.2, readerIncarnation with
    | some position, some incarnation => v.record position (readerTxnIdx, incarnation)
    | _, _ => v)

end VersionedValue

/-! ## The map -/

/-- Entries for each key, and the size of the base values. -/
structure VersionedData (K V Layout : Type) where
  values : K → Option (VersionedValue V Layout)
  totalBaseValueSize : Nat

/-- The outcome of a call that has no errors of its own. -/
abbrev Guarded (α : Type) := Except (PanicOr Empty) α

namespace VersionedData

variable {K : Type} [DecidableEq K]

def empty : VersionedData K V Layout := ⟨fun _ => none, 0⟩

variable (d : VersionedData K V Layout) (key : K)

/-- The entries of a key, none if it is new. -/
def entryOrDefault : VersionedValue V Layout := (d.values key).getD .default

variable (previous : Option (MVEntry (EntryCell V Layout))) (onlyCompareMetadata : Bool)
  (d : VersionedData K V Layout) (key : K) (v : VersionedValue V Layout) (txnIdx incarnation : Nat)

def setEntry : VersionedData K V Layout :=
  { d with values := Function.update d.values key (some v) }

def fetchDataNoRecord : Except (PanicOr MVDataError) (MVDataOutput V Layout) :=
  match d.values key with
  | some v => (v.read txnIdx none).1
  | none => .error (.or .uninitialized)

def fetchDataAndRecordDependency :
    Except (PanicOr MVDataError) (MVDataOutput V Layout) × VersionedData K V Layout :=
  match d.values key with
  | some v =>
    let (result, v) := v.read txnIdx (some incarnation)
    (result, d.setEntry key v)
  | none => (.error (.or .uninitialized), d)

/-- A base value where there is one already. -/
def mergeBaseValue (existing base : ValueWithLayout V Layout) :
    Guarded (Option (ValueWithLayout V Layout)) :=
  match existing, base with
  | .rawFromStorage _, .rawFromStorage _ => do
      ensure (base.bytesLen = existing.bytesLen) .panicked
      return none
  | .exchanged _ _, .rawFromStorage _ => return none
  | .rawFromStorage _, .exchanged _ _ => return some base
  | .exchanged _ existingLayout, .exchanged _ baseLayout => do
      ensure (existingLayout.isSome = baseLayout.isSome) .panicked
      ensure (existingLayout.isNone = true → existing.bytesLen = base.bytesLen) .panicked
      return none

/-- Provide the value before the block.  A stored value may be replaced by its exchanged form. -/
def setBaseValue (base : ValueWithLayout V Layout) : Guarded (VersionedData K V Layout) :=
  let v := d.entryOrDefault key
  match v.versionedMap.find? ShiftedTxnIndex.zeroIdx with
  | none =>
    return { d.setEntry key
        ⟨v.versionedMap.insert ShiftedTxnIndex.zeroIdx (newWriteEntry 0 base ∅)⟩ with
      totalBaseValueSize := d.totalBaseValueSize + base.bytesLen.getD 0 }
  | some ⟨.delta _ _, _⟩ => return d.setEntry key v
  | some ⟨.resourceWrite incarnation existing dependencies, _⟩ => do
      ensure (incarnation = 0) .panicked
      match ← mergeBaseValue existing base with
      | none => return d.setEntry key v
      | some replaced =>
        return d.setEntry key ⟨v.versionedMap.insert ShiftedTxnIndex.zeroIdx
          (newWriteEntry 0 replaced dependencies)⟩

/-- A replaced write has a lower incarnation. -/
def checkIncarnation : Guarded Unit :=
  match previous with
  | some ⟨.resourceWrite prevIncarnation _ _, _⟩ =>
    ensure (prevIncarnation < incarnation) .panicked
  | _ => .ok ()

def writeImpl (value : ValueWithLayout V Layout) (dependencies : Dependencies) :
    Guarded (VersionedValue V Layout) := do
  checkIncarnation (v.versionedMap.find? (ShiftedTxnIndex.new txnIdx)) incarnation
  return ⟨v.versionedMap.insert (ShiftedTxnIndex.new txnIdx)
    (newWriteEntry incarnation value dependencies)⟩

/-- Write a value, and return the readers whose reads it makes invalid. -/
def writeV2 (data : V) (layout : Option Layout) :
    Guarded (Dependencies × VersionedData K V Layout) := do
  let (affected, validationPassed, v) :=
    (d.entryOrDefault key).splitOffAffectedReadDependencies onlyCompareMetadata txnIdx data layout
  let v ← writeImpl v txnIdx incarnation (.exchanged data layout)
    (if validationPassed then affected else ∅)
  return (if validationPassed then ∅ else affected, d.setEntry key v)

/-- Remove the value of a transaction, and return the readers whose reads this makes invalid. -/
def removeV2 : Guarded (Dependencies × VersionedData K V Layout) :=
  match d.values key with
  | none => .error (.codeInvariantError "Path must exist for remove_v2")
  | some v =>
    match v.versionedMap.find? (ShiftedTxnIndex.new txnIdx) with
    | none => .error (.codeInvariantError "Entry for key / idx must exist to be deleted")
    | some removed =>
      let v : VersionedValue V Layout :=
        ⟨v.versionedMap.erase (ShiftedTxnIndex.new txnIdx)⟩
      match removed.value with
      | .delta _ _ => return (∅, d.setEntry key v)
      | .resourceWrite _ (.rawFromStorage _) _ => .error .panicked
      | .resourceWrite _ (.exchanged data layout) dependencies =>
        let (invalidated, v) :=
          v.handleRemovedDependencies onlyCompareMetadata txnIdx dependencies data layout
        return (invalidated, d.setEntry key v)

end VersionedData

end

end CreditChain
