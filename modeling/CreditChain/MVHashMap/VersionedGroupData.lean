import CreditChain.MVHashMap.VersionedData

/-!
# Versioned resource groups

The values of a group are versioned data under the key of the group and a tag.  The sizes of the
group are versioned like values: readers are registered at the size that they read, and writes
and removals move them or return them.
-/

namespace CreditChain

/-! ## Sizes -/

inductive ResourceGroupSize where
  | concrete (size : Nat)
  | combined (numTaggedResources allTaggedResourcesSize : Nat)
  deriving DecidableEq

/-- The bytes of a length in groups of seven bits. -/
def sizeU32AsUleb128 (value : Nat) : Nat :=
  if value ≥ 0x80 then sizeU32AsUleb128 (value >>> 7) + 1 else 1
  decreasing_by
    rw [Nat.shiftRight_eq_div_pow]
    omega

def bcsSizeOfByteArray (byteLen : Nat) : Nat := sizeU32AsUleb128 byteLen + byteLen

/-- The size of a group as the sum of its tags and values; a tag may have no serialization. -/
def groupSizeAsSum {T : Type} (serializedSize : T → Option Nat) (group : List (T × Nat)) :
    Option ResourceGroupSize := do
  let sizes ← group.mapM fun (tag, valueByteLen) => do
    let tagSize ← serializedSize tag
    return tagSize + bcsSizeOfByteArray valueByteLen
  return .combined sizes.length sizes.sum

structure SizeAndDependencies where
  size : ResourceGroupSize
  dependencies : Dependencies

inductive ReadPosition where
  | beforeCurrentTxn
  | afterCurrentTxn

/-- The sizes of a group at the positions of its writes. -/
structure VersionedGroupSize where
  sizeEntries : OrderedMap Nat (MVEntry SizeAndDependencies)

namespace VersionedGroupSize

def default : VersionedGroupSize := ⟨.empty⟩

variable (g : VersionedGroupSize)

/-- The latest entry before a transaction, or up to it. -/
def getLatestEntry (txnIdx : Nat) (readPosition : ReadPosition) : Option
    (Nat × MVEntry SizeAndDependencies) :=
  let beforeIdx := match readPosition with
    | .beforeCurrentTxn => txnIdx
    | .afterCurrentTxn => txnIdx + 1
  g.sizeEntries.lastBelow (ShiftedTxnIndex.new beforeIdx)

/-- Put the dependencies of the entry at a position. -/
def setDependencies (position : Nat) (entry : MVEntry SizeAndDependencies)
    (dependencies : Dependencies) : VersionedGroupSize :=
  ⟨g.sizeEntries.insert position { entry with value := { entry.value with dependencies } }⟩

/-- A new size takes the readers above it from the entry before, if they have read the same
size; otherwise they are returned. -/
def write (txnIdx : Nat) (size : ResourceGroupSize) : Dependencies × VersionedGroupSize :=
  match g.getLatestEntry txnIdx .afterCurrentTxn with
  | none =>
    (∅, ⟨g.sizeEntries.insert (ShiftedTxnIndex.new txnIdx) ⟨⟨size, ∅⟩, false⟩⟩)
  | some (position, entry) =>
    let newDeps := entry.value.dependencies.filter fun reader => txnIdx + 1 ≤ reader.1
    let g := g.setDependencies position entry
      (entry.value.dependencies.filter fun reader => ¬ txnIdx + 1 ≤ reader.1)
    if entry.value.size = size then
      (∅, ⟨g.sizeEntries.insert (ShiftedTxnIndex.new txnIdx) ⟨⟨size, newDeps⟩, false⟩⟩)
    else
      (newDeps, ⟨g.sizeEntries.insert (ShiftedTxnIndex.new txnIdx) ⟨⟨size, ∅⟩, false⟩⟩)

/-- Without the size of a transaction.  The entry before takes its readers, if they have read the
same size; otherwise they are returned. -/
def remove (txnIdx : Nat) : Option (Dependencies × VersionedGroupSize) :=
  match g.sizeEntries.find? (ShiftedTxnIndex.new txnIdx) with
  | none => none
  | some removed =>
    let g : VersionedGroupSize := ⟨g.sizeEntries.erase (ShiftedTxnIndex.new txnIdx)⟩
    match g.getLatestEntry txnIdx .beforeCurrentTxn with
    | none => some (removed.value.dependencies, g)
    | some (position, entry) =>
      if entry.value.size = removed.value.size then
        some (∅, g.setDependencies position entry
          (entry.value.dependencies ∪ removed.value.dependencies))
      else some (removed.value.dependencies, g)

/-- The size that a transaction reads, which registers it. -/
def read (txnIdx incarnation : Nat) : Option (ResourceGroupSize × VersionedGroupSize) :=
  match g.getLatestEntry txnIdx .beforeCurrentTxn with
  | none => none
  | some (position, entry) =>
    some (entry.value.size, g.setDependencies position entry
      (insert (txnIdx, incarnation) entry.value.dependencies))

end VersionedGroupSize

/-! ## Groups -/

inductive MVGroupError where
  | uninitialized
  | tagNotFound
  | dependency (txnIdx : Nat)

/-- Values under the key of the group and a tag, the sizes of the groups, and their tags. -/
structure VersionedGroupData (K T V Layout : Type) where
  values : VersionedData (K × T) V Layout
  groupSizes : K → Option VersionedGroupSize
  groupTags : K → Option (Finset T)

namespace VersionedGroupData

variable {K T V Layout Meta : Type} [DecidableEq K] [DecidableEq T] [DecidableEq V]
  [DecidableEq Meta] [TransactionWrite V Meta]

def empty : VersionedGroupData K T V Layout := ⟨.empty, fun _ => none, fun _ => none⟩

variable (d : VersionedGroupData K T V Layout) (groupKey : K)

def setSizes (sizes : VersionedGroupSize) : VersionedGroupData K T V Layout :=
  { d with groupSizes := Function.update d.groupSizes groupKey (some sizes) }

/-- Base values as they are stored. -/
def setTaggedBaseValues (values : VersionedData (K × T) V Layout) (baseValues : List (T × V)) :
    Guarded (VersionedData (K × T) V Layout) :=
  baseValues.foldlM (fun values (tag, value) =>
    values.setBaseValue (groupKey, tag) (.rawFromStorage value)) values

/-- Provide the contents of a group before the block, if they are not there yet. -/
def setRawBaseValues (serializedSize : T → Option Nat) (d : VersionedGroupData K T V Layout)
    (groupKey : K) (baseValues : List (T × V)) :
    Except (PanicOr String) (VersionedGroupData K T V Layout) :=
  let sizes := (d.groupSizes groupKey).getD .default
  match sizes.sizeEntries.find? ShiftedTxnIndex.zeroIdx with
  | some _ => return d.setSizes groupKey sizes
  | none =>
    let lengths := baseValues.filterMap fun (tag, value) =>
      (TransactionWrite.bytes value).map fun bytes => (tag, bytes.length)
    match groupSizeAsSum serializedSize lengths with
    | none => .error (.or "Tag serialization error in resource group")
    | some groupSize => do
        let values ← (setTaggedBaseValues groupKey d.values baseValues).mapError fun
          | .panicked => .panicked
          | .codeInvariantError message => .codeInvariantError message
        let tags := (d.groupTags groupKey).getD ∅ ∪ (baseValues.map (·.1)).toFinset
        return { d.setSizes groupKey ⟨sizes.sizeEntries.insert ShiftedTxnIndex.zeroIdx
            ⟨⟨groupSize, ∅⟩, false⟩⟩ with
          values, groupTags := Function.update d.groupTags groupKey (some tags) }

def updateTaggedBaseValueWithLayout (tag : T) (value : V) (layout : Option Layout) : Guarded
    (VersionedGroupData K T V Layout) := do
  let values ← d.values.setBaseValue (groupKey, tag) (.exchanged value layout)
  return { d with values }

/-- Values, and the readers that have been returned on the way. -/
abbrev Written (K T V Layout : Type) := Dependencies × VersionedData (K × T) V Layout

variable (txnIdx incarnation : Nat)

/-- Write the value of a tag. -/
def writeTagged (acc : Written K T V Layout) (write : T × V × Option Layout) : Guarded
    (Written K T V Layout) := do
  let (invalidated, values) ←
    acc.2.writeV2 false (groupKey, write.1) txnIdx incarnation write.2.1 write.2.2
  return (acc.1 ∪ invalidated, values)

/-- Remove the value of a tag. -/
def removeTagged (txnIdx : Nat) (acc : Written K T V Layout) (tag : T) : Guarded
    (Written K T V Layout) := do
  let (invalidated, values) ← acc.2.removeV2 false (groupKey, tag) txnIdx
  return (acc.1 ∪ invalidated, values)

/-- Write the values of a transaction, and remove those that it has not written again. -/
def dataWriteImpl (values : List (T × V × Option Layout)) (prevTags : List T) : Guarded
    (Dependencies × VersionedGroupData K T V Layout) :=
  match d.groupTags groupKey with
  | none => .error (.codeInvariantError "Group (tags) must be initialized to write to")
  | some supersetTags => do
      let written ← values.foldlM (writeTagged groupKey txnIdx incarnation) (∅, d.values)
      let (invalidated, dataValues) ←
        (prevTags.filter fun tag => tag ∉ values.map (·.1)).foldlM
          (removeTagged groupKey txnIdx) written
      return (invalidated, { d with
        values := dataValues,
        groupTags := Function.update d.groupTags groupKey
          (some (supersetTags ∪ (values.map (·.1)).toFinset)) })

/-- Write the values and the size of a group, and return the readers whose reads this makes
invalid. -/
def writeV2 (values : List (T × V × Option Layout)) (size : ResourceGroupSize) (prevTags : List T) :
    Guarded (Dependencies × VersionedGroupData K T V Layout) := do
  let (invalidated, d) ← d.dataWriteImpl groupKey txnIdx incarnation values prevTags
  match d.groupSizes groupKey with
  | none => .error (.codeInvariantError "Group (sizes) must be initialized to write to")
  | some sizes =>
    let (stale, sizes) := sizes.write txnIdx size
    return (invalidated ∪ stale, d.setSizes groupKey sizes)

/-- Remove the values and the size of a group. -/
def removeV2 (txnIdx : Nat) (tags : List T) : Guarded
    (Dependencies × VersionedGroupData K T V Layout) := do
  let (invalidated, values) ← tags.foldlM (removeTagged groupKey txnIdx) (∅, d.values)
  match d.groupSizes groupKey with
  | none => .error (.codeInvariantError "Group sizes must exist for remove_v2")
  | some sizes =>
    match sizes.remove txnIdx with
    | none => .error (.codeInvariantError "Group size entry must exist for remove_v2")
    | some (stale, sizes) =>
      return (invalidated ∪ stale, { d with values }.setSizes groupKey sizes)

/-- A value of a group that has no entry: the group may not have been read either. -/
def convertTaggedData (dataValue : Except (PanicOr MVDataError) (MVDataOutput V Layout))
    (initialized : Bool) :
    Except (PanicOr MVGroupError) (DataVersion × ValueWithLayout V Layout) :=
  match dataValue with
  | .ok (.versioned version value) => .ok (version, value)
  | .error (.or .uninitialized) =>
    .error (.or (if initialized then .tagNotFound else .uninitialized))
  | .error (.or (.dependency depIdx)) => .error (.or (.dependency depIdx))
  | _ => .error .panicked

def fetchTaggedDataAndRecordDependency (tag : T) (txnIdx incarnation : Nat) : Except
    (PanicOr MVGroupError) (DataVersion × ValueWithLayout V Layout) × VersionedGroupData K T V
    Layout :=
  let initialized := (d.groupSizes groupKey).isSome
  let (dataValue, values) :=
    d.values.fetchDataAndRecordDependency (groupKey, tag) txnIdx incarnation
  (convertTaggedData dataValue initialized, { d with values })

/-- The size of a group for a transaction, which is registered as a reader. -/
def getGroupSizeAndRecordDependency : Except MVGroupError
    (ResourceGroupSize × VersionedGroupData K T V Layout) :=
  match d.groupSizes groupKey with
  | none => .error .uninitialized
  | some sizes =>
    match sizes.read txnIdx incarnation with
    | none => .error .uninitialized
    | some (size, sizes) => .ok (size, d.setSizes groupKey sizes)

end VersionedGroupData

end CreditChain
