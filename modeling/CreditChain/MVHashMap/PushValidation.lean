import CreditChain.Lib.Run
import CreditChain.MVHashMap.Readers

/-!
# Push validation

Sequences of reads, writes and removals.  A read that is not valid any more is returned by the
call that makes it so.

* `stale_reads_returned`: a read has been returned since, or it would be the same now and is
  registered where it would be made.
-/

namespace CreditChain

open VersionedData VersionedGroupSize Option Function

open ReadTracking (Cell Sees Tracked)

/-! ## Reads that have been made -/

/-- A read that has been made, and whether it has been returned as invalid since. -/
structure ReadEvent (K W : Type) where
  key : K
  reader : Nat × Nat
  returned : W
  invalidated : Bool

section

variable {K W : Type}

/-- The reads of a key that have not been returned. -/
def openReads (reads : List (ReadEvent K W)) (key : K) : Set ((Nat × Nat) × W) :=
  {read | ∃ event ∈ reads, event.key = key ∧ event.reader = read.1 ∧ event.returned = read.2 ∧
    event.invalidated = false}

variable {reads : List (ReadEvent K W)} {key other : K} {reader : Nat × Nat}

theorem invalidated_or_open {event : ReadEvent K W} (mem : event ∈ reads) :
    event.invalidated = true ∨ (event.reader, event.returned) ∈ openReads reads event.key := by
  cases valid : event.invalidated with
  | true => exact .inl rfl
  | false => exact .inr ⟨event, mem, rfl, rfl, rfl, valid⟩

theorem openReads_cons {w : W} :
    openReads (⟨key, reader, w, false⟩ :: reads) key ⊆ insert (reader, w) (openReads reads key) := by
  rintro read ⟨event, mem, sameKey, sameReader, sameValue, valid⟩
  rcases List.mem_cons.mp mem with rfl | old
  · exact Set.mem_insert_iff.mpr (Or.inl (Prod.ext sameReader.symm sameValue.symm))
  · exact Set.mem_insert_of_mem _ ⟨event, old, sameKey, sameReader, sameValue, valid⟩

theorem openReads_cons_of_ne {w : W} (ne : other ≠ key) :
    openReads (⟨key, reader, w, false⟩ :: reads) other ⊆ openReads reads other := by
  rintro read ⟨event, mem, sameKey, sameReader, sameValue, valid⟩
  rcases List.mem_cons.mp mem with rfl | old
  · exact absurd sameKey.symm ne
  · exact ⟨event, old, sameKey, sameReader, sameValue, valid⟩

variable [DecidableEq K]

/-- The reads of a key after some of its readers have been returned. -/
def invalidate (key : K) (readers : Dependencies) (reads : List (ReadEvent K W)) :
    List (ReadEvent K W) :=
  reads.map fun event =>
    if event.key = key ∧ event.reader ∈ readers then { event with invalidated := true } else event

variable {readers : Dependencies}

theorem openReads_invalidate :
    openReads (invalidate key readers reads) key ⊆
      {read ∈ openReads reads key | read.1 ∉ readers} := by
  rintro read ⟨event, mem, sameKey, sameReader, sameValue, valid⟩
  obtain ⟨old, oldMem, rfl⟩ := List.mem_map.mp mem
  split_ifs at sameKey sameReader sameValue valid with hit
  refine ⟨⟨old, oldMem, sameKey, sameReader, sameValue, valid⟩, fun returned => ?_⟩
  rw [← sameReader] at returned
  exact hit ⟨sameKey, returned⟩

theorem openReads_invalidate_of_ne (ne : other ≠ key) :
    openReads (invalidate key readers reads) other ⊆ openReads reads other := by
  rintro read ⟨event, mem, sameKey, sameReader, sameValue, valid⟩
  obtain ⟨old, oldMem, rfl⟩ := List.mem_map.mp mem
  have miss : ¬ (old.key = key ∧ old.reader ∈ readers) := by
    rintro ⟨atKey, returned⟩
    rw [if_pos ⟨atKey, returned⟩] at sameKey
    exact ne (sameKey.symm.trans atKey)
  rw [if_neg miss] at sameKey sameReader sameValue valid
  exact ⟨old, oldMem, sameKey, sameReader, sameValue, valid⟩

end

/-! ## Data -/

inductive DataCall (K V Layout : Type) where
  | setBaseValue (key : K) (base : ValueWithLayout V Layout)
  | fetchDataAndRecordDependency (key : K) (txnIdx incarnation : Nat)
  | writeV2 (key : K) (txnIdx incarnation : Nat) (data : V) (layout : Option Layout)
  | removeV2 (key : K) (txnIdx : Nat)

/-- The map, the reads that have returned a value, and for each key the exchanges of its base
value: the stored value with what has replaced it. -/
structure DataSession (K V Layout : Type) where
  data : VersionedData K V Layout
  reads : List (ReadEvent K (ValueWithLayout V Layout))
  exchanges : K → List (V × V × Option Layout)

section

variable {K V Layout Meta : Type} [TransactionWrite V Meta] {only : Bool}

namespace DataSession

def start : DataSession K V Layout := ⟨.empty, [], fun _ => []⟩

/-- A read made now is from an entry with a value that counts as the one that has been read, and
the reader is registered at that entry and at no other. -/
def Current (onlyCompareMetadata : Bool) (session : DataSession K V Layout)
    (event : ReadEvent K (ValueWithLayout V Layout)) : Prop :=
  ∃ entries position incarnation value dependencies,
    session.data.values event.key = some entries ∧
    entries.versionedMap.find? position = some (newWriteEntry incarnation value dependencies) ∧
    session.data.fetchDataNoRecord event.key event.reader.1 =
      .ok (.versioned (ShiftedTxnIndex.version position incarnation) value) ∧
    event.returned.Counts onlyCompareMetadata (session.exchanges event.key) value ∧
    event.reader ∈ dependencies ∧
    ∀ other incarnation' value' dependencies' isEstimate,
      entries.versionedMap.find? other =
        some ⟨.resourceWrite incarnation' value' dependencies', isEstimate⟩ →
      event.reader ∈ dependencies' → other = position

/-- What is kept: at each key, the reads that have not been returned are tracked. -/
def Tracks (onlyCompareMetadata : Bool) (session : DataSession K V Layout) : Prop :=
  ∀ key, (session.data.entryOrDefault key).Plain ∧
    Tracked (ValueWithLayout.Counts onlyCompareMetadata (session.exchanges key))
      (session.data.entryOrDefault key).cells (openReads session.reads key)

theorem Tracks.start : (start : DataSession K V Layout).Tracks only := by
  intro key
  refine ⟨fun i entry found => ?_, ?_⟩
  · cases found
  · refine Tracked.empty.mono ?_
    rintro read ⟨event, mem, -⟩
    cases mem

variable {session session' : DataSession K V Layout}

theorem Tracks.current (tracks : session.Tracks only)
    {event : ReadEvent K (ValueWithLayout V Layout)} (mem : event ∈ session.reads) :
    event.invalidated = true ∨ session.Current only event := by
  refine (invalidated_or_open mem).imp_right fun isOpen => ?_
  obtain ⟨plain, tracked⟩ := tracks event.key
  obtain ⟨i, c, sees, counts, registered, only⟩ := tracked.current isOpen
  cases known : session.data.values event.key with
  | none =>
    have here := sees.here
    unfold entryOrDefault at here
    rw [known] at here
    cases here
  | some entries =>
    have isEntries : session.data.entryOrDefault event.key = entries := by
      rw [entryOrDefault, known, getD_some]
    rw [isEntries] at plain sees only
    rcases plain.readFrom_visible event.reader.1 with
      ⟨-, missing⟩ | ⟨j, incarnation, e, outcome, found, seesNow⟩
    · have free := VersionedValue.cells_eq_none_of_lastBelow missing i sees.le
      rw [sees.here] at free
      cases free
    have same := seesNow.unique sees
    subst same
    obtain rfl : e = c := some.inj (seesNow.here.symm.trans sees.here)
    refine ⟨entries, j, incarnation, e.value, e.readers, known, found, ?_, counts,
      registered, fun other incarnation' value' dependencies' isEstimate there also => ?_⟩
    · unfold fetchDataNoRecord VersionedValue.read
      rw [known]
      exact congrArg Prod.fst outcome
    · refine only other ⟨value', dependencies'⟩ ?_ also
      rw [VersionedValue.cells, there]

variable [DecidableEq K] (session)

/-- After a read that has returned `result`. -/
def afterRead (key : K) (reader : Nat × Nat)
    (result : Except (PanicOr MVDataError) (MVDataOutput V Layout))
    (data : VersionedData K V Layout) : DataSession K V Layout :=
  match result with
  | .ok (.versioned _ value) =>
    { session with data, reads := ⟨key, reader, value, false⟩ :: session.reads }
  | _ => { session with data }

/-- After a call that has returned readers of a key. -/
def afterInvalidation (key : K)
    (result : Guarded (Dependencies × VersionedData K V Layout)) :
    Option (DataSession K V Layout) :=
  match result with
  | .ok (readers, data) => some { session with data, reads := invalidate key readers session.reads }
  | .error _ => none

/-- After a base value has been provided. -/
def afterBaseValue (key : K) (base : ValueWithLayout V Layout)
    (result : Guarded (VersionedData K V Layout)) : Option (DataSession K V Layout) :=
  match result with
  | .ok data => some { session with
      data,
      exchanges := update session.exchanges key
        ((session.data.entryOrDefault key).exchangeOf base ++ session.exchanges key) }
  | .error _ => none

variable {session} {key : K} {v : VersionedValue V Layout}

theorem entryOrDefault_update {d d' : VersionedData K V Layout}
    (values : d'.values = update d.values key (some v)) (other : K) :
    d'.entryOrDefault other = if other = key then v else d.entryOrDefault other := by
  rw [entryOrDefault, values, update_apply]
  split
  · rfl
  · rfl

section

variable (tracks : session.Tracks only)

include tracks

/-- A call changes the entries of one key. -/
theorem Tracks.of_key (values : session'.data.values = update session.data.values key (some v))
    (here : v.Plain ∧ Tracked (ValueWithLayout.Counts only (session'.exchanges key)) v.cells
      (openReads session'.reads key))
    (exchanges : ∀ other ≠ key, session'.exchanges other = session.exchanges other)
    (reads : ∀ other ≠ key, openReads session'.reads other ⊆ openReads session.reads other) :
    session'.Tracks only := by
  intro other
  rw [entryOrDefault_update values]
  split
  · rename_i same
    rw [same]
    exact here
  · rename_i same
    rw [exchanges other same]
    exact ⟨(tracks other).1, (tracks other).2.mono (reads other same)⟩

theorem Tracks.afterInvalidation {result : Guarded (Dependencies × VersionedData K V Layout)}
    (tracked : ∀ returned d', result = .ok (returned, d') →
      ∃ v', d'.values = update session.data.values key (some v') ∧ v'.Plain ∧
        Tracked (ValueWithLayout.Counts only (session.exchanges key)) v'.cells
          {read ∈ openReads session.reads key | read.1 ∉ returned})
    (done : session.afterInvalidation key result = some session') : session'.Tracks only := by
  cases result with
  | error _ => cases done
  | ok outcome =>
    obtain ⟨returned, data⟩ := outcome
    obtain ⟨v', values, plain', tracked'⟩ := tracked returned data rfl
    cases done
    exact tracks.of_key values ⟨plain', tracked'.mono openReads_invalidate⟩
      (fun other _ => rfl) fun other ne => openReads_invalidate_of_ne ne

theorem Tracks.afterRead {reader : Nat × Nat}
    {result : Except (PanicOr MVDataError) (MVDataOutput V Layout)} {d' : VersionedData K V Layout}
    (outcome : (result = .error (.or .uninitialized) ∧ d'.values = session.data.values) ∨
      ∃ version value v', result = .ok (.versioned version value) ∧
        d'.values = update session.data.values key (some v') ∧ v'.Plain ∧
        Tracked (ValueWithLayout.Counts only (session.exchanges key)) v'.cells
          (insert (reader, value) (openReads session.reads key))) :
    (session.afterRead key reader result d').Tracks only := by
  rcases outcome with ⟨rfl, same⟩ | ⟨version, value, v', rfl, values, plain', tracked'⟩
  · intro other
    have unchanged : d'.entryOrDefault other = session.data.entryOrDefault other := by
      rw [entryOrDefault, same]
      rfl
    unfold DataSession.afterRead
    rw [unchanged]
    exact tracks other
  · exact tracks.of_key values ⟨plain', tracked'.mono openReads_cons⟩ (fun other _ => rfl)
      fun other ne => openReads_cons_of_ne ne

variable [DecidableEq V] [DecidableEq Meta]

def step (onlyCompareMetadata : Bool) (call : DataCall K V Layout)
    (session : DataSession K V Layout) : Option (DataSession K V Layout) :=
  match call with
  | .setBaseValue key base =>
    session.afterBaseValue key base (session.data.setBaseValue key base)
  | .fetchDataAndRecordDependency key txnIdx incarnation =>
    let (result, data) := session.data.fetchDataAndRecordDependency key txnIdx incarnation
    some (session.afterRead key (txnIdx, incarnation) result data)
  | .writeV2 key txnIdx incarnation data layout =>
    session.afterInvalidation key
      (session.data.writeV2 onlyCompareMetadata key txnIdx incarnation data layout)
  | .removeV2 key txnIdx =>
    session.afterInvalidation key (session.data.removeV2 onlyCompareMetadata key txnIdx)

/-- The sessions of any sequence of calls. -/
def Reached (onlyCompareMetadata : Bool) : DataSession K V Layout → Prop :=
  Run.Reaches (step onlyCompareMetadata) (fun _ _ => True) (· = start)

theorem Tracks.step {call : DataCall K V Layout}
    (done : step only call session = some session') : session'.Tracks only := by
  cases call with
  | setBaseValue key base =>
    change session.afterBaseValue key base _ = _ at done
    unfold DataSession.afterBaseValue at done
    split at done
    · rename_i result
      cases done
      obtain ⟨v', values, plain', tracked'⟩ :=
        setBaseValue_tracked (tracks key).1 (tracks key).2 result
      refine tracks.of_key values ⟨plain', ?_⟩ (fun other ne => update_of_ne ne _ _)
        fun other _ => .refl _
      simp only [update_self]
      exact tracked'
    · cases done
  | fetchDataAndRecordDependency key txnIdx incarnation =>
    obtain rfl : session.afterRead key (txnIdx, incarnation)
        (session.data.fetchDataAndRecordDependency key txnIdx incarnation).1
        (session.data.fetchDataAndRecordDependency key txnIdx incarnation).2 = session' :=
      some.inj done
    exact tracks.afterRead (fetchDataAndRecordDependency_tracked (tracks key).1
      (tracks key).2 txnIdx incarnation)
  | writeV2 key txnIdx incarnation data layout =>
    exact tracks.afterInvalidation (fun returned d' result =>
      writeV2_tracked (tracks key).1 (tracks key).2 result) done
  | removeV2 key txnIdx =>
    exact tracks.afterInvalidation (fun returned d' result =>
      removeV2_tracked (tracks key).1 (tracks key).2 result) done

end

end DataSession

end

/-! ## Groups -/

inductive GroupCall (K T V Layout : Type) where
  | setRawBaseValues (groupKey : K) (baseValues : List (T × V))
  | updateTaggedBaseValueWithLayout (groupKey : K) (tag : T) (value : V) (layout : Option Layout)
  | fetchTaggedDataAndRecordDependency (groupKey : K) (tag : T) (txnIdx incarnation : Nat)
  | getGroupSizeAndRecordDependency (groupKey : K) (txnIdx incarnation : Nat)
  | writeV2 (groupKey : K) (txnIdx incarnation : Nat) (values : List (T × V × Option Layout))
      (size : ResourceGroupSize) (prevTags : List T)
  | removeV2 (groupKey : K) (txnIdx : Nat) (tags : List T)

/-- The groups, and the reads of sizes. -/
structure GroupSession (K T V Layout : Type) where
  data : VersionedGroupData K T V Layout
  reads : List (ReadEvent K ResourceGroupSize)

section

variable {K T V Layout Meta : Type}

namespace GroupSession

def start : GroupSession K T V Layout := ⟨.empty, []⟩

variable (session : GroupSession K T V Layout)

/-- The size read now is that of an entry with the size that has been read, and the reader is
registered at that entry and at no other. -/
def Current (event : ReadEvent K ResourceGroupSize) : Prop :=
  ∃ sizes position entry, session.data.groupSizes event.key = some sizes ∧
    sizes.getLatestEntry event.reader.1 .beforeCurrentTxn = some (position, entry) ∧
    entry.value.size = event.returned ∧ event.reader ∈ entry.value.dependencies ∧
    ∀ other entry', sizes.sizeEntries.find? other = some entry' →
      event.reader ∈ entry'.value.dependencies → other = position

/-- The sizes of a group, none if it is new. -/
def sizesOrDefault (groupKey : K) : VersionedGroupSize :=
  (session.data.groupSizes groupKey).getD .default

def Tracks : Prop :=
  ∀ groupKey, Tracked Eq (session.sizesOrDefault groupKey).cells (openReads session.reads groupKey)

def afterUpdate {ε : Type} (result : Except ε (VersionedGroupData K T V Layout)) :
    Option (GroupSession K T V Layout) :=
  match result with
  | .ok data => some { session with data }
  | .error _ => none

def afterRead (groupKey : K) (reader : Nat × Nat)
    (result : Except MVGroupError (ResourceGroupSize × VersionedGroupData K T V Layout)) :
    GroupSession K T V Layout :=
  match result with
  | .ok (size, data) => ⟨data, ⟨groupKey, reader, size, false⟩ :: session.reads⟩
  | .error _ => session

variable {session} {session' : GroupSession K T V Layout} {groupKey : K}

theorem of_afterUpdate {ε : Type} {result : Except ε (VersionedGroupData K T V Layout)}
    (done : session.afterUpdate result = some session') :
    ∃ data, result = .ok data ∧ session' = { session with data } := by
  unfold afterUpdate at done
  split at done
  · cases done
    exact ⟨_, rfl, rfl⟩
  · cases done

theorem Tracks.start : (start : GroupSession K T V Layout).Tracks := by
  intro groupKey
  refine Tracked.empty.mono ?_
  rintro read ⟨event, mem, -⟩
  cases mem

theorem Tracks.current (tracks : session.Tracks)
    {event : ReadEvent K ResourceGroupSize} (mem : event ∈ session.reads) :
    event.invalidated = true ∨ session.Current event := by
  refine (invalidated_or_open mem).imp_right fun isOpen => ?_
  obtain ⟨i, c, sees, same, registered, only⟩ := (tracks event.key).current isOpen
  cases known : session.data.groupSizes event.key with
  | none =>
    have here := sees.here
    unfold sizesOrDefault at here
    rw [known] at here
    cases here
  | some sizes =>
    have isSizes : session.sizesOrDefault event.key = sizes := by
      rw [sizesOrDefault, known, getD_some]
    rw [isSizes] at sees only
    cases latest : sizes.getLatestEntry event.reader.1 .beforeCurrentTxn with
    | none =>
      have free := cells_eq_none_of_lastBelow latest i sees.le
      rw [sees.here] at free
      cases free
    | some found =>
      obtain ⟨j, entry⟩ := found
      have seesNow := sees_of_lastBelow latest
      have position := seesNow.unique sees
      subst position
      obtain rfl := some.inj (seesNow.here.symm.trans sees.here)
      refine ⟨sizes, j, entry, known, latest, same.symm, registered,
        fun other entry' there also => ?_⟩
      refine only other ⟨entry'.value.size, entry'.value.dependencies⟩ ?_ also
      rw [cells, there]
      rfl

variable [DecidableEq K] {sizes : VersionedGroupSize}

variable (session) in
def afterInvalidation (groupKey : K)
    (result : Guarded (Dependencies × VersionedGroupData K T V Layout)) :
    Option (GroupSession K T V Layout) :=
  match result with
  | .ok (readers, data) =>
    some { data, reads := invalidate groupKey readers session.reads }
  | .error _ => none

theorem of_afterInvalidation {result : Guarded (Dependencies × VersionedGroupData K T V Layout)}
    (done : session.afterInvalidation groupKey result = some session') :
    ∃ readers data, result = .ok (readers, data) ∧
      session' = ⟨data, invalidate groupKey readers session.reads⟩ := by
  unfold afterInvalidation at done
  split at done
  · cases done
    exact ⟨_, _, rfl, rfl⟩
  · cases done

section

variable (tracks : session.Tracks)

include tracks

omit [DecidableEq K] in
theorem Tracks.of_sizes (sizesAre : session'.data.groupSizes = session.data.groupSizes)
    (reads : session'.reads = session.reads) : session'.Tracks := by
  intro other
  unfold sizesOrDefault
  rw [sizesAre, reads]
  exact tracks other

/-- A call changes the sizes of one group. -/
theorem Tracks.of_key (sizesAre : session'.data.groupSizes =
      update session.data.groupSizes groupKey (some sizes))
    (here : Tracked Eq sizes.cells (openReads session'.reads groupKey))
    (reads : ∀ other ≠ groupKey, openReads session'.reads other ⊆ openReads session.reads other) :
    session'.Tracks := by
  intro other
  unfold sizesOrDefault
  rw [sizesAre, update_apply]
  split
  · rename_i same
    rw [same]
    exact here
  · rename_i same
    exact (tracks other).mono (reads other same)

/-- The readers of the values are returned besides those of the size. -/
theorem Tracks.afterInvalidation {before : VersionedGroupSize}
    {data : VersionedGroupData K T V Layout} {invalidated stale : Dependencies}
    (known : session.data.groupSizes groupKey = some before)
    (tracked : ∀ reads, Tracked Eq before.cells reads →
      Tracked Eq sizes.cells {read ∈ reads | read.1 ∉ stale})
    (sizesAre : data.groupSizes = update session.data.groupSizes groupKey (some sizes)) :
    Tracks ⟨data, invalidate groupKey (invalidated ∪ stale) session.reads⟩ := by
  have here := tracks groupKey
  unfold sizesOrDefault at here
  rw [known] at here
  refine tracks.of_key sizesAre ((tracked _ here).mono ?_)
    fun other ne => openReads_invalidate_of_ne ne
  intro read mem
  obtain ⟨isOpen, free⟩ := openReads_invalidate mem
  exact ⟨isOpen, fun returned => free (Finset.mem_union_right _ returned)⟩

theorem Tracks.afterRead (txnIdx incarnation : Nat) :
    (session.afterRead groupKey (txnIdx, incarnation)
      (session.data.getGroupSizeAndRecordDependency groupKey txnIdx incarnation)).Tracks := by
  unfold VersionedGroupData.getGroupSizeAndRecordDependency
  cases known : session.data.groupSizes groupKey with
  | none => exact tracks
  | some sizes =>
    have here := tracks groupKey
    unfold sizesOrDefault at here
    rw [known] at here
    dsimp only
    split
    · exact tracks
    · rename_i result
      exact tracks.of_key rfl ((read_tracked here result).mono
        openReads_cons) fun other ne => openReads_cons_of_ne ne

variable [DecidableEq T] [TransactionWrite V Meta] {serializedSize : T → Option Nat}

theorem Tracks.setRawBaseValues {baseValues : List (T × V)}
    (done : session.afterUpdate
      (session.data.setRawBaseValues serializedSize groupKey baseValues) = some session') :
    session'.Tracks := by
  obtain ⟨data, result, rfl⟩ := of_afterUpdate done
  have tracked := tracks groupKey
  unfold sizesOrDefault at tracked
  unfold VersionedGroupData.setRawBaseValues at result
  dsimp only at result
  split at result
  · cases result
    exact tracks.of_key rfl tracked fun other _ => .refl _
  rename_i found
  split at result
  · cases result
  obtain ⟨values, -, rfl⟩ := of_return result
  refine tracks.of_key rfl ?_ fun other _ => .refl _
  rw [cells_insert]
  exact tracked.insert_first (congrArg _ found)

variable [DecidableEq V] [DecidableEq Meta]

/-- The calls that serialize tags find their sizes by `serializedSize`. -/
def step (serializedSize : T → Option Nat) (call : GroupCall K T V Layout)
    (session : GroupSession K T V Layout) : Option (GroupSession K T V Layout) :=
  match call with
  | .setRawBaseValues groupKey baseValues =>
    session.afterUpdate (session.data.setRawBaseValues serializedSize groupKey baseValues)
  | .updateTaggedBaseValueWithLayout groupKey tag value layout =>
    session.afterUpdate (session.data.updateTaggedBaseValueWithLayout groupKey tag value layout)
  | .fetchTaggedDataAndRecordDependency groupKey tag txnIdx incarnation =>
    some { session with data :=
      (session.data.fetchTaggedDataAndRecordDependency groupKey tag txnIdx incarnation).2 }
  | .getGroupSizeAndRecordDependency groupKey txnIdx incarnation =>
    some (session.afterRead groupKey (txnIdx, incarnation)
      (session.data.getGroupSizeAndRecordDependency groupKey txnIdx incarnation))
  | .writeV2 groupKey txnIdx incarnation values size prevTags =>
    session.afterInvalidation groupKey
      (session.data.writeV2 groupKey txnIdx incarnation values size prevTags)
  | .removeV2 groupKey txnIdx tags =>
    session.afterInvalidation groupKey (session.data.removeV2 groupKey txnIdx tags)

/-- The sessions of any sequence of calls. -/
def Reached (serializedSize : T → Option Nat) : GroupSession K T V Layout → Prop :=
  Run.Reaches (step serializedSize) (fun _ _ => True) (· = start)

variable {values : List (T × V × Option Layout)} {t inc : Nat}

omit tracks in
theorem dataWriteImpl_groupSizes {d d' : VersionedGroupData K T V Layout} {prevTags : List T}
    {returned : Dependencies}
    (done : d.dataWriteImpl groupKey t inc values prevTags = .ok (returned, d')) :
    d'.groupSizes = d.groupSizes := by
  unfold VersionedGroupData.dataWriteImpl at done
  split at done
  · cases done
  obtain ⟨written, -, removing⟩ := of_bind done
  obtain ⟨removed, -, same⟩ := of_bind removing
  cases same
  rfl

theorem Tracks.writeV2 {size : ResourceGroupSize} {prevTags : List T}
    (done : session.afterInvalidation groupKey
      (session.data.writeV2 groupKey t inc values size prevTags) = some session') :
    session'.Tracks := by
  obtain ⟨returned, data, result, rfl⟩ := of_afterInvalidation done
  obtain ⟨⟨invalidated, d⟩, written, sizing⟩ := of_bind result
  have unchanged := dataWriteImpl_groupSizes written
  dsimp only at sizing
  split at sizing
  · cases sizing
  rename_i before known
  cases sizing
  refine tracks.afterInvalidation (unchanged ▸ known) (fun reads tracked =>
    write_tracked tracked rfl) ?_
  rw [← unchanged]
  rfl

theorem Tracks.removeV2 {tags : List T}
    (done : session.afterInvalidation groupKey (session.data.removeV2 groupKey t tags) =
      some session') : session'.Tracks := by
  obtain ⟨returned, data, result, rfl⟩ := of_afterInvalidation done
  obtain ⟨⟨invalidated, values⟩, -, sizing⟩ := of_bind result
  dsimp only at sizing
  split at sizing
  · cases sizing
  rename_i before known
  split at sizing
  · cases sizing
  rename_i removed
  cases sizing
  exact tracks.afterInvalidation known (fun reads tracked => remove_tracked tracked removed) rfl

theorem Tracks.step {call : GroupCall K T V Layout}
    (done : step serializedSize call session = some session') :
    session'.Tracks := by
  cases call with
  | setRawBaseValues groupKey baseValues => exact tracks.setRawBaseValues done
  | updateTaggedBaseValueWithLayout groupKey tag value layout =>
    obtain ⟨data, result, rfl⟩ := of_afterUpdate done
    obtain ⟨values, -, rfl⟩ := of_return result
    exact tracks.of_sizes rfl rfl
  | fetchTaggedDataAndRecordDependency groupKey tag txnIdx incarnation =>
    cases done
    exact tracks.of_sizes rfl rfl
  | getGroupSizeAndRecordDependency groupKey txnIdx incarnation =>
    obtain rfl := some.inj done
    exact tracks.afterRead txnIdx incarnation
  | writeV2 groupKey txnIdx incarnation values size prevTags => exact tracks.writeV2 done
  | removeV2 groupKey txnIdx tags => exact tracks.removeV2 done

end

end GroupSession

end

/-! ## The result -/

section

variable {K T V Layout Meta : Type} [DecidableEq K] [DecidableEq T] [DecidableEq V]
  [DecidableEq Meta] [TransactionWrite V Meta]

/-- A read that a write or a removal makes invalid is returned by it; any other would return the
same now, and its reader is registered at the entry that it would be from. -/
theorem stale_reads_returned :
    (∀ (onlyCompareMetadata : Bool) (session : DataSession K V Layout),
      session.Reached onlyCompareMetadata → ∀ event ∈ session.reads,
        event.invalidated = true ∨ session.Current onlyCompareMetadata event) ∧
    ∀ (serializedSize : T → Option Nat) (session : GroupSession K T V Layout),
      session.Reached serializedSize → ∀ event ∈ session.reads,
        event.invalidated = true ∨ session.Current event := by
  constructor
  · intro onlyCompareMetadata session reached event mem
    have tracks := Run.Reaches.invariant (I := fun session =>
        DataSession.Tracks onlyCompareMetadata session)
      (fun s isStart => isStart ▸ .start)
      (fun s call s' before _ done => before.step done) reached
    exact tracks.current mem
  · intro serializedSize session reached event mem
    have tracks := Run.Reaches.invariant (I := fun session => GroupSession.Tracks session)
      (fun s isStart => isStart ▸ .start)
      (fun s call s' before _ done => before.step done) reached
    exact tracks.current mem

end

/-! ### A reader after a write, and one of a size -/

namespace OneKey

local instance : TransactionWrite Bool Unit := ⟨fun _ => none, fun _ => some ()⟩

def calls : List (DataCall Unit Bool Unit) :=
  [.setBaseValue () (.rawFromStorage false), .fetchDataAndRecordDependency () 1 0,
    .setBaseValue () (.exchanged false none), .writeV2 () 0 0 true none,
    .fetchDataAndRecordDependency () 2 0, .writeV2 () 1 1 true none]

def session : DataSession Unit Bool Unit :=
  calls.foldl (fun s call => (DataSession.step false call s).getD s) .start

def groupCalls : List (GroupCall Unit Unit Bool Unit) :=
  [.setRawBaseValues () [], .getGroupSizeAndRecordDependency () 1 0]

def groupSession : GroupSession Unit Unit Bool Unit :=
  groupCalls.foldl (fun s call => (GroupSession.step (fun _ => some 1) call s).getD s) .start

theorem reached : session.Reached false := by
  refine Run.Reaches.of_inputs (.start rfl) calls ?_
  exact ⟨trivial, _, rfl, trivial, _, rfl, trivial, _, rfl, trivial, _, rfl, trivial, _, rfl,
    trivial, _, rfl, rfl⟩

theorem groupReached : groupSession.Reached fun _ => some 1 := by
  refine Run.Reaches.of_inputs (.start rfl) groupCalls ?_
  exact ⟨trivial, _, rfl, trivial, _, rfl, rfl⟩

/-- The first reader has been returned; the other one has been moved to a later write. -/
theorem readers_current :
    session.reads = [⟨(), (2, 0), .exchanged true none, false⟩,
      ⟨(), (1, 0), .rawFromStorage false, true⟩] ∧
    session.Current false ⟨(), (2, 0), .exchanged true none, false⟩ ∧
    groupSession.Current ⟨(), (1, 0), .combined 0 0, false⟩ := by
  refine ⟨rfl, ?_, ?_⟩
  · have either := stale_reads_returned (T := Unit).1 false session reached
      ⟨(), (2, 0), .exchanged true none, false⟩ List.mem_cons_self
    rcases either with invalidated | current
    · cases invalidated
    · exact current
  · have either := stale_reads_returned.2 _ groupSession groupReached
      ⟨(), (1, 0), .combined 0 0, false⟩ List.mem_cons_self
    rcases either with invalidated | current
    · cases invalidated
    · exact current

end OneKey

end CreditChain
