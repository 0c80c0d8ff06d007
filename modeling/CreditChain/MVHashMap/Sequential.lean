import CreditChain.MVHashMap.DelayedFields

/-!
# The sequential result of a transaction

What transaction `n` makes of each field if it is executed on the values before it, and reads
after some of its changes have been replaced by their results.
-/

namespace CreditChain

open OrderedMap List Option

/-! ## Kinds of fields -/

inductive FieldKind where
  | aggregator
  | snapshot
  | derived
  deriving DecidableEq

def DelayedFieldValue.kind : DelayedFieldValue → FieldKind
  | aggregator _ => .aggregator
  | snapshot _ => .snapshot
  | derived _ => .derived

variable {K : Type}

/-- A change is one of fields of a kind, on fields of the right kind. -/
def DelayedApplyEntry.OfKind (kind : K → FieldKind) (own : FieldKind) :
    DelayedApplyEntry K → Prop
  | aggregatorDelta _ => own = .aggregator
  | snapshotDelta baseAggregator _ => own = .snapshot ∧ kind baseAggregator = .aggregator
  | snapshotDerived baseSnapshot _ => own = .derived ∧ kind baseSnapshot = .snapshot

/-- No estimate, and of the kind of its field. -/
def VersionEntry.OfKind (kind : K → FieldKind) (own : FieldKind) : VersionEntry K → Prop
  | value v _ => v.kind = own
  | apply entry => entry.OfKind kind own
  | estimate _ => False

/-! ## Values before a transaction -/

namespace VersionedField

variable {f : VersionedField K} {n : Nat} {v : DelayedFieldValue}

/-- The value of the last of some entries. -/
def latestValue (baseValue : Option DelayedFieldValue) :
    List (Nat × VersionEntry K) → Option DelayedFieldValue
  | [] => baseValue
  | (_, .value v _) :: _ => some v
  | _ :: _ => none

/-- The value of a field before transaction `n`. -/
def valueBefore (f : VersionedField K) (n : Nat) : Option DelayedFieldValue :=
  latestValue f.baseValue (f.entriesBelow n)

/-- The field with the result of transaction `n`. -/
def commit (f : VersionedField K) (n : Nat) (v : DelayedFieldValue) : VersionedField K :=
  { f with versionedMap := f.versionedMap.insert n (.value v none) }

variable {entries above rest' : List (Nat × VersionEntry K)}

theorem latestValue_some {base : Option DelayedFieldValue}
    (latest : latestValue base entries = some v) :
    entries = [] ∧ base = some v ∨ ∃ i change rest, entries = (i, .value v change) :: rest := by
  unfold latestValue at latest
  split at latest
  · exact .inl ⟨rfl, latest⟩
  · cases latest
    exact .inr ⟨_, _, _, rfl⟩
  · cases latest

theorem entriesBelow_head {last : Nat × VersionEntry K} {rest : List (Nat × VersionEntry K)}
    (entries : f.entriesBelow n = last :: rest) :
    f.versionedMap.find? last.1 = some last.2 ∧ last.1 < n := by
  have there : last ∈ f.entriesBelow n := by
    rw [entries]
    exact mem_cons_self
  exact mem_descending.mp there

theorem read_of_valueBefore (before : f.valueBefore n = some v) : f.read n = .ok (.value v) := by
  unfold read readEntries
  rcases latestValue_some before with ⟨none, base⟩ | ⟨i, change, rest, last⟩
  · simp only [none, base]
  · simp only [last]

theorem readLatestPredictedValue_of_valueBefore (before : f.valueBefore n = some v) :
    f.readLatestPredictedValue n = .ok v := by
  have head : (f.entriesBelow n).head? = f.versionedMap.lastBelow n := descending_head?
  unfold readLatestPredictedValue
  rw [← head]
  rcases latestValue_some before with ⟨none, base⟩ | ⟨i, change, rest, last⟩
  · simp only [none, head?_nil, base]
  · simp only [last, head?_cons]

variable {entry : VersionEntry K}

theorem entriesBelow_succ_of_find? (found : f.versionedMap.find? n = some entry) :
    f.entriesBelow (n + 1) = (n, entry) :: f.entriesBelow n := by
  rcases descending_insert found entry (n + 1) with
    ⟨impossible, -⟩ | ⟨-, above, upper, split, -⟩
  · omega
  cases above with
  | nil => exact split
  | cons top above =>
    have there : top ∈ f.versionedMap.descending (n + 1) := by
      rw [split]
      exact mem_append_left _ mem_cons_self
    have lt := (mem_descending.mp there).2
    have gt := upper top mem_cons_self
    omega

theorem entriesBelow_succ_of_missing (missing : f.versionedMap.find? n = none) :
    f.entriesBelow (n + 1) = f.entriesBelow n := by
  unfold entriesBelow descending below
  have same : f.versionedMap.entries.filter (fun entry => entry.1 < n + 1) =
      f.versionedMap.entries.filter fun entry => entry.1 < n := by
    refine filter_congr fun entry mem => ?_
    have other : entry.1 ≠ n := by
      rintro rfl
      rw [find?_eq_some.mpr mem] at missing
      cases missing
    rw [decide_eq_decide]
    omega
  simp only [same]

/-! ## Deltas on the way -/

variable {base : Option DelayedFieldValue} {flag : Bool} {rest : List (Nat × VersionEntry K)}
  {delta accumulator : DeltaOp} {a w L : Nat}

theorem suffix_of_latestValue (latest : latestValue base rest = some (.aggregator a)) :
    applyAggregatorChangeSuffix base flag accumulator rest = resolveAggregator accumulator a := by
  rcases latestValue_some latest with ⟨rfl, rfl⟩ | ⟨i, change, rest, rfl⟩
  · rfl
  · rfl

/-- A delta that has been replaced by its result is not seen from above. -/
theorem suffix_commit (latest : latestValue base rest = some (.aggregator a))
    (applied : delta.applyTo a = .ok w) (first : delta.WellFormed)
    (second : accumulator.WellFormed) (sameMax : delta.maxValue = accumulator.maxValue) :
    applyAggregatorChangeSuffix base flag accumulator
        ((n, .value (.aggregator w) none) :: rest) =
      applyAggregatorChangeSuffix base flag accumulator
        ((n, .apply (.aggregatorDelta delta)) :: rest) := by
  change resolveAggregator accumulator w =
    ((delta.createMergedDelta accumulator).mapError MVDelayedFieldsError.fromPanicOr >>=
      fun merged => applyAggregatorChangeSuffix base flag merged rest)
  simp only [suffix_of_latestValue latest]
  unfold resolveAggregator
  rcases DeltaOp.merge_applyTo first second sameMax applied with
    ⟨result, both, alone⟩ | ⟨⟨e, both⟩, e', alone⟩
  · obtain ⟨merged, isMerged, isResult⟩ := of_bind both
    rw [alone, isMerged]
    change _ = ((merged.applyTo a).mapError _).map _
    rw [isResult]
  rw [alone]
  cases isMerged : delta.createMergedDelta accumulator with
  | error failure =>
    rw [isMerged] at both
    cases both
    rfl
  | ok merged =>
    rw [isMerged, Except.ok_bind] at both
    change _ = ((merged.applyTo a).mapError _).map _
    rw [both]
    rfl

/-- Entries of an aggregator, whose deltas are well formed and have one maximum. -/
def Summable (L : Nat) (entry : VersionEntry K) : Prop :=
  (∃ v change, entry = .value v change) ∨
    ∃ delta, entry = .apply (.aggregatorDelta delta) ∧ delta.WellFormed ∧ delta.maxValue = L

/-- What deltas of one maximum do not see below, they do not see from further above. -/
theorem suffix_congr (summable : ∀ entry ∈ above, Summable L entry.2)
    (below : ∀ accumulator : DeltaOp, accumulator.WellFormed → accumulator.maxValue = L →
      applyAggregatorChangeSuffix base flag accumulator rest' =
        applyAggregatorChangeSuffix base flag accumulator rest)
    (wellFormed : accumulator.WellFormed) (max : accumulator.maxValue = L) :
    applyAggregatorChangeSuffix base flag accumulator (above ++ rest') =
      applyAggregatorChangeSuffix base flag accumulator (above ++ rest) := by
  induction above generalizing accumulator with
  | nil => exact below accumulator wellFormed max
  | cons first above ih =>
    obtain ⟨i, entry⟩ := first
    have later := fun entry mem => summable entry (mem_cons_of_mem _ mem)
    rcases summable (i, entry) mem_cons_self with
      ⟨v, change, same⟩ | ⟨delta, same, deltaWellFormed, deltaMax⟩
    · cases same
      cases v with
      | aggregator value | snapshot value | derived value => rfl
    cases same
    change ((delta.createMergedDelta accumulator).mapError _ >>= fun merged =>
        applyAggregatorChangeSuffix base flag merged (above ++ rest')) =
      ((delta.createMergedDelta accumulator).mapError _ >>= fun merged =>
        applyAggregatorChangeSuffix base flag merged (above ++ rest))
    rcases DeltaOp.createMergedDelta_spec deltaWellFormed wellFormed (deltaMax.trans max.symm)
      with ⟨merged, isMerged, mergedWellFormed, mergedMax, -⟩ | ⟨⟨e, failed⟩, -⟩
    · rw [isMerged]
      exact ih later mergedWellFormed (mergedMax.trans max)
    · rw [failed]
      rfl

/-- A read of an aggregator does not depend on another field. -/
theorem readEntries_summable (summable : ∀ entry ∈ entries, Summable L entry.2) :
    ∃ outcome : Except (PanicOr MVDelayedFieldsError) DelayedFieldValue,
      f.readEntries entries = outcome.map .value := by
  cases entries with
  | nil =>
    cases known : f.baseValue with
    | none =>
      refine ⟨.error (.or .notFound), ?_⟩
      simp only [readEntries, known]
      rfl
    | some value =>
      refine ⟨.ok value, ?_⟩
      simp only [readEntries, known]
      rfl
  | cons first rest =>
    obtain ⟨i, entry⟩ := first
    rcases summable (i, entry) mem_cons_self with ⟨v, change, same⟩ | ⟨delta, same, -⟩
    · cases same
      exact ⟨.ok v, rfl⟩
    · cases same
      exact ⟨_, rfl⟩

/-- What is not seen below, neither by deltas nor directly, is not seen from above. -/
theorem readEntries_congr (summable : ∀ entry ∈ above, Summable L entry.2)
    (below : ∀ accumulator : DeltaOp, accumulator.WellFormed → accumulator.maxValue = L →
      applyAggregatorChangeSuffix f.baseValue f.readEstimateDeltas accumulator rest' =
        applyAggregatorChangeSuffix f.baseValue f.readEstimateDeltas accumulator rest)
    (direct : f.readEntries rest' = f.readEntries rest) :
    f.readEntries (above ++ rest') = f.readEntries (above ++ rest) := by
  cases above with
  | nil => exact direct
  | cons first above =>
    obtain ⟨i, top⟩ := first
    rcases summable (i, top) mem_cons_self with
      ⟨v, change, same⟩ | ⟨delta, same, wellFormed, max⟩
    · cases same
      rfl
    · cases same
      exact congrArg (Except.map VersionedRead.value) (suffix_congr
        (fun other mem => summable other (mem_cons_of_mem _ mem)) below wellFormed max)

/-- The result of the entry of an aggregator: the value that is written, or that of the delta on
the value before. -/
def Yields (f : VersionedField K) (n : Nat) (v : DelayedFieldValue) : VersionEntry K → Prop
  | .value w _ => w = v
  | .apply (.aggregatorDelta delta) => ∃ a w, f.valueBefore n = some (.aggregator a) ∧
      delta.applyTo a = .ok w ∧ v = .aggregator w
  | _ => False

/-- A read of an aggregator after the entry of transaction `n` has been replaced by its result. -/
theorem read_commit_aggregator
    (summable : ∀ i entry, f.versionedMap.find? i = some entry → Summable L entry)
    (found : f.versionedMap.find? n = some entry) (yields : f.Yields n v entry) (m : Nat) :
    (f.commit n v).read m = f.read m := by
  change f.readEntries ((f.versionedMap.insert n (.value v none)).descending m) =
    f.readEntries (f.versionedMap.descending m)
  rcases descending_insert found (.value v none) m with
    ⟨-, same⟩ | ⟨-, above, -, before, after⟩
  · rw [same]
  have aboveSummable : ∀ entry ∈ above, Summable L entry.2 := by
    intro other mem
    have there : other ∈ f.versionedMap.descending m := by
      rw [before]
      exact mem_append_left _ mem
    exact summable _ _ (mem_descending.mp there).1
  rw [before, after]
  rcases summable n entry found with ⟨w, change, same⟩ | ⟨delta, same, wellFormed, max⟩
  · subst same
    obtain rfl : w = v := yields
    refine readEntries_congr aboveSummable (fun accumulator _ _ => ?_) rfl
    cases w with
    | aggregator value | snapshot value | derived value => rfl
  · subst same
    obtain ⟨a, w, isBefore, applied, rfl⟩ := yields
    refine readEntries_congr aboveSummable (fun accumulator wellFormed' max' =>
      suffix_commit isBefore applied wellFormed wellFormed' (max.trans max'.symm)) ?_
    have resolved : applyAggregatorChangeSuffix f.baseValue f.readEstimateDeltas delta
        (f.versionedMap.descending n) = .ok (.aggregator w) := by
      refine (suffix_of_latestValue isBefore).trans ?_
      rw [resolveAggregator, applied]
      rfl
    exact (congrArg (Except.map VersionedRead.value) resolved).symm

end VersionedField

/-! ## The result of a transaction -/

/-- The result of a delta for the value of an aggregator. -/
def DeltaOp.appliedTo (delta : DeltaOp) : Option DelayedFieldValue → Option Nat
  | some (.aggregator base) => (delta.applyTo base).toOption
  | _ => none

theorem DeltaOp.appliedTo_eq_some {delta : DeltaOp} {a w : Nat} :
    delta.appliedTo (some (.aggregator a)) = some w ↔ delta.applyTo a = .ok w := by
  change (delta.applyTo a).toOption = some w ↔ _
  cases delta.applyTo a with
  | error e | ok value => simp [Except.toOption]

open VersionedField

namespace VersionedDelayedFields

variable (d : VersionedDelayedFields K) (n : Nat) (id : K)

/-- The entry of transaction `n` for a field. -/
def entryAt : Option (VersionEntry K) := (d.values id).bind fun f => f.versionedMap.find? n

/-- The value of a field before transaction `n`. -/
def valueBefore : Option DelayedFieldValue := (d.values id).bind fun f => f.valueBefore n

/-- Values and deltas, on the values before the transaction. -/
def executedDelta : VersionEntry K → Option DelayedFieldValue
  | .value v _ => some v
  | .apply (.aggregatorDelta delta) => (delta.appliedTo (d.valueBefore n id)).map .aggregator
  | .apply (.snapshotDelta baseAggregator delta) =>
    (delta.appliedTo (d.valueBefore n baseAggregator)).map .snapshot
  | _ => none

/-- The value of a snapshot after the transaction. -/
def snapshotAfter : Option DelayedFieldValue :=
  match d.entryAt n id with
  | some entry => d.executedDelta n id entry
  | none => d.valueBefore n id

def executedEntry : VersionEntry K → Option DelayedFieldValue
  | .apply (.snapshotDerived baseSnapshot formula) =>
    match d.snapshotAfter n baseSnapshot with
    | some (.snapshot base) => some (.derived (formula.applyTo base))
    | _ => none
  | entry => d.executedDelta n id entry

/-- The value that transaction `n` gives to a field, executed on the values before it. -/
def executed : Option DelayedFieldValue := (d.entryAt n id).bind (d.executedEntry n id)

/-- A field has a value from before the block, or an entry below transaction `n`. -/
def Present : Prop :=
  ∃ f, d.values id = some f ∧
    (f.baseValue.isSome ∨ ∃ i, i < n ∧ (f.versionedMap.find? i).isSome)

/-- Everything before transaction `n` has been committed, and the snapshots and strings of `n`
have what they apply to.  Fields have a kind: there are no estimates, and an aggregator has no
snapshots. -/
structure Prepared (d : VersionedDelayedFields K) (kind : K → FieldKind) (n : Nat) : Prop where
  next : d.nextIdxToCommit = n
  base : ∀ {id f v}, d.values id = some f → f.baseValue = some v → v.kind = kind id
  entries : ∀ {id i entry}, d.entryAt i id = some entry → entry.OfKind kind (kind id)
  settled : ∀ {id i entry}, d.entryAt i id = some entry → i < n → ∃ v change,
    entry = .value v change
  deltas : ∀ id, ∃ L, ∀ {i delta}, d.entryAt i id = some (.apply (.aggregatorDelta delta)) →
    delta.WellFormed ∧ delta.maxValue = L
  snapshotDeltas : ∀ {id i baseAggregator delta},
    d.entryAt i id = some (.apply (.snapshotDelta baseAggregator delta)) → delta.WellFormed
  snapshotPresent : ∀ {id baseAggregator delta},
    d.entryAt n id = some (.apply (.snapshotDelta baseAggregator delta)) →
    d.Present n baseAggregator
  derivedPresent : ∀ {id baseSnapshot formula},
    d.entryAt n id = some (.apply (.snapshotDerived baseSnapshot formula)) →
    d.Present (n + 1) baseSnapshot

/-- The deltas of `n` have a value before `n`, too. -/
structure Ready (d : VersionedDelayedFields K) (kind : K → FieldKind) (n : Nat) : Prop
    extends d.Prepared kind n where
  deltaPresent : ∀ {id delta}, d.entryAt n id = some (.apply (.aggregatorDelta delta)) →
    d.Present n id

/-- Some entries of transaction `n` have been replaced by the results. -/
structure Between (d d' : VersionedDelayedFields K) (n : Nat) : Prop where
  next : d'.nextIdxToCommit = d.nextIdxToCommit
  fields : ∀ id, d'.values id = d.values id ∨ ∃ f v, d.values id = some f ∧
    d.executed n id = some v ∧ d'.values id = some (f.commit n v)

variable {d d' : VersionedDelayedFields K} {kind : K → FieldKind} {n : Nat} {id : K}
  {f : VersionedField K} {v : DelayedFieldValue}

theorem entryAt_eq (field : d.values id = some f) : d.entryAt n id = f.versionedMap.find? n := by
  rw [entryAt, field, bind_some]

theorem executed_of_entry {entry : VersionEntry K} (here : d.entryAt n id = some entry) :
    d.executed n id = d.executedEntry n id entry := by
  rw [executed, here, bind_some]

theorem valueBefore_eq (field : d.values id = some f) : d.valueBefore n id = f.valueBefore n := by
  rw [valueBefore, field, bind_some]

theorem Prepared.valueBefore_isSome (prepared : d.Prepared kind n) (present : d.Present n id) :
    (d.valueBefore n id).isSome := by
  obtain ⟨f, field, known⟩ := present
  rw [valueBefore_eq field, VersionedField.valueBefore]
  cases entries : f.entriesBelow n with
  | nil =>
    rcases known with base | ⟨i, lt, here⟩
    · exact base
    obtain ⟨entry, found⟩ := isSome_iff_exists.mp here
    have there : (i, entry) ∈ f.entriesBelow n := mem_descending.mpr ⟨found, lt⟩
    rw [entries] at there
    cases there
  | cons last rest =>
    obtain ⟨found, lt⟩ := entriesBelow_head entries
    obtain ⟨v, change, same⟩ := prepared.settled ((entryAt_eq field).trans found) lt
    obtain ⟨i, entry⟩ := last
    cases same
    rfl

section

variable (ready : d.Ready kind n)

include ready

theorem Ready.aggregatorBefore {delta : DeltaOp}
    (here : d.entryAt n id = some (.apply (.aggregatorDelta delta))) :
    (d.valueBefore n id).isSome :=
  ready.valueBefore_isSome (ready.deltaPresent here)

theorem Ready.snapshotBefore {baseAggregator : K} {delta : DeltaOp}
    (here : d.entryAt n id = some (.apply (.snapshotDelta baseAggregator delta))) :
    (d.valueBefore n baseAggregator).isSome :=
  ready.valueBefore_isSome (ready.snapshotPresent here)

theorem Ready.derivedBefore {baseSnapshot : K} {formula : SnapshotToStringFormula}
    (here : d.entryAt n id = some (.apply (.snapshotDerived baseSnapshot formula))) :
    (d.entryAt n baseSnapshot).isSome ∨ (d.valueBefore n baseSnapshot).isSome := by
  obtain ⟨f, field, known⟩ := ready.derivedPresent here
  rcases known with base | ⟨i, lt, entry⟩
  · exact .inr (ready.valueBefore_isSome ⟨f, field, .inl base⟩)
  rcases Nat.lt_succ_iff_lt_or_eq.mp lt with before | rfl
  · exact .inr (ready.valueBefore_isSome ⟨f, field, .inr ⟨i, before, entry⟩⟩)
  · rw [entryAt_eq field]
    exact .inl entry

section

variable {i : Nat} {entry : VersionEntry K} (here : d.entryAt i id = some entry)

include here

/-! What an entry is, by the kind of its field. -/

theorem Ready.aggregatorEntry (isAggregator : kind id = .aggregator) :
    (∃ v change, entry = .value v change) ∨ ∃ delta, entry = .apply (.aggregatorDelta delta) := by
  have ofKind := ready.entries here
  rw [isAggregator] at ofKind
  rcases entry with ⟨v, change⟩ | (delta | _ | _) | _
  · exact .inl ⟨v, change, rfl⟩
  · exact .inr ⟨delta, rfl⟩
  · cases ofKind.1
  · cases ofKind.1
  · exact ofKind.elim

theorem Ready.snapshotEntry (isSnapshot : kind id = .snapshot) :
    (∃ v change, entry = .value v change ∧ v.kind = .snapshot) ∨ ∃ baseAggregator delta,
      entry = .apply (.snapshotDelta baseAggregator delta) ∧ kind baseAggregator = .aggregator := by
  have ofKind := ready.entries here
  rw [isSnapshot] at ofKind
  rcases entry with ⟨v, change⟩ | (_ | ⟨baseAggregator, delta⟩ | _) | _
  · exact .inl ⟨v, change, rfl, ofKind⟩
  · cases ofKind
  · exact .inr ⟨baseAggregator, delta, rfl, ofKind.2⟩
  · cases ofKind.1
  · exact ofKind.elim

theorem Ready.derivedEntry (isDerived : kind id = .derived) :
    (∃ v change, entry = .value v change) ∨ ∃ baseSnapshot formula,
      entry = .apply (.snapshotDerived baseSnapshot formula) ∧ kind baseSnapshot = .snapshot := by
  have ofKind := ready.entries here
  rw [isDerived] at ofKind
  rcases entry with ⟨v, change⟩ | (_ | _ | ⟨baseSnapshot, formula⟩) | _
  · exact .inl ⟨v, change, rfl⟩
  · cases ofKind
  · cases ofKind.1
  · exact .inr ⟨baseSnapshot, formula, rfl, ofKind.2⟩
  · exact ofKind.elim

end

/-- The last value below `n` is one of the field. -/
theorem Ready.kind_of_valueBefore (before : d.valueBefore n id = some v) : v.kind = kind id := by
  obtain ⟨f, field, before⟩ := bind_eq_some_iff.mp before
  rcases latestValue_some before with ⟨-, base⟩ | ⟨i, change, rest, last⟩
  · exact ready.base field base
  · exact ready.entries ((entryAt_eq field).trans (entriesBelow_head last).1)

section

variable (isAggregator : kind id = .aggregator)

include isAggregator

/-- The value before of an aggregator. -/
theorem Ready.aggregator_before
    (known : (d.valueBefore n id).isSome) : ∃ a, d.valueBefore n id = some (.aggregator a) := by
  obtain ⟨v, before⟩ := isSome_iff_exists.mp known
  have same := (ready.kind_of_valueBefore before).trans isAggregator
  cases v with
  | aggregator a => exact ⟨a, before⟩
  | snapshot value | derived value => cases same

theorem Ready.summable
    (field : d.values id = some f) : ∃ L, ∀ i entry, f.versionedMap.find? i = some entry →
      VersionedField.Summable L entry := by
  obtain ⟨L, deltas⟩ := ready.deltas id
  refine ⟨L, fun i entry found => ?_⟩
  have here := (entryAt_eq field).trans found
  rcases ready.aggregatorEntry here isAggregator with isValue | ⟨delta, rfl⟩
  · exact .inl isValue
  · exact .inr ⟨delta, rfl, deltas here⟩

/-- The result of an aggregator's entry, from the fields to the field. -/
theorem Ready.yields
    (field : d.values id = some f) (result : d.executed n id = some v) : ∃ entry,
      f.versionedMap.find? n = some entry ∧ f.Yields n v entry := by
  obtain ⟨entry, here, result⟩ := bind_eq_some_iff.mp result
  refine ⟨entry, (entryAt_eq field).symm.trans here, ?_⟩
  rcases ready.aggregatorEntry here isAggregator with ⟨w, change, rfl⟩ | ⟨delta, rfl⟩
  · exact some.inj result
  · obtain ⟨a, before⟩ := ready.aggregator_before isAggregator (ready.aggregatorBefore here)
    change (delta.appliedTo (d.valueBefore n id)).map _ = _ at result
    rw [before] at result
    obtain ⟨w, applied, rfl⟩ := map_eq_some_iff.mp result
    refine ⟨a, w, (valueBefore_eq field).symm.trans before, ?_, rfl⟩
    exact DeltaOp.appliedTo_eq_some.mp applied

end

end

theorem find?_of_executed (field : d.values id = some f) (result : d.executed n id = some v) :
    ∃ entry, f.versionedMap.find? n = some entry := by
  obtain ⟨entry, here, -⟩ := bind_eq_some_iff.mp result
  exact ⟨entry, (entryAt_eq field).symm.trans here⟩

/-- A field on the way, with what stays of it. -/
theorem Between.field (between : d.Between d' n) (field : d.values id = some f) : ∃ g,
    d'.values id = some g ∧ g.valueBefore n = f.valueBefore n ∧
      (g = f ∨ ∃ v, d.executed n id = some v ∧ g = f.commit n v) := by
  rcases between.fields id with same | ⟨f', v, field', result, replaced⟩
  · exact ⟨f, same.trans field, rfl, .inl rfl⟩
  rw [field, some.injEq] at field'
  subst field'
  obtain ⟨entry, found⟩ := find?_of_executed field result
  refine ⟨f.commit n v, replaced, ?_, .inr ⟨v, result, rfl⟩⟩
  rcases descending_insert found (.value v none) n with ⟨-, same⟩ | ⟨impossible, -⟩
  · exact congrArg (latestValue f.baseValue) same
  · exact absurd impossible (lt_irrefl n)

theorem ne_of_kind {other : K} {own kind' : FieldKind} (left : kind other = kind')
    (right : kind id = own) (ne : kind' ≠ own) : other ≠ id := by
  rintro rfl
  exact ne (left.symm.trans right)

/-! ## Reads -/

variable [DecidableEq K]

theorem readField_value {recurse} (field : d.values id = some f) {m : Nat}
    (result : f.read m = .ok (.value v)) : d.readField id m recurse = .ok v := by
  unfold readField
  rw [field]
  change f.read m >>= _ = _
  rw [result]
  rfl

theorem readCheckedDepth_of_valueBefore (before : d.valueBefore n id = some v) (more : Nat) :
    d.readCheckedDepth more id n = .ok v := by
  obtain ⟨f, field, before⟩ := bind_eq_some_iff.mp before
  cases more with
  | zero | succ more => exact readField_value field (read_of_valueBefore before)

theorem Between.read_aggregator (ready : d.Ready kind n) (between : d.Between d' n)
    (isAggregator : kind id = .aggregator) {recurse recurse'} (m : Nat) :
    d'.readField id m recurse' = d.readField id m recurse := by
  cases field : d.values id with
  | none =>
    rcases between.fields id with same | ⟨f, v, other, -⟩
    · unfold readField
      rw [same, field]
    · rw [field] at other
      cases other
  | some f =>
    obtain ⟨L, summable⟩ := ready.summable isAggregator field
    have alone : ∀ g : VersionedField K, ∀ recurse, g.read m = f.read m →
        d'.values id = some g → d'.readField id m recurse' = d.readField id m recurse := by
      intro g recurse same field'
      have visible : ∀ entry ∈ f.entriesBelow m, VersionedField.Summable L entry.2 :=
        fun entry mem => summable _ _ (mem_descending.mp mem).1
      obtain ⟨outcome, isOutcome⟩ := readEntries_summable (f := f) visible
      unfold readField
      rw [field, field']
      change g.read m >>= _ = f.read m >>= _
      rw [same]
      change f.readEntries _ >>= _ = f.readEntries _ >>= _
      rw [isOutcome]
      cases outcome with
      | error e | ok value => rfl
    obtain ⟨g, onTheWay, -, rfl | ⟨v, result, rfl⟩⟩ := between.field field
    · exact alone g recurse rfl onTheWay
    · obtain ⟨entry, found, yields⟩ := ready.yields isAggregator field result
      exact alone _ recurse (read_commit_aggregator summable found yields m) onTheWay

/-- A read that only looks at the last entry sees its result in the place of the entry of
transaction `n`. -/
theorem Between.read_last (between : d.Between d' n) {recurse recurse'}
    (same : ∀ {i entry} rest rest', d.entryAt i id = some entry → ∀ f : VersionedField K,
      (f.readEntries ((i, entry) :: rest') >>= readDependent id recurse') =
        (f.readEntries ((i, entry) :: rest) >>= readDependent id recurse))
    (result : ∀ {entry v} rest, d.entryAt n id = some entry → d.executed n id = some v →
      ∀ f : VersionedField K,
        (f.readEntries ((n, entry) :: rest) >>= readDependent id recurse) = .ok v) (m : Nat) :
    d'.readField id m recurse' = d.readField id m recurse := by
  cases field : d.values id with
  | none =>
    rcases between.fields id with unchanged | ⟨f, v, other, -⟩
    · unfold readField
      rw [unchanged, field]
    · rw [field] at other
      cases other
  | some f =>
    have unchanged : (f.readEntries (f.entriesBelow m) >>= readDependent id recurse') =
        (f.readEntries (f.entriesBelow m) >>= readDependent id recurse) := by
      cases entries : f.entriesBelow m with
      | nil =>
        unfold readEntries
        cases f.baseValue with
        | none | some v => rfl
      | cons last rest =>
        exact same rest rest ((entryAt_eq field).trans (entriesBelow_head entries).1) f
    obtain ⟨g, onTheWay, -, rfl | ⟨v, executed, rfl⟩⟩ := between.field field
    · unfold readField
      rw [field, onTheWay]
      exact unchanged
    unfold readField
    rw [field, onTheWay]
    obtain ⟨entry, here, -⟩ := bind_eq_some_iff.mp executed
    have found := (entryAt_eq field).symm.trans here
    change f.readEntries ((f.versionedMap.insert n (.value v none)).descending m) >>= _ =
      f.readEntries (f.versionedMap.descending m) >>= _
    rcases descending_insert found (.value v none) m with
      ⟨-, below⟩ | ⟨-, above, -, before, after⟩
    · rw [below]
      exact unchanged
    rw [before, after]
    cases above with
    | nil => exact (result _ here executed f).symm
    | cons last above =>
      exact same _ _ ((entryAt_eq field).trans (entriesBelow_head before).1) f

/-- The read of a snapshot at its entry is from the aggregator before it. -/
theorem readDependent_snapshot {baseAggregator : K} {delta : DeltaOp} (ne : baseAggregator ≠ id)
    (i : Nat) (rest : List (Nat × VersionEntry K))
    (recurse : K → Nat → Except (PanicOr MVDelayedFieldsError) DelayedFieldValue) :
    (f.readEntries ((i, .apply (.snapshotDelta baseAggregator delta)) :: rest) >>=
        readDependent id (some recurse)) =
      (recurse baseAggregator i >>= fun source =>
        ((DelayedApplyEntry.snapshotDelta baseAggregator delta).applyToBase source).mapError
          MVDelayedFieldsError.fromPanicOr) := by
  change (if baseAggregator = id then _ else _) = _
  rw [if_neg ne]

/-- The read of a string at its entry is from the snapshot after it. -/
theorem readDependent_derived {baseSnapshot : K} {formula : SnapshotToStringFormula}
    (ne : baseSnapshot ≠ id) (i : Nat) (rest : List (Nat × VersionEntry K))
    (recurse : K → Nat → Except (PanicOr MVDelayedFieldsError) DelayedFieldValue) :
    (f.readEntries ((i, .apply (.snapshotDerived baseSnapshot formula)) :: rest) >>=
        readDependent id (some recurse)) =
      (recurse baseSnapshot (i + 1) >>= fun source =>
        ((DelayedApplyEntry.snapshotDerived baseSnapshot formula).applyToBase source).mapError
          MVDelayedFieldsError.fromPanicOr) := by
  change (if baseSnapshot = id then _ else _) = _
  rw [if_neg ne]

section

variable (ready : d.Ready kind n)

include ready

/-- A snapshot's entry at `n` reads as its result. -/
theorem Ready.read_snapshot_entry (isSnapshot : kind id = .snapshot)
    {entry : VersionEntry K} (here : d.entryAt n id = some entry)
    (executed : d.executedDelta n id entry = some v) (more : Nat)
    (rest : List (Nat × VersionEntry K)) (f : VersionedField K) :
    (f.readEntries ((n, entry) :: rest) >>= readDependent id (some (d.readCheckedDepth more))) =
      .ok v := by
  rcases ready.snapshotEntry here isSnapshot with
    ⟨w, change, rfl, -⟩ | ⟨baseAggregator, delta, rfl, isAggregator⟩
  · cases executed
    rfl
  obtain ⟨a, before⟩ := ready.aggregator_before isAggregator (ready.snapshotBefore here)
  change (delta.appliedTo (d.valueBefore n baseAggregator)).map _ = _ at executed
  rw [before] at executed
  obtain ⟨w, applied, rfl⟩ := map_eq_some_iff.mp executed
  rw [readDependent_snapshot (ne_of_kind isAggregator isSnapshot (by decide)),
    readCheckedDepth_of_valueBefore before]
  change Except.mapError _ (delta.applyTo a >>= fun w => pure (DelayedFieldValue.snapshot w)) = _
  rw [DeltaOp.appliedTo_eq_some.mp applied]
  rfl

theorem Between.read_snapshot (between : d.Between d' n)
    (isSnapshot : kind id = .snapshot) (more m : Nat) :
    d'.readCheckedDepth (more + 1) id m = d.readCheckedDepth (more + 1) id m := by
  refine between.read_last (fun {i entry} rest rest' here f => ?_)
    (fun {entry v} rest here result f => ?_) m
  · rcases ready.snapshotEntry here isSnapshot with
      ⟨w, change, rfl, -⟩ | ⟨baseAggregator, delta, rfl, isAggregator⟩
    · rfl
    have ne : baseAggregator ≠ id := ne_of_kind isAggregator isSnapshot (by decide)
    rw [readDependent_snapshot ne, readDependent_snapshot ne]
    have agree : d'.readCheckedDepth more baseAggregator i =
        d.readCheckedDepth more baseAggregator i := by
      cases more with
      | zero | succ more => exact between.read_aggregator ready isAggregator i
    rw [agree]
  · rw [executed_of_entry here] at result
    refine ready.read_snapshot_entry isSnapshot here ?_ more rest f
    rcases ready.snapshotEntry here isSnapshot with ⟨w, change, rfl, -⟩ | ⟨_, delta, rfl, -⟩
    · exact result
    · exact result

/-- A snapshot that is read after `n` has its value after `n`. -/
theorem Ready.read_snapshotAfter (isSnapshot : kind id = .snapshot)
    (after : d.snapshotAfter n id = some v) (more : Nat) :
    d.readCheckedDepth (more + 1) id (n + 1) = .ok v := by
  unfold snapshotAfter at after
  cases here : d.entryAt n id with
  | none =>
    rw [here] at after
    refine readCheckedDepth_of_valueBefore ?_ (more + 1)
    obtain ⟨f, field, before⟩ := bind_eq_some_iff.mp after
    have missing := (entryAt_eq field).symm.trans here
    rw [valueBefore_eq field, VersionedField.valueBefore, entriesBelow_succ_of_missing missing]
    exact before
  | some entry =>
    rw [here] at after
    obtain ⟨f, field, found⟩ := bind_eq_some_iff.mp here
    change d.readField id (n + 1) (some (d.readCheckedDepth more)) = _
    unfold readField
    rw [field]
    change f.readEntries (f.entriesBelow (n + 1)) >>= _ = _
    rw [entriesBelow_succ_of_find? found]
    exact ready.read_snapshot_entry isSnapshot here after more _ f

theorem Between.read_derived (between : d.Between d' n)
    (isDerived : kind id = .derived) (more m : Nat) :
    d'.readCheckedDepth (more + 2) id m = d.readCheckedDepth (more + 2) id m := by
  refine between.read_last (fun {i entry} rest rest' here f => ?_)
    (fun {entry v} rest here result f => ?_) m
  · rcases ready.derivedEntry here isDerived with
      ⟨w, change, rfl⟩ | ⟨baseSnapshot, formula, rfl, isSnapshot⟩
    · rfl
    have ne : baseSnapshot ≠ id := ne_of_kind isSnapshot isDerived (by decide)
    rw [readDependent_derived ne, readDependent_derived ne, between.read_snapshot ready isSnapshot]
  rw [executed_of_entry here] at result
  rcases ready.derivedEntry here isDerived with
    ⟨w, change, rfl⟩ | ⟨baseSnapshot, formula, rfl, isSnapshot⟩
  · cases result
    rfl
  rw [readDependent_derived (ne_of_kind isSnapshot isDerived (by decide))]
  simp only [executedEntry] at result
  split at result
  · rename_i after
    cases result
    rw [ready.read_snapshotAfter isSnapshot after more]
    rfl
  · cases result

/-- Reads do not see whether a change has been replaced by its result. -/
theorem Between.read_eq (between : d.Between d' n) (id : K) (m : Nat) :
    d'.read id m = d.read id m := by
  cases isKind : kind id with
  | aggregator => exact between.read_aggregator ready isKind m
  | snapshot => exact between.read_snapshot ready isKind 2 m
  | derived => exact between.read_derived ready isKind 1 m

end

end VersionedDelayedFields

end CreditChain
