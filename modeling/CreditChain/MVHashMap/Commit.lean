import CreditChain.MVHashMap.Sequential

/-!
# The commit of delayed fields

The three passes of a commit put the sequential results in the place of the changes of a
transaction, or find a delta that does not apply.

* `commit_sequential`: the commit gives the sequential result, and no read sees it.
-/

namespace CreditChain

open OrderedMap CreditChain.Action VersionedField List Function

namespace VersionedDelayedFields

open CreditChain.Action (Ensures Post)
open Option (bind_eq_some_iff isSome_iff_exists)

variable {K : Type} {d d' d'' : VersionedDelayedFields K} {kind : K → FieldKind}
  {n : Nat} {id : K} {f : VersionedField K} {v : DelayedFieldValue}

/-! ## What is said of a state on the way -/

/-- The entry of a field is its result. -/
def Final (d d' : VersionedDelayedFields K) (n : Nat) (id : K) : Prop :=
  ∃ v, d.executed n id = some v ∧ d'.entryAt n id = some (.value v none)

/-- A step has put the result of one field. -/
structure Puts (d d' d'' : VersionedDelayedFields K) (n : Nat) (id : K) : Prop where
  between : d.Between d'' n
  put : d.Final d'' n id
  keeps : ∀ other, d.Final d' n other → d.Final d'' n other

/-- The delta of transaction `n` for a field, and the aggregator that it applies to. -/
def DeltaOn (d : VersionedDelayedFields K) (n : Nat) (id baseAggregator : K) (delta : DeltaOp) :
    Prop :=
  d.entryAt n id = some (.apply (.aggregatorDelta delta)) ∧ baseAggregator = id ∨
    d.entryAt n id = some (.apply (.snapshotDelta baseAggregator delta))

/-- A delta of transaction `n` does not apply to the value before. -/
def DeltaFails (d : VersionedDelayedFields K) (n : Nat) : Prop :=
  ∃ id baseAggregator delta a e, d.DeltaOn n id baseAggregator delta ∧
    d.valueBefore n baseAggregator = some (.aggregator a) ∧ delta.applyTo a = .error e

/-- The only failure of a commit. -/
def Refused (d : VersionedDelayedFields K) (n : Nat) (e : PanicOr CommitError) : Prop :=
  (∃ message, e = .or (.reExecutionNeeded message)) ∧ d.DeltaFails n

theorem Between.refl : d.Between d n := ⟨rfl, fun _ => .inl rfl⟩

theorem Between.entryAt_of_ne (between : d.Between d' n) {m : Nat} (ne : m ≠ n) (id : K) :
    d'.entryAt m id = d.entryAt m id := by
  rcases between.fields id with same | ⟨f, v, field, -, replaced⟩
  · rw [entryAt, same, entryAt]
  · rw [entryAt_eq replaced, entryAt_eq field]
    exact find?_insert_of_ne ne

theorem Between.entryAt_of_missing (between : d.Between d' n) (missing : d.entryAt n id = none) :
    d'.entryAt n id = none := by
  rcases between.fields id with same | ⟨f, v, field, result, -⟩
  · rw [entryAt, same]
    exact missing
  · rw [executed, missing] at result
    cases result

/-- If all results are there, every delta applies. -/
theorem applies_of_final (final : ∀ id, (d.entryAt n id).isSome → d.Final d' n id) :
    ¬ d.DeltaFails n := by
  rintro ⟨id, baseAggregator, delta, a, e, isDelta, before, fails⟩
  have refuses : ¬ ∃ w, delta.appliedTo (d.valueBefore n baseAggregator) = some w := by
    rintro ⟨w, applied⟩
    rw [before] at applied
    rw [DeltaOp.appliedTo_eq_some.mp applied] at fails
    cases fails
  rcases isDelta with ⟨here, rfl⟩ | here
  all_goals
    obtain ⟨v, result, -⟩ := final _ (by rw [here]; rfl)
    rw [executed_of_entry here] at result
    obtain ⟨w, applied, -⟩ := Option.map_eq_some_iff.mp result
    exact refuses ⟨w, applied⟩

/-! ## Putting a result -/

variable {g : VersionedField K}

theorem exec_fieldOr (field : d.values id = some g)
    (e : PanicOr CommitError) : (fieldOr id e).exec d = (.ok g, d) := by
  change exec (check _) d = _
  rw [exec_check, field]

theorem insertFinalValue_eq (field : d.values id = some f) (result : d.executed n id = some v)
    (onTheWay : g = f ∨ ∃ v, d.executed n id = some v ∧ g = f.commit n v) :
    g.insertFinalValue n v = some (f.commit n v) := by
  obtain ⟨entry, here, value⟩ := bind_eq_some_iff.mp result
  have found := (entryAt_eq field).symm.trans here
  unfold insertFinalValue
  rcases onTheWay with rfl | ⟨w, result', rfl⟩
  · rw [found]
    cases entry with
    | estimate entry => cases value
    | value w change =>
      obtain rfl : w = v := Option.some.inj value
      exact if_pos rfl
    | apply entry => rfl
  · obtain rfl : w = v := Option.some.inj (result'.symm.trans result)
    unfold commit
    simp only [find?_insert_self, if_true, insert_insert found]

/-- A step that starts with a field goes on with it. -/
theorem ensures_fieldOr {α : Type} (field : d'.values id = some g)
    {e : PanicOr CommitError} {next : VersionedField K → Commit K α}
    {Q : Except (PanicOr CommitError) α → VersionedDelayedFields K → Prop}
    (rest : Ensures (next g) d' Q) : Ensures (fieldOr id e >>= next) d' Q := by
  rw [ensures_bind]
  unfold Ensures
  rw [exec_fieldOr field]
  exact rest

/-- A delta on the value before: its result, or the failure of the commit. -/
theorem commitDelta_cases {delta : DeltaOp} (wellFormed : delta.WellFormed) (unreadable : String)
    (a : Nat) : (∃ w, commitDelta unreadable delta (.ok (.aggregator a)) = .ok w ∧
      delta.applyTo a = .ok w) ∨
    ∃ message e, commitDelta unreadable delta (.ok (.aggregator a)) =
      .error (.or (.reExecutionNeeded message)) ∧ delta.applyTo a = .error e := by
  unfold commitDelta
  rcases DeltaOp.applyTo_spec wellFormed a with ⟨w, applied, -⟩ | ⟨⟨e, failed⟩, -⟩
  · refine .inl ⟨w, ?_, applied⟩
    simp only [applied]
    rfl
  · refine .inr ⟨"Failed to apply delta to base", .or e, ?_, failed⟩
    simp only [failed]
    rfl

/-- A delta on the value before is committed, or refuses the commit. -/
theorem delta_ensures {α : Type} (ready : d.Ready kind n) {baseAggregator : K} {delta : DeltaOp}
    (isDelta : d.DeltaOn n id baseAggregator delta) (wellFormed : delta.WellFormed)
    (isAggregator : kind baseAggregator = .aggregator)
    (known : (d.valueBefore n baseAggregator).isSome)
    (before : g.valueBefore n = d.valueBefore n baseAggregator) {unreadable : String}
    {next : Nat → Commit K α} {P : α → VersionedDelayedFields K → Prop}
    (rest : ∀ w, delta.appliedTo (d.valueBefore n baseAggregator) = some w →
      Ensures (next w) d' (Post P fun e _ => d.Refused n e)) :
    Ensures (.check (commitDelta unreadable delta (g.readLatestPredictedValue n)) >>= next)
      d' (Post P fun e _ => d.Refused n e) := by
  obtain ⟨a, isBefore⟩ := ready.aggregator_before isAggregator known
  rw [readLatestPredictedValue_of_valueBefore (before.trans isBefore)]
  rcases commitDelta_cases wellFormed unreadable a with
    ⟨w, ok, applied⟩ | ⟨message, e, error, fails⟩
  · rw [ok]
    refine ensures_check_bind nofun fun _ same => ?_
    cases same
    refine rest w ?_
    rw [isBefore]
    exact DeltaOp.appliedTo_eq_some.mpr applied
  · rw [error]
    refine ensures_check_bind (fun _ same => ?_) nofun
    cases same
    exact ⟨⟨message, rfl⟩, id, baseAggregator, delta, a, e, isDelta, isBefore, fails⟩

/-- What the first pass does with a field: it puts the result, or leaves the field to a later
pass. -/
def Handles (d d' : VersionedDelayedFields K) (n : Nat) (id : K) (todo todo' : Todo K)
    (d'' : VersionedDelayedFields K) : Prop :=
  (todo' = todo ∧ Puts d d' d'' n id) ∨
  (d'' = d' ∧ ∃ baseAggregator delta,
    d.entryAt n id = some (.apply (.snapshotDelta baseAggregator delta)) ∧
    todo' = { todo with deltas := todo.deltas ++ [(id, baseAggregator, delta)] }) ∨
  (d'' = d' ∧ ∃ baseSnapshot formula,
    d.entryAt n id = some (.apply (.snapshotDerived baseSnapshot formula)) ∧
    todo' = { todo with derived := todo.derived ++ [(id, baseSnapshot, formula)] })

/-- After the first pass: fields have their results or are left for a later pass. -/
structure FirstPass (d : VersionedDelayedFields K) (n : Nat) (done : List K) (todo : Todo K)
    (d' : VersionedDelayedFields K) : Prop where
  between : d.Between d' n
  deltas : ∀ item ∈ todo.deltas,
    d.entryAt n item.1 = some (.apply (.snapshotDelta item.2.1 item.2.2))
  derived : ∀ item ∈ todo.derived,
    d.entryAt n item.1 = some (.apply (.snapshotDerived item.2.1 item.2.2))
  covered : ∀ id ∈ done, d.Final d' n id ∨ (∃ item ∈ todo.deltas, item.1 = id) ∨
    ∃ item ∈ todo.derived, item.1 = id

theorem FirstPass.step {done : List K} {todo todo' : Todo K} (pass : FirstPass d n done todo d')
    (handles : d.Handles d' n id todo todo' d'') : FirstPass d n (done ++ [id]) todo' d'' := by
  rcases handles with ⟨rfl, puts⟩ | ⟨rfl, baseAggregator, delta, here, rfl⟩ |
    ⟨rfl, baseSnapshot, formula, here, rfl⟩
  · refine ⟨puts.between, pass.deltas, pass.derived,
      forall_mem_concat (fun other before => ?_) (.inl puts.put)⟩
    rcases pass.covered other before with final | later
    · exact .inl (puts.keeps other final)
    · exact .inr later
  · refine ⟨pass.between, forall_mem_concat pass.deltas here, pass.derived,
      forall_mem_concat (fun other before => ?_) ?_⟩
    · rcases pass.covered other before with final | ⟨item, there, same⟩ | later
      · exact .inl final
      · exact .inr (.inl ⟨item, mem_append_left _ there, same⟩)
      · exact .inr (.inr later)
    · exact .inr (.inl ⟨_, mem_append_right _ mem_cons_self, rfl⟩)
  · refine ⟨pass.between, pass.deltas, forall_mem_concat pass.derived here,
      forall_mem_concat (fun other before => ?_) ?_⟩
    · rcases pass.covered other before with final | later | ⟨item, there, same⟩
      · exact .inl final
      · exact .inr (.inl later)
      · exact .inr (.inr ⟨item, mem_append_left _ there, same⟩)
    · exact .inr (.inr ⟨_, mem_append_right _ mem_cons_self, rfl⟩)

/-- In a later pass: the results so far stay, and those of the items before have been put. -/
structure LaterPass {β : Type} (d d' : VersionedDelayedFields K) (n : Nat) (done : List (K × β))
    (d'' : VersionedDelayedFields K) : Prop where
  between : d.Between d'' n
  keeps : ∀ id, d.Final d' n id → d.Final d'' n id
  put : ∀ item ∈ done, d.Final d'' n item.1

theorem LaterPass.step {β : Type} {done : List (K × β)} {item : K × β}
    {e e' : VersionedDelayedFields K} (pass : LaterPass d d' n done e)
    (puts : Puts d e e' n item.1) : LaterPass d d' n (done ++ [item]) e' := by
  refine ⟨puts.between, fun id final => puts.keeps id (pass.keeps id final), ?_⟩
  exact forall_mem_concat (fun other before => puts.keeps _ (pass.put other before)) puts.put

/-- The snapshot that a string is of, after the second pass. -/
theorem snapshot_on_the_way (ready : d.Ready kind n) (between : d.Between d' n)
    (isSnapshot : kind id = .snapshot)
    (final : (d.entryAt n id).isSome → d.Final d' n id)
    (present : (d.entryAt n id).isSome ∨ (d.valueBefore n id).isSome) : ∃ g value,
      d'.values id = some g ∧ g.valueBefore (n + 1) = some (.snapshot value) ∧
      d.snapshotAfter n id = some (.snapshot value) := by
  cases here : d.entryAt n id with
  | none =>
    rw [here] at present
    rcases present with impossible | known
    · cases impossible
    obtain ⟨v, before⟩ := isSome_iff_exists.mp known
    have sameKind := (ready.kind_of_valueBefore before).trans isSnapshot
    obtain ⟨f, field, isBefore⟩ := bind_eq_some_iff.mp before
    obtain ⟨g, field', -, rfl | ⟨w, result, -⟩⟩ := between.field field
    · have missing := (entryAt_eq field).symm.trans here
      cases v with
      | aggregator | derived => cases sameKind
      | snapshot value =>
        refine ⟨g, value, field', ?_, ?_⟩
        · rw [VersionedField.valueBefore, entriesBelow_succ_of_missing missing]
          exact isBefore
        · rw [snapshotAfter, here]
          exact before
    · rw [executed, here] at result
      cases result
  | some entry =>
    obtain ⟨w, result, onTheWay⟩ := final (by rw [here]; rfl)
    obtain ⟨g, field', found⟩ := bind_eq_some_iff.mp onTheWay
    rw [executed_of_entry here] at result
    have known : g.valueBefore (n + 1) = some w := by
      rw [VersionedField.valueBefore, entriesBelow_succ_of_find? found]
      rfl
    have after : ∀ value, w = .snapshot value → d.executedDelta n id entry = some w → ∃ g value,
        d'.values id = some g ∧ g.valueBefore (n + 1) = some (.snapshot value) ∧
        d.snapshotAfter n id = some (.snapshot value) := by
      rintro value rfl executed
      refine ⟨g, value, field', known, ?_⟩
      rw [snapshotAfter, here]
      exact executed
    rcases ready.snapshotEntry here isSnapshot with
      ⟨v, change, rfl, sameKind⟩ | ⟨baseAggregator, delta, rfl, -⟩
    · obtain rfl : v = w := Option.some.inj result
      cases v with
      | snapshot value => exact after value rfl result
      | _ => cases sameKind
    · obtain ⟨value, -, isValue⟩ := Option.map_eq_some_iff.mp result
      exact after value isValue.symm result

section

variable [DecidableEq K]

theorem values_setField (other : K) (g : VersionedField K) :
    (d.setField id g).values other = if other = id then some g else d.values other :=
  update_apply _ _ _ _

theorem Between.puts (between : d.Between d' n) (field : d.values id = some f)
    (result : d.executed n id = some v) :
    Puts d d' (d'.setField id (f.commit n v)) n id := by
  have entries : ∀ other, (d'.setField id (f.commit n v)).entryAt n other =
      if other = id then some (.value v none) else d'.entryAt n other := by
    intro other
    rw [entryAt, values_setField]
    split
    · exact find?_insert_self
    · rfl
  refine ⟨⟨between.next, fun other => ?_⟩, ⟨v, result, ?_⟩, fun other final => ?_⟩
  · rw [values_setField]
    split
    · rename_i same
      rw [same]
      exact .inr ⟨f, v, field, result, rfl⟩
    · exact between.fields other
  · rw [entries, if_pos rfl]
  · obtain ⟨w, result', here⟩ := final
    refine ⟨w, result', ?_⟩
    rw [entries]
    split
    · rename_i same
      subst same
      rw [Option.some.inj (result'.symm.trans result)]
    · exact here

theorem insertFinal_ensures (between : d.Between d' n) (result : d.executed n id = some v)
    {F : PanicOr CommitError → VersionedDelayedFields K → Prop} :
    Ensures (insertFinal id n v) d' (Post (fun _ d'' => Puts d d' d'' n id) F) := by
  obtain ⟨entry, here, -⟩ := bind_eq_some_iff.mp result
  obtain ⟨f, field, -⟩ := bind_eq_some_iff.mp here
  obtain ⟨g, field', -, onTheWay⟩ := between.field field
  have executes : (insertFinal id n v).exec d' = (.ok (), d'.setField id (f.commit n v)) := by
    unfold insertFinal
    rw [exec_bind, exec_fieldOr field']
    simp only [exec_bind, exec_check, insertFinalValue_eq field result onTheWay, exec_modify]
  unfold Ensures
  rw [executes]
  exact between.puts field result

/-! ## The passes -/

section

variable (ready : d.Ready kind n)

include ready

/-- One step of the first pass. -/
theorem commitField_ensures (between : d.Between d' n)
    {entry : VersionEntry K} (here : d.entryAt n id = some entry) (todo : Todo K) :
    Ensures (commitField n todo id) d'
      (Post (d.Handles d' n id todo) fun e _ => d.Refused n e) := by
  obtain ⟨f, field, found⟩ := bind_eq_some_iff.mp here
  obtain ⟨g, field', before, onTheWay⟩ := between.field field
  refine ensures_fieldOr field' ?_
  rcases onTheWay with rfl | ⟨w, result, rfl⟩
  · have onWay : d'.entryAt n id = some entry := (entryAt_eq field').trans found
    rw [found]
    cases entry with
    | estimate entry => exact (ready.entries here).elim
    | value w change =>
      have result : d.executed n id = some w := executed_of_entry here
      cases change with
      | none =>
        exact .inl ⟨rfl, between, ⟨w, result, onWay⟩, fun _ final => final⟩
      | some change =>
        exact (insertFinal_ensures between result).then fun _ d'' puts =>
          .inl ⟨rfl, puts⟩
    | apply entry =>
      have ofKind := ready.entries here
      cases entry with
      | aggregatorDelta delta =>
        obtain ⟨L, deltas⟩ := ready.deltas id
        refine delta_ensures ready (.inl ⟨here, rfl⟩) (deltas here).1 ofKind
          (ready.aggregatorBefore here) (valueBefore_eq field).symm fun w applied => ?_
        have result : d.executed n id = some (.aggregator w) := by
          rw [executed_of_entry here]
          exact congrArg (Option.map DelayedFieldValue.aggregator) applied
        exact (insertFinal_ensures between result).then fun _ d'' puts =>
          .inl ⟨rfl, puts⟩
      | snapshotDelta baseAggregator delta =>
        exact .inr (.inl ⟨rfl, baseAggregator, delta, here, rfl⟩)
      | snapshotDerived baseSnapshot formula =>
        exact .inr (.inr ⟨rfl, baseSnapshot, formula, here, rfl⟩)
  · have replaced : (f.commit n w).versionedMap.find? n = some (.value w none) :=
      find?_insert_self
    rw [replaced]
    exact .inl ⟨rfl, between, ⟨w, result, (entryAt_eq field').trans replaced⟩, fun _ final => final⟩

/-- One step of the second pass. -/
theorem commitSnapshot_ensures (between : d.Between d' n) {baseAggregator : K} {delta : DeltaOp}
    (here : d.entryAt n id = some (.apply (.snapshotDelta baseAggregator delta))) :
    Ensures (commitSnapshot n (id, baseAggregator, delta)) d'
      (Post (fun _ d'' => Puts d d' d'' n id) fun e _ => d.Refused n e) := by
  have known := ready.snapshotBefore here
  obtain ⟨v, before⟩ := isSome_iff_exists.mp known
  obtain ⟨f, field, isBefore⟩ := bind_eq_some_iff.mp before
  obtain ⟨g, field', same, -⟩ := between.field field
  refine ensures_fieldOr field' ?_
  refine delta_ensures ready (.inr here) (ready.snapshotDeltas here) (ready.entries here).2
    known (same.trans (valueBefore_eq field).symm) fun w applied => ?_
  refine insertFinal_ensures between ?_
  rw [executed_of_entry here]
  exact congrArg (Option.map DelayedFieldValue.snapshot) applied

/-- One step of the third pass. -/
theorem commitString_ensures (between : d.Between d' n)
    {baseSnapshot : K} {formula : SnapshotToStringFormula}
    (here : d.entryAt n id = some (.apply (.snapshotDerived baseSnapshot formula)))
    (final : (d.entryAt n baseSnapshot).isSome → d.Final d' n baseSnapshot) :
    Ensures (commitString n (id, baseSnapshot, formula)) d'
      (Post (fun _ d'' => Puts d d' d'' n id) fun e _ => d.Refused n e) := by
  obtain ⟨g, value, field, before, after⟩ := snapshot_on_the_way ready between
    (ready.entries here).2 final (ready.derivedBefore here)
  refine ensures_fieldOr field ?_
  rw [readLatestPredictedValue_of_valueBefore before]
  refine ensures_check_bind (fun e failed => ?_) fun text result => ?_
  · cases failed
  · cases result
    refine insertFinal_ensures between ?_
    rw [executed_of_entry here, executedEntry, after]

/-! ## The commit -/

/-- The commit of a transaction with all of its entries: it puts every result, or a delta does
not apply. -/
theorem tryCommit_ensures {ids : List K} (listed : ∀ id, id ∈ ids ↔ (d.entryAt n id).isSome) :
    Ensures (tryCommit n ids) d (Post (fun _ d'' => ∃ d', d.Between d' n ∧
      (∀ id ∈ ids, d.Final d' n id) ∧
      d'' = { d' with nextIdxToCommit := d'.nextIdxToCommit + 1 }) fun e _ => d.Refused n e) := by
  unfold tryCommit
  rw [ensures_get_bind]
  refine ensures_check_bind (fun e failed => ?_) fun _ _ => ?_
  · rw [ensure, if_pos ready.next.symm] at failed
    cases failed
  refine (Ensures.foldlM (I := FirstPass d n) (fun done id todo d' mem pass => ?_) ?_).then
    fun todo d₁ first => ?_
  · obtain ⟨entry, here⟩ := isSome_iff_exists.mp ((listed id).mp mem)
    refine (commitField_ensures ready pass.between here todo).imp fun outcome d'' post => ?_
    cases outcome with
    | error e => exact post
    | ok todo' => exact pass.step post
  · exact ⟨.refl, forall_mem_nil _, forall_mem_nil _, forall_mem_nil _⟩
  refine (Ensures.forM (I := LaterPass d d₁ n) (fun done item d' mem pass => ?_) ?_).then
    fun _ d₂ second => ?_
  · refine (commitSnapshot_ensures ready pass.between (first.deltas item mem)).imp
      fun outcome d'' post => ?_
    cases outcome with
    | error e => exact post
    | ok _ => exact pass.step post
  · exact ⟨first.between, fun _ final => final, forall_mem_nil _⟩
  have covered : ∀ id ∈ ids, d.Final d₂ n id ∨ ∃ item ∈ todo.derived, item.1 = id := by
    intro id mem
    rcases first.covered id mem with final | ⟨item, there, rfl⟩ | later
    · exact .inl (second.keeps id final)
    · exact .inl (second.put item there)
    · exact .inr later
  refine (Ensures.forM (I := LaterPass d d₂ n) (fun done item d' mem pass => ?_) ?_).then
    fun _ d₃ third => ?_
  · have here := first.derived item mem
    refine (commitString_ensures ready pass.between here fun present => ?_).imp
      fun outcome d'' post => ?_
    · -- the snapshot has an entry of its own kind, which is no string
      rcases covered _ ((listed _).mpr present) with final | ⟨other, there, same⟩
      · exact pass.keeps _ final
      have isDerived := (ready.entries (first.derived other there)).1
      have isSnapshot := (ready.entries here).2
      rw [same, isSnapshot] at isDerived
      cases isDerived
    · cases outcome with
      | error e => exact post
      | ok _ => exact pass.step post
  · exact ⟨second.between, fun _ final => final, forall_mem_nil _⟩
  refine ⟨d₃, third.between, fun id mem => ?_, rfl⟩
  rcases covered id mem with final | ⟨item, there, rfl⟩
  · exact third.keeps id final
  · exact third.put item there

end

/-! ## The result -/

theorem readCheckedDepth_congr (values : d'.values = d.values) (more : Nat) (id : K) (m : Nat) :
    d'.readCheckedDepth more id m = d.readCheckedDepth more id m := by
  induction more generalizing id m with
  | zero =>
    change d'.readField id m none = d.readField id m none
    unfold readField
    rw [values]
  | succ more ih =>
    have recurse : d'.readCheckedDepth more = d.readCheckedDepth more := by
      funext other idx
      exact ih other idx
    change d'.readField id m (some _) = d.readField id m (some _)
    unfold readField
    rw [values, recurse]

/-- A commit of transaction `n` needs a new execution exactly if a delta does not apply to the
value before `n`; otherwise it puts the sequential results, changes nothing else, and no read
sees it. -/
theorem commit_sequential (ready : d.Ready kind n) {ids : List K}
    (listed : ∀ id, id ∈ ids ↔ (d.entryAt n id).isSome) :
    ((∃ message, ((tryCommit n ids).exec d).1 = .error (.or (.reExecutionNeeded message))) ↔
      d.DeltaFails n) ∧
    (¬ d.DeltaFails n →
      ((tryCommit n ids).exec d).1 = .ok () ∧
      ((tryCommit n ids).exec d).2.nextIdxToCommit = d.nextIdxToCommit + 1 ∧
      (∀ id, (d.entryAt n id).isSome → ∃ v, d.executed n id = some v ∧
        ((tryCommit n ids).exec d).2.entryAt n id = some (.value v none)) ∧
      (∀ id, d.entryAt n id = none → ((tryCommit n ids).exec d).2.entryAt n id = none) ∧
      (∀ id m, m ≠ n → ((tryCommit n ids).exec d).2.entryAt m id = d.entryAt m id) ∧
      ∀ id m, ((tryCommit n ids).exec d).2.read id m = d.read id m) := by
  have ensures := tryCommit_ensures ready listed
  unfold Ensures at ensures
  generalize (tryCommit n ids).exec d = outcome at ensures
  obtain ⟨result, d''⟩ := outcome
  cases result with
  | error e =>
    obtain ⟨⟨message, rfl⟩, fails⟩ := ensures
    exact ⟨⟨fun _ => fails, fun _ => ⟨message, rfl⟩⟩, fun applies => absurd fails applies⟩
  | ok _ =>
    obtain ⟨d', between, final, rfl⟩ := ensures
    have all : ∀ id, (d.entryAt n id).isSome → d.Final d' n id := fun id present =>
      final id ((listed id).mpr present)
    refine ⟨⟨fun failed => ?_, fun fails => absurd fails (applies_of_final all)⟩, fun _ =>
      ⟨rfl, congrArg (· + 1) between.next, all, fun id missing =>
        between.entryAt_of_missing missing, fun id m ne => between.entryAt_of_ne ne id,
        fun id m => ?_⟩⟩
    · obtain ⟨message, impossible⟩ := failed
      cases impossible
    · exact (readCheckedDepth_congr rfl 3 id m).trans (between.read_eq ready id m)

end

end VersionedDelayedFields

/-! ### A delta without a value before it -/

/-- One more, up to ten. -/
def increment : DeltaOp := ⟨⟨1, 0, none, none⟩, 10, .positive 1⟩

theorem increment_wellFormed : increment.WellFormed where
  tight := ⟨(fun c mem => nomatch mem), fun c mem => nomatch mem⟩
  upper := by decide
  lower := by decide

namespace OrphanDelta

open VersionedDelayedFields

def field : VersionedField Unit :=
  ⟨OrderedMap.empty.insert 0 (.apply (.aggregatorDelta increment)), none, true⟩

def fields : VersionedDelayedFields Unit := ⟨fun _ => some field, 0⟩

theorem entryAt_eq_some {i : Nat} {id : Unit} {entry : VersionEntry Unit}
    (here : fields.entryAt i id = some entry) :
    i = 0 ∧ entry = .apply (.aggregatorDelta increment) := by
  change field.versionedMap.find? i = some entry at here
  rw [field, find?_insert] at here
  split at here
  · exact ⟨‹_›, (Option.some.inj here).symm⟩
  · cases here

theorem prepared : fields.Prepared (fun _ => .aggregator) 0 where
  next := rfl
  base := by
    intro id f v isField known
    cases isField
    cases known
  entries := by
    intro id i entry here
    rw [(entryAt_eq_some here).2]
    rfl
  settled := by
    intro id i entry here lt
    cases lt
  deltas := fun id => ⟨10, by
    intro i delta here
    cases (entryAt_eq_some here).2
    exact ⟨increment_wellFormed, rfl⟩⟩
  snapshotDeltas := by
    intro id i baseAggregator delta here
    cases (entryAt_eq_some here).2
  snapshotPresent := by
    intro id baseAggregator delta here
    cases (entryAt_eq_some here).2
  derivedPresent := by
    intro id baseSnapshot formula here
    cases (entryAt_eq_some here).2

/-- The commit neither succeeds nor asks for a new execution. -/
theorem commit_broken : fields.Prepared (fun _ => .aggregator) 0 ∧
    (∀ id, id ∈ [()] ↔ (fields.entryAt 0 id).isSome) ∧
    ((tryCommit 0 [()]).exec fields).1 = .error (.or (.codeInvariantError
      "Cannot read latest committed value for Apply(AggregatorDelta) during commit")) :=
  ⟨prepared, fun _ => ⟨fun _ => rfl, fun _ => mem_cons_self⟩, rfl⟩

end OrphanDelta

/-! ### An aggregator, its snapshot and a string of it -/

namespace SnapshotOfTotal

open VersionedDelayedFields

inductive Name where
  | total
  | snap
  | text
  deriving DecidableEq

def kind : Name → FieldKind
  | .total => .aggregator
  | .snap => .snapshot
  | .text => .derived

def recorded : Except (PanicOr MVDelayedFieldsError) (VersionedDelayedFields Name) := do
  let d := VersionedDelayedFields.empty.setBaseValue .total (.aggregator 5)
  let d ← d.recordChange .total 0 (.apply (.aggregatorDelta increment))
  let d ← d.recordChange .total 1 (.apply (.aggregatorDelta increment))
  let d ← d.recordChange .snap 0 (.apply (.snapshotDelta .total increment))
  d.recordChange .text 0 (.apply (.snapshotDerived .snap (.concat [65] [])))

def fields : VersionedDelayedFields Name := recorded.toOption.getD .empty

/-- The entries that have been recorded. -/
def Recorded (id : Name) (i : Nat) (entry : VersionEntry Name) : Prop :=
  match id with
  | .total => (i = 0 ∨ i = 1) ∧ entry = .apply (.aggregatorDelta increment)
  | .snap => i = 0 ∧ entry = .apply (.snapshotDelta .total increment)
  | .text => i = 0 ∧ entry = .apply (.snapshotDerived .snap (.concat [65] []))

theorem entryAt_eq_some {id : Name} {i : Nat} {entry : VersionEntry Name}
    (here : fields.entryAt i id = some entry) : Recorded id i entry := by
  cases id with
  | total =>
    change ((empty.insert 0 (.apply (.aggregatorDelta increment))).insert 1
      (.apply (.aggregatorDelta increment))).find? i = some entry at here
    rw [find?_insert, find?_insert] at here
    split at here
    · rename_i one
      exact ⟨.inr one, (Option.some.inj here).symm⟩
    · split at here
      · rename_i zero
        exact ⟨.inl zero, (Option.some.inj here).symm⟩
      · cases here
  | snap | text =>
    change (empty.insert 0 _).find? i = some entry at here
    rw [find?_insert] at here
    split at here
    · rename_i zero
      exact ⟨zero, (Option.some.inj here).symm⟩
    · cases here

theorem ready : fields.Ready kind 0 where
  next := rfl
  base := by
    intro id f v isField known
    cases id with
    | total =>
      cases isField
      cases known
      rfl
    | snap | text =>
      cases isField
      cases known
  entries := by
    intro id i entry here
    have is := entryAt_eq_some here
    cases id with
    | total =>
      rw [is.2]
      rfl
    | snap | text =>
      rw [is.2]
      exact ⟨rfl, rfl⟩
  settled := by
    intro id i entry here lt
    cases lt
  deltas := fun id => ⟨10, by
    intro i delta here
    have is := entryAt_eq_some here
    cases id with
    | total =>
      cases is.2
      exact ⟨increment_wellFormed, rfl⟩
    | snap | text => cases is.2⟩
  snapshotDeltas := by
    intro id i baseAggregator delta here
    have is := entryAt_eq_some here
    cases id with
    | snap =>
      cases is.2
      exact increment_wellFormed
    | total | text => cases is.2
  snapshotPresent := by
    intro id baseAggregator delta here
    have is := entryAt_eq_some here
    cases id with
    | snap =>
      cases is.2
      exact ⟨_, rfl, .inl rfl⟩
    | total | text => cases is.2
  derivedPresent := by
    intro id baseSnapshot formula here
    have is := entryAt_eq_some here
    cases id with
    | total | snap => cases is.2
    | text =>
      cases is.2
      exact ⟨_, rfl, .inr ⟨0, zero_lt_one, rfl⟩⟩
  deltaPresent := by
    intro id delta here
    have is := entryAt_eq_some here
    cases id with
    | total => exact ⟨_, rfl, .inl rfl⟩
    | snap | text => cases is.2

theorem listed (id : Name) : id ∈ [.text, .total, .snap] ↔ (fields.entryAt 0 id).isSome := by
  cases id with
  | _ => decide

/-- The commit of transaction 0 makes the aggregator 6, and so is its snapshot; the delta of
transaction 1 is read as before. -/
theorem committed : ¬ fields.DeltaFails 0 ∧
    fields.executed 0 .snap = some (.snapshot 6) ∧ fields.read .total 2 = .ok (.aggregator 7) ∧
    ((tryCommit 0 [Name.text, .total, .snap]).exec fields).2.read .total 2 =
      .ok (.aggregator 7) := by
  have applies : ¬ fields.DeltaFails 0 := by
    intro fails
    obtain ⟨message, failed⟩ := (commit_sequential ready listed).1.mpr fails
    cases failed
  exact ⟨applies, rfl, rfl, ((commit_sequential ready listed).2 applies).2.2.2.2.2 .total 2⟩

end SnapshotOfTotal

end CreditChain
