import CreditChain.Lib.ReadTracking
import CreditChain.MVHashMap.VersionedGroupData

/-!
# Entries and their readers

The entries of a key and the sizes of a group are cells that remember their readers, and each
call is one of the operations of such cells.
-/

namespace CreditChain

open OrderedMap Function ShiftedTxnIndex List Option Nat

open ReadTracking (Cell Sees Tracked)

/-! ## The entries of a key -/

variable {i : Nat} {dependencies returned : Dependencies}

open VersionedValue

section

variable {V Layout Meta : Type} [TransactionWrite V Meta]

/-- The same value, or the same metadata if only metadata count. -/
def ValueWithLayout.Agrees (onlyCompareMetadata : Bool) (read now : ValueWithLayout V Layout) :
    Prop :=
  read = now ∨ onlyCompareMetadata = true ∧ ∃ a la b lb, read = .exchanged a la ∧
    now = .exchanged b lb ∧
    TransactionWrite.asStateValueMetadata a = TransactionWrite.asStateValueMetadata b

/-- A stored value that has been read counts as the exchanged form that has replaced it. -/
def ValueWithLayout.Counts (onlyCompareMetadata : Bool) (exchanges : List (V × V × Option Layout))
    (read now : ValueWithLayout V Layout) : Prop :=
  Agrees onlyCompareMetadata read now ∨ ∃ exchange ∈ exchanges, read = .rawFromStorage exchange.1 ∧
    Agrees onlyCompareMetadata (.exchanged exchange.2.1 exchange.2.2) now

variable {only : Bool} {exchanges : List (V × V × Option Layout)}
  {v v' : VersionedValue V Layout} {reads : Set ((Nat × Nat) × ValueWithLayout V Layout)}

namespace ValueWithLayout

variable {w w' : ValueWithLayout V Layout} {a b : V} {la lb : Option Layout}

theorem Counts.more (counts : Counts only exchanges w w') (more : List (V × V × Option Layout)) :
    Counts only (more ++ exchanges) w w' := by
  rcases counts with agrees | ⟨exchange, mem, isRaw, agrees⟩
  · exact .inl agrees
  · exact .inr ⟨exchange, mem_append_right _ mem, isRaw, agrees⟩

theorem Counts.refl (w : ValueWithLayout V Layout) : Counts only exchanges w w :=
  Or.inl (Or.inl rfl)

/-- Readers of a value that has not been exchanged have read just that. -/
theorem Counts.of_raw {raw : V} (counts : Counts only exchanges w (.rawFromStorage raw)) :
    w = .rawFromStorage raw := by
  rcases counts with (same | ⟨-, a, la, b, lb, -, impossible, -⟩) |
    ⟨exchange, mem, isRaw, impossible | ⟨-, a, la, b, lb, -, impossible, -⟩⟩
  · exact same
  all_goals cases impossible

section

variable [DecidableEq V] [DecidableEq Meta]

theorem Agrees.trans_compare (agrees : Agrees only w (.exchanged a la))
    (passed : compareValuesAndLayouts only a b la lb = true) :
    Agrees only w (.exchanged b lb) := by
  unfold compareValuesAndLayouts at passed
  cases only with
  | false =>
    rw [if_neg Bool.false_ne_true, Bool.and_eq_true, Bool.and_eq_true, isNone_iff_eq_none,
      isNone_iff_eq_none, beq_iff_eq] at passed
    obtain ⟨⟨rfl, rfl⟩, rfl⟩ := passed
    exact agrees
  | true =>
    rw [if_pos rfl, beq_iff_eq] at passed
    rcases agrees with rfl | ⟨-, x, lx, y, ly, rfl, same, equal⟩
    · exact .inr ⟨rfl, a, la, b, lb, rfl, rfl, passed⟩
    · cases same
      exact .inr ⟨rfl, x, lx, b, lb, rfl, rfl, equal.trans passed⟩

theorem Counts.trans_compare (counts : Counts only exchanges w (.exchanged a la))
    (passed : compareValuesAndLayouts only a b la lb = true) :
    Counts only exchanges w (.exchanged b lb) := by
  rcases counts with agrees | ⟨exchange, mem, raw, agrees⟩
  · exact .inl (agrees.trans_compare passed)
  · exact .inr ⟨exchange, mem, raw, agrees.trans_compare passed⟩

theorem compare_symm : compareValuesAndLayouts only a b la lb =
    compareValuesAndLayouts only b a lb la := by
  unfold compareValuesAndLayouts
  cases only with
  | false =>
    rw [if_neg Bool.false_ne_true, if_neg Bool.false_ne_true, Bool.and_comm la.isNone,
      Bool.beq_comm]
  | true => rw [if_pos rfl, if_pos rfl, Bool.beq_comm]

end

end ValueWithLayout

open ValueWithLayout (Counts)

namespace VersionedValue

/-- The entries as cells with readers. -/
def cells (v : VersionedValue V Layout) (i : Nat) : Option (Cell (ValueWithLayout V Layout)) :=
  match v.versionedMap.find? i with
  | some ⟨.resourceWrite _ value dependencies, _⟩ => some ⟨value, dependencies⟩
  | _ => none

/-- No deltas and no estimates. -/
def Plain (v : VersionedValue V Layout) : Prop :=
  ∀ i entry, v.versionedMap.find? i = some entry →
    ∃ incarnation value dependencies, entry = newWriteEntry incarnation value dependencies

variable {incarnation : Nat} {value : ValueWithLayout V Layout}

theorem cells_of_find?
    (found : v.versionedMap.find? i = some (newWriteEntry incarnation value dependencies)) :
    v.cells i = some ⟨value, dependencies⟩ := by
  unfold cells
  rw [found]
  rfl

theorem cells_of_missing (missing : v.versionedMap.find? i = none) : v.cells i = none := by
  unfold cells
  rw [missing]

theorem Plain.insert (plain : v.Plain) :
    Plain ⟨v.versionedMap.insert i (newWriteEntry incarnation value dependencies)⟩ := by
  intro j entry found
  rw [find?_insert] at found
  split at found
  · cases found
    exact ⟨incarnation, value, dependencies, rfl⟩
  · exact plain j entry found

theorem Plain.erase (plain : v.Plain) (i : Nat) : Plain ⟨v.versionedMap.erase i⟩ := by
  intro j entry found
  rw [find?_erase] at found
  split at found
  · cases found
  · exact plain j entry found

theorem cells_insert :
    cells ⟨v.versionedMap.insert i (newWriteEntry incarnation value dependencies)⟩ =
      update v.cells i (some ⟨value, dependencies⟩) := by
  funext j
  unfold cells
  rw [find?_insert, update_apply]
  split_ifs
  · rfl
  · rfl

theorem cells_erase : cells ⟨v.versionedMap.erase i⟩ = update v.cells i none := by
  funext j
  unfold cells
  rw [find?_erase, update_apply]
  split_ifs
  · rfl
  · rfl

variable {p t inc : Nat}

/-- The latest entry below a bound is what a reader of the position before sees. -/
theorem Plain.sees_of_lastBelow (plain : v.Plain) {entry : MVEntry (EntryCell V Layout)}
    (found : v.versionedMap.lastBelow (p + 1) = some (i, entry)) :
    ∃ incarnation c, entry = newWriteEntry incarnation c.value c.readers ∧ Sees v.cells p i c := by
  obtain ⟨here, lt, greatest⟩ := lastBelow_eq_some.mp found
  obtain ⟨incarnation, value, dependencies, rfl⟩ := plain i entry here
  refine ⟨incarnation, ⟨value, dependencies⟩, rfl, cells_of_find? here, Nat.lt_succ_iff.mp lt,
    fun j later upTo => cells_of_missing ?_⟩
  refine eq_none_iff_forall_ne_some.mpr fun other there => ?_
  exact absurd (greatest j other there (lt_succ_of_le upTo)) later.not_ge

theorem cells_eq_none_of_lastBelow
    (missing : v.versionedMap.lastBelow (p + 1) = none) : ∀ j ≤ p, v.cells j = none := fun j le =>
  cells_of_missing (lastBelow_eq_none.mp missing j (lt_succ_of_le le))

/-! ### Reads -/

theorem visible_head (v : VersionedValue V Layout) (r : Nat) :
    (v.visible r).head? = v.versionedMap.lastBelow (r + 1) := by
  unfold visible
  rw [head?_reverse]
  rfl

/-- Without deltas and estimates, a read returns the latest entry. -/
theorem Plain.readFrom_visible (plain : v.Plain) (r : Nat) :
    (readFrom none (v.visible r) = (.error (.or .uninitialized), none) ∧
      v.versionedMap.lastBelow (r + 1) = none) ∨
    ∃ i incarnation c, readFrom none (v.visible r) =
        (.ok (.versioned (version i incarnation) c.value), some i) ∧
      v.versionedMap.find? i = some (newWriteEntry incarnation c.value c.readers) ∧
      Sees v.cells r i c := by
  have head := visible_head v r
  generalize v.visible r = entries at head
  cases entries with
  | nil => exact .inl ⟨rfl, head.symm⟩
  | cons first rest =>
    obtain ⟨i, entry⟩ := first
    have found : v.versionedMap.lastBelow (r + 1) = some (i, entry) := head.symm
    obtain ⟨incarnation, c, rfl, sees⟩ := plain.sees_of_lastBelow found
    exact .inr ⟨i, incarnation, c, rfl, (lastBelow_eq_some.mp found).1, sees⟩

theorem record_eq {reader : Nat × Nat}
    (found : v.versionedMap.find? i = some (newWriteEntry incarnation value dependencies)) :
    v.record i reader = ⟨v.versionedMap.insert i
      (newWriteEntry incarnation value (insert reader dependencies))⟩ := by
  unfold record
  rw [found]
  rfl

theorem read_tracked (plain : v.Plain) (tracked : Tracked (Counts only exchanges) v.cells reads)
    (r inc : Nat) :
    ((v.read r (some inc)).1 = .error (.or .uninitialized) ∧ (v.read r (some inc)).2 = v) ∨
    ∃ version value, (v.read r (some inc)).1 = .ok (.versioned version value) ∧
      (v.read r (some inc)).2.Plain ∧
      Tracked (Counts only exchanges) (v.read r (some inc)).2.cells
        (insert ((r, inc), value) reads) := by
  unfold read
  rcases plain.readFrom_visible r with ⟨outcome, -⟩ | ⟨i, incarnation, c, outcome, found, sees⟩
  · rw [outcome]
    exact .inl ⟨rfl, rfl⟩
  rw [outcome]
  refine .inr ⟨_, c.value, rfl, ?_, ?_⟩
  · change (v.record i (r, inc)).Plain
    rw [record_eq found]
    exact plain.insert
  · change Tracked _ (v.record i (r, inc)).cells _
    rw [record_eq found, cells_insert]
    exact tracked.read (.refl _) sees

/-! ### Base values -/

/-- The stored value and the exchanged form, if a base value replaces a stored one. -/
def exchangeOf (v : VersionedValue V Layout) (base : ValueWithLayout V Layout) :
    List (V × V × Option Layout) :=
  match v.cells ShiftedTxnIndex.zeroIdx, base with
  | some ⟨.rawFromStorage raw, _⟩, .exchanged value layout => [(raw, value, layout)]
  | _, _ => []

theorem replaced_of_mergeBaseValue {existing base replaced : ValueWithLayout V Layout}
    (merged : VersionedData.mergeBaseValue existing base = .ok (some replaced)) :
    ∃ raw value layout, existing = .rawFromStorage raw ∧ base = .exchanged value layout ∧
      replaced = base := by
  cases existing with
  | rawFromStorage raw =>
    cases base with
    | rawFromStorage value =>
      cases of_check merged
    | exchanged value layout =>
      cases merged
      exact ⟨raw, value, layout, rfl, rfl, rfl⟩
  | exchanged value layout =>
    cases base with
    | rawFromStorage raw => cases merged
    | exchanged value layout =>
      have rest := of_check merged
      cases of_check rest

/-! ### Writes and removals -/

variable [DecidableEq V] [DecidableEq Meta] {layout : Option Layout}

/-- A write returns the readers that it does not keep. -/
theorem write_tracked (plain : v.Plain) (tracked : Tracked (Counts only exchanges) v.cells reads)
    {data : V} {affected : Dependencies} {passed : Bool} {split : VersionedValue V Layout}
    (splitOff : v.splitOffAffectedReadDependencies only t data layout = (affected, passed, split))
    (written : VersionedData.writeImpl split t inc (.exchanged data layout)
      (if passed then affected else ∅) = .ok v') :
    v'.Plain ∧ Tracked (Counts only exchanges) v'.cells
      {read ∈ reads | read.1 ∉ if passed then ∅ else affected} := by
  cases of_check written
  unfold splitOffAffectedReadDependencies at splitOff
  cases latest : v.versionedMap.lastBelow (new t + 1) with
  | none =>
    rw [latest] at splitOff
    cases splitOff
    refine ⟨plain.insert, ?_⟩
    rw [cells_insert]
    exact (tracked.write_fresh (cells_eq_none_of_lastBelow latest)).mono fun read mem => mem.1
  | some found =>
    obtain ⟨i, entry⟩ := found
    obtain ⟨incarnation, c, rfl, sees⟩ := plain.sees_of_lastBelow latest
    rw [latest] at splitOff
    cases splitOff
    have untouched : v.setDependencies i incarnation c.value false
        (c.readers.filter fun reader => ¬ t + 1 ≤ reader.1) =
        ⟨v.versionedMap.insert i (newWriteEntry incarnation c.value
          (c.readers.filter fun reader => ¬ t + 1 ≤ reader.1))⟩ := rfl
    rw [untouched]
    refine ⟨plain.insert.insert, ?_⟩
    rw [cells_insert, cells_insert]
    have affected : (c.readers.filter fun reader => t + 1 ≤ reader.1) = c.affected (t + 1) := rfl
    rw [affected]
    cases kept : decide (c.affected (t + 1)).Nonempty && c.value.passes only data layout with
    | true =>
      have passes := (Bool.and_eq_true_iff.mp kept).2
      refine (tracked.write sees (Finset.Subset.refl _) fun w counts _ => ?_).mono ?_
      · cases stored : c.value with
        | rawFromStorage raw =>
          rw [stored] at passes
          cases passes
        | exchanged previous previousLayout =>
          rw [stored] at passes counts
          exact counts.trans_compare passes
      · exact fun read mem => ⟨mem.1, id⟩
    | false =>
      refine (tracked.write sees (Finset.empty_subset _) fun w counts some => ?_).mono ?_
      · exact absurd some Finset.not_nonempty_empty
      · exact fun read mem => ⟨mem.1, fun returned => absurd returned mem.2⟩

theorem remove_tracked (plain : v.Plain)
    (tracked : Tracked (Counts only exchanges) v.cells reads) {data : V}
    (found : v.versionedMap.find? (new t) =
      some (newWriteEntry inc (.exchanged data layout) dependencies))
    {invalidated : Dependencies}
    (handled : handleRemovedDependencies only ⟨v.versionedMap.erase (new t)⟩ t
      dependencies data layout = (invalidated, v')) :
    v'.Plain ∧ Tracked (Counts only exchanges) v'.cells {read ∈ reads | read.1 ∉ invalidated} := by
  have here := cells_of_find? found
  have plainRest := plain.erase (new t)
  have given := tracked.remove_given here
  unfold handleRemovedDependencies at handled
  rw [← cells_erase] at given
  split at handled
  · rename_i none
    cases handled
    subst none
    exact ⟨plainRest, given⟩
  cases latest : (v.versionedMap.erase (new t)).lastBelow (new t + 1) with
  | none =>
    rw [latest] at handled
    cases handled
    exact ⟨plainRest, given⟩
  | some below =>
    obtain ⟨i, entry⟩ := below
    obtain ⟨incarnation, c, rfl, sees⟩ := plainRest.sees_of_lastBelow latest
    rw [latest] at handled
    change (if c.value.passes only data layout = true then _ else _) = _ at handled
    split at handled
    · rename_i passes
      cases handled
      have ne : i ≠ new t := by
        rintro rfl
        have there := (lastBelow_eq_some.mp latest).1
        rw [find?_erase_self] at there
        cases there
      have moved : setDependencies ⟨v.versionedMap.erase (new t)⟩ i incarnation c.value false
          (c.readers ∪ dependencies) = ⟨(v.versionedMap.erase (new t)).insert i
            (newWriteEntry incarnation c.value (c.readers ∪ dependencies))⟩ := rfl
      rw [moved]
      refine ⟨plainRest.insert, ?_⟩
      rw [cells_insert, cells_erase]
      rw [cells_erase] at sees
      refine (tracked.remove_kept here (lt_of_le_of_ne sees.le ne) sees
        fun w counts => ?_).mono fun read mem => mem.1
      cases stored : c.value with
      | rawFromStorage raw =>
        rw [stored] at passes
        cases passes
      | exchanged previous previousLayout =>
        rw [stored] at passes
        exact counts.trans_compare (ValueWithLayout.compare_symm.trans passes)
    · cases handled
      exact ⟨plainRest, given⟩

end VersionedValue

/-! ### The calls -/

namespace VersionedData

variable {K : Type} [DecidableEq K] {d d' : VersionedData K V Layout} {key : K}

section

variable (plain : (d.entryOrDefault key).Plain)

include plain

section

variable (tracked : Tracked (Counts only exchanges) (d.entryOrDefault key).cells reads)

include tracked

theorem fetchDataAndRecordDependency_tracked (r inc : Nat) :
    ((d.fetchDataAndRecordDependency key r inc).1 = .error (.or .uninitialized) ∧
      ((d.fetchDataAndRecordDependency key r inc).2.values = d.values)) ∨
    ∃ version value v', (d.fetchDataAndRecordDependency key r inc).1 =
        .ok (.versioned version value) ∧
      (d.fetchDataAndRecordDependency key r inc).2.values =
        update d.values key (some v') ∧
      v'.Plain ∧ Tracked (Counts only exchanges) v'.cells (insert ((r, inc), value) reads) := by
  unfold entryOrDefault at plain tracked
  unfold fetchDataAndRecordDependency
  cases known : d.values key with
  | none => exact .inl ⟨rfl, rfl⟩
  | some v =>
    rw [known, getD_some] at plain tracked
    rcases read_tracked plain tracked r inc with
      ⟨failed, same⟩ | ⟨version, value, result, plain', tracked'⟩
    · refine .inl ⟨failed, ?_⟩
      change update d.values key (some (v.read r (some inc)).2) = d.values
      rw [same, ← known, update_eq_self]
    · exact .inr ⟨version, value, _, result, rfl, plain', tracked'⟩

theorem setBaseValue_tracked {base : ValueWithLayout V Layout}
    (done : d.setBaseValue key base = .ok d') :
    ∃ v', d'.values = update d.values key (some v') ∧ v'.Plain ∧
      Tracked (Counts only ((d.entryOrDefault key).exchangeOf base ++ exchanges)) v'.cells
        reads := by
  have more := tracked.weaken fun w now counts =>
    ValueWithLayout.Counts.more counts ((d.entryOrDefault key).exchangeOf base)
  unfold setBaseValue at done
  cases found : (d.entryOrDefault key).versionedMap.find? zeroIdx with
  | none =>
    simp only [found] at done
    cases done
    refine ⟨_, rfl, plain.insert, ?_⟩
    rw [cells_insert]
    exact more.insert_first (cells_of_missing found)
  | some entry =>
    obtain ⟨incarnation, existing, dependencies, rfl⟩ := plain _ _ found
    have here := cells_of_find? found
    simp only [found] at done
    have merging := of_check done
    obtain ⟨merged, isMerged, same⟩ := of_bind merging
    cases merged with
    | none =>
      cases same
      exact ⟨_, rfl, plain, more⟩
    | some replaced =>
      cases same
      obtain ⟨raw, value, layout, rfl, rfl, rfl⟩ :=
        replaced_of_mergeBaseValue isMerged
      refine ⟨_, rfl, plain.insert, ?_⟩
      rw [cells_insert]
      refine tracked.replace here (fun w now counts => counts.more _) fun w counts => ?_
      rw [counts.of_raw]
      refine .inr ⟨(raw, value, layout), mem_append_left _ ?_, rfl, .inl rfl⟩
      unfold exchangeOf
      rw [here]
      exact mem_singleton_self _

variable [DecidableEq V] [DecidableEq Meta]

theorem writeV2_tracked {t inc : Nat} {data : V} {layout : Option Layout}
    (done : d.writeV2 only key t inc data layout = .ok (returned, d')) :
    ∃ v', d'.values = update d.values key (some v') ∧ v'.Plain ∧
      Tracked (Counts only exchanges) v'.cells {read ∈ reads | read.1 ∉ returned} := by
  unfold writeV2 at done
  obtain ⟨v', written, same⟩ := of_bind done
  cases same
  exact ⟨v', rfl, write_tracked plain tracked rfl written⟩

theorem removeV2_tracked {t : Nat} (done : d.removeV2 only key t = .ok (returned, d')) :
    ∃ v', d'.values = update d.values key (some v') ∧ v'.Plain ∧
      Tracked (Counts only exchanges) v'.cells {read ∈ reads | read.1 ∉ returned} := by
  unfold entryOrDefault at plain tracked
  unfold removeV2 at done
  split at done
  · cases done
  rename_i v known
  rw [known] at plain tracked
  cases found : v.versionedMap.find? (new t) with
  | none =>
    rw [found] at done
    cases done
  | some entry =>
    obtain ⟨incarnation, value, dependencies, rfl⟩ := plain _ _ found
    simp only [found] at done
    cases value with
    | rawFromStorage raw => cases done
    | exchanged data layout =>
      cases done
      exact ⟨_, rfl, remove_tracked plain tracked found rfl⟩

end

end

end VersionedData

end

/-! ## The sizes of a group -/

namespace VersionedGroupSize

variable {g g' : VersionedGroupSize} {reads : Set ((Nat × Nat) × ResourceGroupSize)}

/-- The sizes as cells with readers. -/
def cells (g : VersionedGroupSize) (i : Nat) : Option (Cell ResourceGroupSize) :=
  (g.sizeEntries.find? i).map fun entry => ⟨entry.value.size, entry.value.dependencies⟩

variable {entry : MVEntry SizeAndDependencies}

theorem cells_insert :
    cells ⟨g.sizeEntries.insert i entry⟩ =
      update g.cells i (some ⟨entry.value.size, entry.value.dependencies⟩) := by
  unfold cells
  rw [find?_insert_eq]
  exact comp_update (Option.map _) _ _ _

theorem cells_erase : cells ⟨g.sizeEntries.erase i⟩ = update g.cells i none := by
  unfold cells
  rw [find?_erase_eq]
  exact comp_update (Option.map _) _ _ _

theorem cells_setDependencies : (g.setDependencies i entry dependencies).cells =
      update g.cells i (some ⟨entry.value.size, dependencies⟩) :=
  cells_insert

variable {p t : Nat}

theorem sees_of_lastBelow (found : g.sizeEntries.lastBelow (p + 1) = some (i, entry)) :
    Sees g.cells p i ⟨entry.value.size, entry.value.dependencies⟩ := by
  obtain ⟨here, lt, greatest⟩ := lastBelow_eq_some.mp found
  refine ⟨by rw [cells, here]; rfl, Nat.lt_succ_iff.mp lt, fun j later upTo => ?_⟩
  cases there : g.sizeEntries.find? j with
  | none => rw [cells, there]; rfl
  | some other =>
    exact absurd (greatest j other there (lt_succ_of_le upTo)) later.not_ge

theorem cells_eq_none_of_lastBelow (missing : g.sizeEntries.lastBelow (p + 1) = none) :
    ∀ j ≤ p, g.cells j = none := by
  intro j le
  rw [cells, lastBelow_eq_none.mp missing j (lt_succ_of_le le)]
  rfl

variable {size : ResourceGroupSize}

section

variable (tracked : Tracked Eq g.cells reads)

include tracked

theorem read_tracked {r inc : Nat} (done : g.read r inc = some (size, g')) :
    Tracked Eq g'.cells (insert ((r, inc), size) reads) := by
  unfold read at done
  split at done
  · cases done
  rename_i latest
  cases done
  rw [cells_setDependencies]
  exact tracked.read rfl (sees_of_lastBelow latest)

theorem write_tracked (done : g.write t size = (returned, g')) :
    Tracked Eq g'.cells {read ∈ reads | read.1 ∉ returned} := by
  unfold write at done
  split at done
  · rename_i latest
    cases done
    rw [cells_insert]
    exact (tracked.write_fresh (cells_eq_none_of_lastBelow latest)).mono fun read mem => mem.1
  rename_i i entry latest
  have sees : Sees g.cells (t + 1) i ⟨entry.value.size, entry.value.dependencies⟩ :=
    sees_of_lastBelow latest
  change (if entry.value.size = size then _ else _) = _ at done
  split at done
  · rename_i same
    cases done
    rw [cells_insert, cells_setDependencies]
    refine (tracked.write sees (Finset.Subset.refl _) fun w equal _ => ?_).mono ?_
    · exact equal.trans same
    · exact fun read mem => ⟨mem.1, id⟩
  · cases done
    rw [cells_insert, cells_setDependencies]
    refine (tracked.write sees (Finset.empty_subset _) fun w _ some => ?_).mono ?_
    · exact absurd some Finset.not_nonempty_empty
    · exact fun read mem => ⟨mem.1, fun affected => absurd affected mem.2⟩

theorem remove_tracked (done : g.remove t = some (returned, g')) :
    Tracked Eq g'.cells {read ∈ reads | read.1 ∉ returned} := by
  unfold remove at done
  split at done
  · cases done
  rename_i removed found
  have here : g.cells (new t) =
      some ⟨removed.value.size, removed.value.dependencies⟩ := by
    rw [cells, found]
    rfl
  dsimp only at done
  split at done
  · cases done
    rw [cells_erase]
    exact tracked.remove_given here
  rename_i i entry latest
  split at done
  · rename_i same
    cases done
    rw [cells_setDependencies, cells_erase]
    have sees := sees_of_lastBelow latest
    rw [cells_erase] at sees
    have below : i < new t := lt_succ_of_le sees.le
    have still : Sees (update g.cells (new t) none)
        (new t) i ⟨entry.value.size, entry.value.dependencies⟩ := by
      refine ⟨sees.here, below.le, fun j later upTo => ?_⟩
      rcases lt_or_eq_of_le upTo with before | rfl
      · exact sees.last j later (Nat.lt_succ_iff.mp before)
      · exact update_self _ _ _
    refine (tracked.remove_kept here below still fun w equal => ?_).mono fun read mem => mem.1
    exact equal.trans same.symm
  · cases done
    rw [cells_erase]
    exact tracked.remove_given here

end

end VersionedGroupSize

end CreditChain
