import CreditChain.Lib.SortedMap
import Mathlib.Data.Finset.Card

/-!
# The keys that a block makes hot

A key that a block reads and never writes is made hot at the end of the block, up to a limit for
each block.  The keys of a transaction are hash sets, which every node visits in an order of its
own.

* `slots_agree`: below the limit, the order makes no difference.
-/

namespace CreditChain

inductive InputOutputKey (K T : Type) where
  | resource (key : K)
  | group (key : K) (tag : T)
  | delayedField (id : Nat)
  deriving DecidableEq

variable {K T V L : Type}

namespace InputOutputKey

def collapse : InputOutputKey K T → InputOutputKey K T
  | resource key | group key _ => resource key
  | delayedField id => delayedField id

def key : InputOutputKey K T → Option K
  | resource key | group key _ => some key
  | delayedField _ => none

theorem key_collapse (k : InputOutputKey K T) : k.collapse.key = k.key := by
  cases k with
  | _ => rfl

end InputOutputKey

/-- The hash sets of a transaction. -/
structure ReadWriteSummary (K T : Type) where
  reads : Finset (InputOutputKey K T)
  writes : Finset (InputOutputKey K T)

def ReadWriteSummary.collapseResourceGroupConflicts [DecidableEq K] [DecidableEq T]
    (summary : ReadWriteSummary K T) : ReadWriteSummary K T :=
  ⟨summary.reads.image .collapse, summary.writes.image .collapse⟩

/-- The keys of a set that is visited in some order. -/
def keysExceptDelayedFields (keys : List (InputOutputKey K T)) : List K := keys.filterMap (·.key)

/-- The values and the list of the recently used ones have types of their own. -/
inductive StateSlot (V L : Type) where
  | coldVacant
  | hotVacant (hotSinceVersion : Nat) (lruInfo : L)
  | coldOccupied (valueVersion : Nat) (value : V)
  | hotOccupied (valueVersion : Nat) (value : V) (hotSinceVersion : Nat) (lruInfo : L)

structure BlockHotStateOpAccumulator (K V L : Type) [LinearOrder K] where
  toMakeHot : Map K (StateSlot V L)
  writes : Finset K
  maxPromotionsPerBlock : Nat

namespace BlockHotStateOpAccumulator

variable [LinearOrder K] (baseView : K → StateSlot V L) (acc : BlockHotStateOpAccumulator K V L)
  (key : K)

def newWithConfig (maxPromotionsPerBlock : Nat) : BlockHotStateOpAccumulator K V L :=
  ⟨∅, ∅, maxPromotionsPerBlock⟩

/-- Whatever the version; one that is not before the block is only logged. -/
def shouldRefresh (_hotSinceVersion : Nat) : Bool := true

def makeHot : StateSlot V L → Bool
  | .coldVacant | .coldOccupied _ _ => true
  | .hotVacant hotSinceVersion _ | .hotOccupied _ _ hotSinceVersion _ =>
    shouldRefresh hotSinceVersion

/-- One round of the loop over the writes. -/
def addWrite : BlockHotStateOpAccumulator K V L :=
  { acc with toMakeHot := acc.toMakeHot.erase key, writes := insert key acc.writes }

/-- One round of the loop over the reads.  The base view has an answer for every key. -/
def addRead : BlockHotStateOpAccumulator K V L :=
  if acc.toMakeHot.size ≥ acc.maxPromotionsPerBlock then acc
  else if key ∈ acc.toMakeHot then acc
  else if key ∈ acc.writes then acc
  else if makeHot (baseView key) then
    { acc with toMakeHot := acc.toMakeHot.insert key (baseView key) }
  else acc

def addTransaction (writes reads : List K) : BlockHotStateOpAccumulator K V L :=
  reads.foldl (addRead baseView) (writes.foldl addWrite acc)

/-- The writes and the reads of a transaction, as a node visits them. -/
abbrev Visit (K T : Type) := List (InputOutputKey K T) × List (InputOutputKey K T)

/-- `get_slots_to_make_hot` after the transactions of a block. -/
def slotsToMakeHot (limit : Nat) (visits : List (Visit K T)) : Map K (StateSlot V L) :=
  (visits.foldl (fun acc visit => acc.addTransaction baseView
    (keysExceptDelayedFields visit.1) (keysExceptDelayedFields visit.2))
    (newWithConfig limit)).toMakeHot

/-- The sets of a transaction, which are collapsed first unless groups conflict by their tags. -/
def Enumerates [DecidableEq T] (granular : Bool) (txn : ReadWriteSummary K T)
    (visit : Visit K T) : Prop :=
  let summary := if granular then txn else txn.collapseResourceGroupConflicts
  ↑visit.1 = summary.writes.val ∧ ↑visit.2 = summary.reads.val

end BlockHotStateOpAccumulator

namespace ReadWriteSummary

/-- The keys that some transactions have in one of their sets. -/
def Keys (set : ReadWriteSummary K T → Finset (InputOutputKey K T))
    (txns : List (ReadWriteSummary K T)) : Set K :=
  { k | ∃ txn ∈ txns, ∃ io ∈ set txn, io.key = some k }

/-- There are never more keys that are read and not written so far than the limit. -/
def Within (limit : Nat) (txns : List (ReadWriteSummary K T)) : Prop :=
  ∀ n (keys : Finset K),
    ↑keys ⊆ Keys (·.reads) (txns.take n) \ Keys (·.writes) (txns.take n) → keys.card ≤ limit

theorem keys_append (set : ReadWriteSummary K T → Finset (InputOutputKey K T))
    (done more : List (ReadWriteSummary K T)) :
    Keys set (done ++ more) = Keys set done ∪ Keys set more := by
  ext k
  simp [Keys, or_and_right, exists_or]

end ReadWriteSummary

namespace BlockHotStateOpAccumulator

theorem union_cons (S : Set K) (key : K) (keys : List K) :
    S ∪ { k | k ∈ key :: keys } = insert key S ∪ { k | k ∈ keys } := by
  ext k
  simp [or_assoc, or_left_comm]

open ReadWriteSummary Map Std.ExtTreeMap

variable [LinearOrder K] {baseView : K → StateSlot V L} {limit : Nat} {within : Prop}
  {R W : Set K} {acc : BlockHotStateOpAccumulator K V L}

/-- The accumulator after some reads and writes, which were within the limit or not. -/
structure Holds (baseView : K → StateSlot V L) (limit : Nat) (within : Prop) (R W : Set K)
    (acc : BlockHotStateOpAccumulator K V L) : Prop where
  max : acc.maxPromotionsPerBlock = limit
  written : ∀ k, k ∈ acc.writes ↔ k ∈ W
  slots : ∀ k slot, acc.toMakeHot[k]? = some slot → slot = baseView k ∧ k ∈ R \ W
  size : acc.toMakeHot.size ≤ limit
  complete : within → ∀ k ∈ R \ W, k ∈ acc.toMakeHot

theorem makeHot_eq (slot : StateSlot V L) : makeHot slot = true := by
  cases slot with
  | _ => rfl

namespace Holds

variable (holds : Holds baseView limit within R W acc)

include holds

theorem addWrite (key : K) : Holds baseView limit within R (insert key W) (acc.addWrite key) := by
  obtain ⟨max, written, slots, size, complete⟩ := holds
  refine ⟨max, ?_, ?_, size_erase_le.trans size, ?_⟩
  · simp [BlockHotStateOpAccumulator.addWrite, written]
  · intro k slot found
    rw [BlockHotStateOpAccumulator.addWrite, getElem?_erase_eq] at found
    grind
  · intro full k mem
    rw [BlockHotStateOpAccumulator.addWrite, mem_erase, ne_eq, compare_eq_iff]
    grind

/-- A key is skipped if it is there or written, or if the limit is reached. -/
theorem addRead (key : K)
    (bound : within → ∀ keys : Finset K, ↑keys ⊆ insert key R \ W → keys.card ≤ limit) :
    Holds baseView limit within (insert key R) W (acc.addRead baseView key) := by
  obtain ⟨rfl, written, slots, size, complete⟩ := holds
  have room : within → key ∉ acc.toMakeHot → key ∉ W →
      acc.toMakeHot.size < acc.maxPromotionsPerBlock := by
    intro full absent free
    have most := bound full (insert key acc.toMakeHot.keys.toFinset) ?_
    · rwa [Finset.card_insert_of_notMem (by simpa using absent),
        List.toFinset_card_of_nodup (keys_nodup _), length_keys] at most
    · intro k mem
      rcases Finset.mem_insert.mp mem with rfl | mem
      · exact ⟨Set.mem_insert _ _, free⟩
      · have here := getElem?_eq_some_getElem (mem_keys.mp (List.mem_toFinset.mp mem))
        exact Set.sdiff_subset_sdiff_left (Set.subset_insert _ _) (slots k _ here).2
  unfold BlockHotStateOpAccumulator.addRead
  rw [if_pos (makeHot_eq _)]
  split
  · exact ⟨rfl, written, by grind, size, by grind⟩
  split
  · exact ⟨rfl, written, by grind, size, by grind⟩
  split
  · exact ⟨rfl, written, by grind, size, by grind⟩
  refine ⟨rfl, written, ?_, ?_, ?_⟩
  · intro k slot found
    rw [getElem?_insert_eq] at found
    grind
  · grind [size_insert]
  · intro full k mem
    rw [mem_insert, compare_eq_iff]
    grind

theorem addWrites (writes : List K) :
    Holds baseView limit within R (W ∪ { k | k ∈ writes }) (writes.foldl .addWrite acc) := by
  induction writes generalizing acc W with
  | nil => simpa using holds
  | cons key writes ih =>
    rw [union_cons]
    exact ih (holds.addWrite key)

theorem addReads (reads : List K) (bound : within → ∀ keys : Finset K,
      ↑keys ⊆ (R ∪ { k | k ∈ reads }) \ W → keys.card ≤ limit) :
    Holds baseView limit within (R ∪ { k | k ∈ reads }) W
      (reads.foldl (.addRead baseView) acc) := by
  induction reads generalizing acc R with
  | nil => simpa using holds
  | cons key reads ih =>
    rw [union_cons] at bound ⊢
    refine ih (holds.addRead key fun full keys sub => bound full keys (sub.trans ?_)) bound
    exact Set.sdiff_subset_sdiff_left Set.subset_union_left

theorem getElem?_iff (full : within) {k : K} {slot : StateSlot V L} :
    acc.toMakeHot[k]? = some slot ↔ k ∈ R \ W ∧ slot = baseView k := by
  constructor
  · intro found
    exact (holds.slots k slot found).symm
  · rintro ⟨mem, rfl⟩
    have here := getElem?_eq_some_getElem (holds.complete full k mem)
    exact (holds.slots k _ here).1 ▸ here

end Holds

/-! ## Blocks -/

variable [DecidableEq T] {granular : Bool} {done txns : List (ReadWriteSummary K T)}
  {visits visits' : List (Visit K T)}

theorem Enumerates.keys_eq {txn : ReadWriteSummary K T} {visit : Visit K T}
    (enumerates : Enumerates granular txn visit) :
    { k | k ∈ keysExceptDelayedFields visit.1 } = Keys (·.writes) [txn] ∧
      { k | k ∈ keysExceptDelayedFields visit.2 } = Keys (·.reads) [txn] := by
  have visited (keys : List (InputOutputKey K T)) : { k | k ∈ keysExceptDelayedFields keys } =
      { k | ∃ io ∈ (keys : Multiset (InputOutputKey K T)), io.key = some k } :=
    Set.ext fun _ => List.mem_filterMap
  rw [visited, visited, enumerates.1, enumerates.2]
  cases granular with
  | true => simp [Keys]
  | false => simp [Keys, collapseResourceGroupConflicts, InputOutputKey.key_collapse]

theorem Holds.run
    (holds : Holds baseView limit within (Keys (·.reads) done) (Keys (·.writes) done) acc)
    (all : List.Forall₂ (Enumerates granular) txns visits)
    (bound : within → Within limit (done ++ txns)) :
    Holds baseView limit within (Keys (·.reads) (done ++ txns)) (Keys (·.writes) (done ++ txns))
      (visits.foldl (fun acc visit => acc.addTransaction baseView
        (keysExceptDelayedFields visit.1) (keysExceptDelayedFields visit.2)) acc) := by
  induction all generalizing done acc with
  | nil => simpa using holds
  | @cons txn visit txns visits first rest ih =>
    rw [List.append_cons] at bound ⊢
    refine ih ?_ bound
    have written := holds.addWrites (keysExceptDelayedFields visit.1)
    have bound := fun full => bound full (done ++ [txn]).length
    rw [List.take_left] at bound
    rw [keys_append, keys_append, ← first.keys_eq.1, ← first.keys_eq.2] at bound ⊢
    exact written.addReads _ bound

/-- No written key is made hot, and no more keys than the limit.  If there are never more keys
than the limit that are read and not written so far, those that remain are made hot, in whatever
order the sets are visited. -/
theorem slots_agree (baseView : K → StateSlot V L) (limit : Nat)
    (one : List.Forall₂ (Enumerates granular) txns visits)
    (other : List.Forall₂ (Enumerates granular) txns visits') :
    (∀ k ∈ slotsToMakeHot baseView limit visits, k ∉ Keys (·.writes) txns) ∧
    (slotsToMakeHot baseView limit visits).size ≤ limit ∧
    (Within limit txns →
      (∀ k ∈ Keys (·.reads) txns, k ∉ Keys (·.writes) txns →
        k ∈ slotsToMakeHot baseView limit visits) ∧
      slotsToMakeHot baseView limit visits = slotsToMakeHot baseView limit visits') := by
  have start : Holds baseView limit (Within limit txns)
      (Keys (T := T) (·.reads) []) (Keys (T := T) (·.writes) []) (newWithConfig limit) := by
    constructor <;> simp [newWithConfig, Keys]
  have first := start.run one id
  have second := start.run other id
  refine ⟨fun k mem => (first.slots k _ (getElem?_eq_some_getElem mem)).2.2, first.size, ?_⟩
  intro within
  refine ⟨fun k read free => first.complete within k ⟨read, free⟩, ext_getElem? fun k => ?_⟩
  exact Option.ext fun slot => (first.getElem?_iff within).trans (second.getElem?_iff within).symm

namespace TwoReads

def txn : ReadWriteSummary Nat Nat := ⟨{.resource 1, .resource 2}, ∅⟩

def visit (first second : Nat) : Visit Nat Nat := ([], [.resource first, .resource second])

def cold (_ : Nat) : StateSlot Nat Nat := .coldVacant

theorem enumerates : Enumerates true txn (visit 1 2) ∧ Enumerates true txn (visit 2 1) :=
  ⟨⟨rfl, rfl⟩, rfl, by decide⟩

/-- There is room for both reads. -/
theorem slots_agree_two :
    slotsToMakeHot cold 2 [visit 1 2] = slotsToMakeHot cold 2 [visit 2 1] := by
  refine ((slots_agree _ 2 (.cons enumerates.1 .nil) (.cons enumerates.2 .nil)).2.2 ?_).2
  intro n keys sub
  refine (Finset.card_le_card (t := {1, 2}) fun k mem => ?_).trans (by decide)
  obtain ⟨⟨_, mem, io, here, found⟩, -⟩ := sub mem
  cases List.mem_singleton.mp (List.mem_of_mem_take mem)
  have all : ∀ io ∈ txn.reads, io.key = some 1 ∨ io.key = some 2 := by decide
  grind

/-- There is room for one, which is the first that is visited. -/
theorem orders_differ : Enumerates true txn (visit 1 2) ∧ Enumerates true txn (visit 2 1) ∧
    1 ∈ slotsToMakeHot cold 1 [visit 1 2] ∧ 1 ∉ slotsToMakeHot cold 1 [visit 2 1] :=
  ⟨enumerates.1, enumerates.2, by decide, by decide⟩

end TwoReads

end BlockHotStateOpAccumulator

end CreditChain
