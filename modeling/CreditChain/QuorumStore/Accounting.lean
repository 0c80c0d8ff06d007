import CreditChain.Lib.Run
import CreditChain.QuorumStore.BatchProofQueue

/-!
# What the queue counts

The items are known by author and batch id; the queues, the expirations and the counters follow
whichever batch info arrived.  They fit together as long as there is one info for each author
and batch id: a `Registry`.  Then every queued batch has its item, every expiration is that of
its batch, and the counters are sums over the items that have a proof.
-/

namespace CreditChain.QuorumStore

open Word64 List

/-- The batches of a run: one for each author and batch id, none created before time 0, and
together within the range of the counters. -/
structure Registry (gap : Nat) where
  infos : List BatchInfo
  unique : ∀ a ∈ infos, ∀ b ∈ infos, BatchKey.fromInfo a = BatchKey.fromInfo b → a = b
  created : ∀ info ∈ infos, gap ≤ info.expiration
  few : infos.length < 2 ^ 31
  txns : (infos.map (·.numTxns)).sum < 2 ^ 64
  bytes : (infos.map (·.size.bytes)).sum < 2 ^ 64

variable {item : QueueItem}

namespace QueueItem

/-- What an item with a proof counts. -/
def proved (item : QueueItem) (amount : Nat) : Nat := if item.proof.isSome then amount else 0

theorem proved_of_none (unproved : item.proof = none) (amount : Nat) : item.proved amount = 0 := by
  rw [proved, unproved, Option.isSome_none, if_neg Bool.false_ne_true]

theorem proved_of_some (proof : item.proof.isSome) (amount : Nat) :
    item.proved amount = amount := if_pos proof

theorem proved_le (item : QueueItem) (amount : Nat) : item.proved amount ≤ amount := by
  unfold proved
  split
  · exact le_rfl
  · exact Nat.zero_le amount

end QueueItem

/-- One of the things that are counted. -/
inductive Counter where
  | txns
  | proofs
  | localTxns
  | localProofs
  | occurrences (summary : TxnSummaryWithExpiration)

/-- What an item with a proof adds to a counter. -/
def Counter.amount (me : PeerId) (item : QueueItem) : Counter → Nat
  | txns => item.info.numTxns
  | proofs => 1
  | localTxns => if item.info.author = me then item.info.numTxns else 0
  | localProofs => if item.info.author = me then 1 else 0
  | occurrences summary => (item.txnSummaries.getD []).count summary

/-- The item belongs to the batch that the registry has for its key. -/
structure Registry.Holds {gap : Nat} (registry : Registry gap) (key : BatchKey)
    (item : QueueItem) : Prop where
  known : item.info ∈ registry.infos
  keyed : .fromInfo item.info = key
  proof : ∀ proof, item.proof = some proof → proof.info = item.info
  timed : item.proof.isSome = item.proofInsertionTime.isSome
  summaries : ∀ summaries, item.txnSummaries = some summaries → summaries.length = item.info.numTxns

open QueueItem

namespace BatchProofQueue

def count (q : BatchProofQueue) : Counter → Nat
  | .txns => q.remainingTxnsWithDuplicates
  | .proofs => q.remainingProofs
  | .localTxns => q.remainingLocalTxns
  | .localProofs => q.remainingLocalProofs
  | .occurrences summary => (q.txnSummaryNumOccurrences.find? summary).getD 0

/-- What an item counts. -/
def weight (q : BatchProofQueue) (c : Counter) (item : QueueItem) : Nat :=
  item.proved (c.amount q.myPeerId item)

/-- The counters are sums over the items. -/
structure Counted (q : BatchProofQueue) : Prop where
  count_eq : ∀ c, q.count c = q.items.sum fun _ => q.weight c
  positive : ∀ summary, q.txnSummaryNumOccurrences.find? summary ≠ some 0

/-- The queue of an author has a batch under a key. -/
def Lists (queues : Table PeerId Queue) (author : PeerId) (key : BatchSortKey)
    (info : BatchInfo) : Prop :=
  ∃ queue, queues.find? author = some queue ∧ queue.find? key = some info

/-- A listed batch is known, stands under its own key and has an item. -/
def Listed {gap : Nat} (registry : Registry gap) (queues : Table PeerId Queue)
    (items : Table BatchKey QueueItem) : Prop :=
  ∀ author key info, Lists queues author key info → info ∈ registry.infos ∧
    info.author = author ∧ .fromInfo info = key ∧ (items.find? key.batchKey).isSome

def HoldsAll {gap : Nat} (registry : Registry gap) (items : Table BatchKey QueueItem) : Prop :=
  ∀ key item, items.find? key = some item → registry.Holds key item

structure Settled {gap : Nat} (registry : Registry gap) (q : BatchProofQueue) : Prop where
  gap_eq : q.batchExpiryGapWhenInitUsecs = gap
  items : HoldsAll registry q.items
  listed : Listed registry q.authorToBatches q.items
  expiring : ∀ entry ∈ q.expirations, ∃ info ∈ registry.infos,
    entry = (info.expiration, .fromInfo info)
  counted : q.Counted

variable {gap : Nat} {registry : Registry gap} {q : BatchProofQueue}

theorem new_settled (registry : Registry gap) (me : PeerId) : Settled registry (new me gap) where
  gap_eq := rfl
  items := fun key item found => by cases found
  listed := fun author key info ⟨queue, found, _⟩ => by cases found
  expiring := forall_mem_nil _
  counted := ⟨fun c => by cases c with | _ => rfl, fun _ found => by cases found⟩

/-! ## Items -/

variable {items : Table BatchKey QueueItem} {key : BatchKey}

section

variable (all : HoldsAll registry items)

include all

theorem HoldsAll.insert (holds : registry.Holds key item) :
    HoldsAll registry (items.insert key item) := by
  intro k v found
  rw [Table.find?_insert] at found
  split at found
  · rename_i same
    cases found
    exact same ▸ holds
  · exact all k v found

theorem HoldsAll.erase (key : BatchKey) : HoldsAll registry (items.erase key) := by
  intro k v found
  rw [Table.find?_erase] at found
  split at found
  · cases found
  · exact all k v found

/-- A sum over the items is at most the sum over the registry. -/
theorem HoldsAll.sum_le (weight : QueueItem → Nat) (bound : BatchInfo → Nat)
    (le : ∀ key item, registry.Holds key item → weight item ≤ bound item.info) :
    (items.sum fun _ => weight) ≤ (registry.infos.map bound).sum :=
  Table.sum_le_of_listed (fun key item found => ⟨(all key item found).known,
    (all key item found).keyed⟩) fun key item found => le key item (all key item found)

theorem HoldsAll.txns_lt (weight : QueueItem → Nat)
    (le : ∀ key item, registry.Holds key item → weight item ≤ item.info.numTxns) :
    (items.sum fun _ => weight) < 2 ^ 64 :=
  (all.sum_le weight _ le).trans_lt registry.txns

theorem HoldsAll.proofs_lt (weight : QueueItem → Nat) (le : ∀ item, weight item ≤ 1) :
    (items.sum fun _ => weight) < 2 ^ 64 := by
  have small := all.sum_le weight (fun _ => 1) fun _ item _ => le item
  rw [map_const', sum_replicate, smul_eq_mul] at small
  have few := registry.few
  omega

end

theorem proved_local_le (me : PeerId) (item : QueueItem) (amount : Nat) :
    item.proved (if item.info.author = me then amount else 0) ≤ amount := by
  refine (item.proved_le _).trans ?_
  split
  · exact le_rfl
  · exact Nat.zero_le _

theorem occurrences_le (holds : registry.Holds key item) (summary : TxnSummaryWithExpiration) :
    item.proved ((item.txnSummaries.getD []).count summary) ≤ item.info.numTxns := by
  refine (item.proved_le _).trans ?_
  cases summaries : item.txnSummaries with
  | none => exact Nat.zero_le _
  | some list =>
    rw [← holds.summaries list summaries]
    exact count_le_length

theorem HoldsAll.weight_lt (all : HoldsAll registry items) (c : Counter) :
    (items.sum fun _ => q.weight c) < 2 ^ 64 := by
  cases c with
  | txns => exact all.txns_lt _ fun _ i _ => i.proved_le _
  | proofs => exact all.proofs_lt _ fun i => i.proved_le _
  | localTxns => exact all.txns_lt _ fun _ i _ => proved_local_le _ i _
  | localProofs => exact all.proofs_lt _ fun i => proved_local_le _ i _
  | occurrences summary => exact all.txns_lt _ fun _ _ holds => occurrences_le holds summary

/-! ## Counters -/

/-- The queue with its counters moved by what a proof of the item counts. -/
def moved (q : BatchProofQueue) (op : Nat → Nat → Nat) (item : QueueItem) : BatchProofQueue :=
  { q with
    remainingTxnsWithDuplicates := op q.remainingTxnsWithDuplicates item.info.numTxns
    remainingProofs := op q.remainingProofs 1
    remainingLocalTxns := op q.remainingLocalTxns (Counter.localTxns.amount q.myPeerId item)
    remainingLocalProofs :=
      op q.remainingLocalProofs (Counter.localProofs.amount q.myPeerId item) }

theorem changeRemainingProofs_eq {change : Nat → Nat → Option Nat} (op : Nat → Nat → Nat)
    (unchanged : ∀ n, op n 0 = n)
    (changes : ∀ c ∈ [Counter.txns, .proofs, .localTxns, .localProofs],
      change (q.count c) (c.amount q.myPeerId item) =
        some (op (q.count c) (c.amount q.myPeerId item))) :
    q.changeRemainingProofs item.info.author item.info.numTxns change = some (q.moved op item) := by
  simp only [forall_mem_cons, count, Counter.amount] at changes
  obtain ⟨txns, proofs, localTxns, localProofs, -⟩ := changes
  unfold changeRemainingProofs moved Counter.amount
  rw [txns, proofs]
  by_cases mine : item.info.author = q.myPeerId
  · simp only [mine, if_true] at localTxns localProofs ⊢
    rw [some_bind, some_bind, localTxns, localProofs]
    rfl
  · simp only [mine, if_false, unchanged]
    rfl

/-! ## Occurrences -/

/-- How often a transaction is counted. -/
def countOf (occurrences : Table TxnSummaryWithExpiration Nat)
    (summary : TxnSummaryWithExpiration) : Nat := (occurrences.find? summary).getD 0

variable {occurrences : Table TxnSummaryWithExpiration Nat}
  {summary other : TxnSummaryWithExpiration}

theorem countOf_insert {count : Nat} :
    countOf (occurrences.insert summary count) other =
      if other = summary then count else countOf occurrences other := by
  unfold countOf
  rw [Table.find?_insert]
  split
  · rfl
  · rfl

theorem countOf_erase :
    countOf (occurrences.erase summary) other =
      if other = summary then 0 else countOf occurrences other := by
  unfold countOf
  rw [Table.find?_erase]
  split
  · rfl
  · rfl

variable {summaries : List TxnSummaryWithExpiration}

theorem foldlM_countOccurrence (small : ∀ s, countOf occurrences s + summaries.count s < 2 ^ 64)
    (positive : ∀ s, occurrences.find? s ≠ some 0) :
    ∃ occurrences', summaries.foldlM countOccurrence occurrences = some occurrences' ∧
      (∀ s, countOf occurrences' s = countOf occurrences s + summaries.count s) ∧
      ∀ s, occurrences'.find? s ≠ some 0 := by
  induction summaries generalizing occurrences with
  | nil => exact ⟨occurrences, rfl, fun s => rfl, positive⟩
  | cons summary summaries ih =>
    have step : countOccurrence occurrences summary =
        some (occurrences.insert summary (countOf occurrences summary + 1)) := by
      have fits := small summary
      rw [count_cons_self] at fits
      unfold countOccurrence
      rw [← countOf, add64_eq (by omega)]
      rfl
    have next (s : TxnSummaryWithExpiration) :
        countOf (occurrences.insert summary (countOf occurrences summary + 1)) s +
          summaries.count s = countOf occurrences s + (summary :: summaries).count s := by
      rw [countOf_insert]
      split
      · rename_i same
        rw [same, count_cons_self]
        omega
      · rename_i same
        rw [count_cons_of_ne (Ne.symm same)]
    have nextPositive (s : TxnSummaryWithExpiration) :
        (occurrences.insert summary (countOf occurrences summary + 1)).find? s ≠ some 0 := by
      rw [Table.find?_insert]
      split
      · simp
      · exact positive s
    obtain ⟨last, folded, counts, positive'⟩ :=
      ih (fun s => by rw [next]; exact small s) nextPositive
    refine ⟨last, ?_, fun s => by rw [counts, next], positive'⟩
    rw [foldlM_cons, step]
    exact folded

theorem foldlM_forgetOccurrence (enough : ∀ s, summaries.count s ≤ countOf occurrences s)
    (positive : ∀ s, occurrences.find? s ≠ some 0) :
    ∃ occurrences', summaries.foldlM forgetOccurrence occurrences = some occurrences' ∧
      (∀ s, countOf occurrences' s + summaries.count s = countOf occurrences s) ∧
      ∀ s, occurrences'.find? s ≠ some 0 := by
  induction summaries generalizing occurrences with
  | nil => exact ⟨occurrences, rfl, fun s => rfl, positive⟩
  | cons summary summaries ih =>
    have some_count : ∃ count, occurrences.find? summary = some (count + 1) := by
      have here := enough summary
      cases found : occurrences.find? summary with
      | none =>
        rw [countOf, found] at here
        simp at here
      | some count =>
        cases count with
        | zero => exact absurd found (positive summary)
        | succ count => exact ⟨count, rfl⟩
    obtain ⟨count, found⟩ := some_count
    have before : countOf occurrences summary = count + 1 := by rw [countOf, found]; rfl
    -- The last occurrence takes the entry away, which counts the same as a zero.
    obtain ⟨next, step, counts, nextPositive⟩ : ∃ next,
        forgetOccurrence occurrences summary = some next ∧
        (∀ s, countOf next s = if s = summary then count else countOf occurrences s) ∧
        ∀ s, next.find? s ≠ some 0 := by
      unfold forgetOccurrence
      rw [found]
      show ∃ next, (do
        let count ← sub64 (count + 1) 1
        return if count = 0 then occurrences.erase summary
          else occurrences.insert summary count) = some next ∧ _
      rw [sub64_eq (by omega)]
      by_cases last : count = 0
      · refine ⟨occurrences.erase summary, by simp [last], fun s => ?_, fun s => ?_⟩
        · rw [countOf_erase, last]
        rw [Table.find?_erase]
        split
        · simp
        · exact positive s
      · refine ⟨occurrences.insert summary count, by simp [last], fun s => ?_, fun s => ?_⟩
        · rw [countOf_insert]
        rw [Table.find?_insert]
        split
        · simpa using last
        · exact positive s
    have balance (s : TxnSummaryWithExpiration) :
        countOf next s + (summary :: summaries).count s =
          countOf occurrences s + summaries.count s := by
      rw [counts]
      split
      · rename_i same
        rw [same, count_cons_self]
        omega
      · rename_i same
        rw [count_cons_of_ne (Ne.symm same)]
    obtain ⟨last, folded, lastCounts, lastPositive⟩ :=
      ih (fun s => by have := balance s; have := enough s; omega) nextPositive
    refine ⟨last, ?_, fun s => ?_, lastPositive⟩
    · rw [foldlM_cons, step]
      exact folded
    · have := balance s
      have := lastCounts s
      omega

/-! ## Sums over changed items -/

/-- What the item of a key counts, if there is one. -/
def before (q : BatchProofQueue) (key : BatchKey) (weight : QueueItem → Nat) : Nat :=
  (q.items.find? key).elim 0 weight

theorem before_of_some (found : q.items.find? key = some item)
    (weight : QueueItem → Nat) : q.before key weight = weight item := by
  rw [before, found]
  rfl

/-- There is nothing that an item without a proof counts. -/
theorem before_of_unproved
    (unproved : ∀ item, q.items.find? key = some item → item.proof = none) (c : Counter) :
    q.before key (q.weight c) = 0 := by
  cases found : q.items.find? key with
  | none =>
    rw [before, found]
    rfl
  | some item =>
    rw [before_of_some found]
    exact proved_of_none (unproved item found) _

theorem sum_insert_before (weight : QueueItem → Nat) :
    ((q.items.insert key item).sum fun _ => weight) + q.before key weight =
      weight item + q.items.sum fun _ => weight := Table.sum_insert_add

theorem sum_erase_before (weight : QueueItem → Nat) :
    ((q.items.erase key).sum fun _ => weight) + q.before key weight =
      0 + q.items.sum fun _ => weight := Table.sum_erase_add.trans (zero_add _).symm

/-- The counters have room for a batch of the registry that gets a proof. -/
theorem Settled.count_lt (settled : Settled registry q) (holds : registry.Holds key item)
    (isProved : item.proof.isSome) {c : Counter} (uncounted : q.before key (q.weight c) = 0) :
    q.count c + c.amount q.myPeerId item < 2 ^ 64 := by
  have sum := @sum_insert_before item q key (q.weight c)
  rw [uncounted, add_zero, ← settled.counted.count_eq, weight, item.proved_of_some isProved] at sum
  rw [add_comm, ← sum]
  exact (settled.items.insert holds).weight_lt c

/-- The counters include a proof that goes. -/
theorem Counted.amount_le (counts : q.Counted) (found : q.items.find? key = some item)
    (isProved : item.proof.isSome) (c : Counter) : c.amount q.myPeerId item ≤ q.count c := by
  have le := @Table.le_sum _ _ _ _ _ _ (fun _ => q.weight c) found
  rw [← counts.count_eq, weight, item.proved_of_some isProved] at le
  exact le

/-- The counters move by what the item of a key counts after the change, and by what it counted
before. -/
theorem Counted.of_sums {q' : BatchProofQueue}
    {after : (QueueItem → Nat) → Nat} (counts : q.Counted) (me : q'.myPeerId = q.myPeerId)
    (sums : ∀ weight : QueueItem → Nat, (∀ item, item.proof = none → weight item = 0) →
      (q'.items.sum fun _ => weight) + q.before key weight =
        after weight + q.items.sum fun _ => weight)
    (moves : ∀ c, q'.count c + q.before key (q.weight c) = after (q.weight c) + q.count c)
    (positive : ∀ s, q'.txnSummaryNumOccurrences.find? s ≠ some 0) : q'.Counted := by
  have eq (c : Counter) : q'.count c = q'.items.sum fun _ => q'.weight c := by
    have sum := sums (q.weight c) fun i none => i.proved_of_none none _
    have move := moves c
    rw [← counts.count_eq] at sum
    rw [show q'.weight c = q.weight c by unfold weight; rw [me]]
    omega
  exact ⟨eq, positive⟩

end BatchProofQueue

end CreditChain.QuorumStore
