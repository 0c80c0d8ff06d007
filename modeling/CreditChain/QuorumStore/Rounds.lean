import CreditChain.QuorumStore.Accounting

/-!
# The rounds of the calls

Every round of a call that changes the queue does not panic on the batches of a registry, and
leaves the queue settled.
-/

namespace CreditChain.QuorumStore

open List Option

namespace BatchProofQueue

variable {gap : Nat} {registry : Registry gap} {q : BatchProofQueue}

/-! ## Queues -/

variable {info other : BatchInfo} {author : PeerId} {key : BatchSortKey} {queues : Table PeerId Queue}

theorem lists_iff : Lists queues author key info ↔
    (queues.find? author).bind (·.find? key) = some info := bind_eq_some_iff.symm

theorem lists_enqueue : Lists (q.enqueue info).authorToBatches author key other ↔
    if author = info.author ∧ key = BatchSortKey.fromInfo info then other = info
    else Lists q.authorToBatches author key other := by
  simp only [lists_iff, enqueue, Table.find?_insert]
  by_cases mine : author = info.author
  · subst mine
    cases q.authorToBatches.find? info.author with
    | none => grind [OrderedMap.find?_insert, OrderedMap.find?_empty]
    | some queue => grind [OrderedMap.find?_insert]
  · simp only [mine, if_false, false_and]

theorem lists_unqueue : Lists (q.unqueue info).authorToBatches author key other ↔
    Lists q.authorToBatches author key other ∧
      ¬ (author = info.author ∧ key = BatchSortKey.fromInfo info) := by
  simp only [lists_iff, unqueue]
  cases found : q.authorToBatches.find? info.author with
  | none => grind
  | some queue => grind [OrderedMap.find?_erase, Table.find?_insert]

/-- An empty queue, which is not put back, has nothing to list. -/
theorem lists_restoreQueue {owner : PeerId} {queue : Queue}
    (base : q.authorToBatches = queues.erase owner) :
    Lists (q.restoreQueue owner queue).authorToBatches author key info ↔
      if author = owner then queue.find? key = some info else Lists queues author key info := by
  unfold restoreQueue
  split
  · rename_i empty
    simp only [lists_iff, base, Table.find?_erase]
    split
    · simp [OrderedMap.isEmpty_iff.mp empty]
    · rfl
  · simp only [lists_iff, base, Table.find?_insert, Table.find?_erase]
    split
    · simp
    · rfl

variable {item : QueueItem} {items : Table BatchKey QueueItem}

theorem Listed.enqueue
    (listed : Listed registry q.authorToBatches items) (known : info ∈ registry.infos) :
    Listed registry (q.enqueue info).authorToBatches (items.insert (.fromInfo info) item) := by
  intro author key other lists
  rw [Table.find?_insert]
  rw [lists_enqueue] at lists
  split at lists
  · rename_i both
    obtain ⟨rfl, rfl⟩ := both
    subst lists
    exact ⟨known, rfl, rfl, by rw [if_pos (by rfl), isSome_some]⟩
  · obtain ⟨here, author_eq, key_eq, found⟩ := listed author key other lists
    refine ⟨here, author_eq, key_eq, ?_⟩
    split
    · rfl
    · exact found

theorem Listed.set (listed : Listed registry queues items) (key : BatchKey) (item : QueueItem) :
    Listed registry queues (items.insert key item) := by
  intro author sortKey other lists
  obtain ⟨here, author_eq, key_eq, found⟩ := listed author sortKey other lists
  refine ⟨here, author_eq, key_eq, ?_⟩
  rw [Table.find?_insert]
  split
  · rfl
  · exact found

/-- A batch that leaves its queue takes its item along: no other listed batch has that item. -/
theorem Listed.remove {queues' : Table PeerId Queue}
    (listed : Listed registry queues items) (known : info ∈ registry.infos)
    (fewer : ∀ author key other, Lists queues' author key other →
      Lists queues author key other ∧ ¬ (author = info.author ∧ key = .fromInfo info)) :
    Listed registry queues' (items.erase (.fromInfo info)) := by
  intro author key other lists
  obtain ⟨old, apart⟩ := fewer author key other lists
  obtain ⟨here, author_eq, key_eq, found⟩ := listed author key other old
  refine ⟨here, author_eq, key_eq, ?_⟩
  have ne : key.batchKey ≠ .fromInfo info := by
    intro same
    rw [← key_eq] at same
    cases registry.unique other here info known same
    exact apart ⟨author_eq.symm, key_eq.symm⟩
  rw [Table.find?_erase_of_ne ne]
  exact found

theorem expiring_enqueue (settled : Settled registry q)
    (known : info ∈ registry.infos) : ∀ entry ∈ (q.enqueue info).expirations,
      ∃ info ∈ registry.infos, entry = (info.expiration, .fromInfo info) := by
  intro entry mem
  rcases mem_cons.mp mem with rfl | old
  · exact ⟨info, known, rfl⟩
  · exact settled.expiring entry old

/-! ## Insertion -/

variable {proof : ProofOfStore}

/-- The registry has one batch for the key of an item. -/
theorem Registry.Holds.info_eq
    (holds : registry.Holds (.fromInfo info) item) (known : info ∈ registry.infos) :
    item.info = info := registry.unique _ holds.known _ known holds.keyed

variable {old : Option QueueItem}

theorem provedItem_holds (instant : Nat) (known : proof.info ∈ registry.infos)
    (holds : ∀ item, old = some item → registry.Holds (.fromInfo proof.info) item) :
    registry.Holds (.fromInfo proof.info) (provedItem old proof instant) ∧
      (provedItem old proof instant).info = proof.info ∧
      (provedItem old proof instant).proof.isSome ∧
      ((provedItem old proof instant).txnSummaries).getD [] =
        (old.bind (·.txnSummaries)).getD [] := by
  cases old with
  | none =>
    refine ⟨⟨known, rfl, ?_, rfl, ?_⟩, rfl, rfl, rfl⟩
    · rintro _ ⟨⟩
      rfl
    · rintro _ ⟨⟩
  | some item =>
    have here := holds item rfl
    have same := Registry.Holds.info_eq here known
    refine ⟨⟨here.known, here.keyed, ?_, rfl, here.summaries⟩, same, rfl, rfl⟩
    rintro _ ⟨⟩
    exact same.symm

theorem addProof_settled (settled : Settled registry q) (known : proof.info ∈ registry.infos)
    (instant : Nat)
    (unproved : ∀ item, q.items.find? (.fromInfo proof.info) = some item → item.proof = none) :
    ∃ q', q.addProof proof instant = some q' ∧ Settled registry q' := by
  obtain ⟨holds, info_eq, isProved, summaries⟩ := provedItem_holds instant known
    fun item found => settled.items _ item found
  generalize new_eq : provedItem (q.items.find? (.fromInfo proof.info)) proof instant = item at *
  have uncounted := before_of_unproved unproved
  have room (c : Counter) := settled.count_lt holds isProved (uncounted c)
  obtain ⟨occurrences, folded, occurs, positive⟩ :=
    @foldlM_countOccurrence (q.enqueue proof.info).txnSummaryNumOccurrences _
      (fun s => room (.occurrences s)) settled.counted.positive
  let q' : BatchProofQueue := ({ q.enqueue proof.info with
    txnSummaryNumOccurrences := occurrences }).setItem (.fromInfo proof.info) item
  have step : q.addProof proof instant =
      q'.incRemainingProofs item.info.author item.info.numTxns := by
    unfold addProof countOccurrences
    dsimp only
    rw [← summaries, new_eq, folded, info_eq]
    rfl
  rw [incRemainingProofs, changeRemainingProofs_eq (· + ·) (fun _ => rfl) fun c mem =>
    Word64.add64_eq (by
      have fits := room c
      cases c with
      | occurrences s => simp at mem
      | _ => exact fits)] at step
  refine ⟨_, step, settled.gap_eq, settled.items.insert holds, settled.listed.enqueue known,
    expiring_enqueue settled known, ?_⟩
  refine settled.counted.of_sums rfl (fun weight _ => sum_insert_before weight) (fun c => ?_)
    positive
  rw [uncounted c, weight, item.proved_of_some isProved, add_zero, add_comm (c.amount _ _)]
  cases c with
  | occurrences s => exact occurs s
  | _ => rfl

variable {key : BatchKey} {q' : BatchProofQueue}

/-- Nothing counted comes or goes: no counter changes. -/
theorem Counted.of_silent (counts : q.Counted)
    (unproved : ∀ item, q.items.find? key = some item → item.proof = none)
    (sums : ∀ weight : QueueItem → Nat, (∀ item, item.proof = none → weight item = 0) →
      (q'.items.sum fun _ => weight) + q.before key weight =
        0 + q.items.sum fun _ => weight)
    (same : q' = { q with
      items := q'.items
      authorToBatches := q'.authorToBatches
      expirations := q'.expirations }) : q'.Counted := by
  rw [same] at sums ⊢
  refine counts.of_sums rfl sums (fun c => ?_) counts.positive
  rw [before_of_unproved unproved, zero_add, add_zero]
  cases c with
  | _ => rfl

theorem sum_insert_unproved (unproved : item.proof = none)
    (weight : QueueItem → Nat) (nothing : ∀ item, item.proof = none → weight item = 0) :
    ((q.items.insert key item).sum fun _ => weight) + q.before key weight =
      0 + q.items.sum fun _ => weight := by
  rw [sum_insert_before, nothing item unproved]

variable {summaries : List TxnSummaryWithExpiration}

theorem summarisedItem_holds (known : info ∈ registry.infos)
    (length : summaries.length = info.numTxns)
    (holds : ∀ item, old = some item → registry.Holds (.fromInfo info) item) :
    registry.Holds (.fromInfo info) (summarisedItem old info summaries) := by
  cases old with
  | none =>
    refine ⟨known, rfl, ?_, rfl, ?_⟩
    · rintro _ ⟨⟩
    · rintro _ ⟨⟩
      exact length
  | some item =>
    have here := holds item rfl
    refine ⟨here.known, here.keyed, here.proof, here.timed, ?_⟩
    rintro _ ⟨⟩
    rw [length]
    exact congrArg BatchInfo.numTxns (Registry.Holds.info_eq here known).symm

theorem addBatch_settled (settled : Settled registry q) (known : info ∈ registry.infos)
    (length : summaries.length = info.numTxns)
    (bare : ∀ item, q.items.find? (.fromInfo info) = some item → item.txnSummaries = none) :
    ∃ q', q.addBatch info summaries = some q' ∧ Settled registry q' := by
  have holds := summarisedItem_holds known length fun item found => settled.items _ item found
  by_cases hasProof : (q.items.find? (.fromInfo info)).any (·.proof.isSome)
  · -- The proof was there first: the transactions are counted now.
    obtain ⟨old, found, isProved⟩ := any_eq_true _ _ |>.mp hasProof
    have uncounted (s : TxnSummaryWithExpiration) :
        q.before (.fromInfo info) (q.weight (.occurrences s)) = 0 := by
      rw [before_of_some found, weight, old.proved_of_some isProved, Counter.amount, bare old found]
      rfl
    rw [found] at holds
    obtain ⟨occurrences, folded, occurs, positive⟩ :=
      @foldlM_countOccurrence (q.enqueue info).txnSummaryNumOccurrences _
        (fun s => settled.count_lt holds isProved (uncounted s)) settled.counted.positive
    have step : q.addBatch info summaries = some (({ q.enqueue info with
        txnSummaryNumOccurrences := occurrences }).setItem (.fromInfo info)
          (summarisedItem (some old) info summaries)) := by
      unfold addBatch countOccurrences
      simp only [found, any_some, isProved, if_true]
      rw [show summaries.foldlM _ _ = _ from folded]
      rfl
    refine ⟨_, step, settled.gap_eq, settled.items.insert holds, settled.listed.enqueue known,
      expiring_enqueue settled known, ?_⟩
    refine settled.counted.of_sums rfl (fun weight _ => sum_insert_before weight) (fun c => ?_)
      positive
    cases c with
    | occurrences s =>
      rw [uncounted, weight, (summarisedItem (some old) info summaries).proved_of_some isProved,
        add_zero]
      exact (occurs s).trans (add_comm _ _)
    | _ =>
      rw [before_of_some found]
      exact add_comm _ _
  · have unproved (item : QueueItem) (found : q.items.find? (.fromInfo info) = some item) :
        item.proof = none := by
      rw [found, any_some, Bool.not_eq_true, isSome_eq_false_iff] at hasProof
      exact isNone_iff_eq_none.mp hasProof
    have step : q.addBatch info summaries = some ((q.enqueue info).setItem (.fromInfo info)
        (summarisedItem (q.items.find? (.fromInfo info)) info summaries)) := by
      unfold addBatch
      simp only [hasProof, Bool.false_eq_true, if_false]
      rfl
    refine ⟨_, step, settled.gap_eq, settled.items.insert holds, settled.listed.enqueue known,
      expiring_enqueue settled known, ?_⟩
    refine settled.counted.of_silent unproved (sum_insert_unproved ?_) rfl
    cases found : q.items.find? (.fromInfo info) with
    | none => rfl
    | some item => exact unproved item found

/-! ## Retiring proofs -/

/-- The counters without the proof of an item. -/
def without (q : BatchProofQueue) (item : QueueItem)
    (occurrences : Table TxnSummaryWithExpiration Nat) : BatchProofQueue :=
  { q.moved (· - ·) item with txnSummaryNumOccurrences := occurrences }

theorem retireProof_eq (counts : q.Counted)
    (found : q.items.find? key = some item) (isProved : item.proof.isSome) :
    ∃ occurrences, q.retireProof item.info item = some (q.without item occurrences) ∧
      (∀ s, countOf occurrences s + (item.txnSummaries.getD []).count s =
        countOf q.txnSummaryNumOccurrences s) ∧
      ∀ s, occurrences.find? s ≠ some 0 := by
  have le := counts.amount_le found isProved
  have dec := changeRemainingProofs_eq (· - ·) (fun _ => rfl) fun c _ => Word64.sub64_eq (le c)
  obtain ⟨occurrences, folded, occurs, positive⟩ :=
    foldlM_forgetOccurrence (fun s => le (.occurrences s)) counts.positive
  refine ⟨occurrences, ?_, occurs, positive⟩
  unfold retireProof
  rw [decRemainingProofs, dec, some_bind, forgetOccurrences]
  dsimp only [moved]
  rw [folded]
  rfl

/-- The item of a retired proof is removed, or counts nothing any more. -/
theorem Counted.without
    (counts : q.Counted) (found : q.items.find? key = some item) (isProved : item.proof.isSome)
    {occurrences : Table TxnSummaryWithExpiration Nat}
    (occurs : ∀ s, countOf occurrences s + (item.txnSummaries.getD []).count s =
      countOf q.txnSummaryNumOccurrences s)
    (positive : ∀ s, occurrences.find? s ≠ some 0)
    (sums : ∀ weight : QueueItem → Nat, (∀ item, item.proof = none → weight item = 0) →
      (q'.items.sum fun _ => weight) + q.before key weight =
        0 + q.items.sum fun _ => weight)
    (same : q' = { q.without item occurrences with
      items := q'.items
      authorToBatches := q'.authorToBatches }) : q'.Counted := by
  rw [same] at sums ⊢
  refine counts.of_sums rfl sums (fun c => ?_) positive
  have le := counts.amount_le found isProved c
  rw [before_of_some found, weight, item.proved_of_some isProved, zero_add]
  cases c with
  | occurrences s => exact occurs s
  | _ => exact Nat.sub_add_cancel le

theorem Registry.Holds.markCommitted
    (holds : registry.Holds key item) : registry.Holds key item.markCommitted := by
  refine ⟨holds.known, holds.keyed, ?_, rfl, ?_⟩
  · rintro _ ⟨⟩
  · rintro _ ⟨⟩

variable {batch : BatchInfo}

theorem commitBatch_of_none (absent : q.items.find? (.fromInfo batch) = none) :
    q.commitBatch batch =
      some ((q.enqueue batch).setItem (.fromInfo batch) ⟨batch, none, none, none⟩) := by
  unfold commitBatch
  simp only [absent]

theorem commitBatch_of_some (found : q.items.find? (.fromInfo batch) = some item)
    (committed : q.commitProof batch item = some q') :
    q.commitBatch batch = some (q'.setItem (.fromInfo batch) item.markCommitted) := by
  unfold commitBatch
  simp only [found, committed]
  rfl

theorem commitBatch_settled (settled : Settled registry q) (known : batch ∈ registry.infos) :
    ∃ q', q.commitBatch batch = some q' ∧ Settled registry q' := by
  cases found : q.items.find? (.fromInfo batch) with
  | none =>
    have unproved (item : QueueItem) (here : q.items.find? (.fromInfo batch) = some item) :
        item.proof = none := by
      rw [found] at here
      cases here
    have holds : registry.Holds (.fromInfo batch) ⟨batch, none, none, none⟩ :=
      ⟨known, rfl, fun _ absent => (by cases absent), rfl, fun _ absent => (by cases absent)⟩
    refine ⟨_, commitBatch_of_none found, settled.gap_eq, settled.items.insert holds,
      settled.listed.enqueue known, expiring_enqueue settled known, ?_⟩
    exact settled.counted.of_silent unproved (sum_insert_unproved rfl) rfl
  | some item =>
    have holds := settled.items _ item found
    have info_eq := Registry.Holds.info_eq holds known
    have items := settled.items.insert (Registry.Holds.markCommitted holds)
    have listed := settled.listed.set (.fromInfo batch) item.markCommitted
    by_cases isProved : item.proof.isSome
    · obtain ⟨time, timed⟩ := isSome_iff_exists.mp (holds.timed ▸ isProved)
      obtain ⟨occurrences, retired, occurs, positive⟩ :=
        retireProof_eq settled.counted found isProved
      have step : q.commitProof batch item = some (q.without item occurrences) := by
        unfold commitProof
        rw [if_pos isProved, timed, ← info_eq]
        exact retired
      refine ⟨_, commitBatch_of_some found step, settled.gap_eq, items, listed,
        settled.expiring, ?_⟩
      exact settled.counted.without found isProved occurs positive (sum_insert_unproved rfl) rfl
    · have unproved (other : QueueItem) (here : q.items.find? (.fromInfo batch) = some other) :
          other.proof = none := by
        rw [found] at here
        cases here
        simpa using isProved
      refine ⟨_, commitBatch_of_some found (if_neg isProved), settled.gap_eq, items, listed,
        settled.expiring, ?_⟩
      exact settled.counted.of_silent unproved (sum_insert_unproved rfl) rfl

/-! ## Garbage collection and expiration -/

theorem unqueue_eq (q : BatchProofQueue) (info : BatchInfo) :
    q.unqueue info = { q with authorToBatches := (q.unqueue info).authorToBatches } := by
  unfold unqueue
  cases q.authorToBatches.find? info.author with
  | none | some queue => rfl

theorem unqueue_items (q : BatchProofQueue) (info : BatchInfo) :
    (q.unqueue info).items = q.items := by rw [unqueue_eq]

variable {timestamp : Nat}

theorem gcItem_settled (settled : Settled registry q) (holds : registry.Holds key item)
    (here : ∀ other, q.items.find? key = some other → other = item) :
    Settled registry (gcItem timestamp q (key, item)) := by
  unfold gcItem
  split
  · exact settled
  rename_i kept
  have unproved (other : QueueItem) (found : q.items.find? key = some other) :
      other.proof = none := by
    rw [here other found]
    simpa using fun isProved => kept (.inr (.inl isProved))
  dsimp only
  rw [unqueue_items]
  refine ⟨?_, settled.items.erase key, ?_, ?_, ?_⟩
  · rw [unqueue_eq]
    exact settled.gap_eq
  · rw [← holds.keyed]
    exact settled.listed.remove holds.known fun _ _ _ lists => lists_unqueue.mp lists
  · rw [unqueue_eq]
    exact settled.expiring
  · refine settled.counted.of_silent unproved (fun weight _ => sum_erase_before weight) ?_
    rw [unqueue_eq]

theorem gcItem_items {entry : BatchKey × QueueItem}
    (found : (gcItem timestamp q entry).items.find? key = some item) :
    q.items.find? key = some item := by
  unfold gcItem at found
  split at found
  · exact found
  dsimp only at found
  rw [unqueue_items, Table.find?_erase] at found
  split at found
  · cases found
  · exact found

theorem gc_settled (settled : Settled registry q) (timestamp : Nat) :
    Settled registry (q.gcExpiredBatchSummariesWithoutProofs timestamp) := by
  -- The items that are still there are those that were there at the start.
  suffices kept : ∀ entries : List (BatchKey × QueueItem), (∀ entry ∈ entries,
      q.items.find? entry.1 = some entry.2) → ∀ now, Settled registry now →
      (∀ key item, now.items.find? key = some item → q.items.find? key = some item) →
      Settled registry (entries.foldl (gcItem timestamp) now) from
    kept _ (fun entry mem => Table.find?_eq_some.mpr mem) q settled fun _ _ found => found
  intro entries present
  induction entries with
  | nil => exact fun now settled _ => settled
  | cons entry entries ih =>
    intro now nowSettled still
    have first := present entry mem_cons_self
    have next : Settled registry (gcItem timestamp now entry) := by
      refine gcItem_settled nowSettled (settled.items _ _ first) fun other found => ?_
      have := still _ _ found
      rw [first] at this
      exact (some.inj this).symm
    exact ih (fun entry mem => present entry (mem_cons_of_mem _ mem)) _ next
      fun key item found => still key item (gcItem_items found)

theorem restoreQueue_eq (q : BatchProofQueue) (author : PeerId) (queue : Queue) :
    q.restoreQueue author queue =
      { q with authorToBatches := (q.restoreQueue author queue).authorToBatches } := by
  unfold restoreQueue
  split
  · rfl
  · rfl

theorem Settled.relist (settled : Settled registry q) (listed : Listed registry queues q.items) :
    Settled registry { q with authorToBatches := queues } where
  gap_eq := settled.gap_eq
  items := settled.items
  listed := listed
  expiring := settled.expiring
  counted := ⟨settled.counted.count_eq, settled.counted.positive⟩

/-- The queue while expired keys are handled, with the number of proofs among them so far. -/
def Expires (registry : Registry gap) (state : BatchProofQueue × Nat) : Prop :=
  Settled registry state.1 ∧ state.2 + state.1.remainingProofs < 2 ^ 64

/-- An expired batch, whose author's queue is taken out: its item goes, and its proof leaves the
counters. -/
theorem expireBatch_settled {numExpired : Nat}
    (expires : Expires registry (q, numExpired)) (known : batch ∈ registry.infos)
    (isItem : (q.items.find? (.fromInfo batch)).isSome) (due : batch.expiration ≤ timestamp)
    (alone : ∀ author key info, Lists q.authorToBatches author key info → author ≠ batch.author) :
    ∃ state, q.expireBatch timestamp numExpired (.fromInfo batch) batch = some state ∧
      Expires registry state ∧ state.1.authorToBatches = q.authorToBatches ∧
      state.1.items = q.items.erase (.fromInfo batch) := by
  have settled : Settled registry q := expires.1
  have few : numExpired + q.remainingProofs < 2 ^ 64 := expires.2
  obtain ⟨item, found⟩ := isSome_iff_exists.mp isItem
  have listed : Listed registry q.authorToBatches (q.items.erase (.fromInfo batch)) :=
    settled.listed.remove known fun author key info lists =>
      ⟨lists, fun both => alone author key info lists both.1⟩
  have removed {q' : BatchProofQueue} {n : Nat}
      (step : q.expireProof timestamp numExpired batch item = some (q', n))
      (items : q'.items = q.items) :
      q.expireBatch timestamp numExpired (.fromInfo batch) batch =
        some ({ q' with items := q'.items.erase (.fromInfo batch) }, n) := by
    have same : (BatchSortKey.fromInfo batch).batchKey = .fromInfo batch := rfl
    rw [expireBatch, same, found, some_bind, step, some_bind]
    dsimp only
    rw [items, found]
    rfl
  by_cases isProved : item.proof.isSome
  · obtain ⟨occurrences, retired, occurs, positive⟩ := retireProof_eq settled.counted found isProved
    have one : 1 ≤ q.remainingProofs := settled.counted.amount_le found isProved .proofs
    have step : q.expireProof timestamp numExpired batch item =
        some (q.without item occurrences, numExpired + 1) := by
      unfold expireProof
      rw [if_pos isProved, Word64.add64_eq (by omega), Word64.sub64_eq due,
        ← Registry.Holds.info_eq (settled.items _ item found) known, retired]
      rfl
    refine ⟨_, removed step rfl, ⟨⟨settled.gap_eq, settled.items.erase _, listed,
      settled.expiring, ?_⟩, ?_⟩, rfl, rfl⟩
    · exact settled.counted.without found isProved occurs positive
        (fun weight _ => sum_erase_before weight) rfl
    · show numExpired + 1 + (q.remainingProofs - 1) < 2 ^ 64
      omega
  · have unproved (other : QueueItem) (here : q.items.find? (.fromInfo batch) = some other) :
        other.proof = none := by
      rw [found] at here
      cases here
      simpa using isProved
    refine ⟨_, removed (if_neg isProved) rfl, ⟨⟨settled.gap_eq, settled.items.erase _, listed,
      settled.expiring, ?_⟩, few⟩, rfl, rfl⟩
    exact settled.counted.of_silent unproved (fun weight _ => sum_erase_before weight) rfl

theorem expireKey_settled {state : BatchProofQueue × Nat}
    (expires : Expires registry state) (known : info ∈ registry.infos)
    (due : info.expiration ≤ timestamp) :
    ∃ state', expireKey timestamp state (.fromInfo info) = some state' ∧
      Expires registry state' := by
  obtain ⟨q, numExpired⟩ := state
  have settled : Settled registry q := expires.1
  unfold expireKey
  cases foundQueue : q.authorToBatches.find? (BatchSortKey.fromInfo info).author with
  | none => exact ⟨_, rfl, expires⟩
  | some queue =>
    dsimp only
    cases foundBatch : queue.find? (.fromInfo info) with
    | none =>
      refine ⟨_, rfl, ?_, ?_⟩
      · rw [restoreQueue_eq]
        refine settled.relist fun author key other lists => settled.listed author key other ?_
        rw [lists_restoreQueue rfl] at lists
        split at lists
        · rename_i same
          exact ⟨queue, same ▸ foundQueue, lists⟩
        · exact lists
      · rw [restoreQueue_eq]
        exact expires.2
    | some batch =>
      obtain ⟨here, _, key_eq, isItem⟩ :=
        settled.listed _ _ _ ⟨queue, foundQueue, foundBatch⟩
      -- One batch of the registry has the key, so this is the one that expires.
      cases registry.unique batch here info known (congrArg BatchSortKey.batchKey key_eq)
      have others {author : PeerId} {key : BatchSortKey} {other : BatchInfo}
          (lists : Lists (q.authorToBatches.erase info.author) author key other) :
          author ≠ info.author ∧ Lists q.authorToBatches author key other := by
        obtain ⟨old, found, entry⟩ := lists
        rw [Table.find?_erase] at found
        split at found
        · cases found
        · rename_i same
          exact ⟨same, old, found, entry⟩
      have out : Expires registry
          ({ q with authorToBatches := q.authorToBatches.erase info.author }, numExpired) :=
        ⟨settled.relist fun author key other lists =>
          settled.listed author key other (others lists).2, expires.2⟩
      obtain ⟨⟨q', n⟩, step, ⟨settled', few'⟩, queues, items⟩ :=
        expireBatch_settled out known isItem due fun _ _ _ lists => (others lists).1
      refine ⟨(q'.restoreQueue info.author (queue.erase (.fromInfo info)), n), ?_, ?_, ?_⟩
      · rw [show (BatchSortKey.fromInfo info).author = info.author from rfl]
        dsimp only
        rw [step]
        rfl
      · rw [restoreQueue_eq]
        refine settled'.relist ?_
        rw [items]
        refine settled.listed.remove known fun author key other lists => ?_
        rw [lists_restoreQueue queues] at lists
        split at lists
        · rename_i mine
          rw [OrderedMap.find?_erase] at lists
          split at lists
          · cases lists
          · rename_i same
            exact ⟨⟨queue, mine ▸ foundQueue, lists⟩, fun both => same both.2⟩
        · rename_i ne
          exact ⟨lists, fun both => ne both.1⟩
      · rw [restoreQueue_eq]
        exact few'

/-! ## Whole calls -/

section

variable (settled : Settled registry q)

include settled

theorem insertProof_settled (known : proof.info ∈ registry.infos) (instant nowUsecs : Nat) :
    ∃ q', q.insertProof proof instant nowUsecs = some q' ∧ Settled registry q' := by
  unfold insertProof
  split
  · exact ⟨q, rfl, settled⟩
  split
  · exact ⟨q, rfl, settled⟩
  rename_i there
  have unproved (item : QueueItem) (found : q.items.find? (.fromInfo proof.info) = some item) :
      item.proof = none := by
    rw [found, any_some, Bool.or_eq_true, not_or] at there
    simpa using there.1
  obtain ⟨q', added, settled'⟩ := addProof_settled settled known instant unproved
  exact ⟨_, by rw [added]; rfl, gc_settled settled' nowUsecs⟩

theorem insertBatches_settled {batches : List (BatchInfo × List TxnSummaryWithExpiration)}
    (known : ∀ batch ∈ batches, batch.1 ∈ registry.infos ∧ batch.2.length = batch.1.numTxns)
    (nowUsecs : Nat) :
    ∃ q', q.insertBatches batches nowUsecs = some q' ∧ Settled registry q' := by
  have folded : ∃ q', batches.foldlM insertBatch q = some q' ∧ Settled registry q' :=
    Run.foldlM_keeps (fun now settled batch mem => by
      unfold insertBatch
      split
      · exact ⟨now, rfl, settled⟩
      rename_i there
      refine addBatch_settled settled (known batch mem).1 (known batch mem).2 fun item found => ?_
      rw [found, any_some, Bool.or_eq_true, not_or] at there
      simpa using there.2) settled
  obtain ⟨q', folded, settled'⟩ := folded
  unfold insertBatches
  exact ⟨_, by rw [folded]; rfl, gc_settled settled' nowUsecs⟩

theorem markCommitted_settled {batches : List BatchInfo}
    (known : ∀ batch ∈ batches, batch ∈ registry.infos) :
    ∃ q', q.markCommitted batches = some q' ∧ Settled registry q' :=
  Run.foldlM_keeps (fun _ settled batch mem => commitBatch_settled settled (known batch mem))
    settled

theorem handleUpdatedBlockTimestamp_settled (timestamp : Nat) (shuffle : Shuffle) :
    ∃ q', q.handleUpdatedBlockTimestamp timestamp shuffle = some q' ∧ Settled registry q' := by
  unfold handleUpdatedBlockTimestamp
  split
  · exact ⟨q, rfl, settled⟩
  have start : Expires registry
      (({ q with latestBlockTimestamp := timestamp }.expire timestamp).2, 0) := by
    refine ⟨⟨settled.gap_eq, settled.items, settled.listed, fun entry mem =>
      settled.expiring entry (mem_of_mem_filter mem), settled.counted.count_eq,
      settled.counted.positive⟩, ?_⟩
    rw [zero_add]
    show q.count .proofs < 2 ^ 64
    rw [settled.counted.count_eq]
    exact settled.items.weight_lt .proofs
  have each (state : BatchProofQueue × Nat) (expires : Expires registry state) (key : BatchSortKey)
      (mem : key ∈ shuffle.arrange 0
        ({ q with latestBlockTimestamp := timestamp }.expire timestamp).1) :
      ∃ state', expireKey timestamp state key = some state' ∧ Expires registry state' := by
    rw [(shuffle.perm _ _).mem_iff, expire, mem_dedup] at mem
    obtain ⟨entry, expired, rfl⟩ := mem_map.mp mem
    obtain ⟨info, known, rfl⟩ := settled.expiring entry (mem_of_mem_filter expired)
    exact expireKey_settled expires known (by simpa using of_mem_filter expired)
  obtain ⟨⟨q', n⟩, folded, settled', _⟩ := Run.foldlM_keeps each start
  refine ⟨q', ?_, settled'⟩
  exact congrArg (fun outcome => outcome.bind fun state => some state.1) folded

end

end BatchProofQueue

end CreditChain.QuorumStore
