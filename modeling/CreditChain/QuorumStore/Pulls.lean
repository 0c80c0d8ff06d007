import CreditChain.QuorumStore.Rounds

/-!
# Pulling batches and proofs

A pull visits every queued batch at most once, in any order of the authors, so that what it adds
up stays within what the batches of the registry have together.

* `queue_never_panics`: no call of a run over the batches of a registry panics.
* `byzantine_author_crashes`: a batch that was never created by the clock of its author, or two
  batches under one id, stop the queue.
-/

namespace CreditChain.QuorumStore

open List

/-! ## Sizes -/

namespace PayloadTxnsSize

theorem newNormalized_le (count bytes : Nat) :
    (newNormalized count bytes).count ≤ (newNormalized count bytes).bytes ∧
      (count ≤ bytes → (newNormalized count bytes).bytes ≤ bytes) := by
  unfold newNormalized
  dsimp only
  split_ifs
  all_goals dsimp only
  all_goals omega

theorem new_count_le (count bytes : Nat) : (new count bytes).count ≤ (new count bytes).bytes := by
  unfold new tryNew
  split_ifs with valid
  · exact valid.1
  · exact (newNormalized_le count bytes).1

/-- Sizes add up as long as their bytes do. -/
theorem add_eq {a b : PayloadTxnsSize} (left : a.count ≤ a.bytes) (right : b.count ≤ b.bytes)
    (small : a.bytes + b.bytes < 2 ^ 64) :
    ∃ sum, a.add b = some sum ∧ sum.count ≤ sum.bytes ∧ sum.bytes ≤ a.bytes + b.bytes := by
  refine ⟨newNormalized (a.count + b.count) (a.bytes + b.bytes), ?_,
    (newNormalized_le _ _).1, (newNormalized_le _ _).2 (by omega)⟩
  unfold add
  rw [Word64.add64_eq (by omega), Word64.add64_eq small]
  rfl

end PayloadTxnsSize

theorem BatchInfo.size_count_le (info : BatchInfo) : info.size.count ≤ info.size.bytes :=
  PayloadTxnsSize.new_count_le _ _

namespace BatchProofQueue

variable {gap : Nat} {registry : Registry gap} {q : BatchProofQueue} (args : PullArgs)
  {withoutProofs : Bool} {maxCreation : Option Nat} {pull : Pull}

/-! ## Iterations -/

/-- What the batches of an iteration have together. -/
def load (amount : BatchInfo → Nat) (iter : BatchIter) : Nat :=
  (iter.map fun entry => amount entry.2).sum

/-- Every entry is a batch of the registry under its own key. -/
def Genuine (registry : Registry gap) (iter : BatchIter) : Prop :=
  ∀ entry ∈ iter, entry.2 ∈ registry.infos ∧ .fromInfo entry.2 = entry.1

theorem load_cons (amount : BatchInfo → Nat) (key : BatchSortKey) (info : BatchInfo)
    (iter : BatchIter) : load amount ((key, info) :: iter) = amount info + load amount iter := rfl

theorem load_le (amount : BatchInfo → Nat) {fewer iter : BatchIter} (part : fewer.Subperm iter) :
    load amount fewer ≤ load amount iter := by
  obtain ⟨list, perm, sub⟩ := part
  unfold load
  rw [← (perm.map _).sum_eq]
  exact (sub.map _).sum_le_sum fun _ _ => Nat.zero_le _

variable {iters iters' : List BatchIter}

theorem fuelOf_perm (perm : iters.Perm iters') : fuelOf iters = fuelOf iters' := (perm.map _).sum_eq

theorem fuelOf_cons (iter : BatchIter) (iters : List BatchIter) :
    fuelOf (iter :: iters) = iter.length + 1 + fuelOf iters := rfl

/-- What `next` of an iteration may return: a batch further on, with its item. -/
def Offers (q : BatchProofQueue) (withoutProofs : Bool) (iter : BatchIter) :
    Option ((BatchInfo × QueueItem) × BatchIter) → Prop
  | none => True
  | some ((batch, item), rest) =>
    (∃ skipped key, iter = skipped ++ (key, batch) :: rest) ∧
      q.items.find? (.fromInfo batch) = some item ∧
      item.proof.isNone = withoutProofs

theorem nextBatch_offers (settled : Settled registry q) {iter : BatchIter}
    (genuine : Genuine registry iter) :
    ∃ next, q.nextBatch withoutProofs maxCreation iter = some next ∧
      Offers q withoutProofs iter next := by
  induction iter with
  | nil => exact ⟨none, rfl, trivial⟩
  | cons entry iter ih =>
    obtain ⟨key, info⟩ := entry
    obtain ⟨next, found, offers⟩ := ih fun entry mem => genuine entry (mem_cons_of_mem _ mem)
    -- What the rest offers, the whole iteration offers after the skipped entry.
    have skip : Offers q withoutProofs ((key, info) :: iter) next := by
      rcases next with _ | ⟨⟨batch, item⟩, rest⟩
      · trivial
      · obtain ⟨⟨skipped, key', split⟩, item_eq, matched⟩ := offers
        exact ⟨⟨(key, info) :: skipped, key', by rw [split]; rfl⟩, item_eq, matched⟩
    unfold nextBatch
    cases here : q.items.find? key.batchKey with
    | none => exact ⟨next, found, skip⟩
    | some item =>
      obtain ⟨known, key_eq⟩ : info ∈ registry.infos ∧ .fromInfo info = key :=
        genuine _ mem_cons_self
      have keyed : q.items.find? (.fromInfo info) = some item := by
        rw [← here, ← key_eq]
        rfl
      have info_eq := Registry.Holds.info_eq (settled.items _ item keyed) known
      have created : q.batchExpiryGapWhenInitUsecs ≤ item.info.expiration := by
        rw [settled.gap_eq, info_eq]
        exact registry.created info known
      dsimp only
      rw [Word64.sub64_eq created]
      dsimp only
      split
      · rename_i through
        refine ⟨_, rfl, ⟨[], key, rfl⟩, keyed, ?_⟩
        unfold passes at through
        rw [Bool.and_eq_true, Bool.not_eq_true'] at through
        exact (bne_eq_false_iff_eq.mp through.2).symm
      · exact ⟨next, found, skip⟩

/-! ## One visit -/

/-- What is pulled so far, together with what is left to visit, is within range. -/
structure Fits (registry : Registry gap) (withoutProofs : Bool) (pull : Pull)
    (left : BatchIter) : Prop where
  unique : pull.curUniqueTxns + load (·.numTxns) left < 2 ^ 64
  normal : pull.curAllTxns.count ≤ pull.curAllTxns.bytes
  size : pull.curAllTxns.bytes + load (·.size.bytes) left < 2 ^ 64
  excluded : pull.excludedTxns + load (·.numTxns) left < 2 ^ 64
  pulled : (pull.result.map (·.info.numTxns)).sum + load (·.numTxns) left < 2 ^ 64
  items : ∀ item ∈ pull.result, (∃ key, registry.Holds key item) ∧
    item.proof.isNone = withoutProofs

variable {left fewer : BatchIter}

theorem Fits.mono (fits : Fits registry withoutProofs pull left) (part : fewer.Subperm left) :
    Fits registry withoutProofs pull fewer where
  unique := (Nat.add_le_add_left (load_le _ part) _).trans_lt fits.unique
  normal := fits.normal
  size := (Nat.add_le_add_left (load_le _ part) _).trans_lt fits.size
  excluded := (Nat.add_le_add_left (load_le _ part) _).trans_lt fits.excluded
  pulled := (Nat.add_le_add_left (load_le _ part) _).trans_lt fits.pulled
  items := fits.items

theorem addUnique_le (blockTimestampSecs : Nat)
    (filtered summaries : List TxnSummaryWithExpiration) :
    (addUnique blockTimestampSecs filtered summaries).1 ≤ summaries.length := by
  induction summaries generalizing filtered with
  | nil => exact le_rfl
  | cons summary summaries ih =>
    unfold addUnique
    split
    · exact (ih filtered).trans (Nat.le_succ _)
    have rest := ih (summary :: filtered)
    dsimp only
    split
    · exact Nat.succ_le_succ rest
    · exact rest.trans (Nat.le_succ _)

variable {key : BatchKey} {item : QueueItem}

/-- The unique transactions of an item are among those of its batch. -/
theorem elim_summaries_le (holds : registry.Holds key item)
    {count : List TxnSummaryWithExpiration → Nat}
    (le : ∀ summaries, count summaries ≤ summaries.length) :
    item.txnSummaries.elim item.info.numTxns count ≤ item.info.numTxns := by
  cases summaries : item.txnSummaries with
  | none => exact le_rfl
  | some list =>
    rw [Option.elim_some, ← holds.summaries list summaries]
    exact le list

section

variable (holds : registry.Holds key item) (matched : item.proof.isNone = withoutProofs)
  {sortKey : BatchSortKey} (fits : Fits registry withoutProofs pull ((sortKey, item.info) :: left))

include holds matched fits

theorem includeBatch_fits :
    ∃ pull' keep, includeBatch args withoutProofs pull item.info item = some (pull', keep) ∧
      Fits registry withoutProofs pull' left := by
  have ⟨unique, normal, size, excluded, pulled, items⟩ := fits
  rw [load_cons] at unique size excluded pulled
  obtain ⟨all, added, normal, le⟩ :=
    PayloadTxnsSize.add_eq normal item.info.size_count_le (by omega)
  have fresh : (item.txnSummaries.elim (item.info.numTxns, pull.filteredTxns)
      (addUnique args.blockTimestampSecs pull.filteredTxns)).1 ≤ item.info.numTxns := by
    have within := elim_summaries_le holds (addUnique_le args.blockTimestampSecs pull.filteredTxns)
    generalize item.txnSummaries = summaries at within
    cases summaries with
    | none => exact le_rfl
    | some list => exact within
  unfold includeBatch
  rw [added, some_bind]
  generalize item.txnSummaries.elim (item.info.numTxns, pull.filteredTxns)
    (addUnique args.blockTimestampSecs pull.filteredTxns) = new at fresh
  dsimp only at fresh ⊢
  rw [Word64.add64_eq (by omega), some_bind, guard_bind matched]
  refine ⟨_, _, rfl, ⟨?_, normal, ?_, ?_, ?_, ?_⟩⟩
  · dsimp only
    omega
  · dsimp only
    omega
  · dsimp only
    omega
  · rw [map_append, sum_append, map_singleton, sum_singleton]
    omega
  · exact forall_mem_concat items ⟨⟨key, holds⟩, matched⟩

theorem visitBatch_fits :
    ∃ pull' keep, visitBatch args withoutProofs pull item.info item = some (pull', keep) ∧
      Fits registry withoutProofs pull' left := by
  have ⟨unique, normal, size, excluded, pulled, items⟩ := fits
  rw [load_cons] at unique size excluded pulled
  unfold visitBatch
  split
  · rw [Word64.add64_eq (by omega)]
    refine ⟨_, _, rfl, ⟨?_, normal, ?_, ?_, ?_, items⟩⟩
    all_goals dsimp only
    all_goals omega
  unfold considerBatch
  have fresh : item.txnSummaries.elim item.info.numTxns
      (numUnique pull.filteredTxns args.blockTimestampSecs) ≤ item.info.numTxns :=
    elim_summaries_le holds fun summaries => length_filter_le _ summaries
  obtain ⟨all, added, _, _⟩ :=
    PayloadTxnsSize.add_eq normal item.info.size_count_le (by omega)
  rw [Word64.add64_eq (by omega), some_bind, added, some_bind]
  split
  · refine ⟨_, _, rfl, ⟨?_, normal, ?_, ?_, ?_, items⟩⟩
    all_goals dsimp only
    all_goals omega
  · exact includeBatch_fits args holds matched fits

end

theorem lists_of_mem {author : PeerId} {queue : Queue} {key : BatchSortKey} {info : BatchInfo}
    (mem : (author, queue) ∈ q.authorToBatches.entries) (entry : (key, info) ∈ queue.entries) :
    Lists q.authorToBatches author key info :=
  ⟨queue, Table.find?_eq_some.mpr mem, OrderedMap.find?_eq_some.mpr entry⟩

/-! ## The rounds -/

section

variable (settled : Settled registry q)

include settled

theorem serve_fits {iter : BatchIter} (genuine : Genuine registry iter)
    (fits : Fits registry withoutProofs pull (iter ++ left)) :
    ∃ pull' kept, q.serve args withoutProofs maxCreation pull iter = some (pull', kept) ∧
      Fits registry withoutProofs pull' (kept.toList.flatten ++ left) ∧
      (∀ iter ∈ kept.toList, Genuine registry iter) ∧ fuelOf kept.toList ≤ iter.length := by
  have dropped : Fits registry withoutProofs pull left :=
    fits.mono (sublist_append_right iter left).subperm
  unfold serve
  split
  · exact ⟨pull, none, rfl, dropped, fun _ mem => (by cases mem), Nat.zero_le _⟩
  obtain ⟨next, found, offers⟩ := nextBatch_offers settled genuine
  rw [found]
  rcases next with _ | ⟨⟨batch, item⟩, rest⟩
  · exact ⟨pull, none, rfl, dropped, fun _ mem => (by cases mem), Nat.zero_le _⟩
  obtain ⟨⟨skipped, key, split⟩, here, matched⟩ := offers
  have known : batch ∈ registry.infos := (genuine (key, batch) (by rw [split]; simp)).1
  have holds := settled.items _ item here
  have info_eq := Registry.Holds.info_eq holds known
  have visited : Fits registry withoutProofs pull ((key, item.info) :: (rest ++ left)) := by
    rw [split, append_assoc] at fits
    rw [info_eq]
    exact fits.mono (sublist_append_right skipped _).subperm
  obtain ⟨pull', keep, visit, fits'⟩ := visitBatch_fits args holds matched visited
  rw [info_eq] at visit
  dsimp only
  rw [visit]
  cases keep with
  | true =>
    refine ⟨pull', some rest, rfl, ?_, ?_, ?_⟩
    · rw [Option.toList_some, flatten_singleton]
      exact fits'
    · intro iter mem
      cases mem_singleton.mp mem
      exact fun entry mem => genuine entry (by rw [split]; simp [mem])
    · rw [split, length_append]
      exact Nat.le_add_left _ _
  | false =>
    exact ⟨pull', none, rfl, fits'.mono (sublist_append_right rest left).subperm,
      fun _ mem => (by cases mem), Nat.zero_le _⟩

theorem serveAll_fits (genuine : ∀ iter ∈ iters, Genuine registry iter)
    (fits : Fits registry withoutProofs pull (iters.flatten ++ left)) :
    ∃ pull' iters', q.serveAll args withoutProofs maxCreation pull iters = some (pull', iters') ∧
      Fits registry withoutProofs pull' (iters'.flatten ++ left) ∧
      (∀ iter ∈ iters', Genuine registry iter) ∧ fuelOf iters' + iters.length ≤ fuelOf iters := by
  induction iters generalizing pull left with
  | nil => exact ⟨pull, [], rfl, fits, genuine, le_rfl⟩
  | cons iter iters ih =>
    rw [flatten_cons, append_assoc] at fits
    obtain ⟨next, kept, served, fits₁, genuine₁, less₁⟩ :=
      serve_fits args settled (genuine iter mem_cons_self) fits
    obtain ⟨last, iters', rest, fits₂, genuine₂, less₂⟩ :=
      ih (fun iter mem => genuine iter (mem_cons_of_mem _ mem))
        (fits₁.mono (perm_append_comm_assoc _ _ _).subperm)
    refine ⟨last, kept.toList ++ iters', ?_, ?_, ?_, ?_⟩
    · unfold serveAll
      rw [served, some_bind]
      dsimp only
      rw [rest]
      rfl
    · rw [flatten_append, append_assoc]
      exact fits₂.mono (perm_append_comm_assoc _ _ _).subperm
    · intro iter mem
      rcases mem_append.mp mem with first | later
      · exact genuine₁ iter first
      · exact genuine₂ iter later
    · rw [fuelOf, map_append, sum_append, ← fuelOf, ← fuelOf, fuelOf_cons, length_cons]
      omega

/-- The loop ends, and what it pulled is within range. -/
theorem serveRounds_fits {fuel : Nat} (enough : fuelOf iters ≤ fuel)
    (genuine : ∀ iter ∈ iters, Genuine registry iter)
    (fits : Fits registry withoutProofs pull iters.flatten) :
    ∃ pull', q.serveRounds args withoutProofs maxCreation fuel pull iters = some pull' ∧
      Fits registry withoutProofs pull' [] := by
  induction fuel generalizing pull iters with
  | zero =>
    cases iters with
    | nil => exact ⟨pull, rfl, fits⟩
    | cons iter iters =>
      rw [fuelOf_cons] at enough
      omega
  | succ fuel ih =>
    cases iters with
    | nil => exact ⟨pull, rfl, fits⟩
    | cons iter iters =>
      have perm := args.shuffle.perm fuel (iter :: iters)
      have fits := fits.mono perm.flatten.subperm
      rw [← append_nil (flatten _)] at fits
      obtain ⟨next, iters', served, fits', genuine', less⟩ :=
        serveAll_fits args settled (fun iter mem => genuine iter (perm.mem_iff.mp mem)) fits
      rw [append_nil] at fits'
      rw [perm.length_eq, fuelOf_perm perm, length_cons] at less
      obtain ⟨last, rest, fitsLast⟩ := ih (by omega) genuine' fits'
      refine ⟨last, ?_, fitsLast⟩
      unfold serveRounds
      rw [served]
      exact rest

/-! ## The queued batches -/

/-- All queued batches. -/
def queuedBatches (q : BatchProofQueue) : List BatchInfo :=
  q.authorToBatches.entries.flatMap fun entry => entry.2.entries.map (·.2)

theorem queuedBatches_nodup : q.queuedBatches.Nodup := by
  unfold queuedBatches
  rw [nodup_flatMap]
  refine ⟨fun entry mem => ?_, ?_⟩
  · -- The keys of a queue are different, and are those of the batches.
    refine Nodup.of_map BatchSortKey.fromInfo ?_
    rw [map_map]
    refine (map_congr_left fun item here => ?_).symm ▸ OrderedMap.keys_nodup entry.2.sorted
    exact (settled.listed _ _ _ (lists_of_mem mem here)).2.2.1
  · have distinct := pairwise_map.mp q.authorToBatches.distinct
    refine distinct.imp_of_mem fun {a b} memA memB ne => ?_
    intro info inA inB
    obtain ⟨_, hereA, rfl⟩ := mem_map.mp inA
    obtain ⟨_, hereB, same⟩ := mem_map.mp inB
    have authorA := (settled.listed _ _ _ (lists_of_mem memA hereA)).2.1
    have authorB := (settled.listed _ _ _ (lists_of_mem memB hereB)).2.1
    rw [same] at authorB
    exact ne (authorA.symm.trans authorB)

theorem queuedBatches_subset : q.queuedBatches ⊆ registry.infos := by
  intro info mem
  obtain ⟨entry, memEntry, here⟩ := mem_flatMap.mp mem
  obtain ⟨_, hereItem, rfl⟩ := mem_map.mp here
  exact (settled.listed _ _ _ (lists_of_mem memEntry hereItem)).1

theorem sum_le_registry {batches : List BatchInfo}
    (part : batches.Sublist q.queuedBatches) (amount : BatchInfo → Nat) :
    (batches.map amount).sum ≤ (registry.infos.map amount).sum := by
  obtain ⟨list, perm, sub⟩ := ((queuedBatches_nodup settled).sublist part).subperm
    fun info mem => queuedBatches_subset settled (part.subset mem)
  rw [← (perm.map amount).sum_eq]
  exact (sub.map amount).sum_le_sum fun _ _ => Nat.zero_le _

theorem iters_genuine (excludeAuthors : List Author) :
    ∀ iter ∈ q.iters excludeAuthors, Genuine registry iter := by
  intro iter mem entry here
  obtain ⟨⟨author, queue⟩, listed, rfl⟩ := mem_map.mp mem
  obtain ⟨known, _, key_eq, _⟩ := settled.listed _ _ _
    (lists_of_mem (mem_of_mem_filter listed) (mem_reverse.mp here))
  exact ⟨known, key_eq⟩

/-- The iterations together have at most what the queues have. -/
theorem load_iters_le (excludeAuthors : List Author) (amount : BatchInfo → Nat) :
    load amount (q.iters excludeAuthors).flatten ≤ (registry.infos.map amount).sum := by
  have flat (entries : List (PeerId × Queue)) :
      load amount (entries.map fun entry => entry.2.entries.reverse).flatten =
        ((entries.flatMap fun entry => entry.2.entries.map (·.2)).map amount).sum := by
    induction entries with
    | nil => rfl
    | cons entry entries ih =>
      unfold load at ih ⊢
      rw [map_cons, flatten_cons, map_append, sum_append, ih, flatMap_cons, map_append,
        sum_append, map_map, map_reverse, sum_reverse]
      rfl
  unfold iters
  rw [flat]
  exact sum_le_registry settled (filter_sublist.flatMap _) amount

end

/-! ## Pulls -/

theorem maxBatchCreation_eq (old : ∀ minAge, args.minBatchAgeUsecs = some minAge →
    minAge ≤ args.nowUsecs) : ∃ maxCreation, maxBatchCreation args = some maxCreation := by
  unfold maxBatchCreation
  cases age : args.minBatchAgeUsecs with
  | none => exact ⟨none, rfl⟩
  | some minAge =>
    refine ⟨some (args.nowUsecs - minAge), ?_⟩
    dsimp only
    rw [Word64.sub64_eq (old minAge age)]
    rfl

/-- A pull of a settled queue returns, and its items have their proofs as asked for. -/
theorem pullInternal_total (settled : Settled registry q) (withoutProofs : Bool)
    (old : ∀ minAge, args.minBatchAgeUsecs = some minAge → minAge ≤ args.nowUsecs) :
    ∃ result size unique full,
      q.pullInternal withoutProofs args = some (result, size, unique, full) ∧
      (∀ item ∈ result, (∃ key, registry.Holds key item) ∧ item.proof.isNone = withoutProofs) ∧
      (result.map (·.info.numTxns)).sum < 2 ^ 64 := by
  obtain ⟨maxCreation, created⟩ := maxBatchCreation_eq args old
  have txns := (load_iters_le settled args.excludeAuthors (·.numTxns)).trans_lt registry.txns
  have bytes :=
    (load_iters_le settled args.excludeAuthors (·.size.bytes)).trans_lt registry.bytes
  have start : Fits registry withoutProofs
      ⟨[], 0, .zero, 0, false, q.filteredTxns args.excludedBatches⟩
      (q.iters args.excludeAuthors).flatten := by
    refine ⟨?_, le_rfl, ?_, ?_, ?_, forall_mem_nil _⟩
    · rw [zero_add]
      exact txns
    · rw [show PayloadTxnsSize.zero.bytes = 0 from rfl, zero_add]
      exact bytes
    · rw [zero_add]
      exact txns
    · rw [map_nil, sum_nil, zero_add]
      exact txns
  obtain ⟨pull, served, fits⟩ :=
    serveRounds_fits args settled le_rfl (iters_genuine settled args.excludeAuthors) start
  unfold pullInternal
  rw [created, some_bind]
  dsimp only
  rw [served, some_bind]
  split
  · have perm := mergeSort_perm pull.result
      fun a b => decide (b.info.gasBucketStart ≤ a.info.gasBucketStart)
    refine ⟨_, _, _, _, rfl, fun item mem => fits.items item (perm.mem_iff.mp mem), ?_⟩
    rw [(perm.map _).sum_eq]
    exact fits.pulled
  · exact ⟨_, _, _, _, rfl, forall_mem_nil _, Nat.two_pow_pos 64⟩

theorem pulledProof_eq (holds : registry.Holds key item) (isProved : item.proof.isNone = false) :
    ∃ proof, pulledProof item = some proof ∧ proof.info = item.info := by
  rw [Option.isNone_eq_false_iff] at isProved
  obtain ⟨proof, found⟩ := Option.isSome_iff_exists.mp isProved
  obtain ⟨time, timed⟩ := Option.isSome_iff_exists.mp (holds.timed ▸ isProved)
  refine ⟨proof, ?_, holds.proof proof found⟩
  unfold pulledProof
  rw [found, timed]
  rfl

theorem mapM_pulledProof {result : List QueueItem}
    (proved : ∀ item ∈ result, (∃ key, registry.Holds key item) ∧ item.proof.isNone = false) :
    ∃ proofs, result.mapM pulledProof = some proofs ∧
      proofs.map (·.info.numTxns) = result.map (·.info.numTxns) := by
  induction result with
  | nil => exact ⟨[], rfl, rfl⟩
  | cons item result ih =>
    obtain ⟨⟨key, holds⟩, isProved⟩ := proved item mem_cons_self
    obtain ⟨proof, first, same⟩ := pulledProof_eq holds isProved
    obtain ⟨proofs, rest, sames⟩ := ih fun item mem => proved item (mem_cons_of_mem _ mem)
    refine ⟨proof :: proofs, ?_, ?_⟩
    · rw [mapM_cons, first, rest]
      rfl
    · rw [map_cons, map_cons, sames, same]

theorem logRemainingDataAfterPull_eq (settled : Settled registry q)
    (excludedBatches : List BatchInfo) {pulledProofs : List ProofOfStore}
    (small : (pulledProofs.map (·.info.numTxns)).sum < 2 ^ 64) :
    q.logRemainingDataAfterPull excludedBatches pulledProofs = some () := by
  have part : (q.remainingBatches excludedBatches pulledProofs).Sublist q.queuedBatches := by
    unfold queuedBatches
    rw [← map_flatMap]
    exact filter_sublist.map _
  have few : (q.remainingBatches excludedBatches pulledProofs).length < 2 ^ 31 := by
    have length := sum_le_registry settled part fun _ => 1
    rw [map_const', sum_replicate, map_const', sum_replicate, smul_eq_mul,
      smul_eq_mul, mul_one, mul_one] at length
    exact length.trans_lt registry.few
  have txns := (sum_le_registry settled part (·.numTxns)).trans_lt registry.txns
  unfold logRemainingDataAfterPull
  rw [guard_bind few, sum64_eq txns, sum64_eq small]
  rfl

theorem pullProofs_total (settled : Settled registry q) :
    ∃ pulled, q.pullProofs args = some pulled := by
  obtain ⟨result, size, unique, full, pulled, items, small⟩ :=
    pullInternal_total { args with excludeAuthors := [], minBatchAgeUsecs := none } settled false
      fun minAge age => by cases age
  obtain ⟨proofs, mapped, sames⟩ := mapM_pulledProof items
  rw [← sames] at small
  unfold pullProofs
  rw [pulled, some_bind]
  dsimp only
  rw [mapped, some_bind]
  split
  · rw [logRemainingDataAfterPull_eq settled _ small]
    exact ⟨_, rfl⟩
  · exact ⟨_, rfl⟩

/-! ## Runs -/

variable [PayloadEncoding]

/-- The batches of the call are in the registry; a batch with summaries has passed its check, and
the minimum age of a pull is not above the current time. -/
def Allows (registry : Registry gap) : Call → Prop
  | .insertProof proof _ _ => proof.info ∈ registry.infos
  | .insertBatches batches _ => ∀ entry ∈ batches, entry.1 ∈ registry.infos ∧
      ∃ batch : Batch, batch.verify = .ok () ∧ batch.batchInfo = entry.1 ∧
        batch.summary = entry.2
  | .markCommitted batches => ∀ batch ∈ batches, batch ∈ registry.infos
  | .handleUpdatedBlockTimestamp _ _ => True
  | .pullProofs _ => True
  | .pullBatches args => ∀ minAge, args.minBatchAgeUsecs = some minAge → minAge ≤ args.nowUsecs

theorem call_settled {input : Call} (settled : Settled registry q)
    (allowed : Allows registry input) :
    ∃ q', call input q = some q' ∧ Settled registry q' := by
  cases input with
  | insertProof proof instant nowUsecs =>
    exact insertProof_settled settled allowed instant nowUsecs
  | insertBatches batches nowUsecs =>
    refine insertBatches_settled settled (fun entry mem => ?_) nowUsecs
    obtain ⟨known, batch, verified, info_eq, summary_eq⟩ := allowed entry mem
    refine ⟨known, ?_⟩
    rw [← summary_eq, ← info_eq]
    exact Batch.summary_length verified
  | markCommitted batches => exact markCommitted_settled settled allowed
  | handleUpdatedBlockTimestamp timestamp shuffle =>
    exact handleUpdatedBlockTimestamp_settled settled timestamp shuffle
  | pullProofs args =>
    obtain ⟨pulled, total⟩ := pullProofs_total args settled
    refine ⟨q, ?_, settled⟩
    rw [call, total]
    rfl
  | pullBatches args =>
    obtain ⟨_, _, _, _, pulled, -⟩ := pullInternal_total args settled true allowed
    refine ⟨q, ?_, settled⟩
    rw [call, pullBatches, pulled]
    rfl

/-- The queues that a run over the batches of a registry reaches. -/
def Reached (registry : Registry gap) (me : PeerId) (q : BatchProofQueue) : Prop :=
  Run.Reaches call (fun _ input => Allows registry input) (fun start => start = new me gap) q

/-- In a run over the batches of a registry, no call panics. -/
theorem queue_never_panics (registry : Registry gap) (me : PeerId) {q : BatchProofQueue}
    (reached : Reached registry me q) {input : Call} (allowed : Allows registry input) :
    (call input q).isSome := by
  have settled : Settled registry q := by
    refine reached.invariant ?_ ?_
    · rintro _ rfl
      exact new_settled registry me
    intro now input next settled allowed done
    obtain ⟨q', done', settled'⟩ := call_settled settled allowed
    rw [done] at done'
    cases done'
    exact settled'
  obtain ⟨q', done, _⟩ := call_settled settled allowed
  rw [done]
  rfl

end BatchProofQueue

/-! ## An author with and without one info for each id -/

namespace TwoBatches

open BatchProofQueue

/-- The digest and the size of a payload are those of its number of transactions. -/
local instance encoding : PayloadEncoding where
  hash payload := payload.txns.length
  serializedSize payload := 100 * payload.txns.length

def txn (hash : HashValue) : SignedTransaction := ⟨7, .sequenceNumber hash, 1000, hash, 500⟩

/-- The batch of an author under an id, with the bucket, the transactions and the expiration. -/
def batch (id gas expiration : Nat) (txns : List SignedTransaction) : Batch where
  batchInfo := ⟨1, ⟨id, 0⟩, 3, expiration, txns.length, txns.length, 100 * txns.length, gas⟩
  payload := ⟨1, txns⟩

/-- A batch that arrives at time 200. -/
def insert (batch : Batch) : Call := .insertBatches [(batch.batchInfo, batch.summary)] 200

/-- A proof that arrives at time 200. -/
def prove (batch : Batch) : Call := .insertProof ⟨batch.batchInfo, ⟨⟨[]⟩, none⟩⟩ 0 200

def pullArgs : PullArgs where
  excludedBatches := []
  excludeAuthors := []
  maxTxns := ⟨1000, 100000⟩
  maxTxnsAfterFiltering := 1000
  softMaxTxnsAfterFiltering := 1000
  returnNonFull := true
  blockTimestampSecs := 0
  minBatchAgeUsecs := some 5
  nowUsecs := 200
  shuffle := .none

def registry : Registry 60 where
  infos := [(batch 1 0 300 [txn 1]).batchInfo, (batch 2 100 310 [txn 2, txn 3]).batchInfo]
  unique := by decide
  created := by decide
  few := by decide
  txns := by decide
  bytes := by decide

theorem insert_allowed (b : Batch) (known : b.batchInfo ∈ registry.infos)
    (verified : b.verify = .ok ()) : Allows registry (insert b) := by
  intro entry mem
  cases mem_singleton.mp mem
  exact ⟨known, b, verified, rfl, rfl⟩

theorem prove_allowed (b : Batch) (known : b.batchInfo ∈ registry.infos) :
    Allows registry (prove b) := known

/-- A batch and its proof, and a second batch, are pulled. -/
theorem queue_never_panics_two : ∃ q, Reached registry 0 q ∧
    (call (.pullProofs pullArgs) q).isSome := by
  have start : Reached registry 0 (new 0 60) := .start rfl
  have reached : ∃ q, Reached registry 0 q :=
    ⟨_, Run.Reaches.of_inputs start [insert (batch 1 0 300 [txn 1]),
      prove (batch 1 0 300 [txn 1]), insert (batch 2 100 310 [txn 2, txn 3])]
      ⟨insert_allowed _ (by decide) rfl, _, rfl, prove_allowed _ (by decide), _, rfl,
        insert_allowed _ (by decide) rfl, _, rfl, rfl⟩⟩
  obtain ⟨q, reached⟩ := reached
  exact ⟨q, reached, queue_never_panics registry 0 reached trivial⟩

/-- What a run of calls leaves. -/
def run (gap : Nat) (calls : List Call) : Option BatchProofQueue :=
  calls.foldlM (fun q input => call input q) (new 0 gap)

/-- A Byzantine author stops the queue in four ways: by a proof for a batch that expires earlier
than the gap after time 0; by two batches under one id, with different gas buckets; with different
sizes; with different expirations.  All batches pass their check. -/
theorem byzantine_author_crashes :
    ((batch 1 0 5 [txn 1]).verify = .ok () ∧
      (run 60 [prove (batch 1 0 5 [txn 1])]).isSome ∧
      run 60 [prove (batch 1 0 5 [txn 1]), .pullBatches pullArgs] = none) ∧
    ((batch 1 0 300 [txn 1]).verify = .ok () ∧ (batch 1 100 300 [txn 1]).verify = .ok () ∧
      run 60 [insert (batch 1 0 300 [txn 1]), prove (batch 1 100 300 [txn 1]),
        .handleUpdatedBlockTimestamp 400 .none] = none) ∧
    ((batch 1 0 300 [txn 1, txn 2]).verify = .ok () ∧
      run 60 [prove (batch 1 0 300 [txn 1]),
        .markCommitted [(batch 1 0 300 [txn 1, txn 2]).batchInfo]] = none) ∧
    ((batch 1 0 500 [txn 1]).verify = .ok () ∧
      run 60 [insert (batch 1 0 300 [txn 1]), prove (batch 1 0 500 [txn 1]),
        .handleUpdatedBlockTimestamp 400 .none] = none) :=
  ⟨⟨rfl, rfl, rfl⟩, ⟨rfl, rfl, rfl⟩, ⟨rfl, rfl⟩, ⟨rfl, rfl⟩⟩

end TwoBatches

end CreditChain.QuorumStore
