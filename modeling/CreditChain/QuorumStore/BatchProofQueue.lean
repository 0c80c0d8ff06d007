import CreditChain.Lib.Action
import CreditChain.Lib.OrderedMap
import CreditChain.Types.Ledger
import Mathlib.Data.Prod.Lex

/-!
# The queue of batches and proofs

A validator keeps the batches of transactions that it has seen, and the proofs that enough
validators store them, in one queue per author until they expire.  A batch and its proof may
arrive in either order, from any peer, and a committed batch stays as a mark until it expires.

`none` is a panic: an `expect`, an `assert` or an overflow of a checked operation.  Clock
readings, the iteration order of hash maps and the shuffling of the authors are inputs of the
calls.  Metrics are left out.

Expired batches without proofs are collected at the end of every insertion: the collection is
sampled once in 500 ms, which `sample!` counts as 0 whole seconds.
-/

namespace CreditChain.QuorumStore

abbrev PeerId := AccountAddress

/-! ## Batches -/

/-- Batch ids are ordered by the nonce, then by the id. -/
structure BatchId where
  id : Nat
  nonce : Nat
  deriving DecidableEq

structure BatchInfo where
  author : PeerId
  batchId : BatchId
  epoch : Nat
  expiration : Nat
  digest : HashValue
  numTxns : Nat
  numBytes : Nat
  gasBucketStart : Nat
  deriving DecidableEq

structure ProofOfStore where
  info : BatchInfo
  multiSignature : AggregateSignature

structure TxnSummaryWithExpiration where
  sender : AccountAddress
  replayProtector : ReplayProtector
  expirationTimestampSecs : Nat
  hash : HashValue
  deriving DecidableEq

/-- The parts of a signed transaction that a batch is checked and summarised by. -/
structure SignedTransaction where
  sender : AccountAddress
  replayProtector : ReplayProtector
  expirationTimestampSecs : Nat
  committedHash : HashValue
  gasUnitPrice : Nat

structure BatchPayload where
  author : PeerId
  txns : List SignedTransaction

/-- The digest and the serialized size of a payload. -/
class PayloadEncoding where
  hash : BatchPayload → HashValue
  serializedSize : BatchPayload → Nat

structure Batch where
  batchInfo : BatchInfo
  payload : BatchPayload

namespace Batch

def verify [PayloadEncoding] (batch : Batch) : Except String Unit := do
  ensure (batch.payload.author = batch.batchInfo.author) "Payload author doesn't match the info"
  ensure (PayloadEncoding.hash batch.payload = batch.batchInfo.digest)
    "Payload hash doesn't match the digest"
  ensure (batch.payload.txns.length = batch.batchInfo.numTxns)
    "Payload num txns doesn't match batch info"
  ensure (PayloadEncoding.serializedSize batch.payload = batch.batchInfo.numBytes)
    "Payload num bytes doesn't match batch info"
  ensure (∀ txn ∈ batch.payload.txns, batch.batchInfo.gasBucketStart ≤ txn.gasUnitPrice)
    "Payload gas unit price doesn't match batch info"

/-- `PersistedValue::summary` of a batch that is persisted with its payload. -/
def summary (batch : Batch) : List TxnSummaryWithExpiration :=
  batch.payload.txns.map fun txn =>
    ⟨txn.sender, txn.replayProtector, txn.expirationTimestampSecs, txn.committedHash⟩

theorem summary_length [PayloadEncoding] {batch : Batch} (verified : batch.verify = .ok ()) :
    batch.summary.length = batch.batchInfo.numTxns := by
  unfold verify at verified
  simp only [Except.bind_eq_ok, ensure_eq_ok] at verified
  obtain ⟨_, _, _, _, _, txns, _⟩ := verified
  rw [summary, List.length_map, txns]

end Batch

/-! ## Sizes of payloads -/

structure PayloadTxnsSize where
  count : Nat
  bytes : Nat
  deriving DecidableEq

namespace PayloadTxnsSize

def zero : PayloadTxnsSize := ⟨0, 0⟩

def newNormalized (count bytes : Nat) : PayloadTxnsSize :=
  let bytes := if count > bytes then count else bytes
  if count = 0 ∨ bytes = 0 then ⟨0, 0⟩ else ⟨count, bytes⟩

def tryNew (count bytes : Nat) : Option PayloadTxnsSize :=
  if count ≤ bytes ∧ (0 < count ∧ 0 < bytes ∨ count = 0 ∧ bytes = 0) then some ⟨count, bytes⟩
  else none

def new (count bytes : Nat) : PayloadTxnsSize :=
  (tryNew count bytes).getD (newNormalized count bytes)

def add (a b : PayloadTxnsSize) : Option PayloadTxnsSize := do
  let count ← add64 a.count b.count
  let bytes ← add64 a.bytes b.bytes
  return newNormalized count bytes

def partialCmp (a b : PayloadTxnsSize) : Option Ordering :=
  if a.count = b.count ∧ a.bytes = b.bytes then some .eq
  else if a.count > b.count ∨ a.bytes > b.bytes then some .gt
  else if a.count < b.count ∧ a.bytes < b.bytes then some .lt
  else none

end PayloadTxnsSize

def BatchInfo.size (info : BatchInfo) : PayloadTxnsSize :=
  .new info.numTxns info.numBytes

/-! ## Keys -/

structure BatchKey where
  author : PeerId
  batchId : BatchId
  deriving DecidableEq

def BatchKey.fromInfo (info : BatchInfo) : BatchKey := ⟨info.author, info.batchId⟩

structure BatchSortKey where
  batchKey : BatchKey
  gasBucketStart : Nat
  deriving DecidableEq

namespace BatchSortKey

def fromInfo (info : BatchInfo) : BatchSortKey := ⟨.fromInfo info, info.gasBucketStart⟩

def author (key : BatchSortKey) : PeerId := key.batchKey.author

/-- Ascending in the gas bucket, descending in the batch id.  A queue holds the batches of one
author, so that the author, which the source does not compare, decides nothing there. -/
def rank (key : BatchSortKey) : ℕ ×ₗ (ℕ ×ₗ ℕ)ᵒᵈ ×ₗ ℕ :=
  toLex (key.gasBucketStart,
    toLex (.toDual (toLex (key.batchKey.batchId.nonce, key.batchKey.batchId.id)),
      key.batchKey.author))

theorem rank_injective : Function.Injective rank := by
  rintro ⟨⟨author, ⟨id, nonce⟩⟩, gas⟩ ⟨⟨author', ⟨id', nonce'⟩⟩, gas'⟩ same
  obtain ⟨rfl, ⟨rfl, rfl⟩, rfl⟩ := same
  rfl

instance : LinearOrder BatchSortKey := LinearOrder.lift' rank rank_injective

end BatchSortKey

/-! ## The queue -/

structure QueueItem where
  info : BatchInfo
  /-- Absent as long as only the proof has arrived. -/
  txnSummaries : Option (List TxnSummaryWithExpiration)
  /-- Absent as long as only the batch has arrived. -/
  proof : Option ProofOfStore
  proofInsertionTime : Option Nat

namespace QueueItem

def isCommitted (item : QueueItem) : Bool :=
  item.proof.isNone && item.proofInsertionTime.isNone && item.txnSummaries.isNone

def markCommitted (item : QueueItem) : QueueItem :=
  { item with proof := none, proofInsertionTime := none, txnSummaries := none }

end QueueItem

/-- The batches of one author. -/
abbrev Queue := OrderedMap BatchSortKey BatchInfo

/-- An arrangement of the entries of a hash map, or of a shuffled vector, at every visit. -/
structure Shuffle where
  arrange {α : Type} : Nat → List α → List α
  perm {α : Type} (visit : Nat) (l : List α) : (arrange visit l).Perm l

/-- Everything stays in place. -/
def Shuffle.none : Shuffle := ⟨fun _ l => l, fun _ l => .refl l⟩

structure BatchProofQueue where
  myPeerId : PeerId
  authorToBatches : Table PeerId Queue
  items : Table BatchKey QueueItem
  /-- In how many batches with an uncommitted proof a transaction is included. -/
  txnSummaryNumOccurrences : Table TxnSummaryWithExpiration Nat
  expirations : List (Nat × BatchSortKey)
  latestBlockTimestamp : Nat
  remainingTxnsWithDuplicates : Nat
  remainingProofs : Nat
  remainingLocalTxns : Nat
  remainingLocalProofs : Nat
  batchExpiryGapWhenInitUsecs : Nat

variable (occurrences : Table TxnSummaryWithExpiration Nat) (summary : TxnSummaryWithExpiration)

/-- `*occurrences.entry(summary).or_insert(0) += 1`. -/
def countOccurrence : Option (Table TxnSummaryWithExpiration Nat) := do
  let count ← add64 ((occurrences.find? summary).getD 0) 1
  return occurrences.insert summary count

/-- One occurrence less; the last one removes the entry. -/
def forgetOccurrence : Option (Table TxnSummaryWithExpiration Nat) :=
  match occurrences.find? summary with
  | none => some occurrences
  | some count => do
      let count ← sub64 count 1
      return if count = 0 then occurrences.erase summary else occurrences.insert summary count

namespace BatchProofQueue

def new (myPeerId : PeerId) (gap : Nat) : BatchProofQueue where
  myPeerId := myPeerId
  authorToBatches := .empty
  items := .empty
  txnSummaryNumOccurrences := .empty
  expirations := []
  latestBlockTimestamp := 0
  remainingTxnsWithDuplicates := 0
  remainingProofs := 0
  remainingLocalTxns := 0
  remainingLocalProofs := 0
  batchExpiryGapWhenInitUsecs := gap

variable (q : BatchProofQueue) (args : PullArgs) (withoutProofs : Bool) (author : PeerId)
  (numTxns : Nat)

/-- A checked operation on the counters of proofs; those of the own batches stay if the batch
is another author's. -/
def changeRemainingProofs (change : Nat → Nat → Option Nat) : Option BatchProofQueue := do
  let txns ← change q.remainingTxnsWithDuplicates numTxns
  let proofs ← change q.remainingProofs 1
  let q := { q with remainingTxnsWithDuplicates := txns, remainingProofs := proofs }
  if author = q.myPeerId then
    let localTxns ← change q.remainingLocalTxns numTxns
    let localProofs ← change q.remainingLocalProofs 1
    return { q with remainingLocalTxns := localTxns, remainingLocalProofs := localProofs }
  else return q

def incRemainingProofs : Option BatchProofQueue := q.changeRemainingProofs author numTxns add64

def decRemainingProofs : Option BatchProofQueue := q.changeRemainingProofs author numTxns sub64

variable (info : BatchInfo) (summaries : List TxnSummaryWithExpiration)

/-- Enter a batch in the queue of its author and in the index of expirations. -/
def enqueue : BatchProofQueue :=
  let key := .fromInfo info
  let queue := (q.authorToBatches.find? info.author).getD .empty
  { q with
    authorToBatches := q.authorToBatches.insert info.author (queue.insert key info)
    expirations := (info.expiration, key) :: q.expirations }

/-- Count the transactions of a batch that has both its proof and its summaries. -/
def countOccurrences : Option BatchProofQueue := do
  let occurrences ← summaries.foldlM countOccurrence q.txnSummaryNumOccurrences
  return { q with txnSummaryNumOccurrences := occurrences }

def forgetOccurrences : Option BatchProofQueue := do
  let occurrences ← summaries.foldlM forgetOccurrence q.txnSummaryNumOccurrences
  return { q with txnSummaryNumOccurrences := occurrences }

def setItem (key : BatchKey) (item : QueueItem) : BatchProofQueue :=
  { q with items := q.items.insert key item }

/-! ### Garbage collection -/

/-- Remove a batch from the queue of its author, which stays even if it is empty then. -/
def unqueue : BatchProofQueue :=
  match q.authorToBatches.find? info.author with
  | none => q
  | some queue =>
    { q with
      authorToBatches :=
        q.authorToBatches.insert info.author (queue.erase (.fromInfo info)) }

variable (timestamp : Nat)

/-- One visit of `retain`. -/
def gcItem (q : BatchProofQueue) (entry : BatchKey × QueueItem) : BatchProofQueue :=
  if entry.2.isCommitted ∨ entry.2.proof.isSome ∨ entry.2.info.expiration > timestamp then q
  else
    let q := q.unqueue entry.2.info
    { q with items := q.items.erase entry.1 }

def gcExpiredBatchSummariesWithoutProofs : BatchProofQueue :=
  q.items.entries.foldl (gcItem timestamp) q

variable (batches : List (BatchInfo × List TxnSummaryWithExpiration)) (old : Option QueueItem)
  (proof : ProofOfStore) (instant nowUsecs : Nat)

/-! ### Insertion -/

/-- The item that holds a proof from now on. -/
def provedItem : QueueItem :=
  match old with
  | some item => { item with proof := some proof, proofInsertionTime := some instant }
  | none => ⟨proof.info, none, some proof, some instant⟩

def addProof : Option BatchProofQueue := do
  let key := .fromInfo proof.info
  let old := q.items.find? key
  let q := q.enqueue proof.info
  let q ← q.countOccurrences ((old.bind (·.txnSummaries)).getD [])
  let q := q.setItem key (provedItem old proof instant)
  q.incRemainingProofs proof.info.author proof.info.numTxns

def insertProof : Option BatchProofQueue :=
  if proof.info.expiration ≤ q.latestBlockTimestamp then some q
  else if (q.items.find? (.fromInfo proof.info)).any fun item =>
      item.proof.isSome || item.isCommitted then some q
  else do
    let q ← q.addProof proof instant
    return q.gcExpiredBatchSummariesWithoutProofs nowUsecs

/-- The item that holds the summaries from now on. -/
def summarisedItem (info : BatchInfo) (summaries : List TxnSummaryWithExpiration) : QueueItem :=
  match old with
  | some item => { item with txnSummaries := some summaries }
  | none => ⟨info, some summaries, none, none⟩

def addBatch : Option BatchProofQueue := do
  let key := .fromInfo info
  let old := q.items.find? key
  let q := q.enqueue info
  let q ← q.countOccurrences (if old.any (·.proof.isSome) then summaries else [])
  return q.setItem key (summarisedItem old info summaries)

/-- One round of `insert_batches`. -/
def insertBatch (batch : BatchInfo × List TxnSummaryWithExpiration) : Option BatchProofQueue :=
  if (q.items.find? (.fromInfo batch.1)).any fun item =>
      item.isCommitted || item.txnSummaries.isSome then some q
  else q.addBatch batch.1 batch.2

def insertBatches : Option BatchProofQueue := do
  let q ← batches.foldlM insertBatch q
  return q.gcExpiredBatchSummariesWithoutProofs nowUsecs

/-! ### Commits -/

variable (pull : Pull) (batch : BatchInfo) (item : QueueItem)

/-- Take the proof of an item off the counters and its transactions off the occurrences; the two
callers do this in either order. -/
def retireProof : Option BatchProofQueue := do
  let q ← q.decRemainingProofs batch.author batch.numTxns
  q.forgetOccurrences (item.txnSummaries.getD [])

/-- What `mark_committed` does with the proof of an item, if there is one. -/
def commitProof : Option BatchProofQueue :=
  if item.proof.isSome then do
    let _ ← item.proofInsertionTime
    q.retireProof batch item
  else some q

/-- One round of `mark_committed`. -/
def commitBatch : Option BatchProofQueue :=
  let key := .fromInfo batch
  match q.items.find? key with
  | some item => do
      let q ← q.commitProof batch item
      return q.setItem key item.markCommitted
  | none => some ((q.enqueue batch).setItem key ⟨batch, none, none, none⟩)

def markCommitted (batches : List BatchInfo) : Option BatchProofQueue :=
  batches.foldlM commitBatch q

/-! ### Expiration -/

/-- What an expired item does to the counters and to `num_expired_but_not_committed`. -/
def expireProof (timestamp numExpired : Nat) (batch : BatchInfo) (item : QueueItem) : Option
    (BatchProofQueue × Nat) :=
  if item.proof.isSome then do
    let numExpired ← add64 numExpired 1
    let _ ← sub64 timestamp batch.expiration
    let q ← q.retireProof batch item
    return (q, numExpired)
  else some (q, numExpired)

/-- Put the queue of an author back, unless it has become empty. -/
def restoreQueue (queue : Queue) : BatchProofQueue :=
  if queue.isEmpty then q else { q with authorToBatches := q.authorToBatches.insert author queue }

/-- An expired key that is still in the queue of its author. -/
def expireBatch (timestamp numExpired : Nat) (key : BatchSortKey) (batch : BatchInfo) : Option
    (BatchProofQueue × Nat) := do
  let item ← q.items.find? key.batchKey
  let (q, numExpired) ← q.expireProof timestamp numExpired batch item
  let _ ← q.items.find? key.batchKey
  return ({ q with items := q.items.erase key.batchKey }, numExpired)

/-- One round of `handle_updated_block_timestamp`. -/
def expireKey (state : BatchProofQueue × Nat) (key : BatchSortKey) : Option (BatchProofQueue × Nat)
    :=
  match state.1.authorToBatches.find? key.author with
  | none => some state
  | some queue =>
    let q := { state.1 with authorToBatches := state.1.authorToBatches.erase key.author }
    match queue.find? key with
    | none => some (q.restoreQueue key.author queue, state.2)
    | some batch => do
        let (q, numExpired) ← q.expireBatch timestamp state.2 key batch
        return (q.restoreQueue key.author (queue.erase key), numExpired)

/-- `TimeExpirations::expire`: the keys, each once, and what is left. -/
def expire : List BatchSortKey × BatchProofQueue :=
  (((q.expirations.filter fun entry => entry.1 ≤ timestamp).map (·.2)).dedup,
    { q with expirations := q.expirations.filter fun entry => ¬ entry.1 ≤ timestamp })

def handleUpdatedBlockTimestamp (shuffle : Shuffle) : Option BatchProofQueue :=
  if q.latestBlockTimestamp > timestamp then some q
  else do
    let (expired, q) := { q with latestBlockTimestamp := timestamp }.expire timestamp
    let (q, _) ← (shuffle.arrange 0 expired).foldlM (expireKey timestamp) (q, 0)
    return q

/-! ### Pulling -/

/-- The arguments of a pull, and what it reads of its surroundings. -/
structure PullArgs where
  excludedBatches : List BatchInfo
  excludeAuthors : List Author
  maxTxns : PayloadTxnsSize
  maxTxnsAfterFiltering : Nat
  softMaxTxnsAfterFiltering : Nat
  returnNonFull : Bool
  /-- The timestamp of the block in seconds. -/
  blockTimestampSecs : Nat
  minBatchAgeUsecs : Option Nat
  nowUsecs : Nat
  shuffle : Shuffle

/-- The batches of an author that an iteration has not reached yet. -/
abbrev BatchIter := List (BatchSortKey × BatchInfo)

/-- The local variables of `pull_internal`. -/
structure Pull where
  result : List QueueItem
  curUniqueTxns : Nat
  curAllTxns : PayloadTxnsSize
  excludedTxns : Nat
  full : Bool
  filteredTxns : List TxnSummaryWithExpiration

/-- What the filter of an iteration lets through, once the time of creation is known. -/
def passes (maxCreation : Option Nat) (item : QueueItem) (created : Nat) : Bool :=
  !(maxCreation.any fun latest => created > latest) && !item.isCommitted &&
    !(withoutProofs ^^ item.proof.isNone)

/-- `next` of the filtered iteration; the batches are filtered when they are reached. -/
def nextBatch (q : BatchProofQueue) (withoutProofs : Bool) (maxCreation : Option Nat) :
    BatchIter → Option (Option ((BatchInfo × QueueItem) × BatchIter))
  | [] => some none
  | (sortKey, info) :: rest =>
    match q.items.find? sortKey.batchKey with
    | none => nextBatch q withoutProofs maxCreation rest
    | some item =>
      match sub64 item.info.expiration q.batchExpiryGapWhenInitUsecs with
      | none => none
      | some created =>
        if passes withoutProofs maxCreation item created then
          some (some ((info, item), rest))
        else nextBatch q withoutProofs maxCreation rest

/-- The transactions that are new and have not expired. -/
def numUnique (filtered : List TxnSummaryWithExpiration) (blockTimestampSecs : Nat)
    (summaries : List TxnSummaryWithExpiration) : Nat :=
  (summaries.filter fun summary =>
    summary ∉ filtered ∧ blockTimestampSecs < summary.expirationTimestampSecs).length

/-- The same count while the transactions are added to the filter one after the other. -/
def addUnique (blockTimestampSecs : Nat) : List TxnSummaryWithExpiration →
    List TxnSummaryWithExpiration → Nat × List TxnSummaryWithExpiration
  | filtered, [] => (0, filtered)
  | filtered, summary :: summaries =>
    if summary ∈ filtered then addUnique blockTimestampSecs filtered summaries
    else
      let (count, filtered) := addUnique blockTimestampSecs (summary :: filtered) summaries
      (if blockTimestampSecs < summary.expirationTimestampSecs then count + 1 else count, filtered)

/-- The batch is within the limits and goes to the result; `false` ends the iteration. -/
def includeBatch : Option (Pull × Bool) := do
  let all ← pull.curAllTxns.add batch.size
  let (added, filtered) := item.txnSummaries.elim (batch.numTxns, pull.filteredTxns)
    (addUnique args.blockTimestampSecs pull.filteredTxns)
  let unique ← add64 pull.curUniqueTxns added
  guard (item.proof.isNone = withoutProofs)
  let full := all = args.maxTxns ∨ unique = args.maxTxnsAfterFiltering ∨
    unique ≥ args.softMaxTxnsAfterFiltering
  return ({ pull with
    result := pull.result ++ [item]
    curUniqueTxns := unique
    curAllTxns := all
    full := pull.full || full
    filteredTxns := filtered }, !full)

/-- A batch that is not excluded: it is included unless it exceeds a limit. -/
def considerBatch : Option (Pull × Bool) := do
  let unique ← add64 pull.curUniqueTxns (item.txnSummaries.elim batch.numTxns
    (numUnique pull.filteredTxns args.blockTimestampSecs))
  let all ← pull.curAllTxns.add batch.size
  if all.partialCmp args.maxTxns = some .gt ∨ unique > args.maxTxnsAfterFiltering then
    some ({ pull with full := true }, false)
  else includeBatch args withoutProofs pull batch item

def visitBatch : Option (Pull × Bool) :=
  if batch ∈ args.excludedBatches then do
    let excluded ← add64 pull.excludedTxns batch.numTxns
    return ({ pull with excludedTxns := excluded }, true)
  else considerBatch args withoutProofs pull batch item

/-- The closure of `retain_mut`: what is left of the iteration, if it is kept. -/
def serve (maxCreation : Option Nat) (pull : Pull) (iter : BatchIter) : Option
    (Pull × Option BatchIter) :=
  if pull.full then some (pull, none)
  else
    match q.nextBatch withoutProofs maxCreation iter with
    | none => none
    | some none => some (pull, none)
    | some (some ((batch, item), rest)) => do
        let (pull, keep) ← visitBatch args withoutProofs pull batch item
        return (pull, if keep then some rest else none)

/-- One pass of `retain_mut` over the iterations. -/
def serveAll (q : BatchProofQueue) (args : PullArgs) (withoutProofs : Bool)
    (maxCreation : Option Nat) : Pull → List BatchIter → Option (Pull × List BatchIter)
  | pull, [] => some (pull, [])
  | pull, iter :: iters => do
      let (pull, left) ← q.serve args withoutProofs maxCreation pull iter
      let (pull, iters) ← serveAll q args withoutProofs maxCreation pull iters
      return (pull, left.toList ++ iters)

/-- The `while` loop; the fuel bounds the number of its rounds. -/
def serveRounds (q : BatchProofQueue) (args : PullArgs) (withoutProofs : Bool)
    (maxCreation : Option Nat) : Nat → Pull → List BatchIter → Option Pull
  | _, pull, [] => some pull
  | 0, _, _ :: _ => none
  | fuel + 1, pull, iter :: iters => do
      let (pull, iters) ← q.serveAll args withoutProofs maxCreation pull
        (args.shuffle.arrange fuel (iter :: iters))
      serveRounds q args withoutProofs maxCreation fuel pull iters

variable (excludedBatches : List BatchInfo)

/-- The transactions of the excluded batches. -/
def filteredTxns : List TxnSummaryWithExpiration :=
  excludedBatches.flatMap fun info =>
    ((q.items.find? (.fromInfo info)).bind (·.txnSummaries)).getD []

/-- The iterations over the queues of the authors that are not excluded. -/
def iters (excludeAuthors : List Author) : List BatchIter :=
  (q.authorToBatches.entries.filter fun entry => entry.1 ∉ excludeAuthors).map fun entry =>
    entry.2.entries.reverse

/-- Every round takes a batch from each iteration, or the iteration away. -/
def fuelOf (iters : List BatchIter) : Nat := (iters.map fun iter => iter.length + 1).sum

/-- The latest time at which a batch that is old enough was created. -/
def maxBatchCreation : Option (Option Nat) :=
  match args.minBatchAgeUsecs with
  | none => some none
  | some minAge => (sub64 args.nowUsecs minAge).map some

def pullInternal (args : PullArgs) : Option (List QueueItem × PayloadTxnsSize × Nat × Bool) := do
  let maxCreation ← maxBatchCreation args
  let iters := q.iters args.excludeAuthors
  let pull ← q.serveRounds args withoutProofs maxCreation (fuelOf iters)
    ⟨[], 0, .zero, 0, false, q.filteredTxns args.excludedBatches⟩ iters
  return if pull.full || args.returnNonFull then
    (pull.result.mergeSort fun a b => b.info.gasBucketStart ≤ a.info.gasBucketStart,
      pull.curAllTxns, pull.curUniqueTxns, pull.full)
  else ([], .zero, 0, pull.full)

/-- The queued batches with a proof that are neither excluded nor pulled. -/
def remainingBatches (pulledProofs : List ProofOfStore) : List BatchInfo :=
  ((q.authorToBatches.entries.flatMap fun entry => entry.2.entries).filter fun entry =>
    entry.1.batchKey ∉ excludedBatches.map .fromInfo ∧
      entry.1.batchKey ∉ pulledProofs.map (.fromInfo ·.info) ∧
      (q.items.find? entry.1.batchKey).any (·.proof.isSome)).map (·.2)

/-- The sums that are logged; the number of proofs is an `i32`. -/
def logRemainingDataAfterPull (pulledProofs : List ProofOfStore) : Option Unit := do
  let remaining := q.remainingBatches excludedBatches pulledProofs
  guard (remaining.length < 2 ^ 31)
  let _ ← sum64 (remaining.map (·.numTxns))
  let _ ← sum64 (pulledProofs.map (·.info.numTxns))
  return ()

/-- The proof of a pulled item; its insertion time is read for a metric. -/
def pulledProof : Option ProofOfStore := do
  let proof ← item.proof
  let _ ← item.proofInsertionTime
  return proof

def pullProofs : Option (List ProofOfStore × PayloadTxnsSize × Nat × Bool) := do
  let (result, allTxns, uniqueTxns, isFull) ← q.pullInternal false
    { args with excludeAuthors := [], minBatchAgeUsecs := none }
  let proofs ← result.mapM pulledProof
  let _ ← if isFull || args.returnNonFull then
    q.logRemainingDataAfterPull args.excludedBatches proofs else some ()
  return (proofs, allTxns, uniqueTxns, !isFull)

def pullBatches : Option (List BatchInfo × PayloadTxnsSize × Nat) := do
  let (result, allTxns, uniqueTxns, _) ← q.pullInternal true args
  return (result.map (·.info), allTxns, uniqueTxns)

/-! ### Calls -/

inductive Call where
  | insertProof (proof : ProofOfStore) (instant nowUsecs : Nat)
  | insertBatches (batches : List (BatchInfo × List TxnSummaryWithExpiration)) (nowUsecs : Nat)
  | markCommitted (batches : List BatchInfo)
  | handleUpdatedBlockTimestamp (timestamp : Nat) (shuffle : Shuffle)
  | pullProofs (args : PullArgs)
  | pullBatches (args : PullArgs)

/-- The queue after a call; a pull leaves it as it is. -/
def call (input : Call) (q : BatchProofQueue) : Option BatchProofQueue :=
  match input with
  | .insertProof proof instant nowUsecs => q.insertProof proof instant nowUsecs
  | .insertBatches batches nowUsecs => q.insertBatches batches nowUsecs
  | .markCommitted batches => q.markCommitted batches
  | .handleUpdatedBlockTimestamp timestamp shuffle =>
    q.handleUpdatedBlockTimestamp timestamp shuffle
  | .pullProofs args => (q.pullProofs args).map fun _ => q
  | .pullBatches args => (q.pullBatches args).map fun _ => q

end BatchProofQueue

end CreditChain.QuorumStore
