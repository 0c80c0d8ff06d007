import CreditChain.Consensus.Timeout
import CreditChain.Lib.Forest
import CreditChain.Lib.Run

/-!
# The block tree

`BlockTree` keeps the blocks of an epoch with links from parents to children, and three
roots: of the ordered, of the committed and of the windowed part.  A commit moves the
window root; what is no longer below it is listed as pruned but stays in memory until the
list is too long.

`none` is a panic of the source (a failed assertion or `expect`), or a loop that does not
end.  A set of children is a list without duplicates; the order in which the source walks
over it is arbitrary and is an argument (`order`) of the operations that do.

The persisted store, the pipelines of the blocks, counters and logs are left out.
-/

namespace CreditChain

structure WrappedLedgerInfo where
  voteData : VoteData
  signedLedgerInfo : LedgerInfoWithSignatures
  deriving DecidableEq

namespace WrappedLedgerInfo

def commitInfo (li : WrappedLedgerInfo) : BlockInfo := li.signedLedgerInfo.commitInfo

def createMergedWithExecutedState (li : WrappedLedgerInfo)
    (executedLedgerInfo : LedgerInfoWithSignatures) : Except String WrappedLedgerInfo :=
  if li.commitInfo.matchOrderedOnly executedLedgerInfo.commitInfo then
    .ok ⟨li.voteData, executedLedgerInfo⟩
  else .error "Block info from QC and executed LI need to match"

end WrappedLedgerInfo

def QuorumCert.intoWrappedLedgerInfo (qc : QuorumCert) : WrappedLedgerInfo :=
  ⟨qc.voteData, qc.signedLedgerInfo⟩

/-- A block with its links to its children. -/
structure LinkableBlock where
  executedBlock : Block
  children : List HashValue
  deriving DecidableEq

def LinkableBlock.addChild (block : LinkableBlock) (childId : HashValue) : Option LinkableBlock :=
  if childId ∈ block.children then none
  else some { block with children := block.children ++ [childId] }

structure BlockTree where
  idToBlock : Map HashValue LinkableBlock
  orderedRootId : HashValue
  commitRootId : HashValue
  windowRootId : HashValue
  highestCertifiedBlockId : HashValue
  highestQuorumCert : QuorumCert
  highest2chainTimeoutCert : Option TwoChainTimeoutCertificate
  highestOrderedCert : WrappedLedgerInfo
  highestCommitCert : WrappedLedgerInfo
  idToQuorumCert : Map HashValue QuorumCert
  prunedBlockIds : List HashValue
  maxPrunedBlocksInMem : Nat
  roundToIds : Map Round HashValue
  deriving DecidableEq

def calculateWindowStartRound (currentRound : Round) (windowSize : Nat) : Round :=
  currentRound + 1 - windowSize

namespace BlockTree

variable [Crypto]

def new (commitRootId : HashValue) (windowRoot : Block) (rootQuorumCert : QuorumCert)
    (rootOrderedCert rootCommitCert : WrappedLedgerInfo) (maxPrunedBlocksInMem : Nat)
    (highest2chainTimeoutCert : Option TwoChainTimeoutCertificate) : Option BlockTree :=
  if windowRoot.epoch = rootOrderedCert.commitInfo.epoch ∧
      windowRoot.round ≤ rootOrderedCert.commitInfo.round then
    some
      { idToBlock := (∅ : Map HashValue LinkableBlock).insert windowRoot.id ⟨windowRoot, []⟩
        orderedRootId := commitRootId
        commitRootId := commitRootId
        windowRootId := windowRoot.id
        highestCertifiedBlockId := commitRootId
        highestQuorumCert := rootQuorumCert
        highest2chainTimeoutCert := highest2chainTimeoutCert
        highestOrderedCert := rootOrderedCert
        highestCommitCert := rootCommitCert
        idToQuorumCert := (∅ : Map HashValue QuorumCert).insert rootQuorumCert.certifiedBlock.id
          rootQuorumCert
        prunedBlockIds := []
        maxPrunedBlocksInMem := maxPrunedBlocksInMem
        roundToIds := (∅ : Map Round HashValue).insert windowRoot.round windowRoot.id }
  else none

variable (windowSize : Option Nat) (t : BlockTree) (order : List HashValue → List HashValue)
  (rootId blockId : HashValue)

def getBlock : Option Block :=
  t.idToBlock[blockId]?.map LinkableBlock.executedBlock

def orderedRoot : Option Block := t.getBlock t.orderedRootId

def commitRoot : Option Block := t.getBlock t.commitRootId

/-- Forget a block, and the entry of its round. -/
def removeBlock : BlockTree :=
  { t with
    idToBlock := t.idToBlock.erase blockId
    roundToIds := match t.getBlock blockId with
      | some block => t.roundToIds.erase block.round
      | none => t.roundToIds
    idToQuorumCert := t.idToQuorumCert.erase blockId }

def insertBlock (block : Block) : Option (Except String Block × BlockTree) :=
  match t.getBlock block.id with
  | some existingBlock => some (.ok existingBlock, t)
  | none =>
    match t.idToBlock[block.parentId]? with
    | none => some (.error s!"Parent block {block.parentId} not found", t)
    | some parentBlock => do
        let parentBlock ← parentBlock.addChild block.id
        some (.ok block, { t with
          idToBlock := (t.idToBlock.insert block.parentId parentBlock).insert block.id ⟨block, []⟩
          roundToIds := t.roundToIds.insertIfNew block.round block.id })

def insertQuorumCert (qc : QuorumCert) : Option (Except String Unit × BlockTree) :=
  let blockId := qc.certifiedBlock.id
  match t.getBlock blockId with
  | none => some (.error s!"Block {blockId} not found", t)
  | some block => do
      let highestCertifiedBlock ← t.getBlock t.highestCertifiedBlockId
      let t := if highestCertifiedBlock.round < block.round then
        { t with highestCertifiedBlockId := block.id, highestQuorumCert := qc } else t
      let t := { t with idToQuorumCert := t.idToQuorumCert.insertIfNew blockId qc }
      some (.ok (), if t.highestOrderedCert.commitInfo.round < qc.commitInfo.round then
        { t with highestOrderedCert := qc.intoWrappedLedgerInfo } else t)

def insertOrderedCert (orderedCert : WrappedLedgerInfo) : BlockTree :=
  if t.highestOrderedCert.commitInfo.round < orderedCert.commitInfo.round then
    { t with highestOrderedCert := orderedCert }
  else t

def updateOrderedRoot : Option BlockTree :=
  if rootId ∈ t.idToBlock then some { t with orderedRootId := rootId } else none

def updateCommitRoot : Option BlockTree :=
  if rootId ∈ t.idToBlock then some { t with commitRootId := rootId } else none

def updateWindowRoot : Option BlockTree :=
  if rootId ∈ t.idToBlock then some { t with windowRootId := rootId } else none

def updateHighestCommitCert (newCommitCert : WrappedLedgerInfo) : Option BlockTree :=
  if t.highestCommitCert.commitInfo.round < newCommitCert.commitInfo.round then
    { t with highestCommitCert := newCommitCert }.updateCommitRoot newCommitCert.commitInfo.id
  else some t

/-! ## The window of a block -/

/-- The loop of `get_ordered_block_window`: the blocks from the parent of `currentBlock`
down to the start of the window, the highest first. -/
def windowLoop (t : BlockTree) (windowStartRound : Round) :
    Nat → Block → Option (Except String (List Block))
  | 0, _ => none
  | fuel + 1, currentBlock =>
    if !currentBlock.blockData.isGenesisBlock &&
        decide (windowStartRound ≤ currentBlock.quorumCert.certifiedBlock.round) then
      match t.getBlock currentBlock.parentId with
      | some parent => (t.windowLoop windowStartRound fuel parent).map fun window =>
        window.map (parent :: ·)
      | none => some (.error s!"Parent block not found for block {currentBlock.id}")
    else some (.ok [])

/-- `get_ordered_block_window`: lower rounds first. -/
def getOrderedBlockWindow (block : Block) (windowSize : Option Nat) :
    Option (Except String (List Block)) := do
  let commitRoot ← t.commitRoot
  if block.round < commitRoot.round then
    some (.error (s!"Block round {block.round} is less than the commit root round " ++
      s!"{commitRoot.round}, cannot get_ordered_block_window"))
  else
    match windowSize with
    | none => some (.ok [])
    | some windowSize =>
      if windowSize = 0 then none
      else do
        let windowStartRound := calculateWindowStartRound block.round windowSize
        let windowSize := block.round - windowStartRound + 1
        let window ← t.windowLoop windowStartRound (t.idToBlock.size + 1) block
        some (match window with
          | .error e => .error e
          | .ok window =>
            if window.length < windowSize then .ok window.reverse
            else .error "window.len() < window_size as usize")

/-- The first block of the window of a block that is committed. -/
def findWindowRoot (blockToCommitId : HashValue) (windowSize : Option Nat) : Option HashValue := do
  guard (windowSize ≠ some 0)
  let block ← t.getBlock blockToCommitId
  match ← t.getOrderedBlockWindow block windowSize with
  | .error _ => none
  | .ok window => some (window.head?.getD block).id

/-! ## Pruning -/

/-- The loop of `find_blocks_to_prune`; the head of the list is the top of the stack. -/
def pruneLoop (t : BlockTree) (order : List HashValue → List HashValue)
    (nextWindowRootId : HashValue) : Nat → List LinkableBlock → List HashValue →
      Option (List HashValue)
  | _, [], blocksPruned => some blocksPruned
  | 0, _ :: _, _ => none
  | fuel + 1, blockToRemove :: blocksToBePruned, blocksPruned => do
      let children ← ((order blockToRemove.children).filter (· ≠ nextWindowRootId)).mapM
        fun childId => t.idToBlock[childId]?
      t.pruneLoop order nextWindowRootId fuel (children.reverse ++ blocksToBePruned)
        (blocksPruned ++ [blockToRemove.executedBlock.id])

/-- The blocks below the old window root and not below the new one. -/
def findBlocksToPrune (nextWindowRootId : HashValue) : Option (List HashValue) :=
  if nextWindowRootId = t.windowRootId then some []
  else do
    let windowRoot ← t.idToBlock[t.windowRootId]?
    t.pruneLoop order nextWindowRootId t.idToBlock.size [windowRoot] []

/-- List blocks as pruned, and remove the ones listed first if there are too many. -/
def processPrunedBlocks (newlyPrunedBlocks : List HashValue) : BlockTree :=
  let prunedBlockIds := t.prunedBlockIds ++ newlyPrunedBlocks
  let numBlocksToRemove := prunedBlockIds.length - t.maxPrunedBlocksInMem
  (prunedBlockIds.take numBlocksToRemove).foldl removeBlock
    { t with prunedBlockIds := prunedBlockIds.drop numBlocksToRemove }

/-- Prune what a commit leaves behind, and move the window root. -/
def commitCallback (finalityProof : WrappedLedgerInfo)
    (commitDecision : LedgerInfoWithSignatures) (windowSize : Option Nat) : Option BlockTree := do
  let _ ← t.commitRoot
  let commitProof ← (finalityProof.createMergedWithExecutedState commitDecision).toOption
  let windowRootId ← t.findWindowRoot blockId windowSize
  let idsToRemove ← t.findBlocksToPrune order windowRootId
  let t ← (t.processPrunedBlocks idsToRemove).updateWindowRoot windowRootId
  t.updateHighestCommitCert commitProof

/-! ## Runs -/

inductive Step where
  | insertBlock (block : Block)
  | insertQuorumCert (qc : QuorumCert)
  | insertOrderedCert (orderedCert : WrappedLedgerInfo)
  | updateOrderedRoot (rootId : HashValue)
  | commitCallback (order : List HashValue → List HashValue) (blockId : HashValue)
      (finalityProof : WrappedLedgerInfo) (commitDecision : LedgerInfoWithSignatures)
      (windowSize : Option Nat)

def step : Step → BlockTree → Option BlockTree
  | .insertBlock block, t => (t.insertBlock block).map (·.2)
  | .insertQuorumCert qc, t => (t.insertQuorumCert qc).map (·.2)
  | .insertOrderedCert orderedCert, t => some (t.insertOrderedCert orderedCert)
  | .updateOrderedRoot rootId, t => t.updateOrderedRoot rootId
  | .commitCallback order blockId finalityProof commitDecision windowSize, t =>
    t.commitCallback order blockId finalityProof commitDecision windowSize

/-- The recorded children of a block. -/
def childrenOf (id : HashValue) : List HashValue :=
  (t.idToBlock[id]?.map LinkableBlock.children).getD []

/-- How the block store uses the tree: it inserts blocks above the ordered root with a
known parent, moves the ordered root down, and commits blocks between the window root and
the ordered root. -/
def Given : Step → Prop
  | .insertBlock block => block.parentId ∈ t.idToBlock ∧
      ∃ root, t.orderedRoot = some root ∧ root.round < block.round
  | .updateOrderedRoot rootId => Descends t.childrenOf t.orderedRootId rootId
  | .commitCallback order blockId _ _ _ => (∀ ids, (order ids).Perm ids) ∧
      Descends t.childrenOf t.windowRootId blockId ∧
        Descends t.childrenOf blockId t.orderedRootId
  | .insertQuorumCert _ | .insertOrderedCert _ => True

/-- A block that names the round of its parent and has a higher one. -/
def Extends (block parent : Block) : Prop :=
  block.quorumCert.certifiedBlock.round = parent.round ∧ parent.round < block.round

/-- New blocks are well-formed and on parents that are not pruned; a commit comes with the
proof for its block, and with the window size of the store. -/
def Regular : Step → Prop
  | .insertBlock block => t.getBlock block.id = none → block.parentId ∉ t.prunedBlockIds ∧
      ∀ parent, t.getBlock block.parentId = some parent → Extends block parent
  | .commitCallback _ blockId _ commitDecision windowSize' => windowSize' = windowSize ∧
      commitDecision.commitInfo.id = blockId ∧
        ∀ block, t.getBlock blockId = some block → commitDecision.commitInfo.round = block.round
  | _ => True

/-- The walk of `get_ordered_block_window` ends at `root` for a block of round `round`. -/
def StartsWindow (root : Block) (round : Round) : Prop :=
  ∀ size, windowSize = some size → root.blockData.isGenesisBlock = true ∨
    root.quorumCert.certifiedBlock.round < calculateWindowStartRound round size

/-- The recovered blocks are inserted one after the other. -/
def Recovers : List Block → BlockTree → BlockTree → Prop
  | [], t, t' => t = t'
  | block :: blocks, t, t' => ∃ parent, t.getBlock block.id = none ∧
      t.getBlock block.parentId = some parent ∧ Extends block parent ∧
        ∃ answer next, t.insertBlock block = some (answer, next) ∧ Recovers blocks next t'

/-- The tree that the block store builds when it starts: the window root, blocks above it
up to the commit root and further, and the commit certificate of the commit root. -/
def Start : Prop :=
  ∃ commitRootId windowRoot rootQuorumCert rootOrderedCert rootCommitCert
      maxPrunedBlocksInMem highest2chainTimeoutCert t₀ recovered commitRoot,
    new commitRootId windowRoot rootQuorumCert rootOrderedCert rootCommitCert
      maxPrunedBlocksInMem highest2chainTimeoutCert = some t₀ ∧
    Recovers recovered t₀ t ∧ t.getBlock commitRootId = some commitRoot ∧
    rootCommitCert.commitInfo.round = commitRoot.round ∧
    StartsWindow windowSize windowRoot commitRoot.round

/-- The structure of the part that is not pruned. -/
structure Structured (t : BlockTree) : Prop where
  descends : ∀ id ∈ t.idToBlock, id ∉ t.prunedBlockIds → Descends t.childrenOf t.windowRootId id
  children : ∀ id ∈ t.idToBlock, id ∉ t.prunedBlockIds → ∀ child ∈ t.childrenOf id,
    child ∈ t.idToBlock
  windowRoot : t.windowRootId ∈ t.idToBlock ∧ t.windowRootId ∉ t.prunedBlockIds
  commitRoot : t.commitRootId ∈ t.idToBlock ∧ t.commitRootId ∉ t.prunedBlockIds
  orderedRoot : t.orderedRootId ∈ t.idToBlock ∧ t.orderedRootId ∉ t.prunedBlockIds
  bounded : t.prunedBlockIds.length ≤ t.maxPrunedBlocksInMem

end BlockTree

end CreditChain
