import CreditChain.BlockStorage.Prune

/-!
# Committing a block

`Sound.commitCallback` says that a commit keeps the structure of the tree, and
`Sound.commitCallback_isSome` that it does not panic.
-/

namespace CreditChain.BlockTree

open List Option

variable [Crypto] {t t' : BlockTree} {windowSize : Option Nat} {blockId : HashValue}

theorem findWindowRoot_some {rootId : HashValue} {block commitRoot : Block}
    (found : t.getBlock blockId = some block) (isCommit : t.commitRoot = some commitRoot)
    (done : t.findWindowRoot blockId windowSize = some rootId) :
    windowSize ≠ some 0 ∧ commitRoot.round ≤ block.round := by
  obtain ⟨_, nonzero, done⟩ := bind_eq_some_iff.mp done
  obtain ⟨block', found', done⟩ := bind_eq_some_iff.mp done
  rw [found] at found'
  cases found'
  obtain ⟨window, windowed, done⟩ := bind_eq_some_iff.mp done
  refine ⟨by simpa using nonzero, ?_⟩
  by_contra early
  simp only [getOrderedBlockWindow, isCommit, bind_eq_bind, bind_some,
    if_pos (not_le.mp early)] at windowed
  cases windowed
  cases done

/-- The tree after its window root moved down to `rootId` and its commit root to
`blockId`. -/
theorem Sound.processPrunedBlocks (sound : t.Sound windowSize) {rootId : HashValue}
    {root block : Block} {ids : List HashValue}
    (isRoot : t.getBlock rootId = some root) (isBlock : t.getBlock blockId = some block)
    (rootBelow : Descends t.childrenOf t.windowRootId rootId)
    (blockBelow : Descends t.childrenOf rootId blockId)
    (blockAbove : Descends t.childrenOf blockId t.orderedRootId)
    (starts : StartsWindow windowSize root block.round) (nodup : ids.Nodup)
    (members : ∀ id, id ∈ ids ↔ Descends t.childrenOf t.windowRootId id ∧
      ¬ Descends t.childrenOf rootId id)
    (parentsFirst : ids.Pairwise fun earlier later => earlier ∉ t.childrenOf later)
    (cert : WrappedLedgerInfo) (certRound : cert.commitInfo.round = block.round) :
    Sound windowSize { t.processPrunedBlocks ids with
      windowRootId := rootId, commitRootId := blockId, highestCommitCert := cert } := by
  have listed := Listed.append sound nodup members parentsFirst
  obtain ⟨linked, pruned, -, rooted⟩ := sound
  have kept : ∀ id, Descends t.childrenOf rootId id → id ∉ t.prunedBlockIds ++ ids := by
    intro id below mem
    rcases mem_append.mp mem with before | new
    · exact pruned.not_mem_of_descends rooted.live (rootBelow.trans below) before
    · exact ((members id).mp new).2 below
  generalize all_eq : t.prunedBlockIds ++ ids = all at listed kept
  generalize count_eq : all.length - t.maxPrunedBlocksInMem = count
  let t₁ : BlockTree := (all.take count).foldl removeBlock { t with
    prunedBlockIds := all.drop count }
  have processed : t.processPrunedBlocks ids = t₁ := by
    rw [BlockTree.processPrunedBlocks, all_eq, count_eq]
  have roots : SameRoots { t with prunedBlockIds := all.drop count } t₁ :=
    sameRoots_foldl (all.take count)
  have prunedEq : t₁.prunedBlockIds = all.drop count := roots.pruned
  have boundEq : t₁.maxPrunedBlocksInMem = t.maxPrunedBlocksInMem := roots.bound
  have orderedEq : t₁.orderedRootId = t.orderedRootId := roots.ordered
  have removes : Removes t t₁ (all.take count) := removes_foldl (all.take count)
  have notRemoved : ∀ id, Descends t.childrenOf rootId id → id ∉ all.take count := by
    intro id below mem
    exact kept id below (mem_of_mem_take mem)
  rw [processed]
  let t₂ : BlockTree :=
    { t₁ with windowRootId := rootId, commitRootId := blockId, highestCommitCert := cert }
  have removes : Removes t t₂ (all.take count) := removes
  have blockRound : t₂.roundOf blockId = block.round := by
    rw [roundOf_eq ((removes.getBlock (notRemoved blockId blockBelow)).trans isBlock)]
  refine ⟨removes.linked linked fun link mem => listed.take_upward link mem, ?_, ?_, ?_⟩
  · rw [prunedEq]
    exact listed.drop removes
  · rw [prunedEq, boundEq, length_drop]
    omega
  refine ⟨?_, ?_, ?_, ?_, ?_, certRound.trans blockRound.symm, ?_⟩
  · exact removes.mem_idToBlock.mpr
      ⟨notRemoved rootId .refl, linked.mem_of_descends rooted.window rootBelow⟩
  · rw [prunedEq]
    intro mem
    exact kept rootId .refl (mem_of_mem_drop mem)
  · intro id mem notListed
    obtain ⟨notGone, present⟩ := removes.mem_idToBlock.mp mem
    rw [prunedEq] at notListed
    have outside : id ∉ t.prunedBlockIds ++ ids := by
      intro isListed
      rw [all_eq, ← take_append_drop count all] at isListed
      rcases mem_append.mp isListed with front | back
      · exact notGone front
      · exact notListed back
    have below := rooted.below id present fun before =>
      outside (mem_append_left _ before)
    have inside : Descends t.childrenOf rootId id := by
      by_contra not
      exact outside (mem_append_right _ ((members id).mpr ⟨below, not⟩))
    exact removes.descends notRemoved inside
  · exact removes.descends notRemoved blockBelow
  · rw [orderedEq]
    exact removes.descends (fun id below => notRemoved id (blockBelow.trans below)) blockAbove
  · intro root' isRoot'
    rw [removes.getBlock (notRemoved rootId .refl), isRoot] at isRoot'
    cases isRoot'
    rw [blockRound]
    exact starts

omit [Crypto] in
theorem processPrunedBlocks_roots (ids : List HashValue) :
    (t.processPrunedBlocks ids).commitRootId = t.commitRootId ∧
      (t.processPrunedBlocks ids).highestCommitCert = t.highestCommitCert := by
  unfold BlockTree.processPrunedBlocks
  dsimp only
  generalize (t.prunedBlockIds ++ ids).take _ = removed
  generalize (t.prunedBlockIds ++ ids).drop _ = remaining
  have roots := sameRoots_foldl (t := { t with prunedBlockIds := remaining }) removed
  exact ⟨roots.commit, roots.certificate⟩

/-- Above the ordered root there is one block of each round. -/
theorem Sound.commitRoot_unique (sound : t.Sound windowSize) {block : Block}
    (isBlock : t.getBlock blockId = some block)
    (above : Descends t.childrenOf blockId t.orderedRootId)
    (reached : block.round ≤ t.roundOf t.commitRootId)
    (late : t.roundOf t.commitRootId ≤ block.round) : t.commitRootId = blockId := by
  have forest := sound.linked.forest
  rw [← roundOf_eq isBlock] at reached late
  rcases forest.comparable sound.rooted.ordered above with below | below
  · exact forest.eq_of_rank_le below reached
  · exact (forest.eq_of_rank_le below late).symm

section Callback

variable {order : List HashValue → List HashValue} (perm : ∀ ids, (order ids).Perm ids)
  {blockId : HashValue} {block : Block} (isBlock : t.getBlock blockId = some block)
  (below : Descends t.childrenOf t.windowRootId blockId)
  (above : Descends t.childrenOf blockId t.orderedRootId) {finalityProof : WrappedLedgerInfo}
  {commitDecision : LedgerInfoWithSignatures} (sameId : commitDecision.commitInfo.id = blockId)
  (sameRound : commitDecision.commitInfo.round = block.round)

include perm isBlock below above sameId sameRound

/-- A commit keeps the structure of the tree. -/
theorem Sound.commitCallback (sound : t.Sound windowSize)
    (done : t.commitCallback order blockId finalityProof commitDecision windowSize = some t') :
    t'.Sound windowSize := by
  obtain ⟨commitRoot, isCommit, done⟩ := bind_eq_some_iff.mp done
  obtain ⟨commitProof, merged, done⟩ := bind_eq_some_iff.mp done
  obtain ⟨rootId, foundRoot, done⟩ := bind_eq_some_iff.mp done
  obtain ⟨ids, pruned, done⟩ := bind_eq_some_iff.mp done
  obtain ⟨t₁, updated, done⟩ := bind_eq_some_iff.mp done
  obtain ⟨nonzero, late⟩ := findWindowRoot_some isBlock isCommit foundRoot
  obtain ⟨rootId', root, foundRoot', isRoot, rootBelow, blockBelow, starts⟩ :=
    findWindowRoot_spec sound isBlock below nonzero (by rw [roundOf_eq isCommit]; exact late)
  rw [foundRoot] at foundRoot'
  cases foundRoot'
  obtain ⟨ids', pruned', nodup, members, parentsFirst⟩ :=
    findBlocksToPrune_spec sound perm rootBelow
  rw [pruned] at pruned'
  cases pruned'
  have proofInfo : commitProof.commitInfo = commitDecision.commitInfo := by
    unfold WrappedLedgerInfo.createMergedWithExecutedState at merged
    split at merged
    · cases merged
      rfl
    · cases merged
  have processed := sound.processPrunedBlocks isRoot isBlock rootBelow blockBelow above starts
    nodup members parentsFirst
  unfold updateWindowRoot at updated
  split at updated
  · cases updated
    unfold updateHighestCommitCert at done
    split at done
    · unfold updateCommitRoot at done
      split at done
      · cases done
        have moved := processed commitProof (by rw [proofInfo, sameRound])
        rw [proofInfo, sameId]
        exact moved
      · cases done
    · rename_i notHigher
      cases done
      obtain ⟨commitEq, certEq⟩ := processPrunedBlocks_roots (t := t) ids
      have reached : block.round ≤ t.roundOf t.commitRootId := by
        rw [← sound.rooted.certificate, ← sameRound, ← proofInfo, ← certEq]
        exact not_lt.mp notHigher
      have isCommitRoot : t.commitRootId = blockId :=
        sound.commitRoot_unique isBlock above reached (by rw [roundOf_eq isCommit]; exact late)
      have sameCertificate : t.highestCommitCert.commitInfo.round = block.round := by
        rw [sound.rooted.certificate, isCommitRoot, roundOf_eq isBlock]
      have moved := processed t.highestCommitCert sameCertificate
      rw [← certEq, ← isCommitRoot, ← commitEq] at moved
      exact moved
  · cases updated

/-- A commit of a block that is not below the commit root's round does not panic. -/
theorem Sound.commitCallback_isSome (sound : t.Sound windowSize) (nonzero : windowSize ≠ some 0)
    (late : t.roundOf t.commitRootId ≤ block.round)
    (fits : finalityProof.commitInfo.matchOrderedOnly commitDecision.commitInfo = true) :
    (t.commitCallback order blockId finalityProof commitDecision windowSize).isSome := by
  obtain ⟨commitRoot, foundCommit⟩ :=
    mem_idToBlock.mp (sound.linked.mem_of_descends sound.rooted.window sound.rooted.commit)
  have isCommit : t.commitRoot = some commitRoot.executedBlock :=
    getBlock_eq_some.mpr ⟨commitRoot, foundCommit, rfl⟩
  obtain ⟨rootId, root, foundRoot, isRoot, rootBelow, blockBelow, starts⟩ :=
    findWindowRoot_spec sound isBlock below nonzero late
  obtain ⟨ids, pruned, nodup, members, parentsFirst⟩ := findBlocksToPrune_spec sound perm rootBelow
  have processed := sound.processPrunedBlocks isRoot isBlock rootBelow blockBelow above starts
    nodup members parentsFirst ⟨finalityProof.voteData, commitDecision⟩ sameRound
  have rootPresent : rootId ∈ (t.processPrunedBlocks ids).idToBlock := processed.rooted.window
  have blockPresent : blockId ∈ (t.processPrunedBlocks ids).idToBlock :=
    processed.linked.mem_of_descends rootPresent processed.rooted.commit
  have merged : finalityProof.createMergedWithExecutedState commitDecision =
      .ok ⟨finalityProof.voteData, commitDecision⟩ := if_pos fits
  have updated : (t.processPrunedBlocks ids).updateWindowRoot rootId =
      some { t.processPrunedBlocks ids with windowRootId := rootId } := if_pos rootPresent
  unfold BlockTree.commitCallback
  rw [isCommit, merged]
  simp only [bind_eq_bind, bind_some, Except.toOption, foundRoot, pruned, updated]
  unfold updateHighestCommitCert
  split
  · unfold updateCommitRoot
    rw [if_pos]
    · rfl
    · exact sameId ▸ blockPresent
  · rfl

end Callback

end CreditChain.BlockTree
