import CreditChain.BlockStorage.Runs

/-!
# Finding the block of a round

`insert_block` enters the first block of a round in `round_to_ids`, and `remove_block`
removes the entry of the round of whichever block it removes.

* `getBlockForRound_of_reached`: the index is complete in every run that never inserts a
  second block of a round.
* `SameRound.forgotten`: of two blocks of one round, the commit of one prunes the other and
  with it the entry of both.
-/

namespace CreditChain

namespace BlockTree

def getBlockForRound (t : BlockTree) (round : Round) : Option Block :=
  t.roundToIds[round]?.bind t.getBlock

/-- The index lists the blocks of the tree, and only them. -/
def Indexed (t : BlockTree) : Prop :=
  ∀ (round : Round) (id : HashValue), t.roundToIds[round]? = some id ↔
    ∃ block, t.getBlock id = some block ∧ block.round = round

variable {t t' : BlockTree}

theorem Indexed.of_same (indexed : t.Indexed) (blocks : t'.idToBlock = t.idToBlock)
    (index : t'.roundToIds = t.roundToIds) : t'.Indexed := by
  unfold Indexed getBlock
  rw [blocks, index]
  exact indexed

theorem Indexed.removeBlock (indexed : t.Indexed) (id : HashValue) :
    (t.removeBlock id).Indexed := by
  intro round other
  have left : (t.removeBlock id).getBlock other = if id = other then none else t.getBlock other := by
    rw [getBlock, BlockTree.removeBlock, Map.getElem?_erase_eq, apply_ite (Option.map _)]
    rfl
  have listed := indexed round other
  rw [left]
  cases found : t.getBlock id with
  | none =>
    rw [BlockTree.removeBlock, found]
    grind
  | some block =>
    -- the entry of the round is that of the removed block
    have removed := (indexed block.round id).mpr ⟨block, found, rfl⟩
    rw [BlockTree.removeBlock, found]
    grind

theorem Indexed.processPrunedBlocks (indexed : t.Indexed) (ids : List HashValue) :
    (t.processPrunedBlocks ids).Indexed := by
  refine List.foldlRecOn _ _ (indexed.of_same rfl rfl) ?_
  intro tree indexed id _
  exact indexed.removeBlock id

variable [Crypto]

theorem Indexed.attach (indexed : t.Indexed) {block : Block} {parent : LinkableBlock}
    (fresh : t.idToBlock[block.id]? = none) (found : t.idToBlock[block.parentId]? = some parent)
    (first : ∀ id other, t.getBlock id = some other → other.round ≠ block.round) :
    (t.attach block parent).Indexed := by
  have unlisted : t.roundToIds[block.round]? = none := by
    rw [Option.eq_none_iff_forall_not_mem]
    intro id listed
    obtain ⟨other, there, isRound⟩ := (indexed _ id).mp listed
    exact first id other there isRound
  intro round id
  have entry : (t.attach block parent).roundToIds[round]? =
      if block.round = round then some block.id else t.roundToIds[round]? := by
    rw [BlockTree.attach, Map.getElem?_insertIfNew_eq]
    simp only [unlisted, and_true]
  have new : (t.attach block parent).getBlock block.id = some block := by
    rw [getBlock, attach_getElem?, if_pos rfl]
    rfl
  have old : id ≠ block.id → (t.attach block parent).getBlock id = t.getBlock id :=
    getBlock_attach found
  have missing := getBlock_eq_none.mpr fresh
  have listed := indexed round id
  grind

/-- No block of the tree has the round of the block that is inserted. -/
def Unequivocal (t : BlockTree) : Step → Prop
  | .insertBlock block => t.getBlock block.id = none →
      ∀ id other, t.getBlock id = some other → other.round ≠ block.round
  | _ => True

theorem Indexed.step {input : Step} (indexed : t.Indexed) (allowed : t.Unequivocal input)
    (done : BlockTree.step input t = some t') : t'.Indexed := by
  cases input with
  | insertBlock block =>
    obtain ⟨⟨answer, next⟩, inserted, rfl⟩ := Option.map_eq_some_iff.mp done
    rcases insertBlock_cases inserted with rfl | ⟨parent, fresh, found, rfl⟩
    · exact indexed
    · exact indexed.attach fresh found (allowed (getBlock_eq_none.mpr fresh))
  | insertQuorumCert qc =>
    obtain ⟨⟨answer, next⟩, inserted, rfl⟩ := Option.map_eq_some_iff.mp done
    obtain ⟨blocks, index, -⟩ := insertQuorumCert_same inserted
    exact indexed.of_same blocks index
  | insertOrderedCert orderedCert =>
    cases done
    unfold BlockTree.insertOrderedCert
    split
    · exact indexed.of_same rfl rfl
    · exact indexed
  | updateOrderedRoot rootId =>
    obtain ⟨-, same⟩ := Option.ite_none_right_eq_some.mp done
    cases same
    exact indexed.of_same rfl rfl
  | commitCallback order blockId finalityProof commitDecision windowSize =>
    obtain ⟨_, -, done⟩ := Option.bind_eq_some_iff.mp done
    obtain ⟨commitProof, -, done⟩ := Option.bind_eq_some_iff.mp done
    obtain ⟨windowRootId, -, done⟩ := Option.bind_eq_some_iff.mp done
    obtain ⟨ids, -, done⟩ := Option.bind_eq_some_iff.mp done
    obtain ⟨t₁, moved, done⟩ := Option.bind_eq_some_iff.mp done
    obtain ⟨-, same⟩ := Option.ite_none_right_eq_some.mp moved
    cases same
    have pruned : Indexed { t.processPrunedBlocks ids with windowRootId } :=
      (indexed.processPrunedBlocks ids).of_same rfl rfl
    unfold updateHighestCommitCert at done
    split at done
    · obtain ⟨-, same⟩ := Option.ite_none_right_eq_some.mp done
      cases same
      exact pruned.of_same rfl rfl
    · cases done
      exact pruned

/-- The trees that `new` makes. -/
def Created (t : BlockTree) : Prop :=
  ∃ commitRootId windowRoot rootQuorumCert rootOrderedCert rootCommitCert maxPrunedBlocksInMem
      highest2chainTimeoutCert, new commitRootId windowRoot rootQuorumCert rootOrderedCert
    rootCommitCert maxPrunedBlocksInMem highest2chainTimeoutCert = some t

theorem Created.indexed (created : t.Created) : t.Indexed := by
  obtain ⟨_, windowRoot, _, _, _, _, _, made⟩ := created
  obtain ⟨-, same⟩ := Option.ite_none_right_eq_some.mp made
  cases same
  intro round id
  rw [getBlock, Map.getElem?_insert_eq]
  by_cases isRoot : windowRoot.id = id
  · simp [isRoot]
  · simp [isRoot]

/-- **The round index never loses a block**, in every run without a second block of a round. -/
theorem getBlockForRound_of_reached (reached : Run.Reaches step Unequivocal Created t)
    {round : Round} (there : ∃ id block, t.getBlock id = some block ∧ block.round = round) :
    ∃ id block, t.getBlockForRound round = some block ∧ block.round = round ∧
      t.getBlock id = some block := by
  have indexed : t.Indexed :=
    reached.invariant (fun _ created => created.indexed) fun _ _ _ => Indexed.step
  obtain ⟨id, block, found, isRound⟩ := there
  refine ⟨id, block, ?_, isRound, found⟩
  rw [getBlockForRound, (indexed round id).mpr ⟨block, found, isRound⟩]
  exact found

end BlockTree

/-! ## Two blocks of one round

Two blocks of round 1 on the genesis block; the second one is committed. -/

namespace SameRound

open PrunedFork (certificate genesis)

/-- Blocks are told apart by their timestamp. -/
local instance crypto : Crypto :=
  { PrunedFork.crypto with
    blockDataHash
      | .full data => data.timestampUsecs + 1
      | .opt _ round _ _ _ => round + 1 }

def block (time : Nat) : Block := ⟨⟨1, 1, time, certificate 0, .nilBlock []⟩, none⟩

def blockInfo (id : HashValue) : BlockInfo := ⟨1, 1, id, 0, 0, 0, none⟩

/-- The proof that a block of round 1 is committed. -/
def proof (id : HashValue) : WrappedLedgerInfo :=
  ⟨⟨blockInfo id, PrunedFork.blockInfo 0⟩, ⟨⟨blockInfo id, 0⟩, .empty⟩⟩

def start : BlockTree := { PrunedFork.start with maxPrunedBlocksInMem := 0 }

theorem created : start.Created :=
  ⟨1, genesis, certificate 0, PrunedFork.proof 0, PrunedFork.proof 0, 0, none, by decide⟩

/-- A block of round 1 is committed, and all others are removed. -/
def commit (id : HashValue) : List BlockTree.Step :=
  [.updateOrderedRoot id,
    .commitCallback (fun found => found) id (proof id) (proof id).signedLedgerInfo none]

def committed (id : HashValue) (time : Nat) : BlockTree :=
  { start with
    idToBlock := .ofList [(id, ⟨block time, []⟩)] compare
    orderedRootId := id, commitRootId := id, windowRootId := id, highestCommitCert := proof id
    idToQuorumCert := ∅
    roundToIds := ∅ }

/-- The tree with the committed first block of the round. -/
def once : BlockTree := { committed 2 1 with roundToIds := .ofList [(1, 2)] compare }

/-- The first block of the round is found after the blocks before it are removed. -/
theorem first_found : ∃ id found, once.getBlockForRound 1 = some found ∧ found.round = 1 ∧
    once.getBlock id = some found := by
  refine BlockTree.getBlockForRound_of_reached ?_ ⟨2, block 1, by decide, rfl⟩
  refine (Run.Reaches.start created).of_inputs (.insertBlock (block 1) :: commit 2)
    ⟨?_, _, rfl, trivial, _, rfl, trivial, _, by decide, rfl⟩
  intro _ id other found isRound
  have listed := (created.indexed 1 id).mpr ⟨other, found, isRound⟩
  cases listed

/-- The second block is in the tree, and its round has no entry. -/
theorem forgotten :
    Run.Reaches BlockTree.step (fun _ _ => True) BlockTree.Created (committed 3 2) ∧
      (committed 3 2).getBlock 3 = some (block 2) ∧ (block 2).round = 1 ∧
      (committed 3 2).getBlockForRound 1 = none := by
  refine ⟨?_, by decide, rfl, by decide⟩
  have done : (.insertBlock (block 1) :: .insertBlock (block 2) :: commit 3).foldlM
      (fun t input => BlockTree.step input t) start = some (committed 3 2) := by
    decide
  exact (Run.Reaches.start created).of_foldlM (fun _ _ => trivial) done

end SameRound

end CreditChain
