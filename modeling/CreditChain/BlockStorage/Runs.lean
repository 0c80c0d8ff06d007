import CreditChain.BlockStorage.Commit

/-!
# Runs of the block store

`structured_of_reached`: in every run that puts new blocks on parents that are not pruned,
the part that is not pruned hangs together below the window root.  `PrunedFork` is a run
that puts a block on a pruned parent.
-/

namespace CreditChain

namespace BlockTree

variable [Crypto] {t t' : BlockTree} {windowSize : Option Nat}

theorem insertQuorumCert_same {qc : QuorumCert} {answer : Except String Unit}
    (done : t.insertQuorumCert qc = some (answer, t')) :
    t'.idToBlock = t.idToBlock ∧ t'.roundToIds = t.roundToIds ∧
      t'.windowRootId = t.windowRootId ∧ SameRoots t t' := by
  unfold BlockTree.insertQuorumCert at done
  dsimp only at done
  split at done
  · cases done
    exact ⟨rfl, rfl, rfl, rfl, rfl, rfl, rfl, rfl⟩
  obtain ⟨certified, -, done⟩ := Option.bind_eq_some_iff.mp done
  cases done
  refine ⟨?_, ?_, ?_, ?_, ?_, ?_, ?_, ?_⟩
  all_goals
    split <;> split <;> rfl

section

variable (sound : t.Sound windowSize)

include sound

/-- An operation that leaves blocks, roots, commit certificate and pruned blocks alone. -/
theorem Sound.of_same (blocks : t'.idToBlock = t.idToBlock)
    (window : t'.windowRootId = t.windowRootId) (roots : SameRoots t t') :
    t'.Sound windowSize := by
  cases t'
  obtain ⟨ordered, commit, certificate, pruned, bound⟩ := roots
  subst blocks window ordered commit certificate pruned bound
  obtain ⟨linked, listed, bounded, rooted⟩ := sound
  exact ⟨⟨linked.keyed, linked.nodup, linked.child⟩,
    ⟨listed.present, listed.nodup, listed.upward, listed.ordered⟩, bounded,
    ⟨rooted.window, rooted.live, rooted.below, rooted.commit, rooted.ordered,
      rooted.certificate, rooted.starts⟩⟩

theorem Sound.insertQuorumCert {qc : QuorumCert}
    {answer : Except String Unit} (done : t.insertQuorumCert qc = some (answer, t')) :
    t'.Sound windowSize := by
  obtain ⟨blocks, -, window, roots⟩ := insertQuorumCert_same done
  exact sound.of_same blocks window roots

theorem Sound.insertOrderedCert {orderedCert : WrappedLedgerInfo} :
    (t.insertOrderedCert orderedCert).Sound windowSize := by
  unfold BlockTree.insertOrderedCert
  split
  · exact sound.of_same rfl rfl ⟨rfl, rfl, rfl, rfl, rfl⟩
  · exact sound

theorem Sound.updateOrderedRoot {rootId : HashValue}
    (below : Descends t.childrenOf t.orderedRootId rootId)
    (done : t.updateOrderedRoot rootId = some t') : t'.Sound windowSize := by
  unfold BlockTree.updateOrderedRoot at done
  split at done
  · cases done
    obtain ⟨linked, listed, bounded, rooted⟩ := sound
    exact ⟨⟨linked.keyed, linked.nodup, linked.child⟩,
      ⟨listed.present, listed.nodup, listed.upward, listed.ordered⟩, bounded,
      ⟨rooted.window, rooted.live, rooted.below, rooted.commit, rooted.ordered.trans below,
        rooted.certificate, rooted.starts⟩⟩
  · cases done

theorem Sound.insertBlock {block : Block}
    {answer : Except String Block} (regular : t.Regular windowSize (.insertBlock block))
    (done : t.insertBlock block = some (answer, t')) : t'.Sound windowSize := by
  rcases insertBlock_cases done with rfl | ⟨parent, fresh, found, rfl⟩
  · exact sound
  · obtain ⟨live, extends_⟩ := regular (getBlock_eq_none.mpr fresh)
    exact sound.attach fresh found live
      (extends_ parent.executedBlock (getBlock_eq_some.mpr ⟨parent, found, rfl⟩))

/-- Every regular step keeps the invariant. -/
theorem Sound.step {input : Step} (given : t.Given input)
    (regular : t.Regular windowSize input) (done : BlockTree.step input t = some t') :
    t'.Sound windowSize := by
  cases input with
  | insertBlock block =>
    obtain ⟨⟨answer, next⟩, inserted, rfl⟩ := Option.map_eq_some_iff.mp done
    exact sound.insertBlock regular inserted
  | insertQuorumCert qc =>
    obtain ⟨⟨answer, next⟩, inserted, rfl⟩ := Option.map_eq_some_iff.mp done
    exact sound.insertQuorumCert inserted
  | insertOrderedCert orderedCert =>
    cases done
    exact sound.insertOrderedCert
  | updateOrderedRoot rootId => exact sound.updateOrderedRoot given done
  | commitCallback order blockId finalityProof commitDecision windowSize' =>
    obtain ⟨perm, below, above⟩ := given
    obtain ⟨rfl, sameId, sameRound⟩ := regular
    obtain ⟨linkable, found⟩ :=
      mem_idToBlock.mp (sound.linked.mem_of_descends sound.rooted.window below)
    have isBlock := getBlock_eq_some.mpr ⟨linkable, found, rfl⟩
    exact sound.commitCallback perm isBlock below above sameId (sameRound _ isBlock) done

end

/-! ## The tree at the start -/

/-- While the store is built, all blocks hang below the window root and the roots of the
other phases wait for their block. -/
structure Hanging (root : Block) (commitRootId : HashValue) (cert : WrappedLedgerInfo)
    (t : BlockTree) : Prop where
  linked : t.Linked
  root : t.getBlock t.windowRootId = some root
  below : ∀ id ∈ t.idToBlock, Descends t.childrenOf t.windowRootId id
  pruned : t.prunedBlockIds = []
  commit : t.commitRootId = commitRootId
  ordered : t.orderedRootId = commitRootId
  certificate : t.highestCommitCert = cert

section Building

variable {root : Block} {commitRootId : HashValue} {cert : WrappedLedgerInfo}

theorem Hanging.attach {block : Block} {parent : LinkableBlock}
    (hanging : t.Hanging root commitRootId cert) (fresh : t.idToBlock[block.id]? = none)
    (found : t.idToBlock[block.parentId]? = some parent)
    (extends_ : Extends block parent.executedBlock) :
    (t.attach block parent).Hanging root commitRootId cert := by
  obtain ⟨linkable, foundRoot, -⟩ := getBlock_eq_some.mp hanging.root
  have rootOld := ne_of_present fresh (mem_idToBlock.mpr ⟨linkable, foundRoot⟩)
  refine ⟨hanging.linked.attach fresh found extends_,
    (getBlock_attach found rootOld).trans hanging.root, ?_, hanging.pruned, hanging.commit,
    hanging.ordered, hanging.certificate⟩
  intro id mem
  rcases (mem_attach found).mp mem with before | rfl
  · exact descends_attach fresh found (hanging.below id before)
  · have parentBelow := hanging.below _ (mem_idToBlock.mpr ⟨parent, found⟩)
    exact (descends_attach fresh found parentBelow).tail
      ((mem_childrenOf_attach fresh found).mpr (.inr ⟨rfl, rfl⟩))

theorem Hanging.recovers {blocks : List Block} (hanging : t.Hanging root commitRootId cert)
    (recovers : Recovers blocks t t') : t'.Hanging root commitRootId cert := by
  induction blocks generalizing t with
  | nil =>
    cases recovers
    exact hanging
  | cons block blocks ih =>
    obtain ⟨parent, fresh, found, extends_, answer, next, inserted, rest⟩ := recovers
    obtain ⟨linkable, foundParent, rfl⟩ := getBlock_eq_some.mp found
    rcases insertBlock_cases inserted with rfl | ⟨linkable', fresh', foundParent', rfl⟩
    · exact ih hanging rest
    · rw [foundParent] at foundParent'
      cases foundParent'
      exact ih (hanging.attach fresh' foundParent extends_) rest

theorem hanging_new {rootQuorumCert : QuorumCert} {rootOrderedCert : WrappedLedgerInfo}
    {maxPruned : Nat} {timeoutCert : Option TwoChainTimeoutCertificate}
    (made : new commitRootId root rootQuorumCert rootOrderedCert cert maxPruned timeoutCert =
      some t) : t.Hanging root commitRootId cert := by
  unfold new at made
  split at made
  · cases made
    have single : ∀ {id : HashValue} {block : LinkableBlock},
        ((∅ : Map HashValue LinkableBlock).insert root.id ⟨root, []⟩)[id]? = some block →
          id = root.id ∧ block = ⟨root, []⟩ := by
      intro id block found
      rw [Map.getElem?_insert_eq] at found
      split at found
      · cases found
        exact ⟨.symm ‹_›, rfl⟩
      · simp at found
    refine ⟨⟨?_, ?_, ?_⟩, ?_, ?_, rfl, rfl, rfl, rfl⟩
    · intro id block found
      obtain ⟨rfl, rfl⟩ := single found
      rfl
    · intro id block found
      obtain ⟨rfl, rfl⟩ := single found
      exact List.nodup_nil
    · intro id block child found mem
      obtain ⟨rfl, rfl⟩ := single found
      cases mem
    · rw [BlockTree.getBlock, Map.getElem?_insert_eq, if_pos rfl]
      rfl
    · intro id mem
      obtain ⟨block, found⟩ := mem_idToBlock.mp mem
      obtain ⟨rfl, -⟩ := single found
      exact .refl
  · cases made

end Building

theorem Start.sound (start : Start windowSize t) : t.Sound windowSize := by
  obtain ⟨commitRootId, windowRoot, _, _, cert, _, _, t₀, recovered, commitRoot, made, recovers,
    isCommit, certRound, starts⟩ := start
  have hanging := (hanging_new made).recovers recovers
  obtain ⟨linked, root, below, pruned, rfl, ordered, certificate⟩ := hanging
  obtain ⟨linkable, foundRoot, -⟩ := getBlock_eq_some.mp root
  obtain ⟨linkableCommit, foundCommit, -⟩ := getBlock_eq_some.mp isCommit
  have commitRound := roundOf_eq isCommit
  refine ⟨linked, ?_, ?_, ?_⟩
  · rw [pruned]
    exact ⟨by simp, List.nodup_nil, by simp, .nil⟩
  · rw [pruned]
    exact Nat.zero_le _
  refine ⟨mem_idToBlock.mpr ⟨linkable, foundRoot⟩, by rw [pruned]; simp,
    fun id mem _ => below id mem, below _ (mem_idToBlock.mpr ⟨linkableCommit, foundCommit⟩), ?_,
    ?_, ?_⟩
  · rw [ordered]
  · rw [certificate, certRound, commitRound]
  intro root' isRoot'
  rw [root] at isRoot'
  cases isRoot'
  rw [commitRound]
  exact starts

/-- The trees in runs of the block store whose steps all meet `allowed`. -/
abbrev Reached (windowSize : Option Nat) (allowed : BlockTree → Step → Prop) : BlockTree → Prop :=
  Run.Reaches step (fun t input => t.Given input ∧ allowed t input) (Start windowSize)

/-- **What is not pruned hangs together below the window root**, in every run in which new
blocks are put on parents that are not pruned. -/
theorem structured_of_reached (reached : Reached windowSize (Regular windowSize) t) :
    t.Structured := by
  have sound : t.Sound windowSize := by
    refine reached.invariant (fun _ start => start.sound) ?_
    intro t input t' sound allowed done
    exact sound.step allowed.1 allowed.2 done
  exact sound.structured

/-- **Commits.**  A commit between the window root and the ordered root, not below the round of
the commit root and with a decision that matches its proof, does not panic. -/
theorem commit_of_reached (reached : Reached windowSize (Regular windowSize) t)
    {order : List HashValue → List HashValue} {blockId : HashValue}
    {finalityProof : WrappedLedgerInfo} {commitDecision : LedgerInfoWithSignatures}
    (given : t.Given (.commitCallback order blockId finalityProof commitDecision windowSize))
    (regular : t.Regular windowSize
      (.commitCallback order blockId finalityProof commitDecision windowSize))
    (nonzero : windowSize ≠ some 0) (late : t.roundOf t.commitRootId ≤ t.roundOf blockId)
    (fits : finalityProof.commitInfo.matchOrderedOnly commitDecision.commitInfo = true) :
    ∃ t', t.commitCallback order blockId finalityProof commitDecision windowSize = some t' ∧
      t'.Structured := by
  have sound : t.Sound windowSize := by
    refine reached.invariant (fun _ start => start.sound) ?_
    intro t input t' sound allowed done
    exact sound.step allowed.1 allowed.2 done
  obtain ⟨perm, below, above⟩ := given
  obtain ⟨-, sameId, sameRound⟩ := regular
  obtain ⟨linkable, present⟩ :=
    mem_idToBlock.mp (sound.linked.mem_of_descends sound.rooted.window below)
  have isBlock := getBlock_eq_some.mpr ⟨linkable, present, rfl⟩
  rw [roundOf_eq isBlock] at late
  obtain ⟨t', done⟩ := Option.isSome_iff_exists.mp (sound.commitCallback_isSome perm isBlock below
    above sameId (sameRound _ isBlock) nonzero late fits)
  exact ⟨t', done, (sound.commitCallback perm isBlock below above sameId (sameRound _ isBlock)
    done).structured⟩

end BlockTree

/-! ## A fork of a pruned block

Blocks 1 and 2 fork from the genesis block.  The commit of block 2 prunes block 1, which
stays in memory.  Block 3 is put either on block 2 or on block 1. -/

namespace PrunedFork

local instance crypto : Crypto := .ofRounds (.linear fun _ => 0) fun key _ => some key

def blockInfo (round : Round) : BlockInfo := ⟨1, round, round + 1, 0, 0, 0, none⟩

def certificate (round : Round) : QuorumCert :=
  ⟨⟨blockInfo round, blockInfo 0⟩, ⟨⟨blockInfo 0, 0⟩, .empty⟩⟩

def genesis : Block := ⟨⟨1, 0, 0, certificate 0, .genesis⟩, none⟩

def block (round parent : Round) : Block := ⟨⟨1, round, 0, certificate parent, .nilBlock []⟩, none⟩

/-- The proof that the block of a round is committed. -/
def proof (round : Round) : WrappedLedgerInfo :=
  ⟨⟨blockInfo round, blockInfo 0⟩, ⟨⟨blockInfo round, 0⟩, .empty⟩⟩

/-- The genesis block, blocks 1 and 2, and further blocks; the rounds of the ordered and of
the committed root. -/
def tree (blocks : List LinkableBlock) (ordered committed : Round) (pruned : List HashValue) :
    BlockTree where
  idToBlock := .ofList (blocks.map fun linkable => (linkable.executedBlock.id, linkable)) compare
  orderedRootId := ordered + 1
  commitRootId := committed + 1
  windowRootId := committed + 1
  highestCertifiedBlockId := 1
  highestQuorumCert := certificate 0
  highest2chainTimeoutCert := none
  highestOrderedCert := proof 0
  highestCommitCert := proof committed
  idToQuorumCert := .ofList [(1, certificate 0)] compare
  prunedBlockIds := pruned
  maxPrunedBlocksInMem := 2
  roundToIds := .ofList (blocks.map fun linkable =>
    (linkable.executedBlock.round, linkable.executedBlock.id)) compare

def start : BlockTree := tree [⟨genesis, []⟩] 0 0 []

def forked (ordered : Round) : BlockTree :=
  tree [⟨genesis, [2, 3]⟩, ⟨block 1 0, []⟩, ⟨block 2 0, []⟩] ordered 0 []

def committed : BlockTree := tree [⟨genesis, [2, 3]⟩, ⟨block 1 0, []⟩, ⟨block 2 0, []⟩] 2 2 [1, 2]

def extended : BlockTree :=
  tree [⟨genesis, [2, 3]⟩, ⟨block 1 0, []⟩, ⟨block 2 0, [4]⟩, ⟨block 3 2, []⟩] 2 2 [1, 2]

def stray : BlockTree :=
  tree [⟨genesis, [2, 3]⟩, ⟨block 1 0, [4]⟩, ⟨block 2 0, []⟩, ⟨block 3 1, []⟩] 2 2 [1, 2]

theorem isStart : BlockTree.Start none start :=
  ⟨1, genesis, certificate 0, proof 0, proof 0, 2, none, start, [], genesis, by decide, rfl,
    by decide, rfl, fun _ isSome => nomatch isSome⟩

def commit : BlockTree.Step := .commitCallback id 3 (proof 2) (proof 2).signedLedgerInfo none

theorem regular {t : BlockTree} {round parent : Round} {parentBlock : Block}
    (live : parent + 1 ∉ t.prunedBlockIds) (found : t.getBlock (parent + 1) = some parentBlock)
    (isRound : parentBlock.round = parent) (higher : parent < round) :
    BlockTree.Regular none t (.insertBlock (block round parent)) := by
  intro _
  refine ⟨live, ?_⟩
  intro other foundOther
  rw [show (block round parent).parentId = parent + 1 from rfl, found] at foundOther
  cases foundOther
  exact ⟨isRound.symm, isRound ▸ higher⟩

theorem reached_forked : BlockTree.Reached none (BlockTree.Regular none) (forked 2) := by
  refine (Run.Reaches.start isStart).of_inputs
    [.insertBlock (block 1 0), .insertBlock (block 2 0), .updateOrderedRoot 3] ?_
  refine ⟨⟨⟨by decide, genesis, by decide, by decide⟩,
    regular (by decide) (show _ = some genesis by decide) rfl (by decide)⟩,
    tree [⟨genesis, [2]⟩, ⟨block 1 0, []⟩] 0 0 [], by decide, ?_⟩
  refine ⟨⟨⟨by decide, genesis, by decide, by decide⟩,
    regular (by decide) (show _ = some genesis by decide) rfl (by decide)⟩, forked 0, by decide, ?_⟩
  exact ⟨⟨.single (by decide), trivial⟩, forked 2, by decide, rfl⟩

theorem commit_given : (forked 2).Given commit ∧ (forked 2).Regular none commit := by
  refine ⟨⟨fun _ => .refl _, .single (by decide), .refl⟩, rfl, rfl, fun block found => ?_⟩
  cases found
  rfl

theorem reached_committed : BlockTree.Reached none (BlockTree.Regular none) committed :=
  reached_forked.of_inputs [commit] ⟨commit_given, committed, by decide, rfl⟩

/-- The commit of block 2 prunes the genesis block and block 1. -/
theorem fork_committed :
    BlockTree.step commit (forked 2) = some committed ∧ committed.Structured := by
  have done : BlockTree.step commit (forked 2) = some committed := by decide
  obtain ⟨t', done', structured⟩ := BlockTree.commit_of_reached reached_forked commit_given.1
    commit_given.2 (Option.some_ne_none 0).symm (by decide) rfl
  cases done.symm.trans done'
  exact ⟨done, structured⟩

theorem extended_structured : extended.Structured := by
  have reached : BlockTree.Reached none (BlockTree.Regular none) extended := by
    refine reached_committed.of_inputs [.insertBlock (block 3 2)]
      ⟨⟨⟨by decide, ?_⟩, ?_⟩, _, by decide, rfl⟩
    · exact ⟨block 2 0, by decide, by decide⟩
    · exact regular (by decide) (show _ = some (block 2 0) by decide) rfl (by decide)
  exact BlockTree.structured_of_reached reached

/-- The block on the pruned block 1 is accepted.  It is not listed as pruned, and not below
the window root. -/
theorem stray_not_structured :
    BlockTree.Reached none (fun _ _ => True) stray ∧ ¬ stray.Structured := by
  constructor
  · refine (reached_committed.mono fun _ _ ok => ⟨ok.1, trivial⟩).of_inputs
      [.insertBlock (block 3 1)] ⟨⟨⟨by decide, ?_⟩, trivial⟩, _, by decide, rfl⟩
    exact ⟨block 2 0, by decide, by decide⟩
  · intro structured
    have below := structured.descends 4 (by decide) (by decide)
    rcases below.cases_head with same | ⟨child, isChild, -⟩
    · exact absurd same (by decide)
    · cases isChild

end PrunedFork

end CreditChain
