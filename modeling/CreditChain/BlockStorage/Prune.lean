import CreditChain.BlockStorage.Structure

/-!
# Moving the window root

The blocks below the old and not below the new window root are pruned.
-/

namespace CreditChain.BlockTree

open List Std.ExtTreeMap Nat

variable {t t' : BlockTree} {windowSize : Option Nat}

theorem card_keys_le : t.idToBlock.keys.toFinset.card ≤ t.idToBlock.size :=
  (toFinset_card_le _).trans (length_keys.le)

variable {id : HashValue}

theorem mem_keys_toFinset : id ∈ t.idToBlock.keys.toFinset ↔ id ∈ t.idToBlock := by
  rw [mem_toFinset, Std.ExtTreeMap.mem_keys]

/-! ## The walk down to the window root -/

variable {block : Block}

/-- A step to a lower round leaves fewer blocks below. -/
theorem card_lower_lt {round : Round} (found : t.getBlock id = some block)
    (higher : block.round < round) :
    (t.idToBlock.keys.toFinset.filter fun other => t.roundOf other < block.round).card <
      (t.idToBlock.keys.toFinset.filter fun other => t.roundOf other < round).card := by
  have present : id ∈ t.idToBlock := by
    obtain ⟨linkable, foundId, -⟩ := getBlock_eq_some.mp found
    exact mem_idToBlock.mpr ⟨linkable, foundId⟩
  refine Finset.card_lt_card ((Finset.ssubset_iff_of_subset ?_).mpr ⟨id, ?_, ?_⟩)
  · intro other mem
    obtain ⟨known, lower⟩ := Finset.mem_filter.mp mem
    exact Finset.mem_filter.mpr ⟨known, lower.trans higher⟩
  · rw [Finset.mem_filter, mem_keys_toFinset, roundOf_eq found]
    exact ⟨present, higher⟩
  · intro mem
    have lower := (Finset.mem_filter.mp mem).2
    rw [roundOf_eq found] at lower
    exact lt_irrefl _ lower

variable [Crypto] {fuel n : Nat}

/-- The walk stays between the window root and its start, ends, and passes few rounds. -/
theorem windowLoop_spec (linked : t.Linked) {root : Block} {start : Round}
    (isRoot : t.getBlock t.windowRootId = some root)
    (stops : root.blockData.isGenesisBlock = true ∨ root.quorumCert.certifiedBlock.round < start)
    (found : t.getBlock id = some block)
    (below : Descends t.childrenOf t.windowRootId id)
    (enough : (t.idToBlock.keys.toFinset.filter fun other => t.roundOf other < block.round).card <
      fuel) :
    ∃ window, t.windowLoop start fuel block = some (.ok window) ∧
      window.length ≤ block.round - start ∧
      ∃ lastId, t.getBlock lastId = some (window.getLast?.getD block) ∧
        Descends t.childrenOf t.windowRootId lastId ∧ Descends t.childrenOf lastId id ∧
        ((window.getLast?.getD block).blockData.isGenesisBlock = true ∨
          (window.getLast?.getD block).quorumCert.certifiedBlock.round < start) := by
  induction fuel generalizing id block with
  | zero => exact absurd enough (not_lt_zero _)
  | succ fuel ih =>
    rw [windowLoop]
    by_cases goes : (!block.blockData.isGenesisBlock &&
        decide (start ≤ block.quorumCert.certifiedBlock.round)) = true
    · rw [if_pos goes]
      obtain ⟨notGenesis, inWindow⟩ : block.blockData.isGenesisBlock = false ∧
          start ≤ block.quorumCert.certifiedBlock.round := by
        simpa using goes
      rcases Relation.ReflTransGen.cases_tail below with same | ⟨parentId, upper, link⟩
      · rw [same, isRoot] at found
        cases found
        rcases stops with genesis | early
        · rw [notGenesis] at genesis
          cases genesis
        · exact absurd inWindow early.not_ge
      obtain ⟨linkable, foundParent, mem⟩ := mem_childrenOf.mp link
      obtain ⟨child, foundChild, named, sameRound, higher⟩ :=
        linked.child parentId linkable id foundParent mem
      obtain ⟨child', foundChild', rfl⟩ := getBlock_eq_some.mp found
      rw [foundChild] at foundChild'
      cases foundChild'
      have getParent : t.getBlock child.executedBlock.parentId =
          some linkable.executedBlock := by
        rw [named]
        exact getBlock_eq_some.mpr ⟨linkable, foundParent, rfl⟩
      rw [named] at getParent
      obtain ⟨window, walked, short, lastId, last, lastBelow, lastAbove, ends⟩ :=
        ih getParent upper ((card_lower_lt getParent higher).trans_le (le_of_lt_succ enough))
      refine ⟨linkable.executedBlock :: window, ?_, ?_, lastId, ?_, lastBelow,
        lastAbove.tail link, ?_⟩
      · rw [named, getParent]
        dsimp only
        rw [walked]
        rfl
      · rw [sameRound] at inWindow
        exact (succ_le_succ short).trans (Nat.sub_lt_sub_right inWindow higher)
      · rw [getLast?_cons]
        exact last
      · rw [getLast?_cons]
        exact ends
    · rw [if_neg goes]
      refine ⟨[], rfl, zero_le _, id, found, below, .refl, ?_⟩
      have ends : block.blockData.isGenesisBlock = false →
          block.quorumCert.certifiedBlock.round < start := by
        simpa using goes
      cases genesis : block.blockData.isGenesisBlock with
      | true => exact .inl genesis
      | false => exact .inr (ends genesis)

/-- The new window root lies between the old one and the block that is committed. -/
theorem findWindowRoot_spec (sound : t.Sound windowSize) {blockId : HashValue}
    (found : t.getBlock blockId = some block)
    (below : Descends t.childrenOf t.windowRootId blockId) (nonzero : windowSize ≠ some 0)
    (late : t.roundOf t.commitRootId ≤ block.round) :
    ∃ rootId root, t.findWindowRoot blockId windowSize = some rootId ∧
      t.getBlock rootId = some root ∧ Descends t.childrenOf t.windowRootId rootId ∧
      Descends t.childrenOf rootId blockId ∧ StartsWindow windowSize root block.round := by
  obtain ⟨linked, -, -, rooted⟩ := sound
  obtain ⟨windowRoot, foundRoot⟩ := mem_idToBlock.mp rooted.window
  obtain ⟨commitRoot, foundCommit⟩ :=
    mem_idToBlock.mp (linked.mem_of_descends rooted.window rooted.commit)
  have isRoot : t.getBlock t.windowRootId = some windowRoot.executedBlock :=
    getBlock_eq_some.mpr ⟨windowRoot, foundRoot, rfl⟩
  have isCommit : t.commitRoot = some commitRoot.executedBlock :=
    getBlock_eq_some.mpr ⟨commitRoot, foundCommit, rfl⟩
  rw [roundOf_eq isCommit] at late
  have notEarly : ¬ block.round < commitRoot.executedBlock.round := late.not_gt
  have keyed : ∀ {id : HashValue} {b : Block}, t.getBlock id = some b → b.id = id := by
    intro id b foundId
    obtain ⟨linkable, inMap, rfl⟩ := getBlock_eq_some.mp foundId
    exact linked.keyed id linkable inMap
  cases windowSize with
  | none =>
    refine ⟨blockId, block, ?_, found, below, .refl, nofun⟩
    simp [findWindowRoot, getOrderedBlockWindow, found, isCommit, notEarly, keyed found]
  | some size =>
    have positive : size ≠ 0 := by
      rintro rfl
      exact nonzero rfl
    -- the window of a later block starts later
    have stops : windowRoot.executedBlock.blockData.isGenesisBlock = true ∨
        windowRoot.executedBlock.quorumCert.certifiedBlock.round <
          calculateWindowStartRound block.round size := by
      rcases rooted.starts _ isRoot size rfl with genesis | early
      · exact .inl genesis
      · rw [roundOf_eq isCommit] at early
        exact .inr (early.trans_le (Nat.sub_le_sub_right (succ_le_succ late) size))
    have enough : (t.idToBlock.keys.toFinset.filter fun other =>
        t.roundOf other < block.round).card < t.idToBlock.size + 1 :=
      lt_succ_of_le ((Finset.card_filter_le _ _).trans card_keys_le)
    obtain ⟨window, walked, short, lastId, last, lastBelow, lastAbove, ends⟩ :=
      windowLoop_spec linked isRoot stops found below enough
    refine ⟨lastId, _, ?_, last, lastBelow, lastAbove, ?_⟩
    · simp [findWindowRoot, getOrderedBlockWindow, found, isCommit, notEarly, positive, walked,
        short, keyed last]
    · intro size' same
      cases same
      exact ends

/-! ## The blocks to prune -/

variable {ids : List HashValue}

/-- Looking up ids that are present gives their blocks. -/
theorem mapM_getElem? (linked : t.Linked) (present : ∀ id ∈ ids, id ∈ t.idToBlock) :
    ∃ blocks, ids.mapM (fun id => t.idToBlock[id]?) = some blocks ∧
      blocks.map (·.executedBlock.id) = ids ∧
      ∀ block ∈ blocks, t.idToBlock[block.executedBlock.id]? = some block := by
  induction ids with
  | nil => exact ⟨[], rfl, rfl, by simp⟩
  | cons id ids ih =>
    obtain ⟨blocks, looked, same, found⟩ := ih fun id mem =>
      present id (mem_cons_of_mem _ mem)
    obtain ⟨block, foundId⟩ := mem_idToBlock.mp (present id mem_cons_self)
    have named := linked.keyed id block foundId
    refine ⟨block :: blocks, ?_, ?_, ?_⟩
    · rw [mapM_cons, foundId, looked]
      rfl
    · rw [map_cons, named, same]
    intro other mem
    rcases mem_cons.mp mem with rfl | later
    · rw [named]
      exact foundId
    · exact found other later

omit [Crypto] in
theorem childrenOf_eq {block : LinkableBlock}
    (found : t.idToBlock[id]? = some block) : t.childrenOf id = block.children := by
  rw [childrenOf, found]
  rfl

variable {order : List HashValue → List HashValue} {next : HashValue}

/-- The loop collects a part of the forest. -/
theorem pruneLoop_eq (linked : t.Linked) (perm : ∀ ids, (order ids).Perm ids)
    {stack : List LinkableBlock} {pruned : List HashValue}
    (found : ∀ block ∈ stack, t.idToBlock[block.executedBlock.id]? = some block) :
    t.pruneLoop order next fuel stack pruned =
      collect (fun id => order (t.childrenOf id)) next fuel
        (stack.map (·.executedBlock.id)) pruned := by
  induction fuel generalizing stack pruned with
  | zero =>
    cases stack with
    | nil | cons block stack => rfl
  | succ fuel ih =>
    cases stack with
    | nil => rfl
    | cons block stack =>
      have foundBlock := found block mem_cons_self
      have present : ∀ id ∈ (order block.children).filter (· ≠ next), id ∈ t.idToBlock := by
        intro id mem
        have isChild := (perm _).mem_iff.mp (mem_filter.mp mem).1
        obtain ⟨child, foundChild, -⟩ := linked.child _ block id foundBlock isChild
        exact mem_idToBlock.mpr ⟨child, foundChild⟩
      obtain ⟨blocks, looked, same, foundBlocks⟩ := mapM_getElem? linked present
      rw [pruneLoop, looked]
      refine (ih ?_).trans ?_
      · intro other mem
        rcases mem_append.mp mem with child | inStack
        · exact foundBlocks other (mem_reverse.mp child)
        · exact found other (mem_cons_of_mem _ inStack)
      · rw [map_cons, collect, childrenOf_eq foundBlock, map_append, map_reverse, same]

/-- What is below the old window root and not below the new one is pruned, parents first. -/
theorem findBlocksToPrune_spec (sound : t.Sound windowSize) (perm : ∀ ids, (order ids).Perm ids)
    (below : Descends t.childrenOf t.windowRootId next) :
    ∃ ids, t.findBlocksToPrune order next = some ids ∧ ids.Nodup ∧
      (∀ id, id ∈ ids ↔ Descends t.childrenOf t.windowRootId id ∧
        ¬ Descends t.childrenOf next id) ∧
      ids.Pairwise fun earlier later => earlier ∉ t.childrenOf later := by
  obtain ⟨linked, -, -, rooted⟩ := sound
  unfold findBlocksToPrune
  by_cases same : next = t.windowRootId
  · subst same
    refine ⟨[], if_pos rfl, nodup_nil, ?_, .nil⟩
    simp
  rw [if_neg same]
  have forest := linked.forest
  have ordered := forest.reorder perm
  obtain ⟨windowRoot, foundRoot⟩ := mem_idToBlock.mp rooted.window
  have named := linked.keyed _ windowRoot foundRoot
  have pending : Pending (fun id => order (t.childrenOf id)) next [t.windowRootId] := by
    refine ⟨pairwise_singleton _ _, ?_⟩
    intro id mem
    rw [mem_singleton.mp mem, Forest.descends_reorder perm]
    intro above
    exact same (forest.eq_of_rank_le above (forest.rank_le below))
  have looped : t.pruneLoop order next t.idToBlock.size [windowRoot] [] =
      collect (fun id => order (t.childrenOf id)) next t.idToBlock.size [t.windowRootId] [] := by
    rw [pruneLoop_eq linked perm, map_singleton, named]
    intro block mem
    rw [mem_singleton.mp mem, named]
    exact foundRoot
  have ends : (collect (fun id => order (t.childrenOf id)) next t.idToBlock.size
      [t.windowRootId] []).isSome := by
    refine ordered.collect_isSome t.idToBlock.keys.toFinset pending ?_ ?_ card_keys_le
    · intro id mem
      rw [mem_singleton.mp mem, mem_keys_toFinset]
      exact rooted.window
    · intro id present child link
      rw [mem_keys_toFinset] at present ⊢
      exact linked.mem_of_descends present (.single ((perm _).mem_iff.mp link))
  obtain ⟨ids, collected⟩ := Option.isSome_iff_exists.mp ends
  obtain ⟨pruned, rfl, nodup, members, parentsFirst⟩ := ordered.collect_spec pending collected
  refine ⟨_, ?_, nodup, ?_, ?_⟩
  · rw [foundRoot]
    exact looped.trans collected
  · intro id
    rw [members]
    simp [Forest.descends_reorder perm]
  · refine parentsFirst.imp ?_
    intro earlier later notChild link
    exact notChild ((perm _).mem_iff.mpr link)

/-! ## Removing blocks -/

omit [Crypto]

/-- `t'` has the blocks of `t` without the removed ones. -/
def Removes (t t' : BlockTree) (removed : List HashValue) : Prop :=
  ∀ id : HashValue, t'.idToBlock[id]? = if id ∈ removed then none else t.idToBlock[id]?

theorem removes_foldl (ids : List HashValue) : Removes t (ids.foldl removeBlock t) ids := by
  induction ids generalizing t with
  | nil =>
    intro id
    simp
  | cons first ids ih =>
    intro id
    rw [foldl_cons, ih id, removeBlock, Map.getElem?_erase_eq]
    by_cases later : id ∈ ids
    · simp [later]
    · by_cases same : first = id
      · simp [same]
      · simp [same, Ne.symm same]

/-- The fields of a tree that removing blocks does not touch. -/
structure SameRoots (t t' : BlockTree) : Prop where
  ordered : t'.orderedRootId = t.orderedRootId
  commit : t'.commitRootId = t.commitRootId
  certificate : t'.highestCommitCert = t.highestCommitCert
  pruned : t'.prunedBlockIds = t.prunedBlockIds
  bound : t'.maxPrunedBlocksInMem = t.maxPrunedBlocksInMem

theorem sameRoots_foldl (ids : List HashValue) : SameRoots t (ids.foldl removeBlock t) := by
  induction ids generalizing t with
  | nil => exact ⟨rfl, rfl, rfl, rfl, rfl⟩
  | cons first ids ih =>
    obtain ⟨ordered, commit, certificate, pruned, bound⟩ := ih (t := t.removeBlock first)
    exact ⟨ordered, commit, certificate, pruned, bound⟩

section Removal

variable {removed : List HashValue} (removes : Removes t t' removed)

include removes

theorem Removes.mem_childrenOf {id child : HashValue} :
    child ∈ t'.childrenOf id ↔ id ∉ removed ∧ child ∈ t.childrenOf id := by
  rw [BlockTree.mem_childrenOf, BlockTree.mem_childrenOf, removes id]
  by_cases gone : id ∈ removed
  · simp [gone]
  · simp [gone]

theorem Removes.mem_idToBlock {id : HashValue} :
    id ∈ t'.idToBlock ↔ id ∉ removed ∧ id ∈ t.idToBlock := by
  rw [BlockTree.mem_idToBlock, BlockTree.mem_idToBlock, removes id]
  by_cases gone : id ∈ removed
  · simp
  · simp

theorem Removes.getBlock {id : HashValue} (kept : id ∉ removed) :
    t'.getBlock id = t.getBlock id := by
  rw [BlockTree.getBlock, BlockTree.getBlock, removes id, if_neg kept]

/-- Links below a block stay, if nothing below it is removed. -/
theorem Removes.descends {a b : HashValue}
    (kept : ∀ id, Descends t.childrenOf a id → id ∉ removed) (below : Descends t.childrenOf a b) :
    Descends t'.childrenOf a b := by
  induction below with
  | refl => exact .refl
  | tail upper link ih => exact ih.tail (removes.mem_childrenOf.mpr ⟨kept _ upper, link⟩)

/-- Links stay intact, if the parents of removed blocks are removed. -/
theorem Removes.linked [Crypto] (linked : t.Linked)
    (upward : ∀ {parent child}, child ∈ t.childrenOf parent → child ∈ removed →
      parent ∈ removed) : t'.Linked := by
  have before : ∀ {id : HashValue} {block : LinkableBlock}, t'.idToBlock[id]? = some block →
      id ∉ removed ∧ t.idToBlock[id]? = some block := by
    intro id block found
    rw [removes id] at found
    split at found
    · cases found
    · exact ⟨‹_›, found⟩
  refine ⟨?_, ?_, ?_⟩
  · intro id block found
    exact linked.keyed id block (before found).2
  · intro id block found
    exact linked.nodup id block (before found).2
  intro id block childId found mem
  obtain ⟨kept, foundBefore⟩ := before found
  obtain ⟨child, foundChild, rest⟩ := linked.child id block childId foundBefore mem
  refine ⟨child, ?_, rest⟩
  rw [removes childId, if_neg, foundChild]
  intro gone
  exact kept (upward (BlockTree.mem_childrenOf.mpr ⟨block, foundBefore, mem⟩) gone)

end Removal

/-- The front of a list of pruned blocks is closed upwards. -/
theorem Listed.take_upward (listed : t.Listed ids) {parent child : HashValue}
    (link : child ∈ t.childrenOf parent) (mem : child ∈ ids.take n) :
    parent ∈ ids.take n := by
  have listedParent := listed.upward link (mem_of_mem_take mem)
  have ordered := listed.ordered
  rw [← take_append_drop n ids, pairwise_append] at ordered
  rw [← take_append_drop n ids] at listedParent
  rcases mem_append.mp listedParent with front | back
  · exact front
  · exact absurd link (ordered.2.2 child mem parent back)

/-- What remains listed when the front has been removed. -/
theorem Listed.drop (listed : t.Listed ids)
    (removes : Removes t t' (ids.take n)) : t'.Listed (ids.drop n) := by
  have apart : ∀ id ∈ ids.drop n, id ∉ ids.take n := by
    intro id back front
    exact disjoint_take_drop listed.nodup (le_refl n) front back
  refine ⟨?_, listed.nodup.sublist (drop_sublist n ids), ?_, ?_⟩
  · intro id mem
    exact removes.mem_idToBlock.mpr ⟨apart id mem, listed.present id (mem_of_mem_drop mem)⟩
  · intro parent child link mem
    obtain ⟨kept, linkBefore⟩ := removes.mem_childrenOf.mp link
    have listedParent := listed.upward linkBefore (mem_of_mem_drop mem)
    rw [← take_append_drop n ids] at listedParent
    rcases mem_append.mp listedParent with front | back
    · exact absurd front kept
    · exact back
  · refine (listed.ordered.sublist (drop_sublist n ids)).imp ?_
    intro earlier later notChild link
    exact notChild (removes.mem_childrenOf.mp link).2

/-- The newly pruned blocks follow the ones that were pruned before. -/
theorem Listed.append [Crypto] (sound : t.Sound windowSize) (nodup : ids.Nodup)
    (members : ∀ id, id ∈ ids ↔ Descends t.childrenOf t.windowRootId id ∧
      ¬ Descends t.childrenOf next id)
    (parentsFirst : ids.Pairwise fun earlier later => earlier ∉ t.childrenOf later) :
    t.Listed (t.prunedBlockIds ++ ids) := by
  obtain ⟨linked, pruned, -, rooted⟩ := sound
  have live : ∀ id ∈ ids, id ∉ t.prunedBlockIds := by
    intro id mem
    exact pruned.not_mem_of_descends rooted.live ((members id).mp mem).1
  refine ⟨?_, ?_, ?_, ?_⟩
  · intro id mem
    rcases mem_append.mp mem with before | new
    · exact pruned.present id before
    · exact linked.mem_of_descends rooted.window ((members id).mp new).1
  · refine nodup_append.mpr ⟨pruned.nodup, nodup, ?_⟩
    rintro id before _ new rfl
    exact live id new before
  · intro parent child link mem
    rcases mem_append.mp mem with before | new
    · exact mem_append_left _ (pruned.upward link before)
    obtain ⟨below, outside⟩ := (members child).mp new
    rcases linked.forest.descends_parent link below with isRoot | parentBelow
    · -- the parent of the window root was pruned earlier
      subst isRoot
      refine mem_append_left _ (by_contra fun parentLive => ?_)
      obtain ⟨block, found, -⟩ := mem_childrenOf.mp link
      have parentBelow := rooted.below parent (mem_idToBlock.mpr ⟨block, found⟩) parentLive
      exact linked.forest.not_descends_of_child link parentBelow
    · refine mem_append_right _ ((members parent).mpr ⟨parentBelow, ?_⟩)
      intro parentInside
      exact outside (parentInside.tail link)
  · refine pairwise_append.mpr ⟨pruned.ordered, parentsFirst, ?_⟩
    intro earlier before later new link
    exact live later new (pruned.upward link before)

end CreditChain.BlockTree
