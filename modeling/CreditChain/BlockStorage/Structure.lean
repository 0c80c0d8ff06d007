import CreditChain.BlockStorage.BlockTree

/-!
# The structure of the block tree

What every operation on the tree keeps (`Sound`).
-/

namespace CreditChain.BlockTree

variable {t t' : BlockTree} {windowSize : Option Nat} {id : HashValue}

theorem mem_childrenOf {child : HashValue} :
    child ∈ t.childrenOf id ↔ ∃ block, t.idToBlock[id]? = some block ∧ child ∈ block.children := by
  unfold childrenOf
  cases t.idToBlock[id]? with
  | none | some block => simp

theorem mem_idToBlock : id ∈ t.idToBlock ↔ ∃ block, t.idToBlock[id]? = some block := by
  rw [Std.ExtTreeMap.mem_iff_isSome_getElem?, Option.isSome_iff_exists]

variable {block : Block}

theorem getBlock_eq_some :
    t.getBlock id = some block ↔
      ∃ linkable, t.idToBlock[id]? = some linkable ∧ linkable.executedBlock = block := by
  unfold getBlock
  rw [Option.map_eq_some_iff]

theorem getBlock_eq_none : t.getBlock id = none ↔ t.idToBlock[id]? = none := by
  unfold getBlock
  rw [Option.map_eq_none_iff]

/-- The round of a block, as the rank of the forest. -/
def roundOf (t : BlockTree) (id : HashValue) : Round := ((t.getBlock id).map Block.round).getD 0

theorem roundOf_eq (found : t.getBlock id = some block) : t.roundOf id = block.round := by
  rw [roundOf, found]
  rfl

variable [Crypto]

/-- Children are present, name their parent, and have higher rounds, so that the links form a
forest. Lingering blocks are included. -/
structure Linked (t : BlockTree) : Prop where
  keyed : ∀ (id : HashValue) (block : LinkableBlock), t.idToBlock[id]? = some block →
    block.executedBlock.id = id
  nodup : ∀ (id : HashValue) (block : LinkableBlock), t.idToBlock[id]? = some block →
    block.children.Nodup
  child : ∀ (id : HashValue) (block : LinkableBlock) (childId : HashValue),
    t.idToBlock[id]? = some block → childId ∈ block.children →
    ∃ child : LinkableBlock, t.idToBlock[childId]? = some child ∧ child.executedBlock.parentId = id ∧
      Extends child.executedBlock block.executedBlock

theorem Linked.forest (linked : t.Linked) : Forest t.childrenOf t.roundOf where
  unique := by
    intro parent parent' childId link link'
    obtain ⟨block, found, mem⟩ := mem_childrenOf.mp link
    obtain ⟨block', found', mem'⟩ := mem_childrenOf.mp link'
    obtain ⟨child, foundChild, same, -⟩ := linked.child parent block childId found mem
    obtain ⟨child', foundChild', same', -⟩ := linked.child parent' block' childId found' mem'
    rw [foundChild] at foundChild'
    cases foundChild'
    exact same.symm.trans same'
  climbs := by
    intro parent childId link
    obtain ⟨block, found, mem⟩ := mem_childrenOf.mp link
    obtain ⟨child, foundChild, -, extends_⟩ := linked.child parent block childId found mem
    rw [roundOf_eq (getBlock_eq_some.mpr ⟨block, found, rfl⟩),
      roundOf_eq (getBlock_eq_some.mpr ⟨child, foundChild, rfl⟩)]
    exact extends_.2
  nodup := by
    intro parent
    unfold childrenOf
    cases found : t.idToBlock[parent]? with
    | none => exact List.nodup_nil
    | some block => exact linked.nodup parent block found

theorem Linked.mem_of_descends (linked : t.Linked) {a b : HashValue} (present : a ∈ t.idToBlock)
    (below : Descends t.childrenOf a b) : b ∈ t.idToBlock := by
  induction below with
  | refl => exact present
  | tail _ link _ =>
    obtain ⟨block, found, mem⟩ := mem_childrenOf.mp link
    obtain ⟨child, foundChild, -⟩ := linked.child _ block _ found mem
    exact mem_idToBlock.mpr ⟨child, foundChild⟩

/-- What is listed as pruned is closed upwards and lists parents first, so that removing from the
front never leaves a link to a missing block. -/
structure Listed (t : BlockTree) (ids : List HashValue) : Prop where
  present : ∀ id ∈ ids, id ∈ t.idToBlock
  nodup : ids.Nodup
  upward : ∀ {parent child}, child ∈ t.childrenOf parent → child ∈ ids → parent ∈ ids
  ordered : ids.Pairwise fun earlier later => earlier ∉ t.childrenOf later

omit [Crypto] in
theorem Listed.not_mem_of_descends {ids : List HashValue} (listed : t.Listed ids)
    {a b : HashValue} (live : a ∉ ids) (below : Descends t.childrenOf a b) : b ∉ ids := by
  induction below with
  | refl => exact live
  | tail _ link ih => exact fun mem => ih (listed.upward link mem)

/-- The three roots, and the blocks below them. -/
structure Rooted (windowSize : Option Nat) (t : BlockTree) : Prop where
  window : t.windowRootId ∈ t.idToBlock
  live : t.windowRootId ∉ t.prunedBlockIds
  below : ∀ id ∈ t.idToBlock, id ∉ t.prunedBlockIds → Descends t.childrenOf t.windowRootId id
  commit : Descends t.childrenOf t.windowRootId t.commitRootId
  ordered : Descends t.childrenOf t.commitRootId t.orderedRootId
  certificate : t.highestCommitCert.commitInfo.round = t.roundOf t.commitRootId
  starts : ∀ root, t.getBlock t.windowRootId = some root →
    StartsWindow windowSize root (t.roundOf t.commitRootId)

/-- The invariant of the tree: the part that is not pruned hangs together below the window root. -/
structure Sound (windowSize : Option Nat) (t : BlockTree) : Prop where
  linked : t.Linked
  pruned : t.Listed t.prunedBlockIds
  bounded : t.prunedBlockIds.length ≤ t.maxPrunedBlocksInMem
  rooted : t.Rooted windowSize

theorem Sound.structured (sound : t.Sound windowSize) : t.Structured := by
  obtain ⟨linked, pruned, bounded, rooted⟩ := sound
  have present : ∀ {id}, Descends t.childrenOf t.windowRootId id →
      id ∈ t.idToBlock ∧ id ∉ t.prunedBlockIds := fun below =>
    ⟨linked.mem_of_descends rooted.window below, pruned.not_mem_of_descends rooted.live below⟩
  refine ⟨rooted.below, ?_, present .refl, present rooted.commit,
    present (rooted.commit.trans rooted.ordered), bounded⟩
  intro id mem _ child link
  exact linked.mem_of_descends mem (.single link)

/-! ## Inserting a block -/

/-- The tree with one more block. -/
def attach (t : BlockTree) (block : Block) (parent : LinkableBlock) : BlockTree :=
  { t with
    idToBlock := (t.idToBlock.insert block.parentId
      { parent with children := parent.children ++ [block.id] }).insert block.id ⟨block, []⟩
    roundToIds := t.roundToIds.insertIfNew block.round block.id }

theorem insertBlock_cases {answer : Except String Block}
    (done : t.insertBlock block = some (answer, t')) :
    t' = t ∨ ∃ parent, t.idToBlock[block.id]? = none ∧
      t.idToBlock[block.parentId]? = some parent ∧ t' = t.attach block parent := by
  unfold insertBlock at done
  split at done
  · cases done
    exact .inl rfl
  rename_i fresh
  split at done
  · cases done
    exact .inl rfl
  rename_i parent found
  obtain ⟨linked, added, rest⟩ := Option.bind_eq_some_iff.mp done
  unfold LinkableBlock.addChild at added
  split at added
  · cases added
  · cases added
    cases rest
    exact .inr ⟨parent, getBlock_eq_none.mp fresh, found, rfl⟩

section Attach

variable {block : Block} {parent : LinkableBlock} (fresh : t.idToBlock[block.id]? = none)
  (found : t.idToBlock[block.parentId]? = some parent) {id : HashValue}

theorem attach_getElem? : (t.attach block parent).idToBlock[id]? =
    if block.id = id then some ⟨block, []⟩
    else if block.parentId = id then
      some { parent with children := parent.children ++ [block.id] }
    else t.idToBlock[id]? := by
  rw [attach, Map.getElem?_insert_eq, Map.getElem?_insert_eq]

include fresh

theorem ne_of_present (present : id ∈ t.idToBlock) : id ≠ block.id := by
  rintro rfl
  obtain ⟨linkable, foundId⟩ := mem_idToBlock.mp present
  rw [fresh] at foundId
  cases foundId

include found

theorem id_ne_parentId : block.id ≠ block.parentId :=
  (ne_of_present fresh (mem_idToBlock.mpr ⟨parent, found⟩)).symm

/-- One link is added. -/
theorem mem_childrenOf_attach {child : HashValue} :
    child ∈ (t.attach block parent).childrenOf id ↔
      child ∈ t.childrenOf id ∨ id = block.parentId ∧ child = block.id := by
  rw [mem_childrenOf, mem_childrenOf, attach_getElem?]
  by_cases isNew : block.id = id
  · subst isNew
    simp [fresh, id_ne_parentId fresh found]
  · by_cases isParent : block.parentId = id
    · subst isParent
      simp [isNew, found]
    · simp [isNew, isParent, Ne.symm isParent]

theorem descends_attach {a b : HashValue} (below : Descends t.childrenOf a b) :
    Descends (t.attach block parent).childrenOf a b :=
  .mono (fun link => (mem_childrenOf_attach fresh found).mpr (.inl link)) below

omit fresh in
theorem mem_attach : id ∈ (t.attach block parent).idToBlock ↔ id ∈ t.idToBlock ∨ id = block.id := by
  rw [mem_idToBlock, mem_idToBlock, attach_getElem?]
  by_cases isNew : block.id = id
  · simp [isNew]
  by_cases isParent : block.parentId = id
  · subst isParent
    simp [isNew, found]
  · simp [isNew, isParent, Ne.symm isNew]

omit fresh in
theorem getBlock_attach (old : id ≠ block.id) :
    (t.attach block parent).getBlock id = t.getBlock id := by
  rw [getBlock, getBlock, attach_getElem?, if_neg (Ne.symm old)]
  by_cases isParent : block.parentId = id
  · subst isParent
    rw [if_pos rfl, found]
    rfl
  · rw [if_neg isParent]

theorem Linked.attach (linked : t.Linked) (extends_ : Extends block parent.executedBlock) :
    (t.attach block parent).Linked := by
  have getChild : ∀ {id : HashValue} {child : LinkableBlock}, t.idToBlock[id]? = some child →
      ∃ child', (t.attach block parent).idToBlock[id]? = some child' ∧
        child'.executedBlock = child.executedBlock := by
    intro id child foundChild
    rw [attach_getElem?]
    by_cases isNew : block.id = id
    · rw [← isNew, fresh] at foundChild
      cases foundChild
    by_cases isParent : block.parentId = id
    · rw [← isParent, found] at foundChild
      cases foundChild
      rw [if_neg isNew, if_pos isParent]
      exact ⟨_, rfl, rfl⟩
    · exact ⟨child, by rw [if_neg isNew, if_neg isParent, foundChild], rfl⟩
  refine ⟨?_, ?_, ?_⟩
  · intro id linkable foundId
    rw [attach_getElem?] at foundId
    split at foundId
    · cases foundId
      assumption
    split at foundId
    · rename_i isParent
      cases foundId
      rw [← isParent]
      exact linked.keyed _ parent found
    · exact linked.keyed id linkable foundId
  · intro id linkable foundId
    rw [attach_getElem?] at foundId
    split at foundId
    · cases foundId
      exact List.nodup_nil
    split at foundId
    · cases foundId
      have notYet : block.id ∉ parent.children := by
        intro mem
        obtain ⟨child, foundChild, -⟩ := linked.child _ parent _ found mem
        rw [fresh] at foundChild
        cases foundChild
      have apart : ∀ a ∈ parent.children, ¬ a = block.id := by
        rintro a mem rfl
        exact notYet mem
      simpa [List.nodup_append, linked.nodup _ parent found] using apart
    · exact linked.nodup id linkable foundId
  · intro id linkable childId foundId mem
    rw [attach_getElem?] at foundId
    split at foundId
    · cases foundId
      cases mem
    split at foundId
    · rename_i isNew isParent
      cases foundId
      rcases List.mem_append.mp mem with before | new
      · obtain ⟨child, foundChild, named, higher⟩ := linked.child _ parent _ found before
        obtain ⟨child', foundChild', same⟩ := getChild foundChild
        refine ⟨child', foundChild', ?_, ?_⟩
        · rw [same, named, isParent]
        · rw [same]
          exact higher
      · rw [List.mem_singleton.mp new]
        exact ⟨⟨block, []⟩, by rw [attach_getElem?, if_pos rfl], isParent, extends_⟩
    · obtain ⟨child, foundChild, named, higher⟩ := linked.child id linkable childId foundId mem
      obtain ⟨child', foundChild', same⟩ := getChild foundChild
      exact ⟨child', foundChild', by rw [same, named], by rw [same]; exact higher⟩

theorem Listed.attach {ids : List HashValue} (listed : t.Listed ids) :
    (t.attach block parent).Listed ids := by
  have notListed : block.id ∉ ids := fun mem => ne_of_present fresh (listed.present _ mem) rfl
  refine ⟨?_, listed.nodup, ?_, ?_⟩
  · intro id mem
    exact (mem_attach found).mpr (.inl (listed.present id mem))
  · intro upper child link mem
    rcases (mem_childrenOf_attach fresh found).mp link with before | ⟨-, rfl⟩
    · exact listed.upward before mem
    · exact absurd mem notListed
  · refine listed.ordered.imp_of_mem ?_
    intro earlier later memEarlier _ notChild link
    rcases (mem_childrenOf_attach fresh found).mp link with before | ⟨-, rfl⟩
    · exact notChild before
    · exact notListed memEarlier

theorem Rooted.attach (rooted : t.Rooted windowSize) (linked : t.Linked)
    (live : block.parentId ∉ t.prunedBlockIds) :
    (t.attach block parent).Rooted windowSize := by
  have commitOld := ne_of_present fresh (linked.mem_of_descends rooted.window rooted.commit)
  have sameRound : (t.attach block parent).roundOf t.commitRootId = t.roundOf t.commitRootId := by
    rw [roundOf, roundOf, getBlock_attach found commitOld]
  refine ⟨(mem_attach found).mpr (.inl rooted.window), rooted.live, ?_,
    descends_attach fresh found rooted.commit, descends_attach fresh found rooted.ordered,
    rooted.certificate.trans sameRound.symm, ?_⟩
  · intro id mem notListed
    rcases (mem_attach found).mp mem with before | rfl
    · exact descends_attach fresh found (rooted.below id before notListed)
    · have parentBelow := rooted.below _ (mem_idToBlock.mpr ⟨parent, found⟩) live
      exact (descends_attach fresh found parentBelow).tail
        ((mem_childrenOf_attach fresh found).mpr (.inr ⟨rfl, rfl⟩))
  · intro root isRoot
    have same := getBlock_attach found (ne_of_present fresh rooted.window)
    have starts := rooted.starts root (same.symm.trans isRoot)
    rw [← sameRound] at starts
    exact starts

theorem Sound.attach (sound : t.Sound windowSize) (live : block.parentId ∉ t.prunedBlockIds)
    (extends_ : Extends block parent.executedBlock) :
    (t.attach block parent).Sound windowSize where
  linked := sound.linked.attach fresh found extends_
  pruned := sound.pruned.attach fresh found
  bounded := sound.bounded
  rooted := sound.rooted.attach fresh found sound.linked live

end Attach

end CreditChain.BlockTree
