import Mathlib.Data.Finset.Card

/-!
# Forests given by child lists

Nodes have lists of children, no node is a child of two nodes, and a rank grows from a
node to its children.

* `collect`: depth-first collection with a stack that does not enter the subtree of one
  node.  It lists what is below the stack and not below that node, each node once and parents
  first (`Forest.collect_spec`), and with one unit of fuel for each node it ends
  (`Forest.collect_isSome`).
-/

namespace CreditChain

open List
open Relation.ReflTransGen (cases_head cases_tail)
open Finset (mem_filter)

variable {N : Type} {children : N → List N} {rank : N → Nat}

/-- The second node is the first one or below it. -/
abbrev Descends (children : N → List N) : N → N → Prop :=
  Relation.ReflTransGen fun parent child => child ∈ children parent

theorem Descends.mono {children' : N → List N}
    (more : ∀ {parent child}, child ∈ children parent → child ∈ children' parent) {a b : N}
    (below : Descends children a b) : Descends children' a b := by
  induction below with
  | refl => exact .refl
  | tail _ link ih => exact ih.tail (more link)

structure Forest (children : N → List N) (rank : N → Nat) : Prop where
  unique : ∀ {parent parent' child}, child ∈ children parent → child ∈ children parent' →
    parent = parent'
  climbs : ∀ {parent child}, child ∈ children parent → rank parent < rank child
  nodup : ∀ parent, (children parent).Nodup

namespace Forest

variable (forest : Forest children rank)

include forest

variable {a b parent child : N}

section

variable (below : Descends children a b)

include below

theorem rank_le : rank a ≤ rank b := by
  induction below with
  | refl => exact le_rfl
  | tail _ link ih => exact ih.trans (forest.climbs link).le

theorem rank_lt (apart : a ≠ b) : rank a < rank b := by
  rcases cases_tail below with same | ⟨parent, upper, link⟩
  · exact absurd same.symm apart
  · exact (forest.rank_le upper).trans_lt (forest.climbs link)

theorem eq_of_rank_le (le : rank b ≤ rank a) : a = b := by
  by_contra apart
  exact absurd (forest.rank_lt below apart) le.not_gt

end

/-- A child is below a node only if it is the node or its parent is below it. -/
theorem descends_parent (link : child ∈ children parent)
    (below : Descends children a child) : a = child ∨ Descends children a parent := by
  rcases cases_tail below with same | ⟨parent', upper, link'⟩
  · exact .inl same.symm
  · rw [forest.unique link link']
    exact .inr upper

/-- The nodes above a node form a chain. -/
theorem comparable {c : N} (aboveA : Descends children a c) (aboveB : Descends children b c) :
    Descends children a b ∨ Descends children b a := by
  induction aboveA with
  | refl => exact .inr aboveB
  | @tail parent child upper link ih =>
    rcases forest.descends_parent link aboveB with rfl | belowParent
    · exact .inl (upper.tail link)
    · exact ih belowParent

theorem not_descends_of_child (link : child ∈ children parent) :
    ¬ Descends children child parent := by
  intro below
  exact absurd (forest.climbs link) (forest.rank_le below).not_gt

variable {order : List N → List N}

omit forest in
theorem descends_reorder (perm : ∀ nodes, (order nodes).Perm nodes) :
    Descends (fun node => order (children node)) a b ↔ Descends children a b :=
  ⟨.mono fun link => (perm _).mem_iff.mp link, .mono fun link => (perm _).mem_iff.mpr link⟩

theorem reorder (perm : ∀ nodes, (order nodes).Perm nodes) :
    Forest (fun node => order (children node)) rank where
  unique link link' := forest.unique ((perm _).mem_iff.mp link) ((perm _).mem_iff.mp link')
  climbs link := forest.climbs ((perm _).mem_iff.mp link)
  nodup parent := (perm _).nodup_iff.mpr (forest.nodup parent)

end Forest

/-! ## Collecting a part of a forest -/

variable [DecidableEq N]

/-- Depth-first collection from a stack, without the subtree of `stop`. -/
def collect (children : N → List N) (stop : N) : Nat → List N → List N → Option (List N)
  | _, [], collected => some collected
  | 0, _ :: _, _ => none
  | fuel + 1, node :: stack, collected =>
    collect children stop fuel (((children node).filter (· ≠ stop)).reverse ++ stack)
      (collected ++ [node])

/-- No node of the stack is below another one or below `stop`. -/
structure Pending (children : N → List N) (stop : N) (stack : List N) : Prop where
  apart : stack.Pairwise fun a b => ¬ Descends children a b ∧ ¬ Descends children b a
  outside : ∀ node ∈ stack, ¬ Descends children stop node

namespace Forest

variable {stop node : N} {stack : List N} (forest : Forest children rank)

include forest

omit [DecidableEq N] in
theorem siblings_apart {a b : N} (linkA : a ∈ children node) (linkB : b ∈ children node)
    (different : a ≠ b) : ¬ Descends children a b := by
  intro below
  rcases forest.descends_parent linkB below with same | above
  · exact different same
  · exact forest.not_descends_of_child linkA above

omit forest in
theorem child_of_mem {child : N} (mem : child ∈ ((children node).filter (· ≠ stop)).reverse) :
    child ∈ children node := by
  have both : child ∈ children node ∧ child ≠ stop := by simpa using mem
  exact both.1

section

variable (pending : Pending children stop (node :: stack))

include pending

/-- The stack after one turn. -/
theorem pending_next :
    Pending children stop (((children node).filter (· ≠ stop)).reverse ++ stack) := by
  obtain ⟨apart, outside⟩ := pending
  obtain ⟨fromNode, rest⟩ := pairwise_cons.mp apart
  have isChild : ∀ {child}, child ∈ ((children node).filter (· ≠ stop)).reverse →
      child ∈ children node ∧ child ≠ stop := by
    simp
  constructor
  · rw [pairwise_append]
    refine ⟨?_, rest, ?_⟩
    · have distinct : ((children node).filter (· ≠ stop)).reverse.Nodup :=
        nodup_reverse.mpr ((forest.nodup node).filter _)
      refine distinct.imp_of_mem ?_
      intro a b memA memB different
      have linkA := (isChild memA).1
      have linkB := (isChild memB).1
      exact ⟨forest.siblings_apart linkA linkB different,
        forest.siblings_apart linkB linkA (.symm different)⟩
    · intro child mem other inStack
      have link := (isChild mem).1
      obtain ⟨notBelow, notAbove⟩ := fromNode other inStack
      constructor
      · intro below
        exact notBelow (.head link below)
      · intro below
        rcases forest.descends_parent link below with rfl | above
        · exact notBelow (.single link)
        · exact notAbove above
  · intro other mem
    rcases mem_append.mp mem with child | inStack
    · obtain ⟨link, notStop⟩ := isChild child
      intro below
      rcases forest.descends_parent link below with same | above
      · exact notStop same.symm
      · exact outside node mem_cons_self above
    · exact outside other (mem_cons_of_mem _ inStack)

omit forest in
/-- What is below the stack and outside the subtree of `stop`, before and after a turn. -/
theorem below_next {x : N} :
    (∃ top ∈ node :: stack, Descends children top x ∧ ¬ Descends children stop x) ↔
      x = node ∨ ∃ top ∈ ((children node).filter (· ≠ stop)).reverse ++ stack,
        Descends children top x ∧ ¬ Descends children stop x := by
  constructor
  · rintro ⟨top, mem, below, outside⟩
    rcases mem_cons.mp mem with rfl | inStack
    · rcases cases_head below with same | ⟨child, link, rest⟩
      · exact .inl same.symm
      refine .inr ⟨child, mem_append_left _ ?_, rest, outside⟩
      have notStop : child ≠ stop := by
        rintro rfl
        exact outside rest
      simp [link, notStop]
    · exact .inr ⟨top, mem_append_right _ inStack, below, outside⟩
  · rintro (rfl | ⟨top, mem, below, outside⟩)
    · exact ⟨x, mem_cons_self, .refl, pending.outside x mem_cons_self⟩
    · rcases mem_append.mp mem with child | inStack
      · exact ⟨node, mem_cons_self, .head (child_of_mem child) below, outside⟩
      · exact ⟨top, mem_cons_of_mem _ inStack, below, outside⟩

/-- Nothing below the next stack is the node of this turn, or above it. -/
theorem not_above_next {top x : N}
    (mem : top ∈ ((children node).filter (· ≠ stop)).reverse ++ stack)
    (below : Descends children top x) : ¬ Descends children x node := by
  intro above
  rcases mem_append.mp mem with child | inStack
  · exact forest.not_descends_of_child (child_of_mem child) (below.trans above)
  · have apart := (pairwise_cons.mp pending.apart).1 top inStack
    exact apart.2 (below.trans above)

end

variable {collected : List N} {fuel : Nat}

/-- What a collection lists. -/
theorem collect_spec {result : List N} (pending : Pending children stop stack)
    (done : collect children stop fuel stack collected = some result) :
    ∃ new, result = collected ++ new ∧ new.Nodup ∧
      (∀ x, x ∈ new ↔ ∃ top ∈ stack, Descends children top x ∧ ¬ Descends children stop x) ∧
      new.Pairwise fun earlier later => earlier ∉ children later := by
  induction fuel generalizing stack collected with
  | zero =>
    cases stack with
    | nil =>
      cases done
      exact ⟨[], by simp, by simp, by simp, by simp⟩
    | cons node stack => cases done
  | succ fuel ih =>
    cases stack with
    | nil =>
      cases done
      exact ⟨[], by simp, by simp, by simp, by simp⟩
    | cons node stack =>
      obtain ⟨new, rfl, nodup, members, ordered⟩ := ih (forest.pending_next pending) done
      refine ⟨node :: new, by simp, ?_, ?_, ?_⟩
      · refine nodup_cons.mpr ⟨?_, nodup⟩
        intro again
        obtain ⟨top, mem, below, -⟩ := (members node).mp again
        exact forest.not_above_next pending mem below .refl
      · intro x
        rw [below_next pending, mem_cons, members]
      · refine pairwise_cons.mpr ⟨?_, ordered⟩
        intro later collectedLater link
        obtain ⟨top, mem, below, -⟩ := (members later).mp collectedLater
        exact forest.not_above_next pending mem below (.single link)

open Classical in
theorem collect_isSome_of_below {nodes : Finset N} (pending : Pending children stop stack)
    (inside : ∀ top ∈ stack, top ∈ nodes)
    (closed : ∀ x ∈ nodes, ∀ child ∈ children x, child ∈ nodes)
    (enough : (nodes.filter fun x => ∃ top ∈ stack, Descends children top x).card ≤ fuel) :
    (collect children stop fuel stack collected).isSome := by
  induction fuel generalizing stack collected with
  | zero =>
    cases stack with
    | nil => rfl
    | cons node stack =>
      have mem : node ∈ nodes.filter fun x => ∃ top ∈ node :: stack, Descends children top x :=
        mem_filter.mpr ⟨inside node mem_cons_self, node, mem_cons_self, .refl⟩
      exact absurd (Finset.card_pos.mpr ⟨node, mem⟩) enough.not_gt
  | succ fuel ih =>
    cases stack with
    | nil => rfl
    | cons node stack =>
      have nodeIn := inside node mem_cons_self
      apply ih (forest.pending_next pending)
      · intro top mem
        rcases mem_append.mp mem with child | inStack
        · exact closed node nodeIn top (child_of_mem child)
        · exact inside top (mem_cons_of_mem _ inStack)
      -- the node of this turn is no longer below the stack
      refine Nat.le_of_lt_succ ((Finset.card_lt_card ?_).trans_le enough)
      refine Finset.ssubset_iff_of_subset ?_ |>.mpr ⟨node, ?_, ?_⟩
      · intro x mem
        obtain ⟨inNodes, top, inNext, below⟩ := mem_filter.mp mem
        refine mem_filter.mpr ⟨inNodes, ?_⟩
        rcases mem_append.mp inNext with child | inStack
        · exact ⟨node, mem_cons_self, .head (child_of_mem child) below⟩
        · exact ⟨top, mem_cons_of_mem _ inStack, below⟩
      · exact mem_filter.mpr ⟨nodeIn, node, mem_cons_self, .refl⟩
      · intro mem
        obtain ⟨-, top, inNext, below⟩ := mem_filter.mp mem
        exact forest.not_above_next pending inNext below .refl

/-- With one unit of fuel for each node a collection ends. -/
theorem collect_isSome (nodes : Finset N) (pending : Pending children stop stack)
    (inside : ∀ top ∈ stack, top ∈ nodes)
    (closed : ∀ x ∈ nodes, ∀ child ∈ children x, child ∈ nodes) (enough : nodes.card ≤ fuel) :
    (collect children stop fuel stack collected).isSome := by
  classical
  exact forest.collect_isSome_of_below pending inside closed
    ((Finset.card_filter_le _ _).trans enough)

end Forest

end CreditChain
