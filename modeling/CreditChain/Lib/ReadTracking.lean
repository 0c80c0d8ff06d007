import CreditChain.Lib.Listing
import Mathlib.Data.Finset.Basic

/-!
# Cells that remember their readers

A row of cells, some of them empty.  A reader of index `r` reads the last cell at a position up
to `r`, and is registered there.  Writing and removing cells moves the readers to the cell that
they would read now, if it holds the same for them, and gives them back otherwise.

* `Tracked`: a reader that has not been given back is registered at the cell that it would read,
  and what it has read counts as what the cell holds.
-/

namespace CreditChain.ReadTracking

open Function Finset

/-- A reader: its index, and which of its attempts reads. -/
abbrev Reader := Nat × Nat

/-- A value and those who have read it. -/
structure Cell (W : Type) where
  value : W
  readers : Finset Reader

variable {W : Type}

/-- The last cell at a position up to `r`. -/
structure Sees (cells : Nat → Option (Cell W)) (r i : Nat) (c : Cell W) : Prop where
  here : cells i = some c
  le : i ≤ r
  last : ∀ j, i < j → j ≤ r → cells j = none

theorem Sees.unique {cells : Nat → Option (Cell W)} {r i j : Nat} {c e : Cell W}
    (left : Sees cells r i c) (right : Sees cells r j e) : i = j := by
  rcases lt_trichotomy i j with before | same | after
  · have empty := left.last j before right.le
    rw [right.here] at empty
    cases empty
  · exact same
  · have empty := right.last i after left.le
    rw [left.here] at empty
    cases empty

/-- `reads` are reads that have not been given back; `counts w v` says that to have read `w` is
as good as to read `v`. -/
structure Tracked (counts : W → W → Prop) (cells : Nat → Option (Cell W))
    (reads : Set (Reader × W)) : Prop where
  placed : ∀ {i c x}, cells i = some c → x ∈ c.readers → Sees cells x.1 i c
  valid : ∀ {x w}, (x, w) ∈ reads → ∃ i c, cells i = some c ∧ x ∈ c.readers ∧ counts w c.value

variable {counts : W → W → Prop} {cells : Nat → Option (Cell W)} {reads : Set (Reader × W)}
  {r inc i p : Nat} {c e : Cell W} {v : W}

theorem Tracked.empty : Tracked counts (fun _ => none) ∅ where
  placed := by
    intro i c x here
    cases here
  valid := by
    intro x w mem
    cases mem

section

variable (tracked : Tracked counts cells reads)

include tracked

theorem Tracked.mono {fewer : Set (Reader × W)}
    (sub : fewer ⊆ reads) : Tracked counts cells fewer where
  placed := tracked.placed
  valid := fun mem => tracked.valid (sub mem)

variable {counts' : W → W → Prop}

theorem Tracked.weaken
    (weaker : ∀ w v, counts w v → counts' w v) : Tracked counts' cells reads where
  placed := tracked.placed
  valid := by
    intro x w mem
    obtain ⟨i, c, here, registered, same⟩ := tracked.valid mem
    exact ⟨i, c, here, registered, weaker _ _ same⟩

/-- What is said of a reader that has not been given back. -/
theorem Tracked.current {x : Reader} {w : W}
    (mem : (x, w) ∈ reads) : ∃ i c, Sees cells x.1 i c ∧ counts w c.value ∧ x ∈ c.readers ∧
      ∀ j e, cells j = some e → x ∈ e.readers → j = i := by
  obtain ⟨i, c, here, registered, same⟩ := tracked.valid mem
  have sees := tracked.placed here registered
  exact ⟨i, c, sees, same, registered, fun j e there also =>
    (tracked.placed there also).unique sees⟩

/-! ## Reading -/

theorem Tracked.read (refl : counts c.value c.value) (sees : Sees cells r i c) :
    Tracked counts (update cells i (some { c with readers := insert (r, inc) c.readers }))
      (insert ((r, inc), c.value) reads) where
  placed := by
    intro j e x here registered
    have occupied : ∀ k, update cells i
        (some { c with readers := insert (r, inc) c.readers }) k = none ↔ cells k = none := by
      intro k
      by_cases same : k = i
      · rw [same, sees.here]
        simp
      · rw [update_of_ne same]
    rcases update_eq_some.mp here with ⟨rfl, new⟩ | ⟨same, here⟩
    · cases new
      refine ⟨update_self _ _ _, ?_, fun k later upTo => (occupied k).mpr ?_⟩
      · rcases mem_insert.mp registered with rfl | before
        · exact sees.le
        · exact (tracked.placed sees.here before).le
      · rcases mem_insert.mp registered with rfl | before
        · exact sees.last k later upTo
        · exact (tracked.placed sees.here before).last k later upTo
    · have before := tracked.placed here registered
      exact ⟨(update_of_ne same _ _).trans here, before.le, fun k later upTo =>
        (occupied k).mpr (before.last k later upTo)⟩
  valid := by
    intro x w mem
    rcases Set.mem_insert_iff.mp mem with new | old
    · obtain ⟨rfl, rfl⟩ := new
      exact ⟨i, _, update_self _ _ _, mem_insert_self _ _, refl⟩
    · obtain ⟨j, e, here, registered, good⟩ := tracked.valid old
      by_cases same : j = i
      · subst same
        cases sees.here.symm.trans here
        exact ⟨j, _, update_self _ _ _, mem_insert_of_mem registered, good⟩
      · exact ⟨j, e, (update_of_ne same _ _).trans here, registered, good⟩

/-! ## Writing -/

/-- The readers that a cell at position `p` would affect. -/
def Cell.affected (c : Cell W) (p : Nat) : Finset Reader := c.readers.filter (p ≤ ·.1)

/-- The cell without the readers that a cell at position `p` would affect. -/
def Cell.unaffected (c : Cell W) (p : Nat) : Cell W :=
  { c with readers := c.readers.filter (¬ p ≤ ·.1) }

/-- A first cell up to its position affects no reader. -/
theorem Tracked.write_fresh (fresh : ∀ j ≤ p, cells j = none) :
    Tracked counts (update cells p (some ⟨v, ∅⟩)) reads where
  placed := by
    intro j e x found registered
    rcases update_eq_some.mp found with ⟨rfl, new⟩ | ⟨same, here⟩
    · cases new
      cases notMem_empty _ registered
    have before := tracked.placed here registered
    refine ⟨(update_of_ne same _ _).trans here, before.le, fun k later upTo => ?_⟩
    have other : k ≠ p := by
      rintro rfl
      rw [fresh j later.le] at here
      cases here
    rw [update_of_ne other]
    exact before.last k later upTo
  valid := by
    intro x w mem
    obtain ⟨j, e, here, registered, good⟩ := tracked.valid mem
    have other : j ≠ p := by
      rintro rfl
      rw [fresh j (le_rfl)] at here
      cases here
    exact ⟨j, e, (update_of_ne other _ _).trans here, registered, good⟩

/-- A new cell at `p` takes the readers of the last cell up to `p` that it affects, or a part of
them.  Readers that it does not take are given back. -/
theorem Tracked.write (sees : Sees cells p i c) {kept : Finset Reader} (part : kept ⊆ c.affected p)
    (good : ∀ w, counts w c.value → kept.Nonempty → counts w v) :
    Tracked counts (update (update cells i (some (c.unaffected p))) p (some ⟨v, kept⟩))
      {read ∈ reads | read.1 ∈ c.affected p → read.1 ∈ kept} where
  placed := by
    intro j e x found registered
    rcases update_eq_some.mp found with ⟨rfl, same⟩ | ⟨new, inner⟩
    · cases same
      obtain ⟨before, le⟩ := mem_filter.mp (part registered)
      refine ⟨update_self _ _ _, le, fun k later upTo => ?_⟩
      rw [update_of_ne later.ne', update_of_ne (ne_of_gt (sees.le.trans_lt later))]
      exact (tracked.placed sees.here before).last k (sees.le.trans_lt later) upTo
    have occupied : ∀ k, k ≠ p → cells k = none → update
        (update cells i (some (c.unaffected p))) p (some ⟨v, kept⟩) k = none := by
      intro k other none
      have apart : k ≠ i := by
        rintro rfl
        rw [sees.here] at none
        cases none
      rw [update_of_ne other, update_of_ne apart]
      exact none
    rcases update_eq_some.mp inner with ⟨rfl, same⟩ | ⟨same, here⟩
    · cases same
      obtain ⟨before, small⟩ := mem_filter.mp registered
      have placed := tracked.placed sees.here before
      refine ⟨?_, placed.le, fun k later upTo => occupied k ?_ (placed.last k later upTo)⟩
      · rw [update_of_ne new, update_self]
      · rintro rfl
        exact small upTo
    · have placed := tracked.placed here registered
      refine ⟨?_, placed.le, fun k later upTo => occupied k ?_ (placed.last k later upTo)⟩
      · rw [update_of_ne new, update_of_ne same]
        exact here
      -- a reader below the new cell would see the last cell up to it
      rintro rfl
      rcases lt_or_gt_of_ne same with below | above
      · have empty := placed.last i below (sees.le.trans upTo)
        rw [sees.here] at empty
        cases empty
      · have empty := sees.last j above later.le
        rw [here] at empty
        cases empty
  valid := by
    rintro x w ⟨mem, taken⟩
    obtain ⟨j, e, here, registered, same⟩ := tracked.valid mem
    by_cases atLast : j = i
    · subst atLast
      cases sees.here.symm.trans here
      by_cases affected : p ≤ x.1
      · have isKept : x ∈ kept := taken (mem_filter.mpr ⟨registered, affected⟩)
        exact ⟨p, _, update_self _ _ _, isKept, good w same ⟨x, isKept⟩⟩
      have other : j ≠ p := by
        rintro rfl
        exact affected (tracked.placed sees.here registered).le
      refine ⟨j, c.unaffected p, ?_, mem_filter.mpr ⟨registered, affected⟩, same⟩
      rw [update_of_ne other, update_self]
    · have other : j ≠ p := by
        rintro rfl
        have empty := sees.last j (lt_of_le_of_ne sees.le (Ne.symm atLast)) (le_rfl)
        rw [here] at empty
        cases empty
      refine ⟨j, e, ?_, registered, same⟩
      rw [update_of_ne other, update_of_ne atLast]
      exact here

/-! ## Removing -/

/-- Without the cell at `p`, whose readers are given back. -/
theorem Tracked.remove_given (here : cells p = some c) :
    Tracked counts (update cells p none) {read ∈ reads | read.1 ∉ c.readers} where
  placed := by
    intro j e x there registered
    by_cases same : j = p
    · rw [same, update_self] at there
      cases there
    rw [update_of_ne same] at there
    have placed := tracked.placed there registered
    refine ⟨(update_of_ne same _ _).trans there, placed.le, fun k later upTo => ?_⟩
    rw [update_apply]
    split
    · rfl
    · exact placed.last k later upTo
  valid := by
    rintro x w ⟨mem, free⟩
    obtain ⟨j, e, there, registered, same⟩ := tracked.valid mem
    have other : j ≠ p := by
      rintro rfl
      cases here.symm.trans there
      exact free registered
    exact ⟨j, e, (update_of_ne other _ _).trans there, registered, same⟩

/-- Without the cell at `p`, whose readers the cell before it takes. -/
theorem Tracked.remove_kept (here : cells p = some c)
    (below : i < p) (sees : Sees (update cells p none) p i e)
    (good : ∀ w, counts w c.value → counts w e.value) :
    Tracked counts (update (update cells p none) i
      (some { e with readers := e.readers ∪ c.readers })) reads where
  placed := by
    have free : ∀ k, k ≠ i → (k = p ∨ cells k = none) → update
        (update cells p none) i (some { e with readers := e.readers ∪ c.readers }) k =
          none := by
      intro k other either
      rw [update_of_ne other, update_apply]
      split
      · rfl
      · rename_i stays
        exact either.resolve_left stays
    have lower : cells i = some e :=
      (update_of_ne below.ne _ _).symm.trans sees.here
    have between : ∀ k, i < k → k < p → cells k = none := fun k later before =>
      (update_of_ne before.ne _ _).symm.trans (sees.last k later before.le)
    intro j a x found registered
    rcases update_eq_some.mp found with ⟨rfl, new⟩ | ⟨same, there⟩
    · cases new
      rcases mem_union.mp registered with own | moved
      · have placed := tracked.placed lower own
        exact ⟨update_self _ _ _, placed.le, fun k later upTo =>
          free k later.ne' (.inr (placed.last k later upTo))⟩
      · have placed := tracked.placed here moved
        refine ⟨update_self _ _ _, below.le.trans placed.le,
          fun k later upTo => free k later.ne' ?_⟩
        rcases lt_trichotomy k p with before | same | after
        · exact .inr (between k later before)
        · exact .inl same
        · exact .inr (placed.last k after upTo)
    · have other : j ≠ p := by
        rintro rfl
        rw [update_self] at there
        cases there
      have original : cells j = some a := (update_of_ne other _ _).symm.trans there
      have placed := tracked.placed original registered
      refine ⟨(update_of_ne same _ _).trans there, placed.le, fun k later upTo =>
        free k ?_ (.inr (placed.last k later upTo))⟩
      rintro rfl
      have empty := placed.last k later upTo
      rw [lower] at empty
      cases empty
  valid := by
    have lower : cells i = some e := (update_of_ne below.ne _ _).symm.trans sees.here
    intro x w mem
    obtain ⟨j, a, there, registered, same⟩ := tracked.valid mem
    by_cases removed : j = p
    · subst removed
      cases here.symm.trans there
      exact ⟨i, _, update_self _ _ _, mem_union_right _ registered, good w same⟩
    · by_cases atLower : j = i
      · subst atLower
        cases lower.symm.trans there
        exact ⟨j, _, update_self _ _ _, mem_union_left _ registered, same⟩
      · refine ⟨j, a, ?_, registered, same⟩
        rw [update_of_ne atLower, update_of_ne removed]
        exact there

/-! ## The first cell -/

theorem Tracked.insert_first (free : cells 0 = none) :
    Tracked counts (update cells 0 (some ⟨v, ∅⟩)) reads :=
  tracked.write_fresh fun j le => by rwa [Nat.le_zero.mp le]

/-- Another value for a cell, which counts as the value before. -/
theorem Tracked.replace (here : cells i = some c) (weaker : ∀ w v, counts w v → counts' w v)
    (good : ∀ w, counts w c.value → counts' w v) :
    Tracked counts' (update cells i (some { c with value := v })) reads where
  placed := by
    intro j e x there registered
    have occupied : ∀ k, cells k = none → update cells i (some { c with value := v }) k = none := by
      intro k none
      have other : k ≠ i := by
        rintro rfl
        rw [here] at none
        cases none
      rw [update_of_ne other]
      exact none
    rcases update_eq_some.mp there with ⟨rfl, new⟩ | ⟨same, there⟩
    · cases new
      have placed := tracked.placed here registered
      exact ⟨update_self _ _ _, placed.le, fun k later upTo =>
        occupied k (placed.last k later upTo)⟩
    · have placed := tracked.placed there registered
      exact ⟨(update_of_ne same _ _).trans there, placed.le, fun k later upTo =>
        occupied k (placed.last k later upTo)⟩
  valid := by
    intro x w mem
    obtain ⟨j, e, there, registered, same⟩ := tracked.valid mem
    by_cases atCell : j = i
    · subst atCell
      cases here.symm.trans there
      exact ⟨j, _, update_self _ _ _, registered, good w same⟩
    · exact ⟨j, e, (update_of_ne atCell _ _).trans there, registered, weaker _ _ same⟩

end

end CreditChain.ReadTracking
