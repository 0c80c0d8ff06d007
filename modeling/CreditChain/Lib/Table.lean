import Mathlib.Algebra.Order.BigOperators.Group.List
import Mathlib.Algebra.Order.Ring.Nat
import Mathlib.Data.List.Nodup
import Mathlib.Data.List.Perm.Subperm

/-!
# Tables

A table holds at most one entry for each key; the order of the entries has no meaning.
-/

namespace CreditChain

open List

/-- Entries with distinct keys. -/
structure Table (K V : Type) where
  entries : List (K × V)
  distinct : (entries.map (·.1)).Nodup
  deriving DecidableEq

namespace Table

variable {K V : Type} [DecidableEq K]

def empty : Table K V := ⟨[], nodup_nil⟩

variable (t : Table K V) (k : K)

def find? : Option V := (t.entries.find? fun entry => entry.1 = k).map (·.2)

def contains : Bool := (t.find? k).isSome

/-- The table without the entry of `k`. -/
def erase : Table K V :=
  ⟨t.entries.filter fun entry => entry.1 ≠ k, t.distinct.sublist (List.filter_sublist.map _)⟩

theorem not_mem_erase (t : Table K V) (k : K) : k ∉ (t.erase k).entries.map (·.1) := by
  intro mem
  obtain ⟨entry, kept, rfl⟩ := mem_map.mp mem
  have ne : entry.1 ≠ entry.1 := of_decide_eq_true (mem_filter.mp kept).2
  exact ne rfl

/-- The table with `v` as the value of `k`. -/
def insert (v : V) : Table K V :=
  ⟨(k, v) :: (t.erase k).entries, List.nodup_cons.mpr ⟨not_mem_erase t k, (t.erase k).distinct⟩⟩

variable {t : Table K V} {k a : K} {v w : V}

@[simp] theorem find?_empty : (empty : Table K V).find? k = none := rfl

theorem find?_eq_some : t.find? k = some v ↔ (k, v) ∈ t.entries := by
  unfold find?
  rw [Option.map_eq_some_iff]
  constructor
  · rintro ⟨entry, found, rfl⟩
    have same : entry.1 = k := by simpa using find?_some found
    rw [← same]
    exact mem_of_find?_eq_some found
  intro mem
  cases found : t.entries.find? fun entry => entry.1 = k with
  | none =>
    have ne : ¬ decide (k = k) = true := List.find?_eq_none.mp found (k, v) mem
    exact absurd (decide_eq_true rfl) ne
  | some entry =>
    have same : entry.1 = k := by simpa using find?_some found
    exact ⟨entry, rfl, congrArg Prod.snd
      (inj_on_of_nodup_map t.distinct (mem_of_find?_eq_some found) mem same)⟩

theorem find?_eq_none : t.find? k = none ↔ k ∉ t.entries.map (·.1) := by
  rw [Option.eq_none_iff_forall_ne_some]
  constructor
  · intro missing mem
    obtain ⟨entry, there, rfl⟩ := mem_map.mp mem
    exact missing entry.2 (find?_eq_some.mpr there)
  · intro missing v found
    exact missing (mem_map.mpr ⟨_, find?_eq_some.mp found, rfl⟩)

theorem find?_erase : (t.erase k).find? a = if a = k then none else t.find? a := by
  split
  · rename_i same
    rw [same, find?_eq_none]
    exact not_mem_erase t k
  rename_i same
  unfold find? erase
  rw [find?_filter]
  congr 2
  funext entry
  by_cases here : entry.1 = a
  · simp [here, same]
  · simp [here]

theorem find?_insert : (t.insert k v).find? a = if a = k then some v else t.find? a := by
  by_cases same : a = k
  · rw [if_pos same, find?_eq_some, same]
    exact mem_cons_self
  · have skipped : (t.insert k v).find? a = (t.erase k).find? a := by
      unfold find? insert
      rw [find?_cons_of_neg (by simpa using Ne.symm same)]
    rw [if_neg same, skipped, find?_erase, if_neg same]

@[simp] theorem find?_insert_self : (t.insert k v).find? k = some v := by
  rw [find?_insert, if_pos rfl]

@[simp] theorem find?_erase_self : (t.erase k).find? k = none := by
  rw [find?_erase, if_pos rfl]

theorem find?_insert_of_ne (ne : a ≠ k) : (t.insert k v).find? a = t.find? a := by
  rw [find?_insert, if_neg ne]

theorem find?_erase_of_ne (ne : a ≠ k) : (t.erase k).find? a = t.find? a := by
  rw [find?_erase, if_neg ne]

/-! ## Sums over the entries -/

/-- The sum of `f` over all entries. -/
def sum (f : K → V → Nat) (t : Table K V) : Nat := (t.entries.map fun entry => f entry.1 entry.2).sum

variable {f : K → V → Nat}

/-- How an insertion changes a sum over all entries. -/
theorem sum_insert : (t.insert k v).sum f = f k v + (t.erase k).sum f := by
  unfold sum
  rw [insert, map_cons, sum_cons]

theorem sum_erase_of_none (missing : t.find? k = none) : (t.erase k).sum f = t.sum f := by
  have same : (t.erase k).entries = t.entries := by
    refine filter_eq_self.mpr fun entry mem => ?_
    rw [find?_eq_none] at missing
    simp only [decide_eq_true_eq]
    rintro rfl
    exact missing (mem_map.mpr ⟨entry, mem, rfl⟩)
  unfold sum
  rw [same]

theorem sum_erase (found : t.find? k = some v) : f k v + (t.erase k).sum f = t.sum f := by
  rw [find?_eq_some] at found
  obtain ⟨entries, distinct⟩ := t
  show f k v + ((entries.filter fun entry => entry.1 ≠ k).map fun entry => f entry.1 entry.2).sum =
    (entries.map fun entry => f entry.1 entry.2).sum
  induction entries with
  | nil => cases found
  | cons entry entries ih =>
    rw [map_cons, nodup_cons] at distinct
    rcases mem_cons.mp found with rfl | later
    · have kept : entries.filter (fun entry => decide (entry.1 ≠ k)) = entries := by
        refine filter_eq_self.mpr fun entry mem => ?_
        simp only [decide_eq_true_eq]
        rintro rfl
        exact distinct.1 (mem_map.mpr ⟨entry, mem, rfl⟩)
      rw [filter_cons_of_neg (by simp), kept, map_cons, sum_cons]
    · have ne : entry.1 ≠ k := by
        rintro rfl
        exact distinct.1 (mem_map.mpr ⟨_, later, rfl⟩)
      rw [filter_cons_of_pos (by simpa using ne), map_cons, map_cons,
        sum_cons, sum_cons, ← ih distinct.2 later]
      omega

theorem le_sum (found : t.find? k = some v) : f k v ≤ t.sum f := by
  have := sum_erase (f := f) found
  omega

/-- The sum without an entry, and what the entry adds if it is there. -/
theorem sum_erase_add : (t.erase k).sum f + (t.find? k).elim 0 (f k) = t.sum f := by
  cases found : t.find? k with
  | none => exact sum_erase_of_none found
  | some old => rw [Option.elim_some, add_comm, sum_erase found]

/-- The sum after an entry is set, and what the entry added before. -/
theorem sum_insert_add : (t.insert k v).sum f + (t.find? k).elim 0 (f k) = f k v + t.sum f := by
  rw [sum_insert, add_assoc, sum_erase_add]

/-- The entries are known by members of a list that have different keys. -/
theorem sum_le_of_listed {α : Type} {listed : List α} {name : V → α} {keyOf : α → K}
    {bound : α → Nat} (known : ∀ k v, t.find? k = some v → name v ∈ listed ∧ keyOf (name v) = k)
    (le : ∀ k v, t.find? k = some v → f k v ≤ bound (name v)) :
    t.sum f ≤ (listed.map bound).sum := by
  have found {entry : K × V} (mem : entry ∈ t.entries) : t.find? entry.1 = some entry.2 :=
    find?_eq_some.mpr mem
  have names : (t.entries.map fun entry => name entry.2).Nodup := by
    refine Nodup.of_map keyOf ?_
    rw [map_map]
    refine (map_congr_left fun entry mem => ?_).symm ▸ t.distinct
    exact (known _ _ (found mem)).2
  have within : (t.entries.map fun entry => name entry.2).Subperm listed := by
    refine names.subperm fun a mem => ?_
    obtain ⟨entry, here, rfl⟩ := mem_map.mp mem
    exact (known _ _ (found here)).1
  obtain ⟨part, perm, sub⟩ := within
  calc t.sum f ≤ ((t.entries.map fun entry => name entry.2).map bound).sum := by
        rw [map_map]
        exact sum_le_sum fun entry mem => le _ _ (found mem)
    _ = (part.map bound).sum := ((perm.map bound).sum_eq).symm
    _ ≤ (listed.map bound).sum := (sub.map bound).sum_le_sum fun _ _ => Nat.zero_le _

end Table

end CreditChain
