import CreditChain.Lib.Table
import Mathlib.Data.List.Sort

/-!
# Ordered maps

A finite map that lists its entries in the order of the keys.
-/

namespace CreditChain

open List Function

/-- Entries in strictly increasing order of their keys. -/
structure OrderedMap (K V : Type) [LinearOrder K] where
  entries : List (K × V)
  sorted : entries.Pairwise fun a b => a.1 < b.1

namespace OrderedMap

variable {K V : Type} [LinearOrder K] {entries : List (K × V)}

theorem keys_nodup (sorted : entries.Pairwise fun a b => a.1 < b.1) : (entries.map (·.1)).Nodup :=
  pairwise_map.mpr (sorted.imp fun lt => lt.ne)

variable (m : OrderedMap K V)

/-- The entries without their order. -/
def toTable : Table K V := ⟨m.entries, keys_nodup m.sorted⟩

def empty : OrderedMap K V := ⟨[], .nil⟩

def isEmpty : Bool := m.entries.isEmpty

def find? (k : K) : Option V := m.toTable.find? k

def contains (k : K) : Bool := (m.find? k).isSome

/-- The entry with the least key. -/
def front? : Option (K × V) := m.entries.head?

/-- The entry with the greatest key. -/
def back? : Option (K × V) := m.entries.getLast?

/-- Place an entry in the order of the keys, or replace the entry of its key. -/
def place (k : K) (v : V) : List (K × V) → List (K × V)
  | [] => [(k, v)]
  | entry :: rest =>
    if k < entry.1 then (k, v) :: entry :: rest
    else if entry.1 < k then entry :: place k v rest
    else (k, v) :: rest

theorem mem_place {k : K} {v : V} (sorted : entries.Pairwise fun a b => a.1 < b.1) {entry : K × V} :
    entry ∈ place k v entries ↔ entry = (k, v) ∨ (entry ∈ entries ∧ entry.1 ≠ k) := by
  induction entries with
  | nil => simp [place]
  | cons first rest ih =>
    rw [pairwise_cons] at sorted
    rw [place]
    split
    · next before =>
      have apart : ∀ other ∈ first :: rest, other.1 ≠ k := by
        intro other mem
        rcases mem_cons.mp mem with rfl | later
        · exact before.ne'
        · exact ne_of_gt (before.trans (sorted.1 other later))
      rw [mem_cons]
      constructor
      · rintro (rfl | there)
        · exact .inl rfl
        · exact .inr ⟨there, apart entry there⟩
      · rintro (rfl | there)
        · exact .inl rfl
        · exact .inr there.1
    · split
      · next after =>
        rw [mem_cons, mem_cons, ih sorted.2]
        constructor
        · rintro (rfl | rfl | there)
          · exact .inr ⟨.inl rfl, after.ne⟩
          · exact .inl rfl
          · exact .inr ⟨.inr there.1, there.2⟩
        · rintro (rfl | ⟨rfl | there, ne⟩)
          · exact .inr (.inl rfl)
          · exact .inl rfl
          · exact .inr (.inr ⟨there, ne⟩)
      · next notBefore notAfter =>
        have same : first.1 = k := le_antisymm (not_lt.mp notBefore) (not_lt.mp notAfter)
        rw [mem_cons, mem_cons]
        constructor
        · rintro (rfl | there)
          · exact .inl rfl
          · exact .inr ⟨.inr there, same ▸ (sorted.1 entry there).ne'⟩
        · rintro (rfl | ⟨rfl | there, ne⟩)
          · exact .inl rfl
          · exact absurd same ne
          · exact .inr there

theorem sorted_place (k : K) (v : V) (sorted : entries.Pairwise fun a b => a.1 < b.1) :
    (place k v entries).Pairwise fun a b => a.1 < b.1 := by
  induction entries with
  | nil => exact pairwise_singleton _ _
  | cons first rest ih =>
    have parts := pairwise_cons.mp sorted
    rw [place]
    split
    · next before =>
      refine pairwise_cons.mpr ⟨fun other mem => ?_, sorted⟩
      rcases mem_cons.mp mem with rfl | later
      · exact before
      · exact before.trans (parts.1 other later)
    · split
      · next after =>
        refine pairwise_cons.mpr ⟨fun other mem => ?_, ih parts.2⟩
        rcases (mem_place parts.2).mp mem with rfl | ⟨later, -⟩
        · exact after
        · exact parts.1 other later
      · next notBefore notAfter =>
        have same : first.1 = k := le_antisymm (not_lt.mp notBefore) (not_lt.mp notAfter)
        exact pairwise_cons.mpr ⟨fun other mem => same ▸ parts.1 other mem, parts.2⟩

/-- The map with `v` as the value of `k`. -/
def insert (k : K) (v : V) : OrderedMap K V :=
  ⟨place k v m.entries, sorted_place k v m.sorted⟩

/-- The map without the entry of `k`. -/
def erase (k : K) : OrderedMap K V :=
  ⟨m.entries.filter fun entry => entry.1 ≠ k, m.sorted.sublist filter_sublist⟩

variable {m} {k a : K} {v w : V}

@[simp] theorem find?_empty : (empty : OrderedMap K V).find? k = none := rfl

theorem find?_eq_some : m.find? k = some v ↔ (k, v) ∈ m.entries := Table.find?_eq_some

theorem find?_eq_none : m.find? k = none ↔ k ∉ m.entries.map (·.1) := Table.find?_eq_none

theorem find?_erase : (m.erase k).find? a = if a = k then none else m.find? a := by
  have erased : (m.erase k).find? a = (m.toTable.erase k).find? a := rfl
  rw [erased, Table.find?_erase]
  rfl

theorem find?_insert : (m.insert k v).find? a = if a = k then some v else m.find? a := by
  split
  · rename_i same
    rw [find?_eq_some, same]
    exact (mem_place m.sorted).mpr (.inl rfl)
  · rename_i same
    refine Option.ext fun w => ?_
    rw [find?_eq_some, find?_eq_some]
    refine (mem_place m.sorted).trans ⟨?_, fun there => .inr ⟨there, same⟩⟩
    rintro (placed | there)
    · exact absurd (congrArg Prod.fst placed) same
    · exact there.1

@[simp] theorem find?_insert_self : (m.insert k v).find? k = some v := by
  rw [find?_insert, if_pos rfl]

@[simp] theorem find?_erase_self : (m.erase k).find? k = none := by
  rw [find?_erase, if_pos rfl]

theorem find?_insert_of_ne (ne : a ≠ k) : (m.insert k v).find? a = m.find? a := by
  rw [find?_insert, if_neg ne]

theorem find?_insert_eq [DecidableEq K] : (m.insert k v).find? = update m.find? k (some v) := by
  funext a
  rw [find?_insert, update_apply]
  congr

theorem find?_erase_eq [DecidableEq K] : (m.erase k).find? = update m.find? k none := by
  funext a
  rw [find?_erase, update_apply]
  congr

theorem contains_iff : m.contains k = true ↔ ∃ v, m.find? k = some v := Option.isSome_iff_exists

theorem contains_eq_false : m.contains k = false ↔ m.find? k = none := by
  unfold contains
  cases m.find? k with
  | none | some v => simp

/-- The least key. -/
theorem front?_eq_some : m.front? = some (k, v) ↔
    m.find? k = some v ∧ ∀ a w, m.find? a = some w → k ≤ a := by
  have sorted := m.sorted
  simp only [find?_eq_some]
  unfold front?
  generalize m.entries = entries at sorted
  cases entries with
  | nil => simp
  | cons first rest =>
    rw [pairwise_cons] at sorted
    rw [head?_cons, Option.some.injEq]
    constructor
    · rintro rfl
      refine ⟨mem_cons_self, fun a w mem => ?_⟩
      rcases mem_cons.mp mem with same | later
      · exact le_of_eq (congrArg Prod.fst same).symm
      · exact (sorted.1 _ later).le
    · rintro ⟨mem, least⟩
      rcases mem_cons.mp mem with same | later
      · exact same.symm
      · exact absurd (sorted.1 _ later) (not_lt.mpr (least first.1 first.2 mem_cons_self))

/-- The greatest key. -/
theorem back?_eq_some : m.back? = some (k, v) ↔
    m.find? k = some v ∧ ∀ a w, m.find? a = some w → a ≤ k := by
  have sorted := m.sorted
  simp only [find?_eq_some]
  unfold back?
  rcases eq_nil_or_concat' m.entries with nil | ⟨rest, last, eq⟩
  · rw [nil]
    simp
  rw [eq, pairwise_append] at sorted
  rw [eq, getLast?_concat, Option.some.injEq]
  constructor
  · rintro rfl
    refine ⟨mem_append_right _ (mem_singleton.mpr rfl), fun a w mem => ?_⟩
    rcases mem_append.mp mem with earlier | same
    · exact (sorted.2.2 _ earlier _ (mem_singleton.mpr rfl)).le
    · exact (congrArg Prod.fst (mem_singleton.mp same)).le
  · rintro ⟨mem, greatest⟩
    rcases mem_append.mp mem with earlier | same
    · exact absurd (sorted.2.2 _ earlier _ (mem_singleton.mpr rfl))
        (not_lt.mpr (greatest last.1 last.2 (mem_append_right _ (mem_singleton.mpr rfl))))
    · exact (mem_singleton.mp same).symm

theorem isEmpty_iff : m.isEmpty = true ↔ ∀ k, m.find? k = none := by
  unfold isEmpty
  rw [List.isEmpty_iff]
  constructor
  · intro nil k
    rw [find?_eq_none, nil]
    exact not_mem_nil
  · intro missing
    refine eq_nil_iff_forall_not_mem.mpr fun entry mem => ?_
    exact absurd ((missing entry.1).symm.trans (find?_eq_some.mpr mem)) (by simp)

theorem front?_eq_none : m.front? = none ↔ ∀ k, m.find? k = none := by
  rw [← isEmpty_iff, front?, isEmpty, head?_eq_none_iff, List.isEmpty_iff]

theorem back?_eq_none : m.back? = none ↔ ∀ k, m.find? k = none := by
  rw [← isEmpty_iff, back?, isEmpty, getLast?_eq_none_iff, List.isEmpty_iff]

/-! ## The entries below a key -/

/-- The entries with keys below `bound`. -/
def below (m : OrderedMap K V) (bound : K) : OrderedMap K V :=
  ⟨m.entries.filter fun entry => entry.1 < bound, m.sorted.sublist filter_sublist⟩

/-- The entry with the greatest key below `bound`. -/
def lastBelow (m : OrderedMap K V) (bound : K) : Option (K × V) := (m.below bound).back?

variable {bound : K}

theorem find?_below : (m.below bound).find? a = some v ↔ m.find? a = some v ∧ a < bound := by
  rw [find?_eq_some, find?_eq_some, below]
  simp

/-- The entry with the greatest key below a bound. -/
theorem lastBelow_eq_some : m.lastBelow bound = some (k, v) ↔
    m.find? k = some v ∧ k < bound ∧ ∀ a w, m.find? a = some w → a < bound → a ≤ k := by
  rw [lastBelow, back?_eq_some, find?_below, and_assoc]
  simp only [find?_below, and_imp]

theorem lastBelow_eq_none : m.lastBelow bound = none ↔ ∀ a, a < bound → m.find? a = none := by
  rw [lastBelow, back?_eq_none]
  constructor
  · intro missing a lt
    refine Option.eq_none_iff_forall_ne_some.mpr fun v found => ?_
    have none := missing a
    rw [find?_below.mpr ⟨found, lt⟩] at none
    cases none
  · intro missing a
    refine Option.eq_none_iff_forall_ne_some.mpr fun v found => ?_
    obtain ⟨there, lt⟩ := find?_below.mp found
    rw [missing a lt] at there
    cases there

/-- The entries with keys below `bound`, the greatest first. -/
def descending (m : OrderedMap K V) (bound : K) : List (K × V) := (m.below bound).entries.reverse

theorem descending_head? : (m.descending bound).head? = m.lastBelow bound := by
  rw [descending, head?_reverse]
  rfl

theorem mem_descending {entry : K × V} :
    entry ∈ m.descending bound ↔ m.find? entry.1 = some entry.2 ∧ entry.1 < bound := by
  rw [descending, mem_reverse, ← find?_below, find?_eq_some]

theorem place_of_mem {before after : List (K × V)} (lower : ∀ entry ∈ before, entry.1 < k)
    (v w : V) : place k w (before ++ (k, v) :: after) = before ++ (k, w) :: after := by
  induction before with
  | nil => simp [place]
  | cons entry before ih =>
    have lt := lower entry mem_cons_self
    rw [cons_append, place, if_neg (not_lt_of_gt lt), if_pos lt,
      ih fun other mem => lower other (mem_cons_of_mem _ mem), cons_append]

/-- The entries around a key, which stay where they are if its value is replaced. -/
theorem entries_around (found : m.find? k = some v) : ∃ before after,
    m.entries = before ++ (k, v) :: after ∧ (∀ entry ∈ before, entry.1 < k) ∧
    (∀ entry ∈ after, k < entry.1) ∧
    ∀ w, (m.insert k w).entries = before ++ (k, w) :: after := by
  obtain ⟨before, after, split⟩ := append_of_mem (find?_eq_some.mp found)
  have sorted := m.sorted
  rw [split, pairwise_append] at sorted
  obtain ⟨-, upper, cross⟩ := sorted
  have lower : ∀ entry ∈ before, entry.1 < k := fun entry mem =>
    cross entry mem (k, v) mem_cons_self
  refine ⟨before, after, split, lower, (pairwise_cons.mp upper).1, fun w => ?_⟩
  change place k w m.entries = _
  rw [split, place_of_mem lower]

/-- Replacing the value of a key changes one place of the entries below a bound. -/
theorem descending_insert (found : m.find? k = some v) (w : V) (bound : K) :
    (bound ≤ k ∧ (m.insert k w).descending bound = m.descending bound) ∨
    (k < bound ∧ ∃ above, (∀ entry ∈ above, k < entry.1) ∧
      m.descending bound = above ++ (k, v) :: m.descending k ∧
      (m.insert k w).descending bound = above ++ (k, w) :: m.descending k) := by
  obtain ⟨before, after, split, lower, upper, replaced⟩ := entries_around found
  have keep : ∀ limit, k ≤ limit →
      before.filter (fun entry => entry.1 < limit) = before := fun limit le =>
    filter_eq_self.mpr fun entry mem => decide_eq_true ((lower entry mem).trans_le le)
  have drop : ∀ limit, limit ≤ k →
      after.filter (fun entry => entry.1 < limit) = [] := fun limit le =>
    filter_eq_nil_iff.mpr fun entry mem =>
      by simpa using le.trans (upper entry mem).le
  unfold descending below
  simp only [split, replaced]
  rcases lt_or_ge k bound with lt | ge
  · refine .inr ⟨lt, (after.filter fun entry => entry.1 < bound).reverse, ?_, ?_, ?_⟩
    · intro entry mem
      exact upper entry (mem_filter.mp (mem_reverse.mp mem)).1
    all_goals simp [lt, keep k le_rfl, keep bound lt.le, drop k le_rfl]
  · refine .inl ⟨ge, ?_⟩
    simp [ge.not_gt]

theorem insert_insert (found : m.find? k = some v) (w x : V) :
    (m.insert k w).insert k x = m.insert k x := by
  obtain ⟨before, after, split, lower, upper, replaced⟩ := entries_around found
  have twice : ((m.insert k w).insert k x).entries = (m.insert k x).entries := by
    change place k x (m.insert k w).entries = _
    rw [replaced, replaced, place_of_mem lower]
  cases same : (m.insert k w).insert k x
  cases same' : m.insert k x
  rw [same, same'] at twice
  cases twice
  rfl

end OrderedMap

end CreditChain
