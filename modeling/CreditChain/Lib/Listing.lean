import Mathlib.Data.Option.Basic

/-!
# An index of a table

A table holds records by key.  An index holds keys in slots: `slot` says in which slot a
record is listed, if it is listed at all.  The index mirrors the table when the slots hold the
keys of the listed records and nothing else.
-/

namespace CreditChain

open Option Function

/-- What a table holds after one of its records changed. -/
theorem update_eq_some {K V : Type} [DecidableEq K] {table : K → Option V} {k a : K}
    {x : Option V} {v : V} : update table k x a = some v ↔
      (a = k ∧ x = some v) ∨ (a ≠ k ∧ table a = some v) := by
  by_cases same : a = k
  · subst same
    simp
  · simp [same]

/-- The slots hold the keys of the listed records and nothing else. -/
structure Mirrors {K V S : Type} (slot : V → Option S) (table : K → Option V)
    (slots : S → Option K) : Prop where
  listed : ∀ {k v s}, table k = some v → slot v = some s → slots s = some k
  backed : ∀ {s k}, slots s = some k → ∃ v, table k = some v ∧ slot v = some s

namespace Mirrors

variable {K V S : Type} {slot : V → Option S} {table : K → Option V} {slots : S → Option K}
  {k a : K} {v v' w : V} {s t : S}

theorem empty : Mirrors slot (fun _ : K => none) (fun _ => none) where
  listed found := by cases found
  backed found := by cases found

/-- Two records are listed in different slots. -/
theorem slot_ne (mirrors : Mirrors slot table slots) (found : table k = some v)
    (at_s : slot v = some s) (found' : table a = some w) (at_t : slot w = some t) (ne : a ≠ k) :
    t ≠ s := by
  rintro rfl
  cases (mirrors.listed found at_s).symm.trans (mirrors.listed found' at_t)
  exact ne rfl

theorem slot_ne_of_free (mirrors : Mirrors slot table slots) (free : slots s = none)
    (found : table a = some w) (at_t : slot w = some t) : t ≠ s := by
  rintro rfl
  cases free.symm.trans (mirrors.listed found at_t)

/-- Where the record of a key is listed, and whose key a slot holds, is the same thing. -/
theorem iff_bind : Mirrors slot table slots ↔
    ∀ k s, (table k).bind slot = some s ↔ slots s = some k := by
  simp only [bind_eq_some_iff]
  exact ⟨fun mirrors k s => ⟨fun ⟨_, found, at_s⟩ => mirrors.listed found at_s, mirrors.backed⟩,
    fun both => ⟨fun found at_s => (both _ _).mp ⟨_, found, at_s⟩, (both _ _).mpr⟩⟩

section Table

variable [DecidableEq K] (mirrors : Mirrors slot table slots)

include mirrors

/-- The record of a key changes, but not where it is listed. -/
theorem update {x : Option V} (same : x.bind slot = (table k).bind slot) :
    Mirrors slot (update table k x) slots := by
  rw [iff_bind] at mirrors ⊢
  intro a s
  rw [← mirrors a s, Function.update_apply]
  split
  · rename_i here
    rw [here, same]
  · rfl

/-- A change of the table that the index does not see. -/
theorem insert_unlisted (missing : table k = none) (unlisted : slot v = none) :
    Mirrors slot (Function.update table k (some v)) slots :=
  mirrors.update (by rw [missing, bind_some, unlisted, bind_none])

theorem erase_unlisted (there : table k = some v) (unlisted : slot v = none) :
    Mirrors slot (Function.update table k none) slots :=
  mirrors.update (by rw [there, bind_some, unlisted, bind_none])

/-- A record takes the place of one that is listed in the same way. -/
theorem replace (there : table k = some v) (same_slot : slot v' = slot v) :
    Mirrors slot (Function.update table k (some v')) slots :=
  mirrors.update (by rw [there, bind_some, same_slot, bind_some])

variable [DecidableEq S]

/-- A record and its slot change together. -/
theorem insert (missing : table k = none) (at_s : slot v = some s) (free : slots s = none) :
    Mirrors slot (Function.update table k (some v)) (Function.update slots s (some k)) := by
  rw [iff_bind] at mirrors ⊢
  grind

theorem erase (there : table k = some v) (at_s : slot v = some s) :
    Mirrors slot (Function.update table k none) (Function.update slots s none) := by
  rw [iff_bind] at mirrors ⊢
  grind

end Table

end Mirrors

end CreditChain
