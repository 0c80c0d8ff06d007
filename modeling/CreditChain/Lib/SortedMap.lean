import Mathlib.Data.List.Nodup
import Mathlib.Data.List.Perm.Basic

/-!
# Sorted maps

The lookup lemmas of the library's sorted maps with equality of keys in place of
comparison, and the order in which a map lists the entries it was filled with.
-/

namespace CreditChain

open Std.ExtTreeMap

/-- A `BTreeMap`, or a `HashMap` whose order of iteration does not matter. -/
abbrev Map (K V : Type) [Ord K] := Std.ExtTreeMap K V

namespace Map

variable {K V : Type} [Ord K] [Std.TransOrd K] [Std.LawfulEqOrd K] [DecidableEq K] {m : Map K V}
  {a k : K}

omit [Std.TransOrd K] [DecidableEq K] in
theorem compare_eq_iff {b : K} : compare a b = .eq ↔ a = b :=
  ⟨Std.LawfulEqCmp.eq_of_compare, fun same => same ▸ Std.ReflCmp.compare_self⟩

theorem getElem?_insert_eq {v : V} : (m.insert k v)[a]? = if k = a then some v else m[a]? := by
  rw [getElem?_insert]
  simp only [compare_eq_iff]

theorem getElem?_insertIfNew_eq {v : V} :
    (m.insertIfNew k v)[a]? = if k = a ∧ m[k]? = none then some v else m[a]? := by
  rw [getElem?_insertIfNew]
  simp only [compare_eq_iff, mem_iff_isSome_getElem?, Option.not_isSome_iff_eq_none]

theorem getElem?_erase_eq : (m.erase k)[a]? = if k = a then none else m[a]? := by
  rw [getElem?_erase]
  simp only [compare_eq_iff]

omit [DecidableEq K] in
theorem keys_nodup (m : Map K V) : m.keys.Nodup := by
  refine distinct_keys.imp ?_
  intro a b apart same
  exact apart (compare_eq_iff.mpr same)

theorem mem_toList_ofList {l : List (K × V)} (distinct : (l.map (·.1)).Nodup) {entry : K × V} :
    entry ∈ (Std.ExtTreeMap.ofList l compare).toList ↔ entry ∈ l := by
  have apart : l.Pairwise fun a b => ¬ compare a.1 b.1 = .eq := by
    refine (List.pairwise_map.mp distinct).imp ?_
    intro a b different same
    exact different (compare_eq_iff.mp same)
  have there : ∀ entry ∈ l, (ofList l compare)[entry.1]? = some entry.2 := by
    intro entry mem
    exact getElem?_ofList_of_mem Std.ReflCmp.compare_self apart mem
  rw [mem_toList_iff_getElem?_eq_some]
  constructor
  · intro found
    have known : entry.1 ∈ ofList l compare := by
      rw [mem_iff_isSome_getElem?, found]
      rfl
    rw [mem_ofList, List.contains_iff_mem] at known
    obtain ⟨other, mem, same⟩ := List.mem_map.mp known
    have value := there other mem
    rw [same, found] at value
    have equal : entry = other := Prod.ext same.symm (Option.some.inj value)
    rw [equal]
    exact mem
  · intro mem
    exact there entry mem

/-- A map lists what it was filled with in the order of the keys. -/
theorem toList_ofList {l sorted : List (K × V)} (perm : sorted.Perm l)
    (ordered : sorted.Pairwise fun a b => compare a.1 b.1 = .lt) :
    (Std.ExtTreeMap.ofList l compare).toList = sorted := by
  have asymm : ∀ a b : K × V, compare a.1 b.1 = .lt → compare b.1 a.1 = .lt → a = b := by
    intro a b lt gt
    have swapped : compare b.1 a.1 = (compare a.1 b.1).swap := Std.OrientedCmp.eq_swap
    rw [swapped, lt] at gt
    cases gt
  have apart : ∀ a b : K × V, compare a.1 b.1 = .lt → a.1 ≠ b.1 := by
    intro a b lt same
    rw [compare_eq_iff.mpr same] at lt
    cases lt
  have distinct : (l.map (·.1)).Nodup := by
    refine (perm.map _).nodup_iff.mp (List.pairwise_map.mpr (ordered.imp ?_))
    intro a b
    exact apart a b
  have listed := ordered_keys_toList (t := .ofList l compare)
  have samePerm : (ofList l compare).toList.Perm sorted := by
    refine (List.perm_ext_iff_of_nodup ?_ ?_).mpr ?_
    · refine listed.imp ?_
      intro a b lt same
      exact apart a b lt (congrArg Prod.fst same)
    · refine ordered.imp ?_
      intro a b lt same
      exact apart a b lt (congrArg Prod.fst same)
    · intro entry
      rw [mem_toList_ofList distinct, perm.mem_iff]
  exact samePerm.eq_of_pairwise (fun a b _ _ lt gt => asymm a b lt gt) listed ordered

end Map

end CreditChain
