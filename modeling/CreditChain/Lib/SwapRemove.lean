import Mathlib.Data.List.Perm.Basic

/-!
# Removing an element out of order

`swapRemove` takes the element at an index out of a list and puts the last element in its
place.  What is left are the other elements.
-/

namespace CreditChain

open List

variable {α : Type}

def swapRemove (v : List α) (i : Nat) : Option (α × List α) :=
  match v[i]?, v.getLast? with
  | some a, some last => some (a, (v.set i last).dropLast)
  | _, _ => none

theorem swapRemove_perm {v rest : List α} {i : Nat} {a : α}
    (removed : swapRemove v i = some (a, rest)) : v.Perm (a :: rest) ∧ v[i]? = some a := by
  unfold swapRemove at removed
  split at removed
  · next b last atIndex atEnd =>
    cases removed
    obtain ⟨initial, rfl⟩ := List.getLast?_eq_some_iff.mp atEnd
    refine ⟨?_, atIndex⟩
    by_cases inner : i < initial.length
    · rw [getElem?_append_left inner] at atIndex
      obtain ⟨before, after, rfl, rfl⟩ : ∃ before after, initial = before ++ a :: after ∧
          before.length = i := by
        refine ⟨initial.take i, initial.drop (i + 1), ?_, by simp; omega⟩
        rw [getElem?_eq_getElem inner] at atIndex
        cases atIndex
        simp
      have left : ((before ++ a :: after ++ [last]).set before.length last).dropLast =
          before ++ last :: after := by
        rw [set_append_left _ _ inner, dropLast_concat]
        simp
      rw [left]
      have moved : (after ++ [last]).Perm (last :: after) := perm_append_comm
      rw [append_assoc, cons_append]
      exact perm_middle.trans ((moved.append_left before).cons a)
    · have bound : i < (initial ++ [last]).length := (List.getElem?_eq_some_iff.mp atIndex).1
      have isLast : i = initial.length := by
        rw [length_append, length_singleton] at bound
        omega
      subst isLast
      rw [getElem?_append_right (Nat.le_refl _), Nat.sub_self] at atIndex
      have same : last = a := Option.some.inj atIndex
      subst same
      have left : ((initial ++ [last]).set initial.length last).dropLast = initial := by
        rw [set_append_right _ _ (Nat.le_refl _), Nat.sub_self, set_cons_zero, dropLast_concat]
      rw [left]
      exact perm_append_comm
  · cases removed

end CreditChain
