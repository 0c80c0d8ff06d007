import Mathlib.Data.Countable.Basic
import Mathlib.Logic.Equiv.List

/-!
# Collision-free digests

A countable type has an injective digest into the natural numbers.  `table` is one whose
values on a given list of inputs are known: input number `i` has digest `i + 1`.  No input
has digest zero.
-/

namespace CreditChain.Digest

variable {α : Type} [DecidableEq α] [Countable α]

/-- An injective digest that numbers the `known` inputs. -/
noncomputable def table (known : List α) (a : α) : Nat :=
  if a ∈ known then known.idxOf a + 1
  else known.length + 1 + (exists_injective_nat α).choose a

theorem table_ne_zero (known : List α) (a : α) : table known a ≠ 0 := by
  unfold table
  split
  · omega
  · omega

theorem table_injective (known : List α) : Function.Injective (table known) := by
  intro a b same
  unfold table at same
  split at same
  · rename_i inA
    have small := List.idxOf_lt_length_of_mem inA
    split at same
    · exact (List.idxOf_inj inA).mp (Nat.succ.inj same)
    · omega
  · split at same
    · rename_i inB
      have small := List.idxOf_lt_length_of_mem inB
      omega
    · exact (exists_injective_nat α).choose_spec (Nat.add_left_cancel same)

end CreditChain.Digest
