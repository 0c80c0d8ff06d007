import Mathlib.Algebra.Order.BigOperators.Group.Finset

/-!
# Weighted quorums

A finite set of parties, each with a natural-number weight.  Two coalitions whose
weights add up to more than the total weight plus the weight of the faulty parties
share a party that is not faulty.  This is the only fact about quorums that the
protocol arguments use; the threshold that makes it applicable is fixed by the
caller.
-/

namespace CreditChain.Quorum

open Finset

variable {V : Type} [DecidableEq V] {power : V → Nat} {all faulty S T : Finset V}

/-- Two coalitions that outweigh everybody plus the faulty parties intersect in a
party that is not faulty. -/
theorem exists_mem_inter_not_faulty (left : S ⊆ all) (right : T ⊆ all)
    (heavy : ∑ v ∈ all, power v + ∑ v ∈ faulty, power v < ∑ v ∈ S, power v + ∑ v ∈ T, power v) :
    ∃ v ∈ S, v ∈ T ∧ v ∉ faulty := by
  by_contra none
  have inside : S ∩ T ⊆ faulty := by
    intro v mem
    obtain ⟨inS, inT⟩ := Finset.mem_inter.mp mem
    by_contra outside
    exact none ⟨v, inS, inT, outside⟩
  have split : ∑ v ∈ S ∪ T, power v + ∑ v ∈ S ∩ T, power v =
      ∑ v ∈ S, power v + ∑ v ∈ T, power v := sum_union_inter
  have union : ∑ v ∈ S ∪ T, power v ≤ ∑ v ∈ all, power v :=
    sum_le_sum_of_subset (union_subset left right)
  have inter : ∑ v ∈ S ∩ T, power v ≤ ∑ v ∈ faulty, power v := sum_le_sum_of_subset inside
  omega

/-- The two-thirds threshold of a total weight `n`. -/
def twoThirds (n : Nat) : Nat := n * 2 / 3 + 1

/-- Faulty weight below `n - twoThirds n + 1` leaves room for the intersection of two
coalitions that both reach the threshold. -/
theorem twoThirds_intersect {n f a b : Nat} (few : f < n - twoThirds n + 1)
    (fits : twoThirds n ≤ n) (left : twoThirds n ≤ a) (right : twoThirds n ≤ b) :
    n + f < a + b := by
  unfold twoThirds at *
  omega

end CreditChain.Quorum
