import CreditChain.Dkg.Profile

/-!
# The search for the whole weight

The whole weight is searched between one weight per validator and `totalWeightUpperBound`.  The
profile of the upper bound is valid (`valid_of_halves`), so that the binary search finds a
valid profile (`DKGRoundingProfile.settle_valid`) and `DKGRoundingProfile.infallible` is never
needed, as long as the upper bound itself does not wrap around: with fewer than `2 ^ 33 - 4`
validators.
-/

namespace CreditChain

open Fixed Option

/-- The range of the thresholds: the secrecy threshold is above one third, the reconstruction
threshold at least `2 ^ -32` above it and at most two thirds, and the secrecy threshold of the fast
path between the secrecy threshold and two thirds. -/
structure ThresholdRange (secrecy reconstruct : U64F64) (fast : Option U64F64) : Prop where
  secrecy_low : 2 ^ 64 < 3 * secrecy.bits
  apart : secrecy.bits + 2 ^ 32 ≤ reconstruct.bits
  reconstruct_high : 3 * reconstruct.bits ≤ 2 * 2 ^ 64
  fast_range : ∀ threshold ∈ fast, secrecy.bits ≤ threshold.bits ∧ 3 * threshold.bits ≤ 2 * 2 ^ 64

/-- The bits of the stake per weight for a whole weight. -/
def perWeight (stakeTotal weight : Nat) : Nat := Nat.max (2 ^ 64) (stakeTotal * 2 ^ 64 / weight)

theorem one_le_perWeight (stakeTotal weight : Nat) : 2 ^ 64 ≤ perWeight stakeTotal weight :=
  le_max_left _ _

theorem perWeight_cases (stakeTotal weight : Nat) :
    perWeight stakeTotal weight = 2 ^ 64 ∨
      perWeight stakeTotal weight * weight ≤ stakeTotal * 2 ^ 64 := by
  rcases le_total (stakeTotal * 2 ^ 64 / weight) (2 ^ 64) with le | ge
  · exact .inl (max_eq_left le)
  · refine .inr ?_
    rw [perWeight, show Nat.max (2 ^ 64) (stakeTotal * 2 ^ 64 / weight) = _ from max_eq_right ge]
    exact Nat.div_mul_le_self _ _

section

variable {stakes : List Nat} {secrecy reconstruct : U64F64} {fast : Option U64F64}

theorem ThresholdRange.secrecy_high (range : ThresholdRange secrecy reconstruct fast) :
    3 * secrecy.bits ≤ 2 * 2 ^ 64 := by
  have apart := range.apart
  have high := range.reconstruct_high
  omega

variable {weight : Nat}

theorem ofWeight_eq (shape : Stakes stakes) (range : ThresholdRange secrecy reconstruct fast)
    (positive : 0 < weight) :
    DKGRoundingProfile.ofWeight stakes stakes.sum secrecy fast weight =
      some (profileOf stakes (perWeight stakes.sum weight) secrecy fast) := by
  have small := shape.small
  have cancel : stakes.sum * 2 ^ 64 * 2 ^ 64 / (weight * 2 ^ 64) = stakes.sum * 2 ^ 64 / weight :=
    Nat.mul_div_mul_right _ _ (by omega)
  have quotient_le : stakes.sum * 2 ^ 64 / weight ≤ stakes.sum * 2 ^ 64 := Nat.div_le_self _ _
  rw [DKGRoundingProfile.ofWeight, ofNat_eq, ofNat_eq,
    div_mk (by omega) (by rw [cancel]; omega), cancel, some_bind,
    max_mk]
  exact shape.computeProfileFixedPoint_eq (one_le_perWeight _ _)
    (range.secrecy_high.trans (by omega)) fun threshold mem =>
      (range.fast_range threshold mem).2.trans (by omega)

/-! ## The upper bound -/

/-- The bits of the estimate the upper bound is rounded up from. -/
def weightEstimate (validators gap : Nat) : Nat := (validators * 2 ^ 63 + 2 * 2 ^ 64) * 2 ^ 64 / gap

variable {gap validators : Nat}

/-- With few validators the estimate is a number of 64 bits before the point, also rounded up. -/
theorem weightEstimate_le (few : validators + 4 < 2 ^ 33) (wide : 2 ^ 32 ≤ gap) :
    weightEstimate validators gap ≤ 2 ^ 128 - 2 ^ 95 := by
  have below : weightEstimate validators gap * gap ≤ _ := Nat.div_mul_le_self _ _
  have shorter : weightEstimate validators gap * 2 ^ 32 ≤ weightEstimate validators gap * gap :=
    Nat.mul_le_mul_left _ wide
  omega

/-- What the upper bound is for: one half per validator is at most the gap between the thresholds,
counted in weights. -/
theorem halves_le_estimate (positive : 0 < gap) (narrow : gap < 2 ^ 64)
    (raised : weightEstimate validators gap ≤ weight * 2 ^ 64) :
    validators * 2 ^ 63 ≤ weight * gap := by
  have above : _ < weightEstimate validators gap * gap + gap := Nat.lt_div_mul_add positive
  have scaled : weightEstimate validators gap * gap ≤ weight * 2 ^ 64 * gap :=
    Nat.mul_le_mul_right _ raised
  rw [mul_right_comm] at scaled
  omega

theorem totalWeightUpperBound_mk {secrecy reconstruct : Nat} (low : reconstruct < 2 ^ 64)
    (few : stakes.length + 4 < 2 ^ 33) (apart : secrecy + 2 ^ 32 ≤ reconstruct) :
    totalWeightUpperBound stakes ⟨reconstruct⟩ ⟨secrecy⟩ =
      some ((weightEstimate stakes.length (reconstruct - secrecy) + (2 ^ 64 - 1)) / 2 ^ 64) := by
  have halves : stakes.length * 2 ^ 64 * 2 ^ 64 / (2 * 2 ^ 64) = stakes.length * 2 ^ 63 := by
    omega
  have larger : Nat.max reconstruct (secrecy + 1) = reconstruct := max_eq_left (by omega)
  have bounded : weightEstimate stakes.length (reconstruct - secrecy) ≤ 2 ^ 128 - 2 ^ 95 :=
    weightEstimate_le few (by omega)
  rw [totalWeightUpperBound, delta, add_mk (by omega), ofNat_eq, ofNat_eq,
    some_bind, div_mk (by omega) (by rw [halves]; omega), halves,
    some_bind, add_mk (by omega), some_bind, max_mk, larger,
    sub_mk (by omega), some_bind,
    div_mk (by omega) (by rw [← weightEstimate]; omega), ← weightEstimate, some_bind,
    ceil_mk (by omega), toNat_mk]
  rfl

theorem totalWeightUpperBound_eq (few : stakes.length + 4 < 2 ^ 33)
    (range : ThresholdRange secrecy reconstruct fast) :
    ∃ weight, totalWeightUpperBound stakes reconstruct secrecy = some weight ∧
      stakes.length ≤ weight ∧ weight < 2 ^ 64 - 1 ∧
      stakes.length * 2 ^ 63 ≤ weight * (reconstruct.bits - secrecy.bits) := by
  obtain ⟨low, apart, high, -⟩ := range
  have bounded : weightEstimate stakes.length (reconstruct.bits - secrecy.bits) ≤
      2 ^ 128 - 2 ^ 95 := weightEstimate_le few (by omega)
  refine ⟨_, totalWeightUpperBound_mk (by omega) few apart, ?_, by omega, ?_⟩
  all_goals
    generalize weight_eq : (weightEstimate stakes.length (reconstruct.bits - secrecy.bits) +
      (2 ^ 64 - 1)) / 2 ^ 64 = weight
    have halves : stakes.length * 2 ^ 63 ≤ weight * (reconstruct.bits - secrecy.bits) :=
      halves_le_estimate (by omega) (by omega) (by omega)
  · have narrow : weight * (reconstruct.bits - secrecy.bits) ≤ weight * 2 ^ 63 :=
      Nat.mul_le_mul_left _ (by omega)
    omega
  · exact halves

/-! ## Validity -/

theorem isValidProfile_profileOf {q : Nat} :
    isValidProfile (profileOf stakes q secrecy fast) reconstruct = true ↔
      secrecy.bits + stakeGap stakes q ≤ reconstruct.bits ∧
        ∀ threshold ∈ fast, threshold.bits + stakeGap stakes q ≤ 2 ^ 64 := by
  unfold isValidProfile profileOf
  cases fast with
  | none | some threshold => simp

theorem stakeGap_one (stakes : List Nat) : stakeGap stakes (2 ^ 64) = 0 := by
  rw [stakeGap, delta_one, Nat.mul_zero, Nat.zero_div, Nat.zero_div]

/-- A weight with which the halves of the validators fit a gap makes the stake gap fit it. -/
theorem stakeGap_perWeight_le (halves : stakes.length * 2 ^ 63 ≤ weight * gap) :
    stakeGap stakes (perWeight stakes.sum weight) ≤ gap := by
  rcases perWeight_cases stakes.sum weight with one | shared
  · rw [one, stakeGap_one]
    exact Nat.zero_le gap
  refine Nat.div_le_of_le_mul (Nat.div_le_of_le_mul ?_)
  calc perWeight stakes.sum weight *
        (deltaDown stakes (perWeight stakes.sum weight) + deltaUp stakes (perWeight stakes.sum weight))
      ≤ perWeight stakes.sum weight * (weight * gap) :=
        Nat.mul_le_mul_left _ ((delta_le stakes _).trans halves)
    _ = perWeight stakes.sum weight * weight * gap := (mul_assoc _ _ _).symm
    _ ≤ stakes.sum * 2 ^ 64 * gap := Nat.mul_le_mul_right gap shared
    _ = 2 ^ 64 * (stakes.sum * gap) := by ring

theorem valid_of_halves (range : ThresholdRange secrecy reconstruct fast)
    (halves : stakes.length * 2 ^ 63 ≤ weight * (reconstruct.bits - secrecy.bits)) :
    isValidProfile (profileOf stakes (perWeight stakes.sum weight) secrecy fast) reconstruct =
      true := by
  have narrow := stakeGap_perWeight_le halves
  obtain ⟨low, apart, high, fast_range⟩ := range
  refine isValidProfile_profileOf.mpr ⟨by omega, fun threshold mem => ?_⟩
  have bounded := (fast_range threshold mem).2
  omega

end

/-! ## The binary search -/

namespace DKGRoundingProfile

section

variable {profileAt : Nat → DKGRoundingProfile} {reconstruct : U64F64} {least most : Nat}

/-- The state of the search: the best profile so far is that of a weight of the range, and either
it is valid or the greatest weight is still to be tried. -/
structure Searching (profileAt : Nat → DKGRoundingProfile) (reconstruct : U64F64)
    (least most low high : Nat) (best : DKGRoundingProfile) : Prop where
  low_ge : least ≤ low
  high_le : high ≤ most
  tried : ∃ weight, least ≤ weight ∧ best = profileAt weight
  pending : isValidProfile best reconstruct = true ∨ high = most ∧ low ≤ most

variable {profileOf : Nat → Option DKGRoundingProfile}

section

variable (computed : ∀ weight, least ≤ weight → profileOf weight = some (profileAt weight))

include computed

theorem search_valid (positive : 0 < least) (fits : most < 2 ^ 64 - 1)
    (most_valid : isValidProfile (profileAt most) reconstruct = true) (fuel : Nat) :
    ∀ {low high : Nat} {best : DKGRoundingProfile},
      Searching profileAt reconstruct least most low high best → high + 2 ≤ fuel + low →
      low ≤ high + 1 →
      ∃ weight, least ≤ weight ∧
        search profileOf reconstruct fuel low high best = some (profileAt weight) ∧
        isValidProfile (profileAt weight) reconstruct = true := by
  induction fuel with
  | zero =>
    omega
  | succ fuel ih =>
    intro low high best state enough close
    obtain ⟨low_ge, high_le, ⟨weight, weight_ge, rfl⟩, pending⟩ := state
    rw [search]
    by_cases more : low ≤ high
    · have mid_ge : low ≤ weightMid low high := by unfold weightMid; omega
      have mid_le : weightMid low high ≤ high := by unfold weightMid; omega
      generalize weightMid low high = mid at mid_ge mid_le ⊢
      rw [if_pos more, computed mid (by omega), some_bind]
      split
      · rename_i valid
        rw [Word64.sub64_eq (by omega)]
        exact ih ⟨low_ge, by omega, ⟨mid, by omega, rfl⟩, .inl valid⟩ (by omega) (by omega)
      · rename_i valid
        rw [Word64.add64_eq (by omega)]
        refine ih ⟨by omega, high_le, ⟨weight, weight_ge, rfl⟩, ?_⟩ (by omega) (by omega)
        -- the greatest weight is valid, so that an invalid one in the middle is below it
        refine pending.imp_right fun ⟨high_eq, _⟩ => ⟨high_eq, ?_⟩
        have below : mid ≠ most := fun same => valid (same ▸ most_valid)
        omega
    · rw [if_neg more]
      refine ⟨weight, weight_ge, rfl, pending.resolve_right fun ⟨_, _⟩ => ?_⟩
      omega

/-- The search settles on a valid profile, that of a weight of at least one per validator. -/
theorem settle_valid (positive : 0 < least) (fits : most < 2 ^ 64 - 1) (ordered : least ≤ most)
    (most_valid : isValidProfile (profileAt most) reconstruct = true) :
    ∃ weight, least ≤ weight ∧
      settle profileOf reconstruct least most = some (profileAt weight) ∧
      isValidProfile (profileAt weight) reconstruct = true := by
  rw [settle, computed least (le_refl least), some_bind]
  split
  · rename_i valid
    exact ⟨least, le_refl least, rfl, valid⟩
  · exact search_valid computed positive fits most_valid _
      ⟨le_refl least, le_refl most, ⟨least, le_refl least, rfl⟩, .inr ⟨rfl, ordered⟩⟩
      (by omega) (by omega)

end

end

end DKGRoundingProfile

end CreditChain
