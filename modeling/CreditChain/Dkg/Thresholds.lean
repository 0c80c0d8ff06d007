import CreditChain.Dkg.Search

/-!
# What the thresholds promise

A part of the validators is a set of their indices; `heldBy` is the stake or the weight it holds.

* Secrecy: a part with at most the secret fraction of the stake weighs less than the threshold.
  The threshold counts all weight gained by rounding, and the cap at the whole weight is harmless
  because the validators outside the part weigh something.
-/

namespace CreditChain

open DKGRounding List Nat
open Option (bind_eq_bind bind_some map_eq_some_iff)

section

variable {stakes : List Nat} {q : Nat} {part : Finset Nat}

/-! ## Weights of a part -/

theorem weight_balance (stakes : List Nat) (q : Nat) (part : Finset Nat) :
    heldBy (stakes.map (roundedWeight q)) part * 2 ^ 64 + heldBy (stakes.map (weightLost q)) part =
      heldBy (stakes.map (idealWeight q)) part + heldBy (stakes.map (weightGained q)) part := by
  rw [heldBy_map roundedWeight_zero, heldBy_map weightLost_zero, heldBy_map idealWeight_zero,
    heldBy_map weightGained_zero, Finset.sum_mul, ← Finset.sum_add_distrib,
    ← Finset.sum_add_distrib]
  exact Finset.sum_congr rfl fun i _ => nearest_balance (2 ^ 63) _

theorem scaled_zero : 0 * 2 ^ 64 * 2 ^ 64 = 0 := by omega

theorem heldBy_scaled (stakes : List Nat) (part : Finset Nat) :
    heldBy (stakes.map fun stake => stake * 2 ^ 64 * 2 ^ 64) part =
      heldBy stakes part * 2 ^ 64 * 2 ^ 64 := by
  rw [heldBy_map scaled_zero, heldBy, Finset.sum_mul, Finset.sum_mul]

theorem heldBy_idealWeight_le (stakes : List Nat) (q : Nat) (part : Finset Nat) :
    heldBy (stakes.map (idealWeight q)) part ≤ heldBy stakes part * 2 ^ 64 * 2 ^ 64 / q := by
  rw [← heldBy_scaled]
  exact heldBy_div_le stakes part scaled_zero q

theorem le_heldBy_idealWeight (positive : 0 < q) (stakes : List Nat) (part : Finset Nat) :
    heldBy stakes part * 2 ^ 64 * 2 ^ 64 ≤
      heldBy (stakes.map (idealWeight q)) part * q + stakes.length * (q - 1) := by
  rw [← heldBy_scaled]
  exact heldBy_le_div stakes part scaled_zero positive

/-! ## Secrecy -/

theorem weight_lt_uncapped {secrecy : Nat}
    (held : heldBy stakes part * 2 ^ 64 ≤ secrecy * stakes.sum) :
    heldBy (stakes.map (roundedWeight q)) part < uncappedThreshold stakes q secrecy := by
  have balance := weight_balance stakes q part
  have gained : heldBy (stakes.map (weightGained q)) part ≤ deltaUp stakes q := heldBy_le _ _
  have ideal : heldBy (stakes.map (idealWeight q)) part ≤ secrecy * stakes.sum * 2 ^ 64 / q :=
    (heldBy_idealWeight_le stakes q part).trans (Nat.div_le_div_right (Nat.mul_le_mul_right _ held))
  unfold uncappedThreshold
  omega

/-- Validators that weigh nothing lose all their weight. -/
theorem lost_of_weightless (weightless : heldBy (stakes.map (roundedWeight q)) part = 0) :
    heldBy (stakes.map (idealWeight q)) part ≤ deltaDown stakes q := by
  have balance := weight_balance stakes q part
  have lost : heldBy (stakes.map (weightLost q)) part ≤ deltaDown stakes q := heldBy_le _ _
  omega

/-- The validators outside a part with at most two thirds of the stake weigh something, as long as
the stake gap is less than what they hold. -/
theorem others_weigh (shape : Stakes stakes)
    (shared : q = 2 ^ 64 ∨ q * stakes.length ≤ stakes.sum * 2 ^ 64) (one_le : 2 ^ 64 ≤ q)
    {fraction : Nat} (held : heldBy stakes part * 2 ^ 64 ≤ fraction * stakes.sum)
    (narrow : stakeGap stakes q + fraction + 1 < 2 ^ 64) :
    0 < heldBy (stakes.map (roundedWeight q)) (others stakes part) := by
  have staked := shape.staked
  have rest := heldBy_add_others stakes part
  refine pos_of_ne_zero fun weightless => ?_
  have holding : (2 ^ 64 - fraction) * stakes.sum ≤ heldBy stakes (others stakes part) * 2 ^ 64 := by
    rw [Nat.sub_mul]
    omega
  rcases shared with rfl | shared
  · -- a weight per unit of stake: the others hold nothing
    have same : stakes.map (roundedWeight (2 ^ 64)) = stakes := by
      rw [map_congr_left fun stake _ => roundedWeight_one, map_id']
    rw [same] at weightless
    rw [weightless, Nat.zero_mul, le_zero, Nat.mul_eq_zero] at holding
    omega
  have lost := lost_of_weightless weightless
  have ideal := le_heldBy_idealWeight (by omega : 0 < q) stakes (others stakes part)
  have wide : 2 ^ 64 - fraction - 1 ≤ stakeGap stakes q := by
    rw [stakeGap, le_div_iff_mul_le staked, le_div_iff_mul_le (by omega)]
    have lost_mul : heldBy (stakes.map (idealWeight q)) (others stakes part) * q ≤
        q * (deltaDown stakes q + deltaUp stakes q) := by
      rw [Nat.mul_comm]
      exact mul_le_mul_left q (lost.trans (le_add_right _ _))
    have cut : stakes.length * (q - 1) ≤ stakes.sum * 2 ^ 64 := by
      rw [Nat.mul_comm q] at shared
      exact (mul_le_mul_left _ (sub_le q 1)).trans shared
    have total : (2 ^ 64 - fraction) * stakes.sum * 2 ^ 64 ≤
        q * (deltaDown stakes q + deltaUp stakes q) + stakes.sum * 2 ^ 64 :=
      calc (2 ^ 64 - fraction) * stakes.sum * 2 ^ 64
          ≤ heldBy stakes (others stakes part) * 2 ^ 64 * 2 ^ 64 := Nat.mul_le_mul_right _ holding
        _ ≤ _ := ideal
        _ ≤ _ := Nat.add_le_add lost_mul cut
    rw [Nat.sub_one_mul, Nat.sub_mul]
    exact sub_le_of_le_add total
  omega

/-- A part with at most the secret fraction of the stake weighs less than the threshold. -/
theorem weight_lt_threshold (shape : Stakes stakes)
    (shared : q = 2 ^ 64 ∨ q * stakes.length ≤ stakes.sum * 2 ^ 64) (one_le : 2 ^ 64 ≤ q)
    {fraction : Nat} (narrow : stakeGap stakes q + fraction + 1 < 2 ^ 64)
    (held : heldBy stakes part * 2 ^ 64 ≤ fraction * stakes.sum) :
    heldBy (stakes.map (roundedWeight q)) part < weightThreshold stakes q fraction := by
  have outside := others_weigh shape shared one_le held narrow
  have whole := heldBy_add_others (stakes.map (roundedWeight q)) part
  rw [others, length_map, ← others] at whole
  exact Nat.lt_min.mpr ⟨by omega, weight_lt_uncapped held⟩

end

/-! ## The chosen profile -/

section

variable {stakes : List Nat} {secrecy reconstruct : U64F64} {fast : Option U64F64}

theorem triple_bits {fraction : U64F64} (low : fraction.bits < 2 ^ 64) :
    (fraction.mul (.ofNat 3)).bits = 3 * fraction.bits := by
  have cancel : fraction.bits * (3 * 2 ^ 64) / 2 ^ 64 = 3 * fraction.bits := by
    rw [← Nat.mul_assoc, Nat.mul_div_cancel _ (by omega), Nat.mul_comm]
  rw [Fixed.ofNat_eq, Fixed.mul]
  simp only [cancel]
  exact mod_eq_of_lt (by omega)

theorem refused_eq_none {totalWeightMax : Nat} (wide : stakes.length ≤ totalWeightMax)
    (range : ThresholdRange secrecy reconstruct fast) :
    DKGRoundingProfile.refused stakes stakes.length totalWeightMax secrecy reconstruct = none := by
  obtain ⟨low, apart, high, -⟩ := range
  rw [DKGRoundingProfile.refused, triple_bits (by omega), triple_bits (by omega)]
  rw [if_neg (lt_irrefl _), if_neg (wide.not_gt), if_neg (by omega), if_neg (by omega),
    if_neg (by omega)]

/-- The profile is always found by the search, for a weight of at least one per validator. -/
theorem chosenProfile_eq (shape : Stakes stakes) (few : stakes.length + 4 < 2 ^ 33)
    (range : ThresholdRange secrecy reconstruct fast) :
    ∃ weight, stakes.length ≤ weight ∧
      chosenProfile stakes secrecy reconstruct fast =
        some (profileOf stakes (perWeight stakes.sum weight) secrecy fast, none, .binarySearch) ∧
      isValidProfile (profileOf stakes (perWeight stakes.sum weight) secrecy fast) reconstruct =
        true := by
  obtain ⟨most, bounded, ordered, fits, halves⟩ := totalWeightUpperBound_eq few range
  have positive : 0 < stakes.length := by
    refine length_pos_iff.mpr fun empty => ?_
    have staked := shape.staked
    rw [empty] at staked
    exact absurd staked (lt_irrefl 0)
  obtain ⟨weight, weight_ge, settled, valid⟩ := DKGRoundingProfile.settle_valid
    (fun weight enough => ofWeight_eq shape range (positive.trans_le enough)) positive fits ordered
    (valid_of_halves range halves)
  have low := range.apart
  have high := range.reconstruct_high
  have larger : reconstruct.max ⟨secrecy.bits + 1⟩ = reconstruct := by
    obtain ⟨reconstruct⟩ := reconstruct
    rw [Fixed.max_mk]
    exact congrArg Fixed.mk (max_eq_left (by simp only at low; omega))
  have next : secrecy.add .delta = some ⟨secrecy.bits + 1⟩ :=
    Fixed.add_mk (by omega)
  have found : DKGRoundingProfile.new stakes stakes.length most secrecy reconstruct fast =
      some (.ok (profileOf stakes (perWeight stakes.sum weight) secrecy fast)) := by
    rw [DKGRoundingProfile.new, refused_eq_none ordered range]
    dsimp only
    rw [DKGRoundingProfile.newChecked, sum64_eq shape.small, some_bind, settled, some_bind,
      if_pos valid]
    rfl
  refine ⟨weight, weight_ge, ?_, valid⟩
  rw [chosenProfile, next, some_bind, larger, bounded, some_bind, totalWeightLowerBound, found]
  rfl

theorem WeightedConfig.new_isSome {threshold : Nat} {weights : List Nat} (positive : 0 < threshold)
    (reached : threshold ≤ weights.sum) (small : weights.sum < 2 ^ 64) :
    ∃ wconfig, WeightedConfig.new threshold weights = some wconfig := by
  cases weights with
  | nil => exact absurd (positive.trans_le reached) (lt_irrefl 0)
  | cons weight weights =>
    have total : sum64 (weight :: weights) = some (weight :: weights).sum := sum64_eq small
    rw [WeightedConfig.new, total, guard_bind positive.ne']
    simp only [max?_cons', min?_cons', bind_eq_bind, bind_some]
    rw [← bind_eq_bind, guard_bind (positive.trans_le reached).ne', guard_bind reached]
    exact ⟨_, rfl⟩

end

/-! ## What is promised -/

/-- A part with at most the fraction of the stake weighs less than the threshold. -/
def KeepsSecret (stakes weights : List Nat) (fraction : U64F64) (threshold : Nat) : Prop :=
  ∀ part : Finset Nat, heldBy stakes part * 2 ^ 64 ≤ fraction.bits * stakes.sum →
    heldBy weights part < threshold

/-! ## Secrecy of the chosen profile -/

section

variable {stakes : List Nat} {secrecy reconstruct : U64F64} {fast : Option U64F64}

/-- Valid profiles of at least one weight per validator keep every fraction of at most two thirds
secret. -/
theorem keepsSecret_of_valid (shape : Stakes stakes)
    (range : ThresholdRange secrecy reconstruct fast) {weight : Nat}
    (enough : stakes.length ≤ weight)
    (valid : isValidProfile (profileOf stakes (perWeight stakes.sum weight) secrecy fast)
      reconstruct = true)
    {fraction : U64F64} (low : 3 * fraction.bits ≤ 2 * 2 ^ 64) :
    KeepsSecret stakes (stakes.map (roundedWeight (perWeight stakes.sum weight))) fraction
      (weightThreshold stakes (perWeight stakes.sum weight) fraction.bits) := by
  intro part held
  have narrow := (isValidProfile_profileOf.mp valid).1
  obtain ⟨secrecy_low, apart, reconstruct_high, -⟩ := range
  have shared := (perWeight_cases stakes.sum weight).imp_right fun whole =>
    (mul_le_mul_left (perWeight stakes.sum weight) enough).trans whole
  exact weight_lt_threshold shape shared (one_le_perWeight _ _) (by omega) held

theorem KeepsSecret.positive {weights : List Nat} {fraction : U64F64} {threshold : Nat}
    (secret : KeepsSecret stakes weights fraction threshold) : 0 < threshold :=
  secret ∅ (by rw [heldBy, Finset.sum_empty]; exact zero_le _)

/-- A profile whose thresholds are positive makes its weighted configurations. -/
theorem new_of_chosenProfile {profile : DKGRoundingProfile} {error : Option RoundingError}
    {method : RoundingMethod} (small : profile.validatorWeights.sum < 2 ^ 64)
    (chosen : chosenProfile stakes secrecy reconstruct fast =
      some (profile, error, method))
    (reached : 0 < profile.reconstructThresholdInWeights ∧
      profile.reconstructThresholdInWeights ≤ profile.validatorWeights.sum)
    (fast_reached : ∀ threshold ∈ profile.fastReconstructThresholdInWeights,
      0 < threshold ∧ threshold ≤ profile.validatorWeights.sum) :
    ∃ rounding, new stakes secrecy reconstruct fast = some rounding ∧
      rounding.profile = profile := by
  obtain ⟨wconfig, configured⟩ := WeightedConfig.new_isSome reached.1 reached.2 small
  have fast_configured : ∃ fastWconfig, profile.fastReconstructThresholdInWeights.mapM
      (fun threshold => WeightedConfig.new threshold profile.validatorWeights) =
        some fastWconfig := by
    cases equation : profile.fastReconstructThresholdInWeights with
    | none => exact ⟨none, rfl⟩
    | some threshold =>
      obtain ⟨positive, bounded⟩ := fast_reached threshold equation
      obtain ⟨fastWconfig, configured⟩ := WeightedConfig.new_isSome positive bounded small
      exact ⟨some fastWconfig, by rw [Option.mapM_some, configured]; rfl⟩
  obtain ⟨fastWconfig, fast_configured⟩ := fast_configured
  refine ⟨⟨method, profile, wconfig, fastWconfig, error⟩, ?_, rfl⟩
  rw [new, chosen, some_bind]
  simp only [configured, fast_configured]
  rfl

/-- With fewer than `2 ^ 33 - 4` validators a rounding is made, by a valid profile. -/
theorem new_eq (shape : Stakes stakes) (few : stakes.length + 4 < 2 ^ 33)
    (range : ThresholdRange secrecy reconstruct fast) :
    ∃ weight rounding, stakes.length ≤ weight ∧
      isValidProfile (profileOf stakes (perWeight stakes.sum weight) secrecy fast) reconstruct =
        true ∧
      DKGRounding.new stakes secrecy reconstruct fast = some rounding ∧
      rounding.profile = profileOf stakes (perWeight stakes.sum weight) secrecy fast := by
  obtain ⟨weight, enough, chosen, valid⟩ := chosenProfile_eq shape few range
  have positive := fun (fraction : U64F64) (low : 3 * fraction.bits ≤ 2 * 2 ^ 64) =>
    (keepsSecret_of_valid shape range enough valid low).positive
  have weights_small : (stakes.map (roundedWeight (perWeight stakes.sum weight))).sum < 2 ^ 64 :=
    (sum_roundedWeight_le (one_le_perWeight _ _)).trans_lt shape.small
  have fast_reached : ∀ threshold ∈
      (profileOf stakes (perWeight stakes.sum weight) secrecy fast).fastReconstructThresholdInWeights,
      0 < threshold ∧
        threshold ≤ (stakes.map (roundedWeight (perWeight stakes.sum weight))).sum := by
    intro threshold mem
    obtain ⟨fraction, given, rfl⟩ := map_eq_some_iff.mp mem
    exact ⟨positive fraction (range.fast_range fraction given).2, min_le_left _ _⟩
  obtain ⟨rounding, made, same⟩ := new_of_chosenProfile weights_small chosen
    ⟨positive secrecy range.secrecy_high, min_le_left _ _⟩ fast_reached
  exact ⟨weight, rounding, enough, valid, made, same⟩

/-- Secrecy survives rounding: with fewer than `2 ^ 33 - 4` validators a part with at most the
secret fraction of the stake weighs less than the threshold, on both paths. -/
theorem rounding_keepsSecret (few : stakes.length + 4 < 2 ^ 33) (staked : 0 < stakes.sum)
    (small : stakes.sum < 2 ^ 64) (range : ThresholdRange secrecy reconstruct fast) :
    ∃ rounding, DKGRounding.new stakes secrecy reconstruct fast = some rounding ∧
      KeepsSecret stakes rounding.profile.validatorWeights secrecy
        rounding.profile.reconstructThresholdInWeights ∧
      ∀ fraction ∈ fast, ∃ threshold ∈ rounding.profile.fastReconstructThresholdInWeights,
        KeepsSecret stakes rounding.profile.validatorWeights fraction threshold := by
  have shape : Stakes stakes := ⟨staked, small, by omega⟩
  obtain ⟨weight, rounding, enough, valid, made, same⟩ := new_eq shape few range
  have secret := fun (fraction : U64F64) (low : 3 * fraction.bits ≤ 2 * 2 ^ 64) =>
    keepsSecret_of_valid shape range enough valid low
  refine ⟨rounding, made, same ▸ secret secrecy range.secrecy_high, fun fraction given => ?_⟩
  rw [same]
  exact ⟨_, map_eq_some_iff.mpr ⟨fraction, given, rfl⟩,
    secret fraction (range.fast_range fraction given).2⟩

end

theorem rounding_keepsSecret_three : ∃ rounding,
    DKGRounding.new [1, 4, 5] ⟨2 ^ 63⟩ ⟨12297829382473034410⟩ (some ⟨12297829382473034410⟩) =
      some rounding ∧
    KeepsSecret [1, 4, 5] rounding.profile.validatorWeights ⟨2 ^ 63⟩
      rounding.profile.reconstructThresholdInWeights :=
  have range : ThresholdRange ⟨2 ^ 63⟩ ⟨12297829382473034410⟩ (some ⟨12297829382473034410⟩) :=
    ⟨by decide, by decide, by decide, fun threshold given => by cases given; decide⟩
  let ⟨rounding, made, secret, _⟩ := rounding_keepsSecret (by decide : [1, 4, 5].length + 4 < 2 ^ 33)
    (by decide) (by decide) range
  ⟨rounding, made, secret⟩

/-! ## A crowd of validators

With `2 ^ 33 - 2` validators the upper bound of the whole weight wraps around to `2 ^ 32`, less
than one weight per validator.  The fallback gives all weight to the one validator with half of the
stake, who alone reaches the capped threshold. -/

namespace Crowd

/-- One validator with half of the stake, and as many others with one unit each. -/
def stakes (others : Nat) : List Nat := others :: List.replicate others 1

def secrecy : U64F64 := ⟨2 ^ 63⟩

def reconstruct : U64F64 := ⟨2 ^ 63 + 2 ^ 32⟩

/-- The bits of the stake per weight the fallback comes to. -/
def stakePerWeight : Nat := 2 ^ 66 - 6 * 2 ^ 32

section

variable {others : Nat}

theorem length_eq : (stakes others).length = others + 1 := by
  rw [stakes, length_cons, length_replicate]

theorem sum_eq : (stakes others).sum = 2 * others := by
  rw [stakes, sum_cons, sum_replicate, smul_eq_mul, mul_one, two_mul]

section

variable (many : others = 2 ^ 33 - 3)

include many

theorem upperBound_eq :
    totalWeightUpperBound (stakes others) reconstruct secrecy = some (2 ^ 32) := by
  rw [totalWeightUpperBound, length_eq, many]
  decide

theorem refused_eq :
    DKGRoundingProfile.new (stakes others) (stakes others).length (2 ^ 32) secrecy reconstruct none =
      some (.error .totalWeightMaxBelowMin) := by
  have refused : DKGRoundingProfile.refused (stakes others) (stakes others).length (2 ^ 32) secrecy
      reconstruct = some .totalWeightMaxBelowMin := by
    rw [DKGRoundingProfile.refused, length_eq, if_neg (by omega), if_pos (by omega)]
  rw [DKGRoundingProfile.new, refused]

theorem infallible_eq :
    DKGRoundingProfile.infallible (stakes others) secrecy reconstruct none =
      some (profileOf (stakes others) stakePerWeight secrecy none) := by
  have shape : Stakes (stakes others) :=
    ⟨by rw [sum_eq]; omega, by rw [sum_eq]; omega, by rw [length_eq]; omega⟩
  have lower : .min (.ofNat 1) secrecy = secrecy := by decide
  have upper : secrecy.max (.min (.ofNat 1) reconstruct) = reconstruct := by decide
  have quotient : (.ofNat (2 * others) : U64F64).div (.ofNat (2 ^ 32)) =
      some ⟨stakePerWeight⟩ := by
    rw [many]
    decide
  rw [DKGRoundingProfile.infallible, lower, upper, sum64_eq shape.small, some_bind,
    upperBound_eq many, some_bind, sum_eq, quotient]
  exact shape.computeProfileFixedPoint_eq (by decide) (by decide) nofun

theorem weights_eq :
    (stakes others).map (roundedWeight stakePerWeight) = 2 ^ 31 :: List.replicate others 0 := by
  have first : roundedWeight stakePerWeight others = 2 ^ 31 := by
    rw [many]
    decide
  have each : roundedWeight stakePerWeight 1 = 0 := by decide
  rw [stakes, map_cons, map_replicate, first, each]

theorem weight_eq : ((stakes others).map (roundedWeight stakePerWeight)).sum = 2 ^ 31 := by
  rw [weights_eq many, sum_cons, sum_replicate, smul_eq_mul, mul_zero, add_zero]

theorem chosenProfile_eq :
    chosenProfile (stakes others) secrecy reconstruct none =
      some (profileOf (stakes others) stakePerWeight secrecy none, some .totalWeightMaxBelowMin,
        .infallible) := by
  have next : secrecy.add .delta = some ⟨2 ^ 63 + 1⟩ := by decide
  have larger : reconstruct.max ⟨2 ^ 63 + 1⟩ = reconstruct := by decide
  rw [chosenProfile, next, some_bind, larger, upperBound_eq many, some_bind, totalWeightLowerBound,
    refused_eq many, some_bind, orInfallible,
    infallible_eq many]
  rfl

/-- The validator with half of the stake weighs as much as everybody. -/
theorem not_keepsSecret :
    ¬ KeepsSecret (stakes others) ((stakes others).map (roundedWeight stakePerWeight)) secrecy
      (weightThreshold (stakes others) stakePerWeight secrecy.bits) := by
  intro secret
  have held : heldBy (stakes others) {0} * 2 ^ 64 ≤ secrecy.bits * (stakes others).sum := by
    have half : secrecy.bits = 2 ^ 63 := rfl
    rw [heldBy, Finset.sum_singleton, sum_eq, half, stakes, getD_cons_zero]
    omega
  have weighs : heldBy ((stakes others).map (roundedWeight stakePerWeight)) {0} = 2 ^ 31 := by
    rw [heldBy, Finset.sum_singleton, weights_eq many, getD_cons_zero]
  have lighter := (secret {0} held).trans_le (min_le_left _ _)
  rw [weighs, weight_eq many] at lighter
  exact lt_irrefl _ lighter

theorem rounding_reveals : ∃ rounding,
    new (stakes others) secrecy reconstruct none = some rounding ∧
      ¬ KeepsSecret (stakes others) rounding.profile.validatorWeights secrecy
        rounding.profile.reconstructThresholdInWeights := by
  have threshold_pos : 0 < weightThreshold (stakes others) stakePerWeight secrecy.bits :=
    Nat.lt_min.mpr ⟨by rw [weight_eq many]; decide, succ_pos _⟩
  obtain ⟨rounding, made, same⟩ := new_of_chosenProfile
    (show ((stakes others).map (roundedWeight stakePerWeight)).sum < 2 ^ 64 by
      rw [weight_eq many]; decide)
    (chosenProfile_eq many) ⟨threshold_pos, min_le_left _ _⟩ nofun
  exact ⟨rounding, made, same ▸ not_keepsSecret many⟩

end

end

end Crowd

/-- `rounding_keepsSecret` does need its limit on the number of validators. -/
theorem crowd_reveals :
    0 < (Crowd.stakes (2 ^ 33 - 3)).sum ∧ (Crowd.stakes (2 ^ 33 - 3)).sum < 2 ^ 64 ∧
    ThresholdRange Crowd.secrecy Crowd.reconstruct none ∧
    ∃ rounding, DKGRounding.new (Crowd.stakes (2 ^ 33 - 3)) Crowd.secrecy Crowd.reconstruct none =
        some rounding ∧
      ¬ KeepsSecret (Crowd.stakes (2 ^ 33 - 3)) rounding.profile.validatorWeights Crowd.secrecy
        rounding.profile.reconstructThresholdInWeights :=
  ⟨by rw [Crowd.sum_eq]; decide, by rw [Crowd.sum_eq]; decide,
    ⟨by decide, by decide, by decide, nofun⟩, Crowd.rounding_reveals rfl⟩

end CreditChain
