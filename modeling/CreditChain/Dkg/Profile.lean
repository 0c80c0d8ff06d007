import CreditChain.Dkg.Rounding

/-!
# The profile of a stake per weight

As long as a weight is worth at least one unit of stake, no step of `computeProfileFixedPoint`
fails or wraps around.  `computeProfileFixedPoint_eq` gives its result in closed form, over the
bits of the fixed-point numbers:

* a stake has an ideal weight, and rounding it to the nearest integer loses or gains at most one
  half;
* the threshold is the secret weight with everything gained, rounded up, and one more;
* the gap is the stake of everything lost or gained, as a fraction of the whole stake.
-/

namespace CreditChain

open Fixed Option

/-! ## Rounding one stake -/

variable (stakePerWeight stake : Nat)

/-- The bits of the weight before it is rounded. -/
def idealWeight : Nat := stake * 2 ^ 64 * 2 ^ 64 / stakePerWeight

def roundedWeight : Nat := nearest (2 ^ 63) (idealWeight stakePerWeight stake)

def weightLost : Nat := lost (2 ^ 63) (idealWeight stakePerWeight stake)

def weightGained : Nat := gained (2 ^ 63) (idealWeight stakePerWeight stake)

open RoundedStakes

section

variable {q stake : Nat}

private theorem two_halves : 2 * 2 ^ 63 = 2 ^ 64 := by norm_num

theorem roundedWeight_eq (q stake : Nat) :
    roundedWeight q stake = (idealWeight q stake + 2 ^ 63) / 2 ^ 64 := by
  rw [roundedWeight, nearest, two_halves]

theorem weightLost_eq (q stake : Nat) :
    weightLost q stake = idealWeight q stake - roundedWeight q stake * 2 ^ 64 := by
  rw [weightLost, lost, two_halves, roundedWeight]

theorem weightGained_eq (q stake : Nat) :
    weightGained q stake = roundedWeight q stake * 2 ^ 64 - idealWeight q stake := by
  rw [weightGained, gained, two_halves, roundedWeight]

theorem idealWeight_le (one_le : 2 ^ 64 ≤ q) : idealWeight q stake ≤ stake * 2 ^ 64 := by
  calc idealWeight q stake ≤ stake * 2 ^ 64 * 2 ^ 64 / 2 ^ 64 := Nat.div_le_div_left one_le (by omega)
    _ = stake * 2 ^ 64 := Nat.mul_div_cancel _ (by omega)

@[simp] theorem idealWeight_zero : idealWeight q 0 = 0 := by simp [idealWeight]

@[simp] theorem roundedWeight_zero : roundedWeight q 0 = 0 := by
  rw [roundedWeight, idealWeight_zero, nearest_zero (by omega)]

@[simp] theorem weightLost_zero : weightLost q 0 = 0 := by
  rw [weightLost, idealWeight_zero, lost, Nat.zero_sub]

@[simp] theorem weightGained_zero : weightGained q 0 = 0 := by
  rw [weightGained, idealWeight_zero, gained, nearest_zero (by omega), Nat.zero_mul]

theorem roundedWeight_le (one_le : 2 ^ 64 ≤ q) : roundedWeight q stake ≤ stake :=
  nearest_le (by omega) (by rw [two_halves]; exact idealWeight_le one_le)

/-- A weight per unit of stake: nothing is rounded. -/
theorem roundedWeight_one : roundedWeight (2 ^ 64) stake = stake := by
  rw [roundedWeight, idealWeight, Nat.mul_div_cancel _ (by omega), ← two_halves]
  exact nearest_mul (by omega) stake

theorem weightError_one : weightLost (2 ^ 64) stake + weightGained (2 ^ 64) stake = 0 := by
  have exact : idealWeight (2 ^ 64) stake = stake * 2 ^ 64 := Nat.mul_div_cancel _ (by omega)
  rw [weightLost_eq, weightGained_eq, roundedWeight_one, exact, Nat.sub_self]

theorem weightError_le (q stake : Nat) : weightLost q stake + weightGained q stake ≤ 2 ^ 63 := by
  rw [add_comm]
  exact gained_add_lost_le (by omega) (idealWeight q stake)

theorem weightError_le_idealWeight (q stake : Nat) :
    weightLost q stake + weightGained q stake ≤ idealWeight q stake := by
  rw [add_comm]
  exact gained_add_lost_le_self (by omega) (idealWeight q stake)

/-- What one stake adds to the variables of the loop. -/
def RoundedStakes.after (rounded : RoundedStakes) (q stake : Nat) : RoundedStakes :=
  ⟨rounded.validatorWeights ++ [roundedWeight q stake],
    ⟨rounded.deltaDown.bits + weightLost q stake⟩, ⟨rounded.deltaUp.bits + weightGained q stake⟩⟩

variable {rounded : RoundedStakes}

theorem push_eq (down : rounded.deltaDown.bits + 2 ^ 63 < 2 ^ 128)
    (up : rounded.deltaUp.bits + 2 ^ 63 < 2 ^ 128) :
    rounded.push ⟨idealWeight q stake⟩ ⟨roundedWeight q stake * 2 ^ 64⟩ =
      some (rounded.after q stake) := by
  obtain ⟨weights, ⟨lostBefore⟩, ⟨gainedBefore⟩⟩ := rounded
  simp only at down up
  have error := weightError_le q stake
  have loss := weightLost_eq q stake
  have gain := weightGained_eq q stake
  unfold push after
  rw [toNat_mk]
  generalize idealWeight q stake = ideal at *
  generalize roundedWeight q stake * 2 ^ 64 = whole at *
  by_cases lower : whole < ideal
  · have none_gained : weightGained q stake = 0 := by omega
    rw [if_pos lower, sub_mk lower.le, ← loss, none_gained]
    rw [some_bind, add_mk (by omega)]
    rfl
  · have none_lost : weightLost q stake = 0 := by omega
    rw [if_neg lower, sub_mk (not_lt.mp lower), ← gain, none_lost]
    rw [some_bind, add_mk (by omega)]
    rfl

theorem roundStake_eq (one_le : 2 ^ 64 ≤ q) (small : stake < 2 ^ 64)
    (down : rounded.deltaDown.bits + 2 ^ 63 < 2 ^ 128)
    (up : rounded.deltaUp.bits + 2 ^ 63 < 2 ^ 128) :
    roundStake ⟨q⟩ rounded stake = some (rounded.after q stake) := by
  have ideal_le : idealWeight q stake ≤ stake * 2 ^ 64 := idealWeight_le one_le
  have fits : stake * 2 ^ 64 * 2 ^ 64 / q < 2 ^ 128 := by rw [← idealWeight]; omega
  rw [roundStake, ofNat_eq, div_mk (by omega) fits, ← idealWeight, some_bind, add_mk (by omega),
    some_bind, floor_mk, ← roundedWeight_eq]
  exact push_eq down up

end

/-! ## All stakes -/

variable (stakes : List Nat) (stakePerWeight : Nat)

def deltaDown : Nat := (stakes.map (weightLost stakePerWeight)).sum

def deltaUp : Nat := (stakes.map (weightGained stakePerWeight)).sum

section

variable {stakes : List Nat} {q : Nat}

theorem delta_cons (stake : Nat) :
    deltaDown (stake :: stakes) q + deltaUp (stake :: stakes) q =
      weightLost q stake + weightGained q stake + (deltaDown stakes q + deltaUp stakes q) := by
  simp only [deltaDown, deltaUp, List.map_cons, List.sum_cons]
  omega

theorem delta_le (stakes : List Nat) (q : Nat) :
    deltaDown stakes q + deltaUp stakes q ≤ stakes.length * 2 ^ 63 := by
  induction stakes with
  | nil => exact le_refl 0
  | cons stake stakes ih =>
    rw [delta_cons, List.length_cons]
    have error := weightError_le q stake
    omega

theorem delta_one (stakes : List Nat) :
    deltaDown stakes (2 ^ 64) + deltaUp stakes (2 ^ 64) = 0 := by
  induction stakes with
  | nil => rfl
  | cons stake stakes ih => rw [delta_cons, ih, weightError_one]

/-- The stake behind everything lost or gained is at most the whole stake. -/
theorem delta_mul_le (stakes : List Nat) (q : Nat) :
    q * (deltaDown stakes q + deltaUp stakes q) ≤ stakes.sum * 2 ^ 64 * 2 ^ 64 := by
  induction stakes with
  | nil => exact le_of_eq (by simp [deltaDown, deltaUp])
  | cons stake stakes ih =>
    have error : q * (weightLost q stake + weightGained q stake) ≤ stake * 2 ^ 64 * 2 ^ 64 :=
      calc q * (weightLost q stake + weightGained q stake)
          ≤ q * idealWeight q stake := Nat.mul_le_mul_left q (weightError_le_idealWeight q stake)
        _ ≤ stake * 2 ^ 64 * 2 ^ 64 := Nat.mul_div_le _ q
    rw [delta_cons, mul_add, List.sum_cons, add_mul, add_mul]
    exact add_le_add error ih

theorem delta_mul_div_le (stakes : List Nat) (q : Nat) :
    q * (deltaDown stakes q + deltaUp stakes q) / 2 ^ 64 ≤ stakes.sum * 2 ^ 64 := by
  rw [Nat.div_le_iff_le_mul (by omega)]
  exact (delta_mul_le stakes q).trans (by omega)

theorem sum_roundedWeight_le (one_le : 2 ^ 64 ≤ q) :
    (stakes.map (roundedWeight q)).sum ≤ stakes.sum := by
  induction stakes with
  | nil => exact le_refl 0
  | cons stake stakes ih =>
    exact add_le_add (roundedWeight_le one_le) ih

/-- The loop over the stakes, from any state with room for one half per stake. -/
theorem roundStakes_eq (one_le : 2 ^ 64 ≤ q) (small : ∀ stake ∈ stakes, stake < 2 ^ 64)
    (rounded : RoundedStakes)
    (down : rounded.deltaDown.bits + stakes.length * 2 ^ 63 < 2 ^ 128)
    (up : rounded.deltaUp.bits + stakes.length * 2 ^ 63 < 2 ^ 128) :
    stakes.foldlM (roundStake ⟨q⟩) rounded = some
      ⟨rounded.validatorWeights ++ stakes.map (roundedWeight q),
        ⟨rounded.deltaDown.bits + deltaDown stakes q⟩,
        ⟨rounded.deltaUp.bits + deltaUp stakes q⟩⟩ := by
  induction stakes generalizing rounded with
  | nil =>
    rw [List.foldlM_nil, List.map_nil, List.append_nil]
    rfl
  | cons stake stakes ih =>
    have error := weightError_le q stake
    rw [List.length_cons] at down up
    rw [List.foldlM_cons, roundStake_eq one_le (small stake List.mem_cons_self) (by omega) (by omega),
      some_bind]
    rw [ih (fun other mem => small other (List.mem_cons_of_mem _ mem)) _
      (by simp only [after]; omega) (by simp only [after]; omega)]
    simp only [after, deltaDown, deltaUp, List.map_cons, List.sum_cons, List.append_assoc,
      List.singleton_append, add_assoc]

end

/-! ## The profile -/

/-- The threshold before it is cut down to the whole weight. -/
def uncappedThreshold (stakePerWeight secrecyThreshold : Nat) : Nat :=
  (secrecyThreshold * stakes.sum * 2 ^ 64 / stakePerWeight + deltaUp stakes stakePerWeight +
    (2 ^ 64 - 1)) / 2 ^ 64 + 1

def weightThreshold (stakePerWeight secrecyThreshold : Nat) : Nat :=
  min (stakes.map (roundedWeight stakePerWeight)).sum
    (uncappedThreshold stakes stakePerWeight secrecyThreshold)

def stakeGap : Nat :=
  stakePerWeight * (deltaDown stakes stakePerWeight + deltaUp stakes stakePerWeight) / 2 ^ 64 /
    stakes.sum

def profileOf (secrecyThreshold : U64F64) (fastSecrecyThreshold : Option U64F64) :
    DKGRoundingProfile where
  validatorWeights := stakes.map (roundedWeight stakePerWeight)
  secrecyThresholdInStakeRatio := secrecyThreshold
  reconstructThresholdInStakeRatio := ⟨secrecyThreshold.bits + stakeGap stakes stakePerWeight⟩
  reconstructThresholdInWeights := weightThreshold stakes stakePerWeight secrecyThreshold.bits
  fastReconstructThresholdInStakeRatio :=
    fastSecrecyThreshold.map fun fast => ⟨fast.bits + stakeGap stakes stakePerWeight⟩
  fastReconstructThresholdInWeights :=
    fastSecrecyThreshold.map fun fast => weightThreshold stakes stakePerWeight fast.bits

theorem stakeGap_le (stakes : List Nat) (stakePerWeight : Nat) :
    stakeGap stakes stakePerWeight ≤ 2 ^ 64 :=
  Nat.div_le_of_le_mul (delta_mul_div_le stakes stakePerWeight)

/-- Stakes a profile is computed for: some stake, and all of it fits a word.  A vector has fewer
than `2 ^ 63` entries. -/
structure Stakes (stakes : List Nat) : Prop where
  staked : 0 < stakes.sum
  small : stakes.sum < 2 ^ 64
  few : stakes.length < 2 ^ 63

namespace Stakes

variable {stakes : List Nat} {q : Nat}

section

variable (shape : Stakes stakes)

include shape

theorem each_small : ∀ stake ∈ stakes, stake < 2 ^ 64 :=
  fun _ mem => (List.le_sum_of_mem mem).trans_lt shape.small

theorem threshold_eq (one_le : 2 ^ 64 ≤ q) {secrecy : U64F64} (low : 3 * secrecy.bits ≤ 2 ^ 65) :
    thresholdInWeights secrecy (ofNat stakes.sum) ⟨q⟩ ⟨deltaUp stakes q⟩
        (stakes.map (roundedWeight q)).sum =
      some (weightThreshold stakes q secrecy.bits) := by
  obtain ⟨secrecy⟩ := secrecy
  simp only at low ⊢
  have staked_le : secrecy * stakes.sum ≤ secrecy * 2 ^ 64 := Nat.mul_le_mul_left _ shape.small.le
  have secret_le : secrecy * stakes.sum * 2 ^ 64 / q ≤ secrecy * stakes.sum :=
    Nat.div_le_of_le_mul (by rw [mul_comm q]; exact Nat.mul_le_mul_left _ one_le)
  have delta := delta_le stakes q
  have few := shape.few
  have cancel : secrecy * (stakes.sum * 2 ^ 64) / 2 ^ 64 = secrecy * stakes.sum := by
    rw [← mul_assoc, Nat.mul_div_cancel _ (by omega)]
  unfold weightThreshold uncappedThreshold thresholdInWeights
  rw [ofNat_eq, mul_mk (by omega), cancel, div_mk (by omega) (by omega)]
  rw [some_bind, add_mk (by omega), some_bind,
    ceil_mk (by omega), ofNat_eq, add_mk (by omega), some_bind,
    ← add_mul, toNat_mk]
  rfl

theorem gap_eq :
    (mul ⟨q⟩ ⟨deltaDown stakes q + deltaUp stakes q⟩ : U64F64).div
        (ofNat stakes.sum) = some ⟨stakeGap stakes q⟩ := by
  have behind : q * (deltaDown stakes q + deltaUp stakes q) / 2 ^ 64 ≤ stakes.sum * 2 ^ 64 :=
    delta_mul_div_le stakes q
  have small := shape.small
  have staked := shape.staked
  have cancel : q * (deltaDown stakes q + deltaUp stakes q) / 2 ^ 64 * 2 ^ 64 /
      (stakes.sum * 2 ^ 64) = stakeGap stakes q := Nat.mul_div_mul_right _ _ (by omega)
  have gap_le := stakeGap_le stakes q
  rw [mul_mk (by omega), ofNat_eq, div_mk (by omega) (by rw [cancel]; omega), cancel]

theorem roundStakes_start (one_le : 2 ^ 64 ≤ q) :
    stakes.foldlM (roundStake ⟨q⟩) ⟨[], ofNat 0, ofNat 0⟩ =
      some ⟨stakes.map (roundedWeight q), ⟨deltaDown stakes q⟩, ⟨deltaUp stakes q⟩⟩ := by
  have few := shape.few
  rw [ofNat_eq, Nat.zero_mul, roundStakes_eq one_le shape.each_small _ (by simp only; omega)
    (by simp only; omega), zero_add, zero_add, List.nil_append]

/-- `computeProfileFixedPoint` in closed form. -/
theorem computeProfileFixedPoint_eq (one_le : 2 ^ 64 ≤ q)
    {secrecy : U64F64} {fast : Option U64F64} (low : 3 * secrecy.bits ≤ 2 ^ 65)
    (fast_low : ∀ threshold ∈ fast, 3 * threshold.bits ≤ 2 ^ 65) :
    computeProfileFixedPoint stakes ⟨q⟩ secrecy fast = some (profileOf stakes q secrecy fast) := by
  have few := shape.few
  have delta := delta_le stakes q
  have gap := stakeGap_le stakes q
  have weights : sum64 (stakes.map (roundedWeight q)) = some (stakes.map (roundedWeight q)).sum :=
    sum64_eq ((sum_roundedWeight_le one_le).trans_lt shape.small)
  have ratio : ∀ threshold : U64F64, 3 * threshold.bits ≤ 2 ^ 65 →
      threshold.add ⟨stakeGap stakes q⟩ = some ⟨threshold.bits + stakeGap stakes q⟩ :=
    fun threshold small => add_mk (by omega)
  rw [computeProfileFixedPoint, sum64_eq shape.small, shape.roundStakes_start one_le]
  simp only [bind_eq_bind, bind_some]
  rw [weights, bind_some, add_mk (by omega), bind_some,
    shape.threshold_eq one_le low, bind_some, shape.gap_eq, bind_some,
    ratio secrecy low, bind_some]
  cases fast with
  | none => rfl
  | some threshold =>
    have small := fast_low threshold rfl
    rw [mapM_some, ratio threshold small, mapM_some, shape.threshold_eq one_le small]
    rfl

end

end Stakes

end CreditChain
