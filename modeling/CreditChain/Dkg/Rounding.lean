import CreditChain.Lib.FixedPoint
import CreditChain.Lib.Word64

/-!
# Weights of the validators in the distributed key generation

The stakes of the validators are rounded to weights with fixed-point numbers of 64 bits before and
64 bits behind the point.  `none` is a panic: a checked sum or difference that leaves its type, or
a division by zero.  Products, quotients and ceilings wrap around.

The evaluation domains of a weighted configuration are left out.
-/

namespace CreditChain

abbrev U64F64 : Type := Fixed 128 64

variable (validatorStakes : List Nat)

/-- `total_weight_lower_bound`: each validator has at least one weight. -/
def totalWeightLowerBound : Nat := validatorStakes.length

def totalWeightUpperBound (reconstructThreshold secrecyThreshold : U64F64) : Option Nat := do
  let above ← secrecyThreshold.add .delta
  let half ← (Fixed.ofNat validatorStakes.length).div (Fixed.ofNat 2)
  let numerator ← half.add (Fixed.ofNat 2)
  let gap ← (reconstructThreshold.max above).sub secrecyThreshold
  let estimate ← numerator.div gap
  return estimate.ceil.toNat

structure DKGRoundingProfile where
  validatorWeights : List Nat
  secrecyThresholdInStakeRatio : U64F64
  reconstructThresholdInStakeRatio : U64F64
  reconstructThresholdInWeights : Nat
  fastReconstructThresholdInStakeRatio : Option U64F64
  fastReconstructThresholdInWeights : Option Nat

/-- The variables of the loop over the stakes. -/
structure RoundedStakes where
  validatorWeights : List Nat
  deltaDown : U64F64
  deltaUp : U64F64

/-- The rest of a turn of the loop over the stakes, with the weight and its rounding. -/
def RoundedStakes.push (rounded : RoundedStakes) (idealWeight roundedWeight : U64F64) :
    Option RoundedStakes :=
  if roundedWeight.bits < idealWeight.bits then do
    let loss ← idealWeight.sub roundedWeight
    let deltaDown ← rounded.deltaDown.add loss
    return ⟨rounded.validatorWeights ++ [roundedWeight.toNat], deltaDown, rounded.deltaUp⟩
  else do
    let gain ← roundedWeight.sub idealWeight
    let deltaUp ← rounded.deltaUp.add gain
    return ⟨rounded.validatorWeights ++ [roundedWeight.toNat], rounded.deltaDown, deltaUp⟩

/-- One turn of the loop over the stakes. -/
def roundStake (stakePerWeight : U64F64) (rounded : RoundedStakes) (stake : Nat) :
    Option RoundedStakes := do
  let idealWeight ← (Fixed.ofNat stake).div stakePerWeight
  let raised ← idealWeight.add ⟨2 ^ 63⟩
  rounded.push idealWeight raised.floor

/-- The weight above every part of the validators with at most the fraction `secrecyThreshold` of
the stake, never more than the whole weight. -/
def thresholdInWeights (secrecyThreshold stakeSum stakePerWeight deltaUp : U64F64)
    (weightTotal : Nat) : Option Nat := do
  let secretWeight ← (secrecyThreshold.mul stakeSum).div stakePerWeight
  let threshold ← (← secretWeight.add deltaUp).ceil.add (.ofNat 1)
  return min weightTotal threshold.toNat

def computeProfileFixedPoint (stakePerWeight secrecyThreshold : U64F64)
    (maybeFastSecrecyThreshold : Option U64F64) : Option DKGRoundingProfile := do
  let stakeSum : U64F64 := .ofNat (← sum64 validatorStakes)
  let rounded ← validatorStakes.foldlM (roundStake stakePerWeight) ⟨[], .ofNat 0, .ofNat 0⟩
  let weightTotal ← sum64 rounded.validatorWeights
  let deltaTotal ← rounded.deltaDown.add rounded.deltaUp
  let thresholdOf := fun secrecy : U64F64 =>
    thresholdInWeights secrecy stakeSum stakePerWeight rounded.deltaUp weightTotal
  let reconstructThresholdInWeights ← thresholdOf secrecyThreshold
  let stakeGap ← (stakePerWeight.mul deltaTotal).div stakeSum
  let reconstructThresholdInStakeRatio ← secrecyThreshold.add stakeGap
  let fastReconstructThresholdInStakeRatio ← maybeFastSecrecyThreshold.mapM (·.add stakeGap)
  let fastReconstructThresholdInWeights ← maybeFastSecrecyThreshold.mapM thresholdOf
  return {
    validatorWeights := rounded.validatorWeights
    secrecyThresholdInStakeRatio := secrecyThreshold
    reconstructThresholdInStakeRatio
    reconstructThresholdInWeights
    fastReconstructThresholdInStakeRatio
    fastReconstructThresholdInWeights }

def isValidProfile (profile : DKGRoundingProfile) (reconstructThreshold : U64F64) : Bool :=
  profile.reconstructThresholdInStakeRatio.bits ≤ reconstructThreshold.bits &&
    profile.fastReconstructThresholdInStakeRatio.all (·.bits ≤ 2 ^ 64)

/-- Why no profile was found; the search names the range of weights it went through. -/
inductive RoundingError where
  | totalWeightMinBelowValidators
  | totalWeightMaxBelowMin
  | secrecyThresholdTooLow
  | thresholdsOutOfOrder
  | reconstructThresholdTooHigh
  | couldNotFindValidWeight (totalWeightMin totalWeightMax : Nat)

namespace DKGRoundingProfile

variable (validatorStakes : List Nat)

/-- The profile of a total weight the search tries. -/
def ofWeight (stakeTotal : Nat) (secrecyThreshold : U64F64) (fastSecrecyThreshold : Option U64F64)
    (weight : Nat) : Option DKGRoundingProfile := do
  let quotient ← (Fixed.ofNat stakeTotal).div (Fixed.ofNat weight)
  computeProfileFixedPoint validatorStakes ((Fixed.ofNat 1).max quotient) secrecyThreshold
    fastSecrecyThreshold

def weightMid (weightLow weightHigh : Nat) : Nat := weightLow + (weightHigh - weightLow) / 2

/-- The binary search for the least weight with a valid profile. -/
def search (profileOf : Nat → Option DKGRoundingProfile) (reconstructThreshold : U64F64) :
    Nat → Nat → Nat → DKGRoundingProfile → Option DKGRoundingProfile
  | 0, _, _, _ => none
  | fuel + 1, weightLow, weightHigh, bestProfile =>
    if weightLow ≤ weightHigh then do
      let profile ← profileOf (weightMid weightLow weightHigh)
      if isValidProfile profile reconstructThreshold then
        let weightHigh ← sub64 (weightMid weightLow weightHigh) 1
        search profileOf reconstructThreshold fuel weightLow weightHigh profile
      else
        let weightLow ← add64 (weightMid weightLow weightHigh) 1
        search profileOf reconstructThreshold fuel weightLow weightHigh bestProfile
    else
      some bestProfile

variable (totalWeightMin totalWeightMax : Nat)
  (secrecyThreshold reconstructThreshold : U64F64) (fastSecrecyThreshold : Option U64F64)

/-- What the checks of the thresholds refuse. -/
def refused : Option RoundingError :=
  if totalWeightMin < validatorStakes.length then some .totalWeightMinBelowValidators
  else if totalWeightMax < totalWeightMin then some .totalWeightMaxBelowMin
  else if (secrecyThreshold.mul (.ofNat 3)).bits ≤ 2 ^ 64 then some .secrecyThresholdTooLow
  else if reconstructThreshold.bits ≤ secrecyThreshold.bits then some .thresholdsOutOfOrder
  else if 2 * 2 ^ 64 < (reconstructThreshold.mul (.ofNat 3)).bits then
    some .reconstructThresholdTooHigh
  else none

/-- The profile the search settles on, valid or not: that of the least weight if it is valid, else
the best of the binary search. -/
def settle (profileOf : Nat → Option DKGRoundingProfile) (reconstructThreshold : U64F64)
    (totalWeightMin totalWeightMax : Nat) : Option DKGRoundingProfile := do
  let bestProfile ← profileOf totalWeightMin
  if isValidProfile bestProfile reconstructThreshold then
    return bestProfile
  else
    -- the range loses a weight in every turn
    search profileOf reconstructThreshold (totalWeightMax + 2 - totalWeightMin) totalWeightMin
      totalWeightMax bestProfile

/-- `DKGRoundingProfile::new` after its checks. -/
def newChecked : Option (Except RoundingError DKGRoundingProfile) := do
  let stakeTotal ← sum64 validatorStakes
  let profile ← settle (ofWeight validatorStakes stakeTotal secrecyThreshold fastSecrecyThreshold)
    reconstructThreshold totalWeightMin totalWeightMax
  if isValidProfile profile reconstructThreshold then
    return .ok profile
  else
    return .error (.couldNotFindValidWeight totalWeightMin totalWeightMax)

def new : Option (Except RoundingError DKGRoundingProfile) :=
  match refused validatorStakes totalWeightMin totalWeightMax secrecyThreshold
      reconstructThreshold with
  | some reason => some (.error reason)
  | none =>
    newChecked validatorStakes totalWeightMin totalWeightMax secrecyThreshold reconstructThreshold
      fastSecrecyThreshold

def infallible : Option DKGRoundingProfile := do
  let secrecyThreshold := .min (.ofNat 1) secrecyThreshold
  let reconstructThreshold := secrecyThreshold.max (.min (.ofNat 1) reconstructThreshold)
  let stakeTotal ← sum64 validatorStakes
  let estimatedWeightTotal ←
    totalWeightUpperBound validatorStakes reconstructThreshold secrecyThreshold
  let stakePerWeight ← (Fixed.ofNat stakeTotal).div (Fixed.ofNat estimatedWeightTotal)
  computeProfileFixedPoint validatorStakes stakePerWeight secrecyThreshold fastSecrecyThreshold

end DKGRoundingProfile

/-- A threshold weight out of the weights of the players. -/
structure WeightedConfig where
  thresholdWeight : Nat
  totalWeight : Nat
  weight : List Nat
  startingIndex : List Nat
  maxWeight : Nat
  minWeight : Nat

/-- `WeightedConfig::new(..).unwrap()`. -/
def WeightedConfig.new (thresholdWeight : Nat) (weights : List Nat) : Option WeightedConfig := do
  guard (thresholdWeight ≠ 0)
  let maxWeight ← weights.max?
  let minWeight ← weights.min?
  let totalWeight ← sum64 weights
  guard (totalWeight ≠ 0)
  guard (thresholdWeight ≤ totalWeight)
  return {
    thresholdWeight
    totalWeight
    weight := weights
    startingIndex := weights.dropLast.scanl (· + ·) 0
    maxWeight
    minWeight }

inductive RoundingMethod where
  | binarySearch
  | infallible

structure DKGRounding where
  roundingMethod : RoundingMethod
  profile : DKGRoundingProfile
  wconfig : WeightedConfig
  fastWconfig : Option WeightedConfig
  roundingError : Option RoundingError

namespace DKGRounding

variable (validatorStakes : List Nat)
  (secrecyThreshold reconstructThreshold : U64F64) (fastSecrecyThreshold : Option U64F64)

/-- The fallback if no profile was found, with the method the profile was found by. -/
def orInfallible : Except RoundingError DKGRoundingProfile → Option
    (DKGRoundingProfile × Option RoundingError × RoundingMethod)
  | .ok profile => some (profile, none, .binarySearch)
  | .error reason => do
    let profile ← DKGRoundingProfile.infallible validatorStakes secrecyThreshold
      reconstructThreshold fastSecrecyThreshold
    return (profile, some reason, .infallible)

/-- The profile of `DKGRounding::new`. -/
def chosenProfile : Option (DKGRoundingProfile × Option RoundingError × RoundingMethod) := do
  let above ← secrecyThreshold.add .delta
  let totalWeightMax ←
    totalWeightUpperBound validatorStakes (reconstructThreshold.max above) secrecyThreshold
  let searched ← DKGRoundingProfile.new validatorStakes (totalWeightLowerBound validatorStakes)
    totalWeightMax secrecyThreshold (reconstructThreshold.max above) fastSecrecyThreshold
  orInfallible validatorStakes secrecyThreshold (reconstructThreshold.max above)
    fastSecrecyThreshold searched

def new : Option DKGRounding := do
  let (profile, roundingError, roundingMethod) ← chosenProfile validatorStakes secrecyThreshold
    reconstructThreshold fastSecrecyThreshold
  let wconfig ← WeightedConfig.new profile.reconstructThresholdInWeights profile.validatorWeights
  let fastWconfig ← profile.fastReconstructThresholdInWeights.mapM fun threshold =>
    WeightedConfig.new threshold profile.validatorWeights
  return { roundingMethod, profile, wconfig, fastWconfig, roundingError }

end DKGRounding

end CreditChain
