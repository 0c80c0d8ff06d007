import CreditChain.Staking.Stake

/-!
# The configuration of staking

The limits of a stake, and the rate of the rewards of an epoch.  The rate is the quotient of the
configuration, or a fixed-point number that decreases with every period.
-/

namespace CreditChain

open CreditChain.Except (bind_eq_ok ok_bind)

/-! ## Fixed-point numbers -/

/-- A number with 64 of its 128 bits behind the point. -/
structure FixedPoint64 where
  value : Nat
  deriving DecidableEq

namespace FixedPoint64

namespace Error

def denominator : Abort := .code 0x10001
def division : Abort := .code 0x20002
def multiplication : Abort := .code 0x20003
def divisionByZero : Abort := .code 0x10004
def ratioOutOfRange : Abort := .code 0x20005
def negativeResult : Abort := .code 0x10006

end Error

variable (val : Nat) (multiplier divisor x y : FixedPoint64)

def sub : Checked FixedPoint64 := do
  ensure (x.value ≥ y.value) Error.negativeResult
  return ⟨x.value - y.value⟩

/-- Rounded down. -/
def multiplyU128 : Checked Nat := do
  ensure (val * multiplier.value / 2 ^ 64 ≤ u128Max) Error.multiplication
  return val * multiplier.value / 2 ^ 64

def divideU128 : Checked Nat := do
  ensure (divisor.value ≠ 0) Error.divisionByZero
  ensure (val * 2 ^ 64 / divisor.value ≤ u128Max) Error.division
  return val * 2 ^ 64 / divisor.value

def createFromRational (numerator denominator : Nat) : Checked FixedPoint64 := do
  ensure (denominator ≠ 0) Error.denominator
  ensure (numerator * 2 ^ 64 / denominator ≠ 0 ∨ numerator = 0) Error.ratioOutOfRange
  ensure (numerator * 2 ^ 64 / denominator ≤ u128Max) Error.ratioOutOfRange
  return ⟨numerator * 2 ^ 64 / denominator⟩

def createFromU128 : Checked FixedPoint64 := do
  ensure (val * 2 ^ 64 ≤ u128Max) Error.ratioOutOfRange
  return ⟨val * 2 ^ 64⟩

def isZero : Bool := x.value == 0

def max : FixedPoint64 := if x.value > y.value then x else y

def lessOrEqual : Bool := decide (x.value ≤ y.value)

def floor : Nat := x.value / 2 ^ 64

def ceil : Nat := if x.value = x.floor * 2 ^ 64 then x.floor else x.floor + 1

/-- `mul_div` of `math_fixed64`. -/
def mulDiv (x y z : FixedPoint64) : Checked FixedPoint64 := do
  let value ← Pool.mulDiv u128Max x.value y.value z.value
  return ⟨value⟩

def one : FixedPoint64 := ⟨2 ^ 64⟩

theorem createFromU128_one : createFromU128 1 = .ok one := rfl

theorem ceil_le_one {x : FixedPoint64} (small : x.ceil ≤ 1) : x.value ≤ 2 ^ 64 := by
  unfold ceil floor at small
  split at small
  · omega
  · omega

end FixedPoint64

/-! ## Configurations -/

/-- A rate that decreases once in every period, down to a minimum. -/
structure StakingRewardsConfig where
  rewardsRate : FixedPoint64
  minRewardsRate : FixedPoint64
  rewardsRatePeriodInSecs : Nat
  lastRewardsRatePeriodStartInSecs : Nat
  rewardsRateDecreaseRate : FixedPoint64
  deriving DecidableEq

namespace StakingConfigError

def zeroLockupDuration : Nat := 1
def zeroRewardsRateDenominator : Nat := 2
def invalidStakeRange : Nat := 3
def invalidVotingPowerIncreaseLimit : Nat := 4
def invalidRewardsRate : Nat := 5
def invalidMinRewardsRate : Nat := 6
def invalidLastRewardsRatePeriodStart : Nat := 7
def invalidRewardsRateDecreaseRate : Nat := 8
def invalidRewardsRatePeriod : Nat := 9
def deprecatedFunction : Nat := 10
def disabledFunction : Nat := 11

end StakingConfigError

open StakingConfigError

def maxRewardsRate : Nat := 1000000

def oneYearInSecs : Nat := 31536000

def validateRequiredStake (minimumStake maximumStake : Nat) : Checked Unit :=
  ensure (minimumStake ≤ maximumStake ∧ maximumStake > 0) (.invalidArgument invalidStakeRange)

/-- The rate is between its minimum and one. -/
def validateRewardsConfig (rewardsRate minRewardsRate : FixedPoint64)
    (rewardsRatePeriodInSecs : Nat) (rewardsRateDecreaseRate : FixedPoint64) : Checked Unit := do
  let one ← FixedPoint64.createFromU128 1
  ensure (rewardsRate.lessOrEqual one = true) (.invalidArgument invalidRewardsRate)
  ensure (minRewardsRate.lessOrEqual rewardsRate = true) (.invalidArgument invalidMinRewardsRate)
  ensure (rewardsRateDecreaseRate.ceil ≤ 1) (.invalidArgument invalidRewardsRateDecreaseRate)
  ensure (rewardsRatePeriodInSecs > 0) (.invalidArgument invalidRewardsRatePeriod)

def initializeRewards (nowSecs : Nat) (rewardsRate minRewardsRate : FixedPoint64)
    (rewardsRatePeriodInSecs lastRewardsRatePeriodStartInSecs : Nat)
    (rewardsRateDecreaseRate : FixedPoint64) : Checked StakingRewardsConfig := do
  validateRewardsConfig rewardsRate minRewardsRate rewardsRatePeriodInSecs rewardsRateDecreaseRate
  ensure (nowSecs ≥ lastRewardsRatePeriodStartInSecs)
    (.invalidArgument invalidLastRewardsRatePeriodStart)
  return { rewardsRate, minRewardsRate, rewardsRatePeriodInSecs,
           lastRewardsRatePeriodStartInSecs, rewardsRateDecreaseRate }

/-- The check of a quotient. -/
def validateRewardsRate (rewardsRate rewardsRateDenominator : Nat) : Checked Unit := do
  ensure (rewardsRate ≤ maxRewardsRate) (.invalidArgument invalidRewardsRate)
  ensure (rewardsRate ≤ rewardsRateDenominator) (.invalidArgument invalidRewardsRate)

def validateVotingPowerIncreaseLimit (votingPowerIncreaseLimit : Nat) : Checked Unit :=
  ensure (votingPowerIncreaseLimit > 0 ∧ votingPowerIncreaseLimit ≤ 50)
    (.invalidArgument invalidVotingPowerIncreaseLimit)

/-- The configuration of genesis. -/
def StakingConfig.initialize (nowSecs : Nat) (config : StakingConfig) :
    Checked (StakingConfig × StakingRewardsConfig) := do
  validateRequiredStake config.minimumStake config.maximumStake
  ensure (config.recurringLockupDurationSecs > 0) (.invalidArgument zeroLockupDuration)
  ensure (config.rewardsRateDenominator > 0) (.invalidArgument zeroRewardsRateDenominator)
  validateVotingPowerIncreaseLimit config.votingPowerIncreaseLimit
  validateRewardsRate config.rewardsRate config.rewardsRateDenominator
  let rewardsRate ←
    FixedPoint64.createFromRational config.rewardsRate config.rewardsRateDenominator
  let none ← FixedPoint64.createFromRational 0 1000
  let rewards ← initializeRewards nowSecs rewardsRate none oneYearInSecs 0 none
  return (config, rewards)

namespace StakingConfig

variable (config : StakingConfig)

def updateRequiredStake (minimumStake maximumStake : Nat) : Checked StakingConfig := do
  validateRequiredStake minimumStake maximumStake
  return { config with minimumStake, maximumStake }

def updateRecurringLockupDurationSecs (newRecurringLockupDurationSecs : Nat) : Checked StakingConfig
    := do
  ensure (newRecurringLockupDurationSecs > 0) (.invalidArgument zeroLockupDuration)
  return { config with recurringLockupDurationSecs := newRecurringLockupDurationSecs }

def updateRewardsRate (periodicalRewardRateDecreaseEnabled : Bool) (config : StakingConfig)
    (newRewardsRate newRewardsRateDenominator : Nat) : Checked StakingConfig := do
  ensure (periodicalRewardRateDecreaseEnabled = false) (.invalidState deprecatedFunction)
  ensure (newRewardsRateDenominator > 0) (.invalidArgument zeroRewardsRateDenominator)
  validateRewardsRate newRewardsRate newRewardsRateDenominator
  return { config with
    rewardsRate := newRewardsRate, rewardsRateDenominator := newRewardsRateDenominator }

def updateVotingPowerIncreaseLimit (newVotingPowerIncreaseLimit : Nat) : Checked StakingConfig := do
  validateVotingPowerIncreaseLimit newVotingPowerIncreaseLimit
  return { config with votingPowerIncreaseLimit := newVotingPowerIncreaseLimit }

end StakingConfig

namespace StakingRewardsConfig

def updateRewardsConfig (config : StakingRewardsConfig) (rewardsRate minRewardsRate : FixedPoint64)
    (rewardsRatePeriodInSecs : Nat) (rewardsRateDecreaseRate : FixedPoint64) :
    Checked StakingRewardsConfig := do
  validateRewardsConfig rewardsRate minRewardsRate rewardsRatePeriodInSecs rewardsRateDecreaseRate
  -- the period is an argument, but it cannot be changed
  ensure (rewardsRatePeriodInSecs = config.rewardsRatePeriodInSecs)
    (.invalidArgument invalidRewardsRatePeriod)
  return { config with rewardsRate, minRewardsRate, rewardsRatePeriodInSecs, rewardsRateDecreaseRate }

/-- The rate of the next period, once this one is over. -/
def calculateAndSaveLatestRewardsConfig (nowSecs : Nat) (config : StakingRewardsConfig) :
    Checked StakingRewardsConfig := do
  ensure (nowSecs ≥ config.lastRewardsRatePeriodStartInSecs)
    (.invalidArgument invalidLastRewardsRatePeriodStart)
  if nowSecs - config.lastRewardsRatePeriodStartInSecs < config.rewardsRatePeriodInSecs then
    return config
  else do
    ensure (config.rewardsRateDecreaseRate.ceil ≤ 1)
      (.invalidArgument invalidRewardsRateDecreaseRate)
    let one ← FixedPoint64.createFromU128 1
    let remaining ← one.sub config.rewardsRateDecreaseRate
    let newRate ← FixedPoint64.mulDiv config.rewardsRate remaining one
    let start ← Checked.add u64Max config.lastRewardsRatePeriodStartInSecs
      config.rewardsRatePeriodInSecs
    return { config with
      rewardsRate := newRate.max config.minRewardsRate, lastRewardsRatePeriodStartInSecs := start }

def calculateAndSaveLatestEpochRewardsRate (periodicalRewardRateDecreaseEnabled : Bool)
    (nowSecs : Nat) (config : StakingRewardsConfig) : Checked StakingRewardsConfig := do
  ensure (periodicalRewardRateDecreaseEnabled = true) (.invalidState disabledFunction)
  config.calculateAndSaveLatestRewardsConfig nowSecs

end StakingRewardsConfig

/-- The numerator and the denominator of the rate of an epoch. -/
def getRewardRate (periodicalRewardRateDecreaseEnabled : Bool) (config : StakingConfig)
    (rewards : StakingRewardsConfig) : Checked (Nat × Nat) :=
  if periodicalRewardRateDecreaseEnabled then
    if rewards.rewardsRate.isZero then return (0, 1)
    else do
      let quotient ← FixedPoint64.divideU128 maxRewardsRate rewards.rewardsRate
      let denominator := if quotient > u64Max then u64Max else quotient
      let product ← FixedPoint64.multiplyU128 denominator rewards.rewardsRate
      let nominator ← Checked.cast u64Max product
      return (nominator, denominator)
  else
    return (config.rewardsRate, config.rewardsRateDenominator)

/-! ## Accepted configurations -/

/-- A rate of at most one, with a small numerator. -/
structure ProperRate (nominator denominator : Nat) : Prop where
  small : nominator ≤ maxRewardsRate
  proper : nominator ≤ denominator
  positive : 0 < denominator
  fits : denominator ≤ u64Max

/-- What the checks of the updates ensure. -/
def StakingConfig.Accepted (config : StakingConfig) : Prop :=
  ProperRate config.rewardsRate config.rewardsRateDenominator

structure StakingRewardsConfig.Accepted (nowSecs : Nat) (config : StakingRewardsConfig) :
    Prop where
  rate : config.rewardsRate.value ≤ 2 ^ 64
  least : config.minRewardsRate.value ≤ config.rewardsRate.value
  decrease : config.rewardsRateDecreaseRate.ceil ≤ 1
  started : config.lastRewardsRatePeriodStartInSecs ≤ nowSecs

open FixedPoint64

section

variable {config config' : StakingConfig} {rewards rewards' : StakingRewardsConfig}
  {nowSecs : Nat} {enabled : Bool}

theorem StakingRewardsConfig.Accepted.later {nowSecs' : Nat} (accepted : rewards.Accepted nowSecs)
    (later : nowSecs ≤ nowSecs') : rewards.Accepted nowSecs' :=
  { accepted with started := accepted.started.trans later }

variable {rate least decrease : FixedPoint64}

theorem validateRewardsConfig_ok {period : Nat} {u : Unit}
    (ok : validateRewardsConfig rate least period decrease = .ok u) :
    rate.value ≤ 2 ^ 64 ∧ least.value ≤ rate.value ∧ decrease.ceil ≤ 1 := by
  unfold validateRewardsConfig at ok
  rw [createFromU128_one, ok_bind] at ok
  simp only [bind_eq_ok, ensure_eq_ok, lessOrEqual, decide_eq_true_eq] at ok
  obtain ⟨_, rate, _, least, _, decrease, -⟩ := ok
  exact ⟨rate, least, decrease⟩

theorem validateRewardsRate_ok {rate denominator : Nat} {u : Unit}
    (ok : validateRewardsRate rate denominator = .ok u) :
    rate ≤ maxRewardsRate ∧ rate ≤ denominator := by
  unfold validateRewardsRate at ok
  simp only [bind_eq_ok, ensure_eq_ok] at ok
  obtain ⟨_, small, proper⟩ := ok
  exact ⟨small, proper⟩

theorem initialize_accepted {start : StakingConfig} (fits : start.rewardsRateDenominator ≤ u64Max)
    (ok : start.initialize nowSecs = .ok (config, rewards)) :
    config.Accepted ∧ rewards.Accepted nowSecs := by
  unfold StakingConfig.initialize initializeRewards at ok
  simp only [bind_eq_ok, ensure_eq_ok] at ok
  obtain ⟨_, -, _, -, _, positive, _, -, _, rated, rate, -, least, -, made, ⟨_, valid, _, started,
    made_eq⟩, same⟩ := ok
  cases made_eq
  cases same
  obtain ⟨small, proper⟩ := validateRewardsRate_ok rated
  obtain ⟨rate, least, decrease⟩ := validateRewardsConfig_ok valid
  exact ⟨⟨small, proper, positive, fits⟩, ⟨rate, least, decrease, started⟩⟩

theorem updateRewardsRate_accepted {rate denominator : Nat} (fits : denominator ≤ u64Max)
    (ok : config.updateRewardsRate enabled rate denominator = .ok config') : config'.Accepted := by
  unfold StakingConfig.updateRewardsRate at ok
  simp only [bind_eq_ok, ensure_eq_ok] at ok
  obtain ⟨_, -, _, positive, _, rated, same⟩ := ok
  cases same
  obtain ⟨small, proper⟩ := validateRewardsRate_ok rated
  exact ⟨small, proper, positive, fits⟩

theorem updateRewardsConfig_accepted {period : Nat} (accepted : rewards.Accepted nowSecs)
    (ok : rewards.updateRewardsConfig rate least period decrease = .ok rewards') :
    rewards'.Accepted nowSecs := by
  unfold StakingRewardsConfig.updateRewardsConfig at ok
  simp only [bind_eq_ok] at ok
  obtain ⟨_, valid, _, -, same⟩ := ok
  cases same
  obtain ⟨rate, least, decrease⟩ := validateRewardsConfig_ok valid
  exact ⟨rate, least, decrease, accepted.started⟩

/-! ## What the end of an epoch reads and writes -/

/-- The denominator is as large as a numerator within the limit allows. -/
theorem getRewardRate_accepted (enabled : Bool) (accepted : config.Accepted)
    (rewarding : rewards.Accepted nowSecs) :
    ∃ nominator denominator, getRewardRate enabled config rewards = .ok (nominator, denominator) ∧
      ProperRate nominator denominator := by
  unfold getRewardRate
  cases enabled with
  | false => exact ⟨_, _, rfl, accepted⟩
  | true =>
    rw [if_pos rfl]
    by_cases zero : rewards.rewardsRate.value = 0
    · rw [if_pos (by rw [isZero, zero]; rfl)]
      exact ⟨0, 1, rfl, by decide, by decide, by decide, by decide⟩
    rw [if_neg (by simp [isZero, zero])]
    have rate := rewarding.rate
    generalize rewards.rewardsRate = x at rate zero
    have positive : 0 < x.value := pos_of_ne_zero zero
    have bounded : maxRewardsRate * 2 ^ 64 / x.value ≤ u128Max :=
      (Nat.div_le_self _ _).trans (by decide)
    have large : maxRewardsRate ≤ maxRewardsRate * 2 ^ 64 / x.value := by
      rw [Nat.le_div_iff_mul_le positive]
      exact Nat.mul_le_mul_left _ rate
    have divided : divideU128 maxRewardsRate x =
        .ok (maxRewardsRate * 2 ^ 64 / x.value) := by
      unfold divideU128
      simp only [bind_eq_ok, ensure_eq_ok]
      exact ⟨(), zero, (), bounded, rfl⟩
    rw [divided, ok_bind]
    obtain ⟨denominator, capped⟩ : ∃ denominator, (if maxRewardsRate * 2 ^ 64 / x.value > u64Max
        then u64Max else maxRewardsRate * 2 ^ 64 / x.value) = denominator := ⟨_, rfl⟩
    simp only [capped]
    have least : maxRewardsRate ≤ denominator ∧ denominator ≤ u64Max ∧
        denominator ≤ maxRewardsRate * 2 ^ 64 / x.value := by
      have limit : maxRewardsRate ≤ u64Max := by decide
      rw [← capped]
      split
      · omega
      · omega
    have small : denominator * x.value / 2 ^ 64 ≤ maxRewardsRate := by
      refine Nat.div_le_of_le_mul ?_
      exact (Nat.le_div_iff_mul_le positive).mp least.2.2
    have proper : denominator * x.value / 2 ^ 64 ≤ denominator := by
      refine Nat.div_le_of_le_mul ?_
      rw [mul_comm (2 ^ 64)]
      exact Nat.mul_le_mul_left _ rate
    have multiplied : multiplyU128 denominator x =
        .ok (denominator * x.value / 2 ^ 64) := by
      unfold multiplyU128
      simp only [bind_eq_ok, ensure_eq_ok]
      exact ⟨(), small.trans (by decide), rfl⟩
    rw [multiplied, ok_bind, Checked.cast_eq_ok.mpr ⟨proper.trans least.2.1, rfl⟩]
    exact ⟨_, _, rfl, small, proper, lt_of_lt_of_le (by decide) least.1, least.2.1⟩

/-- One period at a time: the start of the new period is not in the future. -/
theorem calculateAndSave_accepted (accepted : rewards.Accepted nowSecs) (fits : nowSecs ≤ u64Max) :
    ∃ rewards', rewards.calculateAndSaveLatestEpochRewardsRate true nowSecs = .ok rewards' ∧
      rewards'.Accepted nowSecs := by
  have decrease := ceil_le_one accepted.decrease
  have started := accepted.started
  unfold StakingRewardsConfig.calculateAndSaveLatestEpochRewardsRate
    StakingRewardsConfig.calculateAndSaveLatestRewardsConfig
  rw [ensure, if_pos rfl, ok_bind, ensure, if_pos started, ok_bind]
  split
  · exact ⟨rewards, rfl, accepted⟩
  rw [ensure, if_pos accepted.decrease, ok_bind, createFromU128_one, ok_bind]
  have remaining : one.sub rewards.rewardsRateDecreaseRate =
      .ok ⟨2 ^ 64 - rewards.rewardsRateDecreaseRate.value⟩ := by
    rw [sub, ensure, if_pos (show one.value ≥ _ from decrease)]
    rfl
  have smaller : rewards.rewardsRate.value * (2 ^ 64 - rewards.rewardsRateDecreaseRate.value) /
      2 ^ 64 ≤ rewards.rewardsRate.value := by
    refine Nat.div_le_of_le_mul ?_
    rw [mul_comm (2 ^ 64)]
    exact Nat.mul_le_mul_left _ (Nat.sub_le _ _)
  have scaled : mulDiv rewards.rewardsRate
      ⟨2 ^ 64 - rewards.rewardsRateDecreaseRate.value⟩ one =
      .ok ⟨rewards.rewardsRate.value * (2 ^ 64 - rewards.rewardsRateDecreaseRate.value) /
        2 ^ 64⟩ := by
    have rate := accepted.rate
    have fits : rewards.rewardsRate.value * (2 ^ 64 - rewards.rewardsRateDecreaseRate.value) /
        2 ^ 64 ≤ u128Max := smaller.trans (rate.trans (by decide))
    unfold mulDiv Pool.mulDiv
    simp only [bind_eq_ok, Checked.cast_eq_ok]
    exact ⟨_, ⟨(), by decide, fits, rfl⟩, rfl⟩
  rw [remaining, ok_bind, scaled, Checked.add_eq_ok.mpr ⟨by omega, rfl⟩]
  refine ⟨_, rfl, ?_, ?_, accepted.decrease, ?_⟩
  · unfold FixedPoint64.max
    split
    · exact smaller.trans accepted.rate
    · exact accepted.least.trans accepted.rate
  · unfold FixedPoint64.max
    split
    · next larger => exact larger.le
    · exact le_rfl
  · change rewards.lastRewardsRatePeriodStartInSecs + rewards.rewardsRatePeriodInSecs ≤ nowSecs
    omega

end

end CreditChain
