import CreditChain.Staking.EpochChange

/-!
# Epoch changes of a chain

The validators, the configuration of staking and the clock of a chain, under the calls of the stake
module and the updates that governance makes.  From every state of a run the epoch can end, if no
epoch of the run ended with a minimum stake of zero (`epoch_change_succeeds`).  With a minimum stake
of zero, a validator without stake halts the chain.
-/

namespace CreditChain

/-- A chain: the books of the stake module, the configuration, and the time of the last call. -/
structure Chain where
  staking : Staking
  config : StakingConfig
  rewards : StakingRewardsConfig
  nowSecs : Nat

/-- What a call reads of modules that are not part of the chain's state. -/
structure ChainEnv where
  nowSecs : Nat
  reconfigStartTimeSecs : Nat
  reconfigInProgress : Bool
  chainOperating : Bool
  distributeTransactionFeeEnabled : Bool
  periodicalRewardRateDecreaseEnabled : Bool
  publicKeyWithPop : List UInt8 → List UInt8 → Bool
  stakePermission : Bool

def ChainEnv.stakeEnv (env : ChainEnv) (config : StakingConfig) : StakeEnv where
  config
  nowSecs := env.nowSecs
  reconfigStartTimeSecs := env.reconfigStartTimeSecs
  reconfigInProgress := env.reconfigInProgress
  chainOperating := env.chainOperating
  distributeTransactionFeeEnabled := env.distributeTransactionFeeEnabled
  publicKeyWithPop := env.publicKeyWithPop
  stakePermission := env.stakePermission

/-- The calls of the stake module, and the updates of its configuration. -/
inductive ChainCall where
  | stake (call : StakeCall)
  | updateRequiredStake (minimumStake maximumStake : UInt64)
  | updateRecurringLockupDurationSecs (newRecurringLockupDurationSecs : UInt64)
  | updateRewardsRate (newRewardsRate newRewardsRateDenominator : UInt64)
  | updateRewardsConfig (rewardsRate minRewardsRate : FixedPoint64)
      (rewardsRatePeriodInSecs : UInt64) (rewardsRateDecreaseRate : FixedPoint64)
  | updateVotingPowerIncreaseLimit (newVotingPowerIncreaseLimit : UInt64)

namespace Chain

variable (env : ChainEnv) (c : Chain)

/-- The environment of the end of an epoch, with the rate of its rewards. -/
def epochEnv : Checked StakeEnv := do
  let (rewardsRate, rewardsRateDenominator) ←
    getRewardRate env.periodicalRewardRateDecreaseEnabled c.config c.rewards
  return env.stakeEnv { c.config with rewardsRate, rewardsRateDenominator }

def nextRewards : Checked StakingRewardsConfig :=
  if env.periodicalRewardRateDecreaseEnabled then
    c.rewards.calculateAndSaveLatestEpochRewardsRate env.periodicalRewardRateDecreaseEnabled
      env.nowSecs
  else return c.rewards

/-- The rewards of the epoch that ends are computed before the rate decreases. -/
def onNewEpoch : Checked Chain := do
  let stakeEnv ← c.epochEnv env
  let state ← c.staking.state.onNewEpoch stakeEnv
  let rewards ← c.nextRewards env
  return { c with staking := ⟨state, 0⟩, rewards }

def call (env : ChainEnv) (c : Chain) : ChainCall → Checked Chain
  | .stake .onNewEpoch => c.onNewEpoch env
  | .stake call => do
      let state ← c.staking.state.call (env.stakeEnv c.config) call
      return { c with staking := ⟨state, c.staking.addedBy call⟩ }
  | .updateRequiredStake minimumStake maximumStake => do
      let config ← c.config.updateRequiredStake minimumStake.toNat maximumStake.toNat
      return { c with config }
  | .updateRecurringLockupDurationSecs duration => do
      let config ← c.config.updateRecurringLockupDurationSecs duration.toNat
      return { c with config }
  | .updateRewardsRate rate denominator => do
      let config ← c.config.updateRewardsRate env.periodicalRewardRateDecreaseEnabled rate.toNat
        denominator.toNat
      return { c with config }
  | .updateRewardsConfig rate least period decrease => do
      let rewards ← c.rewards.updateRewardsConfig rate least period.toNat decrease
      return { c with rewards }
  | .updateVotingPowerIncreaseLimit limit => do
      let config ← c.config.updateVotingPowerIncreaseLimit limit.toNat
      return { c with config }

def step (input : ChainEnv × ChainCall) (c : Chain) : Option Chain := do
  let c ← (c.call input.1 input.2).committed
  return { c with nowSecs := input.1.nowSecs }

/-- A chain without validators, and a configuration that genesis accepts. -/
def Genesis : Prop :=
  c.staking = .start ∧ c.config.rewardsRateDenominator ≤ u64Max ∧
    c.config.initialize c.nowSecs = .ok (c.config, c.rewards)

/-- Time does not go backwards, and fits its type. -/
def Later (env : ChainEnv) : Prop := c.nowSecs ≤ env.nowSecs ∧ env.nowSecs ≤ u64Max

def Reached : Prop := Run.Reaches step (fun c input => c.Later input.1) Genesis c

/-- The states of the runs in which a validator of a new epoch must have some stake. -/
def ReachedStaked : Prop :=
  Run.Reaches step (fun c input => c.Later input.1 ∧
    (input.2 = .stake .onNewEpoch → 0 < c.config.minimumStake)) Genesis c

/-! ## The invariant -/

variable {c c' : Chain} {env : ChainEnv}

/-- The books are right, the epoch can end, and the configuration has passed its checks. -/
structure Sane (c : Chain) : Prop where
  sound : Sound c.staking.state c.staking.added
  ready : Ready c.staking.state
  config : c.config.Accepted
  rewards : c.rewards.Accepted c.nowSecs

theorem Sane.genesis (genesis : Genesis c) : Sane c := by
  obtain ⟨start, fits, initialized⟩ := genesis
  obtain ⟨config, rewards⟩ := initialize_accepted fits initialized
  refine ⟨?_, ?_, config, rewards⟩
  all_goals
    rw [start]
    exact .initial

theorem epochEnv_accepted (env : ChainEnv) (sane : Sane c) : ∃ rate denominator,
    c.epochEnv env = .ok (env.stakeEnv
      { c.config with rewardsRate := rate, rewardsRateDenominator := denominator }) ∧
      ProperRate rate denominator := by
  obtain ⟨rate, denominator, read, proper⟩ := getRewardRate_accepted
    env.periodicalRewardRateDecreaseEnabled sane.config sane.rewards
  refine ⟨rate, denominator, ?_, proper⟩
  rw [epochEnv, read]
  rfl

theorem call_stake {call : StakeCall} (inside : call ≠ .onNewEpoch) :
    c.call env (.stake call) = do
      let state ← c.staking.state.call (env.stakeEnv c.config) call
      return { c with staking := ⟨state, c.staking.addedBy call⟩ } := by
  cases call with
  | onNewEpoch => exact absurd rfl inside
  | _ => rfl

theorem nextRewards_accepted (sane : Sane c) (later : c.Later env) : ∃ rewards,
    c.nextRewards env = .ok rewards ∧ rewards.Accepted env.nowSecs := by
  have accepted := sane.rewards.later later.1
  unfold nextRewards
  cases env.periodicalRewardRateDecreaseEnabled with
  | false => exact ⟨c.rewards, rfl, accepted⟩
  | true => exact calculateAndSave_accepted accepted later.2

/-- What a call within an epoch keeps. -/
theorem call_sane {input : ChainCall} (sane : Sane c) (later : c.Later env)
    (inside : input ≠ .stake .onNewEpoch) (ok : c.call env input = .ok c') :
    Sane { c' with nowSecs := env.nowSecs } := by
  have rewarding := sane.rewards.later later.1
  cases input with
  | stake call =>
    have within : call ≠ .onNewEpoch := fun same => inside (congrArg ChainCall.stake same)
    rw [call_stake within] at ok
    obtain ⟨state, called, rfl⟩ := of_return ok
    obtain ⟨step, keeps⟩ := call_effect sane.sound within called
    exact ⟨step.sound sane.sound, sane.ready.keeps keeps, sane.config, rewarding⟩
  | updateRequiredStake minimumStake maximumStake
  | updateRecurringLockupDurationSecs duration
  | updateVotingPowerIncreaseLimit limit =>
    obtain ⟨config, updated, rfl⟩ := of_return ok
    -- the rate stays
    cases of_check updated
    exact ⟨sane.sound, sane.ready, sane.config, rewarding⟩
  | updateRewardsRate rate denominator =>
    obtain ⟨config, updated, rfl⟩ := of_return ok
    have fits : denominator.toNat ≤ u64Max := Nat.le_sub_one_of_lt denominator.toNat_lt
    exact ⟨sane.sound, sane.ready, updateRewardsRate_accepted fits updated, rewarding⟩
  | updateRewardsConfig rate least period decrease =>
    obtain ⟨rewards, updated, rfl⟩ := of_return ok
    exact ⟨sane.sound, sane.ready, sane.config, updateRewardsConfig_accepted rewarding updated⟩

theorem onNewEpoch_sane (sane : Sane c) (later : c.Later env)
    (positive : 0 < c.config.minimumStake) (ok : c.onNewEpoch env = .ok c') :
    Sane { c' with nowSecs := env.nowSecs } := by
  obtain ⟨rate, denominator, read, -⟩ := epochEnv_accepted env sane
  obtain ⟨rewards, saved, rewarding⟩ := nextRewards_accepted sane later
  rw [onNewEpoch, read, saved, Except.ok_bind] at ok
  obtain ⟨state, ended, rfl⟩ := of_return ok
  exact ⟨(onNewEpoch_ok sane.sound ended).1, onNewEpoch_ready sane.sound positive ended,
    sane.config, rewarding⟩

theorem sane_of_reached (reached : c.ReachedStaked) : Sane c := by
  refine Run.Reaches.invariant (I := Sane) (fun _ => Sane.genesis) ?_ reached
  rintro c ⟨env, input⟩ c' sane ⟨later, staked⟩ done
  obtain ⟨next, called, same⟩ := Option.bind_eq_some_iff.mp done
  cases same
  have ok := Checked.committed_eq_some.mp called
  by_cases epoch : input = .stake .onNewEpoch
  · subst epoch
    exact onNewEpoch_sane sane later (staked rfl) ok
  · exact call_sane sane later epoch ok

end Chain

/-- From every state that is reached the epoch can end: every index is in range, and nothing
aborts.  The coins of the validators fit with what is minted, and so do the end of a new lockup and
the numbers of proposals. -/
theorem epoch_change_succeeds {c : Chain} (reached : c.ReachedStaked) {env : ChainEnv}
    (later : c.Later env)
    (supply : ∀ stakeEnv, c.epochEnv env = .ok stakeEnv → c.staking.state.WithinSupply stakeEnv)
    (lockup : env.nowSecs + c.config.recurringLockupDurationSecs ≤ u64Max)
    (few : ∀ perf ∈ c.staking.state.performance,
      perf.successfulProposals + perf.failedProposals < proposalLimit) :
    (∀ info ∈ c.staking.state.set.activeValidators ++ c.staking.state.set.pendingInactive,
      ∃ config, c.staking.state.configs info.addr = some config ∧
        config.validatorIndex < c.staking.state.performance.length) ∧
    ∃ c', c.onNewEpoch env = .ok c' := by
  have sane := Chain.sane_of_reached reached
  constructor
  · intro info mem
    obtain ⟨config, configured, index⟩ := sane.ready.indexed info mem
    refine ⟨config, configured, ?_⟩
    rw [index]
    exact List.mem_range.mp (sane.sound.indices.mem_iff.mp (List.mem_map_of_mem mem))
  · obtain ⟨rate, denominator, read, proper⟩ := Chain.epochEnv_accepted env sane
    obtain ⟨rewards, saved, -⟩ := Chain.nextRewards_accepted sane later
    have rated : (env.stakeEnv { c.config with
      rewardsRate := rate, rewardsRateDenominator := denominator }).config.Accepted := proper
    obtain ⟨state, ended⟩ := onNewEpoch_succeeds sane.sound sane.ready rated lockup few
      (supply _ read)
    rw [Chain.onNewEpoch, read, Except.ok_bind, ended, saved]
    exact ⟨_, rfl⟩

/-! A chain with one validator, which has proposed two blocks of three and earned a fee. -/

namespace OneValidator

def genesis : Chain where
  staking := .start
  config := ⟨10, 1000, 3600, true, 1, 100, 50⟩
  rewards := ⟨⟨2 ^ 64 / 100⟩, ⟨0⟩, oneYearInSecs, 0, ⟨0⟩⟩
  nowSecs := 0

theorem genesis_accepted : genesis.Genesis := ⟨rfl, by decide, by decide +kernel⟩

def clock (nowSecs : Nat) : ChainEnv where
  nowSecs
  reconfigStartTimeSecs := nowSecs
  reconfigInProgress := false
  chainOperating := true
  distributeTransactionFeeEnabled := true
  periodicalRewardRateDecreaseEnabled := true
  publicKeyWithPop := fun _ _ => true
  stakePermission := true

def inputs : List (ChainEnv × ChainCall) :=
  [(clock 1, .stake (.initializeValidator 1 [7] [] [] [])), (clock 1, .stake (.addStake 1 100)),
    (clock 1, .stake (.joinValidatorSet 1 1)), (clock 1, .stake .initializePendingTransactionFee),
    (clock 2, .stake .onNewEpoch), (clock 3, .stake (.updatePerformanceStatistics (some 0) [])),
    (clock 4, .stake (.updatePerformanceStatistics (some 0) [0])),
    (clock 4, .stake (.recordFee [0] [7]))]

def running : Chain := inputs.foldl (fun c input => (Chain.step input c).getD c) genesis

theorem running_reached : running.ReachedStaked := by
  refine Run.Reaches.of_inputs (.start genesis_accepted) inputs ?_
  exact ⟨⟨⟨by decide, by decide⟩, nofun⟩, _, rfl, ⟨⟨by decide, by decide⟩, nofun⟩, _, rfl,
    ⟨⟨by decide, by decide⟩, nofun⟩, _, rfl, ⟨⟨by decide, by decide⟩, nofun⟩, _, rfl,
    ⟨⟨by decide, by decide⟩, fun _ => by decide⟩, _, rfl, ⟨⟨by decide, by decide⟩, nofun⟩, _, rfl,
    ⟨⟨by decide, by decide⟩, nofun⟩, _, rfl, ⟨⟨by decide, by decide⟩, nofun⟩, _, rfl, rfl⟩

theorem running_within (stakeEnv : StakeEnv) (read : running.epochEnv (clock 5) = .ok stakeEnv) :
    running.staking.state.WithinSupply stakeEnv := by
  cases read
  unfold StakeState.WithinSupply
  decide +kernel

theorem running_changes_epoch : ∃ c', running.onNewEpoch (clock 5) = .ok c' :=
  (epoch_change_succeeds running_reached ⟨by decide, by decide⟩ running_within (by decide)
    (by decide)).2

end OneValidator

/-! Governance accepts a minimum stake of zero.  A validator without stake joins, and its fee is
divided by its stake when the next epoch ends. -/

namespace NoStake

def inputs : List (ChainEnv × ChainCall) :=
  [(OneValidator.clock 5, .updateRequiredStake 0 1000),
    (OneValidator.clock 5, .stake (.initializeValidator 2 [8] [] [] [])),
    (OneValidator.clock 5, .stake (.joinValidatorSet 2 2)),
    (OneValidator.clock 6, .stake .onNewEpoch)]

def joined : Chain := inputs.foldl (fun c input => (Chain.step input c).getD c) OneValidator.running

theorem joined_reached : joined.Reached := by
  have running : OneValidator.running.Reached :=
    OneValidator.running_reached.mono fun _ _ both => both.1
  refine Run.Reaches.of_inputs running inputs ?_
  exact ⟨⟨by decide, by decide⟩, _, rfl, ⟨by decide, by decide⟩, _, rfl, ⟨by decide, by decide⟩, _,
    rfl, ⟨by decide, by decide⟩, _, rfl, rfl⟩

theorem joined_within (stakeEnv : StakeEnv)
    (read : joined.epochEnv (OneValidator.clock 7) = .ok stakeEnv) :
    joined.staking.state.WithinSupply stakeEnv := by
  cases read
  unfold StakeState.WithinSupply
  decide +kernel

theorem epoch_change_aborts : joined.Reached ∧
    (∀ stakeEnv, joined.epochEnv (OneValidator.clock 7) = .ok stakeEnv →
      joined.staking.state.WithinSupply stakeEnv) ∧
    joined.onNewEpoch (OneValidator.clock 7) = .error .arithmetic :=
  ⟨joined_reached, joined_within, rfl⟩

end NoStake

end CreditChain
