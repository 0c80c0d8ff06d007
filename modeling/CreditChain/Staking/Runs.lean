import CreditChain.Staking.Calls

/-!
# Epochs and runs of the stake module

Sequences of calls from the empty validator set, over any number of epochs.  A call that aborts
changes nothing and is no part of a run.

* `stake_accounted`: the books of every state of a run.
-/

namespace CreditChain

open Checked List Function
open CreditChain.Except (ok_bind)

variable {env : StakeEnv} {s s' : StakeState} {added : Nat} {a : Address}

/-! ## The pools at the end of an epoch -/

/-- The rewards of a stake, with the performance of the validator of an index. -/
def StakeState.rewardFor (env : StakeEnv) (s : StakeState) (validatorIndex stake : Nat) :
    Checked Nat :=
  if stake > 0 then do
    let perf ← Checked.borrow s.performance[validatorIndex]?
    let numTotalProposals ← Checked.add u64Max perf.successfulProposals perf.failedProposals
    calculateRewardsAmount env.config stake perf.successfulProposals numTotalProposals
  else return 0

def feeOf (fees : Option (OrderedMap Nat Nat)) (validatorIndex : Nat) : Nat :=
  (fees.bind (·.find? validatorIndex)).getD 0

/-- While the pools are brought up to date, fees are only taken. -/
structure Updating (s s' : StakeState) : Prop where
  set : s'.set = s.set
  configs : s'.configs = s.configs
  performance : s'.performance = s.performance
  fees : ∀ i, feeOf s'.pendingFeeByValidator i = 0 ∨
    feeOf s'.pendingFeeByValidator i = feeOf s.pendingFeeByValidator i

theorem Updating.refl (s : StakeState) : Updating s s := ⟨rfl, rfl, rfl, fun _ => .inr rfl⟩

theorem Updating.trans {s'' : StakeState} (first : Updating s s') (second : Updating s' s'') :
    Updating s s'' where
  set := second.set.trans first.set
  configs := second.configs.trans first.configs
  performance := second.performance.trans first.performance
  fees := by
    intro i
    rcases second.fees i with taken | same
    · exact .inl taken
    · exact (first.fees i).imp same.trans same.trans

variable {pool pool' : StakePool} {total index feeActive feeLeaving stake reward : Nat}

open StakeState

theorem collectFee_ok {fees fees' : Option (OrderedMap Nat Nat)}
    (ok : collectFee fees index pool = .ok (feeActive, feeLeaving, fees')) :
    feeActive + feeLeaving = feeOf fees index ∧ (pool.pendingInactive = 0 → feeLeaving = 0) ∧
      ∀ i, feeOf fees' i = 0 ∨ feeOf fees' i = feeOf fees i := by
  unfold collectFee at ok
  cases fees with
  | none =>
    cases ok
    exact ⟨rfl, fun _ => rfl, fun _ => .inr rfl⟩
  | some fees =>
    have read : feeOf (some fees) index = (fees.find? index).getD 0 := rfl
    rw [read]
    simp only at ok
    generalize fees.find? index = found at ok
    cases found with
    | none =>
      cases ok
      exact ⟨rfl, fun _ => rfl, fun _ => .inr rfl⟩
    | some fee =>
      simp only [Except.bind_eq_ok, mul_eq_ok, div_eq_ok, cast_eq_ok, sub_eq_ok] at ok
      obtain ⟨_, ⟨-, rfl⟩, _, -, _, ⟨-, rfl⟩, _, ⟨-, rfl⟩, _, ⟨le, rfl⟩, same⟩ := ok
      cases same
      refine ⟨Nat.sub_add_cancel le, fun none => by rw [none, Nat.mul_zero, Nat.zero_div],
        fun i => ?_⟩
      change ((fees.erase index).find? i).getD 0 = 0 ∨ ((fees.erase index).find? i).getD 0 = _
      rw [OrderedMap.find?_erase]
      split
      · exact .inl rfl
      · exact .inr rfl

theorem mintInto_ok {amount result : Nat} (ok : mintInto stake amount = .ok result) :
    result = stake + amount := by
  unfold mintInto at ok
  split at ok
  · exact (add_eq_ok.mp ok).2.symm
  · cases ok
    omega

theorem distributeRewards_ok {config : StakingConfig} {successful stake' : Nat}
    (ok : distributeRewards config stake successful total = .ok (stake', reward)) :
    rewardsOf config stake successful total = .ok reward ∧ stake' = stake + reward := by
  obtain ⟨amount, computed, ok⟩ := of_bind ok
  obtain ⟨minted, added, same⟩ := of_bind ok
  cases same
  exact ⟨computed, mintInto_ok added⟩

theorem distributeFee_ok {active leaving active' leaving' : Nat}
    (ok : distributeFee env active leaving feeActive feeLeaving = .ok (active', leaving')) :
    ∃ toActive toLeaving, active' = active + toActive ∧ leaving' = leaving + toLeaving ∧
      toLeaving ≤ feeLeaving ∧ toActive + toLeaving =
        if env.distributeTransactionFeeEnabled then feeActive + feeLeaving else 0 := by
  unfold distributeFee at ok
  split_ifs at ok ⊢
  · obtain ⟨_, first, ok⟩ := of_bind ok
    obtain ⟨_, second, ok⟩ := of_bind ok
    obtain ⟨_, -, same⟩ := of_bind ok
    cases same
    exact ⟨feeActive, feeLeaving, mintInto_ok first, mintInto_ok second, le_rfl, rfl⟩
  · cases ok
    exact ⟨0, 0, rfl, rfl, Nat.zero_le _, rfl⟩

theorem releaseUnlocked_ok (ok : pool.releaseUnlocked env = .ok pool') :
    env.reconfigStartTimeSecs ≥ pool.lockedUntilSecs ∧ pool' = { pool with
      inactive := pool.inactive + pool.pendingInactive, pendingInactive := 0 } ∨
    ¬ env.reconfigStartTimeSecs ≥ pool.lockedUntilSecs ∧ pool' = pool := by
  unfold StakePool.releaseUnlocked at ok
  split at ok
  · rename_i expired
    obtain ⟨_, added, rfl⟩ := of_return ok
    obtain ⟨-, rfl⟩ := add_eq_ok.mp added
    exact .inl ⟨expired, rfl⟩
  · rename_i unexpired
    cases ok
    exact .inr ⟨unexpired, rfl⟩

theorem releaseUnlocked_eq (ok : pool.releaseUnlocked env = .ok pool') :
    pool'.pendingActive = pool.pendingActive ∧ pool'.nextPower = pool.pendingActive + pool.active +
      if env.reconfigStartTimeSecs ≥ pool.lockedUntilSecs then 0 else pool.pendingInactive := by
  rcases releaseUnlocked_ok ok with ⟨expired, rfl⟩ | ⟨unexpired, rfl⟩
  · rw [if_pos expired]
    exact ⟨rfl, rfl⟩
  · rw [if_neg unexpired]
    exact ⟨rfl, rfl⟩

theorem rewardFor_eq {perf : IndividualValidatorPerformance}
    (found : s.performance[index]? = some perf)
    (sum : Checked.add u64Max perf.successfulProposals perf.failedProposals = .ok total) :
    s.rewardFor env index stake = rewardsOf env.config stake perf.successfulProposals total := by
  rw [rewardFor, rewardsOf, found]
  split
  · rw [borrow, ok_bind, sum, ok_bind]
  · rfl

/-- What one pool gets: its rewards, its fee and its pending stake. -/
structure Updated (env : StakeEnv) (s : StakeState) (config : ValidatorConfig)
    (pool pool' : StakePool) where
  reward : Nat
  rewardLeaving : Nat
  feeActive : Nat
  feeLeaving : Nat
  rewarded : s.rewardFor env config.validatorIndex pool.active = .ok reward
  rewardedLeaving : s.rewardFor env config.validatorIndex pool.pendingInactive = .ok rewardLeaving
  fee : feeActive + feeLeaving = if env.distributeTransactionFeeEnabled then
    feeOf s.pendingFeeByValidator config.validatorIndex else 0
  power : pool'.nextPower = pool.active + reward + feeActive + pool.pendingActive +
    if env.reconfigStartTimeSecs ≥ pool.lockedUntilSecs then 0
    else pool.pendingInactive + rewardLeaving + feeLeaving

theorem updateStakePool_eq (ok : s.updateStakePool env a = .ok s') :
    Updating s s' ∧ ∃ config pool pool', ∃ gets : Updated env s config pool pool',
      s.configs a = some config ∧ s.pools a = some pool ∧
      s'.pools = update s.pools a (some pool') ∧ (pool.pendingInactive = 0 → gets.feeLeaving = 0) ∧
      StakePool.releaseUnlocked { pool with
        active := pool.active + gets.reward + gets.feeActive + pool.pendingActive,
        pendingActive := 0,
        pendingInactive := pool.pendingInactive + gets.rewardLeaving + gets.feeLeaving } env =
        .ok pool' := by
  obtain ⟨pool, found, ok⟩ := of_bind ok
  obtain ⟨config, configured, ok⟩ := of_bind ok
  obtain ⟨perf, scored, ok⟩ := of_bind ok
  obtain ⟨⟨feeActive, feeLeaving, fees⟩, collected, ok⟩ := of_bind ok
  obtain ⟨total, sum, ok⟩ := of_bind ok
  obtain ⟨⟨active, reward⟩, rewarded, ok⟩ := of_bind ok
  obtain ⟨⟨leaving, rewardLeaving⟩, rewardedLeaving, ok⟩ := of_bind ok
  obtain ⟨⟨active', leaving'⟩, distributed, ok⟩ := of_bind ok
  obtain ⟨_, -, ok⟩ := of_bind ok
  obtain ⟨active'', merged, ok⟩ := of_bind ok
  obtain ⟨pool', released, rfl⟩ := of_return ok
  obtain ⟨feeSum, noFee, feesKept⟩ := collectFee_ok collected
  have reads : ∀ stake, s.rewardFor env config.validatorIndex stake =
      rewardsOf env.config stake perf.successfulProposals total :=
    fun _ => rewardFor_eq (borrow_eq_ok.mp scored) sum
  obtain ⟨computed, rfl⟩ := distributeRewards_ok rewarded
  obtain ⟨computedLeaving, rfl⟩ := distributeRewards_ok rewardedLeaving
  obtain ⟨-, rfl⟩ := add_eq_ok.mp merged
  obtain ⟨toActive, toLeaving, rfl, rfl, part, shares⟩ := distributeFee_ok distributed
  rw [← reads] at computed computedLeaving
  rw [feeSum] at shares
  have power := (releaseUnlocked_eq released).2
  refine ⟨⟨rfl, rfl, rfl, feesKept⟩, config, pool, pool', ⟨reward, rewardLeaving, toActive, toLeaving,
    computed, computedLeaving, shares, ?_⟩, borrow_eq_ok.mp configured, borrow_eq_ok.mp found, rfl,
    fun none => Nat.le_zero.mp (noFee none ▸ part), released⟩
  rw [power, zero_add]

theorem Updating.of_fold {ended : List Address}
    (ok : ended.foldlM (updateStakePool env) s = .ok s') : Updating s s' :=
  Except.foldlM_relates (R := Updating) .refl .trans (fun ok => (updateStakePool_eq ok).1) ok

/-- The pools of the validators that stay and of those that leave, in one go. -/
theorem updateStakePools_current {s₁ s₂ : StakeState}
    (stay : (s.set.activeValidators.map (·.addr)).foldlM (updateStakePool env) s = .ok s₁)
    (leave : (s₁.set.pendingInactive.map (·.addr)).foldlM (updateStakePool env) s₁ = .ok s₂) :
    (addresses s.set.current).foldlM (updateStakePool env) s = .ok s₂ := by
  rw [(Updating.of_fold stay).set] at leave
  rw [ValidatorSet.current, addresses_append, foldlM_append]
  exact Except.bind_eq_ok.mpr ⟨s₁, stay, leave⟩

/-- Each pool of the list is brought up to date once, and no other one changes. -/
theorem updateStakePools_eq {ended : List Address} (distinct : ended.Nodup)
    (ok : ended.foldlM (updateStakePool env) s = .ok s') :
    (∀ a, a ∉ ended → s'.pools a = s.pools a) ∧
      ∀ a ∈ ended, ∃ t config pool pool', Updating s t ∧ s.configs a = some config ∧
        s.pools a = some pool ∧ s'.pools a = some pool' ∧ pool'.pendingActive = 0 ∧
        Nonempty (Updated env t config pool pool') := by
  induction ended generalizing s with
  | nil =>
    cases ok
    exact ⟨fun _ _ => rfl, forall_mem_nil _⟩
  | cons first ended ih =>
    obtain ⟨next, updated, rest⟩ := of_bind ok
    obtain ⟨outside, distinct⟩ := nodup_cons.mp distinct
    obtain ⟨updating, config, pool, pool', gets, configured, found, pools, -, released⟩ :=
      updateStakePool_eq updated
    obtain ⟨kept, later⟩ := ih distinct rest
    have elsewhere : ∀ b, b ≠ first → next.pools b = s.pools b := by
      intro b ne
      rw [pools, update_of_ne ne]
    refine ⟨?_, ?_⟩
    · intro b unlisted
      have ne : b ≠ first := fun same => unlisted (same ▸ mem_cons_self)
      rw [kept b fun mem => unlisted (mem_cons_of_mem _ mem), elsewhere b ne]
    intro b mem
    rcases mem_cons.mp mem with rfl | mem
    · refine ⟨s, config, pool, pool', .refl s, configured, found, ?_,
        (releaseUnlocked_eq released).1, ⟨gets⟩⟩
      rw [kept b outside, pools, update_self]
    obtain ⟨t, config, pool, pool', between, configured, found, after⟩ := later b mem
    have ne : b ≠ first := fun same => outside (same ▸ mem)
    rw [elsewhere b ne] at found
    rw [updating.configs] at configured
    exact ⟨t, config, pool, pool', updating.trans between, configured, found, after⟩

/-! ## The entries of the next epoch -/

/-- The entry of a candidate in the next epoch, once the pools are up to date. -/
def StakeState.entry (env : StakeEnv) (s : StakeState) (candidate : ValidatorInfo) :
    Option ValidatorInfo := do
  let config ← s.configs candidate.addr
  let pool ← s.pools candidate.addr
  if pool.nextPower ≥ env.config.minimumStake then
    some ⟨candidate.addr, pool.nextPower, config⟩
  else none

variable {info candidate : ValidatorInfo}

theorem StakeState.entry_eq_some {old : ValidatorInfo} (listed : s.entry env old = some info) :
    info.addr = old.addr ∧ ∃ pool, s.pools info.addr = some pool ∧
      info.votingPower = pool.nextPower ∧ pool.nextPower ≥ env.config.minimumStake := by
  obtain ⟨config, -, listed⟩ := Option.bind_eq_some_iff.mp listed
  obtain ⟨pool, found, listed⟩ := Option.bind_eq_some_iff.mp listed
  split at listed
  · next enough =>
    cases listed
    exact ⟨rfl, pool, found, rfl, enough⟩
  · cases listed

theorem addresses_entries (olds : List ValidatorInfo) :
    (addresses (olds.filterMap (s.entry env))).Sublist (addresses olds) := by
  induction olds with
  | nil => exact .slnil
  | cons old olds ih =>
    rw [filterMap_cons]
    cases listed : s.entry env old with
    | none => exact ih.cons _
    | some info =>
      change (info.addr :: addresses _).Sublist (old.addr :: addresses olds)
      rw [(entry_eq_some listed).1]
      exact ih.cons_cons _

/-- What the end of an epoch needs of a candidate. -/
structure Refreshable (s : StakeState) (candidate : ValidatorInfo) (config : ValidatorConfig)
    (pool : StakePool) : Prop where
  configured : s.configs candidate.addr = some config
  found : s.pools candidate.addr = some pool
  fits : pool.nextPower ≤ u64Max

theorem Refreshable.entry_eq {config : ValidatorConfig}
    (refreshable : Refreshable s candidate config pool) :
    s.entry env candidate = if pool.nextPower ≥ env.config.minimumStake then
      some ⟨candidate.addr, pool.nextPower, config⟩ else none := by
  rw [entry, refreshable.configured, refreshable.found]
  rfl

def totalPower (infos : List ValidatorInfo) : Nat := (infos.map (·.votingPower)).sum

theorem totalPower_append (infos more : List ValidatorInfo) :
    totalPower (infos ++ more) = totalPower infos + totalPower more := by
  rw [totalPower, map_append, sum_append]
  rfl

variable {next next' : List ValidatorInfo × Nat}

theorem refreshValidator_eq (ok : s.refreshValidator env next candidate = .ok next') :
    (∃ config pool, Refreshable s candidate config pool) ∧
      next' = (next.1 ++ (s.entry env candidate).toList,
        next.2 + totalPower (s.entry env candidate).toList) ∧
      (next.2 ≤ u128Max → next'.2 ≤ u128Max) := by
  obtain ⟨config, configured, ok⟩ := of_bind ok
  obtain ⟨pool, borrowed, ok⟩ := of_bind ok
  obtain ⟨info, generated, ok⟩ := of_bind ok
  obtain ⟨power, sum, rfl⟩ := of_return generated
  obtain ⟨fits, rfl⟩ := getNextEpochVotingPower_eq_ok.mp sum
  have refreshable : Refreshable s candidate config pool :=
    ⟨borrow_eq_ok.mp configured, borrow_eq_ok.mp borrowed, fits⟩
  refine ⟨⟨config, pool, refreshable⟩, ?_⟩
  rw [refreshable.entry_eq]
  split_ifs at ok ⊢
  · obtain ⟨total, summed, rfl⟩ := of_return ok
    obtain ⟨bounded, rfl⟩ := add_eq_ok.mp summed
    exact ⟨rfl, fun _ => bounded⟩
  · cases ok
    refine ⟨?_, id⟩
    rw [Option.toList_none, append_nil]
    rfl

theorem entries_cons (candidates : List ValidatorInfo) :
    (candidate :: candidates).filterMap (s.entry env) =
      (s.entry env candidate).toList ++ candidates.filterMap (s.entry env) := by
  rw [filterMap_eq_flatMap_toList, filterMap_eq_flatMap_toList, flatMap_cons]

theorem refreshValidators_eq {candidates : List ValidatorInfo}
    (ok : candidates.foldlM (s.refreshValidator env) next = .ok next') :
    (∀ candidate ∈ candidates, ∃ config pool, Refreshable s candidate config pool) ∧
      next' = (next.1 ++ candidates.filterMap (s.entry env),
        next.2 + totalPower (candidates.filterMap (s.entry env))) ∧
      (next.2 ≤ u128Max → next'.2 ≤ u128Max) := by
  induction candidates generalizing next with
  | nil =>
    cases ok
    refine ⟨forall_mem_nil _, ?_, id⟩
    rw [filterMap_nil, append_nil]
    rfl
  | cons candidate candidates ih =>
    obtain ⟨middle, first, rest⟩ := of_bind ok
    obtain ⟨refreshable, rfl, bounded⟩ := refreshValidator_eq first
    obtain ⟨others, rfl, bounded'⟩ := ih rest
    refine ⟨forall_mem_cons.mpr ⟨refreshable, others⟩, ?_, bounded' ∘ bounded⟩
    rw [entries_cons, totalPower_append, append_assoc, add_assoc]

theorem renewLockup_ok (ok : pool.renewLockup env = .ok pool') :
    ∃ until_, pool' = { pool with lockedUntilSecs := until_ } := by
  unfold StakePool.renewLockup at ok
  split at ok
  · obtain ⟨_, -, rfl⟩ := of_return ok
    exact ⟨_, rfl⟩
  · cases ok
    exact ⟨_, rfl⟩

theorem renewValidator_ok {i : Nat} {info' : ValidatorInfo}
    (ok : s.renewValidator env i info = .ok (s', info')) :
    ∃ config : ValidatorConfig, ∃ pool until_, s.pools info.addr = some pool ∧
      s' = { s.setPool info.addr { pool with lockedUntilSecs := until_ } with
        configs := update s.configs info.addr (some { config with validatorIndex := i }),
        performance := s.performance ++ [⟨0, 0⟩] } ∧
      info' = { info with config := { info.config with validatorIndex := i } } := by
  obtain ⟨config, -, ok⟩ := of_bind ok
  obtain ⟨pool, borrowed, ok⟩ := of_bind ok
  obtain ⟨_, renewed, same⟩ := of_bind ok
  obtain ⟨until_, rfl⟩ := renewLockup_ok renewed
  cases same
  exact ⟨config, pool, until_, borrow_eq_ok.mp borrowed, rfl, rfl⟩

/-- What every renewal does to the state and what can be composed, all of them do. -/
theorem renewValidators_relates {R : StakeState → StakeState → Prop} (refl : ∀ s, R s s)
    (trans : ∀ {a b c}, R a b → R b c → R a c)
    (each : ∀ {s i info s' info'}, s.renewValidator env i info = .ok (s', info') → R s s')
    {i : Nat} {infos infos' : List ValidatorInfo}
    (ok : renewValidators env s i infos = .ok (s', infos')) : R s s' := by
  induction infos generalizing s i infos' with
  | nil =>
    cases ok
    exact refl _
  | cons info infos ih =>
    obtain ⟨⟨s₁, info'⟩, first, ok⟩ := of_bind ok
    obtain ⟨⟨s₂, rest⟩, more, same⟩ := of_bind ok
    cases same
    exact trans (each first) (ih more)

/-- Each pool has the same stake in both states. -/
def SameStake (s s' : StakeState) : Prop :=
  ∀ a, Option.Rel (fun pool pool' => pool'.currentPower = pool.currentPower ∧
    pool'.pendingActive = pool.pendingActive) (s.pools a) (s'.pools a)

theorem SameStake.refl (s : StakeState) : SameStake s s := by
  intro a
  cases s.pools a with
  | none => exact .none
  | some pool => exact .some ⟨rfl, rfl⟩

theorem SameStake.trans {s'' : StakeState} (first : SameStake s s') (second : SameStake s' s'') :
    SameStake s s'' := by
  intro a
  have one := first a
  have two := second a
  generalize s.pools a = before at one ⊢
  generalize s'.pools a = middle at one two
  generalize s''.pools a = after at two ⊢
  cases one with
  | none =>
    cases two
    exact .none
  | some same =>
    cases two with
    | some same' => exact .some ⟨same'.1.trans same.1, same'.2.trans same.2⟩

theorem renewValidator_sameStake {i : Nat} {info' : ValidatorInfo}
    (ok : s.renewValidator env i info = .ok (s', info')) : SameStake s s' := by
  obtain ⟨config, pool, until_, found, rfl, -⟩ := renewValidator_ok ok
  intro b
  change Option.Rel _ _ ((s.setPool _ _).pools b)
  by_cases same : b = info.addr
  · rw [same, found, setPool_self]
    exact .some ⟨rfl, rfl⟩
  · rw [setPool_of_ne same]
    exact SameStake.refl s b

/-- The entries with the indices from `i` on. -/
def indexedFrom : Nat → List ValidatorInfo → List ValidatorInfo
  | _, [] => []
  | i, info :: infos =>
    { info with config := { info.config with validatorIndex := i } } :: indexedFrom (i + 1) infos

theorem addresses_indexedFrom (i : Nat) (infos : List ValidatorInfo) :
    addresses (indexedFrom i infos) = addresses infos := by
  induction infos generalizing i with
  | nil => rfl
  | cons info infos ih => exact congrArg (info.addr :: ·) (ih (i + 1))

theorem entries_indexedFrom (i : Nat) (infos : List ValidatorInfo) :
    (indexedFrom i infos).map (fun info => (info.addr, info.votingPower)) =
        infos.map (fun info => (info.addr, info.votingPower)) ∧
      (indexedFrom i infos).map (·.config.validatorIndex) = List.range' i infos.length := by
  induction infos generalizing i with
  | nil => exact ⟨rfl, rfl⟩
  | cons info infos ih =>
    obtain ⟨entries, indices⟩ := ih (i + 1)
    exact ⟨congrArg (_ :: ·) entries, congrArg (i :: ·) indices⟩

theorem renewValidators_eq {i : Nat} {infos infos' : List ValidatorInfo}
    (ok : renewValidators env s i infos = .ok (s', infos')) :
    infos' = indexedFrom i infos ∧ s'.performance.length = s.performance.length + infos.length ∧
      (∀ a, a ∉ addresses infos → s'.configs a = s.configs a) ∧
      ((addresses infos).Nodup → ∀ info ∈ infos', ∃ config, s'.configs info.addr = some config ∧
        config.validatorIndex = info.config.validatorIndex) := by
  induction infos generalizing s i infos' with
  | nil =>
    cases ok
    exact ⟨rfl, rfl, fun _ _ => rfl, fun _ => forall_mem_nil _⟩
  | cons info infos ih =>
    obtain ⟨⟨s₁, info'⟩, first, ok⟩ := of_bind ok
    obtain ⟨⟨s₂, rest⟩, more, same⟩ := of_bind ok
    cases same
    obtain ⟨config, pool, until_, -, rfl, rfl⟩ := renewValidator_ok first
    obtain ⟨rfl, rounds, kept, indexed⟩ := ih more
    refine ⟨rfl, ?_, fun b outside => ?_, fun distinct => ?_⟩
    · rw [rounds, length_append, length_singleton, length_cons]
      omega
    · have ne : b ≠ info.addr := fun same => outside (same ▸ mem_cons_self)
      rw [kept b fun later => outside (mem_cons_of_mem _ later)]
      exact update_of_ne ne _ _
    · obtain ⟨outside, distinct⟩ := nodup_cons.mp distinct
      refine forall_mem_cons.mpr ⟨⟨{ config with validatorIndex := i }, ?_, rfl⟩, indexed distinct⟩
      rw [kept _ outside]
      exact update_self _ _ _

/-- A validator of the next epoch has the minimum stake. -/
theorem entry_of_indexedFrom {candidates : List ValidatorInfo} {i : Nat}
    (mem : info ∈ indexedFrom i (candidates.filterMap (s.entry env))) :
    ∃ pool, s.pools info.addr = some pool ∧ info.votingPower = pool.nextPower ∧
      pool.nextPower ≥ env.config.minimumStake := by
  have entry : (info.addr, info.votingPower) ∈ (indexedFrom i (candidates.filterMap (s.entry env))).map
      (fun info => (info.addr, info.votingPower)) := mem_map_of_mem mem
  rw [(entries_indexedFrom _ _).1] at entry
  obtain ⟨old, oldMem, same⟩ := mem_map.mp entry
  obtain ⟨addr, power⟩ := Prod.mk.inj same
  obtain ⟨_, -, listed⟩ := mem_filterMap.mp oldMem
  rw [← addr, ← power]
  exact (entry_eq_some listed).2

/-- Only the validators of the epoch have pending stake, and it is theirs before they are asked
for their power. -/
theorem onNewEpoch_ok (sound : Sound s added) (ok : s.onNewEpoch env = .ok s') :
    Sound s' 0 ∧ s'.set.totalJoiningPower = 0 := by
  obtain ⟨s₁, stay, ok⟩ := of_bind ok
  obtain ⟨s₂, leave, ok⟩ := of_bind ok
  obtain ⟨⟨next, total⟩, refreshed, ok⟩ := of_bind ok
  obtain ⟨⟨s₃, validators⟩, renewed, ok⟩ := of_bind ok
  obtain ⟨fees, -, rfl⟩ := of_return ok
  have ended := updateStakePools_current stay leave
  obtain ⟨kept, updated⟩ := updateStakePools_eq sound.current_nodup ended
  have settled : ∀ a pool, s₂.pools a = some pool → pool.pendingActive = 0 := by
    intro a pool found
    by_cases current : a ∈ addresses s.set.current
    · obtain ⟨_, _, _, pool', -, -, -, after, empty, -⟩ := updated a current
      cases after.symm.trans found
      exact empty
    · rw [kept a current] at found
      exact sound.idle a pool found current
  obtain ⟨-, eq, -⟩ := refreshValidators_eq refreshed
  rw [nil_append, zero_add, Prod.mk.injEq] at eq
  obtain ⟨rfl, rfl⟩ := eq
  obtain ⟨rfl, rounds, -⟩ := renewValidators_eq renewed
  have stake := renewValidators_relates .refl .trans renewValidator_sameStake renewed
  refine ⟨⟨?_, ?_, ?_, ?_, ?_, rfl, ?_⟩, rfl⟩
  · -- the validators that stay and those that join
    have olds : (addresses (s₂.set.activeValidators ++ s₂.set.pendingActive.reverse)).Nodup := by
      have distinct := sound.distinct
      rw [(Updating.of_fold ended).set]
      unfold ValidatorSet.current at distinct
      rw [addresses_append, addresses_append] at distinct
      rw [addresses_append]
      have apart := disjoint_of_nodup_append distinct
      refine .append distinct.of_append_left.of_append_left ?_ ?_
      · rw [addresses, map_reverse]
        exact nodup_reverse.mpr distinct.of_append_right
      · intro b active joins
        rw [addresses, map_reverse, mem_reverse] at joins
        exact apart (mem_append_left _ active) joins
    change (addresses ((indexedFrom 0 _ ++ []) ++ [])).Nodup
    rw [append_nil, append_nil, addresses_indexedFrom]
    exact (addresses_entries _).nodup olds
  · change ((indexedFrom 0 _ ++ []).map _).Perm (range s₃.performance.length)
    rw [append_nil, (entries_indexedFrom _ _).2, rounds, length_nil, zero_add, range_eq_range']
  · intro info mem
    change info ∈ indexedFrom 0 _ ++ [] at mem
    rw [append_nil] at mem
    obtain ⟨pool, found, power, -⟩ := entry_of_indexedFrom mem
    have related := stake info.addr
    rw [show ({ s₂ with performance := [] } : StakeState).pools info.addr = some pool
      from found] at related
    obtain ⟨pool', here⟩ : ∃ pool', s₃.pools info.addr = some pool' := by
      generalize s₃.pools info.addr = after at related
      cases related with
      | some _ => exact ⟨_, rfl⟩
    refine ⟨pool', here, ?_⟩
    rw [here, Option.rel_some_some] at related
    rw [related.1, power, nextPower_eq, settled _ pool found, zero_add]
  · change _ = ((indexedFrom 0 _ ++ []).map _).sum
    have powers := congrArg (map Prod.snd) (entries_indexedFrom 0
      ((s₂.set.activeValidators ++ s₂.set.pendingActive.reverse).filterMap (s₂.entry env))).1
    rw [map_map, map_map] at powers
    rw [append_nil]
    exact (congrArg sum powers).symm
  · intro b mem
    cases mem
  · intro b pool' here _
    have related := stake b
    rw [show s₃.pools b = some pool' from here] at related
    generalize found : s₂.pools b = before at related
    cases related with
    | some same => exact same.2.trans (settled b _ found)

/-! ## Runs -/

/-- The calls of the stake module. -/
inductive StakeCall where
  | configureAllowedValidators (accounts : List Address)
  | initializeStakeOwner (owner : Address) (initialStakeAmount : Nat) (operator voter : Address)
  | initializeValidator (account : Address)
      (consensusPubkey proofOfPossession networkAddresses fullnodeAddresses : List UInt8)
  | extractOwnerCap (owner : Address)
  | depositOwnerCap (owner : Address) (ownerCap : OwnerCapability)
  | setOperator (owner newOperator : Address)
  | setOperatorWithCap (ownerCap : OwnerCapability) (newOperator : Address)
  | setDelegatedVoter (owner newVoter : Address)
  | setDelegatedVoterWithCap (ownerCap : OwnerCapability) (newVoter : Address)
  | rotateConsensusKey (operator poolAddress : Address)
      (newConsensusPubkey proofOfPossession : List UInt8)
  | updateNetworkAndFullnodeAddresses (operator poolAddress : Address)
      (newNetworkAddresses newFullnodeAddresses : List UInt8)
  | addStake (owner : Address) (amount : Nat)
  | addStakeWithCap (ownerCap : OwnerCapability) (coins : Nat)
  | reactivateStake (owner : Address) (amount : Nat)
  | reactivateStakeWithCap (ownerCap : OwnerCapability) (amount : Nat)
  | increaseLockup (owner : Address)
  | increaseLockupWithCap (ownerCap : OwnerCapability)
  | unlock (owner : Address) (amount : Nat)
  | unlockWithCap (amount : Nat) (ownerCap : OwnerCapability)
  | withdraw (owner : Address) (withdrawAmount : Nat)
  | withdrawWithCap (ownerCap : OwnerCapability) (withdrawAmount : Nat)
  | joinValidatorSet (operator poolAddress : Address)
  | joinValidatorSetInternal (operator poolAddress : Address)
  | leaveValidatorSet (operator poolAddress : Address)
  | removeValidators (validators : List Address)
  | initializePendingTransactionFee
  | recordFee (feeDistributionValidatorIndices feeAmountsOcta : List Nat)
  | updatePerformanceStatistics (proposerIndex : Option Nat) (failedProposerIndices : List Nat)
  | onNewEpoch

def StakeState.call (env : StakeEnv) (s : StakeState) : StakeCall → Checked StakeState
  | .configureAllowedValidators accounts => return s.configureAllowedValidators accounts
  | .initializeStakeOwner owner amount operator voter =>
    s.initializeStakeOwner env owner amount operator voter
  | .initializeValidator account key pop network fullnode =>
    s.initializeValidator env account key pop network fullnode
  | .extractOwnerCap owner => do
      let (_, s) ← s.extractOwnerCap env owner
      return s
  | .depositOwnerCap owner ownerCap => s.depositOwnerCap env owner ownerCap
  | .setOperator owner newOperator => s.setOperator env owner newOperator
  | .setOperatorWithCap ownerCap newOperator => s.setOperatorWithCap ownerCap newOperator
  | .setDelegatedVoter owner newVoter => s.setDelegatedVoter env owner newVoter
  | .setDelegatedVoterWithCap ownerCap newVoter => s.setDelegatedVoterWithCap ownerCap newVoter
  | .rotateConsensusKey operator poolAddress key pop =>
    s.rotateConsensusKey env operator poolAddress key pop
  | .updateNetworkAndFullnodeAddresses operator poolAddress network fullnode =>
    s.updateNetworkAndFullnodeAddresses env operator poolAddress network fullnode
  | .addStake owner amount => s.addStake env owner amount
  | .addStakeWithCap ownerCap coins => s.addStakeWithCap env ownerCap coins
  | .reactivateStake owner amount => s.reactivateStake env owner amount
  | .reactivateStakeWithCap ownerCap amount => s.reactivateStakeWithCap env ownerCap amount
  | .increaseLockup owner => s.increaseLockup env owner
  | .increaseLockupWithCap ownerCap => s.increaseLockupWithCap env ownerCap
  | .unlock owner amount => s.unlock env owner amount
  | .unlockWithCap amount ownerCap => s.unlockWithCap env amount ownerCap
  | .withdraw owner amount => do
      let (_, s) ← s.withdraw env owner amount
      return s
  | .withdrawWithCap ownerCap amount => do
      let (_, s) ← s.withdrawWithCap env ownerCap amount
      return s
  | .joinValidatorSet operator poolAddress => s.joinValidatorSet env operator poolAddress
  | .joinValidatorSetInternal operator poolAddress =>
    s.joinValidatorSetInternal env operator poolAddress
  | .leaveValidatorSet operator poolAddress => s.leaveValidatorSet env operator poolAddress
  | .removeValidators validators => s.removeValidators env validators
  | .initializePendingTransactionFee => return s.initializePendingTransactionFee
  | .recordFee indices amounts => s.recordFee indices amounts
  | .updatePerformanceStatistics proposerIndex failedProposerIndices =>
    s.updatePerformanceStatistics proposerIndex failedProposerIndices
  | .onNewEpoch => s.onNewEpoch env

/-- The pool that a call adds stake to, and how much. -/
def StakeState.funded (s : StakeState) : StakeCall → Option (Address × Nat)
  | .addStake owner amount => (s.ownerCaps owner).map fun ownerCap => (ownerCap.poolAddress, amount)
  | .addStakeWithCap ownerCap coins => some (ownerCap.poolAddress, coins)
  | .initializeStakeOwner owner initialStakeAmount _ _ => some (owner, initialStakeAmount)
  | _ => none

/-- A state, and the stake that pools have added in this epoch while they were active. -/
structure Staking where
  state : StakeState
  added : Nat

namespace Staking

def start : Staking := ⟨.initial, 0⟩

/-- The stake added while active, after a call. -/
def addedBy (t : Staking) : StakeCall → Nat
  | .onNewEpoch => 0
  | call =>
    match t.state.funded call with
    | some (poolAddress, amount) => t.state.addedTo t.added poolAddress amount
    | none => t.added

def step (input : StakeEnv × StakeCall) (t : Staking) : Option Staking := do
  let state ← (t.state.call input.1 input.2).committed
  return ⟨state, t.addedBy input.2⟩

/-- The states of all runs. -/
def Reached (t : Staking) : Prop := Run.Reaches step (fun _ _ => True) (· = start) t

/-- The states of the runs under a limit for the increase of the voting power. -/
def ReachedWithin (limit : Nat) (t : Staking) : Prop :=
  Run.Reaches step (fun _ input => input.1.config.votingPowerIncreaseLimit ≤ limit) (· = start) t

end Staking

theorem Minor.step {limit : Nat} (minor : Minor s s') :
    StakeStep limit s added s' added ∧ Keeps s s' :=
  ⟨.quiet minor.quiet, minor.keeps⟩

theorem call_effect {t : Staking} (sound : Sound t.state t.added) {input : StakeCall}
    (inside : input ≠ .onNewEpoch) (ok : t.state.call env input = .ok s') :
    StakeStep env.config.votingPowerIncreaseLimit t.state t.added s' (t.addedBy input) ∧
      Keeps t.state s' := by
  cases input with
  | configureAllowedValidators accounts =>
    cases ok
    exact Minor.step (.of_same rfl rfl rfl rfl rfl)
  | initializeStakeOwner owner amount operator voter =>
    have outside : owner ∉ addresses t.state.set.activeValidators := by
      have unlisted := sound.unlisted (initializeStakeOwner_ok ok).1
      rw [addresses_append, mem_append, mem_current] at unlisted
      exact fun active => unlisted (.inl (.inl active))
    have same : t.addedBy (.initializeStakeOwner owner amount operator voter) = t.added :=
      if_neg outside
    rw [same]
    exact (initializeStakeOwner_minor sound ok).step
  | initializeValidator account key pop network fullnode =>
    exact (initializeValidator_minor ok).step
  | extractOwnerCap owner =>
    obtain ⟨⟨ownerCap, s₁⟩, extracted, rfl⟩ := of_return ok
    exact (extractOwnerCap_minor extracted).step
  | depositOwnerCap owner ownerCap => exact (depositOwnerCap_minor ok).step
  | setOperator owner newOperator => exact (setOperator_minor ok).step
  | setOperatorWithCap ownerCap newOperator => exact (setOperatorWithCap_minor ok).step
  | setDelegatedVoter owner newVoter => exact (setDelegatedVoter_minor ok).step
  | setDelegatedVoterWithCap ownerCap newVoter => exact (setDelegatedVoterWithCap_minor ok).step
  | rotateConsensusKey operator poolAddress key pop =>
    obtain ⟨config, found, rfl⟩ := rotateConsensusKey_ok ok
    exact Minor.step (.of_config found rfl)
  | updateNetworkAndFullnodeAddresses operator poolAddress network fullnode =>
    exact (updateNetworkAndFullnodeAddresses_minor ok).step
  | addStake owner amount =>
    obtain ⟨ownerCap, stored, ok⟩ := addStake_ok ok
    have same : t.addedBy (.addStake owner amount) =
        t.state.addedTo t.added ownerCap.poolAddress amount := by
      simp only [Staking.addedBy, funded, stored, Option.map_some]
    rw [same]
    exact ⟨addStakeWithCap_step sound ok, addStakeWithCap_keeps ok⟩
  | addStakeWithCap ownerCap coins =>
    exact ⟨addStakeWithCap_step sound ok, addStakeWithCap_keeps ok⟩
  | reactivateStake owner amount =>
    have ok := of_check ok
    have ok := of_check ok
    obtain ⟨ownerCap, -, ok⟩ := withOwnerCap_ok ok
    exact (reactivateStakeWithCap_minor ok).step
  | reactivateStakeWithCap ownerCap amount => exact (reactivateStakeWithCap_minor ok).step
  | increaseLockup owner =>
    have ok := of_check ok
    obtain ⟨ownerCap, -, ok⟩ := withOwnerCap_ok ok
    exact (increaseLockupWithCap_minor ok).step
  | increaseLockupWithCap ownerCap => exact (increaseLockupWithCap_minor ok).step
  | unlock owner amount =>
    have ok := of_check ok
    have ok := of_check ok
    obtain ⟨ownerCap, -, ok⟩ := withOwnerCap_ok ok
    exact (unlockWithCap_minor ok).step
  | unlockWithCap amount ownerCap => exact (unlockWithCap_minor ok).step
  | withdraw owner amount =>
    obtain ⟨⟨coins, s₁⟩, withdrawn, rfl⟩ := of_return ok
    have withdrawn := of_check withdrawn
    obtain ⟨ownerCap, -, withdrawn⟩ := withOwnerCap_ok withdrawn
    exact (withdrawWithCap_minor withdrawn).step
  | withdrawWithCap ownerCap amount =>
    obtain ⟨⟨coins, s₁⟩, withdrawn, rfl⟩ := of_return ok
    exact (withdrawWithCap_minor withdrawn).step
  | joinValidatorSet operator poolAddress =>
    exact joinValidatorSetInternal_step (joinValidatorSet_ok ok)
  | joinValidatorSetInternal operator poolAddress => exact joinValidatorSetInternal_step ok
  | leaveValidatorSet operator poolAddress => exact leaveValidatorSet_step ok
  | removeValidators validators => exact removeValidators_step ok
  | initializePendingTransactionFee =>
    cases ok
    exact initializePendingTransactionFee_minor.step
  | recordFee indices amounts => exact (recordFee_minor ok).step
  | updatePerformanceStatistics proposerIndex failedProposerIndices =>
    obtain ⟨performance, rounds, rfl⟩ := updatePerformanceStatistics_ok ok
    exact Minor.step (.of_same rfl rounds rfl rfl rfl)
  | onNewEpoch => exact absurd rfl inside

namespace Staking

variable {t t' : Staking} {input : StakeEnv × StakeCall} {limit : Nat}

theorem step_stakeStep (sound : Sound t.state t.added) (done : step input t = some t') :
    StakeStep input.1.config.votingPowerIncreaseLimit t.state t.added t'.state t'.added := by
  obtain ⟨state, called, same⟩ := Option.bind_eq_some_iff.mp done
  cases same
  obtain ⟨env, call⟩ := input
  have ok := committed_eq_some.mp called
  by_cases epoch : call = .onNewEpoch
  · subst epoch
    obtain ⟨fresh, unjoined⟩ := onNewEpoch_ok sound ok
    exact .epoch fresh unjoined
  · exact (call_effect sound epoch ok).1

theorem sound_of_reached (reached : Reached t) : Sound t.state t.added := by
  refine Run.Reaches.invariant (I := fun t => Sound t.state t.added) ?_ ?_ reached
  · rintro t rfl
    exact .initial
  · intro t input t' sound _ done
    exact (step_stakeStep sound done).sound sound

theorem capped_of_reached (reached : ReachedWithin limit t) : t.state.set.Capped limit := by
  suffices both : Sound t.state t.added ∧ t.state.set.Capped limit from both.2
  refine Run.Reaches.invariant
    (I := fun t => Sound t.state t.added ∧ t.state.set.Capped limit) ?_ ?_ reached
  · rintro t rfl
    exact ⟨.initial, fun voting => absurd voting (lt_irrefl 0)⟩
  · intro t input t' ⟨sound, capped⟩ within done
    have step := step_stakeStep sound done
    exact ⟨step.sound sound, step.capped within capped⟩

end Staking

/-- The books of every state that is reached: each pool is in one list at most once, the indices
of the validators are those of the performance records, their voting powers are their stake, and
the totals are the sums. -/
theorem stake_accounted {t : Staking} (reached : t.Reached) :
    (addresses (t.state.set.activeValidators ++ t.state.set.pendingActive ++
      t.state.set.pendingInactive)).Nodup ∧
    ((t.state.set.activeValidators ++ t.state.set.pendingInactive).map
      (·.config.validatorIndex)).Perm (List.range t.state.performance.length) ∧
    (∀ info ∈ t.state.set.activeValidators ++ t.state.set.pendingInactive,
      ∃ pool, t.state.pools info.addr = some pool ∧
        info.votingPower = pool.active + pool.pendingInactive) ∧
    t.state.set.totalVotingPower =
      ((t.state.set.activeValidators ++ t.state.set.pendingInactive).map (·.votingPower)).sum ∧
    (∀ info ∈ t.state.set.pendingActive, ∃ pool, t.state.pools info.addr = some pool) ∧
    t.state.set.totalJoiningPower =
      (t.state.set.pendingActive.map fun info => t.state.nextPower info.addr).sum + t.added ∧
    ∀ limit, t.ReachedWithin limit → 0 < t.state.set.totalVotingPower →
      t.state.set.totalJoiningPower ≤ t.state.set.totalVotingPower * limit / 100 := by
  have sound := Staking.sound_of_reached reached
  refine ⟨?_, sound.indices, sound.powers, sound.total, ?_, ?_, ?_⟩
  · refine (Perm.nodup_iff ?_).mpr sound.distinct
    unfold ValidatorSet.current
    rw [append_assoc, append_assoc]
    exact (perm_append_comm.append_left _).map _
  · intro info mem
    exact sound.registered info.addr (mem_map_of_mem mem)
  · rw [sound.joining, addresses, map_map]
    rfl
  · intro limit within
    exact Staking.capped_of_reached within

/-! A validator that adds stake in its first epoch, while another one asks to join. -/

namespace SecondValidator

def setting : StakeEnv where
  config := ⟨10, 1000, 3600, true, 1, 100, 50⟩
  nowSecs := 100
  reconfigStartTimeSecs := 100
  reconfigInProgress := false
  chainOperating := true
  distributeTransactionFeeEnabled := true
  publicKeyWithPop := fun _ _ => true
  stakePermission := true

def inputs : List (StakeEnv × StakeCall) :=
  [(setting, .initializeValidator 1 [7] [] [] []), (setting, .addStake 1 100),
    (setting, .joinValidatorSet 1 1), (setting, .onNewEpoch),
    (setting, .initializeValidator 2 [8] [] [] []), (setting, .addStake 2 20),
    (setting, .joinValidatorSet 2 2), (setting, .addStake 1 5)]

def joined : Staking := inputs.foldl (fun t input => (Staking.step input t).getD t) .start

theorem joined_reached : joined.Reached := by
  refine Run.Reaches.of_inputs (.start rfl) inputs ?_
  exact ⟨trivial, _, rfl, trivial, _, rfl, trivial, _, rfl, trivial, _, rfl, trivial, _, rfl,
    trivial, _, rfl, trivial, _, rfl, trivial, _, rfl, rfl⟩

theorem joined_accounted :
    joined.state.set.totalJoiningPower =
      (joined.state.set.pendingActive.map fun info => joined.state.nextPower info.addr).sum +
        joined.added ∧
    joined.added = 5 ∧ joined.state.set.totalVotingPower = 100 ∧
      joined.state.set.totalJoiningPower = 25 := by
  obtain ⟨-, -, -, -, -, joining, -⟩ := stake_accounted joined_reached
  exact ⟨joining, rfl, rfl, rfl⟩

end SecondValidator

end CreditChain
