import CreditChain.Staking.Prediction
import CreditChain.Staking.RewardsConfig

/-!
# The end of an epoch does not abort

Each stage of the end of an epoch succeeds: the pools are brought up to date, the fees are all
taken, the new entries are computed and renewed.  The fee of a validator is divided by its stake,
so that no validator of the epoch may be without stake.
-/

namespace CreditChain

open Checked Function OrderedMap
open CreditChain.Except (bind_eq_ok ok_bind)
open List (forall_mem_nil map_cons mem_cons mem_map_of_mem)

variable {env : StakeEnv} {s s' : StakeState} {added : Nat} {a : Address}

/-! ## One pool -/

/-- All coins of a pool. -/
def StakePool.coins (pool : StakePool) : Nat :=
  pool.active + pool.inactive + pool.pendingActive + pool.pendingInactive

def StakeState.coins (s : StakeState) (a : Address) : Nat := (s.pools a).elim 0 StakePool.coins

theorem nextPower_le_coins (pool : StakePool) : pool.nextPower ≤ pool.coins := by
  unfold StakePool.nextPower StakePool.coins
  omega

theorem currentPower_le_coins (pool : StakePool) : pool.currentPower ≤ pool.coins := by
  unfold StakePool.currentPower StakePool.coins
  omega

/-- The rewards of a stake. -/
def rewardAmount (config : StakingConfig) (perf : IndividualValidatorPerformance)
    (stake : Nat) : Nat :=
  stake * config.rewardsRate * perf.successfulProposals /
    (config.rewardsRateDenominator * (perf.successfulProposals + perf.failedProposals))

/-- The number of proposals of an epoch with which rewards are computed without overflow. -/
def proposalLimit : Nat := 2 ^ 44

section

variable {config : StakingConfig} {perf : IndividualValidatorPerformance} {stake : Nat}

theorem rewardAmount_le (rated : config.Accepted) : rewardAmount config perf stake ≤ stake := by
  refine Nat.div_le_of_le_mul ?_
  rw [mul_assoc, mul_comm _ stake]
  exact Nat.mul_le_mul_left _ (Nat.mul_le_mul rated.proper (Nat.le_add_right _ _))

theorem rewardsOf_eq (rated : config.Accepted) (fits : stake ≤ u64Max)
    (few : perf.successfulProposals + perf.failedProposals < proposalLimit) :
    rewardsOf config stake perf.successfulProposals
      (perf.successfulProposals + perf.failedProposals) =
      .ok (rewardAmount config perf stake) := by
  have fewer : perf.successfulProposals ≤ proposalLimit := by omega
  by_cases positive : stake > 0
  · have product : stake * config.rewardsRate ≤ u64Max * maxRewardsRate :=
      Nat.mul_le_mul fits rated.small
    have numerator := Nat.mul_le_mul product fewer
    have denominator := Nat.mul_le_mul rated.fits few.le
    rw [rewardsOf, if_pos positive, calculateRewardsAmount,
      mul_eq_ok.mpr ⟨product.trans (by decide), rfl⟩, ok_bind,
      mul_eq_ok.mpr ⟨numerator.trans (by decide), rfl⟩, ok_bind,
      mul_eq_ok.mpr ⟨denominator.trans (by decide), rfl⟩, ok_bind]
    by_cases proposed : config.rewardsRateDenominator *
        (perf.successfulProposals + perf.failedProposals) > 0
    · rw [if_pos proposed]
      exact cast_eq_ok.mpr ⟨(rewardAmount_le rated).trans fits, rfl⟩
    · rw [rewardAmount, Nat.eq_zero_of_not_pos proposed, Nat.div_zero]
      rfl
  · obtain rfl : stake = 0 := Nat.eq_zero_of_not_pos positive
    rw [rewardAmount, Nat.zero_mul, Nat.zero_mul, Nat.zero_div]
    rfl

theorem mintInto_eq {amount : Nat} (fits : stake + amount ≤ u64Max) :
    mintInto stake amount = .ok (stake + amount) := by
  unfold mintInto
  split
  · exact add_eq_ok.mpr ⟨fits, rfl⟩
  · rename_i positive
    rw [Nat.eq_zero_of_not_pos positive]
    rfl

theorem distributeRewards_eq (rated : config.Accepted)
    (few : perf.successfulProposals + perf.failedProposals < proposalLimit)
    (fits : stake + rewardAmount config perf stake ≤ u64Max) :
    distributeRewards config stake perf.successfulProposals
      (perf.successfulProposals + perf.failedProposals) =
      .ok (stake + rewardAmount config perf stake, rewardAmount config perf stake) := by
  rw [distributeRewards, rewardsOf_eq rated (by omega) few, ok_bind, mintInto_eq fits]
  rfl

end

variable {fees : Option (OrderedMap Nat Nat)}

/-- The fee is divided by the stake of the epoch. -/
theorem collectFee_eq {index : Nat} {pool : StakePool}
    (voting : 0 < pool.currentPower) (fits : pool.currentPower ≤ u64Max)
    (bounded : ∀ fee, fees.bind (·.find? index) = some fee → fee ≤ u64Max) :
    ∃ feeActive feeLeaving fees', collectFee fees index pool = .ok (feeActive, feeLeaving, fees') ∧
      ∀ i, fees'.bind (·.find? i) = if i = index then none else fees.bind (·.find? i) := by
  unfold collectFee
  cases fees with
  | none =>
    refine ⟨0, 0, none, rfl, fun i => ?_⟩
    rw [Option.bind_none, ite_self]
  | some fees =>
    simp only [Option.bind_some] at bounded ⊢
    cases listed : fees.find? index with
    | none =>
      refine ⟨0, 0, some fees, rfl, fun i => ?_⟩
      split
      · rename_i same
        rw [same]
        exact listed
      · rfl
    | some fee =>
      have small := bounded fee listed
      unfold StakePool.currentPower at voting fits
      have product : fee * pool.pendingInactive ≤ u64Max * u64Max :=
        Nat.mul_le_mul small (by omega)
      have share : fee * pool.pendingInactive / (pool.active + pool.pendingInactive) ≤ fee := by
        refine Nat.div_le_of_le_mul ?_
        rw [mul_comm _ fee]
        exact Nat.mul_le_mul_left _ (Nat.le_add_left _ _)
      have wide : u64Max ≤ u128Max := by decide
      refine ⟨fee - fee * pool.pendingInactive / (pool.active + pool.pendingInactive),
        fee * pool.pendingInactive / (pool.active + pool.pendingInactive), some (fees.erase index),
        ?_, fun i => find?_erase⟩
      simp only [bind_eq_ok, mul_eq_ok, add_eq_ok, div_eq_ok, cast_eq_ok, sub_eq_ok]
      exact ⟨_, ⟨product.trans (by decide), rfl⟩, _, ⟨by omega, rfl⟩, _, ⟨by omega, rfl⟩, _,
        ⟨share.trans small, rfl⟩, _, ⟨share, rfl⟩, rfl⟩

theorem distributeFee_eq (env : StakeEnv) (active leaving feeActive feeLeaving : Nat)
    (fits : active + leaving + (if env.distributeTransactionFeeEnabled then feeActive + feeLeaving
      else 0) ≤ u64Max) :
    ∃ active' leaving', distributeFee env active leaving feeActive feeLeaving =
      .ok (active', leaving') ∧ active' + leaving' = active + leaving +
        if env.distributeTransactionFeeEnabled then feeActive + feeLeaving else 0 := by
  unfold distributeFee
  split_ifs at fits ⊢
  · rw [mintInto_eq (by omega), mintInto_eq (by omega), add_eq_ok.mpr ⟨by omega, rfl⟩]
    exact ⟨_, _, rfl, by omega⟩
  · exact ⟨_, _, rfl, rfl⟩

theorem releaseUnlocked_succeeds (env : StakeEnv) (pool : StakePool) (fits : pool.coins ≤ u64Max) :
    ∃ pool', pool.releaseUnlocked env = .ok pool' ∧ pool'.coins = pool.coins := by
  unfold StakePool.releaseUnlocked
  split
  · unfold StakePool.coins at fits
    rw [add_eq_ok.mpr ⟨by omega, rfl⟩]
    refine ⟨_, rfl, ?_⟩
    unfold StakePool.coins
    simp only
    omega
  · exact ⟨pool, rfl, rfl⟩

/-- What the pool of a validator holds after the epoch. -/
def StakeState.due (env : StakeEnv) (s : StakeState) (info : ValidatorInfo) : Nat :=
  match s.pools info.addr with
  | none => 0
  | some pool =>
    let perf := (s.performance[info.config.validatorIndex]?).getD ⟨0, 0⟩
    pool.coins + rewardAmount env.config perf pool.active +
      rewardAmount env.config perf pool.pendingInactive +
      if env.distributeTransactionFeeEnabled then
        feeOf s.pendingFeeByValidator info.config.validatorIndex
      else 0

/-- A validator of the epoch whose pool can be brought up to date. -/
structure Payable (env : StakeEnv) (s : StakeState) (info : ValidatorInfo) (pool : StakePool)
    (perf : IndividualValidatorPerformance) : Prop where
  found : s.pools info.addr = some pool
  configured : ∃ config, s.configs info.addr = some config ∧
    config.validatorIndex = info.config.validatorIndex
  scored : s.performance[info.config.validatorIndex]? = some perf
  few : perf.successfulProposals + perf.failedProposals < proposalLimit
  voting : 0 < pool.currentPower
  fee : ∀ fee, s.pendingFee info.config.validatorIndex = some fee → fee ≤ u64Max
  fits : s.due env info ≤ u64Max

open StakeState

section

variable {info : ValidatorInfo} {pool : StakePool} {perf : IndividualValidatorPerformance}

theorem Payable.due_eq (payable : Payable env s info pool perf) : s.due env info =
    pool.coins + rewardAmount env.config perf pool.active +
      rewardAmount env.config perf pool.pendingInactive +
      if env.distributeTransactionFeeEnabled then
        feeOf s.pendingFeeByValidator info.config.validatorIndex
      else 0 := by
  rw [due, payable.found, payable.scored]
  rfl

/-- The pool of another validator has been brought up to date. -/
theorem Payable.other (payable : Payable env s info pool perf)
    (pools : s'.pools info.addr = s.pools info.addr) (configs : s'.configs = s.configs)
    (performance : s'.performance = s.performance)
    (fee : s'.pendingFee info.config.validatorIndex = s.pendingFee info.config.validatorIndex) :
    Payable env s' info pool perf ∧ s'.due env info = s.due env info := by
  have same : s'.due env info = s.due env info := by
    have fees : feeOf s'.pendingFeeByValidator info.config.validatorIndex =
        feeOf s.pendingFeeByValidator info.config.validatorIndex := congrArg (·.getD 0) fee
    rw [due, due, pools, performance, fees]
  refine ⟨⟨pools.trans payable.found, ?_, ?_, payable.few, payable.voting, ?_, ?_⟩, same⟩
  · rw [configs]
    exact payable.configured
  · rw [performance]
    exact payable.scored
  · rw [fee]
    exact payable.fee
  · rw [same]
    exact payable.fits

theorem updateStakePool_succeeds (rated : env.config.Accepted)
    (payable : Payable env s info pool perf) :
    ∃ s' pool', s.updateStakePool env info.addr = .ok s' ∧ s'.configs = s.configs ∧
      s'.performance = s.performance ∧
      s'.pools = update s.pools info.addr (some pool') ∧ pool'.coins ≤ s.due env info ∧
      ∀ i, s'.pendingFee i = if i = info.config.validatorIndex then none else s.pendingFee i := by
  obtain ⟨config, configured, index⟩ := payable.configured
  have fits := payable.fits
  rw [payable.due_eq] at fits
  have few := payable.few
  have scored := payable.scored
  rw [← index] at scored
  have coins : pool.coins ≤ u64Max := by omega
  have whole : pool.coins = pool.active + pool.inactive + pool.pendingActive +
    pool.pendingInactive := rfl
  have limit : proposalLimit ≤ u64Max := by decide
  obtain ⟨feeActive, feeLeaving, fees', collected, taken⟩ := collectFee_eq payable.voting
    ((currentPower_le_coins pool).trans coins) payable.fee
  have feeSum := (collectFee_ok collected).1
  rw [← feeSum] at fits
  obtain ⟨active, leaving, distributed, sum⟩ := distributeFee_eq env
    (pool.active + rewardAmount env.config perf pool.active)
    (pool.pendingInactive + rewardAmount env.config perf pool.pendingInactive)
    feeActive feeLeaving (by omega)
  obtain ⟨pool', released, kept⟩ := releaseUnlocked_succeeds env
    { pool with active := active + pool.pendingActive, pendingActive := 0,
                pendingInactive := leaving } (by
      unfold StakePool.coins
      simp only
      omega)
  refine ⟨{ s.setPool info.addr pool' with pendingFeeByValidator := fees' }, pool', ?_, rfl, rfl, rfl,
    ?_, taken⟩
  · rw [updateStakePool, payable.found, configured, borrow, ok_bind,
      borrow, ok_bind, scored, borrow, ok_bind, index, collected,
      ok_bind]
    simp only
    rw [add_eq_ok.mpr ⟨by omega, rfl⟩, ok_bind, distributeRewards_eq rated few (by omega), ok_bind]
    rw [distributeRewards_eq rated few (by omega), ok_bind]
    rw [distributed, ok_bind]
    rw [add_eq_ok.mpr ⟨by omega, rfl⟩, ok_bind, add_eq_ok.mpr ⟨by omega, rfl⟩, ok_bind, released]
    rfl
  · rw [kept, payable.due_eq, ← feeSum]
    unfold StakePool.coins
    simp only
    omega

end

/-! ## The pools of the epoch -/

/-- The pools of the list are up to date, and their fees are taken. -/
structure Settled (env : StakeEnv) (s s' : StakeState) (infos : List ValidatorInfo) : Prop where
  set : s'.set = s.set
  configs : s'.configs = s.configs
  unpaid : ∀ a, a ∉ addresses infos → s'.pools a = s.pools a
  paid : ∀ info ∈ infos, ∃ pool', s'.pools info.addr = some pool' ∧ pool'.coins ≤ s.due env info
  fees : ∀ i, s'.pendingFee i =
    if i ∈ infos.map (·.config.validatorIndex) then none else s.pendingFee i

variable {infos : List ValidatorInfo}

theorem updateStakePools_succeed (rated : env.config.Accepted)
    (distinct : (addresses infos).Nodup) (apart : (infos.map (·.config.validatorIndex)).Nodup)
    (payable : ∀ info ∈ infos, ∃ pool perf, Payable env s info pool perf) :
    ∃ s', (addresses infos).foldlM (updateStakePool env) s = .ok s' ∧
      Settled env s s' infos := by
  induction infos generalizing s with
  | nil =>
    refine ⟨s, rfl, rfl, rfl, fun _ _ => rfl, forall_mem_nil _, fun i => ?_⟩
    rw [List.map_nil, if_neg List.not_mem_nil]
  | cons info infos ih =>
    obtain ⟨⟨pool, perf, first⟩, others⟩ := List.forall_mem_cons.mp payable
    obtain ⟨outside, distinct⟩ := List.nodup_cons.mp distinct
    obtain ⟨alone, apart⟩ := List.nodup_cons.mp apart
    obtain ⟨s₁, pool₁, updated, configs, performance, pools, bounded, fees⟩ :=
      updateStakePool_succeeds rated first
    have elsewhere : ∀ b, b ≠ info.addr → s₁.pools b = s.pools b := by
      intro b ne
      rw [pools, update_of_ne ne]
    have untouched : ∀ other ∈ infos, ∃ pool perf, Payable env s₁ other pool perf ∧
        s₁.due env other = s.due env other := by
      intro other mem
      obtain ⟨pool, perf, payable⟩ := others other mem
      refine ⟨pool, perf, payable.other (elsewhere _ ?_) configs performance ?_⟩
      · intro same
        have listed : other.addr ∈ addresses infos := mem_map_of_mem mem
        rw [same] at listed
        exact outside listed
      · rw [fees, if_neg]
        intro same
        have listed : other.config.validatorIndex ∈ infos.map (·.config.validatorIndex) :=
          mem_map_of_mem mem
        rw [same] at listed
        exact alone listed
    obtain ⟨s₂, rest, settled⟩ := ih distinct apart fun other mem => by
      obtain ⟨pool, perf, payable, -⟩ := untouched other mem
      exact ⟨pool, perf, payable⟩
    refine ⟨s₂, ?_, settled.set.trans (updateStakePool_eq updated).1.set,
      settled.configs.trans configs, ?_, ?_, ?_⟩
    · change (info.addr :: addresses infos).foldlM _ s = _
      rw [List.foldlM_cons, updated, ok_bind, rest]
    · intro b unlisted
      rw [settled.unpaid b fun mem => unlisted (List.mem_cons_of_mem _ mem)]
      exact elsewhere b fun same => unlisted (same ▸ List.mem_cons_self)
    · intro other mem
      rcases mem_cons.mp mem with rfl | mem
      · refine ⟨pool₁, ?_, bounded⟩
        rw [settled.unpaid _ outside, pools, update_self]
      · obtain ⟨pool', found, bounded⟩ := settled.paid other mem
        obtain ⟨_, _, -, same⟩ := untouched other mem
        exact ⟨pool', found, same ▸ bounded⟩
    · intro i
      rw [settled.fees i, fees i, map_cons]
      simp only [mem_cons, or_comm, ← ite_or]

/-! ## The new entries -/

theorem refreshValidators_succeed (env : StakeEnv) {candidates : List ValidatorInfo}
    {next : List ValidatorInfo × Nat}
    (known : ∀ info ∈ candidates, ∃ config pool, s.configs info.addr = some config ∧
      s.pools info.addr = some pool)
    (fits : next.2 + (candidates.map fun info => s.nextPower info.addr).sum ≤ u64Max) :
    ∃ next', candidates.foldlM (s.refreshValidator env) next = .ok next' := by
  induction candidates generalizing next with
  | nil => exact ⟨next, rfl⟩
  | cons info candidates ih =>
    obtain ⟨⟨config, pool, configured, found⟩, known⟩ := List.forall_mem_cons.mp known
    rw [map_cons, List.sum_cons, nextPower_of_pool found] at fits
    have wide : u64Max ≤ u128Max := by decide
    have generated : generateValidatorInfo info.addr pool config =
        .ok ⟨info.addr, pool.nextPower, config⟩ := by
      rw [generateValidatorInfo, getNextEpochVotingPower_eq_ok.mpr ⟨by omega, rfl⟩]
      rfl
    obtain ⟨next', refreshed, grown⟩ : ∃ next', s.refreshValidator env next info = .ok next' ∧
        next'.2 ≤ next.2 + pool.nextPower := by
      rw [refreshValidator, configured, borrow, ok_bind, found, borrow, ok_bind, generated, ok_bind]
      split
      · have sum : add u128Max next.2 pool.nextPower = .ok (next.2 + pool.nextPower) :=
          add_eq_ok.mpr ⟨by omega, rfl⟩
        rw [sum]
        exact ⟨_, rfl, le_rfl⟩
      · exact ⟨next, rfl, Nat.le_add_right _ _⟩
    rw [List.foldlM_cons, refreshed]
    exact ih known (by omega)

theorem renewValidators_succeed
    (lockup : env.nowSecs + env.config.recurringLockupDurationSecs ≤ u64Max) {i : Nat}
    (known : ∀ info ∈ infos, ∃ config pool,
      s.configs info.addr = some config ∧ s.pools info.addr = some pool) :
    ∃ s' infos', renewValidators env s i infos = .ok (s', infos') := by
  induction infos generalizing s i with
  | nil => exact ⟨s, [], rfl⟩
  | cons info infos ih =>
    obtain ⟨⟨config, pool, configured, found⟩, known⟩ := List.forall_mem_cons.mp known
    obtain ⟨pool', renewed⟩ : ∃ pool', pool.renewLockup env = .ok pool' := by
      unfold StakePool.renewLockup
      split
      · rw [add_eq_ok.mpr ⟨lockup, rfl⟩]
        exact ⟨_, rfl⟩
      · exact ⟨pool, rfl⟩
    obtain ⟨s₁, info', first, configs, pools⟩ : ∃ s₁ info',
        s.renewValidator env i info = .ok (s₁, info') ∧
        s₁.configs = update s.configs info.addr (some { config with validatorIndex := i }) ∧
        s₁.pools = update s.pools info.addr (some pool') := by
      rw [renewValidator, configured, borrow, ok_bind, found, borrow, ok_bind, renewed]
      exact ⟨_, _, rfl, rfl, rfl⟩
    obtain ⟨s₂, infos', rest⟩ : ∃ s₂ infos',
        renewValidators env s₁ (i + 1) infos = .ok (s₂, infos') := by
      refine ih fun other mem => ?_
      obtain ⟨config', pool'', configured', found'⟩ := known other mem
      rw [configs, pools, update_apply, update_apply]
      split
      · exact ⟨_, _, rfl, rfl⟩
      · exact ⟨config', pool'', configured', found'⟩
    rw [renewValidators, first, ok_bind]
    simp only
    rw [rest]
    exact ⟨_, _, rfl⟩

theorem renewValidators_fees {i : Nat} {infos' : List ValidatorInfo}
    (ok : renewValidators env s i infos = .ok (s', infos')) :
    s'.pendingFeeByValidator = s.pendingFeeByValidator := by
  refine renewValidators_relates
    (R := fun s s' => s'.pendingFeeByValidator = s.pendingFeeByValidator) (fun _ => rfl)
    (fun one more => more.trans one) (fun first => ?_) ok
  obtain ⟨_, _, _, -, rfl, -⟩ := renewValidator_ok first
  rfl

/-- Every new index gets a fee of zero. -/
theorem addFees_succeed {fees : OrderedMap Nat Nat} {i : Nat} (infos : List ValidatorInfo)
    (free : ∀ k, i ≤ k → fees.find? k = none) :
    ∃ fees', (indexedFrom i infos).foldlM addFeeOf fees = .ok fees' ∧
      ∀ k fee, fees'.find? k = some fee →
        fees.find? k = some fee ∨ (k < i + infos.length ∧ fee = 0) := by
  induction infos generalizing fees i with
  | nil => exact ⟨fees, rfl, fun _ _ listed => .inl listed⟩
  | cons info infos ih =>
    have added : addFeeOf fees { info with config := { info.config with validatorIndex := i } } =
        .ok (fees.insert i 0) := by
      unfold addFeeOf
      simp only [bind_eq_ok, ensure_eq_ok]
      exact ⟨(), contains_eq_false.mpr (free i (le_refl i)), rfl⟩
    obtain ⟨fees', rest, listed⟩ := @ih (fees.insert i 0) (i + 1) (by
      intro k above
      rw [find?_insert_of_ne (by omega)]
      exact free k (by omega))
    refine ⟨fees', ?_, fun k fee found => ?_⟩
    · rw [indexedFrom, List.foldlM_cons, added, ok_bind, rest]
    rw [List.length_cons]
    rcases listed k fee found with before | ⟨below, zero⟩
    · rw [find?_insert] at before
      split at before
      · cases before
        exact .inr ⟨by omega, rfl⟩
      · exact .inl before
    · exact .inr ⟨by omega, zero⟩

theorem resetFees_succeeds (infos : List ValidatorInfo)
    (taken : ∀ i, fees.bind (·.find? i) = none) :
    ∃ fees', resetFees (indexedFrom 0 infos) fees = .ok fees' := by
  cases fees with
  | none => exact ⟨none, rfl⟩
  | some fees =>
    obtain ⟨fees', added, -⟩ := addFees_succeed infos fun k _ => taken k
    rw [resetFees, ensure, if_pos (isEmpty_iff.mpr taken), added]
    exact ⟨_, rfl⟩

/-! ## What the calls of an epoch keep -/

/-- A state in which the epoch can end.  The calls of an epoch keep it and its end restores it, if a
validator must have some stake. -/
structure Ready (s : StakeState) : Prop where
  indexed : Indexed s
  voting : ∀ info ∈ s.set.current, 0 < info.votingPower
  fees : ∀ index fee, s.pendingFee index = some fee → index < s.performance.length ∧ fee ≤ u64Max
  joining : ∀ info ∈ s.set.pendingActive, ∃ config, s.configs info.addr = some config

theorem Ready.initial : Ready initial where
  indexed := forall_mem_nil _
  voting := forall_mem_nil _
  fees := by
    intro index fee listed
    cases listed
  joining := forall_mem_nil _

theorem Ready.keeps (ready : Ready s) (keeps : Keeps s s') : Ready s' where
  indexed := ready.indexed.keeps keeps.toKeepsIndices
  voting := fun info mem => ready.voting info (keeps.members info mem)
  fees := by
    intro index fee listed
    rw [keeps.rounds]
    rcases keeps.fees index fee listed with same | ⟨⟨before, listed⟩, fits⟩
    · exact ready.fees index fee same
    · exact ⟨(ready.fees index before listed).1, fits⟩
  joining := by
    intro info mem
    rcases keeps.joining info mem with before | configured
    · obtain ⟨config, found⟩ := ready.joining info before
      obtain ⟨config', found', -⟩ := keeps.configs info.addr config found
      exact ⟨config', found'⟩
    · exact configured

theorem resetFees_ok {fees' : Option (OrderedMap Nat Nat)}
    (ok : resetFees (indexedFrom 0 infos) fees = .ok fees') (k fee : Nat)
    (listed : fees'.bind (·.find? k) = some fee) : k < infos.length ∧ fee = 0 := by
  cases fees with
  | none =>
    cases ok
    cases listed
  | some fees =>
    unfold resetFees at ok
    simp only [bind_eq_ok, ensure_eq_ok] at ok
    obtain ⟨_, empty, final, added, same⟩ := ok
    cases same
    have none := isEmpty_iff.mp empty
    obtain ⟨fees', added', only⟩ := addFees_succeed infos fun k _ => none k
    cases added.symm.trans added'
    rcases only k fee listed with before | ⟨below, zero⟩
    · rw [none k] at before
      cases before
    · exact ⟨by omega, zero⟩

section

variable (sound : Sound s added)

include sound

/-- The validators of the new epoch have the minimum stake. -/
theorem onNewEpoch_ready (positive : 0 < env.config.minimumStake)
    (ok : s.onNewEpoch env = .ok s') : Ready s' := by
  have indexed := onNewEpoch_indexed sound ok
  obtain ⟨s₁, stay, ok⟩ := of_bind ok
  obtain ⟨s₂, leave, ok⟩ := of_bind ok
  obtain ⟨⟨next, total⟩, refresh, ok⟩ := of_bind ok
  obtain ⟨⟨s₃, validators⟩, renew, ok⟩ := of_bind ok
  obtain ⟨fees, reset, rfl⟩ := of_return ok
  obtain ⟨-, listed, -⟩ := refreshValidators_eq refresh
  obtain ⟨rfl, -⟩ := Prod.mk.inj listed
  obtain ⟨rfl, rounds, -⟩ := renewValidators_eq renew
  refine ⟨indexed, ?_, ?_, forall_mem_nil _⟩
  · intro info mem
    change info ∈ indexedFrom 0 _ ++ [] at mem
    rw [List.append_nil, List.nil_append] at mem
    obtain ⟨pool, -, power, enough⟩ := entry_of_indexedFrom mem
    rw [power]
    exact positive.trans_le enough
  · intro index fee pending
    obtain ⟨below, rfl⟩ := resetFees_ok reset index fee pending
    refine ⟨?_, Nat.zero_le _⟩
    rw [rounds, List.length_nil, zero_add]
    exact below

/-! ## The end of the epoch -/

/-- What is minted at the end of the epoch included, the coins of all validators fit. -/
def StakeState.WithinSupply (env : StakeEnv) (s : StakeState) : Prop :=
  (s.set.current.map (s.due env)).sum +
    (s.set.pendingActive.map fun info => s.coins info.addr).sum ≤ u64Max

theorem payable_of_ready (ready : Ready s) (few : ∀ perf ∈ s.performance,
      perf.successfulProposals + perf.failedProposals < proposalLimit)
    (supply : s.WithinSupply env) : ∀ info ∈ s.set.current, ∃ pool perf,
      Payable env s info pool perf := by
  intro info mem
  obtain ⟨config, configured, index⟩ := ready.indexed info mem
  obtain ⟨pool, found, power⟩ := sound.powers info mem
  have inRange : info.config.validatorIndex < s.performance.length :=
    List.mem_range.mp (sound.indices.mem_iff.mp (mem_map_of_mem mem))
  have scored := List.getElem?_eq_getElem inRange
  have part : s.due env info ≤ (s.set.current.map (s.due env)).sum :=
    List.le_sum_of_mem (mem_map_of_mem mem)
  unfold StakeState.WithinSupply at supply
  exact ⟨pool, _, found, ⟨config, configured, index⟩, scored, few _ (List.getElem_mem inRange),
    power ▸ ready.voting info mem, fun fee listed => (ready.fees _ fee listed).2, by omega⟩

/-- The stake of the candidates for the next epoch is part of the supply. -/
theorem candidates_within (settled : Settled env s s' s.set.current) (supply : s.WithinSupply env) :
    ((s.set.activeValidators ++ s.set.pendingActive.reverse).map
      fun info => s'.nextPower info.addr).sum ≤ u64Max := by
  have staying : (s.set.activeValidators.map fun info => s'.nextPower info.addr).sum ≤
      (s.set.activeValidators.map (s.due env)).sum := by
    refine List.sum_le_sum fun info mem => ?_
    obtain ⟨pool', found, bounded⟩ := settled.paid info (List.mem_append_left _ mem)
    rw [nextPower_of_pool found]
    exact (nextPower_le_coins pool').trans bounded
  have joining : (s.set.pendingActive.map fun info => s'.nextPower info.addr).sum ≤
      (s.set.pendingActive.map fun info => s.coins info.addr).sum := by
    refine List.sum_le_sum fun info mem => ?_
    have outside := fun inside => sound.apart inside (mem_map_of_mem mem)
    obtain ⟨pool, found⟩ := sound.registered info.addr (mem_map_of_mem mem)
    have kept := (settled.unpaid info.addr outside).trans found
    rw [nextPower_of_pool kept, coins, found]
    exact nextPower_le_coins pool
  unfold StakeState.WithinSupply ValidatorSet.current at supply
  rw [List.map_append, List.sum_append] at supply
  rw [List.map_append, List.sum_append, List.map_reverse, List.sum_reverse]
  omega

/-- The stages one after the other. -/
theorem onNewEpoch_succeeds (ready : Ready s) (rated : env.config.Accepted)
    (lockup : env.nowSecs + env.config.recurringLockupDurationSecs ≤ u64Max)
    (few : ∀ perf ∈ s.performance, perf.successfulProposals + perf.failedProposals < proposalLimit)
    (supply : s.WithinSupply env) : ∃ s', s.onNewEpoch env = .ok s' := by
  have apart : (s.set.current.map (·.config.validatorIndex)).Nodup :=
    sound.indices.nodup_iff.mpr List.nodup_range
  obtain ⟨s₂, updated, settled⟩ := updateStakePools_succeed rated sound.current_nodup apart
    (payable_of_ready sound ready few supply)
  rw [ValidatorSet.current, addresses_append, List.foldlM_append] at updated
  obtain ⟨s₁, stay, leave⟩ := of_bind updated
  have set₁ := (Updating.of_fold stay).set
  have taken : ∀ i, s₂.pendingFee i = none := by
    intro i
    rw [settled.fees i]
    split
    · rfl
    rename_i listed
    by_contra there
    obtain ⟨fee, pending⟩ := Option.ne_none_iff_exists'.mp there
    exact listed (sound.indices.mem_iff.mpr (List.mem_range.mpr (ready.fees i fee pending).1))
  have known : ∀ info ∈ s₂.set.activeValidators ++ s₂.set.pendingActive.reverse,
      ∃ config pool, s₂.configs info.addr = some config ∧ s₂.pools info.addr = some pool := by
    intro info mem
    rw [settled.set] at mem
    rw [settled.configs]
    rcases List.mem_append.mp mem with active | joins
    · have current : info ∈ s.set.current := List.mem_append_left _ active
      obtain ⟨config, configured, -⟩ := ready.indexed info current
      obtain ⟨pool, found, -⟩ := settled.paid info current
      exact ⟨config, pool, configured, found⟩
    · have pending := List.mem_reverse.mp joins
      have outside := fun inside => sound.apart inside (mem_map_of_mem pending)
      obtain ⟨config, configured⟩ := ready.joining info pending
      obtain ⟨pool, found⟩ := sound.registered info.addr (mem_map_of_mem pending)
      exact ⟨config, pool, configured, (settled.unpaid info.addr outside).trans found⟩
  have within : (([], 0) : List ValidatorInfo × Nat).2 +
      ((s₂.set.activeValidators ++ s₂.set.pendingActive.reverse).map
        fun info => s₂.nextPower info.addr).sum ≤ u64Max := by
    rw [zero_add, settled.set]
    exact candidates_within sound settled supply
  obtain ⟨⟨next, total⟩, refresh⟩ := refreshValidators_succeed env known within
  obtain ⟨-, listed, -⟩ := refreshValidators_eq refresh
  rw [Prod.mk.injEq] at listed
  have renewable : ∀ info ∈ next, ∃ config pool,
      ({ s₂ with performance := [] } : StakeState).configs info.addr = some config ∧
      ({ s₂ with performance := [] } : StakeState).pools info.addr = some pool := by
    intro info mem
    rw [listed.1] at mem
    obtain ⟨old, oldMem, listed⟩ := List.mem_filterMap.mp mem
    rw [(entry_eq_some listed).1]
    exact known old oldMem
  obtain ⟨s₃, validators, renew⟩ := renewValidators_succeed (i := 0) lockup renewable
  obtain ⟨fees, reset⟩ : ∃ fees, resetFees validators s₃.pendingFeeByValidator = .ok fees := by
    rw [(renewValidators_eq renew).1]
    refine resetFees_succeeds next ?_
    rw [renewValidators_fees renew]
    exact taken
  rw [← set₁] at leave
  simp only [onNewEpoch, bind_eq_ok]
  exact ⟨_, s₁, stay, s₂, leave, (next, total), refresh, (s₃, validators), renew, fees, reset, rfl⟩

end

end CreditChain
