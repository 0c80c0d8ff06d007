import CreditChain.Staking.Contract
import CreditChain.Staking.Prediction

/-!
# What a staking contract keeps

The principal of a contract and its distribution pool follow a stake pool that grows by itself at
the end of an epoch.  `Intact` says how: the principal is covered by the active stake and covers
what is about to become active, and the distribution pool counts no more coins than are on their
way out.
-/

namespace CreditChain

open Checked StakeState Function

/-- The contract fits its stake pool. -/
structure Intact (c : StakingContract) (p : StakePool) : Prop where
  cap : c.ownerCap.poolAddress = c.poolAddress
  percentage : c.commissionPercentage ≤ 100
  joining : p.pendingActive ≤ c.principal
  principal : c.principal ≤ p.active + p.pendingActive
  distribution : c.distributionPool.totalCoins ≤ p.inactive + p.pendingInactive
  /-- Coins that have left are paid out before others leave. -/
  leaving : p.inactive = 0 ∨ p.pendingInactive = 0

variable {c : StakingContract}

/-- Commission is a part of the rewards, and these are active. -/
theorem Intact.commission_le {p : StakePool} (intact : Intact c p) :
    (p.active + p.pendingActive - c.principal) * c.commissionPercentage / 100 ≤
        p.active + p.pendingActive - c.principal ∧
      p.active + p.pendingActive - c.principal ≤ p.active := by
  constructor
  · calc (p.active + p.pendingActive - c.principal) * c.commissionPercentage / 100
        ≤ (p.active + p.pendingActive - c.principal) * 100 / 100 :=
          Nat.div_le_div_right (Nat.mul_le_mul_left _ intact.percentage)
      _ = p.active + p.pendingActive - c.principal := Nat.mul_div_cancel _ (by decide)
  · have joining := intact.joining
    omega

/-! ## The end of an epoch -/

/-- A pool gets rewards, and its pending stake moves on. -/
structure Grown (p p' : StakePool) : Prop where
  joining : p'.pendingActive ≤ p.pendingActive
  active : p.active + p.pendingActive ≤ p'.active + p'.pendingActive
  leaving : p.inactive + p.pendingInactive ≤ p'.inactive + p'.pendingInactive
  apart : p.inactive = 0 ∨ p.pendingInactive = 0 → p'.inactive = 0 ∨ p'.pendingInactive = 0

namespace Grown

variable {p p' p'' : StakePool}

theorem refl (p : StakePool) : Grown p p := ⟨le_rfl, le_rfl, le_rfl, id⟩

theorem trans (first : Grown p p') (second : Grown p' p'') : Grown p p'' where
  joining := second.joining.trans first.joining
  active := first.active.trans second.active
  leaving := first.leaving.trans second.leaving
  apart := second.apart ∘ first.apart

end Grown

/-- The end of an epoch keeps a contract intact. -/
theorem Intact.grown {p p' : StakePool} (intact : Intact c p)
    (grown : Grown p p') : Intact c p' where
  cap := intact.cap
  percentage := intact.percentage
  joining := grown.joining.trans intact.joining
  principal := intact.principal.trans grown.active
  distribution := intact.distribution.trans grown.leaving
  leaving := grown.apart intact.leaving

/-- Every pool is still there, and has grown. -/
def AllGrown (s s' : StakeState) : Prop :=
  ∀ a p, s.pools a = some p → ∃ p', s'.pools a = some p' ∧ Grown p p'

section

variable {env : StakeEnv} {s s' : StakeState} {a : Address}

theorem AllGrown.refl (s : StakeState) : AllGrown s s := fun _ p found => ⟨p, found, .refl p⟩

theorem AllGrown.trans {s'' : StakeState} (first : AllGrown s s') (second : AllGrown s' s'') :
    AllGrown s s'' := by
  intro a p found
  obtain ⟨p', found', grown⟩ := first a p found
  obtain ⟨p'', found'', grown'⟩ := second a p' found'
  exact ⟨p'', found'', grown.trans grown'⟩

/-- One pool has changed. -/
theorem AllGrown.of_update {p p' : StakePool} (found : s.pools a = some p) (grown : Grown p p')
    (pools : s'.pools = update s.pools a (some p')) : AllGrown s s' := by
  intro b q foundB
  rw [pools, update_apply]
  split
  · rename_i same
    subst same
    cases found.symm.trans foundB
    exact ⟨p', rfl, grown⟩
  · exact ⟨q, foundB, .refl q⟩

theorem updateStakePool_grown (ok : s.updateStakePool env a = .ok s') : AllGrown s s' := by
  obtain ⟨-, config, pool, pool', gets, -, found, pools, noFee, released⟩ := updateStakePool_eq ok
  refine .of_update found ?_ pools
  have active : pool.active + pool.pendingActive ≤
      pool.active + gets.reward + gets.feeActive + pool.pendingActive := by omega
  have sum : pool.inactive + pool.pendingInactive ≤
      pool.inactive + (pool.pendingInactive + gets.rewardLeaving + gets.feeLeaving) := by omega
  rcases releaseUnlocked_ok released with ⟨-, same⟩ | ⟨-, same⟩
  · rw [same]
    exact ⟨Nat.zero_le _, active, sum, fun _ => .inr rfl⟩
  rw [same]
  refine ⟨Nat.zero_le _, active, sum, ?_⟩
  rintro (none | none)
  · exact .inl none
  have reward := gets.rewardedLeaving
  rw [none] at reward
  right
  show pool.pendingInactive + gets.rewardLeaving + gets.feeLeaving = 0
  rw [none, noFee none, ← Except.ok.inj reward]

theorem renewValidator_grown {i : Nat} {info info' : ValidatorInfo}
    (ok : s.renewValidator env i info = .ok (s', info')) : AllGrown s s' := by
  obtain ⟨_, _, _, found, rfl, -⟩ := renewValidator_ok ok
  refine .of_update found ?_ rfl
  exact ⟨le_rfl, le_rfl, le_rfl, id⟩

theorem onNewEpoch_grown (ok : s.onNewEpoch env = .ok s') : AllGrown s s' := by
  obtain ⟨s₁, stay, ok⟩ := of_bind ok
  obtain ⟨s₂, leave, ok⟩ := of_bind ok
  obtain ⟨⟨next, total⟩, -, ok⟩ := of_bind ok
  obtain ⟨⟨s₃, validators⟩, renew, ok⟩ := of_bind ok
  obtain ⟨fees, -, rfl⟩ := of_return ok
  have staying : AllGrown s s₁ :=
    Except.foldlM_relates (R := AllGrown) .refl .trans updateStakePool_grown stay
  have left : AllGrown s₁ s₂ :=
    Except.foldlM_relates (R := AllGrown) .refl .trans updateStakePool_grown leave
  have renewed : AllGrown { s₂ with performance := [] } s₃ :=
    renewValidators_relates .refl .trans renewValidator_grown renew
  exact (staying.trans left).trans renewed

end

/-! ## The distribution pool -/

section

variable {pool pool' : PoolU64} {operator : Address} {percentage updated : Nat}

theorem updateDistributionPool_totalCoins
    (ok : StakingContract.updateDistributionPool pool updated operator percentage = .ok pool') :
    pool'.totalCoins = updated := by
  unfold StakingContract.updateDistributionPool at ok
  split at ok
  · rename_i same
    cases ok
    exact same
  · obtain ⟨_, -, rfl⟩ := of_return ok
    rfl

end

/-! ## Parts of the calls -/

/-- Only coins of accounts move. -/
structure Paid (s s' : ContractState) : Prop where
  stake : s'.stake = s.stake
  stores : s'.stores = s.stores

theorem Paid.trans {s s' s'' : ContractState} (first : Paid s s') (second : Paid s' s'') :
    Paid s s'' :=
  ⟨second.stake.trans first.stake, second.stores.trans first.stores⟩

/-- A part of a call on a contract: its stake pool changes, and no other one. -/
structure Kept (s s' : ContractState) (c c' : StakingContract) (p' : StakePool) : Prop where
  others : ∀ a, a ≠ c.poolAddress → s'.stake.pools a = s.stake.pools a
  stores : s'.stores = s.stores
  address : c'.poolAddress = c.poolAddress
  pool : s'.stake.pools c.poolAddress = some p'
  intact : Intact c' p'

theorem Kept.trans {s₁ s₂ s₃ : ContractState} {c₁ c₂ c₃ : StakingContract} {p₂ p₃ : StakePool}
    (first : Kept s₁ s₂ c₁ c₂ p₂) (second : Kept s₂ s₃ c₂ c₃ p₃) : Kept s₁ s₃ c₁ c₃ p₃ where
  others a other :=
    (second.others a (first.address ▸ other)).trans (first.others a other)
  stores := second.stores.trans first.stores
  address := second.address.trans first.address
  pool := first.address ▸ second.pool
  intact := second.intact

namespace ContractState

variable {env : ContractEnv} {s s' : ContractState} {c c' : StakingContract} {p : StakePool}
  {staker operator : Address} {amount : Nat}

theorem depositCoins_paid {account : Address}
    (ok : s.depositCoins account amount = .ok s') : Paid s s' := by
  obtain ⟨_, -, rfl⟩ := of_return ok
  exact ⟨rfl, rfl⟩

theorem withdrawCoins_paid {account : Address}
    (ok : s.withdrawCoins account amount = .ok s') : Paid s s' := by
  cases of_check ok
  exact ⟨rfl, rfl⟩

variable {pool pool' : PoolU64}

/-- The pool has the coins that are not paid yet. -/
theorem buyOut_paid {fuel coins coins' : Nat}
    (ok : buyOut operator fuel s pool coins = .ok (s', pool', coins'))
    (covered : pool.totalCoins = coins) : Paid s s' ∧ pool'.totalCoins = coins' := by
  induction fuel generalizing s pool coins with
  | zero =>
    unfold buyOut at ok
    split at ok
    · cases ok
      exact ⟨⟨rfl, rfl⟩, covered⟩
    · cases ok
  | succ fuel ih =>
    unfold buyOut at ok
    split at ok
    · cases ok
      exact ⟨⟨rfl, rfl⟩, covered⟩
    · simp only [Except.bind_eq_ok, sub_eq_ok] at ok
      obtain ⟨⟨amount, redeemed⟩, redeem, _, ⟨-, rfl⟩, paid, deposited, rest⟩ := ok
      have left := PoolU64.redeemShares_totalCoins redeem
      have now : redeemed.totalCoins = coins - amount := by rw [left, covered]
      obtain ⟨later, final⟩ := ih rest now
      exact ⟨(depositCoins_paid deposited).trans later, final⟩

theorem payDust_paid {coins : Nat} (ok : s.payDust staker pool coins = .ok (s', pool'))
    (covered : pool.totalCoins = coins) :
    Paid s s' ∧ pool'.totalCoins = 0 := by
  unfold payDust at ok
  split at ok
  · obtain ⟨_, deposited, last⟩ := of_bind ok
    cases last
    exact ⟨depositCoins_paid deposited, rfl⟩
  · cases ok
    exact ⟨⟨rfl, rfl⟩, by omega⟩

/-- Coins that are divided leave nothing in the distribution pool. -/
theorem divide_paid (ok : s.divide staker operator c amount = .ok (s', c')) :
    Paid s s' ∧ ∃ pool, c' = { c with distributionPool := pool } ∧
      (amount = 0 → pool = c.distributionPool) ∧ (amount ≠ 0 → pool.totalCoins = 0) := by
  unfold divide at ok
  split at ok
  · rename_i zero
    cases ok
    exact ⟨⟨rfl, rfl⟩, _, rfl, fun _ => rfl, fun nonzero => absurd zero nonzero⟩
  · rename_i zero
    simp only [Except.bind_eq_ok] at ok
    obtain ⟨pool, updated, ⟨s₁, pool₁, coins⟩, bought, ⟨s₂, pool₂⟩, dust, last⟩ := ok
    cases last
    obtain ⟨paid, covered⟩ := buyOut_paid bought (updateDistributionPool_totalCoins updated)
    obtain ⟨paidDust, none⟩ := payDust_paid dust covered
    exact ⟨paid.trans paidDust, _, rfl, fun nothing => absurd nothing zero, fun _ => none⟩

variable {stake : StakeState}
  {ownerCap : OwnerCapability} {stake' : StakeState} {stakeEnv : StakeEnv}

/-- A withdrawal of all that has left or is leaving takes all that has left. -/
theorem withdrawAll_ok (found : stake.pools ownerCap.poolAddress = some p)
    (ok : stake.withdrawWithCap stakeEnv ownerCap (p.inactive + p.pendingInactive) =
      .ok (amount, stake')) :
    ∃ p', stake' = stake.setPool ownerCap.poolAddress p' ∧ p'.active = p.active ∧
      p'.pendingActive = p.pendingActive ∧ p'.inactive = 0 ∧
      ((p'.pendingInactive = p.pendingInactive ∧ amount = p.inactive) ∨
        (p'.pendingInactive = 0 ∧ amount = p.inactive + p.pendingInactive)) := by
  obtain ⟨pool, pool', borrowed, released, rfl, rfl⟩ := withdrawWithCap_ok ok
  cases found.symm.trans borrowed
  refine ⟨_, rfl, ?_⟩
  unfold StakePool.releaseStuck at released
  split at released
  · obtain ⟨_, added, rfl⟩ := of_return released
    obtain ⟨-, rfl⟩ := add_eq_ok.mp added
    refine ⟨rfl, rfl, ?_, .inr ⟨rfl, ?_⟩⟩
    · simp
    · simp
  · cases released
    refine ⟨rfl, rfl, ?_, .inl ⟨rfl, ?_⟩⟩
    · simp
    · simp

theorem getPool_eq_ok {a : Address} : stake.getPool a = .ok p ↔ stake.pools a = some p := by
  unfold getPool assertStakePoolExists stakePoolExists
  simp only [Except.bind_eq_ok, borrow_eq_ok]
  constructor
  · rintro ⟨-, -, found⟩
    exact found
  · intro found
    exact ⟨(), by rw [found]; rfl, found⟩

theorem distributeInternal_keeps (found : s.stake.pools c.poolAddress = some p)
    (intact : Intact c p)
    (ok : s.distributeInternal env staker operator c = .ok (s', c')) :
    ∃ p', Kept s s' c c' p' ∧ p'.inactive = 0 := by
  obtain ⟨pool, got, ok⟩ := of_bind ok
  cases found.symm.trans (getPool_eq_ok.mp got)
  obtain ⟨total, sum, ok⟩ := of_bind ok
  obtain ⟨-, rfl⟩ := add_eq_ok.mp sum
  obtain ⟨⟨amount, stake⟩, withdrawn, divided⟩ := of_bind ok
  obtain ⟨p', rfl, active, pending, inactive, cases⟩ :=
    withdrawAll_ok (intact.cap ▸ found) withdrawn
  obtain ⟨paid, newPool, rfl, unchanged, emptied⟩ := divide_paid divided
  refine ⟨p', ⟨?_, paid.stores, rfl, ?_, ?_⟩, inactive⟩
  · intro a other
    rw [paid.stake]
    exact setPool_of_ne (intact.cap ▸ other)
  · rw [paid.stake, ← intact.cap]
    exact setPool_self
  refine ⟨intact.cap, intact.percentage, ?_, ?_, ?_, .inl inactive⟩
  · rw [pending]
    exact intact.joining
  · rw [active, pending]
    exact intact.principal
  have covered := intact.distribution
  show newPool.totalCoins ≤ _
  by_cases nothing : amount = 0
  · rw [unchanged nothing]
    omega
  · rw [emptied nothing]
    exact Nat.zero_le _

theorem addDistribution_ok {recipient : Address} (found : s.stake.pools c.poolAddress = some p)
    (ok : s.addDistribution operator c recipient amount = .ok c') :
    ∃ pool, c' = { c with distributionPool := pool } ∧
      pool.totalCoins = p.pendingInactive + amount := by
  obtain ⟨pool, got, ok⟩ := of_bind ok
  cases found.symm.trans (getPool_eq_ok.mp got)
  obtain ⟨updated, update, ok⟩ := of_bind ok
  obtain ⟨⟨_, bought⟩, buy, rfl⟩ := of_return ok
  refine ⟨bought, rfl, ?_⟩
  rw [PoolU64.buyIn_totalCoins buy, updateDistributionPool_totalCoins update]

theorem unlockWithCap_pools (found : stake.pools ownerCap.poolAddress = some p)
    (enough : amount ≤ p.active) (ok : stake.unlockWithCap stakeEnv amount ownerCap = .ok stake') :
    (∀ a, a ≠ ownerCap.poolAddress → stake'.pools a = stake.pools a) ∧
      stake'.pools ownerCap.poolAddress = some (p.left amount) := by
  rcases unlockWithCap_ok ok with ⟨rfl, rfl⟩ | ⟨pool, borrowed, rfl⟩
  · exact ⟨fun _ _ => rfl, found⟩
  · cases found.symm.trans borrowed
    rw [min_eq_left enough]
    exact ⟨fun _ other => setPool_of_ne other, setPool_self⟩

section

variable (found : s.stake.pools c.poolAddress = some p)

include found

/-- Coins leave for a recipient, and the principal is what stays. -/
theorem leave_keeps {recipient : Address} {amount : Nat} {stake : StakeState} {stakeEnv : StakeEnv}
    (cap : c.ownerCap.poolAddress = c.poolAddress)
    (percentage : c.commissionPercentage ≤ 100)
    (principal : c.principal + amount = p.active + p.pendingActive) (enough : amount ≤ p.active)
    (paidOut : p.inactive = 0)
    (added : s.addDistribution operator c recipient amount = .ok c')
    (unlocked : s.stake.unlockWithCap stakeEnv amount c'.ownerCap = .ok stake) :
    Kept s { s with stake } c c' (p.left amount) ∧ c'.principal = c.principal := by
  obtain ⟨pool, rfl, coins⟩ := addDistribution_ok found added
  obtain ⟨others, here⟩ := unlockWithCap_pools (cap ▸ found) enough unlocked
  refine ⟨⟨?_, rfl, rfl, ?_, cap, percentage, ?_, ?_, ?_, .inl paidOut⟩, rfl⟩
  · intro a other
    exact others a (cap ▸ other)
  · exact cap ▸ here
  · show p.pendingActive ≤ c.principal
    omega
  · show c.principal ≤ p.active - amount + p.pendingActive
    omega
  · show pool.totalCoins ≤ p.inactive + (p.pendingInactive + amount)
    omega

/-- The amounts of a contract that fits its pool. -/
theorem amounts_ok {total rewards commission : Nat}
    (ok : s.getStakingContractAmountsInternal c = .ok (total, rewards, commission)) :
    total = p.active + p.pendingActive ∧ rewards = total - c.principal ∧
      commission = rewards * c.commissionPercentage / 100 := by
  obtain ⟨pool, got, ok⟩ := of_bind ok
  cases found.symm.trans (getPool_eq_ok.mp got)
  simp only [Except.bind_eq_ok, add_eq_ok, sub_eq_ok, mul_eq_ok] at ok
  obtain ⟨_, ⟨-, rfl⟩, _, ⟨-, rfl⟩, _, ⟨-, rfl⟩, last⟩ := ok
  cases last
  exact ⟨rfl, rfl, rfl⟩

/-- After the commission is paid, the principal is all that is active. -/
theorem requestCommissionInternal_keeps (intact : Intact c p) (paidOut : p.inactive = 0)
    (ok : s.requestCommissionInternal env operator c = .ok (s', c')) :
    ∃ p', Kept s s' c c' p' ∧ p'.inactive = 0 ∧ c'.principal = p'.active + p'.pendingActive := by
  obtain ⟨⟨total, rewards, commission⟩, amounts, ok⟩ := of_bind ok
  obtain ⟨principal, remains, paid⟩ := of_bind ok
  obtain ⟨rfl, rfl, rfl⟩ := amounts_ok found amounts
  obtain ⟨-, rfl⟩ := sub_eq_ok.mp remains
  obtain ⟨part, rewardsActive⟩ := intact.commission_le
  generalize (p.active + p.pendingActive - c.principal) * c.commissionPercentage / 100 =
    commission at part paid
  unfold payCommission at paid
  split at paid
  · cases paid
    refine ⟨p, ⟨fun _ _ => rfl, rfl, rfl, found, intact.cap, intact.percentage, ?_, ?_,
      intact.distribution, intact.leaving⟩, paidOut, ?_⟩
    · show p.pendingActive ≤ _ - commission
      omega
    · show _ - commission ≤ _
      omega
    · show _ - commission = _
      omega
  · obtain ⟨charged, added, paid⟩ := of_bind paid
    obtain ⟨stake, unlocked, last⟩ := of_bind paid
    cases last
    obtain ⟨kept, principal⟩ :=
      leave_keeps (c := { c with principal := p.active + p.pendingActive - commission }) found
        intact.cap intact.percentage (by simp only; omega) (by omega) paidOut added unlocked
    refine ⟨p.left commission, ⟨kept.others, kept.stores, kept.address, kept.pool, kept.intact⟩,
      paidOut, ?_⟩
    rw [principal]
    show p.active + p.pendingActive - commission = p.active - commission + p.pendingActive
    omega

/-- What has left is paid out, and then the commission. -/
theorem settle_keeps (intact : Intact c p) (ok : s.settle env staker operator c = .ok (s', c')) :
    ∃ p', Kept s s' c c' p' ∧ p'.inactive = 0 ∧ c'.principal = p'.active + p'.pendingActive := by
  obtain ⟨⟨s₁, c₁⟩, distributed, requested⟩ := of_bind ok
  obtain ⟨p₁, kept, paidOut⟩ := distributeInternal_keeps found intact distributed
  have here : s₁.stake.pools c₁.poolAddress = some p₁ := by
    rw [kept.address]
    exact kept.pool
  obtain ⟨p₂, kept', rest⟩ := requestCommissionInternal_keeps here kept.intact paidOut requested
  exact ⟨p₂, kept.trans kept', rest⟩

theorem unlockFor_keeps {amount : Nat} (intact : Intact c p) (paidOut : p.inactive = 0)
    (principal : c.principal = p.active + p.pendingActive)
    (ok : s.unlockFor env staker operator c amount = .ok (s', c')) :
    ∃ p', Kept s s' c c' p' := by
  obtain ⟨pool, got, ok⟩ := of_bind ok
  cases found.symm.trans (getPool_eq_ok.mp got)
  obtain ⟨remains, reduced, ok⟩ := of_bind ok
  obtain ⟨charged, added, ok⟩ := of_bind ok
  obtain ⟨stake, unlocked, last⟩ := of_bind ok
  cases last
  obtain ⟨-, rfl⟩ := sub_eq_ok.mp reduced
  have enough : min amount p.active ≤ p.active := min_le_right _ _
  obtain ⟨kept, -⟩ :=
    leave_keeps (c := { c with principal := c.principal - min amount p.active }) found
      intact.cap intact.percentage (by simp only; omega) enough paidOut added unlocked
  exact ⟨_, kept.others, kept.stores, kept.address, kept.pool, kept.intact⟩

end

end ContractState

end CreditChain
