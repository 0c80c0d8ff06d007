import CreditChain.Staking.Principal

/-!
# Staking contracts over runs

Any accounts call the entry functions of the staking contracts, the operators run their validators,
and epochs end and pay rewards to the stake pools.

* `principal_intact`: what follows for every run.

The percentage is checked when a contract is made and when its commission is updated, but not when
its operator is switched.
-/

namespace CreditChain

open ContractState Checked Option Function
open CreditChain.Except (bind_eq_ok ok_bind)

/-! ## Calls -/

/-- The entry functions, and the calls of the stake module that no capability is needed for. -/
inductive ContractCall where
  | createStakingContract (staker operator voter : Address) (amount commissionPercentage : Nat)
      (contractCreationSeed : List UInt8)
  | addStake (staker operator : Address) (amount : Nat)
  | updateVoter (staker operator newVoter : Address)
  | resetLockup (staker operator : Address)
  | updateCommision (staker operator : Address) (newCommissionPercentage : Nat)
  | requestCommission (account staker operator : Address)
  | unlockStake (staker operator : Address) (amount : Nat)
  | unlockRewards (staker operator : Address)
  | switchOperatorWithSameCommission (staker oldOperator newOperator : Address)
  | switchOperator (staker oldOperator newOperator : Address) (newCommissionPercentage : Nat)
  | setBeneficiaryForOperator (operator newBeneficiary : Address)
  | distribute (staker operator : Address)
  | rotateConsensusKey (operator poolAddress : Address)
      (newConsensusPubkey proofOfPossession : List UInt8)
  | joinValidatorSet (operator poolAddress : Address)
  | leaveValidatorSet (operator poolAddress : Address)
  | recordFee (feeDistributionValidatorIndices feeAmountsOcta : List Nat)
  | updatePerformanceStatistics (proposerIndex : Option Nat) (failedProposerIndices : List Nat)
  | onNewEpoch

/-- A call of the stake module. -/
def ContractState.ofStake (s : ContractState) (call : StakeState → Checked StakeState) :
    Checked ContractState := do
  let stake ← call s.stake
  return { s with stake }

def ContractState.call (env : ContractEnv) (s : ContractState) :
    ContractCall → Checked ContractState
  | .createStakingContract staker operator voter amount percentage seed =>
    s.createStakingContract env staker operator voter amount percentage seed
  | .addStake staker operator amount => s.addStake env staker operator amount
  | .updateVoter staker operator newVoter => s.updateVoter staker operator newVoter
  | .resetLockup staker operator => s.resetLockup env staker operator
  | .updateCommision staker operator percentage =>
    s.updateCommision env staker operator percentage
  | .requestCommission account staker operator => s.requestCommission env account staker operator
  | .unlockStake staker operator amount => s.unlockStake env staker operator amount
  | .unlockRewards staker operator => s.unlockRewards env staker operator
  | .switchOperatorWithSameCommission staker oldOperator newOperator =>
    s.switchOperatorWithSameCommission env staker oldOperator newOperator
  | .switchOperator staker oldOperator newOperator percentage =>
    s.switchOperator env staker oldOperator newOperator percentage
  | .setBeneficiaryForOperator operator newBeneficiary =>
    s.setBeneficiaryForOperator env operator newBeneficiary
  | .distribute staker operator => s.distribute env staker operator
  | .rotateConsensusKey operator poolAddress key pop =>
    s.ofStake fun stake => stake.rotateConsensusKey env.toStakeEnv operator poolAddress key pop
  | .joinValidatorSet operator poolAddress =>
    s.ofStake fun stake => stake.joinValidatorSet env.toStakeEnv operator poolAddress
  | .leaveValidatorSet operator poolAddress =>
    s.ofStake fun stake => stake.leaveValidatorSet env.toStakeEnv operator poolAddress
  | .recordFee indices amounts => s.ofStake fun stake => stake.recordFee indices amounts
  | .updatePerformanceStatistics proposerIndex failedProposerIndices =>
    s.ofStake fun stake =>
      stake.updatePerformanceStatistics proposerIndex failedProposerIndices
  | .onNewEpoch => s.ofStake fun stake => stake.onNewEpoch env.toStakeEnv

def ContractState.step (input : ContractEnv × ContractCall) (s : ContractState) :
    Option ContractState :=
  (s.call input.1 input.2).committed

/-! ## All contracts -/

/-- Every contract is intact, and each has a pool of its own. -/
structure ContractState.Sound (s : ContractState) : Prop where
  intact : ∀ staker operator c, s.contract? staker operator = some c →
    ∃ p, s.stake.pools c.poolAddress = some p ∧ Intact c p
  distinct : ∀ {staker operator c staker' operator' c'}, s.contract? staker operator = some c →
    s.contract? staker' operator' = some c' → c.poolAddress = c'.poolAddress →
    staker = staker' ∧ operator = operator'

namespace ContractState

variable {env : ContractEnv} {s s' : ContractState} {c c' : StakingContract} {p p' : StakePool}
  {staker operator : Address} {staker' operator' voter : Address}

theorem contract?_setContract :
    (s.setContract staker operator c).contract? staker' operator' =
      if staker' = staker ∧ operator' = operator then some c
      else s.contract? staker' operator' := by
  dsimp only [contract?, setContract]
  by_cases same : staker' = staker
  · subst same
    rw [update_self, bind_some, Table.find?_insert]
    by_cases here : operator' = operator
    · simp [here]
    · cases store : s.stores staker' with
      | none | some contracts => simp
  · simp [same]

theorem contract?_removeContract
    (found : (s.removeContract staker operator).contract? staker' operator' = some c) :
    s.contract? staker' operator' = some c ∧ ¬ (staker' = staker ∧ operator' = operator) := by
  dsimp only [contract?, removeContract] at found ⊢
  by_cases same : staker' = staker
  · subst same
    rw [update_self, bind_some, Table.find?_erase] at found
    split at found
    · cases found
    rename_i here
    refine ⟨?_, fun both => here both.2⟩
    cases store : s.stores staker' with
    | none | some contracts =>
      rw [store] at found
      exact found
  · rw [update_of_ne same] at found
    exact ⟨found, fun both => same both.1⟩

theorem getContract_ok (ok : s.getContract staker operator = .ok c) :
    s.contract? staker operator = some c := by
  unfold getContract at ok
  simp only [bind_eq_ok, orAbort_eq_ok] at ok
  obtain ⟨store, there, found⟩ := ok
  unfold contract?
  rw [there, bind_some, found]

namespace Sound

section

variable (sound : s.Sound)

include sound

/-- Another contract of the same state has another pool. -/
theorem apart (found : s.contract? staker operator = some c)
    {staker' operator' : Address} {d : StakingContract}
    (other : s.contract? staker' operator' = some d)
    (ne : ¬ (staker' = staker ∧ operator' = operator)) : d.poolAddress ≠ c.poolAddress :=
  fun same => ne (sound.distinct other found same)

theorem removed : (s.removeContract staker operator).Sound where
  intact staker' operator' d there :=
    sound.intact staker' operator' d (contract?_removeContract there).1
  distinct there there' same :=
    sound.distinct (contract?_removeContract there).1 (contract?_removeContract there').1 same

/-- A contract is kept, and stored again. -/
theorem stored (kept : Kept s s' c c' p')
    (apart : ∀ staker' operator' d, s.contract? staker' operator' = some d →
      ¬ (staker' = staker ∧ operator' = operator) → d.poolAddress ≠ c.poolAddress) :
    (s'.setContract staker operator c').Sound := by
  have stored : ∀ staker' operator', s'.contract? staker' operator' =
      s.contract? staker' operator' := by
    intro staker' operator'
    unfold contract?
    rw [kept.stores]
  refine ⟨?_, ?_⟩
  · intro staker' operator' d found
    rw [contract?_setContract, stored] at found
    split at found
    · cases found
      exact ⟨p', kept.address ▸ kept.pool, kept.intact⟩
    rename_i here
    obtain ⟨q, there, intact⟩ := sound.intact staker' operator' d found
    refine ⟨q, ?_, intact⟩
    rw [← there]
    exact kept.others _ (apart staker' operator' d found here)
  · intro staker₁ operator₁ c₁ staker₂ operator₂ c₂ found₁ found₂ same
    rw [contract?_setContract, stored] at found₁ found₂
    split_ifs at found₁ found₂ with here₁ here₂
    · exact ⟨here₁.1.trans here₂.1.symm, here₁.2.trans here₂.2.symm⟩
    · cases found₁
      exact absurd (same.symm.trans kept.address) (apart _ _ _ found₂ here₂)
    · cases found₂
      exact absurd (same.trans kept.address) (apart _ _ _ found₁ here₁)
    · exact sound.distinct found₁ found₂ same

theorem updated (found : s.contract? staker operator = some c)
    (kept : Kept s s' c c' p') : (s'.setContract staker operator c').Sound :=
  sound.stored kept fun _ _ _ other ne => sound.apart found other ne

/-- The contracts are the same, and their pools have grown. -/
theorem grown (stores : s'.stores = s.stores) (grown : AllGrown s.stake s'.stake) : s'.Sound := by
  have same : ∀ staker operator, s'.contract? staker operator = s.contract? staker operator := by
    intro staker operator
    unfold contract?
    rw [stores]
  refine ⟨?_, ?_⟩
  · intro staker operator c found
    rw [same] at found
    obtain ⟨p, there, intact⟩ := sound.intact staker operator c found
    obtain ⟨p', there', growth⟩ := grown _ p there
    exact ⟨p', there', intact.grown growth⟩
  · intro staker operator c staker' operator' c' found found' address
    rw [same] at found found'
    exact sound.distinct found found' address

end

end Sound

/-! ## Each call -/

variable {stake stake' : StakeState}

theorem allGrown_of_pools (pools : stake'.pools = stake.pools) : AllGrown stake stake' := by
  intro a p found
  exact ⟨p, by rw [pools, found], .refl p⟩

/-- A pool without coins. -/
structure StakePool.Bare (p : StakePool) : Prop where
  active : p.active = 0
  pendingActive : p.pendingActive = 0
  inactive : p.inactive = 0
  pendingInactive : p.pendingInactive = 0

/-- A pool without coins at `a`, and its capability in the account. -/
structure Opened (a : Address) (stake stake' : StakeState) : Prop where
  others : ∀ b, b ≠ a → stake'.pools b = stake.pools b
  pool : ∃ p, stake'.pools a = some p ∧ StakePool.Bare p
  cap : stake'.ownerCaps a = some ⟨a⟩

section

variable {stake stake₁ stake₂ : StakeState} {a : Address} {stakeEnv : StakeEnv}

section

variable (opened : Opened a stake stake₁)

include opened

/-- Another operator or voter of an open pool. -/
theorem Opened.set {p p' : StakePool}
    (found : stake₁.pools a = some p) (bare : StakePool.Bare p → StakePool.Bare p') :
    Opened a stake (stake₁.setPool a p') := by
  obtain ⟨others, ⟨q, there, empty⟩, cap⟩ := opened
  cases found.symm.trans there
  refine ⟨?_, ⟨p', StakeState.setPool_self, bare empty⟩, cap⟩
  intro b other
  rw [StakeState.setPool_of_ne other, others b other]

theorem Opened.setOperator {operator : Address}
    (ok : stake₁.setOperator stakeEnv a operator = .ok stake₂) : Opened a stake stake₂ := by
  have ok := of_check ok
  obtain ⟨cap, stored, ok⟩ := withOwnerCap_ok ok
  cases opened.cap.symm.trans stored
  obtain ⟨p, found, rfl⟩ := setOperatorWithCap_ok ok
  exact opened.set found fun bare => ⟨bare.1, bare.2, bare.3, bare.4⟩

theorem Opened.setDelegatedVoter {voter : Address}
    (ok : stake₁.setDelegatedVoter stakeEnv a voter = .ok stake₂) : Opened a stake stake₂ := by
  have ok := of_check ok
  obtain ⟨cap, stored, ok⟩ := withOwnerCap_ok ok
  cases opened.cap.symm.trans stored
  obtain ⟨p, found, rfl⟩ := setDelegatedVoterWithCap_ok ok
  exact opened.set found fun bare => ⟨bare.1, bare.2, bare.3, bare.4⟩

theorem Opened.setOther {other : Address} {f : StakeState → Checked StakeState}
    (set : f stake₁ = .ok stake₂ → Opened a stake stake₂)
    (ok : stake₁.setOther a other f = .ok stake₂) : Opened a stake stake₂ := by
  unfold StakeState.setOther at ok
  split at ok
  · exact set ok
  · cases ok
    exact opened

end

theorem initializeStakeOwner_opened {operator voter : Address}
    (ok : stake.initializeStakeOwner stakeEnv a 0 operator voter = .ok stake₁) :
    stake.pools a = none ∧ Opened a stake stake₁ := by
  obtain ⟨free, -, funded, operated, none, operate, delegate⟩ := initializeStakeOwner_ok ok
  cases none
  have opened : Opened a stake (stake.opened a ⟨[], [], [], 0⟩) :=
    ⟨fun _ other => update_of_ne other _ _, ⟨_, update_self .., rfl, rfl, rfl, rfl⟩, update_self ..⟩
  have withOperator := opened.setOther opened.setOperator operate
  exact ⟨free, withOperator.setOther withOperator.setDelegatedVoter delegate⟩

end

variable {ownerCap : OwnerCapability}

theorem createStakePool_ok {poolAddress : Address} {seed : List UInt8}
    (ok : createStakePool env stake staker operator voter seed =
      .ok (stake', poolAddress, ownerCap)) :
    stake.pools poolAddress = none ∧ ownerCap = ⟨poolAddress⟩ ∧
      (∀ a, a ≠ poolAddress → stake'.pools a = stake.pools a) ∧
      ∃ p, stake'.pools poolAddress = some p ∧ StakePool.Bare p := by
  unfold createStakePool at ok
  simp only [bind_eq_ok] at ok
  obtain ⟨account, -, stake₁, opening, ⟨cap, stake₂⟩, extracted, last⟩ := ok
  cases last
  obtain ⟨free, opened⟩ := initializeStakeOwner_opened opening
  unfold StakeState.extractOwnerCap at extracted
  simp only [bind_eq_ok, borrow_eq_ok] at extracted
  obtain ⟨_, -, _, -, stored, there, last⟩ := extracted
  cases last
  exact ⟨free, some.inj (there.symm.trans opened.cap), opened.others, opened.pool⟩

/-- Coins for a pool are active or about to be. -/
theorem addStakeWithCap_pool {stakeEnv : StakeEnv} {coins : Nat}
    (found : stake.pools ownerCap.poolAddress = some p)
    (ok : stake.addStakeWithCap stakeEnv ownerCap coins = .ok stake') :
    (∀ a, a ≠ ownerCap.poolAddress → stake'.pools a = stake.pools a) ∧
      ∃ p', stake'.pools ownerCap.poolAddress = some p' ∧ p'.inactive = p.inactive ∧
        p'.pendingInactive = p.pendingInactive ∧ p'.pendingActive ≤ p.pendingActive + coins ∧
        p'.active + p'.pendingActive = p.active + p.pendingActive + coins := by
  rcases addStakeWithCap_ok ok with ⟨rfl, rfl⟩ |
    ⟨set, pool, current, pool', -, borrowed, -, received, rfl⟩
  · exact ⟨fun _ _ => rfl, p, found, rfl, rfl, le_rfl, rfl⟩
  cases found.symm.trans borrowed
  refine ⟨fun a other => StakeState.setPool_of_ne other, pool', StakeState.setPool_self, ?_⟩
  unfold StakePool.receive at received
  split at received
  · obtain ⟨_, added, rfl⟩ := of_return received
    obtain ⟨-, rfl⟩ := add_eq_ok.mp added
    exact ⟨rfl, rfl, le_rfl, (add_assoc _ _ _).symm⟩
  · obtain ⟨_, added, rfl⟩ := of_return received
    obtain ⟨-, rfl⟩ := add_eq_ok.mp added
    exact ⟨rfl, rfl, Nat.le_add_right _ _, Nat.add_right_comm _ _ _⟩

/-- A new contract has a new pool with its coins. -/
theorem createStakingContract_ok {amount percentage : Nat} {seed : List UInt8}
    (ok : s.createStakingContract env staker operator voter amount percentage seed = .ok s') :
    ∃ s₁ c p', s.stake.pools c.poolAddress = none ∧ Kept s s₁ c c p' ∧
      s' = s₁.setContract staker operator c := by
  unfold createStakingContract at ok
  simp only [bind_eq_ok, ensure_eq_ok] at ok
  obtain ⟨paid, withdrawn, _, percent, _, -, _, -, ⟨stake, poolAddress, ownerCap⟩, created, funded,
    added, last⟩ := ok
  cases last
  have pay := withdrawCoins_paid withdrawn
  obtain ⟨free, rfl, others, p, opened, bare⟩ := createStakePool_ok created
  obtain ⟨others', p', here, inactive, leaving, joining, active⟩ := addStakeWithCap_pool opened added
  obtain ⟨noActive, noPending, noInactive, noLeaving⟩ := bare
  rw [pay.stake] at free others
  refine ⟨{ paid with stake := funded }, _, p', free,
    ⟨?_, pay.stores, rfl, here, rfl, percent, ?_, ?_, Nat.zero_le _, ?_⟩, rfl⟩
  · intro a other
    exact (others' a other).trans (others a other)
  · show p'.pendingActive ≤ amount
    omega
  · show amount ≤ p'.active + p'.pendingActive
    omega
  · exact .inl (inactive.trans noInactive)

section

variable (sound : s.Sound)

include sound

variable {amount percentage : Nat}

theorem createStakingContract_sound {voter : Address} {seed : List UInt8}
    (ok : s.createStakingContract env staker operator voter amount percentage seed = .ok s') :
    s'.Sound := by
  obtain ⟨s₁, c, p', free, kept, rfl⟩ := createStakingContract_ok ok
  refine sound.stored kept fun staker' operator' d found _ same => ?_
  obtain ⟨q, there, -⟩ := sound.intact staker' operator' d found
  rw [same, free] at there
  cases there

theorem addStake_sound (ok : s.addStake env staker operator amount = .ok s') : s'.Sound := by
  unfold addStake at ok
  simp only [bind_eq_ok, add_eq_ok] at ok
  obtain ⟨c, got, paid, withdrawn, stake, added, _, ⟨-, rfl⟩, last⟩ := ok
  cases last
  have pay := withdrawCoins_paid withdrawn
  have found := getContract_ok got
  obtain ⟨p, there, intact⟩ := sound.intact staker operator c found
  rw [pay.stake] at added
  obtain ⟨others, p', here, inactive, leaving, joining, active⟩ :=
    addStakeWithCap_pool (intact.cap ▸ there) added
  obtain ⟨cap, percent, joined, principal, distribution, apart⟩ := intact
  have kept : Kept s { paid with stake } c { c with principal := c.principal + amount } p' := by
    refine ⟨?_, pay.stores, rfl, cap ▸ here, cap, percent, ?_, ?_, ?_, ?_⟩
    · intro a other
      exact others a (cap ▸ other)
    · show p'.pendingActive ≤ c.principal + amount
      omega
    · show c.principal + amount ≤ p'.active + p'.pendingActive
      omega
    · show c.distributionPool.totalCoins ≤ p'.inactive + p'.pendingInactive
      omega
    · rw [inactive, leaving]
      exact apart
  exact sound.updated found kept

/-- A change of a pool that leaves its coins. -/
theorem Sound.setPool {a : Address} {q q' : StakePool} (found : s.stake.pools a = some q)
    (same : (q'.active, q'.pendingActive, q'.inactive, q'.pendingInactive) =
      (q.active, q.pendingActive, q.inactive, q.pendingInactive)) :
    ContractState.Sound { s with stake := s.stake.setPool a q' } := by
  simp only [Prod.mk.injEq] at same
  obtain ⟨active, pendingActive, inactive, pendingInactive⟩ := same
  refine sound.grown rfl (.of_update found ⟨?_, ?_, ?_, ?_⟩ rfl)
  · rw [pendingActive]
  · rw [active, pendingActive]
  · rw [inactive, pendingInactive]
  · rw [inactive, pendingInactive]
    exact id

theorem updateVoter_sound {newVoter : Address}
    (ok : s.updateVoter staker operator newVoter = .ok s') : s'.Sound := by
  unfold updateVoter at ok
  simp only [bind_eq_ok] at ok
  obtain ⟨c, -, _, -, stake, set, last⟩ := ok
  cases last
  obtain ⟨q, found, rfl⟩ := setDelegatedVoterWithCap_ok set
  exact sound.setPool found rfl

theorem resetLockup_sound (ok : s.resetLockup env staker operator = .ok s') : s'.Sound := by
  unfold resetLockup at ok
  simp only [bind_eq_ok] at ok
  obtain ⟨c, -, stake, set, last⟩ := ok
  cases last
  obtain ⟨q, _, found, rfl⟩ := increaseLockupWithCap_ok set
  exact sound.setPool found rfl

theorem updateCommision_sound
    (ok : s.updateCommision env staker operator percentage = .ok s') : s'.Sound := by
  unfold updateCommision at ok
  simp only [bind_eq_ok, ensure_eq_ok, orAbort_eq_ok] at ok
  obtain ⟨_, percent, store, stored, c, listed, ⟨s₁, c₁⟩, settled, last⟩ := ok
  cases last
  have found : s.contract? staker operator = some c := by
    unfold contract?
    rw [stored, bind_some, listed]
  obtain ⟨p, there, intact⟩ := sound.intact staker operator c found
  obtain ⟨p₁, kept, -, -⟩ := settle_keeps there intact settled
  obtain ⟨cap, -, joining, principal, distribution, leaving⟩ := kept.intact
  have intact₁ : Intact { c₁ with commissionPercentage := percentage } p₁ :=
    ⟨cap, percent, joining, principal, distribution, leaving⟩
  exact sound.updated found ⟨kept.others, kept.stores, kept.address, kept.pool, intact₁⟩

theorem requestCommission_sound {account : Address}
    (ok : s.requestCommission env account staker operator = .ok s') : s'.Sound := by
  unfold requestCommission at ok
  simp only [bind_eq_ok] at ok
  obtain ⟨_, -, c, got, ok⟩ := ok
  split at ok
  · cases ok
    exact sound
  rw [bind_eq_ok] at ok
  obtain ⟨⟨s₁, c₁⟩, settled, last⟩ := ok
  cases last
  have found := getContract_ok got
  obtain ⟨p, there, intact⟩ := sound.intact staker operator c found
  obtain ⟨p₁, kept, -, -⟩ := settle_keeps there intact settled
  exact sound.updated found kept

theorem unlockStake_sound (ok : s.unlockStake env staker operator amount = .ok s') : s'.Sound := by
  unfold unlockStake at ok
  split at ok
  · cases ok
    exact sound
  simp only [bind_eq_ok] at ok
  obtain ⟨c, got, ⟨s₁, c₁⟩, settled, ⟨s₂, c₂⟩, unlocked, last⟩ := ok
  cases last
  have found := getContract_ok got
  obtain ⟨p, there, intact⟩ := sound.intact staker operator c found
  obtain ⟨p₁, kept, paidOut, principal⟩ := settle_keeps there intact settled
  have here : s₁.stake.pools c₁.poolAddress = some p₁ := kept.address ▸ kept.pool
  obtain ⟨p₂, kept'⟩ := unlockFor_keeps here kept.intact paidOut principal unlocked
  exact sound.updated found (kept.trans kept')

end

theorem switchOperator_sound {newOperator : Address} {percentage : Nat}
    (percent : percentage ≤ 100) (sound : s.Sound)
    (ok : s.switchOperator env staker operator newOperator percentage = .ok s') : s'.Sound := by
  unfold switchOperator at ok
  simp only [bind_eq_ok] at ok
  obtain ⟨c, got, _, -, ⟨s₁, c₁⟩, settled, stake, set, last⟩ := ok
  cases last
  obtain ⟨q, borrowed, rfl⟩ := setOperatorWithCap_ok set
  have found := getContract_ok got
  obtain ⟨p, there, intact⟩ := sound.intact staker operator c found
  obtain ⟨p₁, kept, -, -⟩ := settle_keeps (s := s.removeContract staker operator) there intact settled
  obtain ⟨cap, -, joining, principal, distribution, leaving⟩ := kept.intact
  have address : c₁.ownerCap.poolAddress = c.poolAddress := cap.trans kept.address
  rw [address, kept.pool] at borrowed
  cases borrowed
  have intact₁ : Intact { c₁ with commissionPercentage := percentage }
      { q with operatorAddress := newOperator } :=
    ⟨cap, percent, joining, principal, distribution, leaving⟩
  refine sound.removed.stored (c := c) ⟨?_, kept.stores, kept.address, ?_, intact₁⟩ ?_
  · intro a other
    rw [← kept.others a other]
    exact StakeState.setPool_of_ne (address.symm ▸ other)
  · rw [← address]
    exact StakeState.setPool_self
  · intro staker' operator' d other _
    obtain ⟨other, ne⟩ := contract?_removeContract other
    exact sound.apart found other ne

theorem distribute_sound (sound : s.Sound)
    (ok : s.distribute env staker operator = .ok s') : s'.Sound := by
  unfold distribute at ok
  simp only [bind_eq_ok] at ok
  obtain ⟨c, got, ⟨s₁, c₁⟩, distributed, last⟩ := ok
  cases last
  have found := getContract_ok got
  obtain ⟨p, there, intact⟩ := sound.intact staker operator c found
  obtain ⟨p₁, kept, -⟩ := distributeInternal_keeps there intact distributed
  exact sound.updated found kept

/-- No operator is switched to with a commission of more than all rewards. -/
def SwitchesWithin : ContractCall → Prop
  | .switchOperator _ _ _ newCommissionPercentage => newCommissionPercentage ≤ 100
  | _ => True

/-- A call keeps every contract intact, if no operator is switched to with a commission of more than
100 per cent. -/
theorem Sound.call {call : ContractCall} (sound : s.Sound) (within : SwitchesWithin call)
    (ok : s.call env call = .ok s') : s'.Sound := by
  cases call with
  | createStakingContract => exact createStakingContract_sound sound ok
  | addStake => exact addStake_sound sound ok
  | updateVoter => exact updateVoter_sound sound ok
  | resetLockup => exact resetLockup_sound sound ok
  | updateCommision => exact updateCommision_sound sound ok
  | requestCommission => exact requestCommission_sound sound ok
  | unlockStake => exact unlockStake_sound sound ok
  | unlockRewards =>
    obtain ⟨_, -, ok⟩ := of_bind ok
    obtain ⟨_, -, unlocked⟩ := of_bind ok
    exact unlockStake_sound sound unlocked
  | switchOperatorWithSameCommission =>
    obtain ⟨c, got, switched⟩ := of_bind ok
    obtain ⟨p, -, intact⟩ := sound.intact _ _ c (getContract_ok got)
    exact switchOperator_sound intact.percentage sound switched
  | switchOperator => exact switchOperator_sound within sound ok
  | setBeneficiaryForOperator =>
    cases of_check ok
    exact sound.grown rfl (.refl _)
  | distribute => exact distribute_sound sound ok
  | rotateConsensusKey =>
    obtain ⟨stake, rotated, rfl⟩ := of_return ok
    obtain ⟨_, -, rfl⟩ := rotateConsensusKey_ok rotated
    exact sound.grown rfl (allGrown_of_pools rfl)
  | joinValidatorSet =>
    obtain ⟨stake, joined, rfl⟩ := of_return ok
    obtain ⟨_, _, _, -, -, -, -, -, rfl⟩ := joinValidatorSetInternal_ok (joinValidatorSet_ok joined)
    exact sound.grown rfl (allGrown_of_pools rfl)
  | leaveValidatorSet =>
    obtain ⟨stake, left, rfl⟩ := of_return ok
    obtain ⟨_, _, -, -, rfl⟩ := leaveValidatorSet_ok left
    exact sound.grown rfl (allGrown_of_pools rfl)
  | recordFee =>
    obtain ⟨stake, recorded, rfl⟩ := of_return ok
    obtain ⟨_, _, -, -, rfl⟩ := recordFee_ok recorded
    exact sound.grown rfl (allGrown_of_pools rfl)
  | updatePerformanceStatistics =>
    obtain ⟨stake, updated, rfl⟩ := of_return ok
    obtain ⟨_, -, rfl⟩ := updatePerformanceStatistics_ok updated
    exact sound.grown rfl (allGrown_of_pools rfl)
  | onNewEpoch =>
    obtain ⟨stake, ended, rfl⟩ := of_return ok
    exact sound.grown rfl (onNewEpoch_grown ended)

/-! ## Runs -/

/-- The coins of a pool are a part of a supply below a hundredth of the largest amount. -/
def Supplied (s : ContractState) : Prop :=
  ∀ a p, s.stake.pools a = some p →
    (p.active + p.pendingActive + p.inactive + p.pendingInactive) * 100 < 2 ^ 64

/-- Any accounts with coins and any stake pools, before the first contract. -/
structure Initial (s : ContractState) : Prop where
  stores : ∀ staker, s.stores staker = none
  supplied : s.Supplied

/-- The supply stays below its limit. -/
def WithinSupply (s : ContractState) (input : ContractEnv × ContractCall) : Prop :=
  ∀ s', step input s = some s' → s'.Supplied

/-- What a contract that fits a pool has to show for itself. -/
theorem amounts_of_intact (there : s.stake.pools c.poolAddress = some p) (intact : Intact c p)
    (supplied : s.Supplied) :
    ∃ total rewards commission,
      s.getStakingContractAmountsInternal c = .ok (total, rewards, commission) ∧
        commission ≤ rewards ∧ commission ≤ p.active := by
  have small := supplied _ _ there
  obtain ⟨part, active⟩ := intact.commission_le
  have product : (p.active + p.pendingActive - c.principal) * c.commissionPercentage ≤
      (p.active + p.pendingActive) * 100 := Nat.mul_le_mul (Nat.sub_le _ _) intact.percentage
  have fits : p.active + p.pendingActive ≤ u64Max := by
    unfold u64Max
    omega
  have productFits :
      (p.active + p.pendingActive - c.principal) * c.commissionPercentage ≤ u64Max := by
    unfold u64Max
    omega
  refine ⟨p.active + p.pendingActive, _, _, ?_, part, part.trans active⟩
  unfold getStakingContractAmountsInternal
  simp only [bind_eq_ok, add_eq_ok, sub_eq_ok, mul_eq_ok]
  exact ⟨p, getPool_eq_ok.mpr there, _, ⟨fits, rfl⟩, _, ⟨intact.principal, rfl⟩, _,
    ⟨productFits, rfl⟩, rfl⟩

theorem principal_intact {s : ContractState} (reached : Run.Reaches step
      (fun s input => SwitchesWithin input.2 ∧ WithinSupply s input) Initial s) :
    ∀ staker operator c, s.contract? staker operator = some c →
      ∃ p total rewards commission, s.stake.pools c.poolAddress = some p ∧
        c.commissionPercentage ≤ 100 ∧ c.principal ≤ p.active + p.pendingActive ∧
        s.stakingContractAmounts staker operator = .ok (total, rewards, commission) ∧
        commission ≤ rewards ∧ commission ≤ p.active ∧
        c.distributionPool.totalCoins ≤ p.inactive + p.pendingInactive := by
  have kept : s.Sound ∧ s.Supplied := by
    refine reached.invariant (I := fun s => s.Sound ∧ s.Supplied) ?_ ?_
    · intro s initial
      have none : ∀ staker operator, s.contract? staker operator = none := by
        intro staker operator
        unfold contract?
        rw [initial.stores]
        rfl
      refine ⟨⟨?_, ?_⟩, initial.supplied⟩
      · intro staker operator c found
        rw [none] at found
        cases found
      · intro staker operator c _ _ _ found
        rw [none] at found
        cases found
    · rintro s ⟨env, call⟩ s' ⟨sound, -⟩ ⟨within, supply⟩ done
      exact ⟨sound.call within (committed_eq_some.mp done), supply s' done⟩
  intro staker operator c found
  obtain ⟨p, there, intact⟩ := kept.1.intact staker operator c found
  obtain ⟨total, rewards, commission, amounts, part, active⟩ :=
    amounts_of_intact there intact kept.2
  refine ⟨p, total, rewards, commission, there, intact.percentage, intact.principal, ?_, part,
    active, intact.distribution⟩
  obtain ⟨store, stored, listed⟩ := bind_eq_some_iff.mp found
  unfold stakingContractAmounts getContract
  rw [stored, orAbort, ok_bind, listed]
  exact amounts

end ContractState

/-! ## A contract and its operators -/

namespace TwoOperators

/-- The account of the contract is 9. -/
def env : ContractEnv where
  toStakeEnv := SecondValidator.setting
  createResourceAccount := fun _ _ _ => .ok 9
  operatorBeneficiaryChangeEnabled := true

def before : ContractState where
  stake := .initial
  balances := fun _ => 1000
  stores := fun _ => none
  beneficiaries := fun _ => none

theorem before_initial : before.Initial where
  stores _ := rfl
  supplied := by
    intro a p found
    cases found

/-- Staker 1 and operator 2 agree on a commission of 10 per cent.  The operator is switched to
one with another commission, joins the validators, and the pool of the contract gets rewards. -/
def switched (percentage : Nat) : List (ContractEnv × ContractCall) :=
  [(env, .createStakingContract 1 2 3 100 10 []), (env, .switchOperator 1 2 4 percentage),
    (env, .rotateConsensusKey 4 9 [7] []), (env, .joinValidatorSet 4 9), (env, .onNewEpoch),
    (env, .updatePerformanceStatistics (some 0) []), (env, .onNewEpoch)]

def rewarded (percentage : Nat) : ContractState :=
  ((switched percentage).foldlM (fun s input => ContractState.step input s) before).getD before

/-- The pool at an address is within the supply after each of the calls. -/
def suppliedAt (a : Address) : List (ContractEnv × ContractCall) → ContractState → Bool
  | [], _ => true
  | input :: inputs, s =>
    match ContractState.step input s with
    | none => true
    | some s' => (s'.stake.pools a).all (fun p =>
        decide ((p.active + p.pendingActive + p.inactive + p.pendingInactive) * 100 < 2 ^ 64)) &&
          suppliedAt a inputs s'

theorem reached_of_suppliedAt {inputs : List (ContractEnv × ContractCall)} {s s' : ContractState}
    (reached : Run.Reaches step
      (fun s input => SwitchesWithin input.2 ∧ WithinSupply s input) Initial s)
    (within : ∀ input ∈ inputs, SwitchesWithin input.2)
    (supplied : ∀ a, suppliedAt a inputs s = true)
    (done : inputs.foldlM (fun s input => step input s) s = some s') :
    Run.Reaches step (fun s input => SwitchesWithin input.2 ∧ WithinSupply s input) Initial s' := by
  induction inputs generalizing s with
  | nil =>
    cases done
    exact reached
  | cons input inputs ih =>
    obtain ⟨next, stepped, rest⟩ := bind_eq_some_iff.mp done
    simp only [suppliedAt, stepped, Bool.and_eq_true] at supplied
    have supply : WithinSupply s input := by
      intro s' stepped' a p found
      cases stepped.symm.trans stepped'
      have small := (supplied a).1
      rw [found] at small
      exact of_decide_eq_true small
    obtain ⟨first, later⟩ := List.forall_mem_cons.mp within
    exact ih (reached.step ⟨first, supply⟩ stepped) later (fun a => (supplied a).2) rest

/-- The only pool is that of the contract. -/
theorem switched_supplied : ∀ a, suppliedAt a (switched 100) before = true
  | 0 | 1 | 2 | 3 | 4 | 5 | 6 | 7 | 8 | 9 | _ + 10 => rfl

/-- A commission of all rewards leaves the principal alone. -/
theorem rewarded_intact :
    ∃ c p total rewards commission, (rewarded 100).contract? 1 4 = some c ∧ c.principal = 100 ∧
      (rewarded 100).stake.pools c.poolAddress = some p ∧
      c.commissionPercentage ≤ 100 ∧ c.principal ≤ p.active + p.pendingActive ∧
      (rewarded 100).stakingContractAmounts 1 4 = .ok (total, rewards, commission) ∧
      commission ≤ rewards ∧ commission ≤ p.active ∧
      c.distributionPool.totalCoins ≤ p.inactive + p.pendingInactive := by
  have within : ∀ input ∈ switched 100, SwitchesWithin input.2 := by
    simp [switched, SwitchesWithin]
  have done : (switched 100).foldlM (fun s input => step input s) before = some (rewarded 100) := rfl
  have reached := reached_of_suppliedAt (.start before_initial) within switched_supplied done
  obtain ⟨p, total, rewards, commission, rest⟩ := principal_intact reached 1 4 _ rfl
  exact ⟨_, p, total, rewards, commission, rfl, rfl, rest⟩

theorem commission_exceeds_rewards :
    Run.Reaches ContractState.step (fun _ _ => True) Initial (rewarded 200) ∧
      ((rewarded 200).contract? 1 4).map (·.commissionPercentage) = some 200 ∧
      (rewarded 200).stakingContractAmounts 1 4 = .ok (101, 1, 2) := by
  have done : (switched 200).foldlM (fun s input => ContractState.step input s) before =
      some (rewarded 200) := rfl
  refine ⟨?_, by decide +kernel, by decide +kernel⟩
  exact (Run.Reaches.start before_initial).of_foldlM (fun _ _ => trivial) done

end TwoOperators

end CreditChain
