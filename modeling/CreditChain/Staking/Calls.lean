import CreditChain.Staking.Accounting

/-!
# The calls of the stake module

Every call that does not abort is a step of the books.
-/

namespace CreditChain

open Checked ValidatorSet List Function
open Option (some)

variable {env : StakeEnv} {s s' s'' : StakeState} {added : Nat} {a : Address}
  {pool pool' : StakePool} {set set' : ValidatorSet} {ownerCap : OwnerCapability}

/-! ## Lookups -/

variable {infos : List ValidatorInfo}

theorem findValidator_isSome : (findValidator infos a).isSome = true ↔ a ∈ addresses infos := by
  unfold findValidator addresses
  rw [findIdx?_isSome, any_eq_true, mem_map]
  simp only [beq_iff_eq]

variable {i withdrawn limit index : Nat} {info : ValidatorInfo}

theorem addr_of_findValidator (found : findValidator infos a = some i)
    (at_ : infos[i]? = some info) : info.addr = a := by
  obtain ⟨bound, here, -⟩ := List.findIdx?_eq_some_iff_getElem.mp found
  rw [getElem?_eq_getElem bound, some.injEq] at at_
  rw [← at_]
  exact beq_iff_eq.mp here

/-- Who is in the set without being about to join. -/
theorem mem_current : a ∈ addresses set.current ↔
    a ∈ addresses set.activeValidators ∨ a ∈ addresses set.pendingInactive := by
  rw [current, addresses_append, mem_append]

/-- An inactive account is in none of the lists. -/
theorem getValidatorState_inactive (inactive : set.getValidatorState a = .inactive) :
    a ∉ addresses (set.current ++ set.pendingActive) := by
  unfold getValidatorState at inactive
  simp only [findValidator_isSome] at inactive
  rw [addresses_append, mem_append, mem_current]
  split at inactive
  · cases inactive
  split at inactive
  · cases inactive
  split at inactive
  · cases inactive
  rintro ((active | leaves) | joins)
  all_goals contradiction

/-- Validators that leave still belong to the epoch. -/
theorem isCurrentEpochValidator_ok {current : Bool} (ok : s.isCurrentEpochValidator a = .ok current) :
    current = true ↔ a ∉ addresses s.set.pendingActive ∧ a ∈ addresses s.set.current := by
  cases of_check ok
  rw [mem_current]
  unfold getValidatorState
  simp only [findValidator_isSome]
  by_cases joins : a ∈ addresses s.set.pendingActive
  · simp [joins]
  by_cases active : a ∈ addresses s.set.activeValidators
  · simp [joins, active]
  · by_cases leaves : a ∈ addresses s.set.pendingInactive
    all_goals simp [joins, active, leaves]

/-- A call through a capability is a call with the one that the signer stores. -/
theorem withOwnerCap_ok {α : Type} {use : OwnerCapability → Checked α} {result : α}
    (ok : s.withOwnerCap a use = .ok result) :
    ∃ ownerCap, s.ownerCaps a = some ownerCap ∧ use ownerCap = .ok result := by
  have ok := of_check ok
  obtain ⟨ownerCap, found, ok⟩ := of_bind ok
  exact ⟨ownerCap, borrow_eq_ok.mp found, ok⟩

/-! ## What a call keeps -/

/-- No entry is new, and no configuration has lost its index. -/
structure KeepsIndices (s s' : StakeState) : Prop where
  members : ∀ info ∈ s'.set.current, info ∈ s.set.current
  configs : ∀ a config, s.configs a = some config →
    ∃ config', s'.configs a = some config' ∧ config'.validatorIndex = config.validatorIndex

/-- The fee that the validator of an index waits for. -/
def StakeState.pendingFee (s : StakeState) (index : Nat) : Option Nat :=
  s.pendingFeeByValidator.bind (·.find? index)

/-- What every call but the end of an epoch does: besides, no index is new in the records of the
epoch, a fee that changes fits its type, and who joins has a configuration. -/
structure Keeps (s s' : StakeState) : Prop extends KeepsIndices s s' where
  rounds : s'.performance.length = s.performance.length
  fees : ∀ index fee, s'.pendingFee index = some fee →
    s.pendingFee index = some fee ∨ (∃ before, s.pendingFee index = some before) ∧ fee ≤ u64Max
  joining : ∀ info ∈ s'.set.pendingActive,
    info ∈ s.set.pendingActive ∨ ∃ config, s'.configs info.addr = some config

variable {config : ValidatorConfig}

open StakeState

namespace Keeps

theorem of_same (set : s'.set = s.set) (configs : s'.configs = s.configs)
    (rounds : s'.performance.length = s.performance.length)
    (fees : s'.pendingFeeByValidator = s.pendingFeeByValidator) : Keeps s s' where
  members := by
    intro info mem
    rwa [← set]
  configs := by
    intro a config found
    exact ⟨config, by rw [configs, found], rfl⟩
  rounds := rounds
  fees := by
    intro index fee listed
    rw [pendingFee, fees] at listed
    exact .inl listed
  joining := by
    intro info mem
    rw [set] at mem
    exact .inl mem

theorem refl (s : StakeState) : Keeps s s := of_same rfl rfl rfl rfl

theorem trans (first : Keeps s s') (second : Keeps s' s'') : Keeps s s'' where
  members := fun info mem => first.members info (second.members info mem)
  configs := by
    intro a config found
    obtain ⟨config', found', same⟩ := first.configs a config found
    obtain ⟨config'', found'', same'⟩ := second.configs a config' found'
    exact ⟨config'', found'', same'.trans same⟩
  rounds := second.rounds.trans first.rounds
  fees := by
    intro index fee listed
    rcases second.fees index fee listed with same | ⟨⟨before, listed⟩, fits⟩
    · exact first.fees index fee same
    · rcases first.fees index before listed with same | ⟨earlier, -⟩
      · exact .inr ⟨⟨before, same⟩, fits⟩
      · exact .inr ⟨earlier, fits⟩
  joining := by
    intro info mem
    rcases second.joining info mem with before | configured
    · rcases first.joining info before with before | ⟨config, found⟩
      · exact .inl before
      · obtain ⟨config', found', -⟩ := second.configs info.addr config found
        exact .inr ⟨config', found'⟩
    · exact .inr configured

/-- The entries of the epoch in another order, and others that join. -/
theorem of_set {set : ValidatorSet} (perm : set.current.Perm s.set.current)
    (joining : ∀ info ∈ set.pendingActive,
      info ∈ s.set.pendingActive ∨ ∃ config, s.configs info.addr = some config) :
    Keeps s { s with set } where
  members := fun _ mem => perm.mem_iff.mp mem
  configs := fun _ config found => ⟨config, found, rfl⟩
  rounds := rfl
  fees := fun _ _ listed => .inl listed
  joining := joining

/-- Another configuration with the same index. -/
theorem of_update {config' : ValidatorConfig} (found : s.configs a = some config)
    (index : config'.validatorIndex = config.validatorIndex) :
    Keeps s { s with configs := update s.configs a (some config') } where
  members := fun _ mem => mem
  configs := by
    intro b other here
    by_cases same : b = a
    · subst same
      rw [found, some.injEq] at here
      subst here
      exact ⟨config', update_self _ _ _, index⟩
    · exact ⟨other, (update_of_ne same _ _).trans here, rfl⟩
  rounds := rfl
  fees := fun _ _ listed => .inl listed
  joining := fun _ mem => .inl mem

end Keeps

/-- A call that changes little. -/
structure Minor (s s' : StakeState) : Prop where
  quiet : Quiet s s'
  keeps : Keeps s s'

namespace Minor

theorem of_same (set : s'.set = s.set) (rounds : s'.performance.length = s.performance.length)
    (pools : s'.pools = s.pools) (configs : s'.configs = s.configs)
    (fees : s'.pendingFeeByValidator = s.pendingFeeByValidator) : Minor s s' :=
  ⟨.of_same set rounds pools, .of_same set configs rounds fees⟩

theorem of_setPool (found : s.pools a = some pool)
    (pending : pool'.pendingActive = pool.pendingActive)
    (power : a ∈ addresses (s.set.current ++ s.set.pendingActive) →
      pool'.currentPower = pool.currentPower) : Minor s (s.setPool a pool') :=
  ⟨.of_setPool found pending power, .of_same rfl rfl rfl rfl⟩

theorem of_config {config' : ValidatorConfig} (found : s.configs a = some config)
    (index : config'.validatorIndex = config.validatorIndex) :
    Minor s { s with configs := update s.configs a (some config') } :=
  ⟨.of_same rfl rfl rfl, .of_update found index⟩

theorem refl (s : StakeState) : Minor s s := ⟨.refl s, .refl s⟩

theorem trans (first : Minor s s') (second : Minor s' s'') : Minor s s'' :=
  ⟨first.quiet.trans second.quiet, first.keeps.trans second.keeps⟩

end Minor

/-! ## New pools -/

/-- A pool without stake at `a`, with its capability and a configuration. -/
def StakeState.opened (s : StakeState) (a : Address) (config : ValidatorConfig) : StakeState :=
  { s with
    pools := update s.pools a (some ⟨0, 0, 0, 0, 0, a, a⟩)
    ownerCaps := update s.ownerCaps a (some ⟨a⟩)
    configs := update s.configs a (some config) }

/-- A new pool is empty, and its address had none. -/
theorem initializeOwner_ok (ok : s.initializeOwner env a = .ok s') :
    s.pools a = none ∧ s' = { s with
      pools := update s.pools a (some ⟨0, 0, 0, 0, 0, a, a⟩),
      ownerCaps := update s.ownerCaps a (some ⟨a⟩) } := by
  have ok := of_check ok
  have ok := of_check ok
  have ok := of_check ok
  obtain ⟨pools, moved, ok⟩ := of_bind ok
  obtain ⟨ownerCaps, deposited, rfl⟩ := of_return ok
  obtain ⟨free, rfl⟩ := moveTo_eq_ok.mp moved
  obtain ⟨-, rfl⟩ := moveTo_eq_ok.mp deposited
  exact ⟨free, rfl⟩

/-- A new entry changes no other. -/
theorem update_of_free {α : Type} {f : Address → Option α} {b : Address} {x : α}
    (free : f a = none) (found : f b = some x) (y : Option α) : update f a y b = some x := by
  have ne : b ≠ a := by
    rintro rfl
    rw [free] at found
    cases found
  rw [update_of_ne ne, found]

/-- A new pool is not in the set, and has no stake. -/
theorem Minor.opened (free : s.pools a = none)
    (unset : s.configs a = none) : Minor s (s.opened a config) where
  quiet.set := rfl
  quiet.rounds := rfl
  quiet.listed := fun _ _ other here => ⟨other, update_of_free free here _, rfl, rfl⟩
  quiet.idle := by
    intro b other here
    change update s.pools a _ b = some other at here
    rw [update_apply] at here
    split at here
    · cases here
      exact .inl rfl
    · exact .inr ⟨other, here, rfl⟩
  keeps.members := fun _ mem => mem
  keeps.configs := fun _ other found => ⟨other, update_of_free unset found _, rfl⟩
  keeps.rounds := rfl
  keeps.fees := fun _ _ listed => .inl listed
  keeps.joining := fun _ mem => .inl mem

/-- What is in the set has a pool. -/
theorem Sound.unlisted (sound : Sound s added) (free : s.pools a = none) :
    a ∉ addresses (s.set.current ++ s.set.pendingActive) := by
  rw [addresses_append, mem_append]
  rintro (current | joins)
  · obtain ⟨info, mem, rfl⟩ := mem_map.mp current
    obtain ⟨pool, found, -⟩ := sound.powers info mem
    rw [free] at found
    cases found
  · obtain ⟨pool, found⟩ := sound.registered a joins
    rw [free] at found
    cases found

variable {key pop network fullnode : List UInt8}

theorem initializeValidator_minor
    (ok : s.initializeValidator env a key pop network fullnode = .ok s') : Minor s s' := by
  have ok := of_check ok
  have ok := of_check ok
  obtain ⟨s₁, owned, ok⟩ := of_bind ok
  obtain ⟨configs, moved, rfl⟩ := of_return ok
  obtain ⟨free, rfl⟩ := initializeOwner_ok owned
  obtain ⟨unset, rfl⟩ := moveTo_eq_ok.mp moved
  exact .opened free unset

/-! ## Calls for one account -/

theorem extractOwnerCap_minor (ok : s.extractOwnerCap env a = .ok (ownerCap, s')) : Minor s s' := by
  have ok := of_check ok
  have ok := of_check ok
  obtain ⟨_, -, same⟩ := of_bind ok
  cases same
  exact .of_same rfl rfl rfl rfl rfl

theorem depositOwnerCap_minor (ok : s.depositOwnerCap env a ownerCap = .ok s') : Minor s s' := by
  have ok := of_check ok
  have ok := of_check ok
  obtain ⟨_, -, rfl⟩ := of_return ok
  exact .of_same rfl rfl rfl rfl rfl

theorem setOperatorWithCap_ok (ok : s.setOperatorWithCap ownerCap a = .ok s') :
    ∃ pool, s.pools ownerCap.poolAddress = some pool ∧
      s' = s.setPool ownerCap.poolAddress { pool with operatorAddress := a } := by
  have ok := of_check ok
  obtain ⟨pool, borrowed, rfl⟩ := of_return ok
  exact ⟨pool, borrow_eq_ok.mp borrowed, rfl⟩

theorem setOperatorWithCap_minor (ok : s.setOperatorWithCap ownerCap a = .ok s') : Minor s s' := by
  obtain ⟨pool, found, rfl⟩ := setOperatorWithCap_ok ok
  exact .of_setPool found rfl fun _ => rfl

variable {owner : Address}

theorem setOperator_minor (ok : s.setOperator env owner a = .ok s') : Minor s s' := by
  have ok := of_check ok
  obtain ⟨ownerCap, -, ok⟩ := withOwnerCap_ok ok
  exact setOperatorWithCap_minor ok

theorem setDelegatedVoterWithCap_ok (ok : s.setDelegatedVoterWithCap ownerCap a = .ok s') :
    ∃ pool, s.pools ownerCap.poolAddress = some pool ∧
      s' = s.setPool ownerCap.poolAddress { pool with delegatedVoter := a } := by
  have ok := of_check ok
  obtain ⟨pool, borrowed, rfl⟩ := of_return ok
  exact ⟨pool, borrow_eq_ok.mp borrowed, rfl⟩

theorem setDelegatedVoterWithCap_minor (ok : s.setDelegatedVoterWithCap ownerCap a = .ok s') :
    Minor s s' := by
  obtain ⟨pool, found, rfl⟩ := setDelegatedVoterWithCap_ok ok
  exact .of_setPool found rfl fun _ => rfl

theorem setDelegatedVoter_minor (ok : s.setDelegatedVoter env owner a = .ok s') : Minor s s' := by
  have ok := of_check ok
  obtain ⟨ownerCap, -, ok⟩ := withOwnerCap_ok ok
  exact setDelegatedVoterWithCap_minor ok

variable {operator : Address}

/-- What an operator may change has a configuration. -/
theorem operated_ok (ok : s.operated env operator a = .ok config) : s.configs a = some config := by
  unfold operated at ok
  simp only [Except.bind_eq_ok] at ok
  obtain ⟨_, -, _, -, _, -, _, -, _, -, _, -, borrowed⟩ := ok
  exact borrow_eq_ok.mp borrowed

theorem rotateConsensusKey_ok (ok : s.rotateConsensusKey env operator a key pop = .ok s') :
    ∃ config, s.configs a = some config ∧ s' = { s with
      configs := update s.configs a (some { config with consensusPubkey := key }) } := by
  obtain ⟨config, operated, ok⟩ := of_bind ok
  cases of_check ok
  exact ⟨config, operated_ok operated, rfl⟩

theorem updateNetworkAndFullnodeAddresses_minor
    (ok : s.updateNetworkAndFullnodeAddresses env operator a network fullnode = .ok s') :
    Minor s s' := by
  obtain ⟨config, operated, rfl⟩ := of_return ok
  exact .of_config (operated_ok operated) rfl

/-! ## Stake -/

variable {amount : Nat}

/-- Only the joining power changes, within the limit. -/
theorem updateVotingPowerIncrease_ok (ok : set.updateVotingPowerIncrease env amount = .ok set') :
    set' = { set with totalJoiningPower := set.totalJoiningPower + amount } ∧
      set'.Capped env.config.votingPowerIncreaseLimit := by
  obtain ⟨joining, sum, ok⟩ := of_bind ok
  obtain ⟨-, rfl⟩ := add_eq_ok.mp sum
  split at ok
  · obtain ⟨product, multiplied, ok⟩ := of_bind ok
    obtain ⟨_, within, rfl⟩ := of_return ok
    obtain ⟨-, rfl⟩ := mul_eq_ok.mp multiplied
    exact ⟨rfl, fun _ => ensure_eq_ok.mp within⟩
  · rename_i voting
    cases ok
    exact ⟨rfl, fun positive => absurd positive voting⟩

/-- Coins for a member count as joining power, others do not. -/
theorem trackIncrease_ok (ok : set.trackIncrease env a amount = .ok set') :
    if a ∈ addresses set.activeValidators ∨ a ∈ addresses set.pendingActive then
      set' = { set with totalJoiningPower := set.totalJoiningPower + amount } ∧
        set'.Capped env.config.votingPowerIncreaseLimit
    else set' = set := by
  unfold trackIncrease at ok
  simp only [Bool.or_eq_true, findValidator_isSome] at ok
  split
  · next tracked =>
    rw [if_pos tracked] at ok
    exact updateVotingPowerIncrease_ok ok
  · next untracked =>
    rw [if_neg untracked] at ok
    cases ok
    rfl

variable {coins : Nat}

/-- Coins for a validator of the epoch do not count yet, others do at once. -/
theorem receive_ok {current : Bool} (ok : pool.receive current coins = .ok pool') :
    if current then pool'.currentPower = pool.currentPower
    else pool'.pendingActive = pool.pendingActive ∧ pool'.nextPower = pool.nextPower + coins := by
  cases current with
  | true =>
    obtain ⟨_, -, rfl⟩ := of_return ok
    rfl
  | false =>
    obtain ⟨sum, added, rfl⟩ := of_return ok
    obtain ⟨-, rfl⟩ := add_eq_ok.mp added
    refine ⟨rfl, ?_⟩
    change pool.pendingActive + (pool.active + coins) + pool.pendingInactive =
      pool.pendingActive + pool.active + pool.pendingInactive + coins
    omega

/-- What changes when coins are added: one pool, and the joining power. -/
theorem addStakeWithCap_ok (ok : s.addStakeWithCap env ownerCap coins = .ok s') :
    (coins = 0 ∧ s' = s) ∨ ∃ set pool current pool',
      s.set.trackIncrease env ownerCap.poolAddress coins = .ok set ∧
      s.pools ownerCap.poolAddress = some pool ∧
      s.isCurrentEpochValidator ownerCap.poolAddress = .ok current ∧
      pool.receive current coins = .ok pool' ∧
      s' = { s.setPool ownerCap.poolAddress pool' with set } := by
  have ok := of_check ok
  have ok := of_check ok
  split at ok
  · rename_i zero
    cases ok
    exact .inl ⟨zero, rfl⟩
  obtain ⟨set, tracked, ok⟩ := of_bind ok
  obtain ⟨pool, borrowed, ok⟩ := of_bind ok
  obtain ⟨current, state, ok⟩ := of_bind ok
  obtain ⟨pool', received, ok⟩ := of_bind ok
  obtain ⟨_, -, ok⟩ := of_bind ok
  cases of_check ok
  exact .inr ⟨set, pool, current, pool', tracked, borrow_eq_ok.mp borrowed, state, received, rfl⟩

/-- The pool of a validator that is not in the set. -/
theorem addStakeWithCap_quiet
    (outside : ownerCap.poolAddress ∉ addresses (s.set.current ++ s.set.pendingActive))
    (ok : s.addStakeWithCap env ownerCap coins = .ok s') : Quiet s s' := by
  rcases addStakeWithCap_ok ok with ⟨-, rfl⟩ |
    ⟨set, pool, current, pool', tracked, found, state, received, rfl⟩
  · exact .refl _
  have unlisted := outside
  rw [addresses_append, mem_append, not_or, mem_current, not_or] at unlisted
  obtain ⟨⟨active, leaves⟩, joins⟩ := unlisted
  have untracked := trackIncrease_ok tracked
  rw [if_neg (fun either => either.elim active joins)] at untracked
  subst untracked
  have notCurrent : current = false := by
    rw [← Bool.not_eq_true, isCurrentEpochValidator_ok state]
    exact fun both => (mem_current.mp both.2).elim active leaves
  have stake := receive_ok received
  rw [notCurrent] at stake
  exact .of_setPool found stake.1 fun listed => absurd listed outside

/-- The stake that pools have added while active, after `amount` more for a pool. -/
def StakeState.addedTo (s : StakeState) (added : Nat) (a : Address) (amount : Nat) : Nat :=
  if a ∈ addresses s.set.activeValidators then added + amount else added

/-- Which step it is depends on the list that the validator is in. -/
theorem addStakeWithCap_step (sound : Sound s added)
    (ok : s.addStakeWithCap env ownerCap coins = .ok s') :
    StakeStep env.config.votingPowerIncreaseLimit s added s'
      (s.addedTo added ownerCap.poolAddress coins) := by
  generalize ownerEq : ownerCap.poolAddress = a
  rcases addStakeWithCap_ok ok with ⟨rfl, rfl⟩ |
    ⟨set, pool, current, pool', tracked, found, state, received, rfl⟩
  · have same : s'.addedTo added a 0 = added := by
      unfold addedTo
      split
      · rfl
      · rfl
    rw [same]
    exact .quiet (.refl _)
  rw [ownerEq] at tracked found state ⊢
  have current_iff := isCurrentEpochValidator_ok state
  have increase := trackIncrease_ok tracked
  have stake := receive_ok received
  by_cases joins : a ∈ addresses s.set.pendingActive
  · -- the pool is no validator yet
    have outside : a ∉ addresses s.set.activeValidators := fun active =>
      sound.apart (mem_current.mpr (.inl active)) joins
    have notCurrent : current = false := by
      rw [← Bool.not_eq_true, current_iff]
      exact fun both => both.1 joins
    rw [addedTo, if_neg outside]
    rw [if_pos (Or.inr joins)] at increase
    rw [notCurrent] at stake
    obtain ⟨rfl, within⟩ := increase
    exact .enlarge joins found stake.1 stake.2 within
  · by_cases active : a ∈ addresses s.set.activeValidators
    · have isCurrent : current = true := current_iff.mpr ⟨joins, mem_current.mpr (.inl active)⟩
      rw [addedTo, if_pos active]
      rw [if_pos (Or.inl active)] at increase
      rw [isCurrent] at stake
      obtain ⟨rfl, within⟩ := increase
      exact .deposit (mem_current.mpr (.inl active)) found stake (.inr within)
    have untracked : ¬ (a ∈ addresses s.set.activeValidators ∨
        a ∈ addresses s.set.pendingActive) := fun either => either.elim active joins
    rw [addedTo, if_neg active]
    rw [if_neg untracked] at increase
    subst increase
    by_cases leaves : a ∈ addresses s.set.pendingInactive
    · have isCurrent : current = true := current_iff.mpr ⟨joins, mem_current.mpr (.inr leaves)⟩
      rw [isCurrent] at stake
      exact .deposit (mem_current.mpr (.inr leaves)) found stake (.inl rfl)
    subst ownerEq
    refine .quiet (addStakeWithCap_quiet ?_ ok)
    rw [addresses_append, mem_append, mem_current]
    exact fun listed => listed.elim (fun mem => mem.elim active leaves) joins

/-- Neither entries nor indices change. -/
theorem addStakeWithCap_keeps
    (ok : s.addStakeWithCap env ownerCap coins = .ok s') : Keeps s s' := by
  rcases addStakeWithCap_ok ok with ⟨-, rfl⟩ | ⟨set, pool, current, pool', tracked, -, -, -, rfl⟩
  · exact .refl _
  have counted := trackIncrease_ok tracked
  have same : set.current = s.set.current ∧ set.pendingActive = s.set.pendingActive := by
    split at counted
    · rw [counted.1]
      exact ⟨rfl, rfl⟩
    · rw [counted]
      exact ⟨rfl, rfl⟩
  have pools : Keeps s (s.setPool ownerCap.poolAddress pool') := .of_same rfl rfl rfl rfl
  refine pools.trans (.of_set (Perm.of_eq same.1) fun info mem => .inl ?_)
  exact same.2 ▸ mem

theorem addStake_ok (ok : s.addStake env owner amount = .ok s') :
    ∃ ownerCap, s.ownerCaps owner = some ownerCap ∧
      s.addStakeWithCap env ownerCap amount = .ok s' := by
  have ok := of_check ok
  exact withOwnerCap_ok ok

theorem setOther_minor {other : Address} {f : StakeState → Checked StakeState}
    (minor : f s = .ok s' → Minor s s') (ok : s.setOther owner other f = .ok s') :
    Minor s s' := by
  unfold setOther at ok
  split at ok
  · exact minor ok
  · cases ok
    exact .refl _

theorem initializeStakeOwner_ok {voter : Address}
    (ok : s.initializeStakeOwner env owner amount operator voter = .ok s') :
    s.pools owner = none ∧ s.configs owner = none ∧ ∃ s₁ s₂,
      (s.opened owner ⟨[], [], [], 0⟩).addInitialStake env owner amount = .ok s₁ ∧
      s₁.setOther owner operator (fun s => s.setOperator env owner operator) = .ok s₂ ∧
      s₂.setOther owner voter (fun s => s.setDelegatedVoter env owner voter) = .ok s' := by
  have ok := of_check ok
  obtain ⟨s₀, owned, ok⟩ := of_bind ok
  obtain ⟨configs, moved, ok⟩ := of_bind ok
  obtain ⟨s₁, funded, ok⟩ := of_bind ok
  obtain ⟨s₂, operated, delegated⟩ := of_bind ok
  obtain ⟨free, rfl⟩ := initializeOwner_ok owned
  obtain ⟨unset, rfl⟩ := moveTo_eq_ok.mp moved
  exact ⟨free, unset, s₁, s₂, funded, operated, delegated⟩

/-- The new pool is not in the set, so that its first coins are quiet. -/
theorem initializeStakeOwner_minor {voter : Address} (sound : Sound s added)
    (ok : s.initializeStakeOwner env owner amount operator voter = .ok s') : Minor s s' := by
  obtain ⟨free, unset, s₁, s₂, funded, operated, delegated⟩ := initializeStakeOwner_ok ok
  have outside : owner ∉ addresses (s.set.current ++ s.set.pendingActive) := sound.unlisted free
  have filled : Minor (s.opened owner ⟨[], [], [], 0⟩) s₁ := by
    unfold addInitialStake at funded
    split at funded
    · obtain ⟨cap, stored, funded⟩ := addStake_ok funded
      have own : cap = ⟨owner⟩ := some.inj (stored.symm.trans (update_self _ _ _))
      subst own
      exact ⟨addStakeWithCap_quiet outside funded, addStakeWithCap_keeps funded⟩
    · cases funded
      exact .refl _
  exact (((Minor.opened free unset).trans filled).trans
    (setOther_minor setOperator_minor operated)).trans
    (setOther_minor setDelegatedVoter_minor delegated)

theorem reactivateStakeWithCap_minor
    (ok : s.reactivateStakeWithCap env ownerCap amount = .ok s') : Minor s s' := by
  have ok := of_check ok
  have ok := of_check ok
  obtain ⟨pool, borrowed, ok⟩ := of_bind ok
  obtain ⟨pendingInactive, taken, ok⟩ := of_bind ok
  obtain ⟨active, merged, rfl⟩ := of_return ok
  obtain ⟨enough, rfl⟩ := sub_eq_ok.mp taken
  obtain ⟨-, rfl⟩ := add_eq_ok.mp merged
  refine .of_setPool (borrow_eq_ok.mp borrowed) rfl fun _ => ?_
  change pool.active + min amount pool.pendingInactive +
    (pool.pendingInactive - min amount pool.pendingInactive) = pool.active + pool.pendingInactive
  omega

/-- Active coins leave the pool. -/
def StakePool.left (p : StakePool) (amount : Nat) : StakePool :=
  { p with active := p.active - amount, pendingInactive := p.pendingInactive + amount }

/-- Coins only move within the pool. -/
theorem unlockWithCap_ok (ok : s.unlockWithCap env amount ownerCap = .ok s') :
    (amount = 0 ∧ s' = s) ∨ ∃ pool, s.pools ownerCap.poolAddress = some pool ∧
      s' = s.setPool ownerCap.poolAddress (pool.left (min amount pool.active)) := by
  have ok := of_check ok
  split at ok
  · rename_i zero
    cases ok
    exact .inl ⟨zero, rfl⟩
  have ok := of_check ok
  obtain ⟨pool, borrowed, ok⟩ := of_bind ok
  obtain ⟨active, taken, ok⟩ := of_bind ok
  obtain ⟨pendingInactive, merged, rfl⟩ := of_return ok
  obtain ⟨-, rfl⟩ := sub_eq_ok.mp taken
  obtain ⟨-, rfl⟩ := add_eq_ok.mp merged
  exact .inr ⟨pool, borrow_eq_ok.mp borrowed, rfl⟩

theorem unlockWithCap_minor (ok : s.unlockWithCap env amount ownerCap = .ok s') : Minor s s' := by
  rcases unlockWithCap_ok ok with ⟨-, rfl⟩ | ⟨pool, found, rfl⟩
  · exact .refl _
  refine .of_setPool found rfl fun _ => ?_
  change pool.active - min amount pool.active + (pool.pendingInactive + min amount pool.active) =
    pool.active + pool.pendingInactive
  omega

theorem increaseLockupWithCap_ok (ok : s.increaseLockupWithCap env ownerCap = .ok s') :
    ∃ pool until_, s.pools ownerCap.poolAddress = some pool ∧
      s' = s.setPool ownerCap.poolAddress { pool with lockedUntilSecs := until_ } := by
  have ok := of_check ok
  obtain ⟨pool, borrowed, ok⟩ := of_bind ok
  obtain ⟨until_, -, ok⟩ := of_bind ok
  cases of_check ok
  exact ⟨pool, until_, borrow_eq_ok.mp borrowed, rfl⟩

theorem increaseLockupWithCap_minor (ok : s.increaseLockupWithCap env ownerCap = .ok s') :
    Minor s s' := by
  obtain ⟨pool, _, found, rfl⟩ := increaseLockupWithCap_ok ok
  exact .of_setPool found rfl fun _ => rfl

/-- At most the coins on their way out move. -/
theorem releaseStuck_ok {state : ValidatorStatus} (ok : pool.releaseStuck env state = .ok pool') :
    pool'.pendingActive = pool.pendingActive ∧
      (state ≠ .inactive → pool'.currentPower = pool.currentPower) := by
  unfold StakePool.releaseStuck at ok
  split at ok
  · next released =>
    obtain ⟨_, -, rfl⟩ := of_return ok
    exact ⟨rfl, fun listed => absurd released.1 listed⟩
  · cases ok
    exact ⟨rfl, fun _ => rfl⟩

section

variable (ok : s.withdrawWithCap env ownerCap amount = .ok (withdrawn, s'))

include ok

/-- Only inactive coins are withdrawn. -/
theorem withdrawWithCap_ok :
    ∃ pool pool', s.pools ownerCap.poolAddress = some pool ∧
      pool.releaseStuck env (s.set.getValidatorState ownerCap.poolAddress) = .ok pool' ∧
      withdrawn = min amount pool'.inactive ∧
      s' = s.setPool ownerCap.poolAddress
        { pool' with inactive := pool'.inactive - min amount pool'.inactive } := by
  have ok := of_check ok
  have ok := of_check ok
  obtain ⟨pool, borrowed, ok⟩ := of_bind ok
  obtain ⟨pool', released, ok⟩ := of_bind ok
  obtain ⟨_, taken, same⟩ := of_bind ok
  cases same
  obtain ⟨-, rfl⟩ := sub_eq_ok.mp taken
  exact ⟨pool, pool', borrow_eq_ok.mp borrowed, released, rfl, rfl⟩

theorem withdrawWithCap_minor : Minor s s' := by
  obtain ⟨pool, pool', found, released, -, rfl⟩ := withdrawWithCap_ok ok
  obtain ⟨pending, power⟩ := releaseStuck_ok released
  refine .of_setPool found pending fun listed => power ?_
  exact fun inactive => getValidatorState_inactive inactive listed

end

/-! ## Joining and leaving -/

/-- A validator joins with the stake of its pool, and is nowhere in the set before. -/
theorem joinValidatorSetInternal_ok (ok : s.joinValidatorSetInternal env operator a = .ok s') :
    ∃ info pool config, info.addr = a ∧ s.pools a = some pool ∧ s.configs a = some config ∧
      a ∉ addresses (s.set.current ++ s.set.pendingActive) ∧
      (s.joined info pool).set.Capped env.config.votingPowerIncreaseLimit ∧
      s' = s.joined info pool := by
  have ok := of_check ok
  have ok := of_check ok
  obtain ⟨pool, borrowed, ok⟩ := of_bind ok
  have ok := of_check ok
  obtain ⟨_, inactive, ok⟩ := of_bind ok
  obtain ⟨votingPower, next, ok⟩ := of_bind ok
  have ok := of_check ok
  have ok := of_check ok
  obtain ⟨set, increased, ok⟩ := of_bind ok
  obtain ⟨config, configured, ok⟩ := of_bind ok
  have ok := of_check ok
  obtain ⟨info, generated, ok⟩ := of_bind ok
  cases of_check ok
  obtain ⟨_, -, rfl⟩ := of_return generated
  have outside := getValidatorState_inactive (ensure_eq_ok.mp inactive)
  obtain rfl := getNextEpochVotingPower_ok next
  obtain ⟨rfl, within⟩ := updateVotingPowerIncrease_ok increased
  exact ⟨_, pool, config, rfl, borrow_eq_ok.mp borrowed,
    borrow_eq_ok.mp configured, outside, within, rfl⟩

theorem joinValidatorSet_ok (ok : s.joinValidatorSet env operator a = .ok s') :
    s.joinValidatorSetInternal env operator a = .ok s' := by
  have ok := of_check ok
  have ok := of_check ok
  exact ok

theorem joinValidatorSetInternal_step (ok : s.joinValidatorSetInternal env operator a = .ok s') :
    StakeStep env.config.votingPowerIncreaseLimit s added s' added ∧ Keeps s s' := by
  obtain ⟨info, pool, config, rfl, found, configured, outside, within, rfl⟩ :=
    joinValidatorSetInternal_ok ok
  refine ⟨.join outside found within, .of_set (.refl _) ?_⟩
  exact forall_mem_concat (fun _ before => .inl before) (.inr ⟨config, configured⟩)

/-- The set with a validator of the epoch moved to those that leave. -/
theorem current_of_swapRemove {rest : List ValidatorInfo}
    (removed : swapRemove set.activeValidators i = some (info, rest)) :
    (current { set with
      activeValidators := rest, pendingInactive := set.pendingInactive ++ [info] }).Perm
      set.current := by
  have perm := (swapRemove_perm removed).1
  refine .trans ?_ (perm.append_right _).symm
  change (rest ++ (set.pendingInactive ++ [info])).Perm (info :: (rest ++ set.pendingInactive))
  rw [← append_assoc]
  exact perm_append_comm

/-- Places change, and nothing else. -/
structure Rearranged (set set' : ValidatorSet) : Prop where
  current : set'.current.Perm set.current
  pending : set'.pendingActive = set.pendingActive
  total : set'.totalVotingPower = set.totalVotingPower
  joining : set'.totalJoiningPower = set.totalJoiningPower

/-- A validator that has not joined is taken out, or a validator of the epoch moves. -/
theorem leave_ok (ok : set.leave pool a = .ok set') :
    (∃ info rest, info.addr = a ∧ set.pendingActive.Perm (info :: rest) ∧ set' = { set with
      pendingActive := rest, totalJoiningPower := set.totalJoiningPower - pool.nextPower }) ∨
    Rearranged set set' := by
  unfold leave at ok
  generalize position : findValidator set.pendingActive a = index at ok
  cases index with
  | some index =>
    obtain ⟨⟨info, rest⟩, taken, left⟩ := of_bind ok
    obtain ⟨stake, next, rfl⟩ := of_return left
    obtain rfl := getNextEpochVotingPower_ok next
    obtain ⟨perm, here⟩ := swapRemove_perm (borrow_eq_ok.mp taken)
    have lowered : (if set.totalJoiningPower > pool.nextPower then
        set.totalJoiningPower - pool.nextPower else 0) =
        set.totalJoiningPower - pool.nextPower := by
      split
      · rfl
      · omega
    rw [lowered]
    exact .inl ⟨info, rest, addr_of_findValidator position here, perm, rfl⟩
  | none =>
    obtain ⟨index, -, left⟩ := of_bind ok
    obtain ⟨⟨info, rest⟩, taken, left⟩ := of_bind left
    cases of_check left
    exact .inr ⟨current_of_swapRemove (borrow_eq_ok.mp taken), rfl, rfl, rfl⟩

theorem leaveValidatorSet_ok (ok : s.leaveValidatorSet env operator a = .ok s') :
    ∃ pool set, s.pools a = some pool ∧ s.set.leave pool a = .ok set ∧ s' = { s with set } := by
  have ok := of_check ok
  have ok := of_check ok
  have ok := of_check ok
  have ok := of_check ok
  obtain ⟨pool, borrowed, ok⟩ := of_bind ok
  have ok := of_check ok
  obtain ⟨set, left, rfl⟩ := of_return ok
  exact ⟨pool, set, borrow_eq_ok.mp borrowed, left, rfl⟩

theorem Rearranged.step (places : Rearranged s.set set) :
    StakeStep limit s added { s with set } added ∧ Keeps s { s with set } :=
  ⟨.rearrange places.current places.pending places.total places.joining,
    .of_set places.current fun _ mem => .inl (places.pending ▸ mem)⟩

theorem leaveValidatorSet_step (ok : s.leaveValidatorSet env operator a = .ok s') :
    StakeStep env.config.votingPowerIncreaseLimit s added s' added ∧ Keeps s s' := by
  obtain ⟨pool, set, found, left, rfl⟩ := leaveValidatorSet_ok ok
  rcases leave_ok left with ⟨info, rest, rfl, perm, rfl⟩ | places
  · refine ⟨.withdrawn perm found, .of_set (.refl _) fun joined mem => .inl ?_⟩
    exact perm.mem_iff.mpr (mem_cons_of_mem _ mem)
  · exact places.step

theorem removeValidator_ok (ok : set.removeValidator a = .ok set') : Rearranged set set' := by
  unfold removeValidator at ok
  generalize findValidator set.activeValidators a = index at ok
  cases index with
  | none =>
    cases ok
    exact ⟨.refl _, rfl, rfl, rfl⟩
  | some index =>
    obtain ⟨⟨info, rest⟩, taken, rfl⟩ := of_return ok
    exact ⟨current_of_swapRemove (borrow_eq_ok.mp taken), rfl, rfl, rfl⟩

variable {validators : List Address}

/-- One validator after the other. -/
theorem removeValidators_ok
    (ok : validators.foldlM removeValidator set = .ok set') : Rearranged set set' := by
  refine Except.foldlM_relates (R := Rearranged) (fun _ => ⟨.refl _, rfl, rfl, rfl⟩)
    (fun one more => ?_) removeValidator_ok ok
  exact ⟨more.current.trans one.current, more.pending.trans one.pending,
    more.total.trans one.total, more.joining.trans one.joining⟩

theorem removeValidators_step (ok : s.removeValidators env validators = .ok s') :
    StakeStep limit s added s' added ∧ Keeps s s' := by
  have ok := of_check ok
  obtain ⟨set, removed, rfl⟩ := of_return ok
  exact (removeValidators_ok removed).step

/-! ## Fees and performance -/

variable {performance performance' : List IndividualValidatorPerformance}

/-- Counting adds no record. -/
theorem succeeded_length (ok : succeeded performance index = .ok performance') :
    performance'.length = performance.length := by
  unfold succeeded at ok
  generalize performance[index]? = entry at ok
  cases entry with
  | none =>
    cases ok
    rfl
  | some validator =>
    obtain ⟨_, -, rfl⟩ := of_return ok
    exact length_set

theorem failed_length (ok : failed performance index = .ok performance') :
    performance'.length = performance.length := by
  unfold failed at ok
  generalize performance[index]? = entry at ok
  cases entry with
  | none =>
    cases ok
    rfl
  | some validator =>
    obtain ⟨_, -, rfl⟩ := of_return ok
    exact length_set

/-- Only the records change, and none is added. -/
theorem updatePerformanceStatistics_ok {proposerIndex : Option Nat}
    {failedProposerIndices : List Nat}
    (ok : s.updatePerformanceStatistics proposerIndex failedProposerIndices = .ok s') :
    ∃ performance, performance.length = s.performance.length ∧ s' = { s with performance } := by
  obtain ⟨proposed, first, ok⟩ := of_bind ok
  obtain ⟨performance, rest, rfl⟩ := of_return ok
  have failures : performance.length = proposed.length := by
    refine Except.foldlM_relates (R := fun before after => after.length = before.length)
      (fun _ => rfl) ?_ failed_length rest
    exact fun one more => more.trans one
  refine ⟨performance, failures.trans ?_, rfl⟩
  cases proposerIndex with
  | none =>
    cases first
    rfl
  | some index => exact succeeded_length first

/-- Fees are recorded for those who have one. -/
theorem recordFees_ok {fees fees' : OrderedMap Nat Nat} {entries : List (Nat × Nat)}
    (ok : entries.foldlM recordFeeOf fees = .ok fees') (index fee : Nat)
    (listed : fees'.find? index = some fee) :
    fees.find? index = some fee ∨ (∃ before, fees.find? index = some before) ∧ fee ≤ u64Max := by
  induction entries generalizing fees with
  | nil =>
    cases ok
    exact .inl listed
  | cons entry entries ih =>
    obtain ⟨next, first, rest⟩ := of_bind ok
    unfold recordFeeOf at first
    simp only [Except.bind_eq_ok, borrow_eq_ok, add_eq_ok] at first
    obtain ⟨before, there, sum, ⟨fits, rfl⟩, same⟩ := first
    cases same
    have later := ih rest
    rw [OrderedMap.find?_insert] at later
    split at later
    · rename_i here
      subst here
      rcases later with same | ⟨-, fits'⟩
      · cases same
        exact .inr ⟨⟨before, there⟩, fits⟩
      · exact .inr ⟨⟨before, there⟩, fits'⟩
    · exact later

variable {indices amounts : List Nat}

/-- Only the fees change. -/
theorem recordFee_ok (ok : s.recordFee indices amounts = .ok s') :
    ∃ fees fees', s.pendingFeeByValidator = some fees ∧
      (indices.zip amounts).foldlM recordFeeOf fees = .ok fees' ∧
      s' = { s with pendingFeeByValidator := some fees' } := by
  have ok := of_check ok
  obtain ⟨fees, there, ok⟩ := of_bind ok
  obtain ⟨fees', recorded, rfl⟩ := of_return ok
  exact ⟨fees, fees', borrow_eq_ok.mp there, recorded, rfl⟩

/-- Only fees change. -/
theorem Minor.of_fees {fees : Option (OrderedMap Nat Nat)}
    (listed : ∀ index fee, fees.bind (·.find? index) = some fee → s.pendingFee index = some fee ∨
      (∃ before, s.pendingFee index = some before) ∧ fee ≤ u64Max) :
    Minor s { s with pendingFeeByValidator := fees } where
  quiet := .of_same rfl rfl rfl
  keeps := ⟨⟨fun _ mem => mem, fun _ config found => ⟨config, found, rfl⟩⟩, rfl, listed,
    fun _ mem => .inl mem⟩

theorem recordFee_minor (ok : s.recordFee indices amounts = .ok s') : Minor s s' := by
  obtain ⟨fees, fees', there, recorded, rfl⟩ := recordFee_ok ok
  refine .of_fees fun index fee listed => ?_
  rw [pendingFee, there]
  exact recordFees_ok recorded index fee listed

theorem initializePendingTransactionFee_minor : Minor s s.initializePendingTransactionFee := by
  unfold initializePendingTransactionFee
  cases s.pendingFeeByValidator with
  | none => exact .of_fees fun _ _ listed => absurd listed nofun
  | some fees => exact .refl _

end CreditChain
