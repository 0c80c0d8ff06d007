import CreditChain.Staking.Runs

/-!
# The prediction of the next validator set

While a reconfiguration is in progress, the validators of the next epoch are predicted in one pass
that changes nothing.  The end of the epoch computes them in three passes.

* `prediction_real`: where the two agree (`Predictable`), the prediction is what the validator
  set says after the epoch has ended.
-/

namespace CreditChain

open Checked List Option Function
open CreditChain.Except (ok_bind)

/-! ## The indices of the validators -/

section

variable {env : StakeEnv} {s s' s'' : StakeState} {added : Nat} {a : Address}

/-- The validators of the epoch have the index of their entry. -/
def Indexed (s : StakeState) : Prop :=
  ∀ info ∈ s.set.current, ∃ config, s.configs info.addr = some config ∧
    config.validatorIndex = info.config.validatorIndex

theorem Indexed.keeps (indexed : Indexed s) (keeps : KeepsIndices s s') : Indexed s' := by
  intro info mem
  obtain ⟨config, found, index⟩ := indexed info (keeps.members info mem)
  obtain ⟨config', found', same⟩ := keeps.configs info.addr config found
  exact ⟨config', found', same.trans index⟩

/-- The stages of the end of an epoch: the pools of the validators that stay, those of the
validators that leave, the new entries, and their indices. -/
structure Epoch (env : StakeEnv) (s s' : StakeState) where
  stayed : StakeState
  left : StakeState
  next : List ValidatorInfo
  total : Nat
  renewed : StakeState
  validators : List ValidatorInfo
  stay : (s.set.activeValidators.map (·.addr)).foldlM (StakeState.updateStakePool env) s = .ok stayed
  leave : (stayed.set.pendingInactive.map (·.addr)).foldlM (StakeState.updateStakePool env) stayed =
    .ok left
  refresh : (left.set.activeValidators ++ left.set.pendingActive.reverse).foldlM
    (left.refreshValidator env) ([], 0) = .ok (next, total)
  renew : StakeState.renewValidators env { left with performance := [] } 0 next =
    .ok (renewed, validators)
  active : s'.set.activeValidators = validators
  leaving : s'.set.pendingInactive = []
  configs : s'.configs = renewed.configs

theorem onNewEpoch_stages (ok : s.onNewEpoch env = .ok s') : Nonempty (Epoch env s s') := by
  obtain ⟨s₁, stay, ok⟩ := of_bind ok
  obtain ⟨s₂, leave, ok⟩ := of_bind ok
  obtain ⟨⟨next, total⟩, refresh, ok⟩ := of_bind ok
  obtain ⟨⟨s₃, validators⟩, renew, ok⟩ := of_bind ok
  obtain ⟨fees, -, rfl⟩ := of_return ok
  exact ⟨⟨s₁, s₂, next, total, s₃, validators, stay, leave, refresh, renew, rfl, rfl, rfl⟩⟩

theorem onNewEpoch_indexed (sound : Sound s added) (ok : s.onNewEpoch env = .ok s') :
    Indexed s' := by
  obtain ⟨epoch⟩ := onNewEpoch_stages ok
  have fresh := (onNewEpoch_ok sound ok).1.current_nodup
  obtain ⟨same, -, -, indexed⟩ := renewValidators_eq epoch.renew
  have current : s'.set.current = epoch.validators := by
    rw [ValidatorSet.current, epoch.active, epoch.leaving, append_nil]
  rw [current, same, addresses_indexedFrom] at fresh
  intro info mem
  rw [current] at mem
  rw [epoch.configs]
  exact indexed fresh info mem

/-- The index of a validator is stored twice, in its entry of the validator set and in its own
configuration; the two agree in every state of a run. -/
theorem indexed_of_reached {t : Staking} (reached : t.Reached) : Indexed t.state := by
  suffices both : Sound t.state t.added ∧ Indexed t.state from both.2
  refine Run.Reaches.invariant (I := fun t => Sound t.state t.added ∧ Indexed t.state) ?_ ?_ reached
  · rintro t rfl
    exact ⟨.initial, forall_mem_nil _⟩
  intro t input t' ⟨sound, indexed⟩ _ done
  refine ⟨(Staking.step_stakeStep sound done).sound sound, ?_⟩
  obtain ⟨state, called, same⟩ := Option.bind_eq_some_iff.mp done
  cases same
  have ok := Checked.committed_eq_some.mp called
  by_cases epoch : input.2 = .onNewEpoch
  · rw [epoch] at ok
    exact onNewEpoch_indexed sound ok
  · exact indexed.keeps (call_effect sound epoch ok).2.toKeepsIndices

end

/-! ## Validators for the consensus -/

structure MoveValidatorConsensusInfo where
  addr : Address
  pkBytes : List UInt8
  votingPower : Nat
  deriving DecidableEq

/-- A placeholder, with the address of the virtual machine. -/
def MoveValidatorConsensusInfo.default : MoveValidatorConsensusInfo := ⟨0, [], 0⟩

def ValidatorInfo.consensusInfo (info : ValidatorInfo) : MoveValidatorConsensusInfo :=
  ⟨info.addr, info.config.consensusPubkey, info.votingPower⟩

/-- Write a validator at the place of its index. -/
def placeConsensusInfo (infos : List MoveValidatorConsensusInfo) (info : ValidatorInfo) :
    Checked (List MoveValidatorConsensusInfo) := do
  let _ ← Checked.borrow infos[info.config.validatorIndex]?
  return infos.set info.config.validatorIndex info.consensusInfo

def validatorConsensusInfosFromValidatorSet (set : ValidatorSet) :
    Checked (List MoveValidatorConsensusInfo) := do
  let total := set.activeValidators.length + set.pendingInactive.length
  let infos ← set.activeValidators.foldlM placeConsensusInfo (List.replicate total .default)
  set.pendingInactive.foldlM placeConsensusInfo infos

namespace StakeState

variable (env : StakeEnv) (s : StakeState)

def curValidatorConsensusInfos : Checked (List MoveValidatorConsensusInfo) :=
  validatorConsensusInfosFromValidatorSet s.set

variable (inCurrentValidatorSet : Bool)

def predictedReward (candidate : ValidatorInfo) (curActive : Nat) : Checked Nat :=
  if inCurrentValidatorSet then s.rewardFor env candidate.config.validatorIndex curActive
  else return 0

/-- The voting power of a candidate in the next epoch, as it is predicted. -/
def predictedPower (candidate : ValidatorInfo) (stakePool : StakePool) : Checked Nat := do
  let curReward ← s.predictedReward env inCurrentValidatorSet candidate stakePool.active
  let power ← Checked.add u64Max stakePool.active
    (if env.reconfigStartTimeSecs ≥ stakePool.lockedUntilSecs then 0 else stakePool.pendingInactive)
  let power ← Checked.add u64Max power stakePool.pendingActive
  Checked.add u64Max power curReward

/-- One turn of the loop over the candidates. -/
def predictValidator (next : List ValidatorInfo × Nat) (candidate : ValidatorInfo) : Checked
    (List ValidatorInfo × Nat) := do
  let stakePool ← Checked.borrow (s.pools candidate.addr)
  let newVotingPower ← s.predictedPower env inCurrentValidatorSet candidate stakePool
  if newVotingPower ≥ env.config.minimumStake then do
    let config ← Checked.borrow (s.configs candidate.addr)
    let newTotalPower ← Checked.add u128Max next.2 newVotingPower
    return (next.1 ++ [⟨candidate.addr, newVotingPower,
      { config with validatorIndex := next.1.length }⟩], newTotalPower)
  else
    return next

/-- The candidates are the active validators and then the pending ones. -/
def nextValidatorConsensusInfos : Checked (List MoveValidatorConsensusInfo) := do
  let next ← s.set.activeValidators.foldlM (s.predictValidator env true) ([], 0)
  let (newActiveValidators, newTotalPower) ←
    s.set.pendingActive.foldlM (s.predictValidator env false) next
  validatorConsensusInfosFromValidatorSet
    { activeValidators := newActiveValidators, pendingInactive := [], pendingActive := [],
      totalVotingPower := newTotalPower, totalJoiningPower := 0 }

end StakeState

/-! ## Placing by index -/

open StakeState

open MoveValidatorConsensusInfo

section

variable {env : StakeEnv} {s s' : StakeState} {added : Nat} {a : Address}

theorem placeConsensusInfos_eq (infos : List ValidatorInfo)
    (placed : List MoveValidatorConsensusInfo) :
    (indexedFrom placed.length infos).foldlM placeConsensusInfo
        (placed ++ List.replicate infos.length .default) =
      .ok (placed ++ infos.map (·.consensusInfo)) := by
  induction infos generalizing placed with
  | nil => rfl
  | cons info infos ih =>
    have here : (placed ++ List.replicate (infos.length + 1) default)[placed.length]? =
        some .default := by
      rw [getElem?_append_right (le_rfl), Nat.sub_self, replicate_succ, getElem?_cons_zero]
    have written : (placed ++ List.replicate (infos.length + 1) default).set
        placed.length info.consensusInfo =
        (placed ++ [info.consensusInfo]) ++ List.replicate infos.length .default := by
      rw [set_append_right _ _ (le_rfl), Nat.sub_self, replicate_succ,
        set_cons_zero, append_assoc, singleton_append]
    have first : placeConsensusInfo (placed ++ List.replicate (infos.length + 1) default)
        { info with config := { info.config with validatorIndex := placed.length } } =
        .ok ((placed ++ [info.consensusInfo]) ++ List.replicate infos.length .default) := by
      rw [placeConsensusInfo]
      simp only [here]
      exact congrArg Except.ok written
    have rest := ih (placed ++ [info.consensusInfo])
    rw [length_append, length_singleton] at rest
    rw [indexedFrom, foldlM_cons, length_cons, first, ok_bind, rest,
      append_assoc, singleton_append, map_cons]

theorem length_indexedFrom (i : Nat) (infos : List ValidatorInfo) :
    (indexedFrom i infos).length = infos.length := by
  have same := congrArg length (addresses_indexedFrom i infos)
  rwa [addresses, addresses, length_map, length_map] at same

variable {infos : List ValidatorInfo}

/-- Entries whose indices are their places. -/
theorem consensusInfos_indexed {set : ValidatorSet}
    (active : set.activeValidators = indexedFrom 0 infos) (leaving : set.pendingInactive = []) :
    validatorConsensusInfosFromValidatorSet set = .ok (infos.map (·.consensusInfo)) := by
  have placed := placeConsensusInfos_eq infos []
  rw [nil_append, length_nil] at placed
  rw [validatorConsensusInfosFromValidatorSet, active, leaving, length_nil, add_zero,
    length_indexedFrom, placed]
  rfl

/-! ## The new entries -/

/-- The prediction for a candidate agrees with its pool at the end of the epoch. -/
structure Foreseen (env : StakeEnv) (s : StakeState) (inCurrentValidatorSet : Bool)
    (candidate : ValidatorInfo) (pool' : StakePool) : Prop where
  power : ∃ pool power, s.pools candidate.addr = some pool ∧
    s.predictedPower env inCurrentValidatorSet candidate pool = .ok power ∧
    (power = pool'.nextPower ∨
      power < env.config.minimumStake ∧ pool'.nextPower < env.config.minimumStake)

theorem indexedFrom_append (i : Nat) (infos more : List ValidatorInfo) :
    indexedFrom i (infos ++ more) = indexedFrom i infos ++ indexedFrom (i + infos.length) more := by
  induction infos generalizing i with
  | nil => rfl
  | cons info infos ih =>
    rw [cons_append, indexedFrom, ih, indexedFrom, cons_append, length_cons]
    rw [add_assoc, add_comm 1]

variable {candidate : ValidatorInfo} {inCurrent : Bool} {total reward : Nat}
  {config : ValidatorConfig} {pool pool' : StakePool}

theorem predictValidator_eq (configs : s'.configs = s.configs)
    (refreshable : Refreshable s' candidate config pool')
    (foreseen : Foreseen env s inCurrent candidate pool')
    (fits : total + totalPower (s'.entry env candidate).toList ≤ u128Max) :
    s.predictValidator env inCurrent (indexedFrom 0 infos, total) candidate =
      .ok (indexedFrom 0 (infos ++ (s'.entry env candidate).toList),
        total + totalPower (s'.entry env candidate).toList) := by
  obtain ⟨pool, power, found, predicted, agrees⟩ := foreseen.power
  have configured : s.configs candidate.addr = some config := configs ▸ refreshable.configured
  rw [predictValidator, found]
  simp only [borrow, ok_bind, predicted]
  rw [refreshable.entry_eq] at fits ⊢
  rcases agrees with rfl | ⟨low, low'⟩
  · by_cases enough : pool'.nextPower ≥ env.config.minimumStake
    · rw [if_pos enough] at fits ⊢
      have summed : add u128Max total pool'.nextPower = .ok (total + pool'.nextPower) :=
        add_eq_ok.mpr ⟨fits, rfl⟩
      rw [if_pos enough, configured, summed, toList_some, indexedFrom_append, Nat.zero_add,
        length_indexedFrom]
      rfl
    · rw [if_neg enough, if_neg enough, toList_none, append_nil]
      rfl
  · rw [if_neg (low.not_ge), if_neg (low'.not_ge), toList_none, append_nil]
    rfl

theorem predictValidators_eq (infos : List ValidatorInfo) (total : Nat)
    {candidates : List ValidatorInfo} (configs : s'.configs = s.configs)
    (foreseen : ∀ candidate ∈ candidates, ∃ config pool',
      Refreshable s' candidate config pool' ∧ Foreseen env s inCurrent candidate pool')
    (fits : total + totalPower (candidates.filterMap (s'.entry env)) ≤ u128Max) :
    candidates.foldlM (s.predictValidator env inCurrent) (indexedFrom 0 infos, total) =
      .ok (indexedFrom 0 (infos ++ candidates.filterMap (s'.entry env)),
        total + totalPower (candidates.filterMap (s'.entry env))) := by
  induction candidates generalizing infos total with
  | nil =>
    rw [filterMap_nil, append_nil]
    rfl
  | cons candidate candidates ih =>
    obtain ⟨⟨config, pool', refreshable, predicted⟩, others⟩ := forall_mem_cons.mp foreseen
    rw [entries_cons, totalPower_append, ← add_assoc] at fits ⊢
    rw [foldlM_cons, predictValidator_eq configs refreshable predicted
      ((Nat.le_add_right _ _).trans fits), ok_bind, ih _ _ others fits, append_assoc]

/-- The whole prediction, for candidates that are all foreseen. -/
theorem nextValidatorConsensusInfos_eq (configs : s'.configs = s.configs)
    (actives : ∀ candidate ∈ s.set.activeValidators, ∃ config pool',
      Refreshable s' candidate config pool' ∧ Foreseen env s true candidate pool')
    (joiners : ∀ candidate ∈ s.set.pendingActive, ∃ config pool',
      Refreshable s' candidate config pool' ∧ Foreseen env s false candidate pool')
    (fits : totalPower (s.set.activeValidators.filterMap (s'.entry env) ++
      s.set.pendingActive.filterMap (s'.entry env)) ≤ u128Max) :
    s.nextValidatorConsensusInfos env =
      .ok ((s.set.activeValidators.filterMap (s'.entry env) ++
        s.set.pendingActive.filterMap (s'.entry env)).map (·.consensusInfo)) := by
  rw [totalPower_append] at fits
  have first : s.set.activeValidators.foldlM (s.predictValidator env true) ([], 0) =
      .ok (indexedFrom 0 (s.set.activeValidators.filterMap (s'.entry env)),
        0 + totalPower (s.set.activeValidators.filterMap (s'.entry env))) :=
    predictValidators_eq [] 0 configs actives (by omega)
  rw [nextValidatorConsensusInfos, first, ok_bind,
    predictValidators_eq _ _ configs joiners (by omega)]
  exact consensusInfos_indexed rfl rfl

/-! ## Where the prediction is right -/

/-- The states in which the prediction knows everything: at most one validator with enough stake
joins, the stake on its way out of a joining validator is still locked, no fee is distributed to an
active validator, and stake on its way out of an active validator earns no reward unless it is
released. -/
structure Predictable (env : StakeEnv) (s : StakeState) : Prop where
  joining : (s.set.pendingActive.filter fun info =>
    env.config.minimumStake ≤ s.nextPower info.addr).length ≤ 1
  locked : ∀ info ∈ s.set.pendingActive, ∀ pool, s.pools info.addr = some pool →
    env.config.minimumStake ≤ pool.nextPower →
    pool.pendingInactive = 0 ∨ env.reconfigStartTimeSecs < pool.lockedUntilSecs
  feeless : env.distributeTransactionFeeEnabled = false ∨
    ∀ info ∈ s.set.activeValidators, feeOf s.pendingFeeByValidator info.config.validatorIndex = 0
  unrewarded : ∀ info ∈ s.set.activeValidators, ∀ pool, s.pools info.addr = some pool →
    pool.lockedUntilSecs ≤ env.reconfigStartTimeSecs ∨
      s.rewardFor env info.config.validatorIndex pool.pendingInactive = .ok 0

theorem predictedPower_eq {power : Nat}
    (rewarded : s.predictedReward env inCurrent candidate pool.active = .ok reward)
    (sum : power = pool.active + (if env.reconfigStartTimeSecs ≥ pool.lockedUntilSecs then 0
      else pool.pendingInactive) + pool.pendingActive + reward) (fits : power ≤ u64Max) :
    s.predictedPower env inCurrent candidate pool = .ok power := by
  rw [predictedPower, rewarded, ok_bind]
  rw [add_eq_ok.mpr ⟨by omega, rfl⟩, ok_bind, add_eq_ok.mpr ⟨by omega, rfl⟩]
  exact add_eq_ok.mpr ⟨by omega, sum.symm⟩

/-- An active validator whose pool has been brought up to date. -/
theorem foreseen_active {t : StakeState} (predictable : Predictable env s)
    (mem : candidate ∈ s.set.activeValidators) (between : Updating s t)
    (index : config.validatorIndex = candidate.config.validatorIndex)
    (found : s.pools candidate.addr = some pool) (updated : Updated env t config pool pool')
    (fits : pool'.nextPower ≤ u64Max) : Foreseen env s true candidate pool' := by
  have reads : ∀ stake, t.rewardFor env config.validatorIndex stake =
      s.rewardFor env candidate.config.validatorIndex stake := by
    intro stake
    rw [rewardFor, rewardFor, between.performance, index]
  have rewarded := (reads _).symm.trans updated.rewarded
  have rewardedLeaving := (reads _).symm.trans updated.rewardedLeaving
  have fee : updated.feeActive + updated.feeLeaving = 0 := by
    rw [updated.fee]
    rcases predictable.feeless with disabled | feeless
    · rw [disabled, if_neg Bool.false_ne_true]
    have none := feeless candidate mem
    rw [← index] at none
    have taken : feeOf t.pendingFeeByValidator config.validatorIndex = 0 :=
      (between.fees config.validatorIndex).elim id fun same => same.trans none
    rw [taken, ite_self]
  refine ⟨pool, pool'.nextPower, found, predictedPower_eq rewarded ?_ fits, .inl rfl⟩
  rw [updated.power]
  split
  · omega
  · rename_i expired
    have unrewarded := (predictable.unrewarded candidate mem pool found).resolve_left expired
    have none : updated.rewardLeaving = 0 := Except.ok.inj (rewardedLeaving.symm.trans unrewarded)
    omega

/-- A joining validator, whose pool nobody has touched. -/
theorem foreseen_joining (predictable : Predictable env s) (mem : candidate ∈ s.set.pendingActive)
    (found : s.pools candidate.addr = some pool) (fits : pool.nextPower ≤ u64Max) :
    Foreseen env s false candidate pool := by
  have whole : pool.nextPower = pool.pendingActive + pool.active + pool.pendingInactive := rfl
  have locked := predictable.locked candidate mem pool found
  obtain ⟨leaving, leaving_eq⟩ : ∃ leaving, (if env.reconfigStartTimeSecs ≥ pool.lockedUntilSecs
      then 0 else pool.pendingInactive) = leaving := ⟨_, rfl⟩
  have bounded : leaving ≤ pool.pendingInactive := by
    rw [← leaving_eq]
    split
    · exact Nat.zero_le _
    · exact le_rfl
  refine ⟨pool, pool.active + leaving + pool.pendingActive, found,
    predictedPower_eq rfl (by rw [leaving_eq]; rfl) (by omega), ?_⟩
  by_cases enough : env.config.minimumStake ≤ pool.nextPower
  · refine .inl ?_
    rcases locked enough with none | unexpired
    · omega
    · rw [if_neg (unexpired.not_ge)] at leaving_eq
      omega
  · exact .inr ⟨by omega, by omega⟩

/-- At most one joining validator has an entry, so that the order of the joining validators does
not matter. -/
theorem joining_reverse (predictable : Predictable env s)
    (pools : ∀ info ∈ s.set.pendingActive, s'.pools info.addr = s.pools info.addr) :
    s.set.pendingActive.reverse.filterMap (s'.entry env) =
      s.set.pendingActive.filterMap (s'.entry env) := by
  have short : (s.set.pendingActive.filterMap (s'.entry env)).length ≤ 1 := by
    refine le_trans ?_ predictable.joining
    have entries : ∀ infos : List ValidatorInfo,
        (∀ info ∈ infos, s'.pools info.addr = s.pools info.addr) →
        (infos.filterMap (s'.entry env)).length ≤ (infos.filter fun info =>
          env.config.minimumStake ≤ s.nextPower info.addr).length := by
      intro infos
      induction infos with
      | nil => exact fun _ => le_refl 0
      | cons info infos ih =>
        intro same
        obtain ⟨here, others⟩ := forall_mem_cons.mp same
        have rest := ih others
        rw [filterMap_cons, filter_cons]
        cases listed : s'.entry env info with
        | none =>
          refine rest.trans ?_
          split
          · exact Nat.le_succ _
          · exact le_rfl
        | some entry =>
          obtain ⟨addr, pool, found, -, enough⟩ := entry_eq_some listed
          rw [addr, here] at found
          rw [nextPower_of_pool found, if_pos (decide_eq_true enough)]
          exact Nat.succ_le_succ rest
    exact entries _ pools
  rw [filterMap_reverse]
  generalize s.set.pendingActive.filterMap (s'.entry env) = entries at short
  match entries, short with
  | [], _ => rfl
  | [_], _ => rfl

/-- The predicted validators are the validators of the next epoch. -/
theorem prediction_eq (sound : Sound s added) (indexed : Indexed s)
    (predictable : Predictable env s) (ok : s.onNewEpoch env = .ok s') :
    ∃ infos, s.nextValidatorConsensusInfos env = .ok infos ∧
      s'.curValidatorConsensusInfos = .ok infos := by
  obtain ⟨epoch⟩ := onNewEpoch_stages ok
  have ended := updateStakePools_current epoch.stay epoch.leave
  obtain ⟨kept, updated⟩ := updateStakePools_eq sound.current_nodup ended
  have through := Updating.of_fold ended
  obtain ⟨refreshable, listed, bounded⟩ := refreshValidators_eq epoch.refresh
  rw [through.set] at refreshable listed
  have joinersKept : ∀ info ∈ s.set.pendingActive, epoch.left.pools info.addr = s.pools info.addr := by
    intro info mem
    exact kept info.addr fun inside => sound.apart inside (mem_map_of_mem mem)
  have actives : ∀ candidate ∈ s.set.activeValidators, ∃ config pool',
      Refreshable epoch.left candidate config pool' ∧ Foreseen env s true candidate pool' := by
    intro candidate mem
    obtain ⟨config, pool', here⟩ := refreshable candidate (mem_append_left _ mem)
    obtain ⟨t, config', pool, pool'', between, configured, found, after, -, ⟨gets⟩⟩ :=
      updated candidate.addr (mem_current.mpr (.inl (mem_map_of_mem mem)))
    cases after.symm.trans here.found
    obtain ⟨config'', configured', index⟩ := indexed candidate (mem_append_left _ mem)
    cases configured'.symm.trans configured
    exact ⟨config, pool', here, foreseen_active predictable mem between index found gets here.fits⟩
  have joiners : ∀ candidate ∈ s.set.pendingActive, ∃ config pool',
      Refreshable epoch.left candidate config pool' ∧ Foreseen env s false candidate pool' := by
    intro candidate mem
    obtain ⟨config, pool', here⟩ :=
      refreshable candidate (mem_append_right _ (mem_reverse.mpr mem))
    have found : s.pools candidate.addr = some pool' :=
      (joinersKept candidate mem).symm.trans here.found
    exact ⟨config, pool', here, foreseen_joining predictable mem found here.fits⟩
  rw [nil_append, Nat.zero_add, filterMap_append, joining_reverse predictable joinersKept,
    Prod.mk.injEq] at listed
  obtain ⟨next, total⟩ := listed
  have fits := bounded (Nat.zero_le _)
  rw [total] at fits
  refine ⟨epoch.next.map (·.consensusInfo), ?_, ?_⟩
  · rw [next]
    exact nextValidatorConsensusInfos_eq through.configs actives joiners fits
  · refine consensusInfos_indexed ?_ epoch.leaving
    rw [epoch.active]
    exact (renewValidators_eq epoch.renew).1

end

/-- In every state that is reached, the predicted validators are those of the next epoch. -/
theorem prediction_real {t : Staking} (reached : t.Reached) {env : StakeEnv} {s' : StakeState}
    (predictable : Predictable env t.state) (ok : t.state.onNewEpoch env = .ok s') :
    ∃ infos, t.state.nextValidatorConsensusInfos env = .ok infos ∧
      s'.curValidatorConsensusInfos = .ok infos :=
  prediction_eq (Staking.sound_of_reached reached) (indexed_of_reached reached) predictable ok

namespace SecondValidator

/-- The setting of a reconfiguration. -/
def reconfiguring : StakeEnv := { setting with reconfigInProgress := true }

theorem joined_predictable : Predictable reconfiguring joined.state where
  joining := by decide
  locked := by
    intro info mem pool found _
    obtain rfl : info = ⟨2, 20, ⟨[8], [], [], 0⟩⟩ := mem_singleton.mp mem
    cases found
    exact .inl rfl
  feeless := .inr fun _ _ => rfl
  unrewarded := by
    intro info mem pool found
    obtain rfl : info = ⟨1, 100, ⟨[7], [], [], 0⟩⟩ := mem_singleton.mp mem
    cases found
    exact .inr rfl

theorem joined_predicted : ∃ s' infos, joined.state.onNewEpoch reconfiguring = .ok s' ∧
    joined.state.nextValidatorConsensusInfos reconfiguring = .ok infos ∧
    s'.curValidatorConsensusInfos = .ok infos := by
  obtain ⟨infos, predicted, real⟩ := prediction_real joined_reached joined_predictable rfl
  exact ⟨_, infos, rfl, predicted, real⟩

end SecondValidator

/-! Two validators join in the same epoch: the prediction has them in the order they asked, the
next epoch in the other one. -/

namespace TwoJoin

def inputs : List (StakeEnv × StakeCall) :=
  [(SecondValidator.setting, .initializeValidator 3 [9] [] [] []),
    (SecondValidator.setting, .addStake 3 20), (SecondValidator.setting, .joinValidatorSet 3 3)]

def joined : Staking :=
  inputs.foldl (fun t input => (Staking.step input t).getD t) SecondValidator.joined

theorem joined_reached : joined.Reached := by
  refine Run.Reaches.of_inputs SecondValidator.joined_reached inputs ?_
  exact ⟨trivial, _, rfl, trivial, _, rfl, trivial, _, rfl, rfl⟩

theorem order_mispredicted : joined.Reached ∧
    joined.state.nextValidatorConsensusInfos SecondValidator.reconfiguring =
      .ok [⟨1, [7], 105⟩, ⟨2, [8], 20⟩, ⟨3, [9], 20⟩] ∧
    (do
      let s' ← joined.state.onNewEpoch SecondValidator.reconfiguring
      s'.curValidatorConsensusInfos) = .ok [⟨1, [7], 105⟩, ⟨3, [9], 20⟩, ⟨2, [8], 20⟩] :=
  ⟨joined_reached, by decide +kernel, by decide +kernel⟩

end TwoJoin

end CreditChain
