import CreditChain.Staking.Stake

/-!
# What the validator set says about the stake

A call does one of a few things to the pools and the set, and each of them keeps the books
(`Sound`).
-/

namespace CreditChain

open List Function
open Option (elim some)

/-! ## The books -/

/-- The coins that vote in this epoch. -/
def StakePool.currentPower (pool : StakePool) : Nat := pool.active + pool.pendingInactive

/-- The coins that vote in the next epoch. -/
def StakePool.nextPower (pool : StakePool) : Nat :=
  pool.pendingActive + pool.active + pool.pendingInactive

variable {power limit' : Nat}

theorem getNextEpochVotingPower_eq_ok {pool : StakePool} :
    getNextEpochVotingPower pool = .ok power ↔ pool.nextPower ≤ u64Max ∧ pool.nextPower = power := by
  constructor
  · intro ok
    obtain ⟨value, added, more⟩ := of_bind ok
    obtain ⟨-, rfl⟩ := Checked.add_eq_ok.mp added
    exact Checked.add_eq_ok.mp more
  · rintro ⟨fits, rfl⟩
    have fits' : pool.pendingActive + pool.active ≤ u64Max := (Nat.le_add_right _ _).trans fits
    rw [getNextEpochVotingPower, Checked.add_eq_ok.mpr ⟨fits', rfl⟩, Except.ok_bind]
    exact Checked.add_eq_ok.mpr ⟨fits, rfl⟩

theorem getNextEpochVotingPower_ok {pool : StakePool}
    (ok : getNextEpochVotingPower pool = .ok power) : power = pool.nextPower :=
  (getNextEpochVotingPower_eq_ok.mp ok).2.symm

/-- The validators of the epoch: those that stay and those that leave at its end. -/
def ValidatorSet.current (set : ValidatorSet) : List ValidatorInfo :=
  set.activeValidators ++ set.pendingInactive

def addresses (infos : List ValidatorInfo) : List Address := infos.map (·.addr)

def StakeState.nextPower (s : StakeState) (a : Address) : Nat :=
  (s.pools a).elim 0 StakePool.nextPower

/-- The books of the epoch, where pools have added a stake of `added` while active. -/
structure Sound (s : StakeState) (added : Nat) : Prop where
  distinct : (addresses (s.set.current ++ s.set.pendingActive)).Nodup
  indices : (s.set.current.map (·.config.validatorIndex)).Perm (List.range s.performance.length)
  powers : ∀ info ∈ s.set.current, ∃ pool, s.pools info.addr = some pool ∧
    info.votingPower = pool.currentPower
  total : s.set.totalVotingPower = (s.set.current.map (·.votingPower)).sum
  registered : ∀ a ∈ addresses s.set.pendingActive, ∃ pool, s.pools a = some pool
  joining : s.set.totalJoiningPower =
    ((addresses s.set.pendingActive).map s.nextPower).sum + added
  idle : ∀ a pool, s.pools a = some pool → a ∉ addresses s.set.current → pool.pendingActive = 0

theorem Sound.initial : Sound .initial 0 where
  distinct := nodup_nil
  indices := .refl _
  powers := by
    intro info mem
    cases mem
  total := rfl
  registered := by
    intro a mem
    cases mem
  joining := rfl
  idle := by
    intro a pool found
    cases found

variable {s s' : StakeState} {added : Nat} {a : Address} {pool pool' : StakePool}

@[simp] theorem StakeState.setPool_self : (s.setPool a pool).pools a = some pool :=
  update_self _ _ _

theorem StakeState.setPool_of_ne {b : Address} (ne : b ≠ a) :
    (s.setPool a pool).pools b = s.pools b :=
  update_of_ne ne _ _

theorem addresses_append (infos more : List ValidatorInfo) :
    addresses (infos ++ more) = addresses infos ++ addresses more := map_append

theorem mem_joining (joins : a ∈ addresses s.set.pendingActive) :
    a ∈ addresses (s.set.current ++ s.set.pendingActive) := by
  rw [addresses_append]
  exact mem_append_right _ joins

theorem Sound.current_nodup (sound : Sound s added) : (addresses s.set.current).Nodup := by
  have distinct := sound.distinct
  rw [addresses_append] at distinct
  exact distinct.of_append_left

theorem Sound.joining_nodup (sound : Sound s added) : (addresses s.set.pendingActive).Nodup := by
  have distinct := sound.distinct
  rw [addresses_append] at distinct
  exact distinct.of_append_right

theorem Sound.apart (sound : Sound s added) (current : a ∈ addresses s.set.current)
    (joins : a ∈ addresses s.set.pendingActive) : False := by
  have distinct := sound.distinct
  rw [addresses_append] at distinct
  exact disjoint_of_nodup_append distinct current joins

/-! ## Changes of the pools -/

/-- The pools of the set keep the stake that counts, and no other gets stake that is pending. -/
structure Quiet (s s' : StakeState) : Prop where
  set : s'.set = s.set
  rounds : s'.performance.length = s.performance.length
  listed : ∀ a ∈ addresses (s.set.current ++ s.set.pendingActive), ∀ pool, s.pools a = some pool →
    ∃ pool', s'.pools a = some pool' ∧ pool'.currentPower = pool.currentPower ∧
      pool'.pendingActive = pool.pendingActive
  idle : ∀ a pool', s'.pools a = some pool' → pool'.pendingActive = 0 ∨
    ∃ pool, s.pools a = some pool ∧ pool'.pendingActive = pool.pendingActive

theorem Quiet.of_same (set : s'.set = s.set)
    (rounds : s'.performance.length = s.performance.length) (pools : s'.pools = s.pools) :
    Quiet s s' where
  set := set
  rounds := rounds
  listed := by
    intro a _ pool found
    rw [pools]
    exact ⟨pool, found, rfl, rfl⟩
  idle := by
    intro a pool found
    rw [pools] at found
    exact .inr ⟨pool, found, rfl⟩

open StakeState

/-- A change of one pool. -/
theorem Quiet.of_setPool (found : s.pools a = some pool)
    (pending : pool'.pendingActive = pool.pendingActive)
    (power : a ∈ addresses (s.set.current ++ s.set.pendingActive) →
      pool'.currentPower = pool.currentPower) :
    Quiet s (s.setPool a pool') where
  set := rfl
  rounds := rfl
  listed := by
    intro b listed other here
    by_cases same : b = a
    · subst same
      rw [found, some.injEq] at here
      subst here
      exact ⟨pool', setPool_self, power listed, pending⟩
    · exact ⟨other, (setPool_of_ne same).trans here, rfl, rfl⟩
  idle := by
    intro b other here
    by_cases same : b = a
    · subst same
      rw [setPool_self, some.injEq] at here
      subst here
      exact .inr ⟨pool, found, pending⟩
    · rw [setPool_of_ne same] at here
      exact .inr ⟨other, here, rfl⟩

theorem Quiet.refl (s : StakeState) : Quiet s s := .of_same rfl rfl rfl

theorem Quiet.trans {s'' : StakeState} (first : Quiet s s') (second : Quiet s' s'') :
    Quiet s s'' where
  set := second.set.trans first.set
  rounds := second.rounds.trans first.rounds
  listed := by
    intro a listed pool found
    obtain ⟨pool', found', power, pending⟩ := first.listed a listed pool found
    rw [← first.set] at listed
    obtain ⟨pool'', found'', power', pending'⟩ := second.listed a listed pool' found'
    exact ⟨pool'', found'', power'.trans power, pending'.trans pending⟩
  idle := by
    intro a pool'' found''
    rcases second.idle a pool'' found'' with none | ⟨pool', found', same⟩
    · exact .inl none
    · rcases first.idle a pool' found' with none | ⟨pool, found, same'⟩
      · exact .inl (same.trans none)
      · exact .inr ⟨pool, found, same.trans same'⟩

theorem nextPower_eq (pool : StakePool) :
    pool.nextPower = pool.pendingActive + pool.currentPower := add_assoc _ _ _

theorem StakeState.nextPower_of_pool (found : s.pools a = some pool) :
    s.nextPower a = pool.nextPower := by
  rw [nextPower, found, Option.elim_some]

/-- A call that leaves the set and the stake of its members alone. -/
theorem Sound.quiet (sound : Sound s added) (quiet : Quiet s s') : Sound s' added where
  distinct := by
    rw [quiet.set]
    exact sound.distinct
  indices := by
    rw [quiet.set, quiet.rounds]
    exact sound.indices
  powers := by
    intro info mem
    rw [quiet.set] at mem
    obtain ⟨pool, found, recorded⟩ := sound.powers info mem
    have listed : info.addr ∈ addresses (s.set.current ++ s.set.pendingActive) :=
      mem_map_of_mem (mem_append_left _ mem)
    obtain ⟨pool', found', power, -⟩ := quiet.listed info.addr listed pool found
    exact ⟨pool', found', recorded.trans power.symm⟩
  total := by
    rw [quiet.set]
    exact sound.total
  registered := by
    intro a mem
    rw [quiet.set] at mem
    obtain ⟨pool, found⟩ := sound.registered a mem
    obtain ⟨pool', found', -⟩ := quiet.listed a (mem_joining mem) pool found
    exact ⟨pool', found'⟩
  joining := by
    have same : (addresses s.set.pendingActive).map s'.nextPower =
        (addresses s.set.pendingActive).map s.nextPower := by
      refine map_congr_left fun a mem => ?_
      obtain ⟨pool, found⟩ := sound.registered a mem
      obtain ⟨pool', found', power, pending⟩ := quiet.listed a (mem_joining mem) pool found
      rw [nextPower_of_pool found, nextPower_of_pool found', nextPower_eq,
        nextPower_eq, power, pending]
    rw [quiet.set, same]
    exact sound.joining
  idle := by
    intro a pool' found' outside
    rw [quiet.set] at outside
    rcases quiet.idle a pool' found' with none | ⟨pool, found, same⟩
    · exact none
    · exact same.trans (sound.idle a pool found outside)

/-- A pool gets stake, of which `increase` counts as joining. -/
def StakeState.grown (s : StakeState) (a : Address) (pool : StakePool) (increase : Nat) :
    StakeState :=
  { s.setPool a pool with
    set := { s.set with totalJoiningPower := s.set.totalJoiningPower + increase } }

/-- A validator asks to join. -/
def StakeState.joined (s : StakeState) (info : ValidatorInfo) (pool : StakePool) : StakeState :=
  { s with set := { s.set with
    pendingActive := s.set.pendingActive ++ [info]
    totalJoiningPower := s.set.totalJoiningPower + pool.nextPower } }

variable {increase : Nat}

theorem nextPower_grown_of_ne {b : Address} (ne : b ≠ a) :
    (s.grown a pool' increase).nextPower b = s.nextPower b :=
  congrArg (elim · 0 StakePool.nextPower) (setPool_of_ne ne)

theorem nextPower_grown_self : (s.grown a pool' increase).nextPower a = pool'.nextPower :=
  congrArg (elim · 0 StakePool.nextPower) setPool_self

section

variable (sound : Sound s added)

include sound

theorem Sound.grown {added' : Nat} (found : s.pools a = some pool)
    (power : a ∈ addresses s.set.current → pool'.currentPower = pool.currentPower)
    (pending : a ∉ addresses s.set.current → pool'.pendingActive = pool.pendingActive)
    (joining : s.set.totalJoiningPower + increase =
      ((addresses s.set.pendingActive).map (s.grown a pool' increase).nextPower).sum + added') :
    Sound (s.grown a pool' increase) added' where
  distinct := sound.distinct
  indices := sound.indices
  powers := by
    intro info mem
    obtain ⟨other, here, recorded⟩ := sound.powers info mem
    by_cases same : info.addr = a
    · subst same
      cases found.symm.trans here
      exact ⟨pool', setPool_self, recorded.trans (power (mem_map_of_mem mem)).symm⟩
    · exact ⟨other, (setPool_of_ne same).trans here, recorded⟩
  total := sound.total
  registered := by
    intro b mem
    by_cases same : b = a
    · subst same
      exact ⟨pool', setPool_self⟩
    · obtain ⟨other, here⟩ := sound.registered b mem
      exact ⟨other, (setPool_of_ne same).trans here⟩
  joining := joining
  idle := by
    intro b other here outside
    by_cases same : b = a
    · subst same
      cases setPool_self.symm.trans here
      rw [pending outside]
      exact sound.idle b pool found outside
    · exact sound.idle b other ((setPool_of_ne same).symm.trans here) outside

/-- Pending stake for a validator of the epoch. -/
theorem Sound.deposit (current : a ∈ addresses s.set.current)
    (found : s.pools a = some pool) (power : pool'.currentPower = pool.currentPower)
    (increase : Nat) : Sound (s.grown a pool' increase) (added + increase) := by
  refine sound.grown found (fun _ => power) (fun outside => absurd current outside) ?_
  have same : (addresses s.set.pendingActive).map (s.grown a pool' increase).nextPower =
      (addresses s.set.pendingActive).map s.nextPower :=
    map_congr_left fun b mem =>
      nextPower_grown_of_ne fun same => sound.apart current (same ▸ mem)
  have joining := sound.joining
  rw [same]
  omega

/-- Stake for a validator that joins. -/
theorem Sound.enlarge (joins : a ∈ addresses s.set.pendingActive)
    (found : s.pools a = some pool) (pending : pool'.pendingActive = pool.pendingActive)
    (power : pool'.nextPower = pool.nextPower + increase) :
    Sound (s.grown a pool' increase) added := by
  refine sound.grown found (fun current => (sound.apart current joins).elim) (fun _ => pending) ?_
  -- the pool occurs once among those that join
  have perm := perm_cons_erase joins
  have others : ((addresses s.set.pendingActive).erase a).map
      (s.grown a pool' increase).nextPower =
        ((addresses s.set.pendingActive).erase a).map s.nextPower :=
    map_congr_left fun b mem =>
      nextPower_grown_of_ne (sound.joining_nodup.mem_erase_iff.mp mem).1
  have joining := sound.joining
  rw [(perm.map _).sum_eq, map_cons, sum_cons, nextPower_of_pool found] at joining
  rw [(perm.map _).sum_eq, map_cons, sum_cons, others, nextPower_grown_self]
  omega

/-! ## Changes of the set -/

/-- Validators of the epoch change their places. -/
theorem Sound.rearrange {set : ValidatorSet}
    (current : set.current.Perm s.set.current) (pending : set.pendingActive = s.set.pendingActive)
    (total : set.totalVotingPower = s.set.totalVotingPower)
    (joining : set.totalJoiningPower = s.set.totalJoiningPower) :
    Sound { s with set } added where
  distinct := by
    refine (Perm.nodup_iff ?_).mpr sound.distinct
    rw [pending]
    exact (current.append_right _).map _
  indices := (current.map _).trans sound.indices
  powers := fun info mem => sound.powers info (current.mem_iff.mp mem)
  total := total.trans (sound.total.trans (current.map _).sum_eq.symm)
  registered := by
    rw [pending]
    exact sound.registered
  joining := by
    rw [pending]
    exact joining.trans sound.joining
  idle := fun a pool found outside =>
    sound.idle a pool found fun mem => outside ((current.map _).mem_iff.mpr mem)

variable {info : ValidatorInfo}

theorem Sound.join (outside : info.addr ∉ addresses (s.set.current ++ s.set.pendingActive))
    (found : s.pools info.addr = some pool) : Sound (s.joined info pool) added where
  distinct := by
    rw [joined, ← append_assoc, addresses_append]
    exact sound.distinct.append (nodup_singleton _) (disjoint_singleton.mpr outside)
  indices := sound.indices
  powers := sound.powers
  total := sound.total
  registered := by
    rw [joined, addresses_append]
    exact forall_mem_concat sound.registered ⟨pool, found⟩
  joining := by
    have joining := sound.joining
    change s.set.totalJoiningPower + pool.nextPower =
      ((addresses (s.set.pendingActive ++ [info])).map s.nextPower).sum + added
    rw [addresses_append, map_append, sum_append]
    change _ = _ + (s.nextPower info.addr + 0) + added
    rw [nextPower_of_pool found]
    omega
  idle := sound.idle

/-- A validator that has asked to join changes its mind. -/
theorem Sound.withdrawn {rest : List ValidatorInfo}
    (perm : s.set.pendingActive.Perm (info :: rest)) (found : s.pools info.addr = some pool) :
    Sound { s with set := { s.set with
      pendingActive := rest,
      totalJoiningPower := s.set.totalJoiningPower - pool.nextPower } } added where
  distinct := by
    have nodup := (((perm.append_left s.set.current).map _).nodup_iff).mp sound.distinct
    exact nodup.sublist (((sublist_cons_self info rest).append_left _).map _)
  indices := sound.indices
  powers := sound.powers
  total := sound.total
  registered := fun a mem =>
    sound.registered a ((perm.map _).mem_iff.mpr (mem_cons_of_mem _ mem))
  joining := by
    have joining := sound.joining
    have sum : ((addresses s.set.pendingActive).map s.nextPower).sum =
        s.nextPower info.addr + ((addresses rest).map s.nextPower).sum :=
      ((perm.map _).map _).sum_eq
    rw [sum, nextPower_of_pool found] at joining
    change s.set.totalJoiningPower - pool.nextPower =
      ((addresses rest).map s.nextPower).sum + added
    omega
  idle := sound.idle

end

/-! ## Steps -/

/-- The stake that joins is within the limit of the configuration. -/
def ValidatorSet.Capped (limit : Nat) (set : ValidatorSet) : Prop :=
  0 < set.totalVotingPower → set.totalJoiningPower ≤ set.totalVotingPower * limit / 100

/-- What a call does to the state and to the stake that pools have added while active. -/
inductive StakeStep (limit : Nat) (s : StakeState) (added : Nat) : StakeState → Nat → Prop
  | quiet {s' : StakeState} : Quiet s s' → StakeStep limit s added s' added
  | deposit {a : Address} {pool pool' : StakePool} {increase : Nat}
      (current : a ∈ addresses s.set.current)
      (found : s.pools a = some pool) (power : pool'.currentPower = pool.currentPower)
      (within : increase = 0 ∨ (s.grown a pool' increase).set.Capped limit) :
      StakeStep limit s added (s.grown a pool' increase) (added + increase)
  | enlarge {a : Address} {pool pool' : StakePool} {increase : Nat}
      (joins : a ∈ addresses s.set.pendingActive)
      (found : s.pools a = some pool) (pending : pool'.pendingActive = pool.pendingActive)
      (power : pool'.nextPower = pool.nextPower + increase)
      (within : (s.grown a pool' increase).set.Capped limit) :
      StakeStep limit s added (s.grown a pool' increase) added
  | rearrange {set : ValidatorSet} (current : set.current.Perm s.set.current)
      (pending : set.pendingActive = s.set.pendingActive)
      (total : set.totalVotingPower = s.set.totalVotingPower)
      (joining : set.totalJoiningPower = s.set.totalJoiningPower) :
      StakeStep limit s added { s with set } added
  | join {info : ValidatorInfo} {pool : StakePool}
      (outside : info.addr ∉ addresses (s.set.current ++ s.set.pendingActive))
      (found : s.pools info.addr = some pool)
      (within : (s.joined info pool).set.Capped limit) :
      StakeStep limit s added (s.joined info pool) added
  | withdrawn {info : ValidatorInfo} {pool : StakePool} {rest : List ValidatorInfo}
      (perm : s.set.pendingActive.Perm (info :: rest))
      (found : s.pools info.addr = some pool) :
      StakeStep limit s added { s with set := { s.set with
        pendingActive := rest,
        totalJoiningPower := s.set.totalJoiningPower - pool.nextPower } } added
  | epoch {s' : StakeState} (fresh : Sound s' 0) (unjoined : s'.set.totalJoiningPower = 0) :
      StakeStep limit s added s' 0

variable {limit added' : Nat}

theorem StakeStep.sound (step : StakeStep limit s added s' added') (sound : Sound s added) :
    Sound s' added' := by
  cases step with
  | quiet quiet => exact sound.quiet quiet
  | deposit current found power within => exact sound.deposit current found power _
  | enlarge joins found pending power within => exact sound.enlarge joins found pending power
  | rearrange current pending total joining => exact sound.rearrange current pending total joining
  | join outside found within => exact sound.join outside found
  | withdrawn perm found => exact sound.withdrawn perm found
  | epoch fresh unjoined => exact fresh

theorem ValidatorSet.Capped.mono {set : ValidatorSet} (le : limit ≤ limit')
    (capped : set.Capped limit) : set.Capped limit' := fun voting =>
  (capped voting).trans (Nat.div_le_div_right (Nat.mul_le_mul_left _ le))

theorem StakeStep.capped (le : limit ≤ limit') (step : StakeStep limit s added s' added')
    (capped : s.set.Capped limit') :
    s'.set.Capped limit' := by
  cases step with
  | quiet quiet =>
    rw [quiet.set]
    exact capped
  | deposit current found power within =>
    rcases within with rfl | within
    · exact capped
    · exact within.mono le
  | enlarge joins found pending power within | join outside found within => exact within.mono le
  | rearrange current pending total joining =>
    intro voting
    rw [joining, total]
    exact capped (total ▸ voting)
  | withdrawn perm found => exact fun voting => (Nat.sub_le _ _).trans (capped voting)
  | epoch fresh unjoined =>
    intro _
    rw [unjoined]
    exact Nat.zero_le _

end CreditChain
