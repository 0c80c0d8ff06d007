import CreditChain.Framework.Pool
import CreditChain.Lib.OrderedMap
import CreditChain.Lib.SwapRemove

/-!
# Stake pools and the validator set

A stake pool holds coins that are active, inactive, or on their way between the two.  The
validator set lists the validators of the epoch, those among them that leave at its end, and
those that join then.  What a call reads of other modules is in its environment.
-/

namespace CreditChain

/-! ## State -/

/-- Coins of a validator, and who may act for it. -/
structure StakePool where
  active : Nat
  inactive : Nat
  pendingActive : Nat
  pendingInactive : Nat
  lockedUntilSecs : Nat
  operatorAddress : Address
  delegatedVoter : Address

/-- Keys and addresses of a validator, and its index in the epoch. -/
structure ValidatorConfig where
  consensusPubkey : List UInt8
  networkAddresses : List UInt8
  fullnodeAddresses : List UInt8
  validatorIndex : Nat

/-- The entry of a validator in the validator set. -/
structure ValidatorInfo where
  addr : Address
  votingPower : Nat
  config : ValidatorConfig

/-- The validators of the epoch, and the changes at its end. -/
structure ValidatorSet where
  activeValidators : List ValidatorInfo
  pendingInactive : List ValidatorInfo
  pendingActive : List ValidatorInfo
  totalVotingPower : Nat
  totalJoiningPower : Nat

/-- The proposals of a validator in the epoch. -/
structure IndividualValidatorPerformance where
  successfulProposals : Nat
  failedProposals : Nat

/-- The right to control a pool. -/
structure OwnerCapability where
  poolAddress : Address

/-- The state of an account in the validator set. -/
inductive ValidatorStatus where
  | pendingActive
  | active
  | pendingInactive
  | inactive
  deriving DecidableEq

/-- What the module stores. -/
structure StakeState where
  pools : Address → Option StakePool
  configs : Address → Option ValidatorConfig
  ownerCaps : Address → Option OwnerCapability
  set : ValidatorSet
  performance : List IndividualValidatorPerformance
  pendingFeeByValidator : Option (OrderedMap Nat Nat)
  allowedValidators : Option (List Address)

/-- The limits of a stake, and the rate of the rewards. -/
structure StakingConfig where
  minimumStake : Nat
  maximumStake : Nat
  recurringLockupDurationSecs : Nat
  allowValidatorSetChange : Bool
  rewardsRate : Nat
  rewardsRateDenominator : Nat
  votingPowerIncreaseLimit : Nat
  deriving DecidableEq

/-- What a call reads of other modules: the configuration, the clock, the reconfiguration, the
features, and whether a key has a proof of possession and the signer the permission to stake. -/
structure StakeEnv where
  config : StakingConfig
  nowSecs : Nat
  reconfigStartTimeSecs : Nat
  reconfigInProgress : Bool
  chainOperating : Bool
  distributeTransactionFeeEnabled : Bool
  publicKeyWithPop : List UInt8 → List UInt8 → Bool
  stakePermission : Bool

namespace StakeError

def validatorConfig : Nat := 1
def stakeTooLow : Nat := 2
def stakeTooHigh : Nat := 3
def alreadyActiveValidator : Nat := 4
def notValidator : Nat := 5
def lastValidator : Nat := 6
def stakeExceedsMax : Nat := 7
def alreadyRegistered : Nat := 8
def notOperator : Nat := 9
def noPostGenesisValidatorSetChangeAllowed : Nat := 10
def invalidPublicKey : Nat := 11
def validatorSetTooLarge : Nat := 12
def votingPowerIncreaseExceedsLimit : Nat := 13
def stakePoolDoesNotExist : Nat := 14
def ownerCapNotFound : Nat := 15
def ownerCapAlreadyExists : Nat := 16
def ineligibleValidator : Nat := 17
def invalidLockup : Nat := 18
def reconfigurationInProgress : Nat := 20
def noStakePermission : Nat := 28
def transactionFeeNotFullyDistributed : Nat := 29

/-- A key that an ordered map already has. -/
def keyAlreadyExists : Nat := 1

/-- The code of an assertion without one. -/
def unspecified : Abort := .code 0xCA26CBD9BE0B0000

end StakeError

open StakeError Function
open Checked (borrow moveTo)

def maxValidatorSetSize : Nat := 65536

/-! ## Checks and views -/

variable (stakePool : StakePool) (env : StakeEnv)

def checkStakePermission : Checked Unit :=
  ensure (env.stakePermission = true) (.permissionDenied noStakePermission)

def assertReconfigNotInProgress : Checked Unit :=
  ensure (env.reconfigInProgress = false) (.invalidState reconfigurationInProgress)

/-- The place of a validator in a list. -/
def findValidator (v : List ValidatorInfo) (addr : Address) : Option Nat :=
  v.findIdx? fun info => info.addr == addr

/-- The voting power in the next epoch. -/
def getNextEpochVotingPower : Checked Nat := do
  let value ← Checked.add u64Max stakePool.pendingActive stakePool.active
  Checked.add u64Max value stakePool.pendingInactive

/-- The entry of a validator in the next epoch. -/
def generateValidatorInfo (addr : Address) (stakePool : StakePool) (config : ValidatorConfig) :
    Checked ValidatorInfo := do
  let votingPower ← getNextEpochVotingPower stakePool
  return { addr, votingPower, config }

/-- The state of an account; a validator that joins is looked for first. -/
def ValidatorSet.getValidatorState (set : ValidatorSet) (poolAddress : Address) :
    ValidatorStatus :=
  if (findValidator set.pendingActive poolAddress).isSome then .pendingActive
  else if (findValidator set.activeValidators poolAddress).isSome then .active
  else if (findValidator set.pendingInactive poolAddress).isSome then .pendingInactive
  else .inactive

/-- Count an increase of the voting power of the next epoch. -/
def ValidatorSet.updateVotingPowerIncrease (set : ValidatorSet) (increaseAmount : Nat) : Checked
    ValidatorSet := do
  let totalJoiningPower ← Checked.add u128Max set.totalJoiningPower increaseAmount
  if set.totalVotingPower > 0 then do
    let product ← Checked.mul u128Max set.totalVotingPower env.config.votingPowerIncreaseLimit
    ensure (totalJoiningPower ≤ product / 100) (.invalidArgument votingPowerIncreaseExceedsLimit)
    return { set with totalJoiningPower }
  else
    return { set with totalJoiningPower }

namespace StakeState

variable (s : StakeState)

def stakePoolExists (addr : Address) : Bool := (s.pools addr).isSome

variable (poolAddress : Address)

def assertStakePoolExists : Checked Unit :=
  ensure (s.stakePoolExists poolAddress = true) (.invalidArgument stakePoolDoesNotExist)

/-- `get_stake` and the other views of a pool. -/
def getPool : Checked StakePool := do
  s.assertStakePoolExists poolAddress
  borrow (s.pools poolAddress)

def assertOwnerCapExists (owner : Address) : Checked Unit :=
  ensure ((s.ownerCaps owner).isSome = true) (.notFound ownerCapNotFound)

/-- Without a list of allowed validators, everyone is allowed. -/
def isAllowed (account : Address) : Bool :=
  match s.allowedValidators with
  | none => true
  | some accounts => accounts.contains account

/-- Whether the account still votes in this epoch. -/
def isCurrentEpochValidator : Checked Bool := do
  s.assertStakePoolExists poolAddress
  let state := s.set.getValidatorState poolAddress
  return state == .active || state == .pendingInactive

def setPool (stakePool : StakePool) : StakeState :=
  { s with pools := update s.pools poolAddress (some stakePool) }

/-- Use the capability that the signer stores. -/
def withOwnerCap {α : Type} (s : StakeState) (owner : Address)
    (use : OwnerCapability → Checked α) : Checked α := do
  s.assertOwnerCapExists owner
  let ownerCap ← borrow (s.ownerCaps owner)
  use ownerCap

end StakeState

/-! ## Accounts -/

namespace StakeState

/-- The state with nothing but an empty validator set. -/
def initial : StakeState where
  pools := fun _ => none
  configs := fun _ => none
  ownerCaps := fun _ => none
  set := ⟨[], [], [], 0, 0⟩
  performance := []
  pendingFeeByValidator := none
  allowedValidators := none

variable (env : StakeEnv) (s : StakeState)

def configureAllowedValidators (accounts : List Address) : StakeState :=
  { s with allowedValidators := some accounts }

variable (owner : Address) (ownerCap : OwnerCapability)

/-- An empty pool that its owner operates and votes for. -/
def initializeOwner : Checked StakeState := do
  checkStakePermission env
  ensure (s.isAllowed owner = true) (.notFound ineligibleValidator)
  ensure (s.stakePoolExists owner = false) (.alreadyExists alreadyRegistered)
  let pools ← moveTo s.pools owner
    { active := 0, inactive := 0, pendingActive := 0, pendingInactive := 0,
      lockedUntilSecs := 0, operatorAddress := owner, delegatedVoter := owner }
  let ownerCaps ← moveTo s.ownerCaps owner ⟨owner⟩
  return { s with pools, ownerCaps }

/-- A pool with the configuration of a validator. -/
def initializeValidator (account : Address)
    (consensusPubkey proofOfPossession networkAddresses fullnodeAddresses : List UInt8) : Checked
    StakeState := do
  checkStakePermission env
  ensure (env.publicKeyWithPop consensusPubkey proofOfPossession = true)
    (.invalidArgument invalidPublicKey)
  let s ← s.initializeOwner env account
  let configs ← moveTo s.configs account
    { consensusPubkey, networkAddresses, fullnodeAddresses, validatorIndex := 0 }
  return { s with configs }

/-- Take the capability out of an account. -/
def extractOwnerCap : Checked (OwnerCapability × StakeState) := do
  checkStakePermission env
  s.assertOwnerCapExists owner
  let ownerCap ← borrow (s.ownerCaps owner)
  return (ownerCap, { s with ownerCaps := update s.ownerCaps owner none })

/-- Store a capability in an account that has none. -/
def depositOwnerCap : Checked StakeState := do
  checkStakePermission env
  ensure ((s.ownerCaps owner).isSome = false) (.notFound ownerCapAlreadyExists)
  let ownerCaps ← moveTo s.ownerCaps owner ownerCap
  return { s with ownerCaps }

def setOperatorWithCap (newOperator : Address) : Checked StakeState :=
    do
  s.assertStakePoolExists ownerCap.poolAddress
  let stakePool ← borrow (s.pools ownerCap.poolAddress)
  return s.setPool ownerCap.poolAddress { stakePool with operatorAddress := newOperator }

def setOperator (owner newOperator : Address) : Checked StakeState := do
  checkStakePermission env
  s.withOwnerCap owner fun ownerCap => s.setOperatorWithCap ownerCap newOperator

def setDelegatedVoterWithCap (newVoter : Address) : Checked StakeState := do
  s.assertStakePoolExists ownerCap.poolAddress
  let stakePool ← borrow (s.pools ownerCap.poolAddress)
  return s.setPool ownerCap.poolAddress { stakePool with delegatedVoter := newVoter }

def setDelegatedVoter (owner newVoter : Address) : Checked StakeState := do
  checkStakePermission env
  s.withOwnerCap owner fun ownerCap => s.setDelegatedVoterWithCap ownerCap newVoter

variable (operator poolAddress : Address)

/-- The pool and the configuration of a validator, for its operator. -/
def operated : Checked ValidatorConfig := do
  checkStakePermission env
  assertReconfigNotInProgress env
  s.assertStakePoolExists poolAddress
  let stakePool ← borrow (s.pools poolAddress)
  ensure (operator = stakePool.operatorAddress) (.unauthenticated notOperator)
  ensure ((s.configs poolAddress).isSome = true) (.notFound validatorConfig)
  borrow (s.configs poolAddress)

/-- A new consensus key, which needs a proof of possession. -/
def rotateConsensusKey (newConsensusPubkey proofOfPossession : List UInt8) : Checked StakeState :=
    do
  let config ← s.operated env operator poolAddress
  ensure (env.publicKeyWithPop newConsensusPubkey proofOfPossession = true)
    (.invalidArgument invalidPublicKey)
  let config := { config with consensusPubkey := newConsensusPubkey }
  return { s with configs := update s.configs poolAddress (some config) }

def updateNetworkAndFullnodeAddresses (newNetworkAddresses newFullnodeAddresses : List UInt8) :
    Checked StakeState := do
  let config ← s.operated env operator poolAddress
  let config := { config with
    networkAddresses := newNetworkAddresses, fullnodeAddresses := newFullnodeAddresses }
  return { s with configs := update s.configs poolAddress (some config) }

end StakeState

/-! ## Stake -/

/-- Coins for the pool of a validator of this epoch count in the next one. -/
def StakePool.receive (current : Bool) (coins : Nat) : Checked StakePool :=
  if current then do
    let pendingActive ← Checked.add u64Max stakePool.pendingActive coins
    return { stakePool with pendingActive }
  else do
    let active ← Checked.add u64Max stakePool.active coins
    return { stakePool with active }

/-- Coins for a validator that stays or joins increase the voting power. -/
def ValidatorSet.trackIncrease (set : ValidatorSet) (poolAddress : Address) (amount : Nat) : Checked
    ValidatorSet :=
  if (findValidator set.activeValidators poolAddress).isSome ||
      (findValidator set.pendingActive poolAddress).isSome then
    set.updateVotingPowerIncrease env amount
  else
    return set

/-- Once the lockup of a pool outside the set is over, nothing is on its way. -/
def StakePool.releaseStuck (state : ValidatorStatus) : Checked StakePool :=
  if state = .inactive ∧ env.nowSecs ≥ stakePool.lockedUntilSecs then do
    let inactive ← Checked.add u64Max stakePool.inactive stakePool.pendingInactive
    return { stakePool with inactive, pendingInactive := 0 }
  else
    return stakePool

namespace StakeState

variable (env : StakeEnv) (s : StakeState) (owner : Address)
  (amount : Nat) (ownerCap : OwnerCapability)

/-- Add coins to a pool, up to the maximum stake. -/
def addStakeWithCap (coins : Nat) : Checked StakeState := do
  assertReconfigNotInProgress env
  let poolAddress := ownerCap.poolAddress
  s.assertStakePoolExists poolAddress
  if coins = 0 then return s
  else do
    let set ← s.set.trackIncrease env poolAddress coins
    let stakePool ← borrow (s.pools poolAddress)
    let current ← s.isCurrentEpochValidator poolAddress
    let stakePool ← stakePool.receive current coins
    let votingPower ← getNextEpochVotingPower stakePool
    ensure (votingPower ≤ env.config.maximumStake) (.invalidArgument stakeExceedsMax)
    return { s.setPool poolAddress stakePool with set }

/-- Add coins to the pool of the signer. -/
def addStake : Checked StakeState := do
  checkStakePermission env
  s.withOwnerCap owner fun ownerCap => s.addStakeWithCap env ownerCap amount

def addInitialStake : Checked StakeState :=
  if amount > 0 then s.addStake env owner amount else return s

/-- Set an operator or a voter other than the owner. -/
def setOther (owner other : Address) (set : StakeState → Checked StakeState) : Checked StakeState :=
  if owner ≠ other then set s else return s

/-- A pool with its first coins, its operator and its voter. -/
def initializeStakeOwner (initialStakeAmount : Nat) (operator voter : Address) : Checked StakeState
    := do
  checkStakePermission env
  let s ← s.initializeOwner env owner
  let configs ← moveTo s.configs owner
    { consensusPubkey := [], networkAddresses := [], fullnodeAddresses := [], validatorIndex := 0 }
  let s ← StakeState.addInitialStake env { s with configs } owner initialStakeAmount
  let s ← s.setOther owner operator fun s => s.setOperator env owner operator
  s.setOther owner voter fun s => s.setDelegatedVoter env owner voter

/-- Stake on its way out becomes active again. -/
def reactivateStakeWithCap (amount : Nat) : Checked StakeState := do
  assertReconfigNotInProgress env
  let poolAddress := ownerCap.poolAddress
  s.assertStakePoolExists poolAddress
  let stakePool ← borrow (s.pools poolAddress)
  let amount := min amount stakePool.pendingInactive
  let pendingInactive ← Checked.sub stakePool.pendingInactive amount
  let active ← Checked.add u64Max stakePool.active amount
  return s.setPool poolAddress { stakePool with active, pendingInactive }

def reactivateStake : Checked StakeState := do
  checkStakePermission env
  assertReconfigNotInProgress env
  s.withOwnerCap owner fun ownerCap => s.reactivateStakeWithCap env ownerCap amount

/-- Lock a pool for a full period from now on. -/
def increaseLockupWithCap : Checked StakeState := do
  let poolAddress := ownerCap.poolAddress
  s.assertStakePoolExists poolAddress
  let stakePool ← borrow (s.pools poolAddress)
  let newLockedUntilSecs ←
    Checked.add u64Max env.nowSecs env.config.recurringLockupDurationSecs
  ensure (stakePool.lockedUntilSecs < newLockedUntilSecs) (.invalidArgument invalidLockup)
  return s.setPool poolAddress { stakePool with lockedUntilSecs := newLockedUntilSecs }

def increaseLockup : Checked StakeState := do
  checkStakePermission env
  s.withOwnerCap owner fun ownerCap => s.increaseLockupWithCap env ownerCap

/-- Active stake starts on its way out. -/
def unlockWithCap : Checked StakeState := do
  assertReconfigNotInProgress env
  if amount = 0 then return s
  else do
    let poolAddress := ownerCap.poolAddress
    s.assertStakePoolExists poolAddress
    let stakePool ← borrow (s.pools poolAddress)
    let amount := min amount stakePool.active
    let active ← Checked.sub stakePool.active amount
    let pendingInactive ← Checked.add u64Max stakePool.pendingInactive amount
    return s.setPool poolAddress { stakePool with active, pendingInactive }

def unlock : Checked StakeState := do
  checkStakePermission env
  assertReconfigNotInProgress env
  s.withOwnerCap owner fun ownerCap => s.unlockWithCap env amount ownerCap

/-- The coins that are withdrawn, and the state without them. -/
def withdrawWithCap (withdrawAmount : Nat) : Checked (Nat × StakeState) := do
  assertReconfigNotInProgress env
  let poolAddress := ownerCap.poolAddress
  s.assertStakePoolExists poolAddress
  let stakePool ← borrow (s.pools poolAddress)
  let stakePool ← stakePool.releaseStuck env (s.set.getValidatorState poolAddress)
  let withdrawAmount := min withdrawAmount stakePool.inactive
  let inactive ← Checked.sub stakePool.inactive withdrawAmount
  return (withdrawAmount, s.setPool poolAddress { stakePool with inactive })

def withdraw (withdrawAmount : Nat) : Checked (Nat × StakeState) := do
  checkStakePermission env
  s.withOwnerCap owner fun ownerCap => s.withdrawWithCap env ownerCap withdrawAmount

end StakeState

/-! ## Joining and leaving -/

namespace StakeState

/-- Ask to join at the end of the epoch, with a stake within the limits. -/
def joinValidatorSetInternal (env : StakeEnv) (s : StakeState)
    (operator poolAddress : Address) : Checked StakeState := do
  assertReconfigNotInProgress env
  s.assertStakePoolExists poolAddress
  let stakePool ← borrow (s.pools poolAddress)
  ensure (operator = stakePool.operatorAddress) (.unauthenticated notOperator)
  ensure (s.set.getValidatorState poolAddress = .inactive) (.invalidState alreadyActiveValidator)
  let votingPower ← getNextEpochVotingPower stakePool
  ensure (votingPower ≥ env.config.minimumStake) (.invalidArgument stakeTooLow)
  ensure (votingPower ≤ env.config.maximumStake) (.invalidArgument stakeTooHigh)
  let set ← s.set.updateVotingPowerIncrease env votingPower
  let config ← borrow (s.configs poolAddress)
  ensure (config.consensusPubkey.isEmpty = false) (.invalidArgument invalidPublicKey)
  let info ← generateValidatorInfo poolAddress stakePool config
  let set := { set with pendingActive := set.pendingActive ++ [info] }
  ensure (set.activeValidators.length + set.pendingActive.length ≤ maxValidatorSetSize)
    (.invalidArgument validatorSetTooLarge)
  return { s with set }

def joinValidatorSet (env : StakeEnv) (s : StakeState) (operator poolAddress : Address) :
    Checked StakeState := do
  checkStakePermission env
  ensure (env.config.allowValidatorSetChange = true)
    (.invalidArgument noPostGenesisValidatorSetChangeAllowed)
  s.joinValidatorSetInternal env operator poolAddress

end StakeState

namespace ValidatorSet

variable (set : ValidatorSet) (stakePool : StakePool) (validator poolAddress : Address)

/-- Take a validator that has not joined yet out of the set. -/
def leavePending (index : Nat) : Checked ValidatorSet := do
  let (_, pendingActive) ← borrow (swapRemove set.pendingActive index)
  let validatorStake ← getNextEpochVotingPower stakePool
  let totalJoiningPower :=
    if set.totalJoiningPower > validatorStake then set.totalJoiningPower - validatorStake else 0
  return { set with pendingActive, totalJoiningPower }

/-- Let a validator leave at the end of the epoch, unless it is the last one. -/
def leaveActive : Checked ValidatorSet := do
  let index ← (findValidator set.activeValidators poolAddress).elim
    (.error (.invalidState notValidator)) .ok
  let (info, activeValidators) ← borrow (swapRemove set.activeValidators index)
  ensure (activeValidators.length > 0) (.invalidState lastValidator)
  return { set with activeValidators, pendingInactive := set.pendingInactive ++ [info] }

/-- A validator that has not joined leaves at once, another one at the end of the epoch. -/
def leave : Checked ValidatorSet :=
  match findValidator set.pendingActive poolAddress with
  | some index => set.leavePending stakePool index
  | none => set.leaveActive poolAddress

/-- One round of the loop that removes validators. -/
def removeValidator : Checked ValidatorSet :=
  match findValidator set.activeValidators validator with
  | none => return set
  | some index => do
      let (info, activeValidators) ← borrow (swapRemove set.activeValidators index)
      return { set with activeValidators, pendingInactive := set.pendingInactive ++ [info] }

end ValidatorSet

namespace StakeState

/-- Let the operator of a pool take it out of the validator set. -/
def leaveValidatorSet (env : StakeEnv) (s : StakeState) (operator poolAddress : Address) :
    Checked StakeState := do
  checkStakePermission env
  assertReconfigNotInProgress env
  ensure (env.config.allowValidatorSetChange = true)
    (.invalidArgument noPostGenesisValidatorSetChangeAllowed)
  s.assertStakePoolExists poolAddress
  let stakePool ← borrow (s.pools poolAddress)
  ensure (operator = stakePool.operatorAddress) (.unauthenticated notOperator)
  let set ← s.set.leave stakePool poolAddress
  return { s with set }

/-- Take validators out of the set, whatever their operators want. -/
def removeValidators (env : StakeEnv) (s : StakeState) (validators : List Address) :
    Checked StakeState := do
  assertReconfigNotInProgress env
  let set ← validators.foldlM ValidatorSet.removeValidator s.set
  return { s with set }

end StakeState

/-! ## Fees and performance -/

variable (fees : OrderedMap Nat Nat) (performance : List IndividualValidatorPerformance)
  (index : Nat)

/-- Add to the fee of a validator that has one. -/
def recordFeeOf (entry : Nat × Nat) : Checked (OrderedMap Nat Nat) := do
  let fee ← borrow (fees.find? entry.1)
  let fee ← Checked.add u64Max fee entry.2
  return fees.insert entry.1 fee

/-- A fee of zero for a validator that has none. -/
def addFeeOf (info : ValidatorInfo) : Checked (OrderedMap Nat Nat) := do
  ensure (fees.contains info.config.validatorIndex = false) (.invalidArgument keyAlreadyExists)
  return fees.insert info.config.validatorIndex 0

/-- Count a successful proposal; an unknown index is skipped. -/
def succeeded : Checked (List IndividualValidatorPerformance) :=
  match performance[index]? with
  | none => return performance
  | some validator => do
      let successfulProposals ← Checked.add u64Max validator.successfulProposals 1
      return performance.set index { validator with successfulProposals }

/-- Count a failed proposal; an unknown index is skipped. -/
def failed : Checked (List IndividualValidatorPerformance) :=
  match performance[index]? with
  | none => return performance
  | some validator => do
      let failedProposals ← Checked.add u64Max validator.failedProposals 1
      return performance.set index { validator with failedProposals }

namespace StakeState

def initializePendingTransactionFee (s : StakeState) : StakeState :=
  match s.pendingFeeByValidator with
  | some _ => s
  | none => { s with pendingFeeByValidator := some .empty }

/-- Add to the fees of validators. -/
def recordFee (s : StakeState) (feeDistributionValidatorIndices feeAmountsOcta : List Nat) :
    Checked StakeState := do
  ensure (feeDistributionValidatorIndices.length = feeAmountsOcta.length) unspecified
  let fees ← borrow s.pendingFeeByValidator
  let fees ← (feeDistributionValidatorIndices.zip feeAmountsOcta).foldlM recordFeeOf fees
  return { s with pendingFeeByValidator := some fees }

/-- Count the proposals of a block. -/
def updatePerformanceStatistics (s : StakeState) (proposerIndex : Option Nat)
    (failedProposerIndices : List Nat) : Checked StakeState := do
  let performance ← proposerIndex.elim (.ok s.performance) (succeeded s.performance)
  let performance ← failedProposerIndices.foldlM failed performance
  return { s with performance }

end StakeState

/-! ## The end of an epoch -/

/-- Mint coins into a stake. -/
def mintInto (stake amount : Nat) : Checked Nat :=
  if amount > 0 then Checked.add u64Max stake amount else return stake

variable (config : StakingConfig)

/-- The rewards of a stake, rounded down. -/
def calculateRewardsAmount (stakeAmount numSuccessfulProposals numTotalProposals : Nat) :
    Checked Nat := do
  let rewardsNumerator ← Checked.mul u128Max stakeAmount config.rewardsRate
  let rewardsNumerator ← Checked.mul u128Max rewardsNumerator numSuccessfulProposals
  let rewardsDenominator ← Checked.mul u128Max config.rewardsRateDenominator numTotalProposals
  if rewardsDenominator > 0 then Checked.cast u64Max (rewardsNumerator / rewardsDenominator)
  else return 0

/-- Rewards for a stake that may be zero. -/
def rewardsOf (stake numSuccessfulProposals numTotalProposals : Nat) : Checked Nat :=
  if stake > 0 then calculateRewardsAmount config stake numSuccessfulProposals numTotalProposals
  else return 0

/-- The stake with its rewards, and the rewards. -/
def distributeRewards (stake numSuccessfulProposals numTotalProposals : Nat) :
    Checked (Nat × Nat) := do
  let rewardsAmount ← rewardsOf config stake numSuccessfulProposals numTotalProposals
  let stake ← mintInto stake rewardsAmount
  return (stake, rewardsAmount)

/-- Take the fee of a validator, and divide it between its active stake and the stake on its way
out. -/
def collectFee (pendingFees : Option (OrderedMap Nat Nat)) (validatorIndex : Nat)
    (stakePool : StakePool) : Checked (Nat × Nat × Option (OrderedMap Nat Nat)) :=
  match pendingFees with
  | none => return (0, 0, none)
  | some fees =>
    match fees.find? validatorIndex with
    | none => return (0, 0, some fees)
    | some feeOcta => do
        let product ← Checked.mul u128Max feeOcta stakePool.pendingInactive
        let stake ← Checked.add u128Max stakePool.active stakePool.pendingInactive
        let quotient ← Checked.div product stake
        let feePendingInactive ← Checked.cast u64Max quotient
        let feeActive ← Checked.sub feeOcta feePendingInactive
        return (feeActive, feePendingInactive, some (fees.erase validatorIndex))

/-- Mint the two parts of the fee of a validator. -/
def distributeFee (active pendingInactive feeActive feePendingInactive : Nat) : Checked (Nat × Nat)
    :=
  if env.distributeTransactionFeeEnabled then do
    let active ← mintInto active feeActive
    let pendingInactive ← mintInto pendingInactive feePendingInactive
    let _ ← Checked.add u64Max feeActive feePendingInactive
    return (active, pendingInactive)
  else
    return (active, pendingInactive)

/-- Once the lockup is over, the stake on its way out is inactive. -/
def StakePool.releaseUnlocked : Checked StakePool :=
  if env.reconfigStartTimeSecs ≥ stakePool.lockedUntilSecs then do
    let inactive ← Checked.add u64Max stakePool.inactive stakePool.pendingInactive
    return { stakePool with inactive, pendingInactive := 0 }
  else
    return stakePool

/-- The start of the reconfiguration; the clock, before the chain operates. -/
def StakeEnv.reconfigStartSecs : Nat :=
  if env.chainOperating then env.reconfigStartTimeSecs else env.nowSecs

/-- Lock a pool again whose lockup is over. -/
def StakePool.renewLockup : Checked StakePool :=
  if stakePool.lockedUntilSecs ≤ env.reconfigStartSecs then do
    let lockedUntilSecs ← Checked.add u64Max env.nowSecs env.config.recurringLockupDurationSecs
    return { stakePool with lockedUntilSecs }
  else
    return stakePool

namespace StakeState

variable (env : StakeEnv) (s : StakeState)

/-- Fees, rewards and pending stake of a validator of the epoch that ends. -/
def updateStakePool (poolAddress : Address) : Checked StakeState := do
  let stakePool ← borrow (s.pools poolAddress)
  let validatorConfig ← borrow (s.configs poolAddress)
  let perf ← borrow s.performance[validatorConfig.validatorIndex]?
  let (feeActive, feePendingInactive, pendingFeeByValidator) ←
    collectFee s.pendingFeeByValidator validatorConfig.validatorIndex stakePool
  let numTotalProposals ← Checked.add u64Max perf.successfulProposals perf.failedProposals
  let (active, rewardsActive) ←
    distributeRewards env.config stakePool.active perf.successfulProposals numTotalProposals
  let (pendingInactive, rewardsPendingInactive) ←
    distributeRewards env.config stakePool.pendingInactive perf.successfulProposals
      numTotalProposals
  let (active, pendingInactive) ←
    distributeFee env active pendingInactive feeActive feePendingInactive
  let _ ← Checked.add u64Max rewardsActive rewardsPendingInactive
  let active ← Checked.add u64Max active stakePool.pendingActive
  let stakePool ← StakePool.releaseUnlocked
    { stakePool with active, pendingActive := 0, pendingInactive } env
  return { s.setPool poolAddress stakePool with pendingFeeByValidator }

/-- The new entry of a validator, if it has the minimum stake, and the sum of the voting
powers. -/
def refreshValidator (next : List ValidatorInfo × Nat) (oldValidatorInfo : ValidatorInfo) : Checked
    (List ValidatorInfo × Nat) := do
  let validatorConfig ← borrow (s.configs oldValidatorInfo.addr)
  let stakePool ← borrow (s.pools oldValidatorInfo.addr)
  let info ← generateValidatorInfo oldValidatorInfo.addr stakePool validatorConfig
  if info.votingPower ≥ env.config.minimumStake then do
    let totalVotingPower ← Checked.add u128Max next.2 info.votingPower
    return (next.1 ++ [info], totalVotingPower)
  else
    return next

/-- Give a validator its index, an empty record of proposals, and a new lockup. -/
def renewValidator (validatorIndex : Nat) (info : ValidatorInfo) : Checked
    (StakeState × ValidatorInfo) := do
  let validatorConfig ← borrow (s.configs info.addr)
  let stakePool ← borrow (s.pools info.addr)
  let stakePool ← stakePool.renewLockup env
  let s := s.setPool info.addr stakePool
  return ({ s with
      configs := update s.configs info.addr (some { validatorConfig with validatorIndex }),
      performance := s.performance ++ [⟨0, 0⟩] },
    { info with config := { info.config with validatorIndex } })

/-- Number the validators of the next epoch. -/
def renewValidators (env : StakeEnv) :
    StakeState → Nat → List ValidatorInfo → Checked (StakeState × List ValidatorInfo)
  | s, _, [] => return (s, [])
  | s, validatorIndex, info :: infos => do
      let (s, info) ← s.renewValidator env validatorIndex info
      let (s, infos) ← renewValidators env s (validatorIndex + 1) infos
      return (s, info :: infos)

/-- Every fee has been distributed, and the new validators start with none. -/
def resetFees (activeValidators : List ValidatorInfo) :
    Option (OrderedMap Nat Nat) → Checked (Option (OrderedMap Nat Nat))
  | none => return none
  | some fees => do
      ensure (fees.isEmpty = true) (.internal transactionFeeNotFullyDistributed)
      let fees ← activeValidators.foldlM addFeeOf fees
      return some fees

/-- The end of an epoch: the pools, then the entries, then the indices and the fees. -/
def onNewEpoch : Checked StakeState := do
  let s ← (s.set.activeValidators.map (·.addr)).foldlM (updateStakePool env) s
  let s ← (s.set.pendingInactive.map (·.addr)).foldlM (updateStakePool env) s
  -- the pending validators are taken from the end
  let activeValidators := s.set.activeValidators ++ s.set.pendingActive.reverse
  let (nextEpochValidators, totalVotingPower) ←
    activeValidators.foldlM (s.refreshValidator env) ([], 0)
  let (s, activeValidators) ←
    renewValidators env { s with performance := [] } 0 nextEpochValidators
  let pendingFeeByValidator ← resetFees activeValidators s.pendingFeeByValidator
  return { s with
    set := { activeValidators, pendingInactive := [], pendingActive := [],
             totalVotingPower, totalJoiningPower := 0 }
    pendingFeeByValidator }

end StakeState

end CreditChain
