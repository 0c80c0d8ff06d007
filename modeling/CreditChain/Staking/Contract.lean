import CreditChain.Framework.PoolU64
import CreditChain.Staking.Stake

/-!
# Staking contracts

A staker lets an operator run a validator with the staker's coins.  The coins are in a stake pool
of which the contract holds the owner capability.  The operator gets a commission on the rewards:
what the pool has beyond the principal, the amount for which commission is paid.  Coins on their
way out of the stake pool are divided by the shares of a distribution pool.
-/

namespace CreditChain

/-! ## State -/

/-- The terms between a staker and an operator. -/
structure StakingContract where
  principal : Nat
  poolAddress : Address
  ownerCap : OwnerCapability
  commissionPercentage : Nat
  distributionPool : PoolU64

/-- The contracts of each staker by operator, with the modules that they use: the stake pools and
the coins of the accounts. -/
structure ContractState where
  stake : StakeState
  balances : Address → Nat
  stores : Address → Option (Table Address StakingContract)
  beneficiaries : Address → Option Address

/-- What a call reads of other modules; `createResourceAccount` is the address of the account that
is created for a contract, from the staker, the operator and a seed. -/
structure ContractEnv extends StakeEnv where
  createResourceAccount : Address → Address → List UInt8 → Checked Address
  operatorBeneficiaryChangeEnabled : Bool

namespace ContractError

def insufficientStakeAmount : Nat := 1
def invalidCommissionPercentage : Nat := 2
def noStakingContractFoundForStaker : Nat := 3
def noStakingContractFoundForOperator : Nat := 4
def cantMergeStakingContracts : Nat := 5
def stakingContractAlreadyExists : Nat := 6
def notStakerOrOperatorOrBeneficiary : Nat := 8
def operatorBeneficiaryChangeNotSupported : Nat := 9

-- of the coins, of the maps, and of a loop that does not end
def insufficientBalance : Nat := 6
def keyNotFound : Abort := .invalidArgument 2
def outOfGas : Abort := .code 4002

end ContractError

open ContractError Function

def maximumPendingDistributions : Nat := 20

/-! ## The distribution pool -/

namespace StakingContract

/-- Charge a shareholder commission on what the shares gain when the coins of the pool change to
`updatedTotalCoins`. -/
def chargeCommission (updatedTotalCoins : Nat) (operator : Address) (commissionPercentage : Nat)
    (pool : PoolU64) (shareholder : Address) : Checked PoolU64 :=
  if shareholder ≠ operator then do
    let previousWorth ← pool.balance shareholder
    let currentWorth ← pool.toTotals.sharesToAmountWithTotalCoins u64Max
      (pool.sharesOf shareholder) updatedTotalCoins
    let gain ← Checked.sub currentWorth previousWorth
    let product ← Checked.mul u64Max gain commissionPercentage
    let sharesToTransfer ← pool.toTotals.amountToSharesWithTotalCoins u64Max (product / 100)
      updatedTotalCoins
    pool.transferShares shareholder operator sharesToTransfer
  else return pool

/-- Count the rewards of coins on their way out, and charge commission on them. -/
def updateDistributionPool (pool : PoolU64) (updatedTotalCoins : Nat) (operator : Address)
    (commissionPercentage : Nat) : Checked PoolU64 :=
  if pool.totalCoins = updatedTotalCoins then return pool
  else do
    let pool ← pool.shareholders.foldlM
      (chargeCommission updatedTotalCoins operator commissionPercentage) pool
    return pool.updateTotalCoins updatedTotalCoins

end StakingContract

/-! ## Coins -/

namespace ContractState

variable (env : ContractEnv) (s : ContractState) (staker operator : Address)

def withdrawCoins (account : Address) (amount : Nat) : Checked ContractState := do
  ensure (s.balances account ≥ amount) (.invalidArgument insufficientBalance)
  return { s with balances := update s.balances account (s.balances account - amount) }

def depositCoins (account : Address) (amount : Nat) : Checked ContractState := do
  let balance ← Checked.add u64Max (s.balances account) amount
  return { s with balances := update s.balances account balance }

/-! ## Views -/

variable (contract : StakingContract)

def beneficiaryForOperator : Address := (s.beneficiaries operator).getD operator

def contract? : Option StakingContract := (s.stores staker).bind fun store => store.find? operator

/-- `assert_staking_contract_exists`, and the contract. -/
def getContract : Checked StakingContract := do
  let store ← Checked.orAbort (s.stores staker) (.notFound noStakingContractFoundForStaker)
  Checked.orAbort (store.find? operator) (.notFound noStakingContractFoundForOperator)

def setContract : ContractState :=
  { s with
    stores := update s.stores staker
      (some (((s.stores staker).getD .empty).insert operator contract)) }

def removeContract : ContractState :=
  { s with
    stores := update s.stores staker
      (some (((s.stores staker).getD .empty).erase operator)) }

/-- The active stake, the rewards on which no commission is paid, and the commission. -/
def getStakingContractAmountsInternal : Checked (Nat × Nat × Nat) := do
  let stakePool ← s.stake.getPool contract.poolAddress
  let totalActiveStake ← Checked.add u64Max stakePool.active stakePool.pendingActive
  let accumulatedRewards ← Checked.sub totalActiveStake contract.principal
  let product ← Checked.mul u64Max accumulatedRewards contract.commissionPercentage
  return (totalActiveStake, accumulatedRewards, product / 100)

def stakingContractAmounts : Checked (Nat × Nat × Nat) := do
  let contract ← s.getContract staker operator
  s.getStakingContractAmountsInternal contract

/-! ## Distribution -/

/-- Buy the shareholders out, the first one first; a round that does not remove its shareholder is
repeated without end. -/
def buyOut (operator : Address) :
    Nat → ContractState → PoolU64 → Nat → Checked (ContractState × PoolU64 × Nat)
  | 0, s, pool, coins =>
    match pool.shareholders with
    | [] => return (s, pool, coins)
    | _ :: _ => .error outOfGas
  | fuel + 1, s, pool, coins =>
    match pool.shareholders with
    | [] => return (s, pool, coins)
    | recipient :: _ => do
        let (amount, pool) ← pool.redeemShares recipient (pool.sharesOf recipient)
        let coins ← Checked.sub coins amount
        -- the commission goes to the beneficiary
        let s ← s.depositCoins
          (if recipient = operator then s.beneficiaryForOperator operator else recipient) amount
        buyOut operator fuel s pool coins

/-- What is left by rounding goes to the staker. -/
def payDust (staker : Address) (pool : PoolU64) (coins : Nat) : Checked (ContractState × PoolU64) :=
  if coins > 0 then do
    let s ← s.depositCoins staker coins
    return (s, pool.updateTotalCoins 0)
  else return (s, pool)

/-- Divide coins that left the stake pool. -/
def divide (distributionAmount : Nat) : Checked (ContractState × StakingContract) :=
  if distributionAmount = 0 then return (s, contract)
  else do
    let pool ← StakingContract.updateDistributionPool contract.distributionPool
      distributionAmount operator contract.commissionPercentage
    let (s, pool, coins) ← buyOut operator pool.shareholders.length s pool distributionAmount
    let (s, pool) ← s.payDust staker pool coins
    return (s, { contract with distributionPool := pool })

/-- Withdraw what is free, and divide it by the shares. -/
def distributeInternal : Checked (ContractState × StakingContract) :=
    do
  let stakePool ← s.stake.getPool contract.poolAddress
  let totalPotentialWithdrawable ←
    Checked.add u64Max stakePool.inactive stakePool.pendingInactive
  let (coins, stake) ← s.stake.withdrawWithCap env.toStakeEnv contract.ownerCap
    totalPotentialWithdrawable
  divide { s with stake } staker operator contract coins

/-- Shares of the coins on their way out, for who asked for them. -/
def addDistribution (recipient : Address) (coinsAmount : Nat) : Checked StakingContract := do
  let stakePool ← s.stake.getPool contract.poolAddress
  let pool ← StakingContract.updateDistributionPool contract.distributionPool
    stakePool.pendingInactive operator contract.commissionPercentage
  let (_, pool) ← pool.buyIn recipient coinsAmount
  return { contract with distributionPool := pool }

/-- Pay commission out of the stake pool: let coins leave it for the operator. -/
def payCommission (commissionAmount : Nat) : Checked (ContractState × StakingContract) :=
  if commissionAmount = 0 then return (s, contract)
  else do
    let contract ← s.addDistribution operator contract operator commissionAmount
    let stake ← s.stake.unlockWithCap env.toStakeEnv commissionAmount contract.ownerCap
    return ({ s with stake }, contract)

/-- The commission is no part of the principal from now on. -/
def requestCommissionInternal : Checked (ContractState × StakingContract) := do
  let (totalActiveStake, _, commissionAmount) ← s.getStakingContractAmountsInternal contract
  let principal ← Checked.sub totalActiveStake commissionAmount
  s.payCommission env operator { contract with principal } commissionAmount

/-- Distribute what has left the stake pool, then pay the commission. -/
def settle : Checked (ContractState × StakingContract) := do
  let (s, contract) ← s.distributeInternal env staker operator contract
  s.requestCommissionInternal env operator contract

/-! ## Calls -/

/-- `create_stake_pool`: a new stake pool, and its capability. -/
def createStakePool (s : StakeState) (staker operator voter : Address)
    (contractCreationSeed : List UInt8) : Checked (StakeState × Address × OwnerCapability) := do
  let poolAddress ← env.createResourceAccount staker operator contractCreationSeed
  let s ← s.initializeStakeOwner env.toStakeEnv poolAddress 0 operator voter
  let (ownerCap, s) ← s.extractOwnerCap env.toStakeEnv poolAddress
  return (s, poolAddress, ownerCap)

def createStakingContract (staker operator voter : Address) (amount commissionPercentage : Nat)
    (contractCreationSeed : List UInt8) : Checked ContractState := do
  let s ← s.withdrawCoins staker amount
  ensure (commissionPercentage ≤ 100) (.invalidArgument invalidCommissionPercentage)
  ensure (amount ≥ env.config.minimumStake) (.invalidArgument insufficientStakeAmount)
  ensure ((s.contract? staker operator).isSome = false)
    (.alreadyExists stakingContractAlreadyExists)
  let (stake, poolAddress, ownerCap) ←
    createStakePool env s.stake staker operator voter contractCreationSeed
  let stake ← stake.addStakeWithCap env.toStakeEnv ownerCap amount
  return setContract { s with stake } staker operator
    { principal := amount
      poolAddress
      ownerCap
      commissionPercentage
      distributionPool := .createWithScalingFactor maximumPendingDistributions 1 }

def addStake (amount : Nat) : Checked ContractState := do
  let contract ← s.getContract staker operator
  let s ← s.withdrawCoins staker amount
  let stake ← s.stake.addStakeWithCap env.toStakeEnv contract.ownerCap amount
  let principal ← Checked.add u64Max contract.principal amount
  return setContract { s with stake } staker operator { contract with principal }

def updateVoter (staker operator newVoter : Address) : Checked ContractState := do
  let contract ← s.getContract staker operator
  let _ ← s.stake.getPool contract.poolAddress
  let stake ← s.stake.setDelegatedVoterWithCap contract.ownerCap newVoter
  return { s with stake }

def resetLockup : Checked ContractState := do
  let contract ← s.getContract staker operator
  let stake ← s.stake.increaseLockupWithCap env.toStakeEnv contract.ownerCap
  return { s with stake }

/-- The name is the source's. -/
def updateCommision (newCommissionPercentage : Nat) : Checked ContractState := do
  ensure (newCommissionPercentage ≤ 100) (.invalidArgument invalidCommissionPercentage)
  let store ← Checked.orAbort (s.stores staker) (.notFound noStakingContractFoundForStaker)
  let contract ← Checked.orAbort (store.find? operator) keyNotFound
  let (s, contract) ← s.settle env staker operator contract
  return s.setContract staker operator
    { contract with commissionPercentage := newCommissionPercentage }

def requestCommission (account staker operator : Address) : Checked ContractState := do
  ensure (account = staker ∨ account = operator ∨ account = s.beneficiaryForOperator operator)
    (.unauthenticated notStakerOrOperatorOrBeneficiary)
  let contract ← s.getContract staker operator
  if contract.commissionPercentage = 0 then return s
  else do
    let (s, contract) ← s.settle env staker operator contract
    return s.setContract staker operator contract

/-- Let up to `amount` of the active coins leave the stake pool for the staker. -/
def unlockFor (amount : Nat) : Checked (ContractState × StakingContract) := do
  let stakePool ← s.stake.getPool contract.poolAddress
  let amount := min amount stakePool.active
  let principal ← Checked.sub contract.principal amount
  let contract ← s.addDistribution operator { contract with principal } staker amount
  let stake ← s.stake.unlockWithCap env.toStakeEnv amount contract.ownerCap
  return ({ s with stake }, contract)

def unlockStake (amount : Nat) : Checked ContractState :=
  if amount = 0 then return s
  else do
    let contract ← s.getContract staker operator
    let (s, contract) ← s.settle env staker operator contract
    let (s, contract) ← s.unlockFor env staker operator contract amount
    return s.setContract staker operator contract

/-- Unlock the rewards of the staker, without the commission. -/
def unlockRewards : Checked ContractState := do
  let (_, accumulatedRewards, unpaidCommission) ← s.stakingContractAmounts staker operator
  let stakerRewards ← Checked.sub accumulatedRewards unpaidCommission
  s.unlockStake env staker operator stakerRewards

/-- The new percentage is taken as it is. -/
def switchOperator (staker oldOperator newOperator : Address) (newCommissionPercentage : Nat) :
    Checked ContractState := do
  let contract ← s.getContract staker oldOperator
  ensure ((s.contract? staker newOperator).isSome = false) (.invalidState cantMergeStakingContracts)
  let (s, contract) ← (s.removeContract staker oldOperator).settle env staker oldOperator contract
  let stake ← s.stake.setOperatorWithCap contract.ownerCap newOperator
  return setContract { s with stake } staker newOperator
    { contract with commissionPercentage := newCommissionPercentage }

def switchOperatorWithSameCommission (staker oldOperator newOperator : Address) : Checked
    ContractState := do
  let contract ← s.getContract staker oldOperator
  s.switchOperator env staker oldOperator newOperator contract.commissionPercentage

def setBeneficiaryForOperator (operator newBeneficiary : Address) : Checked ContractState := do
  ensure (env.operatorBeneficiaryChangeEnabled = true)
    (.invalidState operatorBeneficiaryChangeNotSupported)
  return { s with beneficiaries := update s.beneficiaries operator (some newBeneficiary) }

def distribute : Checked ContractState := do
  let contract ← s.getContract staker operator
  let (s, contract) ← s.distributeInternal env staker operator contract
  return s.setContract staker operator contract

end ContractState

end CreditChain
