import CreditChain.Tokens.FungibleAsset

/-!
# Coins

Coins of a type are held in the coin stores of accounts, or in the primary stores of the fungible
asset that the type is paired with.  The pairing is made when it is first needed.  A coin becomes a
fungible asset by burning the one and minting the other.
-/

namespace CreditChain

/-! ## Resources -/

/-- A coin type. -/
structure TypeInfo where
  accountAddress : Address
  moduleName : String
  structName : String
  deriving DecidableEq

/-- An amount outside all coin stores. -/
structure Coin where
  coinType : TypeInfo
  value : Nat
  deriving DecidableEq

structure CoinStore where
  coin : Nat
  frozen : Bool
  deriving DecidableEq

/-- A supply that is an aggregator, or a number with a limit. -/
inductive OptionalAggregator where
  | aggregator (aggregator : Aggregator)
  | integer (value limit : Nat)

namespace OptionalAggregator

def new (parallelizable : Bool) : OptionalAggregator :=
  if parallelizable then .aggregator (.create u128Max) else .integer 0 u128Max

def add : OptionalAggregator → Nat → Checked OptionalAggregator
  | .aggregator current, value => do
      let current ← current.add value
      return .aggregator current
  | .integer current limit, value => do
      let room ← Checked.sub limit current
      ensure (value ≤ room) Aggregator.Error.overflow
      return .integer (current + value) limit

def sub : OptionalAggregator → Nat → Checked OptionalAggregator
  | .aggregator current, value => do
      let current ← current.sub value
      return .aggregator current
  | .integer current limit, value => do
      ensure (value ≤ current) Aggregator.Error.underflow
      return .integer (current - value) limit

def read : OptionalAggregator → Nat
  | .aggregator current => current.value
  | .integer current _ => current

end OptionalAggregator

/-- Without a supply, the supply is not tracked. -/
structure CoinInfo where
  name : List UInt8
  symbol : List UInt8
  decimals : Nat
  supply : Option OptionalAggregator

/-- The references of a paired asset that have not been taken. -/
structure PairedFungibleAssetRefs where
  mintRef : Option Address
  transferRef : Option Address
  burnRef : Option Address

structure CoinState where
  infos : TypeInfo → Option CoinInfo
  stores : Table (TypeInfo × Address) CoinStore
  conversionMap : Option (TypeInfo → Option Address)
  pairedCoinTypes : Address → Option TypeInfo
  pairedRefs : Address → Option PairedFungibleAssetRefs
  fungible : FungibleState

/-- What a call reads of other modules besides. -/
structure CoinEnv extends FungibleEnv where
  coinToFungibleAssetMigrationEnabled : Bool
  newAccountsDefaultToFaStoreEnabled : Bool
  newAccountsDefaultToFaAptStoreEnabled : Bool
  permissionedSigner : Bool
  namedObjectAddress : TypeInfo → Address

namespace CoinError

def coinInfoAddressMismatch : Nat := 1
def coinInfoAlreadyPublished : Nat := 2
def coinInfoNotPublished : Nat := 3
def coinStoreNotPublished : Nat := 5
def insufficientBalance : Nat := 6
def destructionOfNonzeroToken : Nat := 7
def frozen : Nat := 10
def coinNameTooLong : Nat := 12
def coinSymbolTooLong : Nat := 13
def pairedCoin : Nat := 15
def pairedFungibleAsset : Nat := 16
def coinTypeMismatch : Nat := 17
def coinToFungibleAssetFeatureNotEnabled : Nat := 18
def pairedFungibleAssetRefsNotFound : Nat := 19
def mintRefReceiptMismatch : Nat := 20
def mintRefNotFound : Nat := 21
def transferRefReceiptMismatch : Nat := 22
def transferRefNotFound : Nat := 23
def burnRefReceiptMismatch : Nat := 24
def burnRefNotFound : Nat := 25
def migrationFrameworkNotEnabled : Nat := 26
def coinConversionMapNotFound : Nat := 27
def lbtPairingIsNotEnabled : Nat := 28
def coinDecimalsTooLarge : Nat := 29

-- of `system_addresses`
def notCreditchainFrameworkAddress : Nat := 3

end CoinError

open CoinError Function
open Checked (borrow orAbort moveTo)

def creditchainFramework : Address := 1

def creditChainCoin : TypeInfo := ⟨creditchainFramework, "creditchain_coin", "CreditChainCoin"⟩

def assertCreditchainFramework (account : Address) : Checked Unit :=
  ensure (account = creditchainFramework) (.permissionDenied notCreditchainFrameworkAddress)

/-! ## Values -/

namespace Coin

def zero (coinType : TypeInfo) : Coin := ⟨coinType, 0⟩

def destroyZero (coin : Coin) : Checked Unit :=
  ensure (coin.value = 0) (.invalidArgument destructionOfNonzeroToken)

/-- What is left and what is extracted. -/
def extract (coin : Coin) (amount : Nat) : Checked (Coin × Coin) := do
  ensure (coin.value ≥ amount) (.invalidArgument insufficientBalance)
  return ({ coin with value := coin.value - amount }, { coin with value := amount })

def extractAll (coin : Coin) : Coin × Coin := ({ coin with value := 0 }, coin)

/-- Two coins of one type. -/
def merge (dst src : Coin) : Checked Coin := do
  let value ← Checked.add u64Max dst.value src.value
  return { dst with value }

end Coin

namespace CoinState

def empty : CoinState where
  infos := fun _ => none
  stores := .empty
  conversionMap := none
  pairedCoinTypes := fun _ => none
  pairedRefs := fun _ => none
  fungible := .empty

variable (env : CoinEnv) (s : CoinState) (coinType : TypeInfo) (account : Address) (coin : Coin)
  (store : CoinStore) (amount : Nat)

def setStore : CoinState := { s with stores := s.stores.insert (coinType, account) store }

def coinBalance (owner : Address) : Nat := (s.stores.find? (coinType, owner)).elim 0 (·.coin)

def coinSupply : Checked (Option Nat) := do
  let info ← borrow (s.infos coinType)
  return info.supply.map (·.read)

/-! ## Pairing -/

def pairedMetadata : Option Address :=
  if env.coinToFungibleAssetMigrationEnabled then s.conversionMap.bind (· coinType) else none

def createCoinConversionMap : Checked CoinState := do
  assertCreditchainFramework account
  return { s with conversionMap := some (s.conversionMap.getD fun _ => none) }

/-- A new asset for a coin type, and all references to it. -/
def createPairedMetadata (map : TypeInfo → Option Address) (coinType : TypeInfo)
    (allowAptCreation : Bool) : Checked (Address × CoinState) := do
  ensure (coinType ≠ creditChainCoin ∨ allowAptCreation = true)
    (.invalidState lbtPairingIsNotEnabled)
  let metadata :=
    if coinType = creditChainCoin then creditchainFungibleAsset
    else env.namedObjectAddress coinType
  let fungible ← s.fungible.createObject metadata
  let info ← borrow (s.infos coinType)
  let fungible ← fungible.createPrimaryStoreEnabledFungibleAsset env.toFungibleEnv
    ⟨metadata, false⟩ none ⟨info.name, info.symbol, info.decimals, [], []⟩
  let pairedCoinTypes ← moveTo s.pairedCoinTypes metadata coinType
  let pairedRefs ← moveTo s.pairedRefs metadata ⟨some metadata, some metadata, some metadata⟩
  return (metadata, { s with
    fungible, pairedCoinTypes, pairedRefs
    conversionMap := some (update map coinType (some metadata)) })

def createAndReturnPairedMetadataIfNotExist (allowAptCreation : Bool) : Checked
    (Address × CoinState) := do
  ensure (env.coinToFungibleAssetMigrationEnabled = true)
    (.invalidState migrationFrameworkNotEnabled)
  let map ← orAbort s.conversionMap (.notFound coinConversionMapNotFound)
  match map coinType with
  | some metadata => return (metadata, s)
  | none => s.createPairedMetadata env map coinType allowAptCreation

def createPairing (coinType : TypeInfo) : Checked CoinState := do
  assertCreditchainFramework account
  let (_, s) ← s.createAndReturnPairedMetadataIfNotExist env coinType true
  return s

def ensurePairedMetadata : Checked (Address × CoinState) :=
  s.createAndReturnPairedMetadataIfNotExist env coinType false

def assertPairedMetadataExists : Checked Address :=
  orAbort (s.pairedMetadata env coinType) (.notFound pairedFungibleAsset)

/-- The references of the asset that a coin type is paired with. -/
def pairedFungibleAssetRefs : Checked (Address × PairedFungibleAssetRefs) := do
  let metadata ← s.assertPairedMetadataExists env coinType
  let refs ← orAbort (s.pairedRefs metadata) (.internal pairedFungibleAssetRefsNotFound)
  return (metadata, refs)

def setPairedRefs (metadata : Address) (refs : PairedFungibleAssetRefs) : CoinState :=
  { s with pairedRefs := update s.pairedRefs metadata (some refs) }

def getPairedMintRef : Checked (Address × CoinState) := do
  let (metadata, refs) ← s.pairedFungibleAssetRefs env coinType
  let mintRef ← orAbort refs.mintRef (.notFound mintRefNotFound)
  return (mintRef, s.setPairedRefs metadata { refs with mintRef := none })

def getPairedTransferRef : Checked (Address × CoinState) := do
  let (metadata, refs) ← s.pairedFungibleAssetRefs env coinType
  let transferRef ← orAbort refs.transferRef (.notFound transferRefNotFound)
  return (transferRef, s.setPairedRefs metadata { refs with transferRef := none })

def getPairedBurnRef : Checked (Address × CoinState) := do
  let (metadata, refs) ← s.pairedFungibleAssetRefs env coinType
  let burnRef ← orAbort refs.burnRef (.notFound burnRefNotFound)
  return (burnRef, s.setPairedRefs metadata { refs with burnRef := none })

def convertAndTakePairedBurnRef : Checked (Address × CoinState) := s.getPairedBurnRef env coinType

/-- Put a reference back; the receipt names the asset it was taken from. -/
def returnPairedRef (ref receipt mismatch : Nat) (slot : PairedFungibleAssetRefs → Option Address)
    (fill : PairedFungibleAssetRefs → Address → PairedFungibleAssetRefs) : Checked CoinState := do
  ensure (ref = receipt) (.invalidArgument mismatch)
  let refs ← borrow (s.pairedRefs receipt)
  ensure ((slot refs).isNone = true) .occupied
  return s.setPairedRefs receipt (fill refs ref)

def returnPairedMintRef (mintRef receipt : Address) : Checked CoinState :=
  s.returnPairedRef mintRef receipt mintRefReceiptMismatch (·.mintRef)
    fun refs ref => { refs with mintRef := some ref }

def returnPairedTransferRef (transferRef receipt : Address) : Checked CoinState :=
  s.returnPairedRef transferRef receipt transferRefReceiptMismatch (·.transferRef)
    fun refs ref => { refs with transferRef := some ref }

def returnPairedBurnRef (burnRef receipt : Address) : Checked CoinState :=
  s.returnPairedRef burnRef receipt burnRefReceiptMismatch (·.burnRef)
    fun refs ref => { refs with burnRef := some ref }

def borrowPairedBurnRef : Checked Address := do
  let (_, refs) ← s.pairedFungibleAssetRefs env coinType
  orAbort refs.burnRef (.notFound burnRefNotFound)

/-! ## Minting, burning and converting -/

/-- Change the supply, where it is tracked. -/
def changeSupply (change : OptionalAggregator → Checked OptionalAggregator) : Checked CoinState :=
    do
  let info ← borrow (s.infos coinType)
  match info.supply with
  | none => return s
  | some supply => do
      let supply ← change supply
      return { s with
        infos := update s.infos coinType (some { info with supply := some supply }) }

def mintInternal : Checked (Coin × CoinState) :=
  if amount = 0 then return (⟨coinType, 0⟩, s)
  else do
    let s ← s.changeSupply coinType (·.add amount)
    return (⟨coinType, amount⟩, s)

def burnInternal : Checked (Nat × CoinState) :=
  if coin.value = 0 then return (0, s)
  else do
    let s ← s.changeSupply coin.coinType (·.sub coin.value)
    return (coin.value, s)

/-- Burn a coin and mint as much of the paired asset. -/
def coinToFungibleAsset : Checked (FungibleAsset × CoinState) := do
  let (metadata, s) ← s.ensurePairedMetadata env coin.coinType
  let (amount, s) ← s.burnInternal coin
  let (fa, fungible) ← s.fungible.mintInternal metadata amount
  return (fa, { s with fungible })

/-- Burn an amount of the paired asset and mint as many coins. -/
def fungibleAssetToCoin (fa : FungibleAsset) : Checked (Coin × CoinState) := do
  ensure (s.fungible.objectCores fa.metadata = true ∧ (s.pairedCoinTypes fa.metadata).isSome = true)
    (.notFound pairedCoin)
  let paired ← borrow (s.pairedCoinTypes fa.metadata)
  ensure (paired = coinType) (.invalidArgument coinTypeMismatch)
  let (amount, fungible) ← s.fungible.burnInternal fa
  mintInternal { s with fungible } coinType amount

/-! ## Stores -/

/-- Whether the primary store of an account without coin store takes a deposit. -/
def canReceivePairedFungibleAsset (account metadata : Address) : Bool :=
  env.newAccountsDefaultToFaStoreEnabled ||
    (env.newAccountsDefaultToFaAptStoreEnabled && metadata == creditchainFungibleAsset) ||
    s.fungible.primaryStoreExists env.toFungibleEnv account metadata

/-- A call that looks like a view may make the pairing. -/
def isAccountRegistered : Checked (Bool × CoinState) := do
  ensure ((s.infos coinType).isSome = true) (.invalidArgument coinInfoNotPublished)
  match s.stores.find? (coinType, account) with
  | some _ => return (true, s)
  | none => do
      let (metadata, s) ← s.ensurePairedMetadata env coinType
      return (s.canReceivePairedFungibleAsset env account metadata, s)

def assertSignerHasPermission : Checked CoinState :=
  if env.permissionedSigner then do
    let (metadata, s) ← s.ensurePairedMetadata env coinType
    FungibleState.withdrawPermissionCheck env.toFungibleEnv
      (env.userDerivedObjectAddress account metadata) 0
    return s
  else return s

def initializeInternal (coinType : TypeInfo) (name symbol : List UInt8) (decimals : Nat)
    (monitorSupply parallelizable : Bool) : Checked CoinState := do
  let s ← s.assertSignerHasPermission env coinType account
  ensure (coinType.accountAddress = account) (.invalidArgument coinInfoAddressMismatch)
  ensure ((s.infos coinType).isNone = true) (.alreadyExists coinInfoAlreadyPublished)
  ensure (name.length ≤ maxNameLength) (.invalidArgument coinNameTooLong)
  ensure (symbol.length ≤ maxSymbolLength) (.invalidArgument coinSymbolTooLong)
  ensure (decimals ≤ maxDecimals) (.invalidArgument coinDecimalsTooLarge)
  let supply := if monitorSupply then some (OptionalAggregator.new parallelizable) else none
  return { s with
    infos := update s.infos coinType (some { name, symbol, decimals, supply }) }

def initializeCoin (coinType : TypeInfo) (name symbol : List UInt8) (decimals : Nat)
    (monitorSupply : Bool) : Checked CoinState :=
  s.initializeInternal env account coinType name symbol decimals monitorSupply false

def initializeWithParallelizableSupply (coinType : TypeInfo) (name symbol : List UInt8)
    (decimals : Nat) (monitorSupply : Bool) : Checked CoinState := do
  assertCreditchainFramework account
  s.initializeInternal env account coinType name symbol decimals monitorSupply true

/-- A coin store for an account that is not registered. -/
def register (coinType : TypeInfo) : Checked CoinState := do
  let s ← s.assertSignerHasPermission env coinType account
  let (registered, s) ← s.isAccountRegistered env coinType account
  if registered then return s
  else do
    ensure ((s.stores.find? (coinType, account)).isNone = true) .occupied
    return s.setStore coinType account ⟨0, false⟩

def setFrozen (frozen : Bool) : Checked CoinState := do
  let store ← borrow (s.stores.find? (coinType, account))
  return s.setStore coinType account { store with frozen }

def freezeCoinStore : Checked CoinState := s.setFrozen coinType account true

def unfreezeCoinStore : Checked CoinState := s.setFrozen coinType account false

/-! ## Deposits -/

/-- Into a coin store. -/
def depositIntoStore (coin : Coin) : Checked CoinState := do
  let merged ← Coin.merge ⟨coin.coinType, store.coin⟩ coin
  return s.setStore coin.coinType account { store with coin := merged.value }

/-- As the paired asset, where the account has no coin store. -/
def depositPaired (put : FungibleState → FungibleAsset → Checked FungibleState) :
    Checked CoinState := do
  let (metadata, s) ← s.ensurePairedMetadata env coin.coinType
  if s.canReceivePairedFungibleAsset env account metadata then do
    let (fa, s) ← s.coinToFungibleAsset env coin
    let fungible ← put s.fungible fa
    return { s with fungible }
  else .error (.notFound coinStoreNotPublished)

def deposit : Checked CoinState :=
  match s.stores.find? (coin.coinType, account) with
  | some store => do
      ensure (store.frozen = false) (.permissionDenied frozen)
      s.depositIntoStore account store coin
  | none => s.depositPaired env account coin (·.primaryDeposit env.toFungibleEnv account ·)

/-- The permission that is refilled is not part of the state. -/
def depositWithSigner : Checked CoinState := do
  let (_, s) ← s.ensurePairedMetadata env coin.coinType
  s.deposit env account coin

/-- A frozen store takes the fee as well. -/
def depositForGasFee : Checked CoinState :=
  match s.stores.find? (coin.coinType, account) with
  | some store => s.depositIntoStore account store coin
  | none => s.depositPaired env account coin fun fungible fa => do
      let fungible ← fungible.ensurePrimaryStoreExists env.toFungibleEnv account fa.metadata
      fungible.uncheckedDeposit (env.userDerivedObjectAddress account fa.metadata) fa

/-! ## Withdrawals -/

/-- How much of an amount comes from the coin store, and how much from the primary store. -/
def calculateAmountToWithdraw : Checked (Nat × Nat) :=
  let coinBalance := s.coinBalance coinType account
  if coinBalance ≥ amount then return (amount, 0)
  else
    match s.pairedMetadata env coinType with
    | some metadata =>
      if s.fungible.primaryStoreExists env.toFungibleEnv account metadata then
        return (coinBalance, amount - coinBalance)
      else .error (.invalidArgument insufficientBalance)
    | none => .error (.invalidArgument insufficientBalance)

/-- Out of a coin store. -/
def extractFromStore : Checked (Coin × CoinState) := do
  let (left, extracted) ← Coin.extract ⟨coinType, store.coin⟩ amount
  return (extracted, s.setStore coinType account { store with coin := left.value })

def withdrawFromStore (coinType : TypeInfo) (amount : Nat) : Checked (Coin × CoinState) :=
  if amount > 0 then do
    let (metadata, s) ← s.ensurePairedMetadata env coinType
    ensure (env.permissionedSigner = false ∨
        env.withdrawPermission (env.userDerivedObjectAddress account metadata) amount = true)
      (.permissionDenied FungibleAssetError.withdrawPermissionDenied)
    let store ← borrow (s.stores.find? (coinType, account))
    ensure (store.frozen = false) (.permissionDenied frozen)
    s.extractFromStore coinType account store amount
  else return (.zero coinType, s)

def withdrawFromPrimary (coinType : TypeInfo) (amount : Nat) (withdrawn : Coin) : Checked
    (Coin × CoinState) :=
  if amount > 0 then do
    let metadata ← borrow (s.pairedMetadata env coinType)
    let (fa, fungible) ← s.fungible.primaryWithdraw env.toFungibleEnv account metadata amount
    let (coin, s) ← fungibleAssetToCoin { s with fungible } coinType fa
    let withdrawn ← withdrawn.merge coin
    return (withdrawn, s)
  else return (withdrawn, s)

/-- The coin store pays first, the primary store what is missing. -/
def withdraw (coinType : TypeInfo) (amount : Nat) : Checked (Coin × CoinState) := do
  let (coinAmount, faAmount) ← s.calculateAmountToWithdraw env coinType account amount
  let (withdrawn, s) ← s.withdrawFromStore env account coinType coinAmount
  s.withdrawFromPrimary env account coinType faAmount withdrawn

def transfer (sender recipient : Address) (coinType : TypeInfo) (amount : Nat) : Checked CoinState
    := do
  let (coin, s) ← s.withdraw env sender coinType amount
  s.deposit env recipient coin

/-! ## Burning from an account -/

def burnFromStore (coinType : TypeInfo) (amount : Nat) : Checked CoinState :=
  if amount > 0 then do
    let store ← borrow (s.stores.find? (coinType, account))
    let (coin, s) ← s.extractFromStore coinType account store amount
    let (_, s) ← s.burnInternal coin
    return s
  else return s

/-- Only one of the two callers goes through the object of the primary store. -/
def checkPrimary (s : FungibleState) (store : Address) (asObject : Bool) : Checked Unit :=
  if asObject then s.storeObject store else .ok ()

def burnFromPrimary (coinType : TypeInfo) (amount : Nat) (asObject : Bool) : Checked CoinState :=
  if amount > 0 then do
    let burnRef ← s.borrowPairedBurnRef env coinType
    let metadata ← borrow (s.pairedMetadata env coinType)
    let store := env.userDerivedObjectAddress account metadata
    checkPrimary s.fungible store asObject
    let fungible ← s.fungible.burnFrom burnRef store amount
    return { s with fungible }
  else return s

/-- Burn first from the coin store, then from the primary store. -/
def burnFromWith (coinType : TypeInfo) (amount : Nat) (asObject : Bool) : Checked CoinState :=
  if amount = 0 then return s
  else do
    let (coinAmount, faAmount) ← s.calculateAmountToWithdraw env coinType account amount
    let s ← s.burnFromStore account coinType coinAmount
    s.burnFromPrimary env account coinType faAmount asObject

def burnFrom (coinType : TypeInfo) (amount : Nat) : Checked CoinState :=
    s.burnFromWith env account coinType amount true

def burnFromForGas (coinType : TypeInfo) (amount : Nat) : Checked CoinState :=
    s.burnFromWith env account coinType amount false

/-! ## Migration -/

/-- The primary store is frozen as the coin store was. -/
def alignFrozen (s : FungibleState) (store : Address) (frozen : Bool) : Checked FungibleState :=
  if frozen ≠ s.isFrozen store then s.setFrozenFlagInternal store frozen else return s

/-- Move the coin of a removed coin store to the primary store. -/
def convertStore : Checked CoinState :=
  if (s.infos coinType).isSome = true ∧ store.coin > 0 then do
    let (metadata, s) ← s.ensurePairedMetadata env coinType
    let fungible ← s.fungible.ensurePrimaryStoreExists env.toFungibleEnv account metadata
    let primary := env.userDerivedObjectAddress account metadata
    let (fa, s) ← coinToFungibleAsset env { s with fungible } ⟨coinType, store.coin⟩
    let fungible ← s.fungible.uncheckedDeposit primary fa
    let fungible ← alignFrozen fungible primary store.frozen
    return { s with fungible }
  else do
    Coin.destroyZero ⟨coinType, store.coin⟩
    return s

/-- Remove the coin store, and move what it holds to the primary store. -/
def maybeConvertToFungibleStore : Checked CoinState := do
  ensure (env.coinToFungibleAssetMigrationEnabled = true)
    (.canonical 0xD coinToFungibleAssetFeatureNotEnabled)
  match s.stores.find? (coinType, account) with
  | none => return s
  | some store =>
    convertStore env { s with stores := s.stores.erase (coinType, account) } coinType account store

def migrateToFungibleStore (coinType : TypeInfo) : Checked CoinState := do
  let s ← s.assertSignerHasPermission env coinType account
  s.maybeConvertToFungibleStore env coinType account

def migrateCoinStoreToFungibleStore (accounts : List Address) : Checked CoinState :=
  if env.newAccountsDefaultToFaStoreEnabled || env.newAccountsDefaultToFaAptStoreEnabled then
    accounts.foldlM (fun s account => s.maybeConvertToFungibleStore env coinType account) s
  else return s

end CoinState

end CreditChain
