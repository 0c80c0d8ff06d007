import CreditChain.Framework.Pool

/-!
# Fungible assets

The resources of the object group of an asset: its metadata and its supply, which is a plain
number or an aggregator.  The resources of the object group of a store: the store with its plain
balance, and perhaps an aggregator that holds the balance instead.  An amount outside all stores is
a value of type `FungibleAsset`, which is handed from call to call.
-/

namespace CreditChain

/-! ## Resources -/

/-- A counter that two transactions may change at once. -/
structure Aggregator where
  value : Nat
  maxValue : Nat
  deriving DecidableEq

namespace Aggregator

namespace Error

def overflow : Abort := .outOfRange 1
def underflow : Abort := .outOfRange 2

end Error

def create (maxValue : Nat) : Aggregator := ⟨0, maxValue⟩

variable (aggregator : Aggregator) (value : Nat)

def tryAdd : Option Aggregator :=
  if aggregator.value + value ≤ aggregator.maxValue then
    some { aggregator with value := aggregator.value + value }
  else none

def trySub : Option Aggregator :=
  if value ≤ aggregator.value then some { aggregator with value := aggregator.value - value }
  else none

def add : Checked Aggregator := Checked.orAbort (aggregator.tryAdd value) Error.overflow

def sub : Checked Aggregator := Checked.orAbort (aggregator.trySub value) Error.underflow

end Aggregator

structure FungibleMetadata where
  name : List UInt8
  symbol : List UInt8
  decimals : Nat
  iconUri : List UInt8
  projectUri : List UInt8

/-- No maximum means an unlimited supply. -/
structure Supply where
  current : Nat
  maximum : Option Nat

structure FungibleStore where
  metadata : Address
  balance : Nat
  frozen : Bool
  deriving DecidableEq

/-- The object group of a store. -/
structure StoreObject where
  store : Option FungibleStore
  concurrentBalance : Option Aggregator
  deriving DecidableEq

namespace StoreObject

def empty : StoreObject := ⟨none, none⟩

/-- Move an aggregator of zero next to a new store, where this is the default. -/
def addConcurrentBalance (object : StoreObject) (isDefault : Bool) : Checked StoreObject :=
  if isDefault then
    match object.concurrentBalance with
    | some _ => .error .occupied
    | none => return { object with concurrentBalance := some (.create u64Max) }
  else return object

end StoreObject

/-- An amount of an asset outside all stores. -/
structure FungibleAsset where
  metadata : Address
  amount : Nat
  deriving DecidableEq

/-- The right to create an object; with it resources are moved to the new object. -/
structure ConstructorRef where
  self : Address
  canDelete : Bool

structure FungibleState where
  objectCores : Address → Bool
  metadata : Address → Option FungibleMetadata
  untransferable : Address → Bool
  supplies : Address → Option Supply
  concurrentSupplies : Address → Option Aggregator
  deriveRefPods : Address → Option Unit
  objects : Table Address StoreObject

/-- The functions that replace a withdrawal and a deposit of an asset, if there are any. -/
structure DispatchFunctionStore where
  withdrawFunction : Bool
  depositFunction : Bool

/-- What a call reads of other modules: the features, the owners of objects, the registered
functions, and the permissions of the signer. -/
structure FungibleEnv where
  concurrentFungibleAssetsEnabled : Bool
  concurrentFungibleBalanceEnabled : Bool
  defaultToConcurrentFungibleBalanceEnabled : Bool
  owns : Address → Address → Bool
  dispatchFunctions : Address → Option DispatchFunctionStore
  withdrawPermission : Address → Nat → Bool
  userDerivedObjectAddress : Address → Address → Address

namespace FungibleAssetError

def storeIsFrozen : Nat := 3
def insufficientBalance : Nat := 4
def maxSupplyExceeded : Nat := 5
def fungibleAssetMismatch : Nat := 6
def notStoreOwner : Nat := 8
def transferRefAndStoreMismatch : Nat := 9
def fungibleAssetAndStoreMismatch : Nat := 11
def amountIsNotZero : Nat := 12
def burnRefAndFungibleAssetMismatch : Nat := 13
def balanceIsNotZero : Nat := 14
def nameTooLong : Nat := 15
def symbolTooLong : Nat := 16
def decimalsTooLarge : Nat := 17
def objectIsDeletable : Nat := 18
def uriTooLong : Nat := 19
def supplyUnderflow : Nat := 20
def supplyNotFound : Nat := 21
def concurrentSupplyNotEnabled : Nat := 22
def fungibleStoreExistence : Nat := 23
def invalidDispatchableOperations : Nat := 28
def fungibleMetadataExistence : Nat := 30
def concurrentBalanceNotEnabled : Nat := 32
def withdrawPermissionDenied : Nat := 36
def transferRefAndFungibleAssetMismatch : Nat := 2

-- of the module that calls the registered functions
def notActivated : Nat := 3

end FungibleAssetError

open FungibleAssetError Function
open Checked (borrow orAbort moveTo)

namespace ObjectError

def objectExists : Nat := 1
def objectDoesNotExist : Nat := 2
def resourceDoesNotExist : Nat := 7

end ObjectError

open ObjectError

def maxNameLength : Nat := 32
def maxSymbolLength : Nat := 32
def maxDecimals : Nat := 32
def maxUriLength : Nat := 512

/-- The address of the metadata of the chain's own coin. -/
def creditchainFungibleAsset : Address := 0xA

namespace FungibleEnv

def hasWithdrawDispatchFunction (env : FungibleEnv) (metadata : Address) : Bool :=
  metadata != creditchainFungibleAsset &&
    ((env.dispatchFunctions metadata).elim false (·.withdrawFunction))

def hasDepositDispatchFunction (env : FungibleEnv) (metadata : Address) : Bool :=
  metadata != creditchainFungibleAsset &&
    ((env.dispatchFunctions metadata).elim false (·.depositFunction))

end FungibleEnv

namespace FungibleState

def empty : FungibleState where
  objectCores := fun _ => false
  metadata := fun _ => none
  untransferable := fun _ => false
  supplies := fun _ => none
  concurrentSupplies := fun _ => none
  deriveRefPods := fun _ => none
  objects := .empty

variable (env : FungibleEnv) (s : FungibleState) (store a : Address)

def object : StoreObject := (s.objects.find? a).getD .empty

def setObject (object : StoreObject) : FungibleState :=
  { s with objects := s.objects.insert a object }

/-! ## Views -/

variable (constructorRef : ConstructorRef) (metadata : Address)

def supplyImpl : Option Nat :=
  match s.concurrentSupplies metadata with
  | some current => some current.value
  | none => (s.supplies metadata).map (·.current)

def maximum : Option Nat :=
  match s.concurrentSupplies metadata with
  | some current => if current.maxValue = u128Max then none else some current.maxValue
  | none => (s.supplies metadata).bind (·.maximum)

def storeExists : Bool := (s.object store).store.isSome

def borrowStoreResource : Checked FungibleStore :=
  orAbort (s.object store).store (.notFound fungibleStoreExistence)

def isFrozen : Bool := (s.object store).store.elim false (·.frozen)

/-- `address_to_object` for metadata. -/
def metadataObject : Checked Unit := do
  ensure (s.objectCores a = true) (.notFound objectDoesNotExist)
  ensure ((s.metadata a).isSome = true) (.notFound resourceDoesNotExist)

/-- `address_to_object` for a store. -/
def storeObject : Checked Unit := do
  ensure (s.objectCores a = true) (.notFound objectDoesNotExist)
  ensure (s.storeExists a = true) (.notFound resourceDoesNotExist)

/-- `create_object_internal`, without the data of the object. -/
def createObject : Checked FungibleState := do
  ensure (s.objectCores a = false) (.alreadyExists objectExists)
  return { s with objectCores := update s.objectCores a true }

/-! ## Assets and stores -/

/-- Give the asset a supply of zero. -/
def addSupply (self : Address) (maximumSupply : Option Nat) : Checked FungibleState :=
  if env.concurrentFungibleAssetsEnabled then do
    let concurrentSupplies ← moveTo s.concurrentSupplies self (.create (maximumSupply.getD u128Max))
    return { s with concurrentSupplies }
  else do
    let supplies ← moveTo s.supplies self ⟨0, maximumSupply⟩
    return { s with supplies }

def addFungibility (maximumSupply : Option Nat) (metadata : FungibleMetadata) : Checked
    FungibleState := do
  ensure (constructorRef.canDelete = false) (.invalidArgument objectIsDeletable)
  ensure (metadata.name.length ≤ maxNameLength) (.outOfRange nameTooLong)
  ensure (metadata.symbol.length ≤ maxSymbolLength) (.outOfRange symbolTooLong)
  ensure (metadata.decimals ≤ maxDecimals) (.outOfRange decimalsTooLarge)
  ensure (metadata.iconUri.length ≤ maxUriLength) (.outOfRange uriTooLong)
  ensure (metadata.projectUri.length ≤ maxUriLength) (.outOfRange uriTooLong)
  let all ← moveTo s.metadata constructorRef.self metadata
  addSupply env { s with metadata := all } constructorRef.self maximumSupply

def setUntransferable : Checked FungibleState := do
  ensure ((s.metadata constructorRef.self).isSome = true) (.notFound fungibleMetadataExistence)
  if s.untransferable constructorRef.self then .error .occupied
  else return { s with untransferable := update s.untransferable constructorRef.self true }

def createStore : Checked FungibleState := do
  s.metadataObject metadata
  let object := s.object constructorRef.self
  ensure (object.store.isNone = true) .occupied
  let object ← { object with store := some ⟨metadata, 0, false⟩ }.addConcurrentBalance
    env.defaultToConcurrentFungibleBalanceEnabled
  return s.setObject constructorRef.self object

/-- Remove a store that is empty. -/
def removeStore : Checked FungibleState := do
  let object := s.object store
  let fungibleStore ← borrow object.store
  ensure (fungibleStore.balance = 0) (.permissionDenied balanceIsNotZero)
  ensure (object.concurrentBalance.elim 0 (·.value) = 0) (.permissionDenied balanceIsNotZero)
  return s.setObject store .empty

/-! ## Deposits and withdrawals -/

def withdrawPermissionCheck (amount : Nat) : Checked Unit :=
  ensure (env.withdrawPermission store amount = true) (.permissionDenied withdrawPermissionDenied)

/-- Only the owner of a store that is not frozen withdraws. -/
def withdrawSanityCheck (owner store : Address) (abortOnDispatch : Bool) : Checked Unit := do
  ensure (env.owns store owner = true) (.permissionDenied notStoreOwner)
  let faStore ← s.borrowStoreResource store
  ensure (abortOnDispatch = false ∨ env.hasWithdrawDispatchFunction faStore.metadata = false)
    (.invalidArgument invalidDispatchableOperations)
  ensure (faStore.frozen = false) (.permissionDenied storeIsFrozen)

/-- A frozen store receives nothing. -/
def depositSanityCheck (abortOnDispatch : Bool) : Checked Unit := do
  let faStore ← s.borrowStoreResource store
  ensure (abortOnDispatch = false ∨ env.hasDepositDispatchFunction faStore.metadata = false)
    (.invalidArgument invalidDispatchableOperations)
  ensure (faStore.frozen = false) (.permissionDenied storeIsFrozen)

end FungibleState

namespace StoreObject

variable (object : StoreObject) (store : FungibleStore)

/-- The aggregator holds the balance, unless there is none or the plain balance is not zero. -/
def holder : Option Aggregator := if store.balance = 0 then object.concurrentBalance else none

def deposit (amount : Nat) : Checked StoreObject :=
  if amount = 0 then return object
  else match object.holder store with
  | some aggregator => do
      let aggregator ← aggregator.add amount
      return { object with concurrentBalance := some aggregator }
  | none => do
      let balance ← Checked.add u64Max store.balance amount
      return { object with store := some { store with balance } }

def withdraw (amount : Nat) : Checked StoreObject :=
  if amount = 0 then return object
  else match object.holder store with
  | some aggregator => do
      let aggregator ← orAbort (aggregator.trySub amount) (.invalidArgument insufficientBalance)
      return { object with concurrentBalance := some aggregator }
  | none => do
      ensure (store.balance ≥ amount) (.invalidArgument insufficientBalance)
      return { object with store := some { store with balance := store.balance - amount } }

end StoreObject

namespace FungibleState

variable (env : FungibleEnv) (s : FungibleState) (ref store : Address) (fa : FungibleAsset)

/-- Deposit without a look at freezes and dispatch functions. -/
def uncheckedDeposit : Checked FungibleState := do
  let fungibleStore ← s.borrowStoreResource store
  ensure (fa.metadata = fungibleStore.metadata) (.invalidArgument fungibleAssetAndStoreMismatch)
  let object ← (s.object store).deposit fungibleStore fa.amount
  return s.setObject store object

variable (metadata : Address) (amount : Nat)

def uncheckedWithdraw : Checked (FungibleAsset × FungibleState) :=
    do
  let fungibleStore ← s.borrowStoreResource store
  let object ← (s.object store).withdraw fungibleStore amount
  return (⟨fungibleStore.metadata, amount⟩, s.setObject store object)

def withdraw (owner store : Address) (amount : Nat) : Checked (FungibleAsset × FungibleState) := do
  s.withdrawSanityCheck env owner store true
  withdrawPermissionCheck env store amount
  s.uncheckedWithdraw store amount

def deposit : Checked FungibleState := do
  s.depositSanityCheck env store true
  s.uncheckedDeposit store fa

def transfer (sender fromStore toStore : Address) (amount : Nat) : Checked FungibleState := do
  let (fa, s) ← s.withdraw env sender fromStore amount
  s.deposit env toStore fa

/-! ## Supply -/

def checkMaximum (supply : Supply) (amount : Nat) : Checked Unit :=
  match supply.maximum with
  | none => return ()
  | some max => do
      let room ← Checked.sub max supply.current
      ensure (room ≥ amount) (.outOfRange maxSupplyExceeded)

/-- The aggregator comes before the plain supply. -/
def increaseSupply : Checked FungibleState :=
  if amount = 0 then return s
  else match s.concurrentSupplies metadata with
  | some current => do
      let current ← orAbort (current.tryAdd amount) (.outOfRange maxSupplyExceeded)
      return { s with
        concurrentSupplies := update s.concurrentSupplies metadata (some current) }
  | none =>
    match s.supplies metadata with
    | some supply => do
        checkMaximum supply amount
        let current ← Checked.add u128Max supply.current amount
        return { s with
          supplies := update s.supplies metadata (some { supply with current }) }
    | none => .error (.notFound supplyNotFound)

def decreaseSupply : Checked FungibleState :=
  if amount = 0 then return s
  else match s.concurrentSupplies metadata with
  | some current => do
      let current ← orAbort (current.trySub amount) (.outOfRange supplyUnderflow)
      return { s with
        concurrentSupplies := update s.concurrentSupplies metadata (some current) }
  | none =>
    match s.supplies metadata with
    | some supply => do
        ensure (supply.current ≥ amount) (.invalidState supplyUnderflow)
        return { s with
          supplies := update s.supplies metadata
            (some { supply with current := supply.current - amount }) }
    | none => .error (.notFound supplyNotFound)

/-! ## Minting and burning -/

/-- What is minted is outside all stores. -/
def mintInternal : Checked (FungibleAsset × FungibleState) := do
  let s ← s.increaseSupply metadata amount
  return (⟨metadata, amount⟩, s)

def burnInternal : Checked (Nat × FungibleState) := do
  let s ← s.decreaseSupply fa.metadata fa.amount
  return (fa.amount, s)

/-- With the reference to mint, burn or transfer an asset. -/
def mintTo : Checked FungibleState := do
  s.depositSanityCheck env store false
  let (fa, s) ← s.mintInternal ref amount
  s.uncheckedDeposit store fa

def burn (ref : Address) (fa : FungibleAsset) : Checked FungibleState := do
  ensure (ref = fa.metadata) (.invalidArgument burnRefAndFungibleAssetMismatch)
  let (_, s) ← s.burnInternal fa
  return s

def burnFrom : Checked FungibleState := do
  let (fa, s) ← s.uncheckedWithdraw store amount
  s.burn ref fa

def setFrozenFlagInternal (frozen : Bool) : Checked FungibleState := do
  let object := s.object store
  let fungibleStore ← borrow object.store
  return s.setObject store { object with store := some { fungibleStore with frozen } }

def setFrozenFlag (frozen : Bool) : Checked FungibleState := do
  let fungibleStore ← s.borrowStoreResource store
  ensure (ref = fungibleStore.metadata) (.invalidArgument transferRefAndStoreMismatch)
  s.setFrozenFlagInternal store frozen

def withdrawWithRef : Checked (FungibleAsset × FungibleState) := do
  let fungibleStore ← s.borrowStoreResource store
  ensure (ref = fungibleStore.metadata) (.invalidArgument transferRefAndStoreMismatch)
  s.uncheckedWithdraw store amount

def depositWithRef : Checked FungibleState := do
  ensure (ref = fa.metadata) (.invalidArgument transferRefAndFungibleAssetMismatch)
  s.uncheckedDeposit store fa

def transferWithRef (ref fromStore toStore : Address) (amount : Nat) : Checked FungibleState := do
  let (fa, s) ← s.withdrawWithRef ref fromStore amount
  s.depositWithRef ref toStore fa

/-! ## Upgrades -/

/-- The aggregator starts with the value, which must not be over its limit. -/
def upgradeToConcurrent : Checked FungibleState := do
  ensure (env.concurrentFungibleAssetsEnabled = true) (.invalidArgument concurrentSupplyNotEnabled)
  let supply ← orAbort (s.supplies metadata) (.notFound supplyNotFound)
  let current ← (Aggregator.create (supply.maximum.getD u128Max)).add supply.current
  let concurrentSupplies ← moveTo s.concurrentSupplies metadata current
  return { s with supplies := update s.supplies metadata none, concurrentSupplies }

/-- Move the balance into an aggregator. -/
def ensureStoreUpgradedToConcurrentInternal : Checked FungibleState :=
  let object := s.object store
  match object.concurrentBalance with
  | some _ => return s
  | none => do
      let fungibleStore ← borrow object.store
      let balance ← (Aggregator.create u64Max).add fungibleStore.balance
      return s.setObject store ⟨some { fungibleStore with balance := 0 }, some balance⟩

def upgradeStoreToConcurrent (owner store : Address) : Checked FungibleState := do
  ensure (env.owns store owner = true) (.permissionDenied notStoreOwner)
  ensure (s.isFrozen store = false) (.invalidArgument storeIsFrozen)
  -- nothing is left to do, even where the feature is off
  if (s.object store).concurrentBalance.isSome then return s
  else do
    ensure (env.concurrentFungibleBalanceEnabled = true)
      (.invalidArgument concurrentBalanceNotEnabled)
    s.ensureStoreUpgradedToConcurrentInternal store

end FungibleState

/-! ## Amounts outside the stores -/

namespace FungibleAsset

def zero (s : FungibleState) (metadata : Address) : Checked FungibleAsset := do
  s.metadataObject metadata
  return ⟨metadata, 0⟩

/-- What is left and what is extracted. -/
def extract (fa : FungibleAsset) (amount : Nat) : Checked (FungibleAsset × FungibleAsset) := do
  ensure (fa.amount ≥ amount) (.invalidArgument insufficientBalance)
  return ({ fa with amount := fa.amount - amount }, { fa with amount })

def merge (dst src : FungibleAsset) : Checked FungibleAsset := do
  ensure (src.metadata = dst.metadata) (.invalidArgument fungibleAssetMismatch)
  let amount ← Checked.add u64Max dst.amount src.amount
  return { dst with amount }

def destroyZero (fa : FungibleAsset) : Checked Unit :=
  ensure (fa.amount = 0) (.invalidArgument amountIsNotZero)

end FungibleAsset

/-! ## Primary stores -/

namespace FungibleState

variable (env : FungibleEnv) (s : FungibleState)

/-- An asset whose accounts have a store at a known address. -/
def createPrimaryStoreEnabledFungibleAsset (constructorRef : ConstructorRef)
    (maximumSupply : Option Nat) (metadata : FungibleMetadata) : Checked FungibleState := do
  let s ← s.addFungibility env constructorRef maximumSupply metadata
  let deriveRefPods ← moveTo s.deriveRefPods constructorRef.self ()
  return { s with deriveRefPods }

variable (owner metadata : Address)

def createPrimaryStore : Checked FungibleState := do
  s.metadataObject metadata
  let _ ← borrow (s.deriveRefPods metadata)
  let store := env.userDerivedObjectAddress owner metadata
  let s ← s.createObject store
  s.createStore env ⟨store, false⟩ metadata

/-- The state with a primary store, whose address is known. -/
def ensurePrimaryStoreExists : Checked FungibleState :=
  let store := env.userDerivedObjectAddress owner metadata
  if s.storeExists store then do
    s.storeObject store
    return s
  else s.createPrimaryStore env owner metadata

/-- `dispatchable_fungible_asset::withdraw` of an asset without registered functions. -/
def dispatchableWithdraw (owner store : Address) (amount : Nat) : Checked
    (FungibleAsset × FungibleState) := do
  s.withdrawSanityCheck env owner store false
  withdrawPermissionCheck env store amount
  let fungibleStore ← s.borrowStoreResource store
  -- the assets of coins have no functions: their constructor references are not kept
  ensure ((env.dispatchFunctions fungibleStore.metadata).elim false (·.withdrawFunction) = false)
    (.canonical 0x7 notActivated)
  s.uncheckedWithdraw store amount

/-- `dispatchable_fungible_asset::deposit` of an asset without registered functions. -/
def dispatchableDeposit (store : Address) (fa : FungibleAsset) : Checked FungibleState := do
  s.depositSanityCheck env store false
  let fungibleStore ← s.borrowStoreResource store
  ensure ((env.dispatchFunctions fungibleStore.metadata).elim false (·.depositFunction) = false)
    (.canonical 0x7 notActivated)
  s.uncheckedDeposit store fa

def primaryWithdraw (amount : Nat) : Checked (FungibleAsset × FungibleState) := do
  let s ← s.ensurePrimaryStoreExists env owner metadata
  s.dispatchableWithdraw env owner (env.userDerivedObjectAddress owner metadata) amount

def primaryDeposit (owner : Address) (fa : FungibleAsset) : Checked FungibleState := do
  let s ← s.ensurePrimaryStoreExists env owner fa.metadata
  s.dispatchableDeposit env (env.userDerivedObjectAddress owner fa.metadata) fa

def primaryStoreExists : Bool := s.storeExists (env.userDerivedObjectAddress owner metadata)

end FungibleState

end CreditChain
