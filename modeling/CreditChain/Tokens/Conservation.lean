import CreditChain.Tokens.CoinBooks

/-!
# Conservation of tokens

Transactions call the functions of the two modules in any order.  A coin or an asset that a call
returns is in flight until another call takes it.

* `tokens_conserved`: after any calls, the supply of a coin type or of an asset is the sum of what
  the stores hold and of what is in flight.
-/

namespace CreditChain

open Books Option

/-- The functions of the modules of fungible assets: the state after the call, the assets that it
takes and those that it returns.  The functions for friends of the module are there as well, and an
object comes and goes. -/
inductive AssetCalls (env : FungibleEnv) (f f' : FungibleState) :
    Multiset FungibleAsset → Multiset FungibleAsset → Prop
  | createObject : f.createObject a = .ok f' → AssetCalls env f f' 0 0
  | deleteObject : f' = { f with objectCores := Function.update f.objectCores a false } →
      AssetCalls env f f' 0 0
  | addFungibility : f.addFungibility env ref maximum metadata = .ok f' →
      AssetCalls env f f' 0 0
  | setUntransferable : f.setUntransferable ref = .ok f' → AssetCalls env f f' 0 0
  | createPrimaryStoreEnabledFungibleAsset :
      f.createPrimaryStoreEnabledFungibleAsset env ref maximum metadata = .ok f' →
      AssetCalls env f f' 0 0
  | createStore : f.createStore env ref m = .ok f' → AssetCalls env f f' 0 0
  | removeStore : f.removeStore a = .ok f' → AssetCalls env f f' 0 0
  | createPrimaryStore : f.createPrimaryStore env a m = .ok f' → AssetCalls env f f' 0 0
  | ensurePrimaryStoreExists : f.ensurePrimaryStoreExists env a m = .ok f' →
      AssetCalls env f f' 0 0
  | transfer : f.transfer env a b c amount = .ok f' → AssetCalls env f f' 0 0
  | withdraw : f.withdraw env a b amount = .ok (fa, f') → AssetCalls env f f' 0 {fa}
  | deposit : f.deposit env a fa = .ok f' → AssetCalls env f f' {fa} 0
  | uncheckedWithdraw : f.uncheckedWithdraw a amount = .ok (fa, f') → AssetCalls env f f' 0 {fa}
  | uncheckedDeposit : f.uncheckedDeposit a fa = .ok f' → AssetCalls env f f' {fa} 0
  | primaryWithdraw : f.primaryWithdraw env a m amount = .ok (fa, f') → AssetCalls env f f' 0 {fa}
  | primaryDeposit : f.primaryDeposit env a fa = .ok f' → AssetCalls env f f' {fa} 0
  | mint : f.mintInternal m amount = .ok (fa, f') → AssetCalls env f f' 0 {fa}
  | mintTo : f.mintTo env m a amount = .ok f' → AssetCalls env f f' 0 0
  | burn : f.burn m fa = .ok f' → AssetCalls env f f' {fa} 0
  | burnFrom : f.burnFrom m a amount = .ok f' → AssetCalls env f f' 0 0
  | setFrozenFlag : f.setFrozenFlag m a flag = .ok f' → AssetCalls env f f' 0 0
  | withdrawWithRef : f.withdrawWithRef m a amount = .ok (fa, f') → AssetCalls env f f' 0 {fa}
  | depositWithRef : f.depositWithRef m a fa = .ok f' → AssetCalls env f f' {fa} 0
  | transferWithRef : f.transferWithRef m a b amount = .ok f' → AssetCalls env f f' 0 0
  | zero : FungibleAsset.zero f m = .ok fa → f' = f → AssetCalls env f f' 0 {fa}
  | destroyZero : FungibleAsset.destroyZero fa = .ok u → f' = f → AssetCalls env f f' {fa} 0
  | extract : FungibleAsset.extract fa amount = .ok (left, extracted) → f' = f →
      AssetCalls env f f' {fa} {left, extracted}
  | merge : FungibleAsset.merge fa src = .ok merged → f' = f →
      AssetCalls env f f' {fa, src} {merged}
  | upgradeToConcurrent : f.upgradeToConcurrent env m = .ok f' → AssetCalls env f f' 0 0
  | upgradeStoreToConcurrent : f.upgradeStoreToConcurrent env a b = .ok f' →
      AssetCalls env f f' 0 0

/-- The functions of the coin module, and those of the other modules: the state after the call, the
coins and the assets that it takes, and those that it returns.  Two coins are merged that have one
type. -/
inductive Calls (env : CoinEnv) (s s' : CoinState) : Multiset Coin → Multiset FungibleAsset →
    Multiset Coin → Multiset FungibleAsset → Prop
  | createCoinConversionMap : s.createCoinConversionMap account = .ok s' → Calls env s s' 0 0 0 0
  | createPairing : s.createPairing env account coinType = .ok s' → Calls env s s' 0 0 0 0
  | ensurePairedMetadata : s.ensurePairedMetadata env coinType = .ok (m, s') →
      Calls env s s' 0 0 0 0
  | getPairedMintRef : s.getPairedMintRef env coinType = .ok (m, s') → Calls env s s' 0 0 0 0
  | returnPairedMintRef : s.returnPairedMintRef a b = .ok s' → Calls env s s' 0 0 0 0
  | getPairedTransferRef : s.getPairedTransferRef env coinType = .ok (m, s') →
      Calls env s s' 0 0 0 0
  | returnPairedTransferRef : s.returnPairedTransferRef a b = .ok s' → Calls env s s' 0 0 0 0
  | getPairedBurnRef : s.getPairedBurnRef env coinType = .ok (m, s') → Calls env s s' 0 0 0 0
  | convertAndTakePairedBurnRef : s.convertAndTakePairedBurnRef env coinType = .ok (m, s') →
      Calls env s s' 0 0 0 0
  | returnPairedBurnRef : s.returnPairedBurnRef a b = .ok s' → Calls env s s' 0 0 0 0
  | initializeCoin : s.initializeCoin env account coinType name symbol decimals flag = .ok s' →
      Calls env s s' 0 0 0 0
  | initializeWithParallelizableSupply :
      s.initializeWithParallelizableSupply env account coinType name symbol decimals flag = .ok s' →
      Calls env s s' 0 0 0 0
  | isAccountRegistered : s.isAccountRegistered env coinType account = .ok (flag, s') →
      Calls env s s' 0 0 0 0
  | register : s.register env account coinType = .ok s' → Calls env s s' 0 0 0 0
  | freezeCoinStore : s.freezeCoinStore coinType account = .ok s' → Calls env s s' 0 0 0 0
  | unfreezeCoinStore : s.unfreezeCoinStore coinType account = .ok s' → Calls env s s' 0 0 0 0
  | mint : s.mintInternal coinType amount = .ok (coin, s') → Calls env s s' 0 0 {coin} 0
  | burn : s.burnInternal coin = .ok (amount, s') → Calls env s s' {coin} 0 0 0
  | burnFrom : s.burnFrom env account coinType amount = .ok s' → Calls env s s' 0 0 0 0
  | burnFromForGas : s.burnFromForGas env account coinType amount = .ok s' →
      Calls env s s' 0 0 0 0
  | deposit : s.deposit env account coin = .ok s' → Calls env s s' {coin} 0 0 0
  | depositWithSigner : s.depositWithSigner env account coin = .ok s' → Calls env s s' {coin} 0 0 0
  | depositForGasFee : s.depositForGasFee env account coin = .ok s' → Calls env s s' {coin} 0 0 0
  | withdraw : s.withdraw env account coinType amount = .ok (coin, s') → Calls env s s' 0 0 {coin} 0
  | transfer : s.transfer env sender recipient coinType amount = .ok s' → Calls env s s' 0 0 0 0
  | zero : coin = .zero coinType → s' = s → Calls env s s' 0 0 {coin} 0
  | destroyZero : Coin.destroyZero coin = .ok u → s' = s → Calls env s s' {coin} 0 0 0
  | extract : Coin.extract coin amount = .ok (left, extracted) → s' = s →
      Calls env s s' {coin} 0 {left, extracted} 0
  | extractAll : Coin.extractAll coin = (left, extracted) → s' = s →
      Calls env s s' {coin} 0 {left, extracted} 0
  | merge : Coin.coinType src = Coin.coinType dst → Coin.merge dst src = .ok merged → s' = s →
      Calls env s s' {dst, src} 0 {merged} 0
  | coinToFungibleAsset : s.coinToFungibleAsset env coin = .ok (fa, s') →
      Calls env s s' {coin} 0 0 {fa}
  | migrateToFungibleStore : s.migrateToFungibleStore env account coinType = .ok s' →
      Calls env s s' 0 0 0 0
  | migrateCoinStoreToFungibleStore :
      s.migrateCoinStoreToFungibleStore env coinType accounts = .ok s' → Calls env s s' 0 0 0 0
  | asset : AssetCalls env.toFungibleEnv s.fungible fungible taken given →
      s' = { s with fungible } → Calls env s s' 0 taken 0 given

/-- The resources, and the values in flight. -/
structure Economy where
  state : CoinState
  coins : Multiset Coin
  assets : Multiset FungibleAsset

namespace Economy

def empty : Economy := ⟨.empty, 0, 0⟩

/-- A successful call.  What it does not take stays in flight. -/
inductive Step : Economy → Economy → Prop
  | call {env : CoinEnv} {s s' : CoinState} {coins coins' : Multiset Coin}
      {assets assets' : Multiset FungibleAsset} (others : Multiset Coin)
      (otherAssets : Multiset FungibleAsset) : Calls env s s' coins assets coins' assets' →
      Step ⟨s, coins + others, assets + otherAssets⟩ ⟨s', coins' + others, assets' + otherAssets⟩

def Reached (e : Economy) : Prop := Relation.ReflTransGen Step empty e

theorem Reached.call (env : CoinEnv) {s s' : CoinState} {coins coins' : Multiset Coin}
    {assets assets' : Multiset FungibleAsset} (others : Multiset Coin)
    (otherAssets : Multiset FungibleAsset)
    (reached : Reached ⟨s, coins + others, assets + otherAssets⟩)
    (calls : Calls env s s' coins assets coins' assets') :
    Reached ⟨s', coins' + others, assets' + otherAssets⟩ :=
  reached.tail (.call others otherAssets calls)

/-! ## Books -/

/-- The worth of all values. -/
def worths (coins : Multiset Coin) (assets : Multiset FungibleAsset) : TokenId → Nat :=
  (coins.map Coin.worth).sum + (assets.map FungibleAsset.worth).sum

/-- The sum of the values in flight. -/
def inFlight (e : Economy) : TokenId → Nat := worths e.coins e.assets

variable {coins coins' : Multiset Coin} {assets assets' : Multiset FungibleAsset}

theorem worths_add (others : Multiset Coin) (otherAssets : Multiset FungibleAsset) :
    worths (coins + others) (assets + otherAssets) =
      worths coins assets + worths others otherAssets := by
  simp only [worths, Multiset.map_add, Multiset.sum_add]
  exact add_add_add_comm _ _ _ _

theorem worths_assets (assets : Multiset FungibleAsset) :
    worths 0 assets = (assets.map FungibleAsset.worth).sum := zero_add _

end Economy

open Economy

section

variable {env : CoinEnv} {s s' : CoinState} {f f' : FungibleState} {coins coins' : Multiset Coin}
  {assets assets' : Multiset FungibleAsset}

open FungibleState in
theorem AssetCalls.flow {env : FungibleEnv} {taken given : Multiset FungibleAsset}
    (calls : AssetCalls env f f' taken given) :
    FungibleState.books.Flow f f' (taken.map fun fa => only fa.metadata fa.amount).sum
      (given.map fun fa => only fa.metadata fa.amount).sum := by
  cases calls with
  | createObject ok => exact createObject_flow ok
  | deleteObject ok => exact ok ▸ flow_of_same rfl rfl rfl fun _ missing => missing
  | addFungibility ok => exact (addFungibility_flow ok).1
  | setUntransferable ok => exact setUntransferable_flow ok
  | createPrimaryStoreEnabledFungibleAsset ok =>
    exact (createPrimaryStoreEnabledFungibleAsset_flow ok).1
  | createStore ok => exact (createStore_flow ok).1
  | removeStore ok => exact removeStore_flow ok
  | createPrimaryStore ok => exact (createPrimaryStore_flow ok).1
  | ensurePrimaryStoreExists ok => exact (ensurePrimaryStoreExists_flow ok).1
  | transfer ok => exact transfer_flow ok
  | withdraw ok => simpa using withdraw_flow ok
  | deposit ok => simpa using deposit_flow ok
  | uncheckedWithdraw ok => simpa using uncheckedWithdraw_flow ok
  | uncheckedDeposit ok => simpa using (uncheckedDeposit_flow ok).1
  | primaryWithdraw ok => simpa using primaryWithdraw_flow ok
  | primaryDeposit ok => simpa using primaryDeposit_flow ok
  | mint ok => simpa using (mintInternal_flow ok).2.1
  | mintTo ok => exact mintTo_flow ok
  | burn ok => simpa using burn_flow ok
  | burnFrom ok => exact burnFrom_flow ok
  | setFrozenFlag ok => exact setFrozenFlag_flow ok
  | withdrawWithRef ok => simpa using withdrawWithRef_flow ok
  | depositWithRef ok => simpa using depositWithRef_flow ok
  | transferWithRef ok => exact transferWithRef_flow ok
  | upgradeToConcurrent ok => exact upgradeToConcurrent_flow ok
  | upgradeStoreToConcurrent ok => exact upgradeStoreToConcurrent_flow ok
  | zero ok same =>
    cases of_check ok
    subst same
    simpa using Flow.refl f'
  | destroyZero ok same =>
    subst same
    simpa [ensure_eq_ok.mp ok] using Flow.refl f'
  | @extract fa amount left extracted ok same =>
    unfold FungibleAsset.extract at ok
    simp only [Except.bind_eq_ok, ensure_eq_ok] at ok
    obtain ⟨_, enough, parts⟩ := ok
    cases parts
    have whole : only fa.metadata fa.amount =
        only fa.metadata (fa.amount - amount) + only fa.metadata amount := by
      rw [← only_add, Nat.sub_add_cancel enough]
    subst same
    simpa [whole] using Flow.pass f' _
  | @merge fa src merged ok same =>
    unfold FungibleAsset.merge at ok
    simp only [Except.bind_eq_ok, Checked.add_eq_ok, ensure_eq_ok] at ok
    obtain ⟨_, type, _, ⟨-, rfl⟩, parts⟩ := ok
    cases parts
    have whole : only fa.metadata (fa.amount + src.amount) =
        only fa.metadata fa.amount + only src.metadata src.amount := by
      rw [only_add, type]
    subst same
    simpa [whole] using Flow.pass f' _

theorem ofAssets_sum (assets : Multiset FungibleAsset) :
    CoinState.ofAssets (assets.map fun fa => only fa.metadata fa.amount).sum = worths 0 assets := by
  induction assets using Multiset.induction with
  | empty => exact CoinState.ofAssets_zero
  | cons fa rest ih =>
    rw [worths_assets] at ih ⊢
    rw [Multiset.map_cons, Multiset.sum_cons, Multiset.map_cons, Multiset.sum_cons, ← ih,
      ← CoinState.ofAssets_only]
    funext token
    cases token <;> rfl

open CoinState in
/-- Every call keeps the books. -/
theorem Calls.flow (calls : Calls env s s' coins assets coins' assets') :
    CoinState.books.Flow s s' (worths coins assets) (worths coins' assets') := by
  cases calls with
  | createCoinConversionMap ok =>
    cases of_check ok
    exact flow_of_same rfl rfl rfl
  | createPairing ok => exact createPairing_flow ok
  | ensurePairedMetadata ok => exact (ensurePairedMetadata_flow ok).1
  | getPairedMintRef ok | getPairedTransferRef ok | getPairedBurnRef ok
  | convertAndTakePairedBurnRef ok =>
    obtain ⟨⟨metadata, refs⟩, -, ok⟩ := of_bind ok
    obtain ⟨_, -, same⟩ := of_bind ok
    cases same
    exact flow_of_same rfl rfl rfl
  | returnPairedMintRef ok | returnPairedTransferRef ok | returnPairedBurnRef ok =>
    exact returnPairedRef_flow ok
  | initializeCoin ok => exact initializeInternal_flow ok
  | initializeWithParallelizableSupply ok =>
    have ok := of_check ok
    exact initializeInternal_flow ok
  | isAccountRegistered ok => exact isAccountRegistered_flow ok
  | register ok => exact register_flow ok
  | freezeCoinStore ok | unfreezeCoinStore ok => exact setFrozen_flow ok
  | mint ok => simpa [worths] using (mintInternal_flow ok).2
  | burn ok => simpa [worths] using (burnInternal_flow ok).1
  | burnFrom ok | burnFromForGas ok => exact burnFromWith_flow ok
  | deposit ok => simpa [worths] using deposit_flow ok
  | depositWithSigner ok => simpa [worths] using depositWithSigner_flow ok
  | depositForGasFee ok => simpa [worths] using depositForGasFee_flow ok
  | withdraw ok => simpa [worths] using (withdraw_flow ok).2
  | transfer ok => exact transfer_flow ok
  | coinToFungibleAsset ok => simpa [worths] using (coinToFungibleAsset_flow ok).1
  | migrateToFungibleStore ok => exact migrateToFungibleStore_flow ok
  | migrateCoinStoreToFungibleStore ok => exact migrateCoinStoreToFungibleStore_flow ok
  | zero zero same =>
    subst same zero
    simpa [worths, worth_zero] using Flow.refl s'
  | destroyZero zero same =>
    subst same
    simpa [worths, worth_eq_zero (ensure_eq_ok.mp zero)] using Flow.refl s'
  | @extract coin amount left extracted ok same =>
    subst same
    unfold Coin.extract at ok
    simp only [Except.bind_eq_ok, ensure_eq_ok] at ok
    obtain ⟨_, enough, parts⟩ := ok
    cases parts
    have whole : coin.worth =
        Coin.worth ⟨coin.coinType, coin.value - amount⟩ + Coin.worth ⟨coin.coinType, amount⟩ := by
      rw [Coin.worth, Coin.worth, Coin.worth, ← only_add, Nat.sub_add_cancel enough]
    simpa [worths, whole] using Flow.pass s' _
  | @extractAll coin left extracted parts same =>
    subst same
    cases parts
    have none : Coin.worth ⟨coin.coinType, 0⟩ = 0 := only_zero _
    simpa [worths, none] using Flow.pass s' _
  | @merge src dst merged type ok same =>
    subst same
    simpa [worths, (worth_merge type ok).2] using Flow.pass s' _
  | asset calls same =>
    subst same
    have flow := flow_of_fungible calls.flow
    rwa [ofAssets_sum, ofAssets_sum] at flow

end

/-! ## Conservation -/

theorem Economy.Reached.balanced {e : Economy} (reached : e.Reached) :
    CoinState.books.Balanced e.state e.inFlight := by
  induction reached with
  | refl =>
    refine ⟨⟨⟨fun _ => .empty, nofun, nofun, fun _ _ => ⟨rfl, rfl⟩⟩, nofun⟩, ?_⟩
    intro token recorded found
    cases token with
    | coin coinType | asset metadata =>
      cases found
      rfl
  | tail _ step balanced =>
    cases step with
    | call others otherAssets calls =>
      refine balanced.flow calls.flow fun token => ?_
      simp only [inFlight, worths_add, Pi.add_apply]
      omega

theorem FungibleState.Tidy.supply_le_maximum {s : FungibleState} (tidy : s.Tidy) {m : Address}
    {supply maximum : Nat} (recorded : s.supplyImpl m = some supply)
    (limited : s.maximum m = some maximum) : supply ≤ maximum := by
  unfold supplyImpl at recorded
  unfold FungibleState.maximum at limited
  cases concurrent : s.concurrentSupplies m with
  | some current =>
    simp only [concurrent] at recorded limited
    cases recorded
    split at limited
    · cases limited
    · cases limited
      exact tidy.concurrent m current concurrent
  | none =>
    simp only [concurrent, map_eq_some_iff, bind_eq_some_iff] at recorded limited
    obtain ⟨plain, found, rfl⟩ := recorded
    obtain ⟨_, found', limit⟩ := limited
    cases found.symm.trans found'
    have le := tidy.plain m plain found
    rwa [limit] at le

/-- What there is of a coin type whose supply is tracked, or of an asset, is in a store or in
flight.  A store has one balance at most that is not zero, and no supply is over its maximum. -/
theorem tokens_conserved {e : Economy} (reached : e.Reached) :
    (∀ coinType supply, e.state.coinSupply coinType = .ok (some supply) →
      supply = e.state.held (.coin coinType) + e.inFlight (.coin coinType)) ∧
    (∀ metadata supply, e.state.fungible.supplyImpl metadata = some supply →
      supply = e.state.held (.asset metadata) + e.inFlight (.asset metadata)) ∧
    (∀ a store balance, (e.state.fungible.object a).store = some store →
      (e.state.fungible.object a).concurrentBalance = some balance →
      store.balance = 0 ∨ balance.value = 0) ∧
    (∀ metadata supply maximum, e.state.fungible.supplyImpl metadata = some supply →
      e.state.fungible.maximum metadata = some maximum → supply ≤ maximum) ∧
    (∀ coinType info supply, e.state.infos coinType = some info → info.supply = some supply →
      supply.read ≤ supply.limit) := by
  obtain ⟨tidy, balanced⟩ := reached.balanced
  refine ⟨?_, ?_, ?_, ?_, tidy.limited⟩
  · intro coinType supply tracked
    simp only [CoinState.coinSupply, Except.bind_eq_ok, Checked.borrow_eq_ok] at tracked
    obtain ⟨info, known, same⟩ := tracked
    refine balanced (.coin coinType) supply ?_
    change (e.state.infos coinType).elim _ _ = _
    rw [known]
    exact Except.ok.inj same
  · intro metadata supply found
    refine balanced (.asset metadata) supply ?_
    change some ((e.state.fungible.supplyImpl metadata).getD 0) = _
    rw [found, getD_some]
  · intro a store balance found there
    exact .inl ((tidy.fungible.stores a).apart store balance found there)
  · intro metadata supply maximum recorded limited
    exact tidy.fungible.supply_le_maximum recorded limited

/-! ## A run

A coin type is initialised and minted.  A part of the coins goes to a coin store, which is then
migrated; the rest is converted, and some of what was migrated comes back as coins. -/

namespace Migration

def goldType : TypeInfo := ⟨7, "gold", "Gold"⟩

def gold : Address := 100

def env : CoinEnv where
  concurrentFungibleAssetsEnabled := true
  concurrentFungibleBalanceEnabled := true
  defaultToConcurrentFungibleBalanceEnabled := true
  owns := fun _ _ => true
  dispatchFunctions := fun _ => none
  withdrawPermission := fun _ _ => true
  userDerivedObjectAddress := fun owner metadata => 1000 * metadata + owner
  coinToFungibleAssetMigrationEnabled := true
  newAccountsDefaultToFaStoreEnabled := false
  newAccountsDefaultToFaAptStoreEnabled := false
  permissionedSigner := false
  namedObjectAddress := fun _ => gold

def settled : Checked (CoinState × Coin × FungibleAsset) := do
  let s ← CoinState.empty.createCoinConversionMap creditchainFramework
  let s ← s.initializeCoin env 7 goldType [103] [71] 8 true
  let (minted, s) ← s.mintInternal goldType 100
  let s ← s.register env 5 goldType
  let (left, part) ← minted.extract 40
  let s ← s.deposit env 5 left
  let s ← s.migrateToFungibleStore env 5 goldType
  let (fa, s) ← s.coinToFungibleAsset env part
  let (coin, s) ← s.withdraw env 5 goldType 25
  return (s, coin, fa)

/-- The values in flight, the supplies, and the primary store of the account. -/
def seen (settled : CoinState × Coin × FungibleAsset) :
    (Coin × FungibleAsset) × (Checked (Option Nat) × Option Nat) × StoreObject :=
  ((settled.2.1, settled.2.2), (settled.1.coinSupply goldType, settled.1.fungible.supplyImpl gold),
    settled.1.fungible.object (1000 * gold + 5))

theorem settled_seen : settled.map seen = .ok
    ((⟨goldType, 25⟩, ⟨gold, 40⟩), (.ok (some 25), some 75),
      ⟨some ⟨gold, 0, false⟩, some ⟨35, u64Max⟩⟩) := by
  decide +kernel

theorem settled_conserved : ∃ e : Economy, e.Reached ∧ e.coins = {⟨goldType, 25⟩} ∧
    e.assets = {⟨gold, 40⟩} ∧ 25 = e.state.held (.coin goldType) + e.inFlight (.coin goldType) ∧
    75 = e.state.held (.asset gold) + e.inFlight (.asset gold) := by
  obtain ⟨⟨s, coin, fa⟩, done, same⟩ := Except.map_eq_ok.mp settled_seen
  simp only [seen, Prod.mk.injEq] at same
  obtain ⟨⟨rfl, rfl⟩, ⟨coinSupply, supply⟩, -⟩ := same
  simp only [settled, Except.bind_eq_ok] at done
  obtain ⟨s₁, mapped, s₂, initialised, ⟨minted, s₃⟩, minting, s₄, registered, ⟨left, part⟩, split,
    s₅, deposited, s₆, migrated, ⟨fa, s₇⟩, converted, ⟨coin, s₈⟩, withdrawn, final⟩ := done
  cases final
  have start : Economy.empty.Reached := .refl
  have paid := (((start.call env 0 0 (.createCoinConversionMap mapped)).call env 0 0
    (.initializeCoin initialised)).call env 0 0 (.mint minting)).call env {minted} 0
    (.register registered)
  have placed := (paid.call env 0 0 (.extract split rfl)).call env {part} 0 (.deposit deposited)
  have moved := (placed.call env {part} 0 (.migrateToFungibleStore migrated)).call env 0 0
    (.coinToFungibleAsset converted)
  have reached := moved.call env 0 {⟨gold, 40⟩} (.withdraw withdrawn)
  obtain ⟨ofCoins, ofAssets, -⟩ := tokens_conserved reached
  exact ⟨_, reached, rfl, rfl, ofCoins _ _ coinSupply, ofAssets _ _ supply⟩

end Migration

end CreditChain
