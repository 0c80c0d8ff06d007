import CreditChain.Tokens.AssetBooks
import CreditChain.Tokens.Coin

/-!
# The books of the coins

Coin types and assets are the kinds of one set of books.  A coin that becomes a fungible asset
leaves the books of its type and enters those of the asset.  As for the assets, the lemma `f_flow`
says what the function `f` takes and gives.
-/

namespace CreditChain

open Books FungibleState Option Function Checked
open CreditChain.Except (bind_eq_ok)

/-- What there are amounts of. -/
inductive TokenId where
  | coin (coinType : TypeInfo)
  | asset (metadata : Address)
  deriving DecidableEq

def Coin.worth (coin : Coin) : TokenId → Nat := only (.coin coin.coinType) coin.value

def FungibleAsset.worth (fa : FungibleAsset) : TokenId → Nat := only (.asset fa.metadata) fa.amount

variable {env : CoinEnv} {s s' : CoinState} {coinType : TypeInfo} {account m : Address}
  {amount : Nat} {coin : Coin} {fa : FungibleAsset} {store : CoinStore}

/-! ## Supplies -/

namespace OptionalAggregator

variable {supply supply' : OptionalAggregator}

def limit : OptionalAggregator → Nat
  | .aggregator current => current.maxValue
  | .integer _ limit => limit

theorem add_ok (ok : supply.add amount = .ok supply') :
    supply'.read = supply.read + amount ∧ supply'.read ≤ supply'.limit := by
  cases supply with
  | aggregator current =>
    simp only [add, bind_eq_ok, Aggregator.add_eq_ok] at ok
    obtain ⟨_, ⟨fits, rfl⟩, same⟩ := ok
    cases same
    exact ⟨rfl, fits⟩
  | integer current limit =>
    simp only [add, bind_eq_ok, sub_eq_ok, ensure_eq_ok] at ok
    obtain ⟨_, ⟨le, rfl⟩, _, fits, same⟩ := ok
    cases same
    exact ⟨rfl, add_comm current amount ▸ Nat.add_le_of_le_sub le fits⟩

theorem sub_ok (ok : supply.sub amount = .ok supply') :
    supply'.read + amount = supply.read ∧ supply'.limit = supply.limit := by
  cases supply with
  | aggregator current =>
    simp only [sub, bind_eq_ok, Aggregator.sub_eq_ok] at ok
    obtain ⟨_, ⟨enough, rfl⟩, same⟩ := ok
    cases same
    exact ⟨Nat.sub_add_cancel enough, rfl⟩
  | integer current limit =>
    simp only [sub, bind_eq_ok, ensure_eq_ok] at ok
    obtain ⟨_, enough, same⟩ := ok
    cases same
    exact ⟨Nat.sub_add_cancel enough, rfl⟩

theorem read_new (parallelizable : Bool) : (new parallelizable).read = 0 := by
  cases parallelizable <;> rfl

end OptionalAggregator

/-! ## Books -/

namespace CoinState

/-- A type without information has no coins, and a supply that is not tracked is not recorded. -/
def recorded (s : CoinState) : TokenId → Option Nat
  | .coin coinType => (s.infos coinType).elim (some 0) fun info => info.supply.map (·.read)
  | .asset metadata => some ((s.fungible.supplyImpl metadata).getD 0)

/-- The sum of all coin stores of a type, or of all stores of an asset. -/
def held (s : CoinState) : TokenId → Nat
  | .coin coinType => s.stores.sum fun key store => only key.1 store.coin coinType
  | .asset metadata => s.fungible.held metadata

/-- The assets are tidy, and no supply is over its limit. -/
structure Tidy (s : CoinState) : Prop where
  fungible : s.fungible.Tidy
  limited : ∀ coinType info supply, s.infos coinType = some info → info.supply = some supply →
    supply.read ≤ supply.limit

def books : Books CoinState TokenId where
  recorded := recorded
  held := held
  valid := Tidy

/-- Amounts of assets as amounts of tokens. -/
def ofAssets (amounts : Address → Nat) : TokenId → Nat
  | .coin _ => 0
  | .asset metadata => amounts metadata

@[simp] theorem ofAssets_zero : ofAssets 0 = 0 := by
  funext token
  cases token <;> rfl

@[simp] theorem ofAssets_only (fa : FungibleAsset) :
    ofAssets (only fa.metadata fa.amount) = fa.worth := by
  funext token
  cases token with
  | coin coinType => rfl
  | asset metadata => simp only [ofAssets, FungibleAsset.worth, only, TokenId.asset.injEq]

theorem worth_coin (coin : Coin) (coinType : TypeInfo) :
    coin.worth (.coin coinType) = only coin.coinType coin.value coinType := by
  simp only [Coin.worth, only, TokenId.coin.injEq]

theorem worth_zero (coinType : TypeInfo) : (Coin.zero coinType).worth = 0 := only_zero _

theorem worth_eq_zero (none : coin.value = 0) : coin.worth = 0 := by
  rw [Coin.worth, none, only_zero]

variable {fungible : FungibleState}

/-- A call of the other module. -/
theorem flow_of_fungible {ins outs : Address → Nat}
    (flow : FungibleState.books.Flow s.fungible fungible ins outs) :
    books.Flow s { s with fungible } (ofAssets ins) (ofAssets outs) := by
  intro tidy
  obtain ⟨tidy', assets⟩ := flow tidy.fungible
  refine ⟨⟨tidy', tidy.limited⟩, fun token after found => ?_⟩
  cases token with
  | coin coinType => exact ⟨after, found, rfl⟩
  | asset metadata => exact assets metadata after found

theorem flow_of_asset (flow : FungibleState.books.Flow s.fungible fungible 0 0) :
    books.Flow s { s with fungible } 0 0 := by
  have moved := flow_of_fungible flow
  rwa [ofAssets_zero] at moved

theorem flow_of_asset_taken
    (flow : FungibleState.books.Flow s.fungible fungible (only fa.metadata fa.amount) 0) :
    books.Flow s { s with fungible } fa.worth 0 := by
  have moved := flow_of_fungible flow
  rwa [ofAssets_zero, ofAssets_only] at moved

theorem flow_of_asset_given
    (flow : FungibleState.books.Flow s.fungible fungible 0 (only fa.metadata fa.amount)) :
    books.Flow s { s with fungible } 0 fa.worth := by
  have moved := flow_of_fungible flow
  rwa [ofAssets_zero, ofAssets_only] at moved

variable {taken given : Nat}

/-- Other coin stores of one type. -/
theorem flow_of_stores (infos : s'.infos = s.infos) (fungible : s'.fungible = s.fungible)
    (moved : ∀ other, s.held (.coin other) + only coinType taken other =
      s'.held (.coin other) + only coinType given other) :
    books.Flow s s' (Coin.worth ⟨coinType, taken⟩) (Coin.worth ⟨coinType, given⟩) := by
  intro tidy
  refine ⟨⟨fungible ▸ tidy.fungible, infos ▸ tidy.limited⟩, fun token after found => ⟨after, ?_, ?_⟩⟩
  · change s'.recorded token = some after at found
    cases token with
    | coin other => rwa [recorded, infos] at found
    | asset metadata => rwa [recorded, fungible] at found
  cases token with
  | coin other =>
    have change := moved other
    rw [worth_coin, worth_coin]
    exact (add_assoc _ _ _).trans (change ▸ (add_assoc _ _ _).symm)
  | asset metadata =>
    change after + s.fungible.held metadata + 0 = after + s'.fungible.held metadata + 0
    rw [fungible]

theorem flow_of_same (infos : s'.infos = s.infos) (stores : s'.stores = s.stores)
    (fungible : s'.fungible = s.fungible) : books.Flow s s' 0 0 := by
  rw [← worth_zero creditChainCoin]
  refine flow_of_stores infos fungible fun other => ?_
  rw [held, held, stores]

theorem setStore_flow (moved : s.coinBalance coinType account + taken = store.coin + given) :
    books.Flow s (s.setStore coinType account store)
      (Coin.worth ⟨coinType, taken⟩) (Coin.worth ⟨coinType, given⟩) := by
  refine flow_of_stores rfl rfl fun other => ?_
  have sum := Table.sum_insert_add (t := s.stores) (k := (coinType, account)) (v := store)
    (f := fun key store => only key.1 store.coin other)
  have balance : (s.stores.find? (coinType, account)).elim 0
      (fun store => only coinType store.coin other) =
        only coinType (s.coinBalance coinType account) other := by
    rw [coinBalance]
    cases s.stores.find? (coinType, account) with
    | none => exact (congrFun (only_zero coinType) other).symm
    | some store => rfl
  have change := congrFun (congrArg (only coinType) moved) other
  rw [only_add, only_add, Pi.add_apply, Pi.add_apply] at change
  dsimp only at sum
  simp only [held, setStore]
  omega

theorem eraseStore_flow (found : s.stores.find? (coinType, account) = some store) :
    books.Flow s { s with stores := s.stores.erase (coinType, account) }
      0 (Coin.worth ⟨coinType, store.coin⟩) := by
  rw [← worth_zero coinType]
  refine flow_of_stores rfl rfl fun other => ?_
  have sum := Table.sum_erase (f := fun key store => only key.1 store.coin other) found
  dsimp only at sum
  simp only [held, only_zero, Pi.zero_apply]
  omega

/-! ## Minting and burning -/

/-- Other information on one type.  Without a tracked supply there is nothing to show. -/
theorem flow_of_info {info : CoinInfo} (stores : s'.stores = s.stores)
    (fungible : s'.fungible = s.fungible) (here : s'.infos coinType = some info)
    (others : ∀ other, other ≠ coinType → s'.infos other = s.infos other)
    (tracked : s.Tidy → ∀ supply, info.supply = some supply → supply.read ≤ supply.limit ∧
      ∃ before, s.recorded (.coin coinType) = some before ∧ supply.read + taken = before + given) :
    books.Flow s s' (Coin.worth ⟨coinType, taken⟩) (Coin.worth ⟨coinType, given⟩) := by
  intro tidy
  have sameHeld : ∀ token, s'.held token = s.held token := by
    intro token
    cases token with
    | coin other => rw [held, held, stores]
    | asset metadata => rw [held, held, fungible]
  refine ⟨⟨fungible ▸ tidy.fungible, ?_⟩, fun token after found => ?_⟩
  · intro other info' supply known there
    by_cases same : other = coinType
    · subst same
      cases here.symm.trans known
      exact (tracked tidy supply there).1
    · exact tidy.limited other info' supply (others other same ▸ known) there
  change s'.recorded token = some after at found
  change ∃ before, s.recorded token = some before ∧
    after + s.held token + _ = before + s'.held token + _
  rw [sameHeld]
  by_cases same : token = .coin coinType
  · subst same
    rw [recorded, here, elim_some, map_eq_some_iff] at found
    obtain ⟨supply, there, rfl⟩ := found
    obtain ⟨-, before, recorded, moved⟩ := tracked tidy supply there
    refine ⟨before, recorded, ?_⟩
    rw [worth_coin, worth_coin, only, only, if_pos rfl, if_pos rfl]
    dsimp only
    omega
  · refine ⟨after, ?_, ?_⟩
    · cases token with
      | coin other => rwa [recorded, others other fun eq => same (congrArg _ eq)] at found
      | asset metadata => rwa [recorded, fungible] at found
    · rw [Coin.worth, Coin.worth, only, only, if_neg same, if_neg same]

theorem changeSupply_flow {change : OptionalAggregator → Checked OptionalAggregator}
    (changes : ∀ supply supply', change supply = .ok supply' → supply.read ≤ supply.limit →
      supply'.read ≤ supply'.limit ∧ supply'.read + taken = supply.read + given)
    (ok : s.changeSupply coinType change = .ok s') :
    books.Flow s s' (Coin.worth ⟨coinType, taken⟩) (Coin.worth ⟨coinType, given⟩) ∧
      ∃ infos, s' = { s with infos } := by
  unfold changeSupply at ok
  simp only [bind_eq_ok, borrow_eq_ok] at ok
  obtain ⟨info, known, ok⟩ := ok
  split at ok
  · rename_i tracked
    cases ok
    refine ⟨flow_of_info rfl rfl known (fun _ _ => rfl) fun _ supply there => ?_, _, rfl⟩
    cases tracked.symm.trans there
  rename_i supply tracked
  obtain ⟨supply', changed, same⟩ := of_bind ok
  cases same
  refine ⟨flow_of_info rfl rfl (update_self _ _ _)
    (fun _ ne => update_of_ne ne _ _) fun tidy _ there => ?_, _, rfl⟩
  cases there
  obtain ⟨limited, moved⟩ := changes supply supply' changed (tidy.limited _ _ _ known tracked)
  refine ⟨limited, supply.read, ?_, moved⟩
  rw [recorded, known, elim_some, tracked, map_some]

theorem mintInternal_flow (ok : s.mintInternal coinType amount = .ok (coin, s')) :
    coin = ⟨coinType, amount⟩ ∧ books.Flow s s' 0 coin.worth := by
  unfold mintInternal at ok
  split at ok
  · rename_i zero
    cases ok
    rw [worth_eq_zero rfl]
    exact ⟨by rw [zero], .refl s⟩
  · obtain ⟨s₁, changed, same⟩ := of_bind ok
    cases same
    rw [← worth_zero coinType]
    refine ⟨rfl, (changeSupply_flow (fun supply supply' added _ => ?_) changed).1⟩
    obtain ⟨read, limited⟩ := OptionalAggregator.add_ok added
    exact ⟨limited, read⟩

theorem burnInternal_flow {burnt : Nat} (ok : s.burnInternal coin = .ok (burnt, s')) :
    books.Flow s s' coin.worth 0 ∧ ∃ infos, s' = { s with infos } := by
  unfold burnInternal at ok
  split at ok
  · rename_i zero
    cases ok
    rw [worth_eq_zero zero]
    exact ⟨.refl s, _, rfl⟩
  · obtain ⟨s₁, changed, same⟩ := of_bind ok
    cases same
    rw [← worth_zero coin.coinType]
    refine changeSupply_flow (fun supply supply' taken limited => ?_) changed
    obtain ⟨read, limit⟩ := OptionalAggregator.sub_ok taken
    exact ⟨by omega, read⟩

/-! ## Pairing and converting -/

/-- The asset that is made for a coin type. -/
def pairedAddress (env : CoinEnv) (coinType : TypeInfo) : Address :=
  if coinType = creditChainCoin then creditchainFungibleAsset else env.namedObjectAddress coinType

/-- The stores are the same, a pairing is kept, and a new one is with the asset that is made. -/
structure Untouched (env : CoinEnv) (coinType : TypeInfo) (s s' : CoinState) : Prop where
  stores : s'.stores = s.stores
  objects : s'.fungible.objects = s.fungible.objects
  paired : ∀ m, s.pairedMetadata env coinType = some m → s'.pairedMetadata env coinType = some m
  made : ∀ m, s'.pairedMetadata env coinType = some m → s.pairedMetadata env coinType = none →
    m = pairedAddress env coinType

theorem Untouched.refl (s : CoinState) : Untouched env coinType s s where
  stores := rfl
  objects := rfl
  paired := fun _ => id
  made := fun _ found none => absurd (none.symm.trans found) nofun

theorem createAndReturnPairedMetadataIfNotExist_flow {allow : Bool}
    (ok : s.createAndReturnPairedMetadataIfNotExist env coinType allow = .ok (m, s')) :
    books.Flow s s' 0 0 ∧ Untouched env coinType s s' ∧
      s'.pairedMetadata env coinType = some m := by
  unfold createAndReturnPairedMetadataIfNotExist at ok
  simp only [bind_eq_ok, ensure_eq_ok, orAbort_eq_ok] at ok
  obtain ⟨_, enabled, map, mapped, ok⟩ := ok
  split at ok
  · rename_i known
    cases ok
    exact ⟨.refl s, .refl s, by simp [pairedMetadata, enabled, mapped, known]⟩
  rename_i known
  simp only [createPairedMetadata, bind_eq_ok] at ok
  obtain ⟨_, -, fungible₁, object, _, -, fungible₂, added, _, -, _, -, same⟩ := ok
  cases same
  obtain ⟨flow, objects⟩ := createPrimaryStoreEnabledFungibleAsset_flow added
  have both := (createObject_flow object).after flow
  cases of_check object
  refine ⟨(flow_of_asset both).after (flow_of_same rfl rfl rfl), ⟨rfl, objects, ?_, ?_⟩, ?_⟩
  · intro m found
    simp [pairedMetadata, enabled, mapped, known] at found
  · intro m found _
    simpa [pairedMetadata, enabled, pairedAddress, eq_comm] using found
  · simp [pairedMetadata, enabled]

theorem ensurePairedMetadata_flow (ok : s.ensurePairedMetadata env coinType = .ok (m, s')) :
    books.Flow s s' 0 0 ∧ Untouched env coinType s s' ∧
      s'.pairedMetadata env coinType = some m := createAndReturnPairedMetadataIfNotExist_flow ok

theorem createPairing_flow (ok : s.createPairing env account coinType = .ok s') :
    books.Flow s s' 0 0 := by
  have ok := of_check ok
  obtain ⟨⟨m, s₁⟩, paired, rfl⟩ := of_return ok
  exact (createAndReturnPairedMetadataIfNotExist_flow paired).1

theorem coinToFungibleAsset_flow (ok : s.coinToFungibleAsset env coin = .ok (fa, s')) :
    books.Flow s s' coin.worth fa.worth ∧ Untouched env coin.coinType s s' := by
  obtain ⟨⟨metadata, s₁⟩, paired, ok⟩ := of_bind ok
  obtain ⟨⟨burnt, s₂⟩, burning, ok⟩ := of_bind ok
  obtain ⟨⟨fa', fungible⟩, minting, same⟩ := of_bind ok
  cases same
  obtain ⟨pairs, untouched, -⟩ := ensurePairedMetadata_flow paired
  obtain ⟨burns, infos, rfl⟩ := burnInternal_flow burning
  obtain ⟨-, mints, objects⟩ := FungibleState.mintInternal_flow minting
  exact ⟨pairs.after (burns.through (flow_of_asset_given mints)),
    untouched.stores, objects.trans untouched.objects, untouched.paired, untouched.made⟩

theorem fungibleAssetToCoin_flow (ok : s.fungibleAssetToCoin coinType fa = .ok (coin, s')) :
    coin.coinType = coinType ∧ books.Flow s s' fa.worth coin.worth := by
  unfold fungibleAssetToCoin at ok
  simp only [bind_eq_ok] at ok
  obtain ⟨_, -, _, -, _, -, ⟨burnt, fungible⟩, burning, minting⟩ := ok
  obtain ⟨rfl, minted⟩ := mintInternal_flow minting
  exact ⟨rfl, (flow_of_asset_taken (FungibleState.burnInternal_flow burning).2).through minted⟩

/-! ## References -/

theorem returnPairedRef_flow {ref receipt mismatch : Nat}
    {slot : PairedFungibleAssetRefs → Option Address}
    {fill : PairedFungibleAssetRefs → Address → PairedFungibleAssetRefs}
    (ok : s.returnPairedRef ref receipt mismatch slot fill = .ok s') : books.Flow s s' 0 0 := by
  unfold returnPairedRef at ok
  simp only [bind_eq_ok] at ok
  obtain ⟨_, -, refs, -, _, -, same⟩ := ok
  cases same
  exact flow_of_same rfl rfl rfl

/-! ## Stores -/

theorem assertSignerHasPermission_flow
    (ok : s.assertSignerHasPermission env coinType account = .ok s') :
    books.Flow s s' 0 0 ∧ Untouched env coinType s s' := by
  unfold assertSignerHasPermission at ok
  split at ok
  · simp only [bind_eq_ok] at ok
    obtain ⟨⟨m, s₁⟩, paired, _, -, same⟩ := ok
    cases same
    obtain ⟨flow, untouched, -⟩ := ensurePairedMetadata_flow paired
    exact ⟨flow, untouched⟩
  · cases ok
    exact ⟨.refl s, .refl s⟩

theorem isAccountRegistered_flow {registered : Bool}
    (ok : s.isAccountRegistered env coinType account = .ok (registered, s')) :
    books.Flow s s' 0 0 := by
  have ok := of_check ok
  split at ok
  · cases ok
    exact .refl s
  · obtain ⟨⟨m, s₁⟩, paired, same⟩ := of_bind ok
    cases same
    exact (ensurePairedMetadata_flow paired).1

theorem initializeInternal_flow {name symbol : List UInt8} {decimals : Nat}
    {monitorSupply parallelizable : Bool}
    (ok : s.initializeInternal env account coinType name symbol decimals monitorSupply
      parallelizable = .ok s') : books.Flow s s' 0 0 := by
  unfold initializeInternal at ok
  simp only [bind_eq_ok, ensure_eq_ok] at ok
  obtain ⟨s₁, asserted, _, -, _, new, _, -, _, -, _, -, same⟩ := ok
  cases same
  refine (assertSignerHasPermission_flow asserted).1.after ?_
  rw [← worth_zero coinType]
  refine flow_of_info rfl rfl (update_self _ _ _)
    (fun _ ne => update_of_ne ne _ _) fun _ supply tracked => ?_
  rw [isNone_iff_eq_none] at new
  split at tracked
  · simp only [some.injEq] at tracked
    rw [← tracked, OptionalAggregator.read_new]
    exact ⟨Nat.zero_le _, 0, by rw [recorded, new, elim_none], rfl⟩
  · cases tracked

theorem register_flow (ok : s.register env account coinType = .ok s') : books.Flow s s' 0 0 := by
  obtain ⟨s₁, asserted, ok⟩ := of_bind ok
  obtain ⟨⟨registered, s₂⟩, looked, ok⟩ := of_bind ok
  refine (assertSignerHasPermission_flow asserted).1.after ((isAccountRegistered_flow looked).after ?_)
  cases registered with
  | true =>
    cases ok
    exact .refl s'
  | false =>
    simp only [Bool.false_eq_true, if_false, bind_eq_ok, ensure_eq_ok, isNone_iff_eq_none] at ok
    obtain ⟨_, free, same⟩ := ok
    cases same
    rw [← worth_zero coinType]
    refine setStore_flow ?_
    rw [coinBalance, free]
    rfl

variable {frozen asObject : Bool}

theorem setFrozen_flow (ok : s.setFrozen coinType account frozen = .ok s') :
    books.Flow s s' 0 0 := by
  unfold setFrozen at ok
  simp only [bind_eq_ok, borrow_eq_ok] at ok
  obtain ⟨store, found, same⟩ := ok
  cases same
  rw [← worth_zero coinType]
  refine setStore_flow ?_
  rw [coinBalance, found]
  rfl

/-! ## Deposits -/

theorem depositIntoStore_flow (found : s.stores.find? (coin.coinType, account) = some store)
    (ok : s.depositIntoStore account store coin = .ok s') : books.Flow s s' coin.worth 0 := by
  unfold depositIntoStore Coin.merge at ok
  simp only [bind_eq_ok, add_eq_ok] at ok
  obtain ⟨_, ⟨_, ⟨-, rfl⟩, merged⟩, same⟩ := ok
  cases merged
  cases same
  rw [← worth_zero coin.coinType]
  refine setStore_flow ?_
  rw [coinBalance, found]
  rfl

theorem depositPaired_flow {put : FungibleState → FungibleAsset → Checked FungibleState}
    (puts : ∀ {f fa f'}, put f fa = .ok f' →
      FungibleState.books.Flow f f' (only fa.metadata fa.amount) 0)
    (ok : s.depositPaired env account coin put = .ok s') : books.Flow s s' coin.worth 0 := by
  obtain ⟨⟨metadata, s₁⟩, paired, ok⟩ := of_bind ok
  dsimp only at ok
  split at ok
  · simp only [bind_eq_ok] at ok
    obtain ⟨⟨fa, s₂⟩, converted, fungible, deposited, same⟩ := ok
    cases same
    exact (ensurePairedMetadata_flow paired).1.after
      ((coinToFungibleAsset_flow converted).1.through (flow_of_asset_taken (puts deposited)))
  · cases ok

theorem deposit_flow (ok : s.deposit env account coin = .ok s') : books.Flow s s' coin.worth 0 := by
  unfold deposit at ok
  split at ok
  · rename_i found
    exact depositIntoStore_flow found (of_check ok)
  · exact depositPaired_flow primaryDeposit_flow ok

theorem depositWithSigner_flow (ok : s.depositWithSigner env account coin = .ok s') :
    books.Flow s s' coin.worth 0 := by
  obtain ⟨⟨m, s₁⟩, paired, deposited⟩ := of_bind ok
  exact (ensurePairedMetadata_flow paired).1.after (deposit_flow deposited)

theorem depositForGasFee_flow (ok : s.depositForGasFee env account coin = .ok s') :
    books.Flow s s' coin.worth 0 := by
  unfold depositForGasFee at ok
  split at ok
  · rename_i found
    exact depositIntoStore_flow found ok
  · refine depositPaired_flow (fun put => ?_) ok
    obtain ⟨_, ensured, deposited⟩ := of_bind put
    exact (ensurePrimaryStoreExists_flow ensured).1.after (uncheckedDeposit_flow deposited).1

/-! ## Withdrawals -/

theorem extractFromStore_flow (found : s.stores.find? (coinType, account) = some store)
    (ok : s.extractFromStore coinType account store amount = .ok (coin, s')) :
    coin.coinType = coinType ∧ books.Flow s s' 0 coin.worth := by
  unfold extractFromStore Coin.extract at ok
  simp only [bind_eq_ok, ensure_eq_ok] at ok
  obtain ⟨⟨left, extracted⟩, ⟨_, enough, parts⟩, same⟩ := ok
  cases parts
  cases same
  refine ⟨rfl, ?_⟩
  rw [← worth_zero coinType]
  refine setStore_flow ?_
  rw [coinBalance, found]
  exact (Nat.sub_add_cancel enough).symm

theorem withdrawFromStore_flow
    (ok : s.withdrawFromStore env account coinType amount = .ok (coin, s')) :
    coin.coinType = coinType ∧ books.Flow s s' 0 coin.worth := by
  unfold withdrawFromStore at ok
  split at ok
  · simp only [bind_eq_ok, borrow_eq_ok] at ok
    obtain ⟨⟨metadata, s₁⟩, paired, _, -, store, found, _, -, extracted⟩ := ok
    obtain ⟨type, flow⟩ := extractFromStore_flow found extracted
    exact ⟨type, (ensurePairedMetadata_flow paired).1.after flow⟩
  · cases ok
    rw [worth_zero]
    exact ⟨rfl, .refl s⟩

theorem worth_merge {rest merged : Coin} (type : rest.coinType = coin.coinType)
    (ok : coin.merge rest = .ok merged) :
    merged.coinType = coin.coinType ∧ merged.worth = coin.worth + rest.worth := by
  unfold Coin.merge at ok
  simp only [bind_eq_ok, add_eq_ok] at ok
  obtain ⟨_, ⟨-, rfl⟩, same⟩ := ok
  cases same
  refine ⟨rfl, ?_⟩
  rw [Coin.worth, Coin.worth, Coin.worth, type, only_add]

/-- What was withdrawn before is outside, and becomes a part of what is withdrawn. -/
theorem withdrawFromPrimary_flow {withdrawn : Coin} (type : withdrawn.coinType = coinType)
    (ok : s.withdrawFromPrimary env account coinType amount withdrawn = .ok (coin, s')) :
    coin.coinType = coinType ∧ books.Flow s s' withdrawn.worth coin.worth := by
  unfold withdrawFromPrimary at ok
  split at ok
  · simp only [bind_eq_ok] at ok
    obtain ⟨m, -, ⟨fa, fungible⟩, taken, ⟨rest, s₁⟩, converted, _, merged, same⟩ := ok
    cases same
    obtain ⟨restType, flow⟩ := fungibleAssetToCoin_flow converted
    obtain ⟨wholeType, whole⟩ := worth_merge (restType.trans type.symm) merged
    refine ⟨wholeType.trans type, ?_⟩
    rw [whole]
    exact ((flow_of_asset_given (primaryWithdraw_flow taken)).through flow).beside _
  · cases ok
    exact ⟨type, .pass s coin.worth⟩

theorem withdraw_flow (ok : s.withdraw env account coinType amount = .ok (coin, s')) :
    coin.coinType = coinType ∧ books.Flow s s' 0 coin.worth := by
  obtain ⟨⟨coinAmount, faAmount⟩, -, ok⟩ := of_bind ok
  obtain ⟨⟨withdrawn, s₁⟩, first, second⟩ := of_bind ok
  obtain ⟨type, flow⟩ := withdrawFromStore_flow first
  obtain ⟨type', flow'⟩ := withdrawFromPrimary_flow type second
  exact ⟨type', flow.through flow'⟩

theorem transfer_flow {sender recipient : Address}
    (ok : s.transfer env sender recipient coinType amount = .ok s') : books.Flow s s' 0 0 := by
  obtain ⟨⟨coin, s₁⟩, withdrawn, deposited⟩ := of_bind ok
  exact (withdraw_flow withdrawn).2.through (deposit_flow deposited)

/-! ## Burning from an account -/

theorem burnFromStore_flow (ok : s.burnFromStore account coinType amount = .ok s') :
    books.Flow s s' 0 0 := by
  unfold burnFromStore at ok
  split at ok
  · simp only [bind_eq_ok, borrow_eq_ok] at ok
    obtain ⟨store, found, ⟨coin, s₁⟩, extracted, ⟨burnt, s₂⟩, burning, same⟩ := ok
    cases same
    exact (extractFromStore_flow found extracted).2.through (burnInternal_flow burning).1
  · cases ok
    exact .refl s

theorem burnFromPrimary_flow
    (ok : s.burnFromPrimary env account coinType amount asObject = .ok s') :
    books.Flow s s' 0 0 := by
  unfold burnFromPrimary at ok
  split at ok
  · simp only [bind_eq_ok] at ok
    obtain ⟨_, -, metadata, -, _, -, fungible, burnt, same⟩ := ok
    cases same
    exact flow_of_asset (burnFrom_flow burnt)
  · cases ok
    exact .refl s

theorem burnFromWith_flow (ok : s.burnFromWith env account coinType amount asObject = .ok s') :
    books.Flow s s' 0 0 := by
  unfold burnFromWith at ok
  split at ok
  · cases ok
    exact .refl s
  · simp only [bind_eq_ok] at ok
    obtain ⟨⟨coinAmount, faAmount⟩, -, s₁, first, second⟩ := ok
    exact (burnFromStore_flow first).after (burnFromPrimary_flow second)

/-! ## Migration -/

theorem alignFrozen_flow {fungible' : FungibleState} {primary : Address}
    (ok : alignFrozen fungible primary frozen = .ok fungible') :
    FungibleState.books.Flow fungible fungible' 0 0 ∧ Elsewhere primary fungible fungible' ∧
      fungible'.isFrozen primary = frozen := by
  unfold alignFrozen at ok
  split at ok
  · obtain ⟨flow, elsewhere⟩ := setFrozenFlagInternal_flow ok
    obtain ⟨_, -, same⟩ := of_bind ok
    cases same
    refine ⟨flow, elsewhere, ?_⟩
    rw [isFrozen, object_setObject_self]
    rfl
  · rename_i same
    cases ok
    exact ⟨.refl fungible, fun _ _ => rfl, (not_not.mp same).symm⟩

theorem convertStore_flow (ok : s.convertStore env coinType account store = .ok s') :
    books.Flow s s' (Coin.worth ⟨coinType, store.coin⟩) 0 := by
  unfold convertStore at ok
  split at ok
  · simp only [bind_eq_ok] at ok
    obtain ⟨⟨m, s₁⟩, paired, fungible₁, ensured, ⟨fa, s₂⟩, converted, fungible₂, deposited,
      fungible₃, aligned, same⟩ := ok
    cases same
    have prepared := (ensurePairedMetadata_flow paired).1.after
      (flow_of_asset (ensurePrimaryStoreExists_flow ensured).1)
    have placed := (uncheckedDeposit_flow deposited).1.before (alignFrozen_flow aligned).1
    exact prepared.after ((coinToFungibleAsset_flow converted).1.through
      (flow_of_asset_taken placed))
  · simp only [bind_eq_ok, Coin.destroyZero, ensure_eq_ok] at ok
    obtain ⟨_, zero, same⟩ := ok
    cases same
    rw [worth_eq_zero zero]
    exact .refl s

theorem maybeConvertToFungibleStore_flow
    (ok : s.maybeConvertToFungibleStore env coinType account = .ok s') : books.Flow s s' 0 0 := by
  have ok := of_check ok
  split at ok
  · cases ok
    exact .refl s
  · rename_i found
    exact (eraseStore_flow found).through (convertStore_flow ok)

theorem migrateToFungibleStore_flow
    (ok : s.migrateToFungibleStore env account coinType = .ok s') : books.Flow s s' 0 0 := by
  obtain ⟨s₁, asserted, converted⟩ := of_bind ok
  exact (assertSignerHasPermission_flow asserted).1.after
    (maybeConvertToFungibleStore_flow converted)

theorem migrateCoinStoreToFungibleStore_flow {accounts : List Address}
    (ok : s.migrateCoinStoreToFungibleStore env coinType accounts = .ok s') :
    books.Flow s s' 0 0 := by
  unfold migrateCoinStoreToFungibleStore at ok
  split at ok
  · induction accounts generalizing s with
    | nil =>
      cases ok
      exact .refl _
    | cons account rest ih =>
      obtain ⟨s₁, converted, ok⟩ := of_bind ok
      exact (maybeConvertToFungibleStore_flow converted).after (ih ok)
  · cases ok
    exact .refl s

end CoinState

end CreditChain
