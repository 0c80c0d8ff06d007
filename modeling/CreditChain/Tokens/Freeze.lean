import CreditChain.Tokens.Conservation

/-!
# Freezes and migration

A coin store and the primary store of the paired asset are frozen apart from each other.  The
migration of a coin store that is not empty gives its flag to the primary store, over the flag that
is there; an empty coin store is removed with its flag.

* `migration_keeps_freeze`: which freezes are left after a migration, and no others.
* `Migration.freeze_undone`: one that is not.
-/

namespace CreditChain

open FungibleState Function
open CreditChain.Except (bind_eq_ok)

namespace CoinState

variable {env : CoinEnv} {s s' : CoinState} {coinType : TypeInfo} {account a : Address}

/-- The primary store of the paired asset is there, and frozen. -/
def PrimaryFrozen (env : CoinEnv) (s : CoinState) (coinType : TypeInfo) (account : Address) :
    Prop :=
  ∃ m, s.pairedMetadata env coinType = some m ∧
    s.fungible.isFrozen (env.userDerivedObjectAddress account m) = true

/-- The flag that a migration leaves to the primary store is set: the one of a coin store with
coins, or else the one that the primary store has. -/
def FreezeCarried (env : CoinEnv) (s : CoinState) (coinType : TypeInfo) (account : Address) : Prop :=
  match s.stores.find? (coinType, account) with
  | some store =>
    if 0 < store.coin then store.frozen = true else s.PrimaryFrozen env coinType account
  | none => s.PrimaryFrozen env coinType account

/-- An asset that is still to be made has no frozen store. -/
def Fresh (env : CoinEnv) (s : CoinState) (coinType : TypeInfo) (account : Address) : Prop :=
  s.pairedMetadata env coinType = none →
    s.fungible.isFrozen (env.userDerivedObjectAddress account (pairedAddress env coinType)) = false

theorem carried_of_none (none : s.stores.find? (coinType, account) = none) :
    s.FreezeCarried env coinType account ↔ s.PrimaryFrozen env coinType account := by
  rw [FreezeCarried, none]

/-- With the same coin store and the same primary flag the same is carried. -/
theorem carried_congr
    (stores : s'.stores.find? (coinType, account) = s.stores.find? (coinType, account))
    (frozen : s'.PrimaryFrozen env coinType account ↔ s.PrimaryFrozen env coinType account) :
    s'.FreezeCarried env coinType account ↔ s.FreezeCarried env coinType account := by
  rw [FreezeCarried, FreezeCarried, stores]
  split
  · split
    · rfl
    · exact frozen
  · exact frozen

/-- A step that leaves the store leaves its flag, also if it makes the asset. -/
theorem primaryFrozen_congr (fresh : s.Fresh env coinType account)
    (paired : ∀ m, s.pairedMetadata env coinType = some m → s'.pairedMetadata env coinType = some m)
    (made : ∀ m, s'.pairedMetadata env coinType = some m → s.pairedMetadata env coinType = none →
      m = pairedAddress env coinType)
    (same : ∀ m, s'.pairedMetadata env coinType = some m →
      s'.fungible.isFrozen (env.userDerivedObjectAddress account m) =
        s.fungible.isFrozen (env.userDerivedObjectAddress account m)) :
    s'.PrimaryFrozen env coinType account ↔ s.PrimaryFrozen env coinType account := by
  constructor
  · rintro ⟨m, found, frozen⟩
    rw [same m found] at frozen
    cases before : s.pairedMetadata env coinType with
    | some m' =>
      cases found.symm.trans (paired m' before)
      exact ⟨m, before, frozen⟩
    | none =>
      rw [made m found before, fresh before] at frozen
      cases frozen
  · rintro ⟨m, found, frozen⟩
    exact ⟨m, paired m found, (same m (paired m found)).trans frozen⟩

theorem object_congr {f f' : FungibleState} (same : f'.objects = f.objects) (a : Address) :
    f'.object a = f.object a := by
  rw [object, same]
  rfl

theorem Untouched.frozen (untouched : Untouched env coinType s s')
    (fresh : s.Fresh env coinType account) : s'.Fresh env coinType account ∧
      (s'.PrimaryFrozen env coinType account ↔ s.PrimaryFrozen env coinType account) := by
  have same : ∀ primary, s'.fungible.isFrozen primary = s.fungible.isFrozen primary := by
    intro primary
    rw [isFrozen, object_congr untouched.objects]
    rfl
  refine ⟨fun none => ?_, primaryFrozen_congr fresh untouched.paired untouched.made fun m _ => same _⟩
  rw [same]
  cases before : s.pairedMetadata env coinType with
  | none => exact fresh before
  | some m => cases none.symm.trans (untouched.paired m before)

section

variable (apart : ∀ m, Injective (env.userDerivedObjectAddress · m))
  (fresh : s.Fresh env coinType account)

include apart fresh

/-- A migration that moves coins gives their flag to its own primary store, and leaves all other
flags. -/
theorem convertStore_frozen {store : CoinStore}
    (ok : s.convertStore env coinType a store = .ok s') :
    s'.stores = s.stores ∧ s'.Fresh env coinType account ∧
      (s'.PrimaryFrozen env coinType account ↔ if account = a ∧ 0 < store.coin then
        store.frozen = true else s.PrimaryFrozen env coinType account) := by
  unfold convertStore at ok
  split at ok
  · rename_i there
    simp only [bind_eq_ok] at ok
    obtain ⟨⟨m, s₁⟩, pairing, fungible₁, ensured, ⟨fa, s₂⟩, converted, fungible₂, deposited,
      fungible₃, aligned, same⟩ := ok
    cases same
    obtain ⟨-, first, paired⟩ := ensurePairedMetadata_flow pairing
    obtain ⟨-, second⟩ := coinToFungibleAsset_flow converted
    obtain ⟨-, others, flag⟩ := alignFrozen_flow aligned
    have now : s₂.pairedMetadata env coinType = some m := second.paired m paired
    refine ⟨second.stores.trans first.stores, fun none => absurd (none.symm.trans now) nofun, ?_⟩
    by_cases own : account = a
    · subst own
      rw [if_pos ⟨rfl, there.2⟩, ← flag]
      constructor
      · rintro ⟨m', found, frozen⟩
        cases now.symm.trans found
        exact frozen
      · exact fun frozen => ⟨m, now, frozen⟩
    rw [if_neg fun both => own both.1]
    refine primaryFrozen_congr fresh (fun m' found => second.paired m' (first.paired m' found))
      (fun m' found => first.made m' (paired.trans (now.symm.trans found))) fun m' found => ?_
    cases now.symm.trans found
    have ne : env.userDerivedObjectAddress account m ≠ env.userDerivedObjectAddress a m :=
      fun same => own (apart m same)
    rw [isFrozen, others _ ne, (uncheckedDeposit_flow deposited).2 _ ne,
      object_congr second.objects, (ensurePrimaryStoreExists_flow ensured).2 _ ne,
      object_congr first.objects]
    rfl
  · obtain ⟨_, zero, same⟩ := of_bind ok
    cases same
    have zero : store.coin = 0 := ensure_eq_ok.mp zero
    refine ⟨rfl, fresh, ?_⟩
    rw [if_neg fun both => both.2.ne' zero]

/-- The migration of one account, for this account and all others. -/
theorem maybeConvertToFungibleStore_frozen
    (ok : s.maybeConvertToFungibleStore env coinType a = .ok s') :
    s'.Fresh env coinType account ∧
      (s'.stores.find? (coinType, account) =
        if account = a then none else s.stores.find? (coinType, account)) ∧
      (s'.PrimaryFrozen env coinType account ↔ if account = a then
        s.FreezeCarried env coinType account else s.PrimaryFrozen env coinType account) := by
  have ok := of_check ok
  split at ok
  · rename_i found
    cases ok
    refine ⟨fresh, ?_⟩
    split_ifs with same
    · subst same
      exact ⟨found, (carried_of_none found).symm⟩
    · exact ⟨rfl, .rfl⟩
  · rename_i store found
    obtain ⟨stores, fresh', flag⟩ := convertStore_frozen apart
      (s := { s with stores := s.stores.erase (coinType, a) }) fresh ok
    refine ⟨fresh', by rw [stores, Table.find?_erase]; simp, flag.trans ?_⟩
    by_cases same : account = a
    · subst same
      simp only [true_and, if_true, FreezeCarried, found]
      rfl
    · simp only [same, false_and, if_false]
      rfl

theorem migrate_frozen {accounts : List Address}
    (ok : accounts.foldlM (fun s a => s.maybeConvertToFungibleStore env coinType a) s = .ok s') :
    s'.PrimaryFrozen env coinType account ↔ if account ∈ accounts then
      s.FreezeCarried env coinType account else s.PrimaryFrozen env coinType account := by
  induction accounts generalizing s with
  | nil =>
    cases ok
    rw [if_neg List.not_mem_nil]
  | cons a rest ih =>
    obtain ⟨s₁, converted, ok⟩ := of_bind ok
    obtain ⟨fresh₁, stores, flag⟩ := maybeConvertToFungibleStore_frozen apart fresh converted
    rw [ih fresh₁ ok]
    by_cases same : account = a
    · -- the account has no coin store any more, and is not migrated again
      subst same
      rw [if_pos rfl] at stores flag
      rw [if_pos List.mem_cons_self, carried_of_none stores, ite_self]
      exact flag
    · rw [if_neg same] at stores flag
      simp only [List.mem_cons, same, false_or, carried_congr stores flag, flag]

/-- **Freezes after a migration**, of one's own coin store or of any accounts' coin stores. -/
theorem migration_keeps_freeze :
    (s.migrateToFungibleStore env account coinType = .ok s' →
      (s'.PrimaryFrozen env coinType account ↔ s.FreezeCarried env coinType account)) ∧
    ∀ accounts, s.migrateCoinStoreToFungibleStore env coinType accounts = .ok s' →
      (s'.PrimaryFrozen env coinType account ↔
        if account ∈ accounts ∧ (env.newAccountsDefaultToFaStoreEnabled ||
          env.newAccountsDefaultToFaAptStoreEnabled) = true then
            s.FreezeCarried env coinType account
        else s.PrimaryFrozen env coinType account) := by
  constructor
  · intro ok
    obtain ⟨s₁, asserted, ok⟩ := of_bind ok
    obtain ⟨-, untouched⟩ := assertSignerHasPermission_flow asserted
    obtain ⟨fresh₁, frozen⟩ := untouched.frozen fresh
    have flag := (maybeConvertToFungibleStore_frozen apart fresh₁ ok).2.2
    rw [if_pos rfl] at flag
    exact flag.trans (carried_congr (by rw [untouched.stores]) frozen)
  · intro accounts ok
    unfold migrateCoinStoreToFungibleStore at ok
    split at ok
    · rename_i enabled
      simp only [enabled, and_true]
      exact migrate_frozen apart fresh ok
    · rename_i disabled
      cases ok
      rw [if_neg fun both => disabled both.2]

end

end CoinState

namespace Migration

/-- An account with 60 coins in its coin store and 40 in its primary store, one of which `freeze`
freezes, before and after the migration. -/
def frozen (freeze : CoinState → Checked CoinState) : Checked (CoinState × CoinState) := do
  let s ← CoinState.empty.createCoinConversionMap creditchainFramework
  let s ← s.initializeCoin env 7 goldType [103] [71] 8 true
  let (minted, s) ← s.mintInternal goldType 100
  let s ← s.register env 5 goldType
  let (left, part) ← minted.extract 40
  let s ← s.deposit env 5 left
  let (fa, s) ← s.coinToFungibleAsset env part
  let fungible ← s.fungible.primaryDeposit env.toFungibleEnv 5 fa
  let s ← freeze { s with fungible }
  let s' ← s.migrateToFungibleStore env 5 goldType
  return (s, s')

/-- The coin store, and whether the primary store is frozen. -/
def flags (s : CoinState) : Option CoinStore × Bool :=
  (s.stores.find? (goldType, 5), s.fungible.isFrozen (1000 * gold + 5))

theorem freeze_undone : (frozen fun s => do
      let fungible ← s.fungible.setFrozenFlag gold (1000 * gold + 5) true
      return { s with fungible }).map (fun run => (flags run.1, flags run.2)) =
    .ok ((some ⟨60, false⟩, true), (none, false)) := by
  decide +kernel

theorem freeze_kept : ∃ s s', frozen (·.freezeCoinStore goldType 5) = .ok (s, s') ∧
    s'.PrimaryFrozen env goldType 5 := by
  have seen : (frozen (·.freezeCoinStore goldType 5)).map (fun run =>
      (flags run.1, run.1.pairedMetadata env goldType)) =
      .ok ((some ⟨60, true⟩, false), some gold) := by
    decide +kernel
  obtain ⟨⟨s, s'⟩, done, seen⟩ := Except.map_eq_ok.mp seen
  obtain ⟨flagged, paired⟩ := Prod.mk.inj seen
  have found : s.stores.find? (goldType, 5) = some ⟨60, true⟩ := congrArg Prod.fst flagged
  refine ⟨s, s', done, ?_⟩
  simp only [frozen, bind_eq_ok] at done
  obtain ⟨_, -, _, -, _, -, _, -, _, -, _, -, _, -, _, -, _, -, _, migrated, same⟩ := done
  cases same
  refine ((CoinState.migration_keeps_freeze (fun m _ _ => Nat.add_left_cancel) ?_).1 migrated).mpr ?_
  · exact fun none => absurd (none.symm.trans paired) nofun
  · rw [CoinState.FreezeCarried, found]
    rfl

end Migration

end CreditChain
