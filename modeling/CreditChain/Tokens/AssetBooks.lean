import CreditChain.Lib.Books
import CreditChain.Tokens.FungibleAsset

/-!
# The books of the fungible assets

The supply of an asset is what its stores hold, as a plain balance or in an aggregator, and what is
outside all stores.  Every function of the module keeps the books: the lemma `f_flow` says what the
function `f` takes and gives, and for some functions also which stores it leaves alone.
-/

namespace CreditChain

open Books Function Checked Option
open CreditChain.Except (bind_eq_ok)

variable {env : FungibleEnv} {s s' : FungibleState} {a m store : Address} {amount : Nat}
  {fa : FungibleAsset} {object object' : StoreObject}

/-! ## Aggregators -/

variable {aggregator aggregator' : Aggregator}

theorem Aggregator.tryAdd_eq_some :
    aggregator.tryAdd amount = some aggregator' ↔
      aggregator.value + amount ≤ aggregator.maxValue ∧
        aggregator' = ⟨aggregator.value + amount, aggregator.maxValue⟩ := by
  unfold tryAdd
  by_cases fits : aggregator.value + amount ≤ aggregator.maxValue
  · simp [eq_comm]
  · simp [fits]

theorem Aggregator.trySub_eq_some :
    aggregator.trySub amount = some aggregator' ↔ amount ≤ aggregator.value ∧
      aggregator' = ⟨aggregator.value - amount, aggregator.maxValue⟩ := by
  unfold trySub
  by_cases enough : amount ≤ aggregator.value
  · simp [eq_comm]
  · simp [enough]

@[simp] theorem Aggregator.add_eq_ok :
    aggregator.add amount = .ok aggregator' ↔ aggregator.value + amount ≤ aggregator.maxValue ∧
      aggregator' = ⟨aggregator.value + amount, aggregator.maxValue⟩ :=
  orAbort_eq_ok.trans tryAdd_eq_some

@[simp] theorem Aggregator.sub_eq_ok :
    aggregator.sub amount = .ok aggregator' ↔ amount ≤ aggregator.value ∧
      aggregator' = ⟨aggregator.value - amount, aggregator.maxValue⟩ :=
  orAbort_eq_ok.trans trySub_eq_some

/-! ## Stores -/

namespace StoreObject

/-- The balance of a store of the asset `m`. -/
def held (object : StoreObject) (m : Address) : Nat :=
  match object.store with
  | none => 0
  | some store => only store.metadata (store.balance + object.concurrentBalance.elim 0 (·.value)) m

/-- The balance is in one place, and an aggregator is never left behind. -/
structure Tidy (object : StoreObject) : Prop where
  apart : ∀ store aggregator, object.store = some store →
    object.concurrentBalance = some aggregator → store.balance = 0
  attached : object.store = none → object.concurrentBalance = none

theorem Tidy.empty : Tidy .empty where
  apart := by
    intro store aggregator found
    cases found
  attached := fun _ => rfl

variable {fungibleStore : FungibleStore}

theorem held_of_store (object : StoreObject)
    (found : object.store = some fungibleStore) (m : Address) :
    object.held m = only fungibleStore.metadata
      (fungibleStore.balance + object.concurrentBalance.elim 0 (·.value)) m := by
  rw [held, found]

theorem only_sum {k total part rest : Nat} (sum : total = part + rest) (m : Address) :
    only k total m = only k part m + only k rest m := by
  rw [sum, only_add]
  rfl

/-- With a plain balance, there is no aggregator. -/
theorem Tidy.holder_eq_none (tidy : object.Tidy)
    (found : object.store = some fungibleStore) (plain : object.holder fungibleStore = none) :
    object.concurrentBalance = none := by
  by_cases empty : fungibleStore.balance = 0
  · rwa [holder, if_pos empty] at plain
  · cases there : object.concurrentBalance with
    | none => rfl
    | some aggregator => exact absurd (tidy.apart _ _ found there) empty

theorem holder_eq_some (holds : object.holder fungibleStore = some aggregator) :
    fungibleStore.balance = 0 ∧ object.concurrentBalance = some aggregator := by
  unfold holder at holds
  split at holds
  · rename_i empty
    exact ⟨empty, holds⟩
  · cases holds

theorem Tidy.of_store (found : object.store = some fungibleStore)
    (apart : fungibleStore.balance = 0 ∨ object.concurrentBalance = none) : object.Tidy where
  apart := by
    intro _ _ here there
    cases found.symm.trans here
    exact apart.resolve_right fun none => by cases none.symm.trans there
  attached := by
    intro missing
    cases found.symm.trans missing

/-- A store with another balance, in the place where the balance was. -/
theorem Tidy.deposit (tidy : object.Tidy) (found : object.store = some fungibleStore)
    (ok : object.deposit fungibleStore amount = .ok object') :
    object'.Tidy ∧ ∀ m, object'.held m = object.held m + only fungibleStore.metadata amount m := by
  unfold StoreObject.deposit at ok
  split at ok
  · rename_i zero
    cases ok
    refine ⟨tidy, fun m => ?_⟩
    rw [zero, only_zero]
    rfl
  cases holds : object.holder fungibleStore with
  | some aggregator =>
    obtain ⟨empty, there⟩ := holder_eq_some holds
    simp only [holds, bind_eq_ok, Aggregator.add_eq_ok] at ok
    obtain ⟨_, ⟨-, rfl⟩, same⟩ := ok
    cases same
    refine ⟨.of_store found (.inl empty), fun m => ?_⟩
    rw [held_of_store { object with concurrentBalance := some _ } found,
      held_of_store object found, there]
    exact only_sum (add_assoc _ _ _).symm m
  | none =>
    have alone := tidy.holder_eq_none found holds
    simp only [holds, bind_eq_ok, add_eq_ok] at ok
    obtain ⟨_, ⟨-, rfl⟩, same⟩ := ok
    cases same
    refine ⟨.of_store rfl (.inr alone), fun m => ?_⟩
    rw [held_of_store object found]
    exact only_sum (add_right_comm _ _ _) m

theorem Tidy.withdraw (tidy : object.Tidy) (found : object.store = some fungibleStore)
    (ok : object.withdraw fungibleStore amount = .ok object') :
    object'.Tidy ∧ ∀ m, object.held m = object'.held m + only fungibleStore.metadata amount m := by
  unfold StoreObject.withdraw at ok
  split at ok
  · rename_i zero
    cases ok
    refine ⟨tidy, fun m => ?_⟩
    rw [zero, only_zero]
    rfl
  cases holds : object.holder fungibleStore with
  | some aggregator =>
    obtain ⟨empty, there⟩ := holder_eq_some holds
    simp only [holds, bind_eq_ok, orAbort_eq_ok, Aggregator.trySub_eq_some] at ok
    obtain ⟨_, ⟨enough, rfl⟩, same⟩ := ok
    cases same
    refine ⟨.of_store found (.inl empty), fun m => ?_⟩
    rw [held_of_store object found,
      held_of_store { object with concurrentBalance := some _ } found, there]
    refine only_sum ?_ m
    simp only [elim_some]
    omega
  | none =>
    have alone := tidy.holder_eq_none found holds
    simp only [holds, bind_eq_ok, ensure_eq_ok] at ok
    obtain ⟨_, enough, same⟩ := ok
    cases same
    refine ⟨.of_store rfl (.inr alone), fun m => ?_⟩
    rw [held_of_store object found]
    refine only_sum ?_ m
    dsimp only
    omega

end StoreObject

/-! ## Books -/

open StoreObject

namespace FungibleState

/-- The sum of the balances of all stores of an asset. -/
def held (s : FungibleState) (m : Address) : Nat := s.objects.sum fun _ object => object.held m

/-- The stores are tidy, no supply is over its maximum, and who has no metadata has no supply. -/
structure Tidy (s : FungibleState) : Prop where
  stores : ∀ a, (s.object a).Tidy
  plain : ∀ m supply, s.supplies m = some supply → supply.current ≤ supply.maximum.getD u128Max
  concurrent : ∀ m aggregator, s.concurrentSupplies m = some aggregator →
    aggregator.value ≤ aggregator.maxValue
  named : ∀ m, s.metadata m = none → s.supplies m = none ∧ s.concurrentSupplies m = none

def books : Books FungibleState Address where
  recorded := fun s m => some ((s.supplyImpl m).getD 0)
  held := held
  valid := Tidy

theorem held_setObject (s : FungibleState) (a : Address) (object : StoreObject) (m : Address) :
    (s.setObject a object).held m + (s.object a).held m = s.held m + object.held m := by
  unfold held setObject FungibleState.object
  rw [Table.sum_insert]
  cases there : s.objects.find? a with
  | none =>
    have missing : StoreObject.held (getD none StoreObject.empty) m = 0 := rfl
    rw [Table.sum_erase_of_none there]
    omega
  | some old =>
    have before := Table.sum_erase (f := fun _ object => StoreObject.held object m) there
    rw [getD_some]
    omega

@[simp] theorem object_setObject_self (s : FungibleState) (a : Address) (object : StoreObject) :
    (s.setObject a object).object a = object := by
  rw [FungibleState.object, setObject, Table.find?_insert_self]
  rfl

theorem object_setObject_of_ne {b : Address} (ne : b ≠ a) (object : StoreObject) :
    (s.setObject a object).object b = s.object b := by
  rw [FungibleState.object, setObject, Table.find?_insert_of_ne ne]
  rfl

/-- All objects but one are the same. -/
def Elsewhere (a : Address) (s s' : FungibleState) : Prop := ∀ b, b ≠ a → s'.object b = s.object b

/-- Books of one state for another one with the same stores and supplies. -/
theorem flow_of_same (objects : s'.objects = s.objects) (supplies : s'.supplies = s.supplies)
    (concurrent : s'.concurrentSupplies = s.concurrentSupplies)
    (metadata : ∀ m, s'.metadata m = none → s.metadata m = none) : books.Flow s s' 0 0 := by
  intro tidy
  have sameHeld : ∀ m, s'.held m = s.held m := by
    intro m
    rw [held, held, objects]
  have sameSupply : ∀ m, s'.supplyImpl m = s.supplyImpl m := by
    intro m
    rw [supplyImpl, supplyImpl, supplies, concurrent]
  refine ⟨⟨?_, ?_, ?_, ?_⟩, fun m recorded found => ⟨recorded, ?_, ?_⟩⟩
  · intro a
    rw [object, objects]
    exact tidy.stores a
  · rw [supplies]
    exact tidy.plain
  · rw [concurrent]
    exact tidy.concurrent
  · rw [supplies, concurrent]
    exact fun m missing => tidy.named m (metadata m missing)
  · change some ((s.supplyImpl m).getD 0) = some recorded
    rw [← sameSupply]
    exact found
  · change recorded + s.held m + 0 = recorded + s'.held m + 0
    rw [sameHeld]

/-- One object changes. -/
theorem flow_of_object {ins outs : Address → Nat} (change : (s.object a).Tidy → object.Tidy ∧
      ∀ m, (s.object a).held m + ins m = object.held m + outs m) :
    books.Flow s (s.setObject a object) ins outs ∧ Elsewhere a s (s.setObject a object) := by
  refine ⟨fun tidy => ?_, fun b ne => object_setObject_of_ne ne object⟩
  obtain ⟨tidyObject, moved⟩ := change (tidy.stores a)
  refine ⟨⟨fun b => ?_, tidy.plain, tidy.concurrent, tidy.named⟩,
    fun m recorded found => ⟨recorded, found, ?_⟩⟩
  · by_cases same : b = a
    · rw [same, object_setObject_self]
      exact tidyObject
    · rw [object_setObject_of_ne same]
      exact tidy.stores b
  · have sums := held_setObject s a object m
    have here := moved m
    change recorded + s.held m + ins m = recorded + (s.setObject a object).held m + outs m
    omega

/-- The supply of one asset changes, and stays within its maximum. -/
structure Resupplied (s s' : FungibleState) (m : Address) : Prop where
  objects : s'.objects = s.objects
  metadata : ∀ b, s'.metadata b = none → s.metadata b = none ∧ b ≠ m
  elsewhere : ∀ b, b ≠ m → s'.supplies b = s.supplies b ∧
    s'.concurrentSupplies b = s.concurrentSupplies b
  plain : ∀ supply, s'.supplies m = some supply → supply.current ≤ supply.maximum.getD u128Max
  concurrent : ∀ aggregator, s'.concurrentSupplies m = some aggregator →
    aggregator.value ≤ aggregator.maxValue

variable {taken given : Nat}

theorem flow_of_supply (change : s.Tidy → Resupplied s s' m ∧
      (s'.supplyImpl m).getD 0 + taken = (s.supplyImpl m).getD 0 + given) :
    books.Flow s s' (only m taken) (only m given) := by
  intro tidy
  obtain ⟨supplied, moved⟩ := change tidy
  refine ⟨⟨?_, ?_, ?_, ?_⟩, ?_⟩
  · intro a
    rw [object, supplied.objects]
    exact tidy.stores a
  · intro b supply found
    by_cases same : b = m
    · rw [same] at found
      exact supplied.plain supply found
    · rw [(supplied.elsewhere b same).1] at found
      exact tidy.plain b supply found
  · intro b aggregator found
    by_cases same : b = m
    · rw [same] at found
      exact supplied.concurrent aggregator found
    · rw [(supplied.elsewhere b same).2] at found
      exact tidy.concurrent b aggregator found
  · intro b missing
    obtain ⟨missing, ne⟩ := supplied.metadata b missing
    rw [(supplied.elsewhere b ne).1, (supplied.elsewhere b ne).2]
    exact tidy.named b missing
  · intro b recorded' found
    have sameHeld : s'.held b = s.held b := by rw [held, held, supplied.objects]
    refine ⟨_, rfl, ?_⟩
    cases found
    change (s'.supplyImpl b).getD 0 + s.held b + only m taken b =
      (s.supplyImpl b).getD 0 + s'.held b + only m given b
    rw [sameHeld, only, only]
    split
    · rename_i same
      rw [same]
      omega
    · rename_i same
      have sameSupply : s'.supplyImpl b = s.supplyImpl b := by
        rw [supplyImpl, supplyImpl, (supplied.elsewhere b same).1, (supplied.elsewhere b same).2]
      rw [sameSupply]

/-! ## Assets and stores -/

theorem createObject_flow (ok : s.createObject a = .ok s') : books.Flow s s' 0 0 := by
  cases of_check ok
  exact flow_of_same rfl rfl rfl fun _ missing => missing

variable {maximum : Option Nat} {metadata : FungibleMetadata}

theorem addFungibility_flow {ref : ConstructorRef}
    (ok : s.addFungibility env ref maximum metadata = .ok s') :
    books.Flow s s' 0 0 ∧ s'.objects = s.objects := by
  unfold addFungibility addSupply at ok
  simp only [bind_eq_ok, moveTo_eq_ok] at ok
  obtain ⟨_, -, _, -, _, -, _, -, _, -, _, -, all, ⟨free, rfl⟩, added⟩ := ok
  have others : ∀ b, update s.metadata ref.self (some metadata) b = none →
      s.metadata b = none ∧ b ≠ ref.self := by
    intro b missing
    rw [update_apply] at missing
    split at missing
    · cases missing
    · rename_i ne
      exact ⟨missing, ne⟩
  have objects : s'.objects = s.objects := by
    split at added
    all_goals
      obtain ⟨_, -, same⟩ := of_bind added
      cases same
      rfl
  rw [← only_zero ref.self]
  refine ⟨flow_of_supply fun tidy => ?_, objects⟩
  obtain ⟨noSupply, noConcurrent⟩ := tidy.named ref.self free
  have before : s.supplyImpl ref.self = none := by
    rw [supplyImpl, noConcurrent, noSupply]
    rfl
  split at added
  · simp only [bind_eq_ok, moveTo_eq_ok] at added
    obtain ⟨_, ⟨-, rfl⟩, same⟩ := added
    cases same
    refine ⟨⟨rfl, others, ?_, ?_, ?_⟩, ?_⟩
    · exact fun b ne => ⟨rfl, update_of_ne ne _ _⟩
    · exact tidy.plain ref.self
    · intro aggregator found
      cases (update_self _ _ _).symm.trans found
      exact Nat.zero_le _
    · rw [before, supplyImpl]
      simp only [update_self]
      rfl
  · simp only [bind_eq_ok, moveTo_eq_ok] at added
    obtain ⟨_, ⟨-, rfl⟩, same⟩ := added
    cases same
    refine ⟨⟨rfl, others, ?_, ?_, ?_⟩, ?_⟩
    · exact fun b ne => ⟨update_of_ne ne _ _, rfl⟩
    · intro supply found
      cases (update_self _ _ _).symm.trans found
      exact Nat.zero_le _
    · exact tidy.concurrent ref.self
    · rw [before, supplyImpl]
      simp only [update_self, noConcurrent]
      rfl

theorem setUntransferable_flow {ref : ConstructorRef} (ok : s.setUntransferable ref = .ok s') :
    books.Flow s s' 0 0 := by
  have ok := of_check ok
  split at ok
  · cases ok
  · cases ok
    exact flow_of_same rfl rfl rfl fun _ missing => missing

theorem createStore_flow {ref : ConstructorRef} (ok : s.createStore env ref m = .ok s') :
    books.Flow s s' 0 0 ∧ Elsewhere ref.self s s' := by
  unfold createStore at ok
  simp only [bind_eq_ok, ensure_eq_ok, isNone_iff_eq_none] at ok
  obtain ⟨_, -, _, free, object, made, same⟩ := ok
  cases same
  refine flow_of_object fun tidy => ?_
  have none := tidy.attached free
  have empty : ∀ b, (s.object ref.self).held b = 0 := by
    intro b
    rw [StoreObject.held, free]
  have shape : object.store = some ⟨m, 0, false⟩ ∧
      object.concurrentBalance.elim 0 (·.value) = 0 := by
    unfold addConcurrentBalance at made
    rw [none] at made
    split at made
    all_goals
      cases made
      exact ⟨rfl, rfl⟩
  refine ⟨.of_store shape.1 (.inl rfl), fun b => ?_⟩
  rw [empty, held_of_store object shape.1, shape.2, only_zero]
  rfl

theorem removeStore_flow (ok : s.removeStore store = .ok s') : books.Flow s s' 0 0 := by
  unfold removeStore at ok
  simp only [bind_eq_ok, ensure_eq_ok, borrow_eq_ok] at ok
  obtain ⟨fungibleStore, found, _, plain, _, concurrent, same⟩ := ok
  cases same
  refine (flow_of_object fun _ => ⟨.empty, fun b => ?_⟩).1
  rw [held_of_store _ found, plain, concurrent, only_zero]
  rfl

/-! ## Deposits and withdrawals -/

theorem uncheckedDeposit_flow (ok : s.uncheckedDeposit store fa = .ok s') :
    books.Flow s s' (only fa.metadata fa.amount) 0 ∧ Elsewhere store s s' := by
  unfold uncheckedDeposit borrowStoreResource at ok
  simp only [bind_eq_ok, ensure_eq_ok, orAbort_eq_ok] at ok
  obtain ⟨fungibleStore, found, _, same, object, deposited, done⟩ := ok
  cases done
  refine flow_of_object fun tidy => ?_
  obtain ⟨tidy', held⟩ := tidy.deposit found deposited
  refine ⟨tidy', fun b => ?_⟩
  rw [held, same]
  rfl

theorem uncheckedWithdraw_flow (ok : s.uncheckedWithdraw store amount = .ok (fa, s')) :
    books.Flow s s' 0 (only fa.metadata fa.amount) := by
  unfold uncheckedWithdraw borrowStoreResource at ok
  simp only [bind_eq_ok, orAbort_eq_ok] at ok
  obtain ⟨fungibleStore, found, object, withdrawn, done⟩ := ok
  cases done
  refine (flow_of_object fun tidy => ?_).1
  obtain ⟨tidy', held⟩ := tidy.withdraw found withdrawn
  refine ⟨tidy', fun b => ?_⟩
  rw [held]
  rfl

variable {owner : Address}

theorem withdraw_flow (ok : s.withdraw env owner store amount = .ok (fa, s')) :
    books.Flow s s' 0 (only fa.metadata fa.amount) := by
  have ok := of_check ok
  have withdrawn := of_check ok
  exact uncheckedWithdraw_flow withdrawn

theorem deposit_flow (ok : s.deposit env store fa = .ok s') :
    books.Flow s s' (only fa.metadata fa.amount) 0 := by
  have deposited := of_check ok
  exact (uncheckedDeposit_flow deposited).1

theorem transfer_flow {sender toStore : Address}
    (ok : s.transfer env sender store toStore amount = .ok s') : books.Flow s s' 0 0 := by
  obtain ⟨⟨fa, s₁⟩, withdrawn, deposited⟩ := of_bind ok
  exact (withdraw_flow withdrawn).through (deposit_flow deposited)

/-! ## Supply -/

theorem flow_of_concurrentSupply {current current' : Aggregator}
    (concurrent : s.concurrentSupplies m = some current)
    (fits : s.Tidy → current'.value ≤ current'.maxValue)
    (moved : current'.value + taken = current.value + given) :
    books.Flow s { s with concurrentSupplies := update s.concurrentSupplies m (some current') }
      (only m taken) (only m given) := by
  refine flow_of_supply fun tidy => ⟨⟨rfl, ?_, ?_, tidy.plain m, ?_⟩, ?_⟩
  · refine fun b missing => ⟨missing, ?_⟩
    rintro rfl
    cases concurrent.symm.trans (tidy.named b missing).2
  · exact fun b ne => ⟨rfl, update_of_ne ne _ _⟩
  · intro aggregator found
    cases (update_self _ _ _).symm.trans found
    exact fits tidy
  · rw [supplyImpl, supplyImpl, concurrent]
    simp only [update_self]
    exact moved

theorem flow_of_plainSupply {supply supply' : Supply} (concurrent : s.concurrentSupplies m = none)
    (plain : s.supplies m = some supply)
    (fits : s.Tidy → supply'.current ≤ supply'.maximum.getD u128Max)
    (moved : supply'.current + taken = supply.current + given) :
    books.Flow s { s with supplies := update s.supplies m (some supply') }
      (only m taken) (only m given) := by
  refine flow_of_supply fun tidy => ⟨⟨rfl, ?_, ?_, ?_, tidy.concurrent m⟩, ?_⟩
  · refine fun b missing => ⟨missing, ?_⟩
    rintro rfl
    cases plain.symm.trans (tidy.named b missing).1
  · exact fun b ne => ⟨update_of_ne ne _ _, rfl⟩
  · intro other found
    cases (update_self _ _ _).symm.trans found
    exact fits tidy
  · rw [supplyImpl, supplyImpl, concurrent, plain]
    simp only [update_self]
    exact moved

theorem checkMaximum_ok {supply : Supply} {u : Unit} (ok : checkMaximum supply amount = .ok u)
    (fits : supply.current + amount ≤ u128Max) :
    supply.current + amount ≤ supply.maximum.getD u128Max := by
  unfold checkMaximum at ok
  cases limited : supply.maximum with
  | none => exact fits
  | some max =>
    simp only [limited, bind_eq_ok, sub_eq_ok, ensure_eq_ok] at ok
    rw [getD_some]
    omega

theorem increaseSupply_flow (ok : s.increaseSupply m amount = .ok s') :
    books.Flow s s' 0 (only m amount) ∧ s'.objects = s.objects := by
  unfold increaseSupply at ok
  split at ok
  · rename_i zero
    cases ok
    rw [zero, only_zero]
    exact ⟨.refl s, rfl⟩
  rw [← only_zero m]
  split at ok
  · rename_i concurrent
    simp only [bind_eq_ok, orAbort_eq_ok, Aggregator.tryAdd_eq_some] at ok
    obtain ⟨_, ⟨fits, rfl⟩, same⟩ := ok
    cases same
    exact ⟨flow_of_concurrentSupply concurrent (fun _ => fits) rfl, rfl⟩
  rename_i concurrent
  split at ok
  · rename_i plain
    simp only [bind_eq_ok, add_eq_ok] at ok
    obtain ⟨_, checked, _, ⟨fits, rfl⟩, same⟩ := ok
    cases same
    exact ⟨flow_of_plainSupply concurrent plain (fun _ => checkMaximum_ok checked fits) rfl, rfl⟩
  · cases ok

theorem decreaseSupply_flow (ok : s.decreaseSupply m amount = .ok s') :
    books.Flow s s' (only m amount) 0 := by
  unfold decreaseSupply at ok
  split at ok
  · rename_i zero
    cases ok
    rw [zero, only_zero]
    exact .refl s
  rw [← only_zero m]
  split at ok
  · rename_i concurrent
    simp only [bind_eq_ok, orAbort_eq_ok, Aggregator.trySub_eq_some] at ok
    obtain ⟨_, ⟨enough, rfl⟩, same⟩ := ok
    cases same
    refine flow_of_concurrentSupply concurrent (fun tidy => ?_) (Nat.sub_add_cancel enough)
    exact (Nat.sub_le _ _).trans (tidy.concurrent m _ concurrent)
  rename_i concurrent
  split at ok
  · rename_i plain
    simp only [bind_eq_ok, ensure_eq_ok] at ok
    obtain ⟨_, enough, same⟩ := ok
    cases same
    refine flow_of_plainSupply concurrent plain (fun tidy => ?_) (Nat.sub_add_cancel enough)
    exact (Nat.sub_le _ _).trans (tidy.plain m _ plain)
  · cases ok

/-! ## Minting and burning -/

theorem mintInternal_flow (ok : s.mintInternal m amount = .ok (fa, s')) :
    fa = ⟨m, amount⟩ ∧ books.Flow s s' 0 (only fa.metadata fa.amount) ∧ s'.objects = s.objects := by
  obtain ⟨s₁, increased, same⟩ := of_bind ok
  cases same
  exact ⟨rfl, increaseSupply_flow increased⟩

theorem burnInternal_flow {burnt : Nat} (ok : s.burnInternal fa = .ok (burnt, s')) :
    burnt = fa.amount ∧ books.Flow s s' (only fa.metadata fa.amount) 0 := by
  obtain ⟨s₁, decreased, same⟩ := of_bind ok
  cases same
  exact ⟨rfl, decreaseSupply_flow decreased⟩

variable {ref : Address}

theorem mintTo_flow (ok : s.mintTo env ref store amount = .ok s') : books.Flow s s' 0 0 := by
  have ok := of_check ok
  obtain ⟨⟨fa, s₁⟩, minted, deposited⟩ := of_bind ok
  exact (mintInternal_flow minted).2.1.through (uncheckedDeposit_flow deposited).1

theorem burn_flow (ok : s.burn ref fa = .ok s') :
    books.Flow s s' (only fa.metadata fa.amount) 0 := by
  have ok := of_check ok
  obtain ⟨⟨burnt, s₁⟩, burning, rfl⟩ := of_return ok
  exact (burnInternal_flow burning).2

theorem burnFrom_flow (ok : s.burnFrom ref store amount = .ok s') : books.Flow s s' 0 0 := by
  obtain ⟨⟨fa, s₁⟩, withdrawn, burnt⟩ := of_bind ok
  exact (uncheckedWithdraw_flow withdrawn).through (burn_flow burnt)

theorem setFrozenFlagInternal_flow {frozen : Bool}
    (ok : s.setFrozenFlagInternal store frozen = .ok s') :
    books.Flow s s' 0 0 ∧ Elsewhere store s s' := by
  unfold setFrozenFlagInternal at ok
  simp only [bind_eq_ok, borrow_eq_ok] at ok
  obtain ⟨fungibleStore, found, same⟩ := ok
  cases same
  refine flow_of_object fun tidy => ⟨⟨?_, ?_⟩, fun b => ?_⟩
  · intro other aggregator same there
    cases same
    exact tidy.apart fungibleStore aggregator found there
  · intro missing
    cases missing
  · rw [held_of_store _ found, held_of_store _ rfl]

theorem setFrozenFlag_flow {frozen : Bool}
    (ok : s.setFrozenFlag ref store frozen = .ok s') : books.Flow s s' 0 0 := by
  obtain ⟨_, -, ok⟩ := of_bind ok
  have frozen := of_check ok
  exact (setFrozenFlagInternal_flow frozen).1

theorem withdrawWithRef_flow (ok : s.withdrawWithRef ref store amount = .ok (fa, s')) :
    books.Flow s s' 0 (only fa.metadata fa.amount) := by
  obtain ⟨_, -, ok⟩ := of_bind ok
  have withdrawn := of_check ok
  exact uncheckedWithdraw_flow withdrawn

theorem depositWithRef_flow (ok : s.depositWithRef ref store fa = .ok s') :
    books.Flow s s' (only fa.metadata fa.amount) 0 := by
  have deposited := of_check ok
  exact (uncheckedDeposit_flow deposited).1

theorem transferWithRef_flow {toStore : Address}
    (ok : s.transferWithRef ref store toStore amount = .ok s') : books.Flow s s' 0 0 := by
  obtain ⟨⟨fa, s₁⟩, withdrawn, deposited⟩ := of_bind ok
  exact (withdrawWithRef_flow withdrawn).through (depositWithRef_flow deposited)

/-! ## Upgrades -/

theorem upgradeToConcurrent_flow (ok : s.upgradeToConcurrent env m = .ok s') :
    books.Flow s s' 0 0 := by
  unfold upgradeToConcurrent at ok
  simp only [bind_eq_ok, orAbort_eq_ok, moveTo_eq_ok, Aggregator.add_eq_ok] at ok
  obtain ⟨_, -, supply, plain, current, ⟨fits, rfl⟩, _, ⟨free, rfl⟩, same⟩ := ok
  cases same
  rw [← only_zero m]
  refine flow_of_supply fun tidy => ⟨⟨rfl, ?_, ?_, ?_, ?_⟩, ?_⟩
  · refine fun b missing => ⟨missing, ?_⟩
    rintro rfl
    cases plain.symm.trans (tidy.named b missing).1
  · exact fun b ne => ⟨update_of_ne ne _ _, update_of_ne ne _ _⟩
  · intro other found
    cases (update_self _ _ _).symm.trans found
  · intro aggregator found
    cases (update_self _ _ _).symm.trans found
    exact fits
  · rw [supplyImpl, supplyImpl, free, plain]
    simp only [update_self]
    exact zero_add _

theorem ensureStoreUpgradedToConcurrentInternal_flow
    (ok : s.ensureStoreUpgradedToConcurrentInternal store = .ok s') : books.Flow s s' 0 0 := by
  unfold ensureStoreUpgradedToConcurrentInternal at ok
  dsimp only at ok
  split at ok
  · cases ok
    exact .refl s
  rename_i there
  simp only [bind_eq_ok, borrow_eq_ok, Aggregator.add_eq_ok] at ok
  obtain ⟨fungibleStore, found, balance, ⟨-, rfl⟩, same⟩ := ok
  cases same
  refine (flow_of_object fun _ => ⟨.of_store rfl (.inl rfl), fun b => ?_⟩).1
  rw [held_of_store _ found, there]
  refine congrFun (congrArg (only _) ?_) b
  simp only [elim_none, elim_some, Aggregator.create]
  omega

theorem upgradeStoreToConcurrent_flow
    (ok : s.upgradeStoreToConcurrent env owner store = .ok s') : books.Flow s s' 0 0 := by
  have ok := of_check ok
  have ok := of_check ok
  split at ok
  · cases ok
    exact .refl s
  · have upgraded := of_check ok
    exact ensureStoreUpgradedToConcurrentInternal_flow upgraded

/-! ## Primary stores -/

theorem createPrimaryStoreEnabledFungibleAsset_flow {ref : ConstructorRef}
    (ok : s.createPrimaryStoreEnabledFungibleAsset env ref maximum metadata = .ok s') :
    books.Flow s s' 0 0 ∧ s'.objects = s.objects := by
  obtain ⟨s₁, added, ok⟩ := of_bind ok
  obtain ⟨pods, -, rfl⟩ := of_return ok
  obtain ⟨flow, objects⟩ := addFungibility_flow added
  exact ⟨flow.after (flow_of_same rfl rfl rfl fun _ missing => missing), objects⟩

theorem createPrimaryStore_flow (ok : s.createPrimaryStore env owner m = .ok s') :
    books.Flow s s' 0 0 ∧ Elsewhere (env.userDerivedObjectAddress owner m) s s' := by
  unfold createPrimaryStore at ok
  simp only [bind_eq_ok] at ok
  obtain ⟨_, -, _, -, s₁, created, stored⟩ := ok
  obtain ⟨flow, elsewhere⟩ := createStore_flow stored
  refine ⟨(createObject_flow created).after flow, ?_⟩
  cases of_check created
  exact elsewhere

theorem ensurePrimaryStoreExists_flow (ok : s.ensurePrimaryStoreExists env owner m = .ok s') :
    books.Flow s s' 0 0 ∧ Elsewhere (env.userDerivedObjectAddress owner m) s s' := by
  unfold ensurePrimaryStoreExists at ok
  dsimp only at ok
  split at ok
  · cases of_check ok
    exact ⟨.refl s, fun _ _ => rfl⟩
  · exact createPrimaryStore_flow ok

theorem primaryWithdraw_flow (ok : s.primaryWithdraw env owner m amount = .ok (fa, s')) :
    books.Flow s s' 0 (only fa.metadata fa.amount) := by
  obtain ⟨s₁, ensured, ok⟩ := of_bind ok
  unfold dispatchableWithdraw at ok
  simp only [bind_eq_ok] at ok
  obtain ⟨_, -, _, -, _, -, _, -, withdrawn⟩ := ok
  exact (ensurePrimaryStoreExists_flow ensured).1.after (uncheckedWithdraw_flow withdrawn)

theorem primaryDeposit_flow (ok : s.primaryDeposit env owner fa = .ok s') :
    books.Flow s s' (only fa.metadata fa.amount) 0 := by
  obtain ⟨s₁, ensured, ok⟩ := of_bind ok
  unfold dispatchableDeposit at ok
  simp only [bind_eq_ok] at ok
  obtain ⟨_, -, _, -, _, -, deposited⟩ := ok
  exact (ensurePrimaryStoreExists_flow ensured).1.after (uncheckedDeposit_flow deposited).1

end FungibleState

end CreditChain
