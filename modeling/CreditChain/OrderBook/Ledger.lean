import CreditChain.Lib.Listing
import CreditChain.OrderBook.Book

/-!
# What the order book records

A `Ledger` is the order book without the representation of its maps: the orders, the slots of
the active book with their entries, and the slots of the orders that wait.  `Ledger.Step` are
the changes that can happen to it, `Ledger.Consistent` is what they keep: the slots mirror the
orders, an order is numbered once, and bids stay below asks.
-/

namespace CreditChain

open Function Nat

/-! ## Slots -/

/-- A place in the active book: a side and a key. -/
abbrev ActiveSlot := Bool × ActiveBidKey

/-- A place in one of the indexes of orders that wait. -/
inductive PendingSlot where
  | up (key : PendingOrderKey)
  | down (key : PendingOrderKey)
  | time (time : Nat)
  deriving DecidableEq

/-- Where an order of this trigger and index waits. -/
def TriggerCondition.pendingSlot (idx : UniqueIdx) : TriggerCondition → PendingSlot
  | priceMoveAbove price => .up ⟨price, idx⟩
  | priceMoveBelow price => .down ⟨price, idx⟩
  | timeBased time => .time time

variable {M : Type}

/-- Where an order rests. -/
def Order.activeSlot (order : Order M) : ActiveSlot :=
  (order.isBid, ⟨order.price, ActiveOrderBook.getTieBreaker order.uniquePriorityIdx order.isBid⟩)

namespace OrderWithState

def activeSlot (record : OrderWithState M) : Option ActiveSlot :=
  if record.isActive then some record.order.activeSlot else none

def pendingSlot (record : OrderWithState M) : Option PendingSlot :=
  if record.isActive then none
  else record.order.triggerCondition.map (·.pendingSlot record.order.uniquePriorityIdx)

@[simp] theorem activeSlot_active (order : Order M) :
    activeSlot ⟨order, true⟩ = some order.activeSlot := rfl

@[simp] theorem activeSlot_waiting (order : Order M) : activeSlot ⟨order, false⟩ = none := rfl

@[simp] theorem pendingSlot_active (order : Order M) : pendingSlot ⟨order, true⟩ = none := rfl

theorem pendingSlot_waiting {order : Order M} {trigger : TriggerCondition}
    (waits : order.triggerCondition = some trigger) :
    pendingSlot ⟨order, false⟩ = some (trigger.pendingSlot order.uniquePriorityIdx) := by
  show order.triggerCondition.map _ = _
  rw [waits]
  rfl

variable {record : OrderWithState M}

theorem activeSlot_of_waiting {slot : PendingSlot}
    (waits : record.pendingSlot = some slot) : record.activeSlot = none := by
  obtain ⟨order, isActive⟩ := record
  cases isActive with
  | false => rfl
  | true => cases waits

theorem activeSlot_eq_some {slot : ActiveSlot} :
    record.activeSlot = some slot ↔ record.isActive = true ∧ record.order.activeSlot = slot := by
  obtain ⟨order, isActive⟩ := record
  cases isActive with
  | false | true => simp

end OrderWithState

/-- Tie breakers of one side are different for different indexes. -/
theorem getTieBreaker_inj {idx idx' : Nat} {isBid : Bool} (small : idx ≤ u128Max)
    (small' : idx' ≤ u128Max) (same : ActiveOrderBook.getTieBreaker idx isBid =
      ActiveOrderBook.getTieBreaker idx' isBid) : idx = idx' := by
  cases isBid with
  | true => exact same
  | false =>
    have same' : u128Max - idx = u128Max - idx' := same
    omega

/-! ## Orders and their numbers -/

/-- An order is filed under its identifier, with a number that no other order has. -/
structure Numbered (orders : OrderId → Option (OrderWithState M)) (issued : Nat) : Prop where
  named : ∀ {id record}, orders id = some record → record.order.orderId = id
  bounded : ∀ {id record}, orders id = some record → record.order.uniquePriorityIdx ≤ issued
  distinct : ∀ {id id' record record'}, orders id = some record → orders id' = some record' →
    record.order.uniquePriorityIdx = record'.order.uniquePriorityIdx → id = id'

namespace Numbered

variable {orders : OrderId → Option (OrderWithState M)} {issued : Nat} {id : OrderId}
  {record record' : OrderWithState M}

section

variable (numbered : Numbered orders issued)

include numbered

/-- One order changes, and no other has its number. -/
theorem update {content : Option (OrderWithState M)} {issued' : Nat} (le : issued ≤ issued')
    (self : ∀ new, content = some new → new.order.orderId = id ∧
      new.order.uniquePriorityIdx ≤ issued' ∧ ∀ {a other}, orders a = some other →
        other.order.uniquePriorityIdx = new.order.uniquePriorityIdx → a = id) :
    Numbered (update orders id content) issued' := by
  refine ⟨fun found => ?_, fun found => ?_, fun found found' same => ?_⟩
  · rcases update_eq_some.mp found with ⟨rfl, new⟩ | ⟨-, old⟩
    · exact (self _ new).1
    · exact numbered.named old
  · rcases update_eq_some.mp found with ⟨-, new⟩ | ⟨-, old⟩
    · exact (self _ new).2.1
    · exact (numbered.bounded old).trans le
  rcases update_eq_some.mp found with ⟨rfl, new⟩ | ⟨-, old⟩
  · rcases update_eq_some.mp found' with ⟨rfl, -⟩ | ⟨-, old'⟩
    · rfl
    · exact ((self _ new).2.2 old' same.symm).symm
  · rcases update_eq_some.mp found' with ⟨rfl, new'⟩ | ⟨-, old'⟩
    · exact (self _ new').2.2 old same
    · exact numbered.distinct old old' same

theorem insert (name : record.order.orderId = id)
    (next : record.order.uniquePriorityIdx = issued + 1) :
    Numbered (Function.update orders id (some record)) (issued + 1) := by
  refine numbered.update (le_succ issued) ?_
  rintro _ ⟨⟩
  refine ⟨name, next.le, fun found same => ?_⟩
  have old := numbered.bounded found
  rw [same, next] at old
  exact absurd old (not_succ_le_self issued)

theorem erase : Numbered (Function.update orders id none) issued := numbered.update le_rfl nofun

/-- The new version of an order keeps its identifier and its number. -/
theorem replace (there : orders id = some record)
    (name : record'.order.orderId = record.order.orderId)
    (number : record'.order.uniquePriorityIdx = record.order.uniquePriorityIdx) :
    Numbered (Function.update orders id (some record')) issued := by
  refine numbered.update le_rfl ?_
  rintro _ ⟨⟩
  exact ⟨name.trans (numbered.named there), number.trans_le (numbered.bounded there),
    fun found same => numbered.distinct found there (same.trans number)⟩

end

end Numbered

/-! ## The ledger -/

structure Ledger (M : Type) where
  orders : OrderId → Option (OrderWithState M)
  active : ActiveSlot → Option ActiveBidData
  pending : PendingSlot → Option OrderId
  issued : Nat

namespace Ledger

variable (ledger : Ledger M) (id : OrderId)

/-- The orders that the entries of the active book name. -/
def activeIds (slot : ActiveSlot) : Option OrderId := (ledger.active slot).map (·.orderId)

variable (orders : OrderId → Option (OrderWithState M)) (active : ActiveSlot → Option ActiveBidData)
  (order : Order M)

/-- A bid below all asks, or an ask above all bids. -/
def Passive (isBid : Bool) (price : Nat) : Prop :=
  ∀ key data, active (!isBid, key) = some data →
    if isBid then price < key.price else key.price < price

/-- Every bid is below every ask. -/
def Apart : Prop :=
  ∀ bid ask data data', active (true, bid) = some data → active (false, ask) = some data' →
    bid.price < ask.price

structure Consistent (ledger : Ledger M) : Prop where
  listed : Mirrors OrderWithState.activeSlot ledger.orders ledger.activeIds
  waiting : Mirrors OrderWithState.pendingSlot ledger.orders ledger.pending
  numbered : Numbered ledger.orders ledger.issued
  small : ledger.issued ≤ u64Max
  apart : Apart ledger.active

/-- The entry of an active order has the remaining size of the order. -/
def Sized : Prop :=
  ∀ id order data, orders id = some ⟨order, true⟩ → active order.activeSlot = some data →
    data.size = order.remainingSize

/-! ## Changes -/

/-- A new order comes to rest. -/
def enter : Ledger M :=
  { ledger with
    orders := update ledger.orders id (some ⟨order, true⟩)
    active := update ledger.active order.activeSlot (some ⟨id, order.remainingSize⟩)
    issued := ledger.issued + 1 }

/-- A new order begins to wait. -/
def await (trigger : TriggerCondition) : Ledger M :=
  { ledger with
    orders := update ledger.orders id (some ⟨order, false⟩)
    pending := update ledger.pending (trigger.pendingSlot order.uniquePriorityIdx) (some id)
    issued := ledger.issued + 1 }

/-- A resting order leaves. -/
def close : Ledger M :=
  { ledger with
    orders := update ledger.orders id none
    active := update ledger.active order.activeSlot none }

/-- An order that waits leaves. -/
def drop (slot : PendingSlot) : Ledger M :=
  { ledger with
    orders := update ledger.orders id none
    pending := update ledger.pending slot none }

/-- A resting order changes its size. -/
def resize (size : Nat) : Ledger M :=
  { ledger with
    orders := update ledger.orders id (some ⟨{ order with remainingSize := size }, true⟩)
    active := update ledger.active order.activeSlot (some ⟨id, size⟩) }

/-- Only the record of an order changes. -/
def amend (record : OrderWithState M) : Ledger M :=
  { ledger with orders := update ledger.orders id (some record) }

/-- The record of an order and an entry change. -/
def stretch (record : OrderWithState M) (slot : ActiveSlot) (data : ActiveBidData) : Ledger M :=
  { ledger with
    orders := update ledger.orders id (some record)
    active := update ledger.active slot (some data) }

/-- The changes of a ledger.  In a loose step the size of an order and the size of an entry
change that need not belong together. -/
inductive Step (loose : Prop) (ledger : Ledger M) : Ledger M → Prop
  | enter {id : OrderId} {order : Order M} : ledger.orders id = none → order.orderId = id →
      order.uniquePriorityIdx = ledger.issued + 1 → ledger.issued + 1 ≤ u64Max →
      ledger.active order.activeSlot = none → Passive ledger.active order.isBid order.price →
      Step loose ledger (ledger.enter id order)
  | await {id : OrderId} {order : Order M} {trigger : TriggerCondition} :
      ledger.orders id = none → order.orderId = id →
      order.uniquePriorityIdx = ledger.issued + 1 → ledger.issued + 1 ≤ u64Max →
      order.triggerCondition = some trigger →
      ledger.pending (trigger.pendingSlot order.uniquePriorityIdx) = none →
      Step loose ledger (ledger.await id order trigger)
  | close {id : OrderId} {order : Order M} : ledger.orders id = some ⟨order, true⟩ →
      Step loose ledger (ledger.close id order)
  | drop {id : OrderId} {record : OrderWithState M} {slot : PendingSlot} :
      ledger.orders id = some record → record.pendingSlot = some slot →
      Step loose ledger (ledger.drop id slot)
  | resize {id : OrderId} {order : Order M} (size : Nat) :
      ledger.orders id = some ⟨order, true⟩ → Step loose ledger (ledger.resize id order size)
  | resizeWaiting {id : OrderId} {order : Order M} (size : Nat) :
      ledger.orders id = some ⟨order, false⟩ →
      Step loose ledger (ledger.amend id ⟨{ order with remainingSize := size }, false⟩)
  | relabel {id : OrderId} {order : Order M} {isActive : Bool} (metadata : M) :
      ledger.orders id = some ⟨order, isActive⟩ →
      Step loose ledger (ledger.amend id ⟨{ order with metadata }, isActive⟩)
  | stretch {id : OrderId} {order : Order M} {isActive : Bool} {slot : ActiveSlot}
      {data : ActiveBidData} (size entrySize : Nat) : loose →
      ledger.orders id = some ⟨order, isActive⟩ → ledger.active slot = some data →
      Step loose ledger (ledger.stretch id ⟨{ order with remainingSize := size }, isActive⟩ slot
        ⟨data.orderId, entrySize⟩)

variable {ledger ledger' : Ledger M}

theorem Step.mono {loose loose' : Prop} (weaker : loose → loose')
    (step : Step loose ledger ledger') : Step loose' ledger ledger' := by
  cases step with
  | enter missing name next small free passive =>
    exact .enter missing name next small free passive
  | await missing name next small waits free => exact .await missing name next small waits free
  | close there => exact .close there
  | drop there waits => exact .drop there waits
  | resize size there => exact .resize size there
  | resizeWaiting size there => exact .resizeWaiting size there
  | relabel metadata there => exact .relabel metadata there
  | stretch size entrySize isLoose there held =>
    exact .stretch size entrySize (weaker isLoose) there held

/-- A step to `target`, to a ledger with the same fields. -/
theorem Step.of_eq {loose : Prop} (target : Ledger M) (step : Step loose ledger target)
    (orders : ledger'.orders = target.orders) (active : ledger'.active = target.active)
    (pending : ledger'.pending = target.pending)
    (issued : ledger'.issued = target.issued) : Step loose ledger ledger' := by
  have same : ledger' = target := by
    cases target
    cases orders
    cases active
    cases pending
    cases issued
    rfl
  exact same ▸ step

/-! ## What a step keeps -/

section Apart

variable {active : ActiveSlot → Option ActiveBidData} {slot : ActiveSlot}

/-- An entry is removed, or replaced in its slot. -/
theorem Apart.change {content : Option ActiveBidData} (apart : Apart active)
    (there : content ≠ none → ∃ data, active slot = some data) :
    Apart (update active slot content) := by
  have held : ∀ {s c}, update active slot content s = some c → ∃ c', active s = some c' := by
    intro s c found
    rcases update_eq_some.mp found with ⟨rfl, new⟩ | ⟨-, old⟩
    · exact there (by simp [new])
    · exact ⟨c, old⟩
  intro bid ask _ _ found found'
  obtain ⟨c, there⟩ := held found
  obtain ⟨c', there'⟩ := held found'
  exact apart bid ask c c' there there'

theorem Apart.insert {isBid : Bool} {key : ActiveBidKey} {data : ActiveBidData}
    (apart : Apart active) (passive : Passive active isBid key.price) :
    Apart (update active (isBid, key) (some data)) := by
  intro bid ask c c' found found'
  rcases update_eq_some.mp found with ⟨here, -⟩ | ⟨-, old⟩
  · rcases update_eq_some.mp found' with ⟨here', -⟩ | ⟨-, old'⟩
    · cases here.trans here'.symm
    · cases here
      exact passive ask c' old'
  · rcases update_eq_some.mp found' with ⟨here', -⟩ | ⟨-, old'⟩
    · cases here'
      exact passive bid c old
    · exact apart bid ask c c' old old'

end Apart

variable {ledger ledger' : Ledger M} {loose : Prop} {slot : ActiveSlot}

theorem activeIds_eq_none (free : ledger.active slot = none) : ledger.activeIds slot = none := by
  unfold activeIds
  rw [free]
  rfl

variable {data : ActiveBidData}

theorem activeIds_eq_some
    (there : ledger.active slot = some data) : ledger.activeIds slot = some data.orderId := by
  unfold activeIds
  rw [there]
  rfl

variable {id : OrderId} {order : Order M}

/-- An active order has an entry. -/
theorem Consistent.entry (consistent : Consistent ledger)
    (there : ledger.orders id = some ⟨order, true⟩) :
    ∃ data, ledger.active order.activeSlot = some data ∧ data.orderId = id := by
  have held := consistent.listed.listed there (OrderWithState.activeSlot_active order)
  obtain ⟨data, there, name⟩ := Option.map_eq_some_iff.mp held
  exact ⟨data, there, name⟩

/-- An entry belongs to an active order. -/
theorem Consistent.owner (consistent : Consistent ledger) (there : ledger.active slot = some data) :
    ∃ order, ledger.orders data.orderId = some ⟨order, true⟩ ∧ order.activeSlot = slot := by
  obtain ⟨⟨order, isActive⟩, found, atSlot⟩ := consistent.listed.backed (activeIds_eq_some there)
  obtain ⟨isTrue, atSlot⟩ := OrderWithState.activeSlot_eq_some.mp atSlot
  cases isTrue
  exact ⟨order, found, atSlot⟩

theorem activeIds_update {content : Option ActiveBidData}
    (changed : ledger'.active = update ledger.active slot content) :
    ledger'.activeIds = update ledger.activeIds slot (content.map (·.orderId)) := by
  funext s
  show (ledger'.active s).map (·.orderId) = _
  rw [changed, update_apply, update_apply]
  split
  · rfl
  · rfl

/-- Replacing an entry by one of the same order does not change which order it names. -/
theorem activeIds_update_same (data' : ActiveBidData) (there : ledger.active slot = some data)
    (changed : ledger'.active = update ledger.active slot (some data'))
    (name : data'.orderId = data.orderId) : ledger'.activeIds = ledger.activeIds := by
  rw [activeIds_update changed, Option.map_some, name, ← activeIds_eq_some there, update_eq_self]

theorem Step.consistent (step : Step loose ledger ledger') (consistent : Consistent ledger) :
    Consistent ledger' := by
  cases step with
  | @enter id order missing name next small free passive =>
    refine ⟨?_, consistent.waiting.insert_unlisted missing rfl,
      consistent.numbered.insert name next, small, consistent.apart.insert passive⟩
    rw [activeIds_update rfl]
    exact consistent.listed.insert missing rfl (activeIds_eq_none free)
  | @await id order trigger missing name next small waits free =>
    exact ⟨consistent.listed.insert_unlisted missing rfl,
      consistent.waiting.insert missing (OrderWithState.pendingSlot_waiting waits) free,
      consistent.numbered.insert name next, small, consistent.apart⟩
  | @close id order there =>
    refine ⟨?_, consistent.waiting.erase_unlisted there rfl, consistent.numbered.erase,
      consistent.small, consistent.apart.change nofun⟩
    rw [activeIds_update rfl]
    exact consistent.listed.erase there rfl
  | @drop id record slot there waits =>
    exact ⟨consistent.listed.erase_unlisted there (OrderWithState.activeSlot_of_waiting waits),
      consistent.waiting.erase there waits, consistent.numbered.erase, consistent.small,
      consistent.apart⟩
  | @resize id order size there =>
    obtain ⟨data, held, name⟩ := consistent.entry there
    refine ⟨?_, consistent.waiting.replace there rfl, consistent.numbered.replace there rfl rfl,
      consistent.small, consistent.apart.change fun _ => ⟨_, held⟩⟩
    rw [activeIds_update_same ⟨id, size⟩ held rfl name.symm]
    exact consistent.listed.replace there rfl
  | @resizeWaiting id order size there | @relabel id order isActive metadata there =>
    exact ⟨consistent.listed.replace there rfl, consistent.waiting.replace there rfl,
      consistent.numbered.replace there rfl rfl, consistent.small, consistent.apart⟩
  | @stretch id order isActive slot data size entrySize isLoose there held =>
    refine ⟨?_, consistent.waiting.replace there rfl, consistent.numbered.replace there rfl rfl,
      consistent.small, consistent.apart.change fun _ => ⟨_, held⟩⟩
    rw [activeIds_update_same ⟨data.orderId, entrySize⟩ held rfl rfl]
    exact consistent.listed.replace there rfl

/-- The slots of two active orders. -/
theorem Consistent.slot_ne (consistent : Consistent ledger) {id' : OrderId} {order' : Order M}
    (there : ledger.orders id = some ⟨order, true⟩)
    (there' : ledger.orders id' = some ⟨order', true⟩) (ne : id' ≠ id) :
    order'.activeSlot ≠ order.activeSlot :=
  consistent.listed.slot_ne there rfl there' rfl ne

section Sized

variable {id : OrderId} {order : Order M} {record : Option (OrderWithState M)}

/-- The slot of one order may change when the order does. -/
theorem Sized.update {slot : ActiveSlot}
    {content : Option ActiveBidData} (sized : Sized ledger.orders ledger.active)
    (others : ∀ a other, a ≠ id → ledger.orders a = some ⟨other, true⟩ → other.activeSlot ≠ slot)
    (self : ∀ new, record = some ⟨new, true⟩ → new.activeSlot = slot ∧
      ∀ data, content = some data → data.size = new.remainingSize) :
    Sized (update ledger.orders id record) (update ledger.active slot content) := by
  intro a new data found held
  rcases update_eq_some.mp found with ⟨rfl, now⟩ | ⟨ne, old⟩
  · obtain ⟨atSlot, size⟩ := self new now
    rw [atSlot, update_self] at held
    exact size data held
  · rw [update_of_ne (others a new ne old)] at held
    exact sized a new data old held

/-- An order changes that has no entry, or keeps its slot and its size. -/
theorem Sized.update_orders (sized : Sized ledger.orders ledger.active)
    (self : ∀ new, record = some ⟨new, true⟩ → ∃ old, ledger.orders id = some ⟨old, true⟩ ∧
      new.activeSlot = old.activeSlot ∧ new.remainingSize = old.remainingSize) :
    Sized (Function.update ledger.orders id record) ledger.active := by
  intro a new data found held
  rcases update_eq_some.mp found with ⟨rfl, now⟩ | ⟨-, old⟩
  · obtain ⟨old, there, atSlot, size⟩ := self new now
    rw [size]
    exact sized a old data there (atSlot ▸ held)
  · exact sized a new data old held

end Sized

theorem Step.sized (step : Step False ledger ledger') (consistent : Consistent ledger)
    (sized : Sized ledger.orders ledger.active) : Sized ledger'.orders ledger'.active := by
  cases step with
  | enter missing name next small free passive =>
    refine sized.update (fun a other _ there => ?_) ?_
    · exact consistent.listed.slot_ne_of_free (activeIds_eq_none free) there rfl
    · rintro new ⟨⟩
      exact ⟨rfl, by rintro data ⟨⟩; rfl⟩
  | await missing name next small waits free | drop there waits | resizeWaiting size there =>
    exact sized.update_orders (by rintro new ⟨⟩)
  | close there =>
    exact sized.update (fun a other ne found => consistent.slot_ne there found ne)
      (by rintro new ⟨⟩)
  | resize size there =>
    refine sized.update (fun a other ne found => consistent.slot_ne there found ne) ?_
    rintro new ⟨⟩
    exact ⟨rfl, by rintro data ⟨⟩; rfl⟩
  | @relabel id order isActive metadata there =>
    refine sized.update_orders ?_
    rintro new ⟨⟩
    exact ⟨order, there, rfl, rfl⟩
  | stretch _ _ isLoose _ _ => exact isLoose.elim

/-! ## Orders that were handed out -/

/-- An order that was handed out is the only one that may have its number. -/
structure Remembers (ledger : Ledger M) (order : Order M) : Prop where
  issued : order.uniquePriorityIdx ≤ ledger.issued
  same : ∀ {id record}, ledger.orders id = some record →
    record.order.uniquePriorityIdx = order.uniquePriorityIdx → id = order.orderId

variable {record : OrderWithState M}

theorem Consistent.remembers (consistent : Consistent ledger)
    (there : ledger.orders id = some record) :
    Remembers ledger record.order where
  issued := consistent.numbered.bounded there
  same found number :=
    (consistent.numbered.distinct found there number).trans (consistent.numbered.named there).symm

section

variable (step : Step loose ledger ledger')

include step

/-- Orders after a step: new ones have a new number, the others had theirs before. -/
theorem Step.number (found : ledger'.orders id = some record) :
    record.order.uniquePriorityIdx = ledger.issued + 1 ∨ ∃ old, ledger.orders id = some old ∧
      old.order.uniquePriorityIdx = record.order.uniquePriorityIdx := by
  cases step with
  | enter missing name next small free passive | await missing name next small waits free =>
    rcases update_eq_some.mp found with ⟨rfl, new⟩ | ⟨-, old⟩
    · cases new
      exact .inl next
    · exact .inr ⟨record, old, rfl⟩
  | close there | drop there waits =>
    rcases update_eq_some.mp found with ⟨rfl, new⟩ | ⟨-, old⟩
    · cases new
    · exact .inr ⟨record, old, rfl⟩
  | resize size there | resizeWaiting size there | relabel metadata there
  | stretch size entrySize isLoose there held =>
    rcases update_eq_some.mp found with ⟨rfl, new⟩ | ⟨-, old⟩
    · cases new
      exact .inr ⟨_, there, rfl⟩
    · exact .inr ⟨record, old, rfl⟩

theorem Step.issued_le : ledger.issued ≤ ledger'.issued := by
  cases step with
  | enter | await => exact le_succ _
  | close | drop | resize | resizeWaiting | relabel | stretch => exact le_rfl

theorem Step.remembers (remembers : Remembers ledger order) : Remembers ledger' order where
  issued := remembers.issued.trans step.issued_le
  same found number := by
    rcases step.number found with new | ⟨old, there, sameNumber⟩
    · have early := remembers.issued
      rw [← number, new] at early
      exact absurd early (not_succ_le_self _)
    · exact remembers.same there (sameNumber.trans number)

end

end Ledger

end CreditChain
