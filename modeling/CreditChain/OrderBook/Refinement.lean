import CreditChain.OrderBook.Slots

/-!
# The order book refines its ledger

Every call of the order book that does not abort changes the ledger by steps of `Ledger.Step`.
-/

namespace CreditChain

open OrderedMap ActiveOrderBook PendingOrderBookIndex Function

variable {M : Type}

namespace OrderBook

/-- What the order book records. -/
def ledger (book : OrderBook M) : Ledger M where
  orders := book.orders.find?
  active := book.activeOrders.lookup
  pending := book.pendingOrders.lookup
  issued := book.ascendingIdGenerator.value

open Ledger (Step Consistent)

variable {book book' : OrderBook M} {loose : Prop} {orderCreator : Address} {orderId : OrderId}
  {orderReq : OrderRequest M}

theorem consistent_newOrderBook : Consistent (newOrderBook : OrderBook M).ledger := by
  have noActive : ∀ slot, (newOrderBook : OrderBook M).ledger.active slot = none := by
    rintro ⟨isBid, key⟩
    cases isBid <;> rfl
  have noPending : (newOrderBook : OrderBook M).ledger.pending = fun _ => none := by
    funext slot
    cases slot <;> rfl
  have noIds : (newOrderBook : OrderBook M).ledger.activeIds = fun _ => none :=
    funext fun slot => Ledger.activeIds_eq_none (noActive slot)
  refine ⟨noIds ▸ .empty, noPending ▸ .empty, ?_, Nat.zero_le _, ?_⟩
  · constructor
    · intro _ _ found
      cases found
    · intro _ _ found
      cases found
    · intro _ _ _ _ found
      cases found
  · intro bid _ _ _ found
    cases (noActive (true, bid)).symm.trans found

/-! ## Placing -/

/-- A request is filed as a new order, and the ledger makes a step. -/
theorem placePendingMakerOrder_ok {trigger : TriggerCondition}
    (waits : orderReq.triggerCondition = some trigger)
    (done : book.placePendingMakerOrder orderReq trigger = .ok book') :
    (book.orders.find? orderReq.orderId = none ∧ ∃ idx, book'.orders.find? =
      update book.orders.find? orderReq.orderId (some ⟨orderReq.newOrder idx, false⟩)) ∧
    Step loose book.ledger book'.ledger := by
  obtain ⟨⟨idx, generator⟩, generated, done⟩ := of_bind done
  obtain ⟨orders, added, done⟩ := of_bind done
  obtain ⟨pending, placed, rfl⟩ := of_return done
  obtain ⟨small, rfl, rfl⟩ := AscendingIdGenerator.nextAscendingId_eq_ok.mp generated
  obtain ⟨missing, rfl⟩ := BigMap.add_eq_ok.mp added
  obtain ⟨free, slots⟩ := placePendingMakerOrder_ok placed
  exact ⟨⟨missing, _, find?_insert_eq⟩,
    Step.of_eq (book.ledger.await orderReq.orderId (orderReq.newOrder _) trigger)
      (.await missing rfl rfl small waits free) find?_insert_eq rfl slots rfl⟩

theorem placeMakerOrder_ok (done : book.placeMakerOrder orderReq = .ok book') :
    (book.orders.find? orderReq.orderId = none ∧ ∃ idx isActive, book'.orders.find? =
      update book.orders.find? orderReq.orderId (some ⟨orderReq.newOrder idx, isActive⟩)) ∧
    Step loose book.ledger book'.ledger := by
  unfold placeMakerOrder at done
  split at done
  · next trigger waits =>
    obtain ⟨⟨missing, idx, filed⟩, step⟩ := placePendingMakerOrder_ok waits done
    exact ⟨⟨missing, idx, false, filed⟩, step⟩
  next noTrigger =>
  obtain ⟨⟨idx, generator⟩, generated, done⟩ := of_bind done
  have done := of_check done
  obtain ⟨orders, added, done⟩ := of_bind done
  obtain ⟨clientOrderIds, -, done⟩ := of_bind done
  obtain ⟨active, placed, rfl⟩ := of_return done
  obtain ⟨small, rfl, rfl⟩ := AscendingIdGenerator.nextAscendingId_eq_ok.mp generated
  obtain ⟨missing, rfl⟩ := BigMap.add_eq_ok.mp added
  obtain ⟨free, passive, slots⟩ := placeMakerOrder_ok placed
  exact ⟨⟨missing, _, true, find?_insert_eq⟩,
    Step.of_eq (book.ledger.enter orderReq.orderId (orderReq.newOrder _))
      (.enter missing rfl rfl small free passive) find?_insert_eq slots rfl rfl⟩

/-! ## Matching -/

section

variable (consistent : Consistent book.ledger)

include consistent

/-- A match takes from the foremost order of the other side. -/
theorem getSingleMatchForTaker_ok {price size : Nat} {isBid : Bool} {result : SingleOrderMatch M}
    (done : book.getSingleMatchForTaker price size isBid = .ok (result, book')) :
    ∃ key data order, book.activeOrders.lookup (!isBid, key) = some data ∧
      book.activeOrders.Foremost isBid key ∧
      book.orders.find? data.orderId = some ⟨order, true⟩ ∧ order.activeSlot = (!isBid, key) ∧
      result = ⟨{ order with remainingSize := data.size - size }, min data.size size⟩ ∧
      book'.orders.find? = update book.orders.find? data.orderId
        (if data.size - size = 0 then none else some ⟨result.order, true⟩) ∧
      Step False book.ledger book'.ledger := by
  obtain ⟨⟨matched, active⟩, matching, done⟩ := of_bind done
  obtain ⟨⟨record, removed⟩, removing, done⟩ := of_bind done
  obtain ⟨clientOrderIds, -, done⟩ := of_bind done
  cases of_check done
  obtain ⟨key, data, held, foremost, rfl, slots⟩ := getSingleMatchResult_ok matching
  obtain ⟨found, rfl⟩ := BigMap.remove_eq_ok.mp removing
  obtain ⟨order, owner, atSlot⟩ := consistent.owner held
  cases found.symm.trans owner
  have filed : find? (if 0 < data.size - size then
        (book.orders.erase data.orderId).insert data.orderId
          ⟨{ order with remainingSize := data.size - size }, true⟩
      else book.orders.erase data.orderId) =
      update book.orders.find? data.orderId (if data.size - size = 0 then none
        else some ⟨{ order with remainingSize := data.size - size }, true⟩) := by
    by_cases consumed : data.size - size = 0
    · rw [if_pos consumed, if_neg (by omega), find?_erase_eq]
    · rw [if_neg consumed, if_pos (by omega), find?_insert_eq, find?_erase_eq, Function.update_idem]
  refine ⟨key, data, order, held, foremost, owner, atSlot, rfl, filed, ?_⟩
  rw [← atSlot] at slots
  by_cases consumed : data.size - size = 0
  · rw [if_pos (Nat.le_of_sub_eq_zero consumed)] at slots
    rw [if_pos consumed] at filed
    exact Step.of_eq (book.ledger.close data.orderId order) (.close owner) filed slots rfl rfl
  · rw [if_neg (by omega)] at slots
    rw [if_neg consumed] at filed
    exact Step.of_eq (book.ledger.resize data.orderId order (data.size - size)) (.resize _ owner)
      filed slots rfl rfl

/-! ## Cancelling -/

/-- A price-triggered order is looked for in the index of the other direction, where nothing
has its number. -/
theorem cancelPendingOrder_slot {order : Order M}
    {trigger : TriggerCondition} {pending : PendingOrderBookIndex}
    (there : book.orders.find? orderId = some ⟨order, false⟩)
    (waits : order.triggerCondition = some trigger)
    (done : book.pendingOrders.cancelPendingOrder trigger order.uniquePriorityIdx = .ok pending) :
    pending.lookup = update book.pendingOrders.lookup
      (trigger.pendingSlot order.uniquePriorityIdx) none := by
  obtain ⟨⟨other, held⟩, changed⟩ := cancelPendingOrder_ok done
  obtain ⟨⟨order', isActive⟩, found, atSlot⟩ := consistent.waiting.backed held
  cases isActive with
  | true => cases atSlot
  | false =>
    obtain ⟨trigger', waits', atSlot⟩ := Option.map_eq_some_iff.mp atSlot
    -- the order in the emptied slot has the number of the cancelled one
    have sameNumber : trigger.pendingSlot order.uniquePriorityIdx =
        cancelledSlot order.uniquePriorityIdx trigger := by
      have samePrice : order'.uniquePriorityIdx = order.uniquePriorityIdx → trigger' = trigger := by
        intro number
        have sameId := consistent.numbered.distinct found there number
        subst sameId
        cases found.symm.trans there
        exact Option.some.inj (waits'.symm.trans waits)
      cases trigger with
      | priceMoveAbove price =>
        cases trigger' with
        | priceMoveAbove price' | timeBased time' => cases atSlot
        | priceMoveBelow price' => cases samePrice (by injection atSlot with eq; injection eq)
      | priceMoveBelow price =>
        cases trigger' with
        | priceMoveBelow price' | timeBased time' => cases atSlot
        | priceMoveAbove price' => cases samePrice (by injection atSlot with eq; injection eq)
      | timeBased time => rfl
    rw [changed, sameNumber]

theorem cancelOrder_ok {order : Order M}
    (done : book.cancelOrder orderCreator orderId = .ok (order, book')) :
    (∃ isActive, book.orders.find? orderId = some ⟨order, isActive⟩) ∧
      book'.orders.find? = update book.orders.find? orderId none ∧
      Step loose book.ledger book'.ledger := by
  have done := of_check done
  obtain ⟨⟨⟨order', isActive⟩, orders⟩, removing, done⟩ := of_bind done
  have done := of_check done
  obtain ⟨found, rfl⟩ := BigMap.remove_eq_ok.mp removing
  cases isActive with
  | true =>
    obtain ⟨⟨cancelled, active⟩, cancelling, done⟩ := of_bind done
    obtain ⟨clientOrderIds, -, same⟩ := of_bind done
    cases same
    exact ⟨⟨true, found⟩, find?_erase_eq, Step.of_eq (book.ledger.close orderId order) (.close found)
      find?_erase_eq (cancelActiveOrder_ok cancelling) rfl rfl⟩
  | false =>
    rw [if_neg Bool.false_ne_true] at done
    split at done
    · cases done
    rename_i trigger waits
    obtain ⟨pending, cancelling, done⟩ := of_bind done
    obtain ⟨clientOrderIds, -, same⟩ := of_bind done
    cases same
    exact ⟨⟨false, found⟩, find?_erase_eq, Step.of_eq
      (book.ledger.drop orderId (trigger.pendingSlot order.uniquePriorityIdx))
      (.drop found (OrderWithState.pendingSlot_waiting waits)) find?_erase_eq rfl
      (cancelPendingOrder_slot consistent found waits cancelling) rfl⟩

/-! ## Changes in place -/

theorem decreaseOrderSize_ok
    (sized : Ledger.Sized book.ledger.orders book.ledger.active ∨ loose) {sizeDelta : Nat}
    (done : book.decreaseOrderSize orderCreator orderId sizeDelta = .ok book') :
    (∃ order isActive, book.orders.find? orderId = some ⟨order, isActive⟩ ∧
      sizeDelta < order.remainingSize ∧
      book'.orders.find? = update book.orders.find? orderId
        (some ⟨{ order with remainingSize := order.remainingSize - sizeDelta }, isActive⟩)) ∧
    Step loose book.ledger book'.ledger := by
  have done := of_check done
  obtain ⟨⟨order, isActive⟩, borrowed, done⟩ := of_bind done
  have done := of_check done
  obtain ⟨_, enough, done⟩ := of_bind done
  obtain ⟨remaining, subtracted, done⟩ := of_bind done
  have found := BigMap.borrow_eq_ok.mp borrowed
  obtain ⟨-, rfl⟩ := Checked.sub_eq_ok.mp subtracted
  cases isActive with
  | false =>
    cases done
    refine ⟨⟨order, false, found, ensure_eq_ok.mp enough, find?_insert_eq⟩, ?_⟩
    exact Step.of_eq (book.ledger.amend orderId
      ⟨{ order with remainingSize := order.remainingSize - sizeDelta }, false⟩)
      (.resizeWaiting _ found) find?_insert_eq rfl rfl rfl
  | true =>
    obtain ⟨active, changing, rfl⟩ := of_return done
    obtain ⟨data, size, held, smaller, slots⟩ := changeOrderSize_ok changing
    obtain ⟨-, rfl⟩ := Checked.sub_eq_ok.mp smaller
    obtain ⟨data', held', name⟩ := consistent.entry found
    cases held.symm.trans held'
    refine ⟨⟨order, true, found, ensure_eq_ok.mp enough, find?_insert_eq⟩, ?_⟩
    rcases sized with sized | isLoose
    · have sameSize : data.size = order.remainingSize := sized orderId order data found held
      rw [name, sameSize] at slots
      exact Step.of_eq (book.ledger.resize orderId order (order.remainingSize - sizeDelta))
        (.resize _ found) find?_insert_eq slots rfl rfl
    · exact Step.of_eq (book.ledger.stretch orderId
        ⟨{ order with remainingSize := order.remainingSize - sizeDelta }, true⟩ order.activeSlot
        ⟨data.orderId, data.size - sizeDelta⟩)
        (.stretch _ _ isLoose found held) find?_insert_eq slots rfl rfl

end

theorem setOrderMetadata_step {metadata : M}
    (done : book.setOrderMetadata orderId metadata = .ok book') :
    Step loose book.ledger book'.ledger := by
  have done := of_check done
  obtain ⟨⟨order, isActive⟩, borrowed, rfl⟩ := of_return done
  exact Step.of_eq (book.ledger.amend orderId ⟨{ order with metadata }, isActive⟩)
    (.relabel metadata (BigMap.borrow_eq_ok.mp borrowed)) find?_insert_eq rfl rfl rfl

variable {original : Order M}

/-- What a reinsertion does: it places the order again, or adds to the order that is filed and
to the entry in the slot of the original order. -/
theorem reinsertMakerOrder_ok (done : book.reinsertMakerOrder orderReq original = .ok book') :
    original.orderId = orderReq.orderId ∧
    (book.placeMakerOrder orderReq = .ok book' ∨
      ∃ order isActive data, book.orders.find? orderReq.orderId = some ⟨order, isActive⟩ ∧
        book.activeOrders.lookup (orderReq.isBid, ⟨orderReq.price,
          getTieBreaker original.uniquePriorityIdx orderReq.isBid⟩) = some data ∧
        book'.ledger = book.ledger.stretch orderReq.orderId
          ⟨{ order with remainingSize := order.remainingSize + orderReq.remainingSize }, isActive⟩
          (orderReq.isBid, ⟨orderReq.price,
            getTieBreaker original.uniquePriorityIdx orderReq.isBid⟩)
          ⟨data.orderId, data.size + orderReq.remainingSize⟩) := by
  obtain ⟨_, sameId, done⟩ := of_bind done
  have done := of_check done
  have done := of_check done
  have done := of_check done
  have done := of_check done
  have done := of_check done
  have done := of_check done
  refine ⟨ensure_eq_ok.mp sameId, ?_⟩
  split at done
  · exact .inl done
  rename_i order isActive found
  obtain ⟨remaining, added, done⟩ := of_bind done
  obtain ⟨active, changing, rfl⟩ := of_return done
  obtain ⟨-, rfl⟩ := Checked.add_eq_ok.mp added
  obtain ⟨data, size, held, larger, slots⟩ := changeOrderSize_ok changing
  obtain ⟨-, rfl⟩ := Checked.add_eq_ok.mp larger
  refine .inr ⟨order, isActive, data, found, held, ?_⟩
  unfold ledger
  rw [find?_insert_eq, slots]
  rfl

theorem reinsertMakerOrder_loose (done : book.reinsertMakerOrder orderReq original = .ok book') :
    Step True book.ledger book'.ledger := by
  obtain ⟨-, placed | ⟨order, isActive, data, found, held, changed⟩⟩ := reinsertMakerOrder_ok done
  · exact (placeMakerOrder_ok placed).2
  · rw [changed]
    exact .stretch _ _ trivial found held

/-- The entry in the slot of an order that was handed out is the entry of the order that has
its identifier. -/
theorem reinsertMakerOrder_strict (consistent : Consistent book.ledger)
    (sized : Ledger.Sized book.ledger.orders book.ledger.active)
    (remembers : book.ledger.Remembers original)
    (done : book.reinsertMakerOrder orderReq original = .ok book') :
    Step False book.ledger book'.ledger := by
  obtain ⟨sameId, placed | ⟨order, isActive, data, found, held, changed⟩⟩ :=
    reinsertMakerOrder_ok done
  · exact (placeMakerOrder_ok placed).2
  obtain ⟨owner, there, atSlot⟩ := consistent.owner held
  have small : book.ledger.issued ≤ u128Max := consistent.small.trans (by decide)
  have number : owner.uniquePriorityIdx = original.uniquePriorityIdx := by
    have sameBreaker : getTieBreaker owner.uniquePriorityIdx owner.isBid =
        getTieBreaker original.uniquePriorityIdx orderReq.isBid :=
      congrArg (fun slot : ActiveSlot => slot.2.tieBreaker) atSlot
    have sameSide : owner.isBid = orderReq.isBid := congrArg Prod.fst atSlot
    rw [sameSide] at sameBreaker
    exact getTieBreaker_inj ((consistent.numbered.bounded there).trans small)
      (remembers.issued.trans small) sameBreaker
  have name : data.orderId = orderReq.orderId := (remembers.same there number).trans sameId
  rw [name] at there changed
  cases found.symm.trans there
  have size : data.size = order.remainingSize :=
    sized _ order data there (by rw [atSlot]; exact held)
  rw [size, ← atSlot] at changed
  rw [changed]
  exact .resize _ there

/-! ## Taking orders that are ready -/

/-- Orders that are taken out of the pending index are orders that wait. -/
theorem removeOrders_steps {ids : List OrderId} {orders orders' : BigMap OrderId (OrderWithState M)}
    {taken : List (Order M)} {pending pending' : PendingSlot → Option OrderId}
    {active : ActiveSlot → Option ActiveBidData} {issued : Nat}
    (consistent : Consistent ⟨orders.find?, active, pending, issued⟩)
    (fromSlots : TakenFrom pending ids pending')
    (done : removeOrders orders ids = .ok (taken, orders')) :
    Relation.ReflTransGen (Step loose) ⟨orders.find?, active, pending, issued⟩
      ⟨orders'.find?, active, pending', issued⟩ := by
  induction fromSlots generalizing orders taken with
  | nil =>
    cases done
    exact .refl
  | @cons pending pending' id ids slot held rest ih =>
    obtain ⟨⟨record, next⟩, removing, done⟩ := of_bind done
    obtain ⟨⟨others, last⟩, removingRest, same⟩ := of_bind done
    cases same
    obtain ⟨found, rfl⟩ := BigMap.remove_eq_ok.mp removing
    obtain ⟨record', found', atSlot⟩ := consistent.waiting.backed held
    cases found.symm.trans found'
    have step : Step loose ⟨orders.find?, active, pending, issued⟩
        ⟨(orders.erase id).find?, active, update pending slot none, issued⟩ :=
      Step.of_eq _ (.drop found atSlot) find?_erase_eq rfl rfl rfl
    exact .head step (ih (step.consistent consistent) removingRest)

variable {taken : List (Order M)} {orderLimit : Nat}

end OrderBook

end CreditChain
