import CreditChain.OrderBook.Ledger

/-!
# The active book and the pending index, slot by slot

What the operations on the two indexes of the order book do to the slots of its ledger.
-/

namespace CreditChain

open OrderedMap BigMap List Function

/-! ## The active book -/

namespace ActiveOrderBook

/-- The entry of a slot. -/
def lookup (self : ActiveOrderBook) (slot : ActiveSlot) : Option ActiveBidData :=
  (self.side slot.1).find? slot.2

theorem side_withSide (self : ActiveOrderBook) (isBid isBid' : Bool)
    (orders : BigMap ActiveBidKey ActiveBidData) :
    (self.withSide isBid orders).side isBid' =
      if isBid' = isBid then orders else self.side isBid' := by
  cases isBid <;> cases isBid' <;> rfl

variable {orders : BigMap ActiveBidKey ActiveBidData}

/-- Changing one entry of one side. -/
theorem lookup_withSide (self : ActiveOrderBook) (isBid : Bool) {key : ActiveBidKey}
    {content : Option ActiveBidData}
    (changed : orders.find? = update (self.side isBid).find? key content) :
    (self.withSide isBid orders).lookup = update self.lookup (isBid, key) content := by
  funext slot
  obtain ⟨isBid', key'⟩ := slot
  show ((self.withSide isBid orders).side isBid').find? key' = _
  rw [side_withSide]
  by_cases sameSide : isBid' = isBid
  · subst sameSide
    rw [if_pos rfl, changed]
    by_cases sameKey : key' = key
    · subst sameKey
      rw [update_self, update_self]
    · rw [update_of_ne sameKey, update_of_ne (by simpa using sameKey)]
      rfl
  · rw [if_neg sameSide, update_of_ne (by simp [sameSide])]
    rfl

variable {self self' : ActiveOrderBook} {price size : Nat} {idx : UniqueIdx} {isBid : Bool}

theorem cancelActiveOrder_ok {cancelled : Nat}
    (done : self.cancelActiveOrder price idx isBid = .ok (cancelled, self')) :
    self'.lookup = update self.lookup (isBid, ⟨price, getTieBreaker idx isBid⟩) none := by
  obtain ⟨⟨data, orders⟩, removed, same⟩ := of_bind done
  obtain ⟨-, rfl⟩ := remove_eq_ok.mp removed
  cases same
  exact lookup_withSide self isBid find?_erase_eq

theorem changeOrderSize_ok {change : Nat → Checked Nat}
    (done : self.changeOrderSize change price idx isBid = .ok self') :
    ∃ data size, self.lookup (isBid, ⟨price, getTieBreaker idx isBid⟩) = some data ∧
      change data.size = .ok size ∧
      self'.lookup = update self.lookup (isBid, ⟨price, getTieBreaker idx isBid⟩)
        (some ⟨data.orderId, size⟩) := by
  obtain ⟨data, found, done⟩ := of_bind done
  obtain ⟨size, changed, rfl⟩ := of_return done
  exact ⟨data, size, borrow_eq_ok.mp found, changed, lookup_withSide self isBid find?_insert_eq⟩

/-- What is no taker order is below all asks, or above all bids. -/
theorem passive_of_not_isTakerOrder (not : self.isTakerOrder price isBid = false) :
    Ledger.Passive self.lookup isBid price := by
  intro key data held
  cases isBid with
  | true =>
    cases front : self.sells.front? with
    | none => cases (front?_eq_none.mp front key).symm.trans held
    | some entry =>
      obtain ⟨best, data'⟩ := entry
      have least := (front?_eq_some.mp front).2 key data held
      have below : price < best.price := by
        simpa [isTakerOrder, bestAskPrice, front] using not
      rcases ActiveBidKey.le_iff.mp least with lt | ⟨eq, -⟩
      · exact below.trans lt
      · exact eq ▸ below
  | false =>
    cases back : self.buys.back? with
    | none => cases (back?_eq_none.mp back key).symm.trans held
    | some entry =>
      obtain ⟨best, data'⟩ := entry
      have greatest := (back?_eq_some.mp back).2 key data held
      have above : best.price < price := by
        simpa [isTakerOrder, bestBidPrice, back] using not
      rcases ActiveBidKey.le_iff.mp greatest with lt | ⟨eq, -⟩
      · exact lt.trans above
      · exact eq ▸ above

theorem placeMakerOrder_ok {orderId : OrderId}
    (done : self.placeMakerOrder orderId price idx size isBid = .ok self') :
    self.lookup (isBid, ⟨price, getTieBreaker idx isBid⟩) = none ∧
      Ledger.Passive self.lookup isBid price ∧
      self'.lookup = update self.lookup (isBid, ⟨price, getTieBreaker idx isBid⟩)
        (some ⟨orderId, size⟩) := by
  obtain ⟨_, checked, done⟩ := of_bind done
  obtain ⟨orders, added, rfl⟩ := of_return done
  obtain ⟨free, rfl⟩ := add_eq_ok.mp added
  exact ⟨free, passive_of_not_isTakerOrder (by simpa using checked),
    lookup_withSide self isBid find?_insert_eq⟩

/-- The key that is matched first: for a bid the least key of the asks, for an ask the greatest
key of the bids. -/
def Foremost (self : ActiveOrderBook) (isBid : Bool) (key : ActiveBidKey) : Prop :=
  ∀ key' data', self.lookup (!isBid, key') = some data' → if isBid then key ≤ key' else key' ≤ key

variable {result : ActiveMatchedOrder}

theorem singleMatchWithCurrentActiveOrder_ok {orders' : BigMap ActiveBidKey ActiveBidData}
    {key : ActiveBidKey} {data : ActiveBidData} (held : orders.find? key = some data)
    (done : singleMatchWithCurrentActiveOrder size key data orders = .ok (result, orders')) :
    result = ⟨data.orderId, min data.size size, data.size - size⟩ ∧
      orders'.find? = update orders.find? key
        (if data.size ≤ size then none else some ⟨data.orderId, data.size - size⟩) := by
  obtain ⟨left, subtracted, done⟩ := of_bind done
  by_cases consumed : data.size ≤ size
  · simp only [consumed, if_true, Checked.sub_eq_ok, le_refl, true_and, Nat.sub_self]
      at subtracted done ⊢
    obtain ⟨⟨removed, orders''⟩, ok, same⟩ := of_bind done
    obtain ⟨-, rfl⟩ := remove_eq_ok.mp ok
    cases same
    rw [min_eq_left consumed, Nat.sub_eq_zero_of_le consumed, ← subtracted]
    exact ⟨rfl, find?_erase_eq⟩
  · simp only [consumed, Checked.sub_eq_ok] at subtracted done ⊢
    obtain ⟨value, found, done⟩ := of_bind done
    cases held.symm.trans (borrow_eq_ok.mp found)
    obtain ⟨size', subtracted', same⟩ := of_bind done
    obtain ⟨-, rfl⟩ := Checked.sub_eq_ok.mp subtracted'
    cases same
    rw [min_eq_right (Nat.le_of_not_le consumed), ← subtracted.2]
    exact ⟨rfl, find?_insert_eq⟩

/-- A match takes from the foremost entry of the other side. -/
theorem getSingleMatchResult_ok
    (done : self.getSingleMatchResult price size isBid = .ok (result, self')) :
    ∃ key data, self.lookup (!isBid, key) = some data ∧ self.Foremost isBid key ∧
      result = ⟨data.orderId, min data.size size, data.size - size⟩ ∧
      self'.lookup = update self.lookup (!isBid, key)
        (if data.size ≤ size then none else some ⟨data.orderId, data.size - size⟩) := by
  cases isBid with
  | true =>
    obtain ⟨⟨key, data⟩, front, done⟩ := of_bind done
    have done := of_check done
    obtain ⟨⟨result', orders⟩, matched, same⟩ := of_bind done
    obtain ⟨held, least⟩ := front?_eq_some.mp (borrowFront_eq_ok.mp front)
    obtain ⟨rfl, changed⟩ := singleMatchWithCurrentActiveOrder_ok held matched
    cases same
    exact ⟨key, data, held, least, rfl, lookup_withSide self false changed⟩
  | false =>
    obtain ⟨⟨key, data⟩, back, done⟩ := of_bind done
    have done := of_check done
    obtain ⟨⟨result', orders⟩, matched, same⟩ := of_bind done
    obtain ⟨held, greatest⟩ := back?_eq_some.mp (borrowBack_eq_ok.mp back)
    obtain ⟨rfl, changed⟩ := singleMatchWithCurrentActiveOrder_ok held matched
    cases same
    exact ⟨key, data, held, greatest, rfl, lookup_withSide self true changed⟩

end ActiveOrderBook

/-! ## The orders that wait -/

/-- Identifiers are taken out of slots, one after the other. -/
inductive TakenFrom {S : Type} [DecidableEq S] :
    (S → Option OrderId) → List OrderId → (S → Option OrderId) → Prop
  | nil {slots : S → Option OrderId} : TakenFrom slots [] slots
  | cons {slots slots' : S → Option OrderId} {id : OrderId} {ids : List OrderId} (slot : S) :
      slots slot = some id → TakenFrom (update slots slot none) ids slots' →
      TakenFrom slots (id :: ids) slots'

theorem TakenFrom.append {S : Type} [DecidableEq S] {slots slots' slots'' : S → Option OrderId}
    {ids ids' : List OrderId} (first : TakenFrom slots ids slots')
    (second : TakenFrom slots' ids' slots'') : TakenFrom slots (ids ++ ids') slots'' := by
  induction first with
  | nil => exact second
  | cons slot held _ ih => exact .cons slot held (ih second)

namespace PendingOrderBookIndex

/-- The slots of three indexes. -/
def slotsOf (up down : PendingOrderKey → Option OrderId) (time : Nat → Option OrderId) :
    PendingSlot → Option OrderId
  | .up key => up key
  | .down key => down key
  | .time t => time t

/-- The order that waits in a slot. -/
def lookup (self : PendingOrderBookIndex) : PendingSlot → Option OrderId :=
  slotsOf self.priceMoveUpIndex.find? self.priceMoveDownIndex.find? self.timeBasedIndex.find?

section Slots

variable {up up' down down' : PendingOrderKey → Option OrderId} {time time' : Nat → Option OrderId}
  {ids : List OrderId}

theorem slotsOf_up (key : PendingOrderKey) (content : Option OrderId) :
    slotsOf (update up key content) down time =
      update (slotsOf up down time) (.up key) content := by
  funext slot
  cases slot with
  | up key' => by_cases same : key' = key <;> simp [slotsOf, same]
  | down key' | time t => simp [slotsOf]

theorem slotsOf_down (key : PendingOrderKey) (content : Option OrderId) :
    slotsOf up (update down key content) time =
      update (slotsOf up down time) (.down key) content := by
  funext slot
  cases slot with
  | up key' | time t => simp [slotsOf]
  | down key' => by_cases same : key' = key <;> simp [slotsOf, same]

theorem slotsOf_time (t : Nat) (content : Option OrderId) :
    slotsOf up down (update time t content) =
      update (slotsOf up down time) (.time t) content := by
  funext slot
  cases slot with
  | up key' | down key' => simp [slotsOf]
  | time t' => by_cases same : t' = t <;> simp [slotsOf, same]

theorem takenFrom_up (taken : TakenFrom up ids up') :
    TakenFrom (slotsOf up down time) ids (slotsOf up' down time) := by
  induction taken with
  | nil => exact .nil
  | cons key held _ ih => exact .cons (.up key) held (slotsOf_up key none ▸ ih)

theorem takenFrom_down (taken : TakenFrom down ids down') :
    TakenFrom (slotsOf up down time) ids (slotsOf up down' time) := by
  induction taken with
  | nil => exact .nil
  | cons key held _ ih => exact .cons (.down key) held (slotsOf_down key none ▸ ih)

theorem takenFrom_time (taken : TakenFrom time ids time') :
    TakenFrom (slotsOf up down time) ids (slotsOf up down time') := by
  induction taken with
  | nil => exact .nil
  | cons t held _ ih => exact .cons (.time t) held (slotsOf_time t none ▸ ih)

end Slots

/-- Entries that the loop takes come out of the index. -/
theorem takeReady_taken {K : Type} [LinearOrder K] [DecidableEq K]
    {next? : BigMap K OrderId → Option (K × OrderId)}
    (held : ∀ {index key id}, next? index = some (key, id) → index.find? key = some id)
    {ready : K → Bool} {limit rounds : Nat} {index index' : BigMap K OrderId}
    {orders orders' : List OrderId}
    (taken : takeReady next? ready limit rounds index orders = (orders', index')) :
    ∃ ids, orders' = orders ++ ids ∧ TakenFrom index.find? ids index'.find? := by
  induction rounds generalizing index orders with
  | zero =>
    cases taken
    exact ⟨[], (append_nil _).symm, .nil⟩
  | succ rounds ih =>
    rw [takeReady] at taken
    split at taken
    · cases taken
      exact ⟨[], (append_nil _).symm, .nil⟩
    · next key id found =>
      split at taken
      · obtain ⟨ids, rfl, rest⟩ := ih taken
        rw [find?_erase_eq] at rest
        exact ⟨id :: ids, by rw [append_assoc]; rfl, .cons key (held found) rest⟩
      · cases taken
        exact ⟨[], (append_nil _).symm, .nil⟩

variable {self self' : PendingOrderBookIndex} {ids : List OrderId} {limit : Nat}

theorem takeReadyPriceBasedOrders_taken {currentPrice : Nat}
    (taken : self.takeReadyPriceBasedOrders currentPrice limit = (ids, self')) :
    TakenFrom self.lookup ids self'.lookup := by
  unfold takeReadyPriceBasedOrders at taken
  generalize first : takeReady front? _ limit _ self.priceMoveUpIndex [] = ups at taken
  obtain ⟨upIds, up⟩ := ups
  dsimp only at taken
  generalize second : takeReady back? _ limit _ self.priceMoveDownIndex upIds = downs at taken
  obtain ⟨allIds, down⟩ := downs
  cases taken
  obtain ⟨upTaken, rfl, fromUp⟩ := takeReady_taken (fun found => (front?_eq_some.mp found).1) first
  obtain ⟨downTaken, rfl, fromDown⟩ :=
    takeReady_taken (fun found => (back?_eq_some.mp found).1) second
  exact (takenFrom_up fromUp).append (takenFrom_down fromDown)

theorem takeTimeTimeBasedOrders_taken {nowSeconds : Nat}
    (taken : self.takeTimeTimeBasedOrders nowSeconds limit = (ids, self')) :
    TakenFrom self.lookup ids self'.lookup := by
  unfold takeTimeTimeBasedOrders at taken
  generalize times : takeReady front? _ limit _ self.timeBasedIndex [] = result at taken
  cases taken
  obtain ⟨timeTaken, rfl, fromTime⟩ :=
    takeReady_taken (fun found => (front?_eq_some.mp found).1) times
  exact takenFrom_time fromTime

variable {trigger : TriggerCondition} {idx : UniqueIdx}

theorem placePendingMakerOrder_ok {id : OrderId}
    (done : self.placePendingMakerOrder id trigger idx = .ok self') :
    self.lookup (trigger.pendingSlot idx) = none ∧
      self'.lookup = update self.lookup (trigger.pendingSlot idx) (some id) := by
  cases trigger with
  | priceMoveAbove price =>
    obtain ⟨up, added, rfl⟩ := of_return done
    obtain ⟨free, rfl⟩ := add_eq_ok.mp added
    exact ⟨free, by unfold lookup; rw [find?_insert_eq, slotsOf_up]; rfl⟩
  | priceMoveBelow price =>
    obtain ⟨down, added, rfl⟩ := of_return done
    obtain ⟨free, rfl⟩ := add_eq_ok.mp added
    exact ⟨free, by unfold lookup; rw [find?_insert_eq, slotsOf_down]; rfl⟩
  | timeBased time =>
    obtain ⟨times, added, rfl⟩ := of_return done
    obtain ⟨free, rfl⟩ := add_eq_ok.mp added
    exact ⟨free, by unfold lookup; rw [find?_insert_eq, slotsOf_time]; rfl⟩

/-- The slot that `cancelPendingOrder` empties. -/
def cancelledSlot (idx : UniqueIdx) : TriggerCondition → PendingSlot
  | .priceMoveAbove price => .down ⟨price, idx⟩
  | .priceMoveBelow price => .up ⟨price, idx⟩
  | .timeBased time => .time time

theorem removeIfSome_ok {K : Type} [LinearOrder K] [DecidableEq K] {m m' : BigMap K OrderId} {k : K}
    (done : removeIfSome m (some k) = .ok m') :
    (∃ id, m.find? k = some id) ∧ m'.find? = update m.find? k none := by
  obtain ⟨⟨id, m''⟩, removed, rfl⟩ := of_return done
  obtain ⟨held, rfl⟩ := remove_eq_ok.mp removed
  exact ⟨⟨id, held⟩, find?_erase_eq⟩

theorem cancelPendingOrder_ok (done : self.cancelPendingOrder trigger idx = .ok self') :
    (∃ id, self.lookup (cancelledSlot idx trigger) = some id) ∧
      self'.lookup = update self.lookup (cancelledSlot idx trigger) none := by
  obtain ⟨up, upDone, done⟩ := of_bind done
  obtain ⟨down, downDone, done⟩ := of_bind done
  obtain ⟨time, timeDone, rfl⟩ := of_return done
  unfold lookup
  cases trigger with
  | priceMoveAbove price =>
    obtain ⟨held, changed⟩ := removeIfSome_ok downDone
    cases upDone
    cases timeDone
    exact ⟨held, by rw [changed, slotsOf_down]; rfl⟩
  | priceMoveBelow price =>
    obtain ⟨held, changed⟩ := removeIfSome_ok upDone
    cases downDone
    cases timeDone
    exact ⟨held, by rw [changed, slotsOf_up]; rfl⟩
  | timeBased t =>
    obtain ⟨held, changed⟩ := removeIfSome_ok timeDone
    cases upDone
    cases downDone
    exact ⟨held, by rw [changed, slotsOf_time]; rfl⟩

end PendingOrderBookIndex

end CreditChain
