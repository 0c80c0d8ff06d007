import CreditChain.OrderBook.Types

/-!
# The order book

All orders by identifier, the index of client order identifiers, the active order book and
the index of orders that wait for a trigger.
-/

namespace CreditChain

/-! ## Orders that wait -/

structure PendingOrderKey where
  price : Nat
  tieBreaker : UniqueIdx
  deriving DecidableEq

theorem PendingOrderKey.toLex_injective :
    Function.Injective fun key : PendingOrderKey => toLex (key.price, key.tieBreaker) := by
  rintro ⟨_, _⟩ ⟨_, _⟩ same
  cases same
  rfl

instance : LinearOrder PendingOrderKey := LinearOrder.lift' _ PendingOrderKey.toLex_injective

structure PendingOrderBookIndex where
  priceMoveDownIndex : BigMap PendingOrderKey OrderId
  priceMoveUpIndex : BigMap PendingOrderKey OrderId
  timeBasedIndex : BigMap Nat OrderId

namespace PendingOrderBookIndex

def newPendingOrderBookIndex : PendingOrderBookIndex := ⟨.empty, .empty, .empty⟩

/-- Remove a key that is given. -/
def removeIfSome {K : Type} [LinearOrder K] (m : BigMap K OrderId) : Option K →
    Checked (BigMap K OrderId)
  | some key => do
      let removed ← BigMap.remove m key
      return removed.2
  | none => .ok m

variable (self : PendingOrderBookIndex)

/-- `cancel_pending_order`.  It takes the first price of `index`, which is the one to move
down to, for the price to move up to, and the second one for the other. -/
def cancelPendingOrder (triggerCondition : TriggerCondition) (uniquePriorityIdx : UniqueIdx) :
    Checked PendingOrderBookIndex := do
  let (priceMoveUpIndex, priceMoveDownIndex, timeBasedIndex) := triggerCondition.index
  let up ← removeIfSome self.priceMoveUpIndex
    (priceMoveUpIndex.map fun price => ⟨price, uniquePriorityIdx⟩)
  let down ← removeIfSome self.priceMoveDownIndex
    (priceMoveDownIndex.map fun price => ⟨price, uniquePriorityIdx⟩)
  let time ← removeIfSome self.timeBasedIndex timeBasedIndex
  return ⟨down, up, time⟩

def placePendingMakerOrder (orderId : OrderId) (triggerCondition : TriggerCondition)
    (uniquePriorityIdx : UniqueIdx) : Checked PendingOrderBookIndex :=
  match triggerCondition.index with
  | (_, some price, _) => do
      let up ← BigMap.add self.priceMoveUpIndex ⟨price, uniquePriorityIdx⟩ orderId
      return { self with priceMoveUpIndex := up }
  | (some price, none, _) => do
      let down ← BigMap.add self.priceMoveDownIndex ⟨price, uniquePriorityIdx⟩ orderId
      return { self with priceMoveDownIndex := down }
  | (none, none, some time) => do
      let times ← BigMap.add self.timeBasedIndex time orderId
      return { self with timeBasedIndex := times }
  | (none, none, none) => .ok self

/-- Take the next entries of an index while they are ready and fewer than `orderLimit` orders
have been taken.  Every entry taken leaves the index, so `rounds` is at most its length. -/
def takeReady {K : Type} [LinearOrder K] (next? : BigMap K OrderId → Option (K × OrderId))
    (ready : K → Bool) (orderLimit : Nat) :
    Nat → BigMap K OrderId → List OrderId → List OrderId × BigMap K OrderId
  | 0, index, orders => (orders, index)
  | rounds + 1, index, orders =>
    match next? index with
    | none => (orders, index)
    | some (key, orderId) =>
      if orders.length < orderLimit ∧ ready key then
        takeReady next? ready orderLimit rounds (index.erase key) (orders ++ [orderId])
      else (orders, index)

def takeReadyPriceBasedOrders (currentPrice orderLimit : Nat) : List OrderId × PendingOrderBookIndex
    :=
  let (orders, up) := takeReady OrderedMap.front? (fun key => currentPrice ≥ key.price) orderLimit
    self.priceMoveUpIndex.entries.length self.priceMoveUpIndex []
  let (orders, down) := takeReady OrderedMap.back? (fun key => currentPrice ≤ key.price) orderLimit
    self.priceMoveDownIndex.entries.length self.priceMoveDownIndex orders
  (orders, { self with priceMoveUpIndex := up, priceMoveDownIndex := down })

/-- `take_time_time_based_orders`, at the time `nowSeconds`. -/
def takeTimeTimeBasedOrders (nowSeconds orderLimit : Nat) : List OrderId × PendingOrderBookIndex :=
  let (orders, times) := takeReady OrderedMap.front? (fun time => nowSeconds ≥ time) orderLimit
    self.timeBasedIndex.entries.length self.timeBasedIndex []
  (orders, { self with timeBasedIndex := times })

end PendingOrderBookIndex

/-! ## The book -/

/-- The orders by identifier, and the indexes of them. -/
structure OrderBook (M : Type) where
  orders : BigMap OrderId (OrderWithState M)
  clientOrderIds : BigMap AccountClientOrderId OrderId
  activeOrders : ActiveOrderBook
  pendingOrders : PendingOrderBookIndex
  ascendingIdGenerator : AscendingIdGenerator

namespace OrderBook

def eOrderAlreadyExists : Nat := 1

def eOrderNotFound : Nat := 4

def eInvalidInactiveOrderState : Nat := 5

def eNotActiveOrder : Nat := 7

def eReinsertOrderMismatch : Nat := 8

def eOrderCreatorMismatch : Nat := 9

-- `EINVALID_ORDER_SIZE_DECREASE` of `order_book_types`
def eInvalidOrderSizeDecrease : Nat := 4

variable {M : Type}

def newOrderBook : OrderBook M :=
  ⟨.empty, .empty, .newActiveOrderBook, .newPendingOrderBookIndex, ⟨0⟩⟩

variable (clientOrderIds : BigMap AccountClientOrderId OrderId)

/-- Forget the client order identifier of an order that has one. -/
def removeClientOrderId (order : Order M) : Checked (BigMap AccountClientOrderId OrderId) :=
  match order.clientOrderId with
  | some clientOrderId => do
      let removed ← BigMap.remove clientOrderIds ⟨order.account, clientOrderId⟩
      return removed.2
  | none => .ok clientOrderIds

/-- Forget the client order identifier of an order of which nothing remains. -/
def removeIfFilled (order : Order M) : Checked (BigMap AccountClientOrderId OrderId) :=
  if order.remainingSize = 0 then removeClientOrderId clientOrderIds order else .ok clientOrderIds

/-- Remember the client order identifier of a request that has one. -/
def addClientOrderId (orderReq : OrderRequest M) : Checked (BigMap AccountClientOrderId OrderId) :=
  match orderReq.clientOrderId with
  | some clientOrderId =>
    BigMap.add clientOrderIds ⟨orderReq.account, clientOrderId⟩ orderReq.orderId
  | none => .ok clientOrderIds

variable (self : OrderBook M) (orderCreator : Address) (orderId : OrderId)

/-- Only the account that placed an order cancels it. -/
def cancelOrder : Checked (Order M × OrderBook M) := do
  ensure (self.orders.contains orderId) (.code eOrderNotFound)
  let (⟨order, isActive⟩, orders) ← BigMap.remove self.orders orderId
  ensure (orderCreator = order.account) (.code eOrderCreatorMismatch)
  if isActive then
    let (_, activeOrders) ←
      self.activeOrders.cancelActiveOrder order.price order.uniquePriorityIdx order.isBid
    let clientOrderIds ← removeClientOrderId self.clientOrderIds order
    return (order, { self with orders, activeOrders, clientOrderIds })
  else
    match order.triggerCondition with
    | none => .error (.invalidArgument 0)
    | some triggerCondition =>
      let pendingOrders ←
        self.pendingOrders.cancelPendingOrder triggerCondition order.uniquePriorityIdx
      let clientOrderIds ← removeClientOrderId self.clientOrderIds order
      return (order, { self with orders, pendingOrders, clientOrderIds })

def tryCancelOrderWithClientOrderId (clientOrderId : Nat) : Checked (Option (Order M) × OrderBook M)
    :=
  match self.clientOrderIds.find? ⟨orderCreator, clientOrderId⟩ with
  | none => .ok (none, self)
  | some orderId => do
      let (order, self) ← self.cancelOrder orderCreator orderId
      return (some order, self)

def clientOrderIdExists (clientOrderId : Nat) : Bool :=
  self.clientOrderIds.contains ⟨orderCreator, clientOrderId⟩

def isTakerOrder (price : Nat) (isBid : Bool) (triggerCondition : Option TriggerCondition) : Bool :=
  if triggerCondition.isSome then false else self.activeOrders.isTakerOrder price isBid

def placePendingMakerOrder (orderReq : OrderRequest M) (triggerCondition : TriggerCondition) :
    Checked (OrderBook M) := do
  let (ascendingIdx, ascendingIdGenerator) ← self.ascendingIdGenerator.nextAscendingId
  let order := orderReq.newOrder ascendingIdx
  let orders ← BigMap.add self.orders orderReq.orderId ⟨order, false⟩
  let pendingOrders ←
    self.pendingOrders.placePendingMakerOrder orderReq.orderId triggerCondition ascendingIdx
  return { self with orders, pendingOrders, ascendingIdGenerator }

/-- Put an order on the book, or among those that wait for a trigger. -/
def placeMakerOrder (orderReq : OrderRequest M) : Checked (OrderBook M) :=
  match orderReq.triggerCondition with
  | some triggerCondition => self.placePendingMakerOrder orderReq triggerCondition
  | none => do
      let (ascendingIdx, ascendingIdGenerator) ← self.ascendingIdGenerator.nextAscendingId
      ensure (¬ self.orders.contains orderReq.orderId) (.invalidArgument eOrderAlreadyExists)
      let order := orderReq.newOrder ascendingIdx
      let orders ← BigMap.add self.orders orderReq.orderId ⟨order, true⟩
      let clientOrderIds ← addClientOrderId self.clientOrderIds orderReq
      let activeOrders ← self.activeOrders.placeMakerOrder orderReq.orderId orderReq.price
        ascendingIdx orderReq.remainingSize orderReq.isBid
      return { self with orders, clientOrderIds, activeOrders, ascendingIdGenerator }

/-- Give back what a match took from a maker order. -/
def reinsertMakerOrder (orderReq : OrderRequest M) (originalOrder : Order M) : Checked (OrderBook M)
    := do
  ensure (originalOrder.orderId = orderReq.orderId) (.code eReinsertOrderMismatch)
  ensure (originalOrder.account = orderReq.account) (.code eReinsertOrderMismatch)
  ensure (originalOrder.origSize = orderReq.origSize) (.code eReinsertOrderMismatch)
  ensure (originalOrder.clientOrderId = orderReq.clientOrderId) (.code eReinsertOrderMismatch)
  ensure (originalOrder.price = orderReq.price) (.code eReinsertOrderMismatch)
  ensure (originalOrder.isBid = orderReq.isBid) (.code eReinsertOrderMismatch)
  ensure (orderReq.triggerCondition = none) (.code eNotActiveOrder)
  match self.orders.find? orderReq.orderId with
  | none => self.placeMakerOrder orderReq
  | some ⟨order, isActive⟩ =>
    let remainingSize ← Checked.add u64Max order.remainingSize orderReq.remainingSize
    let orders := self.orders.insert orderReq.orderId ⟨{ order with remainingSize }, isActive⟩
    let activeOrders ← self.activeOrders.increaseOrderSize orderReq.price
      originalOrder.uniquePriorityIdx orderReq.remainingSize orderReq.isBid
    return { self with orders, activeOrders }

/-- Match a taker with one resting order. -/
def getSingleMatchForTaker (price size : Nat) (isBid : Bool) : Checked
    (SingleOrderMatch M × OrderBook M) := do
  let (⟨orderId, matchedSize, remainingSize⟩, activeOrders) ←
    self.activeOrders.getSingleMatchResult price size isBid
  let (⟨order, isActive⟩, removed) ← BigMap.remove self.orders orderId
  let order := { order with remainingSize }
  let orders := if remainingSize > 0 then removed.insert orderId ⟨order, isActive⟩ else removed
  let clientOrderIds ← removeIfFilled self.clientOrderIds order
  ensure isActive (.code eInvalidInactiveOrderState)
  return (⟨order, matchedSize⟩, { self with orders, activeOrders, clientOrderIds })

def decreaseOrderSize (sizeDelta : Nat) : Checked (OrderBook M) := do
  ensure (self.orders.contains orderId) (.code eOrderNotFound)
  let ⟨order, isActive⟩ ← BigMap.borrow self.orders orderId
  ensure (orderCreator = order.account) (.code eOrderCreatorMismatch)
  ensure (order.remainingSize > sizeDelta) (.code eInvalidOrderSizeDecrease)
  let remainingSize ← Checked.sub order.remainingSize sizeDelta
  let orders := self.orders.insert orderId ⟨{ order with remainingSize }, isActive⟩
  if isActive then
    let activeOrders ← self.activeOrders.decreaseOrderSize order.price order.uniquePriorityIdx
      sizeDelta order.isBid
    return { self with orders, activeOrders }
  else return { self with orders }

def setOrderMetadata (metadata : M) : Checked (OrderBook M) := do
  ensure (self.orders.contains orderId) (.code eOrderNotFound)
  let ⟨order, isActive⟩ ← BigMap.borrow self.orders orderId
  let orders := self.orders.insert orderId ⟨{ order with metadata }, isActive⟩
  return { self with orders }

/-- Remove orders by identifier. -/
def removeOrders : BigMap OrderId (OrderWithState M) → List OrderId →
    Checked (List (Order M) × BigMap OrderId (OrderWithState M))
  | orders, [] => .ok ([], orders)
  | orders, orderId :: orderIds => do
      let (removed, orders) ← BigMap.remove orders orderId
      let (rest, orders) ← removeOrders orders orderIds
      return (removed.order :: rest, orders)

def takeReadyPriceBasedOrders (currentPrice orderLimit : Nat) : Checked
    (List (Order M) × OrderBook M) := do
  let (orderIds, pendingOrders) :=
    self.pendingOrders.takeReadyPriceBasedOrders currentPrice orderLimit
  let (taken, orders) ← removeOrders self.orders orderIds
  return (taken, { self with orders, pendingOrders })

def takeReadyTimeBasedOrders (nowSeconds orderLimit : Nat) : Checked (List (Order M) × OrderBook M)
    := do
  let (orderIds, pendingOrders) := self.pendingOrders.takeTimeTimeBasedOrders nowSeconds orderLimit
  let (taken, orders) ← removeOrders self.orders orderIds
  return (taken, { self with orders, pendingOrders })

end OrderBook

end CreditChain
