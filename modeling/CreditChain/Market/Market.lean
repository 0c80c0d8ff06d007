import CreditChain.Market.Types

/-!
# Placing, matching and cancelling

The calls of a market.  Events are left out.
-/

namespace CreditChain

/-- The order that a call wants to place. -/
structure OrderArgs (M : Type) where
  userAddr : Address
  limitPrice : Nat
  origSize : Nat
  isBid : Bool
  timeInForce : TimeInForce
  triggerCondition : Option TriggerCondition
  metadata : M
  clientOrderId : Option Nat

/-- An order that is being placed, with its identifier. -/
structure Taker (M : Type) extends OrderArgs M where
  orderId : OrderId

/-- What `settle_single_trade` returns and what it changes of the order that is placed. -/
structure Settlement where
  cancelReason : Option OrderCancellationReason
  remainingSize : Nat
  fillSizes : List Nat

/-- How a round of matching ends: with a result, or with an order that still crosses the book. -/
inductive MatchRound (M : Type) where
  | finished (result : OrderMatchResult) (engine : Engine M)
  | crossing (remainingSize : Nat) (fillSizes : List Nat) (engine : Engine M)

namespace Engine

def eInvalidOrder : Nat := 1

def eOrderDoesNotExist : Nat := 6

def eNotOrderCreator : Nat := 12

variable {M : Type} (callbacks : Callbacks M) (self : Engine M) (taker : Taker M)

def nextOrderId : Checked (OrderId × Engine M) := do
  let (orderId, orderIdGenerator) ← self.market.orderIdGenerator.nextAscendingId
  return (orderId, { self with market := { self.market with orderIdGenerator } })

def nextFillId (self : Engine M) : Checked (Nat × Engine M) := do
  let nextFillId ← Checked.add u64Max self.market.nextFillId 1
  return (self.market.nextFillId, { self with market := { self.market with nextFillId } })

def cancelOrderInternal (sizeDelta : Nat) (fillSizes : List Nat) (matchCount : Nat)
    (cancelReason : OrderCancellationReason) : OrderMatchResult × Engine M :=
  (⟨taker.orderId, 0, some cancelReason, fillSizes, matchCount⟩,
    self.notify (.cleanupOrder taker.userAddr taker.orderId taker.isBid sizeDelta))

variable (makerOrder : Order M)

def cancelMakerOrderInternal (unsettledSize : Nat) : Checked (Engine M) := do
  let makerCancelSize ← Checked.add u64Max unsettledSize makerOrder.remainingSize
  let cleanup := .cleanupOrder makerOrder.account makerOrder.orderId makerOrder.isBid
    makerCancelSize
  if makerOrder.remainingSize ≠ 0 then
    let (_, orderBook) ←
      self.market.orderBook.cancelOrder makerOrder.account makerOrder.orderId
    return (self.withOrderBook orderBook).notify cleanup
  else return self.notify cleanup

variable (remainingSize : Nat) (fillSizes : List Nat)

def placeMakerOrderInternal (matchCount : Nat) : Checked (OrderMatchResult × Engine M) :=
  if taker.timeInForce = .ioc then
    .ok (self.cancelOrderInternal taker remainingSize fillSizes matchCount .iocViolation)
  else do
    let self := self.notify (.placeMakerOrder taker.userAddr taker.orderId taker.isBid
      taker.limitPrice remainingSize taker.metadata)
    let orderBook ← self.market.orderBook.placeMakerOrder
      { account := taker.userAddr, orderId := taker.orderId, clientOrderId := taker.clientOrderId,
        price := taker.limitPrice, origSize := taker.origSize, remainingSize, isBid := taker.isBid,
        triggerCondition := taker.triggerCondition, timeInForce := taker.timeInForce,
        metadata := taker.metadata }
    return (⟨taker.orderId, remainingSize, none, fillSizes, matchCount⟩,
      self.withOrderBook orderBook)

/-- What a settled size does to the remaining size, the unsettled size and the fills. -/
def fill (remainingSize makerMatchedSize settledSize : Nat) (fillSizes : List Nat) :
    Checked (Nat × Nat × List Nat) :=
  if settledSize > 0 then do
    let remainingSize ← Checked.sub remainingSize settledSize
    let unsettledMakerSize ← Checked.sub makerMatchedSize settledSize
    return (remainingSize, unsettledMakerSize, fillSizes ++ [settledSize])
  else .ok (remainingSize, makerMatchedSize, fillSizes)

/-- The request that puts back what is not settled of a maker order. -/
def reinsertion (unsettledMakerSize : Nat) (isBid : Bool) : OrderRequest M where
  account := makerOrder.account
  orderId := makerOrder.orderId
  clientOrderId := makerOrder.clientOrderId
  price := makerOrder.price
  origSize := makerOrder.origSize
  remainingSize := unsettledMakerSize
  isBid := !isBid
  triggerCondition := none
  timeInForce := makerOrder.timeInForce
  metadata := makerOrder.metadata

/-- `settle_single_trade` after the clearinghouse has answered. -/
def conclude (result : SettleTradeResult) (remainingSize unsettledMakerSize : Nat)
    (fillSizes : List Nat) : Checked (Settlement × Engine M) :=
  if result.takerCancellationReason.isSome then
    let cancelled := (self.cancelOrderInternal taker remainingSize fillSizes 0
      .clearinghouseSettleViolation).2
    let settlement : Settlement := ⟨some .clearinghouseSettleViolation, remainingSize, fillSizes⟩
    if result.makerCancellationReason.isNone ∧ unsettledMakerSize > 0 then do
      -- the taker is cancelled and the maker is not: what is not settled goes back
      let orderBook ← cancelled.market.orderBook.reinsertMakerOrder
        (reinsertion makerOrder unsettledMakerSize taker.isBid) makerOrder
      return (settlement, cancelled.withOrderBook orderBook)
    else .ok (settlement, cancelled)
  else if result.makerCancellationReason.isSome then do
    let self ← self.cancelMakerOrderInternal makerOrder unsettledMakerSize
    return (⟨none, remainingSize, fillSizes⟩, self)
  else if makerOrder.remainingSize = 0 then
    .ok (⟨none, remainingSize, fillSizes⟩, self.notify (.cleanupOrder makerOrder.account
      makerOrder.orderId (!taker.isBid) 0))
  else .ok (⟨none, remainingSize, fillSizes⟩, self)

/-- The trade that the clearinghouse is asked to settle. -/
def trade (fillId makerMatchedSize : Nat) : Trade M where
  taker := taker.userAddr
  takerOrderId := taker.orderId
  maker := makerOrder.account
  makerOrderId := makerOrder.orderId
  fillId := fillId
  isTakerLong := taker.isBid
  price := makerOrder.price
  size := makerMatchedSize
  takerMetadata := taker.metadata
  makerMetadata := makerOrder.metadata

def settleSingleTrade : Checked (Settlement × Engine M) := do
  let (⟨makerOrder, makerMatchedSize⟩, orderBook) ←
    self.market.orderBook.getSingleMatchForTaker taker.limitPrice remainingSize taker.isBid
  let self := self.withOrderBook orderBook
  if ¬ self.market.config.allowSelfTrade ∧ makerOrder.account = taker.userAddr then
    let self ← self.cancelMakerOrderInternal makerOrder makerMatchedSize
    return (⟨none, remainingSize, fillSizes⟩, self)
  else
    let (fillId, self) ← self.nextFillId
    let trade := trade taker makerOrder fillId makerMatchedSize
    let result := callbacks.settleTrade self trade
    let (remainingSize, unsettledMakerSize, fillSizes) ←
      fill remainingSize makerMatchedSize result.settledSize fillSizes
    (self.notify (.settleTrade trade result)).conclude taker makerOrder result remainingSize
      unsettledMakerSize fillSizes

/-- A round of the loop of `place_order_with_order_id`, up to the check of the match limit. -/
def matchRound (matchCount : Nat) : Checked (MatchRound M) := do
  let (settlement, self) ← self.settleSingleTrade callbacks taker remainingSize fillSizes
  if settlement.cancelReason.isSome then
    return .finished ⟨taker.orderId, 0, settlement.cancelReason, settlement.fillSizes, matchCount⟩
      self
  else if settlement.remainingSize = 0 then
    return .finished ⟨taker.orderId, 0, none, settlement.fillSizes, matchCount⟩
      (self.notify (.cleanupOrder taker.userAddr taker.orderId taker.isBid 0))
  else if ¬ self.market.orderBook.isTakerOrder taker.limitPrice taker.isBid none then
    if taker.timeInForce = .ioc then
      let (result, self) := self.cancelOrderInternal taker settlement.remainingSize
        settlement.fillSizes matchCount .iocViolation
      return .finished result self
    else
      let (result, self) ← self.placeMakerOrderInternal taker settlement.remainingSize
        settlement.fillSizes matchCount
      return .finished result self
  else return .crossing settlement.remainingSize settlement.fillSizes self

/-- The loop of `place_order_with_order_id`.  `further` rounds may follow this one, that is
`matchCount + 1 + further` is `max_match_limit` if that is not 0. -/
def matchTaker (callbacks : Callbacks M) (taker : Taker M) (cancelOnMatchLimit : Bool) :
    (further : Nat) → (self : Engine M) → (remainingSize : Nat) → (fillSizes : List Nat) →
    (matchCount : Nat) → Checked (OrderMatchResult × Engine M)
  | 0, self, remainingSize, fillSizes, matchCount => do
      let round ← self.matchRound callbacks taker remainingSize fillSizes (matchCount + 1)
      match round with
      | .finished result self => return (result, self)
      | .crossing remainingSize fillSizes self =>
        if cancelOnMatchLimit then
          return self.cancelOrderInternal taker remainingSize fillSizes (matchCount + 1)
            .maxFillLimitViolation
        else
          return (⟨taker.orderId, remainingSize, some .maxFillLimitViolation, fillSizes,
            matchCount + 1⟩, self)
  | further + 1, self, remainingSize, fillSizes, matchCount => do
      let round ← self.matchRound callbacks taker remainingSize fillSizes (matchCount + 1)
      match round with
      | .finished result self => return (result, self)
      | .crossing remainingSize fillSizes self =>
        matchTaker callbacks taker cancelOnMatchLimit further self remainingSize fillSizes
          (matchCount + 1)

/-- `is_pre_cancelled` for an order that may have a client order identifier. -/
def isPreCancelled (now : Nat) : Checked (Bool × Engine M) :=
  match taker.clientOrderId with
  | none => .ok (false, self)
  | some clientOrderId => do
      let (preCancelled, tracker) ←
        self.market.preCancellationTracker.isPreCancelled taker.userAddr clientOrderId now
      return (preCancelled, self.withTracker tracker)

/-- `place_order_with_order_id` after the order has been validated. -/
def placeValidated (isTakerOrder : Bool) (maxMatchLimit : Nat) (cancelOnMatchLimit : Bool)
    (now : Nat) : Checked (OrderMatchResult × Engine M) :=
  if taker.clientOrderId.any (self.market.orderBook.clientOrderIdExists taker.userAddr) then
    .ok (self.cancelOrderInternal taker remainingSize [] 0 .duplicateClientOrderIdViolation)
  else do
    let (preCancelled, self) ← self.isPreCancelled taker now
    if preCancelled then
      return self.cancelOrderInternal taker remainingSize [] 0 .orderPreCancelled
    else if ¬ isTakerOrder then self.placeMakerOrderInternal taker remainingSize [] 0
    else if taker.timeInForce = .postOnly then
      return self.cancelOrderInternal taker remainingSize [] 0 .postOnlyViolation
    else
      matchTaker callbacks taker cancelOnMatchLimit (maxMatchLimit - 1) self remainingSize [] 0

/-- `place_order_with_order_id` after the order has got its identifier. -/
def placeTaker (remainingSize maxMatchLimit : Nat) (cancelOnMatchLimit : Bool) (now : Nat) : Checked
    (OrderMatchResult × Engine M) :=
  let isTakerOrder :=
    self.market.orderBook.isTakerOrder taker.limitPrice taker.isBid taker.triggerCondition
  let placement : Placement M :=
    { account := taker.userAddr, orderId := taker.orderId, isTaker := isTakerOrder,
      isBid := taker.isBid, price := taker.limitPrice, timeInForce := taker.timeInForce,
      size := remainingSize, metadata := taker.metadata }
  let valid := callbacks.validateOrderPlacement self placement
  let self := self.notify (.validateOrderPlacement placement valid)
  if valid then
    self.placeValidated callbacks taker remainingSize isTakerOrder maxMatchLimit
      cancelOnMatchLimit now
  else .ok (self.cancelOrderInternal taker 0 [] 0 .positionUpdateViolation)

/-- The identifier that is given, or else the next one. -/
def orNextOrderId : Option OrderId → Checked (OrderId × Engine M)
  | some orderId => .ok (orderId, self)
  | none => self.nextOrderId

def placeOrderWithOrderId (args : OrderArgs M) (remainingSize : Nat) (orderId : Option OrderId)
    (maxMatchLimit : Nat) (cancelOnMatchLimit : Bool) (now : Nat) : Checked
    (OrderMatchResult × Engine M) := do
  ensure (args.origSize > 0 ∧ remainingSize > 0) (.code eInvalidOrder)
  let (orderId, self) ← self.orNextOrderId orderId
  self.placeTaker callbacks { args with orderId } remainingSize maxMatchLimit cancelOnMatchLimit now

variable (user : Address)

def placeLimitOrder (limitPrice origSize : Nat) (isBid : Bool) (timeInForce : TimeInForce)
    (triggerCondition : Option TriggerCondition) (metadata : M) (clientOrderId : Option Nat)
    (maxMatchLimit : Nat) (cancelOnMatchLimit : Bool) (now : Nat) : Checked
    (OrderMatchResult × Engine M) :=
  self.placeOrderWithOrderId callbacks
    ⟨user, limitPrice, origSize, isBid, timeInForce, triggerCondition, metadata, clientOrderId⟩
    origSize none maxMatchLimit cancelOnMatchLimit now

def placeMarketOrder (origSize : Nat) (isBid : Bool) (metadata : M) (clientOrderId : Option Nat)
    (maxMatchLimit : Nat) (cancelOnMatchLimit : Bool) (now : Nat) : Checked
    (OrderMatchResult × Engine M) :=
  self.placeOrderWithOrderId callbacks
    ⟨user, if isBid then u64Max else 1, origSize, isBid, .ioc, none, metadata, clientOrderId⟩
    origSize none maxMatchLimit cancelOnMatchLimit now

def cancelOrderHelper (order : Order M) : Engine M :=
  self.notify (.cleanupOrder order.account order.orderId order.isBid order.remainingSize)

def cancelOrderWithClientId (clientOrderId now : Nat) : Checked (Engine M) := do
  let (order?, orderBook) ←
    self.market.orderBook.tryCancelOrderWithClientOrderId user clientOrderId
  match order? with
  | some order => return (self.withOrderBook orderBook).cancelOrderHelper order
  | none =>
    let tracker ←
      self.market.preCancellationTracker.preCancelOrderForTracker user clientOrderId now
    return self.withTracker tracker

def cancelOrder (orderId : OrderId) : Checked (Engine M) := do
  let (order, orderBook) ← self.market.orderBook.cancelOrder user orderId
  ensure (user = order.account) (.code eNotOrderCreator)
  return (self.withOrderBook orderBook).cancelOrderHelper order

def decreaseOrderSize (orderId : OrderId) (sizeDelta : Nat) : Checked (Engine M) :=
    do
  let orderBook ← self.market.orderBook.decreaseOrderSize user orderId sizeDelta
  match orderBook.orders.find? orderId with
  | none => .error (.code eOrderDoesNotExist)
  | some ⟨order, _⟩ =>
    ensure (order.account = user) (.code eNotOrderCreator)
    return (self.withOrderBook orderBook).notify (.decreaseOrderSize order.account order.orderId
      order.isBid order.price order.remainingSize)

end Engine

end CreditChain
