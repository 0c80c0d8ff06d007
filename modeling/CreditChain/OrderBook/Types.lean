import CreditChain.Framework.Pool
import CreditChain.Framework.SortedMap
import Mathlib.Data.Prod.Lex

/-!
# Orders and the active order book

An order has an identifier that its creator chooses and a priority index that the order book
assigns when the order is placed.  The resting orders of each side are sorted by price and, within
a price, by a tie breaker that is made from the priority index of the order.
-/

namespace CreditChain

/-- `OrderIdType`. -/
abbrev OrderId := Nat

/-- `UniqueIdxType`: the place of an order in the sequence of all placements. -/
abbrev UniqueIdx := Nat

def UniqueIdx.descendingIdx (idx : UniqueIdx) : UniqueIdx := u128Max - idx

structure AccountClientOrderId where
  account : Address
  clientOrderId : Nat
  deriving DecidableEq

theorem AccountClientOrderId.toLex_injective :
    Function.Injective fun key : AccountClientOrderId => toLex (key.account, key.clientOrderId) := by
  rintro ⟨_, _⟩ ⟨_, _⟩ same
  cases same
  rfl

instance : LinearOrder AccountClientOrderId :=
  LinearOrder.lift' _ AccountClientOrderId.toLex_injective

inductive TimeInForce where
  | gtc
  | postOnly
  | ioc
  deriving DecidableEq

inductive TriggerCondition where
  | priceMoveAbove (price : Nat)
  | priceMoveBelow (price : Nat)
  | timeBased (time : Nat)

/-- `index`: the price to move down to, the price to move up to, and the time. -/
def TriggerCondition.index : TriggerCondition → Option Nat × Option Nat × Option Nat
  | priceMoveAbove price => (none, some price, none)
  | priceMoveBelow price => (some price, none, none)
  | timeBased time => (none, none, some time)

structure AscendingIdGenerator where
  value : Nat

def AscendingIdGenerator.nextAscendingId (self : AscendingIdGenerator) :
    Checked (Nat × AscendingIdGenerator) := do
  let value ← Checked.add u64Max self.value 1
  return (value, ⟨value⟩)

theorem AscendingIdGenerator.nextAscendingId_eq_ok {self next : AscendingIdGenerator} {idx : Nat} :
    self.nextAscendingId = .ok (idx, next) ↔
      self.value + 1 ≤ u64Max ∧ idx = self.value + 1 ∧ next = ⟨self.value + 1⟩ := by
  simp only [nextAscendingId, Except.bind_eq_ok, Checked.add_eq_ok]
  constructor
  · rintro ⟨value, ⟨fits, rfl⟩, done⟩
    cases done
    exact ⟨fits, rfl, rfl⟩
  · rintro ⟨fits, rfl, rfl⟩
    exact ⟨_, ⟨fits, rfl⟩, rfl⟩

/-- An order, with metadata of any type. -/
structure Order (M : Type) where
  orderId : OrderId
  account : Address
  clientOrderId : Option Nat
  uniquePriorityIdx : UniqueIdx
  price : Nat
  origSize : Nat
  remainingSize : Nat
  isBid : Bool
  triggerCondition : Option TriggerCondition
  timeInForce : TimeInForce
  metadata : M

structure OrderWithState (M : Type) where
  order : Order M
  isActive : Bool

structure OrderRequest (M : Type) where
  account : Address
  orderId : OrderId
  clientOrderId : Option Nat
  price : Nat
  origSize : Nat
  remainingSize : Nat
  isBid : Bool
  triggerCondition : Option TriggerCondition
  timeInForce : TimeInForce
  metadata : M

def OrderRequest.newOrder {M : Type} (req : OrderRequest M) (idx : UniqueIdx) : Order M :=
  { orderId := req.orderId, account := req.account, clientOrderId := req.clientOrderId,
    uniquePriorityIdx := idx, price := req.price, origSize := req.origSize,
    remainingSize := req.remainingSize, isBid := req.isBid,
    triggerCondition := req.triggerCondition, timeInForce := req.timeInForce,
    metadata := req.metadata }

structure SingleOrderMatch (M : Type) where
  order : Order M
  matchedSize : Nat

structure ActiveMatchedOrder where
  orderId : OrderId
  matchedSize : Nat
  remainingSize : Nat

/-! ## The active order book -/

/-- Where a resting order stands. -/
structure ActiveBidKey where
  price : Nat
  tieBreaker : UniqueIdx
  deriving DecidableEq

theorem ActiveBidKey.toLex_injective :
    Function.Injective fun key : ActiveBidKey => toLex (key.price, key.tieBreaker) := by
  rintro ⟨_, _⟩ ⟨_, _⟩ same
  cases same
  rfl

instance : LinearOrder ActiveBidKey := LinearOrder.lift' _ ActiveBidKey.toLex_injective

/-- Keys are compared by price first. -/
theorem ActiveBidKey.le_iff {a b : ActiveBidKey} :
    a ≤ b ↔ a.price < b.price ∨ (a.price = b.price ∧ a.tieBreaker ≤ b.tieBreaker) := by
  show toLex (a.price, a.tieBreaker) ≤ toLex (b.price, b.tieBreaker) ↔ _
  rw [Prod.Lex.toLex_le_toLex]

structure ActiveBidData where
  orderId : OrderId
  size : Nat

structure ActiveOrderBook where
  buys : BigMap ActiveBidKey ActiveBidData
  sells : BigMap ActiveBidKey ActiveBidData

namespace ActiveOrderBook

def eInvalidMakerOrder : Nat := 1

def eInternalInvariantBroken : Nat := 2

def newActiveOrderBook : ActiveOrderBook := ⟨.empty, .empty⟩

variable (self : ActiveOrderBook) (price : Nat) (uniquePriorityIdx : UniqueIdx) (isBid : Bool)

/-- The orders of one side. -/
def side : BigMap ActiveBidKey ActiveBidData := if isBid then self.buys else self.sells

def withSide (orders : BigMap ActiveBidKey ActiveBidData) : ActiveOrderBook :=
  if isBid then { self with buys := orders } else { self with sells := orders }

def bestBidPrice : Option Nat := self.buys.back?.map (·.1.price)

def bestAskPrice : Option Nat := self.sells.front?.map (·.1.price)

def getTieBreaker : UniqueIdx :=
  if isBid then uniquePriorityIdx else uniquePriorityIdx.descendingIdx

def cancelActiveOrder : Checked (Nat × ActiveOrderBook) := do
  let key : ActiveBidKey := ⟨price, getTieBreaker uniquePriorityIdx isBid⟩
  let removed ← BigMap.remove (self.side isBid) key
  return (removed.1.size, self.withSide isBid removed.2)

def isTakerOrder : Bool :=
  if isBid then self.bestAskPrice.any fun best => price ≥ best
  else self.bestBidPrice.any fun best => price ≤ best

/-- Take from a resting order, and remove it if nothing is left. -/
def singleMatchWithCurrentActiveOrder (remainingSize : Nat) (curKey : ActiveBidKey)
    (curValue : ActiveBidData) (orders : BigMap ActiveBidKey ActiveBidData) :
    Checked (ActiveMatchedOrder × BigMap ActiveBidKey ActiveBidData) := do
  let isCurMatchFullyConsumed := curValue.size ≤ remainingSize
  let matchedSizeForThisOrder := if isCurMatchFullyConsumed then curValue.size else remainingSize
  let left ← Checked.sub curValue.size matchedSizeForThisOrder
  let result : ActiveMatchedOrder := ⟨curValue.orderId, matchedSizeForThisOrder, left⟩
  if isCurMatchFullyConsumed then
    let removed ← BigMap.remove orders curKey
    return (result, removed.2)
  else
    let value ← BigMap.borrow orders curKey
    let size ← Checked.sub value.size matchedSizeForThisOrder
    return (result, orders.insert curKey { value with size })

/-- `get_single_match_for_buy_order`: the front of the asks. -/
def getSingleMatchForBuyOrder (price size : Nat) : Checked (ActiveMatchedOrder × ActiveOrderBook) :=
    do
  let smallest ← BigMap.borrowFront self.sells
  ensure (price ≥ smallest.1.price) (.code eInternalInvariantBroken)
  let matched ← singleMatchWithCurrentActiveOrder size smallest.1 smallest.2 self.sells
  return (matched.1, { self with sells := matched.2 })

/-- `get_single_match_for_sell_order`: the back of the bids. -/
def getSingleMatchForSellOrder (price size : Nat) : Checked (ActiveMatchedOrder × ActiveOrderBook)
    := do
  let largest ← BigMap.borrowBack self.buys
  ensure (price ≤ largest.1.price) (.code eInternalInvariantBroken)
  let matched ← singleMatchWithCurrentActiveOrder size largest.1 largest.2 self.buys
  return (matched.1, { self with buys := matched.2 })

def getSingleMatchResult (price size : Nat) (isBid : Bool) : Checked
    (ActiveMatchedOrder × ActiveOrderBook) :=
  if isBid then self.getSingleMatchForBuyOrder price size
  else self.getSingleMatchForSellOrder price size

/-- Change the size of an entry where it is: `increase_order_size` and `decrease_order_size`
differ in the change. -/
def changeOrderSize (change : Nat → Checked Nat) (self : ActiveOrderBook) (price : Nat)
    (uniquePriorityIdx : UniqueIdx) (isBid : Bool) : Checked ActiveOrderBook := do
  let key : ActiveBidKey := ⟨price, getTieBreaker uniquePriorityIdx isBid⟩
  let value ← BigMap.borrow (self.side isBid) key
  let size ← change value.size
  return self.withSide isBid ((self.side isBid).insert key { value with size })

def increaseOrderSize (sizeDelta : Nat) (isBid : Bool) : Checked ActiveOrderBook :=
  self.changeOrderSize (Checked.add u64Max · sizeDelta) price uniquePriorityIdx isBid

def decreaseOrderSize (sizeDelta : Nat) (isBid : Bool) : Checked ActiveOrderBook :=
  self.changeOrderSize (Checked.sub · sizeDelta) price uniquePriorityIdx isBid

def placeMakerOrder (orderId : OrderId) (price : Nat) (uniquePriorityIdx : UniqueIdx) (size : Nat)
    (isBid : Bool) : Checked ActiveOrderBook := do
  let key : ActiveBidKey := ⟨price, getTieBreaker uniquePriorityIdx isBid⟩
  ensure (¬ self.isTakerOrder price isBid) (.code eInvalidMakerOrder)
  let orders ← BigMap.add (self.side isBid) key ⟨orderId, size⟩
  return self.withSide isBid orders

end ActiveOrderBook

end CreditChain
