import CreditChain.OrderBook.Book

/-!
# A market and its clearinghouse

The state of a market, the callbacks it makes, and what it returns.  A clearinghouse is any
answer to the two callbacks that return something; it may look at everything that has happened.
-/

namespace CreditChain

/-! ## Orders that are cancelled before they are placed -/

structure ExpirationAndOrderId where
  expirationTime : Nat
  accountOrderId : AccountClientOrderId

theorem ExpirationAndOrderId.toLex_injective : Function.Injective
    fun key : ExpirationAndOrderId => toLex (key.expirationTime, key.accountOrderId) := by
  rintro ⟨_, _⟩ ⟨_, _⟩ same
  cases same
  rfl

instance : LinearOrder ExpirationAndOrderId :=
  LinearOrder.lift' _ ExpirationAndOrderId.toLex_injective

structure PreCancellationTracker where
  preCancellationWindowSecs : Nat
  expirationWithOrderIds : BigMap ExpirationAndOrderId Bool
  accountOrderIds : BigMap AccountClientOrderId Nat

namespace PreCancellationTracker

def maxOrdersGarbageCollectedPerCall : Nat := 10

-- `timestamp::now_seconds`, from the time in microseconds
def nowSeconds (now : Nat) : Nat := now / 1000000

/-- The loop of `garbage_collect`, at most `rounds` times. -/
def collect (currentTime : Nat) : Nat → PreCancellationTracker → Checked PreCancellationTracker
  | 0, tracker => .ok tracker
  | rounds + 1, tracker =>
    match tracker.expirationWithOrderIds.front? with
    | none => .ok tracker
    | some (front, _) =>
      if front.expirationTime < currentTime then do
        let (_, accountOrderIds) ← BigMap.remove tracker.accountOrderIds front.accountOrderId
        collect currentTime rounds
          { tracker with
            accountOrderIds
            expirationWithOrderIds := tracker.expirationWithOrderIds.erase front }
      else .ok tracker

variable (tracker : PreCancellationTracker)

def garbageCollect (now : Nat) : Checked PreCancellationTracker :=
  collect (nowSeconds now) maxOrdersGarbageCollectedPerCall tracker

/-- Forget an order of which the expiration time is known. -/
def forget (key : AccountClientOrderId) : Checked PreCancellationTracker :=
  match tracker.accountOrderIds.find? key with
  | none => .ok tracker
  | some expirationTime => do
      let (_, expirationWithOrderIds) ←
        BigMap.remove tracker.expirationWithOrderIds ⟨expirationTime, key⟩
      return { tracker with
        accountOrderIds := tracker.accountOrderIds.erase key
        expirationWithOrderIds }

def preCancelOrderForTracker (account : Address) (clientOrderId now : Nat) : Checked
    PreCancellationTracker := do
  let tracker ← tracker.garbageCollect now
  let tracker ← tracker.forget ⟨account, clientOrderId⟩
  let expirationTime ← Checked.add u64Max now tracker.preCancellationWindowSecs
  let accountOrderIds ←
    BigMap.add tracker.accountOrderIds ⟨account, clientOrderId⟩ expirationTime
  let expirationWithOrderIds ←
    BigMap.add tracker.expirationWithOrderIds ⟨expirationTime, account, clientOrderId⟩ true
  return { tracker with accountOrderIds, expirationWithOrderIds }

def isPreCancelled (account : Address) (clientOrderId now : Nat) : Checked
    (Bool × PreCancellationTracker) := do
  let tracker ← tracker.garbageCollect now
  match tracker.accountOrderIds.find? ⟨account, clientOrderId⟩ with
  | none => return (false, tracker)
  | some expirationTime =>
    if nowSeconds now > expirationTime then
      let tracker ← tracker.forget ⟨account, clientOrderId⟩
      return (false, tracker)
    else return (true, tracker)

end PreCancellationTracker

/-! ## Results -/

inductive OrderCancellationReason where
  | postOnlyViolation
  | iocViolation
  | positionUpdateViolation
  | reduceOnlyViolation
  | clearinghouseSettleViolation
  | maxFillLimitViolation
  | duplicateClientOrderIdViolation
  | orderPreCancelled
  deriving DecidableEq

structure OrderMatchResult where
  orderId : OrderId
  remainingSize : Nat
  cancelReason : Option OrderCancellationReason
  fillSizes : List Nat
  matchCount : Nat

structure SettleTradeResult where
  settledSize : Nat
  makerCancellationReason : Option String
  takerCancellationReason : Option String

/-! ## The market -/

structure MarketConfig where
  allowSelfTrade : Bool
  preCancellationWindowSecs : Nat

structure Market (M : Type) where
  orderIdGenerator : AscendingIdGenerator
  nextFillId : Nat
  config : MarketConfig
  orderBook : OrderBook M
  preCancellationTracker : PreCancellationTracker

def Market.newMarket {M : Type} (config : MarketConfig) : Market M where
  orderIdGenerator := ⟨0⟩
  nextFillId := 0
  config := config
  orderBook := .newOrderBook
  preCancellationTracker := ⟨config.preCancellationWindowSecs, .empty, .empty⟩

/-! ## Callbacks -/

/-- The arguments of `settle_trade`. -/
structure Trade (M : Type) where
  taker : Address
  takerOrderId : OrderId
  maker : Address
  makerOrderId : OrderId
  fillId : Nat
  isTakerLong : Bool
  price : Nat
  size : Nat
  takerMetadata : M
  makerMetadata : M

/-- The arguments of `validate_order_placement`. -/
structure Placement (M : Type) where
  account : Address
  orderId : OrderId
  isTaker : Bool
  isBid : Bool
  price : Nat
  timeInForce : TimeInForce
  size : Nat
  metadata : M

/-- A callback that the market has made, with the answer if there is one. -/
inductive Callback (M : Type) where
  | settleTrade (trade : Trade M) (result : SettleTradeResult)
  | validateOrderPlacement (placement : Placement M) (valid : Bool)
  | placeMakerOrder (account : Address) (orderId : OrderId) (isBid : Bool) (price size : Nat)
      (metadata : M)
  | cleanupOrder (account : Address) (orderId : OrderId) (isBid : Bool) (remainingSize : Nat)
  | decreaseOrderSize (account : Address) (orderId : OrderId) (isBid : Bool) (price size : Nat)

/-- A market and the callbacks that it has made. -/
structure Engine (M : Type) where
  market : Market M
  log : List (Callback M)

/-- `MarketClearinghouseCallbacks`: the answers to the callbacks. -/
structure Callbacks (M : Type) where
  settleTrade : Engine M → Trade M → SettleTradeResult
  validateOrderPlacement : Engine M → Placement M → Bool

namespace Engine

variable {M : Type}

/-- Make a callback. -/
def notify (self : Engine M) (callback : Callback M) : Engine M :=
  { self with log := self.log ++ [callback] }

def withOrderBook (self : Engine M) (orderBook : OrderBook M) : Engine M :=
  { self with market := { self.market with orderBook } }

def withTracker (self : Engine M) (preCancellationTracker : PreCancellationTracker) : Engine M :=
  { self with market := { self.market with preCancellationTracker } }

end Engine

end CreditChain
