import CreditChain.OrderBook.Refinement

/-!
# Runs of the order book

Sequences of calls from the empty order book.  A call that aborts changes nothing and is no
part of a run.

* `match_takes_best_price`: a match takes from an order with the best price, and from the
  earliest such order only if there is no other.
-/

namespace CreditChain

variable {M : Type}

/-! ## Calls -/

/-- The calls that change an order book. -/
inductive BookCall (M : Type) where
  | placeMakerOrder (orderReq : OrderRequest M)
  | getSingleMatchForTaker (price size : Nat) (isBid : Bool)
  | cancelOrder (orderCreator : Address) (orderId : OrderId)
  | tryCancelOrderWithClientOrderId (orderCreator : Address) (clientOrderId : Nat)
  | decreaseOrderSize (orderCreator : Address) (orderId : OrderId) (sizeDelta : Nat)
  | reinsertMakerOrder (orderReq : OrderRequest M) (originalOrder : Order M)
  | setOrderMetadata (orderId : OrderId) (metadata : M)
  | takeReadyPriceBasedOrders (currentPrice orderLimit : Nat)
  | takeReadyTimeBasedOrders (nowSeconds orderLimit : Nat)

/-- An order book and the matches that it has returned. -/
structure Trading (M : Type) where
  book : OrderBook M
  returned : List (SingleOrderMatch M)

namespace Trading

def start : Trading M := ⟨.newOrderBook, []⟩

variable (input : BookCall M) (t : Trading M)

/-- A call and what it adds to the matches. -/
def call : BookCall M → Checked (Trading M)
  | .placeMakerOrder orderReq => do
      let book ← t.book.placeMakerOrder orderReq
      return { t with book }
  | .getSingleMatchForTaker price size isBid => do
      let (result, book) ← t.book.getSingleMatchForTaker price size isBid
      return ⟨book, result :: t.returned⟩
  | .cancelOrder orderCreator orderId => do
      let (_, book) ← t.book.cancelOrder orderCreator orderId
      return { t with book }
  | .tryCancelOrderWithClientOrderId orderCreator clientOrderId => do
      let (_, book) ← t.book.tryCancelOrderWithClientOrderId orderCreator clientOrderId
      return { t with book }
  | .decreaseOrderSize orderCreator orderId sizeDelta => do
      let book ← t.book.decreaseOrderSize orderCreator orderId sizeDelta
      return { t with book }
  | .reinsertMakerOrder orderReq originalOrder => do
      let book ← t.book.reinsertMakerOrder orderReq originalOrder
      return { t with book }
  | .setOrderMetadata orderId metadata => do
      let book ← t.book.setOrderMetadata orderId metadata
      return { t with book }
  | .takeReadyPriceBasedOrders currentPrice orderLimit => do
      let (_, book) ← t.book.takeReadyPriceBasedOrders currentPrice orderLimit
      return { t with book }
  | .takeReadyTimeBasedOrders nowSeconds orderLimit => do
      let (_, book) ← t.book.takeReadyTimeBasedOrders nowSeconds orderLimit
      return { t with book }

def step : Option (Trading M) := (t.call input).committed

/-- Reinserted is an order that a match returned, with at most the matched size. -/
def Genuine : BookCall M → Prop
  | .reinsertMakerOrder orderReq originalOrder =>
    ∃ result ∈ t.returned, result.order = originalOrder ∧
      orderReq.remainingSize ≤ result.matchedSize
  | _ => True

/-- The states of all runs. -/
def Reached : Prop := Run.Reaches step (fun _ _ => True) (· = start) t

/-- The states of the runs in which only matched orders are reinserted. -/
def ReachedGenuinely : Prop := Run.Reaches step Genuine (· = start) t

end Trading

/-! ## Every call is a sequence of steps -/

namespace Ledger

variable {ledger ledger' : Ledger M} {loose : Prop}

theorem steps_consistent (steps : Relation.ReflTransGen (Step loose) ledger ledger')
    (consistent : Consistent ledger) : Consistent ledger' := by
  induction steps with
  | refl => exact consistent
  | tail _ step ih => exact step.consistent ih

theorem steps_sized (steps : Relation.ReflTransGen (Step False) ledger ledger')
    (consistent : Consistent ledger) (sized : Sized ledger.orders ledger.active) :
    Sized ledger'.orders ledger'.active := by
  induction steps with
  | refl => exact sized
  | tail before step ih => exact step.sized (steps_consistent before consistent) ih

theorem steps_remember (steps : Relation.ReflTransGen (Step loose) ledger ledger')
    {order : Order M} (remembers : Remembers ledger order) : Remembers ledger' order := by
  induction steps with
  | refl => exact remembers
  | tail _ step ih => exact step.remembers ih

end Ledger

open OrderBook

namespace Trading

open Ledger (Step Consistent)

variable {t t' : Trading M} {input : BookCall M}

/-- A call changes the ledger by steps, if a reinsertion does. -/
theorem call_steps (loose : Prop) (consistent : Consistent t.book.ledger)
    (sized : Ledger.Sized t.book.ledger.orders t.book.ledger.active ∨ loose)
    (reinsertion : ∀ {orderReq originalOrder book},
      input = .reinsertMakerOrder orderReq originalOrder →
      t.book.reinsertMakerOrder orderReq originalOrder = .ok book →
      Step loose t.book.ledger book.ledger)
    (done : t.call input = .ok t') :
    Relation.ReflTransGen (Step loose) t.book.ledger t'.book.ledger := by
  cases input with
  | placeMakerOrder orderReq =>
    obtain ⟨book, placed, rfl⟩ := of_return done
    exact .single ((placeMakerOrder_ok placed).2)
  | getSingleMatchForTaker price size isBid =>
    obtain ⟨⟨result, book⟩, matched, rfl⟩ := of_return done
    obtain ⟨_, _, _, _, _, _, _, _, _, step⟩ := getSingleMatchForTaker_ok consistent matched
    exact .single (step.mono False.elim)
  | cancelOrder orderCreator orderId =>
    obtain ⟨⟨order, book⟩, cancelled, rfl⟩ := of_return done
    exact .single (cancelOrder_ok consistent cancelled).2.2
  | tryCancelOrderWithClientOrderId orderCreator clientOrderId =>
    obtain ⟨⟨order?, book⟩, cancelled, rfl⟩ := of_return done
    unfold tryCancelOrderWithClientOrderId at cancelled
    split at cancelled
    · cases cancelled
      exact .refl
    · obtain ⟨⟨order, book'⟩, cancelled, same⟩ := of_bind cancelled
      cases same
      exact .single (cancelOrder_ok consistent cancelled).2.2
  | decreaseOrderSize orderCreator orderId sizeDelta =>
    obtain ⟨book, decreased, rfl⟩ := of_return done
    exact .single ((decreaseOrderSize_ok consistent sized decreased).2)
  | reinsertMakerOrder orderReq originalOrder =>
    obtain ⟨book, reinserted, rfl⟩ := of_return done
    exact .single (reinsertion rfl reinserted)
  | setOrderMetadata orderId metadata =>
    obtain ⟨book, changed, rfl⟩ := of_return done
    exact .single (setOrderMetadata_step changed)
  | takeReadyPriceBasedOrders currentPrice orderLimit =>
    obtain ⟨⟨taken, book⟩, took, rfl⟩ := of_return done
    obtain ⟨⟨taken', orders⟩, removing, same⟩ := of_bind took
    cases same
    exact removeOrders_steps consistent
      (PendingOrderBookIndex.takeReadyPriceBasedOrders_taken rfl) removing
  | takeReadyTimeBasedOrders nowSeconds orderLimit =>
    obtain ⟨⟨taken, book⟩, took, rfl⟩ := of_return done
    obtain ⟨⟨taken', orders⟩, removing, same⟩ := of_bind took
    cases same
    exact removeOrders_steps consistent
      (PendingOrderBookIndex.takeTimeTimeBasedOrders_taken rfl) removing

theorem Reached.consistent (reached : Reached t) : Consistent t.book.ledger := by
  refine reached.invariant (I := fun t => Consistent t.book.ledger) ?_ ?_
  · rintro _ rfl
    exact consistent_newOrderBook
  · intro t input t' consistent _ done
    exact Ledger.steps_consistent (call_steps True consistent (.inr trivial)
      (fun _ reinserted => reinsertMakerOrder_loose reinserted)
      (Checked.committed_eq_some.mp done)) consistent

/-- What the runs keep in which only matched orders are reinserted. -/
structure Sound (t : Trading M) : Prop where
  consistent : Consistent t.book.ledger
  sized : Ledger.Sized t.book.ledger.orders t.book.ledger.active
  remembered : ∀ result ∈ t.returned, t.book.ledger.Remembers result.order

/-- A match that a call adds is one of an order that was filed. -/
theorem call_matches (consistent : Consistent t.book.ledger) (done : t.call input = .ok t')
    {result : SingleOrderMatch M} (mem : result ∈ t'.returned) :
    result ∈ t.returned ∨ t.book.ledger.Remembers result.order := by
  cases input
  case getSingleMatchForTaker price size isBid =>
    obtain ⟨⟨result', book⟩, matched, rfl⟩ := of_return done
    rcases List.mem_cons.mp mem with rfl | old
    · obtain ⟨_, _, order, _, _, found, _, rfl, _, _⟩ :=
        getSingleMatchForTaker_ok consistent matched
      have remembers := consistent.remembers found
      exact .inr ⟨remembers.issued, remembers.same⟩
    · exact .inl old
  -- the other calls return no match
  all_goals
    obtain ⟨_, _, rfl⟩ := of_return done
    exact .inl mem

theorem Sound.call (sound : Sound t) (genuine : t.Genuine input) (done : t.call input = .ok t') :
    Sound t' := by
  have steps : Relation.ReflTransGen (Step False) t.book.ledger t'.book.ledger := by
    refine call_steps False sound.consistent (.inl sound.sized) ?_ done
    rintro orderReq originalOrder book rfl reinserted
    obtain ⟨result, mem, rfl, -⟩ := genuine
    exact reinsertMakerOrder_strict sound.consistent sound.sized
      (sound.remembered result mem) reinserted
  refine ⟨Ledger.steps_consistent steps sound.consistent,
    Ledger.steps_sized steps sound.consistent sound.sized, fun result mem => ?_⟩
  refine Ledger.steps_remember steps ?_
  rcases call_matches sound.consistent done mem with old | new
  · exact sound.remembered result old
  · exact new

theorem ReachedGenuinely.sound (reached : ReachedGenuinely t) : Sound t := by
  refine reached.invariant ?_ ?_
  · rintro _ rfl
    refine ⟨consistent_newOrderBook, ?_, List.forall_mem_nil _⟩
    intro _ _ _ found
    cases found
  · intro t input t' sound genuine done
    exact sound.call genuine (Checked.committed_eq_some.mp done)

end Trading

/-! ## The two indexes agree -/

/-- The orders and the active book describe the same resting orders. -/
structure OrderBook.CrossIndexed (book : OrderBook M) : Prop where
  /-- An active order has exactly one entry in the active book. -/
  entry : ∀ {id order}, book.orders.find? id = some ⟨order, true⟩ →
    order.orderId = id ∧ ∀ isBid key data,
      ((book.activeOrders.side isBid).find? key = some data ∧ data.orderId = id) ↔
        isBid = order.isBid ∧
        key = ⟨order.price, ActiveOrderBook.getTieBreaker order.uniquePriorityIdx order.isBid⟩ ∧
        data = ⟨id, order.remainingSize⟩
  /-- An entry belongs to an active order. -/
  owner : ∀ {isBid key data}, (book.activeOrders.side isBid).find? key = some data →
    ∃ order, book.orders.find? data.orderId = some ⟨order, true⟩
  /-- Bids are below asks. -/
  apart : ∀ {bid ask data data'}, (book.activeOrders.side true).find? bid = some data →
    (book.activeOrders.side false).find? ask = some data' → bid.price < ask.price

theorem Trading.Sound.crossIndexed {t : Trading M} (sound : t.Sound) : t.book.CrossIndexed where
  entry {id order} found := by
    refine ⟨sound.consistent.numbered.named found, fun isBid key data => ⟨?_, ?_⟩⟩
    · rintro ⟨held, rfl⟩
      have held' : t.book.ledger.active (isBid, key) = some data := held
      obtain ⟨order', found', atSlot⟩ := sound.consistent.owner held'
      cases found.symm.trans found'
      have size := sound.sized _ order data found' (by rw [atSlot]; exact held')
      exact ⟨(congrArg Prod.fst atSlot).symm, (congrArg Prod.snd atSlot).symm, by rw [← size]⟩
    · rintro ⟨rfl, rfl, rfl⟩
      obtain ⟨data, held, rfl⟩ := sound.consistent.entry found
      have size := sound.sized _ order data found held
      exact ⟨by rw [← size]; exact held, rfl⟩
  owner {isBid key data} held := by
    have held' : t.book.ledger.active (isBid, key) = some data := held
    obtain ⟨order, found, -⟩ := sound.consistent.owner held'
    exact ⟨order, found⟩
  apart held held' := sound.consistent.apart _ _ _ _ held held'

/-- The orders and the active book describe the same resting orders, and no bid reaches an ask. -/
theorem cross_indexed {t : Trading M} (reached : t.ReachedGenuinely) : t.book.CrossIndexed :=
  reached.sound.crossIndexed

namespace Trading

/-- The state after a call, or the same state if the call aborts. -/
def after (t : Trading M) (input : BookCall M) : Trading M := (t.step input).getD t

/-- An ask of size 5 at price 10. -/
def ask (orderId : OrderId) : OrderRequest Unit where
  account := 1
  orderId := orderId
  clientOrderId := some orderId
  price := 10
  origSize := 5
  remainingSize := 5
  isBid := false
  triggerCondition := none
  timeInForce := .gtc
  metadata := ()

def oneAsk : Trading Unit := start.after (.placeMakerOrder (ask 1))

/-- Three of the five are matched. -/
def oneMatch : Trading Unit := oneAsk.after (.getSingleMatchForTaker 10 3 true)

/-- The matched order, without what was matched. -/
def matchedAsk : Order Unit := { (ask 1).newOrder 1 with remainingSize := 2 }

/-- Two of the three that were matched are reinserted. -/
def reinserted : Trading Unit :=
  oneMatch.after (.reinsertMakerOrder { ask 1 with remainingSize := 2 } matchedAsk)

theorem reinserted_reached : reinserted.ReachedGenuinely := by
  have placing : step (.placeMakerOrder (ask 1)) start = some oneAsk := rfl
  have matching : step (.getSingleMatchForTaker 10 3 true) oneAsk = some oneMatch := rfl
  have reinserting : step (.reinsertMakerOrder { ask 1 with remainingSize := 2 } matchedAsk)
      oneMatch = some reinserted := rfl
  refine Run.Reaches.of_inputs (.start rfl) [.placeMakerOrder (ask 1),
    .getSingleMatchForTaker 10 3 true,
    .reinsertMakerOrder { ask 1 with remainingSize := 2 } matchedAsk] ?_
  exact ⟨trivial, _, placing, trivial, _, matching,
    ⟨⟨matchedAsk, 3⟩, List.mem_singleton.mpr rfl, rfl, by decide⟩, _, reinserting, rfl⟩

theorem reinserted_cross_indexed : reinserted.ReachedGenuinely ∧ reinserted.book.CrossIndexed :=
  ⟨reinserted_reached, cross_indexed reinserted_reached⟩

end Trading

/-! ## Which order is matched -/

namespace OrderBook

variable (book : OrderBook M) (takerIsBid : Bool)

/-- An order that rests on a side. -/
def Resting (isBid : Bool) (order : Order M) : Prop :=
  book.orders.find? order.orderId = some ⟨order, true⟩ ∧ order.isBid = isBid

/-- A resting order with the best price for a taker: the lowest ask for a bid, the highest bid
for an ask. -/
def RestsBest (order : Order M) : Prop :=
  book.Resting (!takerIsBid) order ∧ ∀ other, book.Resting (!takerIsBid) other →
    if takerIsBid then order.price ≤ other.price else other.price ≤ order.price

/-- Of the resting orders with the best price, the one that was placed first. -/
def Earliest (order : Order M) : Prop :=
  book.RestsBest takerIsBid order ∧ ∀ other, book.RestsBest takerIsBid other →
    order.uniquePriorityIdx ≤ other.uniquePriorityIdx

/-- There is only one resting order with the best price. -/
def SoleBest : Prop :=
  ∀ order other, book.RestsBest takerIsBid order → book.RestsBest takerIsBid other → order = other

variable {book : OrderBook M} {isBid : Bool} {order other : Order M}

theorem RestsBest.price_eq (best : book.RestsBest isBid order) (best' : book.RestsBest isBid other) :
    order.price = other.price := by
  have le := best.2 other best'.1
  have ge := best'.2 order best.1
  cases isBid with
  | true => exact le_antisymm le ge
  | false => exact le_antisymm ge le

/-- The foremost order has the best price, and of those that have it the last number. -/
theorem foremost_restsBest (consistent : Ledger.Consistent book.ledger) {key : ActiveBidKey}
    (foremost : book.activeOrders.Foremost isBid key) (resting : book.Resting (!isBid) order)
    (atSlot : order.activeSlot = (!isBid, key)) :
    book.RestsBest isBid order ∧ ∀ other, book.RestsBest isBid other →
      other.uniquePriorityIdx ≤ order.uniquePriorityIdx := by
  have sameKey : key = ⟨order.price,
      ActiveOrderBook.getTieBreaker order.uniquePriorityIdx order.isBid⟩ :=
    (congrArg Prod.snd atSlot).symm
  -- the key of another order of that side is behind
  have behind : ∀ other, book.Resting (!isBid) other →
      let otherKey : ActiveBidKey := ⟨other.price,
        ActiveOrderBook.getTieBreaker other.uniquePriorityIdx other.isBid⟩
      if isBid then key ≤ otherKey else otherKey ≤ key := by
    intro other rests
    obtain ⟨data, held, -⟩ := consistent.entry rests.1
    refine foremost _ data ?_
    rw [← rests.2]
    exact held
  have best : book.RestsBest isBid order := by
    refine ⟨resting, fun other rests => ?_⟩
    have le := behind other rests
    rw [sameKey] at le
    cases isBid with
    | true | false => exact (ActiveBidKey.le_iff.mp le).elim le_of_lt fun same => le_of_eq same.1
  refine ⟨best, fun other best' => ?_⟩
  have le := behind other best'.1
  have samePrice := best.price_eq best'
  have small : other.uniquePriorityIdx ≤ u128Max := le_trans
    (consistent.numbered.bounded best'.1.1) (consistent.small.trans (by decide))
  rw [sameKey] at le
  cases isBid with
  | true =>
    rcases ActiveBidKey.le_iff.mp le with lt | ⟨-, breaker⟩
    · exact absurd samePrice lt.ne
    have isAsk : order.isBid = false := resting.2
    have isAsk' : other.isBid = false := best'.1.2
    rw [isAsk, isAsk'] at breaker
    exact (Nat.sub_le_sub_iff_left small).mp breaker
  | false =>
    rcases ActiveBidKey.le_iff.mp le with lt | ⟨-, breaker⟩
    · exact absurd samePrice.symm lt.ne
    have isBuy : order.isBid = true := resting.2
    have isBuy' : other.isBid = true := best'.1.2
    rw [isBuy, isBuy'] at breaker
    exact breaker

end OrderBook

/-- A match takes from a resting order with the best price.  It is the earliest of them exactly
if it is the only one. -/
theorem match_takes_best_price {t : Trading M} (reached : t.Reached) {price size : Nat}
    {isBid : Bool} {result : SingleOrderMatch M} {book : OrderBook M}
    (done : t.book.getSingleMatchForTaker price size isBid = .ok (result, book)) :
    ∃ order, result.order = { order with remainingSize := result.order.remainingSize } ∧
      t.book.RestsBest isBid order ∧ (t.book.Earliest isBid order ↔ t.book.SoleBest isBid) := by
  have consistent := reached.consistent
  obtain ⟨key, data, order, held, foremost, found, atSlot, rfl, -, -⟩ :=
    getSingleMatchForTaker_ok consistent done
  have name : order.orderId = data.orderId := consistent.numbered.named found
  have resting : t.book.Resting (!isBid) order := ⟨name ▸ found, congrArg Prod.fst atSlot⟩
  obtain ⟨best, last⟩ := foremost_restsBest consistent foremost resting atSlot
  have sole_of_earliest : t.book.Earliest isBid order → ∀ other, t.book.RestsBest isBid other →
      other = order := by
    intro earliest other best'
    have number := le_antisymm (last other best') (earliest.2 other best')
    have sameId := consistent.numbered.distinct best'.1.1 resting.1 number
    have there := best'.1.1
    rw [sameId] at there
    cases there.symm.trans resting.1
    rfl
  refine ⟨order, rfl, best, fun earliest a b bestA bestB => ?_, fun sole => ⟨best, ?_⟩⟩
  · rw [sole_of_earliest earliest a bestA, sole_of_earliest earliest b bestB]
  · intro other best'
    rw [sole order other best best']

namespace Trading

/-- The orders are matched in price-time priority. -/
def PriceTime (t : Trading M) : Prop :=
  ∀ price size isBid result book,
    t.book.getSingleMatchForTaker price size isBid = .ok (result, book) →
    ∃ order, result.order = { order with remainingSize := result.order.remainingSize } ∧
      t.book.Earliest isBid order

def twoAsks : Trading Unit := oneAsk.after (.placeMakerOrder (ask 2))

theorem oneAsk_reached : oneAsk.Reached :=
  .step (.start rfl) trivial (show step (.placeMakerOrder (ask 1)) start = some oneAsk from rfl)

/-- A later ask at price 8. -/
def cheaper : OrderRequest Unit := { ask 2 with price := 8 }

def twoPrices : Trading Unit := oneAsk.after (.placeMakerOrder cheaper)

/-- The bid is matched with the ask of the lower price. -/
theorem twoPrices_matched : twoPrices.Reached ∧
    ∃ order, { cheaper.newOrder 2 with remainingSize := 2 } = { order with remainingSize := 2 } ∧
      twoPrices.book.RestsBest true order ∧
      (twoPrices.book.Earliest true order ↔ twoPrices.book.SoleBest true) := by
  have placing : step (.placeMakerOrder cheaper) oneAsk = some twoPrices := rfl
  have reached : twoPrices.Reached := .step oneAsk_reached trivial placing
  obtain ⟨book, matching⟩ : ∃ book, twoPrices.book.getSingleMatchForTaker 10 3 true =
      .ok (⟨{ cheaper.newOrder 2 with remainingSize := 2 }, 3⟩, book) := ⟨_, rfl⟩
  exact ⟨reached, match_takes_best_price reached matching⟩

theorem twoAsks_restsBest : twoAsks.book.RestsBest true ((ask 1).newOrder 1) := by
  refine ⟨⟨rfl, rfl⟩, fun other resting => ?_⟩
  have mem : (other.orderId, (⟨other, true⟩ : OrderWithState Unit)) ∈
      [(1, ⟨(ask 1).newOrder 1, true⟩), (2, ⟨(ask 2).newOrder 2, true⟩)] :=
    OrderedMap.find?_eq_some.mp resting.1
  have samePrice : other.price = 10 := by
    rcases List.mem_cons.mp mem with first | rest
    · exact congrArg (fun entry => entry.2.order.price) first
    · exact congrArg (fun entry => entry.2.order.price) (List.mem_singleton.mp rest)
  exact samePrice.symm.le

/-- Of two asks at one price, a bid is matched with the second. -/
theorem twoAsks_last_first : twoAsks.Reached ∧ ¬ twoAsks.PriceTime := by
  have placing : step (.placeMakerOrder (ask 2)) oneAsk = some twoAsks := rfl
  refine ⟨.step oneAsk_reached trivial placing, fun priority => ?_⟩
  obtain ⟨order, same, earliest⟩ := priority 10 5 true
    ⟨{ (ask 2).newOrder 2 with remainingSize := 0 }, 5⟩ _ rfl
  have number : 2 = order.uniquePriorityIdx := congrArg (·.uniquePriorityIdx) same
  have first := earliest.2 _ twoAsks_restsBest
  rw [← number] at first
  exact absurd first (by decide)

end Trading

end CreditChain
