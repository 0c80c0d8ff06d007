import CreditChain.Market.Market
import CreditChain.OrderBook.Refinement

/-!
# Every order is cleaned up once

An order that has passed `validate_order_placement` is in the order book, or it is being
processed, or its clean-up callback has been made once.  `Engine.Accounted` says this for a set
of orders that are being processed; a fully matched maker order joins that set until it is put
back or cleaned up.

* `cleanup_contract`: between calls the contract holds, for every clearinghouse that does not
  cancel a taker while it fills or cancels a maker order that is no longer in the book.
-/

namespace CreditChain

open OrderBook List Function
open Set (mem_insert)

variable {M : Type}

/-! ## What the log says -/

/-- The callback cleans up the order. -/
def Callback.cleans (id : OrderId) : Callback M → Bool
  | cleanupOrder _ orderId _ _ => orderId = id
  | _ => false

/-- The callback finds the order valid. -/
def Callback.validates (id : OrderId) : Callback M → Bool
  | validateOrderPlacement placement valid => valid ∧ placement.orderId = id
  | _ => false

namespace Engine

variable (engine : Engine M) (id : OrderId)

/-- How often an order has been cleaned up. -/
def cleanups : Nat := engine.log.countP (Callback.cleans id)

/-- The order has been found valid. -/
def Validated : Prop := ∃ callback ∈ engine.log, Callback.validates id callback

/-- The order is in the order book. -/
def Listed : Prop := ∃ record, engine.market.orderBook.orders.find? id = some record

variable {engine engine' : Engine M} {processing processing' : Set OrderId} {id : OrderId}

theorem cleanups_notify (callback : Callback M) :
    (engine.notify callback).cleanups id =
      engine.cleanups id + if Callback.cleans id callback then 1 else 0 := by
  unfold cleanups notify
  rw [countP_append, countP_singleton]

theorem validated_notify {callback : Callback M} :
    (engine.notify callback).Validated id ↔ engine.Validated id ∨ Callback.validates id callback := by
  unfold Validated notify
  simp only [mem_append, mem_singleton]
  constructor
  · rintro ⟨c, old | rfl, valid⟩
    · exact .inl ⟨c, old, valid⟩
    · exact .inr valid
  · rintro (⟨c, old, valid⟩ | valid)
    · exact ⟨c, .inl old, valid⟩
    · exact ⟨callback, .inr rfl, valid⟩

/-! ## The account of all orders -/

/-- Every valid order is in the book, in `processing`, or cleaned up once. -/
structure Accounted (engine : Engine M) (processing : Set OrderId) : Prop where
  consistent : Ledger.Consistent engine.market.orderBook.ledger
  positive : ∀ {id record}, engine.market.orderBook.orders.find? id = some record →
    0 < record.order.remainingSize
  listed : ∀ {id}, engine.Listed id → engine.cleanups id = 0 ∧ id ∉ processing
  waiting : ∀ {id}, id ∈ processing → engine.cleanups id = 0
  settled : ∀ {id}, engine.Validated id → id ∉ processing →
    engine.Listed id ∨ engine.cleanups id = 1
  issued : ∀ {id}, engine.Listed id ∨ 0 < engine.cleanups id ∨ id ∈ processing →
    id ≤ engine.market.orderIdGenerator.value

namespace Accounted

section

variable (accounted : engine.Accounted processing)

include accounted

/-- Fields that the account does not look at. -/
theorem congr
    (book : engine'.market.orderBook = engine.market.orderBook) (log : engine'.log = engine.log)
    (generator : engine'.market.orderIdGenerator = engine.market.orderIdGenerator) :
    engine'.Accounted processing := by
  obtain ⟨⟨orderIds, fillId, config, orderBook, tracker⟩, log'⟩ := engine'
  cases book
  cases log
  cases generator
  exact ⟨accounted.consistent, accounted.positive, accounted.listed, accounted.waiting,
    accounted.settled, accounted.issued⟩

/-- One order moves, and the others stay where they are. -/
theorem move (consistent : Ledger.Consistent engine'.market.orderBook.ledger)
    (positive : ∀ {a record}, engine'.market.orderBook.orders.find? a = some record →
      0 < record.order.remainingSize)
    (others : ∀ {a}, a ≠ id → (engine'.Listed a ↔ engine.Listed a) ∧
      engine'.cleanups a = engine.cleanups a ∧ (engine'.Validated a → engine.Validated a) ∧
      (a ∈ processing' ↔ a ∈ processing))
    (listed : engine'.Listed id → engine'.cleanups id = 0 ∧ id ∉ processing')
    (waiting : id ∈ processing' → engine'.cleanups id = 0)
    (settled : id ∉ processing' → engine'.Listed id ∨ engine'.cleanups id = 1)
    (later : engine.market.orderIdGenerator.value ≤ engine'.market.orderIdGenerator.value)
    (issued : id ≤ engine'.market.orderIdGenerator.value) : engine'.Accounted processing' := by
  refine ⟨consistent, positive, fun {a} => ?_, fun {a} => ?_, fun {a} => ?_, fun {a} => ?_⟩ <;>
    rcases eq_or_ne a id with rfl | ne
  · exact listed
  · rw [(others ne).1, (others ne).2.1, (others ne).2.2.2]
    exact accounted.listed
  · exact waiting
  · rw [(others ne).2.1, (others ne).2.2.2]
    exact accounted.waiting
  · exact fun _ => settled
  · rw [(others ne).1, (others ne).2.1, (others ne).2.2.2]
    exact fun valid => accounted.settled ((others ne).2.2.1 valid)
  · exact fun _ => issued
  · rw [(others ne).1, (others ne).2.1, (others ne).2.2.2]
    exact fun known => (accounted.issued known).trans later

/-- An order begins to be processed. -/
theorem begin' {generator : AscendingIdGenerator}
    (generated : engine.market.orderIdGenerator.nextAscendingId = .ok (id, generator)) :
    ({ engine with market := { engine.market with orderIdGenerator := generator } } :
      Engine M).Accounted (insert id processing) ∧ id ∉ processing := by
  obtain ⟨-, rfl, rfl⟩ := AscendingIdGenerator.nextAscendingId_eq_ok.mp generated
  have fresh := mt accounted.issued (Nat.not_succ_le_self engine.market.orderIdGenerator.value)
  simp only [not_or, not_lt, Nat.le_zero] at fresh
  obtain ⟨unlisted, none, outside⟩ := fresh
  refine ⟨accounted.move accounted.consistent accounted.positive (fun ne => ?_)
    (fun there => absurd there unlisted) (fun _ => none)
    (fun out => absurd (mem_insert _ _) out) (Nat.le_succ _) le_rfl, outside⟩
  exact ⟨.rfl, rfl, fun valid => valid, Set.mem_insert_iff.trans (or_iff_right ne)⟩

/-- A callback that neither validates nor cleans up. -/
theorem notify {callback : Callback M} (cleansNothing : ∀ a, Callback.cleans a callback = false)
    (validatesNothing : ∀ a, Callback.validates a callback = true → a ∈ processing) :
    (engine.notify callback).Accounted processing := by
  have same : ∀ a, (engine.notify callback).cleanups a = engine.cleanups a := by
    intro a
    rw [cleanups_notify, cleansNothing a]
    rfl
  refine ⟨accounted.consistent, accounted.positive, fun {a} there => ?_, fun {a} mem => ?_,
    fun {a} valid outside => ?_, fun {a} known => ?_⟩
  · rw [same a]
    exact accounted.listed there
  · rw [same a]
    exact accounted.waiting mem
  · rw [same a]
    rcases validated_notify.mp valid with old | new
    · exact accounted.settled old outside
    · exact absurd (validatesNothing a new) outside
  · rw [same a] at known
    exact accounted.issued known

/-- An order that is being processed is cleaned up. -/
theorem cleanup (mem : id ∈ processing) (account : Address) (isBid : Bool) (size : Nat) :
    (engine.notify (.cleanupOrder account id isBid size)).Accounted (processing \ {id}) := by
  have count : ∀ a, (engine.notify (.cleanupOrder account id isBid size)).cleanups a =
      engine.cleanups a + if id = a then 1 else 0 := by
    intro a
    rw [cleanups_notify]
    simp [Callback.cleans]
  have other : ∀ {a}, a ≠ id →
      (engine.notify (.cleanupOrder account id isBid size)).cleanups a = engine.cleanups a := by
    intro a ne
    rw [count a, if_neg (Ne.symm ne)]
    rfl
  refine accounted.move accounted.consistent accounted.positive (fun ne => ⟨.rfl, other ne, ?_,
    and_iff_left ne⟩) (fun there => absurd mem (accounted.listed there).2)
    (fun inside => absurd rfl inside.2) (fun _ => .inr ?_) le_rfl
    (accounted.issued (.inr (.inr mem)))
  · exact fun valid => (validated_notify.mp valid).resolve_right nofun
  · rw [count id, if_pos rfl, accounted.waiting mem]

end

variable {orderBook : OrderBook M} {record record' : OrderWithState M}

theorem listed_self (filed : orderBook.orders.find? =
      update engine.market.orderBook.orders.find? id (some record)) :
    (engine.withOrderBook orderBook).Listed id :=
  ⟨record, (congrFun filed id).trans (update_self ..)⟩

theorem listed_other {content : Option (OrderWithState M)} (filed : orderBook.orders.find? =
      update engine.market.orderBook.orders.find? id content) {a : OrderId} (ne : a ≠ id) :
    (engine.withOrderBook orderBook).Listed a ↔ engine.Listed a := by
  show (∃ r, orderBook.orders.find? a = some r) ↔ _
  rw [filed, update_of_ne ne]
  rfl

section

variable (accounted : engine.Accounted processing)

include accounted

theorem positive_update {content : Option (OrderWithState M)} (filed : orderBook.orders.find? =
      update engine.market.orderBook.orders.find? id content)
    (new : ∀ r, content = some r → 0 < r.order.remainingSize) {a : OrderId}
    (found : orderBook.orders.find? a = some record) : 0 < record.order.remainingSize := by
  rw [filed] at found
  rcases update_eq_some.mp found with ⟨-, now⟩ | ⟨-, old⟩
  · exact new record now
  · exact accounted.positive old

variable (consistent : Ledger.Consistent orderBook.ledger)

include consistent

/-- An order leaves the book and begins to be processed. -/
theorem unlist (there : engine.Listed id)
    (filed : orderBook.orders.find? = update engine.market.orderBook.orders.find? id none) :
    (engine.withOrderBook orderBook).Accounted (insert id processing) := by
  refine accounted.move consistent (accounted.positive_update filed (by rintro r ⟨⟩)) (fun ne =>
    ⟨listed_other filed ne, rfl, fun valid => valid, Set.mem_insert_iff.trans (or_iff_right ne)⟩)
    ?_ (fun _ => (accounted.listed there).1) (fun out => absurd (mem_insert _ _) out) le_rfl
    (accounted.issued (.inl there))
  rintro ⟨record, found⟩
  cases found.symm.trans ((congrFun filed id).trans (update_self ..))

variable (filed : orderBook.orders.find? =
    update engine.market.orderBook.orders.find? id (some record))
  (positive : 0 < record.order.remainingSize)

include filed positive

/-- An order that is being processed goes into the book. -/
theorem list (mem : id ∈ processing) :
    (engine.withOrderBook orderBook).Accounted (processing \ {id}) := by
  exact accounted.move consistent (accounted.positive_update filed (by rintro r ⟨⟩; exact positive))
    (fun ne => ⟨listed_other filed ne, rfl, fun valid => valid, and_iff_left ne⟩)
    (fun _ => ⟨accounted.waiting mem, fun inside => inside.2 rfl⟩) (fun _ => accounted.waiting mem)
    (fun _ => .inl (listed_self filed)) le_rfl (accounted.issued (.inr (.inr mem)))

/-- An order in the book changes. -/
theorem relist (there : engine.Listed id) :
    (engine.withOrderBook orderBook).Accounted processing := by
  exact accounted.move consistent (accounted.positive_update filed (by rintro r ⟨⟩; exact positive))
    (fun ne => ⟨listed_other filed ne, rfl, fun valid => valid, .rfl⟩)
    (fun _ => accounted.listed there) accounted.waiting (fun _ => .inl (listed_self filed)) le_rfl
    (accounted.issued (.inl there))

end

end Accounted

/-! ## Matching and settling -/

/-- The orders that are being processed after a match: a maker order of which nothing remains
is among them. -/
def matching (processing : Set OrderId) (makerOrder : Order M) : Set OrderId :=
  if makerOrder.remainingSize = 0 then insert makerOrder.orderId processing else processing

variable {taker : Taker M} {makerOrder : Order M} {fillSizes : List Nat}

theorem mem_matching (mem : id ∈ processing) : id ∈ matching processing makerOrder := by
  unfold matching
  split
  · exact Set.mem_insert_of_mem _ mem
  · exact mem

variable {orderBook : OrderBook M}

theorem getSingleMatchForTaker_accounted (accounted : engine.Accounted processing)
    {price size : Nat} {isBid : Bool} {matched : Nat}
    (done : engine.market.orderBook.getSingleMatchForTaker price size isBid =
      .ok (⟨makerOrder, matched⟩, orderBook)) :
    (engine.withOrderBook orderBook).Accounted (matching processing makerOrder) ∧
      makerOrder.orderId ∉ processing ∧
      (makerOrder.remainingSize ≠ 0 →
        (engine.withOrderBook orderBook).Listed makerOrder.orderId) := by
  obtain ⟨key, data, order, -, -, found, -, same, filed, step⟩ :=
    getSingleMatchForTaker_ok accounted.consistent done
  cases same
  have name : order.orderId = data.orderId := accounted.consistent.numbered.named found
  have there : engine.Listed data.orderId := ⟨_, found⟩
  have consistent := step.consistent accounted.consistent
  unfold matching
  rw [name]
  split_ifs at filed ⊢ with consumed
  · exact ⟨accounted.unlist consistent there filed, (accounted.listed there).2,
      fun left => absurd consumed left⟩
  · exact ⟨accounted.relist consistent filed (pos_of_ne_zero consumed) there,
      (accounted.listed there).2,
      fun _ => Accounted.listed_self filed⟩

variable {unsettledSize : Nat}

/-- A maker order is cancelled after it has been matched. -/
theorem cancelMakerOrderInternal_accounted
    (accounted : engine.Accounted (matching processing makerOrder))
    (outside : makerOrder.orderId ∉ processing)
    (done : engine.cancelMakerOrderInternal makerOrder unsettledSize = .ok engine') :
    engine'.Accounted processing := by
  obtain ⟨cancelSize, -, done⟩ := of_bind done
  unfold matching at accounted
  by_cases consumed : makerOrder.remainingSize = 0
  · rw [if_neg (not_not.mpr consumed)] at done
    rw [if_pos consumed] at accounted
    cases done
    have cleaned := accounted.cleanup (mem_insert _ _) makerOrder.account makerOrder.isBid
      cancelSize
    rwa [Set.insert_sdiff_self_of_notMem outside] at cleaned
  · rw [if_pos consumed] at done
    rw [if_neg consumed] at accounted
    obtain ⟨⟨order, orderBook⟩, cancelled, rfl⟩ := of_return done
    obtain ⟨⟨isActive, found⟩, filed, (step : Ledger.Step False _ _)⟩ :=
      cancelOrder_ok accounted.consistent cancelled
    have unlisted := accounted.unlist (step.consistent accounted.consistent) ⟨_, found⟩ filed
    have cleaned := unlisted.cleanup (mem_insert _ _) makerOrder.account makerOrder.isBid cancelSize
    rwa [Set.insert_sdiff_self_of_notMem outside] at cleaned

/-- What is not settled of a maker order goes back into the book. -/
theorem reinsertMakerOrder_accounted
    (accounted : engine.Accounted (matching processing makerOrder \ {taker.orderId}))
    (mem : taker.orderId ∈ processing) (outside : makerOrder.orderId ∉ processing)
    (left : makerOrder.remainingSize ≠ 0 → engine.Listed makerOrder.orderId)
    (positive : 0 < unsettledSize) {isBid : Bool}
    (done : engine.market.orderBook.reinsertMakerOrder
      (reinsertion makerOrder unsettledSize isBid) makerOrder = .ok orderBook) :
    (engine.withOrderBook orderBook).Accounted (processing \ {taker.orderId}) := by
  have consistent := (reinsertMakerOrder_loose done).consistent accounted.consistent
  have ne : makerOrder.orderId ≠ taker.orderId := fun same => outside (same ▸ mem)
  unfold matching at accounted
  obtain ⟨-, placed | ⟨order, isActive, data, found, -, changed⟩⟩ := reinsertMakerOrder_ok done
  · -- the order had left the book
    obtain ⟨⟨missing, idx, isActive, filed⟩, (_ : Ledger.Step True _ _)⟩ :=
      placeMakerOrder_ok placed
    have consumed : makerOrder.remainingSize = 0 := by
      by_contra some
      obtain ⟨record, there⟩ := left some
      cases missing.symm.trans there
    rw [if_pos consumed] at accounted
    have filed : _ = update _ makerOrder.orderId _ := filed
    have back := accounted.list consistent filed positive ⟨mem_insert _ _, ne⟩
    rwa [Set.sdiff_sdiff_comm, Set.insert_sdiff_self_of_notMem outside] at back
  · -- the order is still in the book
    have there : engine.Listed makerOrder.orderId := ⟨_, found⟩
    have some : makerOrder.remainingSize ≠ 0 := by
      intro consumed
      rw [if_pos consumed] at accounted
      exact (accounted.listed there).2 ⟨mem_insert _ _, ne⟩
    rw [if_neg some] at accounted
    exact accounted.relist consistent (congrArg Ledger.orders changed)
      (Nat.add_pos_right _ positive) there

/-- The taker is cleaned up if it is cancelled, which a trade does for one reason only. -/
structure Settled (taker : Taker M) (processing : Set OrderId) (settlement : Settlement)
    (engine : Engine M) : Prop where
  reason : settlement.cancelReason ≠ some .maxFillLimitViolation
  accounted : engine.Accounted
    (if settlement.cancelReason.isSome then processing \ {taker.orderId} else processing)

theorem conclude_accounted (accounted : engine.Accounted (matching processing makerOrder))
    (mem : taker.orderId ∈ processing) (outside : makerOrder.orderId ∉ processing)
    (left : makerOrder.remainingSize ≠ 0 → engine.Listed makerOrder.orderId)
    {result : SettleTradeResult} {remainingSize : Nat}
    (fair : result.takerCancellationReason.isSome → makerOrder.remainingSize = 0 →
      result.makerCancellationReason = none ∧ 0 < unsettledSize)
    {settlement : Settlement}
    (done : engine.conclude taker makerOrder result remainingSize unsettledSize fillSizes =
      .ok (settlement, engine')) : Settled taker processing settlement engine' := by
  unfold conclude at done
  split at done
  · next cancelled =>
    have cleaned : (engine.cancelOrderInternal taker remainingSize fillSizes 0
        .clearinghouseSettleViolation).2.Accounted
          (matching processing makerOrder \ {taker.orderId}) :=
      accounted.cleanup (mem_matching mem) _ _ _
    split at done
    · next back =>
      obtain ⟨orderBook, reinserted, same⟩ := of_bind done
      cases same
      exact ⟨nofun, reinsertMakerOrder_accounted cleaned mem outside left back.2 reinserted⟩
    next notBack =>
    cases done
    have some : makerOrder.remainingSize ≠ 0 := by
      intro consumed
      obtain ⟨noReason, unsettled⟩ := fair cancelled consumed
      exact notBack ⟨by rw [noReason]; rfl, unsettled⟩
    unfold matching at cleaned
    rw [if_neg some] at cleaned
    exact ⟨nofun, cleaned⟩
  · split at done
    · obtain ⟨engine'', cancelled, same⟩ := of_bind done
      cases same
      exact ⟨nofun, cancelMakerOrderInternal_accounted accounted outside cancelled⟩
    unfold matching at accounted
    split at done
    · next consumed =>
      cases done
      rw [if_pos consumed] at accounted
      have cleaned := accounted.cleanup (mem_insert _ _) makerOrder.account (!taker.isBid) 0
      rw [Set.insert_sdiff_self_of_notMem outside] at cleaned
      exact ⟨nofun, cleaned⟩
    · next some =>
      cases done
      rw [if_neg some] at accounted
      exact ⟨nofun, accounted⟩

end Engine

/-- The order was returned because of the match limit and not cancelled. -/
def OrderMatchResult.unfinished (result : OrderMatchResult) (cancelOnMatchLimit : Bool) : Bool :=
  result.cancelReason = some .maxFillLimitViolation ∧ cancelOnMatchLimit = false

/-- The clearinghouse does not cancel the taker when it fills or cancels a maker order that is
no longer in the book. -/
def Callbacks.Considerate (callbacks : Callbacks M) : Prop :=
  ∀ engine trade, (callbacks.settleTrade engine trade).takerCancellationReason.isSome →
    ¬ engine.Listed trade.makerOrderId →
    (callbacks.settleTrade engine trade).makerCancellationReason = none ∧
      (callbacks.settleTrade engine trade).settledSize < trade.size

namespace Engine

variable {callbacks : Callbacks M} {engine engine' : Engine M} {processing : Set OrderId}
  {taker : Taker M} {remainingSize : Nat} {fillSizes : List Nat}

/-- What a fill leaves unsettled. -/
theorem fill_ok {matched settled remaining' unsettled : Nat} {fills : List Nat}
    (done : fill remainingSize matched settled fillSizes = .ok (remaining', unsettled, fills)) :
    unsettled = matched - settled := by
  unfold fill at done
  split at done
  · obtain ⟨_, -, done⟩ := of_bind done
    obtain ⟨_, subtracted, same⟩ := of_bind done
    cases same
    exact (Checked.sub_eq_ok.mp subtracted).2.symm
  · next none =>
    cases done
    rw [Nat.eq_zero_of_not_pos none, Nat.sub_zero]

/-- The order that was placed is still being processed exactly if it is unfinished. -/
structure Outcome (taker : Taker M) (cancelOnMatchLimit : Bool) (processing : Set OrderId)
    (result : OrderMatchResult) (engine : Engine M) : Prop where
  orderId : result.orderId = taker.orderId
  accounted : engine.Accounted
    (if result.unfinished cancelOnMatchLimit then processing else processing \ {taker.orderId})

variable {result : OrderMatchResult} {cancelOnMatchLimit : Bool} {matchCount : Nat}

theorem Outcome.finished (orderId : result.orderId = taker.orderId)
    (reason : result.cancelReason = some .maxFillLimitViolation → cancelOnMatchLimit = true)
    (accounted : engine.Accounted (processing \ {taker.orderId})) :
    Outcome taker cancelOnMatchLimit processing result engine := by
  refine ⟨orderId, ?_⟩
  have finished : result.unfinished cancelOnMatchLimit = false := by
    unfold OrderMatchResult.unfinished
    by_cases limit : result.cancelReason = some .maxFillLimitViolation
    · simp [reason limit]
    · simp [limit]
  rw [finished]
  exact accounted

section

variable (considerate : callbacks.Considerate) (accounted : engine.Accounted processing)
  (mem : taker.orderId ∈ processing)

include considerate accounted mem

/-- One match: the maker order is in the book or cleaned up afterwards. -/
theorem settleSingleTrade_accounted {settlement : Settlement}
    (done : engine.settleSingleTrade callbacks taker remainingSize fillSizes =
      .ok (settlement, engine')) : Settled taker processing settlement engine' := by
  obtain ⟨⟨⟨makerOrder, matched⟩, orderBook⟩, matching', done⟩ := of_bind done
  obtain ⟨after, outside, left⟩ := getSingleMatchForTaker_accounted accounted matching'
  dsimp only at done
  split at done
  · obtain ⟨engine'', cancelled, same⟩ := of_bind done
    cases same
    exact ⟨nofun, cancelMakerOrderInternal_accounted after outside cancelled⟩
  obtain ⟨⟨fillId, numbered⟩, counting, done⟩ := of_bind done
  obtain ⟨⟨remaining', unsettled, fills⟩, filling, done⟩ := of_bind done
  obtain ⟨nextFillId, -, same⟩ := of_bind counting
  cases same
  have ready : Accounted { engine.withOrderBook orderBook with
      market := { (engine.withOrderBook orderBook).market with nextFillId } }
      (matching processing makerOrder) := after.congr rfl rfl rfl
  refine conclude_accounted (ready.notify (fun _ => rfl) (fun _ valid => by cases valid)) mem
    outside left ?_ done
  intro cancelled consumed
  have gone : ¬ Listed _ makerOrder.orderId := fun there => (ready.listed there).2 (by
    unfold Engine.matching
    rw [if_pos consumed]
    exact mem_insert _ _)
  obtain ⟨noReason, less⟩ := considerate _ _ cancelled gone
  rw [fill_ok filling]
  exact ⟨noReason, Nat.sub_pos_of_lt less⟩

/-! ## Placing -/

omit considerate in
theorem cancelOrderInternal_outcome {sizeDelta : Nat} {reason : OrderCancellationReason}
    (limit : reason = .maxFillLimitViolation → cancelOnMatchLimit = true)
    (done : engine.cancelOrderInternal taker sizeDelta fillSizes matchCount reason =
      (result, engine')) :
    Outcome taker cancelOnMatchLimit processing result engine' := by
  cases done
  exact .finished rfl (fun same => limit (Option.some.inj same)) (accounted.cleanup mem _ _ _)

omit considerate in
theorem placeMakerOrderInternal_outcome (positive : 0 < remainingSize)
    (done : engine.placeMakerOrderInternal taker remainingSize fillSizes matchCount =
      .ok (result, engine')) :
    Outcome taker cancelOnMatchLimit processing result engine' := by
  unfold placeMakerOrderInternal at done
  split at done
  · exact cancelOrderInternal_outcome accounted mem (by rintro ⟨⟩) (Except.ok.inj done)
  obtain ⟨orderBook, placed, same⟩ := of_bind done
  cases same
  obtain ⟨⟨-, idx, isActive, filed⟩, (step : Ledger.Step False _ _)⟩ := placeMakerOrder_ok placed
  have told : (engine.notify (.placeMakerOrder taker.userAddr taker.orderId taker.isBid
      taker.limitPrice remainingSize taker.metadata)).Accounted processing :=
    accounted.notify (fun _ => rfl) (fun _ valid => by cases valid)
  exact .finished rfl (by rintro ⟨⟩)
    (told.list (step.consistent accounted.consistent) filed positive mem)

/-- A round ends with the order in its place, or goes on with the order being processed. -/
theorem matchRound_ok (cancelOnMatchLimit : Bool) {round : MatchRound M}
    (done : engine.matchRound callbacks taker remainingSize fillSizes matchCount = .ok round) :
    match round with
    | .finished result engine' => Outcome taker cancelOnMatchLimit processing result engine'
    | .crossing _ _ engine' => engine'.Accounted processing := by
  obtain ⟨⟨settlement, settled⟩, settling, done⟩ := of_bind done
  obtain ⟨reason, after⟩ := settleSingleTrade_accounted considerate accounted mem settling
  dsimp only at done
  split at done
  · next cancelled =>
    cases done
    rw [if_pos cancelled] at after
    exact .finished rfl (fun limit => absurd limit reason) after
  next notCancelled =>
  rw [if_neg notCancelled] at after
  split at done
  · cases done
    exact .finished rfl (by rintro ⟨⟩) (after.cleanup mem _ _ _)
  next some =>
  split at done
  · split at done
    · cases done
      exact cancelOrderInternal_outcome after mem (by rintro ⟨⟩) rfl
    · obtain ⟨⟨result, placed⟩, placing, rfl⟩ := of_return done
      exact placeMakerOrderInternal_outcome after mem (pos_of_ne_zero some) placing
  · cases done
    exact after

theorem matchTaker_outcome {further : Nat}
    (done : matchTaker callbacks taker cancelOnMatchLimit further engine remainingSize fillSizes
      matchCount = .ok (result, engine')) :
    Outcome taker cancelOnMatchLimit processing result engine' := by
  induction further generalizing engine remainingSize fillSizes matchCount with
  | zero =>
    obtain ⟨round, matching', done⟩ := of_bind done
    have after := matchRound_ok considerate accounted mem cancelOnMatchLimit matching'
    cases round with
    | finished result' engine'' =>
      cases done
      exact after
    | crossing remaining fills engine'' =>
      dsimp only at done after
      split at done
      · next limit =>
        exact cancelOrderInternal_outcome after mem (fun _ => limit) (Except.ok.inj done)
      next noLimit =>
      cases done
      refine ⟨rfl, ?_⟩
      have unfinished : OrderMatchResult.unfinished ⟨taker.orderId, remaining,
          some .maxFillLimitViolation, fills, matchCount + 1⟩ cancelOnMatchLimit = true := by
        simpa [OrderMatchResult.unfinished] using noLimit
      rw [unfinished]
      exact after
  | succ further ih =>
    obtain ⟨round, matching', done⟩ := of_bind done
    have after := matchRound_ok considerate accounted mem cancelOnMatchLimit matching'
    cases round with
    | finished result' engine'' =>
      cases done
      exact after
    | crossing remaining fills engine'' => exact ih after done

variable {maxMatchLimit now : Nat}

theorem placeValidated_outcome (positive : 0 < remainingSize) {isTakerOrder : Bool}
    (done : engine.placeValidated callbacks taker remainingSize isTakerOrder maxMatchLimit
      cancelOnMatchLimit now = .ok (result, engine')) :
    Outcome taker cancelOnMatchLimit processing result engine' := by
  unfold placeValidated at done
  split at done
  · exact cancelOrderInternal_outcome accounted mem (by rintro ⟨⟩) (Except.ok.inj done)
  obtain ⟨⟨preCancelled, checked⟩, checking, done⟩ := of_bind done
  have same : checked.Accounted processing := by
    unfold isPreCancelled at checking
    split at checking
    · cases checking
      exact accounted
    · obtain ⟨⟨_, tracker⟩, -, eq⟩ := of_bind checking
      cases eq
      exact accounted.congr rfl rfl rfl
  dsimp only at done
  split at done
  · exact cancelOrderInternal_outcome same mem (by rintro ⟨⟩) (Except.ok.inj done)
  split at done
  · exact placeMakerOrderInternal_outcome same mem positive done
  · split at done
    · exact cancelOrderInternal_outcome same mem (by rintro ⟨⟩) (Except.ok.inj done)
    · exact matchTaker_outcome considerate same mem done

theorem placeTaker_outcome (positive : 0 < remainingSize)
    (done : engine.placeTaker callbacks taker remainingSize maxMatchLimit cancelOnMatchLimit now =
      .ok (result, engine')) :
    Outcome taker cancelOnMatchLimit processing result engine' := by
  unfold placeTaker at done
  dsimp only at done
  have asked : ∀ placement valid, placement.orderId = taker.orderId →
      (engine.notify (.validateOrderPlacement placement valid)).Accounted processing := by
    intro placement valid same
    refine accounted.notify (fun _ => rfl) fun a isValid => ?_
    obtain ⟨-, rfl⟩ : valid = true ∧ placement.orderId = a := of_decide_eq_true isValid
    rw [same]
    exact mem
  split at done
  · exact placeValidated_outcome considerate (asked _ _ rfl) mem positive done
  · exact cancelOrderInternal_outcome (asked _ _ rfl) mem (by rintro ⟨⟩) (Except.ok.inj done)

end

end Engine

/-! ## Runs -/

/-- The calls of users. -/
inductive MarketCall (M : Type) where
  | placeLimitOrder (user : Address) (limitPrice origSize : Nat) (isBid : Bool)
      (timeInForce : TimeInForce) (triggerCondition : Option TriggerCondition) (metadata : M)
      (clientOrderId : Option Nat) (maxMatchLimit : Nat) (cancelOnMatchLimit : Bool)
  | placeMarketOrder (user : Address) (origSize : Nat) (isBid : Bool) (metadata : M)
      (clientOrderId : Option Nat) (maxMatchLimit : Nat) (cancelOnMatchLimit : Bool)
  | cancelOrder (user : Address) (orderId : OrderId)
  | cancelOrderWithClientId (user : Address) (clientOrderId : Nat)
  | decreaseOrderSize (user : Address) (orderId : OrderId) (sizeDelta : Nat)

/-- A call with the clearinghouse it is made with and the time in microseconds. -/
structure MarketInput (M : Type) where
  call : MarketCall M
  callbacks : Callbacks M
  now : Nat

/-- A market and the orders that were returned unfinished. -/
structure Session (M : Type) where
  engine : Engine M
  unfinished : List OrderId

namespace Session

def start (config : MarketConfig) : Session M := ⟨⟨.newMarket config, []⟩, []⟩

variable (session : Session M)

/-- Take note of the order if it is returned unfinished. -/
def place (cancelOnMatchLimit : Bool) (outcome : OrderMatchResult × Engine M) : Session M where
  engine := outcome.2
  unfinished :=
    if outcome.1.unfinished cancelOnMatchLimit then outcome.1.orderId :: session.unfinished
    else session.unfinished

def call (input : MarketInput M) : Checked (Session M) :=
  match input.call with
  | .placeLimitOrder user limitPrice origSize isBid timeInForce triggerCondition metadata
      clientOrderId maxMatchLimit cancelOnMatchLimit => do
      let outcome ← session.engine.placeLimitOrder input.callbacks user limitPrice origSize isBid
        timeInForce triggerCondition metadata clientOrderId maxMatchLimit cancelOnMatchLimit
        input.now
      return session.place cancelOnMatchLimit outcome
  | .placeMarketOrder user origSize isBid metadata clientOrderId maxMatchLimit
      cancelOnMatchLimit => do
      let outcome ← session.engine.placeMarketOrder input.callbacks user origSize isBid metadata
        clientOrderId maxMatchLimit cancelOnMatchLimit input.now
      return session.place cancelOnMatchLimit outcome
  | .cancelOrder user orderId => do
      let engine ← session.engine.cancelOrder user orderId
      return { session with engine }
  | .cancelOrderWithClientId user clientOrderId => do
      let engine ← session.engine.cancelOrderWithClientId user clientOrderId input.now
      return { session with engine }
  | .decreaseOrderSize user orderId sizeDelta => do
      let engine ← session.engine.decreaseOrderSize user orderId sizeDelta
      return { session with engine }

def step (input : MarketInput M) (session : Session M) : Option (Session M) :=
  (session.call input).committed

/-- The states that are reached when the clearinghouse of every call meets a condition. -/
def Reached (condition : Callbacks M → Prop) (session : Session M) : Prop :=
  Run.Reaches step (fun _ input => condition input.callbacks)
    (fun first => ∃ config, first = start config) session

/-- The order is still being processed. -/
def Processing (id : OrderId) : Prop := id ∈ session.unfinished

/-- The contract for one order: it is cleaned up at most once, exactly if it is neither in the
book nor being processed, and otherwise something of it remains in the book. -/
structure Contract (session : Session M) (id : OrderId) : Prop where
  once : session.engine.cleanups id ≤ 1
  exactly : session.engine.cleanups id = 1 ↔
    ¬ session.engine.Listed id ∧ ¬ session.Processing id
  otherwise : session.engine.cleanups id = 0 → ¬ session.Processing id →
    ∃ record, session.engine.market.orderBook.orders.find? id = some record ∧
      0 < record.order.remainingSize

/-- What the calls keep. -/
def Sound : Prop := session.engine.Accounted { id | session.Processing id }

variable {session session' : Session M} {input : MarketInput M}

theorem Sound.contract (sound : session.Sound) {id : OrderId}
    (valid : session.engine.Validated id) : session.Contract id := by
  by_cases processing : session.Processing id
  · have none := sound.waiting processing
    exact ⟨by omega, ⟨fun one => by omega, fun gone => absurd processing gone.2⟩,
      fun _ not => absurd processing not⟩
  rcases sound.settled valid processing with there | cleaned
  · have none := (sound.listed there).1
    refine ⟨by omega, ⟨fun one => by omega, fun gone => absurd there gone.1⟩, fun _ _ => ?_⟩
    obtain ⟨record, found⟩ := there
    exact ⟨record, found, sound.positive found⟩
  · have gone : ¬ session.engine.Listed id := by
      intro there
      have none := (sound.listed there).1
      omega
    exact ⟨by omega, ⟨fun _ => ⟨gone, processing⟩, fun _ => cleaned⟩, fun none => by omega⟩

theorem sound_start (config : MarketConfig) : (start config : Session M).Sound where
  consistent := consistent_newOrderBook
  positive found := by cases found
  listed there := by
    obtain ⟨_, found⟩ := there
    cases found
  waiting mem := absurd mem not_mem_nil
  settled valid := by
    obtain ⟨_, mem, -⟩ := valid
    cases mem
  issued known := by
    rcases known with ⟨_, found⟩ | cleaned | mem
    · cases found
    · exact absurd cleaned (lt_irrefl 0)
    · cases mem

theorem Sound.place (sound : session.Sound) (considerate : input.callbacks.Considerate)
    {args : OrderArgs M} {size maxMatchLimit now : Nat} {cancelOnMatchLimit : Bool}
    {outcome : OrderMatchResult × Engine M}
    (done : session.engine.placeOrderWithOrderId input.callbacks args size none maxMatchLimit
      cancelOnMatchLimit now = .ok outcome) :
    (session.place cancelOnMatchLimit outcome).Sound := by
  obtain ⟨_, sizes, done⟩ := of_bind done
  obtain ⟨⟨orderId, engine⟩, numbering, done⟩ := of_bind done
  obtain ⟨⟨orderId', generator⟩, generated, same⟩ := of_bind numbering
  cases same
  obtain ⟨result, engine'⟩ := outcome
  obtain ⟨accounted, outside⟩ := Engine.Accounted.begin' sound generated
  obtain ⟨name, after⟩ := Engine.placeTaker_outcome considerate accounted (mem_insert _ _)
    (ensure_eq_ok.mp sizes).2 done
  unfold Sound Session.place
  split_ifs at after ⊢
  · rw [name]
    have same : { id | Processing ⟨engine', orderId :: session.unfinished⟩ id } =
        insert orderId { id | session.Processing id } := Set.ext fun id => mem_cons
    exact same ▸ after
  · rwa [Set.insert_sdiff_self_of_notMem outside] at after

/-- An order that is in the book is cancelled and cleaned up. -/
theorem Sound.cancel (sound : session.Sound) {creator : Address} {orderId : OrderId}
    {order : Order M} {orderBook : OrderBook M}
    (done : session.engine.market.orderBook.cancelOrder creator orderId = .ok (order, orderBook)) :
    (⟨(session.engine.withOrderBook orderBook).cancelOrderHelper order,
      session.unfinished⟩ : Session M).Sound := by
  obtain ⟨⟨isActive, found⟩, filed, (step : Ledger.Step False _ _)⟩ :=
    cancelOrder_ok sound.consistent done
  have name : order.orderId = orderId := sound.consistent.numbered.named found
  have there : session.engine.Listed orderId := ⟨_, found⟩
  have unlisted := sound.unlist (step.consistent sound.consistent) there filed
  have cleaned := unlisted.cleanup (mem_insert _ _) order.account order.isBid order.remainingSize
  rw [Set.insert_sdiff_self_of_notMem (sound.listed there).2] at cleaned
  unfold Engine.cancelOrderHelper
  rw [name]
  exact cleaned

theorem Sound.call (sound : session.Sound) (considerate : input.callbacks.Considerate)
    (done : session.call input = .ok session') : session'.Sound := by
  unfold Session.call at done
  split at done
  · obtain ⟨outcome, placed, rfl⟩ := of_return done
    exact sound.place considerate placed
  · obtain ⟨outcome, placed, rfl⟩ := of_return done
    exact sound.place considerate placed
  · obtain ⟨engine, cancelled, rfl⟩ := of_return done
    obtain ⟨⟨order, orderBook⟩, cancelling, rest⟩ := of_bind cancelled
    cases of_check rest
    exact sound.cancel cancelling
  · obtain ⟨engine, cancelled, rfl⟩ := of_return done
    obtain ⟨⟨order?, orderBook⟩, trying, rest⟩ := of_bind cancelled
    unfold tryCancelOrderWithClientOrderId at trying
    split at trying
    · cases trying
      obtain ⟨tracker, -, rfl⟩ := of_return rest
      exact .congr sound rfl rfl rfl
    · obtain ⟨⟨order, orderBook'⟩, cancelling, same⟩ := of_bind trying
      cases same
      cases rest
      exact sound.cancel cancelling
  · next user orderId sizeDelta _ =>
    obtain ⟨engine, decreased, rfl⟩ := of_return done
    obtain ⟨orderBook, decreasing, rest⟩ := of_bind decreased
    obtain ⟨⟨order, isActive, found, enough, filed⟩, step⟩ :=
      decreaseOrderSize_ok sound.consistent (.inr trivial) decreasing
    have after := sound.relist (step.consistent sound.consistent) filed
      (Nat.sub_pos_of_lt enough) ⟨_, found⟩
    split at rest
    · cases rest
    · cases of_check rest
      exact after.notify (fun _ => rfl) (fun _ valid => by cases valid)

theorem Reached.sound (reached : session.Reached Callbacks.Considerate) : session.Sound := by
  refine reached.invariant ?_ ?_
  · rintro _ ⟨config, rfl⟩
    exact sound_start config
  · intro session input session' sound considerate done
    exact sound.call considerate (Checked.committed_eq_some.mp done)

end Session

/-- In every run with considerate clearinghouses, every valid order is cleaned up once, when it
is neither in the book nor being processed any more. -/
theorem cleanup_contract {session : Session M} (reached : session.Reached Callbacks.Considerate)
    {id : OrderId} (valid : session.engine.Validated id) : session.Contract id :=
  reached.sound.contract valid

/-- **The book is never crossed.**  In every such run an entry of the active book belongs to an
order of which something remains and that is not cleaned up, and bids are below asks. -/
theorem market_uncrossed {session : Session M} (reached : session.Reached Callbacks.Considerate)
    {book : OrderBook M} (isBook : session.engine.market.orderBook = book) {isBid : Bool}
    {key : ActiveBidKey} {data : ActiveBidData}
    (held : (book.activeOrders.side isBid).find? key = some data) :
    (∃ order, book.orders.find? data.orderId = some ⟨order, true⟩ ∧ order.isBid = isBid ∧
      order.price = key.price ∧ 0 < order.remainingSize) ∧
    session.engine.cleanups data.orderId = 0 ∧ ¬ session.Processing data.orderId ∧
    ∀ ask data', isBid = true → (book.activeOrders.side false).find? ask = some data' →
      key.price < ask.price := by
  subst isBook
  have sound := reached.sound
  have active : session.engine.market.orderBook.ledger.active (isBid, key) = some data := held
  obtain ⟨order, found, slot⟩ := sound.consistent.owner active
  obtain ⟨fresh, free⟩ := sound.listed ⟨_, found⟩
  refine ⟨⟨order, found, congrArg Prod.fst slot, congrArg (fun slot => slot.2.price) slot,
    sound.positive found⟩, fresh, free, ?_⟩
  rintro ask data' rfl held'
  exact sound.consistent.apart _ _ _ _ held held'

/-! ## A bid that meets an ask -/

/-- The clearinghouse settles at most the matched size. -/
def Callbacks.Moderate (callbacks : Callbacks M) : Prop :=
  ∀ engine trade, (callbacks.settleTrade engine trade).settledSize ≤ trade.size

namespace BidMeetsAsk

variable (takerReason : Option String)

/-- Settles everything, and cancels the taker for a reason if there is one. -/
def settling : Callbacks Unit where
  settleTrade _ trade := ⟨trade.size, none, takerReason⟩
  validateOrderPlacement _ _ := true

def limitOrder (user : Address) (price size : Nat) (isBid : Bool) : MarketInput Unit where
  call := .placeLimitOrder user price size isBid .gtc none () none 1 true
  callbacks := settling takerReason
  now := 0

def order (user : Address) (isBid : Bool) : MarketInput Unit :=
  limitOrder takerReason user 10 5 isBid

def config : MarketConfig := ⟨false, 0⟩

def after (input : MarketInput Unit) (session : Session Unit) : Session Unit :=
  (session.step input).getD session

/-- An ask of one user rests, then a bid of another user takes all of it. -/
def met : Session Unit :=
  after (order takerReason 2 true) (after (order takerReason 1 false) (.start config))

theorem met_reached {takerReason : Option String} {condition : Callbacks Unit → Prop}
    (holds : condition (settling takerReason))
    (asked : Session.step (order takerReason 1 false) (.start config) =
      some (after (order takerReason 1 false) (.start config)))
    (bid : Session.step (order takerReason 2 true)
      (after (order takerReason 1 false) (.start config)) = some (met takerReason)) :
    (met takerReason).Reached condition := by
  refine Run.Reaches.of_inputs (.start ⟨config, rfl⟩)
    [order takerReason 1 false, order takerReason 2 true] ?_
  exact ⟨holds, _, asked, holds, _, bid, rfl⟩

theorem considerate_settling : (settling none).Considerate := by
  intro engine trade cancelled
  cases cancelled

theorem validated_ask (takerReason : Option String) : (met takerReason).engine.Validated 1 := by
  cases takerReason with
  | none | some reason => exact ⟨_, mem_of_mem_head? rfl, rfl⟩

/-- The ask that was filled is cleaned up. -/
theorem ask_contract : (met none).Reached Callbacks.Considerate ∧ (met none).Contract 1 := by
  have reached := met_reached considerate_settling rfl rfl
  exact ⟨reached, cleanup_contract reached (validated_ask none)⟩

/-- A bid takes a part of an ask, of which the rest stays, and a lower bid rests too. -/
def rested : Session Unit :=
  after (limitOrder none 3 8 4 true) (after (limitOrder none 2 10 3 true)
    (after (limitOrder none 1 10 5 false) (.start config)))

theorem both_rest : rested.Reached Callbacks.Considerate ∧
    (∃ order, rested.engine.market.orderBook.orders.find? 1 = some ⟨order, true⟩ ∧
      order.isBid = false ∧ order.price = 10 ∧ 0 < order.remainingSize) ∧
    rested.engine.cleanups 3 = 0 ∧ ∀ ask data,
      (rested.engine.market.orderBook.activeOrders.side false).find? ask = some data →
        8 < ask.price := by
  have reached : rested.Reached Callbacks.Considerate := by
    refine Run.Reaches.of_inputs (.start ⟨config, rfl⟩)
      [limitOrder none 1 10 5 false, limitOrder none 2 10 3 true, limitOrder none 3 8 4 true] ?_
    exact ⟨considerate_settling, _, rfl, considerate_settling, _, rfl, considerate_settling, _, rfl,
      rfl⟩
  have ask := @market_uncrossed _ _ reached _ rfl false ⟨10, u128Max - 1⟩ ⟨1, 2⟩ rfl
  have bid := @market_uncrossed _ _ reached _ rfl true ⟨8, 2⟩ ⟨3, 4⟩ rfl
  exact ⟨reached, ask.1, bid.2.1, fun key data => bid.2.2.2 key data rfl⟩

/-- The ask is filled and the bid cancelled in one settlement: the ask is never cleaned up. -/
theorem ask_forgotten : (met (some "")).Reached Callbacks.Moderate ∧
    (met (some "")).engine.Validated 1 ∧ ¬ (met (some "")).Contract 1 := by
  refine ⟨met_reached (fun _ _ => le_rfl) rfl rfl, validated_ask _, fun contract => ?_⟩
  have gone : ¬ (met (some "")).engine.Listed 1 := by
    rintro ⟨record, found⟩
    cases found
  have cleaned : (met (some "")).engine.cleanups 1 = 1 :=
    contract.exactly.mpr ⟨gone, not_mem_nil⟩
  cases cleaned

end BidMeetsAsk

end CreditChain
