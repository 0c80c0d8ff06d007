import CreditChain.Lib.Checked
import CreditChain.Lib.Run
import CreditChain.Lib.SharePool

/-!
# Pools of shares

The framework has two pools that track the coins of shareholders by shares.  Here is what
they have in common: the conversions between coins and shares, which differ only in the type
of the shares, and what a pool owes to its shareholders (`Ops.Fair`).

`Ops.Rounds.fair` derives it for any pool whose operations are trades of a pool of shares
that round down.
-/

namespace CreditChain

open SharePool Checked

/-- An account address. -/
abbrev Address := Nat

namespace Pool

-- the error codes of both pools
def eShareholderNotFound : Nat := 1

def eTooManyShareholders : Nat := 2

def eInsufficientShares : Nat := 4

def eShareholderSharesOverflow : Nat := 5

def ePoolTotalCoinsOverflow : Nat := 6

def ePoolTotalSharesOverflow : Nat := 7

/-- `mul_div` of `math64` and `math128`: the product is computed at twice the width. -/
def mulDiv (max a b c : Nat) : Checked Nat := do
  ensure (c ≠ 0) (.invalidArgument 4)
  Checked.cast max (a * b / c)

/-- The totals of a pool. -/
structure Totals where
  totalCoins : Nat
  totalShares : Nat
  scalingFactor : Nat
  deriving DecidableEq

namespace Totals

variable (max : Nat) (self : Totals)

/-- `amount_to_shares_with_total_coins`, for shares up to `max`. -/
def amountToSharesWithTotalCoins (coinsAmount totalCoins : Nat) : Checked Nat :=
  if self.totalCoins = 0 ∨ self.totalShares = 0 then
    Checked.mul max coinsAmount self.scalingFactor
  else mulDiv max coinsAmount self.totalShares totalCoins

/-- `shares_to_amount_with_total_coins`, for shares up to `max`. -/
def sharesToAmountWithTotalCoins (shares totalCoins : Nat) : Checked Nat :=
  if self.totalCoins = 0 ∨ self.totalShares = 0 then .ok 0
  else do
    let amount ← mulDiv max shares totalCoins self.totalShares
    Checked.cast u64Max amount

-- `amount_to_shares` and `shares_to_amount`
def amountToShares (coinsAmount : Nat) : Checked Nat :=
  self.amountToSharesWithTotalCoins max coinsAmount self.totalCoins

def sharesToAmount (shares : Nat) : Checked Nat :=
  self.sharesToAmountWithTotalCoins max shares self.totalCoins

variable {max : Nat} {self : Totals}

/-- The price of new shares is at least the old one. -/
theorem amountToShares_cost {coins n : Nat} (ok : self.amountToShares max coins = .ok n) :
    self.totalCoins = 0 ∨ self.totalShares = 0 ∨
      n * self.totalCoins ≤ coins * self.totalShares := by
  by_cases bare : self.totalCoins = 0 ∨ self.totalShares = 0
  · exact bare.elim .inl (.inr ∘ .inl)
  rw [amountToShares, amountToSharesWithTotalCoins, if_neg bare, mulDiv, Except.bind_eq_ok] at ok
  obtain ⟨-, -, ok⟩ := ok
  rw [cast_eq_ok] at ok
  rw [← ok.2]
  exact .inr (.inr (Nat.div_mul_le_self _ _))

theorem sharesToAmount_ok {n amount : Nat} (ok : self.sharesToAmount max n = .ok amount) :
    amount = SharePool.worth self.totalCoins self.totalShares n := by
  rw [sharesToAmount, sharesToAmountWithTotalCoins, mulDiv] at ok
  rw [worth]
  split_ifs at ok ⊢
  · cases ok
    rfl
  · simp only [Except.bind_eq_ok, cast_eq_ok] at ok
    obtain ⟨quotient, ⟨-, -, -, rfl⟩, -, rfl⟩ := ok
    rfl

/-- What a part of the shares is worth can always be computed. -/
theorem sharesToAmount_of_le {n : Nat} (part : n ≤ self.totalShares)
    (coins : self.totalCoins ≤ u64Max) (wide : u64Max ≤ max) :
    self.sharesToAmount max n = .ok (SharePool.worth self.totalCoins self.totalShares n) := by
  have small : worth self.totalCoins _ n ≤ _ := worth_le part
  by_cases bare : self.totalCoins = 0 ∨ self.totalShares = 0
  · rw [sharesToAmount, sharesToAmountWithTotalCoins, if_pos bare, worth, if_pos bare]
  rw [worth, if_neg bare] at small ⊢
  rw [sharesToAmount, sharesToAmountWithTotalCoins, if_neg bare, mulDiv]
  simp only [Except.bind_eq_ok, ensure_eq_ok, cast_eq_ok]
  exact ⟨_, ⟨(), fun zero => bare (.inr zero), by omega, rfl⟩, by omega, rfl⟩

end Totals

/-! ## What a pool owes its shareholders -/

/-- A call that changes a pool. -/
inductive Call where
  | buyIn (shareholder : Address) (coinsAmount : Nat)
  | redeemShares (shareholder : Address) (sharesToRedeem : Nat)
  | transferShares (shareholder1 shareholder2 : Address) (sharesToTransfer : Nat)
  | updateTotalCoins (newTotalCoins : Nat)

/-- The arguments have their types. -/
def Call.Typed (maxShares : Nat) : Call → Prop
  | buyIn _ coinsAmount => coinsAmount ≤ u64Max
  | redeemShares _ sharesToRedeem => sharesToRedeem ≤ maxShares
  | transferShares _ _ sharesToTransfer => sharesToTransfer ≤ maxShares
  | updateTotalCoins newTotalCoins => newTotalCoins ≤ u64Max

/-- The accounts a call names, if it trades shares. -/
def Call.named? : Call → Option (List Address)
  | buyIn shareholder _ => some [shareholder]
  | redeemShares shareholder _ => some [shareholder]
  | transferShares shareholder1 shareholder2 _ => some [shareholder1, shareholder2]
  | updateTotalCoins _ => none

/-- The operations of a pool and what it records. -/
structure Ops (σ : Type) where
  maxShares : Nat
  buyIn : σ → Address → Nat → Checked (Nat × σ)
  redeemShares : σ → Address → Nat → Checked (Nat × σ)
  transferShares : σ → Address → Address → Nat → Checked σ
  updateTotalCoins : σ → Nat → σ
  balance : σ → Address → Checked Nat
  recorded : σ → SharePool Address

variable {σ : Type} (ops : Ops σ)

/-- The state after a call that does not abort. -/
def Ops.step : Call → σ → Option σ
  | .buyIn shareholder coinsAmount, s =>
    Checked.committed ((ops.buyIn s shareholder coinsAmount).map (·.2))
  | .redeemShares shareholder sharesToRedeem, s =>
    Checked.committed ((ops.redeemShares s shareholder sharesToRedeem).map (·.2))
  | .transferShares shareholder1 shareholder2 sharesToTransfer, s =>
    Checked.committed (ops.transferShares s shareholder1 shareholder2 sharesToTransfer)
  | .updateTotalCoins newTotalCoins, s => some (ops.updateTotalCoins s newTotalCoins)

/-- The states of pools in use. -/
def Ops.Reached (start : σ → Prop) : σ → Prop :=
  Run.Reaches ops.step (fun _ call => call.Typed ops.maxShares) start

/-- The recorded shares are all shares of the pool, and what they are worth can be computed
and is at most the coins of the pool. -/
def Ops.Covered (s : σ) : Prop :=
  (ops.recorded s).shares.sum (fun _ n => n) = (ops.recorded s).total ∧
    ∃ balances, (ops.recorded s).shares.entries.mapM (fun entry => ops.balance s entry.1) =
      .ok balances ∧ balances.sum ≤ (ops.recorded s).coins

/-- A trade takes nothing from an account that it does not name. -/
def Ops.Harmless (s : σ) : Prop :=
  ∀ call named s', call.Typed ops.maxShares → call.named? = some named →
    ops.step call s = some s' → ∀ account, account ∉ named →
      ∃ before after, ops.balance s account = .ok before ∧ ops.balance s' account = .ok after ∧
        before ≤ after

/-- Shares that are redeemed as soon as they are bought pay at most what they cost. -/
def Ops.NoProfit (s : σ) : Prop :=
  ((ops.recorded s).total = 0 ↔ (ops.recorded s).coins = 0) →
    ∀ shareholder coins bought s' paid s'', ops.buyIn s shareholder coins = .ok (bought, s') →
      ops.redeemShares s' shareholder bought = .ok (paid, s'') → paid ≤ coins

/-- What every pool in use guarantees. -/
def Ops.Fair (start : σ → Prop) : Prop :=
  ∀ s, ops.Reached start s → ops.Covered s ∧ ops.Harmless s ∧ ops.NoProfit s

/-! ## Pools whose trades round down -/

/-- What the operations of a pool do to its record, from every state with `inv`. -/
structure Ops.Rounds (inv : σ → Prop) : Prop where
  balanced : ∀ {s}, inv s → (ops.recorded s).Balanced
  balance : ∀ {s}, inv s → ∀ account, ops.balance s account = .ok ((ops.recorded s).balance account)
  buyIn : ∀ {s}, inv s → ∀ {shareholder coins n s'}, ops.buyIn s shareholder coins = .ok (n, s') →
    inv s' ∧ ((n = 0 ∧ ops.recorded s' = ops.recorded s) ∨
      (((ops.recorded s).coins = 0 ∨ (ops.recorded s).total = 0 ∨
          n * (ops.recorded s).coins ≤ coins * (ops.recorded s).total) ∧
        ops.recorded s' = ⟨(ops.recorded s).coins + coins, (ops.recorded s).total + n,
          SharePool.credit (ops.recorded s).shares shareholder n⟩))
  redeemShares : ∀ {s}, inv s → ∀ {shareholder n paid s'},
    ops.redeemShares s shareholder n = .ok (paid, s') →
      inv s' ∧ paid = SharePool.worth (ops.recorded s).coins (ops.recorded s).total n ∧
        SharePool.Trade [shareholder] (ops.recorded s) (ops.recorded s')
  transferShares : ∀ {s}, inv s → ∀ {giver taker n s'},
    ops.transferShares s giver taker n = .ok s' →
      inv s' ∧ SharePool.Trade [giver, taker] (ops.recorded s) (ops.recorded s')
  updateTotalCoins : ∀ {s}, inv s → ∀ {coins}, coins ≤ u64Max → inv (ops.updateTotalCoins s coins)

section Rounds

variable {ops} {inv : σ → Prop} (rounds : ops.Rounds inv)
include rounds

theorem Ops.Rounds.step {s s' : σ} (held : inv s) {call : Call} (typed : call.Typed ops.maxShares)
    (done : ops.step call s = some s') : inv s' ∧ ∀ named, call.named? = some named →
      SharePool.Trade named (ops.recorded s) (ops.recorded s') := by
  cases call with
  | buyIn shareholder coins =>
    rw [Ops.step, committed_eq_some, Except.map_eq_ok] at done
    obtain ⟨⟨n, _⟩, done, rfl⟩ := done
    obtain ⟨kept, effect⟩ := rounds.buyIn held done
    refine ⟨kept, fun named names => ?_⟩
    cases names
    rcases effect with ⟨-, same⟩ | ⟨cost, traded⟩
    · rw [same]
      exact .idle
    · rw [traded]
      exact .buy cost
  | redeemShares shareholder n =>
    rw [Ops.step, committed_eq_some, Except.map_eq_ok] at done
    obtain ⟨⟨paid, _⟩, done, rfl⟩ := done
    obtain ⟨kept, -, trade⟩ := rounds.redeemShares held done
    refine ⟨kept, fun named names => ?_⟩
    cases names
    exact trade
  | transferShares giver taker n =>
    rw [Ops.step, committed_eq_some] at done
    obtain ⟨kept, trade⟩ := rounds.transferShares held done
    refine ⟨kept, fun named names => ?_⟩
    cases names
    exact trade
  | updateTotalCoins coins =>
    rw [Ops.step, Option.some.injEq] at done
    refine ⟨done ▸ rounds.updateTotalCoins held typed, fun named names => ?_⟩
    cases names

theorem Ops.Rounds.covered {s : σ} (held : inv s) : ops.Covered s := by
  refine ⟨rounds.balanced held, ?_⟩
  have computed : ∀ entries : List (Address × Nat),
      entries.mapM (fun entry => ops.balance s entry.1) =
        .ok (entries.map fun entry => (ops.recorded s).balance entry.1) := by
    intro entries
    induction entries with
    | nil => rfl
    | cons entry entries ih =>
      rw [List.mapM_cons, rounds.balance held, ih]
      rfl
  refine ⟨_, computed _, ?_⟩
  have owned : ∀ entry ∈ (ops.recorded s).shares.entries, (ops.recorded s).balance entry.1 =
      worth (ops.recorded s).coins (ops.recorded s).total entry.2 := by
    intro entry mem
    rw [SharePool.balance, sharesOf, Table.find?_eq_some.mpr mem, Option.getD_some]
  rw [List.map_congr_left owned]
  exact sum_worth_le (rounds.balanced held)

theorem Ops.Rounds.noProfit {s : σ} (held : inv s) : ops.NoProfit s := by
  intro alike shareholder coins bought s' paid s'' buy redeem
  obtain ⟨held', effect⟩ := rounds.buyIn held buy
  obtain ⟨-, rfl, -⟩ := rounds.redeemShares held' redeem
  rcases effect with ⟨rfl, -⟩ | ⟨cost, traded⟩
  · rw [worth_zero]
    exact Nat.zero_le _
  rw [traded]
  by_cases bare : (ops.recorded s).coins = 0
  · rw [bare, alike.mpr bare, Nat.zero_add, Nat.zero_add]
    exact worth_le (le_rfl)
  have shared : (ops.recorded s).total ≠ 0 := fun none_left => bare (alike.mp none_left)
  rcases cost with none_left | none_left | cost
  · exact absurd none_left bare
  · exact absurd none_left shared
  · exact redeem_bought_le cost

theorem Ops.Rounds.fair {start : σ → Prop} (initial : ∀ s, start s → inv s) : ops.Fair start := by
  intro s reached
  have held : inv s := Run.Reaches.invariant initial
    (fun s call s' held typed done => (rounds.step held typed done).1) reached
  refine ⟨rounds.covered held, ?_, rounds.noProfit held⟩
  intro call named s' typed names done account unnamed
  obtain ⟨held', trade⟩ := rounds.step held typed done
  exact ⟨_, _, rounds.balance held account, rounds.balance held' account,
    (trade named names).balance_le (rounds.balanced held) unnamed⟩

end Rounds

end Pool

end CreditChain
