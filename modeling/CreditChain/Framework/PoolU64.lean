import CreditChain.Framework.Pool

/-!
# The two pools: `pool_u64_unbound` and `pool_u64`

`pool_u64_unbound` counts shares in a `u128` and has any number of shareholders.  `pool_u64`
counts them in a `u64`, lists its shareholders and limits their number.
-/

namespace CreditChain

open Checked
open CreditChain.Except (bind_eq_ok)

/-! ## Any number of shareholders -/

structure PoolU64Unbound extends Pool.Totals where
  shares : Table Address Nat
  deriving DecidableEq

namespace PoolU64Unbound

open Pool

def createWithScalingFactor (scalingFactor : Nat) : PoolU64Unbound :=
  { totalCoins := 0, totalShares := 0, scalingFactor, shares := .empty }

variable (self : PoolU64Unbound) (shareholder : Address)

/-- `shares`: how many a shareholder has. -/
def sharesOf : Nat :=
  (self.shares.find? shareholder).getD 0

def balance : Checked Nat :=
  self.toTotals.sharesToAmount u128Max (self.sharesOf shareholder)

def updateTotalCoins (newTotalCoins : Nat) : PoolU64Unbound :=
  { self with totalCoins := newTotalCoins }

def addShares (newShares : Nat) : Checked (Nat × PoolU64Unbound) :=
  match self.shares.find? shareholder with
  | some currentShares => do
      ensure (u128Max - currentShares ≥ newShares) (.invalidArgument eShareholderSharesOverflow)
      let existingShares ← Checked.add u128Max currentShares newShares
      return (existingShares, { self with shares := self.shares.insert shareholder existingShares })
  | none =>
    if newShares > 0 then
      return (newShares, { self with shares := self.shares.insert shareholder newShares })
    else return (newShares, self)

def deductShares (numShares : Nat) : Checked (Nat × PoolU64Unbound) :=
  match self.shares.find? shareholder with
  | none => .error (.invalidArgument eShareholderNotFound)
  | some existingShares => do
      ensure (existingShares ≥ numShares) (.invalidArgument eInsufficientShares)
      let remainingShares ← Checked.sub existingShares numShares
      let shares := if remainingShares = 0 then self.shares.erase shareholder
        else self.shares.insert shareholder remainingShares
      return (remainingShares, { self with shares })

def buyIn (coinsAmount : Nat) : Checked (Nat × PoolU64Unbound) :=
  if coinsAmount = 0 then .ok (0, self)
  else do
    let newShares ← self.toTotals.amountToShares u128Max coinsAmount
    ensure (u64Max - self.totalCoins ≥ coinsAmount) (.invalidArgument ePoolTotalCoinsOverflow)
    ensure (u128Max - self.totalShares ≥ newShares) (.invalidArgument ePoolTotalSharesOverflow)
    let totalCoins ← Checked.add u64Max self.totalCoins coinsAmount
    let totalShares ← Checked.add u128Max self.totalShares newShares
    let added ← addShares { self with totalCoins, totalShares } shareholder newShares
    return (newShares, added.2)

def redeemShares (sharesToRedeem : Nat) : Checked (Nat × PoolU64Unbound) := do
  ensure (self.shares.contains shareholder) (.invalidArgument eShareholderNotFound)
  ensure (self.sharesOf shareholder ≥ sharesToRedeem) (.invalidArgument eInsufficientShares)
  if sharesToRedeem = 0 then .ok (0, self)
  else
    let redeemedCoins ← self.toTotals.sharesToAmount u128Max sharesToRedeem
    let totalCoins ← Checked.sub self.totalCoins redeemedCoins
    let totalShares ← Checked.sub self.totalShares sharesToRedeem
    let deducted ← deductShares { self with totalCoins, totalShares } shareholder sharesToRedeem
    return (redeemedCoins, deducted.2)

def transferShares (shareholder1 shareholder2 : Address) (sharesToTransfer : Nat) :
    Checked PoolU64Unbound := do
  ensure (self.shares.contains shareholder1) (.invalidArgument eShareholderNotFound)
  ensure (self.sharesOf shareholder1 ≥ sharesToTransfer) (.invalidArgument eInsufficientShares)
  if sharesToTransfer = 0 then .ok self
  else
    let deducted ← self.deductShares shareholder1 sharesToTransfer
    let added ← deducted.2.addShares shareholder2 sharesToTransfer
    return added.2

/-- The coins and shares of a pool. -/
def recorded : SharePool Address :=
  ⟨self.totalCoins, self.totalShares, self.shares⟩

def ops : Ops PoolU64Unbound :=
  { maxShares := u128Max, buyIn, redeemShares, transferShares, updateTotalCoins, balance, recorded }

variable {self self' : PoolU64Unbound} {shareholder : Address} {n m : Nat}

theorem addShares_ok (ok : self.addShares shareholder n = .ok (m, self')) :
    self' = { self with shares := SharePool.credit self.shares shareholder n } := by
  rw [addShares] at ok
  rw [SharePool.credit]
  generalize self.shares.find? shareholder = entry at ok ⊢
  cases entry with
  | some current =>
    simp only [bind_eq_ok, add_eq_ok] at ok
    obtain ⟨-, -, total, ⟨-, rfl⟩, ok⟩ := ok
    cases ok
    rfl
  | none =>
    dsimp only at ok ⊢
    split at ok
    · next positive =>
      cases ok
      simp only [if_pos positive]
    · next zero =>
      cases ok
      simp only [if_neg zero]

theorem deductShares_ok (ok : self.deductShares shareholder n = .ok (m, self')) :
    ∃ current, self.shares.find? shareholder = some current ∧ n ≤ current ∧
      self' = { self with shares := SharePool.debit self.shares shareholder current n } := by
  rw [deductShares] at ok
  split at ok
  · cases ok
  · next current found =>
    simp only [bind_eq_ok, ensure_eq_ok, sub_eq_ok] at ok
    obtain ⟨-, enough, rest, ⟨-, rfl⟩, ok⟩ := ok
    cases ok
    exact ⟨current, found, enough, rfl⟩

/-- The shares are all accounted for, and the coins fit their type. -/
def Sound (self : PoolU64Unbound) : Prop := self.recorded.Balanced ∧ self.totalCoins ≤ u64Max

theorem rounds : ops.Rounds Sound where
  balanced held := held.1
  balance := by
    intro s held account
    exact Totals.sharesToAmount_of_le (held.1.sharesOf_le account) held.2 (by decide)
  buyIn := by
    intro s held shareholder coins n s' ok
    change s.buyIn shareholder coins = _ at ok
    rw [buyIn] at ok
    split at ok
    · cases ok
      exact ⟨held, .inl ⟨rfl, rfl⟩⟩
    simp only [bind_eq_ok, add_eq_ok] at ok
    obtain ⟨bought, cost, -, -, -, -, coins', ⟨fits, rfl⟩, total', ⟨-, rfl⟩, ⟨m, added⟩, done,
      rest⟩ := ok
    cases rest
    have credited := addShares_ok done
    have price := Totals.amountToShares_cost cost
    subst credited
    exact ⟨⟨(SharePool.Trade.buy price).balanced held.1, fits⟩, Or.inr ⟨price, rfl⟩⟩
  redeemShares := by
    intro s held shareholder n paid s' ok
    change s.redeemShares shareholder n = _ at ok
    simp only [redeemShares, bind_eq_ok] at ok
    obtain ⟨-, -, -, -, ok⟩ := ok
    split at ok
    · next zero =>
      cases ok
      exact ⟨held, by rw [zero, SharePool.worth_zero], .idle⟩
    simp only [bind_eq_ok, sub_eq_ok] at ok
    obtain ⟨amount, worth, coins', ⟨-, rfl⟩, total', ⟨-, rfl⟩, ⟨m, rest⟩, done, ok⟩ := ok
    cases ok
    obtain ⟨current, found, enough, rfl⟩ := deductShares_ok done
    have exact_worth := Totals.sharesToAmount_ok worth
    subst exact_worth
    have trade : SharePool.Trade [shareholder] s.recorded _ := .redeem found enough
    exact ⟨⟨trade.balanced held.1, (Nat.sub_le _ _).trans held.2⟩, rfl, trade⟩
  transferShares := by
    intro s held giver taker n s' ok
    change s.transferShares giver taker n = _ at ok
    simp only [transferShares, bind_eq_ok] at ok
    obtain ⟨-, -, -, -, ok⟩ := ok
    split at ok
    · cases ok
      exact ⟨held, .idle⟩
    simp only [bind_eq_ok] at ok
    obtain ⟨⟨m, middle⟩, taken, ⟨m', last⟩, given, ok⟩ := ok
    cases ok
    obtain ⟨current, found, enough, rfl⟩ := deductShares_ok taken
    have credited := addShares_ok given
    subst credited
    have trade : SharePool.Trade [giver, taker] s.recorded _ := .transfer found enough
    exact ⟨⟨trade.balanced held.1, held.2⟩, trade⟩
  updateTotalCoins := by
    intro s held coins fits
    exact ⟨held.1, fits⟩

end PoolU64Unbound

/-! ## A list of shareholders with a limit -/

structure PoolU64 extends Pool.Totals where
  shareholdersLimit : Nat
  shares : Table Address Nat
  shareholders : List Address

namespace PoolU64

open Pool

def createWithScalingFactor (shareholdersLimit scalingFactor : Nat) : PoolU64 :=
  { totalCoins := 0, totalShares := 0, scalingFactor, shareholdersLimit, shares := .empty,
    shareholders := [] }

variable (self : PoolU64) (shareholder : Address)

/-- `shares`: how many a shareholder has. -/
def sharesOf : Nat :=
  (self.shares.find? shareholder).getD 0

def balance : Checked Nat :=
  self.toTotals.sharesToAmount u64Max (self.sharesOf shareholder)

def updateTotalCoins (newTotalCoins : Nat) : PoolU64 :=
  { self with totalCoins := newTotalCoins }

def addShares (newShares : Nat) : Checked (Nat × PoolU64) :=
  match self.shares.find? shareholder with
  | some currentShares => do
      ensure (u64Max - currentShares ≥ newShares) (.invalidArgument eShareholderSharesOverflow)
      let existingShares ← Checked.add u64Max currentShares newShares
      return (existingShares, { self with shares := self.shares.insert shareholder existingShares })
  | none =>
    if newShares > 0 then do
      ensure (self.shareholders.length < self.shareholdersLimit)
        (.invalidState eTooManyShareholders)
      return (newShares, { self with
        shareholders := self.shareholders ++ [shareholder]
        shares := self.shares.insert shareholder newShares })
    else return (newShares, self)

/-- `vector::remove` at the index that `vector::index_of` returns, which is 0 for a
shareholder that is not in the list. -/
def removeShareholder (shareholders : List Address) (shareholder : Address) :
    Checked (List Address) :=
  let shareholderIndex := (shareholders.idxOf? shareholder).getD 0
  if shareholderIndex < shareholders.length then .ok (shareholders.eraseIdx shareholderIndex)
  else .error .arithmetic

def deductShares (numShares : Nat) : Checked (Nat × PoolU64) :=
  match self.shares.find? shareholder with
  | none => .error (.invalidArgument eShareholderNotFound)
  | some existingShares => do
      ensure (existingShares ≥ numShares) (.invalidArgument eInsufficientShares)
      let remainingShares ← Checked.sub existingShares numShares
      if remainingShares = 0 then
        let shareholders ← removeShareholder self.shareholders shareholder
        return (remainingShares, { self with shareholders, shares := self.shares.erase shareholder })
      else
        return (remainingShares,
          { self with shares := self.shares.insert shareholder remainingShares })

/-- `buy_in`.  Both overflows are reported as one of the coins. -/
def buyIn (coinsAmount : Nat) : Checked (Nat × PoolU64) :=
  if coinsAmount = 0 then .ok (0, self)
  else do
    let newShares ← self.toTotals.amountToShares u64Max coinsAmount
    ensure (u64Max - self.totalCoins ≥ coinsAmount) (.invalidArgument ePoolTotalCoinsOverflow)
    ensure (u64Max - self.totalShares ≥ newShares) (.invalidArgument ePoolTotalCoinsOverflow)
    let totalCoins ← Checked.add u64Max self.totalCoins coinsAmount
    let totalShares ← Checked.add u64Max self.totalShares newShares
    let added ← addShares { self with totalCoins, totalShares } shareholder newShares
    return (newShares, added.2)

def redeemShares (sharesToRedeem : Nat) : Checked (Nat × PoolU64) := do
  ensure (self.shares.contains shareholder) (.invalidArgument eShareholderNotFound)
  ensure (self.sharesOf shareholder ≥ sharesToRedeem) (.invalidArgument eInsufficientShares)
  if sharesToRedeem = 0 then .ok (0, self)
  else
    let redeemedCoins ← self.toTotals.sharesToAmount u64Max sharesToRedeem
    let totalCoins ← Checked.sub self.totalCoins redeemedCoins
    let totalShares ← Checked.sub self.totalShares sharesToRedeem
    let deducted ← deductShares { self with totalCoins, totalShares } shareholder sharesToRedeem
    return (redeemedCoins, deducted.2)

def transferShares (shareholder1 shareholder2 : Address) (sharesToTransfer : Nat) :
    Checked PoolU64 := do
  ensure (self.shares.contains shareholder1) (.invalidArgument eShareholderNotFound)
  ensure (self.sharesOf shareholder1 ≥ sharesToTransfer) (.invalidArgument eInsufficientShares)
  if sharesToTransfer = 0 then .ok self
  else
    let deducted ← self.deductShares shareholder1 sharesToTransfer
    let added ← deducted.2.addShares shareholder2 sharesToTransfer
    return added.2

/-- The coins and shares of a pool. -/
def recorded : SharePool Address :=
  ⟨self.totalCoins, self.totalShares, self.shares⟩

def ops : Ops PoolU64 :=
  { maxShares := u64Max, buyIn, redeemShares, transferShares, updateTotalCoins, balance, recorded }

variable {self self' : PoolU64} {shareholder : Address} {n m : Nat}

theorem addShares_ok (ok : self.addShares shareholder n = .ok (m, self')) :
    self'.recorded =
      { self.recorded with shares := SharePool.credit self.shares shareholder n } := by
  rw [addShares] at ok
  rw [SharePool.credit]
  generalize self.shares.find? shareholder = entry at ok ⊢
  cases entry with
  | some current =>
    simp only [bind_eq_ok, add_eq_ok] at ok
    obtain ⟨-, -, total, ⟨-, rfl⟩, ok⟩ := ok
    cases ok
    rfl
  | none =>
    dsimp only at ok ⊢
    split at ok
    · next positive =>
      simp only [bind_eq_ok] at ok
      obtain ⟨-, -, ok⟩ := ok
      cases ok
      simp only [if_pos positive]
      rfl
    · next zero =>
      cases ok
      simp only [if_neg zero]
      rfl

theorem deductShares_ok (ok : self.deductShares shareholder n = .ok (m, self')) :
    ∃ current, self.shares.find? shareholder = some current ∧ n ≤ current ∧ self'.recorded =
      { self.recorded with shares := SharePool.debit self.shares shareholder current n } := by
  rw [deductShares] at ok
  split at ok
  · cases ok
  next current found =>
  simp only [bind_eq_ok, ensure_eq_ok, sub_eq_ok] at ok
  obtain ⟨-, enough, rest, ⟨-, rfl⟩, ok⟩ := ok
  refine ⟨current, found, enough, ?_⟩
  rw [SharePool.debit]
  split at ok
  · next gone =>
    simp only [bind_eq_ok] at ok
    obtain ⟨shareholders, -, ok⟩ := ok
    cases ok
    rw [if_pos gone]
    rfl
  · next left =>
    cases ok
    rw [if_neg left]
    rfl

/-- The shares are all accounted for, and the coins fit their type. -/
def Sound (self : PoolU64) : Prop := self.recorded.Balanced ∧ self.recorded.coins ≤ u64Max

theorem rounds : ops.Rounds Sound where
  balanced held := held.1
  balance := by
    intro s held account
    exact Totals.sharesToAmount_of_le (held.1.sharesOf_le account) held.2 (le_rfl)
  buyIn := by
    intro s held shareholder coins n s' ok
    change s.buyIn shareholder coins = _ at ok
    rw [buyIn] at ok
    split at ok
    · cases ok
      exact ⟨held, .inl ⟨rfl, rfl⟩⟩
    simp only [bind_eq_ok, add_eq_ok] at ok
    obtain ⟨bought, cost, -, -, -, -, coins', ⟨fits, rfl⟩, total', ⟨-, rfl⟩, ⟨m, added⟩, done,
      rest⟩ := ok
    cases rest
    have credited := addShares_ok done
    have price := Totals.amountToShares_cost cost
    refine ⟨?_, .inr ⟨price, credited⟩⟩
    rw [Sound, credited]
    exact ⟨(SharePool.Trade.buy price).balanced held.1, fits⟩
  redeemShares := by
    intro s held shareholder n paid s' ok
    change s.redeemShares shareholder n = _ at ok
    simp only [redeemShares, bind_eq_ok] at ok
    obtain ⟨-, -, -, -, ok⟩ := ok
    split at ok
    · next zero =>
      cases ok
      exact ⟨held, by rw [zero, SharePool.worth_zero], .idle⟩
    simp only [bind_eq_ok, sub_eq_ok] at ok
    obtain ⟨amount, worth, coins', ⟨-, rfl⟩, total', ⟨-, rfl⟩, ⟨m, rest⟩, done, ok⟩ := ok
    cases ok
    obtain ⟨current, found, enough, debited⟩ := deductShares_ok done
    have exact_worth := Totals.sharesToAmount_ok worth
    subst exact_worth
    have trade : SharePool.Trade [shareholder] s.recorded _ := .redeem found enough
    refine ⟨?_, rfl, ?_⟩
    · rw [Sound, debited]
      exact ⟨trade.balanced held.1, (Nat.sub_le _ _).trans held.2⟩
    · show SharePool.Trade _ s.recorded rest.recorded
      rw [debited]
      exact trade
  transferShares := by
    intro s held giver taker n s' ok
    change s.transferShares giver taker n = _ at ok
    simp only [transferShares, bind_eq_ok] at ok
    obtain ⟨-, -, -, -, ok⟩ := ok
    split at ok
    · cases ok
      exact ⟨held, .idle⟩
    simp only [bind_eq_ok] at ok
    obtain ⟨⟨m, middle⟩, taken, ⟨m', last⟩, given, ok⟩ := ok
    cases ok
    obtain ⟨current, found, enough, debited⟩ := deductShares_ok taken
    have credited := addShares_ok given
    have shares : middle.shares = SharePool.debit s.shares giver current n :=
      congrArg SharePool.shares debited
    rw [debited, shares] at credited
    have trade : SharePool.Trade [giver, taker] s.recorded _ := .transfer found enough
    refine ⟨?_, ?_⟩
    · rw [Sound, credited]
      exact ⟨trade.balanced held.1, held.2⟩
    · show SharePool.Trade _ s.recorded last.recorded
      rw [credited]
      exact trade
  updateTotalCoins := by
    intro s held coins fits
    exact ⟨held.1, fits⟩

/-! The coins of a pool change by what is bought and redeemed. -/

theorem buyIn_totalCoins (ok : self.buyIn shareholder n = .ok (m, self')) :
    self'.totalCoins = self.totalCoins + n := by
  unfold buyIn at ok
  split at ok
  · rename_i zero
    cases ok
    rw [zero, add_zero]
  · simp only [bind_eq_ok, add_eq_ok] at ok
    obtain ⟨_, -, _, -, _, -, _, ⟨-, rfl⟩, _, -, ⟨_, _⟩, added, last⟩ := ok
    cases last
    exact congrArg SharePool.coins (addShares_ok added)

theorem redeemShares_totalCoins (ok : self.redeemShares shareholder n = .ok (m, self')) :
    self'.totalCoins = self.totalCoins - m := by
  unfold redeemShares at ok
  simp only [bind_eq_ok] at ok
  obtain ⟨_, -, _, -, ok⟩ := ok
  split at ok
  · cases ok
    rfl
  · simp only [bind_eq_ok, sub_eq_ok] at ok
    obtain ⟨_, -, _, ⟨-, rfl⟩, _, -, ⟨_, _⟩, deducted, last⟩ := ok
    cases last
    obtain ⟨_, -, -, debited⟩ := deductShares_ok deducted
    exact congrArg SharePool.coins debited

end PoolU64

/-! ## No shareholder takes another's coins -/

/-- In both pools the shares are accounted for and covered by coins, trades take nothing from
those they do not name, and buying and redeeming at once earns nothing. -/
theorem pools_fair :
    PoolU64Unbound.ops.Fair (fun pool => ∃ scalingFactor,
      pool = .createWithScalingFactor scalingFactor) ∧
    PoolU64.ops.Fair (fun pool => ∃ shareholdersLimit scalingFactor,
      pool = .createWithScalingFactor shareholdersLimit scalingFactor) := by
  constructor
  · refine PoolU64Unbound.rounds.fair ?_
    rintro pool ⟨scalingFactor, rfl⟩
    exact ⟨rfl, Nat.zero_le _⟩
  · refine PoolU64.rounds.fair ?_
    rintro pool ⟨shareholdersLimit, scalingFactor, rfl⟩
    exact ⟨rfl, Nat.zero_le _⟩

namespace TwoShareholders

/-- A pool that appreciates between two purchases. -/
def calls : List Pool.Call := [.buyIn 1 1000, .updateTotalCoins 2001, .buyIn 2 500]

def pool : PoolU64Unbound :=
  { totalCoins := 2501, totalShares := 1249, scalingFactor := 1,
    shares := (Table.empty.insert 1 1000).insert 2 249 }

theorem calls_lead_here : Run.Follows PoolU64Unbound.ops.step
    (fun _ call => call.Typed PoolU64Unbound.ops.maxShares) calls (.createWithScalingFactor 1)
    pool := by
  have small : 2001 ≤ u64Max := by decide
  refine ⟨le_trans (by decide) small, _, rfl, small, _, rfl, le_trans (by decide) small, _, rfl, ?_⟩
  show _ = pool
  decide

theorem pool_covered : PoolU64Unbound.ops.Covered pool ∧ PoolU64Unbound.ops.Harmless pool ∧
    PoolU64Unbound.ops.NoProfit pool := by
  refine pools_fair.1 pool ?_
  exact (Run.Reaches.start ⟨1, rfl⟩).of_inputs calls calls_lead_here

end TwoShareholders

end CreditChain
