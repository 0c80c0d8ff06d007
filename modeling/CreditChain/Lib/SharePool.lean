import CreditChain.Lib.Table
import Mathlib.Tactic.Ring
import Mathlib.Tactic.Linarith

/-!
# Pools of shares

A pool owns coins, and each share is worth the same part of them, rounded down.  The
lemmas are about any pool whose trades round in favour of those who stay.
-/

namespace CreditChain

open Table

/-- The coins of a pool and who holds how many of its shares. -/
structure SharePool (A : Type) where
  coins : Nat
  total : Nat
  shares : Table A Nat

namespace SharePool

/-- What `n` of `total` shares are worth. -/
def worth (coins total n : Nat) : Nat := if coins = 0 ∨ total = 0 then 0 else n * coins / total

variable {coins total coins' total' n : Nat}

theorem worth_zero : worth coins total 0 = 0 := by
  unfold worth
  split
  · rfl
  · rw [Nat.zero_mul, Nat.zero_div]

theorem worth_mul_le : worth coins total n * total ≤ n * coins := by
  unfold worth
  split
  · rw [Nat.zero_mul]
    exact Nat.zero_le _
  · exact Nat.div_mul_le_self _ _

theorem worth_le (part : n ≤ total) : worth coins total n ≤ coins := by
  unfold worth
  split
  · exact Nat.zero_le _
  · next positive =>
    refine Nat.div_le_of_le_mul ?_
    exact Nat.mul_le_mul_right coins part

/-- A price that does not fall: as a fraction, `coins / total` is at most `coins' / total'`. -/
theorem worth_le_of_price (price : coins * total' ≤ coins' * total) (left : 0 < total') :
    worth coins total n ≤ worth coins' total' n := by
  rcases eq_zero_or_pos coins with rfl | positive
  · simp [worth]
  rcases eq_zero_or_pos total with rfl | shared
  · simp [worth]
  have some_left : coins' ≠ 0 := by
    rintro rfl
    have := mul_pos positive left
    omega
  have first : worth coins total n * total ≤ n * coins := worth_mul_le
  generalize worth coins total n = w at first ⊢
  rw [worth, if_neg (by omega), Nat.le_div_iff_mul_le left]
  refine le_of_mul_le_mul_right ?_ shared
  calc w * total' * total = w * total * total' := by ring
    _ ≤ n * coins * total' := Nat.mul_le_mul_right _ first
    _ = n * (coins * total') := by ring
    _ ≤ n * (coins' * total) := Nat.mul_le_mul_left _ price
    _ = n * coins' * total := by ring

/-- `n` shares for `paid` coins do not lower the price when they cost no less than before. -/
theorem price_buy {paid : Nat} (cost : n * coins ≤ paid * total) :
    coins * (total + n) ≤ (coins + paid) * total := by
  calc coins * (total + n) = coins * total + n * coins := by ring
    _ ≤ coins * total + paid * total := Nat.add_le_add_left cost _
    _ = (coins + paid) * total := by ring

/-- Redeeming shares for what they are worth does not lower the price. -/
theorem price_redeem : coins * (total - n) ≤ (coins - worth coins total n) * total := by
  have paid : worth coins total n * total ≤ n * coins := worth_mul_le
  calc coins * (total - n) = coins * total - n * coins := by rw [Nat.mul_sub, Nat.mul_comm n]
    _ ≤ coins * total - worth coins total n * total := Nat.sub_le_sub_left paid _
    _ = (coins - worth coins total n) * total := by rw [Nat.sub_mul]

/-- Shares that were just bought for `paid` coins are worth at most `paid`. -/
theorem redeem_bought_le {paid : Nat} (cost : n * coins ≤ paid * total) :
    worth (coins + paid) (total + n) n ≤ paid := by
  unfold worth
  split
  · exact Nat.zero_le _
  refine Nat.div_le_of_le_mul ?_
  calc n * (coins + paid) = n * coins + n * paid := by ring
    _ ≤ paid * total + n * paid := Nat.add_le_add_right cost _
    _ = (total + n) * paid := by ring

section Holders

variable {A : Type} [DecidableEq A]

/-- The shares of all holders are the shares of the pool. -/
def Balanced (pool : SharePool A) : Prop := pool.shares.sum (fun _ n => n) = pool.total

/-- The shares of one holder. -/
def sharesOf (pool : SharePool A) (holder : A) : Nat := (pool.shares.find? holder).getD 0

def balance (pool : SharePool A) (holder : A) : Nat :=
  worth pool.coins pool.total (pool.sharesOf holder)

theorem Balanced.sharesOf_le {pool : SharePool A} (balanced : pool.Balanced) (holder : A) :
    pool.sharesOf holder ≤ pool.total := by
  unfold sharesOf
  cases found : pool.shares.find? holder with
  | none => exact Nat.zero_le _
  | some n =>
    rw [← balanced]
    exact le_sum (f := fun (_ : A) (n : Nat) => n) found

omit [DecidableEq A] in
/-- The holders together own at most the coins of the pool. -/
theorem sum_worth_le {pool : SharePool A} (balanced : pool.Balanced) :
    pool.shares.sum (fun _ n => worth pool.coins pool.total n) ≤ pool.coins := by
  have scaled : ∀ entries : List (A × Nat),
      (entries.map fun entry => worth pool.coins pool.total entry.2).sum * pool.total ≤
        (entries.map (·.2)).sum * pool.coins := by
    intro entries
    induction entries with
    | nil => simp
    | cons entry entries ih =>
      rw [List.map_cons, List.map_cons, List.sum_cons, List.sum_cons, add_mul, add_mul]
      exact add_le_add worth_mul_le ih
  have all := scaled pool.shares.entries
  have recorded : (pool.shares.entries.map (·.2)).sum = pool.total := balanced
  rw [recorded, Nat.mul_comm pool.total] at all
  rcases eq_zero_or_pos pool.total with none_left | some_left
  · have nothing : ∀ n, worth pool.coins pool.total n = 0 := by
      intro n
      rw [worth, if_pos (Or.inr none_left)]
    unfold sum
    simp [nothing]
  · exact le_of_mul_le_mul_right all some_left

/-! ## Trades -/

/-- `holder` receives `n` shares.  A holder without shares is only recorded for some. -/
def credit (shares : Table A Nat) (holder : A) (n : Nat) : Table A Nat :=
  match shares.find? holder with
  | some current => shares.insert holder (current + n)
  | none => if 0 < n then shares.insert holder n else shares

/-- `holder` gives up `n` of `current` shares, and is forgotten with the last one. -/
def debit (shares : Table A Nat) (holder : A) (current n : Nat) : Table A Nat :=
  if current - n = 0 then shares.erase holder else shares.insert holder (current - n)

variable {shares : Table A Nat} {holder other : A} {current : Nat}

theorem sum_credit : (credit shares holder n).sum (fun _ n => n) = shares.sum (fun _ n => n) + n := by
  unfold credit
  split
  · next current found =>
    have before := sum_erase (f := fun (_ : A) (n : Nat) => n) found
    rw [sum_insert]
    omega
  · next missing =>
    split
    · rw [sum_insert, sum_erase_of_none missing, add_comm]
    · omega

theorem find?_credit_of_ne (ne : other ≠ holder) :
    (credit shares holder n).find? other = shares.find? other := by
  unfold credit
  split
  · exact find?_insert_of_ne ne
  · split
    · exact find?_insert_of_ne ne
    · rfl

theorem sum_debit (found : shares.find? holder = some current) (enough : n ≤ current) :
    (debit shares holder current n).sum (fun _ n => n) + n = shares.sum (fun _ n => n) := by
  have before := sum_erase (f := fun (_ : A) (n : Nat) => n) found
  unfold debit
  split
  · omega
  · rw [sum_insert]
    omega

theorem find?_debit_of_ne (ne : other ≠ holder) :
    (debit shares holder current n).find? other = shares.find? other := by
  unfold debit
  split
  · exact find?_erase_of_ne ne
  · exact find?_insert_of_ne ne

/-- What a trade does to a pool.  `named` are the holders it names. -/
inductive Trade : List A → SharePool A → SharePool A → Prop
  | idle {named : List A} {pool : SharePool A} : Trade named pool pool
  | buy {pool : SharePool A} {holder : A} {paid n : Nat}
      (cost : pool.coins = 0 ∨ pool.total = 0 ∨ n * pool.coins ≤ paid * pool.total) :
      Trade [holder] pool ⟨pool.coins + paid, pool.total + n, credit pool.shares holder n⟩
  | redeem {pool : SharePool A} {holder : A} {current n : Nat}
      (found : pool.shares.find? holder = some current) (enough : n ≤ current) :
      Trade [holder] pool ⟨pool.coins - worth pool.coins pool.total n, pool.total - n,
        debit pool.shares holder current n⟩
  | transfer {pool : SharePool A} {giver taker : A} {current n : Nat}
      (found : pool.shares.find? giver = some current) (enough : n ≤ current) :
      Trade [giver, taker] pool
        ⟨pool.coins, pool.total, credit (debit pool.shares giver current n) taker n⟩

variable {pool pool' : SharePool A} {named : List A}

theorem Trade.balanced (trade : Trade named pool pool') (balanced : pool.Balanced) :
    pool'.Balanced := by
  unfold Balanced at balanced ⊢
  cases trade with
  | idle => exact balanced
  | buy cost =>
    rw [sum_credit, balanced]
  | @redeem _ holder current n found enough =>
    have removed := sum_debit found enough
    show (debit pool.shares holder current n).sum _ = pool.total - n
    omega
  | @transfer _ giver taker current n found enough =>
    have removed := sum_debit found enough
    show (credit (debit pool.shares giver current n) taker n).sum _ = pool.total
    rw [sum_credit]
    omega

/-- When one holder has all shares, every other has none. -/
theorem sharesOf_eq_zero (balanced : pool.Balanced) (found : pool.shares.find? holder = some current)
    (all : pool.total ≤ current) (ne : other ≠ holder) : pool.sharesOf other = 0 := by
  have rest := sum_erase (f := fun (_ : A) (n : Nat) => n) found
  unfold Balanced at balanced
  unfold sharesOf
  cases theirs : pool.shares.find? other with
  | none => rfl
  | some n =>
    have part : n ≤ (pool.shares.erase holder).sum fun _ n => n :=
      le_sum (f := fun (_ : A) (n : Nat) => n) ((find?_erase_of_ne ne).trans theirs)
    rw [Option.getD_some]
    omega

theorem Trade.sharesOf_eq (trade : Trade named pool pool') (unnamed : other ∉ named) :
    pool'.sharesOf other = pool.sharesOf other := by
  unfold sharesOf
  cases trade with
  | idle => rfl
  | buy => rw [find?_credit_of_ne (List.ne_of_not_mem_cons unnamed)]
  | redeem => rw [find?_debit_of_ne (List.ne_of_not_mem_cons unnamed)]
  | transfer =>
    have neTaker := List.ne_of_not_mem_cons (List.not_mem_of_not_mem_cons unnamed)
    rw [find?_credit_of_ne neTaker, find?_debit_of_ne (List.ne_of_not_mem_cons unnamed)]

/-- A trade takes nothing from those it does not name. -/
theorem Trade.balance_le (trade : Trade named pool pool') (balanced : pool.Balanced)
    (unnamed : other ∉ named) : pool.balance other ≤ pool'.balance other := by
  unfold balance
  rw [trade.sharesOf_eq unnamed]
  cases trade with
  | idle | transfer => exact le_rfl
  | @buy _ holder paid n cost =>
    rcases cost with broke | unshared | cost
    · rw [worth, if_pos (Or.inl broke)]
      exact Nat.zero_le _
    · rw [worth, if_pos (Or.inr unshared)]
      exact Nat.zero_le _
    · rcases eq_zero_or_pos (pool.total + n) with zero | positive
      · rw [worth, if_pos (Or.inr (by omega))]
        exact Nat.zero_le _
      · exact worth_le_of_price (price_buy cost) positive
  | @redeem _ holder current n found enough =>
    rcases eq_zero_or_pos (pool.total - n) with zero | positive
    · rw [sharesOf_eq_zero balanced found (by omega) (List.ne_of_not_mem_cons unnamed), worth_zero]
      exact Nat.zero_le _
    · exact worth_le_of_price price_redeem positive

end Holders

end SharePool

end CreditChain
