import CreditChain.Lib.Checked
import Mathlib.Algebra.Order.Field.Basic
import Mathlib.Tactic.FieldSimp
import Mathlib.Tactic.Linarith

/-!
# The token bucket of `rate_limiter`

A refill adds whole tokens and keeps the fraction of a token that remains.  `Bucket` holds an
exact amount, and `RateLimiter.requests_exact` says that the code answers as it does.
-/

namespace CreditChain

open List Nat

structure RateLimiter where
  capacity : Nat
  currentAmount : Nat
  refillInterval : Nat
  lastRefillTimestamp : Nat
  fractionalAccumulated : Nat

/-- A call of `request`, with its time. -/
structure TokenRequest where
  now : Nat
  tokens : Nat

namespace RateLimiter

def initializeAt (now capacity refillInterval : Nat) : RateLimiter :=
  ⟨capacity, capacity, refillInterval, now, 0⟩

variable (limiter : RateLimiter)

def refill (currentTime : Nat) : Checked RateLimiter := do
  let timePassed ← Checked.sub currentTime limiter.lastRefillTimestamp
  let product ← Checked.mul u64Max timePassed limiter.capacity
  let accumulatedAmount ← Checked.add u64Max product limiter.fractionalAccumulated
  let newTokens ← Checked.div accumulatedAmount limiter.refillInterval
  let currentAmount ← Checked.add u64Max limiter.currentAmount newTokens
  let limiter := { limiter with lastRefillTimestamp := currentTime }
  if currentAmount ≥ limiter.capacity then
    return { limiter with currentAmount := limiter.capacity, fractionalAccumulated := 0 }
  else
    let fractionalAccumulated := accumulatedAmount % limiter.refillInterval
    return { limiter with currentAmount, fractionalAccumulated }

def request (now numTokenRequested : Nat) : Checked (Bool × RateLimiter) := do
  let limiter ← limiter.refill now
  if limiter.currentAmount ≥ numTokenRequested then
    let currentAmount := limiter.currentAmount - numTokenRequested
    return (true, { limiter with currentAmount })
  else return (false, limiter)

/-- Calls one after the other, with their answers. -/
def requests (limiter : RateLimiter) : List TokenRequest → Checked (List (TokenRequest × Bool))
  | [] => .ok []
  | call :: calls => do
    let (accepted, limiter) ← limiter.request call.now call.tokens
    let log ← limiter.requests calls
    return (call, accepted) :: log

end RateLimiter

namespace Bucket

/-- The tokens granted from one time to another. -/
def granted (first last : Nat) : List (TokenRequest × Bool) → Nat
  | [] => 0
  | (call, accepted) :: log =>
    (if accepted ∧ first ≤ call.now ∧ call.now ≤ last then call.tokens else 0) +
      granted first last log

/-- Times do not decrease. -/
def Ordered (last : Nat) (calls : List TokenRequest) : Prop :=
  (last :: calls.map TokenRequest.now).Pairwise (· ≤ ·)

variable {last now first stop : Nat} {calls : List TokenRequest}

theorem Ordered.cons {call : TokenRequest} (ordered : Ordered last (call :: calls)) :
    last ≤ call.now ∧ (∀ next ∈ call :: calls, call.now ≤ next.now) ∧ Ordered call.now calls := by
  obtain ⟨before, rest⟩ := pairwise_cons.mp ordered
  exact ⟨before _ mem_cons_self, forall_mem_cons.mpr ⟨le_rfl,
    forall_mem_map.mp (pairwise_cons.mp rest).1⟩, rest⟩

/-! ## The exact bucket -/

variable (capacity rate amount : ℚ)

def filled (elapsed : ℚ) : ℚ := min capacity (amount + elapsed * rate)

/-- The answer of a bucket with this amount, and what remains. -/
def request (tokens : Nat) : Bool × ℚ :=
  if tokens ≤ amount then (true, amount - tokens) else (false, amount)

def requests (amount : ℚ) (last : Nat) : List TokenRequest → List (TokenRequest × Bool)
  | [] => []
  | call :: calls =>
    let answer := request (filled capacity rate amount (call.now - last)) call.tokens
    (call, answer.1) :: requests answer.2 call.now calls

variable {capacity rate amount} (inflow : 0 ≤ rate)

include inflow

/-- A bucket may be filled in between. -/
theorem requests_filled (later : ∀ call ∈ calls, now ≤ call.now) :
    requests capacity rate (filled capacity rate amount (now - last)) now calls =
      requests capacity rate amount last calls := by
  cases calls with
  | nil => rfl
  | cons call calls =>
    have more : 0 ≤ (call.now - now : ℚ) * rate :=
      mul_nonneg (sub_nonneg.mpr (cast_le.mpr (later call mem_cons_self))) inflow
    have same : filled capacity rate (filled capacity rate amount (now - last)) (call.now - now) =
        filled capacity rate amount (call.now - last) := by
      unfold filled
      rw [← min_add_add_right, ← min_assoc, min_eq_left (le_add_of_nonneg_right more), add_assoc,
        ← add_mul, sub_add_sub_cancel']
    rw [requests, requests, same]

/-- Requests of no tokens change no other answer. -/
theorem filter_requests (ordered : Ordered last calls) :
    (requests capacity rate amount last calls).filter (·.1.tokens ≠ 0) =
      requests capacity rate amount last (calls.filter (·.tokens ≠ 0)) := by
  induction calls generalizing amount last with
  | nil => rfl
  | cons call calls ih =>
    obtain ⟨-, later, rest⟩ := ordered.cons
    rw [requests]
    by_cases zero : call.tokens = 0
    · have same : ∀ amount, (request amount 0).2 = amount := by simp [request, apply_ite]
      rw [filter_cons_of_neg (by simp [zero]), filter_cons_of_neg (by simp [zero]),
        ih rest, zero, same]
      exact requests_filled inflow fun next mem =>
        later next (mem_cons_of_mem _ (mem_of_mem_filter mem))
    · rw [filter_cons_of_pos (by simp [zero]), filter_cons_of_pos (by simp [zero]),
        ih rest, requests]

/-- No more is granted than what the bucket holds and what flows in. -/
theorem granted_le {bound : ℚ} (nonneg : 0 ≤ bound) (most : amount + (stop - last) * rate ≤ bound) :
    granted first stop (requests capacity rate amount last calls) ≤ bound := by
  induction calls generalizing amount last bound with
  | nil => exact nonneg
  | cons call calls ih =>
    have le : filled capacity rate amount (call.now - last) ≤
      amount + (call.now - last) * rate := min_le_right _ _
    rw [requests, granted, cast_add]
    generalize filled capacity rate amount (call.now - last) = amount' at le ⊢
    unfold request
    split
    · split
      · next enough counted =>
        have after : 0 ≤ (stop - call.now : ℚ) * rate :=
          mul_nonneg (sub_nonneg.mpr (cast_le.mpr counted.2.2)) inflow
        have rest : (granted first stop (requests capacity rate (amount' - call.tokens) call.now
          calls) : ℚ) ≤ bound - call.tokens := ih (by linarith) (by linarith)
        linarith
      · rw [cast_zero, zero_add]
        exact ih nonneg (by linarith)
    · rw [if_neg nofun, cast_zero, zero_add]
      exact ih nonneg (by linarith)

theorem granted_window (ordered : Ordered last calls) (full : 0 ≤ capacity)
    (window : first ≤ stop) : granted first stop (requests capacity rate amount last calls) ≤
      capacity + (stop - first) * rate := by
  have flow : 0 ≤ (stop - first : ℚ) * rate :=
    mul_nonneg (sub_nonneg.mpr (cast_le.mpr window)) inflow
  induction calls generalizing amount last with
  | nil => exact add_nonneg full flow
  | cons call calls ih =>
    obtain ⟨-, later, rest⟩ := ordered.cons
    rcases lt_or_ge call.now first with early | inside
    · rw [requests, granted, if_neg (by omega), zero_add]
      exact ih rest
    · have most : filled capacity rate amount (call.now - last) ≤ capacity := min_le_left _ _
      have begun : (first : ℚ) * rate ≤ call.now * rate :=
        mul_le_mul_of_nonneg_right (cast_le.mpr inside) inflow
      rw [← requests_filled inflow later]
      exact granted_le inflow (add_nonneg full flow) (by linarith)

end Bucket

/-! ## The code -/

namespace RateLimiter

open Bucket (Ordered granted)

/-- The tokens and the fraction of a limiter, as an amount. -/
inductive Holds (c I last : Nat) : RateLimiter → ℚ → Prop
  | mk {tokens fraction : Nat} : tokens ≤ c → fraction < I → fraction ≤ last * c →
      Holds c I last ⟨c, tokens, I, last, fraction⟩ (tokens + (fraction : ℚ) / I)

variable {c I last now : Nat} {limiter : RateLimiter} {amount : ℚ} {calls : List TokenRequest}

section

variable (holds : Holds c I last limiter amount)

include holds

theorem refill_ok (le : last ≤ now)
    (fits : (now + 1) * c ≤ u64Max) : ∃ limiter', limiter.refill now = .ok limiter' ∧
      Holds c I now limiter' (Bucket.filled c (c / I) amount (now - last)) := by
  obtain @⟨tokens, fraction, most, part, earned⟩ := holds
  obtain ⟨elapsed, rfl⟩ := Nat.exists_eq_add_of_le le
  obtain ⟨total, sum⟩ : ∃ total, elapsed * c + fraction = total := ⟨_, rfl⟩
  have positive : 0 < I := by omega
  have whole : (0 : ℚ) < I := cast_pos.mpr positive
  have bound : total + c ≤ (last + elapsed + 1) * c := by nlinarith
  have fewer := div_le_self total I
  have rest := mod_lt total positive
  have value : tokens + (fraction : ℚ) / I + (↑(last + elapsed) - last) * (c / I) =
      ↑(tokens + total / I) + (total % I : Nat) / (I : ℚ) := by
    have parts : (I * (total / I : Nat) + (total % I : Nat) : ℚ) = elapsed * c + fraction := by
      exact_mod_cast (div_add_mod total I).trans sum.symm
    field_simp
    push_cast
    linarith
  have done : refill ⟨c, tokens, I, last, fraction⟩ (last + elapsed) =
      if tokens + total / I ≥ c then .ok ⟨c, c, I, last + elapsed, 0⟩
      else .ok ⟨c, tokens + total / I, I, last + elapsed, total % I⟩ := by
    rw [refill, Checked.sub_eq_ok.mpr ⟨le, Nat.add_sub_cancel_left _ _⟩, Except.ok_bind,
      Checked.mul_eq_ok.mpr ⟨by dsimp only; omega, rfl⟩, Except.ok_bind,
      Checked.add_eq_ok.mpr ⟨by omega, sum⟩, Except.ok_bind,
      Checked.div_eq_ok.mpr ⟨positive.ne', rfl⟩, Except.ok_bind,
      Checked.add_eq_ok.mpr ⟨by dsimp only; omega, rfl⟩]
    rfl
  rw [done, Bucket.filled, value]
  split
  · next full =>
    have le : (c : ℚ) ≤ ↑(tokens + total / I) := cast_le.mpr full
    rw [min_eq_left (le_add_of_le_of_nonneg le (by positivity))]
    exact ⟨_, rfl, by simpa using Holds.mk le_rfl positive (zero_le _)⟩
  · next less =>
    have le : ((tokens + total / I + 1 : Nat) : ℚ) ≤ c := cast_le.mpr (by omega)
    have small : (total % I : Nat) / (I : ℚ) ≤ 1 :=
      (div_le_one whole).mpr (cast_le.mpr rest.le)
    rw [cast_succ] at le
    rw [min_eq_right (by linarith)]
    exact ⟨_, rfl, .mk (by omega) rest ((mod_le _ _).trans (by nlinarith))⟩

theorem request_ok (le : last ≤ now) (fits : (now + 1) * c ≤ u64Max) (requested : Nat) :
    let answer := Bucket.request (Bucket.filled c (c / I) amount (now - last)) requested
    ∃ limiter', limiter.request now requested = .ok (answer.1, limiter') ∧
      Holds c I now limiter' answer.2 := by
  obtain ⟨limiter', done, holds⟩ := refill_ok holds le fits
  rw [request, done, Except.ok_bind]
  generalize Bucket.filled c (c / I) amount (now - last) = amount' at holds ⊢
  obtain @⟨tokens, fraction, most, part, earned⟩ := holds
  -- the fraction decides no request
  have whole : (requested : ℚ) ≤ tokens + (fraction : ℚ) / I ↔ requested ≤ tokens := by
    have small : (fraction : ℚ) / I < 1 :=
      (div_lt_one (cast_pos.mpr (by omega))).mpr (cast_lt.mpr part)
    constructor
    · intro le
      have less : (requested : ℚ) < ↑(tokens + 1) := by
        push_cast
        linarith
      exact le_of_lt_succ (cast_lt.mp less)
    · intro le
      exact le_add_of_le_of_nonneg (cast_le.mpr le) (by positivity)
  simp only [Bucket.request, whole, ge_iff_le]
  split
  · next enough =>
    refine ⟨_, rfl, ?_⟩
    rw [add_sub_right_comm, ← cast_sub enough]
    exact .mk ((sub_le _ _).trans most) part earned
  · exact ⟨_, rfl, .mk most part earned⟩

theorem requests_ok (ordered : Ordered last calls)
    (fits : ∀ call ∈ calls, (call.now + 1) * c ≤ u64Max) :
    limiter.requests calls = .ok (Bucket.requests c (c / I) amount last calls) := by
  induction calls generalizing limiter amount last with
  | nil => rfl
  | cons call calls ih =>
    obtain ⟨le, -, rest⟩ := ordered.cons
    obtain ⟨here, fits⟩ := forall_mem_cons.mp fits
    obtain ⟨limiter', done, holds⟩ := request_ok holds le here call.tokens
    rw [requests, Bucket.requests, done, Except.ok_bind]
    dsimp only
    rw [ih holds rest fits]
    rfl

end

/-- Every answer is that of the exact bucket, with or without the requests of no tokens, and what
is granted in a window is at most the capacity and what flows in. -/
theorem requests_exact (c I start : Nat) (positive : 0 < I) (calls : List TokenRequest)
    (ordered : Ordered start calls) (fits : ∀ call ∈ calls, (call.now + 1) * c ≤ u64Max) :
    ∃ log, (initializeAt start c I).requests calls = .ok log ∧
      log = Bucket.requests c (c / I) c start calls ∧
      log.filter (·.1.tokens ≠ 0) =
        Bucket.requests c (c / I) c start (calls.filter (·.tokens ≠ 0)) ∧
      ∀ first length, granted first (first + length) log ≤ c + length * c / I := by
  have full : Holds c I start (initializeAt start c I) c := by
    simpa [initializeAt] using Holds.mk le_rfl positive (zero_le _)
  have inflow : (0 : ℚ) ≤ c / I := by positivity
  refine ⟨_, requests_ok full ordered fits, rfl, Bucket.filter_requests inflow ordered, ?_⟩
  intro first length
  have bound : (granted first (first + length) (Bucket.requests c (c / I) c start calls) : ℚ) ≤ _ :=
    Bucket.granted_window inflow ordered (cast_nonneg c) (le_add_right first length)
  rw [cast_add, add_sub_cancel_left] at bound
  generalize granted first (first + length) _ = tokens at bound ⊢
  field_simp at bound
  have scaled : tokens * I ≤ c * (I + length) := by exact_mod_cast bound
  rw [← Nat.sub_le_iff_le_add', Nat.le_div_iff_mul_le positive, Nat.sub_mul]
  rw [mul_add, mul_comm c length] at scaled
  omega

theorem ten_per_minute : let calls := [⟨0, 8⟩, ⟨20, 0⟩, ⟨30, 8⟩, ⟨31, 7⟩]
    Ordered 0 calls ∧ ∃ log, (initializeAt 0 10 60).requests calls = .ok log ∧
      ∀ first length, granted first (first + length) log ≤ 10 + length * 10 / 60 := by
  refine ⟨by simp [Ordered], ?_⟩
  obtain ⟨log, done, -, -, bound⟩ := requests_exact 10 60 0 (by decide)
    [⟨0, 8⟩, ⟨20, 0⟩, ⟨30, 8⟩, ⟨31, 7⟩] (by simp [Ordered]) (by decide)
  exact ⟨log, done, bound⟩

/-- The time and the capacity have a product within `u64`, but the tokens and the new ones have no
sum. -/
theorem full_bucket_overflows : (2 ^ 32 - 1) * 2 ^ 32 ≤ u64Max ∧
    (initializeAt 0 (2 ^ 32) 1).requests [⟨2 ^ 32 - 1, 1⟩] = .error .arithmetic :=
  ⟨by decide, rfl⟩

end RateLimiter

end CreditChain
