import CreditChain.Lib.Action
import Mathlib.Order.Lattice

/-!
# Deltas of aggregators

A delta is a signed change with a history: the largest changes in both directions that
succeeded on the way, and the smallest ones that failed.  It applies to a base value if the
history would have been the same from there.

* `DeltaOp.merge_composes`: to apply merged deltas is to apply one after the other.
-/

namespace CreditChain

open List Option

/-! ## Bounded arithmetic -/

inductive BoundedMathError where
  | overflow
  | underflow
  deriving DecidableEq

inductive SignedU128 where
  | positive (value : Nat)
  | negative (value : Nat)
  deriving DecidableEq

namespace SignedU128

def minus : SignedU128 → SignedU128
  | positive value => negative value
  | negative value => positive value

/-- The change as an integer; zero has two signs. -/
def toInt : SignedU128 → Int
  | positive value => value
  | negative value => -value

@[simp] theorem toInt_positive (value : Nat) : (positive value).toInt = value := rfl

@[simp] theorem toInt_negative (value : Nat) : (negative value).toInt = -value := rfl

@[simp] theorem toInt_minus (d : SignedU128) : d.minus.toInt = -d.toInt := by
  cases d with
  | positive value => rfl
  | negative value => exact (Int.neg_neg _).symm

end SignedU128

def okOverflow {α : Type} : Except BoundedMathError α → Except BoundedMathError (Option α)
  | .ok value => .ok (some value)
  | .error .overflow => .ok none
  | .error .underflow => .error .underflow

def okUnderflow {α : Type} : Except BoundedMathError α → Except BoundedMathError (Option α)
  | .ok value => .ok (some value)
  | .error .overflow => .error .overflow
  | .error .underflow => .ok none

def negateError {α : Type} (result : Except BoundedMathError α) : Except BoundedMathError α :=
  result.mapError fun
    | .overflow => .underflow
    | .underflow => .overflow

/-- Values in `[0, maxValue]`, changes in `[-maxValue, maxValue]`. -/
structure BoundedMath where
  maxValue : Nat

namespace BoundedMath

variable (math : BoundedMath)

def unsignedAdd (base value : Nat) : Except BoundedMathError Nat :=
  if math.maxValue < base ∨ value > math.maxValue - base then .error .overflow
  else .ok (base + value)

def unsignedSubtract (_ : BoundedMath) (base value : Nat) : Except BoundedMathError Nat :=
  if value > base then .error .underflow else .ok (base - value)

def unsignedAddDelta (base : Nat) : SignedU128 → Except BoundedMathError Nat
  | .positive value => math.unsignedAdd base value
  | .negative value => math.unsignedSubtract base value

/-- `a - b` for magnitudes of different signs. -/
def updateDifferentSign (a b : Nat) : Except BoundedMathError SignedU128 :=
  if a ≥ b then (math.unsignedSubtract a b).map .positive
  else (math.unsignedSubtract b a).map .negative

def signedAdd : SignedU128 → SignedU128 → Except BoundedMathError SignedU128
  | .positive v1, .positive v2 => (math.unsignedAdd v1 v2).map .positive
  | .positive v1, .negative v2 => math.updateDifferentSign v1 v2
  | .negative v1, .positive v2 => math.updateDifferentSign v2 v1
  | .negative v1, .negative v2 => (negateError (math.unsignedAdd v1 v2)).map .negative

end BoundedMath

/-! ## Errors -/

inductive DeltaApplicationFailureReason where
  | overflow
  | underflow
  | expectedOverflow
  | expectedUnderflow

inductive DeltaHistoryMergeOffsetFailureReason where
  | achievedExceedsBounds
  | failureNotExceedingBoundsAnyMore

/-- Errors of speculative execution that deltas lead to. -/
inductive DelayedFieldsSpeculativeError where
  | deltaApplication (baseValue maxValue : Nat) (delta : SignedU128)
      (reason : DeltaApplicationFailureReason)
  | deltaHistoryMergeOffset (target : Nat) (delta : SignedU128) (maxValue : Nat)
      (reason : DeltaHistoryMergeOffsetFailureReason)
  | deltaHistoryMergeAchievedAndFailureOverlap (achieved overflow : SignedU128)

/-- An error, or the sign of a bug: a broken invariant of the code, or a panic. -/
inductive PanicOr (ε : Type) where
  | panicked
  | codeInvariantError (message : String)
  | or (e : ε)

/-- A check that succeeds exactly if `p` holds, and otherwise fails with an error. -/
inductive Decides {ε α : Type} : Except (PanicOr ε) α → Prop → Prop
  | ok {p : Prop} (a : α) : p → Decides (.ok a) p
  | error {p : Prop} (e : ε) : ¬ p → Decides (.error (.or e)) p

namespace Decides

variable {ε α β : Type} {x : Except (PanicOr ε) α} {p q : Prop}

theorem congr (decides : Decides x p) (same : p ↔ q) : Decides x q := by
  rwa [← propext same]

theorem bind {f : α → Except (PanicOr ε) β} (decides : Decides x p)
    (next : ∀ a, p → Decides (f a) q) : Decides (x >>= f) (p ∧ q) := by
  cases decides with
  | ok a holds =>
    exact (next a holds).congr ⟨fun more => ⟨holds, more⟩, fun both => both.2⟩
  | error e fails => exact .error e fun both => fails both.1

theorem ensure (p : Prop) [Decidable p] (e : ε) :
    Decides (CreditChain.ensure p (PanicOr.or e)) p := by
  by_cases holds : p
  · rw [CreditChain.ensure, if_pos holds]
    exact .ok _ holds
  · rw [CreditChain.ensure, if_neg holds]
    exact .error _ holds

end Decides

/-- What must not fail. -/
def expectOk {α : Type} : Except BoundedMathError α →
    Except (PanicOr DelayedFieldsSpeculativeError) α
  | .ok value => .ok value
  | .error .overflow => .error (.codeInvariantError "Expected Ok, got Err(Overflow)")
  | .error .underflow => .error (.codeInvariantError "Expected Ok, got Err(Underflow)")

theorem expectOk_eq_ok {α : Type} {x : Except BoundedMathError α} {a : α} :
    expectOk x = .ok a ↔ x = .ok a := by
  cases x with
  | ok value => simp [expectOk]
  | error e =>
    cases e with
    | overflow | underflow => simp [expectOk]

/-! ## Histories -/

structure DeltaHistory where
  maxAchievedPositiveDelta : Nat
  minAchievedNegativeDelta : Nat
  minOverflowPositiveDelta : Option Nat
  maxUnderflowNegativeDelta : Option Nat
  deriving DecidableEq

namespace DeltaHistory

def new : DeltaHistory := ⟨0, 0, none, none⟩

variable (history : DeltaHistory) (baseValue maxValue : Nat)

def recordSuccess : SignedU128 → DeltaHistory
  | .positive value =>
    { history with maxAchievedPositiveDelta := max history.maxAchievedPositiveDelta value }
  | .negative value =>
    { history with minAchievedNegativeDelta := max history.minAchievedNegativeDelta value }

/-- The overflow that was seen still overflows.  The subtraction panics if the recorded delta
exceeds the maximum. -/
def validateOverflow : Except (PanicOr DelayedFieldsSpeculativeError) Unit :=
  match history.minOverflowPositiveDelta with
  | none => .ok ()
  | some minOverflow =>
    if maxValue < minOverflow then .error .panicked
    else ensure (¬ baseValue ≤ maxValue - minOverflow)
      (.or (.deltaApplication baseValue maxValue (.positive minOverflow) .expectedOverflow))

def validateUnderflow : Except (PanicOr DelayedFieldsSpeculativeError) Unit :=
  match history.maxUnderflowNegativeDelta with
  | none => .ok ()
  | some maxUnderflow =>
    ensure (¬ baseValue ≥ maxUnderflow)
      (.or (.deltaApplication baseValue maxValue (.negative maxUnderflow) .expectedUnderflow))

/-- Whether the history would be the same from a base value. -/
def validateAgainstBaseValue : Except (PanicOr DelayedFieldsSpeculativeError) Unit := do
  let _ ← (BoundedMath.unsignedAdd ⟨maxValue⟩ baseValue
    history.maxAchievedPositiveDelta).mapError fun _ =>
      .or (.deltaApplication baseValue maxValue (.positive history.maxAchievedPositiveDelta)
        .overflow)
  let _ ← (BoundedMath.unsignedSubtract ⟨maxValue⟩ baseValue
    history.minAchievedNegativeDelta).mapError fun _ =>
      .or (.deltaApplication baseValue maxValue (.negative history.minAchievedNegativeDelta)
        .underflow)
  history.validateOverflow baseValue maxValue
  history.validateUnderflow baseValue maxValue

/-- The smaller of two failures, if there is one. -/
def mergeFailures : Option Nat → Option Nat → Option Nat
  | some a, some b => some (min a b)
  | some a, none => some a
  | none, b => b

/-- A failure after the change `prevDelta`, together with the failure before it. -/
def offsetAndMergeMinOverflow (minOverflow : Option Nat) (prevDelta : SignedU128)
    (prevMinOverflow : Option Nat) (math : BoundedMath) :
    Except DelayedFieldsSpeculativeError (Option Nat) :=
  match minOverflow with
  | none => .ok (mergeFailures none prevMinOverflow)
  | some target => do
      let adjusted ← (okOverflow (math.unsignedAddDelta target prevDelta)).mapError fun _ =>
        .deltaHistoryMergeOffset target prevDelta math.maxValue .failureNotExceedingBoundsAnyMore
      return mergeFailures adjusted prevMinOverflow

/-- A success after the change `prevDelta`, together with the success before it. -/
def offsetAndMergeMaxAchieved (maxAchieved : Nat) (prevDelta : SignedU128)
    (prevMaxAchieved : Nat) (math : BoundedMath) : Except DelayedFieldsSpeculativeError Nat := do
  let adjusted ← (okUnderflow (math.unsignedAddDelta maxAchieved prevDelta)).mapError fun _ =>
    .deltaHistoryMergeOffset maxAchieved prevDelta math.maxValue .achievedExceedsBounds
  return adjusted.elim prevMaxAchieved fun value => max prevMaxAchieved value

/-- No failure is at most a success. -/
def checkOverlap (failure : Option Nat) (achieved : Nat) (sign : Nat → SignedU128) :
    Except DelayedFieldsSpeculativeError Unit :=
  match failure with
  | none => .ok ()
  | some v => ensure (¬ v ≤ achieved)
      (.deltaHistoryMergeAchievedAndFailureOverlap (sign achieved) (sign v))

/-- The history of the changes before and of these changes. -/
def offsetAndMergeHistory (prevDelta : SignedU128) (prevHistory : DeltaHistory) (maxValue : Nat) :
    Except DelayedFieldsSpeculativeError DeltaHistory := do
  let newMinOverflow ← offsetAndMergeMinOverflow history.minOverflowPositiveDelta prevDelta
    prevHistory.minOverflowPositiveDelta ⟨maxValue⟩
  let newMaxUnderflow ← offsetAndMergeMinOverflow history.maxUnderflowNegativeDelta
    prevDelta.minus prevHistory.maxUnderflowNegativeDelta ⟨maxValue⟩
  let newMaxAchieved ← offsetAndMergeMaxAchieved history.maxAchievedPositiveDelta prevDelta
    prevHistory.maxAchievedPositiveDelta ⟨maxValue⟩
  let newMinAchieved ← offsetAndMergeMaxAchieved history.minAchievedNegativeDelta
    prevDelta.minus prevHistory.minAchievedNegativeDelta ⟨maxValue⟩
  checkOverlap newMinOverflow newMaxAchieved .positive
  checkOverlap newMaxUnderflow newMinAchieved .negative
  return ⟨newMaxAchieved, newMinAchieved, newMinOverflow, newMaxUnderflow⟩

end DeltaHistory

/-! ## Deltas -/

structure DeltaOp where
  history : DeltaHistory
  maxValue : Nat
  update : SignedU128
  deriving DecidableEq

/-- Errors of a delta among other errors. -/
def PanicOr.lift {ε α : Type} (x : Except ε α) : Except (PanicOr ε) α := x.mapError .or

namespace DeltaOp

/-- The result of a delta for a base value. -/
def applyTo (d : DeltaOp) (base : Nat) : Except (PanicOr DelayedFieldsSpeculativeError) Nat := do
  d.history.validateAgainstBaseValue base d.maxValue
  expectOk (BoundedMath.unsignedAddDelta ⟨d.maxValue⟩ base d.update)

/-- Merges a delta with the delta before it. -/
def createMergedDelta (prevDelta nextDelta : DeltaOp) :
    Except (PanicOr DelayedFieldsSpeculativeError) DeltaOp := do
  ensure (prevDelta.maxValue = nextDelta.maxValue)
    (.codeInvariantError "Cannot merge deltas with different limits")
  let history ← PanicOr.lift (nextDelta.history.offsetAndMergeHistory prevDelta.update
    prevDelta.history nextDelta.maxValue)
  let update ← expectOk
    (BoundedMath.signedAdd ⟨nextDelta.maxValue⟩ prevDelta.update nextDelta.update)
  return { history, maxValue := nextDelta.maxValue, update }

/-- Merge a delta with the one before it. -/
def mergeWithPreviousDelta (d previousDelta : DeltaOp) :
    Except (PanicOr DelayedFieldsSpeculativeError) DeltaOp :=
  createMergedDelta previousDelta d

end DeltaOp

/-! ## What the operations compute -/

open SignedU128

namespace BoundedMath

variable {math : BoundedMath} {base value : Nat}

theorem unsignedAdd_eq : math.unsignedAdd base value =
    if base + value ≤ math.maxValue then .ok (base + value) else .error .overflow := by
  unfold unsignedAdd
  by_cases fits : base + value ≤ math.maxValue
  · rw [if_neg (by omega), if_pos fits]
  · rw [if_pos (by omega), if_neg fits]

theorem unsignedSubtract_eq : math.unsignedSubtract base value =
    if value ≤ base then .ok (base - value) else .error .underflow := by
  unfold unsignedSubtract
  by_cases fits : value ≤ base
  · rw [if_neg (by omega), if_pos fits]
  · rw [if_pos (by omega), if_neg fits]

/-- A value after a change, if it is in the bounds. -/
inductive Added (L base : Nat) (change : Int) : Except BoundedMathError Nat → Prop
  | ok (result : Nat) : (result : Int) = base + change → (base ≤ L → result ≤ L) →
      Added L base change (.ok result)
  | overflow : (L : Int) < base + change → Added L base change (.error .overflow)
  | underflow : base + change < 0 → Added L base change (.error .underflow)

theorem unsignedAddDelta_added (math : BoundedMath) (base : Nat) (d : SignedU128) :
    Added math.maxValue base d.toInt (math.unsignedAddDelta base d) := by
  cases d with
  | positive value =>
    rw [unsignedAddDelta, unsignedAdd_eq, toInt_positive]
    split
    · next fits => exact .ok _ (by omega) fun _ => fits
    · next above => exact .overflow (by omega)
  | negative value =>
    rw [unsignedAddDelta, unsignedSubtract_eq, toInt_negative]
    split
    · next fits => exact .ok _ (by omega) (by omega)
    · next above => exact .underflow (by omega)

/-- A change within the bounds. -/
theorem unsignedAddDelta_ok {d : SignedU128} {result : Nat}
    (sum : (result : Int) = base + d.toInt) (bound : result ≤ math.maxValue) :
    math.unsignedAddDelta base d = .ok result := by
  have added := unsignedAddDelta_added math base d
  generalize math.unsignedAddDelta base d = outcome at added
  cases added with
  | ok w same =>
    congr 1
    omega
  | overflow above | underflow under => omega

end BoundedMath

open BoundedMath

namespace DeltaHistory

variable {history prev merged : DeltaHistory} {d : SignedU128} {L v v' t : Nat}

/-- A failure exceeds `t` after the change `d`. -/
def Exceeds (failure : Option Nat) (d : Int) (t : Nat) : Prop := ∀ c ∈ failure, (t : Int) < c + d

theorem exceeds_mergeFailures {a b : Option Nat} :
    Exceeds (mergeFailures a b) 0 t ↔ Exceeds a 0 t ∧ Exceeds b 0 t := by
  unfold Exceeds mergeFailures
  cases a with
  | none => simp
  | some a =>
    cases b with
    | none | some b => simp

/-- What a merged failure says about a bound `t` that the values respect. -/
theorem offsetAndMergeMinOverflow_spec (failure prevFailure : Option Nat) (d : SignedU128)
    (bound : t ≤ L) :
    match offsetAndMergeMinOverflow failure d prevFailure ⟨L⟩ with
    | .ok merged => (Exceeds merged 0 t ↔ Exceeds failure d.toInt t ∧ Exceeds prevFailure 0 t)
    | .error _ => ¬ Exceeds failure d.toInt t := by
  unfold offsetAndMergeMinOverflow
  cases failure with
  | none => simp [mergeFailures, Exceeds]
  | some target =>
    have one : Exceeds (some target) d.toInt t ↔ (t : Int) < target + d.toInt := by
      simp [Exceeds]
    rw [one]
    dsimp only
    have added := unsignedAddDelta_added ⟨L⟩ target d
    generalize unsignedAddDelta ⟨L⟩ target d = outcome at added
    cases added with
    | ok w sum =>
      change Exceeds (mergeFailures (some w) prevFailure) 0 t ↔ _
      have same : Exceeds (some w) 0 t ↔ (t : Int) < target + d.toInt := by
        simp only [Exceeds, mem_some_iff, forall_eq']
        omega
      rw [exceeds_mergeFailures, same]
    | overflow above =>
      change Exceeds (mergeFailures none prevFailure) 0 t ↔ _
      have beyond : (t : Int) < target + d.toInt := by
        dsimp only at above
        omega
      rw [exceeds_mergeFailures]
      simp [Exceeds, beyond]
    | underflow under =>
      change ¬ _
      omega

theorem offsetAndMergeMaxAchieved_spec (achieved prevAchieved : Nat) (d : SignedU128)
    (bound : t ≤ L) :
    match offsetAndMergeMaxAchieved achieved d prevAchieved ⟨L⟩ with
    | .ok merged => (merged ≤ t ↔ (achieved : Int) + d.toInt ≤ t ∧ prevAchieved ≤ t)
    | .error _ => ¬ (achieved : Int) + d.toInt ≤ t := by
  unfold offsetAndMergeMaxAchieved
  have added := unsignedAddDelta_added ⟨L⟩ achieved d
  generalize unsignedAddDelta ⟨L⟩ achieved d = outcome at added
  cases added with
  | ok w sum =>
    change max prevAchieved w ≤ t ↔ _
    omega
  | overflow above =>
    change ¬ _
    dsimp only at above
    omega
  | underflow under =>
    change prevAchieved ≤ t ↔ _
    omega

/-- The history is the same from the base value `v`. -/
@[mk_iff]
structure Admits (history : DeltaHistory) (L v : Nat) : Prop where
  bounded : v ≤ L
  achieved : history.maxAchievedPositiveDelta ≤ L - v
  lowered : history.minAchievedNegativeDelta ≤ v
  overflows : Exceeds history.minOverflowPositiveDelta 0 (L - v)
  underflows : Exceeds history.maxUnderflowNegativeDelta 0 v

/-- The history is the same after the change `d` of the base value `v`. -/
structure AdmitsAfter (history : DeltaHistory) (d : Int) (L v : Nat) : Prop where
  achieved : (history.maxAchievedPositiveDelta : Int) + d ≤ (L - v : Nat)
  lowered : (history.minAchievedNegativeDelta : Int) + -d ≤ v
  overflows : Exceeds history.minOverflowPositiveDelta d (L - v)
  underflows : Exceeds history.maxUnderflowNegativeDelta (-d) v

/-- Successes are at most the maximum. -/
def Small (history : DeltaHistory) (L : Nat) : Prop :=
  history.maxAchievedPositiveDelta ≤ L ∧ history.minAchievedNegativeDelta ≤ L

/-- Recorded failures are above the successes and at most the maximum. -/
structure Tight (history : DeltaHistory) (L : Nat) : Prop where
  overflow : ∀ c ∈ history.minOverflowPositiveDelta, history.maxAchievedPositiveDelta < c ∧ c ≤ L
  underflow : ∀ c ∈ history.maxUnderflowNegativeDelta, history.minAchievedNegativeDelta < c ∧ c ≤ L

theorem validateOverflow_decides (tight : ∀ c ∈ history.minOverflowPositiveDelta, c ≤ L)
    (bounded : v ≤ L) :
    Decides (history.validateOverflow v L)
      (Exceeds history.minOverflowPositiveDelta 0 (L - v)) := by
  unfold validateOverflow Exceeds
  generalize history.minOverflowPositiveDelta = failure at tight
  cases failure with
  | none => exact .ok _ (by simp)
  | some c =>
    have le : c ≤ L := tight c rfl
    simp only [mem_some_iff, forall_eq']
    rw [if_neg (by omega)]
    exact (Decides.ensure _ _).congr (by omega)

theorem validateUnderflow_decides : Decides (history.validateUnderflow v L)
    (Exceeds history.maxUnderflowNegativeDelta 0 v) := by
  unfold validateUnderflow Exceeds
  generalize history.maxUnderflowNegativeDelta = failure
  cases failure with
  | none => exact .ok _ (by simp)
  | some c =>
    simp only [mem_some_iff, forall_eq']
    exact (Decides.ensure _ _).congr (by omega)

/-- A validation succeeds exactly if the history is the same. -/
theorem validateAgainstBaseValue_decides (tight : history.Tight L) :
    Decides (history.validateAgainstBaseValue v L) (history.Admits L v) := by
  have top : Decides ((unsignedAdd ⟨L⟩ v history.maxAchievedPositiveDelta).mapError fun _ =>
      PanicOr.or (DelayedFieldsSpeculativeError.deltaApplication v L
        (.positive history.maxAchievedPositiveDelta) .overflow))
      (v + history.maxAchievedPositiveDelta ≤ L) := by
    rw [unsignedAdd_eq]
    split
    · next fits => exact .ok _ fits
    · next above => exact .error _ above
  have bottom : Decides ((unsignedSubtract ⟨L⟩ v history.minAchievedNegativeDelta).mapError fun _ =>
      PanicOr.or (DelayedFieldsSpeculativeError.deltaApplication v L
        (.negative history.minAchievedNegativeDelta) .underflow))
      (history.minAchievedNegativeDelta ≤ v) := by
    rw [unsignedSubtract_eq]
    split
    · next fits => exact .ok _ fits
    · next under => exact .error _ under
  refine (top.bind fun _ fits => bottom.bind fun _ _ =>
    (validateOverflow_decides (fun c mem => (tight.overflow c mem).2) (by omega)).bind
      fun _ _ => validateUnderflow_decides).congr ?_
  constructor
  · rintro ⟨fits, lowered, overflows, underflows⟩
    exact ⟨by omega, by omega, lowered, overflows, underflows⟩
  · intro admits
    have achieved := admits.achieved
    have bounded := admits.bounded
    exact ⟨by omega, admits.lowered, admits.overflows, admits.underflows⟩

theorem admitsAfter_iff (bounded : v ≤ L) (bounded' : v' ≤ L) {change : Int}
    (sum : (v' : Int) = v + change) : history.AdmitsAfter change L v ↔ history.Admits L v' := by
  have above : ∀ failure, Exceeds failure change (L - v) ↔ Exceeds failure 0 (L - v') := by
    intro failure
    have same : ∀ c : Nat, ((L - v : Nat) : Int) < c + change ↔ ((L - v' : Nat) : Int) < c + 0 := by
      omega
    simp only [Exceeds, same]
  have under : ∀ failure, Exceeds failure (-change) v ↔ Exceeds failure 0 v' := by
    intro failure
    have same : ∀ c : Nat, (v : Int) < c + -change ↔ (v' : Int) < c + 0 := by omega
    simp only [Exceeds, same]
  constructor
  · intro after
    have achieved := after.achieved
    have lowered := after.lowered
    exact ⟨bounded', by omega, by omega, (above _).mp after.overflows,
      (under _).mp after.underflows⟩
  · intro admits
    have achieved := admits.achieved
    have lowered := admits.lowered
    exact ⟨by omega, by omega, (above _).mpr admits.overflows, (under _).mpr admits.underflows⟩

theorem merged_failure_le {failure prevFailure merged : Option Nat}
    (ok : offsetAndMergeMinOverflow failure d prevFailure ⟨L⟩ = .ok merged)
    (le : ∀ c ∈ failure, c ≤ L) (prevLe : ∀ c ∈ prevFailure, c ≤ L) : ∀ c ∈ merged, c ≤ L := by
  have joined : ∀ adjusted : Option Nat, (∀ c ∈ adjusted, c ≤ L) →
      ∀ c ∈ mergeFailures adjusted prevFailure, c ≤ L := by
    intro adjusted adjustedLe c mem
    cases adjusted with
    | none => exact prevLe c mem
    | some a =>
      have first := adjustedLe a rfl
      cases prevFailure with
      | none =>
        cases mem
        exact first
      | some b =>
        cases mem
        exact (min_le_left a b).trans first
  cases failure with
  | none =>
    cases ok
    exact joined none (by simp)
  | some target =>
    obtain ⟨adjusted, shifted, rfl⟩ := of_return ok
    refine joined adjusted ?_
    have added := unsignedAddDelta_added ⟨L⟩ target d
    generalize unsignedAddDelta ⟨L⟩ target d = outcome at added shifted
    cases added with
    | ok w sum inside =>
      cases shifted
      simpa using inside (le target rfl)
    | overflow above =>
      cases shifted
      simp
    | underflow under => cases shifted

/-- A success that can be merged stays within the maximum. -/
theorem achieved_fits {achieved prevAchieved merged value : Nat}
    (ok : offsetAndMergeMaxAchieved achieved (.positive value) prevAchieved ⟨L⟩ = .ok merged) :
    achieved + value ≤ L := by
  obtain ⟨adjusted, shifted, -⟩ := of_bind ok
  rw [unsignedAddDelta, unsignedAdd_eq] at shifted
  by_contra above
  rw [if_neg above] at shifted
  cases shifted

theorem merged_covers {achieved prevAchieved merged : Nat}
    (ok : offsetAndMergeMaxAchieved achieved d prevAchieved ⟨L⟩ = .ok merged) :
    (achieved : Int) + d.toInt ≤ merged ∧ (achieved ≤ L → prevAchieved ≤ L → merged ≤ L) := by
  obtain ⟨adjusted, shifted, rfl⟩ := of_return ok
  have added := unsignedAddDelta_added ⟨L⟩ achieved d
  generalize unsignedAddDelta ⟨L⟩ achieved d = outcome at added shifted
  cases added with
  | ok w sum inside =>
    cases shifted
    rw [elim_some]
    exact ⟨by omega, fun le prevLe => Nat.max_le.mpr ⟨prevLe, inside le⟩⟩
  | overflow above => cases shifted
  | underflow under =>
    cases shifted
    exact ⟨by omega, fun _ prevLe => prevLe⟩

theorem checkOverlap_ok {failure : Option Nat} {achieved : Nat} {sign : Nat → SignedU128} :
    checkOverlap failure achieved sign = .ok () ↔ ∀ c ∈ failure, achieved < c := by
  unfold checkOverlap
  cases failure with
  | none | some c => simp

theorem offsetAndMergeHistory_ok (tight : history.Tight L) (prevTight : prev.Tight L)
    (ok : history.offsetAndMergeHistory d prev L = .ok merged) :
    merged.Tight L ∧
      (history.maxAchievedPositiveDelta : Int) + d.toInt ≤ merged.maxAchievedPositiveDelta ∧
      (history.minAchievedNegativeDelta : Int) + d.minus.toInt ≤
        merged.minAchievedNegativeDelta ∧
      (∀ value, d = .positive value → history.maxAchievedPositiveDelta + value ≤ L) ∧
      (∀ value, d = .negative value → history.minAchievedNegativeDelta + value ≤ L) ∧
      (history.Small L → prev.Small L → merged.Small L) := by
  obtain ⟨overflow, first, ok⟩ := of_bind ok
  obtain ⟨underflow, second, ok⟩ := of_bind ok
  obtain ⟨achieved, third, ok⟩ := of_bind ok
  obtain ⟨lowered, fourth, ok⟩ := of_bind ok
  obtain ⟨_, fifth, ok⟩ := of_bind ok
  obtain ⟨_, sixth, rfl⟩ := of_return ok
  refine ⟨⟨?_, ?_⟩, (merged_covers third).1, (merged_covers fourth).1, ?_, ?_, ?_⟩
  · intro c mem
    exact ⟨checkOverlap_ok.mp fifth c mem, merged_failure_le first
      (fun c mem => (tight.overflow c mem).2) (fun c mem => (prevTight.overflow c mem).2) c mem⟩
  · intro c mem
    exact ⟨checkOverlap_ok.mp sixth c mem, merged_failure_le second
      (fun c mem => (tight.underflow c mem).2) (fun c mem => (prevTight.underflow c mem).2) c mem⟩
  · rintro value rfl
    exact achieved_fits third
  · rintro value rfl
    exact achieved_fits fourth
  · intro small prevSmall
    exact ⟨(merged_covers third).2 small.1 prevSmall.1,
      (merged_covers fourth).2 small.2 prevSmall.2⟩

/-- A merged history is the same exactly where both histories are, one after the other. -/
theorem offsetAndMergeHistory_spec (bounded : v ≤ L) :
    match history.offsetAndMergeHistory d prev L with
    | .ok merged => (merged.Admits L v ↔ prev.Admits L v ∧ history.AdmitsAfter d.toInt L v)
    | .error _ => ¬ (prev.Admits L v ∧ history.AdmitsAfter d.toInt L v) := by
  have above := offsetAndMergeMinOverflow_spec history.minOverflowPositiveDelta
    prev.minOverflowPositiveDelta d (Nat.sub_le L v)
  have under := offsetAndMergeMinOverflow_spec history.maxUnderflowNegativeDelta
    prev.maxUnderflowNegativeDelta d.minus bounded
  have top := offsetAndMergeMaxAchieved_spec history.maxAchievedPositiveDelta
    prev.maxAchievedPositiveDelta d (Nat.sub_le L v)
  have bottom := offsetAndMergeMaxAchieved_spec history.minAchievedNegativeDelta
    prev.minAchievedNegativeDelta d.minus bounded
  rw [toInt_minus] at under bottom
  unfold offsetAndMergeHistory
  generalize offsetAndMergeMinOverflow _ _ _ _ = first at above ⊢
  generalize offsetAndMergeMinOverflow _ _ _ _ = second at under ⊢
  generalize offsetAndMergeMaxAchieved _ _ _ _ = third at top ⊢
  generalize offsetAndMergeMaxAchieved _ _ _ _ = fourth at bottom ⊢
  cases first with
  | error e => exact fun both => above both.2.overflows
  | ok overflow =>
  cases second with
  | error e => exact fun both => under both.2.underflows
  | ok underflow =>
  cases third with
  | error e => exact fun both => top both.2.achieved
  | ok achieved =>
  cases fourth with
  | error e => exact fun both => bottom both.2.lowered
  | ok lowered =>
    have all : DeltaHistory.Admits ⟨achieved, lowered, overflow, underflow⟩ L v ↔
        prev.Admits L v ∧ history.AdmitsAfter d.toInt L v := by
      constructor
      · rintro ⟨-, topLe, bottomLe, overflows, underflows⟩
        have topLe := top.mp topLe
        have bottomLe := bottom.mp bottomLe
        have overflows := above.mp overflows
        have underflows := under.mp underflows
        exact ⟨⟨bounded, topLe.2, bottomLe.2, overflows.2, underflows.2⟩,
          topLe.1, bottomLe.1, overflows.1, underflows.1⟩
      · rintro ⟨before, after⟩
        exact ⟨bounded, top.mpr ⟨after.achieved, before.achieved⟩,
          bottom.mpr ⟨after.lowered, before.lowered⟩,
          above.mpr ⟨after.overflows, before.overflows⟩,
          under.mpr ⟨after.underflows, before.underflows⟩⟩
    have free {failure : Option Nat} {achieved t : Nat} {sign : Nat → SignedU128}
        (exceeds : Exceeds failure 0 t) (le : achieved ≤ t) :
        checkOverlap failure achieved sign = .ok () := by
      rw [checkOverlap_ok]
      intro c mem
      have above := exceeds c mem
      omega
    rw [← all]
    simp only [Except.ok_bind]
    cases fifth : checkOverlap overflow achieved .positive with
    | error e =>
      intro admits
      rw [free admits.overflows admits.achieved] at fifth
      cases fifth
    | ok _ =>
      cases sixth : checkOverlap underflow lowered .negative with
      | error e =>
        intro admits
        rw [free admits.underflows admits.lowered] at sixth
        cases sixth
      | ok _ => exact .rfl

end DeltaHistory

/-! ## Merging and applying -/

namespace DeltaOp

/-- The change is within what succeeded, and failures are above that and at most the maximum. -/
structure WellFormed (d : DeltaOp) : Prop where
  tight : d.history.Tight d.maxValue
  upper : d.update.toInt ≤ d.history.maxAchievedPositiveDelta
  lower : -d.update.toInt ≤ d.history.minAchievedNegativeDelta

variable {d next merged : DeltaOp} {v v' : Nat}

/-- A delta applies exactly to the values from which its history is the same. -/
theorem applyTo_spec (wellFormed : d.WellFormed) (v : Nat) :
    (∃ v' : Nat, d.applyTo v = .ok v' ∧ (v' : Int) = v + d.update.toInt ∧ v' ≤ d.maxValue ∧
      d.history.Admits d.maxValue v) ∨
    ((∃ e, d.applyTo v = .error (.or e)) ∧ ¬ d.history.Admits d.maxValue v) := by
  have upper := wellFormed.upper
  have lower := wellFormed.lower
  unfold applyTo
  have decides := DeltaHistory.validateAgainstBaseValue_decides (v := v) wellFormed.tight
  generalize d.history.validateAgainstBaseValue v d.maxValue = validated at decides
  cases decides with
  | error e fails => exact .inr ⟨⟨e, rfl⟩, fails⟩
  | ok _ admits =>
    have achieved := admits.achieved
    have lowered := admits.lowered
    have bounded := admits.bounded
    obtain ⟨v', sum⟩ : ∃ v' : Nat, (v' : Int) = v + d.update.toInt :=
      ⟨(v + d.update.toInt).toNat, Int.toNat_of_nonneg (by omega)⟩
    have le : v' ≤ d.maxValue := by omega
    refine .inl ⟨v', ?_, sum, le, admits⟩
    rw [unsignedAddDelta_ok sum le]
    rfl

theorem applyTo_eq_ok (wellFormed : d.WellFormed) : d.applyTo v = .ok v' ↔
    (v' : Int) = v + d.update.toInt ∧ v' ≤ d.maxValue ∧ d.history.Admits d.maxValue v := by
  rcases applyTo_spec wellFormed v with ⟨w, applied, sum, le, admits⟩ | ⟨⟨e, failed⟩, refused⟩
  · rw [applied, Except.ok.injEq]
    constructor
    · rintro rfl
      exact ⟨sum, le, admits⟩
    · intro both
      omega
  · rw [failed]
    exact ⟨nofun, fun both => absurd both.2.2 refused⟩

theorem signedAdd_ok {L : Nat} {p q : SignedU128}
    (up : ∀ a b, p = .positive a → q = .positive b → a + b ≤ L)
    (down : ∀ a b, p = .negative a → q = .negative b → a + b ≤ L) :
    ∃ r, signedAdd ⟨L⟩ p q = .ok r ∧ r.toInt = p.toInt + q.toInt := by
  have mixed : ∀ a b : Nat, ∃ r, updateDifferentSign ⟨L⟩ a b = .ok r ∧
      r.toInt = a - b := by
    intro a b
    unfold updateDifferentSign
    rw [unsignedSubtract_eq, unsignedSubtract_eq]
    by_cases le : b ≤ a
    · rw [if_pos le, if_pos le]
      refine ⟨.positive (a - b), rfl, ?_⟩
      rw [toInt_positive]
      omega
    · rw [if_neg le, if_pos (by omega)]
      refine ⟨.negative (b - a), rfl, ?_⟩
      rw [toInt_negative]
      omega
  cases p with
  | positive a =>
    cases q with
    | positive b =>
      refine ⟨.positive (a + b), ?_, by simp⟩
      rw [signedAdd, unsignedAdd_eq, if_pos (up a b rfl rfl)]
      rfl
    | negative b => exact mixed a b
  | negative a =>
    cases q with
    | positive b =>
      obtain ⟨r, ok, value⟩ := mixed b a
      refine ⟨r, ok, ?_⟩
      rw [toInt_negative, toInt_positive]
      omega
    | negative b =>
      refine ⟨.negative (a + b), ?_, ?_⟩
      · rw [signedAdd, unsignedAdd_eq, if_pos (down a b rfl rfl)]
        rfl
      · rw [toInt_negative, toInt_negative, toInt_negative]
        omega

/-- A merged delta is well formed, and applies to a value exactly if the deltas apply one after
the other. -/
theorem createMergedDelta_spec (first : d.WellFormed) (second : next.WellFormed)
    (sameMax : d.maxValue = next.maxValue) :
    (∃ merged, d.createMergedDelta next = .ok merged ∧ merged.WellFormed ∧
      merged.maxValue = next.maxValue ∧
      (next.history.Small d.maxValue → d.history.Small d.maxValue →
        merged.history.Small d.maxValue) ∧
      ∀ base result, merged.applyTo base = .ok result ↔
        ∃ mid, d.applyTo base = .ok mid ∧ next.applyTo mid = .ok result) ∨
    ((∃ e, d.createMergedDelta next = .error (.or e)) ∧
      ∀ base mid result, d.applyTo base = .ok mid → next.applyTo mid ≠ .ok result) := by
  unfold createMergedDelta
  rw [ensure, if_pos sameMax, ← sameMax]
  have spec {v : Nat} := @DeltaHistory.offsetAndMergeHistory_spec next.history d.history d.update
    d.maxValue v
  cases combined : next.history.offsetAndMergeHistory d.update d.history d.maxValue with
  | error e =>
    refine .inr ⟨⟨e, rfl⟩, fun base mid result applied applied' => ?_⟩
    obtain ⟨sum, le, before⟩ := (applyTo_eq_ok first).mp applied
    have after := ((applyTo_eq_ok second).mp applied').2.2
    rw [← sameMax, ← DeltaHistory.admitsAfter_iff before.bounded le sum] at after
    rw [combined] at spec
    exact spec before.bounded ⟨before, after⟩
  | ok history =>
    rw [combined] at spec
    obtain ⟨tight, covers, lowers, up, down, small⟩ :=
      DeltaHistory.offsetAndMergeHistory_ok (sameMax ▸ second.tight) first.tight combined
    have upper := second.upper
    have lower := second.lower
    obtain ⟨update, added, value⟩ := signedAdd_ok (L := d.maxValue) (p := d.update)
      (q := next.update)
      (fun a b isPositive isPositive' => by
        have le := up a isPositive
        rw [isPositive', toInt_positive] at upper
        omega)
      (fun a b isNegative isNegative' => by
        have le := down a isNegative
        rw [isNegative', toInt_negative] at lower
        omega)
    rw [toInt_minus] at lowers
    have wellFormed : WellFormed ⟨history, d.maxValue, update⟩ :=
      ⟨tight, by dsimp only; omega, by dsimp only; omega⟩
    refine .inl ⟨⟨history, d.maxValue, update⟩, ?_, wellFormed, rfl, small, fun base result => ?_⟩
    · rw [added]
      rfl
    rw [applyTo_eq_ok wellFormed]
    constructor
    · rintro ⟨sum, le, admits⟩
      obtain ⟨before, after⟩ := (spec admits.bounded).mp admits
      rcases applyTo_spec first base with ⟨mid, applied, sum', le', -⟩ | ⟨-, refused⟩
      swap
      · exact absurd before refused
      refine ⟨mid, applied, (applyTo_eq_ok second).mpr ⟨?_, sameMax ▸ le, ?_⟩⟩
      · dsimp only at sum
        omega
      · rw [← sameMax, ← DeltaHistory.admitsAfter_iff before.bounded le' sum']
        exact after
    · rintro ⟨mid, applied, applied'⟩
      obtain ⟨sum, le, before⟩ := (applyTo_eq_ok first).mp applied
      obtain ⟨sum', le', after⟩ := (applyTo_eq_ok second).mp applied'
      rw [← sameMax, ← DeltaHistory.admitsAfter_iff before.bounded le sum] at after
      refine ⟨?_, sameMax ▸ le', (spec before.bounded).mpr ⟨before, after⟩⟩
      dsimp only
      omega

/-- To merge with the delta before and apply to its base is to apply to its result. -/
theorem merge_applyTo (first : d.WellFormed) (second : next.WellFormed)
    (sameMax : d.maxValue = next.maxValue) (applied : d.applyTo v = .ok v') :
    (∃ result, (d.createMergedDelta next >>= fun merged => merged.applyTo v) = .ok result ∧
      next.applyTo v' = .ok result) ∨
    ((∃ e, (d.createMergedDelta next >>= fun merged => merged.applyTo v) = .error (.or e)) ∧
      ∃ e, next.applyTo v' = .error (.or e)) := by
  rcases createMergedDelta_spec first second sameMax with
    ⟨merged, ok, wellFormed, -, -, same⟩ | ⟨⟨e, failed⟩, refused⟩
  · rw [ok, Except.ok_bind]
    rcases applyTo_spec wellFormed v with ⟨w, done, -⟩ | ⟨failed, -⟩
    · obtain ⟨mid, there, after⟩ := (same v w).mp done
      rw [applied] at there
      cases there
      exact .inl ⟨w, done, after⟩
    · rcases applyTo_spec second v' with ⟨w, after, -⟩ | ⟨failed', -⟩
      · obtain ⟨e, failed⟩ := failed
        rw [(same v w).mpr ⟨v', applied, after⟩] at failed
        cases failed
      · exact .inr ⟨failed, failed'⟩
  · rw [failed]
    rcases applyTo_spec second v' with ⟨w, after, -⟩ | ⟨failed', -⟩
    · exact absurd after (refused v v' w applied)
    · exact .inr ⟨⟨e, rfl⟩, failed'⟩

/-! ## Merging is composition -/

/-- A well-formed delta with the maximum `L` and no success above it. -/
structure Proper (L : Nat) (d : DeltaOp) : Prop where
  wellFormed : d.WellFormed
  max : d.maxValue = L
  small : d.history.Small L

/-- The outcome of a merge: a delta that does what `effect` says from every base value, or a
speculative error, and then `effect` has no result from any base value. -/
def Performs (L : Nat) (effect : Nat → Nat → Prop) :
    Except (PanicOr DelayedFieldsSpeculativeError) DeltaOp → Prop
  | .ok merged => merged.Proper L ∧
      ∀ base ≤ L, ∀ result, merged.applyTo base = .ok result ↔ effect base result
  | .error e => (∃ reason, e = .or reason) ∧ ∀ base ≤ L, ∀ result, ¬ effect base result

section Performs

variable {L : Nat} {effect effect' : Nat → Nat → Prop}
  {merged merged' : Except (PanicOr DelayedFieldsSpeculativeError) DeltaOp}

theorem Performs.bounded (performs : Performs L effect merged) {base result : Nat} (le : base ≤ L)
    (does : effect base result) : result ≤ L := by
  cases merged with
  | error e => exact absurd does (performs.2 base le result)
  | ok d =>
    have applied := (performs.2 base le result).mpr does
    exact performs.1.max ▸ ((applyTo_eq_ok performs.1.wellFormed).mp applied).2.1

theorem Performs.merge (first : Performs L effect merged) (second : Performs L effect' merged') :
    Performs L (fun base result => ∃ mid, effect base mid ∧ effect' mid result) (do
      let prevDelta ← merged
      let nextDelta ← merged'
      prevDelta.createMergedDelta nextDelta) := by
  have inside {base mid : Nat} (le : base ≤ L) (before : effect base mid) : mid ≤ L :=
    first.bounded le before
  cases merged with
  | error e => exact ⟨first.1, fun base le result ⟨mid, before, _⟩ => first.2 base le mid before⟩
  | ok d =>
    cases merged' with
    | error e => exact ⟨second.1, fun base le result ⟨mid, before, after⟩ =>
        second.2 mid (inside le before) result after⟩
    | ok next =>
      rw [Except.ok_bind, Except.ok_bind]
      rcases createMergedDelta_spec first.1.wellFormed second.1.wellFormed
        (first.1.max.trans second.1.max.symm) with
        ⟨both, ok, wellFormed, max, small, same⟩ | ⟨⟨e, failed⟩, refused⟩
      · rw [ok]
        rw [first.1.max] at small
        refine ⟨⟨wellFormed, max.trans second.1.max, small second.1.small first.1.small⟩, ?_⟩
        intro base le result
        rw [same]
        refine exists_congr fun mid => ?_
        rw [first.2 base le mid]
        exact and_congr_right fun before => second.2 mid (inside le before) result
      · rw [failed]
        refine ⟨⟨e, rfl⟩, ?_⟩
        rintro base le result ⟨mid, before, after⟩
        exact refused base mid result ((first.2 base le mid).mpr before)
          ((second.2 mid (inside le before) result).mpr after)

end Performs

/-- One delta after the other. -/
def applyAll (deltas : List DeltaOp) (base : Nat) :
    Except (PanicOr DelayedFieldsSpeculativeError) Nat :=
  deltas.foldlM (fun value d => d.applyTo value) base

/-- A list of deltas, and how they are put together. -/
inductive MergeTree where
  | delta (d : DeltaOp)
  | merge (before after : MergeTree)

namespace MergeTree

def deltas : MergeTree → List DeltaOp
  | delta d => [d]
  | merge before after => before.deltas ++ after.deltas

def mergeAll : MergeTree → Except (PanicOr DelayedFieldsSpeculativeError) DeltaOp
  | delta d => .ok d
  | merge before after => do
      let prevDelta ← before.mergeAll
      let nextDelta ← after.mergeAll
      prevDelta.createMergedDelta nextDelta

end MergeTree

/-- Merging is composition: of two deltas, and of any list of deltas in whatever way they are put
together. -/
theorem merge_composes (L : Nat) :
    (∀ d next : DeltaOp, d.Proper L → next.Proper L →
      Performs L (fun base result => ∃ mid, d.applyTo base = .ok mid ∧ next.applyTo mid = .ok result)
        (d.createMergedDelta next)) ∧
    ∀ tree : MergeTree, (∀ d ∈ tree.deltas, d.Proper L) →
      Performs L (fun base result => applyAll tree.deltas base = .ok result) tree.mergeAll := by
  have one {d : DeltaOp} (proper : d.Proper L) :
      Performs L (fun base result => d.applyTo base = .ok result) (.ok d) :=
    ⟨proper, fun base _ result => .rfl⟩
  refine ⟨fun d next first second => (one first).merge (one second), fun tree proper => ?_⟩
  induction tree with
  | delta d =>
    have same : ∀ base, applyAll [d] base = d.applyTo base := fun base => bind_pure _
    simp only [MergeTree.deltas, same]
    exact one (proper d mem_cons_self)
  | merge before after ih ih' =>
    have both := (ih fun d mem => proper d (mem_append_left _ mem)).merge
      (ih' fun d mem => proper d (mem_append_right _ mem))
    simp only [MergeTree.deltas, applyAll, foldlM_append, Except.bind_eq_ok]
    exact both

/-! ### Three deltas of a value up to 100 -/

def raised : DeltaOp := ⟨⟨30, 10, some 60, none⟩, 100, .positive 20⟩

def lowered : DeltaOp := ⟨⟨5, 40, none, some 90⟩, 100, .negative 15⟩

/-- Raised, lowered and raised again. -/
def changes : MergeTree := .merge (.delta raised) (.merge (.delta lowered) (.delta raised))

theorem raised_proper : raised.Proper 100 :=
  ⟨⟨⟨by decide, nofun⟩, by decide, by decide⟩, rfl, by decide, by decide⟩

theorem lowered_proper : lowered.Proper 100 :=
  ⟨⟨⟨nofun, by decide⟩, by decide, by decide⟩, rfl, by decide, by decide⟩

/-- The merged delta takes 45 to 70, as the three do one after the other. -/
theorem changes_merged : ∃ merged, changes.mergeAll = .ok merged ∧ merged.applyTo 45 = .ok 70 ∧
    applyAll changes.deltas 45 = .ok 70 := by
  have proper : ∀ d ∈ changes.deltas, d.Proper 100 :=
    forall_mem_cons.mpr ⟨raised_proper, forall_mem_cons.mpr ⟨lowered_proper,
      forall_mem_singleton.mpr raised_proper⟩⟩
  have performs := (merge_composes 100).2 changes proper
  obtain ⟨merged, done⟩ : ∃ merged, changes.mergeAll = .ok merged := ⟨_, rfl⟩
  rw [done] at performs
  have applied : applyAll changes.deltas 45 = .ok 70 := rfl
  exact ⟨merged, done, (performs.2 45 (by decide) 70).mpr applied, applied⟩

end DeltaOp

end CreditChain
