import CreditChain.Aggregator.Delta
import Mathlib.Data.List.Induction

/-!
# Aggregators that are changed before they are read

An aggregator of the first version is changed on its value or, until it is read, on a delta with
the extreme deltas on the way.  Reading it applies the delta to the stored value.

* `AggregatorV1.lazy_eager`: both ways give the same value or fail.
-/

namespace CreditChain

inductive AggregatorState where
  | data
  | positiveDelta
  | negativeDelta
  deriving DecidableEq

/-- `Aggregator` of `aggregator_v1_extension`. -/
structure AggregatorV1 where
  value : Nat
  state : AggregatorState
  maxValue : Nat
  history : Option DeltaHistory

inductive AggregatorV1Error where
  | aborted (message : String) (code : Nat)
  | extension (message : String)
  | failed (e : PanicOr DelayedFieldsSpeculativeError)

def additionV1Error {ε : Type} (_ : ε) : AggregatorV1Error := .aborted "overflow" 0x020001

def subtractionV1Error {ε : Type} (_ : ε) : AggregatorV1Error := .aborted "underflow" 0x020002

/-- The error for a history that is not valid. -/
def historyError : PanicOr DelayedFieldsSpeculativeError → AggregatorV1Error
  | .or (.deltaApplication _ _ _ .overflow) => additionV1Error ()
  | .or (.deltaApplication _ _ _ .underflow) => subtractionV1Error ()
  | e => .failed e

namespace AggregatorV1

/-- The new aggregator of `get_aggregator`. -/
def unknown (maxValue : Nat) : AggregatorV1 := ⟨0, .positiveDelta, maxValue, some .new⟩

variable (self : AggregatorV1) (value : Nat)

def record : Except AggregatorV1Error AggregatorV1 :=
  match self.history, self.state with
  | none, _ => .ok self
  | some history, .positiveDelta =>
    .ok { self with history := history.recordSuccess (.positive self.value) }
  | some history, .negativeDelta =>
    .ok { self with history := history.recordSuccess (.negative self.value) }
  | some _, .data => .error (.failed .panicked)

def validateHistory (baseValue : Nat) : Except AggregatorV1Error Unit :=
  match self.history with
  | none => .error (.failed .panicked)
  | some history =>
    (history.validateAgainstBaseValue baseValue self.maxValue).mapError historyError

def add : Except AggregatorV1Error AggregatorV1 :=
  let math : BoundedMath := ⟨self.maxValue⟩
  match self.state with
  | .data => do
      let value ← (math.unsignedAdd self.value value).mapError additionV1Error
      return { self with value }
  | .positiveDelta => do
      let value ← (math.unsignedAdd self.value value).mapError additionV1Error
      { self with value }.record
  | .negativeDelta =>
    if self.value ≤ value then do
      let value ← (expectOk (math.unsignedSubtract value self.value)).mapError .failed
      { self with value, state := .positiveDelta }.record
    else do
      let value ← (expectOk (math.unsignedSubtract self.value value)).mapError .failed
      { self with value }.record

def sub : Except AggregatorV1Error AggregatorV1 :=
  let math : BoundedMath := ⟨self.maxValue⟩
  match self.state with
  | .data => do
      let value ← (math.unsignedSubtract self.value value).mapError subtractionV1Error
      return { self with value }
  | .positiveDelta =>
    if self.value ≥ value then do
      let value ← (math.unsignedSubtract self.value value).mapError subtractionV1Error
      { self with value }.record
    else do
      let _ ← (math.unsignedSubtract self.maxValue value).mapError subtractionV1Error
      let value ← (math.unsignedSubtract value self.value).mapError subtractionV1Error
      { self with value, state := .negativeDelta }.record
  | .negativeDelta => do
      let value ← (math.unsignedAdd self.value value).mapError subtractionV1Error
      { self with value }.record

/-- The value, and the aggregator that knows it; `stored` is the value of the storage. -/
def readAndMaterialize (stored : Option Nat) : Except AggregatorV1Error (Nat × AggregatorV1) :=
  if self.state = .data then .ok (self.value, self)
  else
    match stored with
    | none => .error (.extension "Could not read from deleted aggregator")
    | some valueFromStorage => do
        self.validateHistory valueFromStorage
        let math : BoundedMath := ⟨self.maxValue⟩
        let value ← (match self.state with
          | .positiveDelta => math.unsignedAdd valueFromStorage self.value
          | .negativeDelta => math.unsignedSubtract valueFromStorage self.value
          | .data => .error .overflow).mapError fun _ => .failed .panicked
        return (value, { self with value, state := .data, history := none })

/-- A call, as the change it asks for. -/
def call : SignedU128 → Except AggregatorV1Error AggregatorV1
  | .positive value => self.add value
  | .negative value => self.sub value

def run (calls : List SignedU128) : Except AggregatorV1Error AggregatorV1 :=
  calls.foldlM call self

/-! ## One call -/

/-- An aggregator that knows its value. -/
def known (L v : Nat) : AggregatorV1 := ⟨v, .data, L, none⟩

/-- An aggregator that knows a delta. -/
def delayed (L : Nat) (history : DeltaHistory) : SignedU128 → AggregatorV1
  | .positive value => ⟨value, .positiveDelta, L, some history⟩
  | .negative value => ⟨value, .negativeDelta, L, some history⟩

open BoundedMath SignedU128 DeltaHistory
open CreditChain.Except (bind_eq_ok mapError_eq_ok ok_bind)

variable {self} {L v b : Nat} {history : DeltaHistory} {d c : SignedU128}

theorem call_known (le : v ≤ L) : (known L v).call c = .ok self ↔
    ∃ w : Nat, self = known L w ∧ w ≤ L ∧ (w : Int) = v + c.toInt := by
  cases c with
  | positive value | negative value =>
    simp only [call, add, sub, known, bind_eq_ok, mapError_eq_ok, unsignedAdd_eq,
      unsignedSubtract_eq, toInt]
    constructor
    · rintro ⟨w, done, ⟨⟩⟩
      exact ⟨w, rfl, by grind⟩
    · rintro ⟨w, rfl, within⟩
      exact ⟨w, by grind, rfl⟩

/-- What a call does to a delta: it moves and is recorded, or no value can be changed so. -/
inductive Moved (L : Nat) (history : DeltaHistory) (d c : SignedU128) :
    Except AggregatorV1Error AggregatorV1 → Prop
  | ok (d' : SignedU128) : d'.toInt = d.toInt + c.toInt →
      Moved L history d c (.ok (delayed L (history.recordSuccess d') d'))
  | error (e : AggregatorV1Error) : (∀ b v w : Nat, b ≤ L → v ≤ L → (v : Int) = b + d.toInt →
      w ≤ L → (w : Int) ≠ v + c.toInt) → Moved L history d c (.error e)

theorem call_moved (L : Nat) (history : DeltaHistory) (d c : SignedU128) :
    Moved L history d c ((delayed L history d).call c) := by
  cases c with
  | positive value =>
    cases d with
    | positive x =>
      simp only [call, add, delayed, unsignedAdd_eq]
      split
      · exact .ok (.positive (x + value)) (by simp)
      · exact .error _ (by simp; omega)
    | negative x =>
      simp only [call, add, delayed, unsignedSubtract_eq]
      split
      · exact .ok (.positive (value - x)) (by simp; omega)
      · rw [if_pos (by omega)]
        exact .ok (.negative (x - value)) (by simp; omega)
  | negative value =>
    cases d with
    | positive x =>
      simp only [call, sub, delayed, unsignedSubtract_eq]
      split
      · exact .ok (.positive (x - value)) (by simp; omega)
      split
      · rw [if_pos (by omega)]
        exact .ok (.negative (value - x)) (by simp; omega)
      · exact .error _ (by simp; omega)
    | negative x =>
      simp only [call, sub, delayed, unsignedAdd_eq]
      split
      · exact .ok (.negative (x + value)) (by simp; omega)
      · exact .error _ (by simp; omega)

theorem recordSuccess_admits : (history.recordSuccess d).Admits L b ↔
    history.Admits L b ∧ 0 ≤ b + d.toInt ∧ b + d.toInt ≤ L := by
  simp only [admits_iff]
  cases d with
  | positive x | negative x => grind [recordSuccess, toInt]

theorem read_delayed : (delayed L history d).readAndMaterialize (some b) = .ok (v, self) ↔
    self = known L v ∧ DeltaOp.applyTo ⟨history, L, d⟩ b = .ok v := by
  have stages : (delayed L history d).readAndMaterialize (some b) = (do
      let _ ← (history.validateAgainstBaseValue b L).mapError historyError
      let value ← (unsignedAddDelta ⟨L⟩ b d).mapError fun _ => .failed .panicked
      return (value, known L value)) := by
    cases d with
    | positive x | negative x => rfl
  simp only [stages, DeltaOp.applyTo, bind_eq_ok, mapError_eq_ok, expectOk_eq_ok]
  constructor
  · rintro ⟨_, valid, _, shifted, ⟨⟩⟩
    exact ⟨rfl, (), valid, shifted⟩
  · rintro ⟨rfl, _, valid, shifted⟩
    exact ⟨(), valid, v, shifted, rfl⟩

/-! ## Calls one after the other -/

/-- A delta without failures that does to every value what the calls do. -/
structure Follows (L : Nat) (calls : List SignedU128) (history : DeltaHistory) (d : SignedU128) :
    Prop where
  wellFormed : DeltaOp.WellFormed ⟨history, L, d⟩
  unfailed : history.minOverflowPositiveDelta = none ∧ history.maxUnderflowNegativeDelta = none
  effect : ∀ b ≤ L, ∀ self, (known L b).run calls = .ok self ↔
    ∃ v, self = known L v ∧ DeltaOp.applyTo ⟨history, L, d⟩ b = .ok v

theorem run_concat (calls : List SignedU128) :
    self.run (calls ++ [c]) = self.run calls >>= (·.call c) := by
  simp [run, List.foldlM_append]

theorem Follows.concat {calls : List SignedU128} {d' : SignedU128}
    (follows : Follows L calls history d) (sum : d'.toInt = d.toInt + c.toInt) :
    Follows L (calls ++ [c]) (history.recordSuccess d') d' := by
  obtain ⟨wellFormed, ⟨unlimited, unbounded⟩, effect⟩ := follows
  have wellFormed' : DeltaOp.WellFormed ⟨history.recordSuccess d', L, d'⟩ := by
    cases d' with
    | positive x | negative x =>
      exact ⟨⟨by simp [recordSuccess, unlimited], by simp [recordSuccess, unbounded]⟩,
        by simp [recordSuccess], by simp [recordSuccess]⟩
  refine ⟨wellFormed', ?_, fun b le self => ?_⟩
  · cases d' with
    | positive x | negative x => exact ⟨unlimited, unbounded⟩
  simp only [run_concat, bind_eq_ok, effect b le, DeltaOp.applyTo_eq_ok wellFormed,
    DeltaOp.applyTo_eq_ok wellFormed', recordSuccess_admits]
  constructor
  · rintro ⟨_, ⟨v, rfl, sum', within, admits⟩, done⟩
    obtain ⟨w, rfl, within', sum''⟩ := (call_known within).mp done
    exact ⟨w, rfl, by omega, within', admits, by omega, by omega⟩
  · rintro ⟨w, rfl, sum', within', admits, -, -⟩
    rcases DeltaOp.applyTo_spec wellFormed b with ⟨v, -, sum'', within, -⟩ | ⟨-, refused⟩
    · exact ⟨_, ⟨v, rfl, sum'', within, admits⟩,
        (call_known within).mpr ⟨w, rfl, within', by dsimp only at sum''; omega⟩⟩
    · exact absurd admits refused

theorem run_follows (L : Nat) (calls : List SignedU128) : match (unknown L).run calls with
    | .ok self => ∃ history d, self = delayed L history d ∧ Follows L calls history d
    | .error _ => ∀ b ≤ L, ∀ self, (known L b).run calls ≠ .ok self := by
  induction calls using List.reverseRecOn with
  | nil =>
    have wellFormed : DeltaOp.WellFormed ⟨.new, L, .positive 0⟩ := ⟨⟨nofun, nofun⟩, le_rfl, le_rfl⟩
    refine ⟨.new, .positive 0, rfl, wellFormed, ⟨rfl, rfl⟩, fun b le self => ?_⟩
    simp only [DeltaOp.applyTo_eq_ok wellFormed]
    constructor
    · rintro ⟨⟩
      exact ⟨b, rfl, by simp, le, le, Nat.zero_le _, Nat.zero_le _, nofun, nofun⟩
    · rintro ⟨v, rfl, sum, -⟩
      obtain rfl : v = b := Int.natCast_inj.mp (by simpa using sum)
      rfl
  | append_singleton calls c ih =>
    simp only [run_concat]
    generalize (unknown L).run calls = outcome at ih
    cases outcome with
    | error e =>
      intro b le self done
      obtain ⟨before, first, -⟩ := of_bind done
      exact ih b le before first
    | ok self =>
      obtain ⟨history, d, rfl, follows⟩ := ih
      have moved := call_moved L history d c
      rw [ok_bind]
      generalize (delayed L history d).call c = outcome at moved
      cases moved with
      | ok d' sum => exact ⟨_, d', rfl, follows.concat sum⟩
      | error e impossible =>
        intro b le self done
        obtain ⟨before, first, second⟩ := of_bind done
        obtain ⟨v, rfl, applied⟩ := (follows.effect b le before).mp first
        obtain ⟨sum, within, -⟩ := (DeltaOp.applyTo_eq_ok follows.wellFormed).mp applied
        obtain ⟨w, -, within', sum'⟩ := (call_known within).mp second
        exact impossible b v w le within sum within' sum'

/-- To run calls on a delta and then read a stored value is to run them on the value, and a call
on a delta fails only where it fails on every value. -/
theorem lazy_eager (L : Nat) (calls : List SignedU128) :
    (∀ b ≤ L, ∀ value self,
      ((unknown L).run calls >>= (readAndMaterialize · (some b))) = .ok (value, self) ↔
        value = self.value ∧ (known L b).run calls = .ok self) ∧
    ∀ self c e, (unknown L).run calls = .ok self → self.call c = .error e →
      ∀ b ≤ L, ∀ self, (known L b).run (calls ++ [c]) ≠ .ok self := by
  refine ⟨fun b le value self => ?_, fun self c e done failed => ?_⟩
  · have follows := run_follows L calls
    generalize (unknown L).run calls = outcome at follows
    cases outcome with
    | error e => exact ⟨nofun, fun both => absurd both.2 (follows b le self)⟩
    | ok delta =>
      obtain ⟨history, d, rfl, follows⟩ := follows
      rw [ok_bind, read_delayed, follows.effect b le]
      constructor
      · rintro ⟨rfl, applied⟩
        exact ⟨rfl, value, rfl, applied⟩
      · rintro ⟨rfl, v, rfl, applied⟩
        exact ⟨rfl, applied⟩
  · have follows := run_follows L (calls ++ [c])
    rw [run_concat, done, ok_bind, failed] at follows
    exact follows

end AggregatorV1

end CreditChain
