import CreditChain.Lib.Action
import CreditChain.Lib.Word64

/-!
# Arithmetic that aborts

Unsigned integers are natural numbers up to the largest value of their type.  A result
outside the type aborts, and an assertion that fails aborts with its code.
-/

namespace CreditChain

/-- Why a call aborts: an assertion, an operation outside its type, a value that is borrowed
where there is none, or one that is moved to where there is one. -/
inductive Abort where
  | code (number : Nat)
  | arithmetic
  | missing
  | occupied
  deriving DecidableEq

namespace Abort

-- the code of an error: its category and its reason
def canonical (category reason : Nat) : Abort := .code (category <<< 16 + reason)

variable (reason : Nat)

def invalidArgument : Abort := canonical 0x1 reason

def outOfRange : Abort := canonical 0x2 reason

def invalidState : Abort := canonical 0x3 reason

def unauthenticated : Abort := canonical 0x4 reason

def permissionDenied : Abort := canonical 0x5 reason

def notFound : Abort := canonical 0x6 reason

def alreadyExists : Abort := canonical 0x8 reason

def internal : Abort := canonical 0xb reason

end Abort

/-- The outcome of a call. -/
abbrev Checked (α : Type) := Except Abort α

/-- The largest value of a `u128`. -/
def u128Max : Nat := 2 ^ 128 - 1

namespace Checked

/-- `n` as a value of the type with largest value `max`. -/
def cast (max n : Nat) : Checked Nat := if n ≤ max then .ok n else .error .arithmetic

def add (max a b : Nat) : Checked Nat := cast max (a + b)

def mul (max a b : Nat) : Checked Nat := cast max (a * b)

def sub (a b : Nat) : Checked Nat := if b ≤ a then .ok (a - b) else .error .arithmetic

def div (a b : Nat) : Checked Nat := if b = 0 then .error .arithmetic else .ok (a / b)

/-- Borrow a value that must be there. -/
def borrow {α : Type} : Option α → Checked α
  | some a => .ok a
  | none => .error .missing

/-- A value that must be there, or else an abort of the library that looks for it. -/
def orAbort {α : Type} (x : Option α) (reason : Abort) : Checked α :=
  match x with
  | some a => .ok a
  | none => .error reason

/-- Move a value to where there must be none. -/
def moveTo {K α : Type} [DecidableEq K] (storage : K → Option α) (k : K) (a : α) :
    Checked (K → Option α) :=
  if (storage k).isSome then .error .occupied else .ok (Function.update storage k (some a))

/-- The state after a call, if it does not abort. -/
def committed {α : Type} (outcome : Checked α) : Option α := outcome.toOption

variable {max a b c n : Nat}

@[simp] theorem cast_eq_ok : cast max n = .ok a ↔ n ≤ max ∧ n = a := by
  unfold cast
  by_cases fits : n ≤ max
  · simp [fits]
  · simp [fits]

@[simp] theorem add_eq_ok : add max a b = .ok c ↔ a + b ≤ max ∧ a + b = c := cast_eq_ok

@[simp] theorem mul_eq_ok : mul max a b = .ok c ↔ a * b ≤ max ∧ a * b = c := cast_eq_ok

@[simp] theorem sub_eq_ok : sub a b = .ok c ↔ b ≤ a ∧ a - b = c := by
  unfold sub
  by_cases enough : b ≤ a
  · simp [enough]
  · simp [enough]

@[simp] theorem div_eq_ok : div a b = .ok c ↔ b ≠ 0 ∧ a / b = c := by
  unfold div
  by_cases zero : b = 0
  · simp [zero]
  · simp [zero]

variable {α : Type} {a : α}

@[simp] theorem borrow_eq_ok {x : Option α} : borrow x = .ok a ↔ x = some a := by
  cases x with
  | none | some b => simp [borrow]

@[simp] theorem orAbort_eq_ok {x : Option α} {reason : Abort} :
    orAbort x reason = .ok a ↔ x = some a := by
  cases x with
  | none | some b => simp [orAbort]

@[simp] theorem moveTo_eq_ok {K : Type} [DecidableEq K] {storage storage' : K → Option α} {k : K} :
    moveTo storage k a = .ok storage' ↔
      storage k = none ∧ Function.update storage k (some a) = storage' := by
  unfold moveTo
  cases storage k with
  | none | some b => simp

theorem committed_eq_some {outcome : Checked α} : committed outcome = some a ↔ outcome = .ok a := by
  cases outcome with
  | error e | ok b => simp [committed, Except.toOption]

end Checked

end CreditChain
