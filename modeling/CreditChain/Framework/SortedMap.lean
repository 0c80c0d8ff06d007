import CreditChain.Lib.Checked
import CreditChain.Lib.OrderedMap

/-!
# What users of `BigOrderedMap` see

The trading modules keep their data in `BigOrderedMap`s.  To them such a map is a finite map
sorted by key whose operations abort on a missing or duplicate key.

This is an idealisation: the B+ tree of the source, and its aborts on keys and values above
the size of a node, are not modelled.  The results on the order book and on the market assume
that the tree behaves as the map here.
-/

namespace CreditChain

/-- A `BigOrderedMap`, as its users see it. -/
abbrev BigMap (K V : Type) [LinearOrder K] := OrderedMap K V

namespace BigMap

def eKeyAlreadyExists : Nat := 1

def eKeyNotFound : Nat := 2

def eIterOutOfBounds : Nat := 3

section Operations

variable {K V : Type} [LinearOrder K] (m : BigMap K V)

def add (k : K) (v : V) : Checked (BigMap K V) :=
  if m.contains k then .error (.invalidArgument eKeyAlreadyExists) else .ok (m.insert k v)

def remove (k : K) : Checked (V × BigMap K V) :=
  match m.find? k with
  | some v => .ok (v, m.erase k)
  | none => .error (.invalidArgument eKeyNotFound)

def borrow (k : K) : Checked V :=
  match m.find? k with
  | some v => .ok v
  | none => .error (.invalidArgument eKeyNotFound)

/-- `borrow_front`: the entry with the least key. -/
def borrowFront : Checked (K × V) :=
  match m.front? with
  | some entry => .ok entry
  | none => .error (.invalidArgument eIterOutOfBounds)

/-- `borrow_back`: the entry with the greatest key. -/
def borrowBack : Checked (K × V) :=
  match m.back? with
  | some entry => .ok entry
  | none => .error (.invalidArgument eIterOutOfBounds)

variable {m m' : BigMap K V} {k : K} {v : V}

theorem add_eq_ok : add m k v = .ok m' ↔ m.find? k = none ∧ m' = m.insert k v := by
  unfold add
  cases there : m.contains k with
  | true =>
    obtain ⟨w, found⟩ := OrderedMap.contains_iff.mp there
    simp [found]
  | false => simp [OrderedMap.contains_eq_false.mp there, eq_comm]

theorem remove_eq_ok : remove m k = .ok (v, m') ↔ m.find? k = some v ∧ m' = m.erase k := by
  unfold remove
  cases m.find? k with
  | none => simp
  | some w => simp [eq_comm]

theorem borrow_eq_ok : borrow m k = .ok v ↔ m.find? k = some v := by
  unfold borrow
  cases m.find? k with
  | none | some w => simp

theorem borrowFront_eq_ok : borrowFront m = .ok (k, v) ↔ m.front? = some (k, v) := by
  unfold borrowFront
  cases m.front? with
  | none | some entry => simp

theorem borrowBack_eq_ok : borrowBack m = .ok (k, v) ↔ m.back? = some (k, v) := by
  unfold borrowBack
  cases m.back? with
  | none | some entry => simp

end Operations

end BigMap

end CreditChain
