import Mathlib.Algebra.Order.Ring.Nat

/-!
# Books of what is held

A state records how much there is of each kind, and holds some of it.  The rest is outside, in the
hands of those who call.  A step takes some amounts from outside and gives others; it keeps the
books if what it records changes as much as what it holds and gives.
-/

namespace CreditChain

/-- What a state records of each kind, what it holds, and which states are valid.  Where nothing is
recorded, there is nothing to balance. -/
structure Books (σ K : Type) where
  recorded : σ → K → Option Nat
  held : σ → K → Nat
  valid : σ → Prop

namespace Books

/-- An amount of one kind. -/
def only {K : Type} [DecidableEq K] (k : K) (amount : Nat) : K → Nat :=
  fun other => if other = k then amount else 0

@[simp] theorem only_zero {K : Type} [DecidableEq K] (k : K) : only k 0 = 0 := by
  funext other
  exact ite_self 0

theorem only_add {K : Type} [DecidableEq K] (k : K) (a b : Nat) :
    only k (a + b) = only k a + only k b := by
  funext other
  rw [Pi.add_apply, only, only, only]
  split
  · rfl
  · rfl

variable {σ K : Type} {B : Books σ K} {s s' s'' : σ} {ins outs ins' outs' between : K → Nat}

/-- A step that takes `ins` and gives `outs`. -/
def Flow (B : Books σ K) (s s' : σ) (ins outs : K → Nat) : Prop :=
  B.valid s → B.valid s' ∧ ∀ k recorded', B.recorded s' k = some recorded' →
    ∃ recorded, B.recorded s k = some recorded ∧
      recorded' + B.held s k + ins k = recorded + B.held s' k + outs k

namespace Flow

/-- An amount that passes by. -/
theorem pass (s : σ) (amounts : K → Nat) : B.Flow s s amounts amounts :=
  fun valid => ⟨valid, fun _ recorded found => ⟨recorded, found, rfl⟩⟩

theorem refl (s : σ) : B.Flow s s 0 0 := pass s 0

theorem compose {ins'' outs'' : K → Nat} (first : B.Flow s s' ins outs)
    (second : B.Flow s' s'' ins' outs')
    (moved : ∀ k, ins'' k + outs k + outs' k = outs'' k + ins k + ins' k) :
    B.Flow s s'' ins'' outs'' := by
  intro valid
  obtain ⟨valid', one⟩ := first valid
  obtain ⟨valid'', two⟩ := second valid'
  refine ⟨valid'', fun k recorded'' found'' => ?_⟩
  obtain ⟨recorded', found', second⟩ := two k recorded'' found''
  obtain ⟨recorded, found, first⟩ := one k recorded' found'
  have amounts := moved k
  exact ⟨recorded, found, by omega⟩

/-- Steps one after the other. -/
theorem trans (first : B.Flow s s' ins outs) (second : B.Flow s' s'' ins' outs') :
    B.Flow s s'' (ins + ins') (outs + outs') := by
  refine first.compose second fun k => ?_
  rw [Pi.add_apply, Pi.add_apply]
  omega

/-- The second step takes what the first one gives. -/
theorem through (first : B.Flow s s' ins between) (second : B.Flow s' s'' between outs) :
    B.Flow s s'' ins outs :=
  first.compose second fun _ => by omega

/-- A step that moves nothing, and one that does. -/
theorem after (first : B.Flow s s' 0 0) (second : B.Flow s' s'' ins outs) :
    B.Flow s s'' ins outs := by
  have both := first.trans second
  rwa [zero_add, zero_add] at both

theorem before (first : B.Flow s s' ins outs) (second : B.Flow s' s'' 0 0) :
    B.Flow s s'' ins outs := by
  have both := first.trans second
  rwa [add_zero] at both

theorem beside (flow : B.Flow s s' 0 outs) (amounts : K → Nat) :
    B.Flow s s' amounts (amounts + outs) := by
  have both := (Flow.pass s amounts).trans flow
  rwa [add_zero] at both

end Flow

/-- What is recorded is held or outside. -/
def Balanced (B : Books σ K) (s : σ) (outside : K → Nat) : Prop :=
  B.valid s ∧ ∀ k recorded, B.recorded s k = some recorded → recorded = B.held s k + outside k

/-- A step keeps the books. -/
theorem Balanced.flow {outside outside' : K → Nat} (balanced : B.Balanced s outside)
    (flow : B.Flow s s' ins outs) (moved : ∀ k, outside' k + ins k = outside k + outs k) :
    B.Balanced s' outside' := by
  obtain ⟨valid, balance⟩ := balanced
  obtain ⟨valid', step⟩ := flow valid
  refine ⟨valid', fun k recorded' found' => ?_⟩
  obtain ⟨recorded, found, change⟩ := step k recorded' found'
  have before := balance k recorded found
  have hands := moved k
  omega

end Books

end CreditChain
