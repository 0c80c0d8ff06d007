import Mathlib.Tactic.TypeStar

/-!
# Runs of a partial step function

A step may refuse an input, and the inputs of a run may have to meet a condition on the
input and on the state in front of it.
-/

namespace CreditChain.Run

open List

variable {σ : Type} {ι : Type*}

/-- The states reached from a starting state by allowed inputs. -/
inductive Reaches (step : ι → σ → Option σ) (allowed : σ → ι → Prop) (start : σ → Prop) :
    σ → Prop
  | start {s : σ} : start s → Reaches step allowed start s
  | step {s s' : σ} {input : ι} : Reaches step allowed start s → allowed s input →
      step input s = some s' → Reaches step allowed start s'

variable {step : ι → σ → Option σ} {allowed : σ → ι → Prop} {start : σ → Prop} {s : σ}

/-- What the starting states have and every allowed step keeps, every reached state has. -/
theorem Reaches.invariant {I : σ → Prop} (initial : ∀ s, start s → I s)
    (preserved : ∀ s input s', I s → allowed s input → step input s = some s' → I s')
    (reached : Reaches step allowed start s) : I s := by
  induction reached with
  | start isStart => exact initial _ isStart
  | step _ ok done ih => exact preserved _ _ _ ih ok done

theorem Reaches.mono {allowed' : σ → ι → Prop}
    (weaker : ∀ s input, allowed s input → allowed' s input)
    (reached : Reaches step allowed start s) : Reaches step allowed' start s := by
  induction reached with
  | start isStart => exact .start isStart
  | step _ ok done ih => exact ih.step (weaker _ _ ok) done

/-- The inputs are allowed one after the other, and lead to the last state. -/
def Follows (step : ι → σ → Option σ) (allowed : σ → ι → Prop) : List ι → σ → σ → Prop
  | [], s, s' => s = s'
  | input :: inputs, s, s' =>
    allowed s input ∧ ∃ next, step input s = some next ∧ Follows step allowed inputs next s'

/-- A list of inputs that are allowed one after the other is a run. -/
theorem Reaches.of_inputs {s' : σ} (reached : Reaches step allowed start s) (inputs : List ι)
    (follows : Follows step allowed inputs s s') : Reaches step allowed start s' := by
  induction inputs generalizing s with
  | nil =>
    cases follows
    exact reached
  | cons input inputs ih =>
    obtain ⟨ok, next, done, rest⟩ := follows
    exact ih (reached.step ok done) rest

/-- A list of inputs that pass a check, and that none refuses, is a run. -/
theorem Reaches.of_checked (check : σ → ι → Bool)
    (enough : ∀ s input, check s input = true → allowed s input) {s' : σ}
    (reached : Reaches step allowed start s) {inputs : List ι}
    (done : inputs.foldlM (fun s input => if check s input then step input s else none) s =
      some s') : Reaches step allowed start s' := by
  induction inputs generalizing s with
  | nil =>
    cases done
    exact reached
  | cons input inputs ih =>
    obtain ⟨next, first, rest⟩ := Option.bind_eq_some_iff.mp done
    obtain ⟨checked, first⟩ := Option.ite_none_right_eq_some.mp first
    exact ih (reached.step (enough s input checked) first) rest

/-- Where every input is allowed, a list of inputs that none refuses is a run. -/
theorem Reaches.of_foldlM (all : ∀ s input, allowed s input) {s' : σ}
    (reached : Reaches step allowed start s) {inputs : List ι}
    (done : inputs.foldlM (fun s input => step input s) s = some s') :
    Reaches step allowed start s' :=
  reached.of_checked (fun _ _ => true) (fun s input _ => all s input) done

/-- A fold of which no round fails: every round keeps the invariant. -/
theorem foldlM_keeps {α : Type} {feed : σ → α → Option σ} {I : σ → Prop} {items : List α}
    (each : ∀ s, I s → ∀ a ∈ items, ∃ s', feed s a = some s' ∧ I s') (holds : I s) :
    ∃ s', items.foldlM feed s = some s' ∧ I s' := by
  induction items generalizing s with
  | nil => exact ⟨s, rfl, holds⟩
  | cons a items ih =>
    obtain ⟨next, fed, kept⟩ := each s holds a mem_cons_self
    obtain ⟨last, rest, keptLast⟩ :=
      ih (fun s holds a mem => each s holds a (mem_cons_of_mem _ mem)) kept
    refine ⟨last, ?_, keptLast⟩
    rw [foldlM_cons, fed]
    exact rest

/-- What every batch does to the state of all items before it, a run of batches does to the state of
none. -/
theorem foldlM_batches {m : Type → Type} [Monad m] [LawfulMonad m] {α : Type} {bound : Nat}
    {feed : σ → List α → m σ} {stateOf : List α → σ} {fits : List α → Prop}
    (each : ∀ items batch, (items ++ batch).length < bound → fits batch →
      feed (stateOf items) batch = pure (stateOf (items ++ batch)))
    {batches : List (List α)} (small : batches.flatten.length < bound)
    (fit : ∀ batch ∈ batches, fits batch) :
    batches.foldlM feed (stateOf []) = pure (stateOf batches.flatten) := by
  have steps : ∀ items : List α, (items ++ batches.flatten).length < bound →
      batches.foldlM feed (stateOf items) = pure (stateOf (items ++ batches.flatten)) := by
    clear small
    induction batches with
    | nil =>
      intro items _
      rw [flatten_nil, append_nil, foldlM_nil]
    | cons batch batches ih =>
      intro items small
      rw [flatten_cons, ← append_assoc] at small ⊢
      have first : (items ++ batch).length < bound := by
        rw [length_append] at small
        omega
      rw [foldlM_cons, each items batch first (fit batch mem_cons_self), pure_bind]
      exact ih (fun other mem => fit other (mem_cons_of_mem _ mem)) _ small
  exact steps [] small

end CreditChain.Run
