import Mathlib.Data.List.Basic
import Mathlib.Order.Defs.PartialOrder

/-!
# Traces of a system that answers requests

A system answers each request with a response and moves to a new state.  `trace` lists
the events of a run, each with the states around it.  The rules turn what one request
does into what holds between any earlier and any later event of a run.
-/

namespace CreditChain.Trace

variable {σ ι ο : Type}

/-- One request, its response, and the states around it. -/
structure Event (σ ι ο : Type) where
  before : σ
  request : ι
  response : ο
  after : σ

variable (step : ι → σ → ο × σ)

/-- The events of a run. -/
def trace : List ι → σ → List (Event σ ι ο)
  | [], _ => []
  | request :: requests, s =>
    ⟨s, request, (step request s).1, (step request s).2⟩ :: trace requests (step request s).2

/-- The state at the end of a run. -/
def final : List ι → σ → σ
  | [], s => s
  | request :: requests, s => final requests (step request s).2

@[simp] theorem trace_append (first second : List ι) (s : σ) :
    trace step (first ++ second) s =
      trace step first s ++ trace step second (final step first s) := by
  induction first generalizing s with
  | nil => rfl
  | cons request requests ih =>
    rw [List.cons_append, trace, trace, final, ih, List.cons_append]

@[simp] theorem final_append (first second : List ι) (s : σ) :
    final step (first ++ second) s = final step second (final step first s) := by
  induction first generalizing s with
  | nil => rfl
  | cons request requests ih => rw [List.cons_append, final, final, ih]

/-- `event` is what the system does at its request. -/
def Event.Of (event : Event σ ι ο) : Prop :=
  step event.request event.before = (event.response, event.after)

variable {step} {I : σ → Prop} {R : σ → σ → Prop} {requests : List ι} {s : σ}

/-- Every event of a run is a step of the system from a state that satisfies an
invariant. -/
theorem trace_forall (preserved : ∀ request s, I s → I (step request s).2) (start : I s) :
    ∀ event ∈ trace step requests s, event.Of step ∧ I event.before := by
  induction requests generalizing s with
  | nil =>
    intro event mem
    cases mem
  | cons request requests ih =>
    intro event mem
    rcases List.mem_cons.mp mem with rfl | later
    · exact ⟨rfl, start⟩
    · exact ih (preserved request s start) event later

variable (refl : ∀ s, R s s) (trans : ∀ {a b c}, R a b → R b c → R a c)
  (preserved : ∀ request s, I s → I (step request s).2)
  (respects : ∀ request s, I s → R s (step request s).2)

include refl trans preserved respects

/-- What every request respects holds from the start of a run to each of its events. -/
theorem trace_reaches (start : I s) : ∀ event ∈ trace step requests s, R s event.before := by
  intro event mem
  refine (trace_forall (I := fun now => I now ∧ R s now) ?_ ⟨start, refl s⟩ event mem).2.2
  intro request now holds
  exact ⟨preserved request now holds.1, trans holds.2 (respects request now holds.1)⟩

/-- What every request respects holds from any event to any later one. -/
theorem trace_pairwise (start : I s) :
    (trace step requests s).Pairwise fun earlier later => R earlier.after later.before := by
  induction requests generalizing s with
  | nil => exact .nil
  | cons request requests ih =>
    have next := preserved request s start
    exact .cons (trace_reaches refl trans preserved respects next) (ih next)

end CreditChain.Trace
