import Mathlib.Tactic.Basic

/-!
# Computations that may fail and keep their state

`Action σ ε α` reads and writes a state of type `σ` and either returns an `α` or fails
with an `ε`.  The state survives a failure: an operation that fails after a write has
still written.  This is the shape of a method on `&mut self` that returns a `Result`.

`Action.Ensures m s Q` says that running `m` from `s` ends in an outcome and a state
that satisfy `Q`.  The rules below reduce a composite to its parts, so that a proof
follows the text of the operation; `of_bind`, `of_check` and `of_return` do the same for pure
checks.
-/

namespace CreditChain

open List

variable {ε α β : Type} {x : Except ε α} {f : α → Except ε β} {b : β}

/-- A sequence of checks succeeds when each of them does. -/
theorem Except.bind_eq_ok : (x >>= f) = .ok b ↔ ∃ a, x = .ok a ∧ f a = .ok b := by
  cases x with
  | error e =>
    constructor
    · intro impossible
      cases impossible
    · intro impossible
      obtain ⟨a, left, -⟩ := impossible
      cases left
  | ok a =>
    constructor
    · intro found
      exact ⟨a, rfl, found⟩
    · intro found
      obtain ⟨a', left, right⟩ := found
      cases left
      exact right

theorem of_bind (ok : (x >>= f) = .ok b) : ∃ a, x = .ok a ∧ f a = .ok b :=
  Except.bind_eq_ok.mp ok

/-- What follows a check that has passed. -/
theorem of_check {x : Except ε Unit} {f : Unit → Except ε β} (ok : (x >>= f) = .ok b) :
    f () = .ok b := by
  obtain ⟨_, -, rest⟩ := of_bind ok
  exact rest

variable {f : α → β}

/-- A last step and the result that is made of what it finds. -/
theorem of_return (ok : (x >>= fun a => pure (f a)) = .ok b) : ∃ a, x = .ok a ∧ f a = b := by
  obtain ⟨a, found, same⟩ := of_bind ok
  exact ⟨a, found, Except.ok.inj same⟩

theorem forall_mem_concat {P : α → Prop} {done : List α} {a : α} (before : ∀ b ∈ done, P b)
    (last : P a) : ∀ b ∈ done ++ [a], P b := by
  intro b mem
  rcases List.mem_append.mp mem with old | new
  · exact before b old
  · rw [List.mem_singleton.mp new]
    exact last

/-- What every round of a loop does to the state and what can be composed, the loop does. -/
theorem Except.foldlM_relates {f : β → α → Except ε β} {R : β → β → Prop} (refl : ∀ b, R b b)
    (trans : ∀ {a b c}, R a b → R b c → R a c) (each : ∀ {b a b'}, f b a = .ok b' → R b b')
    {items : List α} {b' : β} (ok : items.foldlM f b = .ok b') : R b b' := by
  induction items generalizing b with
  | nil =>
    cases ok
    exact refl _
  | cons item items ih =>
    obtain ⟨next, first, rest⟩ := of_bind ok
    exact trans (each first) (ih rest)

theorem Except.map_eq_ok : x.map f = .ok b ↔ ∃ a, x = .ok a ∧ f a = b := by
  cases x with
  | error e | ok a => simp [Except.map]

theorem Except.map_ne_ok (apart : ∀ a, f a ≠ b) : x.map f ≠ .ok b := by
  intro same
  obtain ⟨a, -, here⟩ := map_eq_ok.mp same
  exact apart a here

theorem Except.mapError_eq_ok {δ : Type} {f : ε → δ} {a : α} :
    x.mapError f = .ok a ↔ x = .ok a := by
  cases x with
  | error e | ok a => constructor <;> intro same <;> cases same <;> rfl

/-- Fail with `e` unless `p` holds. -/
def ensure {ε : Type} (p : Prop) [Decidable p] (e : ε) : Except ε Unit :=
  if p then .ok () else .error e

@[simp] theorem ensure_eq_ok {p : Prop} [Decidable p] {e : ε} {u : Unit} :
    ensure p e = .ok u ↔ p := by
  unfold ensure
  by_cases holds : p
  · simp
  · simp

/-- How a call fails: it aborts, or it returns an error. -/
inductive Failure where
  | panicked
  | error (reason : String)
  deriving DecidableEq

/-- The outcome of a call. -/
abbrev Fallible (α : Type) := Except Failure α

/-- `none` is an abort. -/
def orPanic {α : Type} : Option α → Fallible α
  | some a => .ok a
  | none => .error .panicked

@[simp] theorem orPanic_some (a : α) : orPanic (some a) = .ok a := rfl

@[simp] theorem Except.ok_bind (a : α) (f : α → Except ε β) : (.ok a >>= f) = f a := rfl

/-- A fallible computation over a state that outlives its failures. -/
abbrev Action (σ ε α : Type) := ExceptT ε (StateM σ) α

namespace Action

variable {σ ε α β : Type}

/-- Outcome and final state. -/
def exec (m : Action σ ε α) (s : σ) : Except ε α × σ := m.run s

/-- A check that does not touch the state. -/
def check (x : Except ε α) : Action σ ε α := fun s => (x, s)

/-- Running `m` from `s` ends in an outcome and a state that satisfy `Q`. -/
def Ensures (m : Action σ ε α) (s : σ) (Q : Except ε α → σ → Prop) : Prop :=
  Q (m.exec s).1 (m.exec s).2

@[simp] theorem exec_check (x : Except ε α) (s : σ) :
    exec (check x : Action σ ε α) s = (x, s) := rfl

@[simp] theorem exec_get (s : σ) : exec (get : Action σ ε σ) s = (.ok s, s) := rfl

@[simp] theorem exec_modify (f : σ → σ) (s : σ) :
    exec (modify f : Action σ ε PUnit) s = (.ok ⟨⟩, f s) := rfl

theorem exec_bind (m : Action σ ε α) (f : α → Action σ ε β) (s : σ) :
    exec (m >>= f) s =
      match exec m s with
      | (.ok a, s') => exec (f a) s'
      | (.error e, s') => (.error e, s') := by
  unfold exec
  show (match (m.run s).1 with
    | .ok a => (f a).run
    | .error e => pure (.error e)) (m.run s).2 = _
  rcases m.run s with ⟨outcome, s'⟩
  cases outcome with
  | error e | ok a => rfl

/-- Wrapping the result of an operation. -/
theorem exec_bind_pure (m : Action σ ε α) (f : α → β) (s : σ) :
    exec (m >>= fun a => pure (f a)) s = ((exec m s).1.map f, (exec m s).2) := by
  rw [exec_bind]
  rcases exec m s with ⟨outcome, s'⟩
  cases outcome with
  | error e | ok a => rfl

variable {m : Action σ ε α} {f : α → Action σ ε β} {s : σ} {Q : Except ε β → σ → Prop}

theorem ensures_bind :
    Ensures (m >>= f) s Q ↔ Ensures m s fun outcome s' =>
      match outcome with
      | .ok a => Ensures (f a) s' Q
      | .error e => Q (.error e) s' := by
  unfold Ensures
  rw [exec_bind]
  rcases exec m s with ⟨outcome, s'⟩
  cases outcome with
  | error e | ok a => rfl

/-- A pure check either fails without an effect or lets the rest run. -/
theorem ensures_check_bind {x : Except ε α} (failed : ∀ e, x = .error e → Q (.error e) s)
    (passed : ∀ a, x = .ok a → Ensures (f a) s Q) : Ensures (check x >>= f) s Q := by
  cases x with
  | error e => exact failed e rfl
  | ok a => exact passed a rfl

theorem ensures_get_bind {f : σ → Action σ ε β} : Ensures (get >>= f) s Q ↔ Ensures (f s) s Q := by
  rw [ensures_bind]
  unfold Ensures
  rw [exec_get]

theorem Ensures.imp {P Q : Except ε α → σ → Prop}
    (ensures : Ensures m s P) (weaken : ∀ outcome s', P outcome s' → Q outcome s') :
    Ensures m s Q :=
  weaken _ _ ensures

/-- Sequencing: the first part hands `P` to the rest, and a failure of it to `Q`. -/
theorem Ensures.bind {P : Except ε α → σ → Prop} (first : Ensures m s P)
    (failed : ∀ e s', P (.error e) s' → Q (.error e) s')
    (rest : ∀ a s', P (.ok a) s' → Ensures (f a) s' Q) : Ensures (m >>= f) s Q := by
  rw [ensures_bind]
  refine first.imp ?_
  intro outcome s' holds
  cases outcome with
  | error e => exact failed e s' holds
  | ok a => exact rest a s' holds

/-- What holds of a result, and of a failure. -/
def Post (P : α → σ → Prop) (F : ε → σ → Prop) (outcome : Except ε α) (s : σ) : Prop :=
  match outcome with
  | .ok a => P a s
  | .error e => F e s

variable {F : ε → σ → Prop}

/-- Sequencing, with one thing to say of all failures. -/
theorem Ensures.then {P : α → σ → Prop} {Q : β → σ → Prop} (first : Ensures m s (Post P F))
    (rest : ∀ a s', P a s' → Ensures (f a) s' (Post Q F)) : Ensures (m >>= f) s (Post Q F) :=
  first.bind (fun _ _ failed => failed) rest

/-- A loop with an accumulator: the invariant is about the items before. -/
theorem Ensures.foldlM {step : β → α → Action σ ε β} {I : List α → β → σ → Prop} {items : List α}
    (each : ∀ done item b s, item ∈ items → I done b s →
      Ensures (step b item) s (Post (I (done ++ [item])) F))
    {b : β} (start : I [] b s) : Ensures (items.foldlM step b) s (Post (I items) F) := by
  have loop : ∀ rest done b s, (∀ item ∈ rest, item ∈ items) → I done b s →
      Ensures (rest.foldlM step b) s (Post (I (done ++ rest)) F) := by
    intro rest
    induction rest with
    | nil =>
      intro done b s _ holds
      rw [append_nil]
      exact holds
    | cons item rest ih =>
      intro done b s mem holds
      refine (each done item b s (mem item mem_cons_self) holds).then fun b' s' next => ?_
      rw [append_cons]
      exact ih _ b' s' (fun other later => mem other (mem_cons_of_mem _ later)) next
  exact loop items [] b s (fun _ mem => mem) start

theorem forM_eq_foldlM (body : α → Action σ ε PUnit) (items : List α) :
    items.forM body = items.foldlM (fun _ => body) ⟨⟩ := by
  induction items with
  | nil => rfl
  | cons item items ih => exact congrArg (body item >>= ·) (funext fun _ => ih)

theorem Ensures.forM {body : α → Action σ ε PUnit} {I : List α → σ → Prop} {items : List α}
    (each : ∀ done item s, item ∈ items → I done s →
      Ensures (body item) s (Post (fun _ => I (done ++ [item])) F))
    (start : I [] s) : Ensures (items.forM body) s (Post (fun _ => I items) F) := by
  rw [forM_eq_foldlM]
  exact .foldlM (I := fun done _ => I done) (fun done item _ => each done item) start

theorem ensures_tryCatch {handler : ε → Action σ ε α} {Q : Except ε α → σ → Prop} :
    Ensures (tryCatch m handler) s Q ↔ Ensures m s fun outcome s' =>
      match outcome with
      | .ok a => Q (.ok a) s'
      | .error e => Ensures (handler e) s' Q := by
  have unfolded : exec (tryCatch m handler) s =
      match exec m s with
      | (.ok a, s') => (.ok a, s')
      | (.error e, s') => exec (handler e) s' := by
    show (match (m.run s).1 with
      | .ok a => (pure (.ok a) : StateM σ (Except ε α))
      | .error e => (handler e).run) (m.run s).2 = _
    unfold exec
    rcases m.run s with ⟨outcome, s'⟩
    cases outcome with
    | error e | ok a => rfl
  unfold Ensures
  rw [unfolded]
  rcases exec m s with ⟨outcome, s'⟩
  cases outcome with
  | error e | ok a => rfl

end Action

end CreditChain
