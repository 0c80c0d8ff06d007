import Mathlib.Data.Set.Basic

/-!
# Two-chain agreement with ordering certificates

An abstract account of the two-chain commit rule, stated over an arbitrary set of
parties, an arbitrary type of blocks and an arbitrary family of quorums.  Nothing
here says how a party decides to vote.  `TwoChain` records what honest parties have
released (votes, ordering votes, timeouts) and the few relations between those
releases that the commit rule rests on; `TwoChain.agreement` derives that two decided
blocks of positive round lie on one chain of certified blocks.

A block is decided in one of two ways:

* a quorum voted for blocks of the next round whose parent it is, or
* a quorum released an ordering vote for it.
-/

namespace CreditChain

/-- What the honest parties have released, with the rules the releases obey. -/
structure TwoChain (V B : Type) where
  honest : V → Prop
  quorum : Set V → Prop
  round : B → Nat
  /-- `voted v b p`: party `v` voted for block `b` on top of block `p`. -/
  voted : V → B → B → Prop
  orderVoted : V → B → Prop
  /-- `timedOut v t q`: party `v` gave up round `t`, its best certificate being of round `q`. -/
  timedOut : V → Nat → Nat → Prop
  intersect : ∀ {S T}, quorum S → quorum T → ∃ v ∈ S, v ∈ T ∧ honest v
  vote_unique : ∀ {v b p b' p'}, honest v → voted v b p → voted v b' p' →
    round b = round b' → b = b' ∧ p = p'
  vote_timeout : ∀ {v b p t q}, honest v → voted v b p → timedOut v t q → round b ≤ t → round p ≤ q
  order_timeout : ∀ {v b t q}, honest v → orderVoted v b → timedOut v t q →
    round b ≤ t → round b ≤ q
  vote_round : ∀ {v b p}, honest v → voted v b p → round p < round b
  vote_parent : ∀ {v b p}, honest v → voted v b p → 0 < round p →
    ∃ g S, quorum S ∧ ∀ w ∈ S, honest w → voted w p g
  vote_safe : ∀ {v b p}, honest v → voted v b p →
    round b = round p + 1 ∨
      ∃ t S, quorum S ∧ round b = t + 1 ∧
        ∀ w ∈ S, honest w → ∃ q, timedOut w t q ∧ q ≤ round p
  order_certified : ∀ {v b}, honest v → orderVoted v b → 0 < round b →
    ∃ g S, quorum S ∧ ∀ w ∈ S, honest w → voted w b g

namespace TwoChain

variable {V B : Type} (C : TwoChain V B)

/-- A quorum voted for `b` on top of `p`. -/
def CertifiedOn (b p : B) : Prop := ∃ S, C.quorum S ∧ ∀ v ∈ S, C.honest v → C.voted v b p

/-- `Chain b a`: following certified parents from `b` reaches `a`. -/
inductive Chain : B → B → Prop
  | refl (b : B) : Chain b b
  | step {b p a : B} : C.CertifiedOn b p → Chain p a → Chain b a

/-- A quorum voted for blocks of the next round on top of `b`. -/
def Committed (b : B) : Prop :=
  ∃ S, C.quorum S ∧ ∀ v ∈ S, C.honest v → ∃ c, C.voted v c b ∧ C.round c = C.round b + 1

/-- A quorum released an ordering vote for `b`. -/
def Ordered (b : B) : Prop := ∃ S, C.quorum S ∧ ∀ v ∈ S, C.honest v → C.orderVoted v b

/-- The two ways to decide a block. -/
def Decided (b : B) : Prop := C.Committed b ∨ C.Ordered b

variable {C} {b p b' p' : B}

/-- A quorum certificate has an honest voter behind it. -/
theorem CertifiedOn.exists_voted (cert : C.CertifiedOn b p) : ∃ v, C.honest v ∧ C.voted v b p := by
  obtain ⟨S, quorum, votes⟩ := cert
  obtain ⟨v, mem, -, honest⟩ := C.intersect quorum quorum
  exact ⟨v, honest, votes v mem honest⟩

/-- One round certifies one block on one parent. -/
theorem CertifiedOn.unique (left : C.CertifiedOn b p) (right : C.CertifiedOn b' p')
    (same : C.round b = C.round b') : b = b' ∧ p = p' := by
  obtain ⟨S, quorumS, votesS⟩ := left
  obtain ⟨T, quorumT, votesT⟩ := right
  obtain ⟨v, inS, inT, honest⟩ := C.intersect quorumS quorumT
  exact C.vote_unique honest (votesS v inS honest) (votesT v inT honest) same

/-- A decided block of positive round is certified. -/
theorem Decided.certified (decided : C.Decided b) (pos : 0 < C.round b) :
    ∃ p, C.CertifiedOn b p := by
  rcases decided with ⟨S, quorum, votes⟩ | ⟨S, quorum, votes⟩
  · obtain ⟨v, mem, -, honest⟩ := C.intersect quorum quorum
    obtain ⟨c, voted, -⟩ := votes v mem honest
    exact C.vote_parent honest voted pos
  · obtain ⟨v, mem, -, honest⟩ := C.intersect quorum quorum
    exact C.order_certified honest (votes v mem honest) pos

/-- The parent of a certified block is at least as late as a decided block, once the
certified block is later and is not itself a child that the deciding quorum saw. -/
theorem Decided.le_parent (decided : C.Decided b) (cert : C.CertifiedOn b' p')
    (later : C.round b < C.round b') :
    p' = b ∨ C.round b ≤ C.round p' := by
  obtain ⟨v, honest, voted⟩ := cert.exists_voted
  rcases C.vote_safe honest voted with next | ⟨t, T, quorumT, next, timeouts⟩
  · exact .inr (by omega)
  rcases decided with ⟨S, quorumS, votes⟩ | ⟨S, quorumS, votes⟩
  · by_cases child : C.round b' = C.round b + 1
    · -- the deciding quorum and the certifying quorum share a round
      obtain ⟨T', quorumT', votes'⟩ := cert
      obtain ⟨w, inS, inT', honestW⟩ := C.intersect quorumS quorumT'
      obtain ⟨c, votedC, roundC⟩ := votes w inS honestW
      have same := C.vote_unique honestW (votes' w inT' honestW) votedC (by omega)
      exact .inl same.2
    · obtain ⟨w, inS, inT, honestW⟩ := C.intersect quorumS quorumT
      obtain ⟨c, votedC, roundC⟩ := votes w inS honestW
      obtain ⟨q, timedOut, le⟩ := timeouts w inT honestW
      have := C.vote_timeout honestW votedC timedOut (by omega)
      exact .inr (by omega)
  · obtain ⟨w, inS, inT, honestW⟩ := C.intersect quorumS quorumT
    obtain ⟨q, timedOut, le⟩ := timeouts w inT honestW
    have := C.order_timeout honestW (votes w inS honestW) timedOut (by omega)
    exact .inr (by omega)

/-- Every certified block from the round of a decided block on extends it. -/
theorem Decided.chain (decided : C.Decided b) (pos : 0 < C.round b) :
    ∀ {b' p' : B}, C.CertifiedOn b' p' → C.round b ≤ C.round b' → C.Chain b' b := by
  -- induction on the round of the certified block: its parent is certified and earlier
  suffices step : ∀ n, ∀ {b' p' : B}, C.round b' = n → C.CertifiedOn b' p' →
      C.round b ≤ C.round b' → C.Chain b' b by
    intro b' p' cert le
    exact step _ rfl cert le
  intro n
  induction n using Nat.strong_induction_on with
  | _ n ih =>
    intro b' p' round cert le
    rcases Nat.eq_or_lt_of_le le with same | later
    · obtain ⟨p, certB⟩ := decided.certified pos
      obtain ⟨rfl, -⟩ := certB.unique cert same
      exact .refl _
    · rcases decided.le_parent cert later with rfl | lePar
      · exact .step cert (.refl _)
      obtain ⟨v, honest, voted⟩ := cert.exists_voted
      have earlier := C.vote_round honest voted
      obtain ⟨g, certP⟩ := C.vote_parent honest voted (by omega)
      exact .step cert (ih _ (by omega) rfl certP lePar)

/-- **Agreement.** Two decided blocks of positive round lie on one certified chain. -/
theorem agreement (left : C.Decided b) (right : C.Decided b') (pos : 0 < C.round b)
    (pos' : 0 < C.round b') : C.Chain b' b ∨ C.Chain b b' := by
  rcases Nat.le_total (C.round b) (C.round b') with le | le
  · obtain ⟨p', cert⟩ := right.certified pos'
    exact .inl (left.chain pos cert le)
  · obtain ⟨p, cert⟩ := left.certified pos
    exact .inr (right.chain pos' cert le)

end TwoChain

end CreditChain
