import CreditChain.Lib.Digest
import CreditChain.SafetyRules.Rules
import Mathlib.Data.List.TakeWhile
import Mathlib.Tactic.DeriveCountable

/-!
# The trusted state of a light client

A light client trusts a waypoint, and the validator set of an epoch once it knows one.  It
moves forward on a latest ledger info and a proof of epoch changes, both from a peer that it
does not trust.

* `ratchet_on_chain`: the state that the client moves to is again one of the chain, and not
  older than the one it had.
-/

namespace CreditChain

open List

/-! ## States -/

inductive TrustedState where
  | epochWaypoint (waypoint : Waypoint)
  | epochState (waypoint : Waypoint) (epochState : EpochState)

inductive TrustedStateChange where
  | version (newState : TrustedState)
  | epoch (newState : TrustedState) (latestEpochChangeLi : LedgerInfoWithSignatures)
  | noChange

def TrustedStateChange.newState : TrustedStateChange → Option TrustedState
  | version newState => some newState
  | epoch newState _ => some newState
  | noChange => none

/-- Items in front are left out until one is kept; the last item is kept. -/
theorem dropWhile_last {α : Type} {p : α → Bool} {l : List α} {last : α}
    (ends : l.getLast? = some last) (fails : p last = false) :
    ∃ a rest, l.dropWhile p = a :: rest ∧ (a :: rest).getLast (cons_ne_nil _ _) = last := by
  cases kept : l.dropWhile p with
  | nil =>
    have stale := List.dropWhile_eq_nil_iff.mp kept last (mem_of_getLast? ends)
    rw [fails] at stale
    cases stale
  | cons a rest =>
    refine ⟨a, rest, rfl, ?_⟩
    have suffix := dropWhile_suffix (l := l) p
    rw [kept] at suffix
    obtain ⟨before, rfl⟩ := suffix
    rw [getLast?_append_of_ne_nil _ (cons_ne_nil _ _)] at ends
    exact Option.some.inj ends

open Waypoint

section Client

variable [Crypto]

namespace TrustedState

def waypoint : TrustedState → Waypoint
  | epochWaypoint waypoint => waypoint
  | epochState waypoint _ => waypoint

variable (state : TrustedState) (latestLi : LedgerInfoWithSignatures)

def version : Version := state.waypoint.version

def verifier : TrustedState → Verifier
  | .epochWaypoint waypoint => waypoint.verifier
  | .epochState _ state => state.asVerifier

/-- The ledger info that an epoch change leads to: the latest one if the new validator set
vouches for it, else the epoch change itself when the proof is known to be incomplete. -/
def verifiedLedgerInfo (epochChangeLi latestLi : LedgerInfoWithSignatures)
    (newEpochState : EpochState) (more : Bool) : Except String LedgerInfoWithSignatures :=
  if epochChangeLi = latestLi then .ok latestLi
  else if latestLi.ledgerInfo.epoch = newEpochState.epoch then do
    newEpochState.verify latestLi
    .ok latestLi
  else if newEpochState.epoch < latestLi.ledgerInfo.epoch ∧ more then .ok epochChangeLi
  else .error "Inconsistent epoch change proof and latest ledger info"

/-- The branch of `verify_and_ratchet_inner` that goes through an epoch change. -/
def ratchetEpoch (proof : EpochChangeProof) : Except String TrustedStateChange := do
  let epochChangeLi ← proof.verify state.verifier
  match epochChangeLi.ledgerInfo.nextEpochState with
  | none =>
    .error "A valid EpochChangeProof will never return a non-epoch change ledger info"
  | some newEpochState => do
      let verified ← verifiedLedgerInfo epochChangeLi latestLi newEpochState proof.more
      .ok (.epoch (.epochState (.newAny verified.ledgerInfo) newEpochState) epochChangeLi)

/-- The branch of `verify_and_ratchet_inner` that stays in the current epoch. -/
def ratchetVersion : Except String TrustedStateChange :=
  match state with
  | .epochWaypoint _ => .error "EpochWaypoint can only verify an epoch change ledger info"
  | .epochState waypoint current =>
    let newWaypoint := .newAny latestLi.ledgerInfo
    if newWaypoint.version = waypoint.version then do
      ensure (newWaypoint = waypoint) "LedgerInfo doesn't match verified state"
      .ok .noChange
    else do
      current.verify latestLi
      .ok (.version (.epochState newWaypoint current))

def verifyAndRatchetInner (proof : EpochChangeProof) : Except String TrustedStateChange := do
  let currVersion := state.version
  let targetVersion := latestLi.ledgerInfo.version
  ensure (currVersion ≤ targetVersion)
    s!"The target latest ledger info version is stale ({targetVersion}) and behind our current trusted version ({currVersion})"
  if state.verifier.epochChangeVerificationRequired latestLi.ledgerInfo.commitInfo.nextBlockEpoch
  then state.ratchetEpoch latestLi proof
  else state.ratchetVersion latestLi

end TrustedState

/-! ## The chain -/

/-- The chain that a client should stay on: ledger infos of increasing version.  One that carries a
validator set ends its epoch. -/
structure LedgerChain where
  /-- The validator set of the epoch that the chain starts in. -/
  first : EpochState
  ledgerInfos : List LedgerInfo
  starts : ∀ li ∈ ledgerInfos.head?, li.epoch = first.epoch
  linked : ledgerInfos.IsChain fun a b =>
    a.version < b.version ∧ b.epoch = a.commitInfo.nextBlockEpoch
  advances : ∀ li ∈ ledgerInfos, ∀ next, li.nextEpochState = some next → next.epoch = li.epoch + 1

namespace LedgerChain

variable (chain : LedgerChain)

/-- The validator sets of the epochs of the chain. -/
def ValidatorSet (state : EpochState) : Prop :=
  state = chain.first ∨ ∃ li ∈ chain.ledgerInfos, li.nextEpochState = some state

/-- The validator set of the epoch that follows a ledger info, or of the one it is in. -/
def Covers (state : EpochState) (li : LedgerInfo) : Prop :=
  chain.ValidatorSet state ∧ (li.nextEpochState = some state ∨ state.epoch = li.epoch)

/-- The states that a client on the chain may have. -/
inductive Trusted : TrustedState → Prop
  | epochWaypoint {li : LedgerInfo} : li ∈ chain.ledgerInfos → li.endsEpoch →
      Trusted (.epochWaypoint (.newAny li))
  | epochState {li : LedgerInfo} {state : EpochState} : li ∈ chain.ledgerInfos →
      chain.Covers state li → Trusted (.epochState (.newAny li) state)

/-- A validator set of the chain vouches for ledger infos of the chain only. -/
def Unforgeable : Prop :=
  ∀ state, chain.ValidatorSet state → ∀ li : LedgerInfoWithSignatures,
    state.verify li = .ok () → li.ledgerInfo ∈ chain.ledgerInfos

/-- One ledger info of the chain is before another. -/
def Before (a b : LedgerInfo) : Prop :=
  a.version < b.version ∧ a.epoch ≤ b.epoch ∧ (a.endsEpoch → a.epoch < b.epoch)

omit [Crypto]

instance : Trans Before Before Before where
  trans left right :=
    ⟨left.1.trans right.1, left.2.1.trans right.2.1, fun ends => (left.2.2 ends).trans_le right.2.1⟩

variable {chain}

theorem pairwise_before : chain.ledgerInfos.Pairwise Before := by
  rw [← isChain_iff_pairwise]
  refine chain.linked.imp_of_mem_imp fun a b memA _ step => ?_
  obtain ⟨older, sameEpoch⟩ := step
  have advance := chain.advances a memA
  unfold Before LedgerInfo.endsEpoch
  unfold BlockInfo.nextBlockEpoch at sameEpoch
  unfold LedgerInfo.nextEpochState at advance ⊢
  cases carried : a.commitInfo.nextEpochState with
  | none =>
    rw [carried] at sameEpoch
    exact ⟨older, sameEpoch.ge, fun impossible => nomatch impossible⟩
  | some next =>
    rw [carried] at sameEpoch
    have later : b.epoch = a.epoch + 1 := sameEpoch.trans (advance next carried)
    exact ⟨older, by omega, fun _ => by omega⟩

/-- Two ledger infos of the chain are the same, or one is before the other. -/
theorem ordered {a b : LedgerInfo} (memA : a ∈ chain.ledgerInfos) (memB : b ∈ chain.ledgerInfos) :
    a = b ∨ Before a b ∨ Before b a := by
  by_cases same : a = b
  · exact .inl same
  have symmetric : Std.Symm fun a b => Before a b ∨ Before b a := ⟨fun _ _ => .symm⟩
  have either : chain.ledgerInfos.Pairwise fun a b => Before a b ∨ Before b a :=
    pairwise_before.imp .inl
  exact .inr (either.forall memA memB same)

/-- The end of an epoch is not before a ledger info that is not of a later epoch. -/
theorem version_le_end {li last : LedgerInfo} (mem : li ∈ chain.ledgerInfos)
    (memLast : last ∈ chain.ledgerInfos) (ends : last.endsEpoch) (epochs : li.epoch ≤ last.epoch) :
    li.version ≤ last.version := by
  rcases ordered mem memLast with same | before | after
  · rw [same]
  · exact before.1.le
  · exact absurd (after.2.2 ends) (by omega)

theorem Covers.epoch_le {state : EpochState} {li : LedgerInfo} (mem : li ∈ chain.ledgerInfos)
    (covers : chain.Covers state li) : li.epoch ≤ state.epoch := by
  rcases covers.2 with follows | contains
  · rw [chain.advances li mem state follows]
    omega
  · exact contains.ge

end LedgerChain

/-! ## Proofs of epoch changes -/

variable {chain : LedgerChain}

theorem Waypoint.verify_ok {w : Waypoint} {li : LedgerInfo} :
    w.verify li = .ok () ↔ newAny li = w := by
  unfold verify
  simp only [Except.bind_eq_ok, ensure_eq_ok]
  constructor
  · rintro ⟨_, version, value⟩
    exact congrArg₂ mk version value
  · rintro rfl
    exact ⟨(), rfl, rfl⟩

variable {li : LedgerInfoWithSignatures}

theorem EpochState.verify_epoch {state : EpochState}
    (verified : state.verify li = .ok ()) : state.epoch = li.ledgerInfo.epoch := by
  unfold EpochState.verify at verified
  simp only [Except.bind_eq_ok, ensure_eq_ok] at verified
  obtain ⟨_, epochs, -⟩ := verified
  exact epochs

/-- Where the ledger infos end that a validator set of the chain vouches for, each by the one
before. -/
theorem verifyChain_ok (unforgeable : chain.Unforgeable) {state : EpochState}
    (isSet : chain.ValidatorSet state) {rest : List LedgerInfoWithSignatures}
    (verified : state.asVerifier.verifyChain (li :: rest) = .ok ()) :
    let last := ((li :: rest).getLast (cons_ne_nil _ _)).ledgerInfo
    last ∈ chain.ledgerInfos ∧ last.endsEpoch ∧ state.epoch ≤ last.epoch := by
  induction rest generalizing state li with
  | nil =>
    obtain ⟨_, trusted, carries⟩ := of_bind verified
    refine ⟨unforgeable state isSet li trusted, ?_, (EpochState.verify_epoch trusted).le⟩
    change li.ledgerInfo.nextEpochState.isSome
    split at carries
    · cases carries
    · rename_i carried
      exact Option.isSome_of_eq_some carried
  | cons second rest ih =>
    obtain ⟨_, trusted, carries⟩ := of_bind verified
    have mem := unforgeable state isSet li trusted
    split at carries
    · cases carries
    rename_i next carried
    obtain ⟨memLast, ends, epochs⟩ := ih (.inr ⟨_, mem, carried⟩) carries
    refine ⟨memLast, ends, ?_⟩
    have advance := chain.advances _ mem next carried
    have sameEpoch := EpochState.verify_epoch trusted
    exact le_trans (by omega) epochs

/-- What a client knows of the ledger info that an accepted proof ends in: it has the waypoint
of the end of an epoch of the chain, and is not older than what the client trusts. -/
structure EndsEpochOf (chain : LedgerChain) (state : TrustedState) (li last : LedgerInfo) :
    Prop where
  mem : li ∈ chain.ledgerInfos
  ends : li.endsEpoch
  sameWaypoint : Waypoint.newAny last = Waypoint.newAny li
  sameNext : last.nextEpochState = li.nextEpochState
  newer : state.version ≤ li.version

variable {state : TrustedState}

theorem verify_ok (collisionFree : Function.Injective Crypto.waypointHash)
    (unforgeable : chain.Unforgeable) (trusted : chain.Trusted state)
    {proof : EpochChangeProof} {last : LedgerInfoWithSignatures}
    (verified : proof.verify state.verifier = .ok last) :
    ∃ li, EndsEpochOf chain state li last.ledgerInfo := by
  unfold EpochChangeProof.verify at verified
  split at verified
  · cases verified
  rename_i ending
  simp only [Except.bind_eq_ok, ensure_eq_ok] at verified
  obtain ⟨_, fresh, _, walked, same⟩ := verified
  cases same
  obtain ⟨li, rest, kept, isLast⟩ := dropWhile_last (p := fun li =>
    state.verifier.isLedgerInfoStale li.ledgerInfo) ending (Bool.eq_false_iff.mpr fresh)
  rw [kept] at walked
  cases trusted with
  | @epochState trustedLi epochState mem covers =>
    obtain ⟨memLast, ends, epochs⟩ := verifyChain_ok unforgeable covers.1 walked
    rw [isLast] at memLast ends epochs
    exact ⟨_, memLast, ends, rfl, rfl,
      LedgerChain.version_le_end mem memLast ends ((covers.epoch_le mem).trans epochs)⟩
  | @epochWaypoint trustedLi mem trustedEnds =>
    obtain ⟨_, sameWaypoint, carries⟩ := of_bind walked
    have same := verify_ok.mp sameWaypoint
    -- a waypoint fixes the next epoch state
    have fields := collisionFree (congrArg Waypoint.value same)
    injection fields with _ _ _ _ sameNext
    cases rest with
    | nil =>
      -- the proof ends in the ledger info of the waypoint itself
      cases isLast
      exact ⟨trustedLi, mem, trustedEnds, same, sameNext, le_rfl⟩
    | cons second rest =>
      obtain ⟨next, carried⟩ := Option.isSome_iff_exists.mp trustedEnds
      rw [sameNext, carried] at carries
      obtain ⟨memLast, ends, epochs⟩ :=
        verifyChain_ok unforgeable (.inr ⟨_, mem, carried⟩) carries
      rw [getLast_cons (cons_ne_nil _ _)] at isLast
      rw [isLast] at memLast ends epochs
      have advance := chain.advances _ mem next carried
      exact ⟨_, memLast, ends, rfl, rfl, LedgerChain.version_le_end mem memLast ends (by omega)⟩

/-! ## Ratcheting -/

/-- A state of the chain that a client may move to from another one. -/
def LedgerChain.MovesTo (chain : LedgerChain) (state newState : TrustedState) : Prop :=
  ∃ li ∈ chain.ledgerInfos, ∃ epochState, chain.Covers epochState li ∧
    newState = .epochState (.newAny li) epochState ∧ state.version ≤ li.version

variable {newState : TrustedState}

theorem LedgerChain.MovesTo.trusted (moves : chain.MovesTo state newState) :
    chain.Trusted newState ∧ state.version ≤ newState.version := by
  obtain ⟨li, mem, epochState, covers, rfl, newer⟩ := moves
  exact ⟨.epochState mem covers, newer⟩

namespace TrustedState

variable {latestLi : LedgerInfoWithSignatures} {change : TrustedStateChange}

theorem ratchetEpoch_ok (collisionFree : Function.Injective Crypto.waypointHash)
    (unforgeable : chain.Unforgeable) (trusted : chain.Trusted state) {proof : EpochChangeProof}
    (fresh : state.version ≤ latestLi.ledgerInfo.version)
    (done : state.ratchetEpoch latestLi proof = .ok change)
    (found : change.newState = some newState) : chain.MovesTo state newState := by
  obtain ⟨last, verified, done⟩ := of_bind done
  obtain ⟨li, ended⟩ := verify_ok collisionFree unforgeable trusted verified
  split at done
  · cases done
  rename_i newEpochState carried
  obtain ⟨chosen, latest, rfl⟩ := of_return done
  cases found
  have follows : li.nextEpochState = some newEpochState := ended.sameNext ▸ carried
  have isSet : chain.ValidatorSet newEpochState := .inr ⟨li, ended.mem, follows⟩
  have endOfEpoch : chain.MovesTo state
      (.epochState (newAny last.ledgerInfo) newEpochState) :=
    ⟨li, ended.mem, newEpochState, ⟨isSet, .inl follows⟩, by rw [ended.sameWaypoint], ended.newer⟩
  unfold verifiedLedgerInfo at latest
  split at latest
  · rename_i isLatest
    cases latest
    rw [← isLatest]
    exact endOfEpoch
  split at latest
  · rename_i inside
    obtain ⟨_, signed, rfl⟩ := of_return latest
    exact ⟨_, unforgeable _ isSet _ signed, newEpochState, ⟨isSet, .inr inside.symm⟩, rfl, fresh⟩
  · split at latest
    · cases latest
      exact endOfEpoch
    · cases latest

theorem ratchetVersion_ok (unforgeable : chain.Unforgeable) (trusted : chain.Trusted state)
    (fresh : state.version ≤ latestLi.ledgerInfo.version)
    (done : state.ratchetVersion latestLi = .ok change)
    (found : change.newState = some newState) : chain.MovesTo state newState := by
  unfold ratchetVersion at done
  cases trusted with
  | epochWaypoint _ _ => cases done
  | @epochState li epochState mem covers =>
    dsimp only at done
    split at done
    · obtain ⟨_, _, rfl⟩ := of_return done
      cases found
    · obtain ⟨_, signed, rfl⟩ := of_return done
      cases found
      exact ⟨_, unforgeable _ covers.1 _ signed, epochState,
        ⟨covers.1, .inr (EpochState.verify_epoch signed)⟩, rfl, fresh⟩

section

variable (collisionFree : Function.Injective Crypto.waypointHash)
  (unforgeable : chain.Unforgeable) (trusted : chain.Trusted state)

include collisionFree unforgeable trusted

theorem verifyAndRatchetInner_ok
    {latestLi : LedgerInfoWithSignatures} {proof : EpochChangeProof} {change : TrustedStateChange}
    (done : state.verifyAndRatchetInner latestLi proof = .ok change)
    (found : change.newState = some newState) : chain.MovesTo state newState := by
  unfold verifyAndRatchetInner at done
  simp only [Except.bind_eq_ok, ensure_eq_ok] at done
  obtain ⟨_, fresh, done⟩ := done
  split at done
  · exact ratchetEpoch_ok collisionFree unforgeable trusted fresh done found
  · exact ratchetVersion_ok unforgeable trusted fresh done found

/-- The state of a client after a response; a refused response leaves it. -/
def afterResponse (state : TrustedState)
    (response : LedgerInfoWithSignatures × EpochChangeProof) : TrustedState :=
  match state.verifyAndRatchetInner response.1 response.2 with
  | .error _ => state
  | .ok change => change.newState.getD state

theorem afterResponse_trusted (response : LedgerInfoWithSignatures × EpochChangeProof) :
    chain.Trusted (state.afterResponse response) ∧
      state.version ≤ (state.afterResponse response).version := by
  unfold afterResponse
  cases outcome : state.verifyAndRatchetInner response.1 response.2 with
  | error reason => exact ⟨trusted, le_rfl⟩
  | ok change =>
    cases found : change.newState with
    | none =>
      dsimp only
      rw [found]
      exact ⟨trusted, le_rfl⟩
    | some newState =>
      dsimp only
      rw [found]
      exact (verifyAndRatchetInner_ok collisionFree unforgeable trusted outcome found).trusted

/-- No sequence of responses leads a client off the chain, or back on it. -/
theorem responses_trusted (responses : List (LedgerInfoWithSignatures × EpochChangeProof)) :
    chain.Trusted (responses.foldl afterResponse state) ∧
      state.version ≤ (responses.foldl afterResponse state).version := by
  induction responses generalizing state with
  | nil => exact ⟨trusted, le_rfl⟩
  | cons response responses ih =>
    obtain ⟨next, newer⟩ := afterResponse_trusted collisionFree unforgeable trusted response
    obtain ⟨last, newest⟩ := ih next
    exact ⟨last, newer.trans newest⟩

end

/-- Whatever ledger info and proof a client is given, it stays on the chain. -/
theorem ratchet_on_chain (collisionFree : Function.Injective Crypto.waypointHash)
    (unforgeable : chain.Unforgeable) {state : TrustedState} (trusted : chain.Trusted state)
    (latestLi : LedgerInfoWithSignatures) (proof : EpochChangeProof) :
    match state.verifyAndRatchetInner latestLi proof with
    | .error _ => True
    | .ok .noChange => True
    | .ok (.version newState) => chain.MovesTo state newState
    | .ok (.epoch newState _) => chain.MovesTo state newState := by
  cases outcome : state.verifyAndRatchetInner latestLi proof with
  | error reason => trivial
  | ok change =>
    cases change with
    | version newState | epoch newState latestEpochChangeLi =>
      exact verifyAndRatchetInner_ok collisionFree unforgeable trusted outcome rfl
    | noChange => trivial

end TrustedState

end Client

/-! ## The first two epochs

The genesis ledger info carries the validator set of epoch 1; a ledger info of that epoch is
signed by its only validator. -/

namespace FirstEpochs

deriving instance Countable for ValidatorConsensusInfo, ValidatorVerifier, EpochState,
  Ledger2WaypointConverter

def validators : EpochState := ⟨1, .new [⟨1, 7, 1⟩]⟩

def genesis : LedgerInfo := ⟨⟨0, 0, 0, 0, 0, 0, some validators⟩, 0⟩

def latest : LedgerInfo := ⟨⟨1, 4, 9, 3, 5, 2, none⟩, 8⟩

noncomputable local instance crypto : Crypto where
  voteDataHash _ := 0
  blockDataHash _ := 0
  ledgerInfoHash _ := 0
  waypointHash := Digest.table [⟨0, 0, 0, 0, some validators⟩, ⟨1, 3, 5, 2, none⟩]
  accumulator := ⟨fun left right => left + right + 1, 0⟩
  bls :=
    { verify := fun _ message _ => message == .ledgerInfo latest
      aggregate := List.head?
      aggregateKeys := List.head?
      verifyAggregate := fun _ _ _ => false }
  publicKey key := key
  sign _ _ := none

def chain : LedgerChain where
  first := ⟨0, .new []⟩
  ledgerInfos := [genesis, latest]
  starts := by decide
  linked := by decide
  advances := by decide

theorem chain_unforgeable : chain.Unforgeable := by
  intro state _ li verified
  obtain ⟨_, _, signed⟩ := of_bind verified
  obtain ⟨_, _, _, _, _, _, accepted⟩ :=
    ValidatorVerifier.verifyMultiSignatures_ok.mp (Except.mapError_eq_ok.mp signed)
  have same : SignedMessage.ledgerInfo li.ledgerInfo = .ledgerInfo latest := beq_iff_eq.mp accepted
  injection same with same
  rw [same]
  decide

noncomputable def start : TrustedState := .epochWaypoint (.newAny genesis)

/-- The latest ledger info with the signature of validator 1, and the proof from genesis. -/
def response : LedgerInfoWithSignatures × EpochChangeProof :=
  (⟨latest, ⟨⟨[128]⟩, some 3⟩⟩, ⟨[⟨genesis, .empty⟩], false⟩)

theorem start_trusted : chain.Trusted start := by
  have mem : genesis ∈ chain.ledgerInfos := by decide
  exact .epochWaypoint mem rfl

/-- From the genesis waypoint the client gets into epoch 1. -/
theorem ratcheted : chain.MovesTo start (.epochState (Waypoint.newAny latest) validators) := by
  have moved := TrustedState.ratchet_on_chain (Digest.table_injective _) chain_unforgeable
    start_trusted response.1 response.2
  exact moved

theorem start_stays : chain.Trusted ([response, response].foldl .afterResponse start) ∧
    start.version ≤ ([response, response].foldl TrustedState.afterResponse start).version :=
  TrustedState.responses_trusted (Digest.table_injective _) chain_unforgeable start_trusted _

end FirstEpochs

end CreditChain
