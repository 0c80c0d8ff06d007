import CreditChain.Market.Types

/-!
# How long an order stays cancelled in advance

The tracker lists the orders that were cancelled in advance twice: by order, and by the time at
which the cancellation expires.  That time is the time of the call in microseconds plus the
window in seconds, and it is compared with the time in seconds.

* `window_kept`: a cancellation lasts for the window, if nobody asks at a time where the unit
  makes a difference.
-/

namespace CreditChain.PreCancellationTracker

open OrderedMap
open CreditChain.Except (ok_bind)

/-- The two maps hold the same orders with the same expiration times. -/
def Agrees (tracker : PreCancellationTracker) : Prop :=
  ∀ key e, tracker.accountOrderIds.find? key = some e ↔
    tracker.expirationWithOrderIds.contains ⟨e, key⟩ = true

/-- The maps agree and hold the latest cancellations, except for some that have expired. -/
structure Tracks (window : Nat) (latest : AccountClientOrderId → Option Nat) (seconds : Nat)
    (tracker : PreCancellationTracker) : Prop where
  configured : tracker.preCancellationWindowSecs = window
  agrees : tracker.Agrees
  recorded : ∀ key e, tracker.accountOrderIds.find? key = some e →
    ∃ s, latest key = some s ∧ e = s + window
  kept : ∀ key s, latest key = some s → seconds ≤ s + window →
    tracker.accountOrderIds.find? key = some (s + window)

namespace Tracks

variable {window seconds e now : Nat} {latest latest' : AccountClientOrderId → Option Nat}
  {tracker : PreCancellationTracker} {key : AccountClientOrderId}

section

variable (tracks : Tracks window latest seconds tracker)

include tracks

theorem later {seconds' : Nat}
    (le : seconds ≤ seconds') : Tracks window latest seconds' tracker :=
  { tracks with kept := fun key s isLatest valid => tracks.kept key s isLatest (le.trans valid) }

/-- An order leaves both maps, and its latest cancellation does not count any more. -/
theorem erase (found : tracker.accountOrderIds.find? key = some e)
    (others : ∀ other, other ≠ key → latest' other = latest other)
    (gone : ∀ s, latest' key = some s → s + window < seconds) :
    Tracks window latest' seconds { tracker with
      accountOrderIds := tracker.accountOrderIds.erase key
      expirationWithOrderIds := tracker.expirationWithOrderIds.erase ⟨e, key⟩ } := by
  obtain ⟨configured, agrees, recorded, kept⟩ := tracks
  refine ⟨configured, fun other e' => ?_, fun other e' => ?_, fun other s => ?_⟩
  · grind [Agrees, contains, find?_erase]
  · grind [find?_erase]
  · grind [find?_erase]

theorem collect (rounds : Nat) :
    ∃ tracker', collect seconds rounds tracker = .ok tracker' ∧
      Tracks window latest seconds tracker' := by
  induction rounds generalizing tracker with
  | zero => exact ⟨tracker, rfl, tracks⟩
  | succ rounds ih =>
    rw [PreCancellationTracker.collect]
    cases front : tracker.expirationWithOrderIds.front? with
    | none => exact ⟨tracker, rfl, tracks⟩
    | some entry =>
      obtain ⟨⟨e, key⟩, flag⟩ := entry
      dsimp only
      split
      swap
      · exact ⟨tracker, rfl, tracks⟩
      next expired =>
        have found : tracker.accountOrderIds.find? key = some e :=
          (tracks.agrees key e).mpr (contains_iff.mpr ⟨flag, (front?_eq_some.mp front).1⟩)
        rw [BigMap.remove_eq_ok.mpr ⟨found, rfl⟩]
        refine ih (tracks.erase found (fun _ _ => rfl) fun s isLatest => ?_)
        obtain ⟨_, isLatest', rfl⟩ := tracks.recorded key e found
        cases isLatest.symm.trans isLatest'
        exact expired

theorem forget (others : ∀ other, other ≠ key → latest' other = latest other)
    (gone : ∀ s, latest' key = some s → s + window < seconds) :
    ∃ tracker', tracker.forget key = .ok tracker' ∧ Tracks window latest' seconds tracker' ∧
      tracker'.accountOrderIds.find? key = none := by
  unfold PreCancellationTracker.forget
  cases found : tracker.accountOrderIds.find? key with
  | none =>
    obtain ⟨configured, agrees, recorded, kept⟩ := tracks
    exact ⟨tracker, rfl, ⟨configured, agrees, by grind, by grind⟩, found⟩
  | some e =>
    obtain ⟨flag, there⟩ := contains_iff.mp ((tracks.agrees key e).mp found)
    dsimp only
    rw [BigMap.remove_eq_ok.mpr ⟨there, rfl⟩]
    exact ⟨_, rfl, tracks.erase found others gone, find?_erase_self⟩

end

/-! ## One call -/

/-- A cancellation that would expire after the largest time aborts. -/
theorem preCancel (tracks : Tracks window latest (nowSeconds now) tracker) :
    Tracks window (if now + window ≤ u64Max then Function.update latest key (some now) else latest)
      (nowSeconds now)
      ((tracker.preCancelOrderForTracker key.account key.clientOrderId now).toOption.getD
        tracker) := by
  obtain ⟨collected, done, collects⟩ := tracks.collect maxOrdersGarbageCollectedPerCall
  obtain ⟨cleared, done', clears, free⟩ :=
    @forget _ _ _ (Function.update latest key none) _ key collects
      (fun other ne => Function.update_of_ne ne _ _) (by simp)
  have unlisted : cleared.expirationWithOrderIds.find? ⟨now + window, key⟩ = none := by
    rw [← contains_eq_false, ← Bool.not_eq_true, ← clears.agrees, free]
    nofun
  rw [preCancelOrderForTracker, garbageCollect, done, ok_bind, done', ok_bind,
    clears.configured, Checked.add, Checked.cast]
  split
  · rw [ok_bind, BigMap.add_eq_ok.mpr ⟨free, rfl⟩, ok_bind, BigMap.add_eq_ok.mpr ⟨unlisted, rfl⟩]
    obtain ⟨-, agrees, recorded, kept⟩ := clears
    refine ⟨rfl, fun other e => ?_, fun other e => ?_, fun other s => ?_⟩
    · change (cleared.accountOrderIds.insert _ _).find? other = _ ↔
        (cleared.expirationWithOrderIds.insert _ _).contains _ = true
      grind [Agrees, contains, find?_insert]
    · change (cleared.accountOrderIds.insert _ _).find? other = _ → _
      grind [find?_insert]
    · change _ → _ → (cleared.accountOrderIds.insert _ _).find? other = _
      grind [find?_insert]
  · exact tracks

theorem isPreCancelled (key : AccountClientOrderId) (now : Nat)
    (tracks : Tracks window latest (nowSeconds now) tracker) :
    ∃ cancelled tracker',
      tracker.isPreCancelled key.account key.clientOrderId now = .ok (cancelled, tracker') ∧
      Tracks window latest (nowSeconds now) tracker' ∧
      (cancelled = true ↔ ∃ s, latest key = some s ∧ nowSeconds now ≤ s + window) := by
  obtain ⟨collected, done, tracks⟩ := tracks.collect maxOrdersGarbageCollectedPerCall
  rw [PreCancellationTracker.isPreCancelled, garbageCollect, done, ok_bind]
  have kept := tracks.kept key
  cases found : collected.accountOrderIds.find? key with
  | none => exact ⟨false, collected, rfl, tracks, by grind⟩
  | some e =>
    obtain ⟨s, isLatest, rfl⟩ := tracks.recorded key e found
    dsimp only
    split
    · next expired =>
      obtain ⟨cleared, done', tracks, -⟩ :=
        @forget _ _ latest latest _ key tracks (fun _ _ => rfl) (by grind)
      rw [done']
      exact ⟨false, cleared, rfl, tracks, by grind⟩
    · next valid => exact ⟨true, collected, rfl, tracks, by grind⟩

end Tracks

/-! ## Calls one after the other -/

inductive TrackerCall where
  | preCancelOrderForTracker (key : AccountClientOrderId) (now : Nat)
  | isPreCancelled (key : AccountClientOrderId) (now : Nat)

namespace TrackerCall

def now : TrackerCall → Nat
  | preCancelOrderForTracker _ now => now
  | isPreCancelled _ now => now

/-- The tracker after a call; one that aborts has no effect. -/
def serve (tracker : PreCancellationTracker) : TrackerCall → PreCancellationTracker
  | preCancelOrderForTracker key now =>
    (tracker.preCancelOrderForTracker key.account key.clientOrderId now).toOption.getD tracker
  | isPreCancelled key now =>
    ((tracker.isPreCancelled key.account key.clientOrderId now).map (·.2)).toOption.getD tracker

/-- The times of the latest cancellations after a call; one that expires after the last time
aborts. -/
def note (window : Nat) (latest : AccountClientOrderId → Option Nat) :
    TrackerCall → AccountClientOrderId → Option Nat
  | preCancelOrderForTracker key now =>
    if now + window ≤ u64Max then Function.update latest key (some now) else latest
  | isPreCancelled _ _ => latest

def serveAll (window : Nat) (calls : List TrackerCall) : PreCancellationTracker :=
  calls.foldl serve ⟨window, .empty, .empty⟩

def latestPreCancels (window : Nat) (calls : List TrackerCall) :
    AccountClientOrderId → Option Nat :=
  calls.foldl (note window) fun _ => none

theorem tracks_serve {window : Nat} {latest : AccountClientOrderId → Option Nat}
    {tracker : PreCancellationTracker} (call : TrackerCall)
    (tracks : Tracks window latest (nowSeconds call.now) tracker) :
    Tracks window (note window latest call) (nowSeconds call.now) (serve tracker call) := by
  cases call with
  | preCancelOrderForTracker key now => exact tracks.preCancel
  | isPreCancelled key now =>
    obtain ⟨cancelled, tracker', done, tracks', -⟩ := tracks.isPreCancelled key now
    rw [serve, done]
    exact tracks'

theorem tracks_serveAll (window : Nat) {calls : List TrackerCall} {now : Nat}
    (ordered : calls.Pairwise (·.now ≤ ·.now)) (past : ∀ call ∈ calls, call.now ≤ now) :
    Tracks window (latestPreCancels window calls) (nowSeconds now) (serveAll window calls) := by
  induction calls using List.reverseRecOn generalizing now with
  | nil => exact ⟨rfl, fun key e => by simp [serveAll, contains], nofun, nofun⟩
  | append_singleton calls call ih =>
    obtain ⟨ordered, -, before⟩ := List.pairwise_append.mp ordered
    have tracks := tracks_serve call
      (ih ordered fun earlier mem => before earlier mem call List.mem_cons_self)
    rw [latestPreCancels, serveAll, List.foldl_concat, List.foldl_concat]
    exact tracks.later
      (Nat.div_le_div_right (past call (List.mem_append_right _ List.mem_cons_self)))

end TrackerCall

open TrackerCall

/-- The maps agree after any calls, and an order is cancelled in advance exactly during the window,
unless the question comes after it but not after as many seconds as the cancellation has
microseconds. -/
theorem window_kept (window : Nat) (calls : List TrackerCall) (key : AccountClientOrderId)
    (now : Nat) (ordered : (calls ++ [TrackerCall.isPreCancelled key now]).Pairwise (·.now ≤ ·.now))
    (clear : ∀ s, latestPreCancels window calls key = some s →
      nowSeconds now ≤ nowSeconds s + window ∨ s + window < nowSeconds now) :
    (serveAll window calls).Agrees ∧
    ∃ cancelled tracker', (serveAll window calls).isPreCancelled key.account key.clientOrderId now =
        .ok (cancelled, tracker') ∧
      (cancelled = true ↔ ∃ s, latestPreCancels window calls key = some s ∧
        nowSeconds now ≤ nowSeconds s + window) := by
  obtain ⟨ordered, -, past⟩ := List.pairwise_append.mp ordered
  have tracks := tracks_serveAll window ordered fun call mem => past call mem _ List.mem_cons_self
  obtain ⟨cancelled, tracker', done, -, answer⟩ := tracks.isPreCancelled key now
  refine ⟨tracks.agrees, cancelled, tracker', done, answer.trans (exists_congr fun s => ?_)⟩
  refine and_congr_right fun isLatest => ⟨fun valid => ?_, fun valid => ?_⟩
  · exact (clear s isLatest).resolve_right (by omega)
  · have le : nowSeconds s ≤ s := Nat.div_le_self s _
    omega

/-- Two orders are cancelled at the start; the one cancelled again after 20 seconds has been
collected by then, and so has the other. -/
def cancelledTwice : List TrackerCall :=
  [.preCancelOrderForTracker ⟨1, 1⟩ 3, .preCancelOrderForTracker ⟨2, 1⟩ 4,
    .preCancelOrderForTracker ⟨1, 1⟩ 20000000]

theorem cancelledTwice_kept : (serveAll 10 cancelledTwice).Agrees ∧
    ∃ cancelled tracker', (serveAll 10 cancelledTwice).isPreCancelled 1 1 25000000 =
        .ok (cancelled, tracker') ∧
      (cancelled = true ↔ ∃ s, latestPreCancels 10 cancelledTwice ⟨1, 1⟩ = some s ∧
        nowSeconds 25000000 ≤ nowSeconds s + 10) :=
  window_kept 10 cancelledTwice ⟨1, 1⟩ 25000000 (by decide) (by rintro _ ⟨⟩; decide)

/-- An order is cancelled in advance after one second. -/
def cancelledOnce : List TrackerCall := [.preCancelOrderForTracker ⟨1, 1⟩ 1000000]

/-- The window is 10 seconds, but the order is still cancelled 98 seconds later. -/
theorem cancelledOnce_exceeded :
    ((serveAll 10 cancelledOnce).isPreCancelled 1 1 99000000).map (·.1) = .ok true ∧
    latestPreCancels 10 cancelledOnce ⟨1, 1⟩ = some 1000000 ∧
    ¬ nowSeconds 99000000 ≤ nowSeconds 1000000 + 10 :=
  ⟨rfl, rfl, by decide⟩

end CreditChain.PreCancellationTracker
