import CreditChain.Lib.Action
import CreditChain.Lib.Trace
import Mathlib.Algebra.Ring.Nat
import Mathlib.Data.List.Range

/-!
# Streams of large messages

A message that is larger than a frame is sent as a header with the first part of its data, and
fragments with the rest, which the peer puts together again.

* `InboundStreamBuffer.handle_whole`: whatever a peer sends, the receiver does not panic, and
  hands on only headers with all their fragments, unless a header with data announces none.
* `streamed_received`: what is sent is received, if and only if the receiver's limit allows for
  the fragments.
-/

namespace CreditChain

open CreditChain.Action List Trace

/-! ## Messages -/

/-- The fields of a message besides its data. -/
inductive MessageKind where
  | rpcRequest (protocolId : UInt8) (requestId : UInt32) (priority : UInt8)
  | rpcResponse (requestId : UInt32) (priority : UInt8)
  | directSendMsg (protocolId priority : UInt8)
  deriving DecidableEq

inductive NetworkMessage where
  | error
  | data (kind : MessageKind) (raw : List UInt8)
  deriving DecidableEq

namespace NetworkMessage

def dataLen : NetworkMessage → Nat
  | error => 0
  | data _ raw => raw.length

def append : NetworkMessage → List UInt8 → Option NetworkMessage
  | error, _ => none
  | data kind raw, more => some (data kind (raw ++ more))

end NetworkMessage

structure StreamHeader where
  requestId : UInt32
  numFragments : UInt8
  message : NetworkMessage

structure StreamFragment where
  requestId : UInt32
  fragmentId : UInt8
  rawData : List UInt8

inductive StreamMessage where
  | header (header : StreamHeader)
  | fragment (fragment : StreamFragment)

/-- A header that carries data. -/
structure Opening where
  requestId : UInt32
  numFragments : UInt8
  kind : MessageKind
  raw : List UInt8

/-- A header, and fragments that are numbered from 1. -/
def Opening.messages (first : Opening) (pieces : List (List UInt8)) : List StreamMessage :=
  .header ⟨first.requestId, first.numFragments, .data first.kind first.raw⟩ ::
    pieces.mapIdx fun index piece => .fragment ⟨first.requestId, .ofNat index + 1, piece⟩

/-! ## The receiver -/

structure InboundStream where
  requestId : UInt32
  numFragments : UInt8
  currentFragmentId : UInt8
  message : NetworkMessage

structure InboundStreamBuffer where
  stream : Option InboundStream
  maxFragments : Nat

namespace InboundStream

def new (header : StreamHeader) (maxFragments : Nat) : Except String InboundStream :=
  match header.message with
  | .error => .error "Error message is not expected for stream"
  | message => do
    ensure (header.numFragments.toNat ≤ maxFragments) "Stream header exceeds max fragments limit"
    return ⟨header.requestId, header.numFragments, 0, message⟩

/-- The stream with a fragment, and whether it ends with it. -/
def appendFragment (stream : InboundStream) (fragment : StreamFragment) :
    Fallible (InboundStream × Bool) := do
  ensure (stream.requestId = fragment.requestId) (.error "Stream fragment from a different request")
  -- a `u8` that overflows
  ensure (stream.currentFragmentId ≠ 255) .panicked
  let expected := stream.currentFragmentId + 1
  ensure (expected = fragment.fragmentId)
    (.error s!"Unexpected fragment id, expected {expected}, got {fragment.fragmentId}")
  let message ← orPanic (stream.message.append fragment.rawData)
  return ({ stream with currentFragmentId := expected, message }, expected = stream.numFragments)

end InboundStream

namespace InboundStreamBuffer

def new (maxFragments : Nat) : InboundStreamBuffer := ⟨none, maxFragments⟩

/-- The new stream is kept, even if it replaces one, which is an error. -/
def newStream (buffer : InboundStreamBuffer) (header : StreamHeader) :
    Fallible Unit × InboundStreamBuffer :=
  match InboundStream.new header buffer.maxFragments with
  | .error reason => (.error (.error reason), buffer)
  | .ok stream =>
    (match buffer.stream with
      | some old => .error (.error s!"Discard existing stream {old.requestId}")
      | none => .ok (), { buffer with stream := some stream })

def appendFragment (buffer : InboundStreamBuffer) (fragment : StreamFragment) :
    Fallible (Option NetworkMessage) × InboundStreamBuffer :=
  match buffer.stream with
  | none => (.error (.error "No stream exist"), buffer)
  | some stream =>
    match stream.appendFragment fragment with
    | .error e => (.error e, buffer)
    | .ok (stream, true) => (.ok (some stream.message), { buffer with stream := none })
    | .ok (stream, false) => (.ok none, { buffer with stream := some stream })

/-- `handle_inbound_stream_message`, up to the message that it hands on. -/
def handle (next : StreamMessage) (buffer : InboundStreamBuffer) :
    Fallible (Option NetworkMessage) × InboundStreamBuffer :=
  match next with
  | .header header => ((buffer.newStream header).1.map fun _ => none, (buffer.newStream header).2)
  | .fragment fragment => buffer.appendFragment fragment

/-- What is answered to a peer. -/
def served (buffer : InboundStreamBuffer) (messages : List StreamMessage) :
    List (Fallible (Option NetworkMessage)) :=
  (trace handle messages buffer).map (·.response)

end InboundStreamBuffer

/-! ## The sender -/

/-- `chunks` of a slice: pieces of one size, of which the last may be shorter. -/
def chunks (size : Nat) (data : List UInt8) : Option (List (List UInt8)) :=
  if size = 0 then none
  else some ((range ((data.length + size - 1) / size)).map fun i =>
    (data.drop (i * size)).take size)

structure OutboundStream where
  requestIdGen : UInt32
  maxFrameSize : Nat
  maxMessageSize : Nat

namespace OutboundStream

/-- A frame has some buffer for headers; sizes are of 64 bits. -/
def new (maxFrameSize maxMessageSize : Nat) : Option OutboundStream :=
  if 64 ≤ maxFrameSize ∧ (maxFrameSize - 64) * 255 < 2 ^ 64 ∧
      maxMessageSize ≤ (maxFrameSize - 64) * 255 then
    some ⟨0, maxFrameSize - 64, maxMessageSize⟩
  else none

/-- The messages that are handed to the writer, which takes them all. -/
def streamMessage (message : NetworkMessage) :
    Action OutboundStream Failure (List StreamMessage) := do
  let stream ← get
  let frame := stream.maxFrameSize
  check (ensure (message.dataLen ≤ stream.maxMessageSize) (.error
    s!"Message length {message.dataLen} exceed size limit {stream.maxMessageSize}"))
  check (ensure (message.dataLen ≥ frame) (.error
    (s!"Message length {message.dataLen} is smaller than frame size {frame}, " ++
      "should not go through stream")))
  modify fun stream => { stream with requestIdGen := stream.requestIdGen + 1 }
  match message with
  | .error => throw .panicked
  | .data kind raw => do
    let chunks ← check (orPanic (chunks frame (raw.drop frame)))
    check (ensure (chunks.length ≤ 255) (.error "Number of fragments overflowed"))
    return Opening.messages ⟨stream.requestIdGen, .ofNat chunks.length, kind, raw.take frame⟩ chunks

end OutboundStream

/-! ## What is put together -/

namespace Opening

def message (first : Opening) (pieces : List (List UInt8)) : NetworkMessage :=
  .data first.kind (first.raw ++ flatten pieces)

/-- The stream after some fragments. -/
def stream (first : Opening) (pieces : List (List UInt8)) : InboundStream :=
  ⟨first.requestId, first.numFragments, .ofNat pieces.length, first.message pieces⟩

end Opening

/-- A header with all its fragments, which came in their order. -/
def Whole (max : Nat) (past : List StreamMessage) (message : NetworkMessage) : Prop :=
  ∃ (first : Opening) (pieces : List (List UInt8)), message = first.message pieces ∧
    pieces.length = first.numFragments.toNat ∧ first.numFragments.toNat ≤ max ∧
    first.messages pieces <+ past

/-- Between two messages, a stream waits for more of its fragments. -/
structure InboundStreamBuffer.Sound (max : Nat) (past : List StreamMessage)
    (buffer : InboundStreamBuffer) : Prop where
  maxFragments : buffer.maxFragments = max
  waits : ∀ stream ∈ buffer.stream, ∃ (first : Opening) (pieces : List (List UInt8)),
    stream = first.stream pieces ∧ pieces.length < first.numFragments.toNat ∧
    first.numFragments.toNat ≤ max ∧ first.messages pieces <+ past

variable {max : Nat} {past : List StreamMessage} {first : Opening} {pieces : List (List UInt8)}
  {piece : List UInt8} {buffer : InboundStreamBuffer} {next : StreamMessage}

theorem Opening.messages_concat : first.messages (pieces ++ [piece]) = first.messages pieces ++
    [.fragment ⟨first.requestId, .ofNat pieces.length + 1, piece⟩] := by
  rw [messages, mapIdx_concat]
  rfl

namespace InboundStreamBuffer

theorem Sound.snoc (sound : buffer.Sound max past) : buffer.Sound max (past ++ [next]) := by
  refine ⟨sound.maxFragments, ?_⟩
  intro stream found
  obtain ⟨first, pieces, same, more, few, order⟩ := sound.waits stream found
  exact ⟨first, pieces, same, more, few, order.trans (sublist_append_left _ _)⟩

section

variable (more : pieces.length < first.numFragments.toNat)

include more

/-- An id does not overflow before the last fragment. -/
theorem length_ne : UInt8.ofNat pieces.length ≠ 255 := by
  intro full
  have small := first.numFragments.toNat_lt
  have same : pieces.length % 256 = 255 := congrArg UInt8.toNat full
  omega

/-- The fragment that a stream waits for is added to it. -/
theorem handle_next :
    handle (.fragment ⟨first.requestId, .ofNat pieces.length + 1, piece⟩)
      ⟨some (first.stream pieces), max⟩ =
    if (pieces ++ [piece]).length = first.numFragments.toNat then
      (.ok (some (first.message (pieces ++ [piece]))), ⟨none, max⟩)
    else (.ok none, ⟨some (first.stream (pieces ++ [piece])), max⟩) := by
  have small : pieces.length + 1 < 2 ^ 8 := lt_of_le_of_lt more first.numFragments.toNat_lt
  have last : .ofNat pieces.length + 1 = first.numFragments ↔
      pieces.length + 1 = first.numFragments.toNat := by
    rw [← UInt8.toNat_inj, ← Nat.mod_eq_of_lt small, ← UInt8.toNat_ofNat', UInt8.ofNat_add]
    rfl
  simp only [handle, appendFragment, InboundStream.appendFragment, Opening.stream, length_ne more,
    ensure, Opening.message, NetworkMessage.append, orPanic_some, Except.ok_bind, if_true, last,
    length_append, length_singleton, flatten_append, flatten_singleton, append_assoc, ne_eq,
    not_false_eq_true, UInt8.ofNat_add]
  by_cases all : pieces.length + 1 = first.numFragments.toNat
  · rw [if_pos all, decide_eq_true all]
    rfl
  · rw [if_neg all, decide_eq_false all]
    rfl

/-- Another one is refused. -/
theorem handle_other {fragment : StreamFragment}
    (other : ¬ (first.requestId = fragment.requestId ∧
      .ofNat pieces.length + 1 = fragment.fragmentId)) :
    ∃ reason, handle (.fragment fragment) ⟨some (first.stream pieces), max⟩ =
      (.error (.error reason), ⟨some (first.stream pieces), max⟩) := by
  simp only [handle, appendFragment, InboundStream.appendFragment, Opening.stream, length_ne more,
    ensure, ne_eq, not_false_eq_true, if_true]
  by_cases same : first.requestId = fragment.requestId
  · have wrong := not_and.mp other same
    simp only [same, wrong, if_true, if_false, Except.ok_bind]
    exact ⟨_, rfl⟩
  · simp only [same, if_false]
    exact ⟨_, rfl⟩

end

/-- One message; a header with data announces fragments. -/
theorem Sound.handle (sound : buffer.Sound max past)
    (announced : ∀ header, next = .header header → header.message ≠ .error →
      header.numFragments ≠ 0) :
    (handle next buffer).2.Sound max (past ++ [next]) ∧
      (handle next buffer).1 ≠ .error .panicked ∧
      ∀ message, (handle next buffer).1 = .ok (some message) →
        Whole max (past ++ [next]) message := by
  obtain ⟨current, _⟩ := buffer
  cases next with
  | header header =>
    simp only [InboundStreamBuffer.handle, newStream]
    cases created : InboundStream.new header _ with
    | error reason => exact ⟨sound.snoc, nofun, nofun⟩
    | ok stream =>
      obtain ⟨id, numFragments, _ | ⟨kind, raw⟩⟩ := header
      · cases created
      obtain ⟨_, few, same⟩ := of_bind created
      cases same
      have more := Nat.pos_of_ne_zero fun zero => announced _ rfl nofun (UInt8.toNat_inj.mp zero)
      refine ⟨⟨sound.maxFragments, ?_⟩, by cases current <;> nofun, by cases current <;> nofun⟩
      rintro _ ⟨⟩
      refine ⟨⟨id, numFragments, kind, raw⟩, [], ?_, more,
        sound.maxFragments ▸ ensure_eq_ok.mp few, sublist_append_right _ _⟩
      rw [Opening.stream, Opening.message, flatten_nil, append_nil]
      rfl
  | fragment fragment =>
    cases current with
    | none => exact ⟨sound.snoc, nofun, nofun⟩
    | some stream =>
      obtain ⟨first, pieces, rfl, more, few, order⟩ := sound.waits stream rfl
      by_cases expected : first.requestId = fragment.requestId ∧
        .ofNat pieces.length + 1 = fragment.fragmentId
      swap
      · obtain ⟨reason, refused⟩ := handle_other more expected
        rw [refused]
        exact ⟨sound.snoc, nofun, nofun⟩
      obtain ⟨_, _, piece⟩ := fragment
      obtain ⟨rfl, rfl⟩ := expected
      have order : first.messages (pieces ++ [piece]) <+ past ++ [_] :=
        Opening.messages_concat ▸ order.append (.refl _)
      rw [handle_next more]
      split
      · next all =>
        refine ⟨⟨sound.maxFragments, nofun⟩, nofun, ?_⟩
        rintro _ ⟨⟩
        exact ⟨first, _, rfl, all, few, order⟩
      · next short =>
        refine ⟨⟨sound.maxFragments, ?_⟩, nofun, nofun⟩
        rintro _ ⟨⟩
        refine ⟨first, _, rfl, lt_of_le_of_ne ?_ short, few, order⟩
        rw [length_append]
        exact more

theorem sound_final (announced : ∀ header, .header header ∈ past → header.message ≠ .error →
      header.numFragments ≠ 0) :
    (final handle past (new max)).Sound max past := by
  induction past using reverseRecOn with
  | nil => exact ⟨rfl, nofun⟩
  | append_singleton past next ih =>
    rw [final_append]
    refine ((ih fun header mem => announced header (mem_append_left _ mem)).handle ?_).1
    rintro header rfl
    exact announced header (mem_append_right _ mem_cons_self)

/-- **Reassembly.**  Unless a header with data has announced no fragments, no message makes the
receiver panic, and what it hands on is a header with all its fragments. -/
theorem handle_whole (max : Nat) (past : List StreamMessage) (next : StreamMessage)
    (announced : ∀ header, .header header ∈ past ++ [next] → header.message ≠ .error →
      header.numFragments ≠ 0) :
    (handle next (final handle past (new max))).1 ≠ .error .panicked ∧
      ∀ message, (handle next (final handle past (new max))).1 = .ok (some message) →
        Whole max (past ++ [next]) message := by
  refine ((sound_final fun header mem => announced header (mem_append_left _ mem)).handle ?_).2
  rintro header rfl
  exact announced header (mem_append_right _ mem_cons_self)

/-- A header without fragments, and fragments until their number overflows. -/
theorem endless_panics : .error .panicked ∈ (new 16).served
    (.header ⟨7, 0, .data (.directSendMsg 1 0) []⟩ :: (range 256).map fun i =>
      .fragment ⟨7, .ofNat (i + 1), []⟩) :=
  mem_of_getLast? (by decide +kernel)

/-- A fragment out of order comes between the two of a stream, and is refused. -/
theorem handle_whole_two : Whole 2
    [.header ⟨7, 2, .data (.directSendMsg 1 0) [2]⟩, .fragment ⟨7, 1, [3]⟩,
      .fragment ⟨7, 5, [9]⟩, .fragment ⟨7, 2, [4]⟩] (.data (.directSendMsg 1 0) [2, 3, 4]) :=
  (handle_whole 2 [.header ⟨7, 2, .data (.directSendMsg 1 0) [2]⟩, .fragment ⟨7, 1, [3]⟩,
    .fragment ⟨7, 5, [9]⟩] (.fragment ⟨7, 2, [4]⟩) (by simp)).2 _ (by decide)

/-! ## What is sent is received -/

theorem served_concat (messages : List StreamMessage) : buffer.served (messages ++ [next]) =
    buffer.served messages ++ [(handle next (final handle messages buffer)).1] := by
  rw [served, trace_append, map_append]
  rfl

/-- All but the last fragment. -/
theorem served_messages (first : Opening) (few : first.numFragments.toNat ≤ max)
    (more : pieces.length < first.numFragments.toNat) :
    final handle (first.messages pieces) (new max) = ⟨some (first.stream pieces), max⟩ ∧
      (new max).served (first.messages pieces) = replicate (pieces.length + 1) (.ok none) := by
  induction pieces using reverseRecOn with
  | nil =>
    simp [Opening.messages, final, served, trace, handle, newStream, InboundStream.new, new,
      ensure, few, Opening.stream, Opening.message, Except.map]
  | append_singleton pieces piece ih =>
    have earlier : pieces.length < first.numFragments.toNat := by
      rw [length_append] at more
      exact Nat.lt_of_succ_lt more
    obtain ⟨state, answers⟩ := ih earlier
    rw [Opening.messages_concat, final_append, served_concat, state, answers, final, final,
      handle_next earlier, if_neg more.ne, length_append, replicate_succ' (n := _ + _)]
    exact ⟨rfl, rfl⟩

/-- A header with too many fragments is refused. -/
theorem served_refused (first : Opening) (pieces : List (List UInt8))
    (many : max < first.numFragments.toNat) :
    ((new max).served (first.messages pieces)).head? =
      some (.error (.error "Stream header exceeds max fragments limit")) := by
  simp [Opening.messages, served, trace, handle, newStream, InboundStream.new,
    new, ensure, many.not_ge]
  rfl

end InboundStreamBuffer

open InboundStreamBuffer OutboundStream

variable {size F M : Nat} {data : List UInt8}

theorem flatten_chunks (cut : chunks size data = some pieces) :
    pieces.flatten = data ∧ pieces.length = (data.length + size - 1) / size := by
  have sums : ∀ n, ((range n).map fun i => (data.drop (i * size)).take size).flatten =
      data.take (n * size) := by
    intro n
    induction n with
    | zero => rw [Nat.zero_mul, take_zero, range_zero, map_nil, flatten_nil]
    | succ n ih =>
      rw [range_succ, map_append, flatten_append, ih, map_singleton, flatten_singleton,
        Nat.succ_mul, take_add]
  obtain ⟨pos, ⟨⟩⟩ := Option.ite_none_left_eq_some.mp cut
  rw [sums, length_map, length_range]
  refine ⟨take_of_length_le ?_, rfl⟩
  have bound := Nat.lt_div_mul_add (Nat.pos_of_ne_zero pos) (a := data.length + size - 1)
  omega

section

variable (kind : MessageKind) (raw : List UInt8) (id : UInt32) {sender : OutboundStream}
  (created : OutboundStream.new F M = some sender) (large : F - 64 < raw.length)
  (fits : raw.length ≤ M)

include created large fits

/-- What is sent: the data are cut into frames. -/
theorem streamMessage_ok : ∃ pieces, (raw.take (F - 64) ++ pieces.flatten) = raw ∧
    pieces ≠ [] ∧ pieces.length = (raw.length - 1) / (F - 64) ∧
    (UInt8.ofNat pieces.length).toNat = pieces.length ∧
    ((streamMessage (.data kind raw)).exec { sender with requestIdGen := id }).1 =
      .ok (Opening.messages ⟨id, .ofNat pieces.length, kind, raw.take (F - 64)⟩ pieces) := by
  obtain ⟨⟨-, -, limit⟩, ⟨⟩⟩ := Option.ite_none_right_eq_some.mp created
  have pos : F - 64 ≠ 0 := by omega
  obtain ⟨pieces, cut⟩ : ∃ pieces, chunks (F - 64) (raw.drop (F - 64)) = some pieces :=
    ⟨_, if_neg pos⟩
  obtain ⟨joined, length⟩ := flatten_chunks cut
  rw [length_drop, (by omega : raw.length - (F - 64) + (F - 64) - 1 = raw.length - 1)] at length
  have few : pieces.length < 255 := length ▸ Nat.div_lt_of_lt_mul (by omega)
  have some_ : 0 < pieces.length := length ▸ Nat.div_pos (by omega) (by omega)
  refine ⟨pieces, by rw [joined, take_append_drop], length_pos_iff.mp some_, length,
    Nat.mod_eq_of_lt (few.trans (by decide)), ?_⟩
  simp [streamMessage, exec_bind, NetworkMessage.dataLen, ensure, cut, large.le, fits, few.le]
  rfl

/-- **Streams.**  A message that does not fit in a frame is sent, and received as it was, if and
only if the receiver allows for as many fragments. -/
theorem streamed_received :
    (∃ sent, ((streamMessage (.data kind raw)).exec { sender with requestIdGen := id }).1 =
        .ok sent ∧
      (InboundStreamBuffer.new (M / F)).served sent =
        replicate (sent.length - 1) (.ok none) ++ [.ok (some (.data kind raw))]) ↔
    (raw.length - 1) / (F - 64) ≤ M / F := by
  obtain ⟨pieces, joined, nonempty, length, count, sends⟩ :=
    streamMessage_ok kind raw id created large fits
  rw [sends, ← length]
  constructor
  · rintro ⟨_, ⟨⟩, answers⟩
    refine not_lt.mp fun many => ?_
    rw [← count] at many
    have refused := served_refused ⟨id, .ofNat pieces.length, kind, raw.take (F - 64)⟩ pieces many
    rw [answers] at refused
    obtain ⟨piece, pieces, rfl⟩ := exists_cons_of_ne_nil nonempty
    rw [Opening.messages, length_cons, length_mapIdx, Nat.add_sub_cancel, length_cons,
      replicate_succ] at refused
    cases refused
  · intro allowed
    refine ⟨_, rfl, ?_⟩
    obtain ⟨init, last, rfl⟩ := (eq_nil_or_concat' pieces).resolve_left nonempty
    have more : init.length < (UInt8.ofNat (init ++ [last]).length).toNat := by
      rw [count, length_append]
      exact Nat.lt_succ_self _
    obtain ⟨state, answers⟩ := served_messages
      ⟨id, .ofNat (init ++ [last]).length, kind, raw.take (F - 64)⟩ (count.symm ▸ allowed) more
    rw [Opening.messages_concat, served_concat, state, answers, handle_next more, if_pos count.symm,
      Opening.message, joined]
    simp [Opening.messages]

end

theorem streamed_received_three :
    ∃ sent, ((streamMessage (.data (.directSendMsg 1 0) [1, 2, 3])).exec ⟨5, 2, 66⟩).1 = .ok sent ∧
      (InboundStreamBuffer.new (66 / 66)).served sent = replicate (sent.length - 1) (.ok none) ++
        [.ok (some (.data (.directSendMsg 1 0) [1, 2, 3]))] :=
  (streamed_received _ _ 5 (show OutboundStream.new 66 66 = some ⟨0, 2, 66⟩ from rfl) (by decide)
    (by decide)).mpr (by decide)

/-- A frame loses 64 bytes to its header on one side only: one fragment is already too many. -/
theorem fragments_refused :
    OutboundStream.new 65 2 = some ⟨0, 1, 2⟩ ∧
    ∃ sent, ((streamMessage (.data (.directSendMsg 1 0) [2, 3])).exec ⟨0, 1, 2⟩).1 = .ok sent ∧
      (InboundStreamBuffer.new (2 / 65)).served sent =
        [.error (.error "Stream header exceeds max fragments limit"),
          .error (.error "No stream exist")] :=
  ⟨rfl, _, rfl, rfl⟩

end CreditChain
