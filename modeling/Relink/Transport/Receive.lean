import Std.Data.ExtTreeMap
import Relink.Wire.Frame

/-! The receive side of a transport.

`recvAndDispatch` is `UdpTransport::recv_and_dispatch` for one datagram: what is not
a data frame is queued for a waiting registration call, an exact duplicate is
dropped when relay deduplication is armed, and a frame of a subscribed topic is
handed to that topic's handler, inline. A handler is whatever the callback closes
over, so `H` is its state and `call` the callback itself, which may fault. -/
namespace Relink.Transport
open Wire Std

/-- `SeqWindow`: the sequence numbers last accepted on one topic, in a circular array. -/
structure SeqWindow where
  seen : Vector UInt16 8 := Vector.replicate 8 0
  valid : Vector Bool 8 := Vector.replicate 8 false
  next : Fin 8 := 0

def kMaxQueuedRegisterReplies : Nat := 16

structure UdpTransport (H : Type) where
  relayDedupEnabled : Bool := false
  recentSeqs : ExtTreeMap UInt32 SeqWindow := ∅
  handlers : ExtTreeMap UInt32 H := ∅
  registerReplyQueue : List Bytes := []

/-- What became of a datagram. -/
inductive Outcome (O : Type) where
  /-- Nothing received: an empty datagram, a timeout. -/
  | nothing
  /-- Not a frame; queued for a registration call, or dropped when the queue is full. -/
  | handedOff
  | duplicate
  | delivered (o : O)
  | noSubscriber
deriving DecidableEq, Repr

/-- The scan of `is_recent_duplicate`. -/
def SeqWindow.holds (w : SeqWindow) (seq : UInt16) : Bool :=
  (List.finRange 8).any fun i => w.valid[i] && w.seen[i] == seq

/-- What `is_recent_duplicate` does to the window of a number it has not seen. -/
def SeqWindow.record (w : SeqWindow) (seq : UInt16) : SeqWindow where
  seen := w.seen.set w.next seq
  valid := w.valid.set w.next true
  next := w.next + 1

/-- The number in a slot, if it is valid. -/
def SeqWindow.slot (w : SeqWindow) (i : Fin 8) : Option UInt16 :=
  if w.valid[i] then some w.seen[i] else none

section Receive
variable {H F O : Type}

/-- `recent_seqs_[topic_id]`, which creates the window on first use. -/
def UdpTransport.window (t : UdpTransport H) (topic : UInt32) : SeqWindow :=
  t.recentSeqs.getD topic {}

/-- `is_recent_duplicate`. -/
def isRecentDuplicate (t : UdpTransport H) (topicId : UInt32) (seq : UInt16) :
    Bool × UdpTransport H :=
  let w := t.window topicId
  if w.holds seq then (true, {t with recentSeqs := t.recentSeqs.insert topicId w})
  else (false, {t with recentSeqs := t.recentSeqs.insert topicId (w.record seq)})

/-- The duplicate test as the receive loop makes it: only when armed. -/
def dropDuplicate (t : UdpTransport H) (topicId : UInt32) (seq : UInt16) : Bool × UdpTransport H :=
  if t.relayDedupEnabled then isRecentDuplicate t topicId seq else (false, t)

/-- What is not a frame goes to the queue a registration call reads, while there is room. -/
def handOff (t : UdpTransport H) (datagram : Bytes) : UdpTransport H :=
  if t.registerReplyQueue.length < kMaxQueuedRegisterReplies then
    {t with registerReplyQueue := t.registerReplyQueue ++ [datagram]}
  else t

/-- The handler runs inline, on the state it left last time. -/
def deliver (call : H → Bytes → Except F (H × O)) (t : UdpTransport H) (topicId : UInt32)
    (payload : Bytes) : Except F (UdpTransport H × Outcome O) :=
  match t.handlers[topicId]? with
  | none => .ok (t, .noSubscriber)
  | some h => match call h payload with
    | .error e => .error e
    | .ok (h', o) => .ok ({t with handlers := t.handlers.insert topicId h'}, .delivered o)

def dispatchFrame (call : H → Bytes → Except F (H × O)) (t : UdpTransport H)
    (frame : DecodedFrame) : Except F (UdpTransport H × Outcome O) :=
  let dropped := dropDuplicate t frame.header.topicId frame.header.seqNum
  if dropped.1 then .ok (dropped.2, .duplicate)
  else deliver call dropped.2 frame.header.topicId frame.payload

def recvAndDispatch (call : H → Bytes → Except F (H × O)) (t : UdpTransport H) (datagram : Bytes) :
    Except F (UdpTransport H × Outcome O) :=
  if datagram = [] then .ok (t, .nothing)
  else match decodeFrame datagram with
    | .error _ => .ok (handOff t datagram, .handedOff)
    | .ok frame => dispatchFrame call t frame

/-- `set_topic_handler`: the last handler installed for a topic is the one called. -/
def setTopicHandler (t : UdpTransport H) (topicId : UInt32) (h : H) : UdpTransport H :=
  {t with handlers := t.handlers.insert topicId h}

/-- The duplicate test never touches the handlers. -/
@[simp] theorem dropDuplicate_handlers (t : UdpTransport H) (topicId : UInt32) (seq : UInt16) :
    (dropDuplicate t topicId seq).2.handlers = t.handlers := by
  unfold dropDuplicate isRecentDuplicate
  split
  · simp only
    split <;> rfl
  · rfl

@[simp] theorem handOff_handlers (t : UdpTransport H) (datagram : Bytes) :
    (handOff t datagram).handlers = t.handlers := by
  unfold handOff
  split <;> rfl

theorem recvAndDispatch_frame (call : H → Bytes → Except F (H × O)) (t : UdpTransport H)
    {datagram : Bytes} {frame : DecodedFrame} (h : decodeFrame datagram = .ok frame) :
    recvAndDispatch call t datagram = dispatchFrame call t frame := by
  have hne : datagram ≠ [] := by
    intro heq
    subst heq
    have := (decodeFrame_length h).1
    simp at this
  rw [recvAndDispatch, if_neg hne, h]

@[simp] theorem dropDuplicate_queue (t : UdpTransport H) (topicId : UInt32) (seq : UInt16) :
    (dropDuplicate t topicId seq).2.registerReplyQueue = t.registerReplyQueue := by
  unfold dropDuplicate isRecentDuplicate
  split
  · simp only
    split <;> rfl
  · rfl

/-- A frame is not handed to registration calls, whatever becomes of it. -/
theorem dispatchFrame_queue {call : H → Bytes → Except F (H × O)} {t t' : UdpTransport H}
    {frame : DecodedFrame} {o : Outcome O} (h : dispatchFrame call t frame = .ok (t', o)) :
    t'.registerReplyQueue = t.registerReplyQueue := by
  simp only [dispatchFrame] at h
  split at h
  · cases h
    exact dropDuplicate_queue ..
  · unfold deliver at h
    split at h
    · cases h
      exact dropDuplicate_queue ..
    · split at h
      · cases h
      · cases h
        exact dropDuplicate_queue ..

/-- The queue holds what it held, and perhaps the datagram. -/
theorem recvAndDispatch_queue {call : H → Bytes → Except F (H × O)} {t t' : UdpTransport H}
    {datagram : Bytes} {o : Outcome O} (h : recvAndDispatch call t datagram = .ok (t', o)) :
    ∀ bytes ∈ t'.registerReplyQueue, bytes ∈ t.registerReplyQueue ∨ bytes = datagram := by
  intro bytes hmem
  unfold recvAndDispatch at h
  split at h
  · cases h
    exact Or.inl hmem
  split at h
  · cases h
    unfold handOff at hmem
    split at hmem
    · rcases List.mem_append.mp hmem with hmem | hmem
      · exact Or.inl hmem
      · exact Or.inr (List.mem_singleton.mp hmem)
    · exact Or.inl hmem
  · rw [dispatchFrame_queue h] at hmem
    exact Or.inl hmem

end Receive

end Relink.Transport
