import Relink.Transport.Window
import Relink.Wire.FrameCodec

/-! The receive side of the Python build, and both builds on one stream.

`_recv_and_dispatch` has a deque in place of the circular window, keeps empty datagrams as it keeps
other non-frames, and puts no bound on the queue of register replies. None of this reaches a
callback: on the same datagrams, in any order with subscriptions and registration calls, both
builds call the same handlers with the same payloads. -/
namespace Relink.Transport
open Wire Transition
open Std (ExtTreeMap)

/-! ### The Python build -/

namespace Py

structure Receiver (H : Type) extends UdpTransport where
  relayDedupEnabled : Bool := false
  handlers : ExtTreeMap UInt32 H := ∅
  registerReplyQueue : List Bytes := []

section
variable {H F O : Type}

/-- The duplicate test as `_recv_and_dispatch` makes it: only when armed. -/
def dropDuplicate (t : Receiver H) (topicId : UInt32) (seq : UInt16) : Bool × Receiver H :=
  if t.relayDedupEnabled then
    let r := isRecentDuplicate t.toUdpTransport topicId seq
    (r.1, {t with toUdpTransport := r.2})
  else (false, t)

def deliver (call : H → Bytes → Except F (H × O)) (t : Receiver H) (topicId : UInt32)
    (payload : Bytes) : Except F (Receiver H × Outcome O) :=
  match t.handlers[topicId]? with
  | none => .ok (t, .noSubscriber)
  | some h => match call h payload with
    | .error e => .error e
    | .ok (h', o) => .ok ({t with handlers := t.handlers.insert topicId h'}, .delivered o)

def dispatchFrame (call : H → Bytes → Except F (H × O)) (t : Receiver H)
    (frame : Wire.Py.DecodedFrame) : Except F (Receiver H × Outcome O) :=
  let dropped := dropDuplicate t frame.topicId frame.seqNum
  if dropped.1 then .ok (dropped.2, .duplicate)
  else deliver call dropped.2 frame.topicId frame.payload

/-- `_recv_and_dispatch`. What `decode_frame` raises other than a `FrameError` would end the data
thread, as an exception of a callback does. -/
def recvAndDispatch (uncaught : Wire.Py.Exn → F) (call : H → Bytes → Except F (H × O))
    (t : Receiver H) (datagram : Bytes) : Except F (Receiver H × Outcome O) :=
  match Wire.Py.decodeFrame datagram with
  | .error (.frameError _) =>
    .ok ({t with registerReplyQueue := t.registerReplyQueue ++ [datagram]}, .handedOff)
  | .error e => .error (uncaught e)
  | .ok frame => dispatchFrame call t frame

def setTopicHandler (t : Receiver H) (topicId : UInt32) (h : H) : Receiver H :=
  {t with handlers := t.handlers.insert topicId h}

def enableRelayDedup (t : Receiver H) : Receiver H := {t with relayDedupEnabled := true}

/-- `get_register_reply`, on a queue that stays as it is while the call waits. -/
def getRegisterReply (t : Receiver H) : Receiver H × Option Bytes :=
  ({t with registerReplyQueue := t.registerReplyQueue.tail}, t.registerReplyQueue.head?)

end

end Py

/-! ### Both builds -/

section
variable {H F O : Type}

def enableRelayDedup (t : UdpTransport H) : UdpTransport H := {t with relayDedupEnabled := true}

def getRegisterReply (t : UdpTransport H) : UdpTransport H × Option Bytes :=
  ({t with registerReplyQueue := t.registerReplyQueue.tail}, t.registerReplyQueue.head?)

/-- What happens to a transport. -/
inductive Input (H : Type) where
  | datagram (bytes : Bytes)
  | setTopicHandler (topicId : UInt32) (h : H)
  | enableRelayDedup
  | getRegisterReply
deriving DecidableEq

/-- What comes out: what became of a frame, or the answer of a registration call's wait. -/
inductive Seen (O : Type) where
  | frame (outcome : Outcome O)
  | reply (bytes : Option Bytes)
deriving DecidableEq

def Outcome.seen : Outcome O → Option (Seen O)
  | .nothing | .handedOff => none
  | o => some (.frame o)

def Seen.isFrame : Seen O → Bool
  | .frame _ => true
  | .reply _ => false

def next (call : H → Bytes → Except F (H × O)) (t : UdpTransport H) :
    Input H → Except F (UdpTransport H × Option (Seen O))
  | .datagram bytes => (recvAndDispatch call t bytes).map fun r => (r.1, r.2.seen)
  | .setTopicHandler topicId h => .ok (setTopicHandler t topicId h, none)
  | .enableRelayDedup => .ok (enableRelayDedup t, none)
  | .getRegisterReply => .ok ((getRegisterReply t).1, some (.reply (getRegisterReply t).2))

def Py.next (uncaught : Wire.Py.Exn → F) (call : H → Bytes → Except F (H × O)) (t : Py.Receiver H) :
    Input H → Except F (Py.Receiver H × Option (Seen O))
  | .datagram bytes => (Py.recvAndDispatch uncaught call t bytes).map fun r => (r.1, r.2.seen)
  | .setTopicHandler topicId h => .ok (Py.setTopicHandler t topicId h, none)
  | .enableRelayDedup => .ok (Py.enableRelayDedup t, none)
  | .getRegisterReply => .ok ((Py.getRegisterReply t).1, some (.reply (Py.getRegisterReply t).2))

/-- A machine of which only the frames are watched. -/
def frames {S A : Type} (step : S → A → Except F (S × Option (Seen O))) (s : S) (a : A) :
    Except F (S × Option (Seen O)) :=
  (step s a).map fun r => (r.1, r.2.filter Seen.isFrame)

/-- The builds in the same state, with `Q` between their queues. -/
structure SameState (Q : List Bytes → List Bytes → Prop) (t : UdpTransport H)
    (p : Py.Receiver H) : Prop where
  windows : ∃ kept, Remembered t kept ∧ Py.Remembered p.toUdpTransport kept
  armed : p.relayDedupEnabled = t.relayDedupEnabled
  handlers : p.handlers = t.handlers
  queue : Q t.registerReplyQueue p.registerReplyQueue

/-- The C++ build keeps what arrives: it is no empty datagram, and if it is no frame, there is
room for it. -/
def Keeps (t : UdpTransport H) : Input H → Prop
  | .datagram bytes => bytes ≠ [] ∧
    ((decodeFrame bytes).toOption = none → t.registerReplyQueue.length < kMaxQueuedRegisterReplies)
  | _ => True

instance (t : UdpTransport H) : (e : Input H) → Decidable (Keeps t e)
  | .datagram _ => inferInstanceAs (Decidable (_ ∧ (_ → _)))
  | .setTopicHandler .. => .isTrue trivial
  | .enableRelayDedup => .isTrue trivial
  | .getRegisterReply => .isTrue trivial

/-! ### A datagram -/

/-- `decode_frame` raises nothing else: each access is inside what was checked. -/
theorem Py.decodeFrame_error {bytes : Bytes} {e : Wire.Py.Exn}
    (h : Wire.Py.decodeFrame bytes = .error e) : ∃ message, e = .frameError message := by
  unfold Wire.Py.decodeFrame at h
  by_cases hshort : bytes.length < 1 + kHeaderBytes + 1
  · rw [if_pos hshort] at h
    cases h
    exact ⟨_, rfl⟩
  have hheader : Wire.Py.fromBufferCopy bytes 1 = .ok (RelinkHeader.unpack bytes) := by
    rw [Wire.Py.fromBufferCopy, if_neg (by omega), ofBytes_load]
  rw [if_neg hshort, Wire.Py.getItem_ok (by omega), hheader] at h
  simp only [bind, Except.bind, throw, throwThe, MonadExceptOf.throw, pure, Except.pure] at h
  split at h
  · cases h
    exact ⟨_, rfl⟩
  split at h
  · cases h
    exact ⟨_, rfl⟩
  split at h
  · cases h
    exact ⟨_, rfl⟩
  next hlen =>
    rw [Wire.Py.getItem_ok (by omega)] at h
    simp only at h
    split at h
    · cases h
      exact ⟨_, rfl⟩
    · cases h

variable {Q : List Bytes → List Bytes → Prop} {t : UdpTransport H} {p : Py.Receiver H}

/-- The duplicate test touches the windows only. -/
theorem isRecentDuplicate_else (t : UdpTransport H) (topicId : UInt32) (seq : UInt16) :
    (isRecentDuplicate t topicId seq).2.relayDedupEnabled = t.relayDedupEnabled ∧
      (isRecentDuplicate t topicId seq).2.handlers = t.handlers ∧
      (isRecentDuplicate t topicId seq).2.registerReplyQueue = t.registerReplyQueue := by
  unfold isRecentDuplicate
  simp only
  split <;> exact ⟨rfl, rfl, rfl⟩

theorem SameState.dropDuplicate (h : SameState Q t p) (topicId : UInt32) (seq : UInt16) :
    (Py.dropDuplicate p topicId seq).1 = (dropDuplicate t topicId seq).1 ∧
      SameState Q (dropDuplicate t topicId seq).2 (Py.dropDuplicate p topicId seq).2 := by
  obtain ⟨kept, hcpp, hpy⟩ := h.windows
  obtain ⟨hanswer, hafter⟩ := hcpp.ask (topicId, seq)
  obtain ⟨hanswer', hafter'⟩ := hpy.ask (topicId, seq)
  unfold Py.dropDuplicate Transport.dropDuplicate
  rw [h.armed]
  split
  · obtain ⟨hkeepArmed, hhandlers, hqueue⟩ := isRecentDuplicate_else t topicId seq
    refine ⟨hanswer'.trans hanswer.symm, ⟨⟨_, hafter, hafter'⟩, ?_, ?_, ?_⟩⟩
    · exact hkeepArmed.symm
    · exact h.handlers.trans hhandlers.symm
    · rw [hqueue]
      exact h.queue
  · exact ⟨rfl, h⟩

theorem SameState.deliver (h : SameState Q t p) (call : H → Bytes → Except F (H × O))
    (topicId : UInt32) (payload : Bytes) :
    Alike (SameState Q) (deliver call t topicId payload) (Py.deliver call p topicId payload) := by
  unfold Transport.deliver Py.deliver
  rw [h.handlers]
  cases t.handlers[topicId]? with
  | none => exact .ok _ h
  | some handler =>
    simp only
    cases call handler payload with
    | error e => exact .error e
    | ok r => exact .ok _ ⟨h.windows, h.armed, rfl, h.queue⟩

theorem SameState.dispatchFrame (h : SameState Q t p) (call : H → Bytes → Except F (H × O))
    (frame : DecodedFrame) :
    Alike (SameState Q) (dispatchFrame call t frame)
      (Py.dispatchFrame call p (Wire.Py.DecodedFrame.of frame)) := by
  obtain ⟨hanswer, hdropped⟩ := h.dropDuplicate frame.header.topicId frame.header.seqNum
  unfold Transport.dispatchFrame Py.dispatchFrame
  simp only [Wire.Py.DecodedFrame.of, hanswer]
  split
  · exact .ok _ hdropped
  · exact hdropped.deliver call _ _

/-- The C++ transport after a datagram that is no frame. -/
def handedOff (t : UdpTransport H) (bytes : Bytes) : UdpTransport H :=
  if bytes = [] then t else handOff t bytes

theorem recvAndDispatch_other (call : H → Bytes → Except F (H × O)) (t : UdpTransport H)
    {bytes : Bytes} {e : DecodeResult} (h : decodeFrame bytes = .error e) :
    recvAndDispatch call t bytes =
      .ok (handedOff t bytes, if bytes = [] then .nothing else .handedOff) := by
  unfold recvAndDispatch handedOff
  rw [h]
  split <;> rfl

theorem getElem?_insert (handlers : ExtTreeMap UInt32 H) (topic : UInt32) (h : H) (k : UInt32) :
    (handlers.insert topic h)[k]? = if topic = k then some h else handlers[k]? := by
  rw [ExtTreeMap.getElem?_insert]
  exact if_congr Std.compare_eq_iff_eq rfl rfl

theorem handedOff_else (t : UdpTransport H) (bytes : Bytes) :
    (handedOff t bytes).recentSeqs = t.recentSeqs ∧
      (handedOff t bytes).relayDedupEnabled = t.relayDedupEnabled ∧
      (handedOff t bytes).handlers = t.handlers := by
  unfold handedOff handOff
  split
  · exact ⟨rfl, rfl, rfl⟩
  · split <;> exact ⟨rfl, rfl, rfl⟩

theorem SameState.handedOff (h : SameState Q t p) {bytes : Bytes}
    (hq : Q (handedOff t bytes).registerReplyQueue (p.registerReplyQueue ++ [bytes])) :
    SameState Q (handedOff t bytes)
      {p with registerReplyQueue := p.registerReplyQueue ++ [bytes]} := by
  obtain ⟨hseqs, harmed, hhandlers⟩ := handedOff_else t bytes
  obtain ⟨kept, hkept, hkept'⟩ := h.windows
  refine ⟨⟨kept, fun topic => ?_, hkept'⟩, h.armed.trans harmed.symm, h.handlers.trans hhandlers.symm,
    hq⟩
  have hwindow : (Transport.handedOff t bytes).window topic = t.window topic := by
    rw [UdpTransport.window, UdpTransport.window, hseqs]
  rw [hwindow]
  exact hkept topic

/-- A datagram is the same frame to both, or to both none. -/
theorem SameState.datagram (h : SameState Q t p) (uncaught : Wire.Py.Exn → F)
    (call : H → Bytes → Except F (H × O)) (bytes : Bytes)
    (hq : (decodeFrame bytes).toOption = none →
      Q (Transport.handedOff t bytes).registerReplyQueue (p.registerReplyQueue ++ [bytes])) :
    Alike (SameState Q) (next call t (.datagram bytes))
      (Py.next uncaught call p (.datagram bytes)) := by
  have hdecode := Wire.Py.decodeFrame_eq bytes
  unfold next Py.next Py.recvAndDispatch
  simp only
  cases hcpp : decodeFrame bytes with
  | error e =>
    have hunseen : (if bytes = [] then Outcome.nothing else Outcome.handedOff : Outcome O).seen =
        none := by
      split <;> rfl
    rw [hcpp] at hdecode hq
    cases hpy : Wire.Py.decodeFrame bytes with
    | ok frame =>
      rw [hpy] at hdecode
      cases hdecode
    | error e' =>
      obtain ⟨message, rfl⟩ := Py.decodeFrame_error hpy
      rw [recvAndDispatch_other call t hcpp]
      simp only [Except.map, hunseen]
      exact .ok none (h.handedOff (hq rfl))
  | ok frame =>
    rw [hcpp] at hdecode
    have hpy := toOption_eq_some_iff.mp hdecode
    rw [hpy, recvAndDispatch_frame call t hcpp]
    exact (h.dispatchFrame call frame).map Outcome.seen

/-! ### Runs -/

theorem SameState.start (hq : Q [] []) : SameState Q ({} : UdpTransport H) {} :=
  ⟨⟨_, remembered_unasked {}, Py.remembered_empty⟩, rfl, rfl, hq⟩

/-- What is not a datagram, and not a wait for a reply. -/
theorem SameState.setTopicHandler (h : SameState Q t p) (topicId : UInt32) (handler : H) :
    SameState Q (setTopicHandler t topicId handler) (Py.setTopicHandler p topicId handler) :=
  ⟨h.windows, h.armed, congrArg (·.insert topicId handler) h.handlers, h.queue⟩

theorem SameState.enableRelayDedup (h : SameState Q t p) :
    SameState Q (enableRelayDedup t) (Py.enableRelayDedup p) :=
  ⟨h.windows, rfl, h.handlers, h.queue⟩

theorem SameState.getRegisterReply (h : SameState Q t p)
    (hq : Q t.registerReplyQueue.tail p.registerReplyQueue.tail) :
    SameState Q (getRegisterReply t).1 (Py.getRegisterReply p).1 :=
  ⟨h.windows, h.armed, h.handlers, hq⟩

/-- The Python queue has what the C++ one has, and perhaps more. -/
abbrev MoreQueued : UdpTransport H → Py.Receiver H → Prop := SameState fun q q' => q.Sublist q'

abbrev SameQueued : UdpTransport H → Py.Receiver H → Prop := SameState fun q q' => q = q'

theorem handedOff_sublist (t : UdpTransport H) (bytes : Bytes) {q : List Bytes}
    (hq : t.registerReplyQueue.Sublist q) :
    (handedOff t bytes).registerReplyQueue.Sublist (q ++ [bytes]) := by
  have hmore : t.registerReplyQueue.Sublist (q ++ [bytes]) := hq.trans (List.sublist_append_left _ _)
  unfold handedOff handOff
  split
  · exact hmore
  · split
    · exact hq.append_right [bytes]
    · exact hmore

theorem handedOff_kept {bytes : Bytes} (hkeeps : Keeps t (.datagram bytes))
    (hnone : (decodeFrame bytes).toOption = none) :
    (handedOff t bytes).registerReplyQueue = t.registerReplyQueue ++ [bytes] := by
  rw [handedOff, if_neg hkeeps.1, handOff, if_pos (hkeeps.2 hnone)]

/-- The answers of waits aside, a step of the builds is the same. -/
theorem next_frames (h : MoreQueued t p) (uncaught : Wire.Py.Exn → F)
    (call : H → Bytes → Except F (H × O)) (e : Input H) :
    Alike MoreQueued (frames (next call) t e) (frames (Py.next uncaught call) p e) := by
  cases e with
  | datagram bytes =>
    have halike := h.datagram uncaught call bytes fun _ => handedOff_sublist t bytes h.queue
    exact halike.map (Option.filter Seen.isFrame)
  | setTopicHandler topicId handler => exact .ok none (h.setTopicHandler topicId handler)
  | enableRelayDedup => exact .ok none h.enableRelayDedup
  | getRegisterReply => exact .ok none (h.getRegisterReply h.queue.tail)

theorem next_same (h : SameQueued t p) (uncaught : Wire.Py.Exn → F)
    (call : H → Bytes → Except F (H × O)) {e : Input H} (hkeeps : Keeps t e) :
    Alike SameQueued (next call t e) (Py.next uncaught call p e) := by
  cases e with
  | datagram bytes =>
    exact h.datagram uncaught call bytes fun hnone => by rw [handedOff_kept hkeeps hnone, h.queue]
  | setTopicHandler topicId handler => exact .ok none (h.setTopicHandler topicId handler)
  | enableRelayDedup => exact .ok none h.enableRelayDedup
  | getRegisterReply =>
    have hhead : (Py.getRegisterReply p).2 = (getRegisterReply t).2 := by
      rw [Py.getRegisterReply, getRegisterReply, h.queue]
    rw [next, Py.next, hhead]
    exact .ok _ (h.getRegisterReply (congrArg List.tail h.queue))

/-- On the same stream of datagrams, subscriptions and registration calls, the two builds call the
same handlers with the same payloads, drop the same duplicates, and fault at the same point; and
nothing but a `FrameError` is raised. The waits have the same answers too, while no empty
datagram arrives and none that is no frame finds sixteen in the queue. -/
theorem builds_receive_alike (uncaught : Wire.Py.Exn → F) (call : H → Bytes → Except F (H × O))
    (es : List (Input H)) :
    Alike MoreQueued (emits (frames (next call)) {} es)
      (emits (frames (Py.next uncaught call)) {} es) ∧
    (ThroughoutOk (next call) Keeps {} es →
      Alike SameQueued (emits (next call) {} es) (emits (Py.next uncaught call) {} es)) := by
  constructor
  · apply emits_alike MoreQueued (fun _ _ => True)
    · exact fun t p e h _ => next_frames h uncaught call e
    · exact SameState.start (List.Sublist.refl [])
    · exact ThroughoutOk.of_mem (fun _ _ _ => trivial) _
  · intro hkeeps
    apply emits_alike SameQueued Keeps
    · exact fun t p e h hk => next_same h uncaught call hk
    · exact SameState.start rfl
    · exact hkeeps

/-- A subscription, a frame that comes twice, and an ack. -/
def someInputs : List (Input Unit) :=
  [.setTopicHandler 7 (), .enableRelayDedup, .datagram (frameBytes 7 0 [1]),
    .datagram (frameBytes 7 0 [1]), .datagram [0, 0, 0], .getRegisterReply]

theorem builds_receive_alike_some :
    ThroughoutOk (next (F := Empty) fun h payload => .ok (h, payload)) Keeps {} someInputs ∧
    Alike SameQueued (emits (next (F := Wire.Py.Exn) fun h payload => .ok (h, payload)) {} someInputs)
      (emits (Py.next id fun h payload => .ok (h, payload)) {} someInputs) :=
  ⟨by decide +kernel, (builds_receive_alike id _ someInputs).2 (by decide +kernel)⟩

end

end Relink.Transport
