import Relink.Discovery.Names
import Relink.Transport.Publish

/-! The send buffer of a transport, between threads.

`publish_raw` writes its frame into `send_buf_` and then hands the first bytes of the buffer to
`sendto`, without a lock. The user's publish calls and the node's own punch threads run it on one
transport. `own_frames_iff` says in which interleavings every datagram is the frame of the call
that sends it. -/
namespace Relink.Transport.SendBuffer
open Wire
open Discovery (kNatPunchTopicId)

/-! ### Threads on one transport -/

/-- What a thread asks of the transport: a number, or one `publish_raw` with the number it drew
last. -/
inductive Op where
  | nextSeq
  | publishRaw (topicId : UInt32) (payload : Bytes) (peer : PeerAddr)
deriving DecidableEq

/-- What threads do: a node's publish call, to its peers and the relay if it is to go there, or
`nat_punch`. -/
inductive Call where
  | publish (payload : Bytes) (d : Destinations)
  | natPunch (peer : PeerAddr)

def Call.ops : Call → List Op
  | .publish payload d =>
    .nextSeq :: (d.peers ++ d.relay.toList).map fun peer => .publishRaw d.topicId payload peer
  | .natPunch peer =>
    (List.replicate 3 [.nextSeq, .publishRaw kNatPunchTopicId [] peer]).flatten

/-- The arguments of one `publish_raw`. -/
structure Request where
  topicId : UInt32
  seq : UInt16
  payload : Bytes
  peer : PeerAddr
deriving DecidableEq

/-- Between `encode_frame` and `sendto`. -/
structure Encoded where
  request : Request
  frameLen : Nat
deriving DecidableEq

structure Thread where
  ops : List Op
  seq : UInt16 := 0
  pending : Option Encoded := none

/-- A datagram as it was handed to `sendto`, and the call that did. -/
structure Handed where
  request : Request
  bytes : Bytes
deriving DecidableEq

/-- `encoded` is the call whose frame was written last. -/
structure World where
  seqCounter : UInt16
  sendBuf : Bytes
  threads : Nat → Thread
  encoded : Option Request := none
  sent : List Handed := []

/-- The frame a call asks for. -/
def Request.encode (r : Request) : Except EncodeResult Bytes :=
  encodeFrame r.topicId r.seq r.payload kMaxFrameBytes

namespace World
variable (w : World) (tid : Nat)

def setThread (t : Thread) : World := {w with threads := Function.update w.threads tid t}

/-- `encode_frame` into `send_buf_`. -/
def encode (t : Thread) (r : Request) : World :=
  match r.encode with
  | .error _ => w.setThread tid t
  | .ok frame =>
    { w.setThread tid {t with pending := some ⟨r, frame.length⟩} with
      sendBuf := Buffer.write w.sendBuf 0 frame
      encoded := some r }

/-- `sendto` reads `send_buf_`. -/
def sendTo (t : Thread) (e : Encoded) : World :=
  { w.setThread tid {t with pending := none} with
    sent := w.sent ++ [⟨e.request, w.sendBuf.take e.frameLen⟩] }

/-- The next step of a thread. -/
def step : World :=
  let t := w.threads tid
  match t.pending, t.ops with
  | some e, _ => w.sendTo tid t e
  | none, [] => w
  | none, .nextSeq :: rest =>
    {w.setThread tid {t with ops := rest, seq := w.seqCounter} with seqCounter := w.seqCounter + 1}
  | none, .publishRaw topicId payload peer :: rest =>
    w.encode tid {t with ops := rest} ⟨topicId, t.seq, payload, peer⟩

end World

/-- Threads with their calls before them; the buffer holds anything. -/
def World.start (seqCounter : UInt16) (sendBuf : Vector UInt8 kMaxFrameBytes)
    (calls : Nat → List Call) : World :=
  ⟨seqCounter, sendBuf.toList, fun tid => {ops := (calls tid).flatMap Call.ops}, none, []⟩

/-! ### Own frames, and the same frame until it is sent -/

/-- Every datagram is the frame of the call that sent it. -/
def OwnFrames (w : World) : Prop := ∀ s ∈ w.sent, s.request.encode = .ok s.bytes

/-- A thread sends only while the last frame written was its call's, or another call's with the same
topic, number and payload. -/
def SameFrame (w : World) (tid : Nat) : Prop :=
  ∀ e, (w.threads tid).pending = some e → ∀ r, w.encoded = some r →
    r.topicId = e.request.topicId ∧ r.seq = e.request.seq ∧ r.payload = e.request.payload

/-- The frame written last lies at the front of the buffer, and calls that wait to send know the
length of theirs. -/
structure Valid (w : World) : Prop where
  room : w.sendBuf.length = kMaxFrameBytes
  front : ∀ r, w.encoded = some r → ∃ frame, r.encode = .ok frame ∧ frame <+: w.sendBuf
  pending : ∀ tid e, (w.threads tid).pending = some e →
    w.encoded.isSome ∧ ∃ frame, e.request.encode = .ok frame ∧ frame.length = e.frameLen

/-! ### Frames -/

theorem encode_ok {r : Request} {frame : Bytes} (h : r.encode = .ok frame) :
    r.payload.length ≤ kMaxPayloadBytes ∧ frame = frameBytes r.topicId r.seq r.payload := by
  by_cases hlen : r.payload.length ≤ kMaxPayloadBytes
  · rw [Request.encode, encodeFrame_ok _ _ _ hlen] at h
    exact ⟨hlen, (Except.ok.inj h).symm⟩
  · rw [Request.encode, encodeFrame, if_pos (by omega)] at h
    cases h

/-- What is sent is the call's frame exactly if the last one written is. -/
theorem take_encoded_iff {buf frame last : Bytes} {r r' : Request} (hframe : r.encode = .ok frame)
    (hlast : r'.encode = .ok last) (hfront : last <+: buf) :
    r.encode = .ok (buf.take frame.length) ↔
      r'.topicId = r.topicId ∧ r'.seq = r.seq ∧ r'.payload = r.payload := by
  obtain ⟨hlen, hbytes⟩ := encode_ok hframe
  obtain ⟨hlen', hbytes'⟩ := encode_ok hlast
  rw [kMaxPayloadBytes] at hlen hlen'
  constructor
  · intro h
    rw [hframe] at h
    have hprefix : frame <+: buf := by
      rw [Except.ok.inj h]
      exact List.take_prefix _ _
    rcases List.prefix_or_prefix_of_prefix hprefix hfront with hbegins | hbegins
    · rw [hbytes, hbytes'] at hbegins
      obtain ⟨htopic, hseq, hpayload⟩ := frameBytes_prefix (by omega) (by omega) hbegins
      exact ⟨htopic.symm, hseq.symm, hpayload.symm⟩
    · rw [hbytes, hbytes'] at hbegins
      exact frameBytes_prefix (by omega) (by omega) hbegins
  · rintro ⟨htopic, hseq, hpayload⟩
    have hsame : last = frame := by rw [hbytes, hbytes', htopic, hseq, hpayload]
    rw [hframe, ← hsame, ← List.prefix_iff_eq_take.mp hfront]

/-! ### One step -/

variable {w : World}

/-- What a step of a thread does. -/
theorem step_cases (w : World) (tid : Nat) :
    (∃ e, (w.threads tid).pending = some e ∧ w.step tid = w.sendTo tid (w.threads tid) e) ∨
    ((w.threads tid).pending = none ∧
      (w.step tid = w ∨
      (∃ rest, w.step tid = {w.setThread tid {w.threads tid with ops := rest, seq := w.seqCounter} with
        seqCounter := w.seqCounter + 1}) ∨
      ∃ rest r, w.step tid = w.encode tid {w.threads tid with ops := rest} r)) := by
  unfold World.step
  simp only
  cases hpending : (w.threads tid).pending with
  | some e => exact Or.inl ⟨e, rfl, rfl⟩
  | none =>
    refine Or.inr ⟨rfl, ?_⟩
    cases (w.threads tid).ops with
    | nil => exact Or.inl rfl
    | cons op rest =>
      cases op with
      | nextSeq => exact Or.inr (Or.inl ⟨rest, rfl⟩)
      | publishRaw topicId payload peer => exact Or.inr (Or.inr ⟨rest, _, rfl⟩)

theorem valid_setThread (hw : Valid w) (tid : Nat) {t : Thread} (h : t.pending = none) :
    Valid (w.setThread tid t) := by
  refine {hw with pending := fun other e he => ?_}
  by_cases heq : other = tid
  · subst heq
    simp only [World.setThread, Function.update_self, h] at he
    cases he
  · simp only [World.setThread, Function.update_of_ne heq] at he
    exact hw.pending other e he

theorem valid_encode (hw : Valid w) (tid : Nat) {t : Thread} (h : t.pending = none) (r : Request) :
    Valid (w.encode tid t r) := by
  unfold World.encode
  split
  · exact valid_setThread hw tid h
  · next frame hframe =>
    have hroom : 0 + frame.length ≤ w.sendBuf.length := by
      obtain ⟨hlen, hbytes⟩ := encode_ok hframe
      rw [hw.room, hbytes, frameBytes_length, kMaxFrameBytes, kHeaderBytes]
      omega
    refine ⟨?_, fun r' hr' => ?_, fun other e he => ⟨rfl, ?_⟩⟩
    · exact (Buffer.write_length hroom).trans hw.room
    · cases hr'
      exact ⟨frame, hframe, List.prefix_append _ _⟩
    · by_cases heq : other = tid
      · subst heq
        simp only [World.setThread, Function.update_self] at he
        cases he
        exact ⟨frame, hframe, rfl⟩
      · simp only [World.setThread, Function.update_of_ne heq] at he
        exact (hw.pending other e he).2

theorem valid_step (hw : Valid w) (tid : Nat) : Valid (w.step tid) := by
  obtain ⟨e, _, hstep⟩ | ⟨hpending, hstep | ⟨rest, hstep⟩ | ⟨rest, r, hstep⟩⟩ := step_cases w tid
  · rw [hstep]
    exact {valid_setThread hw tid rfl with}
  · rwa [hstep]
  · rw [hstep]
    let t : Thread := {w.threads tid with ops := rest, seq := w.seqCounter}
    have ht : t.pending = none := hpending
    exact {valid_setThread hw tid ht with}
  · rw [hstep]
    let t : Thread := {w.threads tid with ops := rest}
    have ht : t.pending = none := hpending
    exact valid_encode hw tid ht r

/-- **One step** hands over its own frame exactly if the last frame written is the same. -/
theorem ownFrames_step (hw : Valid w) (tid : Nat) :
    OwnFrames (w.step tid) ↔ OwnFrames w ∧ SameFrame w tid := by
  obtain ⟨e, hpending, hstep⟩ | ⟨hpending, hquiet⟩ := step_cases w tid
  · obtain ⟨hencoded, frame, hframe, hlen⟩ := hw.pending tid e hpending
    obtain ⟨r, hr⟩ := Option.isSome_iff_exists.mp hencoded
    obtain ⟨last, hlast, hfront⟩ := hw.front r hr
    have hsame : SameFrame w tid ↔ r.topicId = e.request.topicId ∧ r.seq = e.request.seq ∧
        r.payload = e.request.payload := by
      simp only [SameFrame, hpending, hr, Option.some.injEq, forall_eq']
    rw [hsame, ← take_encoded_iff hframe hlast hfront, hlen, hstep]
    simp only [OwnFrames, World.sendTo, List.forall_mem_append, List.forall_mem_singleton]
  · have hsent : (w.step tid).sent = w.sent := by
      obtain hstep | ⟨rest, hstep⟩ | ⟨rest, r, hstep⟩ := hquiet
      · rw [hstep]
      · rw [hstep]
        rfl
      · rw [hstep, World.encode]
        split <;> rfl
    rw [OwnFrames, hsent]
    exact (and_iff_left fun e he => by rw [hpending] at he; cases he).symm

/-! ### Whole runs -/

theorem valid_start (seqCounter : UInt16) (sendBuf : Vector UInt8 kMaxFrameBytes)
    (calls : Nat → List Call) : Valid (.start seqCounter sendBuf calls) where
  room := by rw [World.start, Vector.length_toList]
  front r hr := by cases hr
  pending tid e he := by cases he

/-- **Each datagram is the frame its caller asked for**, in an interleaving of any threads' publish
calls and punches, exactly if no thread sends after another one has written a different frame. -/
theorem own_frames_iff (seqCounter : UInt16) (sendBuf : Vector UInt8 kMaxFrameBytes)
    (calls : Nat → List Call) (schedule : List Nat) :
    OwnFrames (schedule.foldl World.step (.start seqCounter sendBuf calls)) ↔
      Transition.Throughout World.step SameFrame (.start seqCounter sendBuf calls) schedule := by
  have hany : Transition.Throughout World.step (fun _ _ => True) (.start seqCounter sendBuf calls)
      schedule := Transition.Throughout.of_mem (fun _ _ _ => trivial) _
  rw [Transition.Throughout.property_iff Valid OwnFrames (fun _ tid hw _ => valid_step hw tid)
    (fun _ tid hw _ => ownFrames_step hw tid) (valid_start seqCounter sendBuf calls) hany]
  exact and_iff_right fun s hs => (by cases hs)

/-! ### A punch between the two steps -/

/-- A publish of topic 7 to one peer, and a punch. -/
def twoThreads : Nat → List Call
  | 0 => [.publish [1] ⟨7, [⟨1, 2⟩], none⟩]
  | 1 => [.natPunch ⟨1, 2⟩]
  | _ => []

/-- The publish encodes, the punch encodes, the publish sends. -/
theorem punch_between_swaps :
    ¬ OwnFrames ([0, 0, 1, 1, 0].foldl World.step
      (.start 0 (Vector.replicate kMaxFrameBytes 0) twoThreads)) := by
  unfold OwnFrames
  decide +kernel

end Relink.Transport.SendBuffer
