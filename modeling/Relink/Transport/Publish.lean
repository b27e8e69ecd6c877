import Mathlib.Data.List.Forall2
import Relink.Image.Publish

/-! What a publish call sends.

`publish_raw` and `publish<T>` number a message once and encode it anew for every destination;
`publish_image` and `publish_compressed_image` hand each chunk to the kernel in pieces, and
number each datagram. -/
namespace Relink.Transport
open Wire

structure PeerAddr where
  ip : UInt32
  port : UInt16
deriving DecidableEq, Repr

/-- A datagram handed to the kernel, and whether the call took it whole. -/
structure Sent where
  dest : PeerAddr
  frame : Bytes
  accepted : Bool
deriving DecidableEq, Repr

/-- The sending half of a transport. -/
structure Outgoing where
  seqCounter : UInt16 := 0
  sent : List Sent := []
deriving DecidableEq, Repr

/-- What a publish call reads of the node: the known peers of its topic, and the relay, if it
is enabled. -/
structure Destinations where
  topicId : UInt32
  peers : List PeerAddr
  relay : Option PeerAddr

section
variable (accepts : Nat → Bool)

/-- The `n`-th send has the outcome `accepts n`. -/
def sendTo (t : Outgoing) (peer : PeerAddr) (frame : Bytes) : Outgoing × Bool :=
  ({t with sent := t.sent ++ [⟨peer, frame, accepts t.sent.length⟩]}, accepts t.sent.length)

/-- `UdpTransport::publish_raw` with a number. -/
def publishRawTo (t : Outgoing) (topicId : UInt32) (payload : Bytes) (peer : PeerAddr)
    (seq : UInt16) : Outgoing × Bool :=
  match encodeFrame topicId seq payload kMaxFrameBytes with
  | .error _ => (t, false)
  | .ok frame => sendTo accepts t peer frame

def publishScattered (t : Outgoing) (topicId : UInt32) (extraHeader data : Bytes)
    (peer : PeerAddr) : Outgoing × Bool :=
  let payloadLen := extraHeader.length + data.length
  if kMaxPayloadBytes < payloadLen then (t, false)
  else
    let header : RelinkHeader := ⟨topicId, t.seqCounter, UInt16.ofNat payloadLen, 0⟩
    sendTo accepts {t with seqCounter := t.seqCounter + 1} peer
      ([kStartByte] ++ (header.pack ++ (extraHeader ++ (data ++ [kStopByte]))))

end

/-- `all_ok = send(peer) && all_ok`, peer by peer. -/
def sendAll (send : Outgoing → PeerAddr → Outgoing × Bool) (start : Outgoing × Bool)
    (peers : List PeerAddr) : Outgoing × Bool :=
  peers.foldl (fun r peer => ((send r.1 peer).1, (send r.1 peer).2 && r.2)) start

section
variable (accepts : Nat → Bool) (d : Destinations)

/-- What `publish_raw` and `publish<T>` have in common. -/
def publishFrame (relayed : Bool) (t : Outgoing) (payload : Bytes) : Outgoing × Bool :=
  let send := fun t peer => publishRawTo accepts t d.topicId payload peer
  let direct := sendAll (fun t' peer => send t' peer t.seqCounter)
    ({t with seqCounter := t.seqCounter + 1}, true) d.peers
  let relay := match d.relay with
    | some peer => if relayed then send direct.1 peer t.seqCounter else (direct.1, false)
    | none => (direct.1, false)
  (relay.1, (direct.2 && !d.peers.isEmpty) || relay.2)

def publishRaw (t : Outgoing) (payload : Bytes) : Outgoing × Bool :=
  publishFrame accepts d true t payload

/-- `publish<T>`. `largeBlob` is `kIsLargeBlob`: `T` is one of the two chunk types. -/
def publishValue (largeBlob : Bool) (t : Outgoing) (value : Bytes) : Outgoing × Bool :=
  publishFrame accepts d (!largeBlob) t value

/-- The sending loop over the chunks, each to every peer. -/
def publishChunks (dataBytes : Nat) (stamp : Bytes) (frameId : UInt32) (data : Bytes)
    (t : Outgoing) : Outgoing × Bool :=
  let count := Image.chunkCount dataBytes data.length
  (List.range count.toNat).foldl (fun r i =>
    let n := min dataBytes (data.length - i * dataBytes)
    sendAll (fun t peer => publishScattered accepts t d.topicId
      (Image.chunkHeader stamp frameId count i n) (Image.chunkData dataBytes data i) peer)
      r d.peers) (t, true)

def publishImage (t : Outgoing) (image : Image.Published Unit) : Outgoing × Bool :=
  if Image.kMaxImageBytes < image.data.length then (t, false)
  else publishChunks accepts d Image.kImageChunkDataBytes [] image.frameId image.data t

def publishCompressedImage (t : Outgoing) (image : Image.Published Image.CaptureStamp) :
    Outgoing × Bool :=
  if Image.kMaxCompressedImageBytes < image.data.length then (t, false)
  else publishChunks accepts d Image.kCompressedImageChunkDataBytes
    (LittleEndian.u64 image.stamp.captureTimestampNs ++ [image.stamp.quality]) image.frameId
      image.data t

end

/-! ### The calls and their messages -/

inductive PublishCall where
  | raw (payload : Bytes)
  | value (largeBlob : Bool) (bytes : Bytes)
  | image (image : Image.Published Unit)
  | compressedImage (image : Image.Published Image.CaptureStamp)

namespace PublishCall

def run (accepts : Nat → Bool) (d : Destinations) (t : Outgoing) : PublishCall → Outgoing × Bool
  | .raw payload => publishRaw accepts d t payload
  | .value largeBlob bytes => publishValue accepts d largeBlob t bytes
  | .image p => publishImage accepts d t p
  | .compressedImage p => publishCompressedImage accepts d t p

/-- The payloads of the wire messages that a call produces; what is over a limit is refused. -/
def messages : PublishCall → List Bytes
  | .raw payload => if kMaxPayloadBytes < payload.length then [] else [payload]
  | .value _ bytes => if kMaxPayloadBytes < bytes.length then [] else [bytes]
  | .image p => if Image.kMaxImageBytes < p.data.length then [] else Image.imageChunks p
  | .compressedImage p =>
    if Image.kMaxCompressedImageBytes < p.data.length then [] else Image.compressedImageChunks p

/-- One message, which is not an image's chunks. -/
def single : PublishCall → Bool
  | .raw _ => true
  | .value _ _ => true
  | _ => false

/-- Chunks never go to the relay. -/
def relayed : PublishCall → Bool
  | .raw _ => true
  | .value largeBlob _ => !largeBlob
  | _ => false

/-- Where each message goes. -/
def dests (d : Destinations) (call : PublishCall) : List PeerAddr :=
  d.peers ++ if call.relayed then d.relay.toList else []

end PublishCall

/-- A message's copies: one to each destination. -/
def FansOut (topicId : UInt32) (dests : List PeerAddr) (payload : Bytes) (copies : List Sent) :
    Prop :=
  copies.map Sent.dest = dests ∧ ∀ c ∈ copies, ∃ seq, c.frame = frameBytes topicId seq payload

section
variable {accepts : Nat → Bool} {P : Sent → Prop}

/-- A send that hands over one datagram. -/
def SendsOne (P : Sent → Prop) (send : Outgoing → PeerAddr → Outgoing × Bool) : Prop :=
  ∀ t peer, ∃ c, (send t peer).1.sent = t.sent ++ [c] ∧ c.dest = peer ∧ P c ∧
    (send t peer).2 = c.accepted

theorem sendAll_sent {send : Outgoing → PeerAddr → Outgoing × Bool} (hsend : SendsOne P send)
    (peers : List PeerAddr) (t : Outgoing) (ok : Bool) :
    ∃ copies, (sendAll send (t, ok) peers).1.sent = t.sent ++ copies ∧
      copies.map Sent.dest = peers ∧ (∀ c ∈ copies, P c) ∧
      (sendAll send (t, ok) peers).2 = (copies.all Sent.accepted && ok) := by
  induction peers generalizing t ok with
  | nil => exact ⟨[], (List.append_nil _).symm, rfl, fun c hc => absurd hc List.not_mem_nil, rfl⟩
  | cons peer rest ih =>
    obtain ⟨c, hsent, hdest, hc, hok⟩ := hsend t peer
    obtain ⟨copies, hrest, hdests, hall, hoks⟩ := ih (send t peer).1 ((send t peer).2 && ok)
    refine ⟨c :: copies, ?_, ?_, fun c' hc' => ?_, ?_⟩
    · rw [sendAll, List.foldl_cons, ← sendAll, hrest, hsent, List.append_assoc]
      rfl
    · rw [List.map_cons, hdest, hdests]
    · rcases List.mem_cons.mp hc' with rfl | hc'
      · exact hc
      · exact hall c' hc'
    · rw [sendAll, List.foldl_cons, ← sendAll, hoks, hok, List.all_cons]
      cases c.accepted <;> simp

theorem sendsOne_publishRawTo (accepts : Nat → Bool) {payload : Bytes} (hle : payload.length ≤ kMaxPayloadBytes)
    (topicId : UInt32) (seq : UInt16) :
    SendsOne (fun c => c.frame = frameBytes topicId seq payload)
      (fun t peer => publishRawTo accepts t topicId payload peer seq) := by
  intro t peer
  simp only [publishRawTo, encodeFrame_ok topicId seq payload hle]
  exact ⟨_, rfl, rfl, rfl, rfl⟩

theorem sendsOne_publishScattered (accepts : Nat → Bool) {extraHeader data : Bytes}
    (hle : extraHeader.length + data.length ≤ kMaxPayloadBytes) (topicId : UInt32) :
    SendsOne (fun c => ∃ seq, c.frame = frameBytes topicId seq (extraHeader ++ data))
      (fun t peer => publishScattered accepts t topicId extraHeader data peer) := by
  intro t peer
  simp only [publishScattered, if_neg (Nat.not_lt.mpr hle)]
  refine ⟨_, rfl, rfl, ⟨t.seqCounter, ?_⟩, rfl⟩
  simp [frameBytes]

end

/-! ### One message -/

section
variable (accepts : Nat → Bool) (d : Destinations)

/-- Refused by `encode_frame` at every destination: nothing goes out. -/
theorem sendAll_refused {send : Outgoing → PeerAddr → Outgoing × Bool}
    (hsend : ∀ t peer, send t peer = (t, false)) (peers : List PeerAddr) (t : Outgoing) (ok : Bool) :
    sendAll send (t, ok) peers = (t, ok && peers.isEmpty) := by
  induction peers generalizing ok with
  | nil => simp [sendAll]
  | cons peer rest ih =>
    have hrest := ih false
    rw [sendAll, List.foldl_cons, ← sendAll, hsend, Bool.false_and, hrest]
    simp

theorem publishRawTo_refused {payload : Bytes} (hlong : kMaxPayloadBytes < payload.length)
    (t : Outgoing) (topicId : UInt32) (peer : PeerAddr) (seq : UInt16) :
    publishRawTo accepts t topicId payload peer seq = (t, false) := by
  rw [publishRawTo, encodeFrame, if_pos hlong]

theorem publishFrame_refused {payload : Bytes} (hlong : kMaxPayloadBytes < payload.length)
    (relayed : Bool) (t : Outgoing) :
    publishFrame accepts d relayed t payload = ({t with seqCounter := t.seqCounter + 1}, false) := by
  have hsend := publishRawTo_refused accepts hlong
  unfold publishFrame
  simp only [hsend, sendAll_refused fun _ _ => rfl]
  cases d.relay <;> cases relayed <;> simp

/-- All copies of a message have the number drawn first, and success takes an accepted one. -/
theorem publishFrame_sent {payload : Bytes} (hle : payload.length ≤ kMaxPayloadBytes)
    (relayed : Bool) (t : Outgoing) :
    ∃ copies, (publishFrame accepts d relayed t payload).1.sent = t.sent ++ copies ∧
      copies.map Sent.dest = d.peers ++ (if relayed then d.relay.toList else []) ∧
      (∀ c ∈ copies, c.frame = frameBytes d.topicId t.seqCounter payload) ∧
      ((publishFrame accepts d relayed t payload).2 = true → ∃ c ∈ copies, c.accepted = true) := by
  have hsend := sendsOne_publishRawTo accepts hle d.topicId t.seqCounter
  obtain ⟨copies, hsent, hdests, hframes, hok⟩ := sendAll_sent hsend d.peers
    {t with seqCounter := t.seqCounter + 1} true
  generalize hdirect : sendAll _ _ d.peers = direct at hsent hok
  have hpeer : direct.2 = true → d.peers.isEmpty = false → ∃ c ∈ copies, c.accepted = true := by
    intro htrue hsome
    rw [hok, Bool.and_true, List.all_eq_true] at htrue
    cases copies with
    | nil =>
      rw [← hdests] at hsome
      cases hsome
    | cons c rest => exact ⟨c, List.mem_cons_self, htrue c List.mem_cons_self⟩
  unfold publishFrame
  simp only [hdirect]
  have hnoRelay : ((direct.2 && !d.peers.isEmpty) || false) = true →
      ∃ c ∈ copies, c.accepted = true := by
    intro htrue
    rw [Bool.or_false, Bool.and_eq_true] at htrue
    exact hpeer htrue.1 (by simpa using htrue.2)
  cases hrelay : d.relay with
  | none => exact ⟨copies, hsent, by simp [hdests], hframes, hnoRelay⟩
  | some peer =>
    cases relayed with
    | false => exact ⟨copies, hsent, by simp [hdests], hframes, hnoRelay⟩
    | true =>
      obtain ⟨c, hsentc, hdestc, hframec, hokc⟩ := hsend direct.1 peer
      refine ⟨copies ++ [c], ?_, ?_, fun c' hc' => ?_, fun htrue => ?_⟩
      · exact hsentc.trans (by rw [hsent, List.append_assoc])
      · rw [List.map_append, List.map_singleton, hdests, hdestc]
        rfl
      · rcases List.mem_append.mp hc' with hc' | hc'
        · exact hframes c' hc'
        · rw [List.mem_singleton.mp hc']
          exact hframec
      · rcases Bool.or_eq_true_iff.mp htrue with htrue | htrue
        · rw [Bool.and_eq_true] at htrue
          obtain ⟨c', hc', haccepted⟩ := hpeer htrue.1 (by simpa using htrue.2)
          exact ⟨c', List.mem_append_left _ hc', haccepted⟩
        · exact ⟨c, List.mem_append_right _ List.mem_cons_self, hokc.symm.trans htrue⟩

end

/-! ### An image's chunks -/

section
variable (accepts : Nat → Bool) (d : Destinations)

/-- The chunks up to one of the loop's turns. -/
theorem chunks_sent {dataBytes : Nat} {stamp : Bytes} (frameId : UInt32) (data : Bytes)
    (count : UInt16) (hbudget : 10 + stamp.length + dataBytes = kMaxPayloadBytes)
    (is : List Nat) (t : Outgoing) (ok : Bool) :
    let r := is.foldl (fun r i =>
      let n := min dataBytes (data.length - i * dataBytes)
      sendAll (fun t peer => publishScattered accepts t d.topicId
        (Image.chunkHeader stamp frameId count i n) (Image.chunkData dataBytes data i) peer)
        r d.peers) (t, ok)
    ∃ groups : List (List Sent), r.1.sent = t.sent ++ groups.flatten ∧
      List.Forall₂ (FansOut d.topicId d.peers)
        (is.map (Image.chunkPayload dataBytes stamp frameId data count)) groups ∧
      r.2 = (groups.flatten.all Sent.accepted && ok) := by
  induction is generalizing t ok with
  | nil => exact ⟨[], (List.append_nil _).symm, .nil, rfl⟩
  | cons i rest ih =>
    have hlength : (Image.chunkHeader stamp frameId count i
        (min dataBytes (data.length - i * dataBytes))).length +
          (Image.chunkData dataBytes data i).length ≤ kMaxPayloadBytes := by
      simp only [Image.chunkHeader, Image.chunkData, Buffer.region, List.length_append,
        LittleEndian.u32_length, LittleEndian.u16_length, List.length_take]
      omega
    have hsend := sendsOne_publishScattered accepts hlength d.topicId
    obtain ⟨copies, hsent, hdests, hframes, hok⟩ := sendAll_sent hsend d.peers t ok
    generalize hturn : sendAll _ (t, ok) d.peers = turn at hsent hok
    obtain ⟨groups, hsents, hfans, hoks⟩ := ih turn.1 turn.2
    rw [List.foldl_cons]
    simp only [hturn]
    refine ⟨copies :: groups, ?_, .cons ⟨hdests, hframes⟩ hfans, ?_⟩
    · rw [hsents, hsent, List.append_assoc]
      rfl
    · rw [hoks, hok, List.flatten_cons, List.all_append]
      cases copies.all Sent.accepted <;> cases groups.flatten.all Sent.accepted <;> simp

/-- A whole image: each chunk to every peer, and success if every send was accepted. -/
theorem publishChunks_sent {dataBytes : Nat} {stamp : Bytes} (frameId : UInt32) (data : Bytes)
    (hbudget : 10 + stamp.length + dataBytes = kMaxPayloadBytes) (t : Outgoing) :
    let r := publishChunks accepts d dataBytes stamp frameId data t
    ∃ groups : List (List Sent), r.1.sent = t.sent ++ groups.flatten ∧
      List.Forall₂ (FansOut d.topicId d.peers)
        (Image.chunkPayloads dataBytes stamp frameId data) groups ∧
      (r.2 = true → d.peers ≠ [] → ∃ c ∈ groups.flatten, c.accepted = true) := by
  obtain ⟨groups, hsent, hfans, hok⟩ := chunks_sent accepts d frameId data
    (Image.chunkCount dataBytes data.length) hbudget
    (List.range (Image.chunkCount dataBytes data.length).toNat) t true
  refine ⟨groups, hsent, hfans, fun htrue hpeers => ?_⟩
  have hall := (Bool.and_true _).symm.trans (hok.symm.trans htrue)
  have hpos := Image.chunkCount_pos dataBytes data.length
  cases hfans' : groups with
  | nil =>
    have hlength := hfans.length_eq
    rw [hfans', List.length_map, List.length_range] at hlength
    exact absurd hlength (Nat.ne_of_gt hpos)
  | cons copies rest =>
    obtain ⟨peer, peers, hcons⟩ := List.exists_cons_of_ne_nil hpeers
    rw [hfans'] at hfans hall
    cases hrange : List.range (Image.chunkCount dataBytes data.length).toNat with
    | nil => exact absurd (List.range_eq_nil.mp hrange) (Nat.ne_of_gt hpos)
    | cons i is =>
      rw [hrange, List.map_cons] at hfans
      obtain ⟨hfan, -⟩ := List.forall₂_cons.mp hfans
      have hdests := hfan.1
      rw [hcons] at hdests
      cases copies with
      | nil => cases hdests
      | cons c more =>
        refine ⟨c, List.mem_append_left _ List.mem_cons_self, ?_⟩
        exact List.all_eq_true.mp hall c (List.mem_append_left _ List.mem_cons_self)

end

section
variable (accepts : Nat → Bool) (d : Destinations) (t : Outgoing)

/-- What is promised of a call that sends `groups` of copies, one group for each message. -/
structure Publishes (call : PublishCall) (groups : List (List Sent)) : Prop where
  sent : (call.run accepts d t).1.sent = t.sent ++ groups.flatten
  fansOut : List.Forall₂ (FansOut d.topicId (call.dests d)) call.messages groups
  /-- Copies of one message can be told from copies of two. -/
  numbered : call.single = true →
    ∃ seq, ∀ c ∈ groups.flatten, (RelinkHeader.unpack c.frame).seqNum = seq
  returned : (call.run accepts d t).2 = true → call.single = true ∨ d.peers ≠ [] →
    ∃ c ∈ groups.flatten, c.accepted = true

theorem publishFrame_publishes (call : PublishCall) (relayed : Bool) (payload : Bytes)
    (hrun : call.run accepts d t = publishFrame accepts d relayed t payload)
    (hmessages : call.messages = if kMaxPayloadBytes < payload.length then [] else [payload])
    (hrelayed : call.relayed = relayed) : ∃ groups, Publishes accepts d t call groups := by
  by_cases hlong : kMaxPayloadBytes < payload.length
  · rw [if_pos hlong] at hmessages
    have hnothing := hrun.trans (publishFrame_refused accepts d hlong relayed t)
    refine ⟨[], ?_, hmessages ▸ .nil, fun _ => ⟨0, fun c hc => absurd hc List.not_mem_nil⟩,
      fun htrue => ?_⟩
    · rw [hnothing]
      exact (List.append_nil _).symm
    · rw [hnothing] at htrue
      cases htrue
  · rw [if_neg hlong] at hmessages
    obtain ⟨copies, hsent, hdests, hframes, hok⟩ :=
      publishFrame_sent accepts d (Nat.le_of_not_lt hlong) relayed t
    have hflatten : [copies].flatten = copies := List.flatten_singleton
    refine ⟨[copies], ?_, ?_, fun _ => ⟨t.seqCounter, fun c hc => ?_⟩, fun htrue _ => ?_⟩
    · rw [hrun, hflatten, hsent]
    · rw [hmessages]
      refine .cons ⟨?_, fun c hc => ⟨t.seqCounter, hframes c hc⟩⟩ .nil
      rw [PublishCall.dests, hrelayed, hdests]
    · rw [hflatten] at hc
      rw [hframes c hc, unpack_frameBytes]
    · rw [hflatten]
      exact hok (hrun ▸ htrue)

theorem publishChunks_publishes (call : PublishCall) {dataBytes maxBytes : Nat} {stamp : Bytes}
    (frameId : UInt32) (data : Bytes)
    (hbudget : 10 + stamp.length + dataBytes = kMaxPayloadBytes)
    (hrun : call.run accepts d t = if maxBytes < data.length then (t, false) else
      publishChunks accepts d dataBytes stamp frameId data t)
    (hmessages : call.messages = if maxBytes < data.length then [] else
      Image.chunkPayloads dataBytes stamp frameId data)
    (hsingle : call.single = false) (hrelayed : call.relayed = false) :
    ∃ groups, Publishes accepts d t call groups := by
  have hnumbered : ∀ groups : List (List Sent), call.single = true →
      ∃ seq, ∀ c ∈ groups.flatten, (RelinkHeader.unpack c.frame).seqNum = seq := fun _ h =>
    absurd (hsingle.symm.trans h) (by decide)
  by_cases hlong : maxBytes < data.length
  · rw [if_pos hlong] at hmessages hrun
    refine ⟨[], ?_, hmessages ▸ .nil, hnumbered [], fun htrue => ?_⟩
    · rw [hrun]
      exact (List.append_nil _).symm
    · rw [hrun] at htrue
      cases htrue
  · rw [if_neg hlong] at hmessages hrun
    obtain ⟨groups, hsent, hfans, hok⟩ := publishChunks_sent accepts d frameId data hbudget t
    refine ⟨groups, hrun ▸ hsent, ?_, hnumbered groups, fun htrue hpeers => ?_⟩
    · rw [hmessages, PublishCall.dests, hrelayed]
      simpa using hfans
    · refine hok (hrun ▸ htrue) (hpeers.resolve_left fun h => ?_)
      exact absurd (hsingle.symm.trans h) (by decide)

/-- **What a publish call sends**: each of its messages once to every known peer, and once to
the relay if there is one, but no image chunk. A message that is not an image's has one
number on all its copies. Success means that some copy was accepted, if there was anybody to
send to. -/
theorem publish_sends (call : PublishCall) : ∃ groups, Publishes accepts d t call groups := by
  cases call with
  | raw payload => exact publishFrame_publishes accepts d t _ true payload rfl rfl rfl
  | value largeBlob bytes =>
    exact publishFrame_publishes accepts d t _ (!largeBlob) bytes rfl rfl rfl
  | image p => exact publishChunks_publishes accepts d t _ p.frameId p.data (by decide) rfl rfl rfl rfl
  | compressedImage p =>
    refine publishChunks_publishes accepts d t _ p.frameId p.data ?_ rfl rfl rfl rfl
    rw [List.length_append, LittleEndian.u64_length]
    rfl

end

/-- One peer is known, and the relay is enabled. -/
def onePeer : Destinations := ⟨7, [⟨1, 1⟩], some ⟨9, 9⟩⟩

/-- An image's only chunk, which every send accepts, does not reach the relay. -/
theorem image_not_relayed :
    let r := publishImage (fun _ => true) onePeer {} ⟨0, (), [1, 2, 3]⟩
    r.1.sent.map Sent.dest = [⟨1, 1⟩] ∧ r.2 = true := by
  decide

end Relink.Transport
