import Relink.Wire.FrameCodec
import Relink.Wire.Register

/-! Registration packets in both languages.

`register.py` beside `register.hpp`, whose decoders are given once more with their accesses
checked. A packet is accepted exactly if it is the layout of the values read from it, and a
request is never an ack: one has an even length, the other an odd one. -/
namespace Relink.Wire
open LittleEndian

/-! ### Records without spare bits -/

theorem topicRecord_exact : topicRecord.Exact := by
  intro b hb
  have hb : b.length = 4 := hb
  show u32 (readU32 0 b) = b
  rw [u32_readU32 (by omega), List.drop_zero, ← hb, List.take_length]

theorem peerRecord_exact : peerRecord.Exact := by
  intro b hb
  have hb : b.length = 16 := hb
  have hlast : u16 (readU16 14 b) = b.drop 14 := by
    rw [← u16_then (by omega), List.drop_eq_nil_of_le (by omega), List.append_nil]
  show u32 (readU32 0 b) ++ (u16 (readU16 4 b) ++ (u32 (readU32 6 b) ++
    (u32 (readU32 10 b) ++ u16 (readU16 14 b)))) = b
  rw [hlast, u32_then (by omega), u32_then (by omega), u16_then (by omega), u32_then (by omega),
    List.drop_zero]

/-! ### The accesses of the decoders -/

/-- `decode_register_request` once more; what `topic_ids_raw` may be read through is the rest of
the buffer. -/
def loadRegisterRequest (buf : Bytes) :
    Except Buffer.Fault (Except RegisterDecodeResult DecodedRegisterRequest) :=
  if buf.length < kRegisterRequestHeaderBytes then .ok (.error .tooShort)
  else do
    let hdr ← Buffer.load buf 0 kRegisterRequestHeaderBytes
    let topicCount := readU16 6 hdr
    let needed := kRegisterRequestHeaderBytes + topicCount.toNat * 4
    if buf.length ≠ needed then return .error .lengthMismatch
    return .ok ⟨readU32 0 hdr, readU16 4 hdr, topicCount, buf.drop kRegisterRequestHeaderBytes⟩

def registerRequestTopicAt (req : DecodedRegisterRequest) (i : Nat) : Except Buffer.Fault UInt32 :=
  topicRecord.fetch req.topicIdsRaw i

/-- `decode_register_ack` once more. -/
def loadRegisterAck (buf : Bytes) :
    Except Buffer.Fault (Except RegisterDecodeResult DecodedRegisterAck) :=
  if buf.length < kRegisterAckHeaderBytes then .ok (.error .tooShort)
  else do
    let hdr ← Buffer.load buf 0 kRegisterAckHeaderBytes
    let peerCount := readU16 1 hdr
    let needed := kRegisterAckHeaderBytes + peerCount.toNat * 16
    if buf.length ≠ needed then return .error .lengthMismatch
    return .ok ⟨hdr.getD 0 0, peerCount, buf.drop kRegisterAckHeaderBytes⟩

def registerAckPeerAt (ack : DecodedRegisterAck) (i : Nat) : Except Buffer.Fault RegisterAckPeer :=
  peerRecord.fetch ack.peersRaw i

theorem loadRegisterRequest_eq (buf : Bytes) :
    loadRegisterRequest buf = .ok (decodeRegisterRequest buf) := by
  unfold loadRegisterRequest decodeRegisterRequest
  by_cases hshort : buf.length < kRegisterRequestHeaderBytes
  · rw [if_pos hshort, if_pos hshort]
  · have hload : Buffer.load buf 0 kRegisterRequestHeaderBytes =
        .ok (buf.take kRegisterRequestHeaderBytes) := Buffer.load_ok (by omega)
    rw [if_neg hshort, if_neg hshort, hload]
    simp only [bind, Except.bind, pure, Except.pure, readU16_take buf (show 6 + 2 ≤ kRegisterRequestHeaderBytes by decide),
      readU16_take buf (show 4 + 2 ≤ kRegisterRequestHeaderBytes by decide),
      readU32_take buf (show 0 + 4 ≤ kRegisterRequestHeaderBytes by decide)]
    split <;> rfl

theorem loadRegisterAck_eq (buf : Bytes) : loadRegisterAck buf = .ok (decodeRegisterAck buf) := by
  unfold loadRegisterAck decodeRegisterAck
  by_cases hshort : buf.length < kRegisterAckHeaderBytes
  · rw [if_pos hshort, if_pos hshort]
  · have hload : Buffer.load buf 0 kRegisterAckHeaderBytes =
        .ok (buf.take kRegisterAckHeaderBytes) := Buffer.load_ok (by omega)
    have hstatus : (buf.take kRegisterAckHeaderBytes).getD 0 0 = buf.getD 0 0 := by
      rw [List.getD_eq_getElem?_getD, List.getElem?_take_of_lt (by decide),
        List.getD_eq_getElem?_getD]
    rw [if_neg hshort, if_neg hshort, hload]
    simp only [bind, Except.bind, pure, Except.pure, hstatus,
      readU16_take buf (show 1 + 2 ≤ kRegisterAckHeaderBytes by decide)]
    split <;> rfl

/-! ### What is accepted -/

theorem decodeRegisterRequest_inv {buf : Bytes} {req : DecodedRegisterRequest}
    (h : decodeRegisterRequest buf = .ok req) :
    buf.length = 8 + 4 * req.topicCount.toNat ∧ req.topics.length = req.topicCount.toNat ∧
      req.topicIdsRaw.length = 4 * req.topicCount.toNat ∧
      buf = requestBytes req.nodeIp req.nodePort req.topics := by
  unfold decodeRegisterRequest at h
  split at h
  · cases h
  simp only at h
  split at h
  · cases h
  next hlen =>
  cases h
  have hlen : buf.length = 8 + 4 * (readU16 6 buf).toNat :=
    (not_not.mp hlen).trans (congrArg (8 + ·) (Nat.mul_comm ..))
  have hraw : (buf.drop kRegisterRequestHeaderBytes).length = (readU16 6 buf).toNat * 4 := by
    rw [List.length_drop, hlen, kRegisterRequestHeaderBytes, Nat.add_sub_cancel_left, Nat.mul_comm]
  have htopics : DecodedRegisterRequest.topics ⟨readU32 0 buf, readU16 4 buf, readU16 6 buf,
      buf.drop kRegisterRequestHeaderBytes⟩ = topicRecord.loads (readU16 6 buf).toNat
        (buf.drop kRegisterRequestHeaderBytes) := rfl
  refine ⟨hlen, by rw [htopics, Record.loads_length], by rw [hraw, Nat.mul_comm], ?_⟩
  rw [htopics, requestBytes, topicRecord_exact.array_loads _ hraw, Record.loads_length,
    UInt16.ofNat_toNat]
  show buf = u32 (readU32 0 buf) ++ (u16 (readU16 4 buf) ++ (u16 (readU16 6 buf) ++ buf.drop 8))
  rw [u16_then (by omega), u16_then (by omega), u32_then (by omega), List.drop_zero]

theorem decodeRegisterAck_inv {buf : Bytes} {ack : DecodedRegisterAck}
    (h : decodeRegisterAck buf = .ok ack) :
    buf.length = 3 + 16 * ack.peerCount.toNat ∧ ack.peers.length = ack.peerCount.toNat ∧
      ack.peersRaw.length = 16 * ack.peerCount.toNat ∧ buf = ackBytes ack.status ack.peers := by
  unfold decodeRegisterAck at h
  split at h
  · cases h
  simp only at h
  split at h
  · cases h
  next hlen =>
  cases h
  have hlen : buf.length = 3 + 16 * (readU16 1 buf).toNat :=
    (not_not.mp hlen).trans (congrArg (3 + ·) (Nat.mul_comm ..))
  have hraw : (buf.drop kRegisterAckHeaderBytes).length = (readU16 1 buf).toNat * 16 := by
    rw [List.length_drop, hlen, kRegisterAckHeaderBytes, Nat.add_sub_cancel_left, Nat.mul_comm]
  have hpeers : DecodedRegisterAck.peers ⟨buf.getD 0 0, readU16 1 buf,
      buf.drop kRegisterAckHeaderBytes⟩ = peerRecord.loads (readU16 1 buf).toNat
        (buf.drop kRegisterAckHeaderBytes) := rfl
  refine ⟨hlen, by rw [hpeers, Record.loads_length], by rw [hraw, Nat.mul_comm], ?_⟩
  rw [hpeers, ackBytes, peerRecord_exact.array_loads _ hraw, Record.loads_length, UInt16.ofNat_toNat]
  show buf = buf.getD 0 0 :: (u16 (readU16 1 buf) ++ buf.drop 3)
  rw [u16_then (by omega), byte_then (by omega), List.drop_zero]

/-- A request has an even length and an ack an odd one. -/
theorem request_not_ack {buf : Bytes} {req : DecodedRegisterRequest} {ack : DecodedRegisterAck}
    (hreq : decodeRegisterRequest buf = .ok req) (hack : decodeRegisterAck buf = .ok ack) :
    False := by
  have heven := (decodeRegisterRequest_inv hreq).1
  have hodd := (decodeRegisterAck_inv hack).1
  omega

/-! ### What is encoded -/

theorem encodeRegisterRequest_ok (nodeIp : UInt32) (nodePort : UInt16) {topicIds : List UInt32}
    (h : topicIds.length ≤ kMaxRegisterTopics) {outCapacity : Nat}
    (hcap : 8 + 4 * topicIds.length ≤ outCapacity) :
    encodeRegisterRequest nodeIp nodePort topicIds (UInt16.ofNat topicIds.length) outCapacity =
      .ok (requestBytes nodeIp nodePort topicIds) := by
  have hcount := toNat_ofNat_count (count_lt h)
  unfold encodeRegisterRequest
  rw [hcount, if_neg (by omega), if_neg (by simp only [kRegisterRequestHeaderBytes]; omega),
    List.take_length, requestBytes, List.append_assoc, List.append_assoc]

theorem encodeRegisterRequest_over (nodeIp : UInt32) (nodePort : UInt16) {topicIds : List UInt32}
    {topicCount : UInt16} (h : kMaxRegisterTopics < topicCount.toNat) (outCapacity : Nat) :
    encodeRegisterRequest nodeIp nodePort topicIds topicCount outCapacity =
      .error .tooManyTopics := by
  rw [encodeRegisterRequest, if_pos h]

theorem encodeRegisterAck_ok (status : UInt8) {peers : List RegisterAckPeer}
    (h : peers.length < 65536) {outCapacity : Nat} (hcap : 3 + 16 * peers.length ≤ outCapacity) :
    encodeRegisterAck status peers (UInt16.ofNat peers.length) outCapacity =
      .ok (ackBytes status peers) := by
  unfold encodeRegisterAck
  rw [toNat_ofNat_count h, if_neg (by simp only [kRegisterAckHeaderBytes]; omega), List.take_length, ackBytes]

/-! ### The Python build -/

namespace Py

/-- `struct.pack("<H", len(...))`, which raises where the count does not fit. -/
def packCount (count : Nat) : Except Exn Bytes :=
  if 65535 < count then .error .structError else .ok (u16 (UInt16.ofNat count))

/-- `struct.unpack_from` of a format of `size` bytes. -/
def unpackFrom (buf : Bytes) (offset size : Nat) : Except Exn Bytes :=
  if buf.length < offset + size then .error .structError else .ok ((buf.drop offset).take size)

def encodeRegisterRequest (nodeIp : UInt32) (nodePort : UInt16) (topicIds : List UInt32) :
    Except Exn Bytes := do
  let count ← packCount topicIds.length
  return u32 nodeIp ++ u16 nodePort ++ count ++ topicRecord.array topicIds

structure DecodedRegisterRequest where
  nodeIp : UInt32
  nodePort : UInt16
  topicIds : List UInt32
deriving DecidableEq, Repr

def decodeRegisterRequest (buf : Bytes) : Except Exn DecodedRegisterRequest :=
  if buf.length < kRegisterRequestHeaderBytes then .error (.valueError "RegisterRequest too short")
  else do
    let header ← unpackFrom buf 0 kRegisterRequestHeaderBytes
    let topicCount := (readU16 6 header).toNat
    if buf.length ≠ kRegisterRequestHeaderBytes + topicCount * 4 then
      throw (.valueError "RegisterRequest length mismatch")
    let topics ← unpackFrom buf kRegisterRequestHeaderBytes (topicCount * 4)
    return ⟨readU32 0 header, readU16 4 header, topicRecord.loads topicCount topics⟩

def encodeRegisterAck (status : UInt8) (peers : List RegisterAckPeer) : Except Exn Bytes := do
  let count ← packCount peers.length
  return [status] ++ count ++ peerRecord.array peers

structure DecodedRegisterAck where
  status : UInt8
  peers : List RegisterAckPeer
deriving DecidableEq, Repr

/-- The loop of `decode_register_ack`: so many peers from offset `off` on. -/
def unpackPeers (buf : Bytes) : Nat → Nat → Except Exn (List RegisterAckPeer)
  | 0, _ => .ok []
  | count + 1, off => do
    let raw ← unpackFrom buf off 16
    let rest ← unpackPeers buf count (off + 16)
    return RegisterAckPeer.unpack raw :: rest

def decodeRegisterAck (buf : Bytes) : Except Exn DecodedRegisterAck :=
  if buf.length < kRegisterAckHeaderBytes then .error (.valueError "RegisterAck too short")
  else do
    let header ← unpackFrom buf 0 kRegisterAckHeaderBytes
    let peerCount := (readU16 1 header).toNat
    if buf.length ≠ kRegisterAckHeaderBytes + peerCount * 16 then
      throw (.valueError "RegisterAck length mismatch")
    let peers ← unpackPeers buf peerCount kRegisterAckHeaderBytes
    return ⟨header.getD 0 0, peers⟩

theorem unpackFrom_ok {buf : Bytes} {offset size : Nat} (h : offset + size ≤ buf.length) :
    unpackFrom buf offset size = .ok ((buf.drop offset).take size) := by
  rw [unpackFrom, if_neg (by omega)]

theorem encodeRegisterRequest_ok (nodeIp : UInt32) (nodePort : UInt16) {topicIds : List UInt32}
    (h : topicIds.length < 65536) :
    encodeRegisterRequest nodeIp nodePort topicIds = .ok (requestBytes nodeIp nodePort topicIds) := by
  rw [encodeRegisterRequest, packCount, if_neg (by omega), requestBytes, ← List.append_assoc,
    ← List.append_assoc]
  rfl

theorem encodeRegisterAck_ok (status : UInt8) {peers : List RegisterAckPeer}
    (h : peers.length < 65536) : encodeRegisterAck status peers = .ok (ackBytes status peers) := by
  rw [encodeRegisterAck, packCount, if_neg (by omega)]
  rfl

/-- The peers lie one after the other. -/
theorem unpackPeers_ok (buf : Bytes) (count off : Nat) (h : off + count * 16 ≤ buf.length) :
    unpackPeers buf count off = .ok (peerRecord.loads count (buf.drop off)) := by
  induction count generalizing off with
  | zero => rfl
  | succ count ih =>
    have hraw : ((buf.drop off).take 16).length = 16 := by
      rw [List.length_take, List.length_drop]
      omega
    have hfirst : RegisterAckPeer.unpack ((buf.drop off).take 16) =
        peerRecord.load (buf.drop off) 0 := by
      have := peerRecord_exact.decode_append hraw ((buf.drop off).drop 16)
      rw [List.take_append_drop] at this
      rw [Record.load, Nat.zero_mul, List.drop_zero, this]
      rfl
    rw [unpackPeers, unpackFrom_ok (by omega), ih (off + 16) (by omega), Record.loads_succ, ← hfirst]
    show Except.ok (_ :: peerRecord.loads count (buf.drop (off + 16))) =
      Except.ok (_ :: peerRecord.loads count ((buf.drop off).drop 16))
    rw [List.drop_drop]

def DecodedRegisterRequest.of (req : Wire.DecodedRegisterRequest) : DecodedRegisterRequest :=
  ⟨req.nodeIp, req.nodePort, req.topics⟩

def DecodedRegisterAck.of (ack : Wire.DecodedRegisterAck) : DecodedRegisterAck :=
  ⟨ack.status, ack.peers⟩

theorem decodeRegisterRequest_eq (buf : Bytes) : (decodeRegisterRequest buf).toOption =
    (Wire.decodeRegisterRequest buf).toOption.map DecodedRegisterRequest.of := by
  unfold decodeRegisterRequest Wire.decodeRegisterRequest
  by_cases hshort : buf.length < kRegisterRequestHeaderBytes
  · rw [if_pos hshort, if_pos hshort]
    rfl
  rw [if_neg hshort, if_neg hshort, unpackFrom_ok (by omega)]
  simp only [bind, Except.bind, throw, throwThe, MonadExceptOf.throw, pure, Except.pure,
    List.drop_zero, readU16_take buf (show 6 + 2 ≤ kRegisterRequestHeaderBytes by decide),
    readU16_take buf (show 4 + 2 ≤ kRegisterRequestHeaderBytes by decide),
    readU32_take buf (show 0 + 4 ≤ kRegisterRequestHeaderBytes by decide)]
  by_cases hlen : buf.length ≠ kRegisterRequestHeaderBytes + (readU16 6 buf).toNat * 4
  · rw [if_pos hlen, if_pos hlen]
    rfl
  · have htake : ((buf.drop kRegisterRequestHeaderBytes).take ((readU16 6 buf).toNat * 4)) =
        buf.drop kRegisterRequestHeaderBytes := by
      refine List.take_of_length_le ?_
      rw [List.length_drop]
      omega
    rw [if_neg hlen, if_neg hlen, unpackFrom_ok (by omega), htake]
    rfl

theorem decodeRegisterAck_eq (buf : Bytes) : (decodeRegisterAck buf).toOption =
    (Wire.decodeRegisterAck buf).toOption.map DecodedRegisterAck.of := by
  unfold decodeRegisterAck Wire.decodeRegisterAck
  by_cases hshort : buf.length < kRegisterAckHeaderBytes
  · rw [if_pos hshort, if_pos hshort]
    rfl
  have hstatus : (buf.take kRegisterAckHeaderBytes).getD 0 0 = buf.getD 0 0 := by
    rw [List.getD_eq_getElem?_getD, List.getElem?_take_of_lt (by decide), List.getD_eq_getElem?_getD]
  rw [if_neg hshort, if_neg hshort, unpackFrom_ok (by omega)]
  simp only [bind, Except.bind, throw, throwThe, MonadExceptOf.throw, pure, Except.pure,
    List.drop_zero, readU16_take buf (show 1 + 2 ≤ kRegisterAckHeaderBytes by decide), hstatus]
  by_cases hlen : buf.length ≠ kRegisterAckHeaderBytes + (readU16 1 buf).toNat * 16
  · rw [if_pos hlen, if_pos hlen]
    rfl
  · rw [if_neg hlen, if_neg hlen, unpackPeers_ok _ _ _ (by omega)]
    rfl

end Py

/-! ### Both builds -/

theorem registerRequestTopicAt_ok {buf : Bytes} {req : DecodedRegisterRequest}
    (h : decodeRegisterRequest buf = .ok req) {i : Nat} (hi : i < req.topics.length) :
    registerRequestTopicAt req i = .ok req.topics[i] := by
  obtain ⟨-, hcount, hraw, -⟩ := decodeRegisterRequest_inv h
  have hroom : req.topicCount.toNat * topicRecord.size ≤ req.topicIdsRaw.length := by
    rw [hraw, Nat.mul_comm]
    exact Nat.le_refl _
  rw [registerRequestTopicAt, topicRecord_exact.fetch_ok (hcount ▸ hi) hroom]
  simp [DecodedRegisterRequest.topics, Record.loads]

theorem registerAckPeerAt_ok {buf : Bytes} {ack : DecodedRegisterAck}
    (h : decodeRegisterAck buf = .ok ack) {i : Nat} (hi : i < ack.peers.length) :
    registerAckPeerAt ack i = .ok ack.peers[i] := by
  obtain ⟨-, hcount, hraw, -⟩ := decodeRegisterAck_inv h
  have hroom : ack.peerCount.toNat * peerRecord.size ≤ ack.peersRaw.length := by
    rw [hraw, Nat.mul_comm]
    exact Nat.le_refl _
  rw [registerAckPeerAt, peerRecord_exact.fetch_ok (hcount ▸ hi) hroom]
  simp [DecodedRegisterAck.peers, Record.loads]

/-- What holds of an accepted request: it lists as many topics as it says, every one is read inside
the buffer, Python writes the same bytes for it, and so does the C++ encoder exactly if they fit a
datagram. -/
theorem request_accepted {buf : Bytes} {req : DecodedRegisterRequest}
    (h : decodeRegisterRequest buf = .ok req) {outCapacity : Nat} (hcap : buf.length ≤ outCapacity) :
    req.topics.length = req.topicCount.toNat ∧
      (∀ i (hi : i < req.topics.length), registerRequestTopicAt req i = .ok req.topics[i]) ∧
      Py.encodeRegisterRequest req.nodeIp req.nodePort req.topics = .ok buf ∧
      (encodeRegisterRequest req.nodeIp req.nodePort req.topics req.topicCount outCapacity = .ok buf ↔
        buf.length ≤ kMaxDatagramBytes) := by
  obtain ⟨hlen, hcount, -, hbytes⟩ := decodeRegisterRequest_inv h
  have hlt := req.topicCount.toNat_lt
  refine ⟨hcount, fun i hi => registerRequestTopicAt_ok h hi, ?_, ?_⟩
  · rw [Py.encodeRegisterRequest_ok _ _ (by omega), ← hbytes]
  · have hmax : kMaxDatagramBytes = 65507 ∧ kMaxRegisterTopics = 16374 := ⟨rfl, rfl⟩
    by_cases hfits : buf.length ≤ kMaxDatagramBytes
    · refine iff_of_true ?_ hfits
      rw [← UInt16.ofNat_toNat (x := req.topicCount), ← hcount,
        encodeRegisterRequest_ok _ _ (by omega) (by omega), ← hbytes]
    · refine iff_of_false (fun hok => ?_) hfits
      rw [encodeRegisterRequest_over _ _ (by omega)] at hok
      cases hok

/-- An ack of any length is what both encoders write for it. -/
theorem ack_accepted {buf : Bytes} {ack : DecodedRegisterAck} (h : decodeRegisterAck buf = .ok ack)
    {outCapacity : Nat} (hcap : buf.length ≤ outCapacity) :
    ack.peers.length = ack.peerCount.toNat ∧
      (∀ i (hi : i < ack.peers.length), registerAckPeerAt ack i = .ok ack.peers[i]) ∧
      Py.encodeRegisterAck ack.status ack.peers = .ok buf ∧
      encodeRegisterAck ack.status ack.peers ack.peerCount outCapacity = .ok buf := by
  obtain ⟨hlen, hcount, -, hbytes⟩ := decodeRegisterAck_inv h
  have hlt := ack.peerCount.toNat_lt
  refine ⟨hcount, fun i hi => registerAckPeerAt_ok h hi, ?_, ?_⟩
  · rw [Py.encodeRegisterAck_ok _ (by omega), ← hbytes]
  · rw [← UInt16.ofNat_toNat (x := ack.peerCount), ← hcount,
      encodeRegisterAck_ok _ (by omega) (by omega), ← hbytes]

theorem request_roundTrip (nodeIp : UInt32) (nodePort : UInt16) {topicIds : List UInt32}
    (h : topicIds.length ≤ kMaxRegisterTopics) {outCapacity : Nat}
    (hcap : 8 + 4 * topicIds.length ≤ outCapacity) :
    ∃ bytes req,
      encodeRegisterRequest nodeIp nodePort topicIds (UInt16.ofNat topicIds.length) outCapacity =
        .ok bytes ∧
      Py.encodeRegisterRequest nodeIp nodePort topicIds = .ok bytes ∧
      loadRegisterRequest bytes = .ok (.ok req) ∧
      (req.nodeIp, req.nodePort, req.topics) = (nodeIp, nodePort, topicIds) ∧
      Py.decodeRegisterRequest bytes = .ok ⟨nodeIp, nodePort, topicIds⟩ := by
  have hdecode := decodeRegisterRequest_requestBytes nodeIp nodePort topicIds (count_lt h)
  have htopics := topics_array nodeIp nodePort topicIds (count_lt h)
  refine ⟨_, _, encodeRegisterRequest_ok nodeIp nodePort h hcap,
    Py.encodeRegisterRequest_ok _ _ (count_lt h), by rw [loadRegisterRequest_eq, hdecode],
    by rw [htopics], ?_⟩
  rw [← toOption_eq_some_iff, Py.decodeRegisterRequest_eq, hdecode]
  exact congrArg (fun t => some (Py.DecodedRegisterRequest.mk nodeIp nodePort t)) htopics

theorem ack_roundTrip (status : UInt8) {peers : List RegisterAckPeer}
    (h : peers.length ≤ kMaxAckPeers) {outCapacity : Nat}
    (hcap : 3 + 16 * peers.length ≤ outCapacity) :
    ∃ bytes ack,
      encodeRegisterAck status peers (UInt16.ofNat peers.length) outCapacity = .ok bytes ∧
      Py.encodeRegisterAck status peers = .ok bytes ∧
      loadRegisterAck bytes = .ok (.ok ack) ∧ (ack.status, ack.peers) = (status, peers) ∧
      Py.decodeRegisterAck bytes = .ok ⟨status, peers⟩ := by
  have hlt : peers.length < 65536 := lt_of_le_of_lt h (by decide)
  have hread := readAck_ackBytes status peers hlt
  unfold readAck at hread
  split at hread
  · cases hread
  next ack hack =>
  rw [Option.some.injEq] at hread
  refine ⟨_, ack, encodeRegisterAck_ok status hlt hcap, Py.encodeRegisterAck_ok _ hlt,
    by rw [loadRegisterAck_eq, hack], hread, ?_⟩
  rw [← toOption_eq_some_iff, Py.decodeRegisterAck_eq, hack]
  exact congrArg (fun p : UInt8 × List RegisterAckPeer => some (Py.DecodedRegisterAck.mk p.1 p.2))
    hread

/-- Both packets go through either build unchanged; a byte string is accepted by both builds or by
none, and then it is the encoding of what was read from it, all inside it; and none is accepted as
a request and as an ack. -/
theorem register_codecs_exact :
    (∀ nodeIp nodePort topicIds outCapacity,
      topicIds.length ≤ kMaxRegisterTopics → 8 + 4 * topicIds.length ≤ outCapacity →
      ∃ bytes req,
        encodeRegisterRequest nodeIp nodePort topicIds (UInt16.ofNat topicIds.length) outCapacity =
          .ok bytes ∧
        Py.encodeRegisterRequest nodeIp nodePort topicIds = .ok bytes ∧
        loadRegisterRequest bytes = .ok (.ok req) ∧
        (req.nodeIp, req.nodePort, req.topics) = (nodeIp, nodePort, topicIds) ∧
        Py.decodeRegisterRequest bytes = .ok ⟨nodeIp, nodePort, topicIds⟩) ∧
    (∀ status peers outCapacity,
      peers.length ≤ kMaxAckPeers → 3 + 16 * peers.length ≤ outCapacity →
      ∃ bytes ack,
        encodeRegisterAck status peers (UInt16.ofNat peers.length) outCapacity = .ok bytes ∧
        Py.encodeRegisterAck status peers = .ok bytes ∧
        loadRegisterAck bytes = .ok (.ok ack) ∧ (ack.status, ack.peers) = (status, peers) ∧
        Py.decodeRegisterAck bytes = .ok ⟨status, peers⟩) ∧
    (∀ buf, ∃ r, loadRegisterRequest buf = .ok r ∧
      (Py.decodeRegisterRequest buf).toOption = r.toOption.map Py.DecodedRegisterRequest.of ∧
      ∀ req outCapacity, r = .ok req → buf.length ≤ outCapacity →
        req.topics.length = req.topicCount.toNat ∧
        (∀ i (hi : i < req.topics.length), registerRequestTopicAt req i = .ok req.topics[i]) ∧
        Py.encodeRegisterRequest req.nodeIp req.nodePort req.topics = .ok buf ∧
        (encodeRegisterRequest req.nodeIp req.nodePort req.topics req.topicCount outCapacity =
          .ok buf ↔ buf.length ≤ kMaxDatagramBytes)) ∧
    (∀ buf, ∃ r, loadRegisterAck buf = .ok r ∧
      (Py.decodeRegisterAck buf).toOption = r.toOption.map Py.DecodedRegisterAck.of ∧
      ∀ ack outCapacity, r = .ok ack → buf.length ≤ outCapacity →
        ack.peers.length = ack.peerCount.toNat ∧
        (∀ i (hi : i < ack.peers.length), registerAckPeerAt ack i = .ok ack.peers[i]) ∧
        Py.encodeRegisterAck ack.status ack.peers = .ok buf ∧
        encodeRegisterAck ack.status ack.peers ack.peerCount outCapacity = .ok buf) ∧
    ∀ buf req ack, decodeRegisterRequest buf = .ok req → decodeRegisterAck buf ≠ .ok ack := by
  refine ⟨fun nodeIp nodePort topicIds outCapacity h hcap => request_roundTrip nodeIp nodePort h hcap,
    fun status peers outCapacity h hcap => ack_roundTrip status h hcap, fun buf => ?_, fun buf => ?_,
    fun buf req ack hreq hack => request_not_ack hreq hack⟩
  · exact ⟨_, loadRegisterRequest_eq buf, Py.decodeRegisterRequest_eq buf,
      fun req outCapacity h hcap => request_accepted h hcap⟩
  · exact ⟨_, loadRegisterAck_eq buf, Py.decodeRegisterAck_eq buf,
      fun ack outCapacity h hcap => ack_accepted h hcap⟩

/-- One topic more than `kMaxRegisterTopics`: 65508 bytes, too many for a datagram. -/
def longRequest : Bytes := requestBytes 0 0 (List.replicate 16375 0)

theorem longRequest_accepted : ∃ req, decodeRegisterRequest longRequest = .ok req ∧
    ∀ outCapacity, encodeRegisterRequest req.nodeIp req.nodePort req.topics req.topicCount outCapacity =
      .error .tooManyTopics := by
  have hlen : (List.replicate 16375 (0 : UInt32)).length = 16375 := List.length_replicate
  refine ⟨_, decodeRegisterRequest_requestBytes 0 0 _ (by rw [hlen]; decide), fun outCapacity => ?_⟩
  refine encodeRegisterRequest_over _ _ ?_ outCapacity
  rw [hlen]
  decide

end Relink.Wire
