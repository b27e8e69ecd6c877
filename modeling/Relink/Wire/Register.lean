import Relink.Library.Record
import Relink.Wire.Frame

/-! Registration packets.

`register.hpp`: a RegisterRequest lists topics, a RegisterAck lists peers, and both are
a packed header and an array of records whose length the header gives. A decoder
accepts exactly that length. -/
namespace Relink.Wire
open LittleEndian

def kMaxRegisterTopics : Nat := 16374

inductive RegisterEncodeResult where
  | tooManyTopics
  | bufferTooSmall
deriving DecidableEq, Repr

inductive RegisterDecodeResult where
  | tooShort
  | lengthMismatch
deriving DecidableEq, Repr

/-- `memcpy` of a `uint32_t`. -/
def topicRecord : Record UInt32 where
  size := 4
  encode := u32
  decode := readU32 0
  length_encode := u32_length
  decode_encode := readU32_here

/-! ### RegisterRequest -/

/-- `sizeof(RegisterRequestHeader)`. -/
def kRegisterRequestHeaderBytes : Nat := 8

def encodeRegisterRequest (nodeIp : UInt32) (nodePort : UInt16) (topicIds : List UInt32)
    (topicCount : UInt16) (outCapacity : Nat) : Except RegisterEncodeResult Bytes :=
  if kMaxRegisterTopics < topicCount.toNat then .error .tooManyTopics
  else if outCapacity < kRegisterRequestHeaderBytes + topicCount.toNat * 4 then
    .error .bufferTooSmall
  else
    .ok (u32 nodeIp ++ u16 nodePort ++ u16 topicCount ++
      topicRecord.array (topicIds.take topicCount.toNat))

structure DecodedRegisterRequest where
  nodeIp : UInt32
  nodePort : UInt16
  topicCount : UInt16
  topicIdsRaw : Bytes
deriving DecidableEq, Repr

def decodeRegisterRequest (buf : Bytes) : Except RegisterDecodeResult DecodedRegisterRequest :=
  if buf.length < kRegisterRequestHeaderBytes then .error .tooShort
  else
    let topicCount := readU16 6 buf
    if buf.length ≠ kRegisterRequestHeaderBytes + topicCount.toNat * 4 then .error .lengthMismatch
    else .ok ⟨readU32 0 buf, readU16 4 buf, topicCount, buf.drop kRegisterRequestHeaderBytes⟩

/-- `register_request_topic_at`, for every index below the count. -/
def DecodedRegisterRequest.topics (req : DecodedRegisterRequest) : List UInt32 :=
  topicRecord.loads req.topicCount.toNat req.topicIdsRaw

/-- The bytes of a request. -/
def requestBytes (nodeIp : UInt32) (nodePort : UInt16) (topicIds : List UInt32) : Bytes :=
  u32 nodeIp ++ (u16 nodePort ++ (u16 (UInt16.ofNat topicIds.length) ++ topicRecord.array topicIds))

theorem toNat_ofNat_count {n : Nat} (h : n < 65536) : (UInt16.ofNat n).toNat = n := by
  rw [UInt16.toNat_ofNat', Nat.mod_eq_of_lt h]

theorem count_lt {n : Nat} (h : n ≤ kMaxRegisterTopics) : n < 65536 := lt_of_le_of_lt h (by decide)

@[simp] theorem requestBytes_length (nodeIp : UInt32) (nodePort : UInt16) (topicIds : List UInt32) :
    (requestBytes nodeIp nodePort topicIds).length = 8 + 4 * topicIds.length := by
  simp only [requestBytes, List.length_append, u32_length, u16_length, Record.array_length]
  show 4 + (2 + (2 + topicIds.length * 4)) = _
  omega

theorem decodeRegisterRequest_requestBytes (nodeIp : UInt32) (nodePort : UInt16)
    (topicIds : List UInt32) (h : topicIds.length < 65536) :
    decodeRegisterRequest (requestBytes nodeIp nodePort topicIds) =
      .ok ⟨nodeIp, nodePort, UInt16.ofNat topicIds.length, topicRecord.array topicIds⟩ := by
  have hlen := requestBytes_length nodeIp nodePort topicIds
  have hip : readU32 0 (requestBytes nodeIp nodePort topicIds) = nodeIp := readU32_here ..
  have hport : readU16 4 (requestBytes nodeIp nodePort topicIds) = nodePort := by
    rw [requestBytes, readU16_skip _ _ (u32_length _) (by decide)]
    exact readU16_here ..
  have hcount : readU16 6 (requestBytes nodeIp nodePort topicIds) =
      UInt16.ofNat topicIds.length := by
    rw [requestBytes, readU16_skip _ _ (u32_length _) (by decide),
      readU16_skip _ _ (u16_length _) (by decide)]
    exact readU16_here ..
  have hraw : (requestBytes nodeIp nodePort topicIds).drop 8 = topicRecord.array topicIds := by
    simp only [requestBytes, ← List.append_assoc]
    exact List.drop_left' (by simp)
  unfold decodeRegisterRequest
  simp only [hip, hport, hcount, toNat_ofNat_count h, hlen, kRegisterRequestHeaderBytes, hraw]
  rw [if_neg (by omega), if_neg (by omega)]

theorem topics_array (nodeIp : UInt32) (nodePort : UInt16) (topicIds : List UInt32)
    (h : topicIds.length < 65536) :
    DecodedRegisterRequest.topics
      ⟨nodeIp, nodePort, UInt16.ofNat topicIds.length, topicRecord.array topicIds⟩ = topicIds := by
  have := topicRecord.loads_array topicIds []
  rw [List.append_nil] at this
  rw [DecodedRegisterRequest.topics, toNat_ofNat_count h, this]

/-! ### RegisterAck -/

/-- A packed `RegisterAckPeer`; a zero LAN candidate is none. -/
structure RegisterAckPeer where
  ip : UInt32
  port : UInt16
  topicId : UInt32
  lanIp : UInt32
  lanPort : UInt16
deriving DecidableEq, Repr

def RegisterAckPeer.pack (p : RegisterAckPeer) : Bytes :=
  u32 p.ip ++ (u16 p.port ++ (u32 p.topicId ++ (u32 p.lanIp ++ u16 p.lanPort)))

def RegisterAckPeer.unpack (buf : Bytes) : RegisterAckPeer where
  ip := readU32 0 buf
  port := readU16 4 buf
  topicId := readU32 6 buf
  lanIp := readU32 10 buf
  lanPort := readU16 14 buf

theorem RegisterAckPeer.unpack_pack (p : RegisterAckPeer) (rest : Bytes) :
    unpack (p.pack ++ rest) = p := by
  have hip := u32_length p.ip
  have hport := u16_length p.port
  have htopic := u32_length p.topicId
  have hlan := u32_length p.lanIp
  simp only [unpack, pack, List.append_assoc]
  congr 1
  · exact readU32_here ..
  · rw [readU16_skip _ _ hip (by decide)]
    exact readU16_here ..
  · rw [readU32_skip _ _ hip (by decide), readU32_skip _ _ hport (by decide)]
    exact readU32_here ..
  · rw [readU32_skip _ _ hip (by decide), readU32_skip _ _ hport (by decide),
      readU32_skip _ _ htopic (by decide)]
    exact readU32_here ..
  · rw [readU16_skip _ _ hip (by decide), readU16_skip _ _ hport (by decide),
      readU16_skip _ _ htopic (by decide), readU16_skip _ _ hlan (by decide)]
    exact readU16_here ..

def peerRecord : Record RegisterAckPeer where
  size := 16
  encode := RegisterAckPeer.pack
  decode := RegisterAckPeer.unpack
  length_encode p := by simp [RegisterAckPeer.pack]
  decode_encode := RegisterAckPeer.unpack_pack

/-- `sizeof(RegisterAckHeader)`. -/
def kRegisterAckHeaderBytes : Nat := 3

/-- The count is a `uint16_t` of its own: the callers cast the number of peers to it. -/
def encodeRegisterAck (status : UInt8) (peers : List RegisterAckPeer) (peerCount : UInt16)
    (outCapacity : Nat) : Except RegisterEncodeResult Bytes :=
  if outCapacity < kRegisterAckHeaderBytes + peerCount.toNat * 16 then .error .bufferTooSmall
  else .ok (status :: (u16 peerCount ++ peerRecord.array (peers.take peerCount.toNat)))

structure DecodedRegisterAck where
  status : UInt8
  peerCount : UInt16
  peersRaw : Bytes
deriving DecidableEq, Repr

def decodeRegisterAck (buf : Bytes) : Except RegisterDecodeResult DecodedRegisterAck :=
  if buf.length < kRegisterAckHeaderBytes then .error .tooShort
  else
    let peerCount := readU16 1 buf
    if buf.length ≠ kRegisterAckHeaderBytes + peerCount.toNat * 16 then .error .lengthMismatch
    else .ok ⟨buf.getD 0 0, peerCount, buf.drop kRegisterAckHeaderBytes⟩

/-- `register_ack_peer_at`, for every index below the count. -/
def DecodedRegisterAck.peers (ack : DecodedRegisterAck) : List RegisterAckPeer :=
  peerRecord.loads ack.peerCount.toNat ack.peersRaw

/-- What a client reads from a datagram: the status and the peers, if it decodes. -/
def readAck (buf : Bytes) : Option (UInt8 × List RegisterAckPeer) :=
  match decodeRegisterAck buf with
  | .error _ => none
  | .ok ack => some (ack.status, ack.peers)

/-- The largest number of peers one datagram has room for. -/
def kMaxAckPeers : Nat := 4094

/-- The bytes of an ack with the given peers, all of them. -/
def ackBytes (status : UInt8) (peers : List RegisterAckPeer) : Bytes :=
  status :: (u16 (UInt16.ofNat peers.length) ++ peerRecord.array peers)

@[simp] theorem ackBytes_length (status : UInt8) (peers : List RegisterAckPeer) :
    (ackBytes status peers).length = 3 + 16 * peers.length := by
  simp only [ackBytes, List.length_cons, List.length_append, u16_length, Record.array_length]
  show 2 + peers.length * 16 + 1 = _
  omega

/-- The encoder as rlcore calls it writes the first `peers.length % 65536` peers, when
those fit a datagram. -/
theorem encodeRegisterAck_cast (status : UInt8) (peers : List RegisterAckPeer) :
    encodeRegisterAck status peers (UInt16.ofNat peers.length) kMaxDatagramBytes =
      if peers.length % 65536 ≤ kMaxAckPeers
      then .ok (ackBytes status (peers.take (peers.length % 65536)))
      else .error .bufferTooSmall := by
  have hcast : (UInt16.ofNat peers.length).toNat = peers.length % 65536 := UInt16.toNat_ofNat'
  have hle : peers.length % 65536 ≤ peers.length := Nat.mod_le ..
  unfold encodeRegisterAck
  rw [hcast]
  by_cases h : peers.length % 65536 ≤ kMaxAckPeers
  · have h' : peers.length % 65536 ≤ 4094 := h
    have hcount : UInt16.ofNat (peers.length % 65536) = UInt16.ofNat peers.length := by
      apply UInt16.toNat_inj.mp
      rw [hcast, UInt16.toNat_ofNat', Nat.mod_mod]
    rw [if_pos h, if_neg, ackBytes, List.length_take, Nat.min_eq_left hle, hcount]
    simp only [kMaxDatagramBytes, kRegisterAckHeaderBytes]
    omega
  · have h' : ¬ peers.length % 65536 ≤ 4094 := h
    rw [if_neg h, if_pos]
    simp only [kMaxDatagramBytes, kRegisterAckHeaderBytes]
    omega

theorem readAck_ackBytes (status : UInt8) (peers : List RegisterAckPeer)
    (h : peers.length < 65536) : readAck (ackBytes status peers) = some (status, peers) := by
  have hlen := ackBytes_length status peers
  have hcast : (UInt16.ofNat peers.length).toNat = peers.length := by
    rw [UInt16.toNat_ofNat', Nat.mod_eq_of_lt h]
  have hcount : readU16 1 (ackBytes status peers) = UInt16.ofNat peers.length := readU16_here ..
  have hraw : (ackBytes status peers).drop 3 = peerRecord.array peers := by
    rw [ackBytes, ← List.cons_append]
    exact List.drop_left' (by simp)
  have hloads := peerRecord.loads_array peers []
  rw [List.append_nil] at hloads
  unfold readAck decodeRegisterAck
  simp only [hcount, hcast, hlen, kRegisterAckHeaderBytes, hraw]
  rw [if_neg (by omega), if_neg (by omega)]
  simp only [DecodedRegisterAck.peers, hcast, hloads, ackBytes, List.getD_cons_zero]

end Relink.Wire
