import Mathlib.Data.List.GetD
import Relink.Library.LittleEndian

/-! Data frames.

`encodeFrame` and `decodeFrame` are `encode_frame` and `decode_frame` of
`frame.hpp`: a start byte, the packed nine-byte header, the payload and a stop
byte whose offset is computed from the header and never searched for. The encoder
refuses payloads over the datagram budget; the decoder has no such check. -/
namespace Relink.Wire
open LittleEndian

abbrev Bytes := List UInt8

/-- A text of the source, as `std::string` has it. -/
def utf8 (text : String) : Bytes := text.toList.flatMap String.utf8EncodeChar

def kStartByte : UInt8 := 0x23
def kStopByte : UInt8 := 0x0A
def kMaxPayloadBytes : Nat := 1400

structure RelinkHeader where
  topicId : UInt32
  seqNum : UInt16
  payloadLen : UInt16
  flags : UInt8
deriving DecidableEq, Repr

/-- `sizeof(RelinkHeader)`. -/
def kHeaderBytes : Nat := 9

def kMaxFrameBytes : Nat := 1 + kHeaderBytes + kMaxPayloadBytes + 1

/-- The largest UDP payload over IPv4, which is also the size of every receive buffer. -/
def kMaxDatagramBytes : Nat := 65507

/-- The packed header as it lies in memory. -/
def RelinkHeader.pack (h : RelinkHeader) : Bytes :=
  u32 h.topicId ++ u16 h.seqNum ++ u16 h.payloadLen ++ [h.flags]

/-- `memcpy(&header, buf + 1, sizeof(header))`. -/
def RelinkHeader.unpack (buf : Bytes) : RelinkHeader where
  topicId := readU32 1 buf
  seqNum := readU16 5 buf
  payloadLen := readU16 7 buf
  flags := buf.getD 9 0

inductive EncodeResult where
  | payloadTooLarge
deriving DecidableEq, Repr

inductive DecodeResult where
  | tooShort
  | badStartByte
  | badStopByte
  | lengthMismatch
deriving DecidableEq, Repr

structure DecodedFrame where
  header : RelinkHeader
  payload : Bytes
deriving DecidableEq, Repr

def encodeFrame (topicId : UInt32) (seqNum : UInt16) (payload : Bytes) (outCapacity : Nat) :
    Except EncodeResult Bytes :=
  if kMaxPayloadBytes < payload.length then .error .payloadTooLarge
  else if outCapacity < 1 + kHeaderBytes + payload.length + 1 then .error .payloadTooLarge
  else
    let header : RelinkHeader := ⟨topicId, seqNum, UInt16.ofNat payload.length, 0⟩
    .ok (kStartByte :: (header.pack ++ payload ++ [kStopByte]))

def decodeFrame (buf : Bytes) : Except DecodeResult DecodedFrame :=
  if buf.length < 1 + kHeaderBytes + 1 then .error .tooShort
  else if buf.getD 0 0 ≠ kStartByte then .error .badStartByte
  else
    let header := RelinkHeader.unpack buf
    if header.flags ≠ 0 then .error .lengthMismatch
    else
      let payloadOff := 1 + kHeaderBytes
      let stopOff := payloadOff + header.payloadLen.toNat
      if buf.length ≤ stopOff then .error .lengthMismatch
      else if stopOff + 1 ≠ buf.length then .error .lengthMismatch
      else if buf.getD stopOff 0 ≠ kStopByte then .error .badStopByte
      else .ok ⟨header, (buf.drop payloadOff).take header.payloadLen.toNat⟩

@[simp] theorem pack_length (h : RelinkHeader) : h.pack.length = kHeaderBytes := by
  simp [RelinkHeader.pack, kHeaderBytes]

/-- The bytes of a frame, before any limit is looked at. -/
def frameBytes (topicId : UInt32) (seqNum : UInt16) (payload : Bytes) : Bytes :=
  kStartByte :: ((⟨topicId, seqNum, UInt16.ofNat payload.length, 0⟩ : RelinkHeader).pack ++
    payload ++ [kStopByte])

theorem frameBytes_length (topicId : UInt32) (seqNum : UInt16) (payload : Bytes) :
    (frameBytes topicId seqNum payload).length = payload.length + 11 := by
  simp [frameBytes, kHeaderBytes]
  omega

theorem encodeFrame_ok (topicId : UInt32) (seqNum : UInt16) (payload : Bytes)
    (h : payload.length ≤ kMaxPayloadBytes) :
    encodeFrame topicId seqNum payload kMaxFrameBytes = .ok (frameBytes topicId seqNum payload) := by
  unfold encodeFrame
  rw [if_neg (by omega), if_neg (by simp [kMaxFrameBytes]; omega)]
  rfl

/-! ### What the decoder accepts -/

/-- A header lies behind the start byte, whatever comes after it. -/
theorem unpack_pack (h : RelinkHeader) (rest : Bytes) :
    RelinkHeader.unpack (kStartByte :: (h.pack ++ rest)) = h := by
  simp only [RelinkHeader.unpack, RelinkHeader.pack, List.append_assoc]
  rw [show ∀ l : Bytes, kStartByte :: l = [kStartByte] ++ l from fun _ => rfl]
  rw [RelinkHeader.mk.injEq]
  refine ⟨?_, ?_, ?_, ?_⟩
  · rw [readU32_skip _ _ rfl (by decide)]
    exact readU32_here ..
  · rw [readU16_skip _ _ rfl (by decide), readU16_skip _ _ (u32_length _) (by decide)]
    exact readU16_here ..
  · rw [readU16_skip _ _ rfl (by decide), readU16_skip _ _ (u32_length _) (by decide),
      readU16_skip _ _ (u16_length _) (by decide)]
    exact readU16_here ..
  · rw [List.getD_append_right _ _ _ _ (by decide), List.getD_append_right _ _ _ _ (by simp),
      List.getD_append_right _ _ _ _ (by simp), List.getD_append_right _ _ _ _ (by simp)]
    simp

theorem unpack_frameBytes (topicId : UInt32) (seqNum : UInt16) (payload : Bytes) :
    RelinkHeader.unpack (frameBytes topicId seqNum payload) =
      ⟨topicId, seqNum, UInt16.ofNat payload.length, 0⟩ := by
  rw [frameBytes, List.append_assoc]
  exact unpack_pack _ _

/-- No frame begins another one. -/
theorem frameBytes_prefix {topicId topicId' : UInt32} {seqNum seqNum' : UInt16}
    {payload payload' : Bytes} (h : payload.length < 65536) (h' : payload'.length < 65536)
    (hbegins : frameBytes topicId seqNum payload <+: frameBytes topicId' seqNum' payload') :
    topicId = topicId' ∧ seqNum = seqNum' ∧ payload = payload' := by
  obtain ⟨rest, hrest⟩ := hbegins
  -- the headers agree, so the payloads have one length
  have hheader : (⟨topicId, seqNum, UInt16.ofNat payload.length, 0⟩ : RelinkHeader) =
      ⟨topicId', seqNum', UInt16.ofNat payload'.length, 0⟩ := by
    rw [← unpack_frameBytes topicId' seqNum' payload', ← hrest, frameBytes, List.cons_append,
      List.append_assoc, List.append_assoc]
    exact (unpack_pack _ _).symm
  rw [RelinkHeader.mk.injEq] at hheader
  obtain ⟨rfl, rfl, hlen, _⟩ := hheader
  have hlen : payload.length = payload'.length := by
    have := congrArg UInt16.toNat hlen
    rwa [UInt16.toNat_ofNat', UInt16.toNat_ofNat', Nat.mod_eq_of_lt h, Nat.mod_eq_of_lt h'] at this
  refine ⟨rfl, rfl, ?_⟩
  have hsame : (frameBytes topicId seqNum payload).length =
      (frameBytes topicId seqNum payload').length := by
    rw [frameBytes_length, frameBytes_length, hlen]
  have hframes := (List.append_inj (hrest.trans (List.append_nil _).symm) hsame).1
  simp only [frameBytes, hlen, List.cons.injEq, true_and, List.append_assoc,
    List.append_cancel_left_eq] at hframes
  exact (List.append_inj hframes hlen).1

/-- Every payload whose length fits the header's field decodes, budget or not. -/
theorem decodeFrame_frameBytes (topicId : UInt32) (seqNum : UInt16) (payload : Bytes)
    (h : payload.length < 65536) :
    decodeFrame (frameBytes topicId seqNum payload) =
      .ok ⟨⟨topicId, seqNum, UInt16.ofNat payload.length, 0⟩, payload⟩ := by
  have hlen := frameBytes_length topicId seqNum payload
  have hpl : (UInt16.ofNat payload.length).toNat = payload.length := by
    rw [UInt16.toNat_ofNat', Nat.mod_eq_of_lt h]
  have hsplit : frameBytes topicId seqNum payload =
      (kStartByte :: (⟨topicId, seqNum, UInt16.ofNat payload.length, 0⟩ : RelinkHeader).pack) ++
        (payload ++ [kStopByte]) := by
    simp [frameBytes]
  have hstop : (frameBytes topicId seqNum payload).getD (1 + kHeaderBytes + payload.length) 0 =
      kStopByte := by
    rw [hsplit, List.getD_append_right _ _ _ _ (by simp [Nat.add_comm]),
      List.getD_append_right _ _ _ _ (by simp; omega)]
    simp [Nat.add_comm 1 kHeaderBytes]
  have hpay : ((frameBytes topicId seqNum payload).drop (1 + kHeaderBytes)).take payload.length =
      payload := by
    rw [hsplit, List.drop_left' (by simp [Nat.add_comm]), List.take_left' rfl]
  unfold decodeFrame
  simp only [unpack_frameBytes, hpl, hstop, hpay, hlen]
  rw [if_neg (by simp [kHeaderBytes]), if_neg (by simp [frameBytes]), if_neg (by simp),
    if_neg (by simp [kHeaderBytes]; omega), if_neg (by simp [kHeaderBytes]; omega), if_neg (by simp)]

/-- An accepted buffer is eleven bytes longer than its payload. -/
theorem decodeFrame_length {buf : Bytes} {f : DecodedFrame} (h : decodeFrame buf = .ok f) :
    buf.length = f.payload.length + 11 ∧ f.header.payloadLen.toNat = f.payload.length := by
  unfold decodeFrame at h
  split at h
  · cases h
  split at h
  · cases h
  simp only at h
  split at h
  · cases h
  split at h
  · cases h
  split at h
  · cases h
  split at h
  · cases h
  rename_i hstop _
  simp only [Except.ok.injEq] at h
  subst h
  simp only [kHeaderBytes] at hstop ⊢
  simp only [List.length_take, List.length_drop]
  omega

end Relink.Wire
