import Relink.Library.Buffer
import Relink.Wire.Frame

/-! Data frames in both languages.

`frame.py` beside `frame.hpp`. Neither decoder searches for the stop byte, and both read a
frame exactly where the other does; the encoders differ in nothing but how they refuse.
The C++ decoder is given once more with its accesses checked: none is outside the buffer.
What the decoders do not look at is the budget of the encoders, so they accept frames that
nobody sends. -/
namespace Relink.Wire
open LittleEndian

/-! ### The accesses of the decoder -/

/-- The header in the bytes that were copied over it. -/
def RelinkHeader.ofBytes (raw : Bytes) : RelinkHeader where
  topicId := readU32 0 raw
  seqNum := readU16 4 raw
  payloadLen := readU16 6 raw
  flags := raw.getD 8 0

/-- `decode_frame` once more, each byte loaded where the source loads it. The payload is not
read here; what the caller may read through the pointer is loaded in its place. -/
def loadFrame (buf : Bytes) : Except Buffer.Fault (Except DecodeResult DecodedFrame) :=
  if buf.length < 1 + kHeaderBytes + 1 then .ok (.error .tooShort)
  else do
    let start ← Buffer.byteAt buf 0
    if start ≠ kStartByte then return .error .badStartByte
    let header := RelinkHeader.ofBytes (← Buffer.load buf 1 kHeaderBytes)
    if header.flags ≠ 0 then return .error .lengthMismatch
    let payloadOff := 1 + kHeaderBytes
    let stopOff := payloadOff + header.payloadLen.toNat
    if buf.length ≤ stopOff then return .error .lengthMismatch
    if stopOff + 1 ≠ buf.length then return .error .lengthMismatch
    let stop ← Buffer.byteAt buf stopOff
    if stop ≠ kStopByte then return .error .badStopByte
    let payload ← Buffer.load buf payloadOff header.payloadLen.toNat
    return .ok ⟨header, payload⟩

theorem ofBytes_load (buf : Bytes) :
    RelinkHeader.ofBytes ((buf.drop 1).take kHeaderBytes) = RelinkHeader.unpack buf := by
  rw [RelinkHeader.ofBytes, RelinkHeader.unpack, RelinkHeader.mk.injEq]
  refine ⟨?_, ?_, ?_, ?_⟩
  · rw [readU32_take _ (by decide), readU32, read_drop, readU32]
  · rw [readU16_take _ (by decide), readU16, read_drop, readU16]
  · rw [readU16_take _ (by decide), readU16, read_drop, readU16]
  · rw [List.getD_eq_getElem?_getD, List.getElem?_take_of_lt (by decide), List.getElem?_drop,
      List.getD_eq_getElem?_getD]

/-- No access faults, whatever the bytes. -/
theorem loadFrame_eq (buf : Bytes) : loadFrame buf = .ok (decodeFrame buf) := by
  unfold loadFrame decodeFrame
  by_cases hshort : buf.length < 1 + kHeaderBytes + 1
  · rw [if_pos hshort, if_pos hshort]
  have hlen : 1 + kHeaderBytes ≤ buf.length := by omega
  rw [if_neg hshort, if_neg hshort, Buffer.byteAt_ok (by omega), Buffer.load_ok hlen]
  show (if buf.getD 0 0 ≠ kStartByte then _ else _) = _
  by_cases hstart : buf.getD 0 0 ≠ kStartByte
  · rw [if_pos hstart, if_pos hstart]
    rfl
  rw [if_neg hstart, if_neg hstart]
  simp only [bind, Except.bind, ofBytes_load, pure, Except.pure]
  by_cases hflags : (RelinkHeader.unpack buf).flags ≠ 0
  · rw [if_pos hflags, if_pos hflags]
  rw [if_neg hflags, if_neg hflags]
  by_cases hover : buf.length ≤ 1 + kHeaderBytes + (RelinkHeader.unpack buf).payloadLen.toNat
  · rw [if_pos hover, if_pos hover]
  rw [if_neg hover, if_neg hover]
  by_cases hlen : 1 + kHeaderBytes + (RelinkHeader.unpack buf).payloadLen.toNat + 1 ≠ buf.length
  · rw [if_pos hlen, if_pos hlen]
  rw [if_neg hlen, if_neg hlen, Buffer.byteAt_ok (by omega), Buffer.load_ok (by omega)]
  show (if buf.getD _ 0 ≠ kStopByte then _ else _) = _
  split <;> rfl

/-! ### What is accepted -/

/-- Packing what was unpacked gives the bytes back. -/
theorem pack_unpack {buf : Bytes} (h : 1 + kHeaderBytes ≤ buf.length) :
    (RelinkHeader.unpack buf).pack = (buf.drop 1).take kHeaderBytes := by
  have h' : 10 ≤ buf.length := h
  have hflags : [buf.getD 9 0] = (buf.drop 9).take 1 := by
    rw [List.drop_eq_getElem_cons (by omega), List.take_succ_cons, List.take_zero,
      List.getD_eq_getElem?_getD, List.getElem?_eq_getElem (by omega), Option.getD_some]
  have hsplit : (buf.drop 1).take (4 + (2 + (2 + 1))) = (buf.drop 1).take 4 ++
      ((buf.drop 5).take 2 ++ ((buf.drop 7).take 2 ++ (buf.drop 9).take 1)) := by
    simp only [List.take_add, List.drop_drop]
  show u32 (readU32 1 buf) ++ u16 (readU16 5 buf) ++ u16 (readU16 7 buf) ++ [buf.getD 9 0] = _
  rw [u32_readU32 (by omega), u16_readU16 (by omega), u16_readU16 (by omega), hflags,
    List.append_assoc, List.append_assoc]
  exact hsplit.symm

/-- What the decoder has checked by the time it accepts. -/
theorem decodeFrame_inv {buf : Bytes} {f : DecodedFrame} (h : decodeFrame buf = .ok f) :
    1 + kHeaderBytes < buf.length ∧ buf.getD 0 0 = kStartByte ∧ f.header = RelinkHeader.unpack buf ∧
      f.header.flags = 0 ∧ 1 + kHeaderBytes + f.header.payloadLen.toNat + 1 = buf.length ∧
      buf.getD (1 + kHeaderBytes + f.header.payloadLen.toNat) 0 = kStopByte ∧
      f.payload = (buf.drop (1 + kHeaderBytes)).take f.header.payloadLen.toNat := by
  unfold decodeFrame at h
  split at h
  · cases h
  next hshort =>
  split at h
  · cases h
  next hstart =>
  simp only at h
  split at h
  · cases h
  next hflags =>
  split at h
  · cases h
  split at h
  · cases h
  next hlen =>
  split at h
  · cases h
  next hstop =>
  cases h
  exact ⟨by omega, not_not.mp hstart, rfl, not_not.mp hflags, not_not.mp hlen, not_not.mp hstop, rfl⟩

/-- An accepted buffer is a frame, with the fields that were read from it. -/
theorem eq_frameBytes {buf : Bytes} {f : DecodedFrame} (h : decodeFrame buf = .ok f) :
    buf = frameBytes f.header.topicId f.header.seqNum f.payload := by
  obtain ⟨hshort, hstart, hheader, hflags, hlen, hstop, hpayload⟩ := decodeFrame_inv h
  have hcount : UInt16.ofNat f.payload.length = f.header.payloadLen := by
    rw [← (decodeFrame_length h).2, UInt16.ofNat_toNat]
  have hpack : (⟨f.header.topicId, f.header.seqNum, UInt16.ofNat f.payload.length, 0⟩ :
      RelinkHeader).pack = (buf.drop 1).take kHeaderBytes := by
    rw [hcount, ← hflags, ← pack_unpack (by omega), ← hheader]
  have hfirst : buf = kStartByte :: buf.drop 1 := by
    rw [← hstart, List.getD_eq_getElem?_getD, List.getElem?_eq_getElem (by omega),
      Option.getD_some, ← List.drop_eq_getElem_cons (by omega), List.drop_zero]
  have hlast : [kStopByte] = ((buf.drop 1).drop kHeaderBytes).drop f.header.payloadLen.toNat := by
    rw [List.drop_drop, List.drop_drop, ← hstop, Nat.add_assoc, List.drop_eq_getElem_cons (by omega), List.drop_eq_nil_of_le (by omega),
      List.getD_eq_getElem?_getD, List.getElem?_eq_getElem (by omega), Option.getD_some]
  -- header, payload and stop byte are consecutive pieces of what follows the start byte
  rw [frameBytes, hpack, hpayload, hlast, List.append_assoc, ← List.drop_drop,
    List.take_append_drop, List.take_append_drop]
  exact hfirst

/-- The encoder succeeds exactly within the budget of both its checks. -/
theorem encodeFrame_ok_iff (topicId : UInt32) (seqNum : UInt16) (payload buf : Bytes)
    {outCapacity : Nat} (hcap : kMaxFrameBytes ≤ outCapacity) :
    encodeFrame topicId seqNum payload outCapacity = .ok buf ↔
      payload.length ≤ kMaxPayloadBytes ∧ buf = frameBytes topicId seqNum payload := by
  unfold encodeFrame
  by_cases h : kMaxPayloadBytes < payload.length
  · rw [if_pos h]
    exact iff_of_false (fun h => by cases h) fun hok => absurd hok.1 (by omega)
  · have hroom : ¬outCapacity < 1 + kHeaderBytes + payload.length + 1 := by
      simp only [kMaxFrameBytes] at hcap
      omega
    rw [if_neg h, if_neg hroom, and_iff_right (by omega)]
    exact (Except.ok.injEq ..).to_iff.trans eq_comm

theorem encodeFrame_budget {topicId : UInt32} {seqNum : UInt16} {payload buf : Bytes}
    {outCapacity : Nat} (h : encodeFrame topicId seqNum payload outCapacity = .ok buf) :
    payload.length ≤ kMaxPayloadBytes := by
  unfold encodeFrame at h
  split at h
  · cases h
  · omega

/-- The encoder writes the accepted buffers of at most `kMaxFrameBytes` and no others. -/
theorem encodeFrame_decoded_iff {buf : Bytes} {f : DecodedFrame} (h : decodeFrame buf = .ok f)
    {outCapacity : Nat} (hcap : kMaxFrameBytes ≤ outCapacity) :
    encodeFrame f.header.topicId f.header.seqNum f.payload outCapacity = .ok buf ↔
      buf.length ≤ kMaxFrameBytes := by
  have hlen := (decodeFrame_length h).1
  rw [encodeFrame_ok_iff _ _ _ _ hcap, and_iff_left (eq_frameBytes h), hlen]
  simp only [kMaxFrameBytes, kHeaderBytes]
  omega

theorem encoded_iff (buf : Bytes) {outCapacity : Nat} (hcap : kMaxFrameBytes ≤ outCapacity) :
    (∃ topicId seqNum payload, encodeFrame topicId seqNum payload outCapacity = .ok buf) ↔
      (∃ f, decodeFrame buf = .ok f) ∧ buf.length ≤ kMaxFrameBytes := by
  constructor
  · rintro ⟨topicId, seqNum, payload, h⟩
    obtain ⟨hpayload, rfl⟩ := (encodeFrame_ok_iff _ _ _ _ hcap).mp h
    refine ⟨⟨_, decodeFrame_frameBytes topicId seqNum payload (lt_of_le_of_lt hpayload (by decide))⟩, ?_⟩
    rw [frameBytes_length]
    simp only [kMaxFrameBytes, kHeaderBytes]
    omega
  · rintro ⟨⟨f, hf⟩, hlen⟩
    exact ⟨_, _, _, (encodeFrame_decoded_iff hf hcap).mpr hlen⟩

/-! ### The Python build -/

theorem toOption_eq_some_iff {ε α : Type} {r : Except ε α} {x : α} :
    r.toOption = some x ↔ r = .ok x := by
  cases r <;> simp [Except.toOption]

namespace Py

/-- What the codecs of the Python package raise, with its text where the source gives one. -/
inductive Exn where
  | frameError (message : String)
  | valueError (message : String)
  | indexError
  /-- The `ValueError` of `from_buffer_copy`. -/
  | bufferTooSmall
  /-- `struct.error` -/
  | structError
deriving DecidableEq, Repr

structure DecodedFrame where
  topicId : UInt32
  seqNum : UInt16
  payload : Bytes
deriving DecidableEq, Repr

/-- `buf[i]` -/
def getItem (buf : Bytes) (i : Nat) : Except Exn UInt8 :=
  match buf[i]? with
  | none => .error .indexError
  | some b => .ok b

/-- `RelinkHeader.from_buffer_copy(buf, offset)` -/
def fromBufferCopy (buf : Bytes) (offset : Nat) : Except Exn RelinkHeader :=
  if buf.length < offset + kHeaderBytes then .error .bufferTooSmall
  else .ok (RelinkHeader.ofBytes ((buf.drop offset).take kHeaderBytes))

/-- The numbers are fields of a `ctypes` structure, which have the widths of the C++ ones. -/
def encodeFrame (topicId : UInt32) (seqNum : UInt16) (payload : Bytes) : Except Exn Bytes :=
  if kMaxPayloadBytes < payload.length then
    .error (.frameError
      s!"payload of {payload.length} bytes exceeds MTU budget of {kMaxPayloadBytes}")
  else
    let header : RelinkHeader := ⟨topicId, seqNum, UInt16.ofNat payload.length, 0⟩
    .ok ([kStartByte] ++ header.pack ++ payload ++ [kStopByte])

def decodeFrame (buf : Bytes) : Except Exn DecodedFrame :=
  if buf.length < 1 + kHeaderBytes + 1 then .error (.frameError "frame too short")
  else do
    let start ← getItem buf 0
    if start ≠ kStartByte then throw (.frameError "bad start byte")
    let header ← fromBufferCopy buf 1
    if header.flags ≠ 0 then
      throw (.frameError "secure/checksum frames unsupported at this layer")
    let payloadOff := 1 + kHeaderBytes
    let stopOff := payloadOff + header.payloadLen.toNat
    if buf.length ≤ stopOff ∨ stopOff + 1 ≠ buf.length then
      throw (.frameError "payload_len/buffer length mismatch")
    let stop ← getItem buf stopOff
    if stop ≠ kStopByte then throw (.frameError "bad stop byte")
    return ⟨header.topicId, header.seqNum, (buf.take stopOff).drop payloadOff⟩

theorem getItem_ok {buf : Bytes} {i : Nat} (h : i < buf.length) :
    getItem buf i = .ok (buf.getD i 0) := by
  rw [getItem, List.getD_eq_getElem?_getD, List.getElem?_eq_getElem h]
  rfl

/-- What Python keeps of a decoded frame. -/
def DecodedFrame.of (f : Wire.DecodedFrame) : DecodedFrame :=
  ⟨f.header.topicId, f.header.seqNum, f.payload⟩

/-- Python raises exactly where the other build returns an error. -/
theorem decodeFrame_eq (buf : Bytes) :
    (decodeFrame buf).toOption = (Wire.decodeFrame buf).toOption.map DecodedFrame.of := by
  unfold decodeFrame Wire.decodeFrame
  by_cases hshort : buf.length < 1 + kHeaderBytes + 1
  · rw [if_pos hshort, if_pos hshort]
    rfl
  have hheader : fromBufferCopy buf 1 = .ok (RelinkHeader.unpack buf) := by
    rw [fromBufferCopy, if_neg (by omega), ofBytes_load]
  rw [if_neg hshort, if_neg hshort, getItem_ok (by omega), hheader]
  simp only [bind, Except.bind, throw, throwThe, MonadExceptOf.throw, pure, Except.pure]
  by_cases hstart : buf.getD 0 0 ≠ kStartByte
  · rw [if_pos hstart, if_pos hstart]
    rfl
  rw [if_neg hstart, if_neg hstart]
  by_cases hflags : (RelinkHeader.unpack buf).flags ≠ 0
  · rw [if_pos hflags, if_pos hflags]
    rfl
  rw [if_neg hflags, if_neg hflags]
  by_cases hover : buf.length ≤ 1 + kHeaderBytes + (RelinkHeader.unpack buf).payloadLen.toNat
  · rw [if_pos (.inl hover), if_pos hover]
    rfl
  by_cases hlen : 1 + kHeaderBytes + (RelinkHeader.unpack buf).payloadLen.toNat + 1 ≠ buf.length
  · rw [if_pos (.inr hlen), if_neg hover, if_pos hlen]
    rfl
  rw [if_neg (not_or.mpr ⟨hover, hlen⟩), if_neg hover, if_neg hlen, getItem_ok (by omega)]
  show Except.toOption (if buf.getD _ 0 ≠ kStopByte then _ else _) = _
  split
  · rfl
  · rw [List.drop_take, Nat.add_sub_cancel_left]
    rfl

/-- Both encoders write the same bytes within the budget, and refuse what is over it. -/
theorem encodeFrame_eq (topicId : UInt32) (seqNum : UInt16) (payload : Bytes) {outCapacity : Nat}
    (hcap : kMaxFrameBytes ≤ outCapacity) : (encodeFrame topicId seqNum payload).toOption =
      (Wire.encodeFrame topicId seqNum payload outCapacity).toOption := by
  unfold encodeFrame Wire.encodeFrame
  by_cases h : kMaxPayloadBytes < payload.length
  · rw [if_pos h, if_pos h]
    rfl
  · have hroom : ¬outCapacity < 1 + kHeaderBytes + payload.length + 1 := by
      simp only [kMaxFrameBytes] at hcap
      omega
    rw [if_neg h, if_neg h, if_neg hroom]
    rfl

theorem decodeFrame_ok_iff {buf : Bytes} {p : DecodedFrame} :
    decodeFrame buf = .ok p ↔ ∃ f, Wire.decodeFrame buf = .ok f ∧ DecodedFrame.of f = p := by
  rw [← toOption_eq_some_iff, decodeFrame_eq, Option.map_eq_some_iff]
  simp only [toOption_eq_some_iff]

theorem encodeFrame_ok_iff {topicId : UInt32} {seqNum : UInt16} {payload buf : Bytes}
    {outCapacity : Nat} (hcap : kMaxFrameBytes ≤ outCapacity) :
    encodeFrame topicId seqNum payload = .ok buf ↔
      Wire.encodeFrame topicId seqNum payload outCapacity = .ok buf := by
  rw [← toOption_eq_some_iff, encodeFrame_eq _ _ _ hcap, toOption_eq_some_iff]

end Py

/-! ### Both builds -/

/-- Within the budget the encoders write the same frame and both decoders read it back; on
any bytes the decoders agree, and the C++ one stays inside its buffer. -/
theorem frame_codecs_agree :
    (∀ topicId seqNum payload outCapacity,
      payload.length ≤ kMaxPayloadBytes → kMaxFrameBytes ≤ outCapacity →
      ∃ bytes, encodeFrame topicId seqNum payload outCapacity = .ok bytes ∧
        Py.encodeFrame topicId seqNum payload = .ok bytes ∧
        loadFrame bytes =
          .ok (.ok ⟨⟨topicId, seqNum, UInt16.ofNat payload.length, 0⟩, payload⟩) ∧
        Py.decodeFrame bytes = .ok ⟨topicId, seqNum, payload⟩) ∧
    ∀ buf, ∃ r, loadFrame buf = .ok r ∧
      (Py.decodeFrame buf).toOption = r.toOption.map Py.DecodedFrame.of := by
  constructor
  · intro topicId seqNum payload outCapacity hpayload hcap
    have hencode := (encodeFrame_ok_iff topicId seqNum payload _ hcap).mpr ⟨hpayload, rfl⟩
    have hdecode := decodeFrame_frameBytes topicId seqNum payload
      (lt_of_le_of_lt hpayload (by decide))
    refine ⟨_, hencode, (Py.encodeFrame_ok_iff hcap).mpr hencode, ?_, ?_⟩
    · rw [loadFrame_eq, hdecode]
    · exact Py.decodeFrame_ok_iff.mpr ⟨_, hdecode, rfl⟩
  · exact fun buf => ⟨decodeFrame buf, loadFrame_eq buf, Py.decodeFrame_eq buf⟩

/-- Encoding again what was accepted gives the bytes back exactly if they are no more than
the longest frame an encoder writes; nothing in the decoders asks for that. -/
theorem accepted_reencodes_iff (buf : Bytes) {outCapacity : Nat}
    (hcap : kMaxFrameBytes ≤ outCapacity) :
    (∀ f, decodeFrame buf = .ok f →
      (encodeFrame f.header.topicId f.header.seqNum f.payload outCapacity = .ok buf ↔
        buf.length ≤ kMaxFrameBytes)) ∧
    (∀ f, Py.decodeFrame buf = .ok f →
      (Py.encodeFrame f.topicId f.seqNum f.payload = .ok buf ↔ buf.length ≤ kMaxFrameBytes)) ∧
    ((∃ topicId seqNum payload, encodeFrame topicId seqNum payload outCapacity = .ok buf) ↔
      (∃ f, decodeFrame buf = .ok f) ∧ buf.length ≤ kMaxFrameBytes) ∧
    ((∃ topicId seqNum payload, Py.encodeFrame topicId seqNum payload = .ok buf) ↔
      (∃ f, Py.decodeFrame buf = .ok f) ∧ buf.length ≤ kMaxFrameBytes) := by
  have haccepted : (∃ p, Py.decodeFrame buf = .ok p) ↔ ∃ f, decodeFrame buf = .ok f := by
    simp only [Py.decodeFrame_ok_iff]
    exact ⟨fun ⟨_, f, hf, _⟩ => ⟨f, hf⟩, fun ⟨f, hf⟩ => ⟨_, f, hf, rfl⟩⟩
  refine ⟨fun f hf => encodeFrame_decoded_iff hf hcap, ?_, encoded_iff buf hcap, ?_⟩
  · intro p hp
    obtain ⟨f, hf, rfl⟩ := Py.decodeFrame_ok_iff.mp hp
    rw [Py.encodeFrame_ok_iff hcap]
    exact encodeFrame_decoded_iff hf hcap
  · simp only [haccepted, Py.encodeFrame_ok_iff hcap]
    exact encoded_iff buf hcap

/-- A frame one byte over what an encoder writes. -/
def longFrame : Bytes := frameBytes 7 0 (List.replicate 1401 0)

theorem accepted_reencodes_iff_long :
    (∀ f, decodeFrame longFrame = .ok f →
      (encodeFrame f.header.topicId f.header.seqNum f.payload kMaxFrameBytes = .ok longFrame ↔
        longFrame.length ≤ kMaxFrameBytes)) ∧
    longFrame.length = kMaxFrameBytes + 1 := by
  refine ⟨(accepted_reencodes_iff longFrame (Nat.le_refl _)).1, ?_⟩
  rw [longFrame, frameBytes_length, List.length_replicate]
  rfl

theorem long_frame_accepted :
    (∃ f, decodeFrame longFrame = .ok f ∧ ∀ outCapacity,
      encodeFrame f.header.topicId f.header.seqNum f.payload outCapacity ≠ .ok longFrame) ∧
    ∃ f, Py.decodeFrame longFrame = .ok f ∧
      Py.encodeFrame f.topicId f.seqNum f.payload ≠ .ok longFrame := by
  have hlen : (List.replicate 1401 (0 : UInt8)).length = 1401 := List.length_replicate
  have hdecode := decodeFrame_frameBytes 7 0 (List.replicate 1401 0) (by rw [hlen]; decide)
  have hover : ¬(List.replicate 1401 (0 : UInt8)).length ≤ kMaxPayloadBytes := by
    rw [hlen]
    decide
  refine ⟨⟨_, hdecode, fun outCapacity h => hover (encodeFrame_budget h)⟩,
    _, Py.decodeFrame_ok_iff.mpr ⟨_, hdecode, rfl⟩, fun h => ?_⟩
  exact hover (encodeFrame_budget ((Py.encodeFrame_ok_iff (Nat.le_refl _)).mp h))

end Relink.Wire
