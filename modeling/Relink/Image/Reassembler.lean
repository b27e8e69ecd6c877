import Relink.Library.Buffer
import Relink.Wire.Frame

/-! Chunked images: the two reassemblers and the handlers that feed them.

`ImageReassembler` and `CompressedImageReassembler` run the same code over
different chunk data sizes; the second also keeps a timestamp and a quality from
the chunk that opened the frame (`μ`). The buffer is sized by the chunk that opens
a frame and indexed by every chunk after it. -/
namespace Relink.Image
open LittleEndian Wire

def kImageChunkHeaderBytes : Nat := 10
def kImageChunkDataBytes : Nat := kMaxPayloadBytes - kImageChunkHeaderBytes
def kCompressedImageChunkHeaderBytes : Nat := 19
def kCompressedImageChunkDataBytes : Nat := kMaxPayloadBytes - kCompressedImageChunkHeaderBytes

structure Reassembler (μ : Type) where
  inProgress : Bool
  currentFrameId : UInt32
  /-- Kept from the chunk that opened the frame. -/
  stamp : μ
  received : List Bool
  buffer : Bytes
  receivedCount : Nat
  lastChunkBytes : UInt16

/-- One call of the completion callback. -/
structure Completed (μ : Type) where
  frameId : UInt32
  image : Bytes
  stamp : μ
deriving DecidableEq, Repr

/-- What a compressed chunk carries besides its bytes. -/
structure CaptureStamp where
  captureTimestampNs : UInt64
  quality : UInt8
deriving DecidableEq, Repr

abbrev ImageReassembler := Reassembler Unit
abbrev CompressedImageReassembler := Reassembler CaptureStamp

def Reassembler.fresh {μ : Type} (stamp : μ) : Reassembler μ := ⟨false, 0, stamp, [], [], 0, 0⟩

def ImageReassembler.init : ImageReassembler := .fresh ()
def CompressedImageReassembler.init : CompressedImageReassembler := .fresh ⟨0, 0⟩

section Chunk
variable {μ : Type}

/-- A chunk of another frame, or of none in progress, discards what there is. -/
def openFrame (dataBytes : Nat) (s : Reassembler μ) (frameId : UInt32) (chunkCount : UInt16)
    (stamp : μ) : Reassembler μ :=
  if frameId ≠ s.currentFrameId ∨ s.inProgress = false then
    { inProgress := true
      currentFrameId := frameId
      stamp := stamp
      received := List.replicate chunkCount.toNat false
      buffer := List.replicate (chunkCount.toNat * dataBytes) 0
      receivedCount := 0
      lastChunkBytes := s.lastChunkBytes }
  else s

/-- `size_t(chunk_count - 1) * data_bytes + last_chunk_bytes_`, the length of the image. -/
def totalBytes (dataBytes : Nat) (chunkCount : UInt16) (lastChunkBytes : UInt16) : Nat :=
  if 1 < chunkCount.toNat then (chunkCount.toNat - 1) * dataBytes + lastChunkBytes.toNat
  else lastChunkBytes.toNat

/-- The chunk's bytes are in the buffer: mark it, and finish the frame if it was the
last one missing. The count compared with is the arriving chunk's. -/
def markChunk (dataBytes : Nat) (s : Reassembler μ) (buffer : Bytes)
    (chunkIndex chunkCount chunkBytes : UInt16) :
    Except Buffer.Fault (Reassembler μ × Option (Completed μ)) :=
  let s := {s with
    buffer := buffer
    received := s.received.set chunkIndex.toNat true
    receivedCount := s.receivedCount + 1
    -- `chunk_count - 1` is computed in `int`: no chunk is the last of zero.
    lastChunkBytes := if chunkIndex.toNat + 1 = chunkCount.toNat then chunkBytes
      else s.lastChunkBytes}
  if s.receivedCount = chunkCount.toNat then
    match Buffer.slice s.buffer (totalBytes dataBytes chunkCount s.lastChunkBytes) with
    | .error e => .error e
    | .ok image => .ok ({s with inProgress := false}, some ⟨s.currentFrameId, image, s.stamp⟩)
  else .ok (s, none)

/-- `on_chunk_raw` of both reassemblers. -/
def chunkRaw (dataBytes : Nat) (s : Reassembler μ) (frameId : UInt32)
    (chunkIndex chunkCount : UInt16) (data : Bytes) (chunkBytes : UInt16) (stamp : μ) :
    Except Buffer.Fault (Reassembler μ × Option (Completed μ)) :=
  let s := openFrame dataBytes s frameId chunkCount stamp
  if s.received.length ≤ chunkIndex.toNat ∨ s.received.getD chunkIndex.toNat false = true then
    .ok (s, none)
  else match Buffer.copyInto s.buffer (chunkIndex.toNat * dataBytes) data chunkBytes.toNat with
    | .error e => .error e
    | .ok buffer => markChunk dataBytes s buffer chunkIndex chunkCount chunkBytes

end Chunk

/-- `ImageReassembler::on_chunk_raw`. -/
def ImageReassembler.onChunkRaw (s : ImageReassembler) (frameId : UInt32)
    (chunkIndex chunkCount : UInt16) (data : Bytes) (chunkBytes : UInt16) :
    Except Buffer.Fault (ImageReassembler × Option (Completed Unit)) :=
  chunkRaw kImageChunkDataBytes s frameId chunkIndex chunkCount data chunkBytes ()

/-- `CompressedImageReassembler::on_chunk_raw`. -/
def CompressedImageReassembler.onChunkRaw (s : CompressedImageReassembler) (frameId : UInt32)
    (chunkIndex chunkCount : UInt16) (data : Bytes) (chunkBytes : UInt16)
    (captureTimestampNs : UInt64) (quality : UInt8) :
    Except Buffer.Fault (CompressedImageReassembler × Option (Completed CaptureStamp)) :=
  chunkRaw kCompressedImageChunkDataBytes s frameId chunkIndex chunkCount data chunkBytes
    ⟨captureTimestampNs, quality⟩

/-- The raw handler `subscribe_image` installs. -/
def subscribeImageHandler (s : ImageReassembler) (payload : Bytes) :
    Except Buffer.Fault (ImageReassembler × Option (Completed Unit)) :=
  if payload.length < kImageChunkHeaderBytes then .ok (s, none)
  else
    let chunkBytes := readU16 8 payload
    let data := payload.drop kImageChunkHeaderBytes
    if chunkBytes.toNat ≠ payload.length - kImageChunkHeaderBytes then .ok (s, none)
    else s.onChunkRaw (readU32 0 payload) (readU16 4 payload) (readU16 6 payload) data chunkBytes

/-- The raw handler `subscribe_compressed_image` installs. -/
def subscribeCompressedImageHandler (s : CompressedImageReassembler) (payload : Bytes) :
    Except Buffer.Fault (CompressedImageReassembler × Option (Completed CaptureStamp)) :=
  if payload.length < kCompressedImageChunkHeaderBytes then .ok (s, none)
  else
    let chunkBytes := readU16 8 payload
    let data := payload.drop kCompressedImageChunkHeaderBytes
    if chunkBytes.toNat ≠ payload.length - kCompressedImageChunkHeaderBytes then .ok (s, none)
    else s.onChunkRaw (readU32 0 payload) (readU16 4 payload) (readU16 6 payload) data chunkBytes
      (readU64 10 payload) (payload.getD 18 0)

/-! ### The bounds a reassembler keeps

`Bounded` is the invariant of every reachable state: the buffer has room for every
chunk that may be marked, no more chunks are marked than there are, and the last
chunk's length, which may be left from an earlier frame, fits one slot. -/

section Bounds
variable {μ : Type}

/-- The chunks not marked yet. -/
def missing (received : List Bool) : Nat := received.count false

structure Bounded (dataBytes : Nat) (s : Reassembler μ) : Prop where
  size : s.buffer.length = s.received.length * dataBytes
  count : s.receivedCount + missing s.received = s.received.length
  last : s.lastChunkBytes.toNat ≤ dataBytes

theorem bounded_fresh (dataBytes : Nat) (stamp : μ) : Bounded dataBytes (.fresh stamp) :=
  ⟨by simp [Reassembler.fresh], rfl, Nat.zero_le _⟩

theorem bounded_openFrame {dataBytes : Nat} {s : Reassembler μ} (h : Bounded dataBytes s)
    (frameId : UInt32) (chunkCount : UInt16) (stamp : μ) :
    Bounded dataBytes (openFrame dataBytes s frameId chunkCount stamp) := by
  unfold openFrame
  split
  · exact ⟨by simp, by simp [missing], h.last⟩
  · exact h

/-- Marking a missing chunk leaves one fewer missing. -/
theorem missing_set {received : List Bool} {i : Nat} (hi : i < received.length)
    (hfree : received.getD i false = false) :
    missing (received.set i true) + 1 = missing received := by
  induction received generalizing i with
  | nil => exact absurd hi (Nat.not_lt_zero i)
  | cons b rest ih =>
    cases i with
    | zero =>
      have hb : b = false := by simpa using hfree
      subst hb
      simp [missing]
    | succ i =>
      have := ih (i := i) (by simpa using hi) (by simpa using hfree)
      simp only [missing, List.set_cons_succ, List.count_cons] at this ⊢
      omega

/-- The image taken out at completion lies in a buffer that holds all its chunks. -/
theorem totalBytes_le {dataBytes slots : Nat} {chunkCount last : UInt16}
    (hslots : chunkCount.toNat ≤ slots) (hpos : 0 < slots) (hlast : last.toNat ≤ dataBytes) :
    totalBytes dataBytes chunkCount last ≤ slots * dataBytes := by
  have hone : dataBytes ≤ slots * dataBytes := Nat.le_mul_of_pos_left _ hpos
  unfold totalBytes
  split
  · have hmul : (chunkCount.toNat - 1) * dataBytes + dataBytes = chunkCount.toNat * dataBytes := by
      rw [← Nat.succ_mul, Nat.succ_eq_add_one, Nat.sub_add_cancel (by omega)]
    have hle : chunkCount.toNat * dataBytes ≤ slots * dataBytes := Nat.mul_le_mul_right _ hslots
    omega
  · omega

theorem bounded_markChunk {dataBytes : Nat} {s : Reassembler μ} {buffer : Bytes}
    {chunkIndex chunkCount chunkBytes : UInt16} (h : Bounded dataBytes s)
    (hbuf : buffer.length = s.buffer.length) (hi : chunkIndex.toNat < s.received.length)
    (hfree : s.received.getD chunkIndex.toNat false = false)
    (hfit : chunkBytes.toNat ≤ dataBytes) :
    ∃ r, markChunk dataBytes s buffer chunkIndex chunkCount chunkBytes = .ok r ∧
      Bounded dataBytes r.1 := by
  have hmissing := missing_set hi hfree
  have hlast : (if chunkIndex.toNat + 1 = chunkCount.toNat then chunkBytes
      else s.lastChunkBytes).toNat ≤ dataBytes := by
    split
    · exact hfit
    · exact h.last
  have hcount := h.count
  have hsize : buffer.length = s.received.length * dataBytes := by rw [hbuf, h.size]
  unfold markChunk
  simp only
  split
  · rename_i hdone
    have hroom : totalBytes dataBytes chunkCount (if chunkIndex.toNat + 1 = chunkCount.toNat
        then chunkBytes else s.lastChunkBytes) ≤ buffer.length := by
      rw [hsize]
      exact totalBytes_le (by omega) (by omega) hlast
    rw [Buffer.slice_ok hroom]
    exact ⟨_, rfl, ⟨by simpa using hsize, by simp only [List.length_set]; omega, hlast⟩⟩
  · exact ⟨_, rfl, ⟨by simpa using hsize, by simp only [List.length_set]; omega, hlast⟩⟩

/-- A chunk that fits its slot is copied inside the buffer, and a frame it completes
is taken from inside the buffer, whatever chunks came before. -/
theorem chunkRaw_bounded {dataBytes : Nat} {s : Reassembler μ} (h : Bounded dataBytes s)
    (frameId : UInt32) (chunkIndex chunkCount : UInt16) (data : Bytes) (chunkBytes : UInt16)
    (stamp : μ) (hdata : chunkBytes.toNat ≤ data.length) (hfit : chunkBytes.toNat ≤ dataBytes) :
    ∃ r, chunkRaw dataBytes s frameId chunkIndex chunkCount data chunkBytes stamp = .ok r ∧
      Bounded dataBytes r.1 := by
  have ho := bounded_openFrame h frameId chunkCount stamp
  unfold chunkRaw
  simp only
  split
  · exact ⟨_, rfl, ho⟩
  · rename_i hfree
    obtain ⟨hi, hmark⟩ := not_or.mp hfree
    have hslot : chunkIndex.toNat * dataBytes + dataBytes ≤
        (openFrame dataBytes s frameId chunkCount stamp).buffer.length := by
      rw [ho.size, ← Nat.succ_mul]
      exact Nat.mul_le_mul_right _ (by omega)
    have hcopy : Buffer.copyInto (openFrame dataBytes s frameId chunkCount stamp).buffer
        (chunkIndex.toNat * dataBytes) data chunkBytes.toNat = .ok _ :=
      Buffer.copyInto_ok hdata (by omega)
    rw [hcopy]
    exact bounded_markChunk ho (Buffer.copyInto_length hcopy) (by omega) (by simpa using hmark) hfit

end Bounds

/-! ### The header of a chunk -/

/-- What a handler reads of a chunk. -/
structure Header (payload : Bytes) (frameId : UInt32) (index count bytes : UInt16) (rest : Bytes) :
    Prop where
  frameId : readU32 0 payload = frameId
  index : readU16 4 payload = index
  count : readU16 6 payload = count
  bytes : readU16 8 payload = bytes
  length : payload.length = 10 + rest.length
  rest : payload.drop 10 = rest

theorem header (frameId : UInt32) (index count bytes : UInt16) (rest : Bytes) :
    Header (u32 frameId ++ (u16 index ++ (u16 count ++ (u16 bytes ++ rest)))) frameId index count
      bytes rest := by
  refine ⟨readU32_here .., ?_, ?_, ?_, ?_, ?_⟩
  · rw [readU16_skip _ _ (u32_length _) (by decide)]
    exact readU16_here ..
  · rw [readU16_skip _ _ (u32_length _) (by decide), readU16_skip _ _ (u16_length _) (by decide)]
    exact readU16_here ..
  · rw [readU16_skip _ _ (u32_length _) (by decide), readU16_skip _ _ (u16_length _) (by decide),
      readU16_skip _ _ (u16_length _) (by decide)]
    exact readU16_here ..
  · simp only [List.length_append, u32_length, u16_length]
    omega
  · have hsplit : u32 frameId ++ (u16 index ++ (u16 count ++ (u16 bytes ++ rest))) =
        (u32 frameId ++ (u16 index ++ (u16 count ++ u16 bytes))) ++ rest := by
      simp only [List.append_assoc]
    rw [hsplit, List.drop_left' (by simp)]

end Relink.Image
