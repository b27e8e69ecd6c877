import Relink.Image.Publish
import Relink.Library.Run

/-! What a reassembler delivers.

While a frame is in progress every marked slot of the buffer holds the chunk of one image,
the one whose chunk opened the frame, as long as the chunks that fill it are that image's. -/
namespace Relink.Image
open LittleEndian Wire
open Buffer (region write)
open Slots (slot slots)

section
variable {μ : Type} {dataBytes : Nat}

/-- How many chunks an image has. -/
def Published.count (dataBytes : Nat) (image : Published μ) : Nat :=
  max 1 (slots dataBytes image.data.length)

/-- The limit of `publish_image`, for chunks whose length fits their header. -/
structure Admissible (dataBytes : Nat) (image : Published μ) : Prop where
  pos : 0 < dataBytes
  word : dataBytes < 65536
  length : image.data.length ≤ 65535 * dataBytes

/-- The frame in progress is one image's: what is marked is in its place. -/
structure Holds (dataBytes : Nat) (image : Published μ) (s : Reassembler μ) : Prop where
  current : s.currentFrameId = image.frameId
  stamp : s.stamp = image.stamp
  slots : s.received.length = image.count dataBytes
  size : s.buffer.length = image.count dataBytes * dataBytes
  marked : s.receivedCount + missing s.received = s.received.length
  held : ∀ i, s.received[i]? = some true →
    region s.buffer (i * dataBytes) (slot dataBytes image.data i).length =
      slot dataBytes image.data i
  last : s.received[image.count dataBytes - 1]? = some true →
    s.lastChunkBytes.toNat = (slot dataBytes image.data (image.count dataBytes - 1)).length

/-- The image, as the callback gets it. -/
def Published.completed (image : Published μ) : Completed μ :=
  ⟨image.frameId, image.data, image.stamp⟩

variable {image : Published μ} {s : Reassembler μ}

theorem Published.count_pos (image : Published μ) (dataBytes : Nat) : 0 < image.count dataBytes :=
  Nat.le_max_left ..

theorem Admissible.count_eq (h : Admissible dataBytes image) :
    (chunkCount dataBytes image.data.length).toNat = image.count dataBytes :=
  chunkCount_toNat h.length h.pos

theorem Admissible.count_lt (h : Admissible dataBytes image) : image.count dataBytes < 65536 :=
  h.count_eq ▸ (chunkCount dataBytes image.data.length).toNat_lt

theorem Admissible.index (h : Admissible dataBytes image) {i : Nat}
    (hi : i < image.count dataBytes) : (UInt16.ofNat i).toNat = i := by
  rw [UInt16.toNat_ofNat', Nat.mod_eq_of_lt (hi.trans h.count_lt)]

theorem Admissible.slot_length (h : Admissible dataBytes image) (i : Nat) :
    (UInt16.ofNat (slot dataBytes image.data i).length).toNat =
      (slot dataBytes image.data i).length := by
  rw [UInt16.toNat_ofNat', Nat.mod_eq_of_lt]
  exact (Slots.slot_length_le ..).trans_lt h.word

theorem Admissible.length_le (h : Admissible dataBytes image) :
    image.data.length ≤ image.count dataBytes * dataBytes :=
  (Slots.slots_le h.pos _).trans (Nat.mul_le_mul_right _ (Nat.le_max_right ..))

/-- The last chunk ends where the image does. -/
theorem Admissible.last_end (h : Admissible dataBytes image) :
    (image.count dataBytes - 1) * dataBytes +
      (slot dataBytes image.data (image.count dataBytes - 1)).length = image.data.length := by
  have hle := h.length_le
  have hfull : (image.count dataBytes - 1) * dataBytes ≤ image.data.length := by
    have hslots := Slots.slots_full h.pos image.data.length
    unfold Published.count
    rcases Nat.le_total 1 (slots dataBytes image.data.length) with hone | hone
    · rwa [Nat.max_eq_right hone]
    · rw [Nat.max_eq_left hone]
      omega
  have hsucc : (image.count dataBytes - 1) * dataBytes + dataBytes =
      image.count dataBytes * dataBytes := by
    rw [← Nat.succ_mul, Nat.succ_eq_add_one, Nat.sub_add_cancel (image.count_pos dataBytes)]
  rw [Slots.slot_length]
  omega

/-- The image's length, from its count and its last chunk. -/
theorem Admissible.total_eq (h : Admissible dataBytes image) {last : UInt16}
    (hlast : last.toNat = (slot dataBytes image.data (image.count dataBytes - 1)).length) :
    totalBytes dataBytes (chunkCount dataBytes image.data.length) last =
      image.data.length := by
  have hend := h.last_end
  unfold totalBytes
  rw [h.count_eq, hlast]
  split
  · exact hend
  · next hone =>
    have hpos := image.count_pos dataBytes
    have hzero : image.count dataBytes - 1 = 0 := by omega
    rw [hzero] at hend ⊢
    omega

/-! ### A frame is opened -/

theorem Admissible.holds_open (h : Admissible dataBytes image) :
    Holds dataBytes image
      { inProgress := true
        currentFrameId := image.frameId
        stamp := image.stamp
        received := List.replicate (chunkCount dataBytes image.data.length).toNat false
        buffer := List.replicate ((chunkCount dataBytes image.data.length).toNat * dataBytes) 0
        receivedCount := 0
        lastChunkBytes := s.lastChunkBytes } := by
  have hnone : ∀ i, (List.replicate (image.count dataBytes) false)[i]? ≠ some true := fun i hi =>
    Bool.false_ne_true (List.eq_of_mem_replicate (List.mem_of_getElem? hi)).symm
  rw [h.count_eq]
  exact ⟨rfl, rfl, List.length_replicate .., List.length_replicate .., by simp [missing],
    fun i hi => absurd hi (hnone i), fun hi => absurd hi (hnone _)⟩

/-! ### A chunk is marked -/

theorem missing_eq_zero {received : List Bool} (h : missing received = 0) {i : Nat}
    (hi : i < received.length) : received[i]? = some true := by
  have hnone := List.count_eq_zero.mp h
  cases hbit : received[i] with
  | true => rw [List.getElem?_eq_getElem hi, hbit]
  | false => exact absurd (hbit ▸ List.getElem_mem hi) hnone

/-- A chunk's slot is in the buffer. -/
theorem Holds.room (h : Holds dataBytes image s) {i : Nat} (hi : i < image.count dataBytes) :
    i * dataBytes + (slot dataBytes image.data i).length ≤ s.buffer.length := by
  have hslot : i * dataBytes + dataBytes ≤ image.count dataBytes * dataBytes := by
    rw [← Nat.succ_mul]
    exact Nat.mul_le_mul_right _ hi
  have hle := Slots.slot_length_le dataBytes image.data i
  rw [h.size]
  omega

/-- A chunk of the image goes where it belongs. -/
theorem Holds.mark (h : Holds dataBytes image s) (hadm : Admissible dataBytes image) {i : Nat}
    (hi : i < image.count dataBytes) (hfree : s.received.getD i false = false) :
    Holds dataBytes image {s with
      buffer := write s.buffer (i * dataBytes) (slot dataBytes image.data i)
      received := s.received.set i true
      receivedCount := s.receivedCount + 1
      lastChunkBytes := if i + 1 = image.count dataBytes then
        UInt16.ofNat (slot dataBytes image.data i).length else s.lastChunkBytes} := by
  have hin : i < s.received.length := h.slots ▸ hi
  have hroom := h.room hi
  have hmissing := missing_set hin hfree
  have hmarked := h.marked
  refine ⟨h.current, h.stamp, (List.length_set ..).trans h.slots,
    (Buffer.write_length hroom).trans h.size, ?_, fun j hj => ?_, fun hlast => ?_⟩
  · rw [List.length_set]
    show s.receivedCount + 1 + missing (s.received.set i true) = _
    omega
  · by_cases hij : i = j
    · subst hij
      exact Buffer.region_write hroom
    · rw [List.getElem?_set_ne hij] at hj
      rw [Buffer.region_write_apart hroom]
      · exact h.held j hj
      · -- Slots do not overlap.
        have hlej := Slots.slot_length_le dataBytes image.data j
        have hlei := Slots.slot_length_le dataBytes image.data i
        rcases Nat.lt_or_gt_of_ne hij with hlt | hgt
        · have := Nat.mul_le_mul_right dataBytes hlt
          rw [Nat.succ_mul] at this
          right
          omega
        · have := Nat.mul_le_mul_right dataBytes hgt
          rw [Nat.succ_mul] at this
          left
          omega
  · show (if i + 1 = image.count dataBytes then _ else s.lastChunkBytes).toNat = _
    split
    · next hlasti =>
      rw [← hlasti, Nat.add_sub_cancel, hadm.slot_length]
    · next hnot =>
      have hne : i ≠ image.count dataBytes - 1 := by
        have hpos := image.count_pos dataBytes
        omega
      rw [List.getElem?_set_ne hne] at hlast
      exact h.last hlast

/-- When all chunks are marked the buffer begins with the image. -/
theorem Holds.complete (h : Holds dataBytes image s) (hadm : Admissible dataBytes image)
    (hall : s.receivedCount = image.count dataBytes) :
    Buffer.slice s.buffer (totalBytes dataBytes (chunkCount dataBytes image.data.length)
      s.lastChunkBytes) = .ok image.data := by
  have hmarked := h.marked
  have hslots := h.slots
  have hpos := image.count_pos dataBytes
  have hevery : ∀ i, i < image.count dataBytes → s.received[i]? = some true := fun i hi =>
    missing_eq_zero (by omega) (by omega)
  have htotal := hadm.total_eq (h.last (hevery _ (by omega)))
  rw [htotal, Buffer.slice_ok (h.size ▸ hadm.length_le),
    Slots.take_of_slots hadm.pos hadm.length_le fun i hi => h.held i (hevery i hi)]

/-- The image's chunk in its slot, and its bit. -/
def Reassembler.place (dataBytes : Nat) (image : Published μ) (s : Reassembler μ) (i : Nat) :
    Reassembler μ :=
  { s with
    buffer := write s.buffer (i * dataBytes) (slot dataBytes image.data i)
    received := s.received.set i true
    receivedCount := s.receivedCount + 1
    lastChunkBytes := if i + 1 = image.count dataBytes then
      UInt16.ofNat (slot dataBytes image.data i).length else s.lastChunkBytes }

/-- One chunk of the image whose frame it is, or has just been opened. -/
theorem Holds.chunk_eq (hadm : Admissible dataBytes image) {i : Nat}
    (hi : i < image.count dataBytes)
    (h : Holds dataBytes image (openFrame dataBytes s image.frameId
      (chunkCount dataBytes image.data.length) image.stamp)) :
    chunkRaw dataBytes s image.frameId (UInt16.ofNat i)
        (chunkCount dataBytes image.data.length) (slot dataBytes image.data i)
        (UInt16.ofNat (slot dataBytes image.data i).length) image.stamp =
      let f := openFrame dataBytes s image.frameId (chunkCount dataBytes image.data.length)
        image.stamp
      .ok (if f.received.getD i false = true then (f, none)
        else if f.receivedCount + 1 = image.count dataBytes then
          ({f.place dataBytes image i with inProgress := false}, some image.completed)
        else (f.place dataBytes image i, none)) := by
  have hindex := hadm.index hi
  have hlength := hadm.slot_length i
  unfold chunkRaw
  simp only
  generalize openFrame dataBytes s image.frameId _ image.stamp = s at h ⊢
  have hin : ¬ s.received.length ≤ i := by
    rw [h.slots]
    exact Nat.not_le.mpr hi
  rw [hindex]
  by_cases hmarked : s.received.getD i false = true
  · rw [if_pos (Or.inr hmarked), if_pos hmarked]
  · have hmark := h.mark hadm hi (Bool.eq_false_iff.mpr hmarked)
    have hcopy : Buffer.copyInto s.buffer (i * dataBytes) (slot dataBytes image.data i)
        (slot dataBytes image.data i).length =
          .ok (write s.buffer (i * dataBytes) (slot dataBytes image.data i)) :=
      Buffer.copyInto_all (h.room hi)
    rw [if_neg (not_or.mpr ⟨hin, hmarked⟩), if_neg hmarked, hlength, hcopy]
    simp only [markChunk, hindex, hadm.count_eq]
    split
    · next hall =>
      rw [hmark.complete hadm hall, h.current, h.stamp]
      simp only [Reassembler.place, h.current, h.stamp]
      rfl
    · rfl

/-- The frame goes on, or the image is delivered. -/
theorem Holds.chunk (hadm : Admissible dataBytes image) {i : Nat}
    (hi : i < image.count dataBytes)
    (h : Holds dataBytes image (openFrame dataBytes s image.frameId
      (chunkCount dataBytes image.data.length) image.stamp)) :
    ∃ s' out, chunkRaw dataBytes s image.frameId (UInt16.ofNat i)
        (chunkCount dataBytes image.data.length) (slot dataBytes image.data i)
        (UInt16.ofNat (slot dataBytes image.data i).length) image.stamp = .ok (s', out) ∧
      (s'.inProgress = true → Holds dataBytes image s') ∧
      ∀ c ∈ out, c = image.completed := by
  rw [h.chunk_eq hadm hi]
  generalize openFrame dataBytes s image.frameId _ image.stamp = f at h
  simp only
  split
  · exact ⟨f, none, rfl, fun _ => h, fun c hc => nomatch hc⟩
  · next hunmarked =>
    split
    · exact ⟨_, _, rfl, (fun h' => nomatch h'), fun c hc => (Option.mem_some.mp hc).symm⟩
    · exact ⟨_, none, rfl, fun _ => h.mark hadm hi (Bool.eq_false_iff.mpr hunmarked),
        fun c hc => nomatch hc⟩

/-- Any chunk of the image, where no frame is in progress that is another's. -/
theorem Admissible.chunk (hadm : Admissible dataBytes image)
    (hs : s.inProgress = true → s.currentFrameId = image.frameId → Holds dataBytes image s) {i : Nat}
    (hi : i < image.count dataBytes) :
    ∃ s' out, chunkRaw dataBytes s image.frameId (UInt16.ofNat i)
        (chunkCount dataBytes image.data.length) (slot dataBytes image.data i)
        (UInt16.ofNat (slot dataBytes image.data i).length) image.stamp = .ok (s', out) ∧
      (s'.inProgress = true → Holds dataBytes image s') ∧
      ∀ c ∈ out, c = image.completed := by
  refine Holds.chunk hadm hi ?_
  unfold openFrame
  split
  · exact hadm.holds_open
  · next hcontinues =>
    obtain ⟨hcurrent, hprogress⟩ := not_or.mp hcontinues
    exact hs (Bool.eq_true_of_not_eq_false hprogress) (not_not.mp hcurrent).symm

end

/-! ### The handlers -/

/-- What a handler reads of a compressed chunk, whose stamp lies before the slice. -/
structure StampedHeader (payload : Bytes) (frameId : UInt32) (index count bytes : UInt16)
    (stamp : CaptureStamp) (rest : Bytes) : Prop where
  frameId : readU32 0 payload = frameId
  index : readU16 4 payload = index
  count : readU16 6 payload = count
  bytes : readU16 8 payload = bytes
  time : readU64 10 payload = stamp.captureTimestampNs
  quality : payload.getD 18 0 = stamp.quality
  length : payload.length = 19 + rest.length
  rest : payload.drop 19 = rest

theorem stampedHeader (frameId : UInt32) (index count bytes : UInt16) (stamp : CaptureStamp)
    (rest : Bytes) :
    StampedHeader (u32 frameId ++ (u16 index ++ (u16 count ++ (u16 bytes ++
      (u64 stamp.captureTimestampNs ++ [stamp.quality] ++ rest))))) frameId index count bytes
        stamp rest := by
  have hread := header frameId index count bytes
    (u64 stamp.captureTimestampNs ++ [stamp.quality] ++ rest)
  generalize u32 frameId ++ _ = payload at hread ⊢
  refine ⟨hread.frameId, hread.index, hread.count, hread.bytes, ?_, ?_, ?_, ?_⟩
  · have hdrop : readU64 10 payload = readU64 0 (payload.drop 10) := rfl
    rw [hdrop, hread.rest, List.append_assoc]
    exact readU64_here ..
  · have hdrop : payload.getD 18 0 = (payload.drop 10).getD 8 0 := by
      simp only [List.getD_eq_getElem?_getD, List.getElem?_drop]
    rw [hdrop, hread.rest, List.append_assoc, List.getD_append_right _ _ _ _ (by simp)]
    simp
  · rw [hread.length]
    simp only [List.length_append, u64_length, List.length_singleton]
    omega
  · have hdrop : payload.drop 19 = (payload.drop 10).drop 9 := by
      rw [List.drop_drop]
    rw [hdrop, hread.rest, List.drop_left' (by simp)]

section
variable {image : Published Unit}

/-- A chunk of an image carries the image's id and slice, as far as a handler reads it. -/
theorem image_header {payload : Bytes} (hmem : payload ∈ imageChunks image)
    (hadm : Admissible kImageChunkDataBytes image) :
    ∃ i, i < image.count kImageChunkDataBytes ∧
      Header payload image.frameId (UInt16.ofNat i)
        (chunkCount kImageChunkDataBytes image.data.length)
        (UInt16.ofNat (slot kImageChunkDataBytes image.data i).length)
        (slot kImageChunkDataBytes image.data i) := by
  obtain ⟨i, hi, rfl⟩ := List.mem_map.mp hmem
  refine ⟨i, hadm.count_eq ▸ List.mem_range.mp hi, ?_⟩
  rw [chunkPayload_eq, List.nil_append]
  exact header ..

theorem subscribeImageHandler_chunk {payload piece : Bytes} {frameId : UInt32}
    {index count : UInt16}
    (hread : Header payload frameId index count (UInt16.ofNat piece.length) piece)
    (hlength : (UInt16.ofNat piece.length).toNat = piece.length) (s : ImageReassembler) :
    subscribeImageHandler s payload = chunkRaw kImageChunkDataBytes s frameId index count piece
      (UInt16.ofNat piece.length) () := by
  have hlong : ¬ payload.length < kImageChunkHeaderBytes := by
    rw [hread.length, kImageChunkHeaderBytes]
    omega
  have hbytes : ¬ (readU16 8 payload).toNat ≠ payload.length - kImageChunkHeaderBytes := by
    rw [hread.bytes, hlength, hread.length, kImageChunkHeaderBytes, Nat.add_sub_cancel_left]
    exact not_not.mpr rfl
  have hrest : payload.drop kImageChunkHeaderBytes = piece := hread.rest
  unfold subscribeImageHandler
  rw [if_neg hlong]
  simp only
  rw [if_neg hbytes, hrest, hread.frameId, hread.index, hread.count, hread.bytes]
  rfl

end

section
variable {image : Published CaptureStamp}

theorem compressedImage_header {payload : Bytes} (hmem : payload ∈ compressedImageChunks image)
    (hadm : Admissible kCompressedImageChunkDataBytes image) :
    ∃ i, i < image.count kCompressedImageChunkDataBytes ∧
      StampedHeader payload image.frameId (UInt16.ofNat i)
        (chunkCount kCompressedImageChunkDataBytes image.data.length)
        (UInt16.ofNat (slot kCompressedImageChunkDataBytes image.data i).length) image.stamp
        (slot kCompressedImageChunkDataBytes image.data i) := by
  obtain ⟨i, hi, rfl⟩ := List.mem_map.mp hmem
  refine ⟨i, hadm.count_eq ▸ List.mem_range.mp hi, ?_⟩
  rw [chunkPayload_eq]
  exact stampedHeader ..

theorem subscribeCompressedImageHandler_chunk {payload piece : Bytes} {frameId : UInt32}
    {index count : UInt16} {stamp : CaptureStamp}
    (hread : StampedHeader payload frameId index count (UInt16.ofNat piece.length) stamp piece)
    (hlength : (UInt16.ofNat piece.length).toNat = piece.length)
    (s : CompressedImageReassembler) :
    subscribeCompressedImageHandler s payload = chunkRaw kCompressedImageChunkDataBytes s frameId
      index count piece (UInt16.ofNat piece.length) stamp := by
  have hlong : ¬ payload.length < kCompressedImageChunkHeaderBytes := by
    rw [hread.length, kCompressedImageChunkHeaderBytes]
    omega
  have hbytes : ¬ (readU16 8 payload).toNat ≠
      payload.length - kCompressedImageChunkHeaderBytes := by
    rw [hread.bytes, hlength, hread.length, kCompressedImageChunkHeaderBytes,
      Nat.add_sub_cancel_left]
    exact not_not.mpr rfl
  have hrest : payload.drop kCompressedImageChunkHeaderBytes = piece := hread.rest
  unfold subscribeCompressedImageHandler
  rw [if_neg hlong]
  simp only
  rw [if_neg hbytes, hrest, hread.frameId, hread.index, hread.count, hread.bytes, hread.time,
    hread.quality]
  rfl

end

end Relink.Image
