import Relink.Image.Arrivals

/-! The chunker of the copying path.

`encode_image_chunks` and `encode_compressed_image_chunks` fill whole chunk structures, with sizes
in `size_t` and a `uint16_t` counter. Neither wraps at any admissible length, and the compact form
of the chunks, the header and the valid bytes, is the payload that `publish_image` and
`publish_compressed_image` assemble. -/
namespace Relink.Image
open LittleEndian Wire
open Slots (slot slots)

/-- `ImageChunk` and `CompressedImageChunk`: the data has its full size, whatever is valid of it. -/
structure ChunkStruct (dataBytes : Nat) (μ : Type) where
  frameId : UInt32
  chunkIndex : UInt16
  chunkCount : UInt16
  chunkBytes : UInt16
  stamp : μ
  data : Vector UInt8 dataBytes

abbrev ImageChunk := ChunkStruct kImageChunkDataBytes Unit
abbrev CompressedImageChunk := ChunkStruct kCompressedImageChunkDataBytes CaptureStamp

inductive ImageEncodeResult where
  | tooLarge
deriving DecidableEq, Repr

/-! ### Sizes and counters as machine words -/

/-- `static_cast<uint16_t>((len + chunk_data_bytes - 1) / chunk_data_bytes)`, zero made one. -/
def countOf (dataBytes len : UInt64) : UInt16 :=
  let count := ((len + dataBytes - 1) / dataBytes).toUInt16
  if count = 0 then 1 else count

def offsetOf (dataBytes : UInt64) (i : UInt16) : UInt64 := i.toUInt64 * dataBytes

/-- `std::min(chunk_data_bytes, len - offset)` -/
def bytesOf (dataBytes len : UInt64) (i : UInt16) : UInt64 :=
  if len - offsetOf dataBytes i < dataBytes then len - offsetOf dataBytes i else dataBytes

/-- `for (uint16_t i = 0; i < chunk_count; ++i)`, abandoned after `fuel` tests. -/
def forChunks {σ : Type} (count : UInt16) (turn : UInt16 → σ → σ) : Nat → UInt16 → σ → Option σ
  | 0, _, _ => none
  | fuel + 1, i, s => if i < count then forChunks count turn fuel (i + 1) (turn i s) else some s

/-! ### The chunker -/

section
variable {μ : Type} (dataBytes : Nat)

/-- The chunk of one turn: zeros, and `memcpy` over them. -/
def fillChunk (stamp : μ) (frameId : UInt32) (data : Bytes) (i : UInt16) :
    ChunkStruct dataBytes μ :=
  let len := UInt64.ofNat data.length
  let offset := (offsetOf (UInt64.ofNat dataBytes) i).toNat
  let n := bytesOf (UInt64.ofNat dataBytes) len i
  { frameId := frameId
    chunkIndex := i
    chunkCount := countOf (UInt64.ofNat dataBytes) len
    chunkBytes := n.toUInt16
    stamp := stamp
    data := Vector.ofFn fun k => if k.val < n.toNat then data.getD (offset + k.val) 0 else 0 }

/-- The chunks in the order of `send_chunk`. -/
def encodeChunks (maxBytes : Nat) (stamp : μ) (frameId : UInt32) (data : Bytes) (fuel : Nat) :
    Option (Except ImageEncodeResult (List (ChunkStruct dataBytes μ))) :=
  if maxBytes < data.length then some (.error .tooLarge)
  else (forChunks (countOf (UInt64.ofNat dataBytes) (UInt64.ofNat data.length))
    (fun i chunks => chunks ++ [fillChunk dataBytes stamp frameId data i]) fuel 0 []).map .ok

end

def encodeImageChunks (frameId : UInt32) (data : Bytes) (fuel : Nat) :
    Option (Except ImageEncodeResult (List ImageChunk)) :=
  encodeChunks kImageChunkDataBytes kMaxImageBytes () frameId data fuel

def encodeCompressedImageChunks (frameId : UInt32) (data : Bytes) (stamp : CaptureStamp)
    (fuel : Nat) : Option (Except ImageEncodeResult (List CompressedImageChunk)) :=
  encodeChunks kCompressedImageChunkDataBytes kMaxCompressedImageBytes stamp frameId data fuel

/-- The fields of the header and the valid bytes only. -/
def ChunkStruct.compact {dataBytes : Nat} {μ : Type} (stampBytes : μ → Bytes)
    (c : ChunkStruct dataBytes μ) : Bytes :=
  u32 c.frameId ++ (u16 c.chunkIndex ++ (u16 c.chunkCount ++ (u16 c.chunkBytes ++
    (stampBytes c.stamp ++ c.data.toList.take c.chunkBytes.toNat))))

/-! ### No size wraps -/

/-- Every size is the number it stands for, and no subtraction goes below zero. -/
structure SizesExact (dataBytes length : Nat) : Prop where
  rounded : (UInt64.ofNat length + UInt64.ofNat dataBytes - 1).toNat = length + dataBytes - 1
  count : (countOf (UInt64.ofNat dataBytes) (UInt64.ofNat length)).toNat = max 1 (slots dataBytes length)
  offset : ∀ i < countOf (UInt64.ofNat dataBytes) (UInt64.ofNat length),
    (offsetOf (UInt64.ofNat dataBytes) i).toNat = i.toNat * dataBytes ∧
      i.toNat * dataBytes ≤ length
  bytes : ∀ i < countOf (UInt64.ofNat dataBytes) (UInt64.ofNat length),
    (bytesOf (UInt64.ofNat dataBytes) (UInt64.ofNat length) i).toNat =
        min dataBytes (length - i.toNat * dataBytes) ∧
      (bytesOf (UInt64.ofNat dataBytes) (UInt64.ofNat length) i).toUInt16.toNat =
        min dataBytes (length - i.toNat * dataBytes)

section
variable {dataBytes length : Nat}

theorem toNat_ofNat_size {n : Nat} (h : n < 2 ^ 64) : (UInt64.ofNat n).toNat = n := by
  rw [UInt64.toNat_ofNat', Nat.mod_eq_of_lt h]

/-- Room for every sum below. -/
theorem sizes_lt (hword : dataBytes < 65536) (hle : length ≤ 65535 * dataBytes) :
    length + 65536 * dataBytes < 2 ^ 64 := by
  have hmax : 65535 * dataBytes ≤ 65535 * 65535 := Nat.mul_le_mul_left _ (by omega)
  omega

theorem rounded_toNat (hpos : 0 < dataBytes) (hword : dataBytes < 65536)
    (hle : length ≤ 65535 * dataBytes) :
    (UInt64.ofNat length + UInt64.ofNat dataBytes - 1).toNat = length + dataBytes - 1 := by
  have hlt := sizes_lt hword hle
  rw [UInt64.toNat_sub, UInt64.toNat_add, toNat_ofNat_size (by omega : length < 2 ^ 64),
    toNat_ofNat_size (by omega : dataBytes < 2 ^ 64)]
  have hone : (1 : UInt64).toNat = 1 := rfl
  omega

/-- The count is the one that is published. -/
theorem countOf_eq (hpos : 0 < dataBytes) (hword : dataBytes < 65536)
    (hle : length ≤ 65535 * dataBytes) :
    countOf (UInt64.ofNat dataBytes) (UInt64.ofNat length) = chunkCount dataBytes length := by
  have hcast : ((UInt64.ofNat length + UInt64.ofNat dataBytes - 1) / UInt64.ofNat dataBytes).toUInt16 =
      UInt16.ofNat (slots dataBytes length) := by
    rw [← UInt16.toNat_inj, UInt64.toNat_toUInt16, UInt64.toNat_div, rounded_toNat hpos hword hle,
      toNat_ofNat_size (by omega), UInt16.toNat_ofNat']
    rfl
  rw [countOf, chunkCount, hcast]

theorem offset_toNat (hword : dataBytes < 65536) (i : UInt16) :
    (offsetOf (UInt64.ofNat dataBytes) i).toNat = i.toNat * dataBytes := by
  have hi := i.toNat_lt
  have hmax : i.toNat * dataBytes ≤ 65535 * 65535 := Nat.mul_le_mul (by omega) (by omega)
  rw [offsetOf, UInt64.toNat_mul, UInt16.toNat_toUInt64, toNat_ofNat_size (by omega)]
  exact Nat.mod_eq_of_lt (by omega)

/-- A chunk starts inside the data. -/
theorem offset_le (hpos : 0 < dataBytes) {i : Nat} (hi : i < max 1 (slots dataBytes length)) :
    i * dataBytes ≤ length := by
  have hfull := Slots.slots_full hpos length
  have hmul : i * dataBytes ≤ (slots dataBytes length - 1) * dataBytes :=
    Nat.mul_le_mul_right _ (by omega)
  omega

theorem bytes_toNat (hword : dataBytes < 65536) (hle : length ≤ 65535 * dataBytes) {i : UInt16}
    (hi : i.toNat * dataBytes ≤ length) :
    (bytesOf (UInt64.ofNat dataBytes) (UInt64.ofNat length) i).toNat =
      min dataBytes (length - i.toNat * dataBytes) := by
  have hlt := sizes_lt hword hle
  have hsub : (UInt64.ofNat length - offsetOf (UInt64.ofNat dataBytes) i).toNat =
      length - i.toNat * dataBytes := by
    rw [UInt64.toNat_sub, offset_toNat hword, toNat_ofNat_size (by omega)]
    omega
  have hdata : (UInt64.ofNat dataBytes).toNat = dataBytes := toNat_ofNat_size (by omega)
  rw [bytesOf, apply_ite UInt64.toNat, hsub, hdata]
  simp only [UInt64.lt_iff_toNat_lt, hsub, hdata]
  split <;> omega

theorem sizesExact (hpos : 0 < dataBytes) (hword : dataBytes < 65536)
    (hle : length ≤ 65535 * dataBytes) : SizesExact dataBytes length := by
  have hcount := chunkCount_toNat hle hpos
  rw [← countOf_eq hpos hword hle] at hcount
  have hinside : ∀ i < countOf (UInt64.ofNat dataBytes) (UInt64.ofNat length),
      i.toNat * dataBytes ≤ length := fun i hi =>
    offset_le hpos (hcount ▸ UInt16.lt_iff_toNat_lt.mp hi)
  refine ⟨rounded_toNat hpos hword hle, hcount, fun i hi => ⟨offset_toNat hword i, hinside i hi⟩,
    fun i hi => ?_⟩
  have hbytes := bytes_toNat hword hle (hinside i hi)
  refine ⟨hbytes, ?_⟩
  rw [UInt64.toNat_toUInt16, hbytes]
  exact Nat.mod_eq_of_lt (by omega)

end

/-! ### The loop ends -/

/-- The counter reaches the count without wrapping, for the largest count too. -/
theorem forChunks_eq {σ : Type} (count : UInt16) (turn : UInt16 → σ → σ) {fuel : Nat} {i : UInt16}
    (hi : i.toNat ≤ count.toNat) (hfuel : count.toNat - i.toNat < fuel) (s : σ) :
    forChunks count turn fuel i s =
      some ((List.range' i.toNat (count.toNat - i.toNat)).foldl
        (fun s k => turn (UInt16.ofNat k) s) s) := by
  induction fuel generalizing i s with
  | zero => exact absurd hfuel (Nat.not_lt_zero _)
  | succ fuel ih =>
    have hcount := count.toNat_lt
    rw [forChunks]
    by_cases hlt : i < count
    · have hlt' := UInt16.lt_iff_toNat_lt.mp hlt
      have hsucc : (i + 1).toNat = i.toNat + 1 := by
        have hone : (1 : UInt16).toNat = 1 := rfl
        rw [UInt16.toNat_add, hone]
        exact Nat.mod_eq_of_lt (by omega)
      have hleft : count.toNat - i.toNat = count.toNat - (i.toNat + 1) + 1 := by omega
      rw [if_pos hlt, ih (by omega) (by omega), hsucc, hleft, List.range'_succ, List.foldl_cons,
        UInt16.ofNat_toNat]
    · have hge : count.toNat - i.toNat = 0 := by
        have := mt UInt16.lt_iff_toNat_lt.mpr hlt
        omega
      rw [if_neg hlt, hge]
      rfl

theorem forChunks_zero {σ : Type} (count : UInt16) (turn : UInt16 → σ → σ) {fuel : Nat}
    (hfuel : count.toNat < fuel) (s : σ) :
    forChunks count turn fuel 0 s =
      some ((List.range count.toNat).foldl (fun s k => turn (UInt16.ofNat k) s) s) := by
  rw [forChunks_eq count turn (Nat.zero_le _) hfuel, List.range_eq_range']
  rfl

/-! ### The chunks -/

section
variable {μ : Type} {dataBytes maxBytes : Nat}

theorem foldl_append_map {α β : Type} (f : α → β) (xs : List α) (ys : List β) :
    xs.foldl (fun acc x => acc ++ [f x]) ys = ys ++ xs.map f := by
  induction xs generalizing ys with
  | nil => exact (List.append_nil ys).symm
  | cons x xs ih => rw [List.foldl_cons, ih, List.append_assoc]; rfl

theorem encodeChunks_eq {data : Bytes} (hle : data.length ≤ maxBytes) (stamp : μ) (frameId : UInt32)
    {fuel : Nat}
    (hfuel : (countOf (UInt64.ofNat dataBytes) (UInt64.ofNat data.length)).toNat < fuel) :
    encodeChunks dataBytes maxBytes stamp frameId data fuel = some (.ok
      ((List.range (countOf (UInt64.ofNat dataBytes) (UInt64.ofNat data.length)).toNat).map fun i =>
        fillChunk dataBytes stamp frameId data (UInt16.ofNat i))) := by
  rw [encodeChunks, if_neg (Nat.not_lt.mpr hle), forChunks_zero _ _ hfuel, foldl_append_map]
  rfl

/-- The valid bytes of a chunk are its slice of the data. -/
theorem fillChunk_valid {data : Bytes} (hsizes : SizesExact dataBytes data.length) (stamp : μ)
    (frameId : UInt32) {i : UInt16}
    (hi : i < countOf (UInt64.ofNat dataBytes) (UInt64.ofNat data.length)) :
    (fillChunk dataBytes stamp frameId data i).data.toList.take
        (fillChunk dataBytes stamp frameId data i).chunkBytes.toNat =
      slot dataBytes data i.toNat := by
  obtain ⟨hoffset, -⟩ := hsizes.offset i hi
  obtain ⟨hbytes, hcast⟩ := hsizes.bytes i hi
  have hlength := Slots.slot_length dataBytes data i.toNat
  simp only [fillChunk]
  rw [hcast, hoffset, hbytes]
  refine List.ext_getElem (by simp [hlength]) fun k hk hk' => ?_
  rw [hlength] at hk'
  rw [List.getElem_take, Vector.getElem_toList, Vector.getElem_ofFn, if_pos hk']
  have hin : i.toNat * dataBytes + k < data.length := by omega
  rw [List.getD_eq_getElem _ _ hin]
  simp [slot, Buffer.region]

/-- The index of a turn of the loop. -/
theorem turn_index {count : UInt16} {k : Nat} (hk : k ∈ List.range count.toNat) :
    (UInt16.ofNat k).toNat = k ∧ UInt16.ofNat k < count := by
  have hk' := List.mem_range.mp hk
  have hlt := count.toNat_lt
  have hindex : (UInt16.ofNat k).toNat = k := by
    rw [UInt16.toNat_ofNat', Nat.mod_eq_of_lt (by omega)]
  exact ⟨hindex, UInt16.lt_iff_toNat_lt.mpr (by rwa [hindex])⟩

/-- In compact form the chunks are the payloads that are published. -/
theorem encodeChunks_compact {data : Bytes} (hpos : 0 < dataBytes) (hword : dataBytes < 65536)
    (hle : data.length ≤ 65535 * dataBytes) (stampBytes : μ → Bytes) (stamp : μ)
    (frameId : UInt32) {fuel : Nat} (hfuel : 65535 < fuel) :
    ∃ chunks, encodeChunks dataBytes (65535 * dataBytes) stamp frameId data fuel =
        some (.ok chunks) ∧
      chunks.map (ChunkStruct.compact stampBytes) =
        chunkPayloads dataBytes (stampBytes stamp) frameId data := by
  have hsizes := sizesExact hpos hword hle
  have hcount := countOf_eq hpos hword hle
  have hlt := (countOf (UInt64.ofNat dataBytes) (UInt64.ofNat data.length)).toNat_lt
  refine ⟨_, encodeChunks_eq hle stamp frameId (by omega), ?_⟩
  rw [List.map_map, chunkPayloads, ← hcount]
  refine List.map_congr_left fun k hk => ?_
  obtain ⟨hindex, hi⟩ := turn_index hk
  have hvalid := fillChunk_valid hsizes stamp frameId hi
  obtain ⟨-, hbytes⟩ := hsizes.bytes _ hi
  rw [hindex] at hvalid hbytes
  have hword16 : (bytesOf (UInt64.ofNat dataBytes) (UInt64.ofNat data.length)
      (UInt16.ofNat k)).toUInt16 = UInt16.ofNat (slot dataBytes data k).length := by
    rw [← UInt16.ofNat_toNat (x := UInt64.toUInt16 _), hbytes, Slots.slot_length]
  rw [Function.comp_apply, ChunkStruct.compact, hvalid, chunkPayload_eq]
  simp only [fillChunk, hword16]

end

end Relink.Image
