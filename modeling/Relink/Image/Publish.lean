import Relink.Image.Reassembler
import Relink.Library.Slots

/-! Publishing images in chunks.

`publish_image` and `publish_compressed_image` of both builds, up to their sends: which frame
id a call gets, and the payload of each of its chunks. -/
namespace Relink.Image
open LittleEndian Wire
open Slots (slot slots)

/-- `UINT16_MAX` chunks. -/
def kMaxImageBytes : Nat := 65535 * kImageChunkDataBytes
def kMaxCompressedImageBytes : Nat := 65535 * kCompressedImageChunkDataBytes

def kAutoFrameId : UInt32 := 0xFFFFFFFF

/-- An image under the frame id it is sent with. -/
structure Published (μ : Type) where
  frameId : UInt32
  stamp : μ
  data : Bytes
deriving DecidableEq

/-! ### Frame ids -/

/-- The arguments of a call. The `stamp` has the time of the call where no capture time was
given. -/
structure ImageCall (μ : Type) where
  data : Bytes
  frameId : Option UInt32
  stamp : μ

section
variable {μ : Type}

/-- A call that sends draws from the topic's counter, unless it is given an id. -/
def publish (given : Option UInt32 → Option UInt32) (maxBytes : Nat) (next : UInt32)
    (call : ImageCall μ) : UInt32 × Option (Published μ) :=
  if maxBytes < call.data.length then (next, none)
  else match given call.frameId with
    | none => (next + 1, some ⟨next, call.stamp, call.data⟩)
    | some frameId => (next, some ⟨frameId, call.stamp, call.data⟩)

/-- What a publisher's calls on one topic send, `next` being its counter. -/
def publishAll (publish : UInt32 → ImageCall μ → UInt32 × Option (Published μ)) :
    UInt32 → List (ImageCall μ) → List (Published μ)
  | _, [] => []
  | next, call :: rest =>
    (publish next call).2.toList ++ publishAll publish (publish next call).1 rest

end

/-- `kAutoFrameId` stands for no id, given or by default. -/
def givenFrameId (frameId : Option UInt32) : Option UInt32 :=
  if frameId.getD kAutoFrameId = kAutoFrameId then none else frameId

def publishImage : UInt32 → ImageCall Unit → UInt32 × Option (Published Unit) :=
  publish givenFrameId kMaxImageBytes

def publishCompressedImage :
    UInt32 → ImageCall CaptureStamp → UInt32 × Option (Published CaptureStamp) :=
  publish givenFrameId kMaxCompressedImageBytes

/-! ### Chunks -/

/-- An empty image is still one chunk. -/
def chunkCount (dataBytes length : Nat) : UInt16 :=
  if UInt16.ofNat (slots dataBytes length) = 0 then 1 else UInt16.ofNat (slots dataBytes length)

/-- `chdr`. -/
def chunkHeader (stamp : Bytes) (frameId : UInt32) (chunkCount : UInt16) (i n : Nat) : Bytes :=
  u32 frameId ++ (u16 (UInt16.ofNat i) ++ (u16 chunkCount ++ (u16 (UInt16.ofNat n) ++ stamp)))

/-- The slice of the caller's data. -/
def chunkData (dataBytes : Nat) (data : Bytes) (i : Nat) : Bytes :=
  let offset := i * dataBytes
  Buffer.region data offset (min dataBytes (data.length - offset))

def chunkPayload (dataBytes : Nat) (stamp : Bytes) (frameId : UInt32) (data : Bytes)
    (chunkCount : UInt16) (i : Nat) : Bytes :=
  chunkHeader stamp frameId chunkCount i (min dataBytes (data.length - i * dataBytes)) ++
    chunkData dataBytes data i

/-- The sending loop. -/
def chunkPayloads (dataBytes : Nat) (stamp : Bytes) (frameId : UInt32) (data : Bytes) :
    List Bytes :=
  let count := chunkCount dataBytes data.length
  (List.range count.toNat).map (chunkPayload dataBytes stamp frameId data count)

/-- The chunks of `publish_image`. -/
def imageChunks (image : Published Unit) : List Bytes :=
  chunkPayloads kImageChunkDataBytes [] image.frameId image.data

/-- The chunks of `publish_compressed_image`. -/
def compressedImageChunks (image : Published CaptureStamp) : List Bytes :=
  chunkPayloads kCompressedImageChunkDataBytes
    (u64 image.stamp.captureTimestampNs ++ [image.stamp.quality]) image.frameId image.data

namespace Python

/-- `None` stands for no id. -/
def publishImage : UInt32 → ImageCall Unit → UInt32 × Option (Published Unit) :=
  publish id kMaxImageBytes

def publishCompressedImage :
    UInt32 → ImageCall CaptureStamp → UInt32 × Option (Published CaptureStamp) :=
  publish id kMaxCompressedImageBytes

/-- `chunk_count` is a Python integer until `struct.pack` puts it in 16 bits. -/
def chunkCount (dataBytes length : Nat) : Nat := max 1 (slots dataBytes length)

/-- The packed header, and the piece of the view. -/
def chunkPayload (dataBytes : Nat) (stamp : Bytes) (frameId : UInt32) (data : Bytes)
    (chunkCount i : Nat) : Bytes :=
  let piece := (data.drop (i * dataBytes)).take dataBytes
  u32 frameId ++ (u16 (UInt16.ofNat i) ++ (u16 (UInt16.ofNat chunkCount) ++
    (u16 (UInt16.ofNat piece.length) ++ (stamp ++ piece))))

def chunkPayloads (dataBytes : Nat) (stamp : Bytes) (frameId : UInt32) (data : Bytes) :
    List Bytes :=
  let count := chunkCount dataBytes data.length
  (List.range count).map (chunkPayload dataBytes stamp frameId data count)

def imageChunks (image : Published Unit) : List Bytes :=
  chunkPayloads kImageChunkDataBytes [] image.frameId image.data

def compressedImageChunks (image : Published CaptureStamp) : List Bytes :=
  chunkPayloads kCompressedImageChunkDataBytes
    (u64 image.stamp.captureTimestampNs ++ [image.stamp.quality]) image.frameId image.data

end Python

/-! ### What an image of an admissible length is cut into -/

section
variable {dataBytes : Nat} {length : Nat}

theorem chunkCount_pos (dataBytes length : Nat) : 0 < (chunkCount dataBytes length).toNat := by
  unfold chunkCount
  split
  · decide
  · next hne => exact Nat.pos_of_ne_zero fun hzero => hne (UInt16.toNat_inj.mp hzero)

theorem chunkCount_toNat (hle : length ≤ 65535 * dataBytes) (hpos : 0 < dataBytes) :
    (chunkCount dataBytes length).toNat = max 1 (slots dataBytes length) := by
  have hslots := Slots.slots_le_of_le hpos hle
  have hmod : (UInt16.ofNat (slots dataBytes length)).toNat = slots dataBytes length := by
    rw [UInt16.toNat_ofNat', Nat.mod_eq_of_lt (by omega)]
  unfold chunkCount
  split
  · next hzero =>
    rw [hzero] at hmod
    have hzero' : slots dataBytes length = 0 := hmod.symm
    rw [hzero']
    rfl
  · next hne =>
    have hne' : slots dataBytes length ≠ 0 := fun hzero => hne (by rw [hzero]; rfl)
    rw [hmod]
    omega

theorem chunkPayload_eq (stamp : Bytes) (frameId : UInt32) (data : Bytes) (count : UInt16)
    (i : Nat) : chunkPayload dataBytes stamp frameId data count i =
      u32 frameId ++ (u16 (UInt16.ofNat i) ++ (u16 count ++
        (u16 (UInt16.ofNat (slot dataBytes data i).length) ++
          (stamp ++ slot dataBytes data i)))) := by
  unfold chunkPayload chunkHeader chunkData
  simp only
  rw [Slots.region_eq_slot, Slots.slot_length]
  simp only [List.append_assoc]

/-- Both builds put the same bytes on the wire. -/
theorem python_chunkPayloads {data : Bytes} (hle : data.length ≤ 65535 * dataBytes)
    (hpos : 0 < dataBytes) (stamp : Bytes) (frameId : UInt32) :
    Python.chunkPayloads dataBytes stamp frameId data =
      chunkPayloads dataBytes stamp frameId data := by
  have hcount := chunkCount_toNat hle hpos
  unfold Python.chunkPayloads chunkPayloads Python.chunkCount
  simp only
  rw [hcount]
  refine List.map_congr_left fun i _ => ?_
  rw [chunkPayload_eq, ← hcount, Python.chunkPayload, UInt16.ofNat_toNat]
  rfl

end

end Relink.Image
