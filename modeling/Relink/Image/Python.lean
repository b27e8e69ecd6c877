import Mathlib.Data.List.Nodup
import Mathlib.Data.List.Perm.Subperm
import Relink.Image.Delivery

/-! The reassemblers of the Python build.

The pieces are kept in a dictionary by chunk index, and the frame is complete when there
are as many as the chunk that opened it has announced. Nothing checks an index against
that count before the pieces are joined. -/
namespace Relink.Image.Python
open LittleEndian Wire
open Slots (slot)

/-- `_pieces` in the order of arrival, by chunk index. -/
structure Reassembler (μ : Type) where
  currentFrameId : Option UInt32 := none
  pieces : List (Nat × Bytes) := []
  chunkCount : Nat := 0
  stamp : μ

/-- No piece has this index. -/
structure KeyError where
  index : Nat
deriving DecidableEq, Repr

section
variable {μ : Type}

/-- A chunk of another frame discards what there is. -/
def openFrame (s : Reassembler μ) (frameId : UInt32) (chunkCount : UInt16) (stamp : μ) :
    Reassembler μ :=
  if some frameId ≠ s.currentFrameId then ⟨some frameId, [], chunkCount.toNat, stamp⟩ else s

/-- `b"".join(self._pieces[i] for i in …)`. -/
def join (pieces : List (Nat × Bytes)) : List Nat → Except KeyError Bytes
  | [] => .ok []
  | i :: rest =>
    match pieces.lookup i with
    | none => .error ⟨i⟩
    | some piece =>
      match join pieces rest with
      | .error e => .error e
      | .ok joined => .ok (piece ++ joined)

/-- `on_chunk_raw` of both reassemblers. -/
def chunkRaw (s : Reassembler μ) (frameId : UInt32) (chunkIndex chunkCount : UInt16) (data : Bytes)
    (stamp : μ) : Except KeyError (Reassembler μ × Option (Completed μ)) :=
  let s := openFrame s frameId chunkCount stamp
  if (s.pieces.lookup chunkIndex.toNat).isSome then .ok (s, none)
  else
    let s := {s with pieces := s.pieces ++ [(chunkIndex.toNat, data)]}
    if s.pieces.length = s.chunkCount then
      match join s.pieces (List.range s.chunkCount) with
      | .error e => .error e
      | .ok image => .ok ({s with currentFrameId := none}, some ⟨frameId, image, s.stamp⟩)
    else .ok (s, none)

end

abbrev ImageReassembler := Reassembler Unit
abbrev CompressedImageReassembler := Reassembler CaptureStamp

def ImageReassembler.init : ImageReassembler := {stamp := ()}
def CompressedImageReassembler.init : CompressedImageReassembler := {stamp := ⟨0, 0⟩}

/-- The raw handler `subscribe_image` installs. -/
def subscribeImageHandler (s : ImageReassembler) (payload : Bytes) :
    Except KeyError (ImageReassembler × Option (Completed Unit)) :=
  if payload.length < kImageChunkHeaderBytes then .ok (s, none)
  else
    let data := payload.drop kImageChunkHeaderBytes
    if (readU16 8 payload).toNat ≠ data.length then .ok (s, none)
    else chunkRaw s (readU32 0 payload) (readU16 4 payload) (readU16 6 payload) data ()

/-- The raw handler `subscribe_compressed_image` installs. -/
def subscribeCompressedImageHandler (s : CompressedImageReassembler) (payload : Bytes) :
    Except KeyError (CompressedImageReassembler × Option (Completed CaptureStamp)) :=
  if payload.length < kCompressedImageChunkHeaderBytes then .ok (s, none)
  else
    let data := payload.drop kCompressedImageChunkHeaderBytes
    if (readU16 8 payload).toNat ≠ data.length then .ok (s, none)
    else chunkRaw s (readU32 0 payload) (readU16 4 payload) (readU16 6 payload) data
      ⟨readU64 10 payload, payload.getD 18 0⟩

/-! ### The frame in progress is one image's -/

section
variable {μ : Type} {dataBytes : Nat} {image : Published μ} {s : Reassembler μ}

structure Holds (dataBytes : Nat) (image : Published μ) (s : Reassembler μ) : Prop where
  current : s.currentFrameId = some image.frameId
  stamp : s.stamp = image.stamp
  count : s.chunkCount = image.count dataBytes
  keys : (s.pieces.map Prod.fst).Nodup
  pieces : ∀ i piece, (i, piece) ∈ s.pieces →
    i < image.count dataBytes ∧ piece = slot dataBytes image.data i

theorem lookup_isSome_iff {pieces : List (Nat × Bytes)} {i : Nat} :
    (pieces.lookup i).isSome ↔ i ∈ pieces.map Prod.fst := by
  rw [List.lookup_isSome_iff, List.mem_map]
  exact exists_congr fun entry => and_congr_right fun _ => beq_iff_eq.trans eq_comm

theorem mem_of_lookup {pieces : List (Nat × Bytes)} {i : Nat} {piece : Bytes}
    (h : pieces.lookup i = some piece) : (i, piece) ∈ pieces := by
  obtain ⟨before, after, heq, _⟩ := List.lookup_eq_some_iff.mp h
  rw [heq]
  exact List.mem_append_right _ List.mem_cons_self

/-- As many pieces as there are indices: each index has one. -/
theorem mem_keys_of_length {keys : List Nat} {n : Nat} (hnodup : keys.Nodup)
    (hlt : ∀ i ∈ keys, i < n) (hlength : keys.length = n) {i : Nat} (hi : i < n) : i ∈ keys := by
  have hsub : keys.Subperm (List.range n) :=
    List.Nodup.subperm hnodup fun j hj => List.mem_range.mpr (hlt j hj)
  have hperm := hsub.perm_of_length_le (by rw [List.length_range, hlength])
  exact hperm.mem_iff.mpr (List.mem_range.mpr hi)

theorem join_ok {pieces : List (Nat × Bytes)} (f : Nat → Bytes) {is : List Nat}
    (h : ∀ i ∈ is, pieces.lookup i = some (f i)) : join pieces is = .ok (is.map f).flatten := by
  induction is with
  | nil => rfl
  | cons i rest ih =>
    rw [join, h i List.mem_cons_self, ih fun j hj => h j (List.mem_cons_of_mem i hj)]
    rfl

/-- When there are as many pieces as chunks, they are the image. -/
theorem Holds.complete (h : Holds dataBytes image s) (hadm : Admissible dataBytes image)
    (hall : s.pieces.length = s.chunkCount) :
    join s.pieces (List.range s.chunkCount) = .ok image.data := by
  have hlookup : ∀ i ∈ List.range s.chunkCount,
      s.pieces.lookup i = some (slot dataBytes image.data i) := by
    intro i hi
    have hkey : i ∈ s.pieces.map Prod.fst := by
      refine mem_keys_of_length h.keys (fun j hj => ?_) ?_ (List.mem_range.mp hi)
      · obtain ⟨⟨j', piece⟩, hmem, rfl⟩ := List.mem_map.mp hj
        exact h.count ▸ (h.pieces j' piece hmem).1
      · rw [List.length_map, hall]
    obtain ⟨piece, hpiece⟩ := Option.isSome_iff_exists.mp (lookup_isSome_iff.mpr hkey)
    rw [hpiece, (h.pieces i piece (mem_of_lookup hpiece)).2]
  rw [join_ok _ hlookup, Slots.flatten_slots, h.count, List.take_of_length_le hadm.length_le]

/-- One chunk of the image whose frame it is, or has just been opened. -/
theorem Holds.chunk (hadm : Admissible dataBytes image) {i : Nat} (hi : i < image.count dataBytes)
    (h : Holds dataBytes image (openFrame s image.frameId
      (Image.chunkCount dataBytes image.data.length) image.stamp)) :
    ∃ s' out, chunkRaw s image.frameId (UInt16.ofNat i)
        (Image.chunkCount dataBytes image.data.length) (slot dataBytes image.data i) image.stamp =
          .ok (s', out) ∧
      (∀ frameId, s'.currentFrameId = some frameId → Holds dataBytes image s') ∧
      ∀ c ∈ out, c = image.completed := by
  have hindex := hadm.index hi
  unfold chunkRaw
  simp only
  generalize openFrame s image.frameId _ image.stamp = s at h ⊢
  rw [hindex]
  split
  · exact ⟨s, none, rfl, fun _ _ => h, fun c hc => nomatch hc⟩
  · next hfresh =>
    have hnew : i ∉ s.pieces.map Prod.fst := fun hmem => hfresh (lookup_isSome_iff.mpr hmem)
    have hadded : Holds dataBytes image
        {s with pieces := s.pieces ++ [(i, slot dataBytes image.data i)]} := by
      refine ⟨h.current, h.stamp, h.count, ?_, fun j piece hmem => ?_⟩
      · rw [List.map_append, List.nodup_append]
        refine ⟨h.keys, List.nodup_singleton _, fun j hj k hk heq => ?_⟩
        rw [heq, List.mem_singleton.mp hk] at hj
        exact hnew hj
      · rcases List.mem_append.mp hmem with hold | hnow
        · exact h.pieces j piece hold
        · cases List.mem_singleton.mp hnow
          exact ⟨hi, rfl⟩
    split
    · next hall =>
      rw [hadded.complete hadm hall]
      exact ⟨_, _, rfl, (fun _ h' => nomatch h'), fun c hc => by
        cases hc
        rw [h.stamp]
        rfl⟩
    · exact ⟨_, none, rfl, fun _ _ => hadded, fun c hc => nomatch hc⟩

theorem Admissible.chunk (hadm : Admissible dataBytes image)
    (hs : s.currentFrameId = some image.frameId → Holds dataBytes image s) {i : Nat}
    (hi : i < image.count dataBytes) :
    ∃ s' out, chunkRaw s image.frameId (UInt16.ofNat i)
        (Image.chunkCount dataBytes image.data.length) (slot dataBytes image.data i) image.stamp =
          .ok (s', out) ∧
      (∀ frameId, s'.currentFrameId = some frameId → Holds dataBytes image s') ∧
      ∀ c ∈ out, c = image.completed := by
  refine Holds.chunk hadm hi ?_
  unfold openFrame
  split
  · exact ⟨rfl, rfl, hadm.count_eq, List.nodup_nil, fun _ _ hmem => absurd hmem List.not_mem_nil⟩
  · next hcontinues => exact hs (not_not.mp hcontinues).symm

end

theorem subscribeImageHandler_chunk {payload piece : Bytes} {frameId : UInt32}
    {index count : UInt16}
    (hread : Header payload frameId index count (UInt16.ofNat piece.length) piece)
    (hlength : (UInt16.ofNat piece.length).toNat = piece.length) (s : ImageReassembler) :
    subscribeImageHandler s payload = chunkRaw s frameId index count piece () := by
  have hlong : ¬ payload.length < kImageChunkHeaderBytes := by
    rw [hread.length, kImageChunkHeaderBytes]
    omega
  have hrest : payload.drop kImageChunkHeaderBytes = piece := hread.rest
  unfold subscribeImageHandler
  rw [if_neg hlong]
  simp only
  rw [hrest, hread.bytes, if_neg (not_not.mpr hlength), hread.frameId, hread.index, hread.count]

theorem subscribeCompressedImageHandler_chunk {payload piece : Bytes} {frameId : UInt32}
    {index count : UInt16} {stamp : CaptureStamp}
    (hread : StampedHeader payload frameId index count (UInt16.ofNat piece.length) stamp piece)
    (hlength : (UInt16.ofNat piece.length).toNat = piece.length)
    (s : CompressedImageReassembler) :
    subscribeCompressedImageHandler s payload = chunkRaw s frameId index count piece stamp := by
  have hlong : ¬ payload.length < kCompressedImageChunkHeaderBytes := by
    rw [hread.length, kCompressedImageChunkHeaderBytes]
    omega
  have hrest : payload.drop kCompressedImageChunkHeaderBytes = piece := hread.rest
  unfold subscribeCompressedImageHandler
  rw [if_neg hlong]
  simp only
  rw [hrest, hread.bytes, if_neg (not_not.mpr hlength), hread.frameId, hread.index, hread.count,
    hread.time, hread.quality]

end Relink.Image.Python
