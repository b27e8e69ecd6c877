import Relink.Image.Python

/-! When a handler of the Python build raises.

Nothing in a reassembler of the Python build looks at an index before the pieces are joined, and
a missing one is a `KeyError`. It leaves the handler and then `_run_loop`, which catches none: the
data thread is over. So a run here ends at its first error. -/
namespace Relink.Image
open LittleEndian Wire
open Transition (emits emits_ok_iff ThroughoutOk)

/-- The arguments of `on_chunk_raw`. -/
structure Chunk (μ : Type) where
  frameId : UInt32
  chunkIndex : UInt16
  chunkCount : UInt16
  data : Bytes
  stamp : μ
deriving DecidableEq

namespace Python
variable {μ : Type}

def Reassembler.keys (s : Reassembler μ) : List Nat := s.pieces.map Prod.fst

/-- The frame that a chunk belongs to, opened if need be. -/
def Reassembler.opened (s : Reassembler μ) (x : Chunk μ) : Reassembler μ :=
  openFrame s x.frameId x.chunkCount x.stamp

/-- `self._pieces[chunk_index] = bytes(data)` -/
def Reassembler.add (s : Reassembler μ) (x : Chunk μ) : Reassembler μ :=
  {s with pieces := s.pieces ++ [(x.chunkIndex.toNat, x.data)]}

def onChunkRaw (s : Reassembler μ) (x : Chunk μ) :
    Except KeyError (Reassembler μ × Option (Completed μ)) :=
  chunkRaw s x.frameId x.chunkIndex x.chunkCount x.data x.stamp

/-- The call that a payload leads to, if its header is whole and its length right. -/
def readChunk (headerBytes : Nat) (stamp : Bytes → μ) (payload : Bytes) : Option (Chunk μ) :=
  if payload.length < headerBytes ∨
      (readU16 8 payload).toNat ≠ (payload.drop headerBytes).length then none
  else some ⟨readU32 0 payload, readU16 4 payload, readU16 6 payload, payload.drop headerBytes,
    stamp payload⟩

def imageChunk : Bytes → Option (Chunk Unit) := readChunk kImageChunkHeaderBytes fun _ => ()

def compressedImageChunk : Bytes → Option (Chunk CaptureStamp) :=
  readChunk kCompressedImageChunkHeaderBytes fun payload =>
    ⟨readU64 10 payload, payload.getD 18 0⟩

/-- A handler drops what is no chunk. -/
def handler (read : Bytes → Option (Chunk μ)) (s : Reassembler μ) (payload : Bytes) :
    Except KeyError (Reassembler μ × Option (Completed μ)) :=
  match read payload with
  | none => .ok (s, none)
  | some x => onChunkRaw s x

theorem handler_readChunk (headerBytes : Nat) (stamp : Bytes → μ) (s : Reassembler μ)
    (payload : Bytes) :
    handler (readChunk headerBytes stamp) s payload =
      if payload.length < headerBytes then .ok (s, none)
      else if (readU16 8 payload).toNat ≠ (payload.drop headerBytes).length then .ok (s, none)
      else chunkRaw s (readU32 0 payload) (readU16 4 payload) (readU16 6 payload)
        (payload.drop headerBytes) (stamp payload) := by
  rw [handler, readChunk]
  by_cases hshort : payload.length < headerBytes
  · rw [if_pos (Or.inl hshort), if_pos hshort]
  · rw [if_neg hshort]
    by_cases hbytes : (readU16 8 payload).toNat ≠ (payload.drop headerBytes).length
    · rw [if_pos (Or.inr hbytes), if_pos hbytes]
    · rw [if_neg (not_or.mpr ⟨hshort, hbytes⟩), if_neg hbytes]
      rfl

theorem subscribeImageHandler_eq : subscribeImageHandler = handler imageChunk := by
  funext s payload
  rw [imageChunk, handler_readChunk]
  rfl

theorem subscribeCompressedImageHandler_eq :
    subscribeCompressedImageHandler = handler compressedImageChunk := by
  funext s payload
  rw [compressedImageChunk, handler_readChunk]
  rfl

/-! ### One call -/

theorem onChunkRaw_eq (s : Reassembler μ) (x : Chunk μ) :
    onChunkRaw s x =
      let s := s.opened x
      if x.chunkIndex.toNat ∈ s.keys then .ok (s, none)
      else if s.keys.length + 1 = s.chunkCount then
        (join (s.add x).pieces (List.range s.chunkCount)).map fun image =>
          ({s.add x with currentFrameId := none}, some ⟨x.frameId, image, s.stamp⟩)
      else .ok (s.add x, none) := by
  have hopened : openFrame s x.frameId x.chunkCount x.stamp = s.opened x := rfl
  rw [onChunkRaw, chunkRaw, hopened]
  simp only
  generalize s.opened x = f
  by_cases hold : x.chunkIndex.toNat ∈ f.keys
  · rw [if_pos hold, if_pos (lookup_isSome_iff.mpr hold)]
  · have hpieces : f.pieces ++ [(x.chunkIndex.toNat, x.data)] = (f.add x).pieces := rfl
    have hlength : (f.add x).pieces.length = f.keys.length + 1 := by
      rw [← hpieces, List.length_append, List.length_singleton, Reassembler.keys, List.length_map]
    rw [if_neg hold, if_neg fun h => hold (lookup_isSome_iff.mp h), hpieces, hlength]
    by_cases hfull : f.keys.length + 1 = f.chunkCount
    · rw [if_pos hfull, if_pos hfull]
      cases join (f.add x).pieces (List.range f.chunkCount) <;> rfl
    · rw [if_neg hfull, if_neg hfull]
      rfl

/-- The chunk is new to its frame and makes up the number of chunks that the frame was opened
with. -/
def Fills (s : Reassembler μ) (x : Chunk μ) : Prop :=
  x.chunkIndex.toNat ∉ (s.opened x).keys ∧ (s.opened x).keys.length + 1 = (s.opened x).chunkCount

/-- No index of the frame is past that number. -/
def Within (s : Reassembler μ) (x : Chunk μ) : Prop :=
  ∀ i ∈ x.chunkIndex.toNat :: (s.opened x).keys, i < (s.opened x).chunkCount

instance (s : Reassembler μ) (x : Chunk μ) : Decidable (Fills s x) :=
  inferInstanceAs (Decidable (_ ∧ _))

instance (s : Reassembler μ) (x : Chunk μ) : Decidable (Within s x) :=
  inferInstanceAs (Decidable (∀ i ∈ _, _))

theorem join_ok_iff {pieces : List (Nat × Bytes)} {is : List Nat} :
    (∃ joined, join pieces is = .ok joined) ↔ ∀ i ∈ is, i ∈ pieces.map Prod.fst := by
  induction is with
  | nil => exact iff_of_true ⟨_, rfl⟩ fun _ h => absurd h List.not_mem_nil
  | cons i rest ih =>
    rw [List.forall_mem_cons, ← ih, ← lookup_isSome_iff, join]
    cases pieces.lookup i with
    | none =>
      refine iff_of_false ?_ fun h => by cases h.1
      rintro ⟨_, h⟩
      cases h
    | some piece =>
      cases join pieces rest with
      | error e =>
        constructor
        · rintro ⟨_, h⟩
          cases h
        · rintro ⟨_, _, h⟩
          cases h
      | ok joined => exact iff_of_true ⟨_, rfl⟩ ⟨rfl, _, rfl⟩

/-- As many indices as there are chunks: none is missing exactly if none is past the count. -/
theorem range_subset_iff {keys : List Nat} {n : Nat} (hnodup : keys.Nodup) (hlength : keys.length = n) :
    (∀ i ∈ List.range n, i ∈ keys) ↔ ∀ i ∈ keys, i < n := by
  constructor
  · intro hall i hi
    have hsub : (List.range n).Subperm keys := List.Nodup.subperm List.nodup_range hall
    have hperm := hsub.perm_of_length_le (by rw [List.length_range, hlength])
    exact List.mem_range.mp (hperm.mem_iff.mpr hi)
  · intro hlt i hi
    exact mem_keys_of_length hnodup hlt hlength (List.mem_range.mp hi)

theorem keys_add (s : Reassembler μ) (x : Chunk μ) :
    (s.add x).keys = s.keys ++ [x.chunkIndex.toNat] := by
  rw [Reassembler.keys, Reassembler.add, List.map_append]
  rfl

theorem keys_add_nodup {s : Reassembler μ} {x : Chunk μ} (hs : s.keys.Nodup)
    (hnew : x.chunkIndex.toNat ∉ s.keys) : (s.add x).keys.Nodup := by
  rw [keys_add]
  rw [← List.concat_eq_append]
  exact hs.concat hnew

theorem opened_nodup {s : Reassembler μ} (hs : s.keys.Nodup) (x : Chunk μ) :
    (s.opened x).keys.Nodup := by
  unfold Reassembler.opened openFrame
  split
  · exact List.nodup_nil
  · exact hs

/-- The pieces of a frame that is full can be joined exactly if no index is past their number. -/
theorem join_add_iff {s : Reassembler μ} {x : Chunk μ} (hs : s.keys.Nodup) (h : Fills s x) :
    (∃ joined, join ((s.opened x).add x).pieces (List.range (s.opened x).chunkCount) = .ok joined) ↔
      Within s x := by
  have hnodup := keys_add_nodup (opened_nodup hs x) h.1
  have hlength : ((s.opened x).add x).keys.length = (s.opened x).chunkCount := by
    rw [keys_add, List.length_append, List.length_singleton, h.2]
  rw [join_ok_iff, ← Reassembler.keys, range_subset_iff hnodup hlength, keys_add, Within]
  refine forall_congr' fun i => imp_congr_left ?_
  rw [List.mem_append, List.mem_singleton, List.mem_cons, or_comm]

/-- A call raises only where it fills a frame with an index past the count. -/
theorem onChunkRaw_ok_iff {s : Reassembler μ} (hs : s.keys.Nodup) (x : Chunk μ) :
    (∃ r, onChunkRaw s x = .ok r) ↔ (Fills s x → Within s x) := by
  rw [onChunkRaw_eq]
  simp only
  by_cases hold : x.chunkIndex.toNat ∈ (s.opened x).keys
  · rw [if_pos hold]
    exact iff_of_true ⟨_, rfl⟩ fun h => absurd hold h.1
  rw [if_neg hold]
  by_cases hfull : (s.opened x).keys.length + 1 = (s.opened x).chunkCount
  · have hjoin := join_add_iff hs ⟨hold, hfull⟩
    rw [if_pos hfull, imp_iff_right ⟨hold, hfull⟩, ← hjoin]
    cases join ((s.opened x).add x).pieces (List.range (s.opened x).chunkCount) with
    | error e =>
      constructor
      · rintro ⟨_, h⟩
        cases h
      · rintro ⟨_, h⟩
        cases h
    | ok image => exact iff_of_true ⟨_, rfl⟩ ⟨_, rfl⟩
  · rw [if_neg hfull]
    exact iff_of_true ⟨_, rfl⟩ fun h => absurd h.2 hfull

theorem onChunkRaw_nodup {s : Reassembler μ} (hs : s.keys.Nodup) (x : Chunk μ)
    {r : Reassembler μ × Option (Completed μ)} (h : onChunkRaw s x = .ok r) : r.1.keys.Nodup := by
  have hopened := opened_nodup hs x
  rw [onChunkRaw_eq] at h
  simp only at h
  split at h
  · cases h
    exact hopened
  · next hnew =>
    have hadded := keys_add_nodup hopened hnew
    split at h
    · cases hjoin : join ((s.opened x).add x).pieces (List.range (s.opened x).chunkCount) with
      | error e =>
        rw [hjoin] at h
        cases h
      | ok image =>
        rw [hjoin] at h
        cases h
        exact hadded
    · cases h
      exact hadded

/-! ### Runs -/

/-- A payload that fills a frame does so with no index past the count. -/
def NoneMissing (read : Bytes → Option (Chunk μ)) (s : Reassembler μ) (payload : Bytes) : Prop :=
  ∀ x ∈ read payload, Fills s x → Within s x

theorem handler_ok_iff (read : Bytes → Option (Chunk μ)) {s : Reassembler μ} (hs : s.keys.Nodup)
    (payload : Bytes) : (∃ r, handler read s payload = .ok r) ↔ NoneMissing read s payload := by
  rw [handler, NoneMissing]
  cases read payload with
  | none => exact iff_of_true ⟨_, rfl⟩ fun _ h => by cases h
  | some x =>
    simp only [onChunkRaw_ok_iff hs x]
    exact ⟨fun h y hy => Option.some.inj hy ▸ h, fun h => h x rfl⟩

theorem handler_run_iff (read : Bytes → Option (Chunk μ)) {s : Reassembler μ} (hs : s.keys.Nodup)
    (payloads : List Bytes) :
    (∃ r, emits (handler read) s payloads = .ok r) ↔
      ThroughoutOk (handler read) (NoneMissing read) s payloads := by
  refine emits_ok_iff (fun s => s.keys.Nodup) _ _ (fun s payload hs => handler_ok_iff read hs payload)
    (fun s payload r hs h => ?_) payloads s hs
  unfold handler at h
  split at h
  · cases h
    exact hs
  · exact onChunkRaw_nodup hs _ h

/-- **A subscriber survives its traffic** exactly if no chunk fills a frame that has an index past
the count it was opened with. -/
theorem handlers_survive_iff (payloads : List Bytes) :
    ((∃ r, emits subscribeImageHandler .init payloads = .ok r) ↔
        ThroughoutOk subscribeImageHandler (NoneMissing imageChunk) .init payloads) ∧
      ((∃ r, emits subscribeCompressedImageHandler .init payloads = .ok r) ↔
        ThroughoutOk subscribeCompressedImageHandler (NoneMissing compressedImageChunk) .init
          payloads) := by
  rw [subscribeImageHandler_eq, subscribeCompressedImageHandler_eq]
  exact ⟨handler_run_iff imageChunk (s := ImageReassembler.init) List.nodup_nil payloads,
    handler_run_iff compressedImageChunk (s := CompressedImageReassembler.init) List.nodup_nil
      payloads⟩

/-- One chunk of one, with index five. -/
theorem stray_index_raises :
    ¬ ∀ payloads : List Bytes, (∃ r, emits subscribeImageHandler .init payloads = .ok r) ∧
      ∃ r, emits subscribeCompressedImageHandler .init payloads = .ok r := by
  intro h
  obtain ⟨r, hr⟩ := (h [u32 0 ++ (u16 5 ++ (u16 1 ++ u16 0))]).1
  have hraises : emits subscribeImageHandler .init [u32 0 ++ (u16 5 ++ (u16 1 ++ u16 0))] =
      .error ⟨0⟩ := by
    rfl
  rw [hraises] at hr
  cases hr

end Python
end Relink.Image
