import Relink.Image.KeyErrors

/-! The reassemblers of the two builds on the same chunks.

The C++ one keeps a flat buffer with a bit for each slot, goes by the `chunk_count` of the arriving
chunk and cuts the image where that count and the last chunk seen say. The Python one keeps the
pieces by index, goes by the count its frame was opened with and joins what it has. `Synced` ties
the two states together through any chunks. `same_outputs_iff` says what the two answers are where
they differ, and `same_calls` that on regular chunks, those of a frame with one count and full
pieces, they do not. -/
namespace Relink.Image
open LittleEndian Wire
open Buffer (region write)
open Slots (padded padded_length)
open Transition (outputs outputs_eq_iff both Throughout)

variable {μ : Type} {dataBytes : Nat}

/-- The index is below the count, and the bytes fit a slot; nothing else is asked of a chunk. -/
structure Chunk.Fits (dataBytes : Nat) (x : Chunk μ) : Prop where
  index : x.chunkIndex.toNat < x.chunkCount.toNat
  data : x.data.length ≤ dataBytes

/-- `on_chunk`. An access outside the buffer does not happen on chunks that fit. -/
def onChunk (dataBytes : Nat) (s : Reassembler μ) (x : Chunk μ) :
    Reassembler μ × Option (Completed μ) :=
  match chunkRaw dataBytes s x.frameId x.chunkIndex x.chunkCount x.data
      (UInt16.ofNat x.data.length) x.stamp with
  | .ok r => r
  | .error _ => (s, none)

/-- `on_chunk` of the Python build. A call that raises has added its piece. -/
def Python.onChunk (s : Python.Reassembler μ) (x : Chunk μ) :
    Python.Reassembler μ × Option (Completed μ) :=
  match Python.onChunkRaw s x with
  | .ok r => r
  | .error _ => ((s.opened x).add x, none)

/-! ### What a frame looks like on both sides -/

/-- The piece of an index, as far as there is one. -/
def pieceAt (pieces : List (Nat × Bytes)) (i : Nat) : Bytes := (pieces.lookup i).getD []

/-- The pieces in their slots. -/
def laid (dataBytes count : Nat) (pieces : List (Nat × Bytes)) : Bytes :=
  (List.range count).flatMap fun i => padded dataBytes (pieceAt pieces i)

/-- The pieces end to end. -/
def joined (count : Nat) (pieces : List (Nat × Bytes)) : Bytes :=
  (List.range count).flatMap (pieceAt pieces)

/-- The frame in progress. -/
structure SameFrame (dataBytes : Nat) (s : Reassembler μ) (p : Python.Reassembler μ) : Prop where
  inProgress : s.inProgress = true
  current : p.currentFrameId = some s.currentFrameId
  stamp : p.stamp = s.stamp
  slots : s.received.length = p.chunkCount
  keys : p.keys.Nodup
  marks : ∀ i, i < p.chunkCount → (s.received.getD i false = true ↔ i ∈ p.keys)
  count : s.receivedCount = p.keys.countP (· < p.chunkCount)
  buffer : s.buffer = laid dataBytes p.chunkCount p.pieces
  short : ∀ i, (pieceAt p.pieces i).length ≤ dataBytes

structure Synced (dataBytes : Nat) (s : Reassembler μ × Python.Reassembler μ) : Prop where
  bounded : Bounded dataBytes s.1
  idle : s.1.inProgress = false → s.2.currentFrameId = none
  frame : s.1.inProgress = true → SameFrame dataBytes s.1 s.2
  keys : s.2.keys.Nodup

/-- The C++ reassembler's frame for a chunk. -/
def Reassembler.opened (dataBytes : Nat) (s : Reassembler μ) (x : Chunk μ) : Reassembler μ :=
  openFrame dataBytes s x.frameId x.chunkCount x.stamp

theorem laid_nil (dataBytes count : Nat) :
    laid dataBytes count [] = List.replicate (count * dataBytes) 0 := by
  rw [laid]
  induction count with
  | zero => rw [Nat.zero_mul]; rfl
  | succ n ih =>
    rw [List.range_succ, List.flatMap_append, ih, List.flatMap_singleton, Nat.succ_mul,
      ← List.replicate_append_replicate]
    rfl

theorem pieceAt_add (p : Python.Reassembler μ) (x : Chunk μ)
    (hnew : x.chunkIndex.toNat ∉ p.keys) (i : Nat) :
    pieceAt (p.add x).pieces i = if i = x.chunkIndex.toNat then x.data else pieceAt p.pieces i := by
  rw [pieceAt, Python.Reassembler.add, List.lookup_append]
  by_cases hi : i = x.chunkIndex.toNat
  · have hnone : p.pieces.lookup i = none := by
      rw [← Option.not_isSome_iff_eq_none, Python.lookup_isSome_iff, hi]
      exact hnew
    rw [if_pos hi, hnone, Option.none_or, hi]
    simp
  · rw [if_neg hi, pieceAt, List.lookup_cons]
    have hbeq : (i == x.chunkIndex.toNat) = false := by simpa using hi
    rw [hbeq, List.lookup_nil, Option.or_none]

/-- Both discard what there is, or neither does. -/
theorem Synced.opened {s : Reassembler μ} {p : Python.Reassembler μ} (h : Synced dataBytes (s, p))
    (x : Chunk μ) : SameFrame dataBytes (s.opened dataBytes x) (p.opened x) ∧
      (s.opened dataBytes x).currentFrameId = x.frameId := by
  unfold Reassembler.opened Python.Reassembler.opened openFrame Python.openFrame
  by_cases hopens : x.frameId ≠ s.currentFrameId ∨ s.inProgress = false
  · have hpython : some x.frameId ≠ p.currentFrameId := by
      rcases Bool.eq_false_or_eq_true s.inProgress with hprogress | hidle
      · rw [(h.frame hprogress).current]
        intro heq
        rcases hopens with hother | hidle
        · exact hother (Option.some.inj heq)
        · rw [hprogress] at hidle
          cases hidle
      · rw [h.idle hidle]
        exact Option.some_ne_none _
    rw [if_pos hopens, if_pos hpython]
    refine ⟨⟨rfl, rfl, rfl, List.length_replicate .., List.nodup_nil, fun i hi => ?_, rfl,
      (laid_nil ..).symm, fun i => Nat.zero_le _⟩, rfl⟩
    simp only [Python.Reassembler.keys, List.map_nil, List.not_mem_nil, iff_false]
    rw [List.getD_eq_getElem?_getD, List.getElem?_replicate]
    split <;> simp
  · obtain ⟨hsame, hprogress⟩ := not_or.mp hopens
    have hframe := h.frame (Bool.eq_true_of_not_eq_false hprogress)
    have hpython : ¬ some x.frameId ≠ p.currentFrameId := by
      rw [hframe.current, not_not, not_not.mp hsame]
    rw [if_neg hopens, if_neg hpython]
    exact ⟨hframe, (not_not.mp hsame).symm⟩

/-! ### What a chunk adds -/

/-- The chunk's bytes in its slot, and its bit. -/
def Reassembler.mark (dataBytes : Nat) (s : Reassembler μ) (x : Chunk μ) : Reassembler μ :=
  { s with
    buffer := write s.buffer (x.chunkIndex.toNat * dataBytes) x.data
    received := s.received.set x.chunkIndex.toNat true
    receivedCount := s.receivedCount + 1
    lastChunkBytes := if x.chunkIndex.toNat + 1 = x.chunkCount.toNat then
      UInt16.ofNat x.data.length else s.lastChunkBytes }

variable {s : Reassembler μ} {p : Python.Reassembler μ} {x : Chunk μ}

theorem SameFrame.room (h : SameFrame dataBytes s p) {i : Nat} (hi : i < p.chunkCount)
    (hdata : x.data.length ≤ dataBytes) : i * dataBytes + x.data.length ≤ s.buffer.length := by
  rw [h.buffer, laid, Slots.length_flatMap_range fun i => padded_length (h.short i)]
  have := Nat.mul_le_mul_right dataBytes hi
  rw [Nat.succ_mul] at this
  omega

theorem short_add (h : ∀ i, (pieceAt p.pieces i).length ≤ dataBytes)
    (hnew : x.chunkIndex.toNat ∉ p.keys) (hdata : x.data.length ≤ dataBytes) (i : Nat) :
    (pieceAt (p.add x).pieces i).length ≤ dataBytes := by
  rw [pieceAt_add p x hnew]
  split
  · exact hdata
  · exact h i

theorem mem_keys_add {i : Nat} :
    i ∈ (p.add x).keys ↔ i ∈ p.keys ∨ i = x.chunkIndex.toNat := by
  rw [Python.keys_add, List.mem_append, List.mem_singleton]

/-- An index past the frame's count: the Python build keeps the piece, to no effect on what is
below. -/
theorem SameFrame.stray (h : SameFrame dataBytes s p) (hnew : x.chunkIndex.toNat ∉ p.keys)
    (hpast : p.chunkCount ≤ x.chunkIndex.toNat) (hdata : x.data.length ≤ dataBytes) :
    SameFrame dataBytes s (p.add x) where
  inProgress := h.inProgress
  current := h.current
  stamp := h.stamp
  slots := h.slots
  keys := Python.keys_add_nodup h.keys hnew
  marks i hi := by
    have hne : i ≠ x.chunkIndex.toNat := by
      have : i < p.chunkCount := hi
      omega
    rw [h.marks i hi, mem_keys_add, or_iff_left hne]
  count := by
    have hnot : ¬ x.chunkIndex.toNat < p.chunkCount := by omega
    show s.receivedCount = (p.add x).keys.countP (· < p.chunkCount)
    rw [h.count, Python.keys_add, List.countP_append, List.countP_singleton,
      if_neg (by simpa using hnot), Nat.add_zero]
  buffer := by
    rw [h.buffer, laid, laid]
    refine congrArg List.flatten (List.map_congr_left fun i hi => ?_)
    have hne : i ≠ x.chunkIndex.toNat := by
      have := List.mem_range.mp hi
      omega
    rw [pieceAt_add p x hnew, if_neg hne]
  short := short_add h.short hnew hdata

/-- A slot that is filled. -/
theorem SameFrame.mark (h : SameFrame dataBytes s p) (hnew : x.chunkIndex.toNat ∉ p.keys)
    (hin : x.chunkIndex.toNat < p.chunkCount) (hdata : x.data.length ≤ dataBytes) :
    SameFrame dataBytes (s.mark dataBytes x) (p.add x) where
  inProgress := h.inProgress
  current := h.current
  stamp := h.stamp
  slots := (List.length_set ..).trans h.slots
  keys := Python.keys_add_nodup h.keys hnew
  marks i hi := by
    have hi' : i < p.chunkCount := hi
    have hreceived : x.chunkIndex.toNat < s.received.length := h.slots ▸ hin
    rw [mem_keys_add, ← h.marks i hi', List.getD_eq_getElem?_getD, List.getD_eq_getElem?_getD]
    simp only [Reassembler.mark]
    rw [List.getElem?_set]
    by_cases heq : x.chunkIndex.toNat = i
    · subst heq
      simp [hreceived]
    · rw [if_neg heq, or_iff_left (Ne.symm heq)]
  count := by
    show s.receivedCount + 1 = (p.add x).keys.countP (· < p.chunkCount)
    rw [h.count, Python.keys_add, List.countP_append, List.countP_singleton,
      if_pos (decide_eq_true hin)]
  buffer := by
    have hsize : ∀ i, (padded dataBytes (pieceAt p.pieces i)).length = dataBytes := fun i =>
      padded_length (h.short i)
    have hempty : pieceAt p.pieces x.chunkIndex.toNat = [] := by
      have hnone : p.pieces.lookup x.chunkIndex.toNat = none := by
        rw [← Option.not_isSome_iff_eq_none, Python.lookup_isSome_iff]
        exact hnew
      rw [pieceAt, hnone, Option.getD_none]
    have hcount : (p.add x).chunkCount = p.chunkCount := rfl
    have hbuffer : (s.mark dataBytes x).buffer =
      write s.buffer (x.chunkIndex.toNat * dataBytes) x.data := rfl
    rw [hbuffer, hcount, h.buffer, laid, laid, Slots.write_flatMap_range hsize hin hdata]
    refine congrArg List.flatten (List.map_congr_left fun i _ => ?_)
    rw [pieceAt_add p x hnew]
    by_cases hi : i = x.chunkIndex.toNat
    · rw [if_pos hi, if_pos hi, hempty, padded, padded, List.nil_append, List.drop_replicate,
        List.length_nil, Nat.sub_zero]
    · rw [if_neg hi, if_neg hi]
  short := short_add h.short hnew hdata

/-! ### The two calls -/

theorem onChunk_bounded (hword : dataBytes < 65536) (hs : Bounded dataBytes s)
    (hx : x.Fits dataBytes) : Bounded dataBytes (onChunk dataBytes s x).1 ∧
      chunkRaw dataBytes s x.frameId x.chunkIndex x.chunkCount x.data
        (UInt16.ofNat x.data.length) x.stamp = .ok (onChunk dataBytes s x) := by
  have hlength : (UInt16.ofNat x.data.length).toNat = x.data.length := by
    rw [UInt16.toNat_ofNat']
    exact Nat.mod_eq_of_lt (hx.data.trans_lt hword)
  obtain ⟨r, hr, hbounded⟩ := chunkRaw_bounded hs x.frameId x.chunkIndex x.chunkCount x.data
    (UInt16.ofNat x.data.length) x.stamp (le_of_eq hlength) (by rw [hlength]; exact hx.data)
  rw [onChunk, hr]
  exact ⟨hbounded, rfl⟩

/-- The C++ call, frame by frame. -/
theorem onChunk_eq (hword : dataBytes < 65536) (hs : Bounded dataBytes s) (hx : x.Fits dataBytes)
    (hframe : SameFrame dataBytes (s.opened dataBytes x) p) :
    onChunk dataBytes s x =
      let f := s.opened dataBytes x
      if x.chunkIndex.toNat ∈ p.keys ∨ p.chunkCount ≤ x.chunkIndex.toNat then (f, none)
      else if p.keys.countP (· < p.chunkCount) + 1 = x.chunkCount.toNat then
        ({f.mark dataBytes x with inProgress := false},
          some ⟨f.currentFrameId, (f.mark dataBytes x).buffer.take
            (totalBytes dataBytes x.chunkCount (f.mark dataBytes x).lastChunkBytes), f.stamp⟩)
      else (f.mark dataBytes x, none) := by
  have hlength : (UInt16.ofNat x.data.length).toNat = x.data.length := by
    rw [UInt16.toNat_ofNat']
    exact Nat.mod_eq_of_lt (hx.data.trans_lt hword)
  obtain ⟨-, hcall⟩ := onChunk_bounded hword hs hx
  have hopened : openFrame dataBytes s x.frameId x.chunkCount x.stamp = s.opened dataBytes x := rfl
  rw [chunkRaw, hopened] at hcall
  simp only at hcall ⊢
  generalize s.opened dataBytes x = f at hframe hcall ⊢
  have hpassed : (f.received.length ≤ x.chunkIndex.toNat ∨
      f.received.getD x.chunkIndex.toNat false = true) ↔
        x.chunkIndex.toNat ∈ p.keys ∨ p.chunkCount ≤ x.chunkIndex.toNat := by
    rw [hframe.slots]
    by_cases hin : x.chunkIndex.toNat < p.chunkCount
    · rw [hframe.marks _ hin, or_comm]
    · simp only [Nat.le_of_not_lt hin, true_or, or_true]
  by_cases hpass : x.chunkIndex.toNat ∈ p.keys ∨ p.chunkCount ≤ x.chunkIndex.toNat
  · rw [if_pos (hpassed.mpr hpass)] at hcall
    rw [if_pos hpass]
    exact (Except.ok.inj hcall).symm
  · rw [if_neg fun h => hpass (hpassed.mp h), hlength] at hcall
    rw [if_neg hpass]
    obtain ⟨-, hin⟩ := not_or.mp hpass
    rw [Buffer.copyInto_all (hframe.room (Nat.lt_of_not_le hin) hx.data)] at hcall
    simp only [markChunk] at hcall
    rw [hframe.count] at hcall
    split at hcall
    · next hfull =>
      rw [if_pos hfull]
      split at hcall
      · cases hcall
      · next image himage =>
        rw [← Except.ok.inj hcall, Buffer.eq_take_of_slice himage]
        simp only [Reassembler.mark, hframe.count]
    · next hfull =>
      rw [if_neg hfull, ← Except.ok.inj hcall]
      simp only [Reassembler.mark, hframe.count]

/-- Both tests of the Python build: the number of pieces, and that none is missing. -/
def PythonFills (p : Python.Reassembler μ) (x : Chunk μ) : Prop :=
  Python.Fills p x ∧ Python.Within p x

/-- The C++ test: the slots filled are as many as the arriving chunk says. -/
def CppFills (p : Python.Reassembler μ) (x : Chunk μ) : Prop :=
  x.chunkIndex.toNat ∉ (p.opened x).keys ∧ x.chunkIndex.toNat < (p.opened x).chunkCount ∧
    (p.opened x).keys.countP (· < (p.opened x).chunkCount) + 1 = x.chunkCount.toNat

instance (p : Python.Reassembler μ) (x : Chunk μ) : Decidable (PythonFills p x) :=
  inferInstanceAs (Decidable (_ ∧ _))

instance (p : Python.Reassembler μ) (x : Chunk μ) : Decidable (CppFills p x) :=
  inferInstanceAs (Decidable (_ ∧ _ ∧ _))

theorem joined_eq {pieces : List (Nat × Bytes)} {n : Nat}
    (h : ∀ i ∈ List.range n, i ∈ pieces.map Prod.fst) :
    Python.join pieces (List.range n) = .ok (joined n pieces) := by
  refine Python.join_ok (pieceAt pieces) fun i hi => ?_
  obtain ⟨piece, hpiece⟩ := Option.isSome_iff_exists.mp (Python.lookup_isSome_iff.mpr (h i hi))
  rw [pieceAt, hpiece, Option.getD_some]

/-- The Python call, frame by frame. -/
theorem Python.onChunk_eq (hs : p.keys.Nodup) (x : Chunk μ) :
    Python.onChunk p x =
      let f := p.opened x
      if x.chunkIndex.toNat ∈ f.keys then (f, none)
      else if PythonFills p x then
        ({f.add x with currentFrameId := none},
          some ⟨x.frameId, joined f.chunkCount (f.add x).pieces, f.stamp⟩)
      else (f.add x, none) := by
  have hraises := onChunkRaw_ok_iff hs x
  rw [onChunk]
  simp only
  cases hcall : onChunkRaw p x with
  | error e =>
    have hnot : ¬ (Fills p x → Within p x) := by
      rw [← hraises, hcall]
      rintro ⟨_, h⟩
      cases h
    obtain ⟨hfills, hpast⟩ := Classical.not_imp.mp hnot
    rw [if_neg hfills.1, if_neg fun h => hpast h.2]
  | ok r =>
    have hwithin := hraises.mp ⟨r, hcall⟩
    rw [onChunkRaw_eq] at hcall
    simp only at hcall ⊢
    by_cases hold : x.chunkIndex.toNat ∈ (p.opened x).keys
    · rw [if_pos hold] at hcall ⊢
      exact (Except.ok.inj hcall).symm
    rw [if_neg hold] at hcall ⊢
    by_cases hfull : (p.opened x).keys.length + 1 = (p.opened x).chunkCount
    · have hfills : Fills p x := ⟨hold, hfull⟩
      have hall := join_ok_iff.mp ((join_add_iff hs hfills).mpr (hwithin hfills))
      rw [if_pos hfull, joined_eq hall] at hcall
      rw [if_pos ⟨hfills, hwithin hfills⟩]
      exact (Except.ok.inj hcall).symm
    · rw [if_neg hfull] at hcall
      rw [if_neg fun h => hfull h.1.2]
      exact (Except.ok.inj hcall).symm

/-! ### Where they part -/

/-- What the C++ reassembler has noted as the last chunk's length, once this chunk is there. -/
def lastBytes (s : Reassembler μ) (x : Chunk μ) : UInt16 :=
  if x.chunkIndex.toNat + 1 = x.chunkCount.toNat then UInt16.ofNat x.data.length
  else s.lastChunkBytes

/-- The slots, cut where the C++ reassembler cuts them, are the pieces end to end. -/
def Flush (dataBytes : Nat) (s : Reassembler μ × Python.Reassembler μ) (x : Chunk μ) : Prop :=
  (laid dataBytes (s.2.opened x).chunkCount ((s.2.opened x).add x).pieces).take
      (totalBytes dataBytes x.chunkCount (lastBytes s.1 x)) =
    joined (s.2.opened x).chunkCount ((s.2.opened x).add x).pieces

/-- A chunk that fills the frame for either build gives the count that the frame was opened with,
is the last of just that many, and leaves no gap in the slots. -/
def Alike (dataBytes : Nat) (s : Reassembler μ × Python.Reassembler μ) (x : Chunk μ) : Prop :=
  CppFills s.2 x ∨ PythonFills s.2 x →
    x.chunkCount.toNat = (s.2.opened x).chunkCount ∧ PythonFills s.2 x ∧ Flush dataBytes s x

instance (s : Reassembler μ × Python.Reassembler μ) (x : Chunk μ) :
    Decidable (Alike dataBytes s x) :=
  inferInstanceAs (Decidable (_ → _ = _ ∧ _ ∧ _ = _))

/-- With no index past the count, both count the same. -/
theorem countP_within (h : Python.Within p x) :
    (p.opened x).keys.countP (· < (p.opened x).chunkCount) = (p.opened x).keys.length :=
  List.countP_eq_length.mpr fun i hi => decide_eq_true (h i (List.mem_cons_of_mem _ hi))

/-- A chunk that fills the frame for both gives its count. -/
theorem count_eq_of_fills (hcpp : CppFills p x) (hpython : PythonFills p x) :
    x.chunkCount.toNat = (p.opened x).chunkCount := by
  rw [← hcpp.2.2, countP_within hpython.2]
  exact hpython.1.2

theorem cppFills_of_count (hpython : PythonFills p x)
    (hcount : x.chunkCount.toNat = (p.opened x).chunkCount) : CppFills p x := by
  refine ⟨hpython.1.1, hpython.2 _ List.mem_cons_self, ?_⟩
  rw [countP_within hpython.2, hcount]
  exact hpython.1.2

theorem lastChunkBytes_opened (dataBytes : Nat) (s : Reassembler μ) (x : Chunk μ) :
    (s.opened dataBytes x).lastChunkBytes = s.lastChunkBytes := by
  unfold Reassembler.opened openFrame
  split <;> rfl

/-- What the C++ callback gets. -/
def cut (dataBytes : Nat) (s : Reassembler μ × Python.Reassembler μ) (x : Chunk μ) : Bytes :=
  (laid dataBytes (s.2.opened x).chunkCount ((s.2.opened x).add x).pieces).take
    (totalBytes dataBytes x.chunkCount (lastBytes s.1 x))

section
variable (hword : dataBytes < 65536) (h : Synced dataBytes (s, p)) (hx : x.Fits dataBytes)
include hword h hx

/-- What the C++ call comes to, told from the pieces. -/
theorem Synced.cpp_call :
    (onChunk dataBytes s x).2 =
      if CppFills p x then some ⟨x.frameId, cut dataBytes (s, p) x, (p.opened x).stamp⟩
      else none := by
  obtain ⟨hframe, hid⟩ := h.opened x
  rw [onChunk_eq hword h.bounded hx hframe]
  simp only
  by_cases hpass : x.chunkIndex.toNat ∈ (p.opened x).keys ∨
      (p.opened x).chunkCount ≤ x.chunkIndex.toNat
  · have hnot : ¬ CppFills p x := by
      rintro ⟨hnew, hin, -⟩
      rcases hpass with hold | hpast
      · exact hnew hold
      · omega
    rw [if_pos hpass, if_neg hnot]
  · obtain ⟨hnew, hin⟩ := not_or.mp hpass
    have hmark := hframe.mark hnew (Nat.lt_of_not_le hin) hx.data
    rw [if_neg hpass]
    by_cases hfull : (p.opened x).keys.countP (· < (p.opened x).chunkCount) + 1 = x.chunkCount.toNat
    · have hfills : CppFills p x := ⟨hnew, Nat.lt_of_not_le hin, hfull⟩
      have hlast : ((s.opened dataBytes x).mark dataBytes x).lastChunkBytes = lastBytes s x := by
        simp only [Reassembler.mark, lastBytes, lastChunkBytes_opened]
      have hcount : ((p.opened x).add x).chunkCount = (p.opened x).chunkCount := rfl
      rw [if_pos hfull, if_pos hfills, hid, ← hframe.stamp, hlast, hmark.buffer, hcount, cut]
    · rw [if_neg hfull, if_neg fun h => hfull h.2.2]

omit hword hx in
theorem Synced.python_call :
    (Python.onChunk p x).2 =
      if PythonFills p x then
        some ⟨x.frameId, joined (p.opened x).chunkCount ((p.opened x).add x).pieces,
          (p.opened x).stamp⟩
      else none := by
  rw [Python.onChunk_eq h.keys]
  simp only
  by_cases hold : x.chunkIndex.toNat ∈ (p.opened x).keys
  · rw [if_pos hold, if_neg fun h => h.1.1 hold]
  · rw [if_neg hold]
    split <;> rfl

/-- The callbacks of one call are the same exactly if the chunk is alike to both. -/
theorem Synced.same_iff :
    (onChunk dataBytes s x).2 = (Python.onChunk p x).2 ↔ Alike dataBytes (s, p) x := by
  rw [h.cpp_call hword hx, h.python_call, Alike]
  by_cases hcpp : CppFills p x
  · rw [if_pos hcpp]
    by_cases hpython : PythonFills p x
    · rw [if_pos hpython, imp_iff_right (Or.inl hcpp), Option.some.injEq, Completed.mk.injEq]
      exact ⟨fun heq => ⟨count_eq_of_fills hcpp hpython, hpython, heq.2.1⟩,
        fun heq => ⟨rfl, heq.2.2, rfl⟩⟩
    · rw [if_neg hpython, imp_iff_right (Or.inl hcpp)]
      exact iff_of_false (fun heq => by cases heq) fun heq => hpython heq.2.1
  · rw [if_neg hcpp]
    by_cases hpython : PythonFills p x
    · rw [if_pos hpython, imp_iff_right (Or.inr hpython)]
      exact iff_of_false (fun heq => by cases heq) fun heq =>
        hcpp (cppFills_of_count hpython heq.1)
    · rw [if_neg hpython]
      exact iff_of_true rfl fun heq => absurd heq (not_or.mpr ⟨hcpp, hpython⟩)

/-- Until they part, the two states stay tied. -/
theorem Synced.step (halike : Alike dataBytes (s, p) x) :
    Synced dataBytes (both (onChunk dataBytes) Python.onChunk (s, p) x) := by
  obtain ⟨hframe, hid⟩ := h.opened x
  have hbounded := (onChunk_bounded hword h.bounded hx).1
  have hcpp := onChunk_eq hword h.bounded hx hframe
  have hpython := Python.onChunk_eq h.keys x
  simp only at hcpp hpython
  -- where the frame goes on
  have hcontinues : ∀ f q, (onChunk dataBytes s x).1 = f → (Python.onChunk p x).1 = q →
      SameFrame dataBytes f q → Synced dataBytes (both (onChunk dataBytes) Python.onChunk (s, p) x) := by
    rintro f q hf hq hsame
    rw [both, hf, hq]
    refine ⟨hf ▸ hbounded, fun hidle => ?_, fun _ => hsame, hsame.keys⟩
    rw [hsame.inProgress] at hidle
    cases hidle
  by_cases hold : x.chunkIndex.toNat ∈ (p.opened x).keys
  · rw [if_pos (Or.inl hold)] at hcpp
    rw [if_pos hold] at hpython
    exact hcontinues _ _ (by rw [hcpp]) (by rw [hpython]) hframe
  rw [if_neg hold] at hpython
  by_cases hpast : (p.opened x).chunkCount ≤ x.chunkIndex.toNat
  · have hnot : ¬ PythonFills p x := fun hfills => by
      have := hfills.2 _ List.mem_cons_self
      omega
    rw [if_pos (Or.inr hpast)] at hcpp
    rw [if_neg hnot] at hpython
    exact hcontinues _ _ (by rw [hcpp]) (by rw [hpython]) (hframe.stray hold hpast hx.data)
  have hmark := hframe.mark hold (Nat.lt_of_not_le hpast) hx.data
  rw [if_neg (not_or.mpr ⟨hold, hpast⟩)] at hcpp
  by_cases hfills : CppFills p x
  · -- the frame is complete for both
    rw [if_pos hfills.2.2] at hcpp
    rw [if_pos (halike (Or.inl hfills)).2.1] at hpython
    have hidle : (onChunk dataBytes s x).1.inProgress = false := by rw [hcpp]
    have hnone : (Python.onChunk p x).1.currentFrameId = none := by rw [hpython]
    refine ⟨hbounded, fun _ => hnone, fun hprogress => ?_, ?_⟩
    · exact absurd (hidle.symm.trans hprogress) Bool.false_ne_true
    · rw [both, hpython]
      exact hmark.keys
  · have hnot : ¬ PythonFills p x := fun h' =>
      hfills (cppFills_of_count h' (halike (Or.inr h')).1)
    rw [if_neg fun h' => hfills ⟨hold, Nat.lt_of_not_le hpast, h'⟩] at hcpp
    rw [if_neg hnot] at hpython
    exact hcontinues _ _ (by rw [hcpp]) (by rw [hpython]) hmark

end

theorem synced_init (dataBytes : Nat) (stamp : μ) :
    Synced dataBytes ((.fresh stamp, {stamp := stamp}) : Reassembler μ × Python.Reassembler μ) :=
  ⟨bounded_fresh dataBytes stamp, fun _ => rfl, (fun h => absurd h Bool.false_ne_true), List.nodup_nil⟩

/-- Where the C++ reassembler has noted the last piece's length, no gap means that every other
piece is full. -/
theorem flush_iff (hshort : ∀ i, (pieceAt ((p.opened x).add x).pieces i).length ≤ dataBytes)
    (hcount : x.chunkCount.toNat = (p.opened x).chunkCount) (hpos : 0 < (p.opened x).chunkCount)
    (hlast : (lastBytes s x).toNat =
      (pieceAt ((p.opened x).add x).pieces ((p.opened x).chunkCount - 1)).length) :
    Flush dataBytes (s, p) x ↔ ∀ i, i < (p.opened x).chunkCount - 1 →
      (pieceAt ((p.opened x).add x).pieces i).length = dataBytes := by
  rw [← Slots.take_padded_iff hshort, Nat.sub_add_cancel hpos, Flush, totalBytes, hcount, hlast]
  split
  · rfl
  · next hone =>
    have hzero : (p.opened x).chunkCount - 1 = 0 := by omega
    rw [hzero, Nat.zero_mul, Nat.zero_add]
    rfl

/-- The two reassemblers call back alike exactly if every chunk is alike to both. -/
theorem same_outputs_iff (hword : dataBytes < 65536) (stamp : μ) {chunks : List (Chunk μ)}
    (hfits : ∀ x ∈ chunks, x.Fits dataBytes) :
    outputs (onChunk dataBytes) (.fresh stamp) chunks = outputs Python.onChunk {stamp := stamp} chunks ↔
      Throughout (both (onChunk dataBytes) Python.onChunk) (Alike dataBytes)
        (.fresh stamp, {stamp := stamp}) chunks := by
  rw [outputs_eq_iff]
  exact Throughout.congr (C := fun _ x => x.Fits dataBytes) (Synced dataBytes)
    (fun s x hs hx => hs.same_iff (s := s.1) (p := s.2) hword hx)
    (fun s x hs hx halike => hs.step (s := s.1) (p := s.2) hword hx halike)
    (synced_init dataBytes stamp) (Throughout.of_mem (fun x hx _ => hfits x hx) _)

/-! ### Regular chunks -/

/-- The count that the chunk's frame was opened with. -/
def countIn (p : Python.Reassembler μ) (x : Chunk μ) : Nat :=
  if p.currentFrameId = some x.frameId then p.chunkCount else x.chunkCount.toNat

/-- The pieces that the chunk's frame has so far. -/
def piecesOf (p : Python.Reassembler μ) (x : Chunk μ) : List (Nat × Bytes) :=
  if p.currentFrameId = some x.frameId then p.pieces else []

def keysOf (p : Python.Reassembler μ) (x : Chunk μ) : List Nat := (piecesOf p x).map Prod.fst

/-- The chunk has a slot of its own, and there are then as many as it announces (C++), or with none
past the count as many as its frame was opened with (Python). -/
def Completes (p : Python.Reassembler μ) (x : Chunk μ) : Prop :=
  x.chunkIndex.toNat ∉ keysOf p x ∧ x.chunkIndex.toNat < countIn p x ∧
    ((keysOf p x).countP (· < countIn p x) + 1 = x.chunkCount.toNat ∨
      (∀ i ∈ keysOf p x, i < countIn p x) ∧ (keysOf p x).length + 1 = countIn p x)

/-- A chunk that completes its frame for either build gives the count the frame was opened with, no
piece is past that count, and all are full, but the last: that is as long as was last noted. -/
def Regular (dataBytes : Nat) (s : Reassembler μ × Python.Reassembler μ) (x : Chunk μ) : Prop :=
  Completes s.2 x → x.chunkCount.toNat = countIn s.2 x ∧
    ∀ piece ∈ piecesOf s.2 x ++ [(x.chunkIndex.toNat, x.data)], piece.1 < countIn s.2 x ∧
      piece.2.length =
        if piece.1 + 1 = countIn s.2 x then (lastBytes s.1 x).toNat else dataBytes

instance (p : Python.Reassembler μ) (x : Chunk μ) : Decidable (Completes p x) :=
  inferInstanceAs (Decidable (_ ∧ _ ∧ (_ ∨ _ ∧ _)))

instance (s : Reassembler μ × Python.Reassembler μ) (x : Chunk μ) :
    Decidable (Regular dataBytes s x) :=
  inferInstanceAs (Decidable (_ → _ = _ ∧ ∀ piece ∈ _, _ ∧ _ = _))

theorem opened_chunkCount (p : Python.Reassembler μ) (x : Chunk μ) :
    (p.opened x).chunkCount = countIn p x := by
  unfold Python.Reassembler.opened Python.openFrame countIn
  by_cases hcurrent : p.currentFrameId = some x.frameId
  · rw [if_neg (not_not.mpr hcurrent.symm), if_pos hcurrent]
  · rw [if_pos (Ne.symm hcurrent), if_neg hcurrent]

theorem opened_pieces (p : Python.Reassembler μ) (x : Chunk μ) :
    (p.opened x).pieces = piecesOf p x := by
  unfold Python.Reassembler.opened Python.openFrame piecesOf
  by_cases hcurrent : p.currentFrameId = some x.frameId
  · rw [if_neg (not_not.mpr hcurrent.symm), if_pos hcurrent]
  · rw [if_pos (Ne.symm hcurrent), if_neg hcurrent]

theorem opened_keys (p : Python.Reassembler μ) (x : Chunk μ) : (p.opened x).keys = keysOf p x := by
  rw [Python.Reassembler.keys, opened_pieces, keysOf]

/-- The two tests, told from the state before. -/
theorem completes_of_fills (h : CppFills p x ∨ PythonFills p x) : Completes p x := by
  rw [CppFills, PythonFills, Python.Fills, Python.Within, opened_keys, opened_chunkCount] at h
  rcases h with ⟨hnew, hin, hfull⟩ | ⟨⟨hnew, hfull⟩, hwithin⟩
  · exact ⟨hnew, hin, Or.inl hfull⟩
  · exact ⟨hnew, hwithin _ List.mem_cons_self,
      Or.inr ⟨fun i hi => hwithin i (List.mem_cons_of_mem _ hi), hfull⟩⟩

/-- Of one count, with no piece past it, a chunk that completes the frame meets Python's test. -/
theorem Completes.pythonFills (h : Completes p x) (hcount : x.chunkCount.toNat = countIn p x)
    (hwithin : ∀ i ∈ keysOf p x, i < countIn p x) : PythonFills p x := by
  obtain ⟨hnew, hin, hfull⟩ := h
  have hall : (keysOf p x).countP (· < countIn p x) = (keysOf p x).length :=
    List.countP_eq_length.mpr fun i hi => decide_eq_true (hwithin i hi)
  have hlength : (keysOf p x).length + 1 = countIn p x := by
    rcases hfull with hcpp | hpython
    · rw [← hall, hcpp, hcount]
    · exact hpython.2
  rw [PythonFills, Python.Fills, Python.Within, opened_keys, opened_chunkCount]
  refine ⟨⟨hnew, hlength⟩, fun i hi => ?_⟩
  rcases List.mem_cons.mp hi with rfl | hold
  · exact hin
  · exact hwithin i hold

theorem mem_pieceAt {pieces : List (Nat × Bytes)} {i : Nat} (h : i ∈ pieces.map Prod.fst) :
    (i, pieceAt pieces i) ∈ pieces := by
  obtain ⟨piece, hpiece⟩ := Option.isSome_iff_exists.mp (Python.lookup_isSome_iff.mpr h)
  rw [pieceAt, hpiece, Option.getD_some]
  exact Python.mem_of_lookup hpiece

/-- To a regular chunk both reassemblers answer alike. -/
theorem Regular.alike (h : Synced dataBytes (s, p)) (hx : x.Fits dataBytes)
    (hregular : Regular dataBytes (s, p) x) : Alike dataBytes (s, p) x := by
  intro hfills
  have hcompletes := completes_of_fills hfills
  obtain ⟨hcount, hpieces⟩ := hregular hcompletes
  have hwithin : ∀ i ∈ keysOf p x, i < countIn p x := by
    intro i hi
    obtain ⟨piece, hpiece, rfl⟩ := List.mem_map.mp hi
    exact (hpieces piece (List.mem_append_left _ hpiece)).1
  have hpython := hcompletes.pythonFills hcount hwithin
  have hframe := (h.opened x).1
  rw [← opened_chunkCount] at hcount
  -- every index below the count has its piece
  have hlength : ∀ i, i < (p.opened x).chunkCount →
      (pieceAt ((p.opened x).add x).pieces i).length =
        if i + 1 = (p.opened x).chunkCount then (lastBytes s x).toNat else dataBytes := by
    intro i hi
    have hkeys : ((p.opened x).add x).keys.length = (p.opened x).chunkCount := by
      rw [Python.keys_add, List.length_append, List.length_singleton]
      exact hpython.1.2
    have hbelow : ∀ j ∈ ((p.opened x).add x).keys, j < (p.opened x).chunkCount := by
      intro j hj
      rcases mem_keys_add.mp hj with hold | rfl
      · exact hpython.2 j (List.mem_cons_of_mem _ hold)
      · exact hpython.2 _ List.mem_cons_self
    have hkey := Python.mem_keys_of_length (Python.keys_add_nodup hframe.keys hpython.1.1) hbelow
      hkeys hi
    have hmem := mem_pieceAt hkey
    rw [Python.Reassembler.add, opened_pieces] at hmem
    rw [Python.Reassembler.add, opened_pieces, opened_chunkCount]
    exact (hpieces _ hmem).2
  have hpos : 0 < (p.opened x).chunkCount := (Nat.zero_le _).trans_lt (hpython.2 _ List.mem_cons_self)
  have hlast := hlength _ (Nat.sub_lt hpos Nat.one_pos)
  rw [if_pos (Nat.sub_add_cancel hpos)] at hlast
  refine ⟨hcount, hpython, (flush_iff (short_add hframe.short hpython.1.1 hx.data) hcount hpos
    hlast.symm).mpr fun i hi => ?_⟩
  rw [hlength i (by omega), if_neg (by omega)]

/-- On regular chunks the two reassemblers call back alike. -/
theorem same_outputs (hword : dataBytes < 65536) (stamp : μ) {chunks : List (Chunk μ)}
    (hfits : ∀ x ∈ chunks, x.Fits dataBytes)
    (hregular : Throughout (both (onChunk dataBytes) Python.onChunk) (Regular dataBytes)
      (.fresh stamp, {stamp := stamp}) chunks) :
    outputs (onChunk dataBytes) (.fresh stamp) chunks =
      outputs Python.onChunk {stamp := stamp} chunks := by
  have hchunks := (Throughout.of_mem (fun x hx _ => hfits x hx) _).and hregular
  refine (same_outputs_iff hword stamp hfits).mpr ?_
  refine Throughout.of_invariant (Synced dataBytes) ?_ ?_ (synced_init dataBytes stamp) hchunks
  · intro s x hs hx
    exact Regular.alike (s := s.1) (p := s.2) hs hx.1 hx.2
  · intro s x hs hx
    have halike := Regular.alike (s := s.1) (p := s.2) hs hx.1 hx.2
    exact hs.step (s := s.1) (p := s.2) hword hx.1 halike

/-- **The builds' reassemblers agree** on every run of chunks that fit and are regular: the same
callbacks at the same places, with the same frame ids, bytes, times and qualities. -/
theorem same_calls (images : List (Chunk Unit)) (compressed : List (Chunk CaptureStamp))
    (himages : ∀ x ∈ images, x.Fits kImageChunkDataBytes)
    (hcompressed : ∀ x ∈ compressed, x.Fits kCompressedImageChunkDataBytes)
    (hregular : Throughout (both (onChunk kImageChunkDataBytes) Python.onChunk)
      (Regular kImageChunkDataBytes) (ImageReassembler.init, Python.ImageReassembler.init) images)
    (hregular' : Throughout (both (onChunk kCompressedImageChunkDataBytes) Python.onChunk)
      (Regular kCompressedImageChunkDataBytes)
      (CompressedImageReassembler.init, Python.CompressedImageReassembler.init) compressed) :
    outputs (onChunk kImageChunkDataBytes) ImageReassembler.init images =
        outputs Python.onChunk Python.ImageReassembler.init images ∧
      outputs (onChunk kCompressedImageChunkDataBytes) CompressedImageReassembler.init compressed =
        outputs Python.onChunk Python.CompressedImageReassembler.init compressed :=
  ⟨same_outputs (by decide) () himages hregular,
    same_outputs (by decide) (CaptureStamp.mk 0 0) hcompressed hregular'⟩

/-- A chunk of a full piece. -/
def fullChunk (dataBytes : Nat) (index count : UInt16) (stamp : μ) : Chunk μ :=
  ⟨4, index, count, List.replicate dataBytes 7, stamp⟩

/-- A frame of three chunks, the last one first and one of them twice, and then the next frame's
last chunk. -/
theorem same_calls_three :
    let images : List (Chunk Unit) := [⟨4, 2, 3, [7, 8], ()⟩, fullChunk kImageChunkDataBytes 0 3 (),
      fullChunk kImageChunkDataBytes 0 3 (), fullChunk kImageChunkDataBytes 1 3 (), ⟨5, 1, 2, [9], ()⟩]
    let compressed : List (Chunk CaptureStamp) := [⟨4, 2, 3, [7, 8], ⟨5, 90⟩⟩,
      fullChunk kCompressedImageChunkDataBytes 0 3 ⟨5, 90⟩,
      fullChunk kCompressedImageChunkDataBytes 1 3 ⟨5, 90⟩]
    outputs (onChunk kImageChunkDataBytes) ImageReassembler.init images =
        outputs Python.onChunk Python.ImageReassembler.init images ∧
      outputs (onChunk kCompressedImageChunkDataBytes) CompressedImageReassembler.init compressed =
        outputs Python.onChunk Python.CompressedImageReassembler.init compressed := by
  intro images compressed
  have himages : ∀ x ∈ images, x.chunkIndex.toNat < x.chunkCount.toNat ∧
      x.data.length ≤ kImageChunkDataBytes := by decide +kernel
  have hcompressed : ∀ x ∈ compressed, x.chunkIndex.toNat < x.chunkCount.toNat ∧
      x.data.length ≤ kCompressedImageChunkDataBytes := by decide +kernel
  exact same_calls images compressed (fun x hx => ⟨(himages x hx).1, (himages x hx).2⟩)
    (fun x hx => ⟨(hcompressed x hx).1, (hcompressed x hx).2⟩) (by decide +kernel)
    (by decide +kernel)

/-- Two chunks of one byte, the counts right: the C++ image has a gap between the bytes. -/
theorem short_chunk_differs : ¬ ∀ images : List (Chunk Unit),
    (∀ x ∈ images, x.Fits kImageChunkDataBytes) →
      outputs (onChunk kImageChunkDataBytes) ImageReassembler.init images =
        outputs Python.onChunk Python.ImageReassembler.init images := by
  intro h
  have hfits : ∀ x ∈ [(⟨0, 0, 2, [7], ()⟩ : Chunk Unit), ⟨0, 1, 2, [8], ()⟩],
      x.Fits kImageChunkDataBytes := by
    intro x hx
    rcases List.mem_cons.mp hx with rfl | hx
    · exact ⟨by decide, by decide⟩
    · rw [List.mem_singleton.mp hx]
      exact ⟨by decide, by decide⟩
  have hlengths := congrArg (List.map (Option.map fun c => c.image.length)) (h _ hfits)
  revert hlengths
  decide +kernel

end Relink.Image
