import Mathlib.Data.List.ProdSigma
import Relink.Image.Encode
import Relink.Transport.Publish

/-! The zero-copy path of images against the copying one.

`publish_image` and `publish_compressed_image` never build a chunk: a header on the stack and a
slice of the caller's data go to the kernel in pieces. What arrives at each peer is, datagram by
datagram, `encode_frame` of the compact form of the chunks that the chunker emits, and their
subscriber puts the image together from it. -/
namespace Relink.Transport
open LittleEndian Wire
open Image (Published ImageCall CaptureStamp ChunkStruct forChunks countOf offsetOf bytesOf SizesExact)
open Transition (emits)

section
variable (accepts : Nat → Bool) (d : Destinations)

/-- The sending loop with its sizes and its counter as machine words. -/
def sendChunks (dataBytes : Nat) (stamp : Bytes) (frameId : UInt32) (data : Bytes) (fuel : Nat)
    (t : Outgoing) : Option (Outgoing × Bool) :=
  let len := UInt64.ofNat data.length
  let count := countOf (UInt64.ofNat dataBytes) len
  forChunks count (fun i r =>
    let n := bytesOf (UInt64.ofNat dataBytes) len i
    sendAll (fun t peer => publishScattered accepts t d.topicId
      (u32 frameId ++ (u16 i ++ (u16 count ++ (u16 n.toUInt16 ++ stamp))))
      (Buffer.region data (offsetOf (UInt64.ofNat dataBytes) i).toNat n.toNat) peer) r d.peers)
    fuel 0 (t, true)

/-- `publish_image`, `next` being the topic's counter of frame ids. -/
def publishImageCall (next : UInt32) (call : ImageCall Unit) (fuel : Nat) (t : Outgoing) :
    Option (UInt32 × Outgoing × Bool) :=
  match Image.publishImage next call with
  | (next, none) => some (next, t, false)
  | (next, some image) =>
    (sendChunks accepts d Image.kImageChunkDataBytes [] image.frameId image.data fuel t).map
      fun r => (next, r)

end

/-- No capture time is the time of the call. -/
def captureStamp (now : UInt64) (given : CaptureStamp) : CaptureStamp :=
  if given.captureTimestampNs = 0 then {given with captureTimestampNs := now} else given

def stampBytes (stamp : CaptureStamp) : Bytes := u64 stamp.captureTimestampNs ++ [stamp.quality]

/-- `publish_compressed_image`. -/
def publishCompressedImageCall (accepts : Nat → Bool) (d : Destinations) (next : UInt32)
    (now : UInt64) (call : ImageCall CaptureStamp) (fuel : Nat) (t : Outgoing) :
    Option (UInt32 × Outgoing × Bool) :=
  match Image.publishCompressedImage next {call with stamp := captureStamp now call.stamp} with
  | (next, none) => some (next, t, false)
  | (next, some image) =>
    (sendChunks accepts d Image.kCompressedImageChunkDataBytes (stampBytes image.stamp)
      image.frameId image.data fuel t).map fun r => (next, r)

/-- The payloads one after the other, each to every peer, numbered as they go. -/
def Sends (d : Destinations) (payloads : List Bytes) (t t' : Outgoing) : Prop :=
  ∃ sends, t'.sent = t.sent ++ sends ∧
    sends.map (fun c => (c.dest, Except.ok c.frame)) =
      (payloads ×ˢ d.peers).mapIdx fun n x =>
        (x.2, encodeFrame d.topicId (t.seqCounter + UInt16.ofNat n) x.1 kMaxFrameBytes)

/-! ### What the loop sends -/

section
variable {accepts : Nat → Bool} {d : Destinations} {dataBytes : Nat} {stamp : Bytes}

theorem sendChunks_eq (hpos : 0 < dataBytes) (hword : dataBytes < 65536) {data : Bytes}
    (hle : data.length ≤ 65535 * dataBytes) (frameId : UInt32) {fuel : Nat} (hfuel : 65535 < fuel)
    (t : Outgoing) :
    sendChunks accepts d dataBytes stamp frameId data fuel t =
      some (publishChunks accepts d dataBytes stamp frameId data t) := by
  have hsizes := Image.sizesExact hpos hword hle
  have hcount := Image.countOf_eq hpos hword hle
  have hlt := (countOf (UInt64.ofNat dataBytes) (UInt64.ofNat data.length)).toNat_lt
  rw [sendChunks, Image.forChunks_zero _ _ (by omega), publishChunks, ← hcount]
  refine congrArg some (List.foldl_ext _ _ _ fun r k hk => ?_)
  obtain ⟨hindex, hi⟩ := Image.turn_index hk
  obtain ⟨hoffset, -⟩ := hsizes.offset _ hi
  obtain ⟨hbytes, hcast⟩ := hsizes.bytes _ hi
  rw [hindex] at hoffset hbytes hcast
  have hword16 : (bytesOf (UInt64.ofNat dataBytes) (UInt64.ofNat data.length)
      (UInt16.ofNat k)).toUInt16 = UInt16.ofNat (min dataBytes (data.length - k * dataBytes)) := by
    rw [← UInt16.ofNat_toNat (x := UInt64.toUInt16 _), hcast]
  simp only [Image.chunkHeader, Image.chunkData, hoffset, hbytes, hword16]

/-- One datagram more, and the next number. -/
theorem publishScattered_eq (accepts : Nat → Bool) (t : Outgoing) (topicId : UInt32)
    {extraHeader data : Bytes} (hle : extraHeader.length + data.length ≤ kMaxPayloadBytes)
    (peer : PeerAddr) :
    publishScattered accepts t topicId extraHeader data peer =
      ({t with
        seqCounter := t.seqCounter + 1
        sent := t.sent ++ [⟨peer, frameBytes topicId t.seqCounter (extraHeader ++ data),
          accepts t.sent.length⟩]}, accepts t.sent.length) := by
  rw [publishScattered, if_neg (Nat.not_lt.mpr hle)]
  simp [sendTo, frameBytes]

theorem sends_foldl (payload : Nat → Bytes) (send : Nat → Outgoing → PeerAddr → Outgoing × Bool)
    (hsend : ∀ i t peer, ∃ ok, send i t peer =
      ({t with
        seqCounter := t.seqCounter + 1
        sent := t.sent ++ [⟨peer, frameBytes d.topicId t.seqCounter (payload i), ok⟩]}, ok))
    (hpayload : ∀ i, (payload i).length ≤ kMaxPayloadBytes) (xs : List (Nat × PeerAddr))
    (t : Outgoing) (ok : Bool) :
    ∃ sends, (xs.foldl (fun r x => ((send x.1 r.1 x.2).1, (send x.1 r.1 x.2).2 && r.2)) (t, ok)).1.sent =
        t.sent ++ sends ∧
      sends.map (fun c => (c.dest, Except.ok c.frame)) = xs.mapIdx fun n x =>
        (x.2, encodeFrame d.topicId (t.seqCounter + UInt16.ofNat n) (payload x.1) kMaxFrameBytes) := by
  induction xs generalizing t ok with
  | nil => exact ⟨[], (List.append_nil _).symm, rfl⟩
  | cons x xs ih =>
    obtain ⟨taken, htaken⟩ := hsend x.1 t x.2
    rw [List.foldl_cons, htaken]
    obtain ⟨sends, hsent, hframes⟩ := ih {t with
      seqCounter := t.seqCounter + 1
      sent := t.sent ++ [⟨x.2, frameBytes d.topicId t.seqCounter (payload x.1), taken⟩]} (taken && ok)
    refine ⟨⟨x.2, frameBytes d.topicId t.seqCounter (payload x.1), taken⟩ :: sends, ?_, ?_⟩
    · rw [hsent, List.append_assoc]
      rfl
    · have hnext : ∀ n, t.seqCounter + 1 + UInt16.ofNat n = t.seqCounter + UInt16.ofNat (n + 1) := by
        intro n
        rw [UInt16.ofNat_add, UInt16.add_assoc, UInt16.add_comm 1]
        rfl
      rw [List.map_cons, hframes, List.mapIdx_cons, encodeFrame_ok _ _ _ (hpayload _)]
      simp only [hnext]
      simp

theorem product_map {α β γ : Type} (f : α → β) (xs : List α) (ys : List γ) :
    xs.map f ×ˢ ys = (xs ×ˢ ys).map fun x => (f x.1, x.2) := by
  simp only [SProd.sprod, List.product, List.flatMap_map, List.map_flatMap, List.map_map]
  rfl

/-- An image's chunks, each to every peer. -/
theorem sends_publishChunks (hbudget : 10 + stamp.length + dataBytes = kMaxPayloadBytes)
    (frameId : UInt32) (data : Bytes) (t : Outgoing) :
    Sends d (Image.chunkPayloads dataBytes stamp frameId data) t
      (publishChunks accepts d dataBytes stamp frameId data t).1 := by
  have hlength : ∀ i, (Image.chunkHeader stamp frameId (Image.chunkCount dataBytes data.length) i
      (min dataBytes (data.length - i * dataBytes))).length +
        (Image.chunkData dataBytes data i).length ≤ kMaxPayloadBytes := by
    intro i
    simp only [Image.chunkHeader, Image.chunkData, Buffer.region, List.length_append, u32_length,
      u16_length, List.length_take]
    omega
  have hloop := sends_foldl (d := d)
    (Image.chunkPayload dataBytes stamp frameId data (Image.chunkCount dataBytes data.length))
    (fun i t peer => publishScattered accepts t d.topicId
      (Image.chunkHeader stamp frameId (Image.chunkCount dataBytes data.length) i
        (min dataBytes (data.length - i * dataBytes))) (Image.chunkData dataBytes data i) peer)
    (fun i t peer => ⟨_, publishScattered_eq accepts t d.topicId (hlength i) peer⟩)
    (fun i => by rw [Image.chunkPayload, List.length_append]; exact hlength i)
    ((List.range (Image.chunkCount dataBytes data.length).toNat) ×ˢ d.peers) t true
  obtain ⟨sends, hsent, hframes⟩ := hloop
  refine ⟨sends, ?_, ?_⟩
  · simp only [SProd.sprod, List.product, List.foldl_flatMap, List.foldl_map] at hsent
    exact hsent
  · rw [hframes, Image.chunkPayloads, product_map]
    refine List.ext_getElem? fun n => ?_
    simp only [List.getElem?_mapIdx, List.getElem?_map, Option.map_map]
    rfl

end

/-! ### What arrives is put together -/

section
variable {μ : Type} [DecidableEq μ] {dataBytes : Nat} {image : Published μ}

/-- Chunks in order make one image. -/
theorem chunks_in_order (hadm : Image.Admissible dataBytes image) {s : Image.Reassembler μ}
    (hs : s.Free image) : Image.Delivers (Image.onChunkRaw dataBytes) s
      ((List.range (image.count dataBytes)).map (image.chunk dataBytes)) [image.completed] := by
  have harrives : Image.ArrivesAlone dataBytes image (List.range (image.count dataBytes)) :=
    ⟨hadm.length, fun i hi => List.mem_range.mp hi, fun i hi => List.mem_range.mpr hi⟩
  exact ((Image.alone_iff hadm.pos hadm.word harrives).1 s hs).mpr
    (Gather.coveredOnce_range (image.count_pos dataBytes))

end

/-- A handler that takes the payloads for the chunks delivers the image. -/
theorem payloads_in_order {μ : Type} [DecidableEq μ] {dataBytes : Nat} {image : Published μ}
    (hadm : Image.Admissible dataBytes image) {stamp : Bytes}
    {handler : Image.Reassembler μ → Bytes →
      Except Buffer.Fault (Image.Reassembler μ × Option (Image.Completed μ))}
    (hhandler : ∀ i < image.count dataBytes, ∀ s,
      handler s (Image.chunkPayload dataBytes stamp image.frameId image.data
        (Image.chunkCount dataBytes image.data.length) i) =
          Image.onChunkRaw dataBytes s (image.chunk dataBytes i))
    {s : Image.Reassembler μ} (hs : s.Free image) :
    ∃ s', emits handler s (Image.chunkPayloads dataBytes stamp image.frameId image.data) =
      .ok (s', [image.completed]) := by
  obtain ⟨s', hrun⟩ := chunks_in_order hadm hs
  refine ⟨s', ?_⟩
  rw [Image.chunkPayloads, hadm.count_eq, ← hrun]
  refine Transition.emits_congr _ _ _ _ _ (fun i hi => hhandler i (List.mem_range.mp hi)) s

/-- The two length checks of a subscriber. -/
def PassesChecks (headerBytes : Nat) (payload : Bytes) : Prop :=
  headerBytes ≤ payload.length ∧ (readU16 8 payload).toNat = payload.length - headerBytes

section
variable {image : Published Unit}

theorem imageChunks_pass (hadm : Image.Admissible Image.kImageChunkDataBytes image) :
    ∀ payload ∈ Image.imageChunks image, PassesChecks Image.kImageChunkHeaderBytes payload := by
  intro payload hmem
  obtain ⟨i, _, hread⟩ := Image.image_header hmem hadm
  have hlength := hread.length
  rw [PassesChecks, Image.kImageChunkHeaderBytes, hread.bytes, hadm.slot_length]
  omega

theorem imageChunks_in_order (hadm : Image.Admissible Image.kImageChunkDataBytes image) :
    ∃ s, emits Image.subscribeImageHandler .init (Image.imageChunks image) =
      .ok (s, [image.completed]) := by
  refine payloads_in_order hadm (fun i hi s => ?_)
    (Image.Reassembler.free_of_idle (s := Image.ImageReassembler.init) rfl image)
  rw [Image.chunkPayload_eq, List.nil_append]
  exact Image.subscribeImageHandler_chunk (Image.header ..) (hadm.slot_length i) s

end

section
variable {image : Published CaptureStamp}

theorem compressedImageChunks_pass
    (hadm : Image.Admissible Image.kCompressedImageChunkDataBytes image) :
    ∀ payload ∈ Image.compressedImageChunks image,
      PassesChecks Image.kCompressedImageChunkHeaderBytes payload := by
  intro payload hmem
  obtain ⟨i, _, hread⟩ := Image.compressedImage_header hmem hadm
  have hlength := hread.length
  rw [PassesChecks, Image.kCompressedImageChunkHeaderBytes, hread.bytes, hadm.slot_length]
  omega

theorem compressedImageChunks_in_order
    (hadm : Image.Admissible Image.kCompressedImageChunkDataBytes image) :
    ∃ s, emits Image.subscribeCompressedImageHandler .init (Image.compressedImageChunks image) =
      .ok (s, [image.completed]) := by
  refine payloads_in_order hadm (fun i hi s => ?_)
    (Image.Reassembler.free_of_idle (s := Image.CompressedImageReassembler.init) rfl image)
  rw [Image.chunkPayload_eq]
  exact Image.subscribeCompressedImageHandler_chunk (Image.stampedHeader ..) (hadm.slot_length i) s

end

/-! ### The calls -/

/-- The id a call sends, and what it leaves of the topic's counter: the id it gives, or the
counter's next value. -/
def Numbered (given : Option UInt32) (next frameId next' : UInt32) : Prop :=
  match given with
  | none => frameId = next ∧ next' = next + 1
  | some id => frameId = id ∧ next' = next

/-- A call of admissible length sends its data and capture time under the id it is numbered with. -/
theorem imageCall_sends {μ : Type} {given : Option UInt32 → Option UInt32} {maxBytes : Nat}
    (next : UInt32) (call : ImageCall μ) (h : call.data.length ≤ maxBytes) :
    ∃ next' image, Image.publish given maxBytes next call = (next', some image) ∧
      image.data = call.data ∧ image.stamp = call.stamp ∧
      Numbered (given call.frameId) next image.frameId next' := by
  rw [Image.publish, if_neg (Nat.not_lt.mpr h)]
  unfold Numbered
  cases given call.frameId with
  | none => exact ⟨next + 1, ⟨next, call.stamp, call.data⟩, rfl, rfl, rfl, rfl, rfl⟩
  | some frameId => exact ⟨next, ⟨frameId, call.stamp, call.data⟩, rfl, rfl, rfl, rfl, rfl⟩

/-- The loop sends the chunks of an image in compact form. -/
theorem sendChunks_compact {μ : Type} (accepts : Nat → Bool) (d : Destinations) {dataBytes : Nat}
    {image : Published μ} (hadm : Image.Admissible dataBytes image) (stampBytes : μ → Bytes)
    (hbudget : 10 + (stampBytes image.stamp).length + dataBytes = kMaxPayloadBytes) {fuel : Nat}
    (hfuel : 65535 < fuel) (t : Outgoing) :
    ∃ chunks r, Image.encodeChunks dataBytes (65535 * dataBytes) image.stamp image.frameId
        image.data fuel = some (.ok chunks) ∧
      chunks.map (ChunkStruct.compact stampBytes) =
        Image.chunkPayloads dataBytes (stampBytes image.stamp) image.frameId image.data ∧
      sendChunks accepts d dataBytes (stampBytes image.stamp) image.frameId image.data fuel t =
        some r ∧
      Sends d (chunks.map (ChunkStruct.compact stampBytes)) t r.1 := by
  obtain ⟨chunks, hchunks, hcompact⟩ := Image.encodeChunks_compact hadm.pos hadm.word hadm.length
    stampBytes image.stamp image.frameId hfuel
  refine ⟨chunks, _, hchunks, hcompact,
    sendChunks_eq hadm.pos hadm.word hadm.length image.frameId hfuel t, ?_⟩
  rw [hcompact]
  exact sends_publishChunks hbudget image.frameId image.data t

/-- **The zero-copy path sends what the copying one would.** For every admissible length no size
wraps and the loops end after the count's turns, the datagrams are the encoded frames of the
chunks in compact form, the subscriber's checks pass each, and in order they make the image once.
The chunks are those of the frame id and the capture time that the call sends: the ones given,
unless they are the values that stand for none. Then the id is the next of the topic's counter,
which moves on by one, and the time that of the call. -/
theorem zeroCopy_exact (accepts : Nat → Bool) (d : Destinations) (t : Outgoing) (next : UInt32)
    (now : UInt64) :
    (∀ call : ImageCall Unit, call.data.length ≤ Image.kMaxImageBytes → ∀ fuel, 65535 < fuel →
      SizesExact Image.kImageChunkDataBytes call.data.length ∧ ∃ frameId next' chunks r s,
        Numbered (Image.givenFrameId call.frameId) next frameId next' ∧
        Image.encodeImageChunks frameId call.data fuel = some (.ok chunks) ∧
        publishImageCall accepts d next call fuel t = some (next', r) ∧
        Sends d (chunks.map (ChunkStruct.compact fun _ => [])) t r.1 ∧
        (∀ payload ∈ chunks.map (ChunkStruct.compact fun _ => []),
          PassesChecks Image.kImageChunkHeaderBytes payload) ∧
        emits Image.subscribeImageHandler .init (chunks.map (ChunkStruct.compact fun _ => [])) =
          .ok (s, [⟨frameId, call.data, ()⟩])) ∧
      ∀ call : ImageCall CaptureStamp, call.data.length ≤ Image.kMaxCompressedImageBytes →
        ∀ fuel, 65535 < fuel →
        SizesExact Image.kCompressedImageChunkDataBytes call.data.length ∧
        ∃ frameId next' chunks r s,
          Numbered (Image.givenFrameId call.frameId) next frameId next' ∧
          Image.encodeCompressedImageChunks frameId call.data (captureStamp now call.stamp) fuel =
            some (.ok chunks) ∧
          publishCompressedImageCall accepts d next now call fuel t = some (next', r) ∧
          Sends d (chunks.map (ChunkStruct.compact stampBytes)) t r.1 ∧
          (∀ payload ∈ chunks.map (ChunkStruct.compact stampBytes),
            PassesChecks Image.kCompressedImageChunkHeaderBytes payload) ∧
          emits Image.subscribeCompressedImageHandler .init
              (chunks.map (ChunkStruct.compact stampBytes)) =
            .ok (s, [⟨frameId, call.data, captureStamp now call.stamp⟩]) := by
  constructor
  · intro call hle fuel hfuel
    obtain ⟨next', image, hsends, hdata, -, hid⟩ := imageCall_sends next call hle
    have hadm : Image.Admissible Image.kImageChunkDataBytes image :=
      ⟨by decide, by decide, hdata ▸ hle⟩
    obtain ⟨chunks, r, hchunks, hcompact, hloop, hframes⟩ :=
      sendChunks_compact accepts d hadm (fun _ => []) (by decide) hfuel t
    have hpayloads : chunks.map (ChunkStruct.compact fun _ => []) = Image.imageChunks image := hcompact
    obtain ⟨s, hrun⟩ := imageChunks_in_order hadm
    refine ⟨Image.sizesExact hadm.pos hadm.word hle, image.frameId, next', chunks, r, s,
      hid, hdata ▸ hchunks, ?_, hframes, ?_, ?_⟩
    · rw [publishImageCall, Image.publishImage, hsends]
      exact congrArg (Option.map fun r => (next', r)) hloop
    · rw [hpayloads]
      exact imageChunks_pass hadm
    · rw [hpayloads, hrun, ← hdata]
      rfl
  · intro call hle fuel hfuel
    obtain ⟨next', image, hsends, hdata, hstamp, hid⟩ :=
      imageCall_sends next {call with stamp := captureStamp now call.stamp} hle
    have hadm : Image.Admissible Image.kCompressedImageChunkDataBytes image :=
      ⟨by decide, by decide, hdata ▸ hle⟩
    have hbudget : 10 + (stampBytes image.stamp).length + Image.kCompressedImageChunkDataBytes =
        kMaxPayloadBytes := by
      rw [stampBytes, List.length_append, u64_length]
      rfl
    obtain ⟨chunks, r, hchunks, hcompact, hloop, hframes⟩ :=
      sendChunks_compact accepts d hadm stampBytes hbudget hfuel t
    have hpayloads : chunks.map (ChunkStruct.compact stampBytes) =
        Image.compressedImageChunks image := hcompact
    obtain ⟨s, hrun⟩ := compressedImageChunks_in_order hadm
    refine ⟨Image.sizesExact hadm.pos hadm.word hle, image.frameId, next', chunks, r, s, hid,
      ?_, ?_, hframes, ?_, ?_⟩
    · rw [hdata, hstamp] at hchunks
      exact hchunks
    · rw [publishCompressedImageCall, Image.publishCompressedImage, hsends]
      exact congrArg (Option.map fun r => (next', r)) hloop
    · rw [hpayloads]
      exact compressedImageChunks_pass hadm
    · rw [hpayloads, hrun, Published.completed, hdata, hstamp]

/-- `kAutoFrameId` is not the id that is sent. -/
theorem autoFrameId_differs : ¬ ∀ (frameId : UInt32) (data : Bytes),
    data.length ≤ Image.kMaxImageBytes → ∃ chunks r,
      Image.encodeImageChunks frameId data 65536 = some (.ok chunks) ∧
      publishImageCall (fun _ => true) ⟨7, [⟨1, 2⟩], none⟩ 0 ⟨data, some frameId, ()⟩ 65536 {} =
        some r ∧
      Sends ⟨7, [⟨1, 2⟩], none⟩ (chunks.map (ChunkStruct.compact fun _ => [])) {} r.2.1 := by
  intro h
  obtain ⟨chunks, r, hchunks, hcall, hsends⟩ := h Image.kAutoFrameId [7] (by decide)
  have hlength : [(7 : UInt8)].length ≤ 65535 * Image.kImageChunkDataBytes := by decide
  obtain ⟨emitted, hemitted, hcompact⟩ := Image.encodeChunks_compact (by decide) (by decide) hlength
    (fun _ => []) () Image.kAutoFrameId (Nat.lt_succ_self 65535)
  have hsame : chunks = emitted := by
    have := hchunks.symm.trans hemitted
    simpa using this
  have hrun : publishImageCall (fun _ => true) ⟨7, [⟨1, 2⟩], none⟩ 0
      ⟨[7], some Image.kAutoFrameId, ()⟩ 65536 {} =
        some (1, publishChunks (fun _ => true) ⟨7, [⟨1, 2⟩], none⟩ Image.kImageChunkDataBytes [] 0
          [7] {}) :=
    congrArg (Option.map fun r => (1, r))
      (sendChunks_eq (by decide) (by decide) hlength 0 (Nat.lt_succ_self 65535) {})
  obtain rfl : r = _ := Option.some.inj (hcall.symm.trans hrun)
  rw [hsame, hcompact] at hsends
  obtain ⟨sends, hsent, hframes⟩ := hsends
  have hdrawnSends : Sends ⟨7, [⟨1, 2⟩], none⟩
      (Image.chunkPayloads Image.kImageChunkDataBytes [] 0 [7]) {} _ :=
    @sends_publishChunks (fun _ => true) _ _ _ (by decide) 0 [7] {}
  obtain ⟨drawn, hdrawn, hdrawnFrames⟩ := hdrawnSends
  obtain rfl : sends = drawn := List.append_cancel_left (hsent.symm.trans hdrawn)
  have hboth := hframes.symm.trans hdrawnFrames
  revert hboth
  decide

end Relink.Transport
