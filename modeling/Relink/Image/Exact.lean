import Mathlib.Data.List.Nodup
import Relink.Image.Python

/-! A publisher's images arrive as they were, or not at all.

The two reassemblers of each build, fed with the chunks of one publisher of either build:
chunks may be lost, come twice, and come in any order, those of different frames mixed. -/
namespace Relink.Image
open Wire
open Transition (emits emits_ok ThroughoutOk)

inductive Build where
  | cpp
  | python
deriving DecidableEq

namespace Build

def publishImage : Build → UInt32 → ImageCall Unit → UInt32 × Option (Published Unit)
  | .cpp => Image.publishImage
  | .python => Python.publishImage

def publishCompressedImage :
    Build → UInt32 → ImageCall CaptureStamp → UInt32 × Option (Published CaptureStamp)
  | .cpp => Image.publishCompressedImage
  | .python => Python.publishCompressedImage

def imageChunks : Build → Published Unit → List Bytes
  | .cpp => Image.imageChunks
  | .python => Python.imageChunks

def compressedImageChunks : Build → Published CaptureStamp → List Bytes
  | .cpp => Image.compressedImageChunks
  | .python => Python.compressedImageChunks

end Build

section
variable {μ σ F : Type}

/-- No arrival faults, and whatever the callback gets is an image as it was published under
its frame id, with its stamp. -/
def Exact (images : List (Published μ)) (handler : σ → Bytes → Except F (σ × Option (Completed μ)))
    (init : σ) (arrivals : List Bytes) : Prop :=
  ∃ s delivered, emits handler init arrivals = .ok (s, delivered) ∧
    ∀ c ∈ delivered, ∃ image ∈ images, c = image.completed

theorem exact_of_step {images : List (Published μ)} {chunks : Published μ → List Bytes}
    {handler : σ → Bytes → Except F (σ × Option (Completed μ))} {init : σ} {arrivals : List Bytes}
    (Inv : σ → Prop) (hinit : Inv init)
    (hstep : ∀ s image payload, Inv s → image ∈ images → payload ∈ chunks image →
      ∃ s' out, handler s payload = .ok (s', out) ∧ Inv s' ∧
        ∀ c ∈ out, ∃ image ∈ images, c = image.completed)
    (harrivals : ∀ payload ∈ arrivals, payload ∈ images.flatMap chunks) :
    Exact images handler init arrivals := by
  refine emits_ok Inv (fun _ payload => payload ∈ images.flatMap chunks) _ handler
    (fun s payload hs hpayload => ?_) arrivals init hinit (ThroughoutOk.of_mem ?_ init)
  · obtain ⟨image, himage, hchunk⟩ := List.mem_flatMap.mp hpayload
    exact hstep s image payload hs himage hchunk
  · exact fun payload hpayload _ => harrivals payload hpayload

/-- A call that sends keeps to the limit. -/
theorem length_le_of_publishAll {given : Option UInt32 → Option UInt32} {maxBytes : Nat}
    {calls : List (ImageCall μ)} {next : UInt32} {image : Published μ}
    (h : image ∈ publishAll (publish given maxBytes) next calls) : image.data.length ≤ maxBytes := by
  induction calls generalizing next with
  | nil => exact absurd h List.not_mem_nil
  | cons call rest ih =>
    rcases List.mem_append.mp h with hhere | hrest
    · unfold publish at hhere
      split at hhere
      · exact absurd hhere List.not_mem_nil
      · next hle =>
        split at hhere
        · cases List.mem_singleton.mp hhere
          exact Nat.le_of_not_lt hle
        · cases List.mem_singleton.mp hhere
          exact Nat.le_of_not_lt hle
    · exact ih hrest

end

/-! ### Frames told apart by their ids -/

section
variable {μ : Type} {dataBytes : Nat} {images : List (Published μ)}

/-- The frame in progress is that of one of the images. -/
def OneOf (dataBytes : Nat) (images : List (Published μ)) (s : Reassembler μ) : Prop :=
  s.inProgress = true → ∃ image ∈ images, Holds dataBytes image s

theorem chunkRaw_exact (hadm : ∀ image ∈ images, Admissible dataBytes image)
    (hdistinct : (images.map Published.frameId).Nodup) {s : Reassembler μ}
    (hs : OneOf dataBytes images s) {image : Published μ} (himage : image ∈ images) {i : Nat}
    (hi : i < image.count dataBytes) :
    ∃ s' out, chunkRaw dataBytes s image.frameId (UInt16.ofNat i)
        (chunkCount dataBytes image.data.length) (Slots.slot dataBytes image.data i)
        (UInt16.ofNat (Slots.slot dataBytes image.data i).length) image.stamp = .ok (s', out) ∧
      OneOf dataBytes images s' ∧ ∀ c ∈ out, ∃ image ∈ images, c = image.completed := by
  obtain ⟨s', out, hchunk, hs', hout⟩ := (hadm image himage).chunk (s := s) (fun hprogress hid => by
    -- The frame with this id in progress is this image's.
    obtain ⟨other, hother, hholds⟩ := hs hprogress
    have heq := List.inj_on_of_nodup_map hdistinct hother himage (hholds.current.symm.trans hid)
    exact heq ▸ hholds) hi
  exact ⟨s', out, hchunk, fun hprogress => ⟨image, himage, hs' hprogress⟩,
    fun c hc => ⟨image, himage, hout c hc⟩⟩

/-- The same of the Python reassembler. -/
def Python.OneOf (dataBytes : Nat) (images : List (Published μ)) (s : Python.Reassembler μ) :
    Prop :=
  ∀ frameId, s.currentFrameId = some frameId → ∃ image ∈ images, Python.Holds dataBytes image s

theorem python_chunkRaw_exact (hadm : ∀ image ∈ images, Admissible dataBytes image)
    (hdistinct : (images.map Published.frameId).Nodup) {s : Python.Reassembler μ}
    (hs : Python.OneOf dataBytes images s) {image : Published μ} (himage : image ∈ images) {i : Nat}
    (hi : i < image.count dataBytes) :
    ∃ s' out, Python.chunkRaw s image.frameId (UInt16.ofNat i)
        (chunkCount dataBytes image.data.length) (Slots.slot dataBytes image.data i) image.stamp =
          .ok (s', out) ∧
      Python.OneOf dataBytes images s' ∧ ∀ c ∈ out, ∃ image ∈ images, c = image.completed := by
  obtain ⟨s', out, hchunk, hs', hout⟩ := Python.Admissible.chunk (s := s) (hadm image himage)
    (fun hid => by
      obtain ⟨other, hother, hholds⟩ := hs image.frameId hid
      have heq := List.inj_on_of_nodup_map hdistinct hother himage
        (Option.some.inj (hholds.current.symm.trans hid))
      exact heq ▸ hholds) hi
  exact ⟨s', out, hchunk, fun frameId hid => ⟨image, himage, hs' frameId hid⟩,
    fun c hc => ⟨image, himage, hout c hc⟩⟩

end

/-! ### The four reassemblers -/

section
variable {images : List (Published Unit)} {arrivals : List Bytes}

theorem image_exact (hadm : ∀ image ∈ images, Admissible kImageChunkDataBytes image)
    (hdistinct : (images.map Published.frameId).Nodup)
    (harrivals : ∀ payload ∈ arrivals, payload ∈ images.flatMap imageChunks) :
    Exact images subscribeImageHandler .init arrivals ∧
      Exact images Python.subscribeImageHandler .init arrivals := by
  constructor
  · refine exact_of_step (OneOf kImageChunkDataBytes images) (fun h => nomatch h)
      (fun s image payload hs himage hchunk => ?_) harrivals
    obtain ⟨i, hi, hread⟩ := image_header hchunk (hadm image himage)
    rw [subscribeImageHandler_chunk hread ((hadm image himage).slot_length i)]
    exact chunkRaw_exact hadm hdistinct hs himage hi
  · refine exact_of_step (Python.OneOf kImageChunkDataBytes images) (fun _ h => nomatch h)
      (fun s image payload hs himage hchunk => ?_) harrivals
    obtain ⟨i, hi, hread⟩ := image_header hchunk (hadm image himage)
    rw [Python.subscribeImageHandler_chunk hread ((hadm image himage).slot_length i)]
    exact python_chunkRaw_exact hadm hdistinct hs himage hi

end

section
variable {images : List (Published CaptureStamp)} {arrivals : List Bytes}

theorem compressedImage_exact
    (hadm : ∀ image ∈ images, Admissible kCompressedImageChunkDataBytes image)
    (hdistinct : (images.map Published.frameId).Nodup)
    (harrivals : ∀ payload ∈ arrivals, payload ∈ images.flatMap compressedImageChunks) :
    Exact images subscribeCompressedImageHandler .init arrivals ∧
      Exact images Python.subscribeCompressedImageHandler .init arrivals := by
  constructor
  · refine exact_of_step (OneOf kCompressedImageChunkDataBytes images) (fun h => nomatch h)
      (fun s image payload hs himage hchunk => ?_) harrivals
    obtain ⟨i, hi, hread⟩ := compressedImage_header hchunk (hadm image himage)
    rw [subscribeCompressedImageHandler_chunk hread ((hadm image himage).slot_length i)]
    exact chunkRaw_exact hadm hdistinct hs himage hi
  · refine exact_of_step (Python.OneOf kCompressedImageChunkDataBytes images) (fun _ h => nomatch h)
      (fun s image payload hs himage hchunk => ?_) harrivals
    obtain ⟨i, hi, hread⟩ := compressedImage_header hchunk (hadm image himage)
    rw [Python.subscribeCompressedImageHandler_chunk hread ((hadm image himage).slot_length i)]
    exact python_chunkRaw_exact hadm hdistinct hs himage hi

end

/-! ### Either build publishes -/

theorem Build.admissible {b : Build} {next : UInt32} {calls : List (ImageCall Unit)}
    {image : Published Unit} (h : image ∈ publishAll b.publishImage next calls) :
    Admissible kImageChunkDataBytes image := by
  refine ⟨by decide, by decide, ?_⟩
  cases b with
  | cpp => exact length_le_of_publishAll h
  | python => exact length_le_of_publishAll h

theorem Build.compressed_admissible {b : Build} {next : UInt32}
    {calls : List (ImageCall CaptureStamp)} {image : Published CaptureStamp}
    (h : image ∈ publishAll b.publishCompressedImage next calls) :
    Admissible kCompressedImageChunkDataBytes image := by
  refine ⟨by decide, by decide, ?_⟩
  cases b with
  | cpp => exact length_le_of_publishAll h
  | python => exact length_le_of_publishAll h

theorem Build.imageChunks_eq (b : Build) {image : Published Unit}
    (h : Admissible kImageChunkDataBytes image) : b.imageChunks image = Image.imageChunks image := by
  cases b with
  | cpp => rfl
  | python => exact python_chunkPayloads h.length h.pos _ _

theorem Build.compressedImageChunks_eq (b : Build) {image : Published CaptureStamp}
    (h : Admissible kCompressedImageChunkDataBytes image) :
    b.compressedImageChunks image = Image.compressedImageChunks image := by
  cases b with
  | cpp => rfl
  | python => exact python_chunkPayloads h.length h.pos _ _

/-- **No wrong bytes are delivered** of the images of one publisher under pairwise distinct
frame ids, by either reassembler of either build, whatever of their chunks arrives, how often
and in what order. -/
theorem reassembly_exact (publisher : Build) (next : UInt32) :
    (∀ calls : List (ImageCall Unit),
      let images := publishAll publisher.publishImage next calls
      (images.map Published.frameId).Nodup → ∀ arrivals : List Bytes,
        (∀ payload ∈ arrivals, payload ∈ images.flatMap publisher.imageChunks) →
        Exact images subscribeImageHandler .init arrivals ∧
          Exact images Python.subscribeImageHandler .init arrivals) ∧
    ∀ calls : List (ImageCall CaptureStamp),
      let images := publishAll publisher.publishCompressedImage next calls
      (images.map Published.frameId).Nodup → ∀ arrivals : List Bytes,
        (∀ payload ∈ arrivals, payload ∈ images.flatMap publisher.compressedImageChunks) →
        Exact images subscribeCompressedImageHandler .init arrivals ∧
          Exact images Python.subscribeCompressedImageHandler .init arrivals := by
  constructor
  · intro calls images hdistinct arrivals harrivals
    refine image_exact (fun image => Build.admissible) hdistinct fun payload hpayload => ?_
    obtain ⟨image, himage, hchunk⟩ := List.mem_flatMap.mp (harrivals payload hpayload)
    rw [publisher.imageChunks_eq (Build.admissible himage)] at hchunk
    exact List.mem_flatMap.mpr ⟨image, himage, hchunk⟩
  · intro calls images hdistinct arrivals harrivals
    refine compressedImage_exact (fun image => Build.compressed_admissible) hdistinct
      fun payload hpayload => ?_
    obtain ⟨image, himage, hchunk⟩ := List.mem_flatMap.mp (harrivals payload hpayload)
    rw [publisher.compressedImageChunks_eq (Build.compressed_admissible himage)] at hchunk
    exact List.mem_flatMap.mpr ⟨image, himage, hchunk⟩

/-- Of two images, the second chunk before the first, and that one twice. -/
theorem reassembly_exact_two :
    Exact [⟨0, (), [1, 2, 3]⟩, ⟨7, (), []⟩] subscribeImageHandler .init
        [[7, 0, 0, 0, 0, 0, 1, 0, 0, 0], [0, 0, 0, 0, 0, 0, 1, 0, 3, 0, 1, 2, 3],
          [0, 0, 0, 0, 0, 0, 1, 0, 3, 0, 1, 2, 3]] ∧
      Exact [⟨0, ⟨5, 80⟩, [1]⟩] Python.subscribeCompressedImageHandler .init
        [[0, 0, 0, 0, 0, 0, 1, 0, 1, 0, 5, 0, 0, 0, 0, 0, 0, 0, 80, 1]] :=
  ⟨((reassembly_exact .cpp 0).1 [⟨[1, 2, 3], none, ()⟩, ⟨[], some 7, ()⟩] (by decide) _
      (by decide)).1,
    ((reassembly_exact .python 0).2 [⟨[1], none, ⟨5, 80⟩⟩] (by decide) _ (by decide)).2⟩

end Relink.Image
