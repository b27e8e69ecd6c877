import Relink.Image.Exact

/-! Several publishers of one topic.

Each node numbers its images from zero, and a subscriber's reassembler goes by the number
alone. So two publishers' frames with one number are one frame to it: chunks of both fill
its slots. -/
namespace Relink.Image
open LittleEndian Wire
open Transition (emits emits_ok emits_view ThroughoutOk)

/-- What nodes publish on a topic, the images of each in turn, under ids of its own counter. -/
def publishedBy (nodes : List (List Bytes)) : List (Published Unit) :=
  nodes.flatMap fun images =>
    publishAll publishImage 0 (images.map fun data => ⟨data, none, ()⟩)

/-- A chunk datagram on its way, and the image that it was cut from. -/
structure Arrival where
  image : Published Unit
  payload : Bytes
deriving DecidableEq

def Sent (nodes : List (List Bytes)) (a : Arrival) : Prop :=
  a.image ∈ publishedBy nodes ∧ a.payload ∈ imageChunks a.image

/-- The reassembler of a subscriber, and the image whose chunk has opened its frame. -/
structure Subscriber where
  reassembler : ImageReassembler := .init
  opener : Option (Published Unit) := none

/-- A chunk with this id discards what is in progress. -/
def Opens (s : ImageReassembler) (frameId : UInt32) : Prop :=
  frameId ≠ s.currentFrameId ∨ s.inProgress = false

instance (s : ImageReassembler) (frameId : UInt32) : Decidable (Opens s frameId) :=
  inferInstanceAs (Decidable (_ ∨ _))

def Subscriber.receive (s : Subscriber) (a : Arrival) :
    Except Buffer.Fault (Subscriber × Option (Completed Unit)) :=
  (subscribeImageHandler s.reassembler a.payload).map fun r =>
    (⟨r.1, if Opens s.reassembler a.image.frameId then some a.image else s.opener⟩, r.2)

/-- A chunk that would fill a slot of a frame in progress is the opener's. -/
def Unmixed (s : Subscriber) (a : Arrival) : Prop :=
  ¬ Opens s.reassembler a.image.frameId →
    s.reassembler.received[(readU16 4 a.payload).toNat]? = some false →
      ∃ image ∈ s.opener, a.payload ∈ imageChunks image

/-- What is in progress is the opener's. -/
def OfOpener (images : List (Published Unit)) (s : Subscriber) : Prop :=
  s.reassembler.inProgress = true →
    ∃ image ∈ images, s.opener = some image ∧ Holds kImageChunkDataBytes image s.reassembler

theorem publishedBy_admissible {nodes : List (List Bytes)} {image : Published Unit}
    (h : image ∈ publishedBy nodes) : Admissible kImageChunkDataBytes image := by
  obtain ⟨images, _, himage⟩ := List.mem_flatMap.mp h
  exact Build.admissible (b := .cpp) himage

section
variable {images : List (Published Unit)} {s : Subscriber} {a : Arrival}

/-- A chunk of an image that opens a frame, or that is in progress. -/
theorem OfOpener.chunk (hadm : ∀ image ∈ images, Admissible kImageChunkDataBytes image)
    {image : Published Unit} (himage : image ∈ images) (hchunk : a.payload ∈ imageChunks image)
    (hs : s.reassembler.inProgress = true → s.reassembler.currentFrameId = image.frameId →
      Holds kImageChunkDataBytes image s.reassembler)
    (hopener : (if Opens s.reassembler a.image.frameId then some a.image else s.opener) =
      some image) :
    ∃ s' out, s.receive a = .ok (s', out) ∧ OfOpener images s' ∧
      ∀ c ∈ out, ∃ image ∈ images, c.image = image.data := by
  obtain ⟨i, hi, hread⟩ := image_header hchunk (hadm image himage)
  obtain ⟨s', out, hstep, hs', hout⟩ := (hadm image himage).chunk hs hi
  have hhandler : subscribeImageHandler s.reassembler a.payload = .ok (s', out) := by
    rw [subscribeImageHandler_chunk hread ((hadm image himage).slot_length i)]
    exact hstep
  refine ⟨⟨s', some image⟩, out, ?_, fun hprogress => ⟨image, himage, rfl, hs' hprogress⟩,
    fun c hc => ⟨image, himage, ?_⟩⟩
  · rw [Subscriber.receive, hhandler, hopener]
    rfl
  · rw [hout c hc]
    rfl

/-- A chunk whose slot is filled, or that has none, is passed over. -/
theorem Subscriber.receive_ignored {image : Published Unit}
    (hadm : Admissible kImageChunkDataBytes image) (hchunk : a.payload ∈ imageChunks image)
    (himage : a.image = image) (hcontinues : ¬ Opens s.reassembler image.frameId)
    (hfilled : s.reassembler.received[(readU16 4 a.payload).toNat]? ≠ some false) :
    s.receive a = .ok (s, none) := by
  obtain ⟨i, hi, hread⟩ := image_header hchunk hadm
  have hstays : openFrame kImageChunkDataBytes s.reassembler image.frameId
      (chunkCount kImageChunkDataBytes image.data.length) () = s.reassembler :=
    if_neg hcontinues
  have hpassed : s.reassembler.received.length ≤ (UInt16.ofNat i).toNat ∨
      s.reassembler.received.getD (UInt16.ofNat i).toNat false = true := by
    rw [hread.index] at hfilled
    by_contra hnot
    obtain ⟨hin, hfree⟩ := not_or.mp hnot
    have hget := List.getElem?_eq_getElem (Nat.lt_of_not_le hin)
    rw [List.getD_eq_getElem?_getD, hget, Option.getD_some] at hfree
    rw [hget, Bool.eq_false_iff.mpr hfree] at hfilled
    exact hfilled rfl
  have hhandler : subscribeImageHandler s.reassembler a.payload = .ok (s.reassembler, none) := by
    rw [subscribeImageHandler_chunk hread (hadm.slot_length i), chunkRaw]
    simp only [hstays]
    rw [if_pos hpassed]
  rw [Subscriber.receive, hhandler, himage, if_neg hcontinues]
  rfl

theorem OfOpener.receive (hadm : ∀ image ∈ images, Admissible kImageChunkDataBytes image)
    (hs : OfOpener images s) (himage : a.image ∈ images) (hchunk : a.payload ∈ imageChunks a.image)
    (hunmixed : Unmixed s a) :
    ∃ s' out, s.receive a = .ok (s', out) ∧ OfOpener images s' ∧
      ∀ c ∈ out, ∃ image ∈ images, c.image = image.data := by
  by_cases hopens : Opens s.reassembler a.image.frameId
  · refine OfOpener.chunk hadm himage hchunk (fun hprogress hid => ?_) (if_pos hopens)
    rcases hopens with hother | hidle
    · exact absurd hid.symm hother
    · exact absurd (hidle.symm.trans hprogress) (by decide)
  · obtain ⟨hid, hprogress⟩ := not_or.mp hopens
    obtain ⟨image, hmem, hopener, hholds⟩ := hs (Bool.eq_true_of_not_eq_false hprogress)
    by_cases hfills : s.reassembler.received[(readU16 4 a.payload).toNat]? = some false
    · obtain ⟨image', himage', hchunk'⟩ := hunmixed hopens hfills
      cases hopener.symm.trans himage'
      exact OfOpener.chunk hadm hmem hchunk' (fun _ _ => hholds) ((if_neg hopens).trans hopener)
    · exact ⟨s, none, s.receive_ignored (hadm _ himage) hchunk rfl hopens hfills, hs,
        fun c hc => nomatch hc⟩

end

/-- **Images are not mixed** in a run in which every chunk that would fill a slot of a frame
in progress is one of the image whose chunk opened it, however many nodes publish and however
their chunks come. -/
theorem images_not_mixed (nodes : List (List Bytes)) (arrivals : List Arrival)
    (hsent : ∀ a ∈ arrivals, Sent nodes a)
    (hunmixed : ThroughoutOk Subscriber.receive Unmixed {} arrivals) :
    ∃ s delivered,
      emits subscribeImageHandler .init (arrivals.map Arrival.payload) = .ok (s, delivered) ∧
      ∀ c ∈ delivered, ∃ image ∈ publishedBy nodes, c.image = image.data := by
  have hboth : ThroughoutOk Subscriber.receive (fun s a => Sent nodes a ∧ Unmixed s a) {}
      arrivals := (ThroughoutOk.of_mem (fun a ha _ => hsent a ha) _).and hunmixed
  obtain ⟨s, delivered, hemits, hall⟩ := emits_ok (OfOpener (publishedBy nodes)) _
    (fun c => ∃ image ∈ publishedBy nodes, c.image = image.data) Subscriber.receive
    (fun s a hs ha => hs.receive (fun _ => publishedBy_admissible) ha.1.1 ha.1.2 ha.2) arrivals {}
    (fun h => nomatch h) hboth
  refine ⟨s.reassembler, delivered, ?_, hall⟩
  have hview : emits subscribeImageHandler .init (arrivals.map Arrival.payload) =
      (emits Subscriber.receive {} arrivals).map fun r => (r.1.reassembler, r.2) := by
    refine emits_view Subscriber.receive subscribeImageHandler Subscriber.reassembler
      Arrival.payload (fun s a => ?_) arrivals {}
    rw [Subscriber.receive]
    cases subscribeImageHandler s.reassembler a.payload <;> rfl
  rw [hview, hemits]
  rfl

/-! Two nodes publish an image each, of two chunks. -/

instance (nodes : List (List Bytes)) (a : Arrival) : Decidable (Sent nodes a) :=
  inferInstanceAs (Decidable (_ ∧ _))

instance (s : Subscriber) (a : Arrival) : Decidable (Unmixed s a) :=
  inferInstanceAs (Decidable (_ → _ → _))

/-- Node 0 and node 1. -/
def twoNodes : List (List Bytes) := [[List.replicate 1391 10], [List.replicate 1391 20]]

/-- A chunk of node 0's image, or of node 1's. -/
def chunkOf (byte : UInt8) (i : Nat) : Arrival :=
  let image : Published Unit := ⟨0, (), List.replicate 1391 byte⟩
  ⟨image, (imageChunks image).getD i []⟩

/-- One after the other. -/
theorem images_not_mixed_in_turn :
    ∃ s delivered, emits subscribeImageHandler .init
        ([chunkOf 10 1, chunkOf 10 0, chunkOf 20 0, chunkOf 20 1].map Arrival.payload) =
          .ok (s, delivered) ∧
      ∀ c ∈ delivered, ∃ image ∈ publishedBy twoNodes, c.image = image.data :=
  images_not_mixed twoNodes _ (by decide +kernel) (by decide +kernel)

/-- The first chunk of one and the second of the other are delivered as an image. -/
theorem two_publishers_mixed :
    (∀ a ∈ [chunkOf 10 0, chunkOf 20 1], Sent twoNodes a) ∧
      ((emits subscribeImageHandler .init
        ([chunkOf 10 0, chunkOf 20 1].map Arrival.payload)).toOption.map Prod.snd) =
          some [⟨0, List.replicate 1390 10 ++ [20], ()⟩] ∧
      ∀ image ∈ publishedBy twoNodes, image.data ≠ List.replicate 1390 10 ++ [20] := by
  decide +kernel

end Relink.Image
