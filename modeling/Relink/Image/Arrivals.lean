import Relink.Image.KeyErrors
import Relink.Library.Gather

/-! Which images their arriving chunks complete.

On the chunks of images with distinct frame ids the reassemblers of both builds are one collector:
a chunk of another frame than the one in progress discards it, be that frame newer or older, and a
completed frame is forgotten. So an image whose chunks come twice over is delivered twice, and one
chunk of another frame among its own is enough to lose it. -/
namespace Relink.Image
open Wire
open Gather (Collector gathered Partial CoveredOnce Uninterrupted)
open Slots (slot)
open Transition (emits emits_sim)

section
variable {μ : Type} {dataBytes : Nat}

/-- The chunk with an index, as it is sent. -/
def Published.chunk (dataBytes : Nat) (image : Published μ) (i : Nat) : Chunk μ :=
  ⟨image.frameId, UInt16.ofNat i, chunkCount dataBytes image.data.length,
    slot dataBytes image.data i, image.stamp⟩

/-- `on_chunk_raw` of the C++ build. -/
def onChunkRaw (dataBytes : Nat) (s : Reassembler μ) (x : Chunk μ) :
    Except Buffer.Fault (Reassembler μ × Option (Completed μ)) :=
  chunkRaw dataBytes s x.frameId x.chunkIndex x.chunkCount x.data (UInt16.ofNat x.data.length)
    x.stamp

/-- A run to its end, and what the callback got in it. -/
def Delivers {σ F : Type} (step : σ → Chunk μ → Except F (σ × Option (Completed μ))) (s : σ)
    (arrivals : List (Chunk μ)) (delivered : List (Completed μ)) : Prop :=
  ∃ t, emits step s arrivals = .ok (t, delivered)

/-- No frame is in progress under the image's id. -/
def Reassembler.Free (s : Reassembler μ) (image : Published μ) : Prop :=
  s.inProgress = true → s.currentFrameId ≠ image.frameId

def Python.Reassembler.Free (s : Python.Reassembler μ) (image : Published μ) : Prop :=
  s.currentFrameId ≠ some image.frameId

theorem Reassembler.free_of_idle {s : Reassembler μ} (h : s.inProgress = false)
    (image : Published μ) : s.Free image := fun hbusy =>
  absurd (h.symm.trans hbusy) Bool.false_ne_true

theorem Python.Reassembler.free_of_idle {s : Python.Reassembler μ} (h : s.currentFrameId = none)
    (image : Published μ) : s.Free image := fun hbusy =>
  Option.some_ne_none _ (hbusy.symm.trans h)

end

/-! ### The collector that a reassembler is -/

section
variable {μ : Type} {dataBytes : Nat} {images : List (Published μ)}
  {image : Published μ} {got : Finset Nat}

/-- The frame in progress is the image's, with these chunks. -/
structure Gathers (dataBytes : Nat) (image : Published μ) (got : Finset Nat) (s : Reassembler μ) :
    Prop where
  holds : Holds dataBytes image s
  inProgress : s.inProgress = true
  marks : ∀ i < image.count dataBytes, (s.received.getD i false = true ↔ i ∈ got)
  counted : s.receivedCount = got.card

def Tracks (dataBytes : Nat) (images : List (Published μ)) (s : Reassembler μ) :
    Collector (Published μ) → Prop
  | none => ∀ image ∈ images, s.Free image
  | some (image, got) => image ∈ images ∧ Gathers dataBytes image got s

theorem Admissible.gathers_open (hadm : Admissible dataBytes image) (s : Reassembler μ)
    (hopens : image.frameId ≠ s.currentFrameId ∨ s.inProgress = false) :
    Gathers dataBytes image ∅ (openFrame dataBytes s image.frameId
      (chunkCount dataBytes image.data.length) image.stamp) := by
  rw [openFrame, if_pos hopens]
  refine ⟨hadm.holds_open, rfl, fun i hi => ?_, rfl⟩
  simp only [List.getD_eq_getElem?_getD, List.getElem?_replicate, hadm.count_eq, hi, if_true,
    Option.getD_some, Bool.false_eq_true, Finset.notMem_empty]

/-- One more chunk. -/
theorem Gathers.place {s : Reassembler μ} (h : Gathers dataBytes image got s)
    (hadm : Admissible dataBytes image) {i : Nat} (hi : i < image.count dataBytes) (hnew : i ∉ got) :
    Gathers dataBytes image (insert i got) (s.place dataBytes image i) := by
  have hfree : s.received.getD i false = false :=
    Bool.eq_false_iff.mpr fun hmark => hnew ((h.marks i hi).mp hmark)
  refine ⟨h.holds.mark hadm hi hfree, h.inProgress, fun j hj => ?_, ?_⟩
  · rw [Finset.mem_insert, ← h.marks j hj]
    show (s.received.set i true).getD j false = true ↔ _
    have hin : i < s.received.length := h.holds.slots ▸ hi
    rw [List.getD_eq_getElem?_getD, List.getD_eq_getElem?_getD, List.getElem?_set]
    by_cases hij : i = j
    · subst hij
      simp [hin]
    · rw [if_neg hij]
      exact ⟨Or.inr, fun hor => hor.resolve_left (Ne.symm hij)⟩
  · rw [Finset.card_insert_of_notMem hnew, ← h.counted]
    rfl

variable [DecidableEq μ]

theorem Tracks.opened {s : Reassembler μ} {c : Collector (Published μ)}
    (hs : Tracks dataBytes images s c) (hadm : Admissible dataBytes image)
    (hdistinct : (images.map Published.frameId).Nodup) (himage : image ∈ images) :
    Gathers dataBytes image (gathered c image) (openFrame dataBytes s image.frameId
      (chunkCount dataBytes image.data.length) image.stamp) := by
  cases c with
  | none =>
    refine hadm.gathers_open s ?_
    by_cases hidle : s.inProgress = false
    · exact Or.inr hidle
    · exact Or.inl (hs image himage (Bool.eq_true_of_not_eq_false hidle)).symm
  | some frame =>
    obtain ⟨other, got⟩ := frame
    obtain ⟨hother, hgathers⟩ := hs
    by_cases heq : other = image
    · subst heq
      rw [Gather.gathered_self, openFrame, if_neg]
      · exact hgathers
      · rw [not_or, not_not, hgathers.inProgress]
        exact ⟨hgathers.holds.current.symm, Bool.noConfusion⟩
    · rw [Gather.gathered_ne heq]
      refine hadm.gathers_open s (Or.inl fun hid => heq ?_)
      exact List.inj_on_of_nodup_map hdistinct hother himage
        (hgathers.holds.current.symm.trans hid.symm)

theorem Tracks.step {s : Reassembler μ} {c : Collector (Published μ)}
    (hs : Tracks dataBytes images s c) (hheld : Partial (Published.count dataBytes) c)
    (hadm : ∀ image ∈ images, Admissible dataBytes image)
    (hdistinct : (images.map Published.frameId).Nodup) (himage : image ∈ images) {i : Nat}
    (hi : i < image.count dataBytes) :
    ∃ s', onChunkRaw dataBytes s (image.chunk dataBytes i) = .ok (s',
        (Gather.step (Published.count dataBytes) c (image, i)).2.map Published.completed) ∧
      Tracks dataBytes images s' (Gather.step (Published.count dataBytes) c (image, i)).1 := by
  have hopened := hs.opened (hadm image himage) hdistinct himage
  have hcall := hopened.holds.chunk_eq (hadm image himage) hi
  rw [onChunkRaw, Published.chunk]
  simp only at hcall ⊢
  rw [hcall]
  generalize openFrame dataBytes s image.frameId _ image.stamp = f at hopened
  by_cases hold : i ∈ gathered c image
  · have hcard := (hheld image).2 ⟨i, hold⟩
    rw [Gather.step, Finset.insert_eq_of_mem hold, if_neg (Nat.ne_of_lt hcard),
      if_pos ((hopened.marks i hi).mpr hold)]
    exact ⟨f, rfl, himage, hopened⟩
  · have hplaced := hopened.place (hadm image himage) hi hold
    rw [Gather.step, if_neg fun hmark => hold ((hopened.marks i hi).mp hmark)]
    simp only
    rw [← hplaced.counted]
    have hcount : (f.place dataBytes image i).receivedCount = f.receivedCount + 1 := rfl
    rw [hcount]
    split
    · exact ⟨_, rfl, fun other _ => Reassembler.free_of_idle rfl other⟩
    · exact ⟨_, rfl, himage, hplaced⟩

/-- A handler that the collector describes at every chunk calls back what it completes. -/
theorem delivers_collected {σ F : Type} {step : σ → Chunk μ → Except F (σ × Option (Completed μ))}
    (R : σ → Collector (Published μ) → Prop)
    (hstep : ∀ {s c image i}, R s c → Partial (Published.count dataBytes) c → image ∈ images →
      i < image.count dataBytes → ∃ s', step s (image.chunk dataBytes i) = .ok (s',
          (Gather.step (Published.count dataBytes) c (image, i)).2.map Published.completed) ∧
        R s' (Gather.step (Published.count dataBytes) c (image, i)).1)
    {s : σ} (hs : R s none) {arrivals : List (Published μ × Nat)}
    (harrivals : ∀ x ∈ arrivals, x.1 ∈ images ∧ x.2 < x.1.count dataBytes) :
    Delivers step s (arrivals.map fun x => x.1.chunk dataBytes x.2)
      ((Gather.finished (Published.count dataBytes) none arrivals).map Published.completed) :=
  emits_sim (fun s c => R s c ∧ Partial (Published.count dataBytes) c)
    (fun x => x.1 ∈ images ∧ x.2 < x.1.count dataBytes) _ Published.completed _ _
    (fun s c x hs hx => by
      obtain ⟨s', hcall, hs'⟩ := hstep hs.1 hs.2 hx.1 hx.2
      exact ⟨s', hcall, hs', Gather.partial_step hs.2 hx.2⟩)
    arrivals s none ⟨hs, Gather.partial_none _⟩ harrivals

/-- The callback gets the images that the collector completes. -/
theorem onChunkRaw_run (hadm : ∀ image ∈ images, Admissible dataBytes image)
    (hdistinct : (images.map Published.frameId).Nodup) {s : Reassembler μ}
    (hs : ∀ image ∈ images, s.Free image) {arrivals : List (Published μ × Nat)}
    (harrivals : ∀ x ∈ arrivals, x.1 ∈ images ∧ x.2 < x.1.count dataBytes) :
    Delivers (onChunkRaw dataBytes) s (arrivals.map fun x => x.1.chunk dataBytes x.2)
      ((Gather.finished (Published.count dataBytes) none arrivals).map Published.completed) :=
  delivers_collected (Tracks dataBytes images)
    (fun hs hheld himage hi => hs.step hheld hadm hdistinct himage hi) hs harrivals

end

namespace Python

section
variable {μ : Type} {dataBytes : Nat} {images : List (Published μ)} {image : Published μ}
  {got : Finset Nat}

structure Gathers (dataBytes : Nat) (image : Published μ) (got : Finset Nat) (s : Reassembler μ) :
    Prop where
  holds : Holds dataBytes image s
  keys : s.keys.toFinset = got

def Tracks (dataBytes : Nat) (images : List (Published μ)) (s : Reassembler μ) :
    Collector (Published μ) → Prop
  | none => ∀ image ∈ images, s.Free image
  | some (image, got) => image ∈ images ∧ Gathers dataBytes image got s

theorem Gathers.mem_keys {s : Reassembler μ} (h : Gathers dataBytes image got s) {i : Nat} :
    i ∈ s.keys ↔ i ∈ got := by
  rw [← h.keys, List.mem_toFinset]

theorem Gathers.length_keys {s : Reassembler μ} (h : Gathers dataBytes image got s) :
    s.keys.length = got.card := by
  have hnodup : s.keys.Nodup := h.holds.keys
  rw [← h.keys, List.toFinset_card_of_nodup hnodup]

theorem gathers_open (hadm : Admissible dataBytes image) (s : Reassembler μ)
    (hopens : s.Free image) (i : Nat) :
    Gathers dataBytes image ∅ (s.opened (image.chunk dataBytes i)) := by
  have hother : some (image.chunk dataBytes i).frameId ≠ s.currentFrameId := Ne.symm hopens
  rw [Reassembler.opened, openFrame, if_pos hother]
  exact ⟨⟨rfl, rfl, hadm.count_eq, List.nodup_nil, fun _ _ hmem => absurd hmem List.not_mem_nil⟩,
    rfl⟩

/-- One more piece. -/
theorem Gathers.add {s : Reassembler μ} (h : Gathers dataBytes image got s)
    (hadm : Admissible dataBytes image) {i : Nat} (hi : i < image.count dataBytes) (hnew : i ∉ got) :
    Gathers dataBytes image (insert i got) (s.add (image.chunk dataBytes i)) := by
  have hindex : (image.chunk dataBytes i).chunkIndex.toNat = i := hadm.index hi
  have hfresh : (image.chunk dataBytes i).chunkIndex.toNat ∉ s.keys := by
    rw [hindex, h.mem_keys]
    exact hnew
  refine ⟨⟨h.holds.current, h.holds.stamp, h.holds.count, keys_add_nodup h.holds.keys hfresh,
    fun j piece hmem => ?_⟩, ?_⟩
  · rcases List.mem_append.mp hmem with hold | hnow
    · exact h.holds.pieces j piece hold
    · cases List.mem_singleton.mp hnow
      rw [hindex]
      exact ⟨hi, rfl⟩
  · rw [keys_add, hindex, List.toFinset_append, h.keys, List.toFinset_cons, List.toFinset_nil,
      insert_empty_eq, Finset.union_comm]
    rfl

variable [DecidableEq μ]

theorem Tracks.opened {s : Reassembler μ} {c : Collector (Published μ)}
    (hs : Tracks dataBytes images s c) (hadm : Admissible dataBytes image)
    (hdistinct : (images.map Published.frameId).Nodup) (himage : image ∈ images) (i : Nat) :
    Gathers dataBytes image (gathered c image) (s.opened (image.chunk dataBytes i)) := by
  cases c with
  | none => exact gathers_open hadm s (hs image himage) i
  | some frame =>
    obtain ⟨other, got⟩ := frame
    obtain ⟨hother, hgathers⟩ := hs
    by_cases heq : other = image
    · subst heq
      rw [Gather.gathered_self, Reassembler.opened, openFrame, if_neg]
      · exact hgathers
      · exact not_not.mpr hgathers.holds.current.symm
    · rw [Gather.gathered_ne heq]
      refine gathers_open hadm s (fun hid => heq ?_) i
      exact List.inj_on_of_nodup_map hdistinct hother himage
        (Option.some.inj (hgathers.holds.current.symm.trans hid))

theorem Tracks.step {s : Reassembler μ} {c : Collector (Published μ)}
    (hs : Tracks dataBytes images s c) (hheld : Partial (Published.count dataBytes) c)
    (hadm : ∀ image ∈ images, Admissible dataBytes image)
    (hdistinct : (images.map Published.frameId).Nodup) (himage : image ∈ images) {i : Nat}
    (hi : i < image.count dataBytes) :
    ∃ s', onChunkRaw s (image.chunk dataBytes i) = .ok (s',
        (Gather.step (Published.count dataBytes) c (image, i)).2.map Published.completed) ∧
      Tracks dataBytes images s' (Gather.step (Published.count dataBytes) c (image, i)).1 := by
  have hopened := hs.opened (hadm image himage) hdistinct himage i
  have hindex : (image.chunk dataBytes i).chunkIndex.toNat = i := (hadm image himage).index hi
  rw [onChunkRaw_eq]
  simp only
  generalize s.opened (image.chunk dataBytes i) = f at hopened
  rw [hindex, hopened.length_keys, hopened.holds.count]
  by_cases hold : i ∈ gathered c image
  · have hcard := (hheld image).2 ⟨i, hold⟩
    rw [Gather.step, Finset.insert_eq_of_mem hold, if_neg (Nat.ne_of_lt hcard),
      if_pos (hopened.mem_keys.mpr hold)]
    exact ⟨f, rfl, himage, hopened⟩
  · have hadded := hopened.add (hadm image himage) hi hold
    rw [Gather.step, if_neg fun hkey => hold (hopened.mem_keys.mp hkey)]
    simp only
    rw [Finset.card_insert_of_notMem hold]
    by_cases hfull : (gathered c image).card + 1 = image.count dataBytes
    · have hjoin := hadded.holds.complete (hadm image himage) (by
        rw [← List.length_map (f := Prod.fst), hadded.holds.count, ← hfull]
        exact hadded.length_keys.trans (Finset.card_insert_of_notMem hold))
      rw [hadded.holds.count] at hjoin
      rw [if_pos hfull, if_pos hfull, hjoin, hopened.holds.stamp]
      exact ⟨_, rfl, fun other _ => Reassembler.free_of_idle rfl other⟩
    · rw [if_neg hfull, if_neg hfull]
      exact ⟨_, rfl, himage, hadded⟩

theorem onChunkRaw_run (hadm : ∀ image ∈ images, Admissible dataBytes image)
    (hdistinct : (images.map Published.frameId).Nodup) {s : Reassembler μ}
    (hs : ∀ image ∈ images, s.Free image) {arrivals : List (Published μ × Nat)}
    (harrivals : ∀ x ∈ arrivals, x.1 ∈ images ∧ x.2 < x.1.count dataBytes) :
    Delivers onChunkRaw s (arrivals.map fun x => x.1.chunk dataBytes x.2)
      ((Gather.finished (Published.count dataBytes) none arrivals).map Published.completed) :=
  delivers_collected (Tracks dataBytes images)
    (fun hs hheld himage hi => hs.step hheld hadm hdistinct himage hi) hs harrivals

end

end Python

section
variable {μ σ F : Type} {step : σ → Chunk μ → Except F (σ × Option (Completed μ))} {s : σ}
  {arrivals : List (Chunk μ)} {delivered : List (Completed μ)}

/-- A run has one outcome. -/
theorem Delivers.iff (h : Delivers step s arrivals delivered) (delivered' : List (Completed μ)) :
    Delivers step s arrivals delivered' ↔ delivered' = delivered := by
  obtain ⟨t, ht⟩ := h
  constructor
  · rintro ⟨t', ht'⟩
    cases ht.symm.trans ht'
    rfl
  · rintro rfl
    exact ⟨t, ht⟩

end

/-! ### An image alone -/

section Alone
variable {μ : Type} {dataBytes : Nat}

/-- Every chunk of an admissible image arrives, and no other does. -/
structure ArrivesAlone (dataBytes : Nat) (image : Published μ) (is : List Nat) : Prop where
  length : image.data.length ≤ 65535 * dataBytes
  own : ∀ i ∈ is, i < image.count dataBytes
  each : ∀ i < image.count dataBytes, i ∈ is

variable [DecidableEq μ] {image : Published μ} {is : List Nat}

theorem finished_completed_iff (h : ArrivesAlone dataBytes image is) :
    [image.completed] = (Gather.finished (Published.count dataBytes) none
        (is.map (image, ·))).map Published.completed ↔ CoveredOnce (image.count dataBytes) is := by
  have hpos := image.count_pos dataBytes
  have hheld := Gather.partial_none (Published.count (μ := μ) dataBytes)
  have hcovers : Gather.Covers (image.count dataBytes) ∅ is := fun i hi => Or.inr (h.each i hi)
  obtain ⟨_, hsome⟩ := Gather.finished_alone (f := image) hheld hpos h.own
  obtain ⟨_, rest, _, _, _, hfinished⟩ := hsome hcovers
  rw [← Gather.finished_eq_singleton_iff (Gather.gathered_none image) hheld hpos h.own hcovers,
    hfinished, List.map_cons, List.cons.injEq, List.cons.injEq, eq_comm (a := []),
    List.map_eq_nil_iff]
  exact and_congr_left fun _ => iff_of_true rfl rfl

theorem alone_iff (hpos : 0 < dataBytes) (hword : dataBytes < 65536)
    (h : ArrivesAlone dataBytes image is) :
    (∀ s : Reassembler μ, s.Free image →
        (Delivers (onChunkRaw dataBytes) s (is.map (image.chunk dataBytes)) [image.completed] ↔
          CoveredOnce (image.count dataBytes) is)) ∧
      ∀ s : Python.Reassembler μ, s.Free image →
        (Delivers Python.onChunkRaw s (is.map (image.chunk dataBytes)) [image.completed] ↔
          CoveredOnce (image.count dataBytes) is) := by
  have hadm : ∀ other ∈ [image], Admissible dataBytes other := fun other hother =>
    List.mem_singleton.mp hother ▸ ⟨hpos, hword, h.length⟩
  have harrivals : ∀ x ∈ is.map (image, ·), x.1 ∈ [image] ∧ x.2 < x.1.count dataBytes := by
    intro x hx
    obtain ⟨i, hi, rfl⟩ := List.mem_map.mp hx
    exact ⟨List.mem_cons_self, h.own i hi⟩
  have hchunks : (is.map (image, ·)).map (fun x => x.1.chunk dataBytes x.2) =
      is.map (image.chunk dataBytes) := List.map_map
  rw [← finished_completed_iff h]
  constructor
  · intro s hs
    have hrun := onChunkRaw_run hadm (List.nodup_singleton _) (s := s)
      (fun other hother => List.mem_singleton.mp hother ▸ hs) harrivals
    rw [hchunks] at hrun
    exact hrun.iff _
  · intro s hs
    have hrun := Python.onChunkRaw_run hadm (List.nodup_singleton _) (s := s)
      (fun other hother => List.mem_singleton.mp hother ▸ hs) harrivals
    rw [hchunks] at hrun
    exact hrun.iff _

end Alone

/-- **An image is delivered once** exactly if its chunks do not come twice over: a completed frame
is forgotten, and what repeats it starts it anew. -/
theorem delivered_once_iff (image : Published Unit) (compressed : Published CaptureStamp)
    (is : List Nat) :
    (ArrivesAlone kImageChunkDataBytes image is →
      (∀ s : ImageReassembler, s.Free image →
        (Delivers (onChunkRaw kImageChunkDataBytes) s (is.map (image.chunk kImageChunkDataBytes))
            [image.completed] ↔ CoveredOnce (image.count kImageChunkDataBytes) is)) ∧
        ∀ s : Python.ImageReassembler, s.Free image →
          (Delivers Python.onChunkRaw s (is.map (image.chunk kImageChunkDataBytes))
            [image.completed] ↔ CoveredOnce (image.count kImageChunkDataBytes) is)) ∧
      (ArrivesAlone kCompressedImageChunkDataBytes compressed is →
        (∀ s : CompressedImageReassembler, s.Free compressed →
          (Delivers (onChunkRaw kCompressedImageChunkDataBytes) s
              (is.map (compressed.chunk kCompressedImageChunkDataBytes)) [compressed.completed] ↔
            CoveredOnce (compressed.count kCompressedImageChunkDataBytes) is)) ∧
        ∀ s : Python.CompressedImageReassembler, s.Free compressed →
          (Delivers Python.onChunkRaw s (is.map (compressed.chunk kCompressedImageChunkDataBytes))
              [compressed.completed] ↔
            CoveredOnce (compressed.count kCompressedImageChunkDataBytes) is)) :=
  ⟨fun h => alone_iff (by decide) (by decide) h, fun h => alone_iff (by decide) (by decide) h⟩

/-- One chunk, received at two addresses. -/
theorem twice_delivered : ¬ ∀ (image : Published Unit) (is : List Nat),
    ArrivesAlone kImageChunkDataBytes image is →
      Delivers (onChunkRaw kImageChunkDataBytes) ImageReassembler.init
          (is.map (image.chunk kImageChunkDataBytes)) [image.completed] ∧
        Delivers Python.onChunkRaw Python.ImageReassembler.init
          (is.map (image.chunk kImageChunkDataBytes)) [image.completed] := by
  intro h
  have halone : ArrivesAlone kImageChunkDataBytes ⟨0, (), [7]⟩ [0, 0] := by
    refine ⟨by decide, by decide, fun i hi => ?_⟩
    have hone : (⟨0, (), [7]⟩ : Published Unit).count kImageChunkDataBytes = 1 := by decide
    rw [hone] at hi
    rw [Nat.lt_one_iff.mp hi]
    exact List.mem_cons_self
  have honce := ((alone_iff (by decide) (by decide) halone).1 ImageReassembler.init
    (Reassembler.free_of_idle rfl _)).mp (h _ _ halone).1
  exact honce ⟨[0], [0], rfl, by decide, by decide⟩

/-! ### An image among older ones -/

section Among
variable {μ : Type} {dataBytes : Nat}

/-- Chunks of one publisher's frames arrive, none twice, and all of the newest frame. -/
structure ArrivesAmong (dataBytes : Nat) (older : List (Published μ)) (newest : Published μ)
    (arrivals : List (Published μ × Nat)) : Prop where
  length : ∀ image ∈ older ++ [newest], image.data.length ≤ 65535 * dataBytes
  increasing : ((older ++ [newest]).map Published.frameId).Pairwise (· < ·)
  own : ∀ x ∈ arrivals, x.1 ∈ older ++ [newest] ∧ x.2 < x.1.count dataBytes
  once : arrivals.Nodup
  whole : ∀ i < newest.count dataBytes, (newest, i) ∈ arrivals

/-- The callback is invoked for the frame. -/
def CalledFor {σ F : Type} (step : σ → Chunk μ → Except F (σ × Option (Completed μ))) (s : σ)
    (arrivals : List (Chunk μ)) (image : Published μ) : Prop :=
  ∃ delivered, Delivers step s arrivals delivered ∧ ∃ c ∈ delivered, c.frameId = image.frameId

variable {older : List (Published μ)} {newest : Published μ} {arrivals : List (Published μ × Nat)}

theorem ArrivesAmong.distinct (h : ArrivesAmong dataBytes older newest arrivals) :
    ((older ++ [newest]).map Published.frameId).Nodup :=
  List.Pairwise.imp (fun hlt => UInt32.ne_of_lt hlt) h.increasing

variable [DecidableEq μ]

/-- What is delivered under the frame's id is the frame. -/
theorem ArrivesAmong.calledFor_iff {σ F : Type}
    {step : σ → Chunk μ → Except F (σ × Option (Completed μ))} {s : σ}
    (h : ArrivesAmong dataBytes older newest arrivals)
    (hrun : Delivers step s (arrivals.map fun x => x.1.chunk dataBytes x.2)
      ((Gather.finished (Published.count dataBytes) none arrivals).map Published.completed)) :
    CalledFor step s (arrivals.map fun x => x.1.chunk dataBytes x.2) newest ↔
      Uninterrupted newest arrivals := by
  rw [← Gather.mem_finished_iff (newest.count_pos dataBytes) h.once (fun x hx => (h.own x hx).2)
    h.whole]
  constructor
  · rintro ⟨delivered, hdelivered, c, hc, hid⟩
    rw [(hrun.iff _).mp hdelivered] at hc
    obtain ⟨image, hmem, rfl⟩ := List.mem_map.mp hc
    have himage : image ∈ older ++ [newest] := by
      obtain ⟨i, hi⟩ := Gather.exists_mem_of_mem_finished hmem
      exact (h.own _ hi).1
    rwa [← List.inj_on_of_nodup_map h.distinct himage
      (List.mem_append_right _ List.mem_cons_self) hid]
  · intro hmem
    exact ⟨_, hrun, newest.completed, List.mem_map_of_mem hmem, rfl⟩

theorem among_iff (hpos : 0 < dataBytes) (hword : dataBytes < 65536)
    (h : ArrivesAmong dataBytes older newest arrivals) :
    (∀ s : Reassembler μ, (∀ image ∈ older ++ [newest], s.Free image) →
        (CalledFor (onChunkRaw dataBytes) s (arrivals.map fun x => x.1.chunk dataBytes x.2) newest ↔
          Uninterrupted newest arrivals)) ∧
      ∀ s : Python.Reassembler μ, (∀ image ∈ older ++ [newest], s.Free image) →
        (CalledFor Python.onChunkRaw s (arrivals.map fun x => x.1.chunk dataBytes x.2) newest ↔
          Uninterrupted newest arrivals) := by
  have hadm : ∀ image ∈ older ++ [newest], Admissible dataBytes image := fun image himage =>
    ⟨hpos, hword, h.length image himage⟩
  exact ⟨fun _ hs => h.calledFor_iff (onChunkRaw_run hadm h.distinct hs h.own),
    fun _ hs => h.calledFor_iff (Python.onChunkRaw_run hadm h.distinct hs h.own)⟩

end Among

/-- **The newest frame is delivered** exactly if no chunk of another comes between its own: the
reassemblers ask whether a frame id differs, not whether it is newer. -/
theorem newest_delivered_iff (older : List (Published Unit)) (newest : Published Unit)
    (arrivals : List (Published Unit × Nat)) (olderCompressed : List (Published CaptureStamp))
    (newestCompressed : Published CaptureStamp)
    (arrivalsCompressed : List (Published CaptureStamp × Nat)) :
    (ArrivesAmong kImageChunkDataBytes older newest arrivals →
      (∀ s : ImageReassembler, (∀ image ∈ older ++ [newest], s.Free image) →
        (CalledFor (onChunkRaw kImageChunkDataBytes) s
            (arrivals.map fun x => x.1.chunk kImageChunkDataBytes x.2) newest ↔
          Uninterrupted newest arrivals)) ∧
        ∀ s : Python.ImageReassembler, (∀ image ∈ older ++ [newest], s.Free image) →
          (CalledFor Python.onChunkRaw s
              (arrivals.map fun x => x.1.chunk kImageChunkDataBytes x.2) newest ↔
            Uninterrupted newest arrivals)) ∧
      (ArrivesAmong kCompressedImageChunkDataBytes olderCompressed newestCompressed
          arrivalsCompressed →
        (∀ s : CompressedImageReassembler,
          (∀ image ∈ olderCompressed ++ [newestCompressed], s.Free image) →
          (CalledFor (onChunkRaw kCompressedImageChunkDataBytes) s
              (arrivalsCompressed.map fun x => x.1.chunk kCompressedImageChunkDataBytes x.2)
              newestCompressed ↔
            Uninterrupted newestCompressed arrivalsCompressed)) ∧
          ∀ s : Python.CompressedImageReassembler,
            (∀ image ∈ olderCompressed ++ [newestCompressed], s.Free image) →
            (CalledFor Python.onChunkRaw s
                (arrivalsCompressed.map fun x => x.1.chunk kCompressedImageChunkDataBytes x.2)
                newestCompressed ↔
              Uninterrupted newestCompressed arrivalsCompressed)) :=
  ⟨fun h => among_iff (by decide) (by decide) h, fun h => among_iff (by decide) (by decide) h⟩

/-- A late chunk of frame 0 between the two of frame 1. -/
theorem late_chunk_destroys : ¬ ∀ (older : List (Published Unit)) (newest : Published Unit)
    (arrivals : List (Published Unit × Nat)),
    ArrivesAmong kImageChunkDataBytes older newest arrivals →
      CalledFor (onChunkRaw kImageChunkDataBytes) ImageReassembler.init
          (arrivals.map fun x => x.1.chunk kImageChunkDataBytes x.2) newest ∧
        CalledFor Python.onChunkRaw Python.ImageReassembler.init
          (arrivals.map fun x => x.1.chunk kImageChunkDataBytes x.2) newest := by
  intro h
  let old : Published Unit := ⟨0, (), [7]⟩
  let new : Published Unit := ⟨1, (), List.replicate 1391 7⟩
  have hcount : new.count kImageChunkDataBytes = 2 := by
    rw [Published.count, List.length_replicate]
    decide
  have hne : old ≠ new := fun heq => by cases congrArg Published.frameId heq
  have hamong : ArrivesAmong kImageChunkDataBytes [old] new [(new, 0), (old, 0), (new, 1)] := by
    refine ⟨?_, by decide, ?_, ?_, fun i hi => ?_⟩
    · simp only [List.cons_append, List.nil_append, List.forall_mem_cons]
      refine ⟨by decide, ?_, fun _ h => nomatch h⟩
      rw [List.length_replicate]
      decide
    · have hold : old.count kImageChunkDataBytes = 1 := by decide
      simp [hcount, hold]
    · simp [hne.symm, hne]
    · rw [hcount] at hi
      rcases (by omega : i = 0 ∨ i = 1) with rfl | rfl
      · exact List.mem_cons_self
      · exact List.mem_cons_of_mem _ (List.mem_cons_of_mem _ List.mem_cons_self)
  obtain ⟨before, own, after, heq, hbefore, hown, hafter⟩ :=
    ((among_iff (by decide) (by decide) hamong).1 ImageReassembler.init
      fun other _ => Reassembler.free_of_idle rfl other).mp (h _ _ _ hamong).1
  cases before with
  | cons x before =>
    obtain ⟨rfl, _⟩ := List.cons.inj heq
    exact hbefore _ List.mem_cons_self rfl
  | nil =>
    match own, heq with
    | [], heq =>
      rw [List.nil_append, List.nil_append] at heq
      exact hafter (new, 0) (heq ▸ List.mem_cons_self) rfl
    | [x], heq =>
      have hrest : [(old, 0), (new, 1)] = after := (List.cons.inj heq).2
      exact hafter (new, 1) (hrest ▸ List.mem_cons_of_mem _ List.mem_cons_self) rfl
    | x :: y :: own, heq =>
      obtain ⟨rfl, _⟩ := List.cons.inj (List.cons.inj heq).2
      exact hne (hown _ (List.mem_cons_of_mem _ List.mem_cons_self))

end Relink.Image
