import Mathlib.Algebra.Order.BigOperators.Group.List
import Mathlib.LinearAlgebra.AffineSpace.Ordered
import Relink.Library.Rounding
import Relink.Library.Run

/-! The bitrate controller.

`AdaptiveBitrateController` turns the motion of a frame and the bytes sent in a window into a JPEG
quality. Its `double`s are exact numbers here. Each call moves the quality a part of the way to a
target that lies between the configured bounds and is the lower the more motion there is, so that
`quality_bounded_monotone` holds of every sequence of calls. -/
namespace Relink.Bitrate
open Rounding Transition

/-- `AdaptiveBitrateConfig`; a target of 0 bits per second or less is none. -/
structure Config where
  qualityMin : ℤ := 20
  qualityMax : ℤ := 80
  motionCeiling : ℚ := 30
  targetBitrateBps : ℚ := 0
  windowSec : ℚ := 1
  smoothing : ℚ := 3 / 10
deriving DecidableEq

structure Sample where
  t : ℚ
  bytes : UInt64
deriving DecidableEq

structure Controller where
  cfg : Config
  quality : ℚ
  history : List Sample
deriving DecidableEq

/-- The constructor; nothing if it throws. -/
def construct (cfg : Config) : Option Controller :=
  if ¬(0 ≤ cfg.qualityMin ∧ cfg.qualityMin ≤ cfg.qualityMax ∧ cfg.qualityMax ≤ 100) then none
  else if ¬(0 < cfg.smoothing ∧ cfg.smoothing ≤ 1) then none
  else some ⟨{cfg with motionCeiling := max (1 / 1000000) cfg.motionCeiling}, cfg.qualityMax, []⟩

namespace Controller
variable (c : Controller)

def recordSent (numBytes : UInt64) (now : ℚ) : Controller :=
  {c with history := c.history ++ [⟨now, numBytes⟩]}

def motionQuality (motion : ℚ) : ℚ :=
  let frac := max 0 (min 1 (motion / c.cfg.motionCeiling))
  c.cfg.qualityMax - frac * (c.cfg.qualityMax - c.cfg.qualityMin)

/-- What is left of the history once `bitrate_scale` has looked at the front of it. -/
def pruned (now : ℚ) : List Sample := c.history.dropWhile fun s => s.t < now - c.cfg.windowSec

/-- A `size_t` sum. -/
def totalBytes (history : List Sample) : UInt64 := history.foldl (fun total s => total + s.bytes) 0

/-- The scale of so many bytes in a window. -/
def scaleOf (cfg : Config) (totalBytes : ℕ) : ℚ :=
  if totalBytes = 0 then 1
  else
    let currentBps := totalBytes * 8 / cfg.windowSec
    if currentBps ≤ cfg.targetBitrateBps then 1 else max 0 (cfg.targetBitrateBps / currentBps)

def bitrateScale (now : ℚ) : Controller × ℚ :=
  if c.cfg.targetBitrateBps ≤ 0 then (c, 1)
  else ({c with history := c.pruned now}, scaleOf c.cfg (totalBytes (c.pruned now)).toNat)

/-- The smoothed quality, within its bounds. -/
def smoothed (motion scale : ℚ) : ℚ :=
  let target := c.cfg.qualityMin + (c.motionQuality motion - c.cfg.qualityMin) * scale
  let quality := c.quality + (target - c.quality) * c.cfg.smoothing
  max c.cfg.qualityMin (min c.cfg.qualityMax quality)

def currentQuality : ℤ := truncate (c.quality + 1 / 2)

def nextQuality (motion now : ℚ) : Controller × ℤ :=
  let (c, scale) := c.bitrateScale now
  let c := {c with quality := c.smoothed motion scale}
  (c, c.currentQuality)

end Controller

inductive Call where
  | recordSent (numBytes : UInt64) (now : ℚ)
  | nextQuality (motion now : ℚ)
deriving DecidableEq

/-- A call, and the quality if it returns one. -/
def step (c : Controller) : Call → Controller × Option ℤ
  | .recordSent numBytes now => (c.recordSent numBytes now, none)
  | .nextQuality motion now => ((c.nextQuality motion now).1, some (c.nextQuality motion now).2)

def run (c : Controller) (calls : List Call) : Controller :=
  calls.foldl (fun c call => (step c call).1) c

/-- The qualities that the calls return. -/
def qualities (c : Controller) (calls : List Call) : List ℤ := (outputs step c calls).reduceOption

/-! ### The bounds -/

/-- What the constructor has checked. -/
structure Config.Valid (cfg : Config) : Prop where
  min_nonneg : 0 ≤ cfg.qualityMin
  min_le_max : cfg.qualityMin ≤ cfg.qualityMax
  smoothing_pos : 0 < cfg.smoothing
  smoothing_le : cfg.smoothing ≤ 1
  ceiling_pos : 0 < cfg.motionCeiling

/-- The quality is within its bounds. -/
structure Bounded (c : Controller) : Prop where
  valid : c.cfg.Valid
  low : c.cfg.qualityMin ≤ c.quality
  high : c.quality ≤ c.cfg.qualityMax

theorem construct_eq {cfg : Config} {c : Controller} (h : construct cfg = some c) :
    c = ⟨{cfg with motionCeiling := max (1 / 1000000) cfg.motionCeiling}, cfg.qualityMax, []⟩ ∧
      c.cfg.Valid := by
  unfold construct at h
  split at h
  · cases h
  next hrange =>
  split at h
  · cases h
  next hsmoothing =>
  cases h
  obtain ⟨hmin, hmax, _⟩ := not_not.mp hrange
  obtain ⟨hpos, hle⟩ := not_not.mp hsmoothing
  exact ⟨rfl, hmin, hmax, hpos, hle, lt_max_of_lt_left (by norm_num)⟩

theorem bounded_construct {cfg : Config} {c : Controller} (h : construct cfg = some c) :
    Bounded c := by
  obtain ⟨rfl, hvalid⟩ := construct_eq h
  exact ⟨hvalid, Int.cast_le.mpr hvalid.min_le_max, le_refl _⟩

namespace Controller
variable {c c' : Controller}

@[simp] theorem bitrateScale_cfg (now : ℚ) : (c.bitrateScale now).1.cfg = c.cfg := by
  unfold bitrateScale
  split <;> rfl

@[simp] theorem bitrateScale_quality (now : ℚ) : (c.bitrateScale now).1.quality = c.quality := by
  unfold bitrateScale
  split <;> rfl

@[simp] theorem nextQuality_cfg (motion now : ℚ) : (c.nextQuality motion now).1.cfg = c.cfg :=
  bitrateScale_cfg now

theorem nextQuality_quality (motion now : ℚ) :
    (c.nextQuality motion now).1.quality = c.smoothed motion (c.bitrateScale now).2 := by
  show (c.bitrateScale now).1.smoothed motion (c.bitrateScale now).2 = _
  simp only [smoothed, motionQuality, bitrateScale_cfg, bitrateScale_quality]

theorem nextQuality_history (motion now : ℚ) : (c.nextQuality motion now).1.history =
    if c.cfg.targetBitrateBps ≤ 0 then c.history else c.pruned now := by
  show (c.bitrateScale now).1.history = _
  unfold bitrateScale
  split <;> rfl

theorem scaleOf_range (cfg : Config) (totalBytes : ℕ) : 0 ≤ scaleOf cfg totalBytes := by
  unfold scaleOf
  dsimp only
  split
  · exact zero_le_one
  · split
    · exact zero_le_one
    · exact le_max_left ..

theorem bitrateScale_range (now : ℚ) : 0 ≤ (c.bitrateScale now).2 := by
  unfold bitrateScale
  split
  · exact zero_le_one
  · exact scaleOf_range ..

/-- The clamp is between the bounds, whatever it is given. -/
theorem smoothed_range (hvalid : c.cfg.Valid) (motion scale : ℚ) :
    c.cfg.qualityMin ≤ c.smoothed motion scale ∧ c.smoothed motion scale ≤ c.cfg.qualityMax :=
  ⟨le_max_left .., max_le (Int.cast_le.mpr hvalid.min_le_max) (min_le_left ..)⟩

/-- More motion asks for less quality. -/
theorem motionQuality_anti (hvalid : c.cfg.Valid) {motion motion' : ℚ} (h : motion ≤ motion') :
    c.motionQuality motion' ≤ c.motionQuality motion := by
  have hfrac : max 0 (min 1 (motion / c.cfg.motionCeiling)) ≤
      max 0 (min 1 (motion' / c.cfg.motionCeiling)) :=
    max_le_max_left 0 (min_le_min_left 1 (div_le_div_of_nonneg_right h hvalid.ceiling_pos.le))
  have hspan : (0 : ℚ) ≤ c.cfg.qualityMax - c.cfg.qualityMin :=
    sub_nonneg.mpr (Int.cast_le.mpr hvalid.min_le_max)
  exact sub_le_sub_left (mul_le_mul_of_nonneg_right hfrac hspan) _

/-- From a lower quality and with more motion, a call goes to a lower quality. -/
theorem smoothed_mono (hvalid : c.cfg.Valid) (hcfg : c'.cfg = c.cfg) (hle : c'.quality ≤ c.quality)
    {motion motion' scale : ℚ} (h : motion ≤ motion') (hscale : 0 ≤ scale) :
    c'.smoothed motion' scale ≤ c.smoothed motion scale := by
  have hmotion : c'.motionQuality motion' = c.motionQuality motion' := by
    rw [motionQuality, motionQuality, hcfg]
  have htarget : (c.cfg.qualityMin : ℚ) + (c.motionQuality motion' - c.cfg.qualityMin) * scale ≤
      c.cfg.qualityMin + (c.motionQuality motion - c.cfg.qualityMin) * scale :=
    add_le_add_right (mul_le_mul_of_nonneg_right
      (sub_le_sub_right (motionQuality_anti hvalid h) _) hscale) _
  have hline := lineMap_mono_endpoints hle htarget hvalid.smoothing_pos.le
    hvalid.smoothing_le
  rw [AffineMap.lineMap_apply_ring', AffineMap.lineMap_apply_ring', add_comm, mul_comm,
    add_comm _ c.quality, mul_comm _ (_ - c.quality)] at hline
  rw [smoothed, smoothed, hcfg, hmotion]
  exact max_le_max_left _ (min_le_min_left _ hline)

theorem currentQuality_round (h : Bounded c) : c.currentQuality = round c.quality := by
  have hmin : (0 : ℚ) ≤ c.cfg.qualityMin := Int.cast_nonneg_iff.mpr h.valid.min_nonneg
  exact truncate_add_half (hmin.trans h.low)

theorem round_mono {x y : ℚ} (h : x ≤ y) : round x ≤ round y := by
  rw [round_eq, round_eq]
  exact Int.floor_le_floor (add_le_add_left h _)

/-- The rounded quality is within the bounds, which are integers. -/
theorem currentQuality_range (h : Bounded c) :
    c.cfg.qualityMin ≤ c.currentQuality ∧ c.currentQuality ≤ c.cfg.qualityMax := by
  rw [currentQuality_round h]
  have hlow := round_mono h.low
  have hhigh := round_mono h.high
  rw [round_intCast] at hlow hhigh
  exact ⟨hlow, hhigh⟩

end Controller

/-! ### Runs -/

theorem Bounded.step {c : Controller} (h : Bounded c) (call : Call) :
    Bounded (Bitrate.step c call).1 ∧ (Bitrate.step c call).1.cfg = c.cfg ∧
      ∀ q ∈ (Bitrate.step c call).2, c.cfg.qualityMin ≤ q ∧ q ≤ c.cfg.qualityMax := by
  cases call with
  | recordSent numBytes now => exact ⟨⟨h.valid, h.low, h.high⟩, rfl, fun q hq => nomatch hq⟩
  | nextQuality motion now =>
    have hcfg := Controller.nextQuality_cfg (c := c) motion now
    have hrange := Controller.smoothed_range h.valid motion (c.bitrateScale now).2
    have hnext : Bounded (c.nextQuality motion now).1 := by
      refine ⟨hcfg ▸ h.valid, ?_, ?_⟩
      · rw [hcfg, Controller.nextQuality_quality]
        exact hrange.1
      · rw [hcfg, Controller.nextQuality_quality]
        exact hrange.2
    refine ⟨hnext, hcfg, fun q hq => ?_⟩
    rw [← Option.some.inj hq, ← hcfg]
    exact Controller.currentQuality_range hnext

theorem Bounded.run {c : Controller} (h : Bounded c) (calls : List Call) :
    Bounded (Bitrate.run c calls) ∧ (Bitrate.run c calls).cfg = c.cfg ∧
      ∀ q ∈ qualities c calls, c.cfg.qualityMin ≤ q ∧ q ≤ c.cfg.qualityMax := by
  induction calls generalizing c with
  | nil => exact ⟨h, rfl, fun q hq => nomatch hq⟩
  | cons call calls ih =>
    obtain ⟨hnext, hcfg, hhere⟩ := h.step call
    obtain ⟨hend, hcfg', hrest⟩ := ih hnext
    refine ⟨hend, hcfg'.trans hcfg, fun q hq => ?_⟩
    rw [hcfg] at hrest
    rw [qualities, outputs] at hq
    rcases List.mem_cons.mp (List.reduceOption_mem_iff.mp hq) with hq | hq
    · exact hhere q hq.symm
    · exact hrest q (List.reduceOption_mem_iff.mpr hq)

/-- The same call, with as much motion or more. -/
inductive MoreMotion : Call → Call → Prop
  | recordSent (numBytes : UInt64) (now : ℚ) :
    MoreMotion (.recordSent numBytes now) (.recordSent numBytes now)
  | nextQuality {motion motion' : ℚ} (h : motion ≤ motion') (now : ℚ) :
    MoreMotion (.nextQuality motion now) (.nextQuality motion' now)

/-- The second controller has the same history and a lower quality. -/
structure Below (c c' : Controller) : Prop where
  bounded : Bounded c
  bounded' : Bounded c'
  cfg : c'.cfg = c.cfg
  history : c'.history = c.history
  quality : c'.quality ≤ c.quality

theorem Below.currentQuality {c c' : Controller} (h : Below c c') :
    c'.currentQuality ≤ c.currentQuality := by
  rw [Controller.currentQuality_round h.bounded, Controller.currentQuality_round h.bounded']
  exact Controller.round_mono h.quality

theorem Below.nextQuality {c c' : Controller} (h : Below c c') {motion motion' : ℚ}
    (hmotion : motion ≤ motion') (now : ℚ) :
    Below (c.nextQuality motion now).1 (c'.nextQuality motion' now).1 := by
  have hscale : (c'.bitrateScale now).2 = (c.bitrateScale now).2 := by
    simp only [Controller.bitrateScale, Controller.pruned, h.cfg, h.history]
    split <;> rfl
  refine ⟨(h.bounded.step (.nextQuality motion now)).1,
    (h.bounded'.step (.nextQuality motion' now)).1, ?_, ?_, ?_⟩
  · rw [Controller.nextQuality_cfg, Controller.nextQuality_cfg, h.cfg]
  · simp only [Controller.nextQuality_history, Controller.pruned, h.cfg, h.history]
  · rw [Controller.nextQuality_quality, Controller.nextQuality_quality, hscale]
    exact Controller.smoothed_mono h.bounded.valid h.cfg h.quality hmotion
      (Controller.bitrateScale_range now)

theorem Below.step {c c' : Controller} (h : Below c c') {call call' : Call}
    (hcall : MoreMotion call call') :
    Option.Rel (fun q q' => q' ≤ q) (Bitrate.step c call).2 (Bitrate.step c' call').2 ∧
      Below (Bitrate.step c call).1 (Bitrate.step c' call').1 := by
  cases hcall with
  | recordSent numBytes now =>
    refine ⟨.none, ⟨(h.bounded.step _).1, (h.bounded'.step _).1, h.cfg, ?_, h.quality⟩⟩
    show c'.history ++ _ = c.history ++ _
    rw [h.history]
  | nextQuality hmotion now =>
    have hnext := h.nextQuality hmotion now
    exact ⟨.some hnext.currentQuality, hnext⟩

/-- **Quality control is bounded and monotone.** Every quality is within the configured bounds, and
none is higher in a run with the same calls and as much motion or more. -/
theorem quality_bounded_monotone {cfg : Config} {c : Controller} (h : construct cfg = some c) :
    (∀ calls, (∀ q ∈ qualities c calls, cfg.qualityMin ≤ q ∧ q ≤ cfg.qualityMax) ∧
      cfg.qualityMin ≤ (run c calls).currentQuality ∧
      (run c calls).currentQuality ≤ cfg.qualityMax) ∧
    ∀ calls calls', List.Forall₂ MoreMotion calls calls' →
      List.Forall₂ (fun q q' => q' ≤ q) (qualities c calls) (qualities c calls') ∧
        (run c calls').currentQuality ≤ (run c calls).currentQuality := by
  have hbounded := bounded_construct h
  obtain ⟨rfl, -⟩ := construct_eq h
  constructor
  · intro calls
    obtain ⟨hend, hcfg, hqualities⟩ := hbounded.run calls
    have hrange := Controller.currentQuality_range hend
    rw [hcfg] at hrange
    exact ⟨hqualities, hrange⟩
  · intro calls calls' hcalls
    obtain ⟨houts, hend⟩ := outputs_forall₂ Below MoreMotion (Option.Rel fun q q' => q' ≤ q) step step
      (fun c c' call call' hbelow hcall => hbelow.step hcall) hcalls _ _
      ⟨hbounded, hbounded, rfl, rfl, le_refl _⟩
    exact ⟨List.rel_filterMap (fun _ _ hq => hq) houts, hend.currentQuality⟩

/-- The constructor takes the default configuration. -/
theorem construct_default : construct {} = some ⟨{}, 80, []⟩ := by decide +kernel

/-- The default configuration, with no motion and with much. -/
theorem quality_bounded_monotone_default :
    List.Forall₂ (fun q q' => q' ≤ q)
      (qualities ⟨{}, 80, []⟩ [.nextQuality 0 0, .recordSent 5000 0, .nextQuality 12 1])
      (qualities ⟨{}, 80, []⟩ [.nextQuality 60 0, .recordSent 5000 0, .nextQuality 12 1]) :=
  ((quality_bounded_monotone construct_default).2 _ _
    (.cons (.nextQuality (by decide +kernel) 0) (.cons (.recordSent 5000 0)
      (.cons (.nextQuality (le_refl _) 1) .nil)))).1

end Relink.Bitrate
