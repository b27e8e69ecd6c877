import Mathlib.Data.List.TakeWhile
import Relink.Bitrate.History

/-! The controllers of both builds.

The Python module keeps the samples of the window wherever they stand in the history, counts their
bytes without a bound, and rounds half to even; the C++ header, which says that it mirrors it, takes
old samples off the front only, counts in a `size_t`, and rounds half up. `controllers_agree_iff`
says which calls this leaves alike. -/
namespace Relink.Bitrate
open Rounding Transition

namespace Py

structure Config where
  qualityMin : ℤ
  qualityMax : ℤ
  motionCeiling : ℚ
  targetBitrateBps : Option ℚ
  windowSec : ℚ
  smoothing : ℚ
deriving DecidableEq

/-- The samples are pairs of a time and a number of bytes. -/
structure Controller where
  cfg : Config
  quality : ℚ
  history : List (ℚ × ℕ)
deriving DecidableEq

/-- The constructor; nothing if it raises. -/
def construct (cfg : Config) : Option Controller :=
  if ¬(0 ≤ cfg.qualityMin ∧ cfg.qualityMin ≤ cfg.qualityMax ∧ cfg.qualityMax ≤ 100) then none
  else if ¬(0 < cfg.smoothing ∧ cfg.smoothing ≤ 1) then none
  else some ⟨{cfg with motionCeiling := max (1 / 1000000) cfg.motionCeiling}, cfg.qualityMax, []⟩

namespace Controller
variable (p : Controller)

def recordSent (numBytes : ℕ) (now : ℚ) : Controller :=
  {p with history := p.history ++ [(now, numBytes)]}

def motionQuality (motion : ℚ) : ℚ :=
  let frac := max 0 (min 1 (motion / p.cfg.motionCeiling))
  p.cfg.qualityMax - frac * (p.cfg.qualityMax - p.cfg.qualityMin)

/-- What is left of the history. -/
def kept (now : ℚ) : List (ℚ × ℕ) := p.history.filter fun s => now - p.cfg.windowSec ≤ s.1

def totalBytes (history : List (ℚ × ℕ)) : ℕ := (history.map Prod.snd).sum

def bitrateScale (now : ℚ) : Controller × ℚ :=
  match p.cfg.targetBitrateBps with
  | none => (p, 1)
  | some target =>
    let p' := {p with history := p.kept now}
    if totalBytes (p.kept now) ≤ 0 then (p', 1)
    else
      let currentBps := totalBytes (p.kept now) * 8 / p.cfg.windowSec
      if currentBps ≤ target then (p', 1) else (p', max 0 (target / currentBps))

def smoothed (motion scale : ℚ) : ℚ :=
  let target := p.cfg.qualityMin + (p.motionQuality motion - p.cfg.qualityMin) * scale
  let quality := p.quality + (target - p.quality) * p.cfg.smoothing
  max p.cfg.qualityMin (min p.cfg.qualityMax quality)

def currentQuality : ℤ := halfEven p.quality

def nextQuality (motion now : ℚ) : Controller × ℤ :=
  let (p, scale) := p.bitrateScale now
  let p := {p with quality := p.smoothed motion scale}
  (p, p.currentQuality)

end Controller

def step (p : Controller) : Call → Controller × Option ℤ
  | .recordSent numBytes now => (p.recordSent numBytes.toNat now, none)
  | .nextQuality motion now => ((p.nextQuality motion now).1, some (p.nextQuality motion now).2)

end Py

/-- The Python configuration: no ceiling is `None`. -/
def Config.toPython (cfg : Config) : Py.Config where
  qualityMin := cfg.qualityMin
  qualityMax := cfg.qualityMax
  motionCeiling := cfg.motionCeiling
  targetBitrateBps := if cfg.targetBitrateBps ≤ 0 then none else some cfg.targetBitrateBps
  windowSec := cfg.windowSec
  smoothing := cfg.smoothing

/-! ### The same scale, and no tie in the rounding -/

/-- So many bytes in a window are within the ceiling. -/
def Config.Within (cfg : Config) (totalBytes : ℕ) : Prop :=
  totalBytes * 8 ≤ cfg.targetBitrateBps * cfg.windowSec

instance (cfg : Config) (totalBytes : ℕ) : Decidable (cfg.Within totalBytes) :=
  inferInstanceAs (Decidable (_ ≤ _))

/-- There is no ceiling; or the motion asks for the lowest quality anyway; or both builds count the
same bytes in the window, or neither more than the ceiling lets pass. -/
def SameScale (w : Controller × Py.Controller) : Call → Prop
  | .recordSent _ _ => True
  | .nextQuality motion now =>
    w.1.cfg.targetBitrateBps ≤ 0 ∨
    w.1.cfg.motionCeiling ≤ motion ∨ w.1.cfg.qualityMin = w.1.cfg.qualityMax ∨
    (Controller.totalBytes (w.1.pruned now)).toNat = Py.Controller.totalBytes (w.2.kept now) ∨
    w.1.cfg.Within (Controller.totalBytes (w.1.pruned now)).toNat ∧
      w.1.cfg.Within (Py.Controller.totalBytes (w.2.kept now))

/-- The smoothed quality is not halfway between an even number and the next. -/
def NoTie (w : Controller × Py.Controller) : Call → Prop
  | .recordSent _ _ => True
  | .nextQuality motion now => ¬AboveEven (w.1.smoothed motion (w.1.bitrateScale now).2)

instance (w : Controller × Py.Controller) : (call : Call) → Decidable (NoTie w call)
  | .recordSent _ _ => .isTrue trivial
  | .nextQuality _ _ => inferInstanceAs (Decidable (¬AboveEven _))

/-- After the call both have the same quality, before it is rounded. -/
def SameQuality (w : Controller × Py.Controller) (call : Call) : Prop :=
  (step w.1 call).1.quality = (Py.step w.2 call).1.quality

/-- Same configuration, same quality. -/
structure Alike (w : Controller × Py.Controller) : Prop where
  bounded : Bounded w.1
  window : 0 < w.1.cfg.windowSec
  cfg : w.2.cfg = w.1.cfg.toPython
  quality : w.2.quality = w.1.quality

/-! ### One call -/

namespace Controller
variable {c : Controller}

/-- The scale of a ceiling: nothing is scaled below it. -/
theorem scaleOf_eq {cfg : Config} (hwindow : 0 < cfg.windowSec) (hceiling : 0 < cfg.targetBitrateBps)
    (totalBytes : ℕ) : scaleOf cfg totalBytes =
      if cfg.Within totalBytes then 1
      else cfg.targetBitrateBps * cfg.windowSec / (totalBytes * 8) := by
  have hwithin : totalBytes * 8 / cfg.windowSec ≤ cfg.targetBitrateBps ↔ cfg.Within totalBytes :=
    div_le_iff₀ hwindow
  unfold scaleOf
  split
  · next hzero =>
    rw [if_pos]
    rw [Config.Within, hzero]
    have := mul_pos hceiling hwindow
    simpa using this.le
  · next hne =>
    simp only [hwithin]
    split
    · rfl
    · have hpos : (0 : ℚ) < totalBytes * 8 := by positivity
      rw [div_div_eq_mul_div, max_eq_right]
      positivity

theorem scaleOf_le {cfg : Config} (hwindow : 0 < cfg.windowSec) (hceiling : 0 < cfg.targetBitrateBps)
    (totalBytes : ℕ) : scaleOf cfg totalBytes ≤ 1 := by
  rw [scaleOf_eq hwindow hceiling]
  split
  · exact le_refl _
  · next hover =>
    have hlt : cfg.targetBitrateBps * cfg.windowSec < totalBytes * 8 := not_le.mp hover
    exact (div_le_one ((mul_pos hceiling hwindow).trans hlt)).mpr hlt.le

/-- Different counts are scaled differently, unless neither is over the ceiling. -/
theorem scaleOf_inj {cfg : Config} (hwindow : 0 < cfg.windowSec)
    (hceiling : 0 < cfg.targetBitrateBps) (n n' : ℕ) :
    scaleOf cfg n = scaleOf cfg n' ↔ n = n' ∨ cfg.Within n ∧ cfg.Within n' := by
  have hpos := mul_pos hceiling hwindow
  have hless : ∀ {m : ℕ}, ¬cfg.Within m →
      cfg.targetBitrateBps * cfg.windowSec / (m * 8) < 1 := by
    intro m hover
    have hlt : cfg.targetBitrateBps * cfg.windowSec < m * 8 := not_le.mp hover
    exact (div_lt_one (hpos.trans hlt)).mpr hlt
  rw [scaleOf_eq hwindow hceiling, scaleOf_eq hwindow hceiling]
  by_cases hn : cfg.Within n
  · by_cases hn' : cfg.Within n'
    · simp [hn, hn']
    · rw [if_pos hn, if_neg hn']
      refine iff_of_false (hless hn').ne' ?_
      rintro (rfl | h)
      · exact hn' hn
      · exact hn' h.2
  · by_cases hn' : cfg.Within n'
    · rw [if_neg hn, if_pos hn']
      refine iff_of_false (hless hn).ne ?_
      rintro (rfl | h)
      · exact hn hn'
      · exact hn h.1
    · rw [if_neg hn, if_neg hn', div_eq_mul_inv, div_eq_mul_inv, mul_right_inj' hpos.ne', inv_inj,
        mul_left_inj' (by norm_num : (8 : ℚ) ≠ 0), Nat.cast_inj]
      simp only [hn, false_and, or_false]

theorem motionQuality_range (h : c.cfg.Valid) (motion : ℚ) :
    c.cfg.qualityMin ≤ c.motionQuality motion ∧ c.motionQuality motion ≤ c.cfg.qualityMax := by
  have hspan : (0 : ℚ) ≤ c.cfg.qualityMax - c.cfg.qualityMin :=
    sub_nonneg.mpr (Int.cast_le.mpr h.min_le_max)
  have hnonneg : 0 ≤ max 0 (min 1 (motion / c.cfg.motionCeiling)) := le_max_left ..
  have hle : max 0 (min 1 (motion / c.cfg.motionCeiling)) ≤ 1 :=
    max_le zero_le_one (min_le_left ..)
  rw [motionQuality]
  constructor
  · nlinarith
  · nlinarith

/-- The lowest quality is asked for at the motion's ceiling. -/
theorem motionQuality_min_iff (h : c.cfg.Valid) (motion : ℚ) :
    c.motionQuality motion = c.cfg.qualityMin ↔
      c.cfg.motionCeiling ≤ motion ∨ c.cfg.qualityMin = c.cfg.qualityMax := by
  have hfrac : max 0 (min 1 (motion / c.cfg.motionCeiling)) = 1 ↔ c.cfg.motionCeiling ≤ motion := by
    rw [← one_le_div h.ceiling_pos]
    constructor
    · intro hone
      by_contra hlt
      have hmin : min 1 (motion / c.cfg.motionCeiling) < 1 := min_lt_of_right_lt (not_le.mp hlt)
      exact (max_lt zero_lt_one hmin).ne hone
    · intro hone
      rw [min_eq_left hone, max_eq_right zero_le_one]
  have hsplit : c.motionQuality motion = c.cfg.qualityMin ↔
      (1 - max 0 (min 1 (motion / c.cfg.motionCeiling))) *
        (c.cfg.qualityMax - c.cfg.qualityMin : ℚ) = 0 := by
    rw [motionQuality]
    constructor
    · intro heq
      linarith
    · intro heq
      linarith
  rw [hsplit, mul_eq_zero, sub_eq_zero, sub_eq_zero, eq_comm, hfrac, Int.cast_inj,
    eq_comm (b := c.cfg.qualityMin)]

/-- With a scale of at most one the clamp has nothing to do. -/
theorem smoothed_eq (h : Bounded c) (motion : ℚ) {scale : ℚ} (hscale : 0 ≤ scale) (hle : scale ≤ 1) :
    c.smoothed motion scale = c.quality +
      (c.cfg.qualityMin + (c.motionQuality motion - c.cfg.qualityMin) * scale - c.quality) *
        c.cfg.smoothing := by
  obtain ⟨hlow, hhigh⟩ := motionQuality_range h.valid motion
  have hpos := h.valid.smoothing_pos.le
  have hone := h.valid.smoothing_le
  have htargetLow : (c.cfg.qualityMin : ℚ) ≤
      c.cfg.qualityMin + (c.motionQuality motion - c.cfg.qualityMin) * scale :=
    le_add_of_nonneg_right (mul_nonneg (sub_nonneg.mpr hlow) hscale)
  have htargetHigh : c.cfg.qualityMin + (c.motionQuality motion - c.cfg.qualityMin) * scale ≤
      c.cfg.qualityMax := by
    have := mul_le_of_le_one_right (sub_nonneg.mpr hlow) hle
    linarith
  have hqualityLow := h.low
  have hqualityHigh := h.high
  rw [smoothed, min_eq_right, max_eq_right]
  · nlinarith
  · nlinarith

/-- Scales make a difference to the quality unless the lowest one is asked for. -/
theorem smoothed_inj (h : Bounded c) (motion : ℚ) {scale scale' : ℚ} (hscale : 0 ≤ scale)
    (hle : scale ≤ 1) (hscale' : 0 ≤ scale') (hle' : scale' ≤ 1) :
    c.smoothed motion scale = c.smoothed motion scale' ↔
      (c.cfg.motionCeiling ≤ motion ∨ c.cfg.qualityMin = c.cfg.qualityMax) ∨ scale = scale' := by
  rw [smoothed_eq h motion hscale hle, smoothed_eq h motion hscale' hle', add_right_inj,
    mul_left_inj' h.valid.smoothing_pos.ne', sub_left_inj, add_right_inj,
    ← motionQuality_min_iff h.valid, ← sub_eq_zero (a := c.motionQuality motion), or_comm]
  exact mul_eq_mul_left_iff

end Controller

/-- The Python scale, under the configuration of the C++ controller. -/
theorem python_bitrateScale {cfg : Config} {p : Py.Controller} (hcfg : p.cfg = cfg.toPython)
    (now : ℚ) : p.bitrateScale now =
      if cfg.targetBitrateBps ≤ 0 then (p, 1)
      else ({p with history := p.kept now},
        Controller.scaleOf cfg (Py.Controller.totalBytes (p.kept now))) := by
  have htarget : p.cfg.targetBitrateBps =
      if cfg.targetBitrateBps ≤ 0 then none else some cfg.targetBitrateBps := by
    rw [hcfg]
    rfl
  have hwindow : p.cfg.windowSec = cfg.windowSec := by
    rw [hcfg]
    rfl
  rw [Py.Controller.bitrateScale, htarget]
  by_cases hnone : cfg.targetBitrateBps ≤ 0
  · rw [if_pos hnone, if_pos hnone]
  · rw [if_neg hnone, if_neg hnone]
    simp only [Controller.scaleOf, Nat.le_zero, hwindow]
    split
    · rfl
    · split <;> rfl

/-- What a scaling leaves alone. -/
theorem python_scaled {cfg : Config} {p : Py.Controller} (hcfg : p.cfg = cfg.toPython) (now : ℚ) :
    (p.bitrateScale now).1.cfg = p.cfg ∧ (p.bitrateScale now).1.quality = p.quality := by
  rw [python_bitrateScale hcfg]
  split
  · exact ⟨rfl, rfl⟩
  · exact ⟨rfl, rfl⟩

namespace Alike
variable {w : Controller × Py.Controller}

theorem smoothed (h : Alike w) (motion scale : ℚ) :
    w.2.smoothed motion scale = w.1.smoothed motion scale := by
  simp only [Py.Controller.smoothed, Controller.smoothed, Py.Controller.motionQuality,
    Controller.motionQuality, h.cfg, h.quality, Config.toPython]

theorem python_nextQuality (h : Alike w) (motion now : ℚ) :
    (w.2.nextQuality motion now).1.cfg = w.2.cfg ∧
      (w.2.nextQuality motion now).1.quality = w.1.smoothed motion (w.2.bitrateScale now).2 := by
  have hkeeps := python_scaled h.cfg now
  refine ⟨hkeeps.1, ?_⟩
  rw [← h.smoothed]
  show (w.2.bitrateScale now).1.smoothed motion (w.2.bitrateScale now).2 = _
  simp only [Py.Controller.smoothed, Py.Controller.motionQuality, hkeeps.1, hkeeps.2]

/-- The scales of a call are the same, or make no difference, exactly where it says so. -/
theorem sameQuality_iff (h : Alike w) (call : Call) : SameQuality w call ↔ SameScale w call := by
  cases call with
  | recordSent numBytes now => exact iff_of_true h.quality.symm trivial
  | nextQuality motion now =>
    show (w.1.nextQuality motion now).1.quality = (w.2.nextQuality motion now).1.quality ↔ _
    rw [Controller.nextQuality_quality, (h.python_nextQuality motion now).2,
      python_bitrateScale h.cfg,
      Controller.bitrateScale, SameScale]
    by_cases hnone : w.1.cfg.targetBitrateBps ≤ 0
    · rw [if_pos hnone, if_pos hnone]
      exact iff_of_true rfl (.inl hnone)
    · have hceiling := not_le.mp hnone
      rw [if_neg hnone, if_neg hnone, Controller.smoothed_inj h.bounded motion
        (Controller.scaleOf_range ..) (Controller.scaleOf_le h.window hceiling _)
        (Controller.scaleOf_range ..) (Controller.scaleOf_le h.window hceiling _),
        Controller.scaleOf_inj h.window hceiling, or_assoc]
      exact (or_iff_right hnone).symm

theorem step (h : Alike w) {call : Call} (hsame : SameQuality w call) :
    Alike (both Bitrate.step Py.step w call) := by
  obtain ⟨hbounded, hcfg, -⟩ := h.bounded.step call
  refine ⟨hbounded, ?_, ?_, hsame.symm⟩
  · show 0 < (Bitrate.step w.1 call).1.cfg.windowSec
    rw [hcfg]
    exact h.window
  · show (Py.step w.2 call).1.cfg = (Bitrate.step w.1 call).1.cfg.toPython
    rw [hcfg, ← h.cfg]
    cases call with
    | recordSent numBytes now => rfl
    | nextQuality motion now => exact (h.python_nextQuality motion now).1

/-- From the same quality both round to the same integer, but in a tie. -/
theorem answers_iff (h : Alike w) {call : Call} (hsame : SameQuality w call) :
    (Bitrate.step w.1 call).2 = (Py.step w.2 call).2 ↔ NoTie w call := by
  cases call with
  | recordSent numBytes now => exact iff_of_true rfl trivial
  | nextQuality motion now =>
    have hnext : Bounded (w.1.nextQuality motion now).1 :=
      (h.bounded.step (.nextQuality motion now)).1
    have hquality : (w.2.nextQuality motion now).1.quality =
        (w.1.nextQuality motion now).1.quality := hsame.symm
    show some (w.1.nextQuality motion now).1.currentQuality =
      some (halfEven (w.2.nextQuality motion now).1.quality) ↔ _
    rw [Option.some.injEq, Controller.currentQuality_round hnext, hquality, round_eq_halfEven_iff,
      Controller.nextQuality_quality]
    exact Iff.rfl

end Alike

/-! ### Samples in order -/

/-- The same configuration and the same history. -/
structure Mirrored (w : Controller × Py.Controller) : Prop where
  cfg : w.2.cfg = w.1.cfg.toPython
  history : w.2.history = w.1.history.map fun s => (s.t, s.bytes.toNat)

/-- The samples are in the order of their times, and a `size_t` can count their bytes. -/
structure InOrder (samples : List Sample) : Prop where
  sorted : samples.Pairwise fun s s' => s.t ≤ s'.t
  bytes : (samples.map fun s => s.bytes.toNat).sum < 2 ^ 64

theorem InOrder.sublist {samples samples' : List Sample} (h : InOrder samples)
    (hsub : samples'.Sublist samples) : InOrder samples' := by
  refine ⟨h.sorted.sublist hsub, ?_⟩
  have hle := (hsub.map fun s => s.bytes.toNat).sum_le_sum fun _ _ => Nat.zero_le _
  exact hle.trans_lt h.bytes

/-- In order, taking off the front is the same as keeping those of the window. -/
theorem dropWhile_eq_filter {history : List Sample} (h : history.Pairwise fun s s' => s.t ≤ s'.t)
    (cutoff : ℚ) : (history.dropWhile fun s => s.t < cutoff) =
      history.filter fun s => cutoff ≤ s.t := by
  have hkept : (history.dropWhile fun s => s.t < cutoff).filter (fun s => cutoff ≤ s.t) =
      history.dropWhile fun s => s.t < cutoff :=
    List.filter_eq_self.mpr fun s hs => decide_eq_true (dropWhile_sorted h cutoff s hs)
  have htaken : (history.takeWhile fun s => s.t < cutoff).filter (fun s => cutoff ≤ s.t) = [] := by
    refine List.filter_eq_nil_iff.mpr fun s hs => ?_
    have hold := List.mem_takeWhile_imp hs
    simpa using hold
  conv_rhs => rw [← List.takeWhile_append_dropWhile (p := fun s : Sample => s.t < cutoff) (l := history),
    List.filter_append, htaken, hkept, List.nil_append]

/-- The count of a `size_t` wraps. -/
theorem totalBytes_toNat (history : List Sample) : (Controller.totalBytes history).toNat =
    (history.map fun s => s.bytes.toNat).sum % 2 ^ 64 := by
  have hfold : ∀ total : UInt64,
      (history.foldl (fun total s => total + s.bytes) total).toNat =
        (total.toNat + (history.map fun s => s.bytes.toNat).sum) % 2 ^ 64 := by
    induction history with
    | nil =>
      intro total
      simp [Nat.mod_eq_of_lt total.toNat_lt]
    | cons s rest ih =>
      intro total
      rw [List.foldl_cons, ih, UInt64.toNat_add, List.map_cons, List.sum_cons]
      omega
  rw [Controller.totalBytes, hfold, UInt64.toNat_zero, Nat.zero_add]

namespace Mirrored
variable {w : Controller × Py.Controller}

theorem kept (h : Mirrored w) (horder : InOrder w.1.history) (now : ℚ) :
    w.2.kept now = (w.1.pruned now).map fun s => (s.t, s.bytes.toNat) := by
  have hpruned : w.1.pruned now = w.1.history.filter fun s => now - w.1.cfg.windowSec ≤ s.t :=
    dropWhile_eq_filter horder.sorted _
  rw [hpruned, Py.Controller.kept, h.history, List.filter_map, h.cfg]
  rfl

theorem sameScale (h : Mirrored w) (horder : InOrder w.1.history) (call : Call) :
    SameScale w call := by
  cases call with
  | recordSent numBytes now => trivial
  | nextQuality motion now =>
    have hfits : ((w.1.pruned now).map fun s => s.bytes.toNat).sum < 2 ^ 64 :=
      (horder.sublist (List.dropWhile_sublist _)).bytes
    refine .inr (.inr (.inr (.inl ?_)))
    rw [totalBytes_toNat, Nat.mod_eq_of_lt hfits, Py.Controller.totalBytes, h.kept horder,
      List.map_map]
    rfl

theorem step (h : Mirrored w) (horder : InOrder w.1.history) (call : Call) :
    Mirrored (both Bitrate.step Py.step w call) := by
  cases call with
  | recordSent numBytes now =>
    refine ⟨h.cfg, ?_⟩
    show w.2.history ++ _ = (w.1.history ++ _).map _
    rw [h.history, List.map_append]
    rfl
  | nextQuality motion now =>
    constructor
    · show (w.2.bitrateScale now).1.cfg = (w.1.nextQuality motion now).1.cfg.toPython
      rw [Controller.nextQuality_cfg, (python_scaled h.cfg now).1, h.cfg]
    · show (w.2.bitrateScale now).1.history = (w.1.nextQuality motion now).1.history.map _
      rw [Controller.nextQuality_history, python_bitrateScale h.cfg]
      split
      · exact h.history
      · exact h.kept horder now

/-- Samples recorded in order make no difference. -/
theorem throughout (h : Mirrored w) {calls : List Call}
    (horder : InOrder (w.1.history ++ calls.filterMap Call.sample)) :
    Throughout (both Bitrate.step Py.step) SameScale w calls := by
  induction calls generalizing w with
  | nil => trivial
  | cons call calls ih =>
    have hhere := horder.sublist (List.sublist_append_left ..)
    refine ⟨h.sameScale hhere call, ih (h.step hhere call) (horder.sublist ?_)⟩
    rw [recorded_cons, ← List.append_assoc]
    exact (step_history w.1 call).append_right _

end Mirrored

/-! ### Runs -/

theorem construct_both {cfg : Config} {c : Controller} {p : Py.Controller}
    (hc : construct cfg = some c) (hp : Py.construct cfg.toPython = some p)
    (hwindow : 0 < cfg.windowSec) : Alike (c, p) ∧ Mirrored (c, p) ∧ c.history = [] := by
  have hbounded := bounded_construct hc
  obtain ⟨rfl, -⟩ := construct_eq hc
  unfold Py.construct at hp
  split at hp
  · cases hp
  split at hp
  · cases hp
  cases hp
  exact ⟨⟨hbounded, hwindow, rfl, rfl⟩, ⟨rfl, rfl⟩, rfl⟩

/-- **The two controllers keep the same quality** exactly if their windows make no difference at any
call, and then they return the same integers exactly if no call comes to a tie. Their windows make
none where the samples are recorded in order. -/
theorem controllers_agree_iff {cfg : Config} {c : Controller} {p : Py.Controller}
    (hc : construct cfg = some c) (hp : Py.construct cfg.toPython = some p)
    (hwindow : 0 < cfg.windowSec) (calls : List Call) :
    (Throughout (both step Py.step) SameQuality (c, p) calls ↔
      Throughout (both step Py.step) SameScale (c, p) calls) ∧
    (Throughout (both step Py.step) SameScale (c, p) calls →
      (outputs step c calls = outputs Py.step p calls ↔
        Throughout (both step Py.step) NoTie (c, p) calls)) ∧
    (InOrder (calls.filterMap Call.sample) →
      Throughout (both step Py.step) SameScale (c, p) calls) := by
  obtain ⟨halike, hmirrored, hfresh⟩ := construct_both hc hp hwindow
  refine ⟨?_, fun hscale => ?_, fun horder => ?_⟩
  · exact Throughout.congr Alike (fun w call h _ => h.sameQuality_iff call)
      (fun w call h _ hscale => h.step ((h.sameQuality_iff call).mpr hscale)) halike
      (Throughout.of_mem (P := fun _ _ => True) (fun _ _ _ => trivial) _)
  · rw [outputs_eq_iff]
    exact Throughout.congr Alike
      (fun w call h hscale => h.answers_iff ((h.sameQuality_iff call).mpr hscale))
      (fun w call h hscale _ => h.step ((h.sameQuality_iff call).mpr hscale)) halike hscale
  · refine hmirrored.throughout ?_
    show InOrder (c.history ++ _)
    rwa [hfresh]

/-- A frame with much motion, by default. -/
theorem controllers_agree_iff_default :
    outputs step ⟨{}, 80, []⟩ [.recordSent 5000 0, .nextQuality 60 1] =
      outputs Py.step ⟨Config.toPython {}, 80, []⟩ [.recordSent 5000 0, .nextQuality 60 1] :=
  have haccepted : Py.construct (Config.toPython {}) = some ⟨Config.toPython {}, 80, []⟩ := by
    decide +kernel
  have hagree := controllers_agree_iff construct_default haccepted (by decide +kernel)
    [.recordSent 5000 0, .nextQuality 60 1]
  (hagree.2.1 (hagree.2.2 ⟨by decide +kernel, by decide +kernel⟩)).mpr
    ⟨trivial, by decide +kernel, trivial⟩

/-- Bounds of 20 and 81 without smoothing: half the motion comes to 50.5, which one build rounds up
and the other down. With a ceiling, a sample that is put behind a newer one counts in one build
only. -/
theorem controllers_disagree :
    (∃ c p, construct {qualityMax := 81, smoothing := 1} = some c ∧
      Py.construct (Config.toPython {qualityMax := 81, smoothing := 1}) = some p ∧
      outputs step c [.nextQuality 15 0] = [some 51] ∧
      outputs Py.step p [.nextQuality 15 0] = [some 50]) ∧
    ∃ c p, construct {targetBitrateBps := 8000} = some c ∧
      Py.construct (Config.toPython {targetBitrateBps := 8000}) = some p ∧
      outputs step c [.recordSent 1000 5, .recordSent 9000 0, .nextQuality 0 5] =
        [none, none, some 64] ∧
      outputs Py.step p [.recordSent 1000 5, .recordSent 9000 0, .nextQuality 0 5] =
        [none, none, some 80] := by
  refine ⟨⟨⟨{qualityMax := 81, smoothing := 1}, 81, []⟩,
    ⟨Config.toPython {qualityMax := 81, smoothing := 1}, 81, []⟩, ?_⟩,
    ⟨{targetBitrateBps := 8000}, 80, []⟩, ⟨Config.toPython {targetBitrateBps := 8000}, 80, []⟩, ?_⟩
  · decide +kernel
  · decide +kernel

end Relink.Bitrate
