import Relink.Bitrate.Controller

/-! What the controller remembers.

`record_sent` puts a sample behind the others, and samples older than the window are taken off the
front by `bitrate_scale`, where it looks at the bitrate at all. Without a ceiling it returns before,
and `history_in_window_iff` says what follows for the history. -/
namespace Relink.Bitrate
open Transition

def Call.now : Call → ℚ
  | .recordSent _ now => now
  | .nextQuality _ now => now

/-- The sample that a call records. -/
def Call.sample : Call → Option Sample
  | .recordSent numBytes now => some ⟨now, numBytes⟩
  | .nextQuality _ _ => none

/-- Right after every `next_quality` of a run, no sample that is kept is older than the window. -/
def InWindow (c : Controller) (calls : List Call) : Prop :=
  ∀ before motion now, before ++ [.nextQuality motion now] <+: calls →
    ∀ s ∈ (run c (before ++ [.nextQuality motion now])).history, now - c.cfg.windowSec ≤ s.t

/-- No `next_quality` comes later than a window after a sample was recorded. -/
def WithinOneWindow (cfg : Config) (calls : List Call) : Prop :=
  ∀ before motion now, before ++ [.nextQuality motion now] <+: calls →
    ∀ numBytes t, .recordSent numBytes t ∈ before → now - cfg.windowSec ≤ t

/-! ### The history and what was recorded -/

section
variable {c : Controller} {calls : List Call}

theorem run_append (c : Controller) (calls calls' : List Call) :
    run c (calls ++ calls') = run (run c calls) calls' := List.foldl_append

theorem step_cfg (c : Controller) (call : Call) : (step c call).1.cfg = c.cfg := by
  cases call with
  | recordSent numBytes now => rfl
  | nextQuality motion now => exact Controller.nextQuality_cfg motion now

theorem run_cfg (c : Controller) (calls : List Call) : (run c calls).cfg = c.cfg :=
  foldl_invariant (fun c' : Controller => c'.cfg = c.cfg) (fun _ => True) _
    (fun c' call h _ => (step_cfg c' call).trans h) calls c rfl fun _ _ => trivial

theorem recorded_cons (call : Call) (calls : List Call) :
    (call :: calls).filterMap Call.sample = call.sample.toList ++ calls.filterMap Call.sample := by
  rw [List.filterMap_cons]
  cases call.sample <;> rfl

theorem step_history (c : Controller) (call : Call) :
    (step c call).1.history.Sublist (c.history ++ call.sample.toList) := by
  cases call with
  | recordSent numBytes now => exact List.Sublist.refl _
  | nextQuality motion now =>
    show (c.nextQuality motion now).1.history.Sublist (c.history ++ [])
    rw [List.append_nil, Controller.nextQuality_history]
    split
    · exact List.Sublist.refl _
    · exact List.dropWhile_sublist _

/-- Nothing is kept that was not recorded, and nothing changes places. -/
theorem run_history (c : Controller) (calls : List Call) :
    (run c calls).history.Sublist (c.history ++ calls.filterMap Call.sample) := by
  induction calls generalizing c with
  | nil => exact List.sublist_append_left ..
  | cons call calls ih =>
    refine (ih (step c call).1).trans ?_
    rw [recorded_cons, ← List.append_assoc]
    exact (step_history c call).append_right _

theorem step_history_all (hnone : c.cfg.targetBitrateBps ≤ 0) (call : Call) :
    (step c call).1.history = c.history ++ call.sample.toList := by
  cases call with
  | recordSent numBytes now => rfl
  | nextQuality motion now =>
    refine (Controller.nextQuality_history motion now).trans ?_
    rw [if_pos hnone]
    exact (List.append_nil _).symm

/-- Without a ceiling all of it is kept. -/
theorem run_history_all (hnone : c.cfg.targetBitrateBps ≤ 0) (calls : List Call) :
    (run c calls).history = c.history ++ calls.filterMap Call.sample := by
  induction calls generalizing c with
  | nil => exact (List.append_nil _).symm
  | cons call calls ih =>
    have hrest : (run (step c call).1 calls).history = _ := ih (by rwa [step_cfg])
    rw [recorded_cons, ← List.append_assoc, ← step_history_all hnone]
    exact hrest

theorem mem_recorded {s : Sample} : s ∈ calls.filterMap Call.sample ↔ .recordSent s.bytes s.t ∈ calls := by
  rw [List.mem_filterMap]
  constructor
  · rintro ⟨call, hcall, hsample⟩
    cases call with
    | recordSent numBytes now =>
      cases hsample
      exact hcall
    | nextQuality motion now => cases hsample
  · intro hcall
    exact ⟨_, hcall, rfl⟩

/-- Times that do not decrease leave the recorded samples in order. -/
theorem recorded_sorted (h : (calls.map Call.now).Pairwise (· ≤ ·)) :
    (calls.filterMap Call.sample).Pairwise fun s s' => s.t ≤ s'.t := by
  rw [List.pairwise_map] at h
  refine h.filterMap _ fun call call' hle s hs s' hs' => ?_
  cases call with
  | recordSent numBytes now =>
    cases call' with
    | recordSent numBytes' now' =>
      cases hs
      cases hs'
      exact hle
    | nextQuality motion now' => cases hs'
  | nextQuality motion now => cases hs

/-- What is older than the front of samples in order is taken off. -/
theorem dropWhile_sorted {history : List Sample} (h : history.Pairwise fun s s' => s.t ≤ s'.t)
    (cutoff : ℚ) : ∀ s ∈ history.dropWhile fun s => s.t < cutoff, cutoff ≤ s.t := by
  induction history with
  | nil => exact fun s hs => nomatch hs
  | cons first rest ih =>
    obtain ⟨hfirst, hrest⟩ := List.pairwise_cons.mp h
    by_cases hold : first.t < cutoff
    · rw [List.dropWhile_cons_of_pos (by simpa using hold)]
      exact ih hrest
    · rw [List.dropWhile_cons_of_neg (by simpa using hold)]
      intro s hs
      rcases List.mem_cons.mp hs with rfl | hs
      · exact not_lt.mp hold
      · exact (not_lt.mp hold).trans (hfirst s hs)

end

/-- **The history stays within its window** exactly if there is a ceiling, or nothing recorded is
ever older than the window. -/
theorem history_in_window_iff {cfg : Config} {c : Controller} (h : construct cfg = some c)
    {calls : List Call} (hordered : (calls.map Call.now).Pairwise (· ≤ ·)) :
    InWindow c calls ↔ 0 < cfg.targetBitrateBps ∨ WithinOneWindow cfg calls := by
  obtain ⟨rfl, -⟩ := construct_eq h
  generalize hc : Controller.mk _ _ _ = c
  have htarget : c.cfg.targetBitrateBps = cfg.targetBitrateBps := by rw [← hc]
  have hwindow : c.cfg.windowSec = cfg.windowSec := by rw [← hc]
  have hfresh : c.history = [] := by rw [← hc]
  have hkept : ∀ before motion now, (run c (before ++ [.nextQuality motion now])).history =
      if c.cfg.targetBitrateBps ≤ 0 then (run c before).history
      else (run c before).pruned now := by
    intro before motion now
    rw [run_append, ← run_cfg c before]
    exact Controller.nextQuality_history motion now
  unfold InWindow WithinOneWindow
  simp only [hkept, hwindow]
  constructor
  · intro hin
    refine or_iff_not_imp_left.mpr fun hnone before motion now hprefix numBytes t hmem => ?_
    have hall := hin before motion now hprefix ⟨t, numBytes⟩
    rw [if_pos (htarget.trans_le (not_lt.mp hnone)), run_history_all (htarget.trans_le (not_lt.mp hnone)),
      hfresh, List.nil_append] at hall
    exact hall (mem_recorded.mpr hmem)
  · intro hcond before motion now hprefix s hs
    rcases hcond with hceiling | hwithin
    · rw [if_neg (by rw [htarget]; exact not_le.mpr hceiling)] at hs
      have hbefore : (before.map Call.now).Pairwise (· ≤ ·) :=
        hordered.sublist (((List.prefix_append before _).trans hprefix).sublist.map _)
      have hsorted := (recorded_sorted hbefore).sublist (hfresh ▸ run_history c before)
      have := dropWhile_sorted hsorted _ s hs
      rwa [run_cfg, hwindow] at this
    · have hmem : s ∈ (run c before).history := by
        split at hs
        · exact hs
        · exact (List.dropWhile_sublist _).subset hs
      have hrecorded := (run_history c before).subset hmem
      rw [hfresh, List.nil_append] at hrecorded
      exact hwithin before motion now hprefix s.bytes s.t (mem_recorded.mp hrecorded)

/-- With a ceiling of a megabit, a sample is taken off two seconds later. -/
theorem history_in_window_iff_ceiling :
    InWindow ⟨{targetBitrateBps := 1000000}, 80, []⟩ [.recordSent 200000 0, .nextQuality 0 2] :=
  have haccepted : construct {targetBitrateBps := 1000000} =
      some ⟨{targetBitrateBps := 1000000}, 80, []⟩ := by decide +kernel
  (history_in_window_iff haccepted (by decide +kernel)).mpr (.inl (by decide +kernel))

/-- By default there is no ceiling, and the sample stays. -/
theorem default_keeps_old : construct {} = some ⟨{}, 80, []⟩ ∧
    ([.recordSent 200000 0, .nextQuality 0 2].map Call.now).Pairwise (· ≤ ·) ∧
    ¬InWindow ⟨{}, 80, []⟩ [.recordSent 200000 0, .nextQuality 0 2] := by
  refine ⟨construct_default, by decide +kernel, fun hin => ?_⟩
  have hold := hin [.recordSent 200000 0] 0 2 (List.prefix_refl _) ⟨0, 200000⟩ (by decide +kernel)
  norm_num at hold

end Relink.Bitrate
