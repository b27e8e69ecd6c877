import Mathlib.Data.List.Induction
import Mathlib.Tactic.Linarith
import Relink.Library.Latest
import Relink.Rlcore.Server

/-! What rlcore's tables stand for.

The abstract registry is the history of handled requests: a peer is registered for a
topic while its latest request listing the topic is at most the registration's term
old, and its LAN address is the one in its latest request. `run_faithful` says that
the three tables, lazily pruned, are that registry at every turn of every run. -/
namespace Relink.Rlcore
open Wire History
open Std (ExtTreeMap)

/-- A request that was handled: when, under which identity, with which self-reported
address. -/
structure Handled where
  time : Time
  peer : PeerEntry
  lan : PeerEntry
  topics : List UInt32
deriving DecidableEq

def handledOf (cfg : Config) (turn : Turn) : Option Handled :=
  (turn.request cfg).map fun r =>
    ⟨turn.handleAt, identity cfg r.1 r.2, selfReported r.2, r.2.topics⟩

/-- The requests handled in a run, oldest first. -/
def history (cfg : Config) (turns : List Turn) : List Handled := turns.filterMap (handledOf cfg)

/-- When a peer last asked for a topic. -/
def lastListing (h : List Handled) (topic : UInt32) (p : PeerEntry) : Option Time :=
  (latest (fun r => r.peer = p ∧ topic ∈ r.topics) h).map (·.time)

/-- The address a peer last reported. -/
def lastLan (h : List Handled) (p : PeerEntry) : Option PeerEntry :=
  (latest (fun r => r.peer = p) h).map (·.lan)

/-- The peer's registration for the topic is within its term. -/
def Fresh (h : List Handled) (now : Time) (topic : UInt32) (p : PeerEntry) : Prop :=
  ∃ t, lastListing h topic p = some t ∧ now - t ≤ kRegistrationTtlSec

/-- Clock readings do not go back from one turn to a later one. -/
def Clocked (turns : List Turn) : Prop := turns.Pairwise fun a b => a.pruneAt ≤ b.pruneAt

theorem lastListing_snoc (h : List Handled) (r : Handled) (topic : UInt32) (p : PeerEntry) :
    lastListing (h ++ [r]) topic p =
      if r.peer = p ∧ topic ∈ r.topics then some r.time else lastListing h topic p := by
  rw [lastListing, latest_snoc]
  by_cases hr : r.peer = p ∧ topic ∈ r.topics
  · rw [if_pos (decide_eq_true hr), if_pos hr, Option.map_some]
  · rw [if_neg (by simpa using hr), if_neg hr, ← lastListing]

theorem lastLan_snoc (h : List Handled) (r : Handled) (p : PeerEntry) :
    lastLan (h ++ [r]) p = if r.peer = p then some r.lan else lastLan h p := by
  rw [lastLan, latest_snoc]
  by_cases hr : r.peer = p
  · rw [if_pos (decide_eq_true hr), if_pos hr, Option.map_some]
  · rw [if_neg (by simpa using hr), if_neg hr, ← lastLan]

/-- Who asked for a topic has reported an address. -/
theorem lastLan_of_listing {h : List Handled} {topic : UInt32} {p : PeerEntry} {t : Time}
    (ht : lastListing h topic p = some t) : ∃ lan, lastLan h p = some lan := by
  rw [lastListing, Option.map_eq_some_iff] at ht
  obtain ⟨r, hr, _⟩ := ht
  have himp : ∀ r : Handled, decide (r.peer = p ∧ topic ∈ r.topics) = true →
      decide (r.peer = p) = true := by
    intro r h
    rw [decide_eq_true_eq] at h ⊢
    exact h.1
  obtain ⟨r', hr'⟩ := latest_of_imp himp hr
  exact ⟨r'.lan, by rw [lastLan, hr', Option.map_some]⟩

/-! ### The invariant

A listed pair has its time; an unlisted one is out of term, or was never asked for. -/

structure Faithful (h : List Handled) (clock : Time) (s : State) : Prop where
  lan : ∀ p, s.lanOf[p]? = lastLan h p
  listed : ∀ topic p, s.Listed topic p → s.lastSeen[TopicPeer.mk topic p]? = lastListing h topic p
  unlisted : ∀ topic p t, ¬ s.Listed topic p → lastListing h topic p = some t →
    kRegistrationTtlSec < clock - t

theorem faithful_init (clock : Time) : Faithful [] clock {} where
  lan p := by
    rw [ExtTreeMap.getElem?_empty]
    rfl
  listed topic p h := by simp [State.Listed, State.peersOf] at h
  unlisted topic p t _ h := by cases h

/-- What expiry leaves listed is exactly what is fresh. -/
theorem faithful_fresh {h : List Handled} {clock now : Time} {s : State} (hs : Faithful h clock s)
    (hle : clock ≤ now) (cfg : Config) (topic : UInt32) (p : PeerEntry) :
    (pruneStale cfg now s).Listed topic p ↔ Fresh h now topic p := by
  rw [listed_pruneStale]
  constructor
  · intro ⟨hl, hstale⟩
    rw [hs.listed topic p hl] at hstale
    cases ht : lastListing h topic p with
    | none =>
      rw [ht, stale_none] at hstale
      cases hstale
    | some t =>
      refine ⟨t, ht, not_lt.mp fun hlt => ?_⟩
      rw [ht, (stale_some now t).mpr hlt] at hstale
      cases hstale
  · intro ⟨t, ht, hterm⟩
    have hl : s.Listed topic p := by
      by_contra hl
      have := hs.unlisted topic p t hl ht
      linarith
    refine ⟨hl, ?_⟩
    rw [hs.listed topic p hl, ht, ← Bool.not_eq_true, stale_some]
    exact not_lt.mpr hterm

/-- Expiry keeps the invariant and moves its clock. -/
theorem faithful_prune {h : List Handled} {clock now : Time} {s : State} (hs : Faithful h clock s)
    (hle : clock ≤ now) (cfg : Config) : Faithful h now (pruneStale cfg now s) where
  lan := hs.lan
  listed topic p hl := by
    obtain ⟨hl', hstale⟩ := (listed_pruneStale cfg now s topic p).mp hl
    rw [lastSeen_pruneStale, if_neg (by simp [hstale])]
    exact hs.listed topic p hl'
  unlisted topic p t hl ht := by
    rw [faithful_fresh hs hle cfg] at hl
    exact not_le.mp fun hterm => hl ⟨t, ht, hterm⟩

/-- A handled request joins the history. -/
theorem faithful_enroll {h : List Handled} {clock : Time} {s : State} (hs : Faithful h clock s)
    (r : Handled) : Faithful (h ++ [r]) clock (enroll r.time r.peer r.lan r.topics s) where
  lan p := by
    rw [enroll_lanOf, ExtTreeMap.getElem?_insert, lastLan_snoc, hs.lan p]
    exact if_congr Std.compare_eq_iff_eq rfl rfl
  listed topic p hl := by
    rw [enroll_lastSeen, lastListing_snoc]
    by_cases hr : p = r.peer ∧ topic ∈ r.topics
    · rw [if_pos hr, if_pos ⟨hr.1.symm, hr.2⟩]
    · rw [if_neg hr, if_neg fun h' => hr ⟨h'.1.symm, h'.2⟩]
      rcases (enroll_listed ..).mp hl with hl | hl
      · exact hs.listed topic p hl
      · exact absurd hl hr
  unlisted topic p t hl ht := by
    rw [enroll_listed, not_or] at hl
    rw [lastListing_snoc, if_neg fun h' => hl.2 ⟨h'.1.symm, h'.2⟩] at ht
    exact hs.unlisted topic p t hl.1 ht

theorem faithful_step (cfg : Config) {h : List Handled} {clock : Time} {s : State}
    (hs : Faithful h clock s) (turn : Turn) (hle : clock ≤ turn.pruneAt) :
    Faithful (h ++ (handledOf cfg turn).toList) turn.pruneAt (step cfg s turn).1 := by
  have hp := faithful_prune hs hle cfg
  unfold handledOf
  cases hreq : turn.request cfg with
  | none =>
    obtain ⟨htable, hseen, hlan⟩ := step_other s hreq
    rw [Option.map_none, Option.toList_none, List.append_nil]
    refine ⟨fun p => ?_, fun topic p hl => ?_, fun topic p t hl => ?_⟩
    · rw [hlan]
      exact hp.lan p
    · rw [State.Listed, State.peersOf, htable] at hl
      rw [hseen]
      exact hp.listed topic p hl
    · rw [State.Listed, State.peersOf, htable] at hl
      exact hp.unlisted topic p t hl
  | some r =>
    rw [step_request s hreq]
    exact faithful_enroll hp ⟨turn.handleAt, identity cfg r.1 r.2, selfReported r.2, r.2.topics⟩

/-- **The tables are the registry**, after every run. -/
theorem run_faithful (cfg : Config) (turns : List Turn) (hclock : Clocked turns) (clock : Time)
    (hle : ∀ turn ∈ turns, turn.pruneAt ≤ clock) :
    Faithful (history cfg turns) clock (run cfg {} turns) := by
  induction turns using List.reverseRecOn generalizing clock with
  | nil => exact faithful_init clock
  | append_singleton turns turn ih =>
    obtain ⟨hbefore, _, hlast⟩ := List.pairwise_append.mp hclock
    have hs := ih hbefore turn.pruneAt (fun a ha => hlast a ha turn (List.mem_singleton_self turn))
    have hstep := faithful_step cfg hs turn (le_refl _)
    have hhist : history cfg (turns ++ [turn]) = history cfg turns ++ (handledOf cfg turn).toList := by
      rw [history, List.filterMap_append]
      cases h : handledOf cfg turn <;> simp [history, h]
    rw [run_snoc, hhist]
    have hle' := hle turn (List.mem_append_right _ (List.mem_singleton_self turn))
    exact ⟨hstep.lan, hstep.listed, fun topic p t hl ht =>
      lt_of_lt_of_le (hstep.unlisted topic p t hl ht) (by linarith)⟩

end Relink.Rlcore
