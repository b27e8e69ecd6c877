import Mathlib.Data.Rat.Floor
import Mathlib.Data.List.Induction
import Mathlib.Data.List.Nodup
import Mathlib.Tactic.Linarith
import Relink.Library.Latest
import Relink.Rlcore.Server

/-! The standalone relay.

`handle_packet` of `relink_relay.cpp`: a REGISTER joins its topic's group, a data frame goes to
the group's members, and once in every second of the clock, after the first packet handled in
it, members that were silent too long are swept out. -/
namespace Relink.Relay
open Wire
open Rlcore (PeerEntry Time Send)
open Std (ExtTreeMap)

/-- A datagram that arrives, and when. -/
structure Arrival where
  now : Time
  src : PeerEntry
  bytes : Bytes
deriving DecidableEq

/-- `last_seen` is a `time_t`. -/
structure Member where
  addr : PeerEntry
  lastSeen : Int
deriving DecidableEq, Repr

def kMemberTtlSeconds : Int := 30

structure Standalone where
  groups : ExtTreeMap UInt32 (List Member) := ∅
  lastSweep : Int

/-- `std::time`. -/
def clockSecond (now : Time) : Int := ⌊now⌋

/-- `groups[topic_id]`. -/
def Standalone.group (s : Standalone) (topic : UInt32) : List Member := s.groups.getD topic []

/-- The search for the sender among the members. -/
def refresh (src : PeerEntry) (now : Int) : List Member → Option (List Member)
  | [] => none
  | m :: rest =>
    if m.addr = src then some ({m with lastSeen := now} :: rest)
    else (refresh src now rest).map (m :: ·)

def register (src : PeerEntry) (now : Int) (members : List Member) : List Member :=
  (refresh src now members).getD (members ++ [⟨src, now⟩])

def forward (members : List Member) (src : PeerEntry) (buf : Bytes) : List Send :=
  (members.filter fun m => m.addr ≠ src).map fun m => (m.addr, buf)

def sweep (now : Int) (s : Standalone) : Standalone :=
  if now ≠ s.lastSweep then
    { groups := s.groups.map fun _ members =>
        members.filter fun m => !decide (kMemberTtlSeconds < now - m.lastSeen)
      lastSweep := now }
  else s

def handlePacket (s : Standalone) (now : Int) (src : PeerEntry) (buf : Bytes) :
    Standalone × List Send :=
  match decodeRelayRegister buf with
  | some topic =>
    (sweep now {s with groups := s.groups.insert topic (register src now (s.group topic))}, [])
  | none =>
    match peekFrameTopicId buf with
    | some topic => (sweep now s, forward (s.group topic) src buf)
    | none => (sweep now s, [])

/-- The receive loop; what is longer than the buffer is cut, what is empty skipped. -/
def Standalone.step (s : Standalone) (a : Arrival) : Standalone × List Send :=
  let buf := a.bytes.take kMaxFrameBytes
  if buf = [] then (s, []) else handlePacket s (clockSecond a.now) a.src buf

def Standalone.run (s : Standalone) (arrivals : List Arrival) : Standalone :=
  arrivals.foldl (fun s a => (s.step a).1) s

/-! ### What a relay is for -/

structure Registration where
  time : Time
  src : PeerEntry
  topic : UInt32
deriving DecidableEq

/-- When an address last registered for a topic. -/
def lastRegister (h : List Registration) (topic : UInt32) (p : PeerEntry) : Option Time :=
  (History.latest (fun r => r.src = p ∧ r.topic = topic) h).map (·.time)

/-- The address's latest REGISTER for the topic is at most 30 seconds old. -/
def Current (h : List Registration) (now : Time) (topic : UInt32) (p : PeerEntry) : Prop :=
  ∃ t, lastRegister h topic p = some t ∧ now - t ≤ 30

/-- A data frame goes, byte for byte and once, to every current member except its source, and
to nobody else. -/
structure Forwards (h : List Registration) (now : Time) (topic : UInt32) (src : PeerEntry)
    (bytes : Bytes) (sends : List Send) : Prop where
  whole : ∀ d ∈ sends, d.2 = bytes
  once : (sends.map Prod.fst).Nodup
  members : ∀ p, p ∈ sends.map Prod.fst ↔ p ≠ src ∧ Current h now topic p

/-- A member address occurs once, a REGISTER makes its source a member, and but for that and
what expires the groups stay as they are. -/
structure KeepsMembers (h : List Registration) (now : Time) (joining : Option Registration)
    (before after : UInt32 → List PeerEntry) : Prop where
  once : ∀ topic, (after topic).Nodup
  joins : ∀ r ∈ joining, r.src ∈ after r.topic
  others : ∀ topic p, p ∈ after topic → p ∈ before topic ∨ ∃ r ∈ joining, r.src = p ∧ r.topic = topic
  stays : ∀ topic p, p ∈ before topic → Current h now topic p → p ∈ after topic

def Arrival.registration (a : Arrival) : Option Registration :=
  (decodeRelayRegister a.bytes).map fun topic => ⟨a.now, a.src, topic⟩

def Standalone.members (s : Standalone) (topic : UInt32) : List PeerEntry :=
  (s.group topic).map Member.addr

theorem lastRegister_snoc (h : List Registration) (r : Registration) (topic : UInt32)
    (p : PeerEntry) :
    lastRegister (h ++ [r]) topic p =
      if r.src = p ∧ r.topic = topic then some r.time else lastRegister h topic p := by
  rw [lastRegister, History.latest_snoc]
  by_cases hr : r.src = p ∧ r.topic = topic
  · rw [if_pos (decide_eq_true hr), if_pos hr, Option.map_some]
  · rw [if_neg (by simpa using hr), if_neg hr, ← lastRegister]

/-! ### Groups -/

theorem refresh_none {src : PeerEntry} {now : Int} {members : List Member} :
    refresh src now members = none ↔ src ∉ members.map Member.addr := by
  induction members with
  | nil => exact iff_of_true rfl List.not_mem_nil
  | cons m rest ih =>
    rw [refresh, List.map_cons, List.mem_cons, not_or]
    by_cases hm : m.addr = src
    · rw [if_pos hm]
      exact iff_of_false (by simp) fun h => h.1 hm.symm
    · rw [if_neg hm, Option.map_eq_none_iff, ih]
      exact (and_iff_right (Ne.symm hm)).symm

theorem refresh_addrs {src : PeerEntry} {now : Int} {members out : List Member}
    (h : refresh src now members = some out) :
    out.map Member.addr = members.map Member.addr := by
  induction members generalizing out with
  | nil => cases h
  | cons m rest ih =>
    rw [refresh] at h
    split at h
    · cases h
      rfl
    · obtain ⟨out', hout', rfl⟩ := Option.map_eq_some_iff.mp h
      rw [List.map_cons, List.map_cons, ih hout']

theorem mem_refresh {src : PeerEntry} {now : Int} {members out : List Member}
    (h : refresh src now members = some out) (hnodup : (members.map Member.addr).Nodup)
    (m : Member) : m ∈ out ↔ m = ⟨src, now⟩ ∨ (m ∈ members ∧ m.addr ≠ src) := by
  induction members generalizing out with
  | nil => cases h
  | cons m' rest ih =>
    obtain ⟨hfresh, hrest⟩ := List.nodup_cons.mp hnodup
    rw [refresh] at h
    by_cases hm' : m'.addr = src
    · rw [if_pos hm'] at h
      cases h
      have hapart : ∀ x ∈ rest, x.addr ≠ src := fun x hx heq =>
        hfresh (by rw [hm', ← heq]; exact List.mem_map_of_mem hx)
      rw [List.mem_cons, List.mem_cons, hm']
      refine or_congr_right ⟨fun hx => ⟨Or.inr hx, hapart m hx⟩, fun hx => ?_⟩
      exact hx.1.resolve_left fun heq => hx.2 (heq ▸ hm')
    · rw [if_neg hm'] at h
      obtain ⟨out', hout', rfl⟩ := Option.map_eq_some_iff.mp h
      rw [List.mem_cons, ih hout' hrest, List.mem_cons]
      constructor
      · rintro (rfl | hx | hx)
        · exact Or.inr ⟨Or.inl rfl, hm'⟩
        · exact Or.inl hx
        · exact Or.inr ⟨Or.inr hx.1, hx.2⟩
      · rintro (hx | ⟨rfl | hx, hne⟩)
        · exact Or.inr (Or.inl hx)
        · exact Or.inl rfl
        · exact Or.inr (Or.inr ⟨hx, hne⟩)

/-- A REGISTER sets its source's time, whether it was a member or not. -/
theorem mem_register {src : PeerEntry} {now : Int} {members : List Member}
    (hnodup : (members.map Member.addr).Nodup) (m : Member) :
    m ∈ register src now members ↔ m = ⟨src, now⟩ ∨ (m ∈ members ∧ m.addr ≠ src) := by
  rw [register]
  cases hr : refresh src now members with
  | some out => exact mem_refresh hr hnodup m
  | none =>
    have hapart : ∀ x ∈ members, x.addr ≠ src := fun x hx heq =>
      refresh_none.mp hr (heq ▸ List.mem_map_of_mem hx)
    rw [Option.getD_none, List.mem_append, List.mem_singleton, or_comm]
    exact or_congr_right ⟨fun hx => ⟨hx, hapart m hx⟩, fun hx => hx.1⟩

theorem register_nodup {src : PeerEntry} {now : Int} {members : List Member}
    (hnodup : (members.map Member.addr).Nodup) :
    ((register src now members).map Member.addr).Nodup := by
  rw [register]
  cases hr : refresh src now members with
  | some out =>
    rw [Option.getD_some, refresh_addrs hr]
    exact hnodup
  | none =>
    rw [Option.getD_none, List.map_append]
    refine List.Nodup.append hnodup (List.nodup_singleton _) ?_
    rw [List.disjoint_right]
    intro p hp
    obtain rfl := List.mem_singleton.mp hp
    exact refresh_none.mp hr

/-! ### What a packet does -/

/-- The registration of a packet, in its group. -/
def Standalone.join (s : Standalone) (r : Registration) : Standalone :=
  {s with groups :=
    s.groups.insert r.topic (register r.src (clockSecond r.time) (s.group r.topic))}

def Standalone.joins (s : Standalone) (joining : Option Registration) : Standalone :=
  joining.elim s s.join

theorem decodeRelayRegister_take (bytes : Bytes) :
    decodeRelayRegister (bytes.take kMaxFrameBytes) = decodeRelayRegister bytes := by
  by_cases hlen : bytes.length ≤ kMaxFrameBytes
  · rw [List.take_of_length_le hlen]
  · have hcut : (bytes.take kMaxFrameBytes).length ≠ 6 := by
      rw [List.length_take, Nat.min_eq_left (by omega)]
      decide
    have hlong : bytes.length ≠ 6 := fun h => hlen (h ▸ by decide)
    rw [decodeRelayRegister, decodeRelayRegister, if_pos (Or.inl hcut), if_pos (Or.inl hlong)]

/-- A packet that is there is handled in two strokes: it joins, and what is due is swept. -/
theorem step_state (s : Standalone) {a : Arrival} (ha : a.bytes ≠ []) :
    (s.step a).1 = sweep (clockSecond a.now) (s.joins a.registration) := by
  have hcut : a.bytes.take kMaxFrameBytes ≠ [] := by
    rw [Ne, List.take_eq_nil_iff, not_or]
    exact ⟨by decide, ha⟩
  rw [Standalone.step]
  simp only [if_neg hcut, handlePacket, decodeRelayRegister_take, Arrival.registration]
  cases decodeRelayRegister a.bytes with
  | some topic => rfl
  | none => cases peekFrameTopicId (a.bytes.take kMaxFrameBytes) <;> rfl

theorem step_empty (s : Standalone) {a : Arrival} (ha : a.bytes = []) : s.step a = (s, []) := by
  rw [Standalone.step, ha]
  rfl

theorem Standalone.join_group (s : Standalone) (r : Registration) (topic : UInt32) :
    (s.join r).group topic =
      if r.topic = topic then register r.src (clockSecond r.time) (s.group topic)
      else s.group topic := by
  rw [Standalone.group, Standalone.join, ExtTreeMap.getD_insert]
  by_cases htopic : r.topic = topic
  · subst htopic
    rw [if_pos Std.ReflOrd.compare_self, if_pos rfl]
  · rw [if_neg (by rwa [Std.compare_eq_iff_eq]), if_neg htopic, Standalone.group]

theorem mem_join {s : Standalone} {topic : UInt32} {m : Member} (r : Registration)
    (hnodup : ((s.group topic).map Member.addr).Nodup) :
    m ∈ (s.join r).group topic ↔
      (r.topic = topic ∧ m = ⟨r.src, clockSecond r.time⟩) ∨
        (m ∈ s.group topic ∧ ¬ (r.src = m.addr ∧ r.topic = topic)) := by
  rw [s.join_group r topic]
  by_cases htopic : r.topic = topic
  · rw [if_pos htopic, mem_register hnodup]
    simp only [htopic, true_and, and_true, Ne, eq_comm]
  · rw [if_neg htopic]
    simp [htopic]

theorem sweep_lastSweep (now : Int) (s : Standalone) : (sweep now s).lastSweep = now := by
  unfold sweep
  split
  · rfl
  · next h => exact (not_not.mp h).symm

theorem sweep_group (now : Int) (s : Standalone) (topic : UInt32) :
    (sweep now s).group topic =
      if now ≠ s.lastSweep then
        (s.group topic).filter fun m => !decide (kMemberTtlSeconds < now - m.lastSeen)
      else s.group topic := by
  unfold sweep
  split
  · rw [Standalone.group, ExtTreeMap.getD_map, Standalone.group, ExtTreeMap.getD_eq_getD_getElem?]
    cases s.groups[topic]? <;> rfl
  · rfl

/-- Whoever stays in a group was there, and is not due when the second is swept. -/
theorem mem_sweep {now : Int} {s : Standalone} {topic : UInt32} {m : Member} :
    m ∈ (sweep now s).group topic ↔
      m ∈ s.group topic ∧ (now ≠ s.lastSweep → now - m.lastSeen ≤ kMemberTtlSeconds) := by
  rw [sweep_group]
  by_cases h : now ≠ s.lastSweep
  · rw [if_pos h, List.mem_filter, Bool.not_eq_true', decide_eq_false_iff_not, not_lt]
    exact and_congr_right fun _ => ⟨fun hle _ => hle, fun hle => hle h⟩
  · rw [if_neg h]
    exact (and_iff_left fun h' => absurd h' h).symm

/-! ### The invariant

A member's time is that of its address's latest REGISTER, and an address that has registered
and is no member was swept out by a packet past its term. -/

/-- The registrations of some arrivals. -/
def registrations (h : List Arrival) : List Registration := h.filterMap Arrival.registration

structure Sound (h : List Arrival) (s : Standalone) : Prop where
  once : ∀ topic, ((s.group topic).map Member.addr).Nodup
  seen : ∀ topic, ∀ m ∈ s.group topic,
    ∃ t, lastRegister (registrations h) topic m.addr = some t ∧ m.lastSeen = clockSecond t
  kept : ∀ topic, ∀ m ∈ s.group topic, s.lastSweep - m.lastSeen ≤ kMemberTtlSeconds
  gone : ∀ topic p t, lastRegister (registrations h) topic p = some t → p ∉ s.members topic →
    ∃ b ∈ h, b.bytes ≠ [] ∧ kMemberTtlSeconds < clockSecond b.now - clockSecond t

variable {h : List Arrival} {s : Standalone} {a : Arrival}

theorem registrations_snoc :
    registrations (h ++ [a]) = registrations h ++ a.registration.toList := by
  rw [registrations, List.filterMap_append]
  cases hr : a.registration <;> simp [registrations, hr]

theorem Arrival.registration_some {r : Registration} (hr : a.registration = some r) :
    r.time = a.now ∧ r.src = a.src ∧ a.bytes ≠ [] := by
  obtain ⟨topic, htopic, rfl⟩ := Option.map_eq_some_iff.mp hr
  refine ⟨rfl, rfl, fun hnil => ?_⟩
  rw [hnil] at htopic
  cases htopic

/-- A packet joins. -/
theorem Sound.joins (hs : Sound h s) (hclock : s.lastSweep ≤ clockSecond a.now) :
    Sound (h ++ [a]) (s.joins a.registration) := by
  rw [Standalone.joins]
  cases hr : a.registration with
  | none =>
    have hregs : registrations (h ++ [a]) = registrations h := by
      rw [registrations_snoc, hr, Option.toList_none, List.append_nil]
    refine ⟨hs.once, fun topic m hm => ?_, hs.kept, fun topic p t ht hp => ?_⟩
    · rw [hregs]
      exact hs.seen topic m hm
    · rw [hregs] at ht
      obtain ⟨b, hb, hlate⟩ := hs.gone topic p t ht hp
      exact ⟨b, List.mem_append_left _ hb, hlate⟩
  | some r =>
    obtain ⟨htime, -, -⟩ := Arrival.registration_some hr
    have hregs : ∀ topic p, lastRegister (registrations (h ++ [a])) topic p =
        if r.src = p ∧ r.topic = topic then some r.time
        else lastRegister (registrations h) topic p := by
      intro topic p
      rw [registrations_snoc, hr, Option.toList_some, lastRegister_snoc]
    have hmem := fun topic m => mem_join (m := m) r (hs.once topic)
    refine ⟨fun topic => ?_, fun topic m hm => ?_, fun topic m hm => ?_, fun topic p t ht hp => ?_⟩
    · rw [Option.elim_some, s.join_group r topic]
      split
      · exact register_nodup (hs.once topic)
      · exact hs.once topic
    · rcases (hmem topic m).mp hm with ⟨htopic, rfl⟩ | ⟨hm, hne⟩
      · exact ⟨r.time, by rw [hregs, if_pos ⟨rfl, htopic⟩], rfl⟩
      · rw [hregs, if_neg hne]
        exact hs.seen topic m hm
    · rcases (hmem topic m).mp hm with ⟨-, rfl⟩ | ⟨hm, -⟩
      · show s.lastSweep - clockSecond r.time ≤ 30
        rw [htime]
        omega
      · exact hs.kept topic m hm
    · have hapart : ¬ (r.src = p ∧ r.topic = topic) := fun ⟨hsrc, htopic⟩ =>
        hp (List.mem_map.mpr ⟨_, (hmem topic _).mpr (Or.inl ⟨htopic, rfl⟩), hsrc⟩)
      rw [hregs, if_neg hapart] at ht
      have hbefore : p ∉ s.members topic := fun hin => by
        obtain ⟨m, hm, rfl⟩ := List.mem_map.mp hin
        exact hp (List.mem_map_of_mem ((hmem topic m).mpr (Or.inr ⟨hm, hapart⟩)))
      obtain ⟨b, hb, hlate⟩ := hs.gone topic p t ht hbefore
      exact ⟨b, List.mem_append_left _ hb, hlate⟩

/-- What is swept out is past its term at the packet handled last. -/
theorem Sound.sweep (hs : Sound (h ++ [a]) s) (ha : a.bytes ≠ []) :
    Sound (h ++ [a]) (sweep (clockSecond a.now) s) where
  once topic := by
    rw [sweep_group]
    split
    · exact (List.filter_sublist.map _).nodup (hs.once topic)
    · exact hs.once topic
  seen topic m hm := hs.seen topic m (mem_sweep.mp hm).1
  kept topic m hm := by
    obtain ⟨hm, hdue⟩ := mem_sweep.mp hm
    rw [sweep_lastSweep]
    by_cases hnow : clockSecond a.now = s.lastSweep
    · rw [hnow]
      exact hs.kept topic m hm
    · exact hdue hnow
  gone topic p t ht hp := by
    by_cases hin : p ∈ s.members topic
    · obtain ⟨m, hm, rfl⟩ := List.mem_map.mp hin
      obtain ⟨t', ht', hseen⟩ := hs.seen topic m hm
      rw [ht, Option.some.injEq] at ht'
      refine ⟨a, List.mem_append_right _ (List.mem_singleton_self a), ha, ?_⟩
      rw [ht', ← hseen]
      by_contra hkept
      exact hp (List.mem_map_of_mem (mem_sweep.mpr ⟨hm, fun _ => not_lt.mp hkept⟩))
    · exact hs.gone topic p t ht hin

/-- Arrivals after the start, under a clock that does not go back. -/
def Clocked (start : Time) (arrivals : List Arrival) : Prop :=
  (∀ a ∈ arrivals, start ≤ a.now) ∧ arrivals.Pairwise fun a b => a.now ≤ b.now

/-- A relay that has just started. -/
def started (start : Time) : Standalone := {lastSweep := clockSecond start}

theorem clockSecond_mono {t t' : Time} (hle : t ≤ t') : clockSecond t ≤ clockSecond t' :=
  Int.floor_le_floor hle

theorem Sound.step (hs : Sound h s) (hclock : s.lastSweep ≤ clockSecond a.now) :
    Sound (h ++ [a]) (s.step a).1 := by
  by_cases ha : a.bytes = []
  · have hreg : a.registration = none := by
      rw [Arrival.registration, ha]
      rfl
    have := hs.joins hclock
    rw [hreg] at this
    rw [step_empty s ha]
    exact this
  · rw [step_state s ha]
    exact (hs.joins hclock).sweep ha

/-- **The groups are the registrations** of the run, less what was swept out. -/
theorem run_sound {start : Time} {arrivals : List Arrival} (hclock : Clocked start arrivals) :
    Sound arrivals ((started start).run arrivals) ∧
      (∀ b ∈ arrivals, b.bytes ≠ [] →
        clockSecond b.now ≤ ((started start).run arrivals).lastSweep) ∧
      ∀ now, start ≤ now → (∀ b ∈ arrivals, b.now ≤ now) →
        ((started start).run arrivals).lastSweep ≤ clockSecond now := by
  induction arrivals using List.reverseRecOn with
  | nil =>
    have hempty : ∀ topic, ((started start).run []).group topic = [] := fun topic => rfl
    refine ⟨⟨fun topic => ?_, fun topic m hm => ?_, fun topic m hm => ?_, fun topic p t ht => ?_⟩,
      (fun b hb => absurd hb List.not_mem_nil), fun now hle _ => clockSecond_mono hle⟩
    · rw [hempty]
      exact List.nodup_nil
    · rw [hempty] at hm
      cases hm
    · rw [hempty] at hm
      cases hm
    · cases ht
  | append_singleton arrivals a ih =>
    obtain ⟨hbefore, -, hlast⟩ := List.pairwise_append.mp hclock.2
    obtain ⟨hs, hswept, hfuture⟩ := ih
      ⟨fun b hb => hclock.1 b (List.mem_append_left _ hb), hbefore⟩
    have hmem : a ∈ arrivals ++ [a] := List.mem_append_right _ (List.mem_singleton_self a)
    have hle := hfuture a.now (hclock.1 a hmem) fun b hb => hlast b hb a (List.mem_singleton_self a)
    have hrun : (started start).run (arrivals ++ [a]) = (((started start).run arrivals).step a).1 := by
      rw [Standalone.run, List.foldl_append]
      rfl
    rw [hrun]
    refine ⟨hs.step hle, fun b hb hne => ?_, fun now hstart hall => ?_⟩
    · rcases List.mem_append.mp hb with hb | hb
      · have hold := hswept b hb hne
        by_cases ha : a.bytes = []
        · rw [step_empty _ ha]
          exact hold
        · rw [step_state _ ha, sweep_lastSweep]
          exact hold.trans hle
      · obtain rfl := List.mem_singleton.mp hb
        rw [step_state _ hne, sweep_lastSweep]
    · by_cases ha : a.bytes = []
      · rw [step_empty _ ha]
        exact hfuture now hstart fun b hb => hall b (List.mem_append_left _ hb)
      · rw [step_state _ ha, sweep_lastSweep]
        exact clockSecond_mono (hall a hmem)

end Relink.Relay
