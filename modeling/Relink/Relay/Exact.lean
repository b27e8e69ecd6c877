import Relink.Relay.Standalone
import Relink.Rlcore.History

/-! What the two relays forward.

rlcore prunes its groups before every packet, so that who gets a frame is exactly who is
current. The standalone relay sweeps after the packet and once a second: a frame that
is the first packet after a member's term still goes to it. `relay_exact` says between which
arrivals that happens. -/
namespace Relink.Relay
open LittleEndian Wire
open Rlcore (PeerEntry Time Send Config State Turn Datagram)
open Std (ExtTreeMap)

/-! ### The standalone relay -/

variable {start : Time} {arrivals : List Arrival} {a : Arrival} {topic : UInt32} {p : PeerEntry}

/-- No packet was handled past the member's term. -/
theorem member_iff (hclock : Clocked start arrivals) :
    p ∈ ((started start).run arrivals).members topic ↔
      ∃ t, lastRegister (registrations arrivals) topic p = some t ∧
        ∀ b ∈ arrivals, b.bytes ≠ [] → clockSecond b.now - clockSecond t ≤ kMemberTtlSeconds := by
  obtain ⟨hs, hswept, -⟩ := run_sound hclock
  constructor
  · intro hp
    obtain ⟨m, hm, rfl⟩ := List.mem_map.mp hp
    obtain ⟨t, ht, hseen⟩ := hs.seen topic m hm
    refine ⟨t, ht, fun b hb hne => ?_⟩
    have hkept := hs.kept topic m hm
    have hle := hswept b hb hne
    omega
  · intro ⟨t, ht, hall⟩
    by_contra hp
    obtain ⟨b, hb, hne, hlate⟩ := hs.gone topic p t ht hp
    exact absurd (hall b hb hne) (not_le.mpr hlate)

/-- A whole clock second less is less than a second. -/
theorem clockSecond_sub_le {t now : Time} (hle : now - t ≤ 30) :
    clockSecond now - clockSecond t ≤ kMemberTtlSeconds := by
  have hfloor : clockSecond now ≤ clockSecond (t + 30) := clockSecond_mono (by linarith)
  have hadd : clockSecond (t + 30) = clockSecond t + 30 := by
    rw [clockSecond, clockSecond, ← Int.floor_add_intCast]
    rfl
  rw [kMemberTtlSeconds]
  omega

/-- By the time a frame comes, every other address whose REGISTER is out of term has
been swept out by another packet. -/
def Swept (before : List Arrival) (a : Arrival) (topic : UInt32) : Prop :=
  ∀ p, p ≠ a.src → ∀ t, lastRegister (registrations before) topic p = some t → 30 < a.now - t →
    ∃ b ∈ before, b.bytes ≠ [] ∧ kMemberTtlSeconds < clockSecond b.now - clockSecond t

/-- A frame that somebody is to get fits the buffer. -/
def Fits (before : List Arrival) (a : Arrival) (topic : UInt32) : Prop :=
  ∀ p, p ≠ a.src → Current (registrations before) a.now topic p → a.bytes.length ≤ kMaxFrameBytes

theorem peekFrameTopicId_take (bytes : Bytes) :
    peekFrameTopicId (bytes.take kMaxFrameBytes) = peekFrameTopicId bytes := by
  by_cases hlen : bytes.length ≤ kMaxFrameBytes
  · rw [List.take_of_length_le hlen]
  · have hcut : (bytes.take kMaxFrameBytes).length = kMaxFrameBytes := by
      rw [List.length_take, Nat.min_eq_left (by omega)]
    have hfirst : (bytes.take kMaxFrameBytes).getD 0 0 = bytes.getD 0 0 := by
      cases bytes <;> rfl
    have htopic : readU32 1 (bytes.take kMaxFrameBytes) = readU32 1 bytes := by
      simp only [readU32, LittleEndian.read]
      rw [List.drop_take, List.take_take]
      rfl
    rw [peekFrameTopicId, peekFrameTopicId, hcut, hfirst, htopic]
    have : ¬ kMaxFrameBytes < 1 + kHeaderBytes := by decide
    have : ¬ bytes.length < 1 + kHeaderBytes := fun h => hlen (h.le.trans (by decide))
    simp only [*, false_or]

/-- A REGISTER is no data frame. -/
theorem register_not_frame {bytes : Bytes} (hframe : peekFrameTopicId bytes = some topic) :
    decodeRelayRegister bytes = none ∧ bytes ≠ [] := by
  rw [peekFrameTopicId] at hframe
  split at hframe
  · cases hframe
  · next h =>
    rw [not_or] at h
    have hlen : ¬ bytes.length < 1 + kHeaderBytes := h.1
    have hlong : bytes.length ≠ 6 := fun h6 => hlen (h6 ▸ by decide)
    refine ⟨if_pos (Or.inl hlong), fun hnil => hlen ?_⟩
    rw [hnil]
    decide

theorem step_sends (s : Standalone) (hframe : peekFrameTopicId a.bytes = some topic) :
    (s.step a).2 = forward (s.group topic) a.src (a.bytes.take kMaxFrameBytes) := by
  obtain ⟨hreg, hne⟩ := register_not_frame hframe
  have hcut : a.bytes.take kMaxFrameBytes ≠ [] := by
    rw [Ne, List.take_eq_nil_iff, not_or]
    exact ⟨by decide, hne⟩
  rw [Standalone.step]
  simp only [if_neg hcut, handlePacket, decodeRelayRegister_take, hreg, peekFrameTopicId_take,
    hframe]

theorem forward_dests (members : List Member) (src : PeerEntry) (buf : Bytes) :
    (forward members src buf).map Prod.fst = (members.map Member.addr).filter (· ≠ src) := by
  rw [forward, List.map_map, List.filter_map]
  rfl

/-- **The standalone relay forwards exactly** what fits and to whom it should, if and only if
whoever should not get it has been swept out. -/
theorem standalone_forwards_iff (hclock : Clocked start (arrivals ++ [a]))
    (hframe : peekFrameTopicId a.bytes = some topic) :
    Forwards (registrations arrivals) a.now topic a.src a.bytes
        (((started start).run arrivals).step a).2 ↔
      Swept arrivals a topic ∧ Fits arrivals a topic := by
  obtain ⟨hbefore, -, hlast⟩ := List.pairwise_append.mp hclock.2
  have hprefix : Clocked start arrivals :=
    ⟨fun b hb => hclock.1 b (List.mem_append_left _ hb), hbefore⟩
  have hdest : ∀ p, p ∈ (((started start).run arrivals).step a).2.map Prod.fst ↔
      p ≠ a.src ∧ p ∈ ((started start).run arrivals).members topic := by
    intro p
    rw [step_sends _ hframe, forward_dests, List.mem_filter, decide_eq_true_eq, and_comm]
    rfl
  have hcurrent : ∀ p, Current (registrations arrivals) a.now topic p →
      p ∈ ((started start).run arrivals).members topic := by
    intro p ⟨t, ht, hterm⟩
    refine (member_iff hprefix).mpr ⟨t, ht, fun b hb _ => ?_⟩
    have := hlast b hb a (List.mem_singleton_self a)
    exact clockSecond_sub_le (by linarith)
  constructor
  · intro h
    refine ⟨fun p hne t ht hterm => ?_, fun p hne hp => ?_⟩
    · -- who is out of term gets nothing, so is no member
      by_contra hall
      have hmember : p ∈ ((started start).run arrivals).members topic :=
        (member_iff hprefix).mpr ⟨t, ht, fun b hb hb' =>
          not_lt.mp fun hlate => hall ⟨b, hb, hb', hlate⟩⟩
      obtain ⟨-, t', ht', hterm'⟩ := (h.members p).mp ((hdest p).mpr ⟨hne, hmember⟩)
      rw [ht, Option.some.injEq] at ht'
      linarith
    · obtain ⟨d, hd, -⟩ := List.mem_map.mp ((h.members p).mpr ⟨hne, hp⟩)
      have hwhole := h.whole d hd
      rw [step_sends _ hframe] at hd
      obtain ⟨m, -, rfl⟩ := List.mem_map.mp hd
      have hlen := congrArg List.length hwhole
      rw [List.length_take] at hlen
      omega
  · intro ⟨hswept, hfits⟩
    have hmember : ∀ p, p ≠ a.src → p ∈ ((started start).run arrivals).members topic →
        Current (registrations arrivals) a.now topic p := by
      intro p hne hp
      obtain ⟨t, ht, hall⟩ := (member_iff hprefix).mp hp
      refine ⟨t, ht, not_lt.mp fun hterm => ?_⟩
      obtain ⟨b, hb, hb', hlate⟩ := hswept p hne t ht hterm
      exact absurd (hall b hb hb') (not_le.mpr hlate)
    refine ⟨fun d hd => ?_, ?_, fun p => ?_⟩
    · obtain ⟨hne, hp⟩ := (hdest d.1).mp (List.mem_map_of_mem hd)
      rw [step_sends _ hframe] at hd
      obtain ⟨m, -, rfl⟩ := List.mem_map.mp hd
      exact List.take_of_length_le (hfits _ hne (hmember _ hne hp))
    · rw [step_sends _ hframe, forward_dests]
      exact ((run_sound hprefix).1.once topic).filter _
    · rw [hdest]
      exact and_congr_right fun hne => ⟨hmember p hne, hcurrent p⟩

/-- Its groups change by REGISTERs and by expiry only. -/
theorem standalone_keepsMembers (hclock : Clocked start (arrivals ++ [a])) :
    KeepsMembers (registrations arrivals) a.now a.registration
      ((started start).run arrivals).members (((started start).run arrivals).step a).1.members := by
  obtain ⟨hbefore, -, hlast⟩ := List.pairwise_append.mp hclock.2
  have hprefix : Clocked start arrivals :=
    ⟨fun b hb => hclock.1 b (List.mem_append_left _ hb), hbefore⟩
  have hmem : a ∈ arrivals ++ [a] := List.mem_append_right _ (List.mem_singleton_self a)
  obtain ⟨hs, -, hfuture⟩ := run_sound hprefix
  have hle := hfuture a.now (hclock.1 a hmem) fun b hb => hlast b hb a (List.mem_singleton_self a)
  generalize (started start).run arrivals = s at hs hle
  have hafter := hs.step hle
  by_cases hempty : a.bytes = []
  · have hreg : a.registration = none := by
      rw [Arrival.registration, hempty]
      rfl
    rw [hreg, step_empty s hempty]
    exact ⟨hs.once, (fun r hr => by cases hr), fun topic p hp => Or.inl hp, fun topic p hp _ => hp⟩
  · rw [step_state s hempty] at hafter ⊢
    have hjoins : ∀ r, a.registration = some r →
        r.src ∈ (sweep (clockSecond a.now) (s.joins a.registration)).members r.topic := by
      intro r hr
      obtain ⟨htime, -, -⟩ := Arrival.registration_some hr
      refine List.mem_map.mpr ⟨⟨r.src, clockSecond r.time⟩, mem_sweep.mpr ⟨?_, fun _ => ?_⟩, rfl⟩
      · rw [hr]
        exact (mem_join r (hs.once _)).mpr (Or.inl ⟨rfl, rfl⟩)
      · rw [htime, sub_self]
        decide
    refine ⟨hafter.once, hjoins, fun topic p hp => ?_, fun topic p hp hcur => ?_⟩
    · obtain ⟨m, hm, rfl⟩ := List.mem_map.mp hp
      have hin := (mem_sweep.mp hm).1
      cases hr : a.registration with
      | none =>
        rw [hr] at hin
        exact Or.inl (List.mem_map_of_mem hin)
      | some r =>
        rw [hr] at hin
        rcases (mem_join r (hs.once topic)).mp hin with ⟨htopic, rfl⟩ | ⟨hin, -⟩
        · exact Or.inr ⟨r, rfl, rfl, htopic⟩
        · exact Or.inl (List.mem_map_of_mem hin)
    · obtain ⟨m, hm, rfl⟩ := List.mem_map.mp hp
      obtain ⟨t, ht, hseen⟩ := hs.seen topic m hm
      obtain ⟨t', ht', hterm⟩ := hcur
      obtain rfl := Option.some.inj (ht.symm.trans ht')
      have hstays : clockSecond a.now - m.lastSeen ≤ kMemberTtlSeconds := by
        rw [hseen]
        exact clockSecond_sub_le hterm
      cases hr : a.registration with
      | none => exact List.mem_map_of_mem (mem_sweep.mpr ⟨hm, fun _ => hstays⟩)
      | some r =>
        by_cases hself : r.src = m.addr ∧ r.topic = topic
        · rw [← hself.1, ← hself.2, ← hr]
          exact hjoins r hr
        · exact List.mem_map_of_mem
            (mem_sweep.mpr ⟨(mem_join r (hs.once topic)).mpr (Or.inr ⟨hm, hself⟩), fun _ => hstays⟩)

/-! ### The relay of rlcore -/

section
variable {cfg : Config} {s : State} {turn : Turn} {now : Time}

/-- `relay_groups[topic]`. -/
def relayGroup (s : State) (topic : UInt32) : ExtTreeMap PeerEntry Time :=
  s.relayGroups.getD topic ∅

def relayMembers (s : State) (topic : UInt32) : List PeerEntry := (relayGroup s topic).keys

def turnRegistration (turn : Turn) : Option Registration :=
  turn.datagram.bind fun d => (decodeRelayRegister d.bytes).map fun t => ⟨turn.handleAt, d.src, t⟩

theorem turnRegistration_time {r : Registration} (hr : turnRegistration turn = some r) :
    r.time = turn.handleAt := by
  obtain ⟨d, -, hd⟩ := Option.bind_eq_some_iff.mp hr
  obtain ⟨t, -, rfl⟩ := Option.map_eq_some_iff.mp hd
  rfl

def turnRegistrations (turns : List Turn) : List Registration := turns.filterMap turnRegistration

theorem pruneGroups_getD (groups : ExtTreeMap UInt32 (ExtTreeMap PeerEntry Time)) (topic : UInt32) :
    (Rlcore.pruneGroups now groups).getD topic ∅ =
      Rlcore.pruneMembers now (groups.getD topic ∅) := by
  rw [ExtTreeMap.getD_eq_getD_getElem?, Rlcore.pruneGroups_getElem?,
    ExtTreeMap.getD_eq_getD_getElem?]
  cases groups[topic]? with
  | none => rfl
  | some members =>
    rw [Option.map_some, Option.filter_some, Option.getD_some]
    cases hempty : (Rlcore.pruneMembers now members).isEmpty with
    | true => exact (ExtTreeMap.isEmpty_iff.mp hempty).symm
    | false => rfl

/-- Who is left in a group is not due. -/
theorem pruned_relayGroup (hrelay : cfg.relayMode = true) (topic : UInt32) (p : PeerEntry) :
    (relayGroup (Rlcore.pruneStale cfg now s) topic)[p]? =
      (relayGroup s topic)[p]?.filter fun t => !decide (Rlcore.kRelayMemberTtlSec < now - t) := by
  have hgroups : (Rlcore.pruneStale cfg now s).relayGroups =
      Rlcore.pruneGroups now s.relayGroups := by
    simp only [Rlcore.pruneStale, hrelay, if_true]
  rw [relayGroup, hgroups, pruneGroups_getD, Rlcore.pruneMembers_getElem?, relayGroup]

/-! ### Which packets are the relay's -/

theorem dispatch_register {buf : Bytes} (h : decodeRelayRegister buf = some topic) :
    Rlcore.dispatch true buf = .relayRegister topic := by
  have h' := h
  rw [decodeRelayRegister] at h
  split at h
  · cases h
  · next hform =>
    push Not at hform
    obtain ⟨hname, hrole⟩ := not_directory (by omega) (Or.inl hform.2.2)
    simp only [Rlcore.dispatch, hname, Rlcore.roleDispatch, hrole, if_true, Rlcore.relayDispatch, h']

theorem dispatch_frame {buf : Bytes} (h : peekFrameTopicId buf = some topic) :
    Rlcore.dispatch true buf = .dataFrame topic := by
  obtain ⟨hreg, -⟩ := register_not_frame h
  have h' := h
  rw [peekFrameTopicId] at h
  split at h
  · cases h
  · next hform =>
    push Not at hform
    have hlen : 4 ≤ buf.length := le_trans (by decide) hform.1
    obtain ⟨hname, hrole⟩ := not_directory hlen (Or.inr hform.2)
    simp only [Rlcore.dispatch, hname, Rlcore.roleDispatch, hrole, if_true, Rlcore.relayDispatch,
      hreg, h']

theorem dispatch_register_iff {buf : Bytes} :
    Rlcore.dispatch true buf = .relayRegister topic ↔ decodeRelayRegister buf = some topic := by
  refine ⟨fun h => ?_, dispatch_register⟩
  unfold Rlcore.dispatch Rlcore.roleDispatch Rlcore.relayDispatch at h
  split at h <;> try cases h
  split at h <;> try cases h
  rw [if_pos rfl] at h
  split at h
  · next hreg => rw [hreg]; cases h; rfl
  · split at h <;> cases h

theorem handle_relayGroups (hrelay : cfg.relayMode = true) (now : Time) (nonce : Crypto.Nonce)
    {d : Datagram} (hreg : decodeRelayRegister d.bytes = none) (s : State) :
    (Rlcore.handle cfg now nonce d s).1.relayGroups = s.relayGroups := by
  rw [Rlcore.handle, hrelay]
  cases hd : Rlcore.dispatch true d.bytes with
  | relayRegister topic =>
    rw [dispatch_register_iff.mp hd] at hreg
    cases hreg
  | topicAnnounce =>
    simp only [Rlcore.handleTopicAnnounce]
    split <;> rfl
  | roleAnnounce =>
    simp only [Rlcore.handleRoleAnnounce]
    split
    · rfl
    · exact Transition.foldl_invariant (fun t : State => t.relayGroups = s.relayGroups)
        (fun _ => True) (Rlcore.announceRole now d.src) (fun _ _ ht _ => ht) _ s rfl
        (fun _ _ => trivial)
  | registration =>
    simp only [Rlcore.handleRegistration]
    split
    · rfl
    · exact (Rlcore.enroll_others ..).2.2.1
  | topicQuery | topicReply | roleQuery | roleReply | dataFrame topic => rfl

/-- The groups change by expiry and by a REGISTER. -/
theorem step_relayGroups (hrelay : cfg.relayMode = true) (s : State) (turn : Turn) :
    (Rlcore.step cfg s turn).1.relayGroups =
      (turnRegistration turn).elim (Rlcore.pruneStale cfg turn.pruneAt s).relayGroups fun r =>
        (Rlcore.pruneStale cfg turn.pruneAt s).relayGroups.insert r.topic
          ((relayGroup (Rlcore.pruneStale cfg turn.pruneAt s) r.topic).insert r.src r.time) := by
  rw [Rlcore.step]
  generalize Rlcore.pruneStale cfg turn.pruneAt s = pruned
  rw [turnRegistration]
  cases turn.datagram with
  | none => rfl
  | some d =>
    rw [Option.bind_some]
    by_cases hempty : d.bytes = []
    · simp only [hempty, if_true]
      rfl
    simp only [if_neg hempty]
    cases hreg : decodeRelayRegister d.bytes with
    | none => exact handle_relayGroups hrelay _ _ hreg _
    | some topic =>
      simp only [Rlcore.handle, hrelay, dispatch_register hreg]
      rfl

theorem step_relayGroup (hrelay : cfg.relayMode = true) (s : State) (turn : Turn) (topic : UInt32)
    (p : PeerEntry) :
    (relayGroup (Rlcore.step cfg s turn).1 topic)[p]? =
      if ∃ r ∈ turnRegistration turn, r.src = p ∧ r.topic = topic then some turn.handleAt
      else (relayGroup (Rlcore.pruneStale cfg turn.pruneAt s) topic)[p]? := by
  rw [relayGroup, step_relayGroups hrelay]
  cases hr : turnRegistration turn with
  | none =>
    rw [if_neg (by simp)]
    rfl
  | some r =>
    simp only [Option.elim_some, Option.mem_some_iff, exists_eq_left']
    rw [ExtTreeMap.getD_insert]
    by_cases htopic : r.topic = topic
    · subst htopic
      rw [if_pos Std.ReflOrd.compare_self, ExtTreeMap.getElem?_insert, turnRegistration_time hr]
      simp only [Std.compare_eq_iff_eq, and_true]
    · rw [if_neg (by rwa [Std.compare_eq_iff_eq]), if_neg fun h => htopic h.2]
      rfl

/-! ### Its invariant -/

/-- A member's time is that of its address's latest REGISTER, and who has registered and is no
member is past the term. -/
structure Relayed (h : List Registration) (clock : Time) (s : State) : Prop where
  listed : ∀ topic p t, (relayGroup s topic)[p]? = some t → lastRegister h topic p = some t
  unlisted : ∀ topic p t, (relayGroup s topic)[p]? = none → lastRegister h topic p = some t →
    30 < clock - t

theorem Relayed.prune {h : List Registration} {clock : Time} (hs : Relayed h clock s)
    (hrelay : cfg.relayMode = true) (hle : clock ≤ now) (topic : UInt32) (p : PeerEntry) (t : Time) :
    (relayGroup (Rlcore.pruneStale cfg now s) topic)[p]? = some t ↔
      lastRegister h topic p = some t ∧ now - t ≤ 30 := by
  rw [pruned_relayGroup hrelay, Option.filter_eq_some_iff, Bool.not_eq_true',
    decide_eq_false_iff_not, not_lt]
  constructor
  · intro ⟨hget, hterm⟩
    exact ⟨hs.listed topic p t hget, hterm⟩
  · intro ⟨ht, hterm⟩
    refine ⟨?_, hterm⟩
    cases hget : (relayGroup s topic)[p]? with
    | none =>
      have := hs.unlisted topic p t hget ht
      linarith
    | some t' =>
      have := hs.listed topic p t' hget
      rw [ht, Option.some.injEq] at this
      rw [this]

theorem Relayed.step {h : List Registration} {clock : Time} (hs : Relayed h clock s)
    (hrelay : cfg.relayMode = true) (hle : clock ≤ turn.pruneAt) :
    Relayed (h ++ (turnRegistration turn).toList) turn.pruneAt (Rlcore.step cfg s turn).1 := by
  have hlast : ∀ topic p, lastRegister (h ++ (turnRegistration turn).toList) topic p =
      if ∃ r ∈ turnRegistration turn, r.src = p ∧ r.topic = topic then some turn.handleAt
      else lastRegister h topic p := by
    intro topic p
    cases hr : turnRegistration turn with
    | none =>
      rw [Option.toList_none, List.append_nil, if_neg (by simp)]
    | some r =>
      rw [Option.toList_some, lastRegister_snoc, turnRegistration_time hr]
      simp only [Option.mem_some_iff, exists_eq_left']
  refine ⟨fun topic p t hget => ?_, fun topic p t hget ht => ?_⟩
  · rw [step_relayGroup hrelay] at hget
    rw [hlast]
    split at hget
    · next hjoin => rwa [if_pos hjoin]
    · next hjoin =>
      rw [if_neg hjoin]
      exact ((hs.prune hrelay hle topic p t).mp hget).1
  · rw [step_relayGroup hrelay] at hget
    split at hget
    · cases hget
    · next hjoin =>
      rw [hlast, if_neg hjoin] at ht
      refine not_le.mp fun hterm => ?_
      rw [(hs.prune hrelay hle topic p t).mpr ⟨ht, hterm⟩] at hget
      cases hget

/-- **The groups are the registrations** of the run that are within their term. -/
theorem run_relayed (hrelay : cfg.relayMode = true) {turns : List Turn}
    (hclock : Rlcore.Clocked turns) {clock : Time} (hle : ∀ turn ∈ turns, turn.pruneAt ≤ clock) :
    Relayed (turnRegistrations turns) clock (Rlcore.run cfg {} turns) := by
  induction turns using List.reverseRecOn generalizing clock with
  | nil =>
    refine ⟨fun topic p t hget => ?_, fun topic p t _ ht => by cases ht⟩
    simp [relayGroup, Rlcore.run] at hget
  | append_singleton turns turn ih =>
    obtain ⟨hbefore, -, hlast⟩ := List.pairwise_append.mp hclock
    have hs := ih hbefore fun b hb => hlast b hb turn (List.mem_singleton_self turn)
    have hstep := hs.step hrelay (le_refl _)
    have hrun : Rlcore.run cfg {} (turns ++ [turn]) =
        (Rlcore.step cfg (Rlcore.run cfg {} turns) turn).1 := by
      rw [Rlcore.run, List.foldl_append]
      rfl
    have hregs : turnRegistrations (turns ++ [turn]) =
        turnRegistrations turns ++ (turnRegistration turn).toList := by
      rw [turnRegistrations, List.filterMap_append]
      cases hr : turnRegistration turn <;> simp [turnRegistrations, hr]
    rw [hrun, hregs]
    have hle' := hle turn (List.mem_append_right _ (List.mem_singleton_self turn))
    exact ⟨hstep.listed, fun topic p t hget ht =>
      lt_of_lt_of_le (hstep.unlisted topic p t hget ht) (by linarith)⟩

/-! ### What it forwards -/

theorem mem_relayMembers {s : State} {topic : UInt32} {p : PeerEntry} :
    p ∈ relayMembers s topic ↔ ∃ t, (relayGroup s topic)[p]? = some t := by
  rw [relayMembers, ExtTreeMap.mem_keys, ExtTreeMap.mem_iff_isSome_getElem?,
    Option.isSome_iff_exists]

variable {turns : List Turn}

/-- The relay of rlcore forwards a frame exactly. -/
theorem rlcore_forwards (hrelay : cfg.relayMode = true)
    (hclock : Rlcore.Clocked (turns ++ [turn])) {d : Datagram} (hd : turn.datagram = some d)
    {topic : UInt32} (hframe : peekFrameTopicId d.bytes = some topic) :
    Forwards (turnRegistrations turns) turn.pruneAt topic d.src d.bytes
      (Rlcore.step cfg (Rlcore.run cfg {} turns) turn).2 := by
  obtain ⟨hbefore, -, hlast⟩ := List.pairwise_append.mp hclock
  have hs := run_relayed hrelay hbefore fun b hb => hlast b hb turn (List.mem_singleton_self turn)
  generalize Rlcore.run cfg {} turns = s at hs
  have hsends : (Rlcore.step cfg s turn).2 =
      ((relayMembers (Rlcore.pruneStale cfg turn.pruneAt s) topic).filter (· ≠ d.src)).map
        (·, d.bytes) := by
    rw [Rlcore.step, hd]
    simp only [if_neg (register_not_frame hframe).2, Rlcore.handle, hrelay, dispatch_frame hframe]
    rfl
  have hdests : (Rlcore.step cfg s turn).2.map Prod.fst =
      (relayMembers (Rlcore.pruneStale cfg turn.pruneAt s) topic).filter (· ≠ d.src) := by
    rw [hsends, List.map_map]
    exact List.map_id _
  refine ⟨fun x hx => ?_, ?_, fun p => ?_⟩
  · rw [hsends] at hx
    obtain ⟨p, -, rfl⟩ := List.mem_map.mp hx
    rfl
  · rw [hdests]
    exact ExtTreeMap.nodup_keys.filter _
  · rw [hdests, List.mem_filter, decide_eq_true_eq, and_comm, mem_relayMembers]
    exact and_congr_right fun _ => exists_congr fun t => hs.prune hrelay (le_refl _) topic p t

theorem rlcore_keepsMembers (hrelay : cfg.relayMode = true)
    (hclock : Rlcore.Clocked (turns ++ [turn])) :
    KeepsMembers (turnRegistrations turns) turn.pruneAt (turnRegistration turn)
      (relayMembers (Rlcore.run cfg {} turns))
      (relayMembers (Rlcore.step cfg (Rlcore.run cfg {} turns) turn).1) := by
  obtain ⟨hbefore, -, hlast⟩ := List.pairwise_append.mp hclock
  have hs := run_relayed hrelay hbefore fun b hb => hlast b hb turn (List.mem_singleton_self turn)
  generalize Rlcore.run cfg {} turns = s at hs
  refine ⟨fun topic => ExtTreeMap.nodup_keys, fun r hr => ?_, fun topic p hp => ?_,
    fun topic p hp hcur => ?_⟩
  · rw [mem_relayMembers, step_relayGroup hrelay, if_pos ⟨r, hr, rfl, rfl⟩]
    exact ⟨_, rfl⟩
  · rw [mem_relayMembers, step_relayGroup hrelay] at hp
    split at hp
    · next hjoin => exact Or.inr hjoin
    · obtain ⟨t, ht⟩ := hp
      rw [pruned_relayGroup hrelay] at ht
      exact Or.inl (mem_relayMembers.mpr ⟨t, (Option.filter_eq_some_iff.mp ht).1⟩)
  · rw [mem_relayMembers, step_relayGroup hrelay]
    split
    · exact ⟨_, rfl⟩
    · obtain ⟨t, ht, hterm⟩ := hcur
      exact ⟨t, (hs.prune hrelay (le_refl _) topic p t).mpr ⟨ht, hterm⟩⟩

end

/-! ### Runs -/

/-- Every step of rlcore's relay is exact. -/
def RlcoreExact (cfg : Config) (turns : List Turn) : Prop :=
  ∀ before turn after, turns = before ++ turn :: after →
    KeepsMembers (turnRegistrations before) turn.pruneAt (turnRegistration turn)
        (relayMembers (Rlcore.run cfg {} before))
        (relayMembers (Rlcore.step cfg (Rlcore.run cfg {} before) turn).1) ∧
      ∀ d, turn.datagram = some d → ∀ topic, peekFrameTopicId d.bytes = some topic →
        Forwards (turnRegistrations before) turn.pruneAt topic d.src d.bytes
          (Rlcore.step cfg (Rlcore.run cfg {} before) turn).2

/-- Every step of the standalone relay is exact. -/
def StandaloneExact (start : Time) (arrivals : List Arrival) : Prop :=
  ∀ before a after, arrivals = before ++ a :: after →
    KeepsMembers (registrations before) a.now a.registration ((started start).run before).members
        (((started start).run before).step a).1.members ∧
      ∀ topic, peekFrameTopicId a.bytes = some topic →
        Forwards (registrations before) a.now topic a.src a.bytes
          (((started start).run before).step a).2

/-- Of every data frame of a run. -/
def Timely (arrivals : List Arrival) : Prop :=
  ∀ before a after, arrivals = before ++ a :: after →
    ∀ topic, peekFrameTopicId a.bytes = some topic → Swept before a topic ∧ Fits before a topic

theorem sublist_upto {A : Type} {l before after : List A} {x : A} (hsplit : l = before ++ x :: after) :
    (before ++ [x]).Sublist l := by
  rw [hsplit]
  exact (List.singleton_sublist.mpr List.mem_cons_self).append_left before

/-- **Relay forwarding, exactly.** The relay of rlcore is exact on every run; the standalone
relay is on those where whoever should not get a frame has been swept out before it, by
another packet, and no frame that somebody is to get is longer than the buffer. -/
theorem relay_exact (cfg : Config) (hrelay : cfg.relayMode = true) (turns : List Turn)
    (hturns : Rlcore.Clocked turns) (start : Time) (arrivals : List Arrival)
    (hclock : Clocked start arrivals) :
    RlcoreExact cfg turns ∧ (StandaloneExact start arrivals ↔ Timely arrivals) := by
  have hupto : ∀ before a after, arrivals = before ++ a :: after → Clocked start (before ++ [a]) :=
    fun before a after hsplit =>
      ⟨fun b hb => hclock.1 b ((sublist_upto hsplit).subset hb), hclock.2.sublist (sublist_upto hsplit)⟩
  refine ⟨fun before turn after hsplit => ?_, fun h before a after hsplit topic hframe => ?_,
    fun h before a after hsplit => ?_⟩
  · have hbefore := hturns.sublist (sublist_upto hsplit)
    exact ⟨rlcore_keepsMembers hrelay hbefore, fun d hd topic hframe =>
      rlcore_forwards hrelay hbefore hd hframe⟩
  · exact (standalone_forwards_iff (hupto before a after hsplit) hframe).mp
      ((h before a after hsplit).2 topic hframe)
  · have hbefore := hupto before a after hsplit
    exact ⟨standalone_keepsMembers hbefore, fun topic hframe =>
      (standalone_forwards_iff hbefore hframe).mpr (h before a after hsplit topic hframe)⟩

/-- A data frame of topic 7. -/
def frame : Bytes := frameBytes 7 0 [1, 2]

/-- A node that registers for topic 7, and a frame of another one a second later. -/
def prompt : List Arrival :=
  [⟨0, ⟨0x0A000002, 2⟩, [0x52, 0x01, 7, 0, 0, 0]⟩, ⟨1, ⟨0x0A000001, 1⟩, frame⟩]

/-- The same two datagrams at rlcore. -/
def promptTurns : List Turn :=
  prompt.map fun a => ⟨a.now, a.now, Vector.replicate 12 0, some ⟨a.src, a.bytes⟩⟩

/-- In either relay the frame goes to the node. -/
theorem relay_exact_prompt :
    let cfg : Config := ⟨false, true, none, by decide⟩
    (promptTurns.drop 1).flatMap (fun turn =>
        (Rlcore.step cfg (Rlcore.run cfg {} (promptTurns.take 1)) turn).2) =
      [(⟨0x0A000002, 2⟩, frame)] ∧
    (((started 0).run (prompt.take 1)).step ⟨1, ⟨0x0A000001, 1⟩, frame⟩).2 =
      [(⟨0x0A000002, 2⟩, frame)] ∧
    RlcoreExact cfg promptTurns ∧ (StandaloneExact 0 prompt ↔ Timely prompt) := by
  intro cfg
  have hturns : Rlcore.Clocked promptTurns := by
    simp [Rlcore.Clocked, promptTurns, prompt]
  exact ⟨by decide +kernel, by decide +kernel,
    relay_exact cfg rfl promptTurns hturns 0 prompt ⟨by decide, by decide⟩⟩

/-- The same after a hundred seconds of silence. -/
def late : List Arrival :=
  [⟨0, ⟨0x0A000002, 2⟩, [0x52, 0x01, 7, 0, 0, 0]⟩, ⟨100, ⟨0x0A000001, 1⟩, frame⟩]

/-- The frame goes to a member whose REGISTER is a hundred seconds old. -/
theorem late_not_exact :
    Clocked 0 late ∧ (((started 0).run (late.take 1)).step ⟨100, ⟨0x0A000001, 1⟩, frame⟩).2 =
        [(⟨0x0A000002, 2⟩, frame)] ∧
      lastRegister (registrations (late.take 1)) 7 ⟨0x0A000002, 2⟩ = some 0 ∧
      ¬ StandaloneExact 0 late := by
  have hsends : (((started 0).run (late.take 1)).step ⟨100, ⟨0x0A000001, 1⟩, frame⟩).2 =
      [(⟨0x0A000002, 2⟩, frame)] := by
    decide +kernel
  have hlast : lastRegister (registrations (late.take 1)) 7 ⟨0x0A000002, 2⟩ = some 0 := by
    decide +kernel
  refine ⟨⟨by decide, by decide⟩, hsends, hlast, fun h => ?_⟩
  have hforwards := (h (late.take 1) ⟨100, ⟨0x0A000001, 1⟩, frame⟩ [] rfl).2 7 (by decide)
  obtain ⟨-, t, ht, hterm⟩ := (hforwards.members ⟨0x0A000002, 2⟩).mp (by
    rw [hsends]
    exact List.mem_singleton_self _)
  rw [hlast, Option.some.injEq] at ht
  subst ht
  norm_num at hterm

end Relink.Relay
