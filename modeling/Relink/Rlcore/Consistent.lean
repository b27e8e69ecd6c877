import Relink.Rlcore.Server

/-! How rlcore's tables hang together.

Five tables are written by different branches of the loop and expired by another. `Consistent` is
what they keep between them in every state of every run, and `Unexpired` what expiry adds: no time is
past its term. The lookups that build an ack go through `operator[]`, which would create a topic
that is missing: none is. -/
namespace Relink.Rlcore
open Wire Crypto
open Std (ExtTreeMap ExtTreeSet)

structure Consistent (cfg : Config) (s : State) : Prop where
  /-- The keys of `last_seen` are the pairs in `table`. -/
  seen : ∀ topic p, TopicPeer.mk topic p ∈ s.lastSeen ↔ s.Listed topic p
  peers : ∀ (topic : UInt32) (peers : ExtTreeSet PeerEntry), s.table[topic]? = some peers →
    peers.isEmpty = false
  members : ∀ (topic : UInt32) (members : ExtTreeMap PeerEntry Time),
    s.relayGroups[topic]? = some members → members.isEmpty = false
  lan : ∀ topic p, s.Listed topic p → p ∈ s.lanOf
  lanSelf : cfg.natMode = false → ∀ p lan : PeerEntry, s.lanOf[p]? = some lan → lan = p
  roles : ∀ k, k ∈ s.roleTable ↔ k ∈ s.roleLastSeen
  relay : cfg.relayMode = false → s.relayGroups = ∅

/-- No time is past its term. -/
structure Unexpired (now : Time) (s : State) : Prop where
  seen : ∀ (k : TopicPeer) (t : Time), s.lastSeen[k]? = some t → now - t ≤ kRegistrationTtlSec
  roles : ∀ (k : TopicPeer) (t : Time), s.roleLastSeen[k]? = some t → now - t ≤ kRegistrationTtlSec
  members : ∀ (topic : UInt32) (members : ExtTreeMap PeerEntry Time) (p : PeerEntry) (t : Time),
    s.relayGroups[topic]? = some members → members[p]? = some t → now - t ≤ kRelayMemberTtlSec

theorem consistent_init (cfg : Config) : Consistent cfg {} where
  seen topic p := by simp [State.Listed, State.peersOf]
  peers topic peers h := by simp at h
  members topic members h := by simp at h
  lan topic p h := by simp [State.Listed, State.peersOf] at h
  lanSelf _ p lan h := by simp at h
  roles k := by simp
  relay _ := rfl

variable {cfg : Config} {s : State}

/-! ### Expiry -/

theorem pruneRoles_mem {now : Time} {roleTable : ExtTreeMap TopicPeer UInt8}
    {roleLastSeen : ExtTreeMap TopicPeer Time} (h : ∀ k, k ∈ roleTable ↔ k ∈ roleLastSeen)
    (k : TopicPeer) :
    k ∈ (pruneRoles now roleTable roleLastSeen).1 ↔ k ∈ (pruneRoles now roleTable roleLastSeen).2 := by
  obtain ⟨hroles, htimes⟩ := pruneRoles_getElem? now roleTable roleLastSeen k
  have hk := h k
  rw [ExtTreeMap.mem_iff_isSome_getElem?, ExtTreeMap.mem_iff_isSome_getElem?] at hk ⊢
  rw [hroles, htimes]
  cases htime : roleLastSeen[k]? with
  | none =>
    rw [htime] at hk
    simpa using hk
  | some t =>
    rw [htime] at hk
    rw [Option.any_some, Option.filter_some]
    by_cases hdue : kRegistrationTtlSec < now - t
    · simp [hdue]
    · simpa [hdue] using hk

theorem Consistent.prune (hs : Consistent cfg s) (now : Time) :
    Consistent cfg (pruneStale cfg now s) where
  seen topic p := by
    have hkey := hs.seen topic p
    rw [ExtTreeMap.mem_iff_isSome_getElem?] at hkey ⊢
    rw [listed_pruneStale, lastSeen_pruneStale]
    by_cases hgone : s.Listed topic p ∧ stale now s.lastSeen[TopicPeer.mk topic p]? = true
    · rw [if_pos hgone, hgone.2]
      simp
    · rw [if_neg hgone, hkey]
      refine (and_iff_left_of_imp fun hlisted => ?_).symm
      exact Bool.not_eq_true _ |>.mp fun hstale => hgone ⟨hlisted, hstale⟩
  peers topic peers h := table_pruneStale cfg now s topic h
  members topic members h := by
    simp only [pruneStale] at h
    split at h
    · rw [pruneGroups_getElem?, Option.filter_eq_some_iff] at h
      simpa using h.2
    · exact hs.members topic members h
  lan topic p h := hs.lan topic p ((listed_pruneStale cfg now s topic p).mp h).1
  lanSelf := hs.lanSelf
  roles := pruneRoles_mem hs.roles
  relay h := by
    simp only [pruneStale, h]
    exact hs.relay h

/-- Right after expiry no time is past its term. -/
theorem Consistent.unexpired (hs : Consistent cfg s) (now : Time) :
    Unexpired now (pruneStale cfg now s) where
  seen k t h := by
    obtain ⟨topic, p⟩ := k
    have hlisted : (pruneStale cfg now s).Listed topic p := by
      rw [← (hs.prune now).seen, ExtTreeMap.mem_iff_isSome_getElem?, h]
      rfl
    have hfresh := ((listed_pruneStale cfg now s topic p).mp hlisted).2
    rw [lastSeen_pruneStale, if_neg (by simp [hfresh])] at h
    rw [h, ← Bool.not_eq_true, stale_some] at hfresh
    exact not_lt.mp hfresh
  roles k t h := by
    have htime := (pruneRoles_getElem? now s.roleTable s.roleLastSeen k).2.symm.trans h
    rw [Option.filter_eq_some_iff] at htime
    simpa using htime.2
  members topic members p t hm ht := by
    simp only [pruneStale] at hm
    split at hm
    · rw [pruneGroups_getElem?, Option.filter_eq_some_iff, Option.map_eq_some_iff] at hm
      obtain ⟨⟨before, _, rfl⟩, _⟩ := hm
      rw [pruneMembers_getElem?, Option.filter_eq_some_iff] at ht
      simpa using ht.2
    · next hrelay =>
      rw [hs.relay (Bool.not_eq_true _ |>.mp hrelay)] at hm
      simp at hm

/-! ### Requests -/

theorem enroll_table (now : Time) (self lan : PeerEntry) (topics : List UInt32)
    (hpeers : ∀ (topic : UInt32) (peers : ExtTreeSet PeerEntry), s.table[topic]? = some peers →
      peers.isEmpty = false) (topic : UInt32) (peers : ExtTreeSet PeerEntry)
    (h : (enroll now self lan topics s).table[topic]? = some peers) : peers.isEmpty = false := by
  revert topic peers
  refine Transition.foldl_invariant
    (fun t : State => ∀ (topic : UInt32) (peers : ExtTreeSet PeerEntry),
      t.table[topic]? = some peers → peers.isEmpty = false)
    (fun _ => True) (enrollTopic now self) (fun t here ht _ topic peers h => ?_) topics
    {s with lanOf := s.lanOf.insert self lan} hpeers fun _ _ => trivial
  simp only [enrollTopic] at h
  rw [ExtTreeMap.getElem?_insert] at h
  split at h
  · cases h
    exact ExtTreeSet.isEmpty_eq_false_iff.mpr ExtTreeSet.insert_ne_empty
  · exact ht topic peers h

theorem Consistent.enroll (hs : Consistent cfg s) (now : Time) {self lan : PeerEntry}
    (hlan : cfg.natMode = false → lan = self) (topics : List UInt32) :
    Consistent cfg (enroll now self lan topics s) where
  seen topic p := by
    rw [enroll_listed, ExtTreeMap.mem_iff_isSome_getElem?, enroll_lastSeen, ← hs.seen,
      ExtTreeMap.mem_iff_isSome_getElem?]
    by_cases hhere : p = self ∧ topic ∈ topics <;> simp [hhere]
  peers := enroll_table now self lan topics hs.peers
  members := (enroll_others now self lan topics s).2.2.1 ▸ hs.members
  lan topic p h := by
    rw [enroll_lanOf, ExtTreeMap.mem_insert, Std.compare_eq_iff_eq]
    rcases (enroll_listed ..).mp h with h | ⟨rfl, _⟩
    · exact Or.inr (hs.lan topic p h)
    · exact Or.inl rfl
  lanSelf hnat p addr h := by
    rw [enroll_lanOf, ExtTreeMap.getElem?_insert] at h
    split at h
    · next heq =>
      cases h
      rw [hlan hnat]
      exact Std.compare_eq_iff_eq.mp heq
    · exact hs.lanSelf hnat p addr h
  roles := by
    obtain ⟨hroles, htimes, _, _⟩ := enroll_others now self lan topics s
    rw [hroles, htimes]
    exact hs.roles
  relay h := (enroll_others now self lan topics s).2.2.1.trans (hs.relay h)

/-- `operator[]`: a topic that is missing is created without peers. -/
def subscript (s : State) (topic : UInt32) : State := {s with table := s.table.insertIfNew topic ∅}

/-- The lookups that build an ack create nothing: the request has just been enrolled. -/
theorem subscript_enroll (now : Time) (self lan : PeerEntry) {topics : List UInt32}
    {topic : UInt32} (h : topic ∈ topics) :
    subscript (enroll now self lan topics s) topic = enroll now self lan topics s := by
  have hlisted : (enroll now self lan topics s).Listed topic self :=
    (enroll_listed ..).mpr (Or.inr ⟨rfl, h⟩)
  generalize enroll now self lan topics s = s' at hlisted
  have hmem : topic ∈ s'.table := by
    rw [ExtTreeMap.mem_iff_isSome_getElem?]
    unfold State.Listed State.peersOf at hlisted
    rw [ExtTreeMap.getD_eq_getD_getElem?] at hlisted
    cases hget : s'.table[topic]? with
    | some peers => rfl
    | none =>
      rw [hget] at hlisted
      exact absurd hlisted ExtTreeSet.not_mem_empty
  have htable : s'.table.insertIfNew topic ∅ = s'.table := by
    refine ExtTreeMap.ext_getElem? fun k => ?_
    rw [ExtTreeMap.getElem?_insertIfNew]
    split
    · next heq =>
      rw [Std.compare_eq_iff_eq] at heq
      exact absurd (heq.1 ▸ hmem) (heq.1 ▸ heq.2)
    · rfl
  rw [subscript, htable]

/-! ### The other branches -/

theorem Consistent.announceRole (hs : Consistent cfg s) (now : Time) (src : PeerEntry)
    (e : RoleAnnounceEntry) : Consistent cfg (announceRole now src s e) where
  seen := hs.seen
  peers := hs.peers
  members := hs.members
  lan := hs.lan
  lanSelf := hs.lanSelf
  roles k := by
    simp only [Rlcore.announceRole, ExtTreeMap.mem_insert, hs.roles]
  relay := hs.relay

/-- Only behind `--relay` is a packet taken for the relay's. -/
theorem relayMode_of_dispatch {relayMode : Bool} {buf : Bytes} {topic : UInt32}
    (h : dispatch relayMode buf = .relayRegister topic) : relayMode = true := by
  unfold dispatch roleDispatch at h
  split at h <;> try cases h
  split at h <;> try cases h
  split at h
  · assumption
  · cases h

theorem Consistent.relayRegister (hs : Consistent cfg s) (hrelay : cfg.relayMode = true) (now : Time)
    (src : PeerEntry) (topic : UInt32) : Consistent cfg (handleRelayRegister now src topic s) where
  seen := hs.seen
  peers := hs.peers
  members t members h := by
    simp only [handleRelayRegister] at h
    rw [ExtTreeMap.getElem?_insert] at h
    split at h
    · cases h
      exact ExtTreeMap.isEmpty_eq_false_iff.mpr ExtTreeMap.insert_ne_empty
    · exact hs.members t members h
  lan := hs.lan
  lanSelf := hs.lanSelf
  roles := hs.roles
  relay h := by
    rw [hrelay] at h
    cases h

theorem Consistent.handle (hs : Consistent cfg s) (now : Time) (nonce : Nonce) (d : Datagram) :
    Consistent cfg (handle cfg now nonce d s).1 := by
  unfold Rlcore.handle
  cases hbranch : dispatch cfg.relayMode d.bytes with
  | topicAnnounce =>
    simp only [handleTopicAnnounce]
    split
    · exact hs
    · exact ⟨hs.seen, hs.peers, hs.members, hs.lan, hs.lanSelf, hs.roles, hs.relay⟩
  | topicQuery => exact hs
  | topicReply => exact hs
  | roleAnnounce =>
    simp only [handleRoleAnnounce]
    split
    · exact hs
    · exact Transition.foldl_invariant (Consistent cfg) (fun _ => True) _
        (fun _ e h _ => h.announceRole now d.src e) _ s hs fun _ _ => trivial
  | roleQuery => exact hs
  | roleReply => exact hs
  | relayRegister topic =>
    exact hs.relayRegister (relayMode_of_dispatch hbranch) now d.src topic
  | dataFrame topic => exact hs
  | registration =>
    simp only [handleRegistration]
    split
    · exact hs
    · exact hs.enroll now (fun hnat => by simp [identity, hnat]) _

theorem Consistent.step (hs : Consistent cfg s) (turn : Turn) :
    Consistent cfg (step cfg s turn).1 := by
  have hpruned := hs.prune turn.pruneAt
  unfold Rlcore.step
  simp only
  split
  · exact hpruned
  · split
    · exact hpruned
    · exact hpruned.handle ..

theorem consistent_after (cfg : Config) (turns : List Turn) : Consistent cfg (run cfg {} turns) :=
  Transition.foldl_invariant (Consistent cfg) (fun _ => True) _ (fun _ turn h _ => h.step turn)
    turns {} (consistent_init cfg) fun _ _ => trivial

/-- **The tables stay consistent** in every run, and right after expiry nothing is past its
term. -/
theorem run_consistent (cfg : Config) (turns : List Turn) :
    Consistent cfg (run cfg {} turns) ∧ ∀ now, Consistent cfg (pruneStale cfg now (run cfg {} turns)) ∧
      Unexpired now (pruneStale cfg now (run cfg {} turns)) := by
  have hrun := consistent_after cfg turns
  exact ⟨hrun, fun now => ⟨hrun.prune now, hrun.unexpired now⟩⟩

end Relink.Rlcore
