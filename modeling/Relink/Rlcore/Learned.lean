import Relink.Rlcore.Agree
import Relink.Rlcore.Eviction
import Relink.Rlcore.Twice

/-! What a node learns from a reply.

The re-registration loop looks for an address before it enters it, and `ensure_started` does not
(`enter`). Either way a node knows what it knew and what the reply names, and from a reply with room
that is every match. -/
namespace Relink.Rlcore
open Wire Crypto Transition
open Sources (NamedOnce candidates pushPeer pushPeers_getD)
open Std (ExtTreeMap)

/-- How the addresses of a reply are entered: the registrations before the first tick are those of
`ensure_started`. -/
def enter (tick : Nat) : Peers → RegisterAckPeer → Peers := if tick = 0 then pushPeer else mergePeer

/-! ### Which addresses a node has then -/

theorem mem_addIfNew_iff (peers : Peers) (topic topic' : UInt32) (addr known : PeerEntry) :
    known ∈ (addIfNew peers topic addr).getD topic' [] ↔
      topic = topic' ∧ known = addr ∨ known ∈ peers.getD topic' [] := by
  refine ⟨mem_addIfNew, fun h => ?_⟩
  rw [addIfNew, ExtTreeMap.getD_insert]
  by_cases htopic : topic = topic'
  · subst htopic
    rw [if_pos Std.ReflOrd.compare_self]
    rcases h with ⟨-, rfl⟩ | h
    · split
      · next hmem => exact hmem
      · exact List.mem_append_right _ (List.mem_singleton_self known)
    · split
      · exact h
      · exact List.mem_append_left _ h
  · rw [if_neg (by rwa [Std.compare_eq_iff_eq])]
    exact h.resolve_left fun hhere => htopic hhere.1

theorem mem_mergePeer_iff (peers : Peers) (p : RegisterAckPeer) (topic : UInt32)
    (addr : PeerEntry) :
    addr ∈ (mergePeer peers p).getD topic [] ↔
      Names p topic addr ∨ addr ∈ peers.getD topic [] := by
  refine ⟨mem_mergePeer, fun h => ?_⟩
  have hfirst : p.topicId = topic ∧ addr = ⟨p.ip, p.port⟩ ∨ addr ∈ peers.getD topic [] →
      addr ∈ (mergePeer peers p).getD topic [] := by
    intro h
    have hadd := (mem_addIfNew_iff peers p.topicId topic ⟨p.ip, p.port⟩ addr).mpr h
    rw [mergePeer]
    split
    · exact (mem_addIfNew_iff ..).mpr (Or.inr hadd)
    · exact hadd
  rcases h with ⟨htopic, haddr | ⟨hlan, haddr⟩⟩ | h
  · exact hfirst (Or.inl ⟨htopic, haddr⟩)
  · by_cases hsame : p.lanIp = p.ip ∧ p.lanPort = p.port
    · rw [hsame.1, hsame.2] at haddr
      exact hfirst (Or.inl ⟨htopic, haddr⟩)
    · rw [mergePeer, if_pos ⟨hlan, hsame⟩]
      exact (mem_addIfNew_iff ..).mpr (Or.inl ⟨htopic, haddr⟩)
  · exact hfirst (Or.inr h)

/-- A node knows what it knew, and what the reply names. -/
theorem mem_mergePeers (entries : List RegisterAckPeer) (peers : Peers) (topic : UInt32)
    (addr : PeerEntry) :
    addr ∈ (entries.foldl mergePeer peers).getD topic [] ↔
      (∃ p ∈ entries, Names p topic addr) ∨ addr ∈ peers.getD topic [] := by
  induction entries generalizing peers with
  | nil => simp
  | cons p rest ih =>
    rw [List.foldl_cons, ih, mem_mergePeer_iff, List.exists_mem_cons_iff, or_left_comm, or_assoc]

theorem mem_candidates {p : RegisterAckPeer} {addr : PeerEntry} :
    addr ∈ candidates p ↔ addr = ⟨p.ip, p.port⟩ ∨ p.lanIp ≠ 0 ∧ addr = ⟨p.lanIp, p.lanPort⟩ := by
  rw [candidates, List.mem_cons]
  by_cases hsame : p.lanIp = p.ip ∧ p.lanPort = p.port
  · rw [if_neg fun h => h.2 hsame, hsame.1, hsame.2]
    simp only [List.not_mem_nil, or_false]
    exact ⟨Or.inl, fun h => h.elim id fun h => h.2⟩
  · by_cases hlan : p.lanIp = 0
    · rw [if_neg fun h => h.1 hlan]
      simp [hlan]
    · rw [if_pos ⟨hlan, hsame⟩, List.mem_singleton]
      simp [hlan]

theorem mem_pushPeers (entries : List RegisterAckPeer) (peers : Peers) (topic : UInt32)
    (addr : PeerEntry) :
    addr ∈ (entries.foldl pushPeer peers).getD topic [] ↔
      (∃ p ∈ entries, Names p topic addr) ∨ addr ∈ peers.getD topic [] := by
  rw [pushPeers_getD, List.mem_append, or_comm, List.mem_flatMap]
  refine or_congr_left (exists_congr fun p => and_congr_right fun _ => ?_)
  rw [Names]
  by_cases htopic : p.topicId = topic
  · rw [if_pos htopic, mem_candidates, and_iff_right htopic]
  · rw [if_neg htopic]
    exact iff_of_false List.not_mem_nil fun h => htopic h.1

theorem mem_enter (tick : Nat) (entries : List RegisterAckPeer) (peers : Peers) (topic : UInt32)
    (addr : PeerEntry) :
    addr ∈ (entries.foldl (enter tick) peers).getD topic [] ↔
      (∃ p ∈ entries, Names p topic addr) ∨ addr ∈ peers.getD topic [] := by
  unfold enter
  split
  · exact mem_pushPeers ..
  · exact mem_mergePeers ..

theorem addIfNew_getD_of_ne {peers : Peers} {topic topic' : UInt32} (h : topic ≠ topic')
    (addr : PeerEntry) : (addIfNew peers topic addr).getD topic' [] = peers.getD topic' [] := by
  rw [addIfNew, ExtTreeMap.getD_insert, if_neg (by rwa [Std.compare_eq_iff_eq])]

theorem enter_getD_of_ne (tick : Nat) (peers : Peers) {p : RegisterAckPeer} {topic : UInt32}
    (h : p.topicId ≠ topic) : (enter tick peers p).getD topic [] = peers.getD topic [] := by
  unfold enter
  split
  · rw [Sources.pushPeer_getD, if_neg h, List.append_nil]
  · rw [mergePeer]
    split
    · rw [addIfNew_getD_of_ne h, addIfNew_getD_of_ne h]
    · rw [addIfNew_getD_of_ne h]

/-- The topics that no entry is about are as they were. -/
theorem enter_getD_of_forall_ne {tick : Nat} {entries : List RegisterAckPeer} {peers : Peers}
    {topic : UInt32} (h : ∀ p ∈ entries, p.topicId ≠ topic) :
    (entries.foldl (enter tick) peers).getD topic [] = peers.getD topic [] :=
  foldl_invariant (fun peers' : Peers => peers'.getD topic [] = peers.getD topic [])
    (fun p => p.topicId ≠ topic) (enter tick)
    (fun peers' _ hpeers hne => (enter_getD_of_ne tick peers' hne).trans hpeers) entries peers rfl h

/-! ### What a reply names -/

/-- A reply that goes out is a datagram. -/
theorem encodeAck_length {cfg : Config} {nonce : Nonce} {peers : List RegisterAckPeer}
    {bytes : Bytes} (hroom : peers.length ≤ ackRoom cfg) (h : encodeAck cfg nonce peers = some bytes) :
    bytes.length ≤ kMaxDatagramBytes := by
  have hmod : peers.length % 65536 = peers.length :=
    Nat.mod_eq_of_lt (lt_of_le_of_lt (le_trans hroom (ackRoom_le cfg)) (by decide))
  have hlen := ackBytes_length 0 peers
  rw [encodeAck, encodeRegisterAck_cast, hmod, List.take_length,
    if_pos (le_trans hroom (ackRoom_le cfg))] at h
  unfold ackRoom at hroom
  cases hkey : cfg.encryptKey with
  | none =>
    rw [hkey] at h hroom
    simp only [Option.some.injEq] at h
    rw [← h, hlen, kMaxDatagramBytes]
    simp only [kMaxAckPeers] at hroom
    omega
  | some key =>
    rw [hkey] at h hroom
    simp only at h hroom
    obtain ⟨sealed, hsealed, hsize, -⟩ := aes256gcmSeal_some key nonce (ackBytes 0 peers)
      (show _ ≤ kMaxDatagramBytes by rw [hlen, kMaxDatagramBytes]; omega)
    rw [hsealed, Option.some.injEq] at h
    rw [← h, hsize, hlen, kMaxDatagramBytes]
    omega

/-- The request of a call is the group's. -/
theorem Exchange.turn_asks {cfg : Config} (w : World) {g : Group} {x : Exchange}
    {topics : List UInt32} (hx : x.Handled cfg g topics) :
    Rlcore.step cfg w.rlcore (x.turn w g) =
      (enroll w.woke (g.registrant cfg) g.lan topics (pruneStale cfg x.pruneAt w.rlcore),
        (encodeAck cfg x.nonce (ackPeers (enroll w.woke (g.registrant cfg) g.lan topics
          (pruneStale cfg x.pruneAt w.rlcore)) (g.registrant cfg) topics)).toList.map (g.src, ·)) := by
  obtain ⟨req, hreq, hself, htopics⟩ := readRequest_wellFormed hx.2
  have hof : requestOf cfg ⟨g.src, x.bytes⟩ = some req := by
    rw [requestOf, if_pos ⟨bytes_ne_nil hx.2, hx.1⟩, hreq]
  have hid : identity cfg g.src req = g.registrant cfg := by rw [identity, hself, Group.registrant]
  have hturn : (x.turn w g).datagram = some ⟨g.src, x.bytes⟩ := rfl
  rw [step_request w.rlcore (Turn.request_of hturn hof), handleRequest, hid, hself, htopics]
  rfl

/-- Both builds read every match off a reply with room for it. -/
theorem outcome_wanted {cfg : Config} (build : Build) {w : World} {g : Group} {x : Exchange}
    {topics : List UInt32} (hx : x.Handled cfg g topics)
    (hroom : (wanted cfg w.rlcore x.pruneAt g.src g.lan topics).length ≤ ackRoom cfg) :
    (build.outcome cfg (Rlcore.step cfg w.rlcore (x.turn w g)).2).Perm
      (wanted cfg w.rlcore x.pruneAt g.src g.lan topics) := by
  have hperm := ackPeers_wanted cfg w.rlcore x.pruneAt w.woke g.src g.lan topics
  rw [← hperm.length_eq] at hroom
  have hmod := Nat.mod_eq_of_lt (lt_of_le_of_lt (le_trans hroom (ackRoom_le cfg))
    (by decide : kMaxAckPeers < 65536))
  obtain ⟨bytes, hbytes, hread⟩ := encodeAck_some cfg x.nonce _ (by rw [hmod]; exact hroom)
  rw [hmod, List.take_length] at hread
  have hlen := encodeAck_length hroom hbytes
  rw [Exchange.turn_asks w hx, Group.registrant, hbytes, Build.outcome]
  cases build with
  | cpp =>
    simp only [Option.toList_some, List.map_cons, List.head?_cons, Option.bind_some,
      Build.readReply, hread, if_true]
    exact hperm
  | python =>
    simp only [Option.toList_some, List.map_cons, List.head?_cons, Option.bind_some,
      Build.readReply, ← Py.readReply_eq cfg hlen, hread, if_true]
    exact hperm

/-- An entry that matches a request is a registration of another, with its LAN address. -/
theorem mem_wanted {cfg : Config} {s : State} {now : Time} {src lan : PeerEntry}
    {topics : List UInt32} {e : RegisterAckPeer} :
    e ∈ wanted cfg s now src lan topics ↔ ∃ topic ∈ topics, ∃ p,
      (pruneStale cfg now s).Listed topic p ∧ p ≠ (if cfg.natMode then src else lan) ∧
        e = ackPeer s topic p := by
  simp only [wanted, matching, List.mem_flatMap, List.mem_map, List.mem_filter,
    Std.ExtTreeSet.mem_toList, decide_eq_true_eq, Bool.not_eq_true']
  constructor
  · rintro ⟨topic, htopic, p, ⟨hp, hne, hfresh⟩, rfl⟩
    exact ⟨topic, htopic, p, (listed_pruneStale cfg now s topic p).mpr ⟨hp, hfresh⟩, hne, rfl⟩
  · rintro ⟨topic, htopic, p, hlisted, hne, rfl⟩
    obtain ⟨hp, hfresh⟩ := (listed_pruneStale cfg now s topic p).mp hlisted
    exact ⟨topic, htopic, p, ⟨hp, hne, hfresh⟩, rfl⟩

theorem toRegister_subset {build : Build} {tick : Nat} {peers : Peers} {g : Group}
    {topics : List UInt32} (h : build.toRegister tick peers g = some topics) :
    topics ⊆ g.topics := by
  cases build with
  | cpp =>
    simp only [Build.toRegister, toRegister] at h
    split at h
    · cases h
      exact List.Subset.refl _
    · split at h
      · cases h
      · cases h
        exact List.filter_subset_self _
  | python =>
    simp only [Build.toRegister, Py.toRegister] at h
    split at h
    · cases h
    · cases h
      exact List.Subset.refl _

/-- The entries that match a request are about its topics. -/
theorem wanted_topicId {cfg : Config} {s : State} {now : Time} {src lan : PeerEntry}
    {topics : List UInt32} {e : RegisterAckPeer} (h : e ∈ wanted cfg s now src lan topics) :
    e.topicId ∈ topics := by
  obtain ⟨topic, htopic, p, -, -, rfl⟩ := mem_wanted.mp h
  exact htopic

/-- They name no address of a topic twice, if no two registrations on it have one in common. -/
theorem wanted_namedOnce {cfg : Config} {s : State} {now : Time} {src lan : PeerEntry}
    {topics : List UInt32} (hnodup : topics.Nodup) (topic : UInt32)
    (hapart : ∀ p p', s.Listed topic p → s.Listed topic p' → p ≠ p' →
      (candidates (ackPeer s topic p)).Disjoint (candidates (ackPeer s topic p'))) :
    NamedOnce ((wanted cfg s now src lan topics).filter (·.topicId = topic)) := by
  refine List.pairwise_filter.mpr (List.pairwise_flatMap.mpr ⟨fun topic' _ => ?_, ?_⟩)
  · rw [List.pairwise_map]
    refine List.Pairwise.imp_of_mem ?_ ((peersOf_nodup s topic').filter _)
    intro p p' hp hp' hne htopic _ _
    obtain rfl : topic' = topic := of_decide_eq_true htopic
    rw [List.mem_filter, Std.ExtTreeSet.mem_toList] at hp hp'
    exact hapart p p' hp.1 hp'.1 hne
  · refine hnodup.imp fun hne e he e' he' _ _ htopic => ?_
    obtain ⟨p, -, rfl⟩ := List.mem_map.mp he
    obtain ⟨p', -, rfl⟩ := List.mem_map.mp he'
    exact absurd htopic hne

theorem namedOnce_perm {entries entries' : List RegisterAckPeer} (h : NamedOnce entries)
    (hperm : entries.Perm entries') : NamedOnce entries' :=
  (hperm.pairwise_iff fun hapart htopic => List.disjoint_symm (hapart htopic.symm)).mp h

/-- Entered into an empty list, such a reply lists each address once. -/
theorem pushPeers_nodup {entries : List RegisterAckPeer} {peers : Peers} {topic : UInt32}
    (hnamed : NamedOnce (entries.filter (·.topicId = topic))) (hnone : peers.getD topic [] = []) :
    ((entries.foldl pushPeer peers).getD topic []).Nodup := by
  have honly : ∀ entries : List RegisterAckPeer,
      ((entries.filter (·.topicId = topic)).flatMap fun p =>
        if p.topicId = topic then candidates p else []) =
      entries.flatMap fun p => if p.topicId = topic then candidates p else [] := by
    intro entries
    induction entries with
    | nil => rfl
    | cons p rest ih =>
      by_cases htopic : p.topicId = topic <;> simp [htopic, ih]
  rw [pushPeers_getD, hnone, List.nil_append, ← honly]
  exact (Sources.namedOnce_iff _).mp hnamed topic

end Relink.Rlcore
