import Mathlib.Data.List.Forall2
import Relink.Rlcore.History

/-! What a RegisterAck says.

The reply to a request is computed from the tables position by position of the topic
list. `register_ack_exact` reads it against the registry: each position lists every other
peer whose registration is within its term, once, with the LAN address it last reported,
and nobody else. -/
namespace Relink.Rlcore
open Wire Crypto
open Std (ExtTreeMap ExtTreeSet)

/-! ### The bytes of the reply -/

/-- The number of peers a reply has room for; a sealed one is 28 bytes longer. -/
def ackRoom (cfg : Config) : Nat :=
  match cfg.encryptKey with
  | none => kMaxAckPeers
  | some _ => 4092

/-- What a requester with the same key reads from a reply. -/
def readReply (cfg : Config) (bytes : Bytes) : Option (UInt8 × List RegisterAckPeer) :=
  match cfg.encryptKey with
  | none => readAck bytes
  | some key => (aes256gcmOpen key bytes kMaxDatagramBytes).bind readAck

theorem ackRoom_le (cfg : Config) : ackRoom cfg ≤ kMaxAckPeers := by
  unfold ackRoom
  split
  · exact le_refl _
  · decide

/-- A reply whose cast count fits goes out, and reads as that many of the peers. -/
theorem encodeAck_some (cfg : Config) (nonce : Nonce) (peers : List RegisterAckPeer)
    (h : peers.length % 65536 ≤ ackRoom cfg) :
    ∃ bytes, encodeAck cfg nonce peers = some bytes ∧
      readReply cfg bytes = some (0, peers.take (peers.length % 65536)) := by
  have hlen : (peers.take (peers.length % 65536)).length = peers.length % 65536 := by
    rw [List.length_take, Nat.min_eq_left (Nat.mod_le ..)]
  have hread := readAck_ackBytes 0 (peers.take (peers.length % 65536))
    (by rw [hlen]; exact Nat.mod_lt _ (by decide))
  have hbytes := ackBytes_length 0 (peers.take (peers.length % 65536))
  rw [hlen] at hbytes
  rw [encodeAck, encodeRegisterAck_cast, if_pos (le_trans h (ackRoom_le cfg))]
  unfold readReply
  unfold ackRoom at h
  cases hkey : cfg.encryptKey with
  | none => exact ⟨_, rfl, hread⟩
  | some key =>
    have hroom : peers.length % 65536 ≤ 4092 := by
      rw [hkey] at h
      exact h
    obtain ⟨blob, hseal, _⟩ := aes256gcmSeal_some key nonce
      (ackBytes 0 (peers.take (peers.length % 65536)))
      (show _ ≤ kMaxDatagramBytes by rw [hbytes, kMaxDatagramBytes]; omega)
    have hopen := aes256gcmOpen_seal key nonce _ hseal
      (show _ ≤ kMaxDatagramBytes by rw [hbytes, kMaxDatagramBytes]; omega)
    refine ⟨blob, hseal, ?_⟩
    show (aes256gcmOpen key blob kMaxDatagramBytes).bind readAck = _
    rw [hopen, Option.bind_some, hread]

/-- One that does not fit is not sent. -/
theorem encodeAck_none (cfg : Config) (nonce : Nonce) (peers : List RegisterAckPeer)
    (h : ackRoom cfg < peers.length % 65536) : encodeAck cfg nonce peers = none := by
  have hbytes := ackBytes_length 0 (peers.take (peers.length % 65536))
  rw [List.length_take, Nat.min_eq_left (Nat.mod_le ..)] at hbytes
  rw [encodeAck, encodeRegisterAck_cast]
  by_cases hfit : peers.length % 65536 ≤ kMaxAckPeers
  · unfold ackRoom at h
    rw [if_pos hfit]
    cases hkey : cfg.encryptKey with
    | none =>
      rw [hkey] at h
      exact absurd hfit (not_le.mpr h)
    | some key =>
      rw [hkey] at h
      have h' : 4092 < peers.length % 65536 := h
      exact aes256gcmSeal_none key nonce _ (by rw [hbytes, kMaxDatagramBytes]; omega)
  · rw [if_neg hfit]

/-! ### The peers it lists -/

/-- The entry for a peer carries the LAN address it last reported. -/
def Reports (h : List Handled) (topic : UInt32) (p : PeerEntry) (e : RegisterAckPeer) : Prop :=
  ∃ lan, lastLan h p = some lan ∧ e = ⟨p.ip, p.port, topic, lan.ip, lan.port⟩

/-- The entries of one topic: one for every fresh peer but the requester. -/
def Lists (h : List Handled) (now : Time) (self : PeerEntry) (topic : UInt32)
    (entries : List RegisterAckPeer) : Prop :=
  ∃ peers : List PeerEntry, peers.Nodup ∧
    (∀ p, p ∈ peers ↔ p ≠ self ∧ Fresh h now topic p) ∧ List.Forall₂ (Reports h topic) peers entries

theorem peersOf_nodup (s : State) (topic : UInt32) : (s.peersOf topic).toList.Nodup :=
  ExtTreeSet.distinct_toList.imp fun h heq => h (Std.compare_eq_iff_eq.mpr heq)

/-- The block of one topic, computed after the requester is enrolled. -/
theorem topicPeers_lists {h : List Handled} {clock now : Time} {s : State} (hs : Faithful h clock s)
    (hle : clock ≤ now) (cfg : Config) (handleAt : Time) (self lan : PeerEntry) (topics : List UInt32)
    (topic : UInt32) :
    Lists h now self topic
      (topicPeers (enroll handleAt self lan topics (pruneStale cfg now s)) self topic) := by
  refine ⟨((enroll handleAt self lan topics (pruneStale cfg now s)).peersOf topic).toList.filter
    (· ≠ self), (peersOf_nodup ..).filter _, fun p => ?_, ?_⟩
  · rw [List.mem_filter, ExtTreeSet.mem_toList, decide_eq_true_eq, and_comm]
    refine and_congr_right fun hne => ?_
    rw [← faithful_fresh hs hle cfg, ← State.Listed, enroll_listed]
    exact or_iff_left fun hself => hne hself.1
  · rw [topicPeers, List.forall₂_map_right_iff]
    refine List.forall₂_same.mpr fun p hp => ?_
    rw [List.mem_filter, ExtTreeSet.mem_toList, decide_eq_true_eq] at hp
    obtain ⟨hlisted, hne⟩ := hp
    have hfresh : Fresh h now topic p := by
      rw [← State.Listed, enroll_listed, faithful_fresh hs hle cfg] at hlisted
      exact hlisted.resolve_right fun hself => hne hself.1
    obtain ⟨t, ht, _⟩ := hfresh
    obtain ⟨lan', hlan'⟩ := lastLan_of_listing ht
    have hget : (enroll handleAt self lan topics (pruneStale cfg now s)).lanOf[p]? = some lan' := by
      rw [enroll_lanOf, ExtTreeMap.getElem?_insert,
        if_neg (by rw [Std.compare_eq_iff_eq]; exact Ne.symm hne)]
      exact (hs.lan p).trans hlan'
    refine ⟨lan', hlan', ?_⟩
    rw [ackPeer, ExtTreeMap.getD_eq_getD_getElem?, hget]
    rfl

/-- **The ack is exact.** On any run under a clock that does not go back, the reply to a
request lists, position by position of its topics, exactly the fresh other peers; up to
4094 entries it is one datagram to the requester that reads as these entries and status 0,
except that a sealed one needs 28 bytes more. -/
theorem register_ack_exact (cfg : Config) (turns : List Turn) (turn : Turn) (src : PeerEntry)
    (req : DecodedRegisterRequest) (hclock : Clocked (turns ++ [turn]))
    (hreq : turn.request cfg = some (src, req)) :
    ∃ blocks : List (List RegisterAckPeer),
      List.Forall₂ (Lists (history cfg turns) turn.pruneAt (identity cfg src req)) req.topics
        blocks ∧
      (blocks.flatten.length ≤ kMaxAckPeers →
        (∀ d ∈ (step cfg (run cfg {} turns) turn).2,
          d.1 = src ∧ readReply cfg d.2 = some (0, blocks.flatten)) ∧
        (step cfg (run cfg {} turns) turn).2.length =
          if blocks.flatten.length ≤ ackRoom cfg then 1 else 0) := by
  obtain ⟨hbefore, _, hlast⟩ := List.pairwise_append.mp hclock
  have hs := run_faithful cfg turns hbefore turn.pruneAt
    (fun a ha => hlast a ha turn (List.mem_singleton_self turn))
  rw [step_request _ hreq, handleRequest]
  generalize run cfg {} turns = s at hs
  set self := identity cfg src req
  set s' := enroll turn.handleAt self (selfReported req) req.topics (pruneStale cfg turn.pruneAt s)
  refine ⟨req.topics.map (topicPeers s' self), ?_, fun hcount => ?_⟩
  · rw [List.forall₂_map_right_iff]
    exact List.forall₂_same.mpr fun topic _ =>
      topicPeers_lists hs (le_refl _) cfg turn.handleAt self (selfReported req) req.topics topic
  · rw [← List.flatMap_def, ← ackPeers] at hcount ⊢
    have hmod : (ackPeers s' self req.topics).length % 65536 = (ackPeers s' self req.topics).length :=
      Nat.mod_eq_of_lt (lt_of_le_of_lt hcount (by decide))
    by_cases hroom : (ackPeers s' self req.topics).length ≤ ackRoom cfg
    · obtain ⟨bytes, hbytes, hreads⟩ := encodeAck_some cfg turn.nonce (ackPeers s' self req.topics)
        (by rwa [hmod])
      rw [hmod, List.take_length] at hreads
      rw [hbytes, if_pos hroom]
      refine ⟨fun d hd => ?_, rfl⟩
      rw [Option.toList_some, List.map_singleton, List.mem_singleton] at hd
      rw [hd]
      exact ⟨rfl, hreads⟩
    · rw [encodeAck_none cfg turn.nonce _ (by rw [hmod]; omega), if_neg hroom]
      exact ⟨fun d hd => absurd hd List.not_mem_nil, rfl⟩

/-- A daemon with none of the options. -/
def Config.plain : Config := ⟨false, false, none, by decide⟩

/-- A turn that receives a datagram at one instant. -/
def Turn.receive (now : Time) (src : PeerEntry) (bytes : Bytes) : Turn :=
  ⟨now, now, Vector.replicate 12 0, some ⟨src, bytes⟩⟩

/-- Two nodes on topic 7, one second apart. -/
theorem register_ack_exact_pair :
    ∃ blocks : List (List RegisterAckPeer),
      List.Forall₂ (Lists (history .plain [.receive 0 ⟨1, 2⟩ (requestBytes 1 2 [7])]) 1 ⟨3, 4⟩) [7]
        blocks ∧
      (blocks.flatten.length ≤ kMaxAckPeers →
        (∀ d ∈ (step .plain (run .plain {} [.receive 0 ⟨1, 2⟩ (requestBytes 1 2 [7])])
            (.receive 1 ⟨3, 4⟩ (requestBytes 3 4 [7]))).2,
          d.1 = ⟨3, 4⟩ ∧ readReply .plain d.2 = some (0, blocks.flatten)) ∧
        (step .plain (run .plain {} [.receive 0 ⟨1, 2⟩ (requestBytes 1 2 [7])])
            (.receive 1 ⟨3, 4⟩ (requestBytes 3 4 [7]))).2.length =
          if blocks.flatten.length ≤ ackRoom .plain then 1 else 0) :=
  register_ack_exact .plain [.receive 0 ⟨1, 2⟩ (requestBytes 1 2 [7])]
    (.receive 1 ⟨3, 4⟩ (requestBytes 3 4 [7])) ⟨3, 4⟩ ⟨3, 4, 1, [7, 0, 0, 0]⟩
    (by simp [Clocked, Turn.receive]) (by decide)

end Relink.Rlcore
