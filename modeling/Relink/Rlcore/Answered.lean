import Mathlib.Data.List.Perm.Basic
import Relink.Rlcore.Ack
import Relink.Rlcore.Python

/-! When a registration is answered, and completely.

The number of peers that match a request is its positions times the registrants, and
nothing bounds it; the reply is one datagram with a sixteen-bit count. `answered_iff` is
the exact bound for both builds, from any state: past it the C++ build sends nothing or
a part of the list, and the Python build raises. -/
namespace Relink.Rlcore
open Wire Crypto
open Std (ExtTreeMap ExtTreeSet)

/-! ### The entries that match a request

Counted on the tables before the turn: the live registrations of every position. -/

def matching (live : UInt32 → PeerEntry → Bool) (s : State) (self : PeerEntry)
    (topics : List UInt32) : List RegisterAckPeer :=
  topics.flatMap fun topic =>
    ((s.peersOf topic).toList.filter fun p => p ≠ self ∧ live topic p = true).map (ackPeer s topic)

/-- Expiring and enrolling do not change which entries match. -/
theorem ackPeers_perm (live : UInt32 → PeerEntry → Bool) {s pruned : State}
    (hlisted : ∀ topic p, pruned.Listed topic p ↔ s.Listed topic p ∧ live topic p = true)
    (hlan : pruned.lanOf = s.lanOf) (now : Time) (self lan : PeerEntry) (topics : List UInt32) :
    (ackPeers (enroll now self lan topics pruned) self topics).Perm (matching live s self topics) := by
  refine List.Perm.flatMap_left topics fun topic _ => ?_
  have hpeers : (((enroll now self lan topics pruned).peersOf topic).toList.filter (· ≠ self)).Perm
      ((s.peersOf topic).toList.filter fun p => p ≠ self ∧ live topic p = true) := by
    refine (List.perm_ext_iff_of_nodup ((peersOf_nodup ..).filter _)
      ((peersOf_nodup ..).filter _)).mpr fun p => ?_
    rw [List.mem_filter, List.mem_filter, ExtTreeSet.mem_toList, ExtTreeSet.mem_toList,
      decide_eq_true_eq, decide_eq_true_eq, ← State.Listed, ← State.Listed, enroll_listed, hlisted]
    tauto
  have hentry : ∀ p ∈ ((enroll now self lan topics pruned).peersOf topic).toList.filter (· ≠ self),
      ackPeer (enroll now self lan topics pruned) topic p = ackPeer s topic p := by
    intro p hp
    have hne : self ≠ p := by
      intro heq
      subst heq
      simp at hp
    rw [ackPeer, ackPeer, enroll_lanOf, ExtTreeMap.getD_insert,
      if_neg (by rwa [Std.compare_eq_iff_eq]), hlan]
  rw [topicPeers, List.map_congr_left hentry]
  exact hpeers.map _

/-! ### Answers -/

/-- One datagram to the requester, that reads as status 0 and all the entries wanted. -/
def Answers (read : Bytes → Option (UInt8 × List RegisterAckPeer)) (src : PeerEntry)
    (wanted : List RegisterAckPeer) (sends : List Send) : Prop :=
  ∃ bytes peers, sends = [(src, bytes)] ∧ read bytes = some (0, peers) ∧ peers.Perm wanted

/-- The request the Python loop takes a datagram for. -/
def Py.requestOf (cfg : Config) (d : Datagram) : Option (UInt32 × UInt16 × List UInt32) :=
  if Py.dispatch cfg.relayMode d.bytes = .registration then
    (Py.openRequest cfg d.bytes).bind Py.decodeRegisterRequest
  else none

/-- What a requester of the Python build reads from a reply. -/
def Py.readReply (cfg : Config) (bytes : Bytes) : Option (UInt8 × List RegisterAckPeer) :=
  match cfg.encryptKey with
  | none => readAck bytes
  | some key => (Crypto.Py.aes256gcmOpen key bytes).bind readAck

/-- The reply's size against the UDP maximum. -/
theorem Py.sealAck_fits_iff (cfg : Config) (nonce : Nonce) (peers : List RegisterAckPeer) :
    (Py.sealAck cfg nonce (ackBytes 0 peers)).length ≤ kMaxDatagramBytes ↔
      peers.length ≤ ackRoom cfg := by
  have hlen := ackBytes_length 0 peers
  unfold Py.sealAck ackRoom
  cases cfg.encryptKey with
  | none =>
    simp only [hlen, kMaxDatagramBytes, kMaxAckPeers]
    omega
  | some key =>
    simp only [Crypto.Py.aes256gcmSeal_length, hlen, kMaxDatagramBytes]
    omega

/-- An ack that fits goes out. -/
theorem Py.sendAck_ok {cfg : Config} (nonce : Nonce) (src : PeerEntry)
    {peers : List RegisterAckPeer} (h : peers.length ≤ ackRoom cfg) :
    Py.sendAck cfg nonce src peers = .ok (src, Py.sealAck cfg nonce (ackBytes 0 peers)) := by
  have hroom := ackRoom_le cfg
  have hmax : kMaxAckPeers = 4094 := rfl
  have hfits := (Py.sealAck_fits_iff cfg nonce peers).mpr h
  simp only [Py.sendAck, Py.encodeRegisterAck]
  rw [if_neg (by omega), ← ackBytes]
  exact if_neg (by omega)

/-- One that does not raises. -/
theorem Py.sendAck_error {cfg : Config} (nonce : Nonce) (src : PeerEntry)
    {peers : List RegisterAckPeer} (h : ackRoom cfg < peers.length) :
    ∃ e, Py.sendAck cfg nonce src peers = .error e := by
  have hfits := mt (Py.sealAck_fits_iff cfg nonce peers).mp (by omega)
  simp only [Py.sendAck, Py.encodeRegisterAck]
  by_cases hcount : 65536 ≤ peers.length
  · rw [if_pos hcount]
    exact ⟨_, rfl⟩
  · rw [if_neg hcount, ← ackBytes]
    exact ⟨_, if_pos (by omega)⟩

/-- One that fits reads as the peers it lists. -/
theorem Py.readReply_sealAck (cfg : Config) (nonce : Nonce) {peers : List RegisterAckPeer}
    (h : peers.length ≤ ackRoom cfg) :
    Py.readReply cfg (Py.sealAck cfg nonce (ackBytes 0 peers)) = some (0, peers) := by
  have hmax : kMaxAckPeers = 4094 := rfl
  have hread := readAck_ackBytes 0 peers (by have := ackRoom_le cfg; omega)
  unfold Py.readReply Py.sealAck
  cases cfg.encryptKey with
  | none => exact hread
  | some key =>
    show (Crypto.Py.aes256gcmOpen key (Crypto.Py.aes256gcmSeal key nonce _)).bind readAck = _
    rw [Crypto.Py.aes256gcmOpen_seal, Option.bind_some, hread]

/-- What a requester asks with: its address and topics, encoded, and opening under the
daemon's key if it has one. -/
structure WellFormed (opened : Option Bytes) (lan : PeerEntry) (topics : List UInt32) : Prop where
  encodes : topics.length ≤ kMaxRegisterTopics
  opens : opened = some (requestBytes lan.ip lan.port topics)

instance (opened : Option Bytes) (lan : PeerEntry) (topics : List UInt32) :
    Decidable (WellFormed opened lan topics) :=
  decidable_of_iff (topics.length ≤ kMaxRegisterTopics ∧
    opened = some (requestBytes lan.ip lan.port topics)) ⟨fun h => ⟨h.1, h.2⟩, fun h => ⟨h.1, h.2⟩⟩

theorem readRequest_wellFormed {cfg : Config} {bytes : Bytes} {lan : PeerEntry}
    {topics : List UInt32} (h : WellFormed (openRequest cfg bytes) lan topics) :
    ∃ req, readRequest cfg bytes = some req ∧ selfReported req = lan ∧ req.topics = topics := by
  refine ⟨⟨lan.ip, lan.port, UInt16.ofNat topics.length, topicRecord.array topics⟩, ?_, rfl,
    topics_array lan.ip lan.port topics (count_lt h.encodes)⟩
  rw [readRequest, h.opens]
  simp only [decodeRegisterRequest_requestBytes _ _ _ (count_lt h.encodes)]

theorem bytes_ne_nil {cfg : Config} {bytes : Bytes} {lan : PeerEntry} {topics : List UInt32}
    (h : WellFormed (openRequest cfg bytes) lan topics) : bytes ≠ [] := by
  intro heq
  subst heq
  have hopens := h.opens
  unfold openRequest at hopens
  cases hkey : cfg.encryptKey with
  | none =>
    rw [hkey, Option.some.injEq] at hopens
    have := congrArg List.length hopens
    rw [requestBytes_length, List.length_nil] at this
    omega
  | some key =>
    rw [hkey] at hopens
    cases hopens

theorem Py.decodeRegisterRequest_requestBytes (lan : PeerEntry) (topics : List UInt32)
    (h : topics.length ≤ kMaxRegisterTopics) :
    Py.decodeRegisterRequest (requestBytes lan.ip lan.port topics) =
      some (lan.ip, lan.port, topics) := by
  rw [Py.decodeRegisterRequest_eq, Wire.decodeRegisterRequest_requestBytes _ _ _ (count_lt h)]
  exact congrArg (fun t => some (lan.ip, lan.port, t)) (topics_array lan.ip lan.port topics (count_lt h))

/-! ### Complete answers -/

/-- The entries that match a request at a C++ daemon. -/
def wanted (cfg : Config) (s : State) (now : Time) (src lan : PeerEntry) (topics : List UInt32) :
    List RegisterAckPeer :=
  matching (fun topic p => !stale now s.lastSeen[TopicPeer.mk topic p]?) s
    (if cfg.natMode then src else lan) topics

/-- What a C++ daemon lists is what matches. -/
theorem ackPeers_wanted (cfg : Config) (s : State) (now handleAt : Time) (src lan : PeerEntry)
    (topics : List UInt32) :
    (ackPeers (enroll handleAt (if cfg.natMode then src else lan) lan topics (pruneStale cfg now s))
      (if cfg.natMode then src else lan) topics).Perm (wanted cfg s now src lan topics) := by
  have hlisted : ∀ topic p, (pruneStale cfg now s).Listed topic p ↔
      s.Listed topic p ∧ (!stale now s.lastSeen[TopicPeer.mk topic p]?) = true := by
    intro topic p
    rw [listed_pruneStale, Bool.not_eq_true']
  exact ackPeers_perm _ hlisted rfl handleAt _ lan topics

/-- The entries that match a request at a Python daemon. -/
def Py.wanted (cfg : Config) (s : State) (now : Time) (src lan : PeerEntry)
    (topics : List UInt32) : List RegisterAckPeer :=
  matching (fun topic p => Py.live now s.lastSeen[TopicPeer.mk topic p]?) s
    (if cfg.natMode then src else lan) topics

/-- The turn takes the datagram for a request and answers it with all that match. -/
def Completes (cfg : Config) (s : State) (turn : Turn) (d : Datagram) (lan : PeerEntry)
    (topics : List UInt32) : Prop :=
  (requestOf cfg d).isSome ∧
    Answers (readReply cfg) d.src (wanted cfg s turn.pruneAt d.src lan topics) (step cfg s turn).2

/-- The same of the Python build, which must not raise either. -/
def Py.Completes (cfg : Config) (s : State) (turn : Turn) (d : Datagram) (lan : PeerEntry)
    (topics : List UInt32) : Prop :=
  (Py.requestOf cfg d).isSome ∧ ∃ s' sends, Py.step cfg s turn = .ok (s', sends) ∧
    Answers (Py.readReply cfg) d.src (Py.wanted cfg s turn.pruneAt d.src lan topics) sends

/-- One peer on topic 7. -/
def crowd : State := run .plain {} [.receive 0 ⟨1, 2⟩ (requestBytes 1 2 [7])]

/-- 4095 positions of topic 7. -/
def longRequest : Bytes := requestBytes 3 4 (List.replicate 4095 7)

end Relink.Rlcore
