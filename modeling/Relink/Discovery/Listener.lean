import Relink.Discovery.Multicast
import Relink.Library.Latest

/-! What a multicast listener knows.

Its tables grow by what it hears: the addresses of those who list a topic it has declared, and the
topics that anyone lists. The key of an address is what tells a call of the peer callback from a
repetition, and `tables_exact` says that there is one call for each. -/
namespace Relink.Discovery
open Wire
open Rlcore (PeerEntry listenerBranch kListenerBufBytes)
open Std (ExtTreeMap ExtTreeSet)
open History

/-- What a listener reads of `MulticastDiscoveryConfig`: a port and its topics for every group. -/
structure ListenerConfig where
  selfIp : UInt32
  portGroups : List (UInt16 × List UInt32)

/-- `self_ports_`. -/
def ListenerConfig.selfPorts (c : ListenerConfig) : List UInt16 := c.portGroups.map Prod.fst

/-- `local_topics_`. -/
def ListenerConfig.localTopics (c : ListenerConfig) : List UInt32 := c.portGroups.flatMap Prod.snd

structure PeerInfo where
  ip : UInt32
  port : UInt16
  pid : UInt32
  shmCapable : Bool
deriving DecidableEq, Repr

/-- `calls` is what the peer callback has been called with. -/
structure Listener where
  table : ExtTreeMap UInt32 (ExtTreeSet PeerEntry) := ∅
  networkTopics : ExtTreeSet UInt32 := ∅
  calls : List (UInt32 × PeerInfo) := []

/-- The sets that `peers_for_topic` copies. -/
def Listener.peersForTopic (s : Listener) (topic : UInt32) : ExtTreeSet PeerEntry :=
  s.table.getD topic ∅

namespace ListenerConfig
variable (c : ListenerConfig)

def peerInfo (b : Beacon) : PeerInfo :=
  ⟨b.nodeIp, b.nodePort, b.nodePid, b.shmCapable && b.nodeIp == c.selfIp⟩

/-- A topic of a beacon. -/
def hearTopic (s : Listener) (listing : UInt32 × Beacon) : Listener :=
  let (topic, b) := listing
  let s := { s with networkTopics := s.networkTopics.insert topic }
  if topic ∉ c.localTopics then s
  else
    let peer := c.peerInfo b
    let key := PeerEntry.mk peer.ip peer.port
    let isNew := key ∉ s.peersForTopic topic
    let s := { s with table := s.table.insert topic ((s.peersForTopic topic).insert key) }
    if isNew then { s with calls := s.calls ++ [(topic, peer)] } else s

/-- The beacon comes from the node itself. -/
def IsOwn (b : Beacon) : Prop := b.nodeIp = c.selfIp ∧ b.nodePort ∈ c.selfPorts

instance (b : Beacon) : Decidable (c.IsOwn b) :=
  inferInstanceAs (Decidable (b.nodeIp = c.selfIp ∧ b.nodePort ∈ c.selfPorts))

def hear (s : Listener) (b : Beacon) : Listener :=
  if c.IsOwn b then s else (b.topicIds.map fun topic => (topic, b)).foldl c.hearTopic s

/-- A turn of `listener_loop`, for its tables. -/
def receive (s : Listener) (datagram : Bytes) : Listener :=
  if datagram = [] then s
  else
    match listenerBranch datagram with
    | .answerNames => s
    | .ignored => s
    | .beacon (.error _) => s
    | .beacon (.ok decoded) => c.hear s (readBeacon decoded)

def listen (datagrams : List Bytes) : Listener := datagrams.foldl c.receive {}

/-! ### What is heard -/

/-- The beacon of another node that a datagram is, after the cut. -/
def heard (datagram : Bytes) : Option Beacon :=
  let buf := datagram.take kListenerBufBytes
  if topicDirPacketKind buf = .unknown then
    ((decodeBeaconPacket buf).toOption.map readBeacon).filter fun b => ¬c.IsOwn b
  else none

theorem receive_eq (s : Listener) (datagram : Bytes) : c.receive s datagram =
    (((c.heard datagram).toList.flatMap fun b => b.topicIds.map fun topic => (topic, b)).foldl
      c.hearTopic s) := by
  unfold receive heard
  split
  · next h =>
    rw [h]
    rfl
  · rw [listenerBranch]
    dsimp only
    cases topicDirPacketKind (datagram.take kListenerBufBytes) with
    | unknown =>
      rw [if_pos rfl]
      cases decodeBeaconPacket (datagram.take kListenerBufBytes) with
      | error e => rfl
      | ok decoded =>
        show c.hear s (readBeacon decoded) = _
        rw [hear]
        split
        · next hown => simp [Except.toOption, Option.filter_some, hown]
        · next hown => simp [Except.toOption, Option.filter_some, hown]
    | announce | query | reply => rfl

/-- The topics of all that is heard, in order. -/
def listings (beacons : List Beacon) : List (UInt32 × Beacon) :=
  beacons.flatMap fun b => b.topicIds.map fun topic => (topic, b)

theorem mem_listings {beacons : List Beacon} {topic : UInt32} {b : Beacon} :
    (topic, b) ∈ listings beacons ↔ b ∈ beacons ∧ topic ∈ b.topicIds := by
  simp only [listings, List.mem_flatMap, List.mem_map, Prod.mk.injEq]
  constructor
  · rintro ⟨b', hb, topic', htopic, rfl, rfl⟩
    exact ⟨hb, htopic⟩
  · rintro ⟨hb, htopic⟩
    exact ⟨b, hb, topic, htopic, rfl, rfl⟩

theorem listen_eq (datagrams : List Bytes) :
    c.listen datagrams = (listings (datagrams.filterMap c.heard)).foldl c.hearTopic {} := by
  rw [listen, listings]
  generalize ({} : Listener) = s
  induction datagrams generalizing s with
  | nil => rfl
  | cons datagram rest ih =>
    rw [List.foldl_cons, receive_eq, ih, ← List.foldl_append, List.filterMap_cons]
    cases c.heard datagram with
    | none => rfl
    | some b => simp

/-! ### What the tables hold -/

def listingKey (listing : UInt32 × Beacon) : UInt32 × PeerEntry :=
  (listing.1, ⟨listing.2.nodeIp, listing.2.nodePort⟩)

def callKey (call : UInt32 × PeerInfo) : UInt32 × PeerEntry := (call.1, ⟨call.2.ip, call.2.port⟩)

/-- The callback is called for the first listing of each key, and the tables are the calls'. -/
structure Exact (listings : List (UInt32 × Beacon)) (s : Listener) : Prop where
  calls : s.calls = (firsts listingKey (listings.filter (·.1 ∈ c.localTopics))).map
    fun listing => (listing.1, c.peerInfo listing.2)
  table : ∀ topic key, key ∈ s.peersForTopic topic ↔ (topic, key) ∈ s.calls.map callKey
  topics : ∀ topic, topic ∈ s.table ↔ ∃ key, key ∈ s.peersForTopic topic
  network : ∀ topic, topic ∈ s.networkTopics ↔ ∃ listing ∈ listings, listing.1 = topic

variable {c}

theorem Exact.nil : c.Exact [] {} := by
  refine ⟨rfl, fun topic key => ?_, fun topic => ?_, fun topic => ?_⟩
  · simp [Listener.peersForTopic]
  · simp [Listener.peersForTopic]
  · simp

theorem Exact.keys {listings : List (UInt32 × Beacon)} {s : Listener} (h : c.Exact listings s) :
    s.calls.map callKey =
      (firsts listingKey (listings.filter (·.1 ∈ c.localTopics))).map listingKey := by
  rw [h.calls, List.map_map]
  rfl

/-! One listing. -/

section
variable (s : Listener) (listing : UInt32 × Beacon)

theorem hearTopic_network : (c.hearTopic s listing).networkTopics =
    s.networkTopics.insert listing.1 := by
  unfold hearTopic
  dsimp only
  split
  · rfl
  · split <;> rfl

theorem hearTopic_calls : (c.hearTopic s listing).calls =
    if listing.1 ∈ c.localTopics ∧ (listingKey listing).2 ∉ s.peersForTopic listing.1 then
      s.calls ++ [(listing.1, c.peerInfo listing.2)]
    else s.calls := by
  unfold hearTopic
  dsimp only
  split
  · next hlocal => rw [if_neg fun h => hlocal h.1]
  · next hlocal =>
    rw [not_not] at hlocal
    simp only [hlocal, true_and]
    split
    · next hnew => exact (if_pos hnew).symm
    · next hold => exact (if_neg hold).symm

theorem hearTopic_table : (c.hearTopic s listing).table =
    if listing.1 ∈ c.localTopics then
      s.table.insert listing.1 ((s.peersForTopic listing.1).insert (listingKey listing).2)
    else s.table := by
  unfold hearTopic
  dsimp only
  split
  · next hlocal => rfl
  · next hlocal =>
    rw [if_pos (not_not.mp hlocal)]
    split <;> rfl

theorem mem_hearTopic {topic : UInt32} {key : PeerEntry} :
    key ∈ (c.hearTopic s listing).peersForTopic topic ↔
      key ∈ s.peersForTopic topic ∨
        listing.1 ∈ c.localTopics ∧ listingKey listing = (topic, key) := by
  rw [Listener.peersForTopic, hearTopic_table]
  split
  · next hlocal =>
    rw [ExtTreeMap.getD_insert]
    split
    · next heq =>
      obtain rfl : listing.1 = topic := Std.compare_eq_iff_eq.mp heq
      rw [ExtTreeSet.mem_insert, Std.compare_eq_iff_eq, or_comm]
      simp [listingKey, hlocal]
    · next hne =>
      have : listing.1 ≠ topic := fun h => hne (Std.compare_eq_iff_eq.mpr h)
      simp [listingKey, this, Listener.peersForTopic]
  · next hlocal => simp [hlocal, Listener.peersForTopic]

end

/-- A listing that comes is entered with its key, if it is the first. -/
theorem Exact.calls_hearTopic {listings : List (UInt32 × Beacon)} {s : Listener}
    (h : c.Exact listings s) (listing : UInt32 × Beacon) : (c.hearTopic s listing).calls =
      (firsts listingKey ((listings ++ [listing]).filter (·.1 ∈ c.localTopics))).map
        fun listing => (listing.1, c.peerInfo listing.2) := by
  rw [hearTopic_calls, List.filter_append]
  by_cases hlocal : listing.1 ∈ c.localTopics
  · have hseen : (listingKey listing).2 ∈ s.peersForTopic listing.1 ↔ listingKey listing ∈
        (firsts listingKey (listings.filter (·.1 ∈ c.localTopics))).map listingKey :=
      h.keys ▸ h.table listing.1 (listingKey listing).2
    rw [List.filter_cons_of_pos (by simpa using hlocal), List.filter_nil, firsts_snoc, enter,
      h.calls]
    by_cases hold : (listingKey listing).2 ∈ s.peersForTopic listing.1
    · rw [if_neg fun hnew => hnew.2 hold, if_pos (hseen.mp hold)]
    · rw [if_pos ⟨hlocal, hold⟩, if_neg (mt hseen.mpr hold), List.map_append, List.map_singleton]
  · rw [if_neg fun hnew => hlocal hnew.1, List.filter_cons_of_neg (by simpa using hlocal),
      List.filter_nil, List.append_nil, h.calls]

theorem Exact.table_hearTopic {listings : List (UInt32 × Beacon)} {s : Listener}
    (h : c.Exact listings s) (listing : UInt32 × Beacon) (topic : UInt32) (key : PeerEntry) :
    key ∈ (c.hearTopic s listing).peersForTopic topic ↔
      (topic, key) ∈ (c.hearTopic s listing).calls.map callKey := by
  rw [mem_hearTopic, h.table, hearTopic_calls]
  split
  · next hnew =>
    rw [List.map_append, List.mem_append, List.map_singleton, List.mem_singleton]
    exact or_congr_right ⟨fun hkey => hkey.2.symm, fun hkey => ⟨hnew.1, hkey.symm⟩⟩
  · next hold =>
    refine or_iff_left_of_imp ?_
    rintro ⟨hlocal, hkey⟩
    have hseen : (listingKey listing).2 ∈ s.peersForTopic listing.1 :=
      not_not.mp fun hnew => hold ⟨hlocal, hnew⟩
    rw [← hkey]
    exact (h.table ..).mp hseen

/-- The table has no topic without peers. -/
theorem Exact.topics_hearTopic {listings : List (UInt32 × Beacon)} {s : Listener}
    (h : c.Exact listings s) (listing : UInt32 × Beacon) (topic : UInt32) :
    topic ∈ (c.hearTopic s listing).table ↔
      ∃ key, key ∈ (c.hearTopic s listing).peersForTopic topic := by
  simp only [mem_hearTopic, exists_or]
  rw [hearTopic_table, ← h.topics]
  split
  · next hlocal =>
    rw [ExtTreeMap.mem_insert, Std.compare_eq_iff_eq, or_comm]
    refine or_congr_right ?_
    constructor
    · intro htopic
      exact ⟨(listingKey listing).2, hlocal, htopic ▸ rfl⟩
    · rintro ⟨key, -, hkey⟩
      exact congrArg Prod.fst hkey
  · next hlocal => simp [hlocal]

theorem Exact.step {listings : List (UInt32 × Beacon)} {s : Listener} (h : c.Exact listings s)
    (listing : UInt32 × Beacon) : c.Exact (listings ++ [listing]) (c.hearTopic s listing) := by
  refine ⟨h.calls_hearTopic listing, h.table_hearTopic listing, h.topics_hearTopic listing, ?_⟩
  intro topic
  rw [hearTopic_network, ExtTreeSet.mem_insert, Std.compare_eq_iff_eq, h.network]
  simp [or_and_right, exists_or, or_comm]

theorem listen_exact (datagrams : List Bytes) :
    c.Exact (listings (datagrams.filterMap c.heard)) (c.listen datagrams) := by
  rw [listen_eq]
  induction listings (datagrams.filterMap c.heard) using List.reverseRecOn with
  | nil => exact Exact.nil
  | append_singleton listings listing ih =>
    rw [List.foldl_append]
    exact ih.step listing

theorem mem_calls {listings : List (UInt32 × Beacon)} {s : Listener} (h : c.Exact listings s)
    {topic : UInt32} {key : PeerEntry} : (topic, key) ∈ s.calls.map callKey ↔
      topic ∈ c.localTopics ∧ ∃ b, (topic, b) ∈ listings ∧ key = ⟨b.nodeIp, b.nodePort⟩ := by
  rw [h.keys, mem_kinds]
  constructor
  · rintro ⟨⟨topic', b⟩, hlisting, hkey⟩
    obtain ⟨rfl, rfl⟩ := Prod.mk.inj hkey
    obtain ⟨hmem, hlocal⟩ := List.mem_filter.mp hlisting
    exact ⟨of_decide_eq_true hlocal, b, hmem, rfl⟩
  · rintro ⟨hlocal, b, hmem, rfl⟩
    exact ⟨(topic, b), List.mem_filter.mpr ⟨hmem, decide_eq_true hlocal⟩, rfl⟩

/-- A datagram is a beacon of another node, as far as the listener's buffer takes it. -/
def Hears (c : ListenerConfig) (datagram : Bytes) (b : Beacon) : Prop :=
  topicDirPacketKind (datagram.take 512) = .unknown ∧
    (∃ decoded, decodeBeaconPacket (datagram.take 512) = .ok decoded ∧ b = readBeacon decoded) ∧
    ¬(b.nodeIp = c.selfIp ∧ ∃ group ∈ c.portGroups, group.1 = b.nodePort)

theorem heard_eq_some {datagram : Bytes} {b : Beacon} :
    c.heard datagram = some b ↔ c.Hears datagram b := by
  have hown : c.IsOwn b ↔ b.nodeIp = c.selfIp ∧ ∃ group ∈ c.portGroups, group.1 = b.nodePort := by
    rw [IsOwn, selfPorts, List.mem_map]
  have hcut : datagram.take 512 = datagram.take kListenerBufBytes := rfl
  rw [heard, Hears, ← hown, hcut]
  by_cases hkind : topicDirPacketKind (datagram.take kListenerBufBytes) = .unknown
  · rw [if_pos hkind]
    cases decodeBeaconPacket (datagram.take kListenerBufBytes) with
    | error e => simp [Except.toOption]
    | ok decoded =>
      simp only [Except.toOption, Option.map_some, Option.filter_eq_some_iff, Option.some.injEq,
        Except.ok.injEq, decide_eq_true_eq, hkind, true_and]
      simp [eq_comm]
  · simp [hkind]

theorem mem_heard {datagrams : List Bytes} {topic : UInt32} {b : Beacon} :
    (topic, b) ∈ listings (datagrams.filterMap c.heard) ↔
      ∃ datagram ∈ datagrams, c.Hears datagram b ∧ topic ∈ b.topicIds := by
  simp only [mem_listings, List.mem_filterMap, heard_eq_some]
  tauto

theorem tables_exact (c : ListenerConfig) (datagrams : List Bytes) :
    (∀ topic key, key ∈ (c.listen datagrams).peersForTopic topic ↔
      (∃ group ∈ c.portGroups, topic ∈ group.2) ∧ ∃ datagram ∈ datagrams, ∃ b,
        c.Hears datagram b ∧ topic ∈ b.topicIds ∧ key = ⟨b.nodeIp, b.nodePort⟩) ∧
    (∀ topic, topic ∈ (c.listen datagrams).table ↔
      ∃ key, key ∈ (c.listen datagrams).peersForTopic topic) ∧
    (∀ topic key, ((c.listen datagrams).calls.map callKey).count (topic, key) =
      if key ∈ (c.listen datagrams).peersForTopic topic then 1 else 0) ∧
    ∀ topic, topic ∈ (c.listen datagrams).networkTopics ↔
      ∃ datagram ∈ datagrams, ∃ b, c.Hears datagram b ∧ topic ∈ b.topicIds := by
  have hexact := c.listen_exact datagrams
  refine ⟨fun topic key => ?_, hexact.topics, fun topic key => ?_, fun topic => ?_⟩
  · have hlocal : topic ∈ c.localTopics ↔ ∃ group ∈ c.portGroups, topic ∈ group.2 := by
      rw [localTopics, List.mem_flatMap]
    rw [hexact.table, mem_calls hexact, hlocal]
    simp only [mem_heard]
    tauto
  · have hnodup : ((c.listen datagrams).calls.map callKey).Nodup := hexact.keys ▸ firsts_nodup ..
    split
    · next hmem => exact List.count_eq_one_of_mem hnodup ((hexact.table ..).mp hmem)
    · next hnot => exact List.count_eq_zero_of_not_mem (mt (hexact.table ..).mpr hnot)
  · rw [hexact.network]
    simp only [Prod.exists, mem_heard]
    constructor
    · rintro ⟨topic', b, ⟨datagram, hmem, hheard⟩, rfl⟩
      exact ⟨datagram, hmem, b, hheard⟩
    · rintro ⟨datagram, hmem, b, hheard⟩
      exact ⟨topic, b, ⟨datagram, hmem, hheard⟩, rfl⟩

end ListenerConfig
end Relink.Discovery
