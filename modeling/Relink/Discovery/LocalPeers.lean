import Relink.Discovery.Listener
import Relink.Library.Run

/-! Which pids a node offers local IPC to.

They come with the calls of the peer callback, and there is one call for an address, at its first
beacon that lists the topic. A peer that restarts, or that says later what it can, has a new beacon
and no new call. -/
namespace Relink.Discovery
open LittleEndian Wire
open Rlcore (PeerEntry)
open Std (ExtTreeMap ExtTreeSet)
open History

/-- What the peer callback of `ensure_started` writes. -/
structure PeerState where
  peers : ExtTreeMap UInt32 (List PeerEntry) := ∅
  localIpcCandidates : ExtTreeMap UInt32 (ExtTreeSet UInt32) := ∅

/-- The peer callback. -/
def onPeerDiscovered (s : PeerState) (call : UInt32 × PeerInfo) : PeerState :=
  let (topic, p) := call
  let s := { s with peers := s.peers.insert topic (s.peers.getD topic [] ++ [⟨p.ip, p.port⟩]) }
  if p.shmCapable then
    { s with localIpcCandidates :=
        s.localIpcCandidates.insert topic ((s.localIpcCandidates.getD topic ∅).insert p.pid) }
  else s

def PeerState.localIpcPeers (s : PeerState) (topic : UInt32) : ExtTreeSet UInt32 :=
  s.localIpcCandidates.getD topic ∅

/-- The listener calls back from its loop. -/
def ListenerConfig.discovered (c : ListenerConfig) (datagrams : List Bytes) : PeerState :=
  (c.listen datagrams).calls.foldl onPeerDiscovered {}

/-! ### What is current -/

/-- The pid of a beacon that is capable. -/
def carried (b : Beacon) : Option UInt32 := if b.shmCapable then some b.nodePid else none

theorem carried_eq_some {b : Beacon} {pid : UInt32} :
    carried b = some pid ↔ b.shmCapable = true ∧ b.nodePid = pid := by
  unfold carried
  split
  · next hcap => simp [hcap]
  · next hcap => simp [hcap]

namespace ListenerConfig
variable (c : ListenerConfig) (topic : UInt32)

/-- The beacon of an address lists the topic. -/
def lists (key : PeerEntry) (b : Beacon) : Bool :=
  PeerEntry.mk b.nodeIp b.nodePort = key ∧ topic ∈ b.topicIds

/-- The port of this host for which a beacon lists the topic. -/
def localPort (b : Beacon) : Option UInt16 :=
  if b.nodeIp = c.selfIp ∧ topic ∈ b.topicIds then some b.nodePort else none

/-- The pids are those that a port's latest beacon that lists the topic carries. -/
def TracksCurrent (datagrams : List Bytes) : Prop :=
  ∀ pid, pid ∈ (c.discovered datagrams).localIpcPeers topic ↔
    ∃ port, latestValue (c.localPort topic) carried (datagrams.filterMap c.heard) port = some pid

/-! ### What the code keeps -/

theorem mem_localIpcPeers (s : PeerState) (calls : List (UInt32 × PeerInfo)) {pid : UInt32} :
    pid ∈ (calls.foldl onPeerDiscovered s).localIpcPeers topic ↔
      pid ∈ s.localIpcPeers topic ∨
        ∃ call ∈ calls, call.1 = topic ∧ call.2.shmCapable = true ∧ call.2.pid = pid := by
  induction calls generalizing s with
  | nil => simp
  | cons call rest ih =>
    have hcall : pid ∈ (onPeerDiscovered s call).localIpcPeers topic ↔
        pid ∈ s.localIpcPeers topic ∨
          call.1 = topic ∧ call.2.shmCapable = true ∧ call.2.pid = pid := by
      unfold onPeerDiscovered
      dsimp only
      split
      · next hcap =>
        simp only [PeerState.localIpcPeers, ExtTreeMap.getD_insert, Std.compare_eq_iff_eq]
        split
        · next htopic =>
          rw [ExtTreeSet.mem_insert, Std.compare_eq_iff_eq, htopic, or_comm]
          simp [hcap]
        · next htopic => simp [htopic]
      · next hcap => simp [hcap, PeerState.localIpcPeers]
    rw [List.foldl_cons, ih, hcall, or_assoc]
    simp [or_and_right, exists_or]

variable {c topic}

/-- The first listing of a key is in the first beacon that has it. -/
theorem find?_listings (hlocal : topic ∈ c.localTopics) (key : PeerEntry) (beacons : List Beacon) :
    ((listings beacons).filter (·.1 ∈ c.localTopics)).find?
        (fun listing => listingKey listing = (topic, key)) =
      (beacons.find? (lists topic key)).map fun b => (topic, b) := by
  induction beacons with
  | nil => rfl
  | cons b rest ih =>
    have hhere : ((b.topicIds.map fun topic => (topic, b)).filter (·.1 ∈ c.localTopics)).find?
        (fun listing => listingKey listing = (topic, key)) =
          if lists topic key b then some (topic, b) else none := by
      rw [List.find?_filter, List.find?_map]
      cases hfind : b.topicIds.find? _ with
      | none =>
        refine (if_neg fun hlists => ?_).symm
        obtain ⟨hkey, htopic⟩ := of_decide_eq_true hlists
        have := List.find?_eq_none.mp hfind topic htopic
        simp [listingKey, hkey, hlocal] at this
      | some topic' =>
        have hmem := List.mem_of_find?_eq_some hfind
        obtain ⟨htopic, hkey⟩ : topic' = topic ∧ PeerEntry.mk b.nodeIp b.nodePort = key := by
          have := List.find?_some hfind
          simp only [Function.comp_apply, decide_eq_true_eq, listingKey, Prod.mk.injEq] at this
          exact this.2
        rw [htopic] at hmem ⊢
        exact (if_pos (decide_eq_true ⟨hkey, hmem⟩)).symm
    rw [listings, List.flatMap_cons, List.filter_append, List.find?_append, hhere, ← listings, ih,
      List.find?_cons]
    cases lists topic key b <;> rfl

/-- A pid is a candidate if the first beacon of a port that lists the topic carries it. -/
theorem mem_discovered {datagrams : List Bytes} {pid : UInt32} :
    pid ∈ (c.discovered datagrams).localIpcPeers topic ↔
      topic ∈ c.localTopics ∧ ∃ port,
        firstValue (c.localPort topic) carried (datagrams.filterMap c.heard) port = some pid := by
  have hexact := c.listen_exact datagrams
  generalize datagrams.filterMap c.heard = beacons at hexact ⊢
  have hlists : ∀ port, (fun b => decide (c.localPort topic b = some port)) =
      lists topic ⟨c.selfIp, port⟩ := by
    intro port
    funext b
    simp [localPort, lists, and_assoc, and_comm]
  rw [discovered, mem_localIpcPeers, hexact.calls]
  simp only [firstValue, hlists, List.mem_map, Option.bind_eq_some_iff, PeerState.localIpcPeers,
    ExtTreeMap.getD_empty, ExtTreeSet.not_mem_empty, false_or]
  constructor
  · rintro ⟨_, ⟨⟨topic', b⟩, hfirst, rfl⟩, rfl, hcap, rfl⟩
    obtain ⟨hcap, hip⟩ : b.shmCapable = true ∧ b.nodeIp = c.selfIp := by
      simpa [peerInfo] using hcap
    have hfind := (mem_firsts listingKey).mp hfirst
    have hlocal : topic' ∈ c.localTopics :=
      of_decide_eq_true (List.mem_filter.mp (List.mem_of_find?_eq_some hfind)).2
    rw [show listingKey (topic', b) = (topic', ⟨c.selfIp, b.nodePort⟩) by rw [listingKey, hip],
      find?_listings hlocal, Option.map_eq_some_iff] at hfind
    obtain ⟨b', hb, heq⟩ := hfind
    cases heq
    exact ⟨hlocal, b.nodePort, b, hb, carried_eq_some.mpr ⟨hcap, rfl⟩⟩
  · rintro ⟨hlocal, port, b, hfirst, hpid⟩
    obtain ⟨hcap, hpid⟩ := carried_eq_some.mp hpid
    have hlists : lists topic ⟨c.selfIp, port⟩ b = true := List.find?_some hfirst
    obtain ⟨hkey, -⟩ := of_decide_eq_true hlists
    have hfind : (topic, b) ∈
        firsts listingKey ((listings beacons).filter (·.1 ∈ c.localTopics)) := by
      rw [mem_firsts, show listingKey (topic, b) = (topic, ⟨c.selfIp, port⟩) by
        rw [listingKey, hkey], find?_listings hlocal, hfirst]
      rfl
    have hip : b.nodeIp = c.selfIp := congrArg PeerEntry.ip hkey
    exact ⟨_, ⟨(topic, b), hfind, rfl⟩, rfl, by simp [peerInfo, hcap, hip], hpid⟩

/-! ### A beacon that comes -/

/-- A beacon is the first that its port lists the topic with, or carries what the one before does,
or the pids of both are also those of other ports. Of a topic that is not declared it carries
none. -/
def KeepsCurrent (c : ListenerConfig) (topic : UInt32) (beacons : List Beacon) (b : Beacon) :
    Prop :=
  ∀ port, c.localPort topic b = some port →
    if topic ∈ c.localTopics then
      ∀ old, latest (fun b => c.localPort topic b = some port) beacons = some old →
        carried b = carried old ∨ ∀ pid, carried b = some pid ∨ carried old = some pid →
          ∃ port', port' ≠ port ∧
            latestValue (c.localPort topic) carried beacons port' = some pid
    else carried b = none

theorem tracksCurrent_iff {datagrams : List Bytes} : c.TracksCurrent topic datagrams ↔
    if topic ∈ c.localTopics then
      SameValues (c.localPort topic) carried (datagrams.filterMap c.heard)
    else ∀ port, latestValue (c.localPort topic) carried (datagrams.filterMap c.heard) port =
      none := by
  simp only [TracksCurrent, mem_discovered]
  split
  · next hlocal => simp only [hlocal, true_and, SameValues]
  · next hlocal =>
    simp only [hlocal, false_and, false_iff, not_exists, Option.eq_none_iff_forall_ne_some]
    exact forall_comm

/-- A beacon of another node keeps the pids current under just this condition. -/
theorem tracksCurrent_snoc {before : List Bytes} (h : c.TracksCurrent topic before)
    {datagram : Bytes} {b : Beacon} (hheard : c.heard datagram = some b) :
    c.TracksCurrent topic (before ++ [datagram]) ↔
      c.KeepsCurrent topic (before.filterMap c.heard) b := by
  rw [tracksCurrent_iff] at h ⊢
  have hsnoc : (before ++ [datagram]).filterMap c.heard = before.filterMap c.heard ++ [b] := by
    simp [hheard]
  rw [hsnoc, KeepsCurrent]
  generalize before.filterMap c.heard = beacons at h ⊢
  by_cases hlocal : topic ∈ c.localTopics
  · simp only [hlocal, if_true] at h ⊢
    exact sameValues_snoc (c.localPort topic) carried h b
  · simp only [hlocal, if_false] at h ⊢
    cases hport : c.localPort topic b with
    | none =>
      rw [latestValue_snoc_none _ _ _ hport]
      exact iff_of_true h fun port hp => by cases hp
    | some port =>
      rw [latestValue_snoc _ _ _ hport]
      simp only [Option.some.injEq, forall_eq']
      constructor
      · intro hall
        simpa using hall port
      · intro hcarried port'
        rw [hcarried, Function.update_eq_self_iff.mpr (h port).symm]
        exact h port'

/-- The candidates are the pids of the latest beacons throughout, exactly if every beacon that
comes keeps them so. -/
theorem tracks_current_iff (c : ListenerConfig) (topic : UInt32) (datagrams : List Bytes) :
    (∀ before, before <+: datagrams → c.TracksCurrent topic before) ↔
      ∀ before datagram, before ++ [datagram] <+: datagrams → ∀ b, c.Hears datagram b →
        c.KeepsCurrent topic (before.filterMap c.heard) b := by
  constructor
  · intro h before datagram hprefix b hhears
    have hbefore := h before ((List.prefix_append ..).trans hprefix)
    exact (tracksCurrent_snoc hbefore (heard_eq_some.mpr hhears)).mp (h _ hprefix)
  · intro h before hprefix
    induction before using List.reverseRecOn with
    | nil =>
      rw [tracksCurrent_iff]
      split
      · exact fun pid => Iff.rfl
      · exact fun port => rfl
    | append_singleton before datagram ih =>
      have hbefore := ih ((List.prefix_append ..).trans hprefix)
      cases hheard : c.heard datagram with
      | none =>
        rw [tracksCurrent_iff] at hbefore ⊢
        rw [List.filterMap_append, List.filterMap_cons_none hheard, List.filterMap_nil,
          List.append_nil]
        exact hbefore
      | some b =>
        rw [tracksCurrent_snoc hbefore hheard]
        exact h before datagram hprefix b (heard_eq_some.mp hheard)

/-- A node at 10.0.0.1 that has declared the topic 7 on the port 5000. -/
def nodeWithTopic : ListenerConfig := ⟨0x0A000001, [(5000, [7])]⟩

/-- The beacon of a node on the same host. -/
def neighbourBeacon (pid : UInt32) : Bytes :=
  u32 0x0A000001 ++ u16 6000 ++ u16 1 ++ u32 7 ++ u32 pid ++ u32 kCapFlagShmLocalIpc

/-- It restarts on its port, and the pid it had stays the only candidate. -/
theorem restart_unnoticed :
    encodeBeaconPacket 0x0A000001 6000 [7] 1 512 222 true = .ok (neighbourBeacon 222) ∧
      (nodeWithTopic.listen [neighbourBeacon 111, neighbourBeacon 222]).calls =
        [(7, ⟨0x0A000001, 6000, 111, true⟩)] ∧
      ¬nodeWithTopic.TracksCurrent 7 [neighbourBeacon 111, neighbourBeacon 222] := by
  refine ⟨by decide +kernel, by decide +kernel, fun h => ?_⟩
  have hlatest : latestValue (nodeWithTopic.localPort 7) carried
      ([neighbourBeacon 111, neighbourBeacon 222].filterMap nodeWithTopic.heard) 6000 =
        some 222 := by
    decide +kernel
  have hmissing : (222 : UInt32) ∉ (nodeWithTopic.discovered
      [neighbourBeacon 111, neighbourBeacon 222]).localIpcPeers 7 := by
    decide +kernel
  exact hmissing ((h 222).mpr ⟨6000, hlatest⟩)

end ListenerConfig
end Relink.Discovery
