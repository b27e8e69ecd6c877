import Mathlib.Data.Fintype.Basic
import Relink.Discovery.LocalPeers

/-! Peers by multicast.

Nodes of both builds beacon to the group and port of their network id. Beacons get lost, come twice
or in any order, and other traffic comes on the same port; a socket on the port may be given what
was sent to another group. A node then publishes each of its topics to those that listed it in a
beacon that has arrived, once each. These are nodes of its own network id as far as ports tell ids
apart, which they do up to 58135: the node of id 1 finds that of id 58136 too. -/
namespace Relink.Discovery
open LittleEndian Wire Transition
open Rlcore (Build PeerEntry nameMagics listenerBranch)
open History

/-! ### Groups and ports -/

def kDefaultMulticastPort : UInt16 := 7400

def deriveMulticastGroup (networkId : UInt16) : String :=
  if networkId = 0 then "239.255.0.1"
  else
    let computed := networkId.toUInt32 + 1
    let hi := (computed >>> 8) &&& 0xFF
    let lo := computed &&& 0xFF
    "239.255." ++ toString hi.toNat ++ "." ++ toString lo.toNat

def deriveMulticastPort (networkId : UInt16) : UInt16 :=
  if networkId = 0 then kDefaultMulticastPort
  else
    let kRange := 65535 - kDefaultMulticastPort.toUInt32
    let offset := networkId.toUInt32 % kRange + 1
    (kDefaultMulticastPort.toUInt32 + offset).toUInt16

/-- A shift is a division, and the mask of a byte a remainder. -/
def Py.deriveMulticastGroup (networkId : Int) : String :=
  if networkId = 0 then "239.255.0.1"
  else
    let computed := networkId + 1
    let hi := computed / 2 ^ 8 % 256
    let lo := computed % 256
    "239.255." ++ toString hi ++ "." ++ toString lo

def Py.deriveMulticastPort (networkId : Int) : Int :=
  if networkId = 0 then 7400
  else
    let portRange := 65535 - 7400
    let offset := networkId % portRange + 1
    7400 + offset

theorem intCast_ne_zero {networkId : UInt16} (h : networkId ≠ 0) : (networkId.toNat : Int) ≠ 0 := by
  intro hzero
  exact h (UInt16.toNat_inj.mp (by exact_mod_cast hzero))

theorem deriveMulticastPort_toNat (networkId : UInt16) :
    (deriveMulticastPort networkId).toNat = Py.deriveMulticastPort networkId.toNat := by
  unfold deriveMulticastPort Py.deriveMulticastPort
  by_cases hzero : networkId = 0
  · rw [if_pos hzero, if_pos (by rw [hzero]; rfl)]
    rfl
  · have hmod := Nat.mod_lt networkId.toNat (by decide : 0 < 58135)
    have hoffset : (networkId.toUInt32 % (65535 - kDefaultMulticastPort.toUInt32) + 1).toNat =
        networkId.toNat % 58135 + 1 := by
      rw [UInt32.toNat_add, UInt32.toNat_mod, UInt16.toNat_toUInt32]
      show (networkId.toNat % 58135 + 1) % 2 ^ 32 = _
      omega
    rw [if_neg hzero, if_neg (intCast_ne_zero hzero)]
    dsimp only
    rw [UInt32.toNat_toUInt16, UInt32.toNat_add, hoffset]
    show (((7400 + (networkId.toNat % 58135 + 1)) % 2 ^ 32 % 2 ^ 16 : Nat) : Int) = _
    omega

theorem deriveMulticastGroup_eq (networkId : UInt16) :
    deriveMulticastGroup networkId = Py.deriveMulticastGroup networkId.toNat := by
  unfold deriveMulticastGroup Py.deriveMulticastGroup
  by_cases hzero : networkId = 0
  · rw [if_pos hzero, if_pos (by rw [hzero]; rfl)]
  · have hlt : networkId.toNat < 65536 := networkId.toNat_lt
    have hcomputed : (networkId.toUInt32 + 1).toNat = networkId.toNat + 1 := by
      rw [UInt32.toNat_add, UInt16.toNat_toUInt32]
      show (networkId.toNat + 1) % 2 ^ 32 = _
      omega
    have hbyte : ∀ x : UInt32, (x &&& 0xFF).toNat = x.toNat % 256 := by
      intro x
      rw [UInt32.toNat_and]
      exact Nat.and_two_pow_sub_one_eq_mod _ 8
    have hhi : ((networkId.toUInt32 + 1) >>> 8).toNat = (networkId.toNat + 1) / 256 := by
      rw [UInt32.toNat_shiftRight, hcomputed]
      exact Nat.shiftRight_eq_div_pow _ 8
    rw [if_neg hzero, if_neg (intCast_ne_zero hzero)]
    simp only [hbyte, hhi, hcomputed]
    rfl

/-- The ids up to this one have ports of their own. -/
def kMaxNetworkId : Int := 65535 - 7400

theorem derivePort_inj {a b : Int} (ha : 0 ≤ a ∧ a ≤ kMaxNetworkId)
    (hb : 0 ≤ b ∧ b ≤ kMaxNetworkId) :
    Py.deriveMulticastPort a = Py.deriveMulticastPort b ↔ a = b := by
  unfold kMaxNetworkId at ha hb
  refine ⟨fun h => ?_, fun h => by rw [h]⟩
  unfold Py.deriveMulticastPort at h
  dsimp only at h
  split at h <;> split at h <;> omega

/-! ### A network -/

/-- A node that uses multicast discovery. -/
structure Station where
  build : Build
  networkId : Int
  config : MulticastConfig

/-- Where it beacons to, and listens. The parameter of the C++ setter has 16 bits. -/
def Station.dest (s : Station) : String × Int :=
  match s.build with
  | .cpp =>
    let networkId := UInt16.ofNat (s.networkId % 65536).toNat
    (deriveMulticastGroup networkId, (deriveMulticastPort networkId).toNat)
  | .python => (Py.deriveMulticastGroup s.networkId, Py.deriveMulticastPort s.networkId)

/-- What the constructor keeps of the configuration. -/
def MulticastConfig.listener (c : MulticastConfig) : ListenerConfig :=
  ⟨c.selfIp, c.portGroups.map fun g => (g.port, g.topics)⟩

/-- Nodes, of which no two have a socket with one address. -/
structure Lan (ι : Type) where
  station : ι → Station
  address : ∀ i j, (station i).config.selfIp = (station j).config.selfIp →
    ∀ g ∈ (station i).config.portGroups, ∀ g' ∈ (station j).config.portGroups,
      g.port = g'.port → i = j

/-- A turn of the Python `_listener_loop`, for its tables. -/
def Py.receive (c : ListenerConfig) (s : Listener) (datagram : Bytes) : Listener :=
  let data := datagram.take (max 512 kTopicDirMaxPacket)
  match topicDirPacketKind data with
  | .query | .announce | .reply => s
  | .unknown =>
    match Py.decodeBeaconPacket data with
    | none => s
    | some b => c.hear s b

def receiveBy : Build → ListenerConfig → Listener → Bytes → Listener
  | .cpp => ListenerConfig.receive
  | .python => Py.receive

/-- What the listeners know, and what each node has sent. -/
structure Air (ι : Type) where
  listener : ι → Listener := fun _ => {}
  sent : ι → List Bytes := fun _ => []

inductive LanEvent (ι : Type) where
  | announce (i : ι)
  | arrive (i : ι) (datagram : Bytes)
deriving DecidableEq

/-- What the peer callback has written. -/
def Air.discovered {ι : Type} (a : Air ι) (i : ι) : PeerState :=
  (a.listener i).calls.foldl onPeerDiscovered {}

/-- `peers_` of a topic. -/
def PeerState.peersForTopic (s : PeerState) (topic : UInt32) : List PeerEntry :=
  s.peers.getD topic []

namespace Lan
variable {ι : Type} (N : Lan ι)

/-- What arrives was sent to the port, or is no beacon. -/
def Allowed (a : Air ι) : LanEvent ι → Prop
  | .announce _ => True
  | .arrive i datagram =>
    (∃ j, (N.station j).dest.2 = (N.station i).dest.2 ∧ datagram ∈ a.sent j) ∨
      heardBy (N.station i).build datagram = none

instance [Fintype ι] (a : Air ι) (e : LanEvent ι) : Decidable (N.Allowed a e) :=
  match e with
  | .announce _ => .isTrue trivial
  | .arrive i datagram => inferInstanceAs (Decidable
      ((∃ j, (N.station j).dest.2 = (N.station i).dest.2 ∧ datagram ∈ a.sent j) ∨
        heardBy (N.station i).build datagram = none))

variable [DecidableEq ι]

def step (a : Air ι) : LanEvent ι → Air ι
  | .announce i =>
    let beacons := (N.station i).config.sendBeaconOnce (N.station i).build
    {a with sent := Function.update a.sent i (a.sent i ++ beacons)}
  | .arrive i datagram =>
    let s := receiveBy (N.station i).build (N.station i).config.listener (a.listener i) datagram
    {a with listener := Function.update a.listener i s}

/-- A beacon that the other node sends for a group has arrived from the listener's port, and this is
what was read of it. -/
def Reached (events : List (LanEvent ι)) (j : ι) (g : PortGroup) (b : Beacon) (i : ι) : Prop :=
  j ≠ i ∧ (N.station j).dest.2 = (N.station i).dest.2 ∧ g ∈ (N.station j).config.portGroups ∧
    ∃ datagram ∈ (N.station j).config.sendBeaconOnce (N.station j).build,
      .arrive i datagram ∈ events ∧ heardBy (N.station i).build datagram = some b ∧
        b.nodePort = g.port

end Lan

/-! ### One listener -/

/-- The beacon of another node that a listener reads. -/
def otherBeacon (build : Build) (c : ListenerConfig) (datagram : Bytes) : Option Beacon :=
  (heardBy build datagram).filter fun b => ¬c.IsOwn b

theorem hear_eq (c : ListenerConfig) (s : Listener) (b : Beacon) :
    c.hear s b = (ListenerConfig.listings ((some b).filter fun b => ¬c.IsOwn b).toList).foldl
      c.hearTopic s := by
  rw [ListenerConfig.hear, Option.filter_some]
  by_cases hown : c.IsOwn b
  · rw [if_pos hown, if_neg (by simpa using hown)]
    rfl
  · rw [if_neg hown, if_pos (by simpa using hown)]
    simp only [ListenerConfig.listings, Option.toList_some, List.flatMap_cons, List.flatMap_nil,
      List.append_nil]

/-- The two loops do the same with what they read. -/
theorem receiveBy_eq (build : Build) (c : ListenerConfig) (s : Listener) (datagram : Bytes) :
    receiveBy build c s datagram =
      (ListenerConfig.listings (otherBeacon build c datagram).toList).foldl c.hearTopic s := by
  cases build with
  | cpp =>
    simp only [otherBeacon, heardBy]
    show ListenerConfig.receive c s datagram = _
    unfold ListenerConfig.receive
    by_cases hempty : datagram = []
    · rw [if_pos hempty, hempty]
      rfl
    rw [if_neg hempty]
    cases listenerBranch datagram with
    | answerNames => rfl
    | ignored => rfl
    | beacon decoded =>
      cases decoded with
      | error e => rfl
      | ok decoded => exact hear_eq c s (readBeacon decoded)
  | python =>
    simp only [otherBeacon, heardBy]
    show Py.receive c s datagram = _
    simp only [Py.receive]
    cases topicDirPacketKind (datagram.take (max 512 kTopicDirMaxPacket)) with
    | query | announce | reply => rfl
    | unknown =>
      dsimp only
      cases Py.decodeBeaconPacket (datagram.take (max 512 kTopicDirMaxPacket)) with
      | none => rfl
      | some b => exact hear_eq c s b

theorem ListenerConfig.Exact.run {c : ListenerConfig} {listings : List (UInt32 × Beacon)}
    {s : Listener} (h : c.Exact listings s) (more : List (UInt32 × Beacon)) :
    c.Exact (listings ++ more) (more.foldl c.hearTopic s) := by
  induction more generalizing listings s with
  | nil => rwa [List.append_nil]
  | cons listing rest ih =>
    have := ih (h.step listing)
    rwa [List.append_assoc] at this

/-! ### One node -/

/-- What the callback appends. -/
theorem peersForTopic_foldl (s : PeerState) (calls : List (UInt32 × PeerInfo)) (topic : UInt32) :
    (calls.foldl onPeerDiscovered s).peersForTopic topic = s.peersForTopic topic ++
      (calls.filter (·.1 = topic)).map fun call => ⟨call.2.ip, call.2.port⟩ := by
  induction calls generalizing s with
  | nil => simp only [List.foldl_nil, List.filter_nil, List.map_nil, List.append_nil]
  | cons call rest ih =>
    have hpeers : (onPeerDiscovered s call).peers =
        s.peers.insert call.1 (s.peers.getD call.1 [] ++ [⟨call.2.ip, call.2.port⟩]) := by
      unfold onPeerDiscovered
      dsimp only
      split <;> rfl
    rw [List.foldl_cons, ih, PeerState.peersForTopic, hpeers, Std.ExtTreeMap.getD_insert]
    by_cases htopic : call.1 = topic
    · rw [if_pos (Std.compare_eq_iff_eq.mpr htopic),
        List.filter_cons_of_pos (by simpa using htopic), htopic, List.map_cons, List.append_assoc]
      rfl
    · rw [if_neg (by rwa [Std.compare_eq_iff_eq]),
        List.filter_cons_of_neg (by simpa using htopic)]
      rfl

theorem peersForTopic_nil (topic : UInt32) : PeerState.peersForTopic {} topic = [] := by
  simp only [PeerState.peersForTopic, Std.ExtTreeMap.getD_empty]

section
variable {c : ListenerConfig} {beacons : List Beacon} {s : Listener} {topic : UInt32}

theorem peers_nodup (h : c.Exact (ListenerConfig.listings beacons) s) :
    ((s.calls.foldl onPeerDiscovered {}).peersForTopic topic).Nodup := by
  have hkeys : (s.calls.map ListenerConfig.callKey).Nodup := h.keys ▸ firsts_nodup ..
  have hmap : ((s.calls.filter (·.1 = topic)).map fun call =>
      PeerEntry.mk call.2.ip call.2.port).map (fun peer => (topic, peer)) =
        (s.calls.filter (·.1 = topic)).map ListenerConfig.callKey := by
    rw [List.map_map]
    refine List.map_congr_left fun call hcall => ?_
    rw [← of_decide_eq_true (List.mem_filter.mp hcall).2]
    rfl
  rw [peersForTopic_foldl, peersForTopic_nil, List.nil_append]
  refine List.Nodup.of_map (fun peer => (topic, peer)) ?_
  rw [hmap]
  exact (List.filter_sublist.map _).nodup hkeys

/-- A node publishes to whom it has heard. -/
theorem mem_peers (h : c.Exact (ListenerConfig.listings beacons) s) {peer : PeerEntry} :
    peer ∈ (s.calls.foldl onPeerDiscovered {}).peersForTopic topic ↔ topic ∈ c.localTopics ∧
      ∃ b ∈ beacons, topic ∈ b.topicIds ∧ peer = ⟨b.nodeIp, b.nodePort⟩ := by
  have hcalls : peer ∈ ((s.calls.filter (·.1 = topic)).map fun call =>
      PeerEntry.mk call.2.ip call.2.port) ↔ (topic, peer) ∈ s.calls.map ListenerConfig.callKey := by
    simp only [List.mem_map, List.mem_filter, decide_eq_true_eq, ListenerConfig.callKey,
      Prod.mk.injEq, and_assoc]
  rw [peersForTopic_foldl, peersForTopic_nil, List.nil_append, hcalls, ListenerConfig.mem_calls h]
  simp only [ListenerConfig.mem_listings, and_assoc]

/-- A call tells what some beacon says. -/
theorem call_beacon (h : c.Exact (ListenerConfig.listings beacons) s) {call : UInt32 × PeerInfo}
    (hcall : call ∈ s.calls) :
    call.1 ∈ c.localTopics ∧ ∃ b ∈ beacons, call.1 ∈ b.topicIds ∧ call.2 = c.peerInfo b := by
  rw [h.calls] at hcall
  obtain ⟨listing, hlisting, rfl⟩ := List.mem_map.mp hcall
  have hmem := List.mem_of_find?_eq_some ((mem_firsts _).mp hlisting)
  obtain ⟨hlist, hlocal⟩ := List.mem_filter.mp hmem
  obtain ⟨hb, htopic⟩ := ListenerConfig.mem_listings.mp hlist
  exact ⟨of_decide_eq_true hlocal, listing.2, hb, htopic, rfl⟩

/-- A node offers local IPC to whom it has heard on its host, if an address says one thing only. -/
theorem mem_localIpc (h : c.Exact (ListenerConfig.listings beacons) s)
    (hsame : ∀ b ∈ beacons, ∀ b' ∈ beacons, b.nodeIp = b'.nodeIp → b.nodePort = b'.nodePort →
      b = b') {pid : UInt32} :
    pid ∈ (s.calls.foldl onPeerDiscovered {}).localIpcPeers topic ↔ topic ∈ c.localTopics ∧
      ∃ b ∈ beacons, topic ∈ b.topicIds ∧ b.shmCapable = true ∧ b.nodeIp = c.selfIp ∧
        b.nodePid = pid := by
  rw [ListenerConfig.mem_localIpcPeers]
  have hstart : pid ∉ PeerState.localIpcPeers {} topic := by
    simp [PeerState.localIpcPeers]
  rw [or_iff_right hstart]
  constructor
  · rintro ⟨call, hcall, rfl, hshm, rfl⟩
    obtain ⟨hlocal, b, hb, htopic, hinfo⟩ := call_beacon h hcall
    rw [hinfo] at hshm ⊢
    obtain ⟨hcap, hhost⟩ := Bool.and_eq_true_iff.mp hshm
    exact ⟨hlocal, b, hb, htopic, hcap, beq_iff_eq.mp hhost, rfl⟩
  · rintro ⟨hlocal, b, hb, htopic, hcap, hhost, rfl⟩
    have hkey : (topic, PeerEntry.mk b.nodeIp b.nodePort) ∈ s.calls.map ListenerConfig.callKey :=
      (ListenerConfig.mem_calls h).mpr
        ⟨hlocal, b, ListenerConfig.mem_listings.mpr ⟨hb, htopic⟩, rfl⟩
    obtain ⟨call, hcall, hcallKey⟩ := List.mem_map.mp hkey
    obtain ⟨rfl, haddr⟩ := Prod.mk.inj hcallKey
    obtain ⟨-, b', hb', -, hinfo⟩ := call_beacon h hcall
    rw [hinfo] at haddr
    obtain ⟨hip, hport⟩ := PeerEntry.mk.inj haddr
    obtain rfl := hsame b' hb' b hb hip hport
    refine ⟨call, hcall, rfl, ?_, by rw [hinfo]; rfl⟩
    rw [hinfo]
    exact Bool.and_eq_true_iff.mpr ⟨hcap, beq_iff_eq.mpr hhost⟩

end

/-! ### All nodes -/

/-- What is read of a beacon that a node sends is about one of its groups. -/
theorem MulticastConfig.heard_sent {c : MulticastConfig} {sender listener : Build}
    {datagram : Bytes} (h : datagram ∈ c.sendBeaconOnce sender) {b : Beacon}
    (hb : heardBy listener datagram = some b) :
    ∃ g ∈ c.portGroups, datagram = c.beaconBytes g.port (announced sender g) ∧
      b.nodeIp = c.selfIp ∧ b.nodePort = g.port ∧
      (b.shmCapable = true → b.nodePid = c.selfPid ∧ c.shmCapable = true) := by
  obtain ⟨g, hg, hcount, -, rfl⟩ := c.sent_group h
  refine ⟨g, hg, rfl, ?_⟩
  rw [MulticastConfig.heardBy_beaconBytes _ _ hcount] at hb
  split at hb
  · cases hb
  unfold readCut at hb
  split at hb
  · cases hb
  split at hb
  · cases hb
    exact ⟨rfl, rfl, fun hshm => by cases hshm⟩
  · cases hb
    exact ⟨rfl, rfl, fun hshm => ⟨rfl, hshm⟩⟩

theorem MulticastConfig.mem_localTopics (c : MulticastConfig) {topic : UInt32} :
    topic ∈ c.listener.localTopics ↔ ∃ g ∈ c.portGroups, topic ∈ g.topics := by
  simp only [listener, ListenerConfig.localTopics, List.mem_flatMap, List.mem_map]
  constructor
  · rintro ⟨_, ⟨g, hg, rfl⟩, htopic⟩
    exact ⟨g, hg, htopic⟩
  · rintro ⟨g, hg, htopic⟩
    exact ⟨_, ⟨g, hg, rfl⟩, htopic⟩

namespace Lan
variable {ι : Type} (N : Lan ι)

theorem dest_port {i : ι} (hlow : 0 ≤ (N.station i).networkId)
    (hhigh : (N.station i).networkId < 65536) :
    (N.station i).dest.2 = Py.deriveMulticastPort (N.station i).networkId := by
  unfold Station.dest
  split
  · dsimp only
    rw [deriveMulticastPort_toNat, UInt16.toNat_ofNat']
    congr 1
    omega
  · rfl

theorem dest_group {i : ι} (hlow : 0 ≤ (N.station i).networkId)
    (hhigh : (N.station i).networkId < 65536) :
    (N.station i).dest.1 = Py.deriveMulticastGroup (N.station i).networkId := by
  unfold Station.dest
  split
  · dsimp only
    rw [deriveMulticastGroup_eq, UInt16.toNat_ofNat']
    congr 1
    omega
  · rfl

/-- Stations of one network id beacon to where the others listen, whichever the builds. -/
theorem dest_same {i j : ι} (hlow : 0 ≤ (N.station i).networkId)
    (hhigh : (N.station i).networkId < 65536)
    (hid : (N.station j).networkId = (N.station i).networkId) :
    (N.station j).dest = (N.station i).dest := by
  have hlow' : 0 ≤ (N.station j).networkId := by omega
  have hhigh' : (N.station j).networkId < 65536 := by omega
  rw [Prod.ext_iff, N.dest_group hlow hhigh, N.dest_port hlow hhigh, N.dest_group hlow' hhigh',
    N.dest_port hlow' hhigh', hid]
  exact ⟨rfl, rfl⟩

/-- Up to the last id with a port of its own, ports tell network ids apart. -/
theorem dest_port_iff {i j : ι}
    (hi : 0 ≤ (N.station i).networkId ∧ (N.station i).networkId ≤ kMaxNetworkId)
    (hj : 0 ≤ (N.station j).networkId ∧ (N.station j).networkId ≤ kMaxNetworkId) :
    (N.station j).dest.2 = (N.station i).dest.2 ↔
      (N.station j).networkId = (N.station i).networkId := by
  have hmax : kMaxNetworkId < 65536 := by decide
  rw [N.dest_port hi.1 (by omega), N.dest_port hj.1 (by omega), derivePort_inj hj hi]

/-- An address is one group's of one node. -/
theorem address_unique {j j' : ι} {g g' : PortGroup} (hg : g ∈ (N.station j).config.portGroups)
    (hg' : g' ∈ (N.station j').config.portGroups)
    (hip : (N.station j).config.selfIp = (N.station j').config.selfIp) (hport : g.port = g'.port) :
    j = j' ∧ g = g' := by
  obtain rfl := N.address j j' hip g hg g' hg' hport
  exact ⟨rfl, (N.station j).config.group_unique hg' hg hport⟩

/-- What is on the air are beacons of the nodes. -/
def OnAir (a : Air ι) : Prop :=
  ∀ j, ∀ datagram ∈ a.sent j,
    datagram ∈ (N.station j).config.sendBeaconOnce (N.station j).build

variable {N} in
theorem own_iff {i j : ι} {g : PortGroup} (hg : g ∈ (N.station j).config.portGroups) {b : Beacon}
    (hip : b.nodeIp = (N.station j).config.selfIp) (hport : b.nodePort = g.port) :
    (N.station i).config.listener.IsOwn b ↔ j = i := by
  simp only [ListenerConfig.IsOwn, MulticastConfig.listener, ListenerConfig.selfPorts, hip, hport,
    List.map_map, List.mem_map, Function.comp_apply]
  constructor
  · rintro ⟨hip, g', hg', hport⟩
    exact N.address j i hip g hg g' hg' hport.symm
  · rintro rfl
    exact ⟨rfl, g, hg, rfl⟩

variable [DecidableEq ι]

/-- The beacon of another node that a node reads at an event. -/
def heardAt (i : ι) : LanEvent ι → Option Beacon
  | .announce _ => none
  | .arrive i' datagram =>
    if i' = i then otherBeacon (N.station i).build (N.station i).config.listener datagram else none

theorem listener_exact (events : List (LanEvent ι)) (i : ι) :
    (N.station i).config.listener.Exact (ListenerConfig.listings (events.filterMap (N.heardAt i)))
      ((events.foldl N.step {}).listener i) := by
  induction events using List.reverseRecOn with
  | nil => exact ListenerConfig.Exact.nil
  | append_singleton events e ih =>
    have hstep : (N.step (events.foldl N.step {}) e).listener i =
        (ListenerConfig.listings (N.heardAt i e).toList).foldl
          (N.station i).config.listener.hearTopic ((events.foldl N.step {}).listener i) := by
      cases e with
      | announce j => rfl
      | arrive i' datagram =>
        by_cases hi : i' = i
        · obtain rfl := hi
          rw [heardAt, if_pos rfl, ← receiveBy_eq]
          exact Function.update_self ..
        · rw [heardAt, if_neg hi]
          exact Function.update_of_ne (Ne.symm hi) ..
    have hlist : ListenerConfig.listings ((events ++ [e]).filterMap (N.heardAt i)) =
        ListenerConfig.listings (events.filterMap (N.heardAt i)) ++
          ListenerConfig.listings (N.heardAt i e).toList := by
      rw [List.filterMap_append, ListenerConfig.listings, List.flatMap_append]
      rw [List.filterMap_cons]
      cases N.heardAt i e <;> rfl
    rw [List.foldl_append, hlist]
    show (N.station i).config.listener.Exact _ ((N.step (events.foldl N.step {}) e).listener i)
    rw [hstep]
    exact ih.run _

theorem onAir_step {a : Air ι} {e : LanEvent ι} (h : N.OnAir a) : N.OnAir (N.step a e) := by
  intro j datagram hmem
  cases e with
  | arrive i d => exact h j datagram hmem
  | announce i =>
    have hsent : (N.step a (.announce i)).sent = Function.update a.sent i
        (a.sent i ++ (N.station i).config.sendBeaconOnce (N.station i).build) := rfl
    rw [hsent] at hmem
    by_cases hj : j = i
    · obtain rfl := hj
      rw [Function.update_self, List.mem_append] at hmem
      exact hmem.elim (h j datagram) id
    · rw [Function.update_of_ne hj] at hmem
      exact h j datagram hmem

variable {N} {events : List (LanEvent ι)}

/-- Any beacon that arrives is one of a node with the port. -/
theorem arrived_beacon (hrun : Throughout N.step N.Allowed {} events) {i : ι} {datagram : Bytes}
    {b : Beacon} (harrive : .arrive i datagram ∈ events)
    (hb : heardBy (N.station i).build datagram = some b) :
    ∃ j, (N.station j).dest.2 = (N.station i).dest.2 ∧
      datagram ∈ (N.station j).config.sendBeaconOnce (N.station j).build := by
  have hfrom := Throughout.of_invariant (P := fun _ e => ∀ i datagram, e = .arrive i datagram →
      heardBy (N.station i).build datagram = none ∨
        ∃ j, (N.station j).dest.2 = (N.station i).dest.2 ∧
          datagram ∈ (N.station j).config.sendBeaconOnce (N.station j).build)
    N.OnAir (fun a e hair hallowed i datagram he => by
      obtain rfl := he
      rcases hallowed with ⟨j, hport, hmem⟩ | hnone
      · exact Or.inr ⟨j, hport, hair j datagram hmem⟩
      · exact Or.inl hnone)
    (fun a e hair _ => N.onAir_step hair) (fun j datagram h => absurd h List.not_mem_nil) hrun
  rcases Throughout.forall_mem hfrom _ harrive i datagram rfl with hnone | hgroup
  · rw [hnone] at hb
    cases hb
  · exact hgroup

/-- What a node has read are the beacons that have reached it. -/
theorem mem_heard (hrun : Throughout N.step N.Allowed {} events) {i : ι} {b : Beacon} :
    b ∈ events.filterMap (N.heardAt i) ↔ ∃ j g, N.Reached events j g b i := by
  rw [List.mem_filterMap]
  constructor
  · rintro ⟨e, he, hb⟩
    cases e with
    | announce j => cases hb
    | arrive i' datagram =>
      rw [heardAt] at hb
      split at hb
      · next hi =>
        obtain rfl := hi
        obtain ⟨hread, hother⟩ := Option.filter_eq_some_iff.mp hb
        obtain ⟨j, hport, hsent⟩ := arrived_beacon hrun he hread
        obtain ⟨g, hg, -, hip, hgroup, -⟩ := MulticastConfig.heard_sent hsent hread
        refine ⟨j, g, fun heq => ?_, hport, hg, datagram, hsent, he, hread, hgroup⟩
        exact of_decide_eq_true hother ((own_iff hg hip hgroup).mpr heq)
      · cases hb
  · rintro ⟨j, g, hne, -, hg, datagram, hsent, harrive, hread, hgroup⟩
    obtain ⟨-, -, -, hip, -⟩ := MulticastConfig.heard_sent hsent hread
    refine ⟨_, harrive, ?_⟩
    rw [heardAt, if_pos rfl, otherBeacon, hread, Option.filter_eq_some_iff]
    exact ⟨rfl, decide_eq_true fun hown => hne ((own_iff hg hip hgroup).mp hown)⟩

omit [DecidableEq ι] in
/-- What a beacon that has reached a node says of its sender. -/
theorem Reached.says {i j : ι} {g : PortGroup} {b : Beacon} (h : N.Reached events j g b i) :
    b.nodeIp = (N.station j).config.selfIp ∧ b.nodePort = g.port ∧
      (b.shmCapable = true → b.nodePid = (N.station j).config.selfPid ∧
        (N.station j).config.shmCapable = true) := by
  obtain ⟨-, -, -, datagram, hsent, -, hread, hgroup⟩ := h
  obtain ⟨-, -, -, hip, -, hshm⟩ := MulticastConfig.heard_sent hsent hread
  exact ⟨hip, hgroup, hshm⟩

omit [DecidableEq ι] in
/-- One group has one beacon. -/
theorem Reached.unique {i j j' : ι} {g g' : PortGroup} {b b' : Beacon}
    (h : N.Reached events j g b i) (h' : N.Reached events j' g' b' i)
    (hip : b.nodeIp = b'.nodeIp) (hport : b.nodePort = b'.nodePort) : b = b' := by
  obtain ⟨hip₁, hport₁, -⟩ := h.says
  obtain ⟨hip₂, hport₂, -⟩ := h'.says
  obtain ⟨-, -, hg, datagram, hsent, -, hread, -⟩ := h
  obtain ⟨-, -, hg', datagram', hsent', -, hread', -⟩ := h'
  obtain ⟨rfl, rfl⟩ := N.address_unique hg hg' (by rw [← hip₁, ← hip₂, hip])
    (by rw [← hport₁, ← hport₂, hport])
  obtain ⟨g₁, hg₁, rfl, -, hgroup₁, -⟩ := MulticastConfig.heard_sent hsent hread
  obtain ⟨g₂, hg₂, rfl, -, hgroup₂, -⟩ := MulticastConfig.heard_sent hsent' hread'
  obtain rfl := (N.station j).config.group_unique hg₂ hg₁ (by rw [← hgroup₁, ← hgroup₂, hport])
  exact Option.some.inj (hread.symm.trans hread')

/-- **Peers by multicast.** A node publishes each of its topics to those nodes with its port, once
each, that listed it in a beacon that has arrived, and offers local IPC to those of its own host
whose beacon said that they can; it has heard of the topics of all of them. Nodes of one network id
have one group and port, and up to 58135 no other id has the port. -/
theorem peers_found (hrun : Throughout N.step N.Allowed {} events) (i : ι) (topic : UInt32) :
    let discovered := (events.foldl N.step {}).discovered i
    let declares := ∃ g ∈ (N.station i).config.portGroups, topic ∈ g.topics
    (discovered.peersForTopic topic).Nodup ∧
    (∀ peer, peer ∈ discovered.peersForTopic topic ↔ declares ∧ ∃ j g b,
      N.Reached events j g b i ∧ topic ∈ b.topicIds ∧
        peer = ⟨(N.station j).config.selfIp, g.port⟩) ∧
    (∀ pid, pid ∈ discovered.localIpcPeers topic ↔ declares ∧ ∃ j g b,
      N.Reached events j g b i ∧ topic ∈ b.topicIds ∧ b.shmCapable = true ∧
        (N.station j).config.selfIp = (N.station i).config.selfIp ∧
        (N.station j).config.selfPid = pid) ∧
    (topic ∈ ((events.foldl N.step {}).listener i).networkTopics ↔
      ∃ j g b, N.Reached events j g b i ∧ topic ∈ b.topicIds) ∧
    ∀ j, 0 ≤ (N.station i).networkId →
      ((N.station i).networkId < 65536 → (N.station j).networkId = (N.station i).networkId →
        (N.station j).dest = (N.station i).dest) ∧
      ((N.station i).networkId ≤ kMaxNetworkId → 0 ≤ (N.station j).networkId →
        (N.station j).networkId ≤ kMaxNetworkId →
        (N.station j).dest.2 = (N.station i).dest.2 →
          (N.station j).networkId = (N.station i).networkId) := by
  have hexact := N.listener_exact events i
  have hread : ∀ P : Beacon → Prop, (∃ b ∈ events.filterMap (N.heardAt i), P b) ↔
      ∃ j g b, N.Reached events j g b i ∧ P b := by
    intro P
    simp only [mem_heard hrun]
    constructor
    · rintro ⟨b, ⟨j, g, hreached⟩, hP⟩
      exact ⟨j, g, b, hreached, hP⟩
    · rintro ⟨j, g, b, hreached, hP⟩
      exact ⟨b, ⟨j, g, hreached⟩, hP⟩
  dsimp only
  rw [← MulticastConfig.mem_localTopics]
  refine ⟨peers_nodup hexact, fun peer => ?_, fun pid => ?_, ?_, fun j hlow => ⟨?_, ?_⟩⟩
  · refine (mem_peers hexact).trans (and_congr_right fun _ => (hread _).trans ?_)
    refine exists_congr fun j => exists_congr fun g => exists_congr fun b =>
      and_congr_right fun hreached => ?_
    obtain ⟨hip, hport, -⟩ := hreached.says
    rw [hip, hport]
  · refine (mem_localIpc hexact (fun b hb b' hb' hip hport => ?_)).trans
      (and_congr_right fun _ => (hread _).trans ?_)
    · obtain ⟨j, g, hreached⟩ := (mem_heard hrun).mp hb
      obtain ⟨j', g', hreached'⟩ := (mem_heard hrun).mp hb'
      exact hreached.unique hreached' hip hport
    · refine exists_congr fun j => exists_congr fun g => exists_congr fun b =>
        and_congr_right fun hreached => and_congr_right fun _ => and_congr_right fun hshm => ?_
      obtain ⟨hip, -, htold⟩ := hreached.says
      rw [hip, (htold hshm).1]
      rfl
  · refine Iff.trans ?_ (hread fun b => topic ∈ b.topicIds)
    rw [hexact.network]
    constructor
    · rintro ⟨⟨_, b⟩, hlisting, rfl⟩
      exact ⟨b, ListenerConfig.mem_listings.mp hlisting⟩
    · rintro ⟨b, hb⟩
      exact ⟨(topic, b), ListenerConfig.mem_listings.mpr hb, rfl⟩
  · exact fun hhigh hid => N.dest_same hlow hhigh hid
  · exact fun hhigh hlow' hhigh' hport => (N.dest_port_iff ⟨hlow, hhigh⟩ ⟨hlow', hhigh'⟩).mp hport

/-- A node of each build, on one host; their network ids have one port. -/
def samePair : Lan Bool where
  station i :=
    if i then ⟨.python, 58136, ⟨0xC0A80114, 42, true, [⟨45002, [7, 8], by decide⟩], by decide⟩⟩
    else ⟨.cpp, 1, ⟨0xC0A80114, 41, true, [⟨45001, [7], by decide⟩], by decide⟩⟩
  address := by
    intro i j _
    cases i <;> cases j <;> decide

/-- The first beacon of the C++ node comes back to it, and twice to the other one; so does
something else. -/
def sameEvents : List (LanEvent Bool) :=
  let beacon (i : Bool) (g : PortGroup) := (samePair.station i).config.beaconBytes g.port g.topics
  let first := beacon false ⟨45001, [7], by decide⟩
  let second := beacon true ⟨45002, [7, 8], by decide⟩
  [.announce false, .arrive false first, .arrive true first, .arrive true [0, 1, 2], .announce true,
    .arrive true first, .arrive false second]

example : ((sameEvents.foldl samePair.step {}).discovered true).peersForTopic 7 =
    [⟨0xC0A80114, 45001⟩] := by decide +kernel

theorem peers_found_pair :
    ⟨0xC0A80114, 45002⟩ ∈ ((sameEvents.foldl samePair.step {}).discovered false).peersForTopic 7 :=
  ((peers_found (by decide +kernel) false 7).2.1 _).mpr
    ⟨by decide, true, ⟨45002, [7, 8], by decide⟩, ⟨0xC0A80114, 45002, [7, 8], 42, true⟩,
      ⟨by decide, by decide +kernel, List.mem_singleton.mpr rfl,
        (samePair.station true).config.beaconBytes 45002 [7, 8], by decide +kernel,
        by decide +kernel, by decide +kernel, rfl⟩, by decide, rfl⟩

end Lan
end Relink.Discovery
