import Mathlib.Data.List.Nodup
import Mathlib.Data.List.Perm.Subperm
import Relink.Rlcore.Demux
import Relink.Rlcore.Reregister

/-! Which topics a round of beacons announces.

A node sends a beacon for every socket it has topics on, and a listener decodes what its
buffer takes of it. The C++ sender leaves out a group whose beacon is too long for its own
buffer; the Python sender sends it, and the C++ listener cuts it. -/
namespace Relink.Discovery
open LittleEndian Wire
open Rlcore (Build nameMagics listenerBranch kListenerBufBytes)

/-- `PortGroup`: a socket's port and topics; the topics come out of a set. -/
structure PortGroup where
  port : UInt16
  topics : List UInt32
  nodup : topics.Nodup

/-- `MulticastDiscoveryConfig`; no two sockets have one port. -/
structure MulticastConfig where
  selfIp : UInt32
  selfPid : UInt32
  shmCapable : Bool
  portGroups : List PortGroup
  ports : (portGroups.map PortGroup.port).Nodup

/-- What a listener reads off a beacon. -/
structure Beacon where
  nodeIp : UInt32
  nodePort : UInt16
  topicIds : List UInt32
  nodePid : UInt32
  shmCapable : Bool
deriving DecidableEq, Repr

/-- `beacon_topic_at`, for every index below the count. -/
def readBeacon (b : DecodedBeacon) : Beacon :=
  ⟨b.nodeIp, b.nodePort, topicRecord.loads b.topicCount.toNat b.topicIdsRaw, b.nodePid,
    b.shmCapable⟩

/-! ### The Python codec -/

/-- `struct.pack` refuses a count that has more than 16 bits. -/
def Py.encodeBeaconPacket (nodeIp : UInt32) (nodePort : UInt16) (topicIds : List UInt32)
    (nodePid : UInt32) (shmCapable : Bool) : Option Bytes :=
  if 0xFFFF < topicIds.length then none
  else
    some (u32 nodeIp ++ u16 nodePort ++ u16 (UInt16.ofNat topicIds.length) ++
      topicRecord.array topicIds ++ u32 nodePid ++
      u32 (if shmCapable then kCapFlagShmLocalIpc else 0))

def Py.decodeBeaconPacket (buf : Bytes) : Option Beacon :=
  if buf.length < kBeaconHeaderBytes then none
  else
    let topicCount := readU16 6 buf
    let expected := kBeaconHeaderBytes + topicCount.toNat * 4
    if buf.length < expected then none
    else
      let topics := topicRecord.loads topicCount.toNat (buf.drop kBeaconHeaderBytes)
      if expected + 8 ≤ buf.length then
        some ⟨readU32 0 buf, readU16 4 buf, topics, readU32 expected buf,
          (readU32 (expected + 4) buf &&& kCapFlagShmLocalIpc) != 0⟩
      else some ⟨readU32 0 buf, readU16 4 buf, topics, 0, false⟩

/-- The two decoders read the same. -/
theorem Py.decodeBeaconPacket_eq (buf : Bytes) :
    Py.decodeBeaconPacket buf = (Wire.decodeBeaconPacket buf).toOption.map readBeacon := by
  unfold Py.decodeBeaconPacket Wire.decodeBeaconPacket
  split
  · rfl
  dsimp only
  split
  · rfl
  · split
    · next h => simp only [h, decide_true]; rfl
    · next h => simp only [h, decide_false]; rfl

/-! ### A round -/

/-- The sender's buffer. -/
def kBeaconBufBytes : Nat := 512

def MulticastConfig.cppRound (c : MulticastConfig) : List Bytes :=
  c.portGroups.filterMap fun g =>
    (encodeBeaconPacket c.selfIp g.port g.topics (UInt16.ofNat g.topics.length) kBeaconBufBytes
      c.selfPid c.shmCapable).toOption

/-- An exception of `struct.pack` leaves the loop, and what it had yet to send unsent; one of
`sendto` is ignored. -/
def MulticastConfig.pyRound (c : MulticastConfig) : List PortGroup → List Bytes
  | [] => []
  | g :: rest =>
    match Py.encodeBeaconPacket c.selfIp g.port g.topics c.selfPid c.shmCapable with
    | none => []
    | some payload =>
      if payload.length ≤ kMaxDatagramBytes then payload :: c.pyRound rest else c.pyRound rest

/-- The datagrams that `send_beacon_once` sends. -/
def MulticastConfig.sendBeaconOnce (c : MulticastConfig) : Build → List Bytes
  | .cpp => c.cppRound
  | .python => c.pyRound c.portGroups

/-- What `listener_loop` decodes of a datagram. -/
def heardBy : Build → Bytes → Option Beacon
  | .cpp, datagram =>
    match listenerBranch datagram with
    | .beacon decoded => decoded.toOption.map readBeacon
    | _ => none
  | .python, datagram =>
    let data := datagram.take (max 512 kTopicDirMaxPacket)
    match topicDirPacketKind data with
    | .unknown => Py.decodeBeaconPacket data
    | _ => none

/-- Every listener hears, for every declared topic, a beacon that lists it for its group. -/
def MulticastConfig.Discoverable (c : MulticastConfig) (sender : Build) : Prop :=
  ∀ listener : Build, ∀ g ∈ c.portGroups, ∀ topic ∈ g.topics,
    ∃ datagram ∈ c.sendBeaconOnce sender, ∃ b, heardBy listener datagram = some b ∧
      topic ∈ b.topicIds ∧ b.nodePort = g.port ∧ b.nodeIp = c.selfIp ∧ b.nodePid = c.selfPid ∧
        b.shmCapable = c.shmCapable

/-- How many topics fit a group's beacon. The C++ sender counts the extension, the C++ listener
misses it only where it says something. -/
def MulticastConfig.room (c : MulticastConfig) : Build → Nat
  | .cpp => 124
  | .python => if c.selfPid = 0 ∧ c.shmCapable = false then 126 else 124

namespace MulticastConfig
variable (c : MulticastConfig)

/-! ### A beacon, cut -/

def extension : Bytes := u32 c.selfPid ++ u32 (if c.shmCapable then kCapFlagShmLocalIpc else 0)

theorem extension_length : c.extension.length = 8 := by
  simp only [extension, List.length_append, u32_length]

/-- A beacon that lists the given topics. -/
def beaconBytes (port : UInt16) (topics : List UInt32) : Bytes :=
  u32 c.selfIp ++ (u16 port ++ (u16 (UInt16.ofNat topics.length) ++
    (topicRecord.array topics ++ c.extension)))

/-- What is read of a beacon of which `limit` bytes arrive. -/
def readCut (limit : Nat) (port : UInt16) (topics : List UInt32) : Option Beacon :=
  if limit < 8 + 4 * topics.length then none
  else if limit < 16 + 4 * topics.length then some ⟨c.selfIp, port, topics, 0, false⟩
  else some ⟨c.selfIp, port, topics, c.selfPid, c.shmCapable⟩

variable {port : UInt16} {topics : List UInt32}

@[simp] theorem beaconBytes_length :
    (c.beaconBytes port topics).length = 16 + 4 * topics.length := by
  simp only [beaconBytes, List.length_append, u32_length, u16_length, Record.array_length,
    extension_length]
  show 4 + (2 + (2 + (topics.length * 4 + 8))) = _
  omega

theorem capFlag_shm (shm : Bool) :
    ((if shm then kCapFlagShmLocalIpc else 0) &&& kCapFlagShmLocalIpc != 0) = shm := by
  cases shm <;> decide

/-- The header is read off whatever follows it. -/
theorem decode_headed (port : UInt16) (rest : Bytes) (count : UInt16) :
    let buf := u32 c.selfIp ++ (u16 port ++ (u16 count ++ rest))
    readU32 0 buf = c.selfIp ∧ readU16 4 buf = port ∧ readU16 6 buf = count ∧
      buf.drop kBeaconHeaderBytes = rest ∧ buf.length = 8 + rest.length ∧
      ∀ off, 8 ≤ off → readU32 off buf = readU32 (off - 8) rest := by
  refine ⟨readU32_here .., ?_, ?_, ?_, ?_, fun off hoff => ?_⟩
  · rw [readU16_skip _ _ (u32_length _) (by decide)]
    exact readU16_here ..
  · rw [readU16_skip _ _ (u32_length _) (by decide), readU16_skip _ _ (u16_length _) (by decide)]
    exact readU16_here ..
  · rfl
  · simp only [List.length_append, u32_length, u16_length]
    rw [← Nat.add_assoc, ← Nat.add_assoc]
  · rw [readU32_skip _ _ (u32_length _) (by omega), readU32_skip _ _ (u16_length _) (by omega),
      readU32_skip _ _ (u16_length _) (by omega)]
    congr 1

theorem beaconBytes_take {limit : Nat} (hlimit : 8 ≤ limit) :
    (c.beaconBytes port topics).take limit =
      u32 c.selfIp ++ (u16 port ++ (u16 (UInt16.ofNat topics.length) ++
        (topicRecord.array topics ++ c.extension).take (limit - 8))) := by
  have hhead : (u32 c.selfIp ++ (u16 port ++ u16 (UInt16.ofNat topics.length))).length = 8 := by
    simp only [List.length_append, u32_length, u16_length]
  rw [beaconBytes, ← List.append_assoc (u16 port), ← List.append_assoc (u32 c.selfIp),
    List.take_append, hhead, List.take_of_length_le (by omega), List.append_assoc,
    List.append_assoc]

/-- A listener reads the topics if they all arrive, and the extension if it does. -/
theorem decode_cut {limit : Nat} (hlimit : 8 ≤ limit) (hcount : topics.length ≤ 0xFFFF) :
    (decodeBeaconPacket ((c.beaconBytes port topics).take limit)).toOption.map readBeacon =
      c.readCut limit port topics := by
  have hsize : (UInt16.ofNat topics.length).toNat = topics.length := by
    rw [UInt16.toNat_ofNat', Nat.mod_eq_of_lt (by omega)]
  have harray : (topicRecord.array topics).length = topics.length * 4 := Record.array_length ..
  rw [c.beaconBytes_take hlimit]
  generalize hrest : (topicRecord.array topics ++ c.extension).take (limit - 8) = rest
  have hlen : rest.length = min (limit - 8) (topics.length * 4 + 8) := by
    rw [← hrest, List.length_take, List.length_append, harray, c.extension_length]
  obtain ⟨hip, hport, hcnt, hdrop, hbuf, hread⟩ :=
    c.decode_headed port rest (UInt16.ofNat topics.length)
  simp only [decodeBeaconPacket, kBeaconHeaderBytes, hip, hport, hcnt, hbuf, hsize] at hdrop ⊢
  rw [if_neg (by omega), readCut]
  by_cases htopics : limit < 8 + 4 * topics.length
  · rw [if_pos (by omega), if_pos htopics]
    rfl
  have hloads : topicRecord.loads topics.length rest = topics := by
    rw [← hrest, List.take_append, List.take_of_length_le (by omega)]
    exact Record.loads_array ..
  rw [if_neg (by omega), if_neg htopics]
  by_cases hext : limit < 16 + 4 * topics.length
  · rw [if_pos hext]
    simp only [Except.toOption, Option.map_some, readBeacon, hdrop, hsize, hloads,
      show ¬ 8 + topics.length * 4 + 8 ≤ 8 + rest.length by omega, decide_false, Bool.false_and,
      Bool.false_eq_true, if_false]
  · have hall : rest = topicRecord.array topics ++ c.extension := by
      rw [← hrest, List.take_of_length_le]
      rw [List.length_append, harray, c.extension_length]
      omega
    have hpid : readU32 (topics.length * 4) rest = c.selfPid := by
      rw [hall, readU32_skip _ _ harray (le_refl _), Nat.sub_self]
      exact readU32_here ..
    have hflags : readU32 (topics.length * 4 + 4) rest =
        if c.shmCapable then kCapFlagShmLocalIpc else 0 := by
      rw [hall, readU32_skip _ _ harray (by omega), Nat.add_sub_cancel_left, extension,
        readU32_skip _ _ (u32_length _) (le_refl _), Nat.sub_self, ← List.append_nil (u32 _)]
      exact readU32_here ..
    rw [if_neg hext]
    simp only [Except.toOption, Option.map_some, readBeacon, hdrop, hsize, hloads,
      show 8 + topics.length * 4 + 8 ≤ 8 + rest.length by omega, decide_true, Bool.true_and,
      if_true, hread (8 + topics.length * 4) (by omega),
      hread (8 + topics.length * 4 + 4) (by omega),
      show 8 + topics.length * 4 - 8 = topics.length * 4 by omega,
      show 8 + topics.length * 4 + 4 - 8 = topics.length * 4 + 4 by omega, hpid, hflags,
      capFlag_shm]

/-! ### What a listener hears -/

/-- A listener's buffer. -/
def bufBytes : Build → Nat
  | .cpp => kListenerBufBytes
  | .python => max 512 kTopicDirMaxPacket

theorem heardBy_eq (listener : Build) (datagram : Bytes) (hlen : 4 ≤ datagram.length) :
    heardBy listener datagram =
      if datagram.take 4 ∈ nameMagics then none
      else (decodeBeaconPacket (datagram.take (bufBytes listener))).toOption.map readBeacon := by
  have hkind := packetKind_unknown_iff kTopicDirAnnounceMagic kTopicDirQueryMagic
    kTopicDirReplyMagic (datagram.take (bufBytes listener)) (by
      rw [List.length_take]
      exact le_min (by cases listener <;> decide) hlen)
  have hcut : (datagram.take (bufBytes listener)).take kTopicDirMagicLen = datagram.take 4 := by
    rw [List.take_take]
    cases listener <;> rfl
  rw [hcut, ← topicDirPacketKind] at hkind
  have hmagics : datagram.take 4 ∈ nameMagics ↔
      topicDirPacketKind (datagram.take (bufBytes listener)) ≠ .unknown := by
    rw [nameMagics, Ne, hkind, not_not]
  have hmatch : heardBy listener datagram =
      match topicDirPacketKind (datagram.take (bufBytes listener)) with
      | .unknown =>
        (decodeBeaconPacket (datagram.take (bufBytes listener))).toOption.map readBeacon
      | _ => none := by
    cases listener with
    | cpp =>
      simp only [heardBy, listenerBranch, bufBytes]
      cases topicDirPacketKind (datagram.take kListenerBufBytes) <;> rfl
    | python => simp only [heardBy, Py.decodeBeaconPacket_eq, bufBytes]
  rw [hmatch]
  by_cases hmem : datagram.take 4 ∈ nameMagics
  · rw [if_pos hmem]
    cases hk : topicDirPacketKind (datagram.take (bufBytes listener)) with
    | unknown => exact absurd hk (hmagics.mp hmem)
    | announce | query | reply => rfl
  · rw [if_neg hmem, not_not.mp (mt hmagics.mpr hmem)]

/-- The beacons of a node whose address spells a name magic are taken for name packets. -/
theorem heardBy_beaconBytes (listener : Build) (hcount : topics.length ≤ 0xFFFF) :
    heardBy listener (c.beaconBytes port topics) =
      if u32 c.selfIp ∈ nameMagics then none else c.readCut (bufBytes listener) port topics := by
  have hhead : (c.beaconBytes port topics).take 4 = u32 c.selfIp := List.take_left' (u32_length _)
  rw [heardBy_eq _ _ (by rw [beaconBytes_length]; omega), hhead,
    c.decode_cut (by cases listener <;> decide) hcount]

/-! ### What a sender sends -/

/-- The topics that a build puts into a group's beacon, if it sends one. -/
def announced : Build → PortGroup → List UInt32
  | .cpp, g => g.topics.take (UInt16.ofNat g.topics.length).toNat
  | .python, g => g.topics

theorem encodeBeaconPacket_group (g : PortGroup) :
    (encodeBeaconPacket c.selfIp g.port g.topics (UInt16.ofNat g.topics.length) kBeaconBufBytes
      c.selfPid c.shmCapable).toOption =
      if (announced .cpp g).length ≤ 124 then some (c.beaconBytes g.port (announced .cpp g))
      else none := by
  have hcount : (announced .cpp g).length = (UInt16.ofNat g.topics.length).toNat := by
    rw [announced, List.length_take, UInt16.toNat_ofNat']
    exact min_eq_left (Nat.mod_le ..)
  rw [hcount]
  unfold encodeBeaconPacket kMaxBeaconTopics kBeaconBufBytes kBeaconHeaderBytes
  by_cases hfits : (UInt16.ofNat g.topics.length).toNat ≤ 124
  · rw [if_neg (by omega), if_neg (by omega), if_pos hfits, beaconBytes, hcount,
      UInt16.ofNat_toNat]
    simp only [Except.toOption, List.append_assoc, announced, extension]
  · rw [if_neg hfits]
    split
    · rfl
    · rw [if_pos (by omega)]
      rfl

theorem Py.encodeBeaconPacket_group (g : PortGroup) :
    Discovery.Py.encodeBeaconPacket c.selfIp g.port g.topics c.selfPid c.shmCapable =
      if g.topics.length ≤ 0xFFFF then some (c.beaconBytes g.port g.topics) else none := by
  unfold Discovery.Py.encodeBeaconPacket
  by_cases hcount : g.topics.length ≤ 0xFFFF
  · rw [if_neg (by omega), if_pos hcount, beaconBytes, extension]
    simp only [List.append_assoc]
  · rw [if_pos (by omega), if_neg hcount]

theorem pyRound_mem (groups : List PortGroup) {datagram : Bytes} (h : datagram ∈ c.pyRound groups) :
    ∃ g ∈ groups, g.topics.length ≤ 0xFFFF ∧ datagram = c.beaconBytes g.port g.topics := by
  induction groups with
  | nil => cases h
  | cons g rest ih =>
    simp only [pyRound, Py.encodeBeaconPacket_group] at h
    by_cases hcount : g.topics.length ≤ 0xFFFF
    · rw [if_pos hcount] at h
      dsimp only at h
      have hor : datagram = c.beaconBytes g.port g.topics ∨ datagram ∈ c.pyRound rest := by
        split at h
        · exact List.mem_cons.mp h
        · exact Or.inr h
      rcases hor with heq | hrest
      · exact ⟨g, List.mem_cons_self, hcount, heq⟩
      · obtain ⟨g', hg', hg'c⟩ := ih hrest
        exact ⟨g', List.mem_cons_of_mem _ hg', hg'c⟩
    · rw [if_neg hcount] at h
      cases h

/-- A round in which every group is short enough sends them all. -/
theorem pyRound_all (groups : List PortGroup) (hroom : ∀ g ∈ groups, g.topics.length ≤ 126)
    {g : PortGroup} (hg : g ∈ groups) : c.beaconBytes g.port g.topics ∈ c.pyRound groups := by
  induction groups with
  | nil => cases hg
  | cons g' rest ih =>
    have hshort := hroom g' List.mem_cons_self
    have hsent : c.pyRound (g' :: rest) = c.beaconBytes g'.port g'.topics :: c.pyRound rest := by
      simp only [pyRound, Py.encodeBeaconPacket_group]
      rw [if_pos (by omega)]
      dsimp only
      rw [if_pos (by rw [beaconBytes_length, kMaxDatagramBytes]; omega)]
    rw [hsent]
    rcases List.mem_cons.mp hg with rfl | hrest
    · exact List.mem_cons_self
    · exact List.mem_cons_of_mem _ (ih (fun x hx => hroom x (List.mem_cons_of_mem _ hx)) hrest)

/-- Whatever is sent is the beacon of a group. -/
theorem sent_group {sender : Build} {datagram : Bytes} (h : datagram ∈ c.sendBeaconOnce sender) :
    ∃ g ∈ c.portGroups, (announced sender g).length ≤ 0xFFFF ∧
      (sender = .cpp → (announced sender g).length ≤ 124) ∧
      datagram = c.beaconBytes g.port (announced sender g) := by
  cases sender with
  | cpp =>
    obtain ⟨g, hg, henc⟩ := List.mem_filterMap.mp h
    rw [encodeBeaconPacket_group] at henc
    split at henc
    · next hfits =>
      cases henc
      exact ⟨g, hg, by omega, fun _ => hfits, rfl⟩
    · cases henc
  | python =>
    obtain ⟨g, hg, hcount, hd⟩ := c.pyRound_mem _ h
    exact ⟨g, hg, hcount, (fun heq => by cases heq), hd⟩

theorem group_sent {sender : Build} (hroom : ∀ g ∈ c.portGroups, g.topics.length ≤ c.room sender)
    {g : PortGroup} (hg : g ∈ c.portGroups) :
    c.beaconBytes g.port g.topics ∈ c.sendBeaconOnce sender := by
  cases sender with
  | cpp =>
    have hfits : g.topics.length ≤ 124 := hroom g hg
    have hall : announced .cpp g = g.topics := by
      rw [announced, UInt16.toNat_ofNat', Nat.mod_eq_of_lt (by omega), List.take_length]
    refine List.mem_filterMap.mpr ⟨g, hg, ?_⟩
    rw [encodeBeaconPacket_group, hall, if_pos hfits]
  | python =>
    have hle : c.room .python ≤ 126 := by
      rw [room]
      split <;> decide
    exact c.pyRound_all _ (fun x hx => (hroom x hx).trans hle) hg

/-- Two groups that share a port are one. -/
theorem group_unique {g g' : PortGroup} (hg : g ∈ c.portGroups) (hg' : g' ∈ c.portGroups)
    (h : g'.port = g.port) : g' = g :=
  List.inj_on_of_nodup_map c.ports hg' hg h

/-! ### Beacons with room, read as they were meant -/

theorem room_le (sender : Build) : c.room sender ≤ 126 := by
  cases sender with
  | cpp => exact (by decide : 124 ≤ 126)
  | python =>
    rw [room]
    split <;> decide

theorem readCut_some {limit : Nat} {b : Beacon} (h : c.readCut limit port topics = some b) :
    8 + 4 * topics.length ≤ limit ∧ b.nodePort = port ∧ b.topicIds = topics ∧
      (limit < 16 + 4 * topics.length → b.nodePid = 0 ∧ b.shmCapable = false) := by
  unfold readCut at h
  split at h
  · cases h
  split at h
  · cases h
    exact ⟨by omega, rfl, rfl, fun _ => ⟨rfl, rfl⟩⟩
  · cases h
    exact ⟨by omega, rfl, rfl, fun _ => by omega⟩

/-- A beacon within the room is read as it was meant. -/
theorem readCut_room {sender : Build} (listener : Build) (h : topics.length ≤ c.room sender) :
    c.readCut (bufBytes listener) port topics =
      some ⟨c.selfIp, port, topics, c.selfPid, c.shmCapable⟩ := by
  have hle := c.room_le sender
  have hbuf : 512 ≤ bufBytes listener := by cases listener <;> decide
  rw [readCut, if_neg (by omega)]
  split
  · next hcut =>
    have hnone : c.selfPid = 0 ∧ c.shmCapable = false := by
      by_contra hsome
      have hroom : c.room sender = 124 := by
        cases sender with
        | cpp => rfl
        | python => exact if_neg hsome
      omega
    rw [hnone.1, hnone.2]
  · rfl

/-- What the C++ listener hears of a topic, it hears in the beacon of the topic's group. -/
theorem Discoverable.heard {c : MulticastConfig} {sender : Build} (h : c.Discoverable sender)
    {g : PortGroup} (hg : g ∈ c.portGroups) {topic : UInt32} (htopic : topic ∈ g.topics) :
    u32 c.selfIp ∉ nameMagics ∧ topic ∈ announced sender g ∧ (announced sender g).length ≤ 126 ∧
      (sender = .cpp → (announced sender g).length ≤ 124) ∧
      (124 < (announced sender g).length → c.selfPid = 0 ∧ c.shmCapable = false) := by
  obtain ⟨_, hd, b, hb, hlists, hport, -, hpid, hshm⟩ := h .cpp g hg topic htopic
  obtain ⟨g', hg', hcount, hcpp, rfl⟩ := c.sent_group hd
  rw [c.heardBy_beaconBytes .cpp hcount] at hb
  split at hb
  · cases hb
  next hmagic =>
  obtain ⟨hfits, hport', htopics, hcut⟩ := c.readCut_some hb
  obtain rfl := c.group_unique hg hg' (hport'.symm.trans hport)
  rw [show bufBytes .cpp = 512 from rfl] at hfits hcut
  refine ⟨hmagic, htopics ▸ hlists, by omega, hcpp, fun hlong => ?_⟩
  obtain ⟨hpid', hshm'⟩ := hcut (by omega)
  exact ⟨hpid.symm.trans hpid', hshm.symm.trans hshm'⟩

/-- A C++ node whose 16-bit count cuts a group's topics leaves one out. -/
theorem Discoverable.length_le {c : MulticastConfig} {sender : Build} (h : c.Discoverable sender)
    {g : PortGroup} (hg : g ∈ c.portGroups) : g.topics.length ≤ (announced sender g).length :=
  (List.Nodup.subperm g.nodup fun _ htopic => (h.heard hg htopic).2.1).length_le

theorem Discoverable.length_le_room {c : MulticastConfig} {sender : Build}
    (h : c.Discoverable sender) {g : PortGroup} (hg : g ∈ c.portGroups) :
    g.topics.length ≤ c.room sender := by
  by_cases hempty : g.topics = []
  · rw [hempty]
    exact Nat.zero_le _
  obtain ⟨topic, htopic⟩ := List.exists_mem_of_ne_nil _ hempty
  obtain ⟨-, -, hfits, hcpp, hlong⟩ := h.heard hg htopic
  have hle := h.length_le hg
  cases sender with
  | cpp => exact hle.trans (hcpp rfl)
  | python =>
    rw [room]
    split
    · omega
    · next htold =>
      by_contra hover
      exact htold (hlong (by omega))

/-- **Discoverability, exactly.** Every listener hears of every declared topic if and only if
no group lists more topics than there is room for, and the node's address does not spell a
name magic. -/
theorem discoverable_iff (c : MulticastConfig) (sender : Build) :
    c.Discoverable sender ↔
      (∀ g ∈ c.portGroups, g.topics.length ≤ c.room sender) ∧
        (u32 c.selfIp ∈ nameMagics → ∀ g ∈ c.portGroups, g.topics = []) := by
  constructor
  · intro h
    refine ⟨fun g hg => h.length_le_room hg, fun hmagic g hg => ?_⟩
    refine List.eq_nil_iff_forall_not_mem.mpr fun topic htopic => ?_
    exact (h.heard hg htopic).1 hmagic
  · intro ⟨hroom, hmagic⟩ listener g hg topic htopic
    have hle := (hroom g hg).trans (c.room_le sender)
    have hnot : u32 c.selfIp ∉ nameMagics := fun hmem => by
      rw [hmagic hmem g hg] at htopic
      cases htopic
    refine ⟨_, c.group_sent hroom hg, ⟨c.selfIp, g.port, g.topics, c.selfPid, c.shmCapable⟩, ?_,
      htopic, rfl, rfl, rfl, rfl⟩
    rw [c.heardBy_beaconBytes listener (by omega), if_neg hnot, c.readCut_room listener (hroom g hg)]

/-- A node at 192.168.1.20 with 125 topics on one socket. -/
def crowded : MulticastConfig where
  selfIp := 0xC0A80114
  selfPid := 4242
  shmCapable := true
  portGroups := [⟨45000, (List.range 125).map UInt32.ofNat, by decide +kernel⟩]
  ports := by decide

/-- None of its topics is discoverable: the C++ build sends nothing, and of what the Python
build sends, the C++ listener does not read the extension. -/
theorem crowded_not_discoverable :
    crowded.sendBeaconOnce .cpp = [] ∧ ¬ crowded.Discoverable .cpp ∧
      ¬ crowded.Discoverable .python := by
  have hlong : ∀ sender, ¬ crowded.Discoverable sender := fun sender h => by
    have hle : 125 ≤ crowded.room sender := h.length_le_room List.mem_cons_self
    cases sender with
    | cpp => exact absurd hle (by decide)
    | python => exact absurd hle (by decide)
  exact ⟨by decide +kernel, hlong .cpp, hlong .python⟩

end MulticastConfig

end Relink.Discovery
