import Relink.Crypto.Python
import Relink.Rlcore.Server

/-! The Python build of the rlcore daemon.

`cli/rlcore.py`, in the order of the C++ loop. Its tables are dictionaries and sets with
the same content, read here in key order where Python's is unspecified, so replies agree
with the source's up to the order of their entries. A name is kept by its UTF-8 bytes.
What can raise is an exception: `struct.pack` of a count over 65535 and a `sendto` over
the UDP maximum; the registration path catches neither. -/
namespace Relink.Rlcore.Py
open LittleEndian Wire Crypto
open Std (ExtTreeMap ExtTreeSet)

inductive PyError where
  /-- `struct.error`: the number does not fit the format. -/
  | structError (value : Nat)
  /-- `OSError`: message too long. -/
  | osError (size : Nat)
deriving DecidableEq, Repr

def REGISTRATION_TTL_S : Time := 3
def RELAY_MEMBER_TTL_S : Time := 30

/-! ### Expiry -/

/-- `now - last_seen.get(key, 0.0) <= REGISTRATION_TTL_S`. -/
def live (now : Time) (seen : Option Time) : Bool := now - seen.getD 0 ≤ REGISTRATION_TTL_S

def forget (topic : UInt32) (lastSeen : ExtTreeMap TopicPeer Time) (p : PeerEntry) :
    ExtTreeMap TopicPeer Time :=
  lastSeen.erase ⟨topic, p⟩

def pruneTopic (now : Time) (s : TableAndTimes) (topic : UInt32) : TableAndTimes :=
  let peers := s.1.getD topic ∅
  let kept := peers.filter fun p => live now s.2[TopicPeer.mk topic p]?
  let gone := peers.toList.filter fun p => !live now s.2[TopicPeer.mk topic p]?
  (if kept.isEmpty then s.1.erase topic else s.1.insert topic kept,
    gone.foldl (forget topic) s.2)

def pruneTable (now : Time) (table : ExtTreeMap UInt32 (ExtTreeSet PeerEntry))
    (lastSeen : ExtTreeMap TopicPeer Time) : TableAndTimes :=
  table.keys.foldl (pruneTopic now) (table, lastSeen)

def pruneRoles (now : Time) (roleTable : ExtTreeMap TopicPeer UInt8)
    (roleLastSeen : ExtTreeMap TopicPeer Time) :
    ExtTreeMap TopicPeer UInt8 × ExtTreeMap TopicPeer Time :=
  let gone := (roleLastSeen.toList.filter fun e => REGISTRATION_TTL_S < now - e.2).map (·.1)
  gone.foldl (fun s key => (s.1.erase key, s.2.erase key)) (roleTable, roleLastSeen)

def pruneMembers (now : Time) (members : ExtTreeMap PeerEntry Time) : ExtTreeMap PeerEntry Time :=
  let gone := (members.toList.filter fun e => RELAY_MEMBER_TTL_S < now - e.2).map (·.1)
  gone.foldl (fun m a => m.erase a) members

def pruneGroups (now : Time) (groups : ExtTreeMap UInt32 (ExtTreeMap PeerEntry Time)) :
    ExtTreeMap UInt32 (ExtTreeMap PeerEntry Time) :=
  groups.keys.foldl
    (fun g topic =>
      let members := pruneMembers now (g.getD topic ∅)
      if members.isEmpty then g.erase topic else g.insert topic members) groups

def pruneStale (cfg : Config) (now : Time) (s : State) : State :=
  let registrations := pruneTable now s.table s.lastSeen
  let roles := pruneRoles now s.roleTable s.roleLastSeen
  { s with
    table := registrations.1
    lastSeen := registrations.2
    roleTable := roles.1
    roleLastSeen := roles.2
    relayGroups := if cfg.relayMode then pruneGroups now s.relayGroups else s.relayGroups }

/-! ### Telling datagrams apart -/

/-- Five bytes are enough here, where the C++ build asks for a whole header. -/
def peekFrameTopicId (buf : Bytes) : Option UInt32 :=
  if buf.length < 1 + 4 ∨ buf.getD 0 0 ≠ kStartByte then none else some (readU32 1 buf)

def relayDispatch (buf : Bytes) : Branch :=
  match decodeRelayRegister buf with
  | some topic => .relayRegister topic
  | none => match peekFrameTopicId buf with
    | some topic => .dataFrame topic
    | none => .registration

def roleDispatch (relayMode : Bool) (buf : Bytes) : Branch :=
  match rolePacketKind buf with
  | .announce => .roleAnnounce
  | .query => .roleQuery
  | .reply => .roleReply
  | .unknown => if relayMode then relayDispatch buf else .registration

def dispatch (relayMode : Bool) (buf : Bytes) : Branch :=
  match topicDirPacketKind buf with
  | .announce => .topicAnnounce
  | .query => .topicQuery
  | .reply => .topicReply
  | .unknown => roleDispatch relayMode buf

/-! ### Registration -/

def openRequest (cfg : Config) (data : Bytes) : Option Bytes :=
  match cfg.encryptKey with
  | none => some data
  | some key => Crypto.Py.aes256gcmOpen key data

/-- The node's address and its topics. -/
def decodeRegisterRequest (buf : Bytes) : Option (UInt32 × UInt16 × List UInt32) :=
  if buf.length < kRegisterRequestHeaderBytes then none
  else
    let topicCount := readU16 6 buf
    if buf.length ≠ kRegisterRequestHeaderBytes + topicCount.toNat * 4 then none
    else some (readU32 0 buf, readU16 4 buf,
      topicRecord.loads topicCount.toNat (buf.drop kRegisterRequestHeaderBytes))

/-- Both builds read the same from a request. -/
theorem decodeRegisterRequest_eq (buf : Bytes) :
    decodeRegisterRequest buf = (Wire.decodeRegisterRequest buf).toOption.map fun req =>
      (req.nodeIp, req.nodePort, req.topics) := by
  simp only [decodeRegisterRequest, Wire.decodeRegisterRequest]
  by_cases hshort : buf.length < kRegisterRequestHeaderBytes
  · rw [if_pos hshort, if_pos hshort]
    rfl
  · rw [if_neg hshort, if_neg hshort]
    by_cases hlen : buf.length ≠ kRegisterRequestHeaderBytes + (readU16 6 buf).toNat * 4
    · rw [if_pos hlen, if_pos hlen]
      rfl
    · rw [if_neg hlen, if_neg hlen]
      rfl

/-- Packs the number of peers, so it raises where the C++ build truncates. -/
def encodeRegisterAck (status : UInt8) (peers : List RegisterAckPeer) : Except PyError Bytes :=
  if 65536 ≤ peers.length then .error (.structError peers.length)
  else .ok (status :: (u16 (UInt16.ofNat peers.length) ++ peerRecord.array peers))

/-- `sock.sendto`. -/
def sendto (data : Bytes) (dst : PeerEntry) : Except PyError Send :=
  if kMaxDatagramBytes < data.length then .error (.osError data.length) else .ok (dst, data)

def sealAck (cfg : Config) (nonce : Nonce) (ack : Bytes) : Bytes :=
  match cfg.encryptKey with
  | none => ack
  | some key => Crypto.Py.aes256gcmSeal key nonce ack

/-- The last lines of the loop, from the peer list on. -/
def sendAck (cfg : Config) (nonce : Nonce) (src : PeerEntry) (peers : List RegisterAckPeer) :
    Except PyError Send :=
  match encodeRegisterAck 0 peers with
  | .error e => .error e
  | .ok ack => sendto (sealAck cfg nonce ack) src

def handleRegistration (cfg : Config) (now : Time) (nonce : Nonce) (d : Datagram) (s : State) :
    Except PyError (State × List Send) :=
  match (openRequest cfg d.bytes).bind decodeRegisterRequest with
  | none => .ok (s, [])
  | some (nodeIp, nodePort, topics) =>
    let self := if cfg.natMode then d.src else ⟨nodeIp, nodePort⟩
    let s := enroll now self ⟨nodeIp, nodePort⟩ topics s
    match sendAck cfg nonce d.src (ackPeers s self topics) with
    | .error e => .error e
    | .ok sent => .ok (s, [sent])

/-! ### Directories and the relay -/

/-- How many continuation bytes a leading byte asks for, and the range of the first. -/
def utf8Lead (b : UInt8) : Option (Nat × UInt8 × UInt8) :=
  if b < 0x80 then some (0, 0x80, 0xBF)
  else if b < 0xC2 then none
  else if b < 0xE0 then some (1, 0x80, 0xBF)
  else if b = 0xE0 then some (2, 0xA0, 0xBF)
  else if b = 0xED then some (2, 0x80, 0x9F)
  else if b < 0xF0 then some (2, 0x80, 0xBF)
  else if b = 0xF0 then some (3, 0x90, 0xBF)
  else if b < 0xF4 then some (3, 0x80, 0xBF)
  else if b = 0xF4 then some (3, 0x80, 0x8F)
  else none

/-- How many of the bytes continue a sequence that asks for `n` more. -/
def utf8Continuation : Nat → UInt8 → UInt8 → Bytes → Nat
  | 0, _, _, _ => 0
  | _ + 1, _, _, [] => 0
  | n + 1, low, high, b :: rest =>
    if low ≤ b ∧ b ≤ high then utf8Continuation n 0x80 0xBF rest + 1 else 0

/-- U+FFFD. -/
def utf8Replacement : Bytes := [0xEF, 0xBF, 0xBD]

/-- `decode("utf-8", errors="replace")`, encoded again: every maximal piece that is no
character is replaced. `fuel` is the number of bytes. -/
def utf8Replace : Nat → Bytes → Bytes
  | 0, _ => []
  | _ + 1, [] => []
  | fuel + 1, b :: rest =>
    match utf8Lead b with
    | none => utf8Replacement ++ utf8Replace fuel rest
    | some (n, low, high) =>
      let k := utf8Continuation n low high rest
      if k = n then b :: rest.take n ++ utf8Replace fuel (rest.drop n)
      else utf8Replacement ++ utf8Replace fuel (rest.drop k)

def announceName (s : State) (e : TopicDirEntry) : State :=
  {s with topicNames := s.topicNames.insert e.topicId (utf8Replace e.name.length e.name)}

def handleTopicAnnounce (bytes : Bytes) (s : State) : State :=
  match decodeTopicDirEntries bytes with
  | none => s
  | some entries => entries.foldl announceName s

/-- The encoder raises on a name that is too long, and the loop drops that chunk. -/
def encodeReply (entries : List TopicDirEntry) : Option Bytes :=
  if kTopicDirMaxEntries < entries.length ∨ ∃ e ∈ entries, kTopicDirMaxNameLen < e.name.length
  then none
  else some (kTopicDirReplyMagic ++ u16 (UInt16.ofNat entries.length) ++
    entries.flatMap TopicDirEntry.pack)

/-- A send inside `try`: what raises is not sent. -/
def trySend (dst : PeerEntry) (data : Option Bytes) : Option Send :=
  data.bind fun data => (sendto data dst).toOption

def answerTopicQuery (src : PeerEntry) (s : State) : List Send :=
  let entries := s.table.keys.map fun topic => ⟨topic, s.topicNames.getD topic []⟩
  (orEmptyChunk (chunkTopicDirEntries entries)).filterMap fun chunk => trySend src (encodeReply chunk)

def encodeRoleReply (entries : List RolePeerEntry) : Option Bytes :=
  if kRoleMaxEntries < entries.length then none
  else some (kRoleReplyMagic ++ u16 (UInt16.ofNat entries.length) ++ rolePeerRecord.array entries)

def answerRoleQuery (src : PeerEntry) (s : State) : List Send :=
  let entries := s.roleTable.toList.map fun e =>
    RolePeerEntry.mk e.1.topic e.2 e.1.peer.ip e.1.peer.port
  (orEmptyChunk (chunkRolePeerEntries entries)).filterMap fun chunk =>
    trySend src (encodeRoleReply chunk)

def forwardFrame (d : Datagram) (topic : UInt32) (s : State) : List Send :=
  ((s.relayGroups.getD topic ∅).keys.filter (· ≠ d.src)).filterMap fun member =>
    trySend member (some d.bytes)

/-! ### One turn -/

def handle (cfg : Config) (now : Time) (nonce : Nonce) (d : Datagram) (s : State) :
    Except PyError (State × List Send) :=
  match dispatch cfg.relayMode d.bytes with
  | .topicAnnounce => .ok (handleTopicAnnounce d.bytes s, [])
  | .topicQuery => .ok (s, answerTopicQuery d.src s)
  | .topicReply => .ok (s, [])
  | .roleAnnounce => .ok (handleRoleAnnounce now d.src d.bytes s, [])
  | .roleQuery => .ok (s, answerRoleQuery d.src s)
  | .roleReply => .ok (s, [])
  | .relayRegister topic => .ok (handleRelayRegister now d.src topic s, [])
  | .dataFrame topic => .ok (s, forwardFrame d topic s)
  | .registration => handleRegistration cfg now nonce d s

/-- An empty datagram goes through the loop like any other here. -/
def step (cfg : Config) (s : State) (turn : Turn) : Except PyError (State × List Send) :=
  let s := pruneStale cfg turn.pruneAt s
  match turn.datagram with
  | none => .ok (s, [])
  | some d => handle cfg turn.handleAt turn.nonce d s

/-! ### What expiry does to a registration -/

theorem forget_else (k : TopicPeer) (topic : UInt32) (gone : List PeerEntry)
    (lastSeen : ExtTreeMap TopicPeer Time) (hk : k.topic ≠ topic) :
    (gone.foldl (forget topic) lastSeen)[k]? = lastSeen[k]? := by
  induction gone generalizing lastSeen with
  | nil => rfl
  | cons q rest ih =>
    have hne : TopicPeer.mk topic q ≠ k := by
      intro heq
      subst heq
      exact hk rfl
    rw [List.foldl_cons, ih, forget, ExtTreeMap.getElem?_erase,
      if_neg (by rwa [Std.compare_eq_iff_eq])]

/-- A topic's turn keeps its live peers. -/
theorem pruneTopic_here (now : Time) (s : TableAndTimes) (topic : UInt32) (q : PeerEntry) :
    q ∈ (pruneTopic now s topic).1.getD topic ∅ ↔
      q ∈ s.1.getD topic ∅ ∧ live now s.2[TopicPeer.mk topic q]? = true := by
  have hkept : q ∈ (s.1.getD topic ∅).filter (fun p => live now s.2[TopicPeer.mk topic p]?) ↔
      q ∈ s.1.getD topic ∅ ∧ live now s.2[TopicPeer.mk topic q]? = true := by
    rw [ExtTreeSet.mem_filter]
    simp
  rw [← hkept]
  simp only [pruneTopic]
  rw [Sweep.getD_eraseOrInsert_self s.1 topic ExtTreeSet.isEmpty_iff.mp]

theorem pruneTopic_else (now : Time) (s : TableAndTimes) {topic t : UInt32} (ht : t ≠ topic) :
    (pruneTopic now s topic).1.getD t ∅ = s.1.getD t ∅ ∧
      ∀ q, (pruneTopic now s topic).2[TopicPeer.mk t q]? = s.2[TopicPeer.mk t q]? :=
  ⟨Sweep.getD_eraseOrInsert_of_ne s.1 ht, fun q => forget_else ⟨t, q⟩ topic _ s.2 ht⟩

/-- Expiry keeps the live peers of every topic and nothing else. -/
theorem listed_pruneStale (cfg : Config) (now : Time) (s : State) (topic : UInt32) (p : PeerEntry) :
    (pruneStale cfg now s).Listed topic p ↔
      s.Listed topic p ∧ live now s.lastSeen[TopicPeer.mk topic p]? = true := by
  have hfold := Transition.foldl_local id
    (fun (t : UInt32) (s : TableAndTimes) =>
      (s.1.getD t ∅, fun q : PeerEntry => s.2[TopicPeer.mk t q]?))
    (fun _ v v' => ∀ q, q ∈ v'.1 ↔ q ∈ v.1 ∧ live now (v.2 q) = true) (pruneTopic now)
    (fun s t q => pruneTopic_here now s t q)
    (fun s t k hk => by
      obtain ⟨hpeers, htimes⟩ := pruneTopic_else now s hk
      exact Prod.ext hpeers (funext htimes))
    s.table.keys (ExtTreeMap.distinct_keys.imp fun h heq => h (Std.compare_eq_iff_eq.mpr heq))
    (s.table, s.lastSeen)
  by_cases hmem : topic ∈ s.table
  · exact hfold.1 topic (ExtTreeMap.mem_keys.mpr hmem) p
  · have hempty : s.table.getD topic ∅ = ∅ := ExtTreeMap.getD_eq_fallback hmem
    have hstay := hfold.2 topic (by
      intro t ht heq
      subst heq
      exact hmem (ExtTreeMap.mem_keys.mp ht))
    simp only [Prod.mk.injEq] at hstay
    have hgone : ¬ (pruneStale cfg now s).Listed topic p := by
      show ¬ p ∈ (pruneTable now s.table s.lastSeen).1.getD topic ∅
      rw [pruneTable, hstay.1, hempty]
      exact ExtTreeSet.not_mem_empty
    refine iff_of_false hgone fun h => ?_
    rw [State.Listed, State.peersOf, hempty] at h
    exact ExtTreeSet.not_mem_empty h.1

end Relink.Rlcore.Py
