import Relink.Rlcore.State

/-! The receive loop of the rlcore daemon.

One turn of `main`: expire what is stale, tell the five formats that share the socket
apart, and act on the one found. A turn takes its clock readings and the nonce a sealed
reply draws as arguments and returns the datagrams it sends. -/
namespace Relink.Rlcore
open Wire Crypto Std

structure Datagram where
  src : PeerEntry
  bytes : Bytes
deriving DecidableEq, Repr

/-- What one turn of the loop reads; no datagram is a timeout of `recvfrom`. -/
structure Turn where
  pruneAt : Time
  handleAt : Time
  nonce : Nonce
  datagram : Option Datagram

/-- A datagram sent to an address. -/
abbrev Send := PeerEntry × Bytes

/-! ### Telling datagrams apart -/

inductive Branch where
  | topicAnnounce
  | topicQuery
  | topicReply
  | roleAnnounce
  | roleQuery
  | roleReply
  | relayRegister (topic : UInt32)
  | dataFrame (topic : UInt32)
  | registration
deriving DecidableEq, Repr

/-- The relay's part of the demultiplexing, which falls through to registration. -/
def relayDispatch (buf : Bytes) : Branch :=
  match decodeRelayRegister buf with
  | some topic => .relayRegister topic
  | none => match peekFrameTopicId buf with
    | some topic => .dataFrame topic
    | none => .registration

def roleDispatch (relayMode : Bool) (buf : Bytes) : Branch :=
  match rolePacketKind buf with
  | .announce => .roleAnnounce
  | .query => .roleQuery
  | .reply => .roleReply
  | .unknown => if relayMode then relayDispatch buf else .registration

def dispatch (relayMode : Bool) (buf : Bytes) : Branch :=
  match topicDirPacketKind buf with
  | .announce => .topicAnnounce
  | .query => .topicQuery
  | .reply => .topicReply
  | .unknown => roleDispatch relayMode buf

/-! ### Registration -/

/-- The plaintext of a request; with a key, only what opens under it. -/
def openRequest (cfg : Config) (bytes : Bytes) : Option Bytes :=
  match cfg.encryptKey with
  | none => some bytes
  | some key => aes256gcmOpen key bytes kMaxDatagramBytes

/-- The request a datagram of the registration path carries, if it opens and decodes. -/
def readRequest (cfg : Config) (bytes : Bytes) : Option DecodedRegisterRequest :=
  match openRequest cfg bytes with
  | none => none
  | some data => match decodeRegisterRequest data with
    | .error _ => none
    | .ok req => some req

/-- The address in the payload. -/
def selfReported (req : DecodedRegisterRequest) : PeerEntry := ⟨req.nodeIp, req.nodePort⟩

/-- Behind `--nat` the observed source, otherwise the address in the payload. -/
def identity (cfg : Config) (src : PeerEntry) (req : DecodedRegisterRequest) : PeerEntry :=
  if cfg.natMode then src else selfReported req

/-- `table[topic].insert(self)` and `last_seen[{topic, self}] = now`. -/
def enrollTopic (now : Time) (self : PeerEntry) (s : State) (topic : UInt32) : State :=
  { s with
    table := s.table.insert topic ((s.peersOf topic).insert self)
    lastSeen := s.lastSeen.insert ⟨topic, self⟩ now }

def enroll (now : Time) (self lan : PeerEntry) (topics : List UInt32) (s : State) : State :=
  topics.foldl (enrollTopic now self) {s with lanOf := s.lanOf.insert self lan}

/-- The ack's record of one peer; a peer without a LAN address gets zeros. -/
def ackPeer (s : State) (topic : UInt32) (peer : PeerEntry) : RegisterAckPeer :=
  let lan := s.lanOf.getD peer ⟨0, 0⟩
  ⟨peer.ip, peer.port, topic, lan.ip, lan.port⟩

/-- One topic's peers, except the requester. -/
def topicPeers (s : State) (self : PeerEntry) (topic : UInt32) : List RegisterAckPeer :=
  ((s.peersOf topic).toList.filter (· ≠ self)).map (ackPeer s topic)

/-- The peers of every position of the topic list. -/
def ackPeers (s : State) (self : PeerEntry) (topics : List UInt32) : List RegisterAckPeer :=
  topics.flatMap (topicPeers s self)

/-- The bytes of the ack, sealed if there is a key; none when they do not fit a datagram. -/
def encodeAck (cfg : Config) (nonce : Nonce) (peers : List RegisterAckPeer) : Option Bytes :=
  match encodeRegisterAck 0 peers (UInt16.ofNat peers.length) kMaxDatagramBytes with
  | .error _ => none
  | .ok ack => match cfg.encryptKey with
    | none => some ack
    | some key => aes256gcmSeal key nonce ack kMaxDatagramBytes

def handleRequest (cfg : Config) (now : Time) (nonce : Nonce) (src : PeerEntry)
    (req : DecodedRegisterRequest) (s : State) : State × List Send :=
  let self := identity cfg src req
  let s := enroll now self (selfReported req) req.topics s
  (s, (encodeAck cfg nonce (ackPeers s self req.topics)).toList.map (src, ·))

def handleRegistration (cfg : Config) (now : Time) (nonce : Nonce) (d : Datagram) (s : State) :
    State × List Send :=
  match readRequest cfg d.bytes with
  | none => (s, [])
  | some req => handleRequest cfg now nonce d.src req s

/-! ### Directories and the relay -/

def handleTopicAnnounce (bytes : Bytes) (s : State) : State :=
  match decodeTopicDirEntries bytes with
  | none => s
  | some entries =>
    {s with topicNames := entries.foldl (fun m e => m.insert e.topicId e.name) s.topicNames}

/-- An empty list is still answered, with one empty packet. -/
def orEmptyChunk {α : Type} (chunks : List (List α)) : List (List α) :=
  if chunks = [] then [[]] else chunks

def answerTopicQuery (src : PeerEntry) (s : State) : List Send :=
  let entries := s.table.keys.map fun topic => ⟨topic, s.topicNames.getD topic []⟩
  (orEmptyChunk (chunkTopicDirEntries entries)).filterMap fun chunk =>
    (encodeTopicDirReply chunk kMaxDatagramBytes).map (src, ·)

def announceRole (now : Time) (src : PeerEntry) (s : State) (e : RoleAnnounceEntry) : State :=
  { s with
    roleTable := s.roleTable.insert ⟨e.topicId, src⟩ e.role
    roleLastSeen := s.roleLastSeen.insert ⟨e.topicId, src⟩ now }

def handleRoleAnnounce (now : Time) (src : PeerEntry) (bytes : Bytes) (s : State) : State :=
  match decodeRoleAnnounce bytes with
  | none => s
  | some entries => entries.foldl (announceRole now src) s

def answerRoleQuery (src : PeerEntry) (s : State) : List Send :=
  let entries := s.roleTable.toList.map fun e =>
    RolePeerEntry.mk e.1.topic e.2 e.1.peer.ip e.1.peer.port
  (orEmptyChunk (chunkRolePeerEntries entries)).filterMap fun chunk =>
    (encodeRoleReply chunk kMaxDatagramBytes).map (src, ·)

def handleRelayRegister (now : Time) (src : PeerEntry) (topic : UInt32) (s : State) : State :=
  {s with relayGroups := s.relayGroups.insert topic ((s.relayGroups.getD topic ∅).insert src now)}

/-- A data frame goes to every member of its topic's group except its source. -/
def forwardFrame (d : Datagram) (topic : UInt32) (s : State) : List Send :=
  ((s.relayGroups.getD topic ∅).keys.filter (· ≠ d.src)).map (·, d.bytes)

/-! ### One turn -/

def handle (cfg : Config) (now : Time) (nonce : Nonce) (d : Datagram) (s : State) :
    State × List Send :=
  match dispatch cfg.relayMode d.bytes with
  | .topicAnnounce => (handleTopicAnnounce d.bytes s, [])
  | .topicQuery => (s, answerTopicQuery d.src s)
  | .topicReply => (s, [])
  | .roleAnnounce => (handleRoleAnnounce now d.src d.bytes s, [])
  | .roleQuery => (s, answerRoleQuery d.src s)
  | .roleReply => (s, [])
  | .relayRegister topic => (handleRelayRegister now d.src topic s, [])
  | .dataFrame topic => (s, forwardFrame d topic s)
  | .registration => handleRegistration cfg now nonce d s

def step (cfg : Config) (s : State) (turn : Turn) : State × List Send :=
  let s := pruneStale cfg turn.pruneAt s
  match turn.datagram with
  | none => (s, [])
  | some d => if d.bytes = [] then (s, []) else handle cfg turn.handleAt turn.nonce d s

/-- The daemon's state after a run of turns. -/
def run (cfg : Config) (s : State) (turns : List Turn) : State :=
  turns.foldl (fun s turn => (step cfg s turn).1) s

theorem run_snoc (cfg : Config) (s : State) (turns : List Turn) (turn : Turn) :
    run cfg s (turns ++ [turn]) = (step cfg (run cfg s turns) turn).1 := by
  rw [run, List.foldl_append]
  rfl

/-! ### What a turn does to the registrations -/

/-- The request a datagram is handled as: it reaches the registration path, opens and
decodes. -/
def requestOf (cfg : Config) (d : Datagram) : Option DecodedRegisterRequest :=
  if d.bytes ≠ [] ∧ dispatch cfg.relayMode d.bytes = .registration then readRequest cfg d.bytes
  else none

/-- The requester and request of a turn, if it handles one. -/
def Turn.request (cfg : Config) (turn : Turn) : Option (PeerEntry × DecodedRegisterRequest) :=
  turn.datagram.bind fun d => (requestOf cfg d).map (d.src, ·)

theorem Turn.request_of {cfg : Config} {turn : Turn} {d : Datagram} {req : DecodedRegisterRequest}
    (hd : turn.datagram = some d) (hreq : requestOf cfg d = some req) :
    turn.request cfg = some (d.src, req) := by
  rw [Turn.request, hd, Option.bind_some, hreq, Option.map_some]

theorem step_request {cfg : Config} {turn : Turn} {src : PeerEntry} {req : DecodedRegisterRequest}
    (s : State) (h : turn.request cfg = some (src, req)) :
    step cfg s turn =
      handleRequest cfg turn.handleAt turn.nonce src req (pruneStale cfg turn.pruneAt s) := by
  unfold Turn.request at h
  cases hd : turn.datagram with
  | none =>
    rw [hd] at h
    cases h
  | some d =>
    rw [hd, Option.bind_some, Option.map_eq_some_iff] at h
    obtain ⟨r, hr, heq⟩ := h
    cases heq
    unfold requestOf at hr
    split at hr
    · rename_i hroute
      rw [step, hd]
      simp only [hroute.1, if_false, handle, hroute.2, handleRegistration, hr]
    · cases hr

/-- Every other turn leaves the registrations as expiry left them. -/
theorem step_other {cfg : Config} {turn : Turn} (s : State) (h : turn.request cfg = none) :
    (step cfg s turn).1.table = (pruneStale cfg turn.pruneAt s).table ∧
      (step cfg s turn).1.lastSeen = (pruneStale cfg turn.pruneAt s).lastSeen ∧
      (step cfg s turn).1.lanOf = (pruneStale cfg turn.pruneAt s).lanOf := by
  rw [step]
  generalize pruneStale cfg turn.pruneAt s = s
  cases hd : turn.datagram with
  | none => exact ⟨rfl, rfl, rfl⟩
  | some d =>
    by_cases hempty : d.bytes = []
    · simp only [hempty, if_true, and_self]
    · rw [Turn.request, hd, Option.bind_some, Option.map_eq_none_iff] at h
      simp only [hempty, if_false, handle]
      cases hb : dispatch cfg.relayMode d.bytes with
      | registration =>
        rw [requestOf, if_pos ⟨hempty, hb⟩] at h
        simp only [handleRegistration, h, and_self]
      | topicAnnounce =>
        simp only [handleTopicAnnounce]
        split <;> exact ⟨rfl, rfl, rfl⟩
      | roleAnnounce =>
        simp only [handleRoleAnnounce]
        split
        · exact ⟨rfl, rfl, rfl⟩
        · exact Transition.foldl_invariant
            (fun t : State => t.table = s.table ∧ t.lastSeen = s.lastSeen ∧ t.lanOf = s.lanOf)
            (fun _ => True) (announceRole turn.handleAt d.src) (fun t e ht _ => ht) _ s
            ⟨rfl, rfl, rfl⟩ (fun _ _ => trivial)
      | topicQuery => exact ⟨rfl, rfl, rfl⟩
      | topicReply => exact ⟨rfl, rfl, rfl⟩
      | roleQuery => exact ⟨rfl, rfl, rfl⟩
      | roleReply => exact ⟨rfl, rfl, rfl⟩
      | relayRegister topic => exact ⟨rfl, rfl, rfl⟩
      | dataFrame topic => exact ⟨rfl, rfl, rfl⟩

/-! ### What a request does to the registrations -/

theorem enrollTopic_listed (now : Time) (self : PeerEntry) (s : State) (topic t : UInt32)
    (p : PeerEntry) :
    (enrollTopic now self s topic).Listed t p ↔ s.Listed t p ∨ (p = self ∧ t = topic) := by
  unfold State.Listed enrollTopic State.peersOf
  rw [ExtTreeMap.getD_insert]
  by_cases ht : topic = t
  · subst ht
    rw [if_pos ReflOrd.compare_self, ExtTreeSet.mem_insert, Std.compare_eq_iff_eq]
    simp only [and_true]
    exact ⟨fun h => h.symm.imp id Eq.symm, fun h => h.symm.imp Eq.symm id⟩
  · rw [if_neg (by rwa [Std.compare_eq_iff_eq])]
    exact ⟨Or.inl, fun h => h.elim id fun h => absurd h.2.symm ht⟩

theorem enrollTopic_lastSeen (now : Time) (self : PeerEntry) (s : State) (topic t : UInt32)
    (p : PeerEntry) :
    (enrollTopic now self s topic).lastSeen[TopicPeer.mk t p]? =
      if p = self ∧ t = topic then some now else s.lastSeen[TopicPeer.mk t p]? := by
  unfold enrollTopic
  rw [ExtTreeMap.getElem?_insert]
  congr 1
  rw [Std.compare_eq_iff_eq, TopicPeer.mk.injEq]
  exact propext ⟨fun h => ⟨h.2.symm, h.1.symm⟩, fun h => ⟨h.2.symm, h.1.symm⟩⟩

theorem enrollTopics_listed (now : Time) (self : PeerEntry) (topics : List UInt32) (s : State)
    (t : UInt32) (p : PeerEntry) :
    (topics.foldl (enrollTopic now self) s).Listed t p ↔
      s.Listed t p ∨ (p = self ∧ t ∈ topics) := by
  induction topics generalizing s with
  | nil => simp
  | cons topic rest ih =>
    rw [List.foldl_cons, ih, enrollTopic_listed, List.mem_cons, or_assoc, ← and_or_left]

theorem enrollTopics_lastSeen (now : Time) (self : PeerEntry) (topics : List UInt32) (s : State)
    (t : UInt32) (p : PeerEntry) :
    (topics.foldl (enrollTopic now self) s).lastSeen[TopicPeer.mk t p]? =
      if p = self ∧ t ∈ topics then some now else s.lastSeen[TopicPeer.mk t p]? := by
  induction topics generalizing s with
  | nil => simp
  | cons topic rest ih =>
    rw [List.foldl_cons, ih, enrollTopic_lastSeen]
    by_cases hrest : p = self ∧ t ∈ rest
    · rw [if_pos hrest, if_pos ⟨hrest.1, List.mem_cons_of_mem _ hrest.2⟩]
    · rw [if_neg hrest]
      by_cases hhere : p = self ∧ t = topic
      · rw [if_pos hhere, if_pos ⟨hhere.1, hhere.2 ▸ List.mem_cons_self⟩]
      · rw [if_neg hhere, if_neg]
        intro ⟨hp, ht⟩
        rcases List.mem_cons.mp ht with ht | ht
        · exact hhere ⟨hp, ht⟩
        · exact hrest ⟨hp, ht⟩

/-- Enrolling lists the requester under its topics and nothing else. -/
theorem enroll_listed (now : Time) (self lan : PeerEntry) (topics : List UInt32) (s : State)
    (t : UInt32) (p : PeerEntry) :
    (enroll now self lan topics s).Listed t p ↔ s.Listed t p ∨ (p = self ∧ t ∈ topics) :=
  enrollTopics_listed now self topics {s with lanOf := s.lanOf.insert self lan} t p

theorem enroll_lastSeen (now : Time) (self lan : PeerEntry) (topics : List UInt32) (s : State)
    (t : UInt32) (p : PeerEntry) :
    (enroll now self lan topics s).lastSeen[TopicPeer.mk t p]? =
      if p = self ∧ t ∈ topics then some now else s.lastSeen[TopicPeer.mk t p]? :=
  enrollTopics_lastSeen now self topics {s with lanOf := s.lanOf.insert self lan} t p

theorem enroll_lanOf (now : Time) (self lan : PeerEntry) (topics : List UInt32) (s : State) :
    (enroll now self lan topics s).lanOf = s.lanOf.insert self lan := by
  unfold enroll
  exact Transition.foldl_invariant (fun t : State => t.lanOf = s.lanOf.insert self lan)
    (fun _ => True) (enrollTopic now self) (fun t topic ht _ => ht) topics _ rfl
    (fun _ _ => trivial)

theorem enroll_others (now : Time) (self lan : PeerEntry) (topics : List UInt32) (s : State) :
    (enroll now self lan topics s).roleTable = s.roleTable ∧
      (enroll now self lan topics s).roleLastSeen = s.roleLastSeen ∧
      (enroll now self lan topics s).relayGroups = s.relayGroups ∧
      (enroll now self lan topics s).topicNames = s.topicNames :=
  Transition.foldl_invariant
    (fun t : State => t.roleTable = s.roleTable ∧ t.roleLastSeen = s.roleLastSeen ∧
      t.relayGroups = s.relayGroups ∧ t.topicNames = s.topicNames)
    (fun _ => True) (enrollTopic now self) (fun _ _ h _ => h) topics _ ⟨rfl, rfl, rfl, rfl⟩
    fun _ _ => trivial

end Relink.Rlcore
