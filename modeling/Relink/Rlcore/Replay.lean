import Relink.Rlcore.Demux
import Relink.Rlcore.Eviction

/-! rlcore with a key, against a network that cannot forge.

Nodes that hold the key seal requests and send them; whoever controls the network sees
every datagram, holds any back, and sends what it likes from any address, but of what
opens under the key only what a key holder sealed: a node's request, or an ack of rlcore
itself, which is sealed with the same key. -/
namespace Relink.Rlcore
open LittleEndian Wire Crypto Transition
open Std (ExtTreeMap)

/-! ### Nodes and the network -/

/-- A datagram a node sent: where its socket is, which the request reports, where it is
seen from, and the topics it names. -/
structure Sent where
  lan : PeerEntry
  src : PeerEntry
  topics : List UInt32
  bytes : Bytes
deriving DecidableEq

/-- The address the node sent from, as rlcore is to know it. -/
def Sent.address (cfg : Config) (t : Sent) : PeerEntry := if cfg.natMode then t.src else t.lan

/-- The sealed request of `register_with_rlcore_on_socket`. -/
def sealRequest (key : Key) (nonce : Nonce) (lan : PeerEntry) (topics : List UInt32) :
    Option Bytes :=
  match encodeRegisterRequest lan.ip lan.port topics (UInt16.ofNat topics.length)
      kMaxDatagramBytes with
  | .error _ => none
  | .ok req => aes256gcmSeal key nonce req kMaxDatagramBytes

/-- The daemon, all that nodes ever sent, what of it is still under way, and the acks. -/
structure Net where
  rlcore : State := {}
  sent : List Sent := []
  inFlight : List Sent := []
  acks : List Bytes := []

inductive Act where
  | send (lan src : PeerEntry) (topics : List UInt32) (nonce : Nonce)
  /-- A retry: the node sends the same bytes again. -/
  | resend (t : Sent)
  | deliver (t : Sent) (pruneAt handleAt : Time) (nonce : Nonce)
  /-- Any other turn of the daemon: a datagram that no node sent it, or a timeout. -/
  | inject (turn : Turn)

/-- The turn of the daemon in an act. -/
def Act.turn : Act → Option Turn
  | .deliver t pruneAt handleAt nonce => some ⟨pruneAt, handleAt, nonce, some ⟨t.src, t.bytes⟩⟩
  | .inject turn => some turn
  | _ => none

def Act.delivered : Act → Option Sent
  | .deliver t .. => some t
  | _ => none

section
variable (cfg : Config) (key : Key)

def Net.handle (n : Net) (turn : Turn) : Net :=
  let r := step cfg n.rlcore turn
  { n with
    rlcore := r.1
    acks := if (turn.request cfg).isSome then n.acks ++ r.2.map (·.2) else n.acks }

/-- The topic count is cast, so a node names the topics up to the count. -/
def Net.send (n : Net) (lan src : PeerEntry) (topics : List UInt32) (nonce : Nonce) : Net :=
  match sealRequest key nonce lan topics with
  | none => n
  | some bytes =>
    let t : Sent := ⟨lan, src, topics.take (UInt16.ofNat topics.length).toNat, bytes⟩
    {n with sent := n.sent ++ [t], inFlight := n.inFlight ++ [t]}

def Net.step (n : Net) : Act → Net
  | .send lan src topics nonce => n.send key lan src topics nonce
  | .resend t => {n with inFlight := n.inFlight ++ [t]}
  | .deliver t pruneAt handleAt nonce =>
    {n with inFlight := n.inFlight.erase t}.handle cfg
      ⟨pruneAt, handleAt, nonce, some ⟨t.src, t.bytes⟩⟩
  | .inject turn => n.handle cfg turn

/-- What opens under the key was sealed by a key holder. -/
def Permitted (n : Net) : Act → Prop
  | .send .. => True
  | .resend t => t ∈ n.sent
  | .deliver t .. => t ∈ n.inFlight
  | .inject turn => ∀ d ∈ turn.datagram, (aes256gcmOpen key d.bytes kMaxDatagramBytes).isSome →
    (∃ t ∈ n.sent, t.bytes = d.bytes) ∨ d.bytes ∈ n.acks

/-- The turn puts the peer under the topic and sets its time. -/
def Refreshes (turn : Turn) (topic : UInt32) (p : PeerEntry) : Prop :=
  ∃ src req, turn.request cfg = some (src, req) ∧ identity cfg src req = p ∧ topic ∈ req.topics

/-- Every listed peer goes back to a request for the topic. -/
def ListedBy (R : Sent → PeerEntry → Prop) (n : Net) : Prop :=
  ∀ topic p, n.rlcore.Listed topic p → ∃ t ∈ n.sent, R t p ∧ topic ∈ t.topics

/-- Every listed peer is the address of a node that asked for the topic from there. -/
def OnlyHolders (n : Net) : Prop := ListedBy (fun t p => t.address cfg = p) n

/-- Entries are inserted and refreshed by their own node's datagrams only. -/
def Authentic (n : Net) (a : Act) : Prop :=
  OnlyHolders cfg (n.step cfg key a) ∧ ∀ turn ∈ a.turn, ∀ topic p, Refreshes cfg turn topic p →
    ∃ t ∈ a.delivered, t.address cfg = p ∧ topic ∈ t.topics

/-- No sealed request that names a topic is sent again by another. -/
def Unreplayed (n : Net) : Act → Prop
  | .inject turn => ∀ d ∈ turn.datagram, dispatch cfg.relayMode d.bytes = .registration →
    ∀ t ∈ n.sent, t.bytes = d.bytes → t.topics = []
  | _ => True

end

/-! ### What is sealed opens as what it is -/

theorem encodeRegisterRequest_bytes {lan : PeerEntry} {topics : List UInt32} {req : Bytes}
    (h : encodeRegisterRequest lan.ip lan.port topics (UInt16.ofNat topics.length)
      kMaxDatagramBytes = .ok req) :
    (topics.take (UInt16.ofNat topics.length).toNat).length ≤ kMaxRegisterTopics ∧
      req = requestBytes lan.ip lan.port (topics.take (UInt16.ofNat topics.length).toNat) := by
  have hcount : (topics.take (UInt16.ofNat topics.length).toNat).length =
      (UInt16.ofNat topics.length).toNat := by
    rw [List.length_take, UInt16.toNat_ofNat', Nat.min_eq_left (Nat.mod_le ..)]
  unfold encodeRegisterRequest at h
  split at h
  · cases h
  rename_i hcap
  split at h
  · cases h
  cases h
  refine ⟨by omega, ?_⟩
  rw [requestBytes, hcount, UInt16.ofNat_toNat]
  simp only [List.append_assoc]

theorem sealRequest_wellFormed {cfg : Config} {key : Key} (hkey : cfg.encryptKey = some key)
    {nonce : Nonce} {lan : PeerEntry} {topics : List UInt32} {bytes : Bytes}
    (h : sealRequest key nonce lan topics = some bytes) :
    WellFormed (openRequest cfg bytes) lan (topics.take (UInt16.ofNat topics.length).toNat) := by
  unfold sealRequest at h
  split at h
  · cases h
  rename_i req hreq
  obtain ⟨hcount, hbytes⟩ := encodeRegisterRequest_bytes hreq
  refine ⟨hcount, ?_⟩
  rw [openRequest, hkey]
  have hcap : kMaxRegisterTopics = 16374 := rfl
  have hlen : req.length ≤ kMaxDatagramBytes := by
    rw [hbytes, requestBytes_length, kMaxDatagramBytes]
    omega
  rw [← hbytes]
  exact aes256gcmOpen_seal key nonce req h hlen

/-- No ack has a request's length. -/
theorem decodeRegisterRequest_ackBytes (status : UInt8) (peers : List RegisterAckPeer) :
    ∃ e, decodeRegisterRequest (ackBytes status peers) = .error e := by
  have hlen := ackBytes_length status peers
  unfold decodeRegisterRequest
  split
  · exact ⟨_, rfl⟩
  · simp only
    rw [if_pos (by rw [hlen, kRegisterRequestHeaderBytes]; omega)]
    exact ⟨_, rfl⟩

/-- So a sealed ack that is sent back is taken for a malformed request. -/
theorem readRequest_ack {cfg : Config} {key : Key} (hkey : cfg.encryptKey = some key)
    {nonce : Nonce} {peers : List RegisterAckPeer} {bytes : Bytes}
    (h : encodeAck cfg nonce peers = some bytes) : readRequest cfg bytes = none := by
  rw [encodeAck, encodeRegisterAck_cast] at h
  by_cases hfit : peers.length % 65536 ≤ kMaxAckPeers
  · rw [if_pos hfit, hkey] at h
    have hlen := ackBytes_length 0 (peers.take (peers.length % 65536))
    rw [List.length_take, Nat.min_eq_left (Nat.mod_le ..)] at hlen
    have hmax : kMaxAckPeers = 4094 := rfl
    have hopen := aes256gcmOpen_seal key nonce _ h
      (show _ ≤ kMaxDatagramBytes by rw [hlen, kMaxDatagramBytes]; omega)
    obtain ⟨e, he⟩ := decodeRegisterRequest_ackBytes 0 (peers.take (peers.length % 65536))
    rw [readRequest, openRequest, hkey]
    simp only [hopen, he]
  · rw [if_neg hfit] at h
    cases h

/-! ### One act -/

/-- Only a refresh lists a peer that was not listed. -/
theorem listed_of_step {cfg : Config} {turn : Turn} {s : State} {topic : UInt32} {p : PeerEntry}
    (h : (step cfg s turn).1.Listed topic p) : s.Listed topic p ∨ Refreshes cfg turn topic p := by
  cases hreq : turn.request cfg with
  | none =>
    rw [State.Listed, State.peersOf, (step_other s hreq).1] at h
    exact Or.inl ((listed_pruneStale cfg turn.pruneAt s topic p).mp h).1
  | some r =>
    rw [step_request s hreq] at h
    rcases (enroll_listed ..).mp h with hbefore | ⟨hp, hmem⟩
    · exact Or.inl ((listed_pruneStale cfg turn.pruneAt s topic p).mp hbefore).1
    · exact Or.inr ⟨r.1, r.2, hreq, hp.symm, hmem⟩

/-- Only a refresh sets a time. -/
theorem lastSeen_of_step {cfg : Config} {turn : Turn} {s : State} {topic : UInt32} {p : PeerEntry}
    (h : ¬ Refreshes cfg turn topic p) : (step cfg s turn).1.lastSeen[TopicPeer.mk topic p]? =
      (pruneStale cfg turn.pruneAt s).lastSeen[TopicPeer.mk topic p]? := by
  cases hreq : turn.request cfg with
  | none => rw [(step_other s hreq).2.1]
  | some r =>
    rw [step_request s hreq]
    refine (enroll_lastSeen ..).trans (if_neg fun hself => h ?_)
    exact ⟨r.1, r.2, hreq, hself.1.symm, hself.2⟩

/-- What a handled datagram holds. -/
theorem request_some {cfg : Config} {turn : Turn} {src : PeerEntry} {req : DecodedRegisterRequest}
    (h : turn.request cfg = some (src, req)) : ∃ d, turn.datagram = some d ∧ d.src = src ∧
      dispatch cfg.relayMode d.bytes = .registration ∧ readRequest cfg d.bytes = some req := by
  obtain ⟨d, hd, hmap⟩ := Option.bind_eq_some_iff.mp h
  obtain ⟨req', hreq, heq⟩ := Option.map_eq_some_iff.mp hmap
  cases heq
  unfold requestOf at hreq
  split at hreq
  · rename_i hroute
    exact ⟨d, hd, rfl, hroute.2, hreq⟩
  · cases hreq

/-- A request only reads from what opens under the key. -/
theorem readRequest_opens {cfg : Config} {key : Key} (hkey : cfg.encryptKey = some key)
    {bytes : Bytes} {req : DecodedRegisterRequest} (h : readRequest cfg bytes = some req) :
    (aes256gcmOpen key bytes kMaxDatagramBytes).isSome := by
  rw [readRequest, openRequest, hkey] at h
  cases hopen : aes256gcmOpen key bytes kMaxDatagramBytes with
  | none =>
    simp only [hopen] at h
    cases h
  | some plain => rfl

/-- What nodes sent opens as their requests, and what rlcore sealed as no request. -/
structure Keyed (cfg : Config) (n : Net) : Prop where
  sent : ∀ t ∈ n.sent, WellFormed (openRequest cfg t.bytes) t.lan t.topics
  inFlight : ∀ t ∈ n.inFlight, t ∈ n.sent
  acks : ∀ bytes ∈ n.acks, readRequest cfg bytes = none

section
variable {cfg : Config} {key : Key} {n : Net}

theorem keyed_init : Keyed cfg {} where
  sent _ ht := absurd ht List.not_mem_nil
  inFlight _ ht := absurd ht List.not_mem_nil
  acks _ hb := absurd hb List.not_mem_nil

/-- The replies of a turn that handles a request are sealed acks. -/
theorem Keyed.handle (hkey : cfg.encryptKey = some key) (h : Keyed cfg n) (turn : Turn) :
    Keyed cfg (n.handle cfg turn) := by
  refine ⟨h.sent, h.inFlight, fun bytes hb => ?_⟩
  cases hreq : turn.request cfg with
  | none =>
    simp only [Net.handle, hreq, Option.isSome_none, Bool.false_eq_true, if_false] at hb
    exact h.acks bytes hb
  | some r =>
    simp only [Net.handle, hreq, Option.isSome_some, if_true] at hb
    rcases List.mem_append.mp hb with hb | hb
    · exact h.acks bytes hb
    · rw [step_request n.rlcore hreq] at hb
      obtain ⟨send, hsend, hbytes⟩ := List.mem_map.mp hb
      obtain ⟨ack, hack, hpair⟩ := List.mem_map.mp hsend
      subst hpair hbytes
      exact readRequest_ack hkey (Option.mem_toList.mp hack)

theorem Keyed.step (hkey : cfg.encryptKey = some key) (h : Keyed cfg n) {a : Act}
    (hpermitted : Permitted key n a) : Keyed cfg (n.step cfg key a) := by
  cases a with
  | send lan src topics nonce =>
    simp only [Net.step, Net.send]
    cases hseal : sealRequest key nonce lan topics with
    | none => exact h
    | some bytes =>
      refine ⟨fun t ht => ?_, fun t ht => ?_, h.acks⟩
      · rcases List.mem_append.mp ht with ht | ht
        · exact h.sent t ht
        · rw [List.mem_singleton.mp ht]
          exact sealRequest_wellFormed hkey hseal
      · rcases List.mem_append.mp ht with ht | ht
        · exact List.mem_append_left _ (h.inFlight t ht)
        · exact List.mem_append_right _ ht
  | resend t =>
    refine ⟨h.sent, fun t' ht' => ?_, h.acks⟩
    rcases List.mem_append.mp ht' with ht' | ht'
    · exact h.inFlight t' ht'
    · exact List.mem_singleton.mp ht' ▸ hpermitted
  | deliver t pruneAt handleAt nonce =>
    have hrest : Keyed cfg {n with inFlight := n.inFlight.erase t} :=
      ⟨h.sent, fun t' ht' => h.inFlight t' (List.mem_of_mem_erase ht'), h.acks⟩
    exact hrest.handle hkey _
  | inject turn => exact h.handle hkey turn

/-- What a node sent is handled as its request, under its address if it comes from there. -/
theorem Keyed.request_sent (h : Keyed cfg n) {t : Sent} (ht : t ∈ n.sent)
    {req : DecodedRegisterRequest} (hreq : readRequest cfg t.bytes = some req) (src : PeerEntry) :
    req.topics = t.topics ∧ identity cfg src req = if cfg.natMode then src else t.lan := by
  obtain ⟨req', hreq', hself, htopics⟩ := readRequest_wellFormed (h.sent t ht)
  rw [hreq, Option.some.injEq] at hreq'
  subst hreq'
  exact ⟨htopics, by rw [identity, hself]⟩

/-- An injected datagram that is handled is a copy of what a node sent. -/
theorem Keyed.request_injected (hkey : cfg.encryptKey = some key) (h : Keyed cfg n) {turn : Turn}
    (hpermitted : Permitted key n (.inject turn)) {src : PeerEntry} {req : DecodedRegisterRequest}
    (hreq : turn.request cfg = some (src, req)) : ∃ d t, turn.datagram = some d ∧
      dispatch cfg.relayMode d.bytes = .registration ∧ t ∈ n.sent ∧ t.bytes = d.bytes ∧
      req.topics = t.topics ∧ identity cfg src req = if cfg.natMode then src else t.lan := by
  obtain ⟨d, hd, _, hroute, hread⟩ := request_some hreq
  rcases hpermitted d hd (readRequest_opens hkey hread) with ⟨t, ht, hbytes⟩ | hack
  · rw [← hbytes] at hread
    exact ⟨d, t, hd, hroute, ht, hbytes, h.request_sent ht hread _⟩
  · rw [h.acks d.bytes hack] at hread
    cases hread

/-- A node's own datagram refreshes its own address only. -/
theorem Keyed.delivered (h : Keyed cfg n) {t : Sent} (ht : t ∈ n.inFlight)
    {pruneAt handleAt : Time} {nonce : Nonce} {topic : UInt32} {p : PeerEntry}
    (hrefresh : Refreshes cfg ⟨pruneAt, handleAt, nonce, some ⟨t.src, t.bytes⟩⟩ topic p) :
    t.address cfg = p ∧ topic ∈ t.topics := by
  obtain ⟨src, req, hreq, hid, hmem⟩ := hrefresh
  obtain ⟨d, hd, hsrc, _, hread⟩ := request_some hreq
  cases hd
  obtain ⟨htopics, haddr⟩ := h.request_sent (h.inFlight t ht) hread src
  refine ⟨?_, htopics ▸ hmem⟩
  rw [← hid, haddr, Sent.address, ← hsrc]

/-- What an act lists anew is what its turn refreshes. -/
theorem ListedBy.step {R : Sent → PeerEntry → Prop} (h : ListedBy R n) {a : Act}
    (hrefresh : ∀ turn ∈ a.turn, ∀ topic p, Refreshes cfg turn topic p →
      ∃ t ∈ n.sent, R t p ∧ topic ∈ t.topics) : ListedBy R (n.step cfg key a) := by
  intro topic p hlisted
  cases a with
  | send lan src topics nonce =>
    simp only [Net.step, Net.send] at hlisted ⊢
    cases hseal : sealRequest key nonce lan topics with
    | none =>
      rw [hseal] at hlisted
      exact h topic p hlisted
    | some bytes =>
      rw [hseal] at hlisted
      obtain ⟨t, ht, hp⟩ := h topic p hlisted
      exact ⟨t, List.mem_append_left _ ht, hp⟩
  | resend t => exact h topic p hlisted
  | deliver t pruneAt handleAt nonce =>
    exact (listed_of_step hlisted).elim (h topic p) (hrefresh _ rfl topic p)
  | inject turn => exact (listed_of_step hlisted).elim (h topic p) (hrefresh _ rfl topic p)

/-- Without a replay, what an act refreshes is its own sender's. -/
theorem refreshed_by_sender (hkey : cfg.encryptKey = some key) (h : Keyed cfg n) {a : Act}
    (hpermitted : Permitted key n a) (hunreplayed : Unreplayed cfg n a) {turn : Turn}
    (hturn : turn ∈ a.turn) {topic : UInt32} {p : PeerEntry} (hrefresh : Refreshes cfg turn topic p) :
    ∃ t ∈ n.sent, t ∈ a.delivered ∧ t.address cfg = p ∧ topic ∈ t.topics := by
  cases a with
  | send lan src topics nonce => cases hturn
  | resend t => cases hturn
  | deliver t pruneAt handleAt nonce =>
    cases hturn
    exact ⟨t, h.inFlight t hpermitted, rfl, h.delivered hpermitted hrefresh⟩
  | inject turn =>
    -- nothing injected names a topic
    cases hturn
    obtain ⟨src, req, hreq, _, hmem⟩ := hrefresh
    obtain ⟨d, t, hd, hroute, ht, hbytes, htopics, _⟩ := h.request_injected hkey hpermitted hreq
    rw [htopics, hunreplayed d hd hroute t ht hbytes] at hmem
    cases hmem

theorem authentic_of_unreplayed (hkey : cfg.encryptKey = some key) (h : Keyed cfg n)
    (hholders : OnlyHolders cfg n) {a : Act} (hpermitted : Permitted key n a)
    (hunreplayed : Unreplayed cfg n a) : Authentic cfg key n a := by
  refine ⟨ListedBy.step hholders fun turn hturn topic p hrefresh => ?_,
    fun turn hturn topic p hrefresh => ?_⟩
  · obtain ⟨t, ht, _, hp⟩ := refreshed_by_sender hkey h hpermitted hunreplayed hturn hrefresh
    exact ⟨t, ht, hp⟩
  · obtain ⟨t, _, ht, hp⟩ := refreshed_by_sender hkey h hpermitted hunreplayed hturn hrefresh
    exact ⟨t, ht, hp⟩

theorem unreplayed_of_authentic (h : Keyed cfg n) {a : Act} (hauthentic : Authentic cfg key n a) :
    Unreplayed cfg n a := by
  cases a with
  | inject turn =>
    intro d hd hroute t ht hbytes
    by_contra hne
    obtain ⟨topic, hmem⟩ := List.exists_mem_of_ne_nil _ hne
    obtain ⟨req, hread, _, htopics⟩ := readRequest_wellFormed (h.sent t ht)
    have hreq : turn.request cfg = some (d.src, req) := by
      rw [Turn.request, Option.mem_def.mp hd, Option.bind_some, requestOf,
        if_pos ⟨hbytes ▸ bytes_ne_nil (h.sent t ht), hroute⟩, ← hbytes, hread, Option.map_some]
    obtain ⟨t', ht', _⟩ := hauthentic.2 turn rfl topic (identity cfg d.src req)
      ⟨d.src, req, hreq, rfl, htopics ▸ hmem⟩
    cases ht'
  | _ => trivial

end

/-! ### Every run -/

theorem listedBy_init (R : Sent → PeerEntry → Prop) : ListedBy R {} := by
  intro topic p h
  simp [State.Listed, State.peersOf] at h

/-- **Only key holders get into the table exactly when** none of their requests is sent
again by another, in every run against a network that cannot forge. -/
theorem only_key_holders_iff (cfg : Config) (key : Key) (hkey : cfg.encryptKey = some key)
    (acts : List Act) (hpermitted : Throughout (Net.step cfg key) (Permitted key) {} acts) :
    Throughout (Net.step cfg key) (Authentic cfg key) {} acts ↔
      Throughout (Net.step cfg key) (Unreplayed cfg) {} acts := by
  refine Throughout.congr (fun n => Keyed cfg n ∧ OnlyHolders cfg n) (fun n a h hp => ?_)
    (fun n a h hp hu => ?_) ⟨keyed_init, listedBy_init _⟩ hpermitted
  · exact ⟨unreplayed_of_authentic h.1, authentic_of_unreplayed hkey h.1 h.2 hp⟩
  · exact ⟨h.1.step hkey hp, (authentic_of_unreplayed hkey h.1 h.2 hp hu).1⟩

/-! One node and its request. -/

def testKey : Key := Vector.replicate 32 0

def testNonce : Nonce := Vector.replicate 12 0

/-- A daemon with a key, with or without `--nat`. -/
def keyedDaemon (nat : Bool) : Config := ⟨nat, nat, some testKey, fun h => h⟩

def asked : Sent :=
  ⟨⟨3, 4⟩, ⟨3, 4⟩, [7], (sealRequest testKey testNonce ⟨3, 4⟩ [7]).getD []⟩

theorem asked_sealed : sealRequest testKey testNonce ⟨3, 4⟩ [7] = some asked.bytes ∧
    asked.bytes.take 12 = testNonce.toList ∧ asked.bytes.length = 40 := by
  obtain ⟨blob, hblob, hlen, hhead⟩ :=
    aes256gcmSeal_some testKey testNonce (requestBytes 3 4 [7]) (show _ ≤ kMaxDatagramBytes by decide)
  have hseal : sealRequest testKey testNonce ⟨3, 4⟩ [7] = some blob := hblob
  have hbytes : asked.bytes = blob := by rw [asked, hseal, Option.getD_some]
  rw [hbytes]
  exact ⟨hseal, hhead, by rw [hlen]; decide⟩

/-- The node asks for topic 7, and rlcore gets the request. -/
def asks : List Act := [.send ⟨3, 4⟩ ⟨3, 4⟩ [7] testNonce, .deliver asked 0 0 testNonce]

theorem sends_asked (nat : Bool) :
    Net.step (keyedDaemon nat) testKey {} (.send ⟨3, 4⟩ ⟨3, 4⟩ [7] testNonce) =
      {sent := [asked], inFlight := [asked]} := by
  simp only [Net.step, Net.send, asked_sealed.1]
  rfl

theorem asks_permitted (nat : Bool) :
    Throughout (Net.step (keyedDaemon nat) testKey) (Permitted testKey) {} asks := by
  refine ⟨trivial, ?_, trivial⟩
  rw [sends_asked]
  exact List.mem_singleton_self asked

theorem only_key_holders_iff_alone :
    Throughout (Net.step (keyedDaemon true) testKey) (Authentic (keyedDaemon true) testKey) {} asks ↔
      Throughout (Net.step (keyedDaemon true) testKey) (Unreplayed (keyedDaemon true)) {} asks :=
  only_key_holders_iff (keyedDaemon true) testKey rfl asks (asks_permitted true)

/-- The request again, a second later and from another address. -/
def replayed : Act := .inject ⟨1, 1, testNonce, some ⟨⟨9, 9⟩, asked.bytes⟩⟩

/-- The nonce spells no magic, so the blob goes to registration. -/
theorem asked_dispatch (relayMode : Bool) : dispatch relayMode asked.bytes = .registration := by
  obtain ⟨_, hhead, hlen⟩ := asked_sealed
  have htake : asked.bytes.take 4 = [0, 0, 0, 0] := by
    rw [show asked.bytes.take 4 = (asked.bytes.take 12).take 4 by rw [List.take_take]; rfl, hhead]
    rfl
  have hfirst : asked.bytes.getD 0 0 = 0 := by
    rw [show asked.bytes.getD 0 0 = (asked.bytes.take 12).getD 0 0 by cases asked.bytes <;> rfl, hhead]
    rfl
  rw [dispatch_registration_iff relayMode _ (by omega), htake, hfirst]
  exact ⟨by decide, fun h => absurd h.2.2 (by decide)⟩

theorem replay_accepted (nat : Bool) :
    Throughout (Net.step (keyedDaemon nat) testKey) (Permitted testKey) {} (asks ++ [replayed]) ∧
      ¬ Throughout (Net.step (keyedDaemon nat) testKey) (Authentic (keyedDaemon nat) testKey) {}
        (asks ++ [replayed]) := by
  have hsent : asked ∈ (asks.foldl (Net.step (keyedDaemon nat) testKey) {}).sent := by
    rw [asks, List.foldl_cons, sends_asked]
    exact List.mem_singleton_self asked
  have hkeyed : Keyed (keyedDaemon nat) (asks.foldl (Net.step (keyedDaemon nat) testKey) {}) := by
    have hinit : Keyed (keyedDaemon nat) {} := keyed_init
    have hfirst := hinit.step rfl (asks_permitted nat).1
    exact hfirst.step rfl (asks_permitted nat).2.1
  constructor
  · refine Throughout.append.mpr ⟨asks_permitted nat, fun d hd _ => Or.inl ⟨asked, hsent, ?_⟩, trivial⟩
    cases hd
    rfl
  · intro h
    have hunreplayed := unreplayed_of_authentic hkeyed (Throughout.append.mp h).2.1
    have hempty := hunreplayed _ rfl (asked_dispatch _) asked hsent rfl
    cases hempty

/-- A copy of a sealed request is taken for one of the node's own, with and without `--nat`. -/
theorem replay_refreshes :
    (Throughout (Net.step (keyedDaemon true) testKey) (Permitted testKey) {} (asks ++ [replayed]) ∧
      ¬ Throughout (Net.step (keyedDaemon true) testKey) (Authentic (keyedDaemon true) testKey) {}
        (asks ++ [replayed])) ∧
    (Throughout (Net.step (keyedDaemon false) testKey) (Permitted testKey) {} (asks ++ [replayed]) ∧
      ¬ Throughout (Net.step (keyedDaemon false) testKey) (Authentic (keyedDaemon false) testKey) {}
        (asks ++ [replayed])) :=
  ⟨replay_accepted true, replay_accepted false⟩

/-- Even with replays, an entry goes back to a sealed request that names its topic, and
without `--nat` it is under the address that request reports. -/
theorem listed_was_sealed (cfg : Config) (key : Key) (hkey : cfg.encryptKey = some key)
    (acts : List Act) (hpermitted : Throughout (Net.step cfg key) (Permitted key) {} acts) :
    Throughout (Net.step cfg key)
      (fun n _ => ListedBy (fun t p => cfg.natMode = false → t.lan = p) n) {} acts := by
  refine Throughout.of_invariant
    (fun n => Keyed cfg n ∧ ListedBy (fun t p => cfg.natMode = false → t.lan = p) n)
    (fun n a h _ => h.2) (fun n a h hp => ⟨h.1.step hkey hp, h.2.step fun turn hturn topic p hrefresh => ?_⟩)
    ⟨keyed_init, listedBy_init _⟩ hpermitted
  cases a with
  | send lan src topics nonce => cases hturn
  | resend t => cases hturn
  | deliver t pruneAt handleAt nonce =>
    cases hturn
    obtain ⟨haddr, hmem⟩ := h.1.delivered hp hrefresh
    refine ⟨t, h.1.inFlight t hp, fun hnat => ?_, hmem⟩
    rw [← haddr, Sent.address, hnat]
    rfl
  | inject turn =>
    cases hturn
    obtain ⟨src, req, hreq, hid, hmem⟩ := hrefresh
    obtain ⟨_, t, _, _, ht, _, htopics, haddr⟩ := h.1.request_injected hkey hp hreq
    refine ⟨t, ht, fun hnat => ?_, htopics ▸ hmem⟩
    rw [← hid, haddr, hnat]
    rfl

end Relink.Rlcore
