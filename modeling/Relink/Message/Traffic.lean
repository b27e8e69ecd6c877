import Relink.Discovery.Names
import Relink.Message.Delivery
import Relink.Rlcore.Fleet

/-! Traffic of a fleet.

When the nodes know each other they publish to each other, and punch each other's mappings from
the same sockets. The network may lose packets and deliver them in any order, while the
re-registration loops go on, and still what arrived at a port, what is on its way there and what was
lost come to what the other nodes published on its topic, message by message: none comes twice, none
comes from elsewhere, and none gets to its own publisher. Of what arrived a callback is given all
but what the duplicate test takes for a repetition. -/
namespace Relink.Message
open Wire Transport Transition
open Discovery (kNatPunchTopicId)
open Rlcore (Fleet Site SiteEvent Group Build PeerEntry Time)

/-! ### Ports -/

/-- The receiving half of a transport, in its node's build, until an exception ends its thread. -/
inductive Receiver (H : Type) where
  | cpp (t : UdpTransport H)
  | py (t : Transport.Py.Receiver H)
  | ended

section
variable {H : Type} (callback : H → Bytes → H)

/-- The handler of a raw subscription, whose callback returns. -/
def handle {F : Type} (h : H) (payload : Bytes) : Except F (H × Unit) := .ok (callback h payload, ())

def Receiver.receive : Receiver H → Bytes → Receiver H
  | .cpp t, datagram => match recvAndDispatch (F := Empty) (handle callback) t datagram with
    | .ok r => .cpp r.1
  | .py t, datagram => match Transport.Py.recvAndDispatch id (handle callback) t datagram with
    | .ok r => .py r.1
    | .error _ => .ended
  | .ended, _ => .ended

/-- What the topic's handler closes over, while there is a thread to call it. -/
def Receiver.handler (r : Receiver H) (topic : UInt32) : Option H :=
  match r with
  | .cpp t => t.handlers[topic]?
  | .py t => t.handlers[topic]?
  | .ended => none

/-- `subscribe_raw`, topic by topic, of a transport that `ensure_started` has armed. -/
def Receiver.subscribed (build : Build) (subs : List (UInt32 × H)) : Receiver H :=
  match build with
  | .cpp => .cpp (subs.foldl (fun t sub => setTopicHandler t sub.1 sub.2) (enableRelayDedup {}))
  | .python => .py (subs.foldl (fun t sub => Transport.Py.setTopicHandler t sub.1 sub.2)
      (Transport.Py.enableRelayDedup {}))

end

/-- `publish_raw` of the Python node. -/
def Py.publishRaw (accepts : Nat → Bool) (d : Destinations) (t : Outgoing) (payload : Bytes) :
    Outgoing × Bool :=
  let send := fun t peer => publishRawTo accepts t d.topicId payload peer
  let direct := sendAll (fun t' peer => send t' peer t.seqCounter)
    ({t with seqCounter := t.seqCounter + 1}, true) d.peers
  let relay := match d.relay with
    | some peer => send direct.1 peer t.seqCounter
    | none => (direct.1, false)
  (relay.1, (direct.2 && !d.peers.isEmpty) || relay.2)

theorem Py.publishRaw_eq : Py.publishRaw = Transport.publishRaw := by
  funext accepts d t payload
  unfold Py.publishRaw Transport.publishRaw publishFrame
  rewrite [Py.publishRawTo_eq]
  rfl

def publishRawOf (build : Build) (accepts : Nat → Bool) (d : Destinations) (t : Outgoing)
    (payload : Bytes) : Outgoing × Bool :=
  match build with
  | .cpp => Transport.publishRaw accepts d t payload
  | .python => Py.publishRaw accepts d t payload

/-- One of the datagrams of a punch: an empty message with a number of its own. -/
def natPunchOf (build : Build) (accepts : Nat → Bool) (peer : PeerAddr) (t : Outgoing) :
    Outgoing × Bool :=
  let drawn := {t with seqCounter := t.seqCounter + 1}
  match build with
  | .cpp => Transport.publishRawTo accepts drawn kNatPunchTopicId [] peer t.seqCounter
  | .python => Py.publishRawTo accepts drawn kNatPunchTopicId [] peer t.seqCounter

/-! ### The network -/

structure Packet where
  dest : PeerAddr
  bytes : Bytes
deriving DecidableEq

/-- A group's transport. -/
structure Port (H : Type) where
  out : Outgoing
  receiver : Receiver H

/-- A fleet with its transports, and the packets that are on their way, and that are lost. -/
structure Network (ι H : Type) where
  site : Site ι
  port : ι → Group → Port H
  flight : List Packet := []
  lost : List Packet := []

inductive NetworkEvent (ι : Type) where
  /-- The daemon and the loops of the nodes. -/
  | control (e : SiteEvent ι)
  /-- A node's call, and what the kernel says to each send. -/
  | publish (i : ι) (g : Group) (topic : UInt32) (payload : Bytes) (accepts : Nat → Bool)
  | punch (i : ι) (g : Group) (peer : PeerAddr) (accepts : Nat → Bool)
  | arrive (i : ι) (g : Group) (p : Packet)
  | lose (p : Packet)

def address (p : PeerEntry) : PeerAddr := ⟨p.ip, p.port⟩

def packetOf (c : Sent) : Packet := ⟨c.dest, c.frame⟩

namespace Network
variable {ι H : Type} (F : Fleet ι)

/-- Nodes that subscribe, and then begin to publish. What their transports sent before has drawn
some numbers. -/
def start (site : Site ι) (counters : ι → Group → UInt16) (subs : ι → Group → List (UInt32 × H)) :
    Network ι H where
  site := site
  port i g := ⟨{seqCounter := counters i g}, Receiver.subscribed (F.build i) (subs i g)⟩

/-- `peers_` of a topic; no relay is enabled. -/
def dests (n : Network ι H) (i : ι) (topic : UInt32) : Destinations :=
  ⟨topic, ((n.site.node i).peers.getD topic []).map address, none⟩

/-- The events of the fleet are as they were; topics are published by the group that declared
them; a packet goes to the port that it is addressed to, or is lost. -/
def Allowed (n : Network ι H) : NetworkEvent ι → Prop
  | .control e => F.Allowed n.site e
  | .publish i g topic _ _ => g ∈ F.groups i ∧ topic ∈ g.topics
  | .punch .. => True
  | .arrive i g p => p ∈ n.flight ∧ g ∈ F.groups i ∧ p.dest = address (g.registrant F.cfg)
  | .lose p => p ∈ n.flight

instance (n : Network ι H) (e : NetworkEvent ι) : Decidable (Allowed F n e) :=
  match e with
  | .control e => inferInstanceAs (Decidable (F.Allowed n.site e))
  | .publish i g topic _ _ => inferInstanceAs (Decidable (g ∈ F.groups i ∧ topic ∈ g.topics))
  | .punch .. => .isTrue trivial
  | .arrive i g p => inferInstanceAs (Decidable
      (p ∈ n.flight ∧ g ∈ F.groups i ∧ p.dest = address (g.registrant F.cfg)))
  | .lose p => inferInstanceAs (Decidable (p ∈ n.flight))

variable [DecidableEq ι]

def setPort (n : Network ι H) (i : ι) (g : Group) (port : Port H) : Network ι H :=
  {n with port := Function.update n.port i (Function.update (n.port i) g port)}

/-- What a transport has sent. What the kernel does not accept is lost. -/
def sent (n : Network ι H) (i : ι) (g : Group) (out : Outgoing) : Network ι H :=
  let copies := out.sent.drop (n.port i g).out.sent.length
  { n.setPort i g {n.port i g with out := out} with
    flight := n.flight ++ (copies.filter Sent.accepted).map packetOf
    lost := n.lost ++ (copies.filter fun c => !c.accepted).map packetOf }

def step (callback : H → Bytes → H) (n : Network ι H) : NetworkEvent ι → Network ι H
  | .control e => {n with site := F.step n.site e}
  | .publish i g topic payload accepts =>
    n.sent i g (publishRawOf (F.build i) accepts (n.dests i topic) (n.port i g).out payload).1
  | .punch i g peer accepts => n.sent i g (natPunchOf (F.build i) accepts peer (n.port i g).out).1
  | .arrive i g p =>
    let port := n.port i g
    { n.setPort i g {port with receiver := port.receiver.receive callback p.bytes} with
      flight := n.flight.erase p }
  | .lose p => {n with flight := n.flight.erase p, lost := n.lost ++ [p]}

def run (callback : H → Bytes → H) (n : Network ι H) (events : List (NetworkEvent ι)) :
    Network ι H := events.foldl (step F callback) n

end Network

/-! ### What is counted -/

/-- The topic's messages among packets to an address, with their numbers. -/
def messagesTo (dest : PeerAddr) (topic : UInt32) (packets : List Packet) :
    List (UInt16 × Bytes) :=
  packets.filterMap fun p => if p.dest = dest then frameOn topic p.bytes else none

section
variable {ι H : Type} [DecidableEq ι]

/-- What the other nodes publish on the topic; a payload over the budget is refused. -/
def publishedToOthers (i : ι) (topic : UInt32) (n : Network ι H) :
    NetworkEvent ι → Option (UInt16 × Bytes)
  | .publish j g topic' payload _ =>
    if j ≠ i ∧ topic' = topic ∧ payload.length ≤ kMaxPayloadBytes
    then some ((n.port j g).out.seqCounter, payload) else none
  | _ => none

/-- What arrives at a port. -/
def arrivedAt (i : ι) (g : Group) : NetworkEvent ι → Option Bytes
  | .arrive j g' p => if j = i ∧ g' = g then some p.bytes else none
  | _ => none

/-- The messages of a topic that arrive there. -/
def arrivedOn (i : ι) (g : Group) (topic : UInt32) (e : NetworkEvent ι) : Option (UInt16 × Bytes) :=
  (arrivedAt i g e).bind (frameOn topic)

/-- The numbers that a port's transport draws. -/
def drawn (j : ι) (g : Group) : NetworkEvent ι → Nat
  | .publish j' g' .. => if j' = j ∧ g' = g then 1 else 0
  | .punch j' g' .. => if j' = j ∧ g' = g then 1 else 0
  | _ => 0

/-- The other nodes' messages on the topic come from one port. -/
def ComesFrom (i : ι) (topic : UInt32) (j : ι) (g : Group) : NetworkEvent ι → Prop
  | .publish j' g' topic' _ _ => j' ≠ i → topic' = topic → j' = j ∧ g' = g
  | _ => True

end

/-! ### One port -/

section
variable {H : Type} {callback : H → Bytes → H} {installed : UInt32 → Option H} {came : List Bytes}

/-- What the receiver has made of what came, where a Python receiver is as a C++ one could be. -/
def Receiver.Heard (callback : H → Bytes → H) (installed : UInt32 → Option H) (came : List Bytes) :
    Receiver H → Prop
  | .cpp t => Transport.Heard true callback installed came t
  | .py p => ∃ t, MoreQueued t p ∧ Transport.Heard true callback installed came t
  | .ended => False

theorem Receiver.Heard.handler {r : Receiver H} (h : r.Heard callback installed came)
    (topic : UInt32) : r.handler topic = (installed topic).map fun h =>
      (passed true Prod.fst (came.filterMap (frameOn topic))).foldl (fun h f => callback h f.2) h := by
  cases r with
  | ended => exact h.elim
  | cpp t => exact h.handlers topic
  | py p =>
    obtain ⟨t, hsame, hheard⟩ := h
    rw [Receiver.handler, hsame.handlers]
    exact hheard.handlers topic

theorem subscribed_heard (callback : H → Bytes → H) (build : Build) (subs : List (UInt32 × H)) :
    (Receiver.subscribed build subs).Heard callback (Receiver.subscribed build subs).handler [] := by
  have hstart : Remembered (enableRelayDedup ({} : UdpTransport H)) fun _ => [] :=
    remembered_unasked (enableRelayDedup ({} : UdpTransport H))
  cases build with
  | cpp =>
    refine foldl_invariant (fun t : UdpTransport H =>
      Receiver.Heard callback (Receiver.handler (.cpp t)) [] (.cpp t)) (fun _ => True) _ ?_ subs _ ?_
      fun _ _ => trivial
    · intro t sub h _
      have hstep := heard_start (t := setTopicHandler t sub.1 sub.2) callback h.windows
      rwa [show (setTopicHandler t sub.1 sub.2).relayDedupEnabled = true from h.enabled] at hstep
    · exact heard_start (t := enableRelayDedup {}) callback hstart
  | python =>
    refine foldl_invariant (fun p : Transport.Py.Receiver H =>
      Receiver.Heard callback (Receiver.handler (.py p)) [] (.py p)) (fun _ => True) _ ?_ subs _ ?_
      fun _ _ => trivial
    · rintro p sub ⟨t, hsame, h⟩ _
      have hsame' := hsame.setTopicHandler sub.1 sub.2
      have hstep := heard_start (t := setTopicHandler t sub.1 sub.2) callback h.windows
      rw [show (setTopicHandler t sub.1 sub.2).relayDedupEnabled = true from h.enabled,
        ← hsame'.handlers] at hstep
      exact ⟨_, hsame', hstep⟩
    · have hsame : MoreQueued (enableRelayDedup ({} : UdpTransport H))
          (Transport.Py.enableRelayDedup {}) :=
        (SameState.start (List.Sublist.refl [])).enableRelayDedup
      exact ⟨_, hsame, heard_start (t := enableRelayDedup {}) callback hstart⟩

theorem handle_returns {F : Type} (callback : H → Bytes → H) (h : H) (payload : Bytes) :
    ∃ o, handle (F := F) callback h payload = .ok (callback h payload, o) := ⟨(), rfl⟩

theorem Receiver.Heard.receive {r : Receiver H} (h : r.Heard callback installed came)
    (bytes : Bytes) : (r.receive callback bytes).Heard callback installed (came ++ [bytes]) := by
  cases r with
  | ended => exact h.elim
  | cpp t =>
    obtain ⟨t', o, hrecv, hheard⟩ :=
      Transport.Heard.datagram h (handle_returns (F := Empty) callback) bytes
    rw [Receiver.receive, hrecv]
    exact hheard
  | py p =>
    obtain ⟨t, hsame, h⟩ := h
    obtain ⟨t', o, hrecv, hheard⟩ :=
      h.datagram (handle_returns (F := Wire.Py.Exn) callback) bytes
    have halike := hsame.datagram id (handle callback) bytes fun _ =>
      handedOff_sublist t bytes hsame.queue
    simp only [next, hrecv, Except.map, Transport.Py.next] at halike
    rw [Receiver.receive]
    generalize Transport.Py.recvAndDispatch id (handle callback) p bytes = y at halike ⊢
    cases y with
    | error e => cases halike
    | ok q =>
      simp only at halike
      generalize o.seen = seen, q.2.seen = seen' at halike
      cases halike with
      | ok _ hsame' => exact ⟨t', hsame', hheard⟩

end

/-! ### Packets -/

theorem frameOn_frameBytes {payload : Bytes} (hfits : payload.length ≤ kMaxPayloadBytes)
    (topic topic' : UInt32) (seq : UInt16) :
    frameOn topic (frameBytes topic' seq payload) =
      if topic' = topic then some (seq, payload) else none := by
  have hlen : payload.length < 65536 := Nat.lt_of_le_of_lt hfits (by decide)
  rw [frameOn, decodeFrame_frameBytes topic' seq payload hlen]

section
variable (dest : PeerAddr) (topic : UInt32)

theorem messagesTo_append (ps qs : List Packet) :
    messagesTo dest topic (ps ++ qs) = messagesTo dest topic ps ++ messagesTo dest topic qs :=
  List.filterMap_append

theorem messagesTo_perm {ps qs : List Packet} (h : ps.Perm qs) :
    (messagesTo dest topic ps).Perm (messagesTo dest topic qs) := h.filterMap _

/-- A packet that leaves. -/
theorem messagesTo_erase {ps : List Packet} {p : Packet} (h : p ∈ ps) :
    (messagesTo dest topic [p] ++ messagesTo dest topic (ps.erase p)).Perm
      (messagesTo dest topic ps) := by
  rw [← messagesTo_append]
  exact messagesTo_perm dest topic (List.perm_cons_erase h).symm

/-- Copies of one message, to different destinations. -/
theorem messagesTo_copies {payload : Bytes} (hfits : payload.length ≤ kMaxPayloadBytes)
    {topic' : UInt32} {seq : UInt16} {copies : List Sent} (hnodup : (copies.map Sent.dest).Nodup)
    (hframes : ∀ c ∈ copies, c.frame = frameBytes topic' seq payload) :
    messagesTo dest topic (copies.map packetOf) =
      if topic' = topic ∧ dest ∈ copies.map Sent.dest then [(seq, payload)] else [] := by
  induction copies with
  | nil =>
    rw [if_neg fun h => absurd h.2 List.not_mem_nil]
    rfl
  | cons c rest ih =>
    rw [List.map_cons, List.nodup_cons] at hnodup
    rw [List.forall_mem_cons] at hframes
    have hrest := ih hnodup.2 hframes.2
    rw [List.map_cons, ← List.singleton_append, messagesTo_append, hrest]
    have hone : messagesTo dest topic [packetOf c] =
        if topic' = topic ∧ dest = c.dest then [(seq, payload)] else [] := by
      have hframe := frameOn_frameBytes hfits topic topic' seq
      rw [← hframes.1] at hframe
      by_cases hdest : c.dest = dest
      · by_cases htopic : topic' = topic <;> simp [messagesTo, packetOf, hframe, hdest, htopic]
      · simp [messagesTo, packetOf, hdest, Ne.symm hdest]
    rw [hone]
    by_cases hdest : dest = c.dest
    · subst hdest
      by_cases htopic : topic' = topic <;> simp [hnodup.1, htopic]
    · simp [hdest]

end

theorem publishRawOf_eq (build : Build) (accepts : Nat → Bool) (d : Destinations) (t : Outgoing)
    (payload : Bytes) : publishRawOf build accepts d t payload = publishFrame accepts d true t payload := by
  cases build with
  | cpp => rfl
  | python =>
    rw [publishRawOf, Py.publishRaw_eq]
    rfl

theorem natPunchOf_eq (build : Build) (accepts : Nat → Bool) (peer : PeerAddr) (t : Outgoing) :
    natPunchOf build accepts peer t = sendTo accepts {t with seqCounter := t.seqCounter + 1} peer
      (frameBytes kNatPunchTopicId t.seqCounter []) := by
  have hcpp : natPunchOf build accepts peer t = Transport.publishRawTo accepts
      {t with seqCounter := t.seqCounter + 1} kNatPunchTopicId [] peer t.seqCounter := by
    cases build with
    | cpp => rfl
    | python => rw [natPunchOf, Py.publishRawTo_eq]
  rw [hcpp, publishRawTo, encodeFrame_ok kNatPunchTopicId t.seqCounter [] (Nat.zero_le _)]

/-- What a call sends: a copy to each peer, unless the payload is over the budget. -/
theorem publishRawOf_sent (build : Build) (accepts : Nat → Bool) (topic : UInt32)
    (peers : List PeerAddr) (t : Outgoing) (payload : Bytes) :
    ∃ copies, (publishRawOf build accepts ⟨topic, peers, none⟩ t payload).1.sent = t.sent ++ copies ∧
      if payload.length ≤ kMaxPayloadBytes then copies.map Sent.dest = peers ∧
        ∀ c ∈ copies, c.frame = frameBytes topic t.seqCounter payload
      else copies = [] := by
  rw [publishRawOf_eq]
  split
  · next hfits =>
    obtain ⟨copies, hsent, hdests, hframes, -⟩ :=
      publishFrame_sent accepts ⟨topic, peers, none⟩ hfits true t
    refine ⟨copies, hsent, ?_, hframes⟩
    rw [hdests]
    exact List.append_nil peers
  · next hlong =>
    rw [publishFrame_refused accepts _ (Nat.lt_of_not_le hlong)]
    exact ⟨[], (List.append_nil _).symm, rfl⟩

/-- A call draws one number, whatever it sends. -/
theorem publishRawOf_counter (build : Build) (accepts : Nat → Bool) (topic : UInt32)
    (peers : List PeerAddr) (t : Outgoing) (payload : Bytes) :
    (publishRawOf build accepts ⟨topic, peers, none⟩ t payload).1.seqCounter = t.seqCounter + 1 := by
  have hsend : ∀ (t' : Outgoing) (peer : PeerAddr),
      (publishRawTo accepts t' topic payload peer t.seqCounter).1.seqCounter = t'.seqCounter := by
    intro t' peer
    unfold publishRawTo
    split <;> rfl
  rw [publishRawOf_eq]
  show (sendAll (fun t' peer => publishRawTo accepts t' topic payload peer t.seqCounter)
    ({t with seqCounter := t.seqCounter + 1}, true) peers).1.seqCounter = _
  unfold sendAll
  refine foldl_invariant (fun r : Outgoing × Bool => r.1.seqCounter = t.seqCounter + 1)
    (fun _ => True) _ (fun r peer hr _ => ?_) peers _ rfl fun _ _ => trivial
  exact (hsend r.1 peer).trans hr

/-! ### A fleet that has found itself -/

section
variable {ι : Type} {F : Fleet ι} {site : Site ι}

/-- Each group is reached at one address: that under which rlcore lists it. -/
def Direct (F : Fleet ι) : Prop :=
  ∀ i, ∀ g ∈ F.groups i, g.lan.ip = 0 ∨ g.lan = g.registrant F.cfg

instance [Fintype ι] (F : Fleet ι) : Decidable (Direct F) :=
  inferInstanceAs (Decidable (∀ i, ∀ g ∈ F.groups i, _))

theorem Direct.reaches (h : Direct F) {i : ι} {g : Group} (hg : g ∈ F.groups i) {addr : PeerEntry}
    (haddr : F.Reaches g addr) : addr = g.registrant F.cfg := by
  rcases haddr with haddr | ⟨hlan, haddr⟩
  · exact haddr
  · exact haddr.trans ((h i g hg).resolve_left hlan)

/-- Every node knows the others on its topics. -/
structure Converged (F : Fleet ι) (site : Site ι) : Prop where
  inv : Fleet.Inv F site
  knows : ∀ j, ∀ g ∈ F.groups j, ∀ topic ∈ g.topics, Fleet.KnowsAll F site j topic

theorem Converged.step [DecidableEq ι] (h : Converged F site) {e : SiteEvent ι}
    (hallowed : F.Allowed site e) : Converged F (F.step site e) :=
  ⟨h.inv.step hallowed, fun j g hg topic htopic => (h.knows j g hg topic htopic).step e⟩

theorem address_injective : Function.Injective address := by
  rintro ⟨ip, port⟩ ⟨ip', port'⟩ h
  cases h
  rfl

/-- A publisher knows a group of another node by its address, and none of its own. -/
theorem Converged.mem_peers (h : Converged F site) (hdirect : Direct F) {i j : ι} {g g' : Group}
    {topic : UInt32} (hg : g ∈ F.groups i) (htopic : topic ∈ g.topics) (hg' : g' ∈ F.groups j)
    (htopic' : topic ∈ g'.topics) :
    address (g.registrant F.cfg) ∈ ((site.node j).peers.getD topic []).map address ↔ j ≠ i := by
  rw [List.mem_map_of_injective address_injective]
  constructor
  · rintro hmem rfl
    obtain ⟨i, hij, g'', hg'', -, haddr⟩ := h.inv.known j topic _ hmem
    exact hij (F.apart hg hg'' (hdirect.reaches hg'' haddr)).1.symm
  · intro hji
    exact h.knows j g' hg' topic htopic' i hji.symm _ ⟨g, hg, htopic, Or.inl rfl⟩

/-- It knows each of them once. -/
theorem Converged.once (h : Converged F site) (hdirect : Direct F) (j : ι) (topic : UInt32) :
    (((site.node j).peers.getD topic []).map address).Nodup :=
  (h.inv.once j topic (Fleet.offersApart_of_reaches (fun _ _ hg _ => hdirect.reaches hg) topic)).map
    address_injective

end

/-! ### One event -/

namespace Network
variable {ι H : Type} [DecidableEq ι] {F : Fleet ι} {callback : H → Bytes → H} {n : Network ι H}

theorem setPort_port (n : Network ι H) (i j : ι) (g g' : Group) (port : Port H) :
    (n.setPort j g' port).port i g = if j = i ∧ g' = g then port else n.port i g := by
  unfold setPort
  by_cases hji : j = i
  · subst hji
    by_cases hgg : g' = g
    · subst hgg
      simp
    · simp [Function.update_of_ne (Ne.symm hgg), hgg]
  · simp [Function.update_of_ne (Ne.symm hji), hji]

theorem sent_port (n : Network ι H) (i j : ι) (g g' : Group) (out : Outgoing) :
    (n.sent j g' out).port i g =
      if j = i ∧ g' = g then {n.port i g with out := out} else n.port i g := by
  refine (setPort_port n i j g g' _).trans ?_
  split
  · next hhere =>
    obtain ⟨rfl, rfl⟩ := hhere
    rfl
  · rfl

/-- A port's receiver changes when a packet arrives there. -/
theorem step_receiver (n : Network ι H) (e : NetworkEvent ι) (i : ι) (g : Group) :
    ((step F callback n e).port i g).receiver =
      (arrivedAt i g e).elim (n.port i g).receiver ((n.port i g).receiver.receive callback) := by
  cases e with
  | control e => rfl
  | lose p => rfl
  | publish j g' topic payload accepts =>
    simp only [step, sent_port]
    split <;> rfl
  | punch j g' peer accepts =>
    simp only [step, sent_port]
    split <;> rfl
  | arrive j g' p =>
    simp only [step, setPort_port, arrivedAt]
    split
    · next hhere =>
      obtain ⟨rfl, rfl⟩ := hhere
      rfl
    · rfl

/-- Its counter moves by the numbers that are drawn there. -/
theorem step_counter (n : Network ι H) (e : NetworkEvent ι) (j : ι) (g : Group) :
    ((step F callback n e).port j g).out.seqCounter =
      (n.port j g).out.seqCounter + UInt16.ofNat (drawn j g e) := by
  cases e with
  | control e => simp [step, drawn]
  | lose p => simp [step, drawn]
  | arrive j' g' p =>
    simp only [step, setPort_port, drawn]
    split
    · next hhere =>
      obtain ⟨rfl, rfl⟩ := hhere
      simp
    · simp
  | publish j' g' topic payload accepts =>
    simp only [step, sent_port, drawn]
    split
    · next hhere =>
      obtain ⟨rfl, rfl⟩ := hhere
      exact publishRawOf_counter ..
    · simp
  | punch j' g' peer accepts =>
    simp only [step, sent_port, drawn]
    split
    · next hhere =>
      obtain ⟨rfl, rfl⟩ := hhere
      simp only [natPunchOf_eq, sendTo]
      rfl
    · simp

/-- What is on its way to a group on a topic, or lost. -/
def pending (F : Fleet ι) (g : Group) (topic : UInt32) (n : Network ι H) : List (UInt16 × Bytes) :=
  messagesTo (address (g.registrant F.cfg)) topic n.flight ++
    messagesTo (address (g.registrant F.cfg)) topic n.lost

/-- What a transport has sent is on its way or lost. -/
theorem sent_pending (n : Network ι H) (j : ι) (g' : Group) {out : Outgoing} {copies : List Sent}
    (h : out.sent = (n.port j g').out.sent ++ copies) (g : Group) (topic : UInt32) :
    (pending F g topic (n.sent j g' out)).Perm (pending F g topic n ++
      messagesTo (address (g.registrant F.cfg)) topic (copies.map packetOf)) := by
  have hsplit : ((copies.filter Sent.accepted).map packetOf ++
      (copies.filter fun c => !c.accepted).map packetOf).Perm (copies.map packetOf) := by
    rw [← List.map_append]
    exact (List.filter_append_perm Sent.accepted copies).map packetOf
  unfold pending
  simp only [sent, h, List.drop_left, messagesTo_append]
  refine List.Perm.trans ?_ ((messagesTo_perm _ topic hsplit).append_left _)
  rw [messagesTo_append, List.append_assoc, List.append_assoc]
  refine List.Perm.append_left _ ?_
  rw [← List.append_assoc, ← List.append_assoc]
  exact List.perm_append_comm.append_right _

/-- The copies of a call are on their way or lost, and one of them is addressed to each group of
another node that has the topic. -/
theorem publish_pending (h : Converged F n.site) (hdirect : Direct F) {i j : ι} {g g' : Group}
    {topic topic' : UInt32} (payload : Bytes) (accepts : Nat → Bool) (hg : g ∈ F.groups i)
    (htopic : topic ∈ g.topics) (hg' : g' ∈ F.groups j) (htopic' : topic' ∈ g'.topics) :
    (pending F g topic (step F callback n (.publish j g' topic' payload accepts))).Perm
      (pending F g topic n ++ (publishedToOthers i topic n
        (.publish j g' topic' payload accepts)).toList) := by
  obtain ⟨copies, hsent, hcopies⟩ := publishRawOf_sent (F.build j) accepts topic'
    (((n.site.node j).peers.getD topic' []).map address) (n.port j g').out payload
  have hcount : messagesTo (address (g.registrant F.cfg)) topic (copies.map packetOf) =
      (publishedToOthers i topic n (.publish j g' topic' payload accepts)).toList := by
    simp only [publishedToOthers]
    split at hcopies
    · next hfits =>
      obtain ⟨hdests, hframes⟩ := hcopies
      have hnodup := h.once hdirect j topic'
      rw [← hdests] at hnodup
      rw [messagesTo_copies _ topic hfits hnodup hframes, hdests]
      by_cases hsame : topic' = topic
      · subst hsame
        have hmem := h.mem_peers hdirect hg htopic hg' htopic'
        simp only [hmem, true_and, hfits, and_true]
        split <;> rfl
      · rw [if_neg fun hc => hsame hc.1, if_neg fun hc => hsame hc.2.1]
        rfl
    · next hlong =>
      rw [hcopies, if_neg fun hc => hlong hc.2.2]
      rfl
  rw [← hcount]
  exact sent_pending n j g' hsent g topic

/-- A punch is no message of another topic. -/
theorem punch_pending {topic : UInt32} (hpunch : topic ≠ kNatPunchTopicId) (j : ι) (g g' : Group)
    (peer : PeerAddr) (accepts : Nat → Bool) :
    (pending F g topic (step F callback n (.punch j g' peer accepts))).Perm (pending F g topic n) := by
  have hsent : (natPunchOf (F.build j) accepts peer (n.port j g').out).1.sent =
      (n.port j g').out.sent ++ [⟨peer, frameBytes kNatPunchTopicId (n.port j g').out.seqCounter [],
        accepts (n.port j g').out.sent.length⟩] := by
    rw [natPunchOf_eq]
    rfl
  have hnone : messagesTo (address (g.registrant F.cfg)) topic [packetOf ⟨peer,
      frameBytes kNatPunchTopicId (n.port j g').out.seqCounter [],
      accepts (n.port j g').out.sent.length⟩] = [] := by
    have hother := @frameOn_frameBytes [] (Nat.zero_le _) topic kNatPunchTopicId
      (n.port j g').out.seqCounter
    rw [if_neg (Ne.symm hpunch)] at hother
    simp [messagesTo, packetOf, hother]
  have hperm := sent_pending (F := F) n j g' hsent g topic
  rwa [List.map_singleton, hnone, List.append_nil] at hperm

/-- What arrives or is lost was on its way. -/
theorem step_pending (h : Converged F n.site) (hdirect : Direct F) {e : NetworkEvent ι}
    (hallowed : Allowed F n e) {i : ι} {g : Group} {topic : UInt32} (hg : g ∈ F.groups i)
    (htopic : topic ∈ g.topics) (hpunch : topic ≠ kNatPunchTopicId) :
    ((arrivedOn i g topic e).toList ++ pending F g topic (step F callback n e)).Perm
      (pending F g topic n ++ (publishedToOthers i topic n e).toList) := by
  cases e with
  | control e =>
    rw [show (publishedToOthers i topic n (.control e)).toList = [] from rfl, List.append_nil]
    exact List.Perm.refl _
  | publish j g' topic' payload accepts =>
    exact publish_pending h hdirect payload accepts hg htopic hallowed.1 hallowed.2
  | punch j g' peer accepts =>
    rw [show (publishedToOthers i topic n (.punch j g' peer accepts)).toList = [] from rfl,
      List.append_nil]
    exact punch_pending hpunch j g g' peer accepts
  | lose p =>
    have herase := messagesTo_erase (address (g.registrant F.cfg)) topic (show p ∈ n.flight from hallowed)
    rw [show (publishedToOthers i topic n (.lose p)).toList = [] from rfl, List.append_nil]
    show (messagesTo _ topic (n.flight.erase p) ++ messagesTo _ topic (n.lost ++ [p])).Perm
      (messagesTo _ topic n.flight ++ messagesTo _ topic n.lost)
    rw [messagesTo_append]
    refine List.Perm.trans ?_ (herase.append_right _)
    rw [List.append_assoc]
    refine List.Perm.trans ?_ List.perm_append_comm
    rw [List.append_assoc]
  | arrive j g' p =>
    obtain ⟨hmem, hg', hdest⟩ := hallowed
    have herase := messagesTo_erase (address (g.registrant F.cfg)) topic hmem
    have harrived : (arrivedOn i g topic (.arrive j g' p)).toList =
        messagesTo (address (g.registrant F.cfg)) topic [p] := by
      simp only [arrivedOn, arrivedAt, messagesTo, List.filterMap_cons, List.filterMap_nil, hdest]
      by_cases hhere : j = i ∧ g' = g
      · obtain ⟨rfl, rfl⟩ := hhere
        simp only [and_self, if_true, Option.bind_some]
        cases frameOn topic p.bytes <;> rfl
      · have hne : ¬ address (g'.registrant F.cfg) = address (g.registrant F.cfg) :=
          fun heq => hhere (F.apart hg' hg (address_injective heq))
        rw [if_neg hhere, if_neg hne]
        rfl
    rw [show (publishedToOthers i topic n (.arrive j g' p)).toList = [] from rfl, List.append_nil,
      harrived]
    show (messagesTo _ topic [p] ++ (messagesTo _ topic (n.flight.erase p) ++
      messagesTo _ topic n.lost)).Perm (messagesTo _ topic n.flight ++ messagesTo _ topic n.lost)
    rw [← List.append_assoc]
    exact herase.append_right _

/-! ### Every run -/

theorem step_converged (h : Converged F n.site) {e : NetworkEvent ι} (hallowed : Allowed F n e) :
    Converged F (step F callback n e).site := by
  cases e with
  | control e => exact h.step hallowed
  | publish => exact h
  | punch => exact h
  | arrive => exact h
  | lose => exact h

/-- A receiver has heard what arrived at its port. -/
theorem receiver_run {i : ι} {g : Group} {installed : UInt32 → Option H} {came : List Bytes}
    (h : (n.port i g).receiver.Heard callback installed came) (events : List (NetworkEvent ι)) :
    ((run F callback n events).port i g).receiver.Heard callback installed
      (came ++ events.filterMap (arrivedAt i g)) := by
  induction events generalizing n came with
  | nil =>
    rw [List.filterMap_nil, List.append_nil]
    exact h
  | cons e rest ih =>
    have hreceiver := @step_receiver ι H _ F callback n e i g
    rw [run, List.foldl_cons, List.filterMap_cons]
    cases harrived : arrivedAt i g e with
    | none =>
      rw [harrived, Option.elim_none] at hreceiver
      exact ih (hreceiver ▸ h)
    | some bytes =>
      rw [harrived, Option.elim_some] at hreceiver
      have hrest := ih (n := step F callback n e) (hreceiver ▸ h.receive bytes)
      rwa [List.append_assoc, List.singleton_append] at hrest

/-- The other nodes' messages on the topic. -/
def published (F : Fleet ι) (callback : H → Bytes → H) (i : ι) (topic : UInt32)
    (n : Network ι H) (events : List (NetworkEvent ι)) : List (UInt16 × Bytes) :=
  gather (step F callback) (publishedToOthers i topic) n events

theorem published_number {i j : ι} {g : Group} {topic : UInt32}
    {e : NetworkEvent ι} {m : UInt16 × Bytes} (hfrom : ComesFrom i topic j g e)
    (hm : publishedToOthers i topic n e = some m) :
    drawn j g e = 1 ∧ m.1 = (n.port j g).out.seqCounter := by
  cases e with
  | publish j' g' topic' payload accepts =>
    simp only [publishedToOthers] at hm
    split at hm
    · next hto =>
      cases hm
      obtain ⟨rfl, rfl⟩ := hfrom hto.1 hto.2.1
      exact ⟨if_pos ⟨rfl, rfl⟩, rfl⟩
    · cases hm
  | control e => cases hm
  | punch j' g' peer accepts => cases hm
  | arrive j' g' p => cases hm
  | lose p => cases hm

/-- A port that draws no more than 65536 numbers gives no two messages the same one. -/
theorem numbers_nodup {i j : ι} {g : Group} {topic : UInt32} {events : List (NetworkEvent ι)}
    (hfrom : ∀ e ∈ events, ComesFrom i topic j g e)
    (hdrawn : (events.map (drawn j g)).sum ≤ 65536) :
    ((published F callback i topic n events).map Prod.fst).Nodup ∧
      ∀ m ∈ published F callback i topic n events, ∃ k < (events.map (drawn j g)).sum,
        m.1 = (n.port j g).out.seqCounter + UInt16.ofNat k := by
  induction events generalizing n with
  | nil => exact ⟨List.nodup_nil, fun m hm => absurd hm List.not_mem_nil⟩
  | cons e rest ih =>
    obtain ⟨hhere, hrest⟩ := List.forall_mem_cons.mp hfrom
    rw [List.map_cons, List.sum_cons] at hdrawn ⊢
    obtain ⟨hnodup, hnumbers⟩ := ih (n := step F callback n e) hrest (by omega)
    rw [step_counter] at hnumbers
    have hlater : ∀ m ∈ published F callback i topic (step F callback n e) rest,
        ∃ k < (rest.map (drawn j g)).sum,
          m.1 = (n.port j g).out.seqCounter + UInt16.ofNat (drawn j g e + k) := by
      intro m hm
      obtain ⟨k, hk, heq⟩ := hnumbers m hm
      exact ⟨k, hk, by rw [heq, UInt16.ofNat_add, UInt16.add_assoc]⟩
    have hcons : published F callback i topic n (e :: rest) =
        (publishedToOthers i topic n e).toList ++
          published F callback i topic (step F callback n e) rest := rfl
    rw [hcons]
    cases hm : publishedToOthers i topic n e with
    | none =>
      refine ⟨hnodup, fun m hm => ?_⟩
      obtain ⟨k, hk, heq⟩ := hlater m hm
      exact ⟨drawn j g e + k, Nat.add_lt_add_left hk _, heq⟩
    | some first =>
      obtain ⟨hone, hnumber⟩ := published_number hhere hm
      rw [hone] at hdrawn hlater ⊢
      rw [Option.toList_some, List.singleton_append]
      constructor
      · rw [List.map_cons, List.nodup_cons]
        refine ⟨fun hmem => ?_, hnodup⟩
        obtain ⟨m, hm, hsame⟩ := List.mem_map.mp hmem
        obtain ⟨k, hk, heq⟩ := hlater m hm
        -- the counter has not come round
        have hround : (n.port j g).out.seqCounter + UInt16.ofNat (1 + k) =
            (n.port j g).out.seqCounter := heq.symm.trans (hsame.trans hnumber)
        have hzero := congrArg UInt16.toNat (UInt16.add_eq_left.mp hround)
        rw [UInt16.toNat_ofNat'] at hzero
        simp at hzero
        omega
      · intro m hm
        rcases List.mem_cons.mp hm with rfl | hm
        · exact ⟨0, by omega, by rw [hnumber]; simp⟩
        · obtain ⟨k, hk, heq⟩ := hlater m hm
          exact ⟨1 + k, Nat.add_lt_add_left hk 1, heq⟩

/-- **Messages are conserved.** Ten answered ticks after the daemon has had all topics, whatever is
published, punched, lost and delivered in whatever order, and whatever the re-registration loops do
meanwhile: what arrived at a port on its topic, what is on its way there and what was lost are the
messages that the other nodes published on the topic, each as often as it was published; and the
callback has been given what arrived, one after the other, but for what the duplicate test drops.
That is nothing where no two of the messages have one number, as when they come from one port that
has drawn at most 65536. -/
theorem traffic_conserved (F : Fleet ι) (hdirect : Direct F) (born : ι → Time)
    (before after : List (SiteEvent ι))
    (hallowed : Throughout F.step F.Allowed (F.start born) (before ++ after))
    (hterm : Throughout F.step F.InTerm (F.start born) (before ++ after))
    (hsent : F.AllSent (F.run (F.start born) before))
    (hanswered : ∀ j, Throughout F.step (F.Answered j) (F.run (F.start born) before) after)
    (hticks : ∀ j, ((F.run (F.start born) before).node j).tick + 10 ≤
      ((F.run (F.start born) (before ++ after)).node j).done)
    (callback : H → Bytes → H) (counters : ι → Group → UInt16)
    (subs : ι → Group → List (UInt32 × H)) (events : List (NetworkEvent ι))
    (htraffic : Throughout (step F callback) (Allowed F)
      (start F (F.run (F.start born) (before ++ after)) counters subs) events)
    (i : ι) (g : Group) (hg : g ∈ F.groups i) (topic : UInt32) (htopic : topic ∈ g.topics)
    (hpunch : topic ≠ kNatPunchTopicId) (h₀ : H)
    (hsub : (Receiver.subscribed (F.build i) (subs i g)).handler topic = some h₀) :
    let begun := start F (F.run (F.start born) (before ++ after)) counters subs
    let n := run F callback begun events
    let arrived := events.filterMap (arrivedOn i g topic)
    (n.port i g).receiver.handler topic =
        some ((passed true Prod.fst arrived).foldl (fun h m => callback h m.2) h₀) ∧
      (arrived ++ pending F g topic n).Perm (published F callback i topic begun events) ∧
      (((published F callback i topic begun events).map Prod.fst).Nodup →
        passed true Prod.fst arrived = arrived) ∧
      ∀ j g', (∀ e ∈ events, ComesFrom i topic j g' e) → (events.map (drawn j g')).sum ≤ 65536 →
        ((published F callback i topic begun events).map Prod.fst).Nodup := by
  intro begun n arrived
  have hsite : Converged F begun.site := ⟨Fleet.run_inv F born hallowed, fun j _ hg _ htopic =>
    Fleet.knowsAll_run F born hallowed hterm hsent (hanswered j) (hticks j) hg htopic⟩
  have hbalance : (arrived ++ pending F g topic n).Perm
      (published F callback i topic begun events) :=
    Throughout.balance (fun n => Converged F n.site) (arrivedOn i g topic)
      (publishedToOthers i topic) (pending F g topic)
      (fun n e hn he => ⟨step_converged hn he, step_pending hn hdirect he hg htopic hpunch⟩)
      hsite htraffic
  refine ⟨?_, hbalance, fun hnodup => ?_, fun j g' hfrom hdrawn => (numbers_nodup hfrom hdrawn).1⟩
  · have hheard := receiver_run (F := F) (n := begun)
      (subscribed_heard callback (F.build i) (subs i g)) events
    have hhandler := hheard.handler topic
    rw [hsub, Option.map_some, List.nil_append, List.filterMap_filterMap] at hhandler
    exact hhandler
  · have hnumbers := (hbalance.map Prod.fst).nodup_iff.mpr hnodup
    rw [List.map_append] at hnumbers
    exact passed_eq_self true (List.nodup_append.mp hnumbers).1

/-- Both nodes of a pair publish, and one of them punches; one packet arrives between the ticks of
the loops, and the others are lost. -/
def pairTraffic : List (NetworkEvent Bool) :=
  [.punch true ⟨⟨3, 4⟩, ⟨3, 4⟩, [7]⟩ ⟨1, 2⟩ fun _ => false,
    .publish true ⟨⟨3, 4⟩, ⟨3, 4⟩, [7]⟩ 7 [1, 2] fun _ => true,
    .control (.wake false (3 / 10)),
    .publish false ⟨⟨1, 2⟩, ⟨1, 2⟩, [7]⟩ 7 [] fun _ => true,
    .arrive false ⟨⟨1, 2⟩, ⟨1, 2⟩, [7]⟩ ⟨⟨1, 2⟩, frameBytes 7 1 [1, 2]⟩,
    .lose ⟨⟨3, 4⟩, frameBytes 7 0 []⟩]

theorem traffic_conserved_pair :
    let begun := start Fleet.pair (Fleet.pair.run (Fleet.pair.start fun _ => 0)
      (Fleet.pairBefore ++ Fleet.pairAfter)) (fun _ _ => 0) fun _ _ => [(7, [])]
    let callback := fun (seen : List Bytes) payload => seen ++ [payload]
    let n := run Fleet.pair callback begun pairTraffic
    let arrived := pairTraffic.filterMap (arrivedOn false ⟨⟨1, 2⟩, ⟨1, 2⟩, [7]⟩ 7)
    (n.port false ⟨⟨1, 2⟩, ⟨1, 2⟩, [7]⟩).receiver.handler 7 =
        some ((passed true Prod.fst arrived).foldl (fun h m => callback h m.2) []) ∧
      (arrived ++ pending Fleet.pair ⟨⟨1, 2⟩, ⟨1, 2⟩, [7]⟩ 7 n).Perm
        (published Fleet.pair callback false 7 begun pairTraffic) ∧
      (((published Fleet.pair callback false 7 begun pairTraffic).map Prod.fst).Nodup →
        passed true Prod.fst arrived = arrived) ∧
      ∀ j g', (∀ e ∈ pairTraffic, ComesFrom false 7 j g' e) →
        (pairTraffic.map (drawn j g')).sum ≤ 65536 →
        ((published Fleet.pair callback false 7 begun pairTraffic).map Prod.fst).Nodup :=
  traffic_conserved Fleet.pair (by decide) (fun _ => 0) Fleet.pairBefore Fleet.pairAfter
    Fleet.pair_allowed Fleet.pair_inTerm (by decide +kernel) Fleet.pair_answered Fleet.pair_ticks
    (fun seen payload => seen ++ [payload]) (fun _ _ => 0) (fun _ _ => [(7, [])]) pairTraffic
    (by decide +kernel) false ⟨⟨1, 2⟩, ⟨1, 2⟩, [7]⟩ (by decide) 7 (by decide) (by decide) [] rfl

end Network

end Relink.Message
