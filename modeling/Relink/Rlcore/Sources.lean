import Relink.Rlcore.ReplyQueue

/-! Whose datagrams a node learns its peers from.

Anyone can send to a node's sockets. Before its transports run, `ensure_started` reads one
datagram off each group's socket itself; afterwards the data threads hand what is no data frame
to the re-registration loop. Neither path compares a datagram's source with the address of
rlcore. `peers_traced` says what an entry of `peers_` rests on, and that the sources have no part
in it. -/
namespace Relink.Rlcore.Sources
open Wire Crypto
open Calls (Active wireRequest kMaxRetries)
open Transport (UdpTransport recvAndDispatch)
open Std (ExtTreeMap)

/-! ### The node and its sockets -/

/-- Groups are numbered; `buffers` is what the kernel holds for each group's socket, and
`registered` counts the groups that `ensure_started` has made its call for. -/
structure Node (H : Type) where
  groups : List Group
  buffers : Nat → List Datagram
  transports : Nat → UdpTransport H
  registered : Nat
  peers : Peers
  tick : Nat
  begun : Nat
  active : Option Active

/-- Sockets are bound and handlers installed, and nothing has come. -/
def Node.init {H : Type} (groups : List Group) (transports : Nat → UdpTransport H) : Node H :=
  ⟨groups, fun _ => [], fun k => {transports k with registerReplyQueue := []}, 0, ∅, 0, 0, none⟩

inductive Event where
  /-- A datagram of anyone comes to a group's socket. -/
  | arrive (group : Nat) (d : Datagram)
  /-- `ensure_started` calls for its next group. -/
  | register (nonce : Nonce) (accepted : Bool)
  /-- A data thread's turn. -/
  | receive (group : Nat)
  | tick
  /-- The loop calls for a group. -/
  | call (group : Nat) (nonce : Nonce)
  | send (accepted : Bool)
  | reply
  | timeout

/-- `peers_[topic_id].push_back`. -/
def pushBack (peers : Peers) (topic : UInt32) (addr : PeerEntry) : Peers :=
  peers.insert topic (peers.getD topic [] ++ [addr])

/-- What `ensure_started` enters for a peer, without looking for what is there. -/
def pushPeer (peers : Peers) (p : RegisterAckPeer) : Peers :=
  let peers := pushBack peers p.topicId ⟨p.ip, p.port⟩
  if p.lanIp ≠ 0 ∧ ¬ (p.lanIp = p.ip ∧ p.lanPort = p.port) then
    pushBack peers p.topicId ⟨p.lanIp, p.lanPort⟩
  else peers

section
variable {H F O : Type} (cfg : Config) (handler : H → Bytes → Except F (H × O))

/-- The peers of a response that reads as an ack of status 0. -/
def outcomePeers (bytes : Bytes) : Option (List RegisterAckPeer) :=
  match readReply cfg bytes with
  | some (status, peers) => if status = 0 then some peers else none
  | none => none

namespace Node
variable (w : Node H)

/-- The transports run once every group has had its call. -/
def running : Bool := w.groups.length ≤ w.registered

/-- One attempt, which takes the first datagram off the socket. -/
def register (nonce : Nonce) (accepted : Bool) : Node H :=
  match w.groups[w.registered]? with
  | none => w
  | some g =>
    let w' := {w with registered := w.registered + 1}
    if (wireRequest cfg nonce g.lan g.topics).isSome ∧ accepted then
      match w.buffers w.registered with
      | [] => w'
      | d :: rest =>
        { w' with
          buffers := Function.update w.buffers w.registered rest
          peers := ((outcomePeers cfg d.bytes).getD []).foldl pushPeer w.peers }
    else w'

/-- A handler that throws ends the process; the datagram is gone. -/
def receive (group : Nat) : Node H :=
  match w.buffers group with
  | [] => w
  | d :: rest =>
    if w.running then
      { w with
        buffers := Function.update w.buffers group rest
        transports := match recvAndDispatch handler (w.transports group) d.bytes with
          | .error _ => w.transports
          | .ok r => Function.update w.transports group r.1 }
    else w

/-- What a running loop's call for a group would send. -/
def chosen (g : Group) : Option (List UInt32) :=
  if w.running then toRegister w.tick w.peers g else none

def call (group : Nat) (nonce : Nonce) : Node H :=
  match w.active, w.groups[group]? with
  | none, some g =>
    match w.chosen g with
    | none => w
    | some topics =>
      match wireRequest cfg nonce g.lan topics with
      | none => w
      | some bytes =>
        {w with begun := w.begun + 1, active := some ⟨⟨w.begun, group, topics, bytes⟩, 0, false⟩}
  | _, _ => w

def send (accepted : Bool) : Node H :=
  match w.active with
  | none => w
  | some a =>
    if a.waiting then w
    else {w with active := if accepted then some {a with waiting := true} else a.next}

/-- What a call that waits has before it, the oldest first. -/
def waitsOn (a : Active) : List Bytes :=
  if a.waiting then (w.transports a.ask.group).registerReplyQueue else []

/-- `get_register_reply` returns. -/
def reply : Node H :=
  match w.active with
  | none => w
  | some a =>
    match w.waitsOn a with
    | [] => w
    | bytes :: rest =>
      let t := {w.transports a.ask.group with registerReplyQueue := rest}
      let transports := Function.update w.transports a.ask.group t
      match outcomePeers cfg bytes with
      | none => {w with transports, active := a.next}
      | some peers => {w with transports, active := none, peers := peers.foldl mergePeer w.peers}

def timeout : Node H :=
  match w.active with
  | none => w
  | some a =>
    if a.waiting ∧ (w.transports a.ask.group).registerReplyQueue = [] then {w with active := a.next}
    else w

def step : Event → Node H
  | .arrive group d =>
    {w with buffers := Function.update w.buffers group (w.buffers group ++ [d])}
  | .register nonce accepted => w.register cfg nonce accepted
  | .receive group => w.receive handler group
  | .tick => {w with tick := w.tick + 1}
  | .call group nonce => w.call cfg group nonce
  | .send accepted => w.send accepted
  | .reply => w.reply cfg
  | .timeout => w.timeout

end Node

/-- A whole run, from bound sockets on. -/
def run (groups : List Group) (transports : Nat → UdpTransport H) (events : List Event) : Node H :=
  events.foldl (Node.step cfg handler) (.init groups transports)

/-! ### Addresses traced to datagrams -/

/-- The datagram reads as an ack of status 0 that names the address for the topic. -/
def Lists (bytes : Bytes) (topic : UInt32) (addr : PeerEntry) : Prop :=
  ∃ peers, outcomePeers cfg bytes = some peers ∧ ∃ p ∈ peers, Names p topic addr

/-- Every address rests on a datagram of rlcore. -/
def LearnedFrom (rlcore : PeerEntry) (events : List Event) (peers : Peers) : Prop :=
  ∀ topic addr, addr ∈ peers.getD topic [] →
    ∃ group d, Event.arrive group d ∈ events ∧ d.src = rlcore ∧ Lists cfg d.bytes topic addr

/-- Every address, and all that lies about, rests on what came to one of the groups' sockets. -/
structure Traced (came : Nat → Datagram → Prop) (n : Nat) (w : Node H) : Prop where
  groups : w.groups.length = n
  buffers : ∀ group, ∀ d ∈ w.buffers group, came group d
  queues : ∀ group, ∀ bytes ∈ (w.transports group).registerReplyQueue,
    ∃ d, came group d ∧ d.bytes = bytes
  active : ∀ a, w.active = some a → a.ask.group < n
  peers : ∀ topic addr, addr ∈ w.peers.getD topic [] →
    ∃ group < n, ∃ d, came group d ∧ Lists cfg d.bytes topic addr

/-! ### One step -/

variable {cfg} {handler} {came : Nat → Datagram → Prop} {n : Nat} {w : Node H}

theorem mem_pushBack {peers : Peers} {topic topic' : UInt32} {addr known : PeerEntry}
    (h : known ∈ (pushBack peers topic addr).getD topic' []) :
    topic = topic' ∧ known = addr ∨ known ∈ peers.getD topic' [] := by
  rw [pushBack, ExtTreeMap.getD_insert] at h
  split at h
  · next heq =>
    obtain rfl := Std.compare_eq_iff_eq.mp heq
    rcases List.mem_append.mp h with h | h
    · exact Or.inr h
    · exact Or.inl ⟨rfl, List.mem_singleton.mp h⟩
  · exact Or.inr h

theorem mem_pushPeer {peers : Peers} {p : RegisterAckPeer} {topic : UInt32} {addr : PeerEntry}
    (h : addr ∈ (pushPeer peers p).getD topic []) :
    Names p topic addr ∨ addr ∈ peers.getD topic [] := by
  rw [pushPeer] at h
  have hfirst : addr ∈ (pushBack peers p.topicId ⟨p.ip, p.port⟩).getD topic [] →
      Names p topic addr ∨ addr ∈ peers.getD topic [] := fun h =>
    (mem_pushBack h).imp (fun hnew => ⟨hnew.1, Or.inl hnew.2⟩) id
  split at h
  · next hlan =>
    rcases mem_pushBack h with ⟨htopic, haddr⟩ | h
    · exact Or.inl ⟨htopic, Or.inr ⟨hlan.1, haddr⟩⟩
    · exact hfirst h
  · exact hfirst h

/-- What is known after an ack was known before, or the ack names it. -/
theorem mem_entered {enter : Peers → RegisterAckPeer → Peers}
    (henter : ∀ {peers : Peers} {p : RegisterAckPeer} {topic : UInt32} {addr : PeerEntry},
      addr ∈ (enter peers p).getD topic [] → Names p topic addr ∨ addr ∈ peers.getD topic [])
    {peers : Peers} {listed : List RegisterAckPeer} {topic : UInt32} {addr : PeerEntry}
    (h : addr ∈ (listed.foldl enter peers).getD topic []) :
    (∃ p ∈ listed, Names p topic addr) ∨ addr ∈ peers.getD topic [] := by
  induction listed generalizing peers with
  | nil => exact Or.inr h
  | cons p rest ih =>
    rcases ih h with ⟨p', hp', hnames⟩ | h
    · exact Or.inl ⟨p', List.mem_cons_of_mem p hp', hnames⟩
    · exact (henter h).imp (fun hnames => ⟨p, List.mem_cons_self, hnames⟩) id

section
variable (hw : Traced cfg came n w)
include hw

theorem traced_arrive {group : Nat} {d : Datagram} (hcame : came group d) :
    Traced cfg came n {w with buffers := Function.update w.buffers group (w.buffers group ++ [d])} := by
  refine {hw with buffers := Calls.forall_mem_update hw.buffers group fun d' hd' => ?_}
  rcases List.mem_append.mp hd' with hd' | hd'
  · exact hw.buffers group d' hd'
  · rwa [List.mem_singleton.mp hd']

theorem traced_register (nonce : Nonce) (accepted : Bool) :
    Traced cfg came n (w.register cfg nonce accepted) := by
  unfold Node.register
  split
  · exact hw
  · next g hg =>
    have hgroup : w.registered < n := hw.groups ▸ (List.getElem?_eq_some_iff.mp hg).1
    split
    · split
      · exact {hw with}
      · next d rest hbuffer =>
        have hcame : ∀ d' ∈ d :: rest, came w.registered d' := hbuffer ▸ hw.buffers w.registered
        refine {hw with
          buffers := Calls.forall_mem_update hw.buffers w.registered
            fun d' hd' => hcame d' (List.mem_cons_of_mem d hd')
          peers := fun topic addr h => ?_}
        rcases mem_entered mem_pushPeer h with ⟨p, hp, hnames⟩ | h
        · cases hlisted : outcomePeers cfg d.bytes with
          | none =>
            rw [hlisted] at hp
            cases hp
          | some listed =>
            rw [hlisted] at hp
            exact ⟨w.registered, hgroup, d, hcame d List.mem_cons_self, listed, hlisted, p, hp, hnames⟩
        · exact hw.peers topic addr h
    · exact {hw with}

theorem traced_receive (group : Nat) : Traced cfg came n (w.receive handler group) := by
  unfold Node.receive
  split
  · exact hw
  · next d rest hbuffer =>
    have hcame : ∀ d' ∈ d :: rest, came group d' := hbuffer ▸ hw.buffers group
    split
    · refine {hw with
        buffers := Calls.forall_mem_update hw.buffers group
          fun d' hd' => hcame d' (List.mem_cons_of_mem d hd')
        queues := ?_}
      split
      · exact hw.queues
      · next r hr =>
        intro group' bytes hbytes
        by_cases heq : group' = group
        · subst heq
          simp only [Function.update_self] at hbytes
          rcases Transport.recvAndDispatch_queue hr bytes hbytes with hold | hnew
          · exact hw.queues group' bytes hold
          · exact ⟨d, hcame d List.mem_cons_self, hnew.symm⟩
        · simp only [Function.update_of_ne heq] at hbytes
          exact hw.queues group' bytes hbytes
    · exact hw

theorem traced_call (group : Nat) (nonce : Nonce) : Traced cfg came n (w.call cfg group nonce) := by
  unfold Node.call
  split
  · next g _ hg =>
    split
    · exact hw
    · split
      · exact hw
      · refine {hw with active := fun a ha => ?_}
        cases ha
        exact hw.groups ▸ (List.getElem?_eq_some_iff.mp hg).1
  · exact hw

theorem traced_next {a : Active} (ha : w.active = some a) :
    Traced cfg came n {w with active := a.next} := by
  refine {hw with active := fun a' ha' => ?_}
  have hgroup := hw.active a ha
  unfold Active.next at ha'
  split at ha'
  · cases ha'
    exact hgroup
  · cases ha'

theorem traced_send (accepted : Bool) : Traced cfg came n (w.send accepted) := by
  unfold Node.send
  split
  · exact hw
  · next a hactive =>
    split
    · exact hw
    cases accepted with
    | false => exact traced_next hw hactive
    | true =>
      refine {hw with active := fun a' ha' => ?_}
      cases ha'
      exact hw.active a hactive

theorem traced_reply : Traced cfg came n (w.reply cfg) := by
  unfold Node.reply
  split
  · exact hw
  · next a hactive =>
    split
    · exact hw
    · next bytes rest hqueue =>
      -- what it takes lay in the queue of its group's transport
      have hbytes : (w.transports a.ask.group).registerReplyQueue = bytes :: rest := by
        unfold Node.waitsOn at hqueue
        split at hqueue
        · exact hqueue
        · cases hqueue
      have hcame := hw.queues a.ask.group
      rw [hbytes] at hcame
      have hqueues : ∀ group, ∀ b ∈ (Function.update w.transports a.ask.group
          {w.transports a.ask.group with registerReplyQueue := rest} group).registerReplyQueue,
          ∃ d, came group d ∧ d.bytes = b := by
        intro group b hb
        by_cases heq : group = a.ask.group
        · subst heq
          simp only [Function.update_self] at hb
          exact hcame b (List.mem_cons_of_mem bytes hb)
        · rw [Function.update_of_ne heq] at hb
          exact hw.queues group b hb
      split
      · exact {traced_next hw hactive with queues := hqueues}
      · next listed hlisted =>
        refine {hw with
          queues := hqueues
          active := fun a' ha' => (by cases ha')
          peers := fun topic addr h => ?_}
        rcases mem_entered mem_mergePeer h with ⟨p, hp, hnames⟩ | h
        · obtain ⟨d, hd, heq⟩ := hcame bytes List.mem_cons_self
          rw [← heq] at hlisted
          exact ⟨a.ask.group, hw.active a hactive, d, hd, listed, hlisted, p, hp, hnames⟩
        · exact hw.peers topic addr h

theorem traced_timeout : Traced cfg came n w.timeout := by
  unfold Node.timeout
  split
  · exact hw
  · next a hactive =>
    split
    · exact traced_next hw hactive
    · exact hw

theorem traced_step (e : Event) (he : ∀ group d, e = .arrive group d → came group d) :
    Traced cfg came n (w.step cfg handler e) := by
  cases e with
  | arrive group d => exact traced_arrive hw (he group d rfl)
  | register nonce accepted => exact traced_register hw nonce accepted
  | receive group => exact traced_receive hw group
  | tick => exact {hw with}
  | call group nonce => exact traced_call hw group nonce
  | send accepted => exact traced_send hw accepted
  | reply => exact traced_reply hw
  | timeout => exact traced_timeout hw

end

theorem traced_init (groups : List Group) (transports : Nat → UdpTransport H) :
    Traced cfg came groups.length (.init groups transports) where
  groups := rfl
  buffers group d hd := by cases hd
  queues group bytes hbytes := by cases hbytes
  active a ha := by cases ha
  peers topic addr h := by
    rw [Node.init, ExtTreeMap.getD_empty] at h
    cases h

/-! ### Sources exchanged -/

/-- The same bytes from somebody else. -/
def forge (f : Datagram → PeerEntry) (d : Datagram) : Datagram := {d with src := f d}

def Event.forge (f : Datagram → PeerEntry) : Event → Event
  | .arrive group d => .arrive group (Sources.forge f d)
  | e => e

def Node.forge (f : Datagram → PeerEntry) (w : Node H) : Node H :=
  {w with buffers := List.map (Sources.forge f) ∘ w.buffers}

/-- No step looks at a source. -/
theorem step_forge (f : Datagram → PeerEntry) (e : Event) :
    (w.forge f).step cfg handler (e.forge f) = (w.step cfg handler e).forge f := by
  cases e with
  | arrive group d =>
    simp only [Node.step, Event.forge, Node.forge, Function.comp_update, Function.comp_apply,
      List.map_append, List.map_singleton]
  | register nonce accepted =>
    simp only [Node.step, Event.forge, Node.register, Node.forge, Function.comp_apply]
    cases w.groups[w.registered]? with
    | none => rfl
    | some g =>
      simp only
      split
      · cases w.buffers w.registered with
        | nil => rfl
        | cons d rest => simp only [List.map_cons, Function.comp_update]; rfl
      · rfl
  | receive group =>
    simp only [Node.step, Event.forge, Node.receive, Node.forge, Function.comp_apply]
    cases w.buffers group with
    | nil => rfl
    | cons d rest =>
      by_cases hrun : w.groups.length ≤ w.registered
      · simp only [List.map_cons, Node.running, hrun, decide_true, if_true, Function.comp_update]
        rfl
      · simp only [List.map_cons, Node.running, hrun, decide_false, Bool.false_eq_true, if_false]
  | tick => rfl
  | call group nonce =>
    simp only [Node.step, Event.forge, Node.call]
    have hchosen : ∀ g, (w.forge f).chosen g = w.chosen g := fun _ => rfl
    have hactive : (w.forge f).active = w.active := rfl
    have hgroups : (w.forge f).groups = w.groups := rfl
    rw [hactive, hgroups]
    split
    · next g _ _ =>
      rw [hchosen]
      split
      · rfl
      · split <;> rfl
    · rfl
  | send accepted =>
    have hactive : (w.forge f).active = w.active := rfl
    simp only [Node.step, Event.forge, Node.send, hactive]
    split
    · rfl
    · split <;> rfl
  | reply =>
    have hactive : (w.forge f).active = w.active := rfl
    have hwaits : ∀ a, (w.forge f).waitsOn a = w.waitsOn a := fun _ => rfl
    simp only [Node.step, Event.forge, Node.reply, hactive]
    split
    · rfl
    · rw [hwaits]
      split
      · rfl
      · split <;> rfl
  | timeout =>
    have hactive : (w.forge f).active = w.active := rfl
    have htransports : (w.forge f).transports = w.transports := rfl
    simp only [Node.step, Event.forge, Node.timeout, hactive, htransports]
    split
    · rfl
    · split <;> rfl

end

/-! ### Whole runs -/

section
variable {H F O : Type} (cfg : Config) (handler : H → Bytes → Except F (H × O))
  (groups : List Group) (transports : Nat → UdpTransport H) (events : List Event)

theorem traced_run : Traced cfg (fun group d => Event.arrive group d ∈ events) groups.length
    (run cfg handler groups transports events) :=
  Transition.foldl_invariant (Traced cfg _ groups.length) (· ∈ events) (Node.step cfg handler)
    (fun _ e hw he => traced_step hw e fun _ _ heq => heq ▸ he) events _ (traced_init groups transports)
    fun _ he => he

theorem run_forge (f : Datagram → PeerEntry) :
    run cfg handler groups transports (events.map (Event.forge f)) =
      (run cfg handler groups transports events).forge f := by
  have hfold : ∀ w : Node H, (events.map (Event.forge f)).foldl (Node.step cfg handler) (w.forge f) =
      (events.foldl (Node.step cfg handler) w).forge f := by
    induction events with
    | nil => exact fun _ => rfl
    | cons e rest ih =>
      intro w
      rw [List.map_cons, List.foldl_cons, List.foldl_cons, step_forge]
      exact ih _
  exact hfold (.init groups transports)

/-- **What a peer rests on**, in every run: an ack of status 0 that came to one of the node's own
sockets and names that address. It came from rlcore if nobody else's such datagram came; but whom
each datagram came from plays no part in what is learned. -/
theorem peers_traced :
    (∀ topic addr, addr ∈ (run cfg handler groups transports events).peers.getD topic [] →
      ∃ group < groups.length, ∃ d, Event.arrive group d ∈ events ∧ Lists cfg d.bytes topic addr) ∧
    (∀ rlcore, (∀ group d, Event.arrive group d ∈ events →
      (outcomePeers cfg d.bytes).isSome → d.src = rlcore) →
      LearnedFrom cfg rlcore events (run cfg handler groups transports events).peers) ∧
    ∀ f, (run cfg handler groups transports (events.map (Event.forge f))).peers =
      (run cfg handler groups transports events).peers := by
  have htraced := (traced_run cfg handler groups transports events).peers
  refine ⟨htraced, fun rlcore hhonest topic addr h => ?_, fun f => ?_⟩
  · obtain ⟨group, _, d, hcame, hlists⟩ := htraced topic addr h
    have hread : (outcomePeers cfg d.bytes).isSome := by
      obtain ⟨peers, hpeers, _⟩ := hlists
      rw [hpeers]
      rfl
    exact ⟨group, d, hcame, hhonest group d hcame hread, hlists⟩
  · rw [run_forge]
    rfl

end

/-! ### An ack of somebody else -/

/-- It lies in the socket before `ensure_started` calls. -/
def earlyAck : List Event :=
  [.arrive 0 ⟨⟨6, 6⟩, ackBytes 0 [⟨1, 2, 7, 0, 0⟩]⟩, .register (Vector.replicate 12 0) true]

/-- It comes to a running transport, and the next call takes it from the queue. -/
def lateAck : List Event :=
  [.register (Vector.replicate 12 0) true, .arrive 0 ⟨⟨6, 6⟩, ackBytes 0 [⟨1, 2, 7, 0, 0⟩]⟩,
    .receive 0, .tick, .call 0 (Vector.replicate 12 0), .send true, .reply]

/-- Peers of a node on topic 7, whose handlers do nothing. -/
def peersAfter (events : List Event) : Peers :=
  (run (H := Unit) (F := Unit) .plain (fun h _ => .ok (h, ())) [⟨⟨3, 4⟩, ⟨3, 4⟩, [7]⟩]
    (fun _ => {}) events).peers

/-- Either way the node learns a peer that rlcore, at another address, never named. -/
theorem foreign_ack_learned :
    ¬ LearnedFrom .plain ⟨9, 9⟩ earlyAck (peersAfter earlyAck) ∧
      ¬ LearnedFrom .plain ⟨9, 9⟩ lateAck (peersAfter lateAck) := by
  constructor
  · intro h
    have hmem : (⟨1, 2⟩ : PeerEntry) ∈ (peersAfter earlyAck).getD 7 [] := by decide +kernel
    obtain ⟨group, d, hcame, hsrc, _⟩ := h 7 ⟨1, 2⟩ hmem
    simp only [earlyAck, List.mem_cons, Event.arrive.injEq, reduceCtorEq, List.not_mem_nil,
      or_false] at hcame
    rw [hcame.2] at hsrc
    cases hsrc
  · intro h
    have hmem : (⟨1, 2⟩ : PeerEntry) ∈ (peersAfter lateAck).getD 7 [] := by decide +kernel
    obtain ⟨group, d, hcame, hsrc, _⟩ := h 7 ⟨1, 2⟩ hmem
    simp only [lateAck, List.mem_cons, Event.arrive.injEq, reduceCtorEq, List.not_mem_nil,
      or_false, false_or] at hcame
    rw [hcame.2] at hsrc
    cases hsrc

end Relink.Rlcore.Sources
