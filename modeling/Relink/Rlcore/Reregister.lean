import Relink.Rlcore.Answered

/-! A node's re-registration loop against rlcore.

`start_rlcore_reregister_thread` of the C++ build and `_rlcore_reregister_loop` of the
Python build: every tick the loop goes through the node's groups, chooses which of a
group's topics to send, and adds the peers of the ack to those it knows. The two builds
choose differently. In the world of this module every call's request is handled at the
instant of its tick, and its reply arrives, so one attempt is made. -/
namespace Relink.Rlcore
open Wire Crypto
open Std (ExtTreeMap)

/-! ### The node -/

/-- A socket and its topics: the address its datagrams are seen from, and the one it
reports. -/
structure Group where
  src : PeerEntry
  lan : PeerEntry
  topics : List UInt32
deriving DecidableEq

/-- What rlcore lists the group's topics under. -/
def Group.registrant (cfg : Config) (g : Group) : PeerEntry := if cfg.natMode then g.src else g.lan

/-- `peers_`: what the node knows, in the order learned. -/
abbrev Peers := ExtTreeMap UInt32 (List PeerEntry)

def Peers.knows (peers : Peers) (topic : UInt32) : Bool := (peers.getD topic []) ≠ []

def addIfNew (peers : Peers) (topic : UInt32) (addr : PeerEntry) : Peers :=
  let known := peers.getD topic []
  peers.insert topic (if addr ∈ known then known else known ++ [addr])

/-- A peer's address and, if it has another one, its LAN candidate. -/
def mergePeer (peers : Peers) (p : RegisterAckPeer) : Peers :=
  let peers := addIfNew peers p.topicId ⟨p.ip, p.port⟩
  if p.lanIp ≠ 0 ∧ ¬ (p.lanIp = p.ip ∧ p.lanPort = p.port) then
    addIfNew peers p.topicId ⟨p.lanIp, p.lanPort⟩
  else peers

/-- A listed peer names an address for its topic. -/
def Names (p : RegisterAckPeer) (topic : UInt32) (addr : PeerEntry) : Prop :=
  p.topicId = topic ∧ (addr = ⟨p.ip, p.port⟩ ∨ p.lanIp ≠ 0 ∧ addr = ⟨p.lanIp, p.lanPort⟩)

theorem mem_addIfNew {peers : Peers} {topic topic' : UInt32} {addr known : PeerEntry}
    (h : known ∈ (addIfNew peers topic addr).getD topic' []) :
    topic = topic' ∧ known = addr ∨ known ∈ peers.getD topic' [] := by
  rw [addIfNew, ExtTreeMap.getD_insert] at h
  split at h
  · next heq =>
    obtain rfl := Std.compare_eq_iff_eq.mp heq
    split at h
    · exact Or.inr h
    · rcases List.mem_append.mp h with h | h
      · exact Or.inr h
      · exact Or.inl ⟨rfl, List.mem_singleton.mp h⟩
  · exact Or.inr h

theorem mem_mergePeer {peers : Peers} {p : RegisterAckPeer} {topic : UInt32} {addr : PeerEntry}
    (h : addr ∈ (mergePeer peers p).getD topic []) :
    Names p topic addr ∨ addr ∈ peers.getD topic [] := by
  rw [mergePeer] at h
  have hfirst : addr ∈ (addIfNew peers p.topicId ⟨p.ip, p.port⟩).getD topic [] →
      Names p topic addr ∨ addr ∈ peers.getD topic [] := fun h =>
    (mem_addIfNew h).imp (fun hnew => ⟨hnew.1, Or.inl hnew.2⟩) id
  split at h
  · next hlan =>
    rcases mem_addIfNew h with ⟨htopic, haddr⟩ | h
    · exact Or.inl ⟨htopic, Or.inr ⟨hlan.1, haddr⟩⟩
    · exact hfirst h
  · exact hfirst h

/-! ### What a tick sends -/

inductive Build where
  | cpp
  | python
deriving DecidableEq, Repr

def fullSweep (tick : Nat) : Bool := tick % 10 = 0

/-- The C++ build leaves out the topics it knows a peer of, except on a sweep. -/
def toRegister (tick : Nat) (peers : Peers) (g : Group) : Option (List UInt32) :=
  if fullSweep tick then some g.topics
  else
    let pending := g.topics.filter fun topic => !peers.knows topic
    if pending = [] then none else some pending

/-- The Python build sends the whole group unless it knows a peer of every topic. -/
def Py.toRegister (tick : Nat) (peers : Peers) (g : Group) : Option (List UInt32) :=
  if !fullSweep tick && g.topics.all peers.knows then none else some g.topics

def Build.toRegister : Build → Nat → Peers → Group → Option (List UInt32)
  | .cpp => Rlcore.toRegister
  | .python => Py.toRegister

def Build.readReply : Build → Config → Bytes → Option (UInt8 × List RegisterAckPeer)
  | .cpp => Rlcore.readReply
  | .python => Py.readReply

/-- The peers of the reply, if there is one that reads as an ack of status 0. -/
def Build.outcome (build : Build) (cfg : Config) (sends : List Send) : List RegisterAckPeer :=
  match sends.head?.bind fun send => build.readReply cfg send.2 with
  | none => []
  | some (status, peers) => if status = 0 then peers else []

/-- A topic with no known peer goes with every tick, and on a sweep every topic does. -/
theorem Build.toRegister_sends (build : Build) (tick : Nat) (peers : Peers) {g : Group}
    {topic : UInt32} (hmem : topic ∈ g.topics) (h : fullSweep tick ∨ peers.knows topic = false) :
    ∃ topics, build.toRegister tick peers g = some topics ∧ topic ∈ topics := by
  cases build with
  | cpp =>
    simp only [Build.toRegister, Rlcore.toRegister]
    by_cases hsweep : fullSweep tick
    · exact ⟨g.topics, if_pos hsweep, hmem⟩
    · rw [if_neg hsweep]
      have hpending : topic ∈ g.topics.filter fun topic => !peers.knows topic := by
        rw [List.mem_filter]
        exact ⟨hmem, by rw [h.resolve_left hsweep]; rfl⟩
      exact ⟨_, if_neg (List.ne_nil_of_mem hpending), hpending⟩
  | python =>
    refine ⟨g.topics, if_neg ?_, hmem⟩
    rw [Bool.and_eq_true, List.all_eq_true, Bool.not_eq_true']
    intro ⟨hsweep, hall⟩
    rcases h with h | h
    · rw [h] at hsweep
      cases hsweep
    · rw [hall topic hmem] at h
      cases h

/-! ### The node and the daemon -/

/-- `todo` is what is left of the current tick, and `woke` is when it began; `sentAt`
records when the loop last sent a topic for a registrant. -/
structure World where
  rlcore : State
  groups : List Group
  peers : Peers
  tick : Nat
  todo : List Group
  woke : Time
  sentAt : TopicPeer → Option Time

/-- How one request reaches the daemon: its bytes, when the daemon last expired its tables
before handling it, and the nonce its reply draws. -/
structure Exchange where
  bytes : Bytes
  pruneAt : Time
  nonce : Nonce

inductive Event where
  /-- A turn of the daemon that is none of the node's calls. -/
  | turn (turn : Turn)
  /-- The loop's next tick, after a delay. -/
  | wake (delay : Time)
  /-- The tick's call for a group. -/
  | call (g : Group) (x : Exchange)

section
variable (cfg : Config) (build : Build)

/-- The turn of the daemon that handles a call. -/
def Exchange.turn (x : Exchange) (w : World) (g : Group) : Turn :=
  ⟨x.pruneAt, w.woke, x.nonce, some ⟨g.src, x.bytes⟩⟩

/-- The loop's record of what it sent. -/
def noteSent (w : World) (g : Group) (topics : List UInt32) (key : TopicPeer) : Option Time :=
  if key.peer = g.registrant cfg ∧ key.topic ∈ topics then some w.woke else w.sentAt key

def callGroup (w : World) (g : Group) (x : Exchange) : World :=
  let w := {w with todo := w.todo.erase g}
  match build.toRegister w.tick w.peers g with
  | none => w
  | some topics =>
    let r := step cfg w.rlcore (x.turn w g)
    { w with
      rlcore := r.1
      peers := (build.outcome cfg r.2).foldl mergePeer w.peers
      sentAt := noteSent cfg w g topics }

def World.step (w : World) : Event → World
  | .turn turn => {w with rlcore := (Rlcore.step cfg w.rlcore turn).1}
  | .wake delay => {w with tick := w.tick + 1, todo := w.groups, woke := w.woke + delay}
  | .call g x => callGroup cfg build w g x

/-- When an event makes the daemon expire its tables. -/
def prunedAt (w : World) : Event → Option Time
  | .turn turn => some turn.pruneAt
  | .wake _ => none
  | .call g x => (build.toRegister w.tick w.peers g).map fun _ => x.pruneAt

/-- The daemon takes the bytes for the group's request. -/
def Exchange.Handled (x : Exchange) (g : Group) (topics : List UInt32) : Prop :=
  dispatch cfg.relayMode x.bytes = .registration ∧
    WellFormed (openRequest cfg x.bytes) g.lan topics

/-- What can happen next. Ticks come in time, each call of a tick is made once and before
the next tick, its request is handled, and other senders register other addresses. -/
def Allowed (w : World) : Event → Prop
  | .turn turn => ∀ r ∈ turn.request cfg, ∀ g ∈ w.groups, identity cfg r.1 r.2 ≠ g.registrant cfg
  | .wake delay => w.todo = [] ∧ 3 / 10 ≤ delay ∧ delay ≤ 6 / 10
  | .call g x => g ∈ w.todo ∧
      ∀ topics ∈ build.toRegister w.tick w.peers g, x.Handled cfg g topics

instance (x : Exchange) (g : Group) (topics : List UInt32) : Decidable (x.Handled cfg g topics) :=
  inferInstanceAs (Decidable (_ ∧ _))

instance (w : World) (e : Event) : Decidable (Allowed cfg build w e) :=
  match e with
  | .turn turn => inferInstanceAs (Decidable
      (∀ r ∈ turn.request cfg, ∀ g ∈ w.groups, identity cfg r.1 r.2 ≠ g.registrant cfg))
  | .wake delay => inferInstanceAs (Decidable (w.todo = [] ∧ 3 / 10 ≤ delay ∧ delay ≤ 6 / 10))
  | .call g x => inferInstanceAs (Decidable (g ∈ w.todo ∧
      ∀ topics ∈ build.toRegister w.tick w.peers g, x.Handled cfg g topics))

end

end Relink.Rlcore
