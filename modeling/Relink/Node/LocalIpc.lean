import Mathlib.Logic.Function.Basic
import Relink.Library.Fair
import Relink.Shm.Fifo

/-! Local IPC of the nodes of a host.

A node has one ring for a topic, in the segment of the topic's name, whoever else has opened it. It
pushes there when it publishes, and the thread that `subscribe_local_ipc` starts pops there, one
message from each of the node's rings in turn. A node that stops unlinks the names of the segments
it created; who has a segment open keeps it, and who opens the name next creates another. Each
access to a ring is one of `Shm.Ring`, of any number of publishing threads and of a polling thread
for each node. -/
namespace Relink.Node.LocalIpc
open Shm (Params Msg PushPc PopPc)
open Transition
open Wire (Bytes)

/-! ### Nodes on a host -/

/-- The segments that were created under a topic's name, by number. -/
@[ext] structure SegmentId where
  topicId : UInt32
  number : Nat
deriving DecidableEq

/-- A node's `ShmRing`. -/
structure ShmRing where
  number : Nat
  creator : Bool
deriving DecidableEq

/-- The polling thread. -/
inductive PollPc where
  | unstarted
  /-- `while (!stop_requested_.load())`. -/
  | check
  | snapshot
  | visit (rings : List SegmentId)
  | pop (segment : SegmentId) (pc : PopPc) (rings : List SegmentId)
  | exited
deriving DecidableEq

/-- `since` counts what was accepted on a topic before the node subscribed. -/
structure RelinkNode where
  shmRings : UInt32 → Option ShmRing := fun _ => none
  shmHandlers : List UInt32 := []
  shmSeq : UInt32 → UInt32 := fun _ => 0
  stopRequested : Bool := false
  poll : PollPc := .unstarted
  since : UInt32 → Nat := fun _ => 0
  delivered : UInt32 → List Bytes := fun _ => []

/-- A thread in `publish_local_ipc`, at its push. -/
structure Publishing where
  node : Nat
  segment : SegmentId
  payload : Bytes
  pc : PushPc

/-- A payload that was accepted, and where. -/
structure Accepted where
  number : Nat
  payload : Bytes
deriving DecidableEq

/-- A topic's name is linked to the segment it opens. A ring has no program counters here; they are
in its threads. -/
structure Host where
  linked : UInt32 → Option Nat := fun _ => none
  created : UInt32 → Nat := fun _ => 0
  ring : SegmentId → Shm.State
  nodes : Nat → RelinkNode := fun _ => {}
  publishing : Nat → Option Publishing := fun _ => none
  accepted : UInt32 → List Accepted := fun _ => []

inductive Act where
  | advertise (n : Nat) (topicId : UInt32)
  | subscribe (n : Nat) (topicId : UInt32)
  /-- A thread calls `publish_local_ipc`. -/
  | publish (tid n : Nat) (topicId : UInt32) (payload : Bytes)
  | requestStop (n : Nat)
  /-- The thread's push makes its next access. -/
  | push (tid : Nat)
  /-- The node's polling thread goes on. -/
  | poll (n : Nat)
deriving DecidableEq

namespace RelinkNode
variable (node : RelinkNode) (topicId : UInt32)

def segment : Option SegmentId := (node.shmRings topicId).map fun r => ⟨topicId, r.number⟩

/-- The rings a turn of the loop visits. -/
def polled : List SegmentId := node.shmHandlers.filterMap node.segment

/-- It has a handler, and keeps running. -/
def Subscribed : Prop := topicId ∈ node.shmHandlers ∧ node.stopRequested = false

/-- Its thread may still pop for the topic. -/
def Polls : Prop := topicId ∈ node.shmHandlers ∧ node.poll ≠ .exited

/-- The segment its thread pops from. -/
def popping : Option SegmentId :=
  match node.poll with
  | .pop segment _ _ => some segment
  | _ => none

/-- A handler, which stays when it is registered again; the thread starts once. -/
def subscribe (accepted : Nat) : RelinkNode :=
  { node with
    shmHandlers := if topicId ∈ node.shmHandlers then node.shmHandlers
      else node.shmHandlers ++ [topicId]
    since := if topicId ∈ node.shmHandlers then node.since
      else Function.update node.since topicId accepted
    poll := if node.poll = .unstarted then .check else node.poll }

end RelinkNode

namespace Host
variable (p : Params) (w : Host)

/-- No segment exists yet; a new one is zero. -/
def empty : Host := {ring := fun _ => Shm.fresh (List.replicate (p.capacity * p.slotSize) 0)}

def setNode (n : Nat) (node : RelinkNode) : Host := {w with nodes := Function.update w.nodes n node}

def setRing (segment : SegmentId) (ring : Shm.State) : Host :=
  {w with ring := Function.update w.ring segment ring}

def setPublishing (tid : Nat) (publishing : Option Publishing) : Host :=
  {w with publishing := Function.update w.publishing tid publishing}

/-- `ShmRing::open` creates the segment, or attaches to it: it is compatible, and its creator
lives. -/
def openRing (topicId : UInt32) : ShmRing :=
  match w.linked topicId with
  | some number => ⟨number, false⟩
  | none => ⟨w.created topicId, true⟩

/-- The segment a node has for a topic, or would open. -/
def segmentFor (n : Nat) (topicId : UInt32) : SegmentId :=
  ((w.nodes n).segment topicId).getD ⟨topicId, (w.openRing topicId).number⟩

def advertiseLocalIpc (n : Nat) (topicId : UInt32) : Host :=
  match (w.nodes n).shmRings topicId with
  | some _ => w
  | none =>
    let r := w.openRing topicId
    { w.setNode n {w.nodes n with shmRings := Function.update (w.nodes n).shmRings topicId (some r)} with
      linked := Function.update w.linked topicId (some r.number)
      created := if r.creator then Function.update w.created topicId (w.created topicId + 1)
        else w.created }

def subscribeLocalIpc (n : Nat) (topicId : UInt32) : Host :=
  let w := w.advertiseLocalIpc n topicId
  w.setNode n ((w.nodes n).subscribe topicId (w.accepted topicId).length)

/-- `seq` is drawn under the lock, and `len` becomes a `uint32_t`. -/
def publishLocalIpc (tid n : Nat) (topicId : UInt32) (payload : Bytes) : Host :=
  match w.publishing tid, (w.nodes n).segment topicId with
  | none, some segment =>
    let node := w.nodes n
    let seq := node.shmSeq topicId
    let m : Msg := ⟨seq, payload.take (payload.length % 2 ^ 32)⟩
    let pc := (Shm.startPush p {w.ring segment with push := .idle} m).push
    (w.setNode n {node with shmSeq := Function.update node.shmSeq topicId (seq + 1)}).setPublishing
      tid (if pc = .idle then none else some ⟨n, segment, payload, pc⟩)
  | _, _ => w

/-- Whatever segment the name of a ring it created is linked to now, that link goes. -/
def requestStop (n : Nat) : Host :=
  { w.setNode n {w.nodes n with stopRequested := true} with
    linked := fun topicId =>
      if ((w.nodes n).shmRings topicId).any (·.creator) then none else w.linked topicId }

def pushStep (tid : Nat) : Host :=
  match w.publishing tid with
  | none => w
  | some b =>
    let before := {w.ring b.segment with push := b.pc}
    let ring := Shm.producerStep p before
    let w := (w.setRing b.segment ring).setPublishing tid
      (if ring.push = .idle then none else some {b with pc := ring.push})
    { w with
      accepted := if ring.accepted.length = before.accepted.length then w.accepted
        else Function.update w.accepted b.segment.topicId
          (w.accepted b.segment.topicId ++ [⟨b.segment.number, b.payload⟩]) }

/-- The next access of a pop; the callback gets what the ring hands over. -/
def popStep (n : Nat) (segment : SegmentId) (pc : PopPc) (rings : List SegmentId) : Host :=
  let before := {w.ring segment with pop := pc}
  let ring := Shm.consumerStep p before
  let node := w.nodes n
  (w.setRing segment ring).setNode n
    { node with
      poll := if ring.pop = .idle then .visit rings else .pop segment ring.pop rings
      delivered := Function.update node.delivered segment.topicId (node.delivered segment.topicId ++
        (ring.delivered.drop before.delivered.length).map (·.payload)) }

def pollStep (n : Nat) : Host :=
  let node := w.nodes n
  match node.poll with
  | .unstarted => w
  | .check => w.setNode n {node with poll := if node.stopRequested then .exited else .snapshot}
  | .snapshot => w.setNode n {node with poll := .visit node.polled}
  | .visit [] => w.setNode n {node with poll := .check}
  | .visit (segment :: rings) =>
    -- The handler is found again; then the first access is the load of `head`.
    let pc := (Shm.startPop {w.ring segment with pop := .idle} .zeroCopy).pop
    w.setNode n {node with poll := .pop segment pc rings}
  | .pop segment pc rings => w.popStep p n segment pc rings
  | .exited => w

def step : Act → Host
  | .advertise n topicId => w.advertiseLocalIpc n topicId
  | .subscribe n topicId => w.subscribeLocalIpc n topicId
  | .publish tid n topicId payload => w.publishLocalIpc p tid n topicId payload
  | .requestStop n => w.requestStop n
  | .push tid => w.pushStep p tid
  | .poll n => w.pollStep p n

/-! ### One end each per segment, and what a subscriber is handed -/

/-- No segment is pushed to by two nodes, or popped from by two. -/
structure Exclusive : Prop where
  push : ∀ tid tid' b b', w.publishing tid = some b → w.publishing tid' = some b' →
    b.segment = b'.segment → b.node = b'.node
  pop : ∀ n n' segment, (w.nodes n).popping = some segment → (w.nodes n').popping = some segment →
    n = n'

/-- What a callback reads stays as it is. -/
def Unwritten (w' : Host) : Prop :=
  ∀ n segment pc rings head, (w.nodes n).poll = .pop segment pc rings → pc.reading = some head →
    Shm.slotBytes p (w'.ring segment) head = Shm.slotBytes p (w.ring segment) head

/-- The payloads that were accepted on a topic. -/
def published (topicId : UInt32) : List Bytes := (w.accepted topicId).map (·.payload)

/-- A node was handed, each once and in order, what waited in its ring when it subscribed, and then
what was accepted since; at least what was among the first `count` that the topic accepted. -/
def Handed (n : Nat) (topicId : UInt32) (count : Nat) : Prop :=
  let since := (w.nodes n).since topicId
  let delivered := (w.nodes n).delivered topicId
  ∃ backlog, backlog.Sublist ((w.published topicId).take since) ∧
    delivered <+: backlog ++ (w.published topicId).drop since ∧
    (since < count → backlog.length + (count - since) ≤ delivered.length)

/-- A push starts where no other one is going on, and where all the topic's subscribers pop; its
length is a `uint32_t`. A node subscribes to a segment that no other one polls, and that the pushes
of the topic are going to. -/
def Sole : Act → Prop
  | .publish _ n topicId payload => ∀ segment, (w.nodes n).segment topicId = some segment →
    payload.length % 2 ^ 32 ≤ p.maxPayload → payload.length < 2 ^ 32 ∧
      (∀ tid b, w.publishing tid = some b → b.segment ≠ segment) ∧
      ∀ m, (w.nodes m).Subscribed topicId → (w.nodes m).segment topicId = some segment
  | .subscribe n topicId =>
    (∀ m, m ≠ n → (w.nodes m).Polls topicId →
      (w.nodes m).segment topicId ≠ some (w.segmentFor n topicId)) ∧
    ∀ tid b, w.publishing tid = some b → b.segment.topicId = topicId →
      b.segment = w.segmentFor n topicId
  | _ => True

end Host

/-- The host before each step of a run. -/
def hosts (p : Params) (run : Nat → Act) : Nat → Host := after (Host.step p) (Host.empty p) run

/-- A node is not stopped, and its polling thread is scheduled again and again. -/
def KeepsPolling (run : Nat → Act) (n i : Nat) : Prop :=
  (∀ j, i ≤ j → run j ≠ .requestStop n) ∧ ∀ j, ∃ k, j ≤ k ∧ run k = .poll n

/-- Of every state of a run: each segment has one node at either end, and every subscriber is
handed all messages in order, none twice; if it keeps polling, also those accepted up to now. -/
def DeliversOnce (p : Params) (run : Nat → Act) : Prop :=
  ∀ i, (hosts p run i).Exclusive ∧ (hosts p run i).Unwritten p (hosts p run (i + 1)) ∧
    ∀ n topicId, ((hosts p run i).nodes n).Subscribed topicId →
      (hosts p run i).Handed n topicId 0 ∧ (KeepsPolling run n i →
        ∃ j, i ≤ j ∧ (hosts p run j).Handed n topicId ((hosts p run i).accepted topicId).length)

end Relink.Node.LocalIpc
