import Mathlib.Logic.Function.Basic
import Relink.Library.Run
import Relink.Node.LocalIpc
import Relink.Shm.Calls

/-! Local IPC across restarts.

Nodes of the processes of a host open the rings of topics, publish, poll and stop, call by call, and
processes crash, also in the middle of an `open`; who starts again is another process with other
nodes. A creator that stops unlinks the name of its segment, while whoever else has it open keeps
it. Nodes stay together exactly while no running node opens a topic whose name is not linked to
the segment that the others have. -/
namespace Relink.Node.Restart
open LocalIpc (SegmentId ShmRing)
open Shm (Params Msg Segment tryPush tryPop popped)
open Transition
open Wire (Bytes)

/-! ### Segments, nodes and processes -/

/-- How far the creator of a segment got. Once `magic` is set, `creator_pid` is its process. -/
inductive Header where
  | unsized
  | initializing
  | published (creator : Nat)
deriving DecidableEq

structure RelinkNode where
  shmRings : UInt32 → Option ShmRing := fun _ => none
  shmHandlers : List UInt32 := []
  shmSeq : UInt32 → UInt32 := fun _ => 0
  stopRequested : Bool := false
  delivered : UInt32 → List Bytes := fun _ => []

/-- A topic's name is linked to the segment it opens. -/
structure Host where
  linked : UInt32 → Option Nat := fun _ => none
  created : UInt32 → Nat := fun _ => 0
  header : SegmentId → Header := fun _ => .unsized
  ring : SegmentId → Segment
  nodes : Nat → RelinkNode := fun _ => {}
  crashed : Nat → Bool := fun _ => false

/-- `answers` is what `kill` finds of a creator that has crashed: its pid may be taken again. -/
inductive Act where
  | advertise (n : Nat) (topicId : UInt32) (answers : Bool)
  | subscribe (n : Nat) (topicId : UInt32) (answers : Bool)
  | publish (n : Nat) (topicId : UInt32) (payload : Bytes)
  | poll (n : Nat) (topicId : UInt32)
  | requestStop (n : Nat)
  | crash (q : Nat)
  /-- The node's process dies in `open`, after so many of the accesses that change the segment. -/
  | crashOpening (n : Nat) (topicId : UInt32) (answers : Bool) (stores : Nat)
deriving DecidableEq

def Act.caller : Act → Option Nat
  | .advertise n _ _ => some n
  | .subscribe n _ _ => some n
  | .publish n _ _ => some n
  | .poll n _ => some n
  | .requestStop n => some n
  | .crash _ => none
  | .crashOpening n _ _ _ => some n

/-- What `ShmRing::open` comes to. -/
inductive Opened where
  | creates
  | attaches (number : Nat)
  | takesOver (number : Nat)
  /-- No `magic` until the deadline. -/
  | fails
  /-- The segment has no bytes yet. -/
  | busError

namespace RelinkNode
variable (node : RelinkNode) (topicId : UInt32)

def number : Option Nat := (node.shmRings topicId).map (·.number)

def emplace (r : ShmRing) : RelinkNode :=
  {node with shmRings := Function.update node.shmRings topicId (some r)}

/-- A handler stays when it is registered again. -/
def addHandler : RelinkNode :=
  { node with
    shmHandlers := if topicId ∈ node.shmHandlers then node.shmHandlers
      else node.shmHandlers ++ [topicId] }

/-- `seq` is drawn under the lock, and `len` becomes a `uint32_t`. -/
def msg (payload : Bytes) : Msg :=
  ⟨node.shmSeq topicId, payload.take (payload.length % 2 ^ 32)⟩

def drawSeq : RelinkNode :=
  {node with shmSeq := Function.update node.shmSeq topicId (node.shmSeq topicId + 1)}

/-- The callback. -/
def deliver (msg : Option Msg) : RelinkNode :=
  { node with
    delivered := Function.update node.delivered topicId
      (node.delivered topicId ++ (msg.map (·.payload)).toList) }

@[simp] theorem deliver_self (msg : Option Msg) :
    (node.deliver topicId msg).delivered topicId =
      node.delivered topicId ++ (msg.map (·.payload)).toList :=
  Function.update_self topicId _ node.delivered

end RelinkNode

namespace Host

/-- No segment exists yet; a new one is zero. -/
def empty (p : Params) : Host :=
  {ring := fun _ => ⟨0, 0, List.replicate (p.capacity * p.slotSize) 0⟩}

variable (process : Nat → Nat) (p : Params) (w : Host)

def setNode (n : Nat) (node : RelinkNode) : Host := {w with nodes := Function.update w.nodes n node}

def setRing (segment : SegmentId) (ring : Segment) : Host :=
  {w with ring := Function.update w.ring segment ring}

def setHeader (segment : SegmentId) (header : Header) : Host :=
  {w with header := Function.update w.header segment header}

def crash (q : Nat) : Host := {w with crashed := Function.update w.crashed q true}

/-- Its node's calls are served. -/
def Alive (n : Nat) : Prop := w.crashed (process n) = false

instance (n : Nat) : Decidable (w.Alive process n) := inferInstanceAs (Decidable (_ = _))

/-! ### The calls -/

def opens (topicId : UInt32) (answers : Bool) : Opened :=
  match w.linked topicId with
  | none => .creates
  | some number =>
    match w.header ⟨topicId, number⟩ with
    | .unsized => .busError
    | .initializing => .fails
    | .published creator =>
      if w.crashed creator = true ∧ answers = false then .takesOver number else .attaches number

/-- `shm_open` makes the segment. -/
def create (topicId : UInt32) : Host :=
  { w with
    linked := Function.update w.linked topicId (some (w.created topicId))
    created := Function.update w.created topicId (w.created topicId + 1) }

/-- The indices, after so many of: `ftruncate` or the compare-exchange, `version`, `slot_size`,
`capacity`, `head`, `tail`. -/
def initIndices (stores : Nat) (ring : Segment) : Segment :=
  { ring with
    head := if 5 ≤ stores then 0 else ring.head
    tail := if 6 ≤ stores then 0 else ring.tail }

/-- `init_as_creator`, and its death after so many accesses, if it dies. -/
def initAsCreator (q : Nat) (segment : SegmentId) (died : Option Nat) : Host :=
  match died with
  | none => (w.setRing segment (initIndices 6 (w.ring segment))).setHeader segment (.published q)
  | some 0 => w
  | some stores =>
    (w.setRing segment (initIndices stores (w.ring segment))).setHeader segment .initializing

/-- `ShmRing::open`. -/
def openRing (n : Nat) (topicId : UInt32) (answers : Bool) (died : Option Nat) :
    Host × Option ShmRing :=
  match w.opens topicId answers with
  | .creates =>
    ((w.create topicId).initAsCreator (process n) ⟨topicId, w.created topicId⟩ died,
      some ⟨w.created topicId, true⟩)
  | .attaches number => (w, some ⟨number, false⟩)
  | .takesOver number =>
    (w.initAsCreator (process n) ⟨topicId, number⟩ died, some ⟨number, true⟩)
  | .fails => (w, none)
  | .busError => (w.crash (process n), none)

/-- Whether it returned true. -/
def advertiseLocalIpc (n : Nat) (topicId : UInt32) (answers : Bool) : Host × Bool :=
  match (w.nodes n).shmRings topicId with
  | some _ => (w, true)
  | none =>
    match w.openRing process n topicId answers none with
    | (w', none) => (w', false)
    | (w', some r) => (w'.setNode n ((w'.nodes n).emplace topicId r), true)

def subscribeLocalIpc (n : Nat) (topicId : UInt32) (answers : Bool) : Host × Bool :=
  match w.advertiseLocalIpc process n topicId answers with
  | (w', false) => (w', false)
  | (w', true) => (w'.setNode n ((w'.nodes n).addHandler topicId), true)

def publishLocalIpc (n : Nat) (topicId : UInt32) (payload : Bytes) : Host × Bool :=
  match (w.nodes n).number topicId with
  | none => (w, false)
  | some number =>
    let push := tryPush p (w.ring ⟨topicId, number⟩) ((w.nodes n).msg topicId payload)
    ((w.setRing ⟨topicId, number⟩ push.1).setNode n ((w.nodes n).drawSeq topicId), push.2)

/-- The polling thread comes to the topic's ring. -/
def pollRing (n : Nat) (topicId : UInt32) : Host :=
  match (w.nodes n).number topicId with
  | none => w
  | some number =>
    if topicId ∈ (w.nodes n).shmHandlers ∧ (w.nodes n).stopRequested = false then
      let pop := tryPop p (w.ring ⟨topicId, number⟩)
      (w.setRing ⟨topicId, number⟩ pop.1).setNode n ((w.nodes n).deliver topicId pop.2)
    else w

/-- Whatever segment the name of a ring it created is linked to now, that link goes. -/
def requestStop (n : Nat) : Host :=
  { w.setNode n {w.nodes n with stopRequested := true} with
    linked := fun topicId =>
      if ((w.nodes n).shmRings topicId).any (·.creator) then none else w.linked topicId }

def crashOpening (n : Nat) (topicId : UInt32) (answers : Bool) (stores : Nat) : Host :=
  match (w.nodes n).shmRings topicId with
  | some _ => w
  | none => (w.openRing process n topicId answers (some stores)).1.crash (process n)

def call : Act → Host
  | .advertise n topicId answers => (w.advertiseLocalIpc process n topicId answers).1
  | .subscribe n topicId answers => (w.subscribeLocalIpc process n topicId answers).1
  | .publish n topicId payload => (w.publishLocalIpc p n topicId payload).1
  | .poll n topicId => w.pollRing p n topicId
  | .requestStop n => w.requestStop n
  | .crash q => w.crash q
  | .crashOpening n topicId answers stores => w.crashOpening process n topicId answers stores

/-- A node whose process has crashed does nothing. -/
def step (a : Act) : Host :=
  if ∀ n ∈ a.caller, w.Alive process n then w.call process p a else w

/-! ### A segment in common, and the restarts that keep it -/

/-- It runs, and has not stopped. -/
def Running (n : Nat) : Prop := w.Alive process n ∧ (w.nodes n).stopRequested = false

/-- A running node has the topic open in a segment. -/
def Has (n : Nat) (topicId : UInt32) (number : Nat) : Prop :=
  w.Running process n ∧ (w.nodes n).number topicId = some number

instance (n : Nat) (topicId : UInt32) (number : Nat) : Decidable (w.Has process n topicId number) :=
  inferInstanceAs (Decidable ((_ = _ ∧ _ = _) ∧ _ = _))

/-- What one node gets accepted, the other one is handed after enough polls. -/
def Reaches (n m : Nat) (topicId : UInt32) : Prop :=
  ∀ payload, (w.publishLocalIpc p n topicId payload).2 = true →
    ∃ (polls : Nat) (earlier : List Bytes),
      let w' := (.publish n topicId payload :: List.replicate polls (.poll m topicId)).foldl
        (step process p) w
      (w'.nodes m).delivered topicId = (w.nodes m).delivered topicId ++ earlier ++
        [((w.nodes n).msg topicId payload).payload]

/-- Running nodes with a topic open have one segment, and the subscribed ones can be reached. -/
def Together : Prop :=
  ∀ n m topicId number number', w.Has process n topicId number → w.Has process m topicId number' →
    number = number' ∧
      (topicId ∈ (w.nodes m).shmHandlers → w.Reaches process p n m topicId)

/-- The topic's name can be opened. -/
def Ready (topicId : UInt32) : Prop :=
  ∀ number, w.linked topicId = some number →
    ∃ creator, w.header ⟨topicId, number⟩ = .published creator

/-- Running nodes with a topic open have one segment. -/
def OneSegment : Prop :=
  ∀ n m topicId number number', w.Has process n topicId number → w.Has process m topicId number' →
    number = number'

/-- A running node opens a topic, and is not told that it failed. -/
def Opening (n : Nat) (topicId : UInt32) : Prop :=
  w.Running process n ∧ (w.nodes n).number topicId = none ∧ w.Ready topicId

/-- The name of a topic that a running node opens is linked to the segment that others have. -/
def Joins : Act → Prop
  | .advertise n topicId _ | .subscribe n topicId _ => w.Opening process n topicId →
    ∀ m number, w.Has process m topicId number → w.linked topicId = some number
  | _ => True

/-- Segments were created before they are linked or opened, and their indices are inside. -/
structure Inv : Prop where
  linked : ∀ topicId number, w.linked topicId = some number → number < w.created topicId
  opened : ∀ n topicId number, (w.nodes n).number topicId = some number → number < w.created topicId
  sound : ∀ segment, (w.ring segment).Sound p

/-- The segment that `open` finds or makes. -/
def target (topicId : UInt32) : Nat := (w.linked topicId).getD (w.created topicId)

/-! ### Opening -/

section
variable {process : Nat → Nat} {p : Params} {w : Host} {n m q : Nat} {topicId : UInt32}
  {answers : Bool} {died : Option Nat} {segment : SegmentId}

@[simp] theorem setNode_self (node : RelinkNode) : (w.setNode n node).nodes n = node := by
  simp [setNode]

theorem setNode_of_ne (node : RelinkNode) (h : m ≠ n) : (w.setNode n node).nodes m = w.nodes m := by
  simp [setNode, h]

@[simp] theorem setRing_self (ring : Segment) : (w.setRing segment ring).ring segment = ring := by
  simp [setRing]

theorem setRing_of_ne {segment' : SegmentId} (ring : Segment) (h : segment' ≠ segment) :
    (w.setRing segment ring).ring segment' = w.ring segment' := by
  simp [setRing, h]

@[simp] theorem create_linked_self : (w.create topicId).linked topicId = some (w.created topicId) :=
  Function.update_self topicId _ w.linked

@[simp] theorem create_created_self :
    (w.create topicId).created topicId = w.created topicId + 1 :=
  Function.update_self topicId _ w.created

theorem create_linked_of_ne {topicId' : UInt32} (h : topicId' ≠ topicId) :
    (w.create topicId).linked topicId' = w.linked topicId' :=
  Function.update_of_ne h _ w.linked

theorem create_created_of_ne {topicId' : UInt32} (h : topicId' ≠ topicId) :
    (w.create topicId).created topicId' = w.created topicId' :=
  Function.update_of_ne h _ w.created

theorem initAsCreator_frame : (w.initAsCreator q segment died).nodes = w.nodes ∧
    (w.initAsCreator q segment died).crashed = w.crashed ∧
    (w.initAsCreator q segment died).linked = w.linked ∧
    (w.initAsCreator q segment died).created = w.created := by
  rcases died with _ | _ | _
  · exact ⟨rfl, rfl, rfl, rfl⟩
  · exact ⟨rfl, rfl, rfl, rfl⟩
  · exact ⟨rfl, rfl, rfl, rfl⟩

/-- What `open` comes to is told by its name and by the header. -/
theorem opens_cases (w : Host) (topicId : UInt32) (answers : Bool) :
    (w.linked topicId = none ∧ w.opens topicId answers = .creates) ∨
      ∃ number, w.linked topicId = some number ∧
        (((∃ creator, w.header ⟨topicId, number⟩ = .published creator) ∧
            (w.opens topicId answers = .attaches number ∨
              w.opens topicId answers = .takesOver number)) ∨
          ((∀ creator, w.header ⟨topicId, number⟩ ≠ .published creator) ∧
            (w.opens topicId answers = .fails ∨ w.opens topicId answers = .busError))) := by
  unfold opens
  cases hlinked : w.linked topicId with
  | none => exact Or.inl ⟨rfl, rfl⟩
  | some number =>
    refine Or.inr ⟨number, rfl, ?_⟩
    simp only
    cases hheader : w.header ⟨topicId, number⟩ with
    | unsized => exact Or.inr ⟨fun _ h => (nomatch h), Or.inr rfl⟩
    | initializing => exact Or.inr ⟨fun _ h => (nomatch h), Or.inl rfl⟩
    | published creator =>
      refine Or.inl ⟨⟨creator, rfl⟩, ?_⟩
      simp only
      split
      · exact Or.inr rfl
      · exact Or.inl rfl

/-- A successful `open` leads to the target, and costs nobody their life. -/
theorem openRing_ready (process : Nat → Nat) (h : w.Ready topicId) (n : Nat) (answers : Bool)
    (died : Option Nat) :
    ∃ creator, (w.openRing process n topicId answers died).2 = some ⟨w.target topicId, creator⟩ ∧
      (w.openRing process n topicId answers died).1.nodes = w.nodes ∧
      (w.openRing process n topicId answers died).1.crashed = w.crashed := by
  unfold openRing target
  rcases opens_cases w topicId answers with
    ⟨hnone, hopens⟩ | ⟨number, hsome, ⟨_, hopens | hopens⟩ | ⟨hnot, _⟩⟩
  · rw [hnone, hopens]
    exact ⟨true, rfl, initAsCreator_frame.1, initAsCreator_frame.2.1⟩
  · rw [hsome, hopens]
    exact ⟨false, rfl, rfl, rfl⟩
  · rw [hsome, hopens]
    exact ⟨true, rfl, initAsCreator_frame.1, initAsCreator_frame.2.1⟩
  · obtain ⟨creator, hcreator⟩ := h number hsome
    exact absurd hcreator (hnot creator)

/-- Any other one fails; an access past the end kills. -/
theorem openRing_not_ready (process : Nat → Nat) (h : ¬ w.Ready topicId) (n : Nat)
    (answers : Bool) (died : Option Nat) :
    (w.openRing process n topicId answers died).2 = none ∧
      ((w.openRing process n topicId answers died).1 = w ∨
        (w.openRing process n topicId answers died).1 = w.crash (process n)) := by
  unfold openRing
  rcases opens_cases w topicId answers with
    ⟨hnone, _⟩ | ⟨number, hsome, ⟨hpublished, _⟩ | ⟨_, hopens | hopens⟩⟩
  · exact absurd (fun _ hsome => by rw [hnone] at hsome; cases hsome) h
  · refine absurd (fun number' hsome' => ?_) h
    rw [hsome] at hsome'
    cases hsome'
    exact hpublished
  · rw [hopens]
    exact ⟨rfl, Or.inl rfl⟩
  · rw [hopens]
    exact ⟨rfl, Or.inr rfl⟩

/-! ### What `open` keeps -/

theorem Inv.setNode (h : w.Inv p) {node : RelinkNode}
    (hnode : ∀ topicId number, node.number topicId = some number → number < w.created topicId) :
    (w.setNode n node).Inv p := by
  refine ⟨h.linked, fun m topicId number hnumber => ?_, h.sound⟩
  by_cases hm : m = n
  · subst hm
    refine hnode topicId number ?_
    rwa [setNode_self] at hnumber
  · refine h.opened m topicId number ?_
    rwa [setNode_of_ne _ hm] at hnumber

/-- No other rings than before. -/
theorem Inv.setNode_same (h : w.Inv p) {node : RelinkNode}
    (hnode : node.shmRings = (w.nodes n).shmRings) : (w.setNode n node).Inv p :=
  h.setNode fun topicId number hnumber => h.opened n topicId number (by
    rwa [RelinkNode.number, hnode] at hnumber)

theorem Inv.setRing (h : w.Inv p) {ring : Segment} (hring : ring.Sound p) :
    (w.setRing segment ring).Inv p := by
  refine ⟨h.linked, h.opened, fun segment' => ?_⟩
  by_cases hsegment : segment' = segment
  · subst hsegment
    rwa [setRing_self]
  · rw [setRing_of_ne _ hsegment]
    exact h.sound segment'

theorem Inv.create (h : w.Inv p) (topicId : UInt32) : (w.create topicId).Inv p := by
  have hgrows : ∀ topicId', w.created topicId' ≤ (w.create topicId).created topicId' := by
    intro topicId'
    by_cases htopic : topicId' = topicId
    · subst htopic
      rw [create_created_self]
      exact Nat.le_succ _
    · rw [create_created_of_ne htopic]
  refine ⟨fun topicId' number hnumber => ?_,
    fun m topicId' number hnumber => Nat.lt_of_lt_of_le (h.opened m topicId' number hnumber)
      (hgrows topicId'), h.sound⟩
  by_cases htopic : topicId' = topicId
  · subst htopic
    rw [create_linked_self] at hnumber
    rw [create_created_self]
    cases hnumber
    exact Nat.lt_succ_self _
  · rw [create_linked_of_ne htopic] at hnumber
    exact Nat.lt_of_lt_of_le (h.linked topicId' number hnumber) (hgrows topicId')

theorem sound_initIndices {ring : Segment} (h : ring.Sound p) (stores : Nat) :
    (initIndices stores ring).Sound p := by
  refine ⟨?_, ?_, h.size⟩
  · unfold initIndices
    simp only
    split
    · exact p.capacity_pos
    · exact h.head
  · unfold initIndices
    simp only
    split
    · exact p.capacity_pos
    · exact h.tail

theorem Inv.initAsCreator (h : w.Inv p) (q : Nat) (segment : SegmentId) (died : Option Nat) :
    (w.initAsCreator q segment died).Inv p := by
  have hindices : ∀ stores, (w.setRing segment (initIndices stores (w.ring segment))).Inv p :=
    fun stores => h.setRing (sound_initIndices (h.sound segment) stores)
  rcases died with _ | _ | stores
  · exact ⟨(hindices 6).linked, (hindices 6).opened, (hindices 6).sound⟩
  · exact h
  · exact ⟨(hindices (stores + 1)).linked, (hindices (stores + 1)).opened,
      (hindices (stores + 1)).sound⟩

theorem Inv.crash (h : w.Inv p) (q : Nat) : (w.crash q).Inv p := ⟨h.linked, h.opened, h.sound⟩

theorem Inv.openRing (h : w.Inv p) (process : Nat → Nat) (n : Nat) (topicId : UInt32)
    (answers : Bool) (died : Option Nat) :
    (w.openRing process n topicId answers died).1.Inv p ∧
      ∀ r ∈ (w.openRing process n topicId answers died).2,
        r.number < (w.openRing process n topicId answers died).1.created topicId := by
  unfold Host.openRing
  rcases opens_cases w topicId answers with
    ⟨hnone, hopens⟩ | ⟨number, hsome, ⟨_, hopens | hopens⟩ | ⟨_, hopens | hopens⟩⟩
  · rw [hopens]
    refine ⟨(h.create topicId).initAsCreator _ _ _, fun r hr => ?_⟩
    cases hr
    simp only [initAsCreator_frame, create_created_self]
    exact Nat.lt_succ_self _
  · rw [hopens]
    refine ⟨h, fun r hr => ?_⟩
    cases hr
    exact h.linked topicId number hsome
  · rw [hopens]
    refine ⟨h.initAsCreator _ _ _, fun r hr => ?_⟩
    cases hr
    simp only [initAsCreator_frame]
    exact h.linked topicId number hsome
  · rw [hopens]
    exact ⟨h, fun r hr => (nomatch hr)⟩
  · rw [hopens]
    exact ⟨h.crash _, fun r hr => (nomatch hr)⟩

theorem number_emplace (node : RelinkNode) (topicId topicId' : UInt32) (r : ShmRing) :
    (node.emplace topicId r).number topicId' =
      if topicId' = topicId then some r.number else node.number topicId' := by
  unfold RelinkNode.number RelinkNode.emplace
  by_cases htopic : topicId' = topicId
  · subst htopic
    simp
  · simp [htopic]

theorem Inv.advertise (h : w.Inv p) (process : Nat → Nat) (n : Nat) (topicId : UInt32)
    (answers : Bool) :
    (w.advertiseLocalIpc process n topicId answers).1.Inv p := by
  unfold advertiseLocalIpc
  split
  · exact h
  · have hopen := h.openRing process n topicId answers none
    split
    · next w' heq =>
      rw [heq] at hopen
      exact hopen.1
    · next w' r heq =>
      rw [heq] at hopen
      refine hopen.1.setNode fun topicId' number hnumber => ?_
      rw [number_emplace] at hnumber
      split at hnumber
      · next htopic =>
        subst htopic
        cases hnumber
        exact hopen.2 r rfl
      · exact hopen.1.opened n topicId' number hnumber

theorem Inv.subscribe (h : w.Inv p) (n : Nat) (topicId : UInt32) (answers : Bool) :
    (w.subscribeLocalIpc process n topicId answers).1.Inv p := by
  have hadvertise := h.advertise process n topicId answers
  unfold subscribeLocalIpc
  split
  · next w' heq => rwa [heq] at hadvertise
  · next w' heq =>
    rw [heq] at hadvertise
    exact hadvertise.setNode_same rfl

theorem Inv.publish (h : w.Inv p) (n : Nat) (topicId : UInt32) (payload : Bytes) :
    (w.publishLocalIpc p n topicId payload).1.Inv p := by
  unfold publishLocalIpc
  split
  · exact h
  · next number _ => exact (h.setRing (h.sound ⟨topicId, number⟩).tryPush).setNode_same rfl

theorem Inv.poll (h : w.Inv p) (n : Nat) (topicId : UInt32) : (w.pollRing p n topicId).Inv p := by
  unfold pollRing
  split
  · exact h
  · next number _ =>
    split
    · exact (h.setRing (h.sound ⟨topicId, number⟩).tryPop).setNode_same rfl
    · exact h

theorem Inv.requestStop (h : w.Inv p) (n : Nat) : (w.requestStop n).Inv p := by
  have hstop : (w.setNode n {w.nodes n with stopRequested := true}).Inv p := h.setNode_same rfl
  refine ⟨fun topicId number hnumber => h.linked topicId number ?_, hstop.opened, hstop.sound⟩
  simp only [Host.requestStop] at hnumber
  split at hnumber
  · cases hnumber
  · exact hnumber

theorem Inv.crashOpening (h : w.Inv p) (n : Nat) (topicId : UInt32) (answers : Bool)
    (stores : Nat) : (w.crashOpening process n topicId answers stores).Inv p := by
  unfold Host.crashOpening
  split
  · exact h
  · exact ((h.openRing process n topicId answers (some stores)).1).crash _

theorem Inv.call (h : w.Inv p) : (a : Act) → (w.call process p a).Inv p
  | .advertise n topicId answers => h.advertise process n topicId answers
  | .subscribe n topicId answers => h.subscribe n topicId answers
  | .publish n topicId payload => h.publish n topicId payload
  | .poll n topicId => h.poll n topicId
  | .requestStop n => h.requestStop n
  | .crash q => h.crash q
  | .crashOpening n topicId answers stores => h.crashOpening n topicId answers stores

theorem Inv.step (h : w.Inv p) (a : Act) : (w.step process p a).Inv p := by
  unfold Host.step
  split
  · exact h.call a
  · exact h

/-! ### Who has a topic open -/

theorem has_setNode {node : RelinkNode} {topicId' : UInt32} {number : Nat} :
    (w.setNode n node).Has process m topicId' number ↔
      if m = n then w.Alive process n ∧ node.stopRequested = false ∧
        node.number topicId' = some number
      else w.Has process m topicId' number := by
  unfold Has Running
  by_cases hm : m = n
  · subst hm
    rw [if_pos rfl, setNode_self, and_assoc]
    rfl
  · rw [if_neg hm, setNode_of_ne _ hm]
    rfl

/-- Its rings and its stop are as before. -/
theorem has_setNode_same (node : RelinkNode) {topicId' : UInt32} {number : Nat}
    (hrings : node.shmRings = (w.nodes n).shmRings)
    (hstop : node.stopRequested = (w.nodes n).stopRequested) :
    (w.setNode n node).Has process m topicId' number ↔ w.Has process m topicId' number := by
  rw [has_setNode]
  split
  · next hm =>
    subst hm
    unfold Has Running RelinkNode.number
    rw [hrings, hstop, and_assoc]
  · rfl

theorem has_congr {w' : Host} {topicId' : UInt32} {number : Nat} (hnodes : w'.nodes = w.nodes)
    (hcrashed : w'.crashed = w.crashed) :
    w'.Has process m topicId' number ↔ w.Has process m topicId' number := by
  unfold Has Running Alive
  rw [hnodes, hcrashed]

theorem has_of_crash {topicId' : UInt32} {number : Nat}
    (h : (w.crash q).Has process m topicId' number) : w.Has process m topicId' number := by
  obtain ⟨⟨halive, hstop⟩, hnumber⟩ := h
  refine ⟨⟨?_, hstop⟩, hnumber⟩
  have : Function.update w.crashed q true (process m) = false := halive
  by_cases hq : process m = q
  · rw [hq, Function.update_self] at this
    cases this
  · rwa [Function.update_of_ne hq] at this

theorem number_eq_none : (w.nodes n).number topicId = none ↔ (w.nodes n).shmRings topicId = none :=
  Option.map_eq_none_iff

/-- A topic that is open stays so; another one is opened in the target, if it is ready. -/
theorem advertise_cases (w : Host) (n : Nat) (topicId : UInt32) (answers : Bool) :
    (¬ ((w.nodes n).number topicId = none ∧ w.Ready topicId) ∧
        (w.advertiseLocalIpc process n topicId answers).1 = w) ∨
      ((w.nodes n).number topicId = none ∧ w.Ready topicId ∧ ∃ (w' : Host) (r : ShmRing),
        w.advertiseLocalIpc process n topicId answers =
          (w'.setNode n ((w.nodes n).emplace topicId r), true) ∧
        r.number = w.target topicId ∧ w'.nodes = w.nodes ∧ w'.crashed = w.crashed) ∨
      (¬ w.Ready topicId ∧
        (w.advertiseLocalIpc process n topicId answers).1 = w.crash (process n)) := by
  unfold advertiseLocalIpc
  split
  · next r hsome =>
    refine Or.inl ⟨fun h => ?_, rfl⟩
    rw [number_eq_none.mp h.1] at hsome
    cases hsome
  · next hnone =>
    by_cases hready : w.Ready topicId
    · obtain ⟨creator, hring, hnodes, hcrashed⟩ :=
        openRing_ready process hready n answers none
      refine Or.inr (Or.inl ⟨number_eq_none.mpr hnone, hready, ?_⟩)
      split
      · next w' heq =>
        rw [heq] at hring
        cases hring
      · next w' r heq =>
        rw [heq] at hring hnodes hcrashed
        cases hring
        exact ⟨w', _, by rw [← hnodes], rfl, hnodes, hcrashed⟩
    · obtain ⟨hring, hhost⟩ := openRing_not_ready process hready n answers none
      split
      · next w' heq =>
        rw [heq] at hhost
        rcases hhost with rfl | rfl
        · exact Or.inl ⟨fun h => hready h.2, rfl⟩
        · exact Or.inr (Or.inr ⟨hready, rfl⟩)
      · next w' r heq =>
        rw [heq] at hring
        cases hring

theorem has_emplace {w' : Host} {r : ShmRing} {topicId' : UInt32} {number : Nat}
    (hnodes : w'.nodes = w.nodes) (hcrashed : w'.crashed = w.crashed) :
    (w'.setNode n ((w.nodes n).emplace topicId r)).Has process m topicId' number ↔
      if m = n ∧ topicId' = topicId then w.Running process n ∧ r.number = number
      else w.Has process m topicId' number := by
  rw [has_setNode]
  by_cases hm : m = n
  · subst hm
    rw [if_pos rfl, number_emplace]
    unfold Has Running Alive
    rw [hcrashed]
    by_cases htopic : topicId' = topicId
    · rw [if_pos htopic, if_pos ⟨rfl, htopic⟩, Option.some.injEq, and_assoc]
      rfl
    · rw [if_neg htopic, if_neg (fun h => htopic h.2), and_assoc]
      rfl
  · rw [if_neg hm, if_neg (fun h => hm h.1)]
    exact has_congr hnodes hcrashed

theorem has_subscribe {topicId' : UInt32} {number : Nat} :
    (w.subscribeLocalIpc process n topicId answers).1.Has process m topicId' number ↔
      (w.advertiseLocalIpc process n topicId answers).1.Has process m topicId' number := by
  unfold subscribeLocalIpc
  split
  · next w' heq => rw [heq]
  · next w' heq =>
    rw [heq]
    exact has_setNode_same _ rfl rfl

/-- What an opening node has afterwards. -/
theorem has_advertise_of_opening (h : w.Opening process n topicId) (answers : Bool)
    {topicId' : UInt32} {number : Nat} :
    (w.advertiseLocalIpc process n topicId answers).1.Has process m topicId' number ↔
      if m = n ∧ topicId' = topicId then w.target topicId = number
      else w.Has process m topicId' number := by
  obtain ⟨hrunning, hnone, hready⟩ := h
  rcases advertise_cases w n topicId answers with
    ⟨hnot, _⟩ | ⟨_, _, w', r, heq, hr, hnodes, hcrashed⟩ | ⟨hnot, _⟩
  · exact absurd ⟨hnone, hready⟩ hnot
  · rw [heq, has_emplace hnodes hcrashed, hr, and_iff_right hrunning]
  · exact absurd hready hnot

/-- Only an opening node has what it had not. -/
theorem has_of_advertise {topicId' : UInt32} {number : Nat}
    (h : (w.advertiseLocalIpc process n topicId answers).1.Has process m topicId' number) :
    w.Has process m topicId' number ∨ w.Opening process n topicId := by
  rcases advertise_cases w n topicId answers with
    ⟨_, hsame⟩ | ⟨hnone, hready, w', r, heq, hr, hnodes, hcrashed⟩ | ⟨_, hcrash⟩
  · rw [hsame] at h
    exact Or.inl h
  · rw [heq, has_emplace hnodes hcrashed] at h
    split at h
    · exact Or.inr ⟨h.1, hnone, hready⟩
    · exact Or.inl h
  · rw [hcrash] at h
    exact Or.inl (has_of_crash h)

/-- Any other call gives nobody a topic. -/
theorem has_of_call {a : Act} {topicId' : UInt32} {number : Nat}
    (hother : ∀ n topicId answers,
      a ≠ .advertise n topicId answers ∧ a ≠ .subscribe n topicId answers)
    (h : (w.call process p a).Has process m topicId' number) :
    w.Has process m topicId' number := by
  cases a with
  | advertise n topicId answers => exact absurd rfl (hother n topicId answers).1
  | subscribe n topicId answers => exact absurd rfl (hother n topicId answers).2
  | publish n topicId payload =>
    rw [call, publishLocalIpc] at h
    split at h
    · exact h
    · next number' _ =>
      exact (has_setNode_same (w := w.setRing ⟨topicId, number'⟩ _)
        ((w.nodes n).drawSeq topicId) rfl rfl).mp h
  | poll n topicId =>
    rw [call, pollRing] at h
    split at h
    · exact h
    · next number' _ =>
      split at h
      · exact (has_setNode_same (w := w.setRing ⟨topicId, number'⟩ _)
          ((w.nodes n).deliver topicId _) rfl rfl).mp h
      · exact h
  | requestStop n =>
    replace h : (w.setNode n {w.nodes n with stopRequested := true}).Has process m topicId'
        number := h
    rw [has_setNode] at h
    split at h
    · cases h.2.1
    · exact h
  | crash q => exact has_of_crash h
  | crashOpening n topicId answers stores =>
    rw [call, crashOpening] at h
    split at h
    · exact h
    · have hopening := has_of_crash h
      by_cases hready : w.Ready topicId
      · obtain ⟨_, _, hnodes, hcrashed⟩ :=
          openRing_ready process hready n answers (some stores)
        exact (has_congr hnodes hcrashed).mp hopening
      · obtain ⟨_, hhost⟩ :=
          openRing_not_ready process hready n answers (some stores)
        rcases hhost with hhost | hhost
        · rwa [hhost] at hopening
        · rw [hhost] at hopening
          exact has_of_crash hopening

/-! ### Staying on one segment -/

/-- Nodes stay on one segment when one opens the topic exactly if it finds theirs. -/
theorem oneSegment_advertise (hinv : w.Inv p) (h : w.OneSegment process) (n : Nat)
    (topicId : UInt32) (answers : Bool) :
    (w.advertiseLocalIpc process n topicId answers).1.OneSegment process ↔
      (w.Opening process n topicId →
        ∀ m number, w.Has process m topicId number → w.linked topicId = some number) := by
  constructor
  · intro hafter hopening m number hhas
    have hnone := hopening.2.1
    have hne : m ≠ n := fun hm => by
      subst hm
      rw [hhas.2] at hnone
      cases hnone
    have hkeeps := (has_advertise_of_opening hopening answers).mpr
      (show if m = n ∧ topicId = topicId then _ else w.Has process m topicId number by
        rwa [if_neg fun h => hne h.1])
    have hopened := (has_advertise_of_opening hopening answers).mpr
      (show if n = n ∧ topicId = topicId then w.target topicId = w.target topicId else _ by
        rw [if_pos ⟨rfl, rfl⟩])
    have hsame := hafter m n topicId number (w.target topicId) hkeeps hopened
    have hlt := hinv.opened m topicId number hhas.2
    unfold target at hsame
    cases hlinked : w.linked topicId with
    | none =>
      rw [hlinked, Option.getD_none] at hsame
      omega
    | some number' =>
      rw [hlinked, Option.getD_some] at hsame
      rw [hsame]
  · intro hjoins m m' topicId' number number' hm hm'
    by_cases hopening : w.Opening process n topicId
    · have hlinked := hjoins hopening
      rw [has_advertise_of_opening hopening answers] at hm hm'
      have htarget : ∀ m number, w.Has process m topicId number → w.target topicId = number :=
        fun m number hhas => by rw [target, hlinked m number hhas, Option.getD_some]
      split at hm
      · next hhere =>
        obtain ⟨_, rfl⟩ := hhere
        split at hm'
        · rw [← hm, hm']
        · rw [← hm, htarget m' number' hm']
      · split at hm'
        · next hhere =>
          obtain ⟨_, rfl⟩ := hhere
          rw [← hm', htarget m number hm]
        · exact h m m' topicId' number number' hm hm'
    · exact h m m' topicId' number number' ((has_of_advertise hm).resolve_right hopening)
        ((has_of_advertise hm').resolve_right hopening)

/-- Who keeps only what it had stays. -/
theorem OneSegment.mono {w' : Host} (h : w.OneSegment process)
    (hle : ∀ m topicId number, w'.Has process m topicId number → w.Has process m topicId number) :
    w'.OneSegment process := fun n m topicId number number' hn hm =>
  h n m topicId number number' (hle n topicId number hn) (hle m topicId number' hm)

theorem oneSegment_subscribe (hinv : w.Inv p) (h : w.OneSegment process) (n : Nat)
    (topicId : UInt32) (answers : Bool) :
    (w.subscribeLocalIpc process n topicId answers).1.OneSegment process ↔
      (w.Opening process n topicId →
        ∀ m number, w.Has process m topicId number → w.linked topicId = some number) := by
  rw [← oneSegment_advertise hinv h n topicId answers]
  unfold OneSegment
  simp only [has_subscribe]

theorem oneSegment_step (hinv : w.Inv p) (h : w.OneSegment process) (a : Act) :
    (w.step process p a).OneSegment process ↔ w.Joins process a := by
  unfold step
  by_cases halive : ∀ n ∈ a.caller, w.Alive process n
  · rw [if_pos halive]
    cases a with
    | advertise n topicId answers => exact oneSegment_advertise hinv h n topicId answers
    | subscribe n topicId answers => exact oneSegment_subscribe hinv h n topicId answers
    | publish | poll | requestStop | crash | crashOpening =>
      refine iff_of_true (h.mono fun m topicId number => has_of_call fun _ _ _ => ?_) trivial
      exact ⟨fun heq => (nomatch heq), fun heq => (nomatch heq)⟩
  · rw [if_neg halive]
    refine iff_of_true h ?_
    -- who is not served does not open anything
    cases a with
    | advertise n topicId answers | subscribe n topicId answers =>
      refine fun hopening => absurd (fun n' hn' => ?_) halive
      cases hn'
      exact hopening.1.1
    | publish | poll | requestStop | crash | crashOpening => trivial

/-! ### Reaching one another -/

/-- A poll of a subscribed node pops once. -/
theorem step_poll {number : Nat} (hhas : w.Has process m topicId number)
    (hhandler : topicId ∈ (w.nodes m).shmHandlers) :
    w.step process p (.poll m topicId) =
      (w.setRing ⟨topicId, number⟩ (tryPop p (w.ring ⟨topicId, number⟩)).1).setNode m
        ((w.nodes m).deliver topicId (tryPop p (w.ring ⟨topicId, number⟩)).2) := by
  obtain ⟨⟨halive, hstop⟩, hnumber⟩ := hhas
  have hcaller : ∀ n ∈ (Act.poll m topicId).caller, w.Alive process n := by
    intro n hn
    cases hn
    exact halive
  rw [step, if_pos hcaller, call, pollRing, hnumber]
  exact if_pos ⟨hhandler, hstop⟩

theorem step_publish {number : Nat} (hhas : w.Has process n topicId number) (payload : Bytes) :
    w.step process p (.publish n topicId payload) =
      (w.setRing ⟨topicId, number⟩ (tryPush p (w.ring ⟨topicId, number⟩)
        ((w.nodes n).msg topicId payload)).1).setNode n ((w.nodes n).drawSeq topicId) := by
  obtain ⟨⟨halive, _⟩, hnumber⟩ := hhas
  have hcaller : ∀ n' ∈ (Act.publish n topicId payload).caller, w.Alive process n' := by
    intro n' hn'
    cases hn'
    exact halive
  rw [step, if_pos hcaller, call, publishLocalIpc, hnumber]

/-- Polls of one node go through its ring, and add to what it was handed. -/
theorem polls {number : Nat} (hhas : w.Has process m topicId number)
    (hhandler : topicId ∈ (w.nodes m).shmHandlers) (k : Nat) :
    let w' := (List.replicate k (.poll m topicId)).foldl (step process p) w
    w'.Has process m topicId number ∧ topicId ∈ (w'.nodes m).shmHandlers ∧
      w'.ring ⟨topicId, number⟩ = popped p (w.ring ⟨topicId, number⟩) k ∧
      ∃ earlier, (w'.nodes m).delivered topicId = (w.nodes m).delivered topicId ++ earlier := by
  induction k generalizing w with
  | zero => exact ⟨hhas, hhandler, rfl, [], (List.append_nil _).symm⟩
  | succ k ih =>
    rw [List.replicate_succ, List.foldl_cons, step_poll hhas hhandler]
    have hhas' := (has_setNode_same
      (w := w.setRing ⟨topicId, number⟩ (tryPop p (w.ring ⟨topicId, number⟩)).1)
      ((w.nodes m).deliver topicId (tryPop p (w.ring ⟨topicId, number⟩)).2) rfl rfl).mpr hhas
    obtain ⟨hhas'', hhandler'', hring, earlier, hearlier⟩ :=
      ih hhas' (by rw [setNode_self]; exact hhandler)
    refine ⟨hhas'', hhandler'', ?_, ?_⟩
    · rw [hring]
      show popped p ((w.setRing ⟨topicId, number⟩ _).ring ⟨topicId, number⟩) k = _
      rw [setRing_self]
      rfl
    · rw [hearlier, setNode_self, RelinkNode.deliver_self, List.append_assoc]
      exact ⟨_, rfl⟩

theorem reaches (hinv : w.Inv p) {number : Nat} (hn : w.Has process n topicId number)
    (hm : w.Has process m topicId number) (hhandler : topicId ∈ (w.nodes m).shmHandlers) :
    w.Reaches process p n m topicId := by
  intro payload haccepted
  rw [publishLocalIpc, hn.2] at haccepted
  obtain ⟨k, hk⟩ := Shm.accepted_found (hinv.sound ⟨topicId, number⟩) haccepted
  -- the push changes the segment, and no node but in its sequence numbers
  have hpush := step_publish (p := p) hn payload
  generalize hw₁ : w.step process p (.publish n topicId payload) = w₁ at hpush
  have hring : w₁.ring ⟨topicId, number⟩ =
      (tryPush p (w.ring ⟨topicId, number⟩) ((w.nodes n).msg topicId payload)).1 := by
    rw [hpush]
    exact setRing_self _
  have hhas : w₁.Has process m topicId number := by
    rw [hpush]
    exact (has_setNode_same (w := w.setRing ⟨topicId, number⟩ _) ((w.nodes n).drawSeq topicId) rfl
      rfl).mpr hm
  have hnode : (w₁.nodes m).shmHandlers = (w.nodes m).shmHandlers ∧
      (w₁.nodes m).delivered = (w.nodes m).delivered := by
    rw [hpush]
    by_cases hmn : m = n
    · subst hmn
      rw [setNode_self]
      exact ⟨rfl, rfl⟩
    · rw [setNode_of_ne _ hmn]
      exact ⟨rfl, rfl⟩
  obtain ⟨hhas', hhandler', hring', earlier, hearlier⟩ :=
    polls (p := p) hhas (hnode.1 ▸ hhandler) k
  refine ⟨k + 1, earlier, ?_⟩
  simp only
  rw [List.foldl_cons, hw₁, List.replicate_succ', List.foldl_append, List.foldl_cons,
    List.foldl_nil, step_poll hhas' hhandler', setNode_self, RelinkNode.deliver_self, hring', hring,
    hk, hearlier, hnode.2]
  rfl

theorem together_iff (hinv : w.Inv p) : w.Together process p ↔ w.OneSegment process := by
  constructor
  · intro h n m topicId number number' hn hm
    exact (h n m topicId number number' hn hm).1
  · intro h n m topicId number number' hn hm
    obtain rfl := h n m topicId number number' hn hm
    exact ⟨rfl, reaches hinv hn hm⟩

/-! ### Runs -/

theorem inv_empty : (empty p).Inv p where
  linked _ _ h := nomatch h
  opened _ _ _ h := nomatch h
  sound _ := ⟨p.capacity_pos, p.capacity_pos, List.length_replicate ..⟩

theorem oneSegment_empty : (empty p).OneSegment process :=
  fun _ _ _ _ _ hn _ => nomatch hn.2

end
end Host

/-- **Nodes on one segment.** In every run of the nodes of a host, all running nodes that have a
topic open are on one segment, and reach one another, exactly if none opens a topic whose name is
not linked to the segment that the others have. -/
theorem together_iff_joins (process : Nat → Nat) (p : Params) (acts : List Act) :
    (∀ before, before <+: acts →
      (before.foldl (Host.step process p) (Host.empty p)).Together process p) ↔
    Throughout (Host.step process p) (Host.Joins process) (Host.empty p) acts := by
  rw [Throughout.of_states,
    and_iff_right ((Host.together_iff Host.inv_empty).mpr Host.oneSegment_empty)]
  refine Throughout.congr (C := fun _ _ => True)
    (fun w => w.Inv p ∧ w.OneSegment process) ?_ ?_ ⟨Host.inv_empty, Host.oneSegment_empty⟩
    (Throughout.of_mem (fun _ _ _ => trivial) _)
  · rintro w a ⟨hinv, hone⟩ -
    rw [Host.together_iff (hinv.step a)]
    exact Host.oneSegment_step hinv hone a
  · rintro w a ⟨hinv, hone⟩ - hjoins
    exact ⟨hinv.step a, (Host.oneSegment_step hinv hone a).mpr hjoins⟩

/-- A creator stops while a subscriber stays, and another node comes. -/
def creatorStops : List Act :=
  [.advertise 0 7 false, .subscribe 1 7 false, .requestStop 0, .advertise 2 7 false]

/-- The subscriber and the new node have different segments. -/
theorem creatorStops_splits :
    ¬ ∀ (process : Nat → Nat) (p : Params) (acts : List Act),
      (acts.foldl (Host.step process p) (Host.empty p)).Together process p := by
  intro h
  let w := creatorStops.foldl (Host.step id Shm.four) (Host.empty Shm.four)
  have hsubscriber : w.Has id 1 7 0 := by decide
  have hnew : w.Has id 2 7 1 := by decide
  have hsame := (h id Shm.four creatorStops 1 2 7 0 1 hsubscriber hnew).1
  cases hsame

end Relink.Node.Restart
