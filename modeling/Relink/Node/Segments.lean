import Relink.Node.LocalIpc

/-! A segment as a ring.

Each access that a thread makes to a segment is one of `Shm.Ring`. While a segment has one thread
that pushes there at most, and one node that pops, it is a ring of one producer and one consumer:
the shared state with the program counters of these two. -/
namespace Relink.Node.LocalIpc
open Shm (Params Msg PushPc PopPc)

/-! ### One access of a ring -/

def pushMsg : PushPc → Option Msg
  | .idle => none
  | .loadHead m _ => some m
  | .writeSeq m _ => some m
  | .writeLen m _ => some m
  | .writePayload m _ => some m
  | .storeTail m _ => some m

section
variable {p : Params} {s : Shm.State}

/-- The producer does not look at the consumer. -/
theorem producerStep_pop (pop : PopPc) :
    Shm.producerStep p {s with pop := pop} = {Shm.producerStep p s with pop := pop} := by
  obtain ⟨seg, push, _⟩ := s
  unfold Shm.producerStep
  cases push with
  | loadHead m tail =>
    simp only
    split <;> rfl
  | _ => rfl

theorem consumerStep_push (push : PushPc) :
    Shm.consumerStep p {s with push := push} = {Shm.consumerStep p s with push := push} := by
  obtain ⟨seg, _, pop⟩ := s
  unfold Shm.consumerStep
  cases pop with
  | loadTail kind head =>
    simp only
    split <;> rfl
  | _ => rfl

/-- A push that is going on keeps its message until it has stored `tail`. -/
theorem producerStep_msg : (Shm.producerStep p s).push = .idle ∨
    pushMsg (Shm.producerStep p s).push = pushMsg s.push := by
  unfold Shm.producerStep
  cases hpc : s.push with
  | idle => exact Or.inl hpc
  | loadHead m tail =>
    simp only
    split
    · exact Or.inl rfl
    · exact Or.inr rfl
  | storeTail m tail => exact Or.inl rfl
  | _ => exact Or.inr rfl

theorem producerStep_delivered : (Shm.producerStep p s).delivered = s.delivered := by
  unfold Shm.producerStep
  cases s.push with
  | loadHead m tail =>
    simp only
    split <;> rfl
  | _ => rfl

theorem producerStep_accepted : (Shm.producerStep p s).accepted = s.accepted ∨
    ∃ m, pushMsg s.push = some m ∧ (Shm.producerStep p s).accepted = s.accepted ++ [m] := by
  unfold Shm.producerStep
  cases s.push with
  | loadHead m tail =>
    simp only
    split <;> exact Or.inl rfl
  | storeTail m tail => exact Or.inr ⟨m, rfl, rfl⟩
  | _ => exact Or.inl rfl

theorem consumerStep_accepted : (Shm.consumerStep p s).accepted = s.accepted := by
  unfold Shm.consumerStep
  cases s.pop with
  | loadTail kind head =>
    simp only
    split <;> rfl
  | _ => rfl

theorem consumerStep_delivered : ∃ out, (Shm.consumerStep p s).delivered = s.delivered ++ out := by
  unfold Shm.consumerStep
  cases s.pop with
  | loadTail kind head =>
    simp only
    split <;> exact ⟨[], (List.append_nil _).symm⟩
  | readPayload kind head seqNum len => exact ⟨_, rfl⟩
  | _ => exact ⟨[], (List.append_nil _).symm⟩

end

/-! ### A segment as a ring of two -/

/-- The ring of a segment, with the program counters of the thread that pushes there and of the
node that pops there. -/
structure View (w : Host) (segment : SegmentId) (s : Shm.State) : Prop where
  ring : s = {w.ring segment with push := s.push, pop := s.pop}
  push : ∀ tid b, w.publishing tid = some b → b.segment = segment → s.push = b.pc
  noPush : (∀ tid b, w.publishing tid = some b → b.segment ≠ segment) → s.push = .idle
  pop : ∀ n pc rings, (w.nodes n).poll = .pop segment pc rings → s.pop = pc
  noPop : (∀ n, (w.nodes n).popping ≠ some segment) → s.pop = .idle

/-- At most one access of a ring. -/
def Moves (p : Params) (s s' : Shm.State) : Prop := s' = s ∨ ∃ act, s' = Shm.step p s act

section
variable {p : Params} {w w' : Host} {segment : SegmentId} {s : Shm.State}

/-- A node's segment for a topic is one of the topic's. -/
theorem segment_topicId {node : RelinkNode} {topicId : UInt32}
    (h : node.segment topicId = some segment) : topicId = segment.topicId := by
  obtain ⟨r, _, hr⟩ := Option.map_eq_some_iff.mp h
  exact congrArg SegmentId.topicId hr

theorem popping_eq_some {node : RelinkNode} :
    node.popping = some segment ↔ ∃ pc rings, node.poll = .pop segment pc rings := by
  unfold RelinkNode.popping
  split
  · next segment' pc rings hpoll =>
    rw [hpoll, Option.some.injEq]
    constructor
    · rintro rfl
      exact ⟨pc, rings, rfl⟩
    · rintro ⟨_, _, heq⟩
      cases heq
      rfl
  · next hother =>
    refine iff_of_false (fun h => by cases h) ?_
    rintro ⟨pc, rings, hpoll⟩
    exact hother segment pc rings hpoll

/-- A segment that no thread was at and none is at now. -/
theorem View.of_eq (h : View w segment s) (hring : w'.ring segment = w.ring segment)
    (hpush : ∀ tid b, b.segment = segment → (w'.publishing tid = some b ↔ w.publishing tid = some b))
    (hpop : ∀ n pc rings, (w'.nodes n).poll = .pop segment pc rings ↔
      (w.nodes n).poll = .pop segment pc rings) : View w' segment s where
  ring := hring ▸ h.ring
  push tid b hb hsegment := h.push tid b ((hpush tid b hsegment).mp hb) hsegment
  noPush hnone := h.noPush fun tid b hb hsegment =>
    hnone tid b ((hpush tid b hsegment).mpr hb) hsegment
  pop n pc rings hpoll := h.pop n pc rings ((hpop n pc rings).mp hpoll)
  noPop hnone := h.noPop fun n hpopping => by
    obtain ⟨pc, rings, hpoll⟩ := popping_eq_some.mp hpopping
    exact hnone n (popping_eq_some.mpr ⟨pc, rings, (hpop n pc rings).mpr hpoll⟩)

theorem setNode_nodes (n : Nat) (node : RelinkNode) (m : Nat) :
    (w.setNode n node).nodes m = if m = n then node else w.nodes m :=
  Function.update_apply ..

/-- What a node keeps, all nodes keep. -/
theorem setNode_keeps {α : Type} (f : RelinkNode → α) {n : Nat} (node : RelinkNode)
    (h : f node = f (w.nodes n)) (m : Nat) : f ((w.setNode n node).nodes m) = f (w.nodes m) := by
  rw [setNode_nodes]
  split
  · next heq => rw [heq, h]
  · rfl

theorem setPublishing_publishing (tid : Nat) (publishing : Option Publishing) (tid' : Nat) :
    (w.setPublishing tid publishing).publishing tid' =
      if tid' = tid then publishing else w.publishing tid' :=
  Function.update_apply ..

/-- A push that starts at a segment where none is going on. -/
theorem View.startPush (h : View w segment s)
    (hfree : ∀ tid b, w.publishing tid = some b → b.segment ≠ segment) (tid : Nat) {b : Publishing}
    (hsegment : b.segment = segment) {m : Msg}
    (hpc : b.pc = (Shm.startPush p {w.ring segment with push := .idle} m).push) :
    View (w.setPublishing tid (some b)) segment (Shm.startPush p s m) := by
  have hidle := h.noPush hfree
  have hring := h.ring
  rw [hidle] at hring
  have hstart : Shm.startPush p s m =
      {w.ring segment with push := b.pc, pop := s.pop} := by
    rw [hring, hpc, Shm.startPush, Shm.startPush]
    simp only
    split <;> rfl
  refine ⟨?_, fun tid' b' hb' hsegment' => ?_, fun hnone => ?_, fun n pc rings hpoll => ?_,
    fun hnone => ?_⟩
  · rw [hstart]
    rfl
  · rw [setPublishing_publishing] at hb'
    split at hb'
    · cases hb'
      rw [hstart]
    · exact absurd hsegment' (hfree tid' b' hb')
  · refine absurd hsegment (hnone tid b ?_)
    rw [setPublishing_publishing, if_pos rfl]
  · rw [hstart]
    exact h.pop n pc rings hpoll
  · rw [hstart]
    exact h.noPop hnone

/-- The push that is going on makes its next access. -/
theorem View.pushStep {b : Publishing} (h : View w b.segment s) {tid : Nat}
    (hb : w.publishing tid = some b)
    (hone : ∀ tid' b', w.publishing tid' = some b' → b'.segment = b.segment → tid' = tid) :
    View (w.pushStep p tid) b.segment (Shm.producerStep p s) := by
  let ring := Shm.producerStep p {w.ring b.segment with push := b.pc}
  have hstep : Shm.producerStep p s = {ring with pop := s.pop} := by
    have hs : s = {w.ring b.segment with push := b.pc, pop := s.pop} := by
      rw [← h.push tid b hb rfl]
      exact h.ring
    exact (congrArg (Shm.producerStep p) hs).trans
      (producerStep_pop (s := {w.ring b.segment with push := b.pc}) s.pop)
  have hring' : (w.pushStep p tid).ring b.segment = ring := by
    rw [Host.pushStep, hb]
    exact Function.update_self ..
  have hpublishing : ∀ tid', (w.pushStep p tid).publishing tid' =
      if tid' = tid then (if ring.push = .idle then none else some {b with pc := ring.push})
      else w.publishing tid' := by
    intro tid'
    rw [Host.pushStep, hb]
    exact Function.update_apply ..
  have hnodes : (w.pushStep p tid).nodes = w.nodes := by
    rw [Host.pushStep, hb]
    rfl
  refine ⟨?_, fun tid' b' hb' hsegment => ?_, fun hnone => ?_, fun n pc rings hpoll => ?_,
    fun hnone => ?_⟩
  · rw [hstep, hring']
  · rw [hpublishing] at hb'
    rw [hstep]
    split at hb'
    · split at hb'
      · cases hb'
      · cases hb'
        rfl
    · next hne => exact absurd (hone tid' b' hb' hsegment) hne
  · rw [hstep]
    by_contra hbusy
    refine hnone tid {b with pc := ring.push} ?_ rfl
    rw [hpublishing, if_pos rfl]
    exact if_neg hbusy
  · rw [hnodes] at hpoll
    rw [hstep]
    exact h.pop n pc rings hpoll
  · rw [hnodes] at hnone
    rw [hstep]
    exact h.noPop hnone

/-- A polling thread comes to a segment where no other one is. -/
theorem View.startPop (h : View w segment s) (hfree : ∀ n, (w.nodes n).popping ≠ some segment)
    (n : Nat) (rings : List SegmentId) :
    View (w.setNode n {w.nodes n with
      poll := .pop segment (Shm.startPop {w.ring segment with pop := .idle} .zeroCopy).pop rings})
      segment (Shm.startPop s .zeroCopy) := by
  have hidle := h.noPop hfree
  have hring := h.ring
  rw [hidle] at hring
  have hstart : Shm.startPop s .zeroCopy = {w.ring segment with
      push := s.push
      pop := (Shm.startPop {w.ring segment with pop := .idle} .zeroCopy).pop } := by
    rw [hring]
    rfl
  refine ⟨?_, fun tid b hb hsegment => ?_, fun hnone => ?_, fun m pc rings' hpoll => ?_,
    fun hnone => ?_⟩
  · rw [hstart]
    rfl
  · rw [hstart]
    exact h.push tid b hb hsegment
  · rw [hstart]
    exact h.noPush hnone
  · rw [setNode_nodes] at hpoll
    rw [hstart]
    split at hpoll
    · cases hpoll
      rfl
    · exact absurd (popping_eq_some.mpr ⟨pc, rings', hpoll⟩) (hfree m)
  · refine absurd ?_ (hnone n)
    rw [setNode_nodes, if_pos rfl]
    rfl

/-- The pop that is going on makes its next access. -/
theorem View.popStep (h : View w segment s) {n : Nat} {pc : PopPc} {rings : List SegmentId}
    (hpoll : (w.nodes n).poll = .pop segment pc rings)
    (hone : ∀ m, (w.nodes m).popping = some segment → m = n) :
    View (w.popStep p n segment pc rings) segment (Shm.consumerStep p s) := by
  let ring := Shm.consumerStep p {w.ring segment with pop := pc}
  have hstep : Shm.consumerStep p s = {ring with push := s.push} := by
    have hs : s = {w.ring segment with push := s.push, pop := pc} := by
      rw [← h.pop n pc rings hpoll]
      exact h.ring
    exact (congrArg (Shm.consumerStep p) hs).trans
      (consumerStep_push (s := {w.ring segment with pop := pc}) s.push)
  have hring' : (w.popStep p n segment pc rings).ring segment = ring := Function.update_self ..
  have hnodes : ∀ m, ((w.popStep p n segment pc rings).nodes m).poll = if m = n then
      (if ring.pop = .idle then .visit rings else .pop segment ring.pop rings)
      else (w.nodes m).poll := by
    intro m
    refine (congrArg RelinkNode.poll (setNode_nodes n _ m)).trans ?_
    split <;> rfl
  refine ⟨?_, fun tid b hb hsegment => ?_, fun hnone => ?_, fun m pc' rings' hpoll' => ?_,
    fun hnone => ?_⟩
  · rw [hstep, hring']
  · rw [hstep]
    exact h.push tid b hb hsegment
  · rw [hstep]
    exact h.noPush hnone
  · rw [hnodes] at hpoll'
    rw [hstep]
    split at hpoll'
    · split at hpoll'
      · cases hpoll'
      · cases hpoll'
        rfl
    · next hne => exact absurd (hone m (popping_eq_some.mpr ⟨pc', rings', hpoll'⟩)) hne
  · rw [hstep]
    by_contra hbusy
    refine hnone n (popping_eq_some.mpr ⟨ring.pop, rings, ?_⟩)
    rw [hnodes, if_pos rfl]
    exact if_neg hbusy

end

end Relink.Node.LocalIpc
