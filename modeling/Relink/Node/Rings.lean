import Mathlib.Data.List.Infix
import Relink.Node.Segments

/-! The rings of a host.

While every publish and every subscription meets `Sole`, each segment is a ring of one producer and
one consumer, and its invariant holds; `Inv` adds who pushes and who pops there, and what a
subscriber is owed. Here are the calls and the pushes; the polling threads are in `Polling`. -/
namespace Relink.Node.LocalIpc
open Shm (Params Msg PushPc PopPc FifoInv)
open Wire (Bytes)

/-! ### What holds of a host -/

/-- The segments a polling thread is at, or comes to in this turn. -/
def PollPc.segments : PollPc → List SegmentId
  | .visit rings => rings
  | .pop segment _ rings => segment :: rings
  | _ => []

structure RelinkNode.Valid (node : RelinkNode) : Prop where
  visits : ∀ segment ∈ node.poll.segments, segment.topicId ∈ node.shmHandlers ∧
    node.segment segment.topicId = some segment
  opened : ∀ topicId ∈ node.shmHandlers, (node.segment topicId).isSome
  started : ∀ topicId ∈ node.shmHandlers, node.poll ≠ .unstarted
  exited : node.poll = .exited → node.stopRequested = true
  unsubscribed : ∀ topicId, topicId ∉ node.shmHandlers → node.delivered topicId = []

/-- What a segment accepted, of what was accepted on its topic. -/
def inSegment (segment : SegmentId) (accepted : List Accepted) : List Accepted :=
  accepted.filter fun e => e.number = segment.number

/-- A subscriber's segment takes all that is accepted on its topic since, and what is delivered
there since is delivered to it. -/
structure Serves (w : Host) (n : Nat) (topicId : UInt32) (segment : SegmentId) : Prop where
  has : (w.nodes n).segment topicId = some segment
  pushes : ∀ tid b, w.publishing tid = some b → b.segment.topicId = topicId → b.segment = segment
  since_le : (w.nodes n).since topicId ≤ (w.accepted topicId).length
  owed : ∀ e ∈ (w.accepted topicId).drop ((w.nodes n).since topicId), e.number = segment.number
  handed : ∃ before,
    before ≤ (inSegment segment ((w.accepted topicId).take ((w.nodes n).since topicId))).length ∧
    before ≤ (w.ring segment).delivered.length ∧
    (w.nodes n).delivered topicId = ((w.ring segment).delivered.drop before).map (·.payload)

structure Inv (p : Params) (w : Host) : Prop where
  nodes : ∀ n, (w.nodes n).Valid
  view : ∀ segment, ∃ s, View w segment s ∧ FifoInv p s
  onePush : ∀ tid tid' b b', w.publishing tid = some b → w.publishing tid' = some b' →
    b'.segment = b.segment → tid' = tid
  onePoll : ∀ n n' topicId segment, (w.nodes n).Polls topicId → (w.nodes n').Polls topicId →
    (w.nodes n).segment topicId = some segment → (w.nodes n').segment topicId = some segment →
    n' = n
  log : ∀ segment, (w.ring segment).accepted.map (·.payload) =
    (inSegment segment (w.accepted segment.topicId)).map (·.payload)
  carries : ∀ tid b m, w.publishing tid = some b → pushMsg b.pc = some m → m.payload = b.payload
  serves : ∀ n topicId, (w.nodes n).Subscribed topicId → ∃ segment, Serves w n topicId segment

/-- Each ring makes at most one access. -/
def Follows (p : Params) (w w' : Host) : Prop :=
  ∀ segment s, View w segment s → ∃ s', Moves p s s' ∧ View w' segment s'

section
variable {p : Params} {w w' : Host} {segment : SegmentId} {s : Shm.State}

theorem Follows.fifo (h : Follows p w w') (hview : ∃ s, View w segment s ∧ FifoInv p s) :
    ∃ s, View w' segment s ∧ FifoInv p s := by
  obtain ⟨s, hs, hfifo⟩ := hview
  obtain ⟨s', hmoves, hs'⟩ := h segment s hs
  refine ⟨s', hs', ?_⟩
  obtain rfl | ⟨act, rfl⟩ := hmoves
  · exact hfifo
  · exact hfifo.step act

/-- A polling thread that pops has the topic. -/
theorem RelinkNode.Valid.polls {node : RelinkNode} (h : node.Valid)
    (hpopping : node.popping = some segment) :
    node.Polls segment.topicId ∧ node.segment segment.topicId = some segment := by
  obtain ⟨pc, rings, hpoll⟩ := popping_eq_some.mp hpopping
  obtain ⟨hhandler, hsegment⟩ := h.visits segment (by rw [hpoll]; exact List.mem_cons_self)
  exact ⟨⟨hhandler, by rw [hpoll]; exact PollPc.noConfusion⟩, hsegment⟩

theorem Inv.onePop (h : Inv p w) {n m : Nat} (hn : (w.nodes n).popping = some segment)
    (hm : (w.nodes m).popping = some segment) : m = n := by
  obtain ⟨hpolls, hsegment⟩ := (h.nodes n).polls hn
  obtain ⟨hpolls', hsegment'⟩ := (h.nodes m).polls hm
  exact h.onePoll n m _ segment hpolls hpolls' hsegment hsegment'

theorem Inv.exclusive (h : Inv p w) : w.Exclusive where
  push tid tid' b b' hb hb' hsegment := by
    have heq := h.onePush tid tid' b b' hb hb' hsegment.symm
    subst heq
    rw [hb] at hb'
    cases hb'
    rfl
  pop _ _ _ hn hn' := h.onePop hn' hn

/-- A subscriber that is not stopped runs. -/
theorem RelinkNode.Valid.running {node : RelinkNode} (h : node.Valid) {topicId : UInt32}
    (hsubscribed : node.Subscribed topicId) : node.Polls topicId := by
  refine ⟨hsubscribed.1, fun hexited => ?_⟩
  have hstopped := h.exited hexited
  rw [hsubscribed.2] at hstopped
  cases hstopped

/-! ### Calls that open and stop -/

/-- A node that may have opened more, or have been stopped. -/
structure Extends (node node' : RelinkNode) : Prop where
  handlers : node'.shmHandlers = node.shmHandlers
  poll : node'.poll = node.poll
  since : node'.since = node.since
  delivered : node'.delivered = node.delivered
  segment : ∀ topicId segment, node.segment topicId = some segment →
    node'.segment topicId = some segment
  stopped : node.stopRequested = true → node'.stopRequested = true

theorem Extends.refl (node : RelinkNode) : Extends node node :=
  ⟨rfl, rfl, rfl, rfl, fun _ _ h => h, id⟩

theorem Extends.valid {node node' : RelinkNode} (he : Extends node node') (h : node.Valid) :
    node'.Valid where
  visits segment hsegment := by
    rw [he.poll] at hsegment
    obtain ⟨hhandler, hhas⟩ := h.visits segment hsegment
    exact ⟨he.handlers ▸ hhandler, he.segment _ _ hhas⟩
  opened topicId htopic := by
    obtain ⟨segment, hsegment⟩ := Option.isSome_iff_exists.mp (h.opened topicId (he.handlers ▸ htopic))
    rw [he.segment topicId segment hsegment]
    rfl
  started topicId htopic := by
    rw [he.poll]
    exact h.started topicId (he.handlers ▸ htopic)
  exited hexited := he.stopped (h.exited (he.poll ▸ hexited))
  unsubscribed topicId htopic := by
    rw [he.delivered]
    exact h.unsubscribed topicId (he.handlers ▸ htopic)

theorem Extends.polls {node node' : RelinkNode} (he : Extends node node') {topicId : UInt32}
    (h : node'.Polls topicId) : node.Polls topicId :=
  ⟨he.handlers ▸ h.1, he.poll ▸ h.2⟩

theorem Extends.subscribed {node node' : RelinkNode} (he : Extends node node') {topicId : UInt32}
    (h : node'.Subscribed topicId) : node.Subscribed topicId := by
  refine ⟨he.handlers ▸ h.1, ?_⟩
  cases hstopped : node.stopRequested with
  | false => rfl
  | true => exact (he.stopped hstopped).symm.trans h.2

/-- A node with a handler has the segment it had. -/
theorem Extends.segment_of_polls {node node' : RelinkNode} (he : Extends node node')
    (hnode : node.Valid) {topicId : UInt32} (h : node'.Polls topicId)
    (hsegment : node'.segment topicId = some segment) : node.segment topicId = some segment := by
  obtain ⟨segment', hsegment'⟩ := Option.isSome_iff_exists.mp (hnode.opened topicId (he.polls h).1)
  rw [he.segment topicId segment' hsegment'] at hsegment
  rw [hsegment', hsegment]

/-- It looks at the node's own topic only. -/
theorem Serves.of_eq {n : Nat} {topicId : UInt32} (h : Serves w n topicId segment)
    (hring : w'.ring segment = w.ring segment) (hpublishing : w'.publishing = w.publishing)
    (haccepted : w'.accepted = w.accepted) (hhas : (w'.nodes n).segment topicId = some segment)
    (hsince : (w'.nodes n).since topicId = (w.nodes n).since topicId)
    (hdelivered : (w'.nodes n).delivered topicId = (w.nodes n).delivered topicId) :
    Serves w' n topicId segment where
  has := hhas
  pushes tid b hb := h.pushes tid b (hpublishing ▸ hb)
  since_le := by
    rw [hsince, haccepted]
    exact h.since_le
  owed := by
    rw [hsince, haccepted]
    exact h.owed
  handed := by
    rw [hsince, hdelivered, haccepted, hring]
    exact h.handed

theorem View.frame (h : View w segment s) (hring : w'.ring = w.ring)
    (hpublishing : w'.publishing = w.publishing)
    (hpoll : ∀ n, (w'.nodes n).poll = (w.nodes n).poll) : View w' segment s := by
  refine h.of_eq (by rw [hring]) (fun tid b _ => by rw [hpublishing]) fun n pc rings => ?_
  rw [hpoll]

theorem follows_frame (hring : w'.ring = w.ring) (hpublishing : w'.publishing = w.publishing)
    (hpoll : ∀ n, (w'.nodes n).poll = (w.nodes n).poll) : Follows p w w' :=
  fun _ s hs => ⟨s, Or.inl rfl, hs.frame hring hpublishing hpoll⟩

theorem Inv.frame (h : Inv p w) (hring : w'.ring = w.ring) (hpublishing : w'.publishing = w.publishing)
    (haccepted : w'.accepted = w.accepted) (he : ∀ n, Extends (w.nodes n) (w'.nodes n)) :
    Inv p w' where
  nodes n := (he n).valid (h.nodes n)
  view segment := (follows_frame hring hpublishing fun n => (he n).poll).fifo (h.view segment)
  onePush tid tid' b b' hb hb' := h.onePush tid tid' b b' (hpublishing ▸ hb) (hpublishing ▸ hb')
  onePoll n n' topicId segment hn hn' hsegment hsegment' :=
    h.onePoll n n' topicId segment ((he n).polls hn) ((he n').polls hn')
      ((he n).segment_of_polls (h.nodes n) hn hsegment)
      ((he n').segment_of_polls (h.nodes n') hn' hsegment')
  log segment := by
    rw [hring, haccepted]
    exact h.log segment
  carries tid b m hb := h.carries tid b m (hpublishing ▸ hb)
  serves n topicId hn := by
    obtain ⟨segment, hserves⟩ := h.serves n topicId ((he n).subscribed hn)
    exact ⟨segment, hserves.of_eq (by rw [hring]) hpublishing haccepted
      ((he n).segment _ _ hserves.has) (by rw [(he n).since]) (by rw [(he n).delivered])⟩

theorem extends_setNode {n : Nat} {node : RelinkNode} (he : Extends (w.nodes n) node) (m : Nat) :
    Extends (w.nodes m) ((w.setNode n node).nodes m) := by
  rw [setNode_nodes]
  split
  · next heq => exact heq ▸ he
  · exact .refl _

theorem extends_advertise (n : Nat) (topicId : UInt32) (m : Nat) :
    Extends (w.nodes m) ((w.advertiseLocalIpc n topicId).nodes m) := by
  unfold Host.advertiseLocalIpc
  cases hnone : (w.nodes n).shmRings topicId with
  | some r => exact .refl _
  | none =>
    have he : Extends (w.nodes n) {w.nodes n with
        shmRings := Function.update (w.nodes n).shmRings topicId (some (w.openRing topicId))} := by
      refine ⟨rfl, rfl, rfl, rfl, fun topicId' segment hsegment => ?_, id⟩
      have hne : topicId' ≠ topicId := by
        rintro rfl
        rw [RelinkNode.segment, hnone] at hsegment
        cases hsegment
      exact (congrArg (Option.map _) (Function.update_of_ne hne _ _)).trans hsegment
    exact extends_setNode he m

theorem advertise_keeps (n : Nat) (topicId : UInt32) :
    (w.advertiseLocalIpc n topicId).ring = w.ring ∧
      (w.advertiseLocalIpc n topicId).publishing = w.publishing ∧
      (w.advertiseLocalIpc n topicId).accepted = w.accepted := by
  unfold Host.advertiseLocalIpc
  split <;> exact ⟨rfl, rfl, rfl⟩

theorem Inv.advertise (h : Inv p w) (n : Nat) (topicId : UInt32) :
    Inv p (w.advertiseLocalIpc n topicId) := by
  obtain ⟨hring, hpublishing, haccepted⟩ := advertise_keeps (w := w) n topicId
  exact h.frame hring hpublishing haccepted (extends_advertise n topicId)

/-- An advertised topic has the segment it had, or that its name opens. -/
theorem advertise_segment (n : Nat) (topicId : UInt32) :
    ((w.advertiseLocalIpc n topicId).nodes n).segment topicId = some (w.segmentFor n topicId) := by
  unfold Host.advertiseLocalIpc Host.segmentFor
  cases hring : (w.nodes n).shmRings topicId with
  | some r =>
    simp only
    rw [RelinkNode.segment, hring]
    rfl
  | none =>
    simp only
    rw [RelinkNode.segment, RelinkNode.segment, hring]
    show Option.map _ (((Host.setNode _ n _).nodes n).shmRings topicId) = _
    rw [setNode_nodes, if_pos rfl]
    have hopened : Function.update (w.nodes n).shmRings topicId (some (w.openRing topicId)) topicId =
        some (w.openRing topicId) := Function.update_self ..
    exact congrArg (Option.map fun r => (⟨topicId, r.number⟩ : SegmentId)) hopened

theorem extends_requestStop (n m : Nat) :
    Extends (w.nodes m) ((w.requestStop n).nodes m) := by
  have he : Extends (w.nodes n) {w.nodes n with stopRequested := true} :=
    ⟨rfl, rfl, rfl, rfl, fun _ _ hsegment => hsegment, fun _ => rfl⟩
  exact extends_setNode he m

theorem Inv.requestStop (h : Inv p w) (n : Nat) : Inv p (w.requestStop n) :=
  h.frame rfl rfl rfl (extends_requestStop n)

/-! ### A handler -/

section
variable {node : RelinkNode} {topicId : UInt32} {accepted : Nat}

theorem mem_handlers_subscribe {topicId' : UInt32} :
    topicId' ∈ (node.subscribe topicId accepted).shmHandlers ↔
      topicId' ∈ node.shmHandlers ∨ topicId' = topicId := by
  unfold RelinkNode.subscribe
  simp only
  split
  · next hmem =>
    refine ⟨Or.inl, ?_⟩
    rintro (hmem' | rfl)
    · exact hmem'
    · exact hmem
  · rw [List.mem_append, List.mem_singleton]

theorem poll_subscribe (node : RelinkNode) (topicId : UInt32) (accepted : Nat) :
    (node.poll = .unstarted ∧
    (node.subscribe topicId accepted).poll = .check) ∨ (node.poll ≠ .unstarted ∧
      (node.subscribe topicId accepted).poll = node.poll) := by
  unfold RelinkNode.subscribe
  by_cases hpoll : node.poll = .unstarted
  · exact Or.inl ⟨hpoll, if_pos hpoll⟩
  · exact Or.inr ⟨hpoll, if_neg hpoll⟩

/-- A thread that starts is at no segment. -/
theorem poll_subscribe_pop {segment : SegmentId} {pc : PopPc} {rings : List SegmentId} :
    (node.subscribe topicId accepted).poll = .pop segment pc rings ↔
      node.poll = .pop segment pc rings := by
  obtain ⟨hpoll, hpoll'⟩ | ⟨_, hpoll⟩ := poll_subscribe node topicId accepted
  · rw [hpoll, hpoll']
    exact iff_of_false PollPc.noConfusion PollPc.noConfusion
  · rw [hpoll]

/-- Where a handler is registered again, and for the other topics, all stays. -/
theorem since_subscribe {topicId' : UInt32} (h : topicId' ∈ node.shmHandlers ∨ topicId' ≠ topicId) :
    (node.subscribe topicId accepted).since topicId' = node.since topicId' := by
  unfold RelinkNode.subscribe
  simp only
  split
  · rfl
  · next hnew =>
    refine Function.update_of_ne ?_ _ _
    rintro rfl
    exact h.elim hnew fun hne => hne rfl

theorem since_subscribe_new (accepted : Nat) (h : topicId ∉ node.shmHandlers) :
    (node.subscribe topicId accepted).since topicId = accepted := by
  unfold RelinkNode.subscribe
  simp only
  rw [if_neg h, Function.update_self]

theorem RelinkNode.Valid.subscribe (h : node.Valid) (hopen : (node.segment topicId).isSome) :
    (node.subscribe topicId accepted).Valid where
  visits segment hsegment := by
    have hvisits : segment ∈ node.poll.segments := by
      obtain ⟨_, hpoll⟩ | ⟨_, hpoll⟩ := poll_subscribe node topicId accepted
      · rw [hpoll] at hsegment
        cases hsegment
      · rwa [hpoll] at hsegment
    obtain ⟨hhandler, hhas⟩ := h.visits segment hvisits
    exact ⟨mem_handlers_subscribe.mpr (Or.inl hhandler), hhas⟩
  opened topicId' htopic := by
    obtain hmem | rfl := mem_handlers_subscribe.mp htopic
    · exact h.opened topicId' hmem
    · exact hopen
  started _ _ := by
    obtain ⟨_, hpoll⟩ | ⟨hpoll', hpoll⟩ := poll_subscribe node topicId accepted
    · rw [hpoll]
      exact PollPc.noConfusion
    · rwa [hpoll]
  exited hexited := by
    obtain ⟨_, hpoll⟩ | ⟨_, hpoll⟩ := poll_subscribe node topicId accepted
    · rw [hpoll] at hexited
      cases hexited
    · exact h.exited (hpoll.symm.trans hexited)
  unsubscribed topicId' htopic :=
    h.unsubscribed topicId' fun hmem => htopic (mem_handlers_subscribe.mpr (Or.inl hmem))

/-- Another topic that a node polls, it polled. -/
theorem polls_subscribe {topicId' : UInt32} (h : (node.subscribe topicId accepted).Polls topicId')
    (hne : topicId' ≠ topicId ∨ topicId' ∈ node.shmHandlers) : node.Polls topicId' := by
  refine ⟨?_, fun hexited => h.2 ?_⟩
  · obtain hmem | rfl := mem_handlers_subscribe.mp h.1
    · exact hmem
    · exact hne.elim (fun hne => absurd rfl hne) id
  · obtain ⟨hpoll, _⟩ | ⟨_, hpoll⟩ := poll_subscribe node topicId accepted
    · rw [hpoll] at hexited
      cases hexited
    · exact hpoll.trans hexited

end

theorem View.subscribe (h : View w segment s) (n : Nat) (topicId : UInt32) (accepted : Nat) :
    View (w.setNode n ((w.nodes n).subscribe topicId accepted)) segment s := by
  refine h.of_eq rfl (fun _ _ _ => Iff.rfl) fun m pc rings => ?_
  rw [setNode_nodes]
  split
  · next heq =>
    subst heq
    exact poll_subscribe_pop
  · exact Iff.rfl

/-- A new subscriber is owed what comes from now on. -/
theorem Inv.serves_subscribe (h : Inv p w) {n : Nat} {topicId : UInt32}
    (hsegment : (w.nodes n).segment topicId = some segment)
    (hpushes : ∀ tid b, w.publishing tid = some b → b.segment.topicId = topicId →
      b.segment = segment) (hnew : topicId ∉ (w.nodes n).shmHandlers) :
    Serves (w.setNode n ((w.nodes n).subscribe topicId (w.accepted topicId).length)) n topicId
      segment := by
  have hnode : ((w.setNode n ((w.nodes n).subscribe topicId (w.accepted topicId).length)).nodes n) =
      (w.nodes n).subscribe topicId (w.accepted topicId).length := by rw [setNode_nodes, if_pos rfl]
  have hsince := since_subscribe_new (w.accepted topicId).length hnew
  refine ⟨?_, hpushes, ?_, fun e he => ?_, (w.ring segment).delivered.length, ?_, le_refl _, ?_⟩
  · rw [hnode]
    exact hsegment
  · rw [hnode, hsince]
    exact le_refl _
  · rw [hnode, hsince, Host.setNode, List.drop_length] at he
    cases he
  · -- What was delivered in the segment had been accepted there.
    have hlog := congrArg List.length (h.log segment)
    obtain ⟨s, hs, hfifo⟩ := h.view segment
    have hprefix := hfifo.inv.delivered.1.length_le
    rw [hs.ring] at hprefix
    rw [List.length_map, List.length_map, ← segment_topicId hsegment] at hlog
    rw [hnode, hsince, Host.setNode, List.take_length, ← hlog]
    exact hprefix
  · rw [hnode, Host.setNode, List.drop_length]
    exact (h.nodes n).unsubscribed topicId hnew

/-- No other node polls the segment of the new handler, nor one that the node polled before. -/
theorem Inv.unshared (h : Inv p w) {n m : Nat} {topicId topicId' : UInt32} {accepted : Nat}
    (hsegment : (w.nodes n).segment topicId = some segment)
    (hpolls : (w.nodes m).Polls topicId → (w.nodes m).segment topicId ≠ some segment) (hne : m ≠ n)
    (hn : ((w.nodes n).subscribe topicId accepted).Polls topicId')
    (hm : (w.nodes m).Polls topicId') {segment' : SegmentId}
    (hhas : (w.nodes n).segment topicId' = some segment')
    (hhas' : (w.nodes m).segment topicId' = some segment') : False := by
  by_cases htopic : topicId' = topicId
  · subst htopic
    have hsame : segment' = segment := Option.some.inj (hhas.symm.trans hsegment)
    exact hpolls hm (hsame ▸ hhas')
  · exact hne (h.onePoll n m topicId' segment' (polls_subscribe hn (Or.inl htopic)) hm hhas hhas')

/-- The subscribers are served, the new one from now on. -/
theorem Inv.serves_addHandler (h : Inv p w) {n : Nat} {topicId : UInt32}
    (hsegment : (w.nodes n).segment topicId = some segment)
    (hpushes : ∀ tid b, w.publishing tid = some b → b.segment.topicId = topicId →
      b.segment = segment) {m : Nat} {topicId' : UInt32}
    (hm : ((w.setNode n ((w.nodes n).subscribe topicId (w.accepted topicId).length)).nodes
      m).Subscribed topicId') :
    ∃ segment', Serves (w.setNode n ((w.nodes n).subscribe topicId (w.accepted topicId).length)) m
      topicId' segment' := by
  rw [setNode_nodes] at hm
  split at hm
  · next heq =>
    subst heq
    by_cases hnew : topicId' = topicId ∧ topicId ∉ (w.nodes m).shmHandlers
    · obtain ⟨rfl, hnew⟩ := hnew
      exact ⟨segment, h.serves_subscribe hsegment hpushes hnew⟩
    · have hold : topicId' ∈ (w.nodes m).shmHandlers := by
        obtain hmem | rfl := mem_handlers_subscribe.mp hm.1
        · exact hmem
        · by_contra hnot
          exact hnew ⟨rfl, hnot⟩
      obtain ⟨segment', hserves⟩ := h.serves m topicId' ⟨hold, hm.2⟩
      refine ⟨segment', hserves.of_eq rfl rfl rfl ?_ ?_ ?_⟩ <;> rw [setNode_nodes, if_pos rfl]
      · exact hserves.has
      · exact since_subscribe (Or.inl hold)
      · rfl
  · next hne =>
    obtain ⟨segment', hserves⟩ := h.serves m topicId' hm
    refine ⟨segment', hserves.of_eq rfl rfl rfl ?_ ?_ ?_⟩ <;> rw [setNode_nodes, if_neg hne]
    exact hserves.has

theorem Inv.addHandler (h : Inv p w) {n : Nat} {topicId : UInt32}
    (hsegment : (w.nodes n).segment topicId = some segment)
    (hpolls : ∀ m, m ≠ n → (w.nodes m).Polls topicId →
      (w.nodes m).segment topicId ≠ some segment)
    (hpushes : ∀ tid b, w.publishing tid = some b → b.segment.topicId = topicId →
      b.segment = segment) :
    Inv p (w.setNode n ((w.nodes n).subscribe topicId (w.accepted topicId).length)) where
  nodes m := by
    rw [setNode_nodes]
    split
    · exact (h.nodes n).subscribe (by rw [hsegment]; rfl)
    · exact h.nodes m
  view segment' := by
    obtain ⟨s, hs, hfifo⟩ := h.view segment'
    exact ⟨s, hs.subscribe n topicId _, hfifo⟩
  onePush := h.onePush
  onePoll m m' topicId' segment' hm hm' hhas hhas' := by
    let node := (w.nodes n).subscribe topicId (w.accepted topicId).length
    have hsame : ∀ k, ((w.setNode n node).nodes k).segment topicId' =
        (w.nodes k).segment topicId' := setNode_keeps (·.segment topicId') node rfl
    rw [hsame] at hhas hhas'
    rw [setNode_nodes] at hm hm'
    split at hm <;> split at hm'
    · next heq heq' => exact heq'.trans heq.symm
    · next heq hne =>
      subst heq
      exact (h.unshared hsegment (hpolls m' hne) hne hm hm' hhas hhas').elim
    · next hne heq =>
      subst heq
      exact (h.unshared hsegment (hpolls m hne) hne hm' hm hhas' hhas).elim
    · exact h.onePoll m m' topicId' segment' hm hm' hhas hhas'
  log := h.log
  carries := h.carries
  serves _ _ hm := h.serves_addHandler hsegment hpushes hm

theorem Inv.subscribe (h : Inv p w) {n : Nat} {topicId : UInt32}
    (hsole : w.Sole p (.subscribe n topicId)) : Inv p (w.subscribeLocalIpc n topicId) := by
  obtain ⟨hpolls, hpushes⟩ := hsole
  obtain ⟨_, hpublishing, _⟩ := advertise_keeps (w := w) n topicId
  refine (h.advertise n topicId).addHandler (advertise_segment n topicId) (fun m hne hm => ?_)
    fun tid b hb => hpushes tid b (hpublishing ▸ hb)
  have he := extends_advertise (w := w) n topicId m
  intro hhas
  exact hpolls m hne (he.polls hm) (he.segment_of_polls (h.nodes m) hm hhas)

/-! ### A push -/

theorem follows_startPush {tid : Nat} {b : Publishing} {m : Msg} (hbusy : w.publishing tid = none)
    (hfree : ∀ tid' b', w.publishing tid' = some b' → b'.segment ≠ b.segment)
    (hpc : b.pc = (Shm.startPush p {w.ring b.segment with push := .idle} m).push) :
    Follows p w (w.setPublishing tid (some b)) := by
  intro segment s hs
  by_cases heq : b.segment = segment
  · subst heq
    exact ⟨_, Or.inr ⟨.push m, rfl⟩, hs.startPush hfree tid rfl hpc⟩
  · refine ⟨s, Or.inl rfl, hs.of_eq rfl (fun tid' b' hb' => ?_) fun _ _ _ => Iff.rfl⟩
    rw [setPublishing_publishing]
    split
    · next heq' =>
      subst heq'
      rw [hbusy]
      refine iff_of_false (fun h => ?_) fun h => by cases h
      cases h
      exact heq hb'
    · exact Iff.rfl

theorem Inv.startPush (h : Inv p w) {tid : Nat} {b : Publishing} {m : Msg}
    (hbusy : w.publishing tid = none)
    (hfree : ∀ tid' b', w.publishing tid' = some b' → b'.segment ≠ b.segment)
    (hpc : b.pc = (Shm.startPush p {w.ring b.segment with push := .idle} m).push)
    (hpayload : m.payload = b.payload)
    (hhas : ∀ n, (w.nodes n).Subscribed b.segment.topicId →
      (w.nodes n).segment b.segment.topicId = some b.segment) :
    Inv p (w.setPublishing tid (some b)) where
  nodes := h.nodes
  view segment := (follows_startPush hbusy hfree hpc).fifo (h.view segment)
  onePush tid' tid'' b' b'' hb' hb'' hsegment := by
    rw [setPublishing_publishing] at hb' hb''
    split at hb' <;> split at hb''
    · next heq heq' => exact heq'.trans heq.symm
    · cases hb'
      exact absurd hsegment (hfree tid'' b'' hb'')
    · cases hb''
      exact absurd hsegment.symm (hfree tid' b' hb')
    · exact h.onePush tid' tid'' b' b'' hb' hb'' hsegment
  onePoll := h.onePoll
  log := h.log
  carries tid' b' m' hb' hm' := by
    rw [setPublishing_publishing] at hb'
    split at hb'
    · cases hb'
      rw [hpc, Shm.startPush] at hm'
      simp only at hm'
      split at hm'
      · cases hm'
      · cases hm'
        exact hpayload
    · exact h.carries tid' b' m' hb' hm'
  serves n topicId hn := by
    obtain ⟨segment, hserves⟩ := h.serves n topicId hn
    refine ⟨segment, hserves.has, fun tid' b' hb' htopic => ?_, hserves.since_le, hserves.owed,
      hserves.handed⟩
    rw [setPublishing_publishing] at hb'
    split at hb'
    · cases hb'
      subst htopic
      exact Option.some.inj ((hhas n hn).symm.trans hserves.has)
    · exact hserves.pushes tid' b' hb' htopic

theorem extends_seq (n : Nat) (seqs : UInt32 → UInt32) (m : Nat) :
    Extends (w.nodes m) ((w.setNode n {w.nodes n with shmSeq := seqs}).nodes m) := by
  have he : Extends (w.nodes n) {w.nodes n with shmSeq := seqs} :=
    ⟨rfl, rfl, rfl, rfl, fun _ _ hsegment => hsegment, id⟩
  exact extends_setNode he m

theorem startPush_push (ring : Shm.State) (m : Msg) :
    (Shm.startPush p {ring with push := .idle} m).push =
      if p.maxPayload < m.payload.length then .idle else .loadHead m ring.seg.tail := by
  rw [Shm.startPush]
  simp only
  split <;> rfl

/-- A publish draws its number, and starts a push unless its payload is too long. -/
theorem publish_cases (w : Host) (tid n : Nat) (topicId : UInt32) (payload : Bytes) :
    w.publishLocalIpc p tid n topicId payload = w ∨ ∃ seqs,
      w.publishLocalIpc p tid n topicId payload = w.setNode n {w.nodes n with shmSeq := seqs} ∨
      ∃ b m, w.publishing tid = none ∧ b.node = n ∧
        (w.nodes n).segment topicId = some b.segment ∧ payload.length % 2 ^ 32 ≤ p.maxPayload ∧
        b.pc = (Shm.startPush p {w.ring b.segment with push := .idle} m).push ∧
        m.payload = payload.take (payload.length % 2 ^ 32) ∧ b.payload = payload ∧
        w.publishLocalIpc p tid n topicId payload =
          (w.setNode n {w.nodes n with shmSeq := seqs}).setPublishing tid (some b) := by
  unfold Host.publishLocalIpc
  cases hbusy : w.publishing tid with
  | some b => exact Or.inl rfl
  | none =>
    cases hsegment : (w.nodes n).segment topicId with
    | none => exact Or.inl rfl
    | some segment =>
      refine Or.inr ⟨Function.update (w.nodes n).shmSeq topicId ((w.nodes n).shmSeq topicId + 1), ?_⟩
      have hlength : (payload.take (payload.length % 2 ^ 32)).length = payload.length % 2 ^ 32 := by
        rw [List.length_take]
        exact Nat.min_eq_left (Nat.mod_le ..)
      simp only [startPush_push, hlength]
      by_cases hlong : p.maxPayload < payload.length % 2 ^ 32
      · have hsame : Function.update w.publishing tid none = w.publishing :=
          Function.update_eq_self_iff.mpr hbusy.symm
        left
        rw [if_pos hlong, if_pos rfl]
        simp only [Host.setPublishing, Host.setNode, hsame]
      · let m : Msg := ⟨(w.nodes n).shmSeq topicId, payload.take (payload.length % 2 ^ 32)⟩
        right
        rw [if_neg hlong, if_neg PushPc.noConfusion]
        refine ⟨⟨n, segment, payload, .loadHead m (w.ring segment).seg.tail⟩, m, trivial, rfl, rfl,
          not_lt.mp hlong, ?_, rfl, rfl, rfl⟩
        rw [hlength, if_neg hlong]

theorem follows_publish {tid n : Nat} {topicId : UInt32} {payload : Bytes}
    (hsole : w.Sole p (.publish tid n topicId payload)) :
    Follows p w (w.publishLocalIpc p tid n topicId payload) := by
  obtain heq | ⟨seqs, heq | ⟨b, m, hbusy, _, hsegment, hfits, hpc, _, _, heq⟩⟩ :=
    publish_cases (p := p) w tid n topicId payload
  · rw [heq]
    exact follows_frame rfl rfl fun _ => rfl
  · rw [heq]
    exact follows_frame rfl rfl fun m => (extends_seq n seqs m).poll
  · rw [heq]
    intro segment s hs
    obtain ⟨_, hfree, _⟩ := hsole b.segment hsegment hfits
    have hs' : View (w.setNode n {w.nodes n with shmSeq := seqs}) segment s :=
      hs.of_eq rfl (fun _ _ _ => Iff.rfl) fun m pc rings => by rw [(extends_seq n seqs m).poll]
    exact follows_startPush (w := w.setNode n {w.nodes n with shmSeq := seqs}) hbusy hfree hpc
      segment s hs'

theorem Inv.publish (h : Inv p w) {tid n : Nat} {topicId : UInt32} {payload : Bytes}
    (hsole : w.Sole p (.publish tid n topicId payload)) :
    Inv p (w.publishLocalIpc p tid n topicId payload) := by
  obtain heq | ⟨seqs, heq | ⟨b, m, hbusy, _, hsegment, hfits, hpc, hm, hpayload, heq⟩⟩ :=
    publish_cases (p := p) w tid n topicId payload
  · rw [heq]
    exact h
  · rw [heq]
    exact h.frame rfl rfl rfl (extends_seq n seqs)
  · rw [heq]
    obtain ⟨hshort, hfree, hhas⟩ := hsole b.segment hsegment hfits
    have hwhole : m.payload = b.payload := by
      rw [hm, hpayload, Nat.mod_eq_of_lt hshort, List.take_length]
    have hdrawn : Inv p (w.setNode n {w.nodes n with shmSeq := seqs}) :=
      h.frame rfl rfl rfl (extends_seq n seqs)
    refine hdrawn.startPush hbusy hfree hpc hwhole fun k hk => ?_
    have he := extends_seq (w := w) n seqs k
    rw [← segment_topicId hsegment] at hk ⊢
    exact he.segment _ _ (hhas k (he.subscribed hk))

/-- What an access of a push changes. -/
theorem pushStep_eq {tid : Nat} {b : Publishing} (hb : w.publishing tid = some b) :
    (w.pushStep p tid).ring = Function.update w.ring b.segment
      (Shm.producerStep p {w.ring b.segment with push := b.pc}) ∧
    (w.pushStep p tid).nodes = w.nodes ∧
    (∀ tid' b', (w.pushStep p tid).publishing tid' = some b' →
      ∃ b₀, w.publishing tid' = some b₀ ∧ b₀.segment = b'.segment ∧ b₀.payload = b'.payload ∧
        pushMsg b'.pc = pushMsg b₀.pc) ∧
    (∀ tid' b', b'.segment ≠ b.segment → ((w.pushStep p tid).publishing tid' = some b' ↔
      w.publishing tid' = some b')) := by
  rw [Host.pushStep, hb]
  refine ⟨rfl, rfl, fun tid' b' hb' => ?_, fun tid' b' hne => ?_⟩
  · simp only [setPublishing_publishing] at hb'
    split at hb'
    · next heq =>
      subst heq
      split at hb'
      · cases hb'
      · next hbusy =>
        cases hb'
        exact ⟨b, hb, rfl, rfl, producerStep_msg.resolve_left hbusy⟩
    · exact ⟨b', hb', rfl, rfl, rfl⟩
  · simp only [setPublishing_publishing]
    split
    · next heq =>
      subst heq
      rw [hb]
      refine iff_of_false (fun h => ?_) fun h => ?_
      · split at h
        · cases h
        · cases h
          exact hne rfl
      · cases h
        exact hne rfl
    · exact Iff.rfl

/-- An access that stores `tail` accepts the message of the push; no other one does. -/
theorem pushStep_accepted {tid : Nat} {b : Publishing} (hb : w.publishing tid = some b) :
    (((w.pushStep p tid).ring b.segment).accepted = (w.ring b.segment).accepted ∧
      (w.pushStep p tid).accepted = w.accepted) ∨
    ∃ m, pushMsg b.pc = some m ∧
      ((w.pushStep p tid).ring b.segment).accepted = (w.ring b.segment).accepted ++ [m] ∧
      (w.pushStep p tid).accepted = Function.update w.accepted b.segment.topicId
        (w.accepted b.segment.topicId ++ [⟨b.segment.number, b.payload⟩]) := by
  have haccepted : (w.pushStep p tid).accepted =
      if (Shm.producerStep p {w.ring b.segment with push := b.pc}).accepted.length =
        (w.ring b.segment).accepted.length then w.accepted
      else Function.update w.accepted b.segment.topicId
        (w.accepted b.segment.topicId ++ [⟨b.segment.number, b.payload⟩]) := by
    rw [Host.pushStep, hb]
    rfl
  rw [haccepted, (pushStep_eq hb).1, Function.update_self]
  obtain heq | ⟨m, hm, heq⟩ :=
    producerStep_accepted (p := p) (s := {w.ring b.segment with push := b.pc})
  · exact Or.inl ⟨heq, if_pos (congrArg List.length heq)⟩
  · refine Or.inr ⟨m, hm, heq, if_neg fun hlength => ?_⟩
    rw [heq, List.length_append, List.length_singleton] at hlength
    simp only at hlength
    omega

theorem pushStep_ring_of_ne {tid : Nat} {b : Publishing} (hb : w.publishing tid = some b)
    (hne : segment ≠ b.segment) : (w.pushStep p tid).ring segment = w.ring segment := by
  rw [(pushStep_eq hb).1, Function.update_of_ne hne]

theorem Inv.follows_pushStep (h : Inv p w) (tid : Nat) : Follows p w (w.pushStep p tid) := by
  cases hb : w.publishing tid with
  | none =>
    rw [Host.pushStep, hb]
    exact follows_frame rfl rfl fun _ => rfl
  | some b =>
    intro segment s hs
    by_cases heq : segment = b.segment
    · subst heq
      exact ⟨_, Or.inr ⟨.producer, rfl⟩,
        hs.pushStep hb fun tid' b' hb' => h.onePush tid tid' b b' hb hb'⟩
    · obtain ⟨_, hnodes, _, hother⟩ := pushStep_eq (p := p) hb
      refine ⟨s, Or.inl rfl, hs.of_eq (pushStep_ring_of_ne hb heq) (fun tid' b' hb' => ?_) ?_⟩
      · exact hother tid' b' fun hsame => heq (hb'.symm.trans hsame)
      · intro n pc rings
        rw [hnodes]

theorem inSegment_append (segment : SegmentId) (accepted : List Accepted) (e : Accepted) :
    inSegment segment (accepted ++ [e]) =
      inSegment segment accepted ++ if e.number = segment.number then [e] else [] := by
  rw [inSegment, List.filter_append]
  by_cases hnumber : e.number = segment.number
  · rw [if_pos hnumber, List.filter_cons_of_pos (by simpa using hnumber)]
    rfl
  · rw [if_neg hnumber, List.filter_cons_of_neg (by simpa using hnumber)]
    rfl

/-- What a segment accepts is what its topic accepts there. -/
theorem Inv.log_pushStep (h : Inv p w) {tid : Nat} {b : Publishing}
    (hb : w.publishing tid = some b) (segment : SegmentId) :
    ((w.pushStep p tid).ring segment).accepted.map (·.payload) =
      (inSegment segment ((w.pushStep p tid).accepted segment.topicId)).map (·.payload) := by
  have hlog := h.log segment
  by_cases heq : segment = b.segment
  · subst heq
    obtain ⟨hring, haccepted⟩ | ⟨m, hm, hring, haccepted⟩ := pushStep_accepted (p := p) hb
    · rw [hring, haccepted, hlog]
    · rw [hring, haccepted, Function.update_self, inSegment_append, if_pos rfl, List.map_append,
        List.map_append, hlog]
      show _ ++ [m.payload] = _
      rw [h.carries tid b m hb hm]
      rfl
  · rw [pushStep_ring_of_ne hb heq, hlog]
    obtain ⟨_, haccepted⟩ | ⟨_, _, _, haccepted⟩ := pushStep_accepted (p := p) hb
    · rw [haccepted]
    · rw [haccepted]
      by_cases htopic : segment.topicId = b.segment.topicId
      · have hnumber : b.segment.number ≠ segment.number := fun hnumber =>
          heq (SegmentId.ext htopic hnumber.symm)
        rw [htopic, Function.update_self, inSegment_append, if_neg hnumber, List.append_nil]
      · rw [Function.update_of_ne htopic]

/-- What is accepted next is owed to the subscribers, and in their segment. -/
theorem Serves.pushStep {n : Nat} {topicId : UInt32} (hserves : Serves w n topicId segment)
    {tid : Nat} {b : Publishing} (hb : w.publishing tid = some b) :
    Serves (w.pushStep p tid) n topicId segment := by
  obtain ⟨hring, hnodes, hkept, _⟩ := pushStep_eq (p := p) hb
  have hdelivered : ((w.pushStep p tid).ring segment).delivered = (w.ring segment).delivered := by
    by_cases heq : segment = b.segment
    · rw [hring, heq, Function.update_self]
      exact producerStep_delivered
    · rw [pushStep_ring_of_ne hb heq]
  -- The topic's log is the one before, or has one message more, which is in the segment.
  have hgrows : (w.pushStep p tid).accepted topicId = w.accepted topicId ∨ ∃ e,
      (w.pushStep p tid).accepted topicId = w.accepted topicId ++ [e] ∧ e.number = segment.number := by
    obtain ⟨_, haccepted⟩ | ⟨_, _, _, haccepted⟩ := pushStep_accepted (p := p) hb
    · exact Or.inl (by rw [haccepted])
    · by_cases htopic : b.segment.topicId = topicId
      · subst htopic
        right
        refine ⟨_, by rw [haccepted, Function.update_self], ?_⟩
        rw [hserves.pushes tid b hb rfl]
      · exact Or.inl (by rw [haccepted, Function.update_of_ne (Ne.symm htopic)])
  have hle := hserves.since_le
  refine ⟨?_, fun tid' b' hb' htopic => ?_, ?_, fun e he => ?_, ?_⟩
  · rw [hnodes]
    exact hserves.has
  · obtain ⟨b₀, hb₀, hsegment, _⟩ := hkept tid' b' hb'
    rw [← hsegment]
    exact hserves.pushes tid' b₀ hb₀ (hsegment ▸ htopic)
  · rw [hnodes]
    obtain heq | ⟨e, heq, _⟩ := hgrows
    · rw [heq]
      exact hle
    · rw [heq, List.length_append]
      exact Nat.le_add_right_of_le hle
  · rw [hnodes] at he
    obtain heq | ⟨e', heq, hnumber⟩ := hgrows
    · exact hserves.owed e (heq ▸ he)
    · rw [heq, List.drop_append_of_le_length hle] at he
      rcases List.mem_append.mp he with hmem | hmem
      · exact hserves.owed e hmem
      · rw [List.mem_singleton.mp hmem]
        exact hnumber
  · rw [hnodes, hdelivered]
    obtain heq | ⟨e', heq, _⟩ := hgrows
    · rw [heq]
      exact hserves.handed
    · rw [heq, List.take_append_of_le_length hle]
      exact hserves.handed

theorem Inv.pushStep (h : Inv p w) (tid : Nat) : Inv p (w.pushStep p tid) := by
  cases hb : w.publishing tid with
  | none =>
    rw [Host.pushStep, hb]
    exact h
  | some b =>
    obtain ⟨_, hnodes, hkept, _⟩ := pushStep_eq (p := p) hb
    refine ⟨fun n => ?_, fun segment => (h.follows_pushStep tid).fifo (h.view segment), ?_, ?_,
      h.log_pushStep hb, ?_, fun n topicId hn => ?_⟩
    · rw [hnodes]
      exact h.nodes n
    · intro tid' tid'' b' b'' hb' hb'' hsegment
      obtain ⟨b₀, hb₀, hsegment₀, _⟩ := hkept tid' b' hb'
      obtain ⟨b₁, hb₁, hsegment₁, _⟩ := hkept tid'' b'' hb''
      refine h.onePush tid' tid'' b₀ b₁ hb₀ hb₁ ?_
      rw [hsegment₀, hsegment₁, hsegment]
    · rw [hnodes]
      exact h.onePoll
    · intro tid' b' m hb' hm
      obtain ⟨b₀, hb₀, _, hpayload, hmsg⟩ := hkept tid' b' hb'
      rw [← hpayload]
      exact h.carries tid' b₀ m hb₀ (hmsg ▸ hm)
    · rw [hnodes] at hn
      obtain ⟨segment, hserves⟩ := h.serves n topicId hn
      exact ⟨segment, hserves.pushStep hb⟩

end

end Relink.Node.LocalIpc
