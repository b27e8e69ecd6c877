import Relink.Node.Rings

/-! The polling threads of a host.

A node's thread visits its rings in turn and makes one pop at each. With the calls and the pushes
this is every step, so the invariant of the host holds in every run whose steps meet `Sole`. -/
namespace Relink.Node.LocalIpc
open Shm (Params PopPc)

section
variable {p : Params} {w w' : Host} {segment : SegmentId} {s : Shm.State}

/-! ### The polling threads -/

/-- A turn of the loop begins, ends or is the last. -/
structure Turns (node : RelinkNode) (poll : PollPc) : Prop where
  leaves : node.popping = none
  popping : ∀ segment pc rings, poll ≠ .pop segment pc rings
  segments : ∀ segment ∈ poll.segments, segment ∈ node.polled
  started : node.poll ≠ .unstarted ∧ poll ≠ .unstarted
  exited : node.poll ≠ .exited ∧ (poll = .exited → node.stopRequested = true)

theorem mem_polled {node : RelinkNode} (h : segment ∈ node.polled) :
    segment.topicId ∈ node.shmHandlers ∧ node.segment segment.topicId = some segment := by
  obtain ⟨topicId, hmem, hsegment⟩ := List.mem_filterMap.mp h
  rw [← segment_topicId hsegment]
  exact ⟨hmem, hsegment⟩

theorem Turns.valid {node : RelinkNode} {poll : PollPc} (ht : Turns node poll) (h : node.Valid) :
    RelinkNode.Valid {node with poll := poll} where
  visits segment hsegment := mem_polled (ht.segments segment hsegment)
  opened := h.opened
  started _ _ := ht.started.2
  exited := ht.exited.2
  unsubscribed := h.unsubscribed

theorem follows_turn {n : Nat} {poll : PollPc} (ht : Turns (w.nodes n) poll) :
    Follows p w (w.setNode n {w.nodes n with poll := poll}) := by
  intro segment s hs
  refine ⟨s, Or.inl rfl, hs.of_eq rfl (fun _ _ _ => Iff.rfl) fun m pc rings => ?_⟩
  rw [setNode_nodes]
  split
  · next heq =>
    subst heq
    refine iff_of_false (ht.popping segment pc rings) fun hpoll => ?_
    have hleaves := ht.leaves
    rw [popping_eq_some.mpr ⟨pc, rings, hpoll⟩] at hleaves
    cases hleaves
  · exact Iff.rfl

/-- Between two pops a node's thread changes nothing but where it is. -/
theorem Inv.moveThread (h : Inv p w) {n : Nat} {poll : PollPc}
    (hvalid : RelinkNode.Valid {w.nodes n with poll := poll}) (hrunning : (w.nodes n).poll ≠ .exited)
    (hfollows : Follows p w (w.setNode n {w.nodes n with poll := poll})) :
    Inv p (w.setNode n {w.nodes n with poll := poll}) where
  nodes m := by
    rw [setNode_nodes]
    split
    · exact hvalid
    · exact h.nodes m
  view segment := hfollows.fifo (h.view segment)
  onePush := h.onePush
  onePoll m m' topicId segment hm hm' hhas hhas' := by
    let node : RelinkNode := {w.nodes n with poll := poll}
    have hpolls : ∀ k, ((w.setNode n node).nodes k).Polls topicId →
        (w.nodes k).Polls topicId := by
      intro k hk
      rw [setNode_nodes] at hk
      split at hk
      · next heq => exact heq ▸ ⟨hk.1, hrunning⟩
      · exact hk
    have hsegment : ∀ k, ((w.setNode n node).nodes k).segment topicId =
        (w.nodes k).segment topicId := setNode_keeps (·.segment topicId) node rfl
    rw [hsegment] at hhas hhas'
    exact h.onePoll m m' topicId segment (hpolls m hm) (hpolls m' hm') hhas hhas'
  log := h.log
  carries := h.carries
  serves m topicId hm := by
    let node : RelinkNode := {w.nodes n with poll := poll}
    have hserved : (w.nodes m).Subscribed topicId := by
      refine ⟨?_, (setNode_keeps (·.stopRequested) node rfl m).symm.trans hm.2⟩
      rw [← setNode_keeps (·.shmHandlers) node rfl m]
      exact hm.1
    obtain ⟨segment, hserves⟩ := h.serves m topicId hserved
    exact ⟨segment, hserves.of_eq rfl rfl rfl
      ((setNode_keeps (·.segment topicId) node rfl m).trans hserves.has)
      (setNode_keeps (·.since topicId) node rfl m) (setNode_keeps (·.delivered topicId) node rfl m)⟩

/-- The next segment of a turn, which no other node is popping from. -/
theorem Inv.visits (h : Inv p w) {n : Nat} {rings : List SegmentId}
    (hpoll : (w.nodes n).poll = .visit (segment :: rings)) (m : Nat) :
    (w.nodes m).popping ≠ some segment := by
  intro hpopping
  obtain ⟨hpolls, hhas⟩ := (h.nodes m).polls hpopping
  obtain ⟨hhandler, hhas'⟩ := (h.nodes n).visits segment (by rw [hpoll]; exact List.mem_cons_self)
  have hrunning : (w.nodes n).poll ≠ .exited := by
    rw [hpoll]
    exact PollPc.noConfusion
  have heq := h.onePoll n m _ segment ⟨hhandler, hrunning⟩ hpolls hhas' hhas
  rw [heq, RelinkNode.popping, hpoll] at hpopping
  cases hpopping

theorem Inv.follows_visit (h : Inv p w) {n : Nat} {rings : List SegmentId}
    (hpoll : (w.nodes n).poll = .visit (segment :: rings)) :
    Follows p w (w.setNode n {w.nodes n with
      poll := .pop segment (Shm.startPop {w.ring segment with pop := .idle} .zeroCopy).pop rings}) := by
  intro segment' s hs
  by_cases heq : segment' = segment
  · subst heq
    exact ⟨_, Or.inr ⟨.pop .zeroCopy, rfl⟩, hs.startPop (h.visits hpoll) n rings⟩
  · refine ⟨s, Or.inl rfl, hs.of_eq rfl (fun _ _ _ => Iff.rfl) fun m pc rings' => ?_⟩
    rw [setNode_nodes]
    split
    · next hm =>
      subst hm
      rw [hpoll]
      refine iff_of_false (fun h => ?_) PollPc.noConfusion
      cases h
      exact heq rfl
    · exact Iff.rfl

theorem Inv.visit (h : Inv p w) {n : Nat} {rings : List SegmentId}
    (hpoll : (w.nodes n).poll = .visit (segment :: rings)) :
    Inv p (w.setNode n {w.nodes n with
      poll := .pop segment (Shm.startPop {w.ring segment with pop := .idle} .zeroCopy).pop rings}) := by
  have hvalid := h.nodes n
  refine h.moveThread ⟨fun segment' hmem => hvalid.visits segment' ?_, hvalid.opened,
    fun _ _ => PollPc.noConfusion, (fun h => by cases h), hvalid.unsubscribed⟩ ?_
    (h.follows_visit hpoll)
  · rw [hpoll]
    exact hmem
  · rw [hpoll]
    exact PollPc.noConfusion

/-- What an access of a pop changes: its ring, its node's thread, and what the node was handed. -/
theorem popStep_node (n : Nat) (pc : PopPc) (rings : List SegmentId) (m : Nat) :
    (w.popStep p n segment pc rings).nodes m = if m = n then
      let ring := Shm.consumerStep p {w.ring segment with pop := pc}
      { w.nodes n with
        poll := if ring.pop = .idle then .visit rings else .pop segment ring.pop rings
        delivered := Function.update (w.nodes n).delivered segment.topicId
          ((w.nodes n).delivered segment.topicId ++
            (ring.delivered.drop (w.ring segment).delivered.length).map (·.payload)) }
    else w.nodes m :=
  setNode_nodes ..

/-- A pop changes nothing else of its node. -/
theorem popStep_keeps {α : Type} (f : RelinkNode → α)
    (hf : ∀ (node : RelinkNode) poll delivered,
      f {node with poll := poll, delivered := delivered} = f node)
    (n : Nat) (pc : PopPc) (rings : List SegmentId) (m : Nat) :
    f ((w.popStep p n segment pc rings).nodes m) = f (w.nodes m) := by
  rw [popStep_node]
  split
  · next heq => rw [heq, hf]
  · rfl

theorem popStep_ring (n : Nat) (pc : PopPc) (rings : List SegmentId) (segment' : SegmentId) :
    (w.popStep p n segment pc rings).ring segment' = if segment' = segment then
      Shm.consumerStep p {w.ring segment with pop := pc} else w.ring segment' :=
  Function.update_apply ..

theorem Inv.follows_popStep (h : Inv p w) {n : Nat} {pc : PopPc} {rings : List SegmentId}
    (hpoll : (w.nodes n).poll = .pop segment pc rings) :
    Follows p w (w.popStep p n segment pc rings) := by
  have hpopping : (w.nodes n).popping = some segment := popping_eq_some.mpr ⟨pc, rings, hpoll⟩
  intro segment' s hs
  by_cases heq : segment' = segment
  · subst heq
    exact ⟨_, Or.inr ⟨.consumer, rfl⟩, hs.popStep hpoll fun m hm => h.onePop hpopping hm⟩
  · have hring : (w.popStep p n segment pc rings).ring segment' = w.ring segment' := by
      rw [popStep_ring, if_neg heq]
    refine ⟨s, Or.inl rfl, hs.of_eq hring (fun _ _ _ => Iff.rfl) fun m pc' rings' => ?_⟩
    rw [popStep_node]
    split
    · next hm =>
      subst hm
      rw [hpoll]
      refine iff_of_false (fun h => ?_) fun h => ?_
      · simp only at h
        split at h
        · cases h
        · cases h
          exact heq rfl
      · cases h
        exact heq rfl
    · exact Iff.rfl

theorem popStep_accepted (n : Nat) (pc : PopPc) (rings : List SegmentId) (segment' : SegmentId) :
    ((w.popStep p n segment pc rings).ring segment').accepted = (w.ring segment').accepted := by
  rw [popStep_ring]
  split
  · next heq =>
    rw [heq]
    exact consumerStep_accepted
  · rfl

/-- What is delivered in the segment is delivered to the node that pops there. -/
theorem Inv.serves_popStep (h : Inv p w) {n : Nat} {pc : PopPc} {rings : List SegmentId}
    (hpoll : (w.nodes n).poll = .pop segment pc rings) {m : Nat} {topicId : UInt32}
    (hm : (w.nodes m).Subscribed topicId) {segment' : SegmentId}
    (hserves : Serves w m topicId segment') :
    Serves (w.popStep p n segment pc rings) m topicId segment' := by
  obtain ⟨hpolls, hhas⟩ := (h.nodes n).polls (popping_eq_some.mpr ⟨pc, rings, hpoll⟩)
  by_cases heq : m = n
  · subst heq
    by_cases htopic : topicId = segment.topicId
    · subst htopic
      have hsame : segment' = segment := Option.some.inj (hserves.has.symm.trans hhas)
      subst hsame
      refine ⟨?_, hserves.pushes, ?_, ?_, ?_⟩
      · rw [popStep_node, if_pos rfl]
        exact hserves.has
      · rw [popStep_node, if_pos rfl]
        exact hserves.since_le
      · rw [popStep_node, if_pos rfl]
        exact hserves.owed
      · obtain ⟨before, hbefore, hle, hdelivered⟩ := hserves.handed
        obtain ⟨out, hout⟩ := consumerStep_delivered (p := p) (s := {w.ring segment' with pop := pc})
        simp only at hout
        refine ⟨before, ?_, ?_, ?_⟩
        · rw [popStep_node, if_pos rfl]
          exact hbefore
        · rw [popStep_ring, if_pos rfl, hout, List.length_append]
          exact Nat.le_add_right_of_le hle
        · rw [popStep_node, if_pos rfl, popStep_ring, if_pos rfl]
          simp only
          rw [Function.update_self, hdelivered, hout, List.drop_left, List.drop_append_of_le_length hle,
            List.map_append]
    · have hne : segment' ≠ segment := by
        rintro rfl
        exact htopic (segment_topicId hserves.has)
      refine hserves.of_eq (by rw [popStep_ring, if_neg hne]) rfl rfl ?_ ?_ ?_
      · rw [popStep_node, if_pos rfl]
        exact hserves.has
      · rw [popStep_node, if_pos rfl]
      · rw [popStep_node, if_pos rfl]
        exact Function.update_of_ne htopic _ _
  · -- Another subscriber has another segment.
    have hne : segment' ≠ segment := by
      rintro rfl
      obtain rfl := segment_topicId hserves.has
      exact heq (h.onePoll n m _ segment' hpolls ((h.nodes m).running hm) hhas hserves.has)
    refine hserves.of_eq (by rw [popStep_ring, if_neg hne]) rfl rfl ?_ ?_ ?_
    · rw [popStep_node, if_neg heq]
      exact hserves.has
    · rw [popStep_node, if_neg heq]
    · rw [popStep_node, if_neg heq]

theorem Inv.popStep (h : Inv p w) {n : Nat} {pc : PopPc} {rings : List SegmentId}
    (hpoll : (w.nodes n).poll = .pop segment pc rings) : Inv p (w.popStep p n segment pc rings) := by
  obtain ⟨hpolls, _⟩ := (h.nodes n).polls (popping_eq_some.mpr ⟨pc, rings, hpoll⟩)
  have hhandlers : ∀ m, ((w.popStep p n segment pc rings).nodes m).shmHandlers =
      (w.nodes m).shmHandlers := popStep_keeps (·.shmHandlers) (fun _ _ _ => rfl) n pc rings
  have hstopped : ∀ m, ((w.popStep p n segment pc rings).nodes m).stopRequested =
      (w.nodes m).stopRequested := popStep_keeps (·.stopRequested) (fun _ _ _ => rfl) n pc rings
  have hsegment : ∀ topicId m, ((w.popStep p n segment pc rings).nodes m).segment topicId =
      (w.nodes m).segment topicId := fun topicId =>
    popStep_keeps (·.segment topicId) (fun _ _ _ => rfl) n pc rings
  have hpolled : ∀ m topicId, ((w.popStep p n segment pc rings).nodes m).Polls topicId →
      (w.nodes m).Polls topicId := by
    intro m topicId hm
    refine ⟨hhandlers m ▸ hm.1, ?_⟩
    by_cases heq : m = n
    · exact heq ▸ hpolls.2
    · have := hm.2
      rwa [popStep_node, if_neg heq] at this
  refine ⟨fun m => ?_, fun segment' => (h.follows_popStep hpoll).fifo (h.view segment'), h.onePush,
    fun m m' topicId segment' hm hm' hhas hhas' => ?_, fun segment' => ?_, h.carries,
    fun m topicId hm => ?_⟩
  · rw [popStep_node]
    split
    · have hvalid := h.nodes n
      refine ⟨fun segment' hmem => hvalid.visits segment' ?_, hvalid.opened, fun _ _ => ?_,
        fun hexited => ?_, fun topicId htopic => ?_⟩
      · rw [hpoll]
        simp only at hmem
        split at hmem
        · exact List.mem_cons_of_mem _ hmem
        · exact hmem
      · simp only
        split <;> exact PollPc.noConfusion
      · simp only at hexited
        split at hexited <;> cases hexited
      · have hne : topicId ≠ segment.topicId := fun heq => htopic (heq ▸ hpolls.1)
        exact (Function.update_of_ne hne _ _).trans (hvalid.unsubscribed topicId htopic)
    · exact h.nodes m
  · rw [hsegment] at hhas hhas'
    exact h.onePoll m m' topicId segment' (hpolled m topicId hm) (hpolled m' topicId hm') hhas hhas'
  · rw [popStep_accepted]
    exact h.log segment'
  · have hserved : (w.nodes m).Subscribed topicId := ⟨hhandlers m ▸ hm.1, hstopped m ▸ hm.2⟩
    obtain ⟨segment', hserves⟩ := h.serves m topicId hserved
    exact ⟨segment', h.serves_popStep hpoll hserved hserves⟩

/-- What a polling thread does next. -/
theorem poll_cases (w : Host) (n : Nat) :
    w.pollStep p n = w ∨
    (∃ poll, w.pollStep p n = w.setNode n {w.nodes n with poll := poll} ∧ Turns (w.nodes n) poll) ∨
    (∃ segment rings, (w.nodes n).poll = .visit (segment :: rings) ∧
      w.pollStep p n = w.setNode n {w.nodes n with
        poll := .pop segment (Shm.startPop {w.ring segment with pop := .idle} .zeroCopy).pop rings}) ∨
    ∃ segment pc rings, (w.nodes n).poll = .pop segment pc rings ∧
      w.pollStep p n = w.popStep p n segment pc rings := by
  cases hpoll : (w.nodes n).poll with
  | unstarted | exited => exact Or.inl (by rw [Host.pollStep, hpoll])
  | check =>
    refine Or.inr (Or.inl ⟨if (w.nodes n).stopRequested then .exited else .snapshot,
      by rw [Host.pollStep, hpoll], by rw [RelinkNode.popping, hpoll], ?_, ?_, ⟨?_, ?_⟩, ?_, ?_⟩)
    · intro segment pc rings
      split <;> exact PollPc.noConfusion
    · intro segment hmem
      split at hmem <;> cases hmem
    · exact hpoll ▸ PollPc.noConfusion
    · split <;> exact PollPc.noConfusion
    · exact hpoll ▸ PollPc.noConfusion
    · intro hexited
      split at hexited
      · next hstopped => exact hstopped
      · cases hexited
  | snapshot =>
    exact Or.inr (Or.inl ⟨.visit (w.nodes n).polled, by rw [Host.pollStep, hpoll],
      by rw [RelinkNode.popping, hpoll], fun _ _ _ => PollPc.noConfusion, fun _ hmem => hmem,
      ⟨hpoll ▸ PollPc.noConfusion, PollPc.noConfusion⟩, hpoll ▸ PollPc.noConfusion,
      PollPc.noConfusion⟩)
  | visit queue =>
    cases queue with
    | nil =>
      exact Or.inr (Or.inl ⟨.check, by rw [Host.pollStep, hpoll],
        by rw [RelinkNode.popping, hpoll], fun _ _ _ => PollPc.noConfusion,
        fun _ hmem => absurd hmem List.not_mem_nil, ⟨hpoll ▸ PollPc.noConfusion,
        PollPc.noConfusion⟩, hpoll ▸ PollPc.noConfusion, PollPc.noConfusion⟩)
    | cons segment rings =>
      exact Or.inr (Or.inr (Or.inl ⟨segment, rings, rfl, by rw [Host.pollStep, hpoll]⟩))
  | pop segment pc rings =>
    exact Or.inr (Or.inr (Or.inr ⟨segment, pc, rings, rfl, by rw [Host.pollStep, hpoll]⟩))

/-! ### Every step -/

theorem Inv.follows (h : Inv p w) {act : Act} (hsole : w.Sole p act) :
    Follows p w (w.step p act) := by
  cases act with
  | advertise n topicId =>
    obtain ⟨hring, hpublishing, _⟩ := advertise_keeps (w := w) n topicId
    exact follows_frame hring hpublishing fun m => (extends_advertise n topicId m).poll
  | subscribe n topicId =>
    obtain ⟨hring, hpublishing, _⟩ := advertise_keeps (w := w) n topicId
    intro segment s hs
    have hs' := hs.frame hring hpublishing fun m => (extends_advertise n topicId m).poll
    exact ⟨s, Or.inl rfl, hs'.subscribe n topicId _⟩
  | publish tid n topicId payload => exact follows_publish hsole
  | requestStop n => exact follows_frame rfl rfl fun m => (extends_requestStop n m).poll
  | push tid => exact h.follows_pushStep tid
  | poll n =>
    obtain heq | ⟨poll, heq, hturns⟩ | ⟨segment, rings, hpoll, heq⟩ |
      ⟨segment, pc, rings, hpoll, heq⟩ := poll_cases (p := p) w n
    · rw [Host.step, heq]
      exact follows_frame rfl rfl fun _ => rfl
    · rw [Host.step, heq]
      exact follows_turn hturns
    · rw [Host.step, heq]
      exact h.follows_visit hpoll
    · rw [Host.step, heq]
      exact h.follows_popStep hpoll

/-- **One step**, under its condition, keeps each ring with one producer and one consumer, and owes
nothing more than it accepts. -/
theorem Inv.step (h : Inv p w) {act : Act} (hsole : w.Sole p act) : Inv p (w.step p act) := by
  cases act with
  | advertise n topicId => exact h.advertise n topicId
  | subscribe n topicId => exact h.subscribe hsole
  | publish tid n topicId payload => exact h.publish hsole
  | requestStop n => exact h.requestStop n
  | push tid => exact h.pushStep tid
  | poll n =>
    obtain heq | ⟨poll, heq, hturns⟩ | ⟨segment, rings, hpoll, heq⟩ |
      ⟨segment, pc, rings, hpoll, heq⟩ := poll_cases (p := p) w n
    · rw [Host.step, heq]
      exact h
    · rw [Host.step, heq]
      exact h.moveThread (hturns.valid (h.nodes n)) hturns.exited.1 (follows_turn hturns)
    · rw [Host.step, heq]
      exact h.visit hpoll
    · rw [Host.step, heq]
      exact h.popStep hpoll

theorem inv_empty (p : Params) : Inv p (Host.empty p) where
  nodes _ := ⟨fun _ h => (by cases h), fun _ h => (by cases h), fun _ h => (by cases h),
    fun h => (by cases h), fun _ _ => rfl⟩
  view segment := ⟨(Host.empty p).ring segment, ⟨rfl, fun _ _ h => (by cases h), fun _ => rfl,
    fun _ _ _ h => (by cases h), fun _ => rfl⟩, Shm.run_inv p List.length_replicate []⟩
  onePush _ _ _ _ h := by cases h
  onePoll _ _ _ _ h := by cases h.1
  log _ := rfl
  carries _ _ _ h := by cases h
  serves _ _ h := by cases h.1

/-! ### What follows -/

theorem View.seg (h : View w segment s) : s.seg = (w.ring segment).seg := by rw [h.ring]

theorem View.accepted (h : View w segment s) : s.accepted = (w.ring segment).accepted := by
  rw [h.ring]

theorem View.delivered (h : View w segment s) : s.delivered = (w.ring segment).delivered := by
  rw [h.ring]

/-- Nobody writes the slot that a callback reads. -/
theorem Inv.unwritten (h : Inv p w) {act : Act} (hsole : w.Sole p act) :
    w.Unwritten p (w.step p act) := by
  intro n segment pc rings head hpoll hreading
  obtain ⟨s, hs, hfifo⟩ := h.view segment
  obtain ⟨s', hmoves, hs'⟩ := h.follows hsole segment s hs
  have hslot : Shm.slotBytes p s' head = Shm.slotBytes p s head := by
    obtain rfl | ⟨access, rfl⟩ := hmoves
    · rfl
    · exact hfifo.inv.untouched ((hs.pop n pc rings hpoll).symm ▸ hreading) access
  rwa [Shm.slotBytes, Shm.slotBytes, hs.seg, hs'.seg] at hslot

/-- A segment accepts more only. -/
theorem Inv.accepted_le (h : Inv p w) (h' : Inv p w')
    (hlater : w.accepted segment.topicId <+: w'.accepted segment.topicId) :
    (w.ring segment).accepted.length ≤ (w'.ring segment).accepted.length := by
  have hlog := congrArg List.length (h.log segment)
  have hlog' := congrArg List.length (h'.log segment)
  rw [List.length_map, List.length_map] at hlog hlog'
  rw [hlog, hlog']
  exact (List.IsPrefix.filter _ hlater).length_le

/-- The segment of a subscriber accepted some of the earlier messages, and all later ones. -/
theorem Inv.accepted_split (h : Inv p w) {n : Nat} (hserves : Serves w n segment.topicId segment) :
    (w.ring segment).accepted.map (·.payload) =
      (inSegment segment ((w.accepted segment.topicId).take
        ((w.nodes n).since segment.topicId))).map (·.payload) ++
      ((w.accepted segment.topicId).drop ((w.nodes n).since segment.topicId)).map (·.payload) := by
  let since := (w.nodes n).since segment.topicId
  have hlater : inSegment segment ((w.accepted segment.topicId).drop since) =
      (w.accepted segment.topicId).drop since :=
    List.filter_eq_self.mpr fun e he => by simpa using hserves.owed e he
  have hsplit := List.take_append_drop since (w.accepted segment.topicId)
  rw [h.log segment, ← List.map_append]
  conv_lhs => rw [← hsplit, inSegment, List.filter_append]
  exact congrArg (fun later => List.map (·.payload) (inSegment segment _ ++ later)) hlater

/-- A subscriber has been handed what its segment delivered since. -/
theorem Inv.handed (h : Inv p w) {n : Nat} {topicId : UInt32} (hserves : Serves w n topicId segment)
    {count : Nat} (hcount : (w.nodes n).since topicId < count →
      (inSegment segment ((w.accepted topicId).take ((w.nodes n).since topicId))).length +
        (count - (w.nodes n).since topicId) ≤ (w.ring segment).delivered.length) :
    w.Handed n topicId count := by
  obtain ⟨before, hbefore, hle, hdelivered⟩ := hserves.handed
  obtain ⟨s, hs, hfifo⟩ := h.view segment
  obtain rfl := segment_topicId hserves.has
  let since := (w.nodes n).since segment.topicId
  let earlier := inSegment segment ((w.accepted segment.topicId).take since)
  let later := (w.accepted segment.topicId).drop since
  have haccepted := h.accepted_split hserves
  have hbegins : (w.ring segment).delivered <+: (w.ring segment).accepted := by
    rw [← hs.delivered, ← hs.accepted]
    exact hfifo.inv.delivered.1
  refine ⟨(earlier.map (·.payload)).drop before, ?_, ?_, fun hlt => ?_⟩
  · refine (List.drop_sublist _ _).trans ?_
    rw [Host.published, ← List.map_take]
    exact (List.filter_sublist).map _
  · have hmapped := List.IsPrefix.drop (List.IsPrefix.map (·.payload) hbegins) before
    rw [haccepted, List.drop_append_of_le_length (by rwa [List.length_map])] at hmapped
    have hlater : (w.published segment.topicId).drop ((w.nodes n).since segment.topicId) =
        later.map (·.payload) := List.map_drop.symm
    rw [hdelivered, List.map_drop, hlater]
    exact hmapped
  · have hcount : earlier.length + (count - since) ≤ (w.ring segment).delivered.length := hcount hlt
    rw [hdelivered, List.length_drop, List.length_map, List.length_map, List.length_drop]
    show earlier.length - before + (count - since) ≤ _
    have hbefore : before ≤ earlier.length := hbefore
    omega

end

end Relink.Node.LocalIpc
