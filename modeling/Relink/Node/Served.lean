import Mathlib.Data.Prod.Lex
import Relink.Node.Polling

/-! What a subscriber is handed in the end.

A polling thread that runs on comes to each of its rings in every turn, and a pop that finds a
message hands it over. So the messages that wait in a subscriber's segment get fewer with the
thread's own steps, and no other step delays it. `delivers_once` is this with the invariant of the
host, for every run whose steps meet `Sole`. -/
namespace Relink.Node.LocalIpc
open Shm (Params PopPc)
open Transition

/-! ### Nothing is taken back -/

/-- What a node and a topic's log keep. -/
structure Later (n : Nat) (topicId : UInt32) (w w' : Host) : Prop where
  accepted : w.accepted topicId <+: w'.accepted topicId
  handler : topicId ∈ (w.nodes n).shmHandlers → topicId ∈ (w'.nodes n).shmHandlers
  segment : ∀ segment, (w.nodes n).segment topicId = some segment →
    (w'.nodes n).segment topicId = some segment
  since : topicId ∈ (w.nodes n).shmHandlers →
    (w'.nodes n).since topicId = (w.nodes n).since topicId
  delivered : ∀ segment, (w.ring segment).delivered.length ≤ (w'.ring segment).delivered.length

section
variable {p : Params} {w w' w'' : Host} {n : Nat} {topicId : UInt32} {segment : SegmentId}

theorem Later.refl (w : Host) : Later n topicId w w :=
  ⟨List.prefix_refl _, id, fun _ => id, fun _ => rfl, fun _ => le_refl _⟩

theorem Later.trans (h : Later n topicId w w') (h' : Later n topicId w' w'') :
    Later n topicId w w'' where
  accepted := h.accepted.trans h'.accepted
  handler hmem := h'.handler (h.handler hmem)
  segment segment hsegment := h'.segment segment (h.segment segment hsegment)
  since hmem := (h'.since (h.handler hmem)).trans (h.since hmem)
  delivered segment := (h.delivered segment).trans (h'.delivered segment)

theorem later_frame (hring : w'.ring = w.ring) (haccepted : w'.accepted = w.accepted)
    (he : Extends (w.nodes n) (w'.nodes n)) : Later n topicId w w' where
  accepted := haccepted ▸ List.prefix_refl _
  handler hmem := he.handlers ▸ hmem
  segment := he.segment topicId
  since _ := by rw [he.since]
  delivered _ := hring ▸ le_refl _

theorem later_subscribe (m : Nat) (topicId' : UInt32) (accepted : Nat) :
    Later n topicId w (w.setNode m ((w.nodes m).subscribe topicId' accepted)) := by
  by_cases heq : n = m
  · subst heq
    refine ⟨List.prefix_refl _, fun hmem => ?_, fun _ hsegment => ?_, fun hmem => ?_,
      fun _ => le_refl _⟩
    · rw [setNode_nodes, if_pos rfl]
      exact mem_handlers_subscribe.mpr (Or.inl hmem)
    · rw [setNode_nodes, if_pos rfl]
      exact hsegment
    · rw [setNode_nodes, if_pos rfl]
      exact since_subscribe (Or.inl hmem)
  · refine ⟨List.prefix_refl _, fun hmem => ?_, fun _ hsegment => ?_, fun _ => ?_,
      fun _ => le_refl _⟩ <;> rw [setNode_nodes, if_neg heq]
    · exact hmem
    · exact hsegment

theorem later_pushStep (tid : Nat) : Later n topicId w (w.pushStep p tid) := by
  cases hb : w.publishing tid with
  | none =>
    rw [Host.pushStep, hb]
    exact .refl w
  | some b =>
    obtain ⟨hring, hnodes, _⟩ := pushStep_eq (p := p) hb
    refine ⟨?_, fun hmem => hnodes ▸ hmem, fun _ hsegment => hnodes ▸ hsegment, fun _ => by rw [hnodes],
      fun segment => ?_⟩
    · obtain ⟨_, haccepted⟩ | ⟨_, _, _, haccepted⟩ := pushStep_accepted (p := p) hb
      · rw [haccepted]
      · rw [haccepted, Function.update_apply]
        split
        · next htopic =>
          rw [htopic]
          exact List.prefix_append _ _
        · exact List.prefix_refl _
    · by_cases heq : segment = b.segment
      · rw [hring, heq, Function.update_self, producerStep_delivered]
      · rw [pushStep_ring_of_ne hb heq]

theorem later_popStep (m : Nat) (segment : SegmentId) (pc : PopPc) (rings : List SegmentId) :
    Later n topicId w (w.popStep p m segment pc rings) := by
  refine ⟨List.prefix_refl _, fun hmem => ?_, fun segment' hhas => ?_, fun _ => ?_,
    fun segment' => ?_⟩
  · rwa [popStep_keeps (·.shmHandlers) (fun _ _ _ => rfl)]
  · rwa [popStep_keeps (·.segment topicId) (fun _ _ _ => rfl)]
  · rw [popStep_keeps (·.since) (fun _ _ _ => rfl)]
  · rw [popStep_ring]
    split
    · next heq =>
      obtain ⟨out, hout⟩ := consumerStep_delivered (p := p) (s := {w.ring segment with pop := pc})
      rw [heq, hout, List.length_append]
      exact Nat.le_add_right _ _
    · exact le_refl _

theorem later_thread (m : Nat) (poll : PollPc) :
    Later n topicId w (w.setNode m {w.nodes m with poll := poll}) := by
  let node : RelinkNode := {w.nodes m with poll := poll}
  refine ⟨List.prefix_refl _, fun hmem => ?_, fun segment hsegment => ?_, fun _ => ?_,
    fun _ => le_refl _⟩
  · rwa [setNode_keeps (·.shmHandlers) node rfl n]
  · exact (setNode_keeps (·.segment topicId) node rfl n).trans hsegment
  · exact setNode_keeps (·.since topicId) node rfl n

/-- Any step, whatever its condition. -/
theorem later_step (n : Nat) (topicId : UInt32) (w : Host) (act : Act) :
    Later n topicId w (w.step p act) := by
  cases act with
  | advertise m topicId' =>
    obtain ⟨hring, _, haccepted⟩ := advertise_keeps (w := w) m topicId'
    exact later_frame hring haccepted (extends_advertise m topicId' n)
  | subscribe m topicId' =>
    obtain ⟨hring, _, haccepted⟩ := advertise_keeps (w := w) m topicId'
    exact (later_frame hring haccepted (extends_advertise m topicId' n)).trans
      (later_subscribe m topicId' _)
  | publish tid m topicId' payload =>
    obtain heq | ⟨seqs, heq | ⟨b, _, _, _, _, _, _, _, _, heq⟩⟩ :=
      publish_cases (p := p) w tid m topicId' payload
    · rw [Host.step, heq]
      exact .refl w
    · rw [Host.step, heq]
      exact later_frame rfl rfl (extends_seq m seqs n)
    · rw [Host.step, heq]
      exact later_frame rfl rfl (extends_seq m seqs n)
  | requestStop m => exact later_frame rfl rfl (extends_requestStop m n)
  | push tid => exact later_pushStep tid
  | poll m =>
    obtain heq | ⟨poll, heq, _⟩ | ⟨_, _, _, heq⟩ | ⟨segment, pc, rings, _, heq⟩ :=
      poll_cases (p := p) w m
    · rw [Host.step, heq]
      exact .refl w
    · rw [Host.step, heq]
      exact later_thread m poll
    · rw [Host.step, heq]
      exact later_thread m _
    · rw [Host.step, heq]
      exact later_popStep m segment pc rings

/-! ### A node's own steps -/

/-- Its thread, once started, goes on with its own steps only. -/
theorem poll_of_ne {act : Act} (hne : act ≠ .poll n) (hstarted : (w.nodes n).poll ≠ .unstarted) :
    ((w.step p act).nodes n).poll = (w.nodes n).poll := by
  cases act with
  | advertise m topicId => exact (extends_advertise m topicId n).poll
  | subscribe m topicId =>
    have hadvertised := (extends_advertise (w := w) m topicId n).poll
    show ((Host.setNode _ m _).nodes n).poll = _
    rw [setNode_nodes]
    split
    · next heq =>
      subst heq
      obtain ⟨hunstarted, _⟩ | ⟨_, hpoll⟩ :=
        poll_subscribe ((w.advertiseLocalIpc n topicId).nodes n) topicId _
      · exact absurd (hadvertised.symm.trans hunstarted) hstarted
      · rw [hpoll, hadvertised]
    · exact hadvertised
  | publish tid m topicId payload =>
    obtain heq | ⟨seqs, heq | ⟨_, _, _, _, _, _, _, _, _, heq⟩⟩ :=
      publish_cases (p := p) w tid m topicId payload
    · rw [Host.step, heq]
    · rw [Host.step, heq]
      exact (extends_seq m seqs n).poll
    · rw [Host.step, heq]
      exact (extends_seq m seqs n).poll
  | requestStop m => exact (extends_requestStop m n).poll
  | push tid =>
    cases hb : w.publishing tid with
    | none => rw [Host.step, Host.pushStep, hb]
    | some b => rw [Host.step, (pushStep_eq hb).2.1]
  | poll m =>
    have hother : n ≠ m := fun heq => hne (heq ▸ rfl)
    obtain heq | ⟨_, heq, _⟩ | ⟨_, _, _, heq⟩ | ⟨_, _, _, _, heq⟩ := poll_cases (p := p) w m
    · rw [Host.step, heq]
    · rw [Host.step, heq, setNode_nodes, if_neg hother]
    · rw [Host.step, heq, setNode_nodes, if_neg hother]
    · rw [Host.step, heq, popStep_node, if_neg hother]

theorem stopped_advertise (m : Nat) (topicId : UInt32) :
    ((w.advertiseLocalIpc m topicId).nodes n).stopRequested = (w.nodes n).stopRequested := by
  unfold Host.advertiseLocalIpc
  split
  · rfl
  · refine setNode_keeps (·.stopRequested) _ ?_ n
    rfl

theorem stopped_of_ne {act : Act} (hne : act ≠ .requestStop n) :
    ((w.step p act).nodes n).stopRequested = (w.nodes n).stopRequested := by
  cases act with
  | advertise m topicId =>
    exact stopped_advertise m topicId
  | subscribe m topicId =>
    refine (setNode_keeps (·.stopRequested) _ ?_ n).trans (stopped_advertise m topicId)
    rfl
  | publish tid m topicId payload =>
    obtain heq | ⟨seqs, heq | ⟨_, _, _, _, _, _, _, _, _, heq⟩⟩ :=
      publish_cases (p := p) w tid m topicId payload
    · rw [Host.step, heq]
    · rw [Host.step, heq]
      apply setNode_keeps (·.stopRequested)
      rfl
    · rw [Host.step, heq]
      apply setNode_keeps (·.stopRequested)
      rfl
  | requestStop m =>
    have hother : n ≠ m := fun heq => hne (heq ▸ rfl)
    show ((Host.setNode _ m _).nodes n).stopRequested = _
    rw [setNode_nodes, if_neg hother]
  | push tid =>
    cases hb : w.publishing tid with
    | none => rw [Host.step, Host.pushStep, hb]
    | some b => rw [Host.step, (pushStep_eq hb).2.1]
  | poll m =>
    obtain heq | ⟨_, heq, _⟩ | ⟨_, _, _, heq⟩ | ⟨_, _, _, _, heq⟩ := poll_cases (p := p) w m
    · rw [Host.step, heq]
    · rw [Host.step, heq]
      apply setNode_keeps (·.stopRequested)
      rfl
    · rw [Host.step, heq]
      apply setNode_keeps (·.stopRequested)
      rfl
    · rw [Host.step, heq]
      apply setNode_keeps (·.stopRequested)
      rfl

/-- A pop that has not handed its message over. -/
def undelivered : PopPc → Bool
  | .loadTail _ _ => true
  | .readSeq _ _ => true
  | .readLen _ _ _ => true
  | .readPayload _ _ _ _ => true
  | _ => false

/-- The accesses of a pop that are left, and its return. -/
def popLeft : PopPc → Nat
  | .loadTail _ _ => 7
  | .readSeq _ _ => 6
  | .readLen _ _ _ => 5
  | .readPayload _ _ _ _ => 4
  | .callback _ => 3
  | .storeHead _ => 2
  | .idle => 1

/-- The segment's next message is handed over in this turn. -/
def PollPc.ahead (segment : SegmentId) : PollPc → Prop
  | .visit rings => segment ∈ rings
  | .pop segment' pc rings => segment' = segment ∧ undelivered pc ∨ segment ∈ rings
  | _ => False

instance (segment : SegmentId) : (poll : PollPc) → Decidable (poll.ahead segment)
  | .visit rings => inferInstanceAs (Decidable (segment ∈ rings))
  | .pop segment' pc rings =>
    inferInstanceAs (Decidable (segment' = segment ∧ undelivered pc ∨ segment ∈ rings))
  | .unstarted => .isFalse id
  | .check => .isFalse id
  | .snapshot => .isFalse id
  | .exited => .isFalse id

/-- The steps that are left until the next turn begins, at most. -/
def PollPc.left : PollPc → Nat
  | .check => 2
  | .snapshot => 1
  | .visit rings => 3 + 8 * rings.length
  | .pop _ pc rings => 3 + 8 * rings.length + popLeft pc
  | _ => 0

/-- The polling thread hands a message of the segment over, or comes closer to it. -/
def Advances (segment : SegmentId) (n : Nat) (w w' : Host) : Prop :=
  (w.ring segment).delivered.length < (w'.ring segment).delivered.length ∨
  ¬ (w.nodes n).poll.ahead segment ∧ (w'.nodes n).poll.ahead segment ∨
  ((w'.nodes n).poll.ahead segment ↔ (w.nodes n).poll.ahead segment) ∧
    (w'.nodes n).poll.left < (w.nodes n).poll.left

/-- Where a polling thread is after an access of a pop. -/
def afterPop (segment : SegmentId) (pc : PopPc) (rings : List SegmentId) : PollPc :=
  if pc = .idle then .visit rings else .pop segment pc rings

theorem popStep_poll (n : Nat) (pc : PopPc) (rings : List SegmentId) :
    ((w.popStep p n segment pc rings).nodes n).poll =
      afterPop segment (Shm.consumerStep p {w.ring segment with pop := pc}).pop rings := by
  rw [popStep_node, if_pos rfl]
  rfl

/-- The thread is closer to the next turn, and no segment has been passed over. -/
theorem afterPop_closer {segment' : SegmentId} {pc pc' : PopPc} (rings : List SegmentId)
    (hleft : pc' = .idle ∨ popLeft pc' < popLeft pc)
    (hahead : segment' = segment → undelivered pc' = undelivered pc) :
    ((afterPop segment' pc' rings).ahead segment ↔ (PollPc.pop segment' pc rings).ahead segment) ∧
      (afterPop segment' pc' rings).left < (PollPc.pop segment' pc rings).left := by
  have hsame : (PollPc.pop segment' pc rings).ahead segment ↔
      segment' = segment ∧ undelivered pc' = true ∨ segment ∈ rings :=
    or_congr_left (and_congr_right fun heq => by rw [hahead heq])
  rw [hsame]
  by_cases hidle : pc' = .idle
  · subst hidle
    have hpos : 0 < popLeft pc := by cases pc <;> exact Nat.succ_pos _
    rw [afterPop, if_pos rfl]
    refine ⟨?_, ?_⟩
    · exact (or_iff_right fun h => by cases h.2).symm
    · show 3 + 8 * rings.length < 3 + 8 * rings.length + popLeft pc
      omega
  · have hlt := hleft.resolve_left hidle
    rw [afterPop, if_neg hidle]
    exact ⟨Iff.rfl, Nat.add_lt_add_left hlt _⟩

theorem Inv.popStep_advances (h : Inv p w) {segment' : SegmentId} {pc : PopPc}
    {rings : List SegmentId} (hpoll : (w.nodes n).poll = .pop segment' pc rings)
    (hwaiting : (w.ring segment).delivered.length < (w.ring segment).accepted.length) :
    Advances segment n w (w.popStep p n segment' pc rings) := by
  have hcloser : ∀ pc', (Shm.consumerStep p {w.ring segment' with pop := pc}).pop = pc' →
      (pc' = .idle ∨ popLeft pc' < popLeft pc) →
      (segment' = segment → undelivered pc' = undelivered pc) →
      Advances segment n w (w.popStep p n segment' pc rings) := by
    intro pc' hpc' hleft hahead
    refine Or.inr (Or.inr ?_)
    rw [popStep_poll, hpc', hpoll]
    exact afterPop_closer rings hleft hahead
  cases pc with
  | idle => exact hcloser .idle rfl (Or.inl rfl) fun _ => rfl
  | loadTail kind head =>
    by_cases hempty : head = (w.ring segment').seg.tail
    · refine hcloser .idle (by rw [Shm.consumerStep]; exact congrArg _ (if_pos hempty)) (Or.inl rfl)
        fun heq => ?_
      subst heq
      obtain ⟨s, hs, hfifo⟩ := h.view segment'
      rw [← hs.delivered, ← hs.accepted] at hwaiting
      exact absurd (hs.seg ▸ hempty) (hfifo.finds (hs.pop n _ rings hpoll) hwaiting)
    · exact hcloser (.readSeq kind head) (by rw [Shm.consumerStep]; exact congrArg _ (if_neg hempty))
        (Or.inr (Nat.lt_succ_self 6)) fun _ => rfl
  | readSeq kind head => exact hcloser _ rfl (Or.inr (Nat.lt_succ_self 5)) fun _ => rfl
  | readLen kind head seqNum => exact hcloser _ rfl (Or.inr (Nat.lt_succ_self 4)) fun _ => rfl
  | readPayload kind head seqNum len =>
    by_cases heq : segment' = segment
    · subst heq
      left
      rw [popStep_ring, if_pos rfl, Shm.consumerStep, List.length_append]
      exact Nat.lt_succ_self _
    · refine hcloser _ rfl ?_ fun h => absurd h heq
      cases kind with
      | copy => exact Or.inr (show 2 < 4 by omega)
      | zeroCopy => exact Or.inr (Nat.lt_succ_self 3)
  | callback head => exact hcloser _ rfl (Or.inr (Nat.lt_succ_self 2)) fun _ => rfl
  | storeHead head => exact hcloser _ rfl (Or.inl rfl) fun _ => rfl

/-- A subscriber's thread makes progress with each of its steps, while messages wait. -/
theorem Inv.advances (h : Inv p w) (hn : (w.nodes n).Subscribed topicId)
    (hsegment : (w.nodes n).segment topicId = some segment)
    (hwaiting : (w.ring segment).delivered.length < (w.ring segment).accepted.length) :
    Advances segment n w (w.pollStep p n) := by
  have hself : ∀ poll, ((w.setNode n {w.nodes n with poll := poll}).nodes n).poll = poll := by
    intro poll
    rw [setNode_nodes, if_pos rfl]
  cases hpoll : (w.nodes n).poll with
  | unstarted => exact absurd hpoll ((h.nodes n).started topicId hn.1)
  | exited => exact absurd hpoll ((h.nodes n).running hn).2
  | check =>
    refine Or.inr (Or.inr ?_)
    rw [Host.pollStep, hpoll]
    simp only
    rw [hself, hn.2]
    exact ⟨Iff.rfl, Nat.lt_succ_self 1⟩
  | snapshot =>
    refine Or.inr (Or.inl ⟨hpoll ▸ id, ?_⟩)
    rw [Host.pollStep, hpoll]
    simp only
    rw [hself]
    exact List.mem_filterMap.mpr ⟨topicId, hn.1, hsegment⟩
  | visit queue =>
    refine Or.inr (Or.inr ?_)
    cases queue with
    | nil =>
      rw [Host.pollStep, hpoll]
      simp only
      rw [hself]
      exact ⟨(iff_of_false id List.not_mem_nil), Nat.lt_succ_self 2⟩
    | cons segment' rings =>
      rw [Host.pollStep, hpoll]
      simp only
      rw [hself]
      refine ⟨?_, ?_⟩
      · show segment' = segment ∧ true = true ∨ segment ∈ rings ↔ segment ∈ segment' :: rings
        rw [List.mem_cons, and_iff_left rfl, eq_comm]
      · show 3 + 8 * rings.length + 7 < 3 + 8 * (rings.length + 1)
        omega
  | pop segment' pc rings =>
    have hstep : w.pollStep p n = w.popStep p n segment' pc rings := by rw [Host.pollStep, hpoll]
    rw [hstep]
    exact h.popStep_advances hpoll hwaiting

end

/-! ### Whole runs -/

/-- The messages that still wait of the first ones, whether this turn comes to the segment, and the
steps left in it. -/
def rank (segment : SegmentId) (n count : Nat) (w : Host) : ℕ ×ₗ ℕ ×ₗ ℕ :=
  toLex (count - (w.ring segment).delivered.length,
    toLex (if (w.nodes n).poll.ahead segment then 0 else 1, (w.nodes n).poll.left))

section
variable {p : Params} {w w' : Host} {n count : Nat} {topicId : UInt32} {segment : SegmentId}

theorem Advances.rank_lt (h : Advances segment n w w')
    (hdelivered : (w.ring segment).delivered.length ≤ (w'.ring segment).delivered.length)
    (hwaiting : (w.ring segment).delivered.length < count) :
    rank segment n count w' < rank segment n count w := by
  obtain hmore | ⟨hbehind, hahead⟩ | ⟨hahead, hleft⟩ := h
  · refine Prod.Lex.toLex_lt_toLex.mpr (Or.inl ?_)
    show count - _ < count - _
    omega
  · refine Prod.Lex.toLex_lt_toLex'.mpr ⟨Nat.sub_le_sub_left hdelivered count, fun _ => ?_⟩
    refine Prod.Lex.toLex_lt_toLex.mpr (Or.inl ?_)
    simp only
    rw [if_pos hahead, if_neg hbehind]
    exact Nat.zero_lt_one
  · refine Prod.Lex.toLex_lt_toLex'.mpr ⟨Nat.sub_le_sub_left hdelivered count, fun _ => ?_⟩
    refine Prod.Lex.toLex_lt_toLex.mpr (Or.inr ⟨?_, hleft⟩)
    simp only [hahead]

theorem rank_le (hpoll : (w'.nodes n).poll = (w.nodes n).poll)
    (hdelivered : (w.ring segment).delivered.length ≤ (w'.ring segment).delivered.length) :
    rank segment n count w' ≤ rank segment n count w := by
  refine Prod.Lex.toLex_le_toLex'.mpr ⟨Nat.sub_le_sub_left hdelivered count, fun _ => ?_⟩
  simp only [hpoll, le_refl]

end

section
variable {p : Params} {run : Nat → Act} {n i : Nat} {topicId : UInt32} {segment : SegmentId}

theorem inv_hosts (hsole : ∀ j, (hosts p run j).Sole p (run j)) (j : Nat) :
    Inv p (hosts p run j) :=
  after_invariant (Inv p) (Host.Sole p) (fun _ _ h hs => h.step hs) (inv_empty p) hsole j

theorem later_hosts {i j : Nat} (hij : i ≤ j) :
    Later n topicId (hosts p run i) (hosts p run j) :=
  after_related (Later n topicId) .refl .trans hij fun _ _ => later_step n topicId _ _

/-- A subscriber stays one until it is stopped. -/
theorem subscribed_hosts {j : Nat} (hij : i ≤ j)
    (hn : ((hosts p run i).nodes n).Subscribed topicId)
    (hruns : ∀ j, i ≤ j → run j ≠ .requestStop n) :
    ((hosts p run j).nodes n).Subscribed topicId := by
  refine ⟨(later_hosts hij).handler hn.1, ?_⟩
  have hstopped : ((hosts p run j).nodes n).stopRequested =
      ((hosts p run i).nodes n).stopRequested :=
    after_related (fun w w' : Host => (w'.nodes n).stopRequested = (w.nodes n).stopRequested)
      (fun _ => rfl) (fun h h' => h'.trans h) hij fun k hk => stopped_of_ne (hruns k hk)
  exact hstopped.trans hn.2

/-- What a subscriber's segment has accepted is delivered there, if the subscriber keeps polling. -/
theorem eventually_delivered (hsole : ∀ j, (hosts p run j).Sole p (run j))
    (hn : ((hosts p run i).nodes n).Subscribed segment.topicId)
    (hsegment : ((hosts p run i).nodes n).segment segment.topicId = some segment)
    (hkeeps : KeepsPolling run n i) :
    ∃ j, i ≤ j ∧ ((hosts p run i).ring segment).accepted.length ≤
      ((hosts p run j).ring segment).delivered.length := by
  let count := ((hosts p run i).ring segment).accepted.length
  refine eventually_of_rank (rank segment n count)
    (fun w => count ≤ (w.ring segment).delivered.length) (· = .poll n) i hkeeps.2
    (fun j hij hgoal hmine => ?_) fun j hij _ hother => ?_
  · have hinv := inv_hosts hsole j
    have hlater : Later n segment.topicId (hosts p run i) (hosts p run j) := later_hosts hij
    have hcount : count ≤ ((hosts p run j).ring segment).accepted.length :=
      (inv_hosts hsole i).accepted_le hinv hlater.accepted
    have hdelivered := (later_step (p := p) n segment.topicId (hosts p run j) (run j)).delivered
      segment
    have hwaiting : ((hosts p run j).ring segment).delivered.length < count := not_le.mp hgoal
    refine Advances.rank_lt ?_ hdelivered hwaiting
    rw [after, hmine]
    exact hinv.advances (subscribed_hosts hij hn hkeeps.1) (hlater.segment segment hsegment)
      (hwaiting.trans_le hcount)
  · have hsubscribed : ((hosts p run j).nodes n).Subscribed segment.topicId :=
      subscribed_hosts hij hn hkeeps.1
    exact rank_le (poll_of_ne hother (((inv_hosts hsole j).nodes n).started _ hsubscribed.1))
      ((later_step n segment.topicId (hosts p run j) (run j)).delivered segment)

/-- What is delivered in its segment is handed to the subscriber. -/
theorem handed_later (hsole : ∀ j, (hosts p run j).Sole p (run j)) {j : Nat} (hij : i ≤ j)
    (hn : ((hosts p run i).nodes n).Subscribed segment.topicId)
    (hserves : Serves (hosts p run i) n segment.topicId segment)
    (hruns : ∀ j, i ≤ j → run j ≠ .requestStop n)
    (hdelivered : ((hosts p run i).ring segment).accepted.length ≤
      ((hosts p run j).ring segment).delivered.length) :
    (hosts p run j).Handed n segment.topicId ((hosts p run i).accepted segment.topicId).length := by
  have hlater : Later n segment.topicId (hosts p run i) (hosts p run j) := later_hosts hij
  obtain ⟨segment', hserves'⟩ := (inv_hosts hsole j).serves n segment.topicId
    (subscribed_hosts hij hn hruns)
  have hsame : segment' = segment :=
    Option.some.inj (hserves'.has.symm.trans (hlater.segment segment hserves.has))
  subst hsame
  refine (inv_hosts hsole j).handed hserves' fun _ => ?_
  have hsplit := congrArg List.length ((inv_hosts hsole i).accepted_split hserves)
  obtain ⟨more, hmore⟩ := hlater.accepted
  simp only [List.length_map, List.length_append, List.length_drop] at hsplit
  rw [hlater.since hn.1, ← hmore, List.take_append_of_le_length hserves.since_le]
  exact hsplit.ge.trans hdelivered

/-- **Every message is delivered once**, in order and intact, to each subscriber that keeps polling,
and each segment has one node at either end, in a run whose publishes and subscriptions find the
other end of the topic's segment, and no one else at theirs. -/
theorem delivers_once (p : Params) (run : Nat → Act)
    (hsole : ∀ i, (hosts p run i).Sole p (run i)) : DeliversOnce p run := by
  intro i
  have hinv := inv_hosts hsole i
  refine ⟨hinv.exclusive, hinv.unwritten (hsole i), fun n topicId hn => ?_⟩
  obtain ⟨segment, hserves⟩ := hinv.serves n topicId hn
  obtain rfl := segment_topicId hserves.has
  refine ⟨hinv.handed hserves fun hlt => absurd hlt (Nat.not_lt_zero _), fun hkeeps => ?_⟩
  obtain ⟨j, hij, hdelivered⟩ := eventually_delivered hsole hn hserves.has hkeeps
  exact ⟨j, hij, handed_later hsole hij hn hserves hkeeps.1 hdelivered⟩

end

/-! One publisher and one subscriber, and one publisher and two. -/

/-- A publish between the subscriber's polls. -/
def onePair : Nat → Act
  | 0 => .advertise 0 7
  | 1 => .subscribe 1 7
  | 2 => .publish 0 0 7 [1]
  | n + 3 => if n % 2 = 0 then .push 0 else .poll 1

theorem onePair_sole (i : Nat) : (hosts Shm.four onePair i).Sole Shm.four (onePair i) := by
  have hunsubscribed : ∀ m, (7 : UInt32) ∉ (((Host.empty Shm.four).advertiseLocalIpc 0 7).nodes
      m).shmHandlers := fun m => by
    rw [(extends_advertise 0 7 m).handlers]
    exact List.not_mem_nil
  match i with
  | 0 => trivial
  | 1 => exact ⟨fun m _ hpolls => absurd hpolls.1 (hunsubscribed m), fun _ _ hb => by cases hb⟩
  | 2 =>
    intro segment hsegment _
    refine ⟨by decide, fun _ _ hb => (by cases hb), fun m hm => ?_⟩
    by_cases heq : m = 1
    · subst heq
      exact hsegment
    · refine absurd hm.1 ?_
      show (7 : UInt32) ∉ ((Host.setNode _ 1 _).nodes m).shmHandlers
      rw [setNode_nodes, if_neg heq, (extends_advertise 1 7 m).handlers]
      exact hunsubscribed m
  | n + 3 =>
    rw [onePair]
    split <;> trivial

theorem onePair_delivers_once : DeliversOnce Shm.four onePair :=
  delivers_once Shm.four onePair onePair_sole

/-- Two messages are accepted; each of the two subscribers pops one. -/
def twoSubscribers (i : Nat) : Act :=
  let published := [Act.advertise 0 7, .subscribe 1 7, .subscribe 2 7] ++
    (Act.publish 0 0 7 [1] :: List.replicate 5 (.push 0)) ++
    (Act.publish 0 0 7 [2] :: List.replicate 5 (.push 0))
  let polled := List.replicate 9 (Act.poll 1) ++ List.replicate 7 (.poll 2)
  (published ++ polled)[i]?.getD (if i % 2 = 0 then .poll 1 else .poll 2)

/-- The second subscriber gets the second message without the first. -/
theorem twoSubscribers_steal : ¬ DeliversOnce Shm.four twoSubscribers := by
  intro h
  have hdelivered : ((hosts Shm.four twoSubscribers 31).nodes 2).delivered 7 = [[2]] := by
    decide +kernel
  have hpublished : (hosts Shm.four twoSubscribers 31).published 7 = [[1], [2]] := by decide +kernel
  have hsince : ((hosts Shm.four twoSubscribers 31).nodes 2).since 7 = 0 := by decide +kernel
  have hsubscribed : ((hosts Shm.four twoSubscribers 31).nodes 2).Subscribed 7 :=
    ⟨by decide +kernel, by decide +kernel⟩
  obtain ⟨backlog, hbacklog, hhanded, _⟩ := ((h 31).2.2 2 7 hsubscribed).1
  rw [hsince, hpublished] at hbacklog hhanded
  rw [List.eq_nil_of_sublist_nil hbacklog, hdelivered] at hhanded
  exact absurd hhanded (by decide)

end Relink.Node.LocalIpc
