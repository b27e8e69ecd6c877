import Relink.Transport.Python

/-! What a transport hands to its handlers.

`enable_relay_dedup` arms the duplicate test for all topics of a transport. A frame then reaches
the handler of its topic unless the topic's window has its number, and without the test every frame
does. Either way a handler has been called with the frames of its topic that got past, in the order
in which they came. -/
namespace Relink.Transport
open Wire Transition Recent

/-- The number and the payload of a frame on the topic. -/
def frameOn (topic : UInt32) (bytes : Bytes) : Option (UInt16 × Bytes) :=
  match decodeFrame bytes with
  | .ok frame =>
    if frame.header.topicId = topic then some (frame.header.seqNum, frame.payload) else none
  | .error _ => none

/-- Of the frames on a topic, those that get past the duplicate test. -/
def passed {α : Type} (armed : Bool) (number : α → UInt16) (frames : List α) : List α :=
  if armed then thin kWindow number [] frames else frames

theorem passed_sublist {α : Type} (armed : Bool) (number : α → UInt16) (frames : List α) :
    (passed armed number frames).Sublist frames := by
  unfold passed
  split
  · exact thin_sublist kWindow number [] frames
  · exact List.Sublist.refl _

theorem passed_map {α β : Type} (armed : Bool) (number : α → UInt16) (f : β → α)
    (frames : List β) :
    passed armed number (frames.map f) = (passed armed (fun b => number (f b)) frames).map f := by
  unfold passed
  split
  · exact thin_map kWindow number f [] frames
  · rfl

/-- Numbers that differ all get past. -/
theorem passed_eq_self {α : Type} (armed : Bool) {number : α → UInt16} {frames : List α}
    (h : (frames.map number).Nodup) : passed armed number frames = frames := by
  unfold passed
  split
  · exact thin_eq_self kWindow number h
  · rfl

section
variable {H F O : Type} {armed : Bool} {given : H → Bytes → H} {installed : UInt32 → Option H}
  {came : List Bytes} {t : UdpTransport H}

/-- The numbers that the window of a topic was given to keep. -/
def keptOn (armed : Bool) (came : List Bytes) (topic : UInt32) : List UInt16 :=
  if armed then (thin kWindow Prod.fst [] (came.filterMap (frameOn topic))).map Prod.fst else []

/-- What the transport has made of the datagrams that came since the handlers were installed. -/
structure Heard (armed : Bool) (given : H → Bytes → H) (installed : UInt32 → Option H)
    (came : List Bytes) (t : UdpTransport H) : Prop where
  enabled : t.relayDedupEnabled = armed
  windows : Remembered t (keptOn armed came)
  handlers : ∀ topic, t.handlers[topic]? = (installed topic).map fun h =>
    (passed armed Prod.fst (came.filterMap (frameOn topic))).foldl (fun h f => given h f.2) h

theorem heard_start (given : H → Bytes → H) (h : Remembered t fun _ => []) :
    Heard t.relayDedupEnabled given (fun topic => t.handlers[topic]?) [] t where
  enabled := rfl
  windows := by
    have hnone : keptOn t.relayDedupEnabled [] = fun _ => [] := by
      funext topic
      simp [keptOn, thin]
    rwa [hnone]
  handlers topic := by
    have hnone : ∀ armed, passed armed Prod.fst ([] : List (UInt16 × Bytes)) = [] := by
      intro armed
      cases armed <;> rfl
    rw [List.filterMap_nil, hnone]
    exact Option.map_id'.symm

/-! ### One datagram more -/

theorem frameOn_other {bytes : Bytes} {e : DecodeResult} (h : decodeFrame bytes = .error e)
    (topic : UInt32) : frameOn topic bytes = none := by
  rw [frameOn, h]

theorem keptOn_snoc_other {bytes : Bytes} {topic : UInt32} (h : frameOn topic bytes = none) :
    keptOn armed (came ++ [bytes]) topic = keptOn armed came topic := by
  rw [keptOn, keptOn, List.filterMap_append, List.filterMap_cons, h, List.filterMap_nil,
    List.append_nil]

/-- A frame is kept as `offer` has it. -/
theorem keptOn_snoc {bytes : Bytes} {frame : DecodedFrame} (h : decodeFrame bytes = .ok frame) :
    keptOn true (came ++ [bytes]) =
      (offer kWindow (keptOn true came) (frame.header.topicId, frame.header.seqNum)).1 := by
  funext topic
  by_cases htopic : frame.header.topicId = topic
  · subst htopic
    have hhere : frameOn frame.header.topicId bytes = some (frame.header.seqNum, frame.payload) := by
      rw [frameOn, h]
      exact if_pos rfl
    have hoffer := offer_here kWindow (keptOn true came)
      (frame.header.topicId, frame.header.seqNum)
    simp only [offer_iff] at hoffer
    rw [hoffer, keptOn, if_pos rfl, List.filterMap_append, List.filterMap_cons, hhere,
      List.filterMap_nil, thin_snoc, List.nil_append, List.map_append, keptOn, if_pos rfl]
    congr 1
    split <;> rfl
  · have hnone : frameOn topic bytes = none := by
      rw [frameOn, h]
      exact if_neg htopic
    rw [keptOn_snoc_other hnone, offer_else kWindow _ _ (Ne.symm htopic)]

/-- The frame is a duplicate to the transport. -/
def Repeats (armed : Bool) (came : List Bytes) (frame : DecodedFrame) : Prop :=
  armed = true ∧ frame.header.seqNum ∈ (keptOn armed came frame.header.topicId).rtake kWindow

instance (armed : Bool) (came : List Bytes) (frame : DecodedFrame) :
    Decidable (Repeats armed came frame) :=
  inferInstanceAs (Decidable (armed = true ∧ _))

/-- It gets past on its topic if it is none. -/
theorem passed_snoc {bytes : Bytes} {frame : DecodedFrame} (h : decodeFrame bytes = .ok frame)
    (topic : UInt32) :
    passed armed Prod.fst ((came ++ [bytes]).filterMap (frameOn topic)) =
      passed armed Prod.fst (came.filterMap (frameOn topic)) ++
        if frame.header.topicId = topic ∧ ¬Repeats armed came frame
        then [(frame.header.seqNum, frame.payload)] else [] := by
  rw [List.filterMap_append, List.filterMap_cons, frameOn, h]
  simp only
  by_cases htopic : frame.header.topicId = topic
  · subst htopic
    simp only [if_true, List.filterMap_nil, true_and]
    cases armed with
    | false => simp [passed, Repeats]
    | true =>
      simp only [passed, if_true, thin_snoc, List.nil_append, Repeats, true_and, keptOn, ite_not]
  · simp [htopic]

theorem Heard.dropDuplicate (h : Heard armed given installed came t) {bytes : Bytes}
    {frame : DecodedFrame} (hframe : decodeFrame bytes = .ok frame) :
    ((dropDuplicate t frame.header.topicId frame.header.seqNum).1 = true ↔
        Repeats armed came frame) ∧
      (dropDuplicate t frame.header.topicId frame.header.seqNum).2.relayDedupEnabled = armed ∧
      Remembered (dropDuplicate t frame.header.topicId frame.header.seqNum).2
        (keptOn armed (came ++ [bytes])) := by
  unfold Transport.dropDuplicate
  rw [h.enabled]
  cases armed with
  | false =>
    refine ⟨iff_of_false Bool.false_ne_true fun hrepeats => Bool.false_ne_true hrepeats.1,
      h.enabled, ?_⟩
    exact h.windows
  | true =>
    obtain ⟨hanswer, hafter⟩ := h.windows.ask (frame.header.topicId, frame.header.seqNum)
    refine ⟨?_, (isRecentDuplicate_else t _ _).1.trans h.enabled, ?_⟩
    · have hoffer := offer_iff kWindow (keptOn true came)
        (frame.header.topicId, frame.header.seqNum)
      rw [← hanswer] at hoffer
      exact hoffer.trans (and_iff_right rfl).symm
    · rw [keptOn_snoc hframe]
      exact hafter

/-- A handler that returns is called with the payload, if the topic has one. -/
theorem deliver_given {call : H → Bytes → Except F (H × O)}
    (hcall : ∀ h payload, ∃ o, call h payload = .ok (given h payload, o)) (t : UdpTransport H)
    (topic : UInt32) (payload : Bytes) :
    ∃ t' o, deliver call t topic payload = .ok (t', o) ∧
      t'.relayDedupEnabled = t.relayDedupEnabled ∧ t'.recentSeqs = t.recentSeqs ∧
      ∀ k, t'.handlers[k]? =
        if topic = k then t.handlers[k]?.map fun h => given h payload else t.handlers[k]? := by
  unfold deliver
  cases hhandler : t.handlers[topic]? with
  | none =>
    refine ⟨_, _, rfl, rfl, rfl, fun k => ?_⟩
    split
    · next htopic =>
      rw [← htopic, hhandler]
      rfl
    · rfl
  | some h =>
    obtain ⟨o, ho⟩ := hcall h payload
    simp only [ho]
    refine ⟨_, _, rfl, rfl, rfl, fun k => ?_⟩
    rw [getElem?_insert]
    split
    · next htopic =>
      rw [← htopic, hhandler]
      rfl
    · rfl

/-- One datagram more, to handlers that return. -/
theorem Heard.datagram (h : Heard armed given installed came t)
    {call : H → Bytes → Except F (H × O)}
    (hcall : ∀ h payload, ∃ o, call h payload = .ok (given h payload, o)) (bytes : Bytes) :
    ∃ t' o, recvAndDispatch call t bytes = .ok (t', o) ∧
      Heard armed given installed (came ++ [bytes]) t' := by
  cases hdecode : decodeFrame bytes with
  | error e =>
    obtain ⟨hseqs, henabled, hhandlers⟩ := handedOff_else t bytes
    have hnone := frameOn_other hdecode
    refine ⟨_, _, recvAndDispatch_other call t hdecode, henabled.trans h.enabled, fun topic => ?_,
      fun topic => ?_⟩
    · have hwindow : (handedOff t bytes).window topic = t.window topic := by
        rw [UdpTransport.window, UdpTransport.window, hseqs]
      rw [hwindow, keptOn_snoc_other (hnone topic)]
      exact h.windows topic
    · rw [hhandlers, List.filterMap_append, List.filterMap_cons, hnone, List.filterMap_nil,
        List.append_nil]
      exact h.handlers topic
  | ok frame =>
    obtain ⟨hrepeats, henabled, hwindows⟩ := h.dropDuplicate hdecode
    have hhandlers := h.handlers
    rw [recvAndDispatch_frame call t hdecode, Transport.dispatchFrame]
    rw [← dropDuplicate_handlers t frame.header.topicId frame.header.seqNum] at hhandlers
    generalize Transport.dropDuplicate t frame.header.topicId frame.header.seqNum = r
      at hrepeats henabled hwindows hhandlers
    by_cases hdup : r.1 = true
    · refine ⟨r.2, .duplicate, if_pos hdup, henabled, hwindows, fun topic => ?_⟩
      rw [passed_snoc hdecode, if_neg fun hnew => hnew.2 (hrepeats.mp hdup), List.append_nil]
      exact hhandlers topic
    · obtain ⟨t', o, hdeliver, henabled', hseqs, hgiven⟩ :=
        deliver_given hcall r.2 frame.header.topicId frame.payload
      refine ⟨t', o, (if_neg hdup).trans hdeliver, henabled'.trans henabled, fun topic => ?_,
        fun topic => ?_⟩
      · have hwindow : t'.window topic = r.2.window topic := by
          rw [UdpTransport.window, UdpTransport.window, hseqs]
        rw [hwindow]
        exact hwindows topic
      · rw [hgiven, hhandlers, passed_snoc hdecode]
        by_cases htopic : frame.header.topicId = topic
        · rw [if_pos htopic, if_pos ⟨htopic, fun hnew => hdup (hrepeats.mpr hnew)⟩, Option.map_map]
          refine congrFun (congrArg Option.map (funext fun h => ?_)) (installed topic)
          rw [List.foldl_append]
          rfl
        · rw [if_neg htopic, if_neg fun hnew => htopic hnew.1, List.append_nil]

end

end Relink.Transport
