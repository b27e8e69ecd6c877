import Relink.Library.Recent
import Relink.Library.Run
import Relink.Transport.Receive

/-! Duplicates at a subscriber.

Sender instances number their publish calls with a 16-bit counter, one for all their
topics; copies of a call travel, are lost, repeated and overtaken; the subscriber's
transport drops what it takes for a second copy. What it can see is the topic and the
16-bit number, against the last eight it accepted on the topic. -/
namespace Relink.Transport
open Wire Transition
open Std (ExtTreeMap)

/-! ### Senders and copies -/

/-- A publish call: the sender instance and how many numbers it had drawn before. -/
@[ext] structure Call where
  sender : Nat
  draw : Nat
deriving DecidableEq, Repr

/-- A datagram of a publish call. -/
structure Copy where
  call : Call
  topic : UInt32
  bytes : Bytes
deriving DecidableEq

/-- `seq_counter_` of a sender instance, and the number of its draws. -/
structure Sender where
  seqCounter : UInt16 := 0
  draws : Nat := 0

/-- `next_seq`: the number drawn, and the counter after. -/
def Sender.nextSeq (s : Sender) : UInt16 × Sender :=
  (s.seqCounter, ⟨s.seqCounter + 1, s.draws + 1⟩)

/-- Sender instances are numbered; a restarted node is a new one. `sent` is what may
arrive, as often as the network likes, and `accepted` what the subscriber has let
through, oldest first. -/
structure World (H : Type) where
  senders : Nat → Sender := fun _ => {}
  sent : List Copy := []
  receiver : UdpTransport H
  accepted : List Copy := []

inductive Event (H : Type) where
  | publish (sender : Nat) (topic : UInt32) (payload : Bytes)
  | arrive (c : Copy)
  /-- A datagram that is not a frame, such as an ack. -/
  | other (datagram : Bytes)
  | subscribe (topic : UInt32) (handler : H)

section
variable {H O : Type} (call : H → Bytes → H × O)

/-- `recv_and_dispatch` with handlers that return. -/
def receive (t : UdpTransport H) (datagram : Bytes) : UdpTransport H × Outcome O :=
  match recvAndDispatch (F := Empty) (fun h payload => .ok (call h payload)) t datagram with
  | .ok r => r

/-- A call whose payload is over the budget draws its number and sends nothing. -/
def publish (w : World H) (sender : Nat) (topic : UInt32) (payload : Bytes) : World H :=
  let drawn := (w.senders sender).nextSeq
  let copies := match encodeFrame topic drawn.1 payload kMaxFrameBytes with
    | .error _ => []
    | .ok bytes => [⟨⟨sender, (w.senders sender).draws⟩, topic, bytes⟩]
  {w with senders := Function.update w.senders sender drawn.2, sent := w.sent ++ copies}

def arrive (w : World H) (c : Copy) : World H :=
  let r := receive call w.receiver c.bytes
  match r.2 with
  | .duplicate => {w with receiver := r.1}
  | _ => {w with receiver := r.1, accepted := w.accepted ++ [c]}

def World.step (w : World H) : Event H → World H
  | .publish sender topic payload => publish w sender topic payload
  | .arrive c => arrive call w c
  | .other datagram => {w with receiver := (receive call w.receiver datagram).1}
  | .subscribe topic handler => {w with receiver := setTopicHandler w.receiver topic handler}

/-- Only what was sent arrives as a frame. -/
def Allowed (w : World H) : Event H → Prop
  | .arrive c => c ∈ w.sent
  | .other datagram => ∀ frame, decodeFrame datagram ≠ .ok frame
  | _ => True

instance (w : World H) (e : Event H) : Decidable (Allowed w e) :=
  match e with
  | .arrive c => inferInstanceAs (Decidable (c ∈ w.sent))
  | .other datagram => match h : decodeFrame datagram with
    | .ok frame => .isFalse fun hnone => hnone frame h
    | .error _ => .isTrue fun _ hok => nomatch h.symm.trans hok
  | .publish .. => .isTrue trivial
  | .subscribe .. => .isTrue trivial

/-- A transport whose duplicate test is armed, before anything arrived. -/
def fresh (t : UdpTransport H) : World H :=
  {receiver := {t with relayDedupEnabled := true, recentSeqs := ∅}}

end

/-! ### What the window remembers -/

theorem SeqWindow.holds_iff (w : SeqWindow) (seq : UInt16) :
    w.holds seq = true ↔ ∃ i, w.slot i = some seq := by
  rw [SeqWindow.holds, List.any_eq_true]
  simp only [List.mem_finRange, true_and, Bool.and_eq_true, beq_iff_eq, SeqWindow.slot]
  refine exists_congr fun i => ?_
  cases w.valid[i] <;> simp

theorem SeqWindow.record_here (w : SeqWindow) (seq : UInt16) :
    (w.record seq).slot w.next = some seq := by
  simp [SeqWindow.slot, SeqWindow.record]

theorem SeqWindow.record_else (w : SeqWindow) (seq : UInt16) (i : Fin 8) (hi : i ≠ w.next) :
    (w.record seq).slot i = w.slot i := by
  have hne : w.next.val ≠ i.val := fun h => hi (Fin.ext h.symm)
  simp [SeqWindow.slot, SeqWindow.record, hne]

section
variable {H O : Type} {call : H → Bytes → H × O}

/-- A handler call, or its absence, has nothing to do with the windows. -/
theorem deliver_windows {F : Type} {f : H → Bytes → Except F (H × O)} {t t' : UdpTransport H}
    {topic : UInt32} {payload : Bytes} {o : Outcome O} (h : deliver f t topic payload = .ok (t', o)) :
    t'.recentSeqs = t.recentSeqs ∧ t'.relayDedupEnabled = t.relayDedupEnabled ∧ o ≠ .duplicate := by
  unfold deliver at h
  cases hhandler : t.handlers[topic]? with
  | none =>
    rw [hhandler] at h
    cases h
    exact ⟨rfl, rfl, fun h => nomatch h⟩
  | some handler =>
    rw [hhandler] at h
    cases hcall : f handler payload with
    | error e =>
      simp only [hcall] at h
      cases h
    | ok r =>
      simp only [hcall] at h
      cases h
      exact ⟨rfl, rfl, fun h => nomatch h⟩

/-- What an armed transport does with a frame: it is dropped if the window holds its number,
which is recorded otherwise. -/
theorem receive_frame (call : H → Bytes → H × O) (t : UdpTransport H)
    (harmed : t.relayDedupEnabled = true) {datagram : Bytes}
    {frame : DecodedFrame} (hframe : decodeFrame datagram = .ok frame) :
    (receive call t datagram).1.relayDedupEnabled = true ∧
      ((receive call t datagram).2 = .duplicate ↔
        (t.window frame.header.topicId).holds frame.header.seqNum = true) ∧
      (receive call t datagram).1.recentSeqs = t.recentSeqs.insert frame.header.topicId
        (if (t.window frame.header.topicId).holds frame.header.seqNum then
          t.window frame.header.topicId
        else (t.window frame.header.topicId).record frame.header.seqNum) := by
  unfold receive
  rw [recvAndDispatch_frame _ t hframe]
  unfold dispatchFrame dropDuplicate isRecentDuplicate
  rw [if_pos harmed]
  by_cases hholds : (t.window frame.header.topicId).holds frame.header.seqNum = true
  · simp only [hholds, if_true]
    exact ⟨harmed, trivial, trivial⟩
  · simp only [hholds, Bool.false_eq_true, if_false, iff_false]
    split
    rename_i r hr
    obtain ⟨hwindows, harmed', hother⟩ := deliver_windows hr
    exact ⟨harmed'.trans harmed, hother, hwindows⟩

/-- What is no frame changes no window. -/
theorem receive_other (call : H → Bytes → H × O) (t : UdpTransport H) {datagram : Bytes}
    (h : ∀ frame, decodeFrame datagram ≠ .ok frame) :
    (receive call t datagram).1.relayDedupEnabled = t.relayDedupEnabled ∧
      (receive call t datagram).1.recentSeqs = t.recentSeqs := by
  unfold receive recvAndDispatch
  split
  rename_i r hr
  split at hr
  · cases hr
    exact ⟨rfl, rfl⟩
  · cases hdec : decodeFrame datagram with
    | ok frame => exact absurd hdec (h frame)
    | error e =>
      simp only [hdec, Except.ok.injEq] at hr
      subst hr
      unfold handOff
      split <;> exact ⟨rfl, rfl⟩

end

/-! ### Runs -/

/-- The copies accepted on a topic. -/
def acceptedOn {H : Type} (w : World H) (topic : UInt32) : List Copy :=
  w.accepted.filter (·.topic = topic)

/-- The number a copy carries. -/
def Copy.seq (c : Copy) : UInt16 := UInt16.ofNat c.call.draw

/-- What the senders' counters, the copies and the windows stand for. -/
structure Sound {H : Type} (w : World H) : Prop where
  armed : w.receiver.relayDedupEnabled = true
  counters : ∀ i, (w.senders i).seqCounter = UInt16.ofNat (w.senders i).draws
  sent : ∀ c ∈ w.sent, ∃ payload : Bytes, payload.length ≤ kMaxPayloadBytes ∧
    c.bytes = frameBytes c.topic c.seq payload
  accepted : ∀ c ∈ w.accepted, c ∈ w.sent
  windows : ∀ topic, Recent.Remembers (w.receiver.window topic).slot
    (w.receiver.window topic).next ((acceptedOn w topic).map Copy.seq)

/-- A copy is dropped as a duplicate only if its call was accepted before. -/
def NoLoss {H O : Type} (call : H → Bytes → H × O) (w : World H) : Event H → Prop
  | .arrive c => (receive call w.receiver c.bytes).2 = .duplicate →
    ∃ c' ∈ acceptedOn w c.topic, c'.call = c.call
  | _ => True

instance {H O : Type} [DecidableEq O] (call : H → Bytes → H × O) (w : World H) (e : Event H) :
    Decidable (NoLoss call w e) :=
  match e with
  | .arrive c => inferInstanceAs (Decidable ((receive call w.receiver c.bytes).2 = .duplicate →
      ∃ c' ∈ acceptedOn w c.topic, c'.call = c.call))
  | .publish .. => .isTrue trivial
  | .other _ => .isTrue trivial
  | .subscribe .. => .isTrue trivial

/-- An arriving copy's call was accepted before, or none of the last eight copies accepted
on its topic is of a call with the same number modulo 2^16. -/
def ToldApart {H : Type} (w : World H) : Event H → Prop
  | .arrive c => (∃ c' ∈ acceptedOn w c.topic, c'.call = c.call) ∨
    ∀ c' ∈ (acceptedOn w c.topic).rtake 8, c'.call.draw % 65536 ≠ c.call.draw % 65536
  | _ => True

section
variable {H O : Type} {call : H → Bytes → H × O} {w : World H}

theorem seq_eq_iff (c c' : Copy) : c'.seq = c.seq ↔ c'.call.draw % 65536 = c.call.draw % 65536 := by
  rw [Copy.seq, Copy.seq, ← UInt16.toNat_inj, UInt16.toNat_ofNat', UInt16.toNat_ofNat']

theorem sound_fresh (t : UdpTransport H) : Sound (fresh t) where
  armed := rfl
  counters i := rfl
  sent c hc := absurd hc List.not_mem_nil
  accepted c hc := absurd hc List.not_mem_nil
  windows topic := by
    have hwindow : (fresh t).receiver.window topic = {} := ExtTreeMap.getD_empty
    have hslot : SeqWindow.slot {} = fun _ => none := by
      funext i
      simp [SeqWindow.slot]
    rw [hwindow, hslot]
    exact Recent.remembers_nil

/-- A copy that was sent decodes to its topic and number. -/
theorem Sound.decodes (h : Sound w) {c : Copy} (hc : c ∈ w.sent) :
    ∃ frame, decodeFrame c.bytes = .ok frame ∧ frame.header.topicId = c.topic ∧
      frame.header.seqNum = c.seq := by
  obtain ⟨payload, hlen, hbytes⟩ := h.sent c hc
  have hbudget : kMaxPayloadBytes = 1400 := rfl
  exact ⟨_, hbytes ▸ decodeFrame_frameBytes c.topic c.seq payload (by omega), rfl, rfl⟩

/-- The window of a topic holds the numbers of the last eight copies accepted on it. -/
theorem Sound.holds_iff (h : Sound w) (c : Copy) : (w.receiver.window c.topic).holds c.seq = true ↔
    ∃ c' ∈ (acceptedOn w c.topic).rtake 8, c'.call.draw % 65536 = c.call.draw % 65536 := by
  rw [SeqWindow.holds_iff, (h.windows c.topic).mem_iff, List.rtake, List.length_map,
    ← List.map_drop, ← List.rtake, List.mem_map]
  exact exists_congr fun c' => and_congr_right fun _ => seq_eq_iff c c'

theorem Sound.noLoss_iff (h : Sound w) {e : Event H} (hallowed : Allowed w e) :
    NoLoss call w e ↔ ToldApart w e := by
  cases e with
  | arrive c =>
    obtain ⟨frame, hframe, htopic, hseq⟩ := h.decodes hallowed
    rw [NoLoss, ToldApart, (receive_frame call _ h.armed hframe).2.1, htopic, hseq, h.holds_iff]
    constructor
    · intro hdrop
      by_cases hclash : ∃ c' ∈ (acceptedOn w c.topic).rtake 8,
          c'.call.draw % 65536 = c.call.draw % 65536
      · exact Or.inl (hdrop hclash)
      · exact Or.inr fun c' hc' heq => hclash ⟨c', hc', heq⟩
    · intro htold ⟨c', hc', heq⟩
      exact htold.resolve_right fun hnone => hnone c' hc' heq
  | _ => exact Iff.rfl

/-- A window of another topic stays. -/
theorem window_insert (t t' : UdpTransport H) {topic : UInt32} {v : SeqWindow}
    (h : t'.recentSeqs = t.recentSeqs.insert topic v) (k : UInt32) :
    t'.window k = if topic = k then v else t.window k := by
  rw [UdpTransport.window, h, ExtTreeMap.getD_insert]
  exact if_congr Std.compare_eq_iff_eq rfl rfl

theorem acceptedOn_snoc (c : Copy) (r : UdpTransport H) (topic : UInt32) :
    acceptedOn {w with receiver := r, accepted := w.accepted ++ [c]} topic =
      acceptedOn w topic ++ if c.topic = topic then [c] else [] := by
  rw [acceptedOn, List.filter_append, ← acceptedOn, List.filter_singleton]
  congr 1
  by_cases h : c.topic = topic <;> simp [h]

theorem Sound.arrive (h : Sound w) {c : Copy} (hc : c ∈ w.sent) : Sound (arrive call w c) := by
  obtain ⟨frame, hframe, htopic, hseq⟩ := h.decodes hc
  obtain ⟨harmed, hdup, hwindows⟩ := receive_frame call w.receiver h.armed hframe
  rw [htopic, hseq] at hdup hwindows
  by_cases hholds : (w.receiver.window c.topic).holds c.seq = true
  · have hstep : Transport.arrive call w c =
        {w with receiver := (receive call w.receiver c.bytes).1} := by
      simp only [Transport.arrive, hdup.mpr hholds]
    rw [hstep]
    refine ⟨harmed, h.counters, h.sent, h.accepted, fun topic => ?_⟩
    rw [if_pos hholds] at hwindows
    rw [window_insert w.receiver _ hwindows topic]
    split
    · rename_i heq
      exact heq ▸ h.windows c.topic
    · exact h.windows topic
  · have hstep : Transport.arrive call w c = { w with
        receiver := (receive call w.receiver c.bytes).1
        accepted := w.accepted ++ [c] } := by
      unfold Transport.arrive
      simp only
      split
      · rename_i hout
        exact absurd (hdup.mp hout) hholds
      · rfl
    rw [hstep]
    refine ⟨harmed, h.counters, h.sent, fun c' hc' => ?_, fun topic => ?_⟩
    · rcases List.mem_append.mp hc' with hc' | hc'
      · exact h.accepted c' hc'
      · exact List.mem_singleton.mp hc' ▸ hc
    · rw [if_neg hholds] at hwindows
      rw [window_insert w.receiver _ hwindows topic, acceptedOn_snoc, List.map_append]
      by_cases heq : c.topic = topic
      · subst heq
        rw [if_pos rfl, if_pos rfl, List.map_singleton]
        exact (h.windows c.topic).push (SeqWindow.record_here _ _) (SeqWindow.record_else _ _)
      · rw [if_neg heq, if_neg heq, List.map_nil, List.append_nil]
        exact h.windows topic

theorem Sound.publish (h : Sound w) (sender : Nat) (topic : UInt32) (payload : Bytes) :
    Sound (publish w sender topic payload) := by
  refine ⟨h.armed, fun i => ?_, fun c hc => ?_, fun c hc => ?_, h.windows⟩
  · by_cases hi : i = sender
    · subst hi
      simp only [Transport.publish, Function.update_self, Sender.nextSeq, h.counters,
        UInt16.ofNat_add]
      rfl
    · simp only [Transport.publish, Function.update_of_ne hi, h.counters]
  · rcases List.mem_append.mp hc with hc | hc
    · exact h.sent c hc
    · by_cases hfit : payload.length ≤ kMaxPayloadBytes
      · simp only [Sender.nextSeq, encodeFrame_ok _ _ _ hfit, List.mem_singleton] at hc
        subst hc
        refine ⟨payload, hfit, ?_⟩
        rw [h.counters, Copy.seq]
      · simp only [encodeFrame, if_pos (not_le.mp hfit)] at hc
        cases hc
  · exact List.mem_append_left _ (h.accepted c hc)

theorem Sound.step (h : Sound w) {e : Event H} (hallowed : Allowed w e) :
    Sound (w.step call e) := by
  cases e with
  | publish sender topic payload => exact h.publish sender topic payload
  | arrive c => exact h.arrive hallowed
  | other datagram =>
    obtain ⟨harmed, hwindows⟩ := receive_other call w.receiver hallowed
    refine ⟨harmed.trans h.armed, h.counters, h.sent, h.accepted, fun topic => ?_⟩
    have hsame : (w.step call (.other datagram)).receiver.window topic =
        w.receiver.window topic := by
      show (receive call w.receiver datagram).1.window topic = _
      rw [UdpTransport.window, hwindows, ← UdpTransport.window]
    rw [hsame]
    exact h.windows topic
  | subscribe topic handler => exact ⟨h.armed, h.counters, h.sent, h.accepted, h.windows⟩

/-- Calls of a topic with different numbers are told apart, whatever the order. -/
theorem Sound.toldApart (h : Sound w) (hdistinct : ∀ c ∈ w.sent, ∀ c' ∈ w.sent, c'.topic = c.topic →
    c'.call.draw % 65536 = c.call.draw % 65536 → c'.call = c.call) {e : Event H}
    (hallowed : Allowed w e) : ToldApart w e := by
  cases e with
  | arrive c =>
    by_cases hbefore : ∃ c' ∈ acceptedOn w c.topic, c'.call = c.call
    · exact Or.inl hbefore
    · refine Or.inr fun c' hc' heq => hbefore ⟨c', List.mem_of_mem_drop hc', ?_⟩
      obtain ⟨hacc, htopic⟩ := List.mem_filter.mp (List.mem_of_mem_drop hc')
      exact hdistinct c hallowed c' (h.accepted c' hacc) (of_decide_eq_true htopic) heq
  | _ => trivial

end

/-- **No message is lost exactly when** the window tells its call apart: in every run of any
number of senders, in any order of arrival. -/
theorem no_message_lost_iff {H O : Type} (call : H → Bytes → H × O) (t : UdpTransport H)
    (events : List (Event H)) (hallowed : Throughout (World.step call) Allowed (fresh t) events) :
    Throughout (World.step call) (NoLoss call) (fresh t) events ↔
      Throughout (World.step call) ToldApart (fresh t) events :=
  Throughout.congr Sound (fun _ _ h hc => h.noLoss_iff hc) (fun _ _ h hc _ => h.step hc)
    (sound_fresh t) hallowed

/-- A topic with one publisher loses nothing before its counter comes round. -/
theorem one_publisher_loses_nothing {H O : Type} (call : H → Bytes → H × O) (t : UdpTransport H)
    (events : List (Event H)) (hallowed : Throughout (World.step call) Allowed (fresh t) events)
    (hsingle : Throughout (World.step call) (fun w _ => ∀ c ∈ w.sent, c.call.draw < 65536 ∧
      ∀ c' ∈ w.sent, c'.topic = c.topic → c'.call.sender = c.call.sender) (fresh t) events) :
    Throughout (World.step call) (NoLoss call) (fresh t) events := by
  refine Throughout.of_invariant Sound (fun w e h hc => ?_) (fun w e h hc => h.step hc.1)
    (sound_fresh t) (hallowed.and hsingle)
  refine (h.noLoss_iff hc.1).mpr (h.toldApart (fun c hsent c' hsent' htopic heq => ?_) hc.1)
  obtain ⟨hlt, hsame⟩ := hc.2 c hsent
  obtain ⟨hlt', _⟩ := hc.2 c' hsent'
  rw [Nat.mod_eq_of_lt hlt, Nat.mod_eq_of_lt hlt'] at heq
  exact Call.ext (hsame c' hsent' htopic) heq

/-! Two publishers, each with its first message. -/

/-- A subscriber that only listens. -/
def listen (h : Unit) (_ : Bytes) : Unit × Unit := (h, ())

def hello (sender : Nat) (payload : Bytes) : Copy := ⟨⟨sender, 0⟩, 7, frameBytes 7 0 payload⟩

def twoPublishers : List (Event Unit) :=
  [.publish 0 7 [1], .publish 1 7 [2], .arrive (hello 0 [1]), .arrive (hello 1 [2])]

/-- The first of them, and a copy of its message by another way. -/
theorem no_message_lost_iff_relayed :
    Throughout (World.step listen) (NoLoss listen) (fresh {})
        [.publish 0 7 [1], .arrive (hello 0 [1]), .arrive (hello 0 [1])] ↔
      Throughout (World.step listen) ToldApart (fresh {})
        [.publish 0 7 [1], .arrive (hello 0 [1]), .arrive (hello 0 [1])] :=
  no_message_lost_iff listen {} _ (by decide +kernel)

/-- The second publisher's first message is dropped for the first's. -/
theorem second_publisher_lost :
    Throughout (World.step listen) Allowed (fresh {}) twoPublishers ∧
      ¬ Throughout (World.step listen) (NoLoss listen) (fresh {}) twoPublishers := by
  decide +kernel

end Relink.Transport
