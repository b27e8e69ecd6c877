import Relink.Message.Types
import Relink.Transport.Publish
import Relink.Transport.Passed

/-! Typed messages from publisher to subscriber.

`publish<T>` sends the memory of a value, and the handler of `subscribe<T>` copies a payload of the
right size into a value; the Python build does the same with `ctypes` structures. Whatever the
builds of a publisher and a subscriber are, the callback finds under each field's name the number
that was published. -/
namespace Relink.Message
open Wire Transport Transition
open Std (ExtTreeMap)

/-! ### Values -/

/-- A value of a message type, as a program of either build holds it. -/
inductive Value (T : MessageType) where
  | cpp (v : T.cpp.Val Prim.width)
  | py (v : T.py.Val Prim.width)

variable {T : MessageType}

/-- `&value` and `sizeof(T)`, or `bytes(value)`. -/
def Value.bytes : Value T → Bytes
  | .cpp v => (T.cpp.codec Prim.width).encode v
  | .py v => (T.py.codec Prim.width).encode v

abbrev Field := Layout.Leaf Prim String

/-- The numbers of a value and where they are, by the names of C++. -/
def Value.fields : Value T → List Field
  | .cpp v => T.cpp.leaves Prim.width v
  | .py v => (T.py.leaves Prim.width v).map (Layout.Leaf.map Py.Attr.name)

/-- What a program reads of a value with these bytes. -/
def Cpp.read (T : MessageType) (memory : Bytes) : List Field := T.cpp.reads Prim.width memory

def Py.read (T : MessageType) (memory : Bytes) : List Field :=
  (T.py.reads Prim.width memory).map (Layout.Leaf.map Py.Attr.name)

theorem sizeof_py (T : MessageType) : sizeof T.py = sizeof T.cpp := by
  rw [← T.same]
  exact (T.py.size_map Prim.width Py.Attr.name).symm

/-- One layout under two sets of names. -/
theorem read_py (T : MessageType) (memory : Bytes) : Py.read T memory = Cpp.read T memory := by
  rw [Py.read, Cpp.read, ← T.same]
  exact (T.py.reads_map Prim.width Py.Attr.name memory).symm

theorem Value.bytes_length (v : Value T) : v.bytes.length = sizeof T.cpp := by
  cases v with
  | cpp v => exact (T.cpp.codec Prim.width).length_encode v
  | py v =>
    rw [← sizeof_py]
    exact (T.py.codec Prim.width).length_encode v

/-- Both builds read of a value what either of them put there. -/
theorem Value.read_bytes (v : Value T) : Cpp.read T v.bytes = v.fields := by
  cases v with
  | cpp v =>
    have hread := T.cpp.reads_encode Prim.width v []
    rw [List.append_nil] at hread
    exact hread
  | py v =>
    have hread := T.py.reads_encode Prim.width v []
    rw [List.append_nil] at hread
    rw [← read_py]
    exact congrArg (List.map (Layout.Leaf.map Py.Attr.name)) hread

theorem Value.fits (v : Value T) : v.bytes.length ≤ kMaxPayloadBytes := by
  rw [v.bytes_length]
  exact T.fits

/-! ### Publishers -/

namespace Py

/-- `UdpTransport.publish_raw` with a number. -/
def publishRawTo (accepts : Nat → Bool) (t : Outgoing) (topicId : UInt32) (payload : Bytes)
    (peer : PeerAddr) (seq : UInt16) : Outgoing × Bool :=
  match Wire.Py.encodeFrame topicId seq payload with
  | .error _ => (t, false)
  | .ok frame => sendTo accepts t peer frame

/-- `publish`. -/
def publish (accepts : Nat → Bool) (d : Destinations) (largeBlob : Bool) (t : Outgoing)
    (payload : Bytes) : Outgoing × Bool :=
  let send := fun t peer => publishRawTo accepts t d.topicId payload peer
  let direct := sendAll (fun t' peer => send t' peer t.seqCounter)
    ({t with seqCounter := t.seqCounter + 1}, true) d.peers
  let relay := match d.relay with
    | some peer => if !largeBlob then send direct.1 peer t.seqCounter else (direct.1, false)
    | none => (direct.1, false)
  (relay.1, (direct.2 && !d.peers.isEmpty) || relay.2)

theorem publishRawTo_eq : publishRawTo = Transport.publishRawTo := by
  funext accepts t topicId payload peer seq
  unfold publishRawTo Transport.publishRawTo
  have heq := Wire.Py.encodeFrame_eq topicId seq payload (Nat.le_refl kMaxFrameBytes)
  generalize Wire.Py.encodeFrame topicId seq payload = x at heq
  generalize Wire.encodeFrame topicId seq payload kMaxFrameBytes = y at heq
  cases x with
  | error e =>
    cases y with
    | error e => rfl
    | ok frame => cases heq
  | ok frame =>
    cases y with
    | error e => cases heq
    | ok frame' =>
      cases heq
      rfl

theorem publish_eq : publish = publishValue := by
  funext accepts d largeBlob t payload
  unfold publish publishValue publishFrame
  rewrite [publishRawTo_eq]
  rfl

end Py

/-- A publish call at one of the nodes. -/
structure Publish where
  node : Nat
  dests : Destinations
  type : MessageType
  value : Value type

def Publish.run (accepts : Nat → Bool) (p : Publish) (t : Outgoing) : Outgoing :=
  match p.value with
  | .cpp _ => (publishValue accepts p.dests false t p.value.bytes).1
  | .py _ => (Py.publish accepts p.dests false t p.value.bytes).1

/-- A datagram and the call that sent it. -/
structure Datagram where
  topic : UInt32
  type : MessageType
  value : Value type
  frame : Bytes

structure Publishers where
  out : Nat → Outgoing := fun _ => {}
  sent : List Datagram := []

/-- The node's transport sends the copies, one to each destination. -/
def Publishers.step (accepts : Nat → Nat → Bool) (w : Publishers) (p : Publish) : Publishers :=
  let t := w.out p.node
  let t' := p.run (accepts p.node) t
  {out := Function.update w.out p.node t'
   sent := w.sent ++ (t'.sent.drop t.sent.length).map fun copy =>
    ⟨p.dests.topicId, p.type, p.value, copy.frame⟩}

/-- What a sequence of calls puts on the network. -/
def published (accepts : Nat → Nat → Bool) (calls : List Publish) : List Datagram :=
  (calls.foldl (Publishers.step accepts) {}).sent

def Datagram.Framed (m : Datagram) : Prop := ∃ seq, m.frame = frameBytes m.topic seq m.value.bytes

theorem Publish.run_sent (accepts : Nat → Bool) (p : Publish) (t : Outgoing) :
    ∃ copies, (p.run accepts t).sent = t.sent ++ copies ∧
      ∀ c ∈ copies, c.frame = frameBytes p.dests.topicId t.seqCounter p.value.bytes := by
  have hrun : p.run accepts t = (publishFrame accepts p.dests true t p.value.bytes).1 := by
    unfold Publish.run
    rw [Py.publish_eq]
    split <;> rfl
  obtain ⟨copies, hsent, -, hframes, -⟩ := publishFrame_sent accepts p.dests p.value.fits true t
  exact ⟨copies, hrun ▸ hsent, hframes⟩

theorem published_framed (accepts : Nat → Nat → Bool) (calls : List Publish) :
    ∀ m ∈ published accepts calls, m.Framed := by
  apply foldl_invariant (fun w : Publishers => ∀ m ∈ w.sent, m.Framed) (fun _ => True)
  · intro w p hframed _ m hm
    rcases List.mem_append.mp hm with hm | hm
    · exact hframed m hm
    · obtain ⟨copies, hsent, hcopies⟩ := p.run_sent (accepts p.node) (w.out p.node)
      rw [hsent, List.drop_left] at hm
      obtain ⟨copy, hcopy, rfl⟩ := List.mem_map.mp hm
      exact ⟨_, hcopies copy hcopy⟩
  · exact fun m hm => absurd hm List.not_mem_nil
  · exact fun _ _ => trivial

/-! ### Subscribers -/

/-- What the handler of a typed subscription closes over, and the values its callback was given. -/
structure Subscription where
  type : MessageType
  values : List Bytes := []

section
variable {F : Type}

/-- The handler that `subscribe<T>` installs. -/
def Cpp.rawHandler (s : Subscription) (payload : Bytes) : Except F (Subscription × Unit) :=
  if payload.length ≠ sizeof s.type.cpp then .ok (s, ())
  else .ok ({s with values := s.values ++ [payload.take (sizeof s.type.cpp)]}, ())

/-- `raw_handler` of `subscribe`. -/
def Py.rawHandler (s : Subscription) (payload : Bytes) : Except F (Subscription × Unit) :=
  if payload.length ≠ sizeof s.type.py then .ok (s, ())
  else .ok ({s with values := s.values ++ [payload.take (sizeof s.type.py)]}, ())

theorem rawHandler_py : (Py.rawHandler : Subscription → Bytes → Except F _) = Cpp.rawHandler := by
  funext s payload
  unfold Py.rawHandler Cpp.rawHandler
  rw [sizeof_py]

/-- What the handler does: a payload of another size is dropped. -/
def Subscription.given (s : Subscription) (payload : Bytes) : Subscription :=
  if payload.length ≠ sizeof s.type.cpp then s else {s with values := s.values ++ [payload]}

theorem Subscription.given_value {s : Subscription} {payload : Bytes}
    (h : payload.length = sizeof s.type.cpp) :
    s.given payload = {s with values := s.values ++ [payload]} := if_neg (not_not.mpr h)

theorem Subscription.given_other {s : Subscription} {payload : Bytes}
    (h : payload.length ≠ sizeof s.type.cpp) : s.given payload = s := if_pos h

theorem rawHandler_eq (s : Subscription) (payload : Bytes) :
    Cpp.rawHandler (F := F) s payload = .ok (s.given payload, ()) := by
  unfold Cpp.rawHandler Subscription.given
  split
  · rfl
  · next hsize => rw [← not_not.mp hsize, List.take_length]

end

/-- What arrives at a node: copies of what was published, in any order and as often as the network
likes, and other datagrams. -/
abbrev Arrival := Datagram ⊕ Bytes

def Arrival.bytes : Arrival → Bytes
  | .inl m => m.frame
  | .inr bytes => bytes

/-- A node that subscribes to some topics, arms the duplicate test if its mode does, and then
receives. -/
def session (dedup : Bool) (subs : List (UInt32 × MessageType)) (arrivals : List Arrival) :
    List (Input Subscription) :=
  subs.map (fun sub => .setTopicHandler sub.1 {type := sub.2}) ++
    ((if dedup then [.enableRelayDedup] else []) ++ arrivals.map fun a => .datagram a.bytes)

/-- An arrival that is a frame on the topic, with its number. -/
def Arrival.on (topic : UInt32) (a : Arrival) : Option (UInt16 × Arrival) :=
  (frameOn topic a.bytes).map fun f => (f.1, a)

/-- The published messages of a topic among what arrived, and got past the duplicate test. -/
def messagesOn (dedup : Bool) (topic : UInt32) (arrivals : List Arrival) : List Datagram :=
  (passed dedup Prod.fst (arrivals.filterMap (Arrival.on topic))).filterMap fun f => f.2.getLeft?

/-- What may arrive: copies of what was sent, on a subscribed topic of the subscribed type; and
anything else that is no value of a subscription. -/
def Legit (sent : List Datagram) (subs : List (UInt32 × MessageType)) : Arrival → Prop
  | .inl m => m ∈ sent ∧ ∀ sub ∈ subs, sub.1 = m.topic → sub.2 = m.type
  | .inr bytes => ∀ frame, decodeFrame bytes = .ok frame →
    ∀ sub ∈ subs, sub.1 = frame.header.topicId → frame.payload.length ≠ sizeof sub.2.cpp

/-- The handlers after the subscriptions. -/
structure Subscribed (subs : List (UInt32 × MessageType)) (t : UdpTransport Subscription) :
    Prop where
  unarmed : t.relayDedupEnabled = false
  windows : Remembered t fun _ => []
  installed : ∀ topic, ∀ s ∈ t.handlers[topic]?, s.values = [] ∧ (topic, s.type) ∈ subs
  all : ∀ sub ∈ subs, (t.handlers[sub.1]?).isSome

section
variable {F : Type} {dedup : Bool} {subs : List (UInt32 × MessageType)} {arrivals : List Arrival}
  {t : UdpTransport Subscription}

theorem Subscribed.subscribe (h : Subscribed subs t) (sub : UInt32 × MessageType) :
    Subscribed (subs ++ [sub]) (setTopicHandler t sub.1 {type := sub.2}) := by
  refine ⟨h.unarmed, h.windows, fun topic s hs => ?_, fun other hother => ?_⟩
  · rw [setTopicHandler, getElem?_insert] at hs
    split at hs
    · next htopic =>
      cases hs
      rw [← htopic]
      exact ⟨rfl, List.mem_append_right subs List.mem_cons_self⟩
    · obtain ⟨hvalues, htype⟩ := h.installed topic s hs
      exact ⟨hvalues, List.mem_append_left _ htype⟩
  · rw [setTopicHandler, getElem?_insert]
    split
    · rfl
    · next hne =>
      rcases List.mem_append.mp hother with hother | hother
      · exact h.all other hother
      · exact absurd (congrArg Prod.fst (List.mem_singleton.mp hother)).symm hne

/-! ### What the arrivals come to -/

theorem frameOn_eq_some {topic : UInt32} {bytes : Bytes} {f : UInt16 × Bytes}
    (h : frameOn topic bytes = some f) : ∃ frame, decodeFrame bytes = .ok frame ∧
      frame.header.topicId = topic ∧ f = (frame.header.seqNum, frame.payload) := by
  unfold frameOn at h
  split at h
  · next frame hdecode =>
    split at h
    · next htopic => exact ⟨frame, hdecode, htopic, (Option.some.inj h).symm⟩
    · cases h
  · cases h

/-- A frame on a topic of a subscription, as the handler sees it. -/
theorem Legit.payload {sent : List Datagram} (hsent : ∀ m ∈ sent, m.Framed) {a : Arrival}
    (ha : Legit sent subs a) {topic : UInt32} {f : UInt16 × Bytes}
    (hf : frameOn topic a.bytes = some f) {T : MessageType} (hsub : (topic, T) ∈ subs) :
    match a with
    | .inl m => m.topic = topic ∧ m.type = T ∧ f.2 = m.value.bytes
    | .inr _ => f.2.length ≠ sizeof T.cpp := by
  obtain ⟨frame, hdecode, htopic, rfl⟩ := frameOn_eq_some hf
  cases a with
  | inl m =>
    obtain ⟨hmem, htyped⟩ := ha
    obtain ⟨seq, hframe⟩ := hsent m hmem
    have hfits : m.value.bytes.length < 65536 := Nat.lt_of_le_of_lt m.value.fits (by decide)
    rw [Arrival.bytes, hframe, decodeFrame_frameBytes m.topic seq m.value.bytes hfits] at hdecode
    cases hdecode
    exact ⟨htopic, (htyped (topic, T) hsub htopic.symm).symm, rfl⟩
  | inr bytes => exact ha frame hdecode (topic, T) hsub htopic.symm

/-- The frames of a topic, each beside the arrival that it came in. -/
theorem filterMap_on (topic : UInt32) (arrivals : List Arrival) :
    (arrivals.map Arrival.bytes).filterMap (frameOn topic) =
      (arrivals.filterMap (Arrival.on topic)).map fun f =>
        (f.1, ((frameOn topic f.2.bytes).map Prod.snd).getD []) := by
  rw [List.filterMap_map, List.map_filterMap]
  refine List.filterMap_congr fun a _ => ?_
  rw [Function.comp_apply, Arrival.on]
  cases hf : frameOn topic a.bytes with
  | none => rfl
  | some f =>
    simp only [Option.map_some, hf, Option.getD_some]

/-- A typed handler keeps the values, and drops what has another size. -/
theorem foldl_given {sent : List Datagram} (hsent : ∀ m ∈ sent, m.Framed) {topic : UInt32}
    {s : Subscription} (hsub : (topic, s.type) ∈ subs) (frames : List (UInt16 × Arrival))
    (hframes : ∀ f ∈ frames, Legit sent subs f.2 ∧ (frameOn topic f.2.bytes).isSome) :
    (frames.foldl (fun s f => s.given (((frameOn topic f.2.bytes).map Prod.snd).getD [])) s).type =
        s.type ∧
      (frames.foldl (fun s f => s.given (((frameOn topic f.2.bytes).map Prod.snd).getD [])) s).values =
        s.values ++ (frames.filterMap fun f => f.2.getLeft?).map fun m => m.value.bytes := by
  induction frames generalizing s with
  | nil => exact ⟨rfl, (List.append_nil _).symm⟩
  | cons f rest ih =>
    obtain ⟨⟨hlegit, hsome⟩, hrest⟩ := List.forall_mem_cons.mp hframes
    obtain ⟨number, a⟩ := f
    obtain ⟨f, hf⟩ := Option.isSome_iff_exists.mp hsome
    have hpayload := hlegit.payload hsent hf hsub
    rw [List.foldl_cons, List.filterMap_cons]
    simp only [hf, Option.map_some, Option.getD_some]
    cases a with
    | inl m =>
      obtain ⟨-, htype, hbytes⟩ := hpayload
      have hsize : f.2.length = sizeof s.type.cpp := by
        rw [hbytes, m.value.bytes_length, htype]
      rw [Subscription.given_value hsize]
      obtain ⟨htype', hvalues⟩ := ih (s := {s with values := s.values ++ [f.2]}) hsub hrest
      refine ⟨htype', hvalues.trans ?_⟩
      rw [hbytes, List.append_assoc]
      rfl
    | inr bytes =>
      rw [Subscription.given_other hpayload]
      exact ih hsub hrest

/-! ### A session -/

theorem frames_datagram {call : Subscription → Bytes → Except F (Subscription × Unit)}
    {bytes : Bytes} {t' : UdpTransport Subscription} {o : Outcome Unit}
    (h : recvAndDispatch call t bytes = .ok (t', o)) :
    frames (next call) t (.datagram bytes) = .ok (t', o.seen.filter Seen.isFrame) := by
  unfold frames Transport.next
  simp only [h]
  rfl

/-- A whole session in the C++ build. -/
theorem session_heard (dedup : Bool) (subs : List (UInt32 × MessageType))
    (arrivals : List Arrival) : ∃ t₀ t outs,
      emits (frames (next Cpp.rawHandler)) {} (session dedup subs arrivals) =
        (.ok (t, outs) : Except F _) ∧ Subscribed subs t₀ ∧
      Heard dedup Subscription.given (fun topic => t₀.handlers[topic]?)
        (arrivals.map Arrival.bytes) t := by
  have hstart : Subscribed [] ({} : UdpTransport Subscription) := by
    refine ⟨rfl, remembered_unasked {}, fun topic s hs => ?_, fun sub hsub => ?_⟩
    · simp at hs
    · exact absurd hsub List.not_mem_nil
  obtain ⟨t₀, outs, hsubs, ht₀⟩ := emits_history (fun done t => Subscribed done t) (fun _ => True)
    (fun sub => Input.setTopicHandler sub.1 {type := sub.2}) (frames (next (F := F) Cpp.rawHandler))
    (fun done t sub h _ => ⟨_, none, rfl, h.subscribe sub⟩) subs [] {} hstart fun _ _ => trivial
  obtain ⟨t₁, harm, hheard⟩ : ∃ t₁,
      emits (frames (next (F := F) Cpp.rawHandler)) t₀
        (if dedup then [.enableRelayDedup] else []) = .ok (t₁, []) ∧
      Heard dedup Subscription.given (fun topic => t₀.handlers[topic]?) [] t₁ := by
    cases dedup with
    | true =>
      exact ⟨enableRelayDedup t₀, rfl, heard_start (t := enableRelayDedup t₀) _ ht₀.windows⟩
    | false =>
      have hheard := heard_start Subscription.given ht₀.windows
      rw [ht₀.unarmed] at hheard
      exact ⟨t₀, rfl, hheard⟩
  obtain ⟨t, outs', harrivals, ht⟩ := emits_history
    (fun arrived t => Heard dedup Subscription.given (fun topic => t₀.handlers[topic]?)
      (arrived.map Arrival.bytes) t) (fun _ => True)
    (fun a => Input.datagram a.bytes) (frames (next (F := F) Cpp.rawHandler))
    (fun arrived t a h _ => by
      obtain ⟨t', o, hrecv, ht'⟩ := h.datagram
        (fun s payload => ⟨(), rawHandler_eq (F := F) s payload⟩) a.bytes
      refine ⟨t', _, frames_datagram hrecv, ?_⟩
      rwa [List.map_append]) arrivals [] t₁ hheard fun _ _ => trivial
  exact ⟨t₀, t, _, emits_append_ok hsubs (emits_append_ok harm harrivals), ht₀, ht⟩

/-- What the callback of a subscription was given. -/
theorem session_called (dedup : Bool) {sent : List Datagram} (hsent : ∀ m ∈ sent, m.Framed)
    (subs : List (UInt32 × MessageType)) {arrivals : List Arrival}
    (hlegit : ∀ a ∈ arrivals, Legit sent subs a) : ∃ t outs,
      emits (frames (next Cpp.rawHandler)) {} (session dedup subs arrivals) =
        (.ok (t, outs) : Except F _) ∧
      ∀ sub ∈ subs, ∃ s, t.handlers[sub.1]? = some s ∧ (sub.1, s.type) ∈ subs ∧
        s.values = (messagesOn dedup sub.1 arrivals).map fun m => m.value.bytes := by
  obtain ⟨t₀, t, outs, hrun, hsubs, hheard⟩ := session_heard (F := F) dedup subs arrivals
  refine ⟨t, outs, hrun, fun sub hsub => ?_⟩
  obtain ⟨s, hs⟩ := Option.isSome_iff_exists.mp (hsubs.all sub hsub)
  obtain ⟨hnone, htype⟩ := hsubs.installed sub.1 s hs
  have hframes : ∀ f ∈ passed dedup Prod.fst (arrivals.filterMap (Arrival.on sub.1)),
      Legit sent subs f.2 ∧ (frameOn sub.1 f.2.bytes).isSome := by
    intro f hf
    obtain ⟨a, ha, hon⟩ := List.mem_filterMap.mp ((passed_sublist ..).subset hf)
    obtain ⟨frame, hframe, rfl⟩ := Option.map_eq_some_iff.mp hon
    exact ⟨hlegit a ha, Option.isSome_iff_exists.mpr ⟨frame, hframe⟩⟩
  obtain ⟨hkept, hvalues⟩ := foldl_given hsent htype _ hframes
  have hhandler := hheard.handlers sub.1
  rw [hs, Option.map_some, filterMap_on, passed_map, List.foldl_map] at hhandler
  refine ⟨_, hhandler, ?_, ?_⟩
  · rw [hkept]
    exact htype
  · rw [hvalues, hnone]
    rfl

/-- Nodes of either build publish typed values; what a subscriber of either build is called with,
on each of its topics, are the messages of the topic that arrived, in the order in which they did,
and under each field's name it reads the number that was published. Where the duplicate test is
armed they are those that got past it. Frames of another size, or on other topics, never reach a
callback. -/
theorem published_fields_arrive (accepts : Nat → Nat → Bool) (calls : List Publish) (dedup : Bool)
    (subs : List (UInt32 × MessageType)) (arrivals : List Arrival) (uncaught : Wire.Py.Exn → F)
    (hlegit : ∀ a ∈ arrivals, Legit (published accepts calls) subs a) :
    ∃ t outs p outs',
      emits (frames (next (F := F) Cpp.rawHandler)) {} (session dedup subs arrivals) =
        .ok (t, outs) ∧
      emits (frames (Py.next uncaught Py.rawHandler)) {} (session dedup subs arrivals) =
        .ok (p, outs') ∧
      ∀ sub ∈ subs, ∃ s s', t.handlers[sub.1]? = some s ∧ p.handlers[sub.1]? = some s' ∧
        s.values.map (Cpp.read s.type) =
          (messagesOn dedup sub.1 arrivals).map (fun m => m.value.fields) ∧
        s'.values.map (Py.read s'.type) =
          (messagesOn dedup sub.1 arrivals).map fun m => m.value.fields := by
  have hsent := published_framed accepts calls
  obtain ⟨t, outs, hcpp, hcalled⟩ := session_called (F := F) dedup hsent subs hlegit
  have halike :=
    (builds_receive_alike uncaught (Cpp.rawHandler (F := F)) (session dedup subs arrivals)).1
  rw [hcpp, ← rawHandler_py] at halike
  generalize hpy : emits (frames (Py.next uncaught Py.rawHandler)) {} (session dedup subs arrivals) = y
    at halike
  cases halike with
  | ok o hsame =>
    refine ⟨t, outs, _, _, hcpp, rfl, fun sub hsub => ?_⟩
    obtain ⟨s, hs, htype, hvalues⟩ := hcalled sub hsub
    have hread : s.values.map (Cpp.read s.type) =
        (messagesOn dedup sub.1 arrivals).map fun m => m.value.fields := by
      rw [hvalues, List.map_map]
      apply List.map_congr_left
      intro m hm
      obtain ⟨f, hf, hleft⟩ := List.mem_filterMap.mp hm
      obtain ⟨a, ha, hon⟩ := List.mem_filterMap.mp ((passed_sublist ..).subset hf)
      obtain ⟨frame, hframe, rfl⟩ := Option.map_eq_some_iff.mp hon
      obtain rfl : a = .inl m := Sum.getLeft?_eq_some_iff.mp hleft
      obtain ⟨-, hsame, -⟩ := (hlegit _ ha).payload hsent hframe htype
      show Cpp.read s.type m.value.bytes = m.value.fields
      rw [← hsame]
      exact m.value.read_bytes
    refine ⟨s, s, hs, ?_, hread, ?_⟩
    · rw [hsame.handlers]
      exact hs
    · rw [← hread]
      apply List.map_congr_left
      intro memory _
      exact read_py s.type memory

/-! A C++ node and a Python node publish a reading each, which is a type of the user's own. -/

def reading : MessageType where
  name := "Reading"
  cpp := record [("volts", f32), ("channel", u8)]
  py := record [(.shown "volts", f32), (.shown "channel", u8)]
  same := rfl
  fits := by decide

def twoReadings : List Publish :=
  [⟨0, ⟨7, [⟨0x7f000001, 4000⟩], none⟩, reading, .cpp ((1 : Fin (256 ^ 4)), (2 : Fin 256), ())⟩,
    ⟨1, ⟨7, [⟨0x7f000001, 4000⟩], none⟩, reading, .py ((3 : Fin (256 ^ 4)), (4 : Fin 256), ())⟩]

example : (published (fun _ _ => true) twoReadings).map (fun m => m.value.fields) =
    [[⟨[.field "volts"], .f32, 1⟩, ⟨[.field "channel"], .u8, 2⟩],
      [⟨[.field "volts"], .f32, 3⟩, ⟨[.field "channel"], .u8, 4⟩]] := rfl

/-- Both arrive, after a datagram that is no frame. -/
def readingArrivals : List Arrival :=
  .inr [0] :: (published (fun _ _ => true) twoReadings).map .inl

/-- Both nodes number their first message 0, so that an armed test drops the second. -/
example : (messagesOn false 7 readingArrivals).length = 2 ∧
    (messagesOn true 7 readingArrivals).length = 1 := by
  decide +kernel

theorem published_fields_arrive_readings : ∃ t outs p outs',
    emits (frames (next (F := Wire.Py.Exn) Cpp.rawHandler)) {}
      (session true [(7, reading)] readingArrivals) = .ok (t, outs) ∧
    emits (frames (Py.next id Py.rawHandler)) {} (session true [(7, reading)] readingArrivals) =
      .ok (p, outs') ∧
    ∀ sub ∈ [((7 : UInt32), reading)], ∃ s s',
      t.handlers[sub.1]? = some s ∧ p.handlers[sub.1]? = some s' ∧
      s.values.map (Cpp.read s.type) =
        (messagesOn true sub.1 readingArrivals).map (fun m => m.value.fields) ∧
      s'.values.map (Py.read s'.type) =
        (messagesOn true sub.1 readingArrivals).map fun m => m.value.fields := by
  apply published_fields_arrive (fun _ _ => true) twoReadings
  intro a ha
  rcases List.mem_cons.mp ha with rfl | ha
  · exact fun frame hframe => nomatch hframe
  · obtain ⟨m, hm, rfl⟩ := List.mem_map.mp ha
    refine ⟨hm, fun sub hsub _ => ?_⟩
    rw [List.mem_singleton.mp hsub]
    rcases List.mem_cons.mp hm with rfl | hm
    · rfl
    · rw [List.mem_singleton.mp hm]

end

end Relink.Message
