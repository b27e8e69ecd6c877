import Relink.Node.Session

/-! Which topics a node announces, in both builds.

The two builds find the same transports for the same calls, and the Python build has declared what
the C++ build has, and the topics that some calls name before they get any further.
`same_topics_iff` says after which calls the two snapshots are of the same topics. -/
namespace Relink.Node
open Std (ExtTreeMap ExtTreeSet)
open Image (kMaxImageBytes kMaxCompressedImageBytes)

section
variable {H : Type}

/-! ### The same topics announced -/

/-- A topic is among those registered or beaconed. -/
def Listed (groups : List (TransportId × List UInt32)) (topic : UInt32) : Prop :=
  ∃ t group, (t, group) ∈ groups ∧ topic ∈ group

/-- Both nodes have announced the same topics, or neither any. -/
def SameTopics (announced announced' : Option (List (TransportId × List UInt32))) : Prop :=
  (announced.isSome ↔ announced'.isSome) ∧
    ∀ topic, Listed (announced.getD []) topic ↔ Listed (announced'.getD []) topic

/-- The topic that the Python build declares even if the call gets no further. -/
def ApiCall.named : ApiCall H → Option UInt32
  | .declare (.subscribe _ topic _ _ _) => some topic
  | .publish _ topic => some topic
  | .publishRaw topic => some topic
  | _ => none

/-- A call that gets to `ensure_started`. -/
def ApiCall.starts : ApiCall H → Bool
  | .publish _ _ => true
  | .publishRaw _ => true
  | .publishImage _ len => len ≤ kMaxImageBytes
  | .publishCompressedImage _ len => len ≤ kMaxCompressedImageBytes
  | .spinOnce => true
  | _ => false

/-- When the node starts, every topic that a publish up to then, or a `subscribe` up to then,
has `named` is declared already. -/
def DeclaredInTime (w : Session H) (named : List UInt32) : List (ApiCall H × Granted) → Prop
  | [] => True
  | e :: rest =>
    if e.1.starts ∧ e.2.starts then ∀ topic ∈ named ++ e.1.named.toList, topic ∈ w.node.declared
    else DeclaredInTime (w.step e) (named ++ e.1.named.toList) rest

/-! ### The same ports in both builds -/

def Py.GroupKey.code : Py.GroupKey → UInt64
  | .topic id => id.toUInt64
  | .pair id => pairKey id

theorem pairKey_toNat (pairId : UInt32) : (pairKey pairId).toNat = 2 ^ 32 + pairId.toNat := by
  have hlt : pairId.toNat < 2 ^ 32 := pairId.toNat_lt
  have hor := Nat.two_pow_add_eq_or_of_lt hlt 1
  rw [Nat.mul_one] at hor
  rw [hor, pairKey, UInt64.toNat_or, UInt32.toNat_toUInt64]
  rfl

/-- A tagged pair is no topic. -/
theorem code_inj {key key' : Py.GroupKey} : key.code = key'.code ↔ key = key' := by
  constructor
  · intro h
    have hnat := congrArg UInt64.toNat h
    cases key with
    | topic id =>
      have hid : id.toNat < 2 ^ 32 := id.toNat_lt
      cases key' with
      | topic id' =>
        rw [Py.GroupKey.code, Py.GroupKey.code, UInt32.toNat_toUInt64, UInt32.toNat_toUInt64] at hnat
        rw [UInt32.toNat_inj.mp hnat]
      | pair id' =>
        rw [Py.GroupKey.code, Py.GroupKey.code, UInt32.toNat_toUInt64, pairKey_toNat] at hnat
        omega
    | pair id =>
      cases key' with
      | topic id' =>
        have hid : id'.toNat < 2 ^ 32 := id'.toNat_lt
        rw [Py.GroupKey.code, Py.GroupKey.code, UInt32.toNat_toUInt64, pairKey_toNat] at hnat
        omega
      | pair id' =>
        rw [Py.GroupKey.code, Py.GroupKey.code, pairKey_toNat, pairKey_toNat] at hnat
        rw [UInt32.toNat_inj.mp (Nat.add_left_cancel hnat)]
  · exact fun h => by rw [h]

/-- The two builds have the same topics on the same transports. -/
structure Ports (w : RelinkNode H) (p : Py.RelinkNode H) : Prop where
  multiplex : p.multiplex = w.multiplex
  pairs : p.topicPairId = w.topicPairId
  transports : ∀ key : Py.GroupKey, p.topicTransports.lookup key = w.topicTransports[key.code]?
  opened : p.opened = w.opened

/-- What a call of the Python node that finds a transport leaves alone. -/
structure Untouched (p p' : Py.RelinkNode H) : Prop where
  declared : p'.declared = p.declared
  rings : p'.rings = p.rings
  announced : p'.announced = p.announced

variable {w : RelinkNode H} {p : Py.RelinkNode H}

theorem groupKey_code (h : Ports w p) (topic : UInt32) : (p.groupKey topic).code = w.groupKey topic := by
  unfold Py.RelinkNode.groupKey RelinkNode.groupKey
  rw [h.pairs]
  cases w.topicPairId[topic]? <;> rfl

theorem Py.transportFor_untouched (p : Py.RelinkNode H) (topic : UInt32) (binds : Bool) :
    Untouched p (p.transportFor topic binds).1 := by
  unfold Py.RelinkNode.transportFor
  split
  · exact ⟨rfl, rfl, rfl⟩
  · split
    · exact ⟨rfl, rfl, rfl⟩
    · split <;> exact ⟨rfl, rfl, rfl⟩

theorem Py.registerPair_untouched {p p' : Py.RelinkNode H} {topic : UInt32} {pair : Bool}
    {pairId : UInt32} (h : p.registerPair topic pair pairId = some p') : Untouched p p' := by
  unfold Py.RelinkNode.registerPair at h
  split at h
  · split at h
    · cases h
    · cases h
      exact ⟨rfl, rfl, rfl⟩
  · split at h
    · cases h
      exact ⟨rfl, rfl, rfl⟩
    · cases h
      exact ⟨rfl, rfl, rfl⟩

theorem Py.pairedTransport_untouched (p : Py.RelinkNode H) (topic : UInt32) (pair : Bool)
    (pairId : UInt32) (binds : Bool) :
    Untouched p (p.pairedTransport topic pair pairId binds).1 := by
  unfold Py.RelinkNode.pairedTransport
  split
  · exact ⟨rfl, rfl, rfl⟩
  · next p' hp =>
    have hpair := Py.registerPair_untouched hp
    have hfor := Py.transportFor_untouched p' topic binds
    exact ⟨hfor.declared.trans hpair.declared, hfor.rings.trans hpair.rings,
      hfor.announced.trans hpair.announced⟩

theorem ports_transportFor (h : Ports w p) (topic : UInt32) (binds : Bool) :
    Ports (w.transportFor topic binds).1 (p.transportFor topic binds).1 ∧
      (p.transportFor topic binds).2 = (w.transportFor topic binds).2 ∧
      (w.transportFor topic binds).1.declared = w.declared := by
  unfold RelinkNode.transportFor Py.RelinkNode.transportFor
  rw [h.multiplex, h.transports, groupKey_code h, h.opened]
  split
  · exact ⟨h, rfl, rfl⟩
  · cases hbound : w.topicTransports[w.groupKey topic]? with
    | some n => exact ⟨h, rfl, rfl⟩
    | none =>
      cases binds with
      | false => exact ⟨h, rfl, rfl⟩
      | true =>
        refine ⟨⟨h.multiplex, h.pairs, fun key => ?_, congrArg (· + 1) h.opened⟩, rfl, rfl⟩
        -- the new entry is found under its own key only, and that was free
        simp only [if_true, RelinkNode.openTransport, Py.RelinkNode.openTransport,
          List.lookup_append, h.transports, ExtTreeMap.getElem?_insert, Std.compare_eq_iff_eq,
          ← groupKey_code h topic, code_inj, h.opened]
        rw [← groupKey_code h] at hbound
        by_cases heq : p.groupKey topic = key
        · subst heq
          simp [hbound]
        · have hother : (key == p.groupKey topic) = false := beq_eq_false_iff_ne.mpr (Ne.symm heq)
          rw [if_neg heq, List.lookup_cons, hother]
          exact Option.or_none

theorem ports_registerPair (h : Ports w p) (topic : UInt32) (pair : Bool) (pairId : UInt32) :
    (w.registerPair topic pair pairId = none ∧ p.registerPair topic pair pairId = none) ∨
      ∃ w' p', w.registerPair topic pair pairId = some w' ∧
        p.registerPair topic pair pairId = some p' ∧ Ports w' p' ∧ w'.declared = w.declared := by
  have hpaired : Ports {w with topicPairId := w.topicPairId.insert topic pairId}
      {p with topicPairId := p.topicPairId.insert topic pairId} :=
    ⟨h.multiplex, by simp only [h.pairs], h.transports, h.opened⟩
  unfold RelinkNode.registerPair Py.RelinkNode.registerPair
  rw [← h.pairs]
  rw [← h.pairs] at hpaired
  cases p.topicPairId[topic]? with
  | some known =>
    simp only
    split
    · exact Or.inl ⟨rfl, rfl⟩
    · exact Or.inr ⟨_, _, rfl, rfl, hpaired, rfl⟩
  | none =>
    simp only
    split
    · exact Or.inr ⟨_, _, rfl, rfl, hpaired, rfl⟩
    · exact Or.inr ⟨_, _, rfl, rfl, h, rfl⟩

/-- Both builds find the same transport for a declaration, or fail alike. -/
theorem ports_declare (h : Ports w p) (topic : UInt32) (pair : Bool) (pairId : UInt32)
    (handler : Option H) (binds : Bool) :
    ∃ w', Ports w' (p.pairedTransport topic pair pairId binds).1 ∧ w'.declared = w.declared ∧
      w.declare ⟨topic, some (pair, pairId), handler⟩ binds =
        (p.pairedTransport topic pair pairId binds).2.elim w' (w'.install topic handler) := by
  unfold RelinkNode.declare Py.RelinkNode.pairedTransport
  obtain ⟨hw, hp⟩ | ⟨w', p', hw, hp, hports, hdeclared⟩ := ports_registerPair h topic pair pairId
  · rw [hp]
    simp only [hw]
    exact ⟨w, h, rfl, rfl⟩
  · rw [hp]
    simp only [hw]
    obtain ⟨hports', hsame, hdeclared'⟩ := ports_transportFor hports topic binds
    refine ⟨(w'.transportFor topic binds).1, hports', hdeclared'.trans hdeclared, ?_⟩
    rw [hsame]
    rcases w'.transportFor topic binds with ⟨w'', _ | t⟩ <;> rfl

/-! ### One call -/

/-- The Python build has declared what the C++ build has, and what was named. -/
structure Alike (w : Session H) (p : Py.RelinkNode H) (named : List UInt32) : Prop where
  ports : Ports w.node p
  rings : p.rings = w.rings
  declared : ∀ topic, topic ∈ p.declared ↔ topic ∈ w.node.declared ∨ topic ∈ named
  announced : p.announced.isSome = w.announced.isSome

theorem ports_install (h : Ports w p) (topic : UInt32) (handler : Option H) (t : TransportId) :
    Ports (w.install topic handler t) p := by
  cases handler <;> exact ⟨h.multiplex, h.pairs, h.transports, h.opened⟩

theorem ports_addAdvertised (h : Ports w p) (topic : UInt32) : Ports w (p.addAdvertised topic) :=
  ⟨h.multiplex, h.pairs, h.transports, h.opened⟩

theorem ports_addSubscribed (h : Ports w p) (topic : UInt32) : Ports w (p.addSubscribed topic) :=
  ⟨h.multiplex, h.pairs, h.transports, h.opened⟩

theorem ports_setTopicHandler (h : Ports w p) (t : TransportId) (topic : UInt32) (callback : H) :
    Ports w (p.setTopicHandler t topic callback) :=
  ⟨h.multiplex, h.pairs, h.transports, h.opened⟩

theorem mem_insert {topics : ExtTreeSet UInt32} {topic topic' : UInt32} :
    topic' ∈ topics.insert topic ↔ topic' = topic ∨ topic' ∈ topics := by
  rw [ExtTreeSet.mem_insert, Std.compare_eq_iff_eq]
  exact or_congr_left eq_comm

section
variable {w : Session H} {named : List UInt32} (h : Alike w p named)
include h

/-- Both builds declare the topic. -/
theorem alike_added {w' : RelinkNode H} {p' : Py.RelinkNode H} (hports : Ports w' p')
    (hdeclared : w'.declared = w.node.declared) (topic : UInt32) (handler : Option H) (t : TransportId)
    (hadded : p'.declared = p.declared.insert topic) (hrings : p'.rings = p.rings)
    (hannounced : p'.announced = p.announced) :
    Alike {w with node := w'.install topic handler t} p' named where
  ports := ports_install hports topic handler t
  rings := hrings.trans h.rings
  declared topic' := by
    rw [hadded, mem_insert, mem_declared_install, h.declared, hdeclared, or_assoc]
  announced := hannounced ▸ h.announced

/-- The Python build declares the topic, whether the C++ build does or not. -/
theorem alike_named {w' : RelinkNode H} {p' : Py.RelinkNode H} (hports : Ports w' p')
    {topic : UInt32} (hdeclared : ∀ topic', topic' ∈ w'.declared → topic' = topic ∨ topic' ∈ w.node.declared)
    (hkept : ∀ topic' ∈ w.node.declared, topic' ∈ w'.declared)
    (hadded : p'.declared = p.declared.insert topic) (hrings : p'.rings = p.rings)
    (hannounced : p'.announced = p.announced) :
    Alike {w with node := w'} p' (named ++ [topic]) where
  ports := hports
  rings := hrings.trans h.rings
  declared topic' := by
    rw [hadded, mem_insert, h.declared, List.mem_append, List.mem_singleton]
    constructor
    · rintro (rfl | hmem | hmem)
      · exact Or.inr (Or.inr rfl)
      · exact Or.inl (hkept topic' hmem)
      · exact Or.inr (Or.inl hmem)
    · rintro (hmem | hmem | rfl)
      · exact (hdeclared topic' hmem).imp id Or.inl
      · exact Or.inr (Or.inr hmem)
      · exact Or.inl rfl
  announced := hannounced ▸ h.announced

/-- A declaration that finds its transport first, in both builds. -/
theorem alike_paired (topic : UInt32) (pair : Bool) (pairId : UInt32) (handler : Option H)
    (binds : Bool) (add : TransportId → Py.RelinkNode H → Py.RelinkNode H)
    (hports : ∀ t q w', Ports w' q → Ports w' (add t q))
    (hadded : ∀ t q, (add t q).declared = q.declared.insert topic)
    (hrings : ∀ t q, (add t q).rings = q.rings)
    (hannounced : ∀ t q, (add t q).announced = q.announced) :
    Alike {w with node := w.node.declare ⟨topic, some (pair, pairId), handler⟩ binds}
      ((p.pairedTransport topic pair pairId binds).2.elim
        (p.pairedTransport topic pair pairId binds).1
        fun t => add t (p.pairedTransport topic pair pairId binds).1) named := by
  have huntouched := Py.pairedTransport_untouched p topic pair pairId binds
  obtain ⟨w', hports', hdeclared, hdeclare⟩ :=
    ports_declare h.ports topic pair pairId handler binds
  rw [hdeclare]
  cases (p.pairedTransport topic pair pairId binds).2 with
  | none =>
    exact ⟨hports', huntouched.rings.trans h.rings,
      fun topic' => by rw [Option.elim_none, Option.elim_none, huntouched.declared, hdeclared, h.declared],
      huntouched.announced ▸ h.announced⟩
  | some t =>
    exact alike_added h (hports t _ _ hports') hdeclared topic handler t
      ((hadded t _).trans (by rw [huntouched.declared])) ((hrings t _).trans huntouched.rings)
      ((hannounced t _).trans huntouched.announced)

/-- `subscribe` of the Python build declares the topic before anything can fail. -/
theorem alike_subscribe (largeBlob : Bool) (topic : UInt32) (callback : H) (pair : Bool)
    (pairId : UInt32) (binds : Bool) :
    Alike {w with node :=
        w.node.declare (Call.subscribe largeBlob topic callback pair pairId).declaration binds}
      (p.subscribe largeBlob topic callback pair pairId binds) (named ++ [topic]) := by
  have hports := ports_addSubscribed h.ports topic
  have hinstalled : ∀ (w' : RelinkNode H) (t : TransportId), w'.declared = w.node.declared →
      (∀ topic', topic' ∈ (w'.install topic (some callback) t).declared →
        topic' = topic ∨ topic' ∈ w.node.declared) ∧
      ∀ topic' ∈ w.node.declared, topic' ∈ (w'.install topic (some callback) t).declared := by
    intro w' t hdeclared
    simp only [mem_declared_install, hdeclared]
    exact ⟨fun _ hmem => hmem, fun _ hmem => Or.inr hmem⟩
  cases largeBlob with
  | true =>
    obtain ⟨hadds, hkeeps⟩ := hinstalled w.node .shared rfl
    exact alike_named h (ports_install (ports_setTopicHandler hports .shared topic callback) topic
      (some callback) .shared) hadds hkeeps rfl rfl rfl
  | false =>
    have huntouched := Py.pairedTransport_untouched (p.addSubscribed topic) topic pair pairId binds
    obtain ⟨w', hports', hdeclared, hdeclare⟩ :=
      ports_declare hports topic pair pairId (some callback) binds
    simp only [Py.RelinkNode.subscribe, Call.declaration, Bool.false_eq_true, if_false]
    rw [hdeclare]
    rcases hr : (p.addSubscribed topic).pairedTransport topic pair pairId binds with ⟨q, _ | t⟩
    · rw [hr] at hports' huntouched
      exact alike_named h hports' (fun topic' hmem => Or.inr (hdeclared ▸ hmem))
        (fun topic' hmem => hdeclared ▸ hmem) huntouched.declared huntouched.rings
        huntouched.announced
    · rw [hr] at hports' huntouched
      obtain ⟨hadds, hkeeps⟩ := hinstalled w' t hdeclared
      exact alike_named h (ports_install (ports_setTopicHandler hports' t topic callback) topic
        (some callback) t) hadds hkeeps huntouched.declared huntouched.rings huntouched.announced

theorem alike_advertise (topic : UInt32) (pair : Bool) (pairId : UInt32) (binds : Bool) :
    Alike {w with node := w.node.declare ⟨topic, some (pair, pairId), none⟩ binds}
      (p.advertise false topic pair pairId binds) named := by
  have hpaired := alike_paired h topic pair pairId none binds
    (fun _ q => q.addAdvertised topic) (fun _ _ _ hports => ports_addAdvertised hports topic)
    (fun _ _ => rfl) (fun _ _ => rfl) fun _ _ => rfl
  simp only [Py.RelinkNode.advertise, Bool.false_eq_true, if_false]
  rcases hr : p.pairedTransport topic pair pairId binds with ⟨q, _ | t⟩ <;> rw [hr] at hpaired
  · exact hpaired
  · exact hpaired

theorem alike_subscribeRaw (topic : UInt32) (callback : H) (pair : Bool) (pairId : UInt32)
    (binds : Bool) :
    Alike {w with node := w.node.declare ⟨topic, some (pair, pairId), some callback⟩ binds}
      (p.subscribeRaw topic callback pair pairId binds) named := by
  have hpaired := alike_paired h topic pair pairId (some callback) binds
    (fun t q => (q.addSubscribed topic).setTopicHandler t topic callback)
    (fun t _ _ hports => ports_setTopicHandler (ports_addSubscribed hports topic) t topic callback)
    (fun _ _ => rfl) (fun _ _ => rfl) fun _ _ => rfl
  simp only [Py.RelinkNode.subscribeRaw]
  rcases hr : p.pairedTransport topic pair pairId binds with ⟨q, _ | t⟩ <;> rw [hr] at hpaired
  · exact hpaired
  · exact hpaired

/-- An image's declaration, on the shared transport. -/
theorem alike_image (topic : UInt32) (handler : Option H) {p' : Py.RelinkNode H}
    (hports : Ports w.node p') (hadded : p'.declared = p.declared.insert topic)
    (hrings : p'.rings = p.rings) (hannounced : p'.announced = p.announced) (binds : Bool) :
    Alike {w with node := w.node.declare ⟨topic, none, handler⟩ binds} p' named :=
  alike_added h hports rfl topic handler .shared hadded hrings hannounced

theorem alike_declare (call : Call H) (binds : Bool) :
    Alike {w with node := w.node.declare call.declaration binds} (p.declare binds call)
      (named ++ (ApiCall.declare call).named.toList) := by
  have hsubscribed : ∀ topic callback,
      Ports w.node ((p.addSubscribed topic).setTopicHandler .shared topic callback) :=
    fun topic callback => ports_setTopicHandler (ports_addSubscribed h.ports topic) .shared topic callback
  have hnone : named ++ (none : Option UInt32).toList = named := List.append_nil named
  cases call with
  | advertise largeBlob topic pair pairId =>
    simp only [ApiCall.named, hnone]
    cases largeBlob with
    | true => exact alike_image h topic none (ports_addAdvertised h.ports topic) rfl rfl rfl binds
    | false => exact alike_advertise h topic pair pairId binds
  | subscribe largeBlob topic callback pair pairId =>
    exact alike_subscribe h largeBlob topic callback pair pairId binds
  | advertiseRaw topic pair pairId =>
    simp only [ApiCall.named, hnone]
    exact alike_advertise h topic pair pairId binds
  | subscribeRaw topic callback pair pairId =>
    simp only [ApiCall.named, hnone]
    exact alike_subscribeRaw h topic callback pair pairId binds
  | advertiseImage topic =>
    simp only [ApiCall.named, hnone]
    exact alike_image h topic none (ports_addAdvertised h.ports topic) rfl rfl rfl binds
  | subscribeImage topic callback =>
    simp only [ApiCall.named, hnone]
    exact alike_image h topic (some callback) (hsubscribed topic callback) rfl rfl rfl binds
  | advertiseCompressedImage topic =>
    simp only [ApiCall.named, hnone]
    exact alike_image h topic none (ports_addAdvertised h.ports topic) rfl rfl rfl binds
  | subscribeCompressedImage topic callback =>
    simp only [ApiCall.named, hnone]
    exact alike_image h topic (some callback) (hsubscribed topic callback) rfl rfl rfl binds

theorem alike_openRing (topic : UInt32) (opens : Bool) :
    Alike (w.openRing topic opens) (p.openRing topic opens) named := by
  unfold Session.openRing Py.RelinkNode.openRing
  by_cases hopen : topic ∈ w.rings
  · have hopen' : topic ∈ p.rings := by rwa [h.rings]
    rw [if_pos hopen, if_pos hopen']
    exact h
  have hopen' : topic ∉ p.rings := by rwa [h.rings]
  rw [if_neg hopen, if_neg hopen']
  cases opens with
  | false => exact h
  | true =>
    simp only [if_true]
    refine ⟨⟨h.ports.multiplex, h.ports.pairs, h.ports.transports, h.ports.opened⟩, by rw [h.rings],
      fun topic' => ?_, h.announced⟩
    simp only [mem_insert, h.declared, or_assoc]

theorem alike_subscribeLocalIpc (topic : UInt32) (opens : Bool) :
    Alike (w.openRing topic opens) (p.subscribeLocalIpc topic opens) named := by
  have hring := alike_openRing h topic opens
  simp only [Py.RelinkNode.subscribeLocalIpc]
  split
  · exact ⟨⟨hring.ports.multiplex, hring.ports.pairs, hring.ports.transports, hring.ports.opened⟩,
      hring.rings, hring.declared, hring.announced⟩
  · exact hring

theorem alike_ensureStarted (starts : Bool) :
    Alike (w.ensureStarted starts).1 (p.ensureStarted starts).1 named ∧
      (p.ensureStarted starts).2 = (w.ensureStarted starts).2 := by
  unfold Session.ensureStarted Py.RelinkNode.ensureStarted
  rw [h.announced]
  cases w.announced.isSome with
  | true => exact ⟨h, rfl⟩
  | false =>
    cases starts with
    | false => exact ⟨h, rfl⟩
    | true =>
      exact ⟨⟨⟨h.ports.multiplex, h.ports.pairs, h.ports.transports, h.ports.opened⟩, h.rings,
        h.declared, rfl⟩, rfl⟩

theorem alike_publish (largeBlob : Bool) (topic : UInt32) (g : Granted) :
    Alike (w.publish largeBlob topic g) (p.publish largeBlob topic g) (named ++ [topic]) := by
  have hadded : Alike w (p.addAdvertised topic) (named ++ [topic]) :=
    alike_named h (ports_addAdvertised h.ports topic) (fun _ hmem => Or.inr hmem) (fun _ hmem => hmem)
      rfl rfl rfl
  obtain ⟨hstarted, hreturns⟩ := alike_ensureStarted hadded g.starts
  unfold Session.publish Py.RelinkNode.publish
  rcases hw : w.ensureStarted g.starts with ⟨w', started⟩
  rcases hp : (p.addAdvertised topic).ensureStarted g.starts with ⟨p', started'⟩
  rw [hw, hp] at hstarted hreturns
  simp only at hstarted hreturns
  subst hreturns
  cases started' with
  | false => exact hstarted
  | true =>
    simp only
    -- the C++ build declares the topic now, the Python build has
    have hinstalled : Alike {w' with node := w'.node.install topic none .shared} p'
        (named ++ [topic]) := by
      refine ⟨ports_install hstarted.ports topic none .shared, hstarted.rings, fun topic' => ?_,
        hstarted.announced⟩
      rw [hstarted.declared, mem_declared_install]
      constructor
      · exact fun hmem => hmem.imp Or.inr id
      · rintro ((rfl | hmem) | hmem)
        · exact Or.inr (List.mem_append_right _ (List.mem_singleton_self _))
        · exact Or.inl hmem
        · exact Or.inr hmem
    cases largeBlob with
    | true => exact hinstalled
    | false =>
      simp only [Bool.false_eq_true, if_false]
      have huntouched := Py.transportFor_untouched p' topic g.binds
      obtain ⟨hports, _, hdeclared⟩ := ports_transportFor hinstalled.ports topic g.binds
      refine ⟨hports, huntouched.rings.trans hinstalled.rings, fun topic' => ?_,
        huntouched.announced ▸ hinstalled.announced⟩
      rw [huntouched.declared, hdeclared]
      exact hinstalled.declared topic'

/-- **One call** leaves the two builds alike. -/
theorem alike_step (e : ApiCall H × Granted) :
    Alike (w.step e) (p.step e) (named ++ e.1.named.toList) := by
  have hnone : named ++ (none : Option UInt32).toList = named := List.append_nil named
  have hstarted := (alike_ensureStarted h e.2.starts).1
  obtain ⟨call, g⟩ := e
  cases call with
  | declare call => exact alike_declare h call g.binds
  | advertiseLocalIpc topic =>
    simp only [ApiCall.named, hnone]
    exact alike_openRing h topic g.opens
  | subscribeLocalIpc topic =>
    simp only [ApiCall.named, hnone]
    exact alike_subscribeLocalIpc h topic g.opens
  | publish largeBlob topic => exact alike_publish h largeBlob topic g
  | publishRaw topic => exact alike_publish h false topic g
  | publishImage topic len =>
    simp only [ApiCall.named, hnone, Session.step, Py.RelinkNode.step]
    split
    · exact h
    · exact hstarted
  | publishCompressedImage topic len =>
    simp only [ApiCall.named, hnone, Session.step, Py.RelinkNode.step]
    split
    · exact h
    · exact hstarted
  | spinOnce =>
    simp only [ApiCall.named, hnone]
    exact hstarted

end

/-! ### The snapshot -/

theorem listed_leftover {topics : List UInt32} {topic : UInt32} :
    Listed (leftover topics) topic ↔ topic ∈ topics := by
  simp only [Listed, mem_leftover, exists_and_left, exists_eq', and_true]

theorem listed_byTransport {topics : List UInt32} {own : UInt32 → Option Nat} {topic : UInt32} :
    Listed (byTransport topics own) topic ↔ topic ∈ topics := by
  simp only [Listed, mem_byTransport, exists_and_left, exists_eq', and_true]

/-- Every declared topic is in a group. -/
theorem listed_topicGroups (w : RelinkNode H) (topic : UInt32) :
    Listed w.topicGroups topic ↔ topic ∈ w.declared := by
  unfold RelinkNode.topicGroups
  simp only
  split
  · rw [listed_byTransport, ExtTreeSet.mem_toList]
  · rw [listed_leftover, ExtTreeSet.mem_toList]

theorem Py.listed_topicGroups (p : Py.RelinkNode H) (topic : UInt32) :
    Listed p.topicGroups topic ↔ topic ∈ p.declared := by
  unfold Py.RelinkNode.topicGroups
  simp only
  split
  · rw [listed_byTransport, ExtTreeSet.mem_toList]
  · rw [listed_leftover, ExtTreeSet.mem_toList]

theorem ensureStarted_announced (w : Session H) (starts : Bool) :
    (w.ensureStarted starts).1.announced =
      w.announced.or (if starts then some w.node.topicGroups else none) := by
  unfold Session.ensureStarted
  cases hannounced : w.announced with
  | some groups => simp [hannounced]
  | none => cases starts <;> simp [hannounced]

theorem Py.ensureStarted_announced (p : Py.RelinkNode H) (starts : Bool) :
    (p.ensureStarted starts).1.announced =
      p.announced.or (if starts then some p.topicGroups else none) := by
  unfold Py.RelinkNode.ensureStarted
  cases hannounced : p.announced with
  | some groups => simp [hannounced]
  | none => cases starts <;> simp [hannounced]

theorem publish_announced (w : Session H) (largeBlob : Bool) (topic : UInt32) (g : Granted) :
    (w.publish largeBlob topic g).announced = (w.ensureStarted g.starts).1.announced := by
  unfold Session.publish
  rcases w.ensureStarted g.starts with ⟨w', _ | _⟩ <;> rfl

theorem Py.publish_announced (p : Py.RelinkNode H) (largeBlob : Bool) (topic : UInt32) (g : Granted) :
    (p.publish largeBlob topic g).announced =
      ((p.addAdvertised topic).ensureStarted g.starts).1.announced := by
  unfold Py.RelinkNode.publish
  rcases (p.addAdvertised topic).ensureStarted g.starts with ⟨p', _ | _⟩
  · rfl
  · cases largeBlob with
    | true => rfl
    | false => exact (Py.transportFor_untouched p' topic g.binds).announced

theorem Py.advertise_announced (p : Py.RelinkNode H) (largeBlob : Bool) (topic : UInt32) (pair : Bool)
    (pairId : UInt32) (binds : Bool) :
    (p.advertise largeBlob topic pair pairId binds).announced = p.announced := by
  have huntouched := Py.pairedTransport_untouched p topic pair pairId binds
  unfold Py.RelinkNode.advertise
  split
  · rfl
  · rcases hr : p.pairedTransport topic pair pairId binds with ⟨q, _ | _⟩ <;> rw [hr] at huntouched
    · exact huntouched.announced
    · exact huntouched.announced

theorem Py.declare_announced (p : Py.RelinkNode H) (call : Call H) (binds : Bool) :
    (p.declare binds call).announced = p.announced := by
  cases call with
  | advertise largeBlob topic pair pairId => exact Py.advertise_announced p ..
  | subscribe largeBlob topic callback pair pairId =>
    have huntouched := Py.pairedTransport_untouched (p.addSubscribed topic) topic pair pairId binds
    simp only [Py.RelinkNode.declare, Py.RelinkNode.subscribe]
    split
    · rfl
    · rcases hr : (p.addSubscribed topic).pairedTransport topic pair pairId binds with ⟨q, _ | _⟩ <;>
        rw [hr] at huntouched
      · exact huntouched.announced
      · exact huntouched.announced
  | advertiseRaw topic pair pairId => exact Py.advertise_announced p ..
  | subscribeRaw topic callback pair pairId =>
    have huntouched := Py.pairedTransport_untouched p topic pair pairId binds
    simp only [Py.RelinkNode.declare, Py.RelinkNode.subscribeRaw]
    rcases hr : p.pairedTransport topic pair pairId binds with ⟨q, _ | _⟩ <;> rw [hr] at huntouched
    · exact huntouched.announced
    · exact huntouched.announced
  | advertiseImage topic => rfl
  | subscribeImage topic callback => rfl
  | advertiseCompressedImage topic => rfl
  | subscribeCompressedImage topic callback => rfl

theorem Py.openRing_announced (p : Py.RelinkNode H) (topic : UInt32) (opens : Bool) :
    (p.openRing topic opens).announced = p.announced := by
  unfold Py.RelinkNode.openRing
  split
  · rfl
  · split <;> rfl

theorem openRing_announced (w : Session H) (topic : UInt32) (opens : Bool) :
    (w.openRing topic opens).announced = w.announced := by
  unfold Session.openRing
  split
  · rfl
  · split <;> rfl

/-- The snapshot is taken once, of what the C++ node has declared before the call. -/
theorem step_announced (w : Session H) (e : ApiCall H × Granted) :
    (w.step e).announced =
      w.announced.or (if e.1.starts ∧ e.2.starts then some w.node.topicGroups else none) := by
  obtain ⟨call, g⟩ := e
  cases call with
  | declare call => simp [Session.step, ApiCall.starts]
  | advertiseLocalIpc topic => simp [Session.step, ApiCall.starts, openRing_announced]
  | subscribeLocalIpc topic => simp [Session.step, ApiCall.starts, openRing_announced]
  | publish largeBlob topic =>
    simp [Session.step, ApiCall.starts, publish_announced, ensureStarted_announced]
  | publishRaw topic =>
    simp [Session.step, ApiCall.starts, publish_announced, ensureStarted_announced]
  | publishImage topic len =>
    by_cases hlen : kMaxImageBytes < len
    · simp [Session.step, ApiCall.starts, hlen, Nat.not_le.mpr hlen]
    · simp [Session.step, ApiCall.starts, hlen, Nat.not_lt.mp hlen, ensureStarted_announced]
  | publishCompressedImage topic len =>
    by_cases hlen : kMaxCompressedImageBytes < len
    · simp [Session.step, ApiCall.starts, hlen, Nat.not_le.mpr hlen]
    · simp [Session.step, ApiCall.starts, hlen, Nat.not_lt.mp hlen, ensureStarted_announced]
  | spinOnce => simp [Session.step, ApiCall.starts, ensureStarted_announced]

/-- The Python node counts the topic of the call that starts it. -/
theorem Py.step_announced (p : Py.RelinkNode H) (e : ApiCall H × Granted) :
    ∃ groups, (p.step e).announced =
        p.announced.or (if e.1.starts ∧ e.2.starts then some groups else none) ∧
      (e.1.starts → ∀ topic, Listed groups topic ↔ topic ∈ p.declared ∨ topic ∈ e.1.named.toList) := by
  have hplain : ∀ topic, Listed p.topicGroups topic ↔
      topic ∈ p.declared ∨ topic ∈ (none : Option UInt32).toList := fun topic =>
    (Py.listed_topicGroups p topic).trans (by simp)
  have hnamed : ∀ named topic, Listed (p.addAdvertised named).topicGroups topic ↔
      topic ∈ p.declared ∨ topic ∈ (some named).toList := fun named topic => by
    rw [Py.listed_topicGroups, Py.RelinkNode.addAdvertised, mem_insert, or_comm]
    simp
  obtain ⟨call, g⟩ := e
  cases call with
  | declare call =>
    exact ⟨[], by simp [Py.RelinkNode.step, ApiCall.starts, Py.declare_announced],
      fun h => by cases h⟩
  | advertiseLocalIpc topic =>
    exact ⟨[], by simp [Py.RelinkNode.step, ApiCall.starts, Py.openRing_announced],
      fun h => by cases h⟩
  | subscribeLocalIpc topic =>
    refine ⟨[], ?_, fun h => by cases h⟩
    simp only [Py.RelinkNode.step, Py.RelinkNode.subscribeLocalIpc]
    split <;> simp [ApiCall.starts, Py.openRing_announced]
  | publish largeBlob topic =>
    refine ⟨(p.addAdvertised topic).topicGroups, ?_, fun _ => hnamed topic⟩
    simp [Py.RelinkNode.step, ApiCall.starts, Py.publish_announced, Py.ensureStarted_announced,
      Py.RelinkNode.addAdvertised]
  | publishRaw topic =>
    refine ⟨(p.addAdvertised topic).topicGroups, ?_, fun _ => hnamed topic⟩
    simp [Py.RelinkNode.step, ApiCall.starts, Py.publish_announced, Py.ensureStarted_announced,
      Py.RelinkNode.addAdvertised]
  | publishImage topic len =>
    refine ⟨p.topicGroups, ?_, fun _ => hplain⟩
    by_cases hlen : kMaxImageBytes < len
    · simp [Py.RelinkNode.step, ApiCall.starts, hlen, Nat.not_le.mpr hlen]
    · simp [Py.RelinkNode.step, ApiCall.starts, hlen, Nat.not_lt.mp hlen, Py.ensureStarted_announced]
  | publishCompressedImage topic len =>
    refine ⟨p.topicGroups, ?_, fun _ => hplain⟩
    by_cases hlen : kMaxCompressedImageBytes < len
    · simp [Py.RelinkNode.step, ApiCall.starts, hlen, Nat.not_le.mpr hlen]
    · simp [Py.RelinkNode.step, ApiCall.starts, hlen, Nat.not_lt.mp hlen, Py.ensureStarted_announced]
  | spinOnce =>
    exact ⟨p.topicGroups, by simp [Py.RelinkNode.step, ApiCall.starts, Py.ensureStarted_announced],
      fun _ => hplain⟩

/-! ### Whole runs -/

/-- What was announced stays. -/
theorem run_announced (calls : List (ApiCall H × Granted)) (w : Session H) (p : Py.RelinkNode H)
    {groups groups' : List (TransportId × List UInt32)} (hw : w.announced = some groups)
    (hp : p.announced = some groups') :
    (calls.foldl Session.step w).announced = some groups ∧
      (calls.foldl Py.RelinkNode.step p).announced = some groups' := by
  induction calls generalizing w p with
  | nil => exact ⟨hw, hp⟩
  | cons e rest ih =>
    refine ih _ _ ?_ ?_
    · rw [step_announced, hw, Option.some_or]
    · obtain ⟨_, hstep, _⟩ := Py.step_announced p e
      rw [hstep, hp, Option.some_or]

theorem sameTopics_run {w : Session H} {named : List UInt32} (h : Alike w p named)
    (hstart : w.announced = none) (calls : List (ApiCall H × Granted)) :
    SameTopics (calls.foldl Session.step w).announced (calls.foldl Py.RelinkNode.step p).announced ↔
      DeclaredInTime w named calls := by
  induction calls generalizing w p named with
  | nil =>
    have hp : p.announced = none := by
      rw [← Option.not_isSome_iff_eq_none, h.announced, hstart]
      exact Bool.false_ne_true
    rw [List.foldl_nil, List.foldl_nil, hstart, hp]
    exact iff_of_true ⟨Iff.rfl, fun _ => Iff.rfl⟩ trivial
  | cons e rest ih =>
    have hp : p.announced = none := by
      rw [← Option.not_isSome_iff_eq_none, h.announced, hstart]
      exact Bool.false_ne_true
    obtain ⟨groups, hpstep, hgroups⟩ := Py.step_announced p e
    have hwstep := step_announced w e
    rw [hp, Option.none_or] at hpstep
    rw [hstart, Option.none_or] at hwstep
    rw [List.foldl_cons, List.foldl_cons, DeclaredInTime]
    by_cases hstarts : e.1.starts ∧ e.2.starts
    · rw [if_pos hstarts] at hpstep hwstep ⊢
      obtain ⟨hw', hp'⟩ := run_announced rest _ _ hwstep hpstep
      rw [hw', hp']
      -- both nodes take their snapshot here
      simp only [SameTopics, Option.isSome_some, true_and, Option.getD_some, listed_topicGroups,
        hgroups hstarts.1, h.declared, List.mem_append]
      refine forall_congr' fun topic => ?_
      constructor
      · exact fun hsame hmem => hsame.mpr (hmem.imp Or.inr id)
      · exact fun hmem => ⟨fun hdeclared => Or.inl (Or.inl hdeclared), fun hany => by
          rcases hany with (hdeclared | hnamed) | hnamed
          · exact hdeclared
          · exact hmem (Or.inl hnamed)
          · exact hmem (Or.inr hnamed)⟩
    · rw [if_neg hstarts] at hpstep hwstep ⊢
      exact ih (alike_step h e) hwstep

/-- **Both builds announce the same topics** after the same calls exactly if, when a call starts the
node, the topics that `publish`, `publish_raw` and `subscribe<T>` named up to then are declared. -/
theorem same_topics_iff (multiplex : Bool) (calls : List (ApiCall H × Granted)) :
    SameTopics (calls.foldl Session.step ⟨{multiplex}, ∅, none⟩).announced
        (calls.foldl Py.RelinkNode.step {multiplex}).announced ↔
      DeclaredInTime ⟨{multiplex}, ∅, none⟩ [] calls := by
  refine sameTopics_run ⟨⟨rfl, rfl, fun key => ?_, rfl⟩, rfl, fun topic => ?_, rfl⟩ rfl calls
  · exact ExtTreeMap.getElem?_empty.symm
  · exact (or_iff_left List.not_mem_nil).symm

end

/-! ### A publish that starts the node -/

/-- Topic 7 was not declared. -/
def publishFirst : List (ApiCall Unit × Granted) := [(.publishRaw 7, ⟨true, true, true⟩)]

/-- The Python build announces topic 7, the C++ build nothing. -/
theorem publishFirst_differs :
    ¬ SameTopics (publishFirst.foldl Session.step ⟨{}, ∅, none⟩).announced
      (publishFirst.foldl Py.RelinkNode.step {}).announced := by
  intro h
  have hcpp : ((publishFirst.foldl Session.step ⟨{}, ∅, none⟩).announced).getD [] = [] := by
    decide +kernel
  have hpython : ((publishFirst.foldl Py.RelinkNode.step {}).announced).getD [] = [(.shared, [7])] := by
    decide +kernel
  have hlisted := (h.2 7).mpr (by rw [hpython]; exact ⟨.shared, [7], by simp, by simp⟩)
  rw [hcpp] at hlisted
  obtain ⟨_, _, hmem, _⟩ := hlisted
  cases hmem

end Relink.Node
