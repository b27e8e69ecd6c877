import Std.Data.ExtTreeMap
import Std.Data.ExtTreeSet
import Mathlib.Data.List.Dedup
import Mathlib.Data.List.Induction
import Relink.Library.Run

/-! Where a node's topics live.

With `set_multiplex(false)` every topic that is no image gets a transport of its own, or shares one
with the topics of its pair; images stay on the node's shared transport. A transport is found again
through the topic's group key, at each later declaration and when `ensure_started` gathers the
topics it announces with each port. `announced_port_iff` says between which declarations a topic
stays where it is. -/
namespace Relink.Node
open Std (ExtTreeMap ExtTreeSet)

/-! ### The node -/

/-- A node's transports: `transport_`, and those it opened for topics, in that order. -/
inductive TransportId where
  | shared
  | own (n : Nat)
deriving DecidableEq, Repr

structure RelinkNode (H : Type) where
  multiplex : Bool := true
  topicPairId : ExtTreeMap UInt32 UInt32 := ∅
  topicTransports : ExtTreeMap UInt64 Nat := ∅
  opened : Nat := 0
  handlers : TransportId → ExtTreeMap UInt32 H := fun _ => ∅
  declared : ExtTreeSet UInt32 := ∅
  advertised : ExtTreeSet UInt32 := ∅
  subscribed : ExtTreeSet UInt32 := ∅

/-- The public declarations, with `T` an image's chunk type or not. -/
inductive Call (H : Type) where
  | advertise (largeBlob : Bool) (topic : UInt32) (pair : Bool) (pairId : UInt32)
  | subscribe (largeBlob : Bool) (topic : UInt32) (callback : H) (pair : Bool) (pairId : UInt32)
  | advertiseRaw (topic : UInt32) (pair : Bool) (pairId : UInt32)
  | subscribeRaw (topic : UInt32) (callback : H) (pair : Bool) (pairId : UInt32)
  | advertiseImage (topic : UInt32)
  | subscribeImage (topic : UInt32) (callback : H)
  | advertiseCompressedImage (topic : UInt32)
  | subscribeCompressedImage (topic : UInt32) (callback : H)

/-- What a declaration comes to: on a transport found by its pairing, or on the shared one;
a subscription has a handler. -/
structure Declaration (H : Type) where
  topic : UInt32
  pairing : Option (Bool × UInt32)
  handler : Option H

section
variable {H : Type}

def Call.declaration : Call H → Declaration H
  | .advertise largeBlob topic pair pairId =>
    ⟨topic, if largeBlob then none else some (pair, pairId), none⟩
  | .subscribe largeBlob topic callback pair pairId =>
    ⟨topic, if largeBlob then none else some (pair, pairId), some callback⟩
  | .advertiseRaw topic pair pairId => ⟨topic, some (pair, pairId), none⟩
  | .subscribeRaw topic callback pair pairId => ⟨topic, some (pair, pairId), some callback⟩
  | .advertiseImage topic => ⟨topic, none, none⟩
  | .subscribeImage topic callback => ⟨topic, none, some callback⟩
  | .advertiseCompressedImage topic => ⟨topic, none, none⟩
  | .subscribeCompressedImage topic callback => ⟨topic, none, some callback⟩

def kPairKeyTag : UInt64 := (1 : UInt64) <<< 32

/-- A group for the shared transport, if it has a topic. -/
def leftover (topics : List UInt32) : List (TransportId × List UInt32) :=
  if topics = [] then [] else [(.shared, topics)]

/-- Topics by the transport of their own that they have, and those that have none. -/
def byTransport (topics : List UInt32) (own : UInt32 → Option Nat) :
    List (TransportId × List UInt32) :=
  (topics.filterMap own).dedup.map (fun n =>
    (.own n, topics.filter fun topic => own topic = some n)) ++
    leftover (topics.filter fun topic => own topic = none)

def pairKey (pairId : UInt32) : UInt64 := kPairKeyTag ||| pairId.toUInt64

namespace RelinkNode
variable (w : RelinkNode H)

/-- `group_key_locked`. -/
def groupKey (topic : UInt32) : UInt64 :=
  match w.topicPairId[topic]? with
  | some pairId => pairKey pairId
  | none => topic.toUInt64

/-- `register_pair`; nothing if it throws. A topic without a pair may get one at any time. -/
def registerPair (topic : UInt32) (pair : Bool) (pairId : UInt32) : Option (RelinkNode H) :=
  match w.topicPairId[topic]? with
  | some known =>
    if pair = false ∨ known ≠ pairId then none
    else some {w with topicPairId := w.topicPairId.insert topic pairId}
  | none =>
    if pair then some {w with topicPairId := w.topicPairId.insert topic pairId} else some w

/-- A new transport, bound to a port of its own. -/
def openTransport (key : UInt64) : RelinkNode H :=
  {w with topicTransports := w.topicTransports.insert key w.opened, opened := w.opened + 1}

/-- `transport_for`, which throws if it has to open a transport and cannot bind. -/
def transportFor (topic : UInt32) (binds : Bool) : RelinkNode H × Option TransportId :=
  if w.multiplex then (w, some .shared)
  else match w.topicTransports[w.groupKey topic]? with
    | some n => (w, some (.own n))
    | none =>
      if binds then (w.openTransport (w.groupKey topic), some (.own w.opened)) else (w, none)

/-- The bookkeeping of a declaration and its `set_topic_handler`. -/
def install (topic : UInt32) (handler : Option H) (t : TransportId) : RelinkNode H :=
  match handler with
  | none =>
    {w with declared := w.declared.insert topic, advertised := w.advertised.insert topic}
  | some callback =>
    { w with
      declared := w.declared.insert topic
      subscribed := w.subscribed.insert topic
      handlers := Function.update w.handlers t ((w.handlers t).insert topic callback) }

/-- What is left of a call that throws on the way is what it had recorded. -/
def declare (d : Declaration H) (binds : Bool) : RelinkNode H :=
  match d.pairing with
  | none => w.install d.topic d.handler .shared
  | some (pair, pairId) =>
    match w.registerPair d.topic pair pairId with
    | none => w
    | some w =>
      match w.transportFor d.topic binds with
      | (w, none) => w
      | (w, some t) => w.install d.topic d.handler t

/-- A call, and whether a socket can be bound for it. -/
def step (e : Call H × Bool) : RelinkNode H := w.declare e.1.declaration e.2

/-- The groups of `ensure_started`: every transport with the topics it is announced for. -/
def topicGroups : List (TransportId × List UInt32) :=
  let topics := w.declared.toList
  if !w.multiplex && !w.topicTransports.isEmpty then
    byTransport topics fun topic => w.topicTransports[w.groupKey topic]?
  else leftover topics

/-- `ensure_started` registers or beacons the topic with this transport's port. -/
def Announces (topic : UInt32) (t : TransportId) : Prop :=
  ∃ topics, (t, topics) ∈ w.topicGroups ∧ topic ∈ topics

/-- Where a group key leads. -/
def transportOf (key : UInt64) : TransportId := (w.topicTransports[key]?).elim .shared .own

def route (topic : UInt32) : TransportId := w.transportOf (w.groupKey topic)

end RelinkNode

/-- The run of a node with `set_multiplex(false)`. -/
def run (calls : List (Call H × Bool)) : RelinkNode H :=
  calls.foldl RelinkNode.step {multiplex := false}

/-! ### Handlers on the announced port, and steady declarations -/

/-- After any part of the run, every handler of a topic is on the transport that the topic would be
announced with, and this is the same one after any longer part. -/
def AnnouncedPort (calls : List (Call H × Bool)) : Prop :=
  ∀ before, before <+: calls →
    (∀ t topic, topic ∈ (run before).handlers t → (run before).Announces topic t) ∧
    ∀ after, after <+: calls → before <+: after →
      ∀ t topic, (run before).Announces topic t → (run after).Announces topic t

/-- The key that `transport_for` looks a topic up by, after `register_pair`. -/
def RelinkNode.keyFor (w : RelinkNode H) (topic : UInt32) (pair : Bool) (pairId : UInt32) : UInt64 :=
  if pair then pairKey pairId else w.groupKey topic

/-- An image is subscribed to only where its topic's key has no transport. A declaration that
`register_pair` accepts gives a declared topic another key only if neither key has a transport and
none is opened; and it opens one only for a key that no declared topic has. -/
def Steady (w : RelinkNode H) (d : Declaration H) (binds : Bool) : Prop :=
  match d.pairing with
  | none => d.handler.isSome → w.groupKey d.topic ∉ w.topicTransports
  | some (pair, pairId) => (w.registerPair d.topic pair pairId).isSome →
      (d.topic ∈ w.declared → w.keyFor d.topic pair pairId ≠ w.groupKey d.topic →
        w.groupKey d.topic ∉ w.topicTransports ∧
          w.keyFor d.topic pair pairId ∉ w.topicTransports ∧ binds = false) ∧
      (w.keyFor d.topic pair pairId ∉ w.topicTransports → binds = true →
        ∀ topic ∈ w.declared, w.groupKey topic ≠ w.keyFor d.topic pair pairId)

/-- Every key has its own transport, and handlers are of declared topics. -/
structure Valid (w : RelinkNode H) : Prop where
  multiplex : w.multiplex = false
  fresh : ∀ (key : UInt64) n, w.topicTransports[key]? = some n → n < w.opened
  distinct : ∀ (key key' : UInt64) n, w.topicTransports[key]? = some n →
    w.topicTransports[key']? = some n → key = key'
  handled : ∀ t topic, topic ∈ w.handlers t → topic ∈ w.declared

/-- Handlers are where their topics' keys lead. -/
def Placed (w : RelinkNode H) : Prop := ∀ t topic, topic ∈ w.handlers t → w.route topic = t

def Keeps (w w' : RelinkNode H) : Prop := ∀ topic ∈ w.declared, w'.route topic = w.route topic

/-! ### What is announced -/

variable {w w' : RelinkNode H} {topic : UInt32} {t : TransportId}

theorem elim_own {own : Option Nat} {n : Nat} :
    own.elim TransportId.shared .own = .own n ↔ own = some n := by
  cases own <;> simp

theorem elim_shared {own : Option Nat} : own.elim TransportId.shared .own = .shared ↔ own = none := by
  cases own <;> simp

theorem transportOf_own {key : UInt64} {n : Nat} :
    w.transportOf key = .own n ↔ w.topicTransports[key]? = some n := elim_own

theorem getElem?_none {key : UInt64} :
    w.topicTransports[key]? = none ↔ key ∉ w.topicTransports := by
  rw [ExtTreeMap.mem_iff_isSome_getElem?, Option.not_isSome_iff_eq_none]

theorem transportOf_shared {key : UInt64} :
    w.transportOf key = .shared ↔ key ∉ w.topicTransports := by
  rw [← getElem?_none]
  exact elim_shared

/-- No other key leads to the same transport. -/
theorem transportOf_inj (hw : Valid w) {key key' : UInt64} (hbound : key ∈ w.topicTransports) :
    w.transportOf key = w.transportOf key' ↔ key = key' := by
  constructor
  · intro heq
    obtain ⟨n, hn⟩ := Option.isSome_iff_exists.mp (ExtTreeMap.mem_iff_isSome_getElem?.mp hbound)
    rw [transportOf_own.mpr hn] at heq
    exact hw.distinct key key' n hn (transportOf_own.mp heq.symm)
  · exact fun heq => by rw [heq]

theorem mem_leftover {topics : List UInt32} :
    (∃ group, (t, group) ∈ leftover topics ∧ topic ∈ group) ↔ topic ∈ topics ∧ .shared = t := by
  unfold leftover
  by_cases hempty : topics = []
  · simp [hempty]
  · simp only [if_neg hempty, List.mem_singleton, Prod.mk.injEq]
    constructor
    · rintro ⟨group, ⟨rfl, rfl⟩, hmem⟩
      exact ⟨hmem, rfl⟩
    · rintro ⟨hmem, rfl⟩
      exact ⟨topics, ⟨rfl, rfl⟩, hmem⟩

/-- Every topic is in one group, that of its transport. -/
theorem mem_byTransport {topics : List UInt32} {own : UInt32 → Option Nat} :
    (∃ group, (t, group) ∈ byTransport topics own ∧ topic ∈ group) ↔
      topic ∈ topics ∧ (own topic).elim .shared .own = t := by
  simp only [byTransport, List.mem_append, or_and_right, exists_or]
  rw [mem_leftover, List.mem_filter, decide_eq_true_iff]
  simp only [List.mem_map, List.mem_dedup, List.mem_filterMap, Prod.mk.injEq]
  constructor
  · rintro (⟨group, ⟨n, _, rfl, rfl⟩, hmem⟩ | ⟨⟨hmem, hnone⟩, rfl⟩)
    · rw [List.mem_filter, decide_eq_true_iff] at hmem
      exact ⟨hmem.1, elim_own.mpr hmem.2⟩
    · exact ⟨hmem, elim_shared.mpr hnone⟩
  · rintro ⟨hmem, rfl⟩
    cases hown : own topic with
    | none => exact Or.inr ⟨⟨hmem, rfl⟩, rfl⟩
    | some n =>
      exact Or.inl ⟨_, ⟨n, ⟨topic, hmem, hown⟩, rfl, rfl⟩, List.mem_filter.mpr ⟨hmem, by simp [hown]⟩⟩

/-- A declared topic is announced with one transport, the one its key leads to. -/
theorem announces_iff (hmultiplex : w.multiplex = false) :
    w.Announces topic t ↔ topic ∈ w.declared ∧ w.route topic = t := by
  unfold RelinkNode.Announces RelinkNode.topicGroups
  simp only [hmultiplex, Bool.not_false, Bool.true_and]
  cases hempty : w.topicTransports.isEmpty with
  | true =>
    have hroute : w.route topic = .shared := by
      rw [RelinkNode.route, transportOf_shared, ExtTreeMap.isEmpty_iff.mp hempty]
      exact ExtTreeMap.not_mem_empty
    simp only [Bool.not_true, Bool.false_eq_true, if_false]
    rw [mem_leftover, ExtTreeSet.mem_toList, hroute]
  | false =>
    simp only [Bool.not_false, if_true]
    rw [mem_byTransport, ExtTreeSet.mem_toList]
    rfl

/-! ### One call -/

theorem registerPair_some {pair : Bool} {pairId : UInt32}
    (h : w.registerPair topic pair pairId = some w') :
    w' = {w with topicPairId := w'.topicPairId} ∧
      w'.groupKey topic = w.keyFor topic pair pairId ∧
      ∀ other, other ≠ topic → w'.groupKey other = w.groupKey other := by
  have hrecord : ∀ {w' : RelinkNode H},
      w' = {w with topicPairId := w.topicPairId.insert topic pairId} →
      w' = {w with topicPairId := w'.topicPairId} ∧ w'.groupKey topic = pairKey pairId ∧
        ∀ other, other ≠ topic → w'.groupKey other = w.groupKey other := by
    rintro w' rfl
    refine ⟨rfl, ?_, fun other hother => ?_⟩
    · simp only [RelinkNode.groupKey, ExtTreeMap.getElem?_insert_self]
    · have hne : ¬ compare topic other = .eq := fun heq =>
        hother (Std.compare_eq_iff_eq.mp heq).symm
      simp only [RelinkNode.groupKey, ExtTreeMap.getElem?_insert, if_neg hne]
  unfold RelinkNode.registerPair at h
  unfold RelinkNode.keyFor
  split at h
  · next known hknown =>
    split at h
    · cases h
    · next hsame =>
      have hpair : pair = true := by
        by_contra hunpaired
        exact hsame (Or.inl (by simpa using hunpaired))
      rw [if_pos hpair]
      exact hrecord (Option.some.inj h).symm
  · split at h
    · next hpair =>
      rw [if_pos hpair]
      exact hrecord (Option.some.inj h).symm
    · next hpair =>
      rw [if_neg hpair]
      cases h
      exact ⟨rfl, rfl, fun _ _ => rfl⟩

@[simp] theorem install_route (topic' : UInt32) (handler : Option H) (t : TransportId) :
    (w.install topic' handler t).route topic = w.route topic := by
  cases handler <;> rfl

@[simp] theorem mem_declared_install {topic' : UInt32} {handler : Option H} {t : TransportId} :
    topic ∈ (w.install topic' handler t).declared ↔ topic = topic' ∨ topic ∈ w.declared := by
  have hinsert : topic ∈ w.declared.insert topic' ↔ topic = topic' ∨ topic ∈ w.declared := by
    rw [ExtTreeSet.mem_insert, Std.compare_eq_iff_eq]
    exact or_congr_left eq_comm
  cases handler <;> exact hinsert

theorem mem_handlers_install {topic' : UInt32} {handler : Option H} {t' : TransportId} :
    topic ∈ (w.install topic' handler t').handlers t ↔
      handler.isSome ∧ t' = t ∧ topic' = topic ∨ topic ∈ w.handlers t := by
  cases handler with
  | none => simp [RelinkNode.install]
  | some callback =>
    by_cases ht : t' = t
    · subst ht
      simp only [RelinkNode.install, Function.update_self, ExtTreeMap.mem_insert,
        Std.compare_eq_iff_eq, Option.isSome_some, true_and]
    · simp only [RelinkNode.install, Function.update_of_ne (Ne.symm ht), ht, false_and, and_false,
        false_or]

/-- Of a call that ends with its bookkeeping: handlers stay where they belong if no topic moves and
the new one is installed where its topic is announced. -/
theorem settled_install (hw : Valid w) (hplaced : Placed w) {w₁ : RelinkNode H}
    (hhandlers : w₁.handlers = w.handlers) {handler : Option H} :
    (Keeps w (w₁.install topic handler t) ∧ Placed (w₁.install topic handler t)) ↔
      Keeps w w₁ ∧ (handler.isSome → w₁.route topic = t) := by
  have hkeeps : Keeps w (w₁.install topic handler t) ↔ Keeps w w₁ := by
    simp only [Keeps, install_route]
  rw [hkeeps]
  refine and_congr_right fun hkept => ?_
  simp only [Placed, install_route, mem_handlers_install, hhandlers]
  constructor
  · exact fun h hsome => h t topic (Or.inl ⟨hsome, rfl, rfl⟩)
  · rintro h t' topic' (⟨hsome, rfl, rfl⟩ | hmem)
    · exact h hsome
    · rw [hkept topic' (hw.handled t' topic' hmem)]
      exact hplaced t' topic' hmem

/-- What a call comes to that `register_pair` accepts. -/
theorem declare_cases (hw : Valid w) {d : Declaration H} (binds : Bool) {pair : Bool}
    {pairId : UInt32} (hpairing : d.pairing = some (pair, pairId))
    (hreg : w.registerPair d.topic pair pairId = some w') :
    (∃ n, w.topicTransports[w.keyFor d.topic pair pairId]? = some n ∧
      w.declare d binds = w'.install d.topic d.handler (.own n)) ∨
    (w.keyFor d.topic pair pairId ∉ w.topicTransports ∧ binds = true ∧
      w.declare d binds = (w'.openTransport (w.keyFor d.topic pair pairId)).install d.topic d.handler
        (.own w.opened)) ∨
    (w.keyFor d.topic pair pairId ∉ w.topicTransports ∧ binds = false ∧ w.declare d binds = w') := by
  obtain ⟨hw', hkey, _⟩ := registerPair_some hreg
  have hmultiplex : w'.multiplex = false := by rw [hw']; exact hw.multiplex
  have htransports : w'.topicTransports = w.topicTransports := by rw [hw']
  have hopened : w'.opened = w.opened := by rw [hw']
  simp only [RelinkNode.declare, hpairing, hreg, RelinkNode.transportFor, hmultiplex,
    Bool.false_eq_true, if_false, hkey, htransports, hopened]
  cases hbound : w.topicTransports[w.keyFor d.topic pair pairId]? with
  | some n => exact Or.inl ⟨n, rfl, rfl⟩
  | none =>
    have hunbound : w.keyFor d.topic pair pairId ∉ w.topicTransports := by
      rw [ExtTreeMap.mem_iff_isSome_getElem?, hbound]
      exact Bool.false_ne_true
    cases binds with
    | true => exact Or.inr (Or.inl ⟨hunbound, rfl, rfl⟩)
    | false => exact Or.inr (Or.inr ⟨hunbound, rfl, rfl⟩)

/-- After a pairing only the topic's own route may differ. -/
theorem keeps_registerPair {pair : Bool} {pairId : UInt32}
    (hreg : w.registerPair topic pair pairId = some w') :
    Keeps w w' ↔ (topic ∈ w.declared →
      w.transportOf (w.keyFor topic pair pairId) = w.transportOf (w.groupKey topic)) := by
  obtain ⟨hw', hkey, hothers⟩ := registerPair_some hreg
  have htransports : ∀ key, w'.transportOf key = w.transportOf key := by
    rw [hw']
    exact fun _ => rfl
  constructor
  · intro hkeeps hdeclared
    have hsame := hkeeps topic hdeclared
    rwa [RelinkNode.route, hkey, htransports] at hsame
  · intro hsame other hdeclared
    by_cases hother : other = topic
    · subst hother
      rw [RelinkNode.route, hkey, htransports]
      exact hsame hdeclared
    · rw [RelinkNode.route, hothers other hother, htransports]
      rfl

/-- A new transport moves the topics that have its key. -/
theorem keeps_open (hw : Valid w) {pair : Bool} {pairId : UInt32}
    (hreg : w.registerPair topic pair pairId = some w')
    (hunbound : w.keyFor topic pair pairId ∉ w.topicTransports) :
    (w'.openTransport (w.keyFor topic pair pairId)).route topic = .own w.opened ∧
      (Keeps w (w'.openTransport (w.keyFor topic pair pairId)) ↔ topic ∉ w.declared ∧
        ∀ other ∈ w.declared, w.groupKey other ≠ w.keyFor topic pair pairId) := by
  obtain ⟨hw', hkey, hothers⟩ := registerPair_some hreg
  have htransports : w'.topicTransports = w.topicTransports := by rw [hw']
  have hopened : w'.opened = w.opened := by rw [hw']
  generalize hw₂ : w'.openTransport (w.keyFor topic pair pairId) = w₂
  have hgroupKey : ∀ other, w₂.groupKey other = w'.groupKey other := by
    rw [← hw₂]
    exact fun _ => rfl
  have hnew : w₂.transportOf (w.keyFor topic pair pairId) = .own w.opened := by
    rw [transportOf_own, ← hw₂, ← hopened]
    exact ExtTreeMap.getElem?_insert_self
  have hold : ∀ key, key ≠ w.keyFor topic pair pairId → w₂.transportOf key = w.transportOf key := by
    intro key hne
    simp only [RelinkNode.transportOf, ← hw₂, RelinkNode.openTransport, htransports,
      ExtTreeMap.getElem?_insert, Std.compare_eq_iff_eq, if_neg (Ne.symm hne)]
  have htopic : w₂.route topic = .own w.opened := by
    rw [RelinkNode.route, hgroupKey, hkey, hnew]
  refine ⟨htopic, fun hkeeps => ⟨fun hdeclared => ?_, fun other hdeclared hsame => ?_⟩, ?_⟩
  · -- the topic was led elsewhere: no key led to the new transport
    have hroute := hkeeps topic hdeclared
    rw [htopic] at hroute
    exact absurd (hw.fresh _ _ (transportOf_own.mp hroute.symm)) (Nat.lt_irrefl _)
  · have hroute := hkeeps other hdeclared
    rw [RelinkNode.route, RelinkNode.route, hsame, transportOf_shared.mpr hunbound, hgroupKey] at hroute
    by_cases hother : other = topic
    · subst hother
      rw [hkey, hnew] at hroute
      cases hroute
    · rw [hothers other hother, hsame, hnew] at hroute
      cases hroute
  · rintro ⟨hundeclared, hkeys⟩ other hdeclared
    have hother : other ≠ topic := fun heq => hundeclared (heq ▸ hdeclared)
    rw [RelinkNode.route, hgroupKey, hothers other hother, hold _ (hkeys other hdeclared)]
    rfl

/-- Where the topic joins a transport that is there, it has to be its own. -/
theorem settled_join (hw : Valid w) (hplaced : Placed w) {pair : Bool} {pairId : UInt32}
    (hreg : w.registerPair topic pair pairId = some w') {n : Nat}
    (hbound : w.topicTransports[w.keyFor topic pair pairId]? = some n) (handler : Option H) :
    (Keeps w (w'.install topic handler (.own n)) ∧ Placed (w'.install topic handler (.own n))) ↔
      (topic ∈ w.declared → w.keyFor topic pair pairId = w.groupKey topic) := by
  obtain ⟨hw', hkey, _⟩ := registerPair_some hreg
  have hhandlers : w'.handlers = w.handlers := by rw [hw']
  have htransports : ∀ key, w'.transportOf key = w.transportOf key := by
    rw [hw']
    exact fun _ => rfl
  have hmem : w.keyFor topic pair pairId ∈ w.topicTransports := by
    rw [ExtTreeMap.mem_iff_isSome_getElem?, hbound]
    rfl
  have hroute : w'.route topic = .own n := by
    rw [RelinkNode.route, hkey, htransports, transportOf_own.mpr hbound]
  rw [settled_install hw hplaced hhandlers, keeps_registerPair hreg, transportOf_inj hw hmem]
  exact and_iff_left fun _ => hroute

/-- Where it gets a new one, no declared topic may have the key. -/
theorem settled_open (hw : Valid w) (hplaced : Placed w) {pair : Bool} {pairId : UInt32}
    (hreg : w.registerPair topic pair pairId = some w')
    (hunbound : w.keyFor topic pair pairId ∉ w.topicTransports) (handler : Option H) {w₂ : RelinkNode H}
    (hopen : w₂ = (w'.openTransport (w.keyFor topic pair pairId)).install topic handler
      (.own w.opened)) :
    (Keeps w w₂ ∧ Placed w₂) ↔ topic ∉ w.declared ∧
      ∀ other ∈ w.declared, w.groupKey other ≠ w.keyFor topic pair pairId := by
  obtain ⟨hw', _, _⟩ := registerPair_some hreg
  obtain ⟨hroute, hkeeps⟩ := keeps_open hw hreg hunbound
  have hhandlers : (w'.openTransport (w.keyFor topic pair pairId)).handlers = w.handlers := by
    rw [hw']
    rfl
  rw [hopen, settled_install hw hplaced hhandlers, hkeeps]
  exact and_iff_left fun _ => hroute

/-- Where the call throws, its pairing stays. -/
theorem settled_throw (hw : Valid w) (hplaced : Placed w) {pair : Bool} {pairId : UInt32}
    (hreg : w.registerPair topic pair pairId = some w')
    (hunbound : w.keyFor topic pair pairId ∉ w.topicTransports) :
    (Keeps w w' ∧ Placed w') ↔ (topic ∈ w.declared → w.groupKey topic ∉ w.topicTransports) := by
  obtain ⟨hw', _, _⟩ := registerPair_some hreg
  have hhandlers : w'.handlers = w.handlers := by rw [hw']
  have hplaced' : Keeps w w' → Placed w' := by
    intro hkeeps t other hmem
    rw [hhandlers] at hmem
    rw [hkeeps other (hw.handled t other hmem)]
    exact hplaced t other hmem
  rw [and_iff_left_of_imp hplaced', keeps_registerPair hreg, transportOf_shared.mpr hunbound,
    eq_comm, transportOf_shared]

/-- **One call** keeps what matters exactly if it is steady. -/
theorem settled_declare (hw : Valid w) (hplaced : Placed w) (d : Declaration H) (binds : Bool) :
    (Keeps w (w.declare d binds) ∧ Placed (w.declare d binds)) ↔ Steady w d binds := by
  cases hpairing : d.pairing with
  | none =>
    have hdeclare : w.declare d binds = w.install d.topic d.handler .shared := by
      simp only [RelinkNode.declare, hpairing]
    rw [hdeclare, settled_install hw hplaced rfl, Steady, hpairing]
    simp only [RelinkNode.route, transportOf_shared]
    exact and_iff_right fun _ _ => rfl
  | some p =>
    obtain ⟨pair, pairId⟩ := p
    rw [Steady, hpairing]
    simp only
    cases hreg : w.registerPair d.topic pair pairId with
    | none =>
      have hdeclare : w.declare d binds = w := by
        simp only [RelinkNode.declare, hpairing, hreg]
      rw [hdeclare]
      exact iff_of_true ⟨fun _ _ => rfl, hplaced⟩ fun h => (by cases h)
    | some w' =>
      simp only [Option.isSome_some, true_imp_iff]
      obtain ⟨n, hbound, hdeclare⟩ | ⟨hunbound, hbinds, hdeclare⟩ | ⟨hunbound, hbinds, hdeclare⟩ :=
        declare_cases hw binds hpairing hreg
      · have hmem : w.keyFor d.topic pair pairId ∈ w.topicTransports := by
          rw [ExtTreeMap.mem_iff_isSome_getElem?, hbound]
          rfl
        rw [hdeclare, settled_join hw hplaced hreg hbound]
        refine ⟨fun h => ⟨fun hdeclared hne => absurd (h hdeclared) hne, fun h => absurd hmem h⟩, ?_⟩
        rintro ⟨hsame, _⟩ hdeclared
        by_contra hne
        exact (hsame hdeclared hne).2.1 hmem
      · rw [settled_open hw hplaced hreg hunbound d.handler hdeclare]
        refine ⟨fun h => ⟨fun hdeclared => absurd hdeclared h.1, fun _ _ => h.2⟩, ?_⟩
        rintro ⟨hsame, hkeys⟩
        have hkeys := hkeys hunbound hbinds
        refine ⟨fun hdeclared => ?_, hkeys⟩
        have hclosed := (hsame hdeclared (hkeys d.topic hdeclared).symm).2.2
        rw [hbinds] at hclosed
        cases hclosed
      · rw [hdeclare, settled_throw hw hplaced hreg hunbound]
        refine ⟨fun h => ⟨fun hdeclared _ => ⟨h hdeclared, hunbound, hbinds⟩,
          fun _ hopens => by rw [hbinds] at hopens; cases hopens⟩, ?_⟩
        rintro ⟨hsame, _⟩ hdeclared
        by_cases hne : w.keyFor d.topic pair pairId = w.groupKey d.topic
        · rwa [← hne]
        · exact (hsame hdeclared hne).1

theorem valid_install (hw : Valid w) (handler : Option H) (t : TransportId) :
    Valid (w.install topic handler t) where
  multiplex := by cases handler <;> exact hw.multiplex
  fresh := by cases handler <;> exact hw.fresh
  distinct := by cases handler <;> exact hw.distinct
  handled t' topic' hmem := by
    rw [mem_declared_install]
    rcases mem_handlers_install.mp hmem with ⟨_, _, rfl⟩ | hmem
    · exact Or.inl rfl
    · exact Or.inr (hw.handled t' topic' hmem)

theorem valid_open (hw : Valid w) (key : UInt64) :
    Valid (w.openTransport key) where
  multiplex := hw.multiplex
  fresh key' n h := by
    simp only [RelinkNode.openTransport, ExtTreeMap.getElem?_insert, Std.compare_eq_iff_eq] at h ⊢
    split at h
    · cases h
      exact Nat.lt_succ_self _
    · exact Nat.lt_succ_of_lt (hw.fresh key' n h)
  distinct key₁ key₂ n h₁ h₂ := by
    simp only [RelinkNode.openTransport, ExtTreeMap.getElem?_insert, Std.compare_eq_iff_eq] at h₁ h₂
    split at h₁ <;> split at h₂
    · next heq₁ heq₂ => exact heq₁.symm.trans heq₂
    · cases h₁
      exact absurd (hw.fresh _ _ h₂) (Nat.lt_irrefl _)
    · cases h₂
      exact absurd (hw.fresh _ _ h₁) (Nat.lt_irrefl _)
    · exact hw.distinct key₁ key₂ n h₁ h₂
  handled := hw.handled

/-- A declaration keeps what a pairing, an opening and an installation keep. -/
theorem declare_keeps (P : RelinkNode H → Prop) (hw : Valid w) (d : Declaration H) (binds : Bool)
    (hP : P w) (hpair : ∀ w' : RelinkNode H, w' = {w with topicPairId := w'.topicPairId} → P w')
    (hopen : ∀ (w' : RelinkNode H) (key : UInt64), P w' → P (w'.openTransport key))
    (hinstall : ∀ (w' : RelinkNode H) (topic : UInt32) (handler : Option H) (t : TransportId),
      P w' → P (w'.install topic handler t)) : P (w.declare d binds) := by
  cases hpairing : d.pairing with
  | none =>
    simp only [RelinkNode.declare, hpairing]
    exact hinstall w _ _ _ hP
  | some p =>
    obtain ⟨pair, pairId⟩ := p
    cases hreg : w.registerPair d.topic pair pairId with
    | none =>
      simp only [RelinkNode.declare, hpairing, hreg]
      exact hP
    | some w' =>
      have hP' : P w' := hpair w' (registerPair_some hreg).1
      obtain ⟨n, _, hdeclare⟩ | ⟨_, _, hdeclare⟩ | ⟨_, _, hdeclare⟩ :=
        declare_cases hw binds hpairing hreg
      · exact hdeclare ▸ hinstall _ _ _ _ hP'
      · exact hdeclare ▸ hinstall _ _ _ _ (hopen _ _ hP')
      · exact hdeclare ▸ hP'

theorem valid_declare (hw : Valid w) (d : Declaration H) (binds : Bool) :
    Valid (w.declare d binds) := by
  refine declare_keeps Valid hw d binds hw (fun w' hw' => ?_) (fun _ key h => valid_open h key)
    fun _ _ handler t h => valid_install h handler t
  rw [hw']
  exact {hw with}

/-- A topic stays declared. -/
theorem declared_mono (hw : Valid w) (d : Declaration H) (binds : Bool) (h : topic ∈ w.declared) :
    topic ∈ (w.declare d binds).declared := by
  refine declare_keeps (fun w => topic ∈ w.declared) hw d binds h (fun w' hw' => ?_) (fun _ _ h => h)
    fun _ _ _ _ h => mem_declared_install.mpr (Or.inr h)
  rw [hw']
  exact h

theorem valid_run (calls : List (Call H × Bool)) : Valid (run calls) :=
  Transition.foldl_invariant Valid (fun _ => True) RelinkNode.step
    (fun _ e hw _ => valid_declare hw e.1.declaration e.2) calls _
    ⟨rfl, fun key n h => (by simp at h), fun key key' n h => (by simp at h),
      fun t topic hmem => (by simp at hmem)⟩ fun _ _ => trivial

/-! ### Whole runs -/

/-- Handlers stay on the announced port exactly if every call keeps the ports that were announced,
and places its handler on one. -/
theorem announcedPort_iff (calls : List (Call H × Bool)) :
    AnnouncedPort calls ↔ Transition.Throughout RelinkNode.step
      (fun w e => Keeps w (w.step e) ∧ Placed (w.step e)) {multiplex := false} calls := by
  rw [Transition.Throughout.iff_prefix]
  have hsnoc : ∀ before (e : Call H × Bool), run (before ++ [e]) = (run before).step e :=
    fun before e => List.foldl_append
  have hannounces : ∀ calls topic t, (run calls).Announces topic t ↔
      topic ∈ (run calls).declared ∧ (run (H := H) calls).route topic = t :=
    fun calls topic t => announces_iff (valid_run calls).multiplex
  constructor
  · intro h before e hprefix
    have hbefore : before <+: calls := (List.prefix_append before [e]).trans hprefix
    refine ⟨fun topic hdeclared => ?_, fun t topic hmem => ?_⟩
    · have hsame := (h before hbefore).2 (before ++ [e]) hprefix (List.prefix_append before [e]) _
        topic ((hannounces before topic _).mpr ⟨hdeclared, rfl⟩)
      rw [hannounces, hsnoc] at hsame
      exact hsame.2
    · have hthere := (h (before ++ [e]) hprefix).1 t topic
      rw [hannounces, hsnoc] at hthere
      exact (hthere hmem).2
  · intro h before hbefore
    have hplaced : Placed (run before) := by
      induction before using List.reverseRecOn with
      | nil => exact fun t topic hmem => (by simp [run] at hmem)
      | append_singleton before e _ =>
        rw [hsnoc]
        exact (h before e hbefore).2
    refine ⟨fun t topic hmem => ?_, ?_⟩
    · rw [hannounces]
      exact ⟨(valid_run before).handled t topic hmem, hplaced t topic hmem⟩
    · rintro after hafter ⟨rest, rfl⟩ t topic ht
      induction rest using List.reverseRecOn with
      | nil => rwa [List.append_nil]
      | append_singleton rest e ih =>
        rw [← List.append_assoc] at hafter ⊢
        have hearlier := ih ((List.prefix_append (before ++ rest) [e]).trans hafter)
        rw [hannounces] at hearlier
        rw [hannounces, hsnoc]
        refine ⟨declared_mono (valid_run _) _ _ hearlier.1, ?_⟩
        exact ((h (before ++ rest) e hafter).1 topic hearlier.1).trans hearlier.2

/-- **The announced port is where the topic lives**, between any two of a node's declarations,
exactly if every one of them is steady. -/
theorem announced_port_iff (calls : List (Call H × Bool)) :
    AnnouncedPort calls ↔ Transition.Throughout RelinkNode.step
      (fun w e => Steady w e.1.declaration e.2) {multiplex := false} calls := by
  rw [announcedPort_iff]
  refine Transition.Throughout.congr (C := fun _ _ => True) (fun w => Valid w ∧ Placed w)
    (fun w e hw _ => settled_declare hw.1 hw.2 e.1.declaration e.2)
    (fun w e hw _ hsteady => ⟨valid_declare hw.1 _ _, ?_⟩) ⟨valid_run [], ?_⟩
    (Transition.Throughout.of_mem (fun _ _ _ => trivial) _)
  · exact ((settled_declare hw.1 hw.2 e.1.declaration e.2).mpr hsteady).2
  · exact fun t topic hmem => absurd hmem ExtTreeMap.not_mem_empty

/-! ### A topic paired later -/

/-- Topic 7 is subscribed to on a port of its own, and then advertised with a pair. -/
def pairedLater : List (Call Unit × Bool) :=
  [(.subscribeRaw 7 () false 0, true), (.advertiseRaw 7 true 1, true)]

/-- It is announced with the pair's port, where no handler is. -/
theorem pairedLater_moves : ¬ AnnouncedPort pairedLater := by
  intro h
  have hhandler : (7 : UInt32) ∈ (run pairedLater).handlers (.own 0) := by decide +kernel
  have hannounced := ((h pairedLater (List.prefix_refl _)).1 (.own 0) 7) hhandler
  rw [announces_iff (valid_run _).multiplex] at hannounced
  have hroute : (run pairedLater).route 7 = .own 1 := by decide +kernel
  rw [hroute] at hannounced
  cases hannounced.2

end
end Relink.Node
