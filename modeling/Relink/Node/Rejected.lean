import Relink.Node.Session
import Relink.Wire.Directory

/-! Declarations that a pairing forbids.

`register_pair` throws if the topic is paired and the call asks for another pair or for none. All
but one of the public declarations check this before they note anything. The Python `subscribe` notes
the topic first: `rejected_unchanged_iff` says that nothing else is left of a rejected call, and when
this is nothing new. -/
namespace Relink.Node
open Std (ExtTreeMap ExtTreeSet)
open Wire (RoleAnnounceEntry)

section
variable {H : Type}

/-! ### The roles of a group -/

def kRolePublisher : UInt8 := 1
def kRoleSubscriber : UInt8 := 2

/-- What a topic is announced as, every tick. -/
def roleOf (advertised subscribed : ExtTreeSet UInt32) (topic : UInt32) : UInt8 :=
  (if topic ∈ advertised then kRolePublisher else 0) |||
    if topic ∈ subscribed then kRoleSubscriber else 0

def roleEntries (advertised subscribed : ExtTreeSet UInt32) (topics : List UInt32) :
    List RoleAnnounceEntry :=
  topics.filterMap fun topic =>
    let role := roleOf advertised subscribed topic
    if role ≠ 0 then some ⟨topic, role⟩ else none

def RelinkNode.roles (w : RelinkNode H) (topics : List UInt32) : List RoleAnnounceEntry :=
  roleEntries w.advertised w.subscribed topics

def Py.RelinkNode.roles (p : Py.RelinkNode H) (topics : List UInt32) : List RoleAnnounceEntry :=
  roleEntries p.advertised p.subscribed topics

/-! ### Rejected calls -/

/-- `register_pair` throws for this call. -/
def RelinkNode.rejects (w : RelinkNode H) (call : Call H) : Bool :=
  match call.declaration.pairing with
  | none => false
  | some (pair, pairId) => (w.registerPair call.declaration.topic pair pairId).isNone

def Py.RelinkNode.rejects (p : Py.RelinkNode H) (call : Call H) : Bool :=
  match call.declaration.pairing with
  | none => false
  | some (pair, pairId) => (p.registerPair call.declaration.topic pair pairId).isNone

/-- The topic that the Python build has noted before it looks for a conflict. -/
def Call.notedFirst : Call H → Option UInt32
  | .subscribe _ topic _ _ _ => some topic
  | _ => none

theorem declare_rejected {w : RelinkNode H} {call : Call H} (h : w.rejects call) (binds : Bool) :
    w.declare call.declaration binds = w := by
  unfold RelinkNode.rejects at h
  unfold RelinkNode.declare
  cases hpairing : call.declaration.pairing with
  | none =>
    rw [hpairing] at h
    cases h
  | some known =>
    rw [hpairing] at h
    have hnone : w.registerPair call.declaration.topic known.1 known.2 = none :=
      Option.isNone_iff_eq_none.mp h
    simp only [hnone]

namespace Py
variable {p : RelinkNode H}

theorem isNone_registerPair (topic : UInt32) (pair : Bool) (pairId : UInt32) :
    (p.registerPair topic pair pairId).isNone =
      (p.topicPairId[topic]?).any fun known => pair = false ∨ known ≠ pairId := by
  unfold RelinkNode.registerPair
  cases p.topicPairId[topic]? with
  | none => cases pair <;> rfl
  | some known =>
    by_cases hconflict : pair = false ∨ known ≠ pairId
    · simp [hconflict]
    · obtain ⟨hpair, hknown⟩ := not_or.mp hconflict
      simp [hpair, not_not.mp hknown]

section
variable {topic : UInt32} {pair : Bool} {pairId : UInt32} (binds : Bool)

theorem pairedTransport_rejected (h : (p.registerPair topic pair pairId).isNone) :
    p.pairedTransport topic pair pairId binds = (p, none) := by
  unfold RelinkNode.pairedTransport
  rw [Option.isNone_iff_eq_none.mp h]

theorem advertise_rejected (h : (p.registerPair topic pair pairId).isNone) :
    p.advertise false topic pair pairId binds = p := by
  rw [RelinkNode.advertise, pairedTransport_rejected binds h]
  rfl

/-- The topic is noted in both sets, whose members are no part of a pairing. -/
theorem subscribe_rejected (h : (p.registerPair topic pair pairId).isNone) (callback : H) :
    p.subscribe false topic callback pair pairId binds = p.addSubscribed topic := by
  have hnoted : ((p.addSubscribed topic).registerPair topic pair pairId).isNone := by
    rw [isNone_registerPair] at h ⊢
    exact h
  rw [RelinkNode.subscribe, pairedTransport_rejected binds hnoted]
  rfl

theorem subscribeRaw_rejected (h : (p.registerPair topic pair pairId).isNone) (callback : H) :
    p.subscribeRaw topic callback pair pairId binds = p := by
  rw [RelinkNode.subscribeRaw, pairedTransport_rejected binds h]

end

/-- Nothing but the topic and its role is left of a rejected call. -/
theorem declare_rejected {call : Call H} (h : p.rejects call) (binds : Bool) :
    p.declare binds call = call.notedFirst.elim p p.addSubscribed := by
  cases call with
  | advertise largeBlob topic pair pairId =>
    cases largeBlob with
    | true => cases h
    | false => exact advertise_rejected binds h
  | subscribe largeBlob topic callback pair pairId =>
    cases largeBlob with
    | true => cases h
    | false => exact subscribe_rejected binds h callback
  | advertiseRaw topic pair pairId => exact advertise_rejected binds h
  | subscribeRaw topic callback pair pairId => exact subscribeRaw_rejected binds h callback
  | advertiseImage topic => cases h
  | subscribeImage topic callback => cases h
  | advertiseCompressedImage topic => cases h
  | subscribeCompressedImage topic callback => cases h

theorem insert_of_mem {topics : ExtTreeSet UInt32} {topic : UInt32} (h : topic ∈ topics) :
    topics.insert topic = topics := by
  refine ExtTreeSet.ext_mem fun other => ?_
  rw [ExtTreeSet.mem_insert, Std.compare_eq_iff_eq]
  exact or_iff_right_of_imp fun heq => heq ▸ h

/-- Noting a topic is nothing new if it is in both sets. -/
theorem addSubscribed_eq_iff {topic : UInt32} :
    p.addSubscribed topic = p ↔ topic ∈ p.declared ∧ topic ∈ p.subscribed := by
  constructor
  · intro h
    have hdeclared := congrArg RelinkNode.declared h
    have hsubscribed := congrArg RelinkNode.subscribed h
    exact ⟨hdeclared ▸ ExtTreeSet.mem_insert_self, hsubscribed ▸ ExtTreeSet.mem_insert_self⟩
  · rintro ⟨hdeclared, hsubscribed⟩
    rw [RelinkNode.addSubscribed, insert_of_mem hdeclared, insert_of_mem hsubscribed]

/-- It is announced with another role unless it was subscribed to. -/
theorem roles_addSubscribed_iff {topic : UInt32} :
    (p.addSubscribed topic).roles = p.roles ↔ topic ∈ p.subscribed := by
  constructor
  · intro h
    by_contra hnew
    have hrole := congrFun h [topic]
    by_cases hadvertised : topic ∈ p.advertised
    · simp [RelinkNode.roles, RelinkNode.addSubscribed, roleEntries, roleOf, hnew, hadvertised,
        kRolePublisher, kRoleSubscriber] at hrole
      exact absurd hrole (by decide)
    · simp [RelinkNode.roles, RelinkNode.addSubscribed, roleEntries, roleOf, hnew, hadvertised,
        kRolePublisher, kRoleSubscriber] at hrole
  · intro hsubscribed
    show roleEntries p.advertised (p.subscribed.insert topic) = _
    rw [insert_of_mem hsubscribed]
    rfl

end Py

/-- **A rejected declaration changes nothing** in the C++ build; in the Python build it changes
nothing exactly if it is no `subscribe`, or one of a topic that is declared and subscribed to already,
and then only leaves the roles that are announced. -/
theorem rejected_unchanged_iff :
    (∀ (w : RelinkNode H) call binds, w.rejects call → w.declare call.declaration binds = w) ∧
    ∀ (p : Py.RelinkNode H) call binds, p.rejects call →
      (p.declare binds call = p ↔
        ∀ topic ∈ call.notedFirst, topic ∈ p.declared ∧ topic ∈ p.subscribed) ∧
      ((p.declare binds call).roles = p.roles ↔ ∀ topic ∈ call.notedFirst, topic ∈ p.subscribed) := by
  refine ⟨fun w call binds h => declare_rejected h binds, fun p call binds h => ?_⟩
  rw [Py.declare_rejected h]
  cases call.notedFirst with
  | none => simp
  | some topic => simpa using ⟨Py.addSubscribed_eq_iff, Py.roles_addSubscribed_iff⟩

/-- A paired topic, advertised again with its own pair and without one. -/
theorem rejected_unchanged_iff_unpaired :
    let p : Py.RelinkNode Unit := Py.RelinkNode.declare {} true (.advertiseRaw 7 true 1)
    p.declare true (.advertiseRaw 7 false 0) = p :=
  ((rejected_unchanged_iff.2 _ (.advertiseRaw 7 false 0) true (by decide +kernel)).1).mpr
    fun _ h => nomatch h

/-- Topic 7 is advertised with a pair, and a subscription without it raises. It is announced as
subscribed to from then on. -/
theorem rejected_subscription_announced :
    let p : Py.RelinkNode Unit := Py.RelinkNode.declare {} true (.advertise false 7 true 1)
    p.rejects (.subscribe false 7 () false 0) ∧
      7 ∉ p.subscribed ∧ 7 ∈ (p.declare true (.subscribe false 7 () false 0)).subscribed ∧
      p.roles [7] = [⟨7, kRolePublisher⟩] ∧
      (p.declare true (.subscribe false 7 () false 0)).roles [7] =
        [⟨7, kRolePublisher ||| kRoleSubscriber⟩] := by
  decide +kernel

end
end Relink.Node
