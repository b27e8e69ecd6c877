import Relink.Image.Publish
import Relink.Node.Declare

/-! A node's public calls, in both builds.

`ensure_started` takes its snapshot of the declared topics once, in the first call that gets to it.
`publish` and `publish_raw` declare their topic too: the Python build before that snapshot, the C++
build after it. The Python `subscribe` declares before it can fail, the C++ one when it can no
longer. -/
namespace Relink.Node
open Std (ExtTreeMap ExtTreeSet)
open Image (kMaxImageBytes kMaxCompressedImageBytes)

/-! ### The calls -/

inductive ApiCall (H : Type) where
  | declare (call : Call H)
  | advertiseLocalIpc (topic : UInt32)
  | subscribeLocalIpc (topic : UInt32)
  | publish (largeBlob : Bool) (topic : UInt32)
  | publishRaw (topic : UInt32)
  | publishImage (topic : UInt32) (len : Nat)
  | publishCompressedImage (topic : UInt32) (len : Nat)
  | spinOnce

/-- What the system grants a call: a socket for a topic, what `ensure_started` needs, a segment. -/
structure Granted where
  binds : Bool
  starts : Bool
  opens : Bool

/-! ### The C++ node -/

structure Session (H : Type) where
  node : RelinkNode H
  rings : ExtTreeSet UInt32 := ∅
  announced : Option (List (TransportId × List UInt32)) := none

section
variable {H : Type}

namespace Session
variable (w : Session H)

/-- `ensure_started`, and whether it returns. -/
def ensureStarted (starts : Bool) : Session H × Bool :=
  if w.announced.isSome then (w, true)
  else if starts then ({w with announced := some w.node.topicGroups}, true)
  else (w, false)

/-- `publish<T>` and `publish_raw`, as far as the node goes. -/
def publish (largeBlob : Bool) (topic : UInt32) (g : Granted) : Session H :=
  match w.ensureStarted g.starts with
  | (w, false) => w
  | (w, true) =>
    let node := w.node.install topic none .shared
    {w with node := if largeBlob then node else (node.transportFor topic g.binds).1}

/-- `advertise_local_ipc`, the part of `subscribe_local_ipc` that declares. -/
def openRing (topic : UInt32) (opens : Bool) : Session H :=
  if topic ∈ w.rings then w
  else if opens then
    { w with
      rings := w.rings.insert topic
      node := {w.node with declared := w.node.declared.insert topic} }
  else w

def step (e : ApiCall H × Granted) : Session H :=
  match e.1 with
  | .declare call => {w with node := w.node.declare call.declaration e.2.binds}
  | .advertiseLocalIpc topic => w.openRing topic e.2.opens
  | .subscribeLocalIpc topic => w.openRing topic e.2.opens
  | .publish largeBlob topic => w.publish largeBlob topic e.2
  | .publishRaw topic => w.publish false topic e.2
  | .publishImage _ len => if kMaxImageBytes < len then w else (w.ensureStarted e.2.starts).1
  | .publishCompressedImage _ len =>
    if kMaxCompressedImageBytes < len then w else (w.ensureStarted e.2.starts).1
  | .spinOnce => (w.ensureStarted e.2.starts).1

end Session

/-! ### The Python node -/

namespace Py

/-- `_group_key`: a topic, or the tuple of a pair. -/
inductive GroupKey where
  | topic (id : UInt32)
  | pair (id : UInt32)
deriving DecidableEq, Repr

structure RelinkNode (H : Type) where
  multiplex : Bool := true
  topicPairId : ExtTreeMap UInt32 UInt32 := ∅
  topicTransports : List (GroupKey × Nat) := []
  opened : Nat := 0
  handlers : TransportId → ExtTreeMap UInt32 H := fun _ => ∅
  declared : ExtTreeSet UInt32 := ∅
  advertised : ExtTreeSet UInt32 := ∅
  subscribed : ExtTreeSet UInt32 := ∅
  rings : ExtTreeSet UInt32 := ∅
  announced : Option (List (TransportId × List UInt32)) := none

namespace RelinkNode
variable (w : RelinkNode H)

def groupKey (topic : UInt32) : GroupKey :=
  match w.topicPairId[topic]? with
  | some pairId => .pair pairId
  | none => .topic topic

def registerPair (topic : UInt32) (pair : Bool) (pairId : UInt32) : Option (RelinkNode H) :=
  match w.topicPairId[topic]? with
  | some known =>
    if pair = false ∨ known ≠ pairId then none
    else some {w with topicPairId := w.topicPairId.insert topic pairId}
  | none =>
    if pair then some {w with topicPairId := w.topicPairId.insert topic pairId} else some w

def openTransport (key : GroupKey) : RelinkNode H :=
  {w with topicTransports := w.topicTransports ++ [(key, w.opened)], opened := w.opened + 1}

def transportFor (topic : UInt32) (binds : Bool) : RelinkNode H × Option TransportId :=
  if w.multiplex then (w, some .shared)
  else match w.topicTransports.lookup (w.groupKey topic) with
    | some n => (w, some (.own n))
    | none =>
      if binds then (w.openTransport (w.groupKey topic), some (.own w.opened)) else (w, none)

def addAdvertised (topic : UInt32) : RelinkNode H :=
  {w with declared := w.declared.insert topic, advertised := w.advertised.insert topic}

def addSubscribed (topic : UInt32) : RelinkNode H :=
  {w with declared := w.declared.insert topic, subscribed := w.subscribed.insert topic}

def setTopicHandler (t : TransportId) (topic : UInt32) (callback : H) : RelinkNode H :=
  {w with handlers := Function.update w.handlers t ((w.handlers t).insert topic callback)}

/-- `_register_pair` and `_transport_for`, either of which may raise. -/
def pairedTransport (topic : UInt32) (pair : Bool) (pairId : UInt32) (binds : Bool) :
    RelinkNode H × Option TransportId :=
  match w.registerPair topic pair pairId with
  | none => (w, none)
  | some w => w.transportFor topic binds

/-- `advertise`, with the chunk type of an image or another, and `advertise_raw`. -/
def advertise (largeBlob : Bool) (topic : UInt32) (pair : Bool) (pairId : UInt32) (binds : Bool) :
    RelinkNode H :=
  if largeBlob then w.addAdvertised topic
  else match w.pairedTransport topic pair pairId binds with
    | (w, none) => w
    | (w, some _) => w.addAdvertised topic

def subscribe (largeBlob : Bool) (topic : UInt32) (callback : H) (pair : Bool) (pairId : UInt32)
    (binds : Bool) : RelinkNode H :=
  let w := w.addSubscribed topic
  if largeBlob then w.setTopicHandler .shared topic callback
  else match w.pairedTransport topic pair pairId binds with
    | (w, none) => w
    | (w, some t) => w.setTopicHandler t topic callback

def subscribeRaw (topic : UInt32) (callback : H) (pair : Bool) (pairId : UInt32) (binds : Bool) :
    RelinkNode H :=
  match w.pairedTransport topic pair pairId binds with
  | (w, none) => w
  | (w, some t) => (w.addSubscribed topic).setTopicHandler t topic callback

def declare (binds : Bool) : Call H → RelinkNode H
  | .advertise largeBlob topic pair pairId => w.advertise largeBlob topic pair pairId binds
  | .subscribe largeBlob topic callback pair pairId =>
    w.subscribe largeBlob topic callback pair pairId binds
  | .advertiseRaw topic pair pairId => w.advertise false topic pair pairId binds
  | .subscribeRaw topic callback pair pairId => w.subscribeRaw topic callback pair pairId binds
  | .advertiseImage topic => w.addAdvertised topic
  | .subscribeImage topic callback => (w.addSubscribed topic).setTopicHandler .shared topic callback
  | .advertiseCompressedImage topic => w.addAdvertised topic
  | .subscribeCompressedImage topic callback =>
    (w.addSubscribed topic).setTopicHandler .shared topic callback

def topicGroups : List (TransportId × List UInt32) :=
  let topics := w.declared.toList
  if !w.multiplex && !w.topicTransports.isEmpty then
    byTransport topics fun topic => w.topicTransports.lookup (w.groupKey topic)
  else leftover topics

def ensureStarted (starts : Bool) : RelinkNode H × Bool :=
  if w.announced.isSome then (w, true)
  else if starts then ({w with announced := some w.topicGroups}, true)
  else (w, false)

def publish (largeBlob : Bool) (topic : UInt32) (g : Granted) : RelinkNode H :=
  match (w.addAdvertised topic).ensureStarted g.starts with
  | (w, false) => w
  | (w, true) => if largeBlob then w else (w.transportFor topic g.binds).1

def openRing (topic : UInt32) (opens : Bool) : RelinkNode H :=
  if topic ∈ w.rings then w
  else if opens then
    {w with rings := w.rings.insert topic, declared := w.declared.insert topic}
  else w

/-- `subscribe_local_ipc` of the Python build notes the role as well. -/
def subscribeLocalIpc (topic : UInt32) (opens : Bool) : RelinkNode H :=
  let w := w.openRing topic opens
  if topic ∈ w.rings then {w with subscribed := w.subscribed.insert topic} else w

def step (e : ApiCall H × Granted) : RelinkNode H :=
  match e.1 with
  | .declare call => w.declare e.2.binds call
  | .advertiseLocalIpc topic => w.openRing topic e.2.opens
  | .subscribeLocalIpc topic => w.subscribeLocalIpc topic e.2.opens
  | .publish largeBlob topic => w.publish largeBlob topic e.2
  | .publishRaw topic => w.publish false topic e.2
  | .publishImage _ len => if kMaxImageBytes < len then w else (w.ensureStarted e.2.starts).1
  | .publishCompressedImage _ len =>
    if kMaxCompressedImageBytes < len then w else (w.ensureStarted e.2.starts).1
  | .spinOnce => (w.ensureStarted e.2.starts).1

end RelinkNode
end Py

end
end Relink.Node
