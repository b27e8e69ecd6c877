import Relink.Library.Buffer
import Relink.Library.LittleEndian
import Relink.Library.Ring
import Relink.Library.Run
import Relink.Wire.Frame

/-! The shared-memory ring, step by step.

`ShmRing::try_push`, `try_pop` and `try_pop_zero_copy` of one producer and one consumer,
each cut into its accesses to the mapping: a load or a store of an index, and one
`memcpy`. A program counter is named after the access it makes next and holds the
locals that are still needed. The Python build makes the same accesses in the same order,
`seq_num` and `payload_len` at once, which is one of the orders here. -/
namespace Relink.Shm
open Buffer LittleEndian
open Wire (Bytes)

/-- What both sides open the ring with. -/
structure Params where
  capacity : Nat
  maxPayload : Nat
  capacity_pos : 0 < capacity
  capacity_lt : capacity < 2 ^ 32
  slot_lt : 8 + maxPayload < 2 ^ 32

namespace Params
variable (p : Params)

/-- `slot_size_`, a `uint32_t`. -/
def slotSize : Nat := (8 + p.maxPayload) % 2 ^ 32

/-- Where a slot begins. -/
def slotAt (index : Nat) : Nat := index * p.slotSize

/-- `(index + 1) % hdr_->capacity`. -/
def next (index : Nat) : Nat := (index + 1) % 2 ^ 32 % p.capacity

theorem slotSize_eq : p.slotSize = 8 + p.maxPayload := Nat.mod_eq_of_lt p.slot_lt

theorem next_mod (n : Nat) : p.next (n % p.capacity) = (n + 1) % p.capacity := by
  have hlt := Nat.mod_lt n p.capacity_pos
  have hcap := p.capacity_lt
  have hsmall : (n % p.capacity + 1) % 2 ^ 32 = n % p.capacity + 1 := Nat.mod_eq_of_lt (by omega)
  rw [next, hsmall, Ring.succ_mod]

theorem slotAt_apart {i j : Nat} (h : i ≠ j) :
    p.slotAt i + p.slotSize ≤ p.slotAt j ∨ p.slotAt j + p.slotSize ≤ p.slotAt i := by
  simp only [slotAt]
  rw [← Nat.succ_mul, ← Nat.succ_mul]
  rcases Nat.lt_or_gt_of_ne h with h | h
  · exact Or.inl (Nat.mul_le_mul_right _ h)
  · exact Or.inr (Nat.mul_le_mul_right _ h)

theorem slotAt_inside {i : Nat} (h : i < p.capacity) :
    p.slotAt i + p.slotSize ≤ p.capacity * p.slotSize := by
  rw [slotAt, ← Nat.succ_mul]
  exact Nat.mul_le_mul_right _ h

end Params

/-- Four slots of eight bytes of payload. -/
def four : Params := ⟨4, 8, by decide, by decide, by decide⟩

/-- The indices and the slots. -/
structure Segment where
  head : Nat
  tail : Nat
  slots : Bytes

structure Msg where
  seqNum : UInt32
  payload : Bytes
deriving DecidableEq, Repr

/-- `payload_len`. -/
def Msg.len (m : Msg) : UInt32 := UInt32.ofNat m.payload.length

inductive PushPc where
  | idle
  | loadHead (m : Msg) (tail : Nat)
  | writeSeq (m : Msg) (tail : Nat)
  | writeLen (m : Msg) (tail : Nat)
  | writePayload (m : Msg) (tail : Nat)
  | storeTail (m : Msg) (tail : Nat)
deriving DecidableEq

inductive PopKind where
  | copy
  | zeroCopy
deriving DecidableEq

inductive PopPc where
  | idle
  | loadTail (kind : PopKind) (head : Nat)
  | readSeq (kind : PopKind) (head : Nat)
  | readLen (kind : PopKind) (head : Nat) (seqNum : UInt32)
  | readPayload (kind : PopKind) (head : Nat) (seqNum len : UInt32)
  /-- The zero-copy callback is running. -/
  | callback (head : Nat)
  | storeHead (head : Nat)
deriving DecidableEq

/-- The slot a pop is reading. -/
def PopPc.reading : PopPc → Option Nat
  | .readSeq _ head => some head
  | .readLen _ head _ => some head
  | .readPayload _ head _ _ => some head
  | .callback head => some head
  | _ => none

/-- The mapping, both sides, and what has gone through: `accepted` are the pushes that
stored `tail`, `delivered` the messages handed over, and `released` counts the pops that
stored `head`. -/
structure State where
  seg : Segment
  push : PushPc := .idle
  pop : PopPc := .idle
  accepted : List Msg := []
  delivered : List Msg := []
  released : Nat := 0

inductive Act where
  /-- The producer calls `try_push`. -/
  | push (m : Msg)
  /-- The running push makes its next access. -/
  | producer
  | pop (kind : PopKind)
  | consumer
deriving DecidableEq

def Segment.write (seg : Segment) (offset : Nat) (src : Bytes) : Segment :=
  {seg with slots := Buffer.write seg.slots offset src}

section
variable (p : Params)

/-- The first access of a push is the load of `tail`. -/
def startPush (s : State) (m : Msg) : State :=
  match s.push with
  | .idle =>
    if p.maxPayload < m.payload.length then s else {s with push := .loadHead m s.seg.tail}
  | _ => s

def producerStep (s : State) : State :=
  match s.push with
  | .idle => s
  | .loadHead m tail =>
    if p.next tail = s.seg.head then {s with push := .idle} else {s with push := .writeSeq m tail}
  | .writeSeq m tail =>
    {s with seg := s.seg.write (p.slotAt tail) (u32 m.seqNum), push := .writeLen m tail}
  | .writeLen m tail =>
    {s with seg := s.seg.write (p.slotAt tail + 4) (u32 m.len), push := .writePayload m tail}
  | .writePayload m tail =>
    {s with seg := s.seg.write (p.slotAt tail + 8) m.payload, push := .storeTail m tail}
  | .storeTail m tail =>
    { s with
      seg := {s.seg with tail := p.next tail}
      push := .idle
      accepted := s.accepted ++ [m] }

/-- The first access of a pop is the load of `head`. -/
def startPop (s : State) (kind : PopKind) : State :=
  match s.pop with
  | .idle => {s with pop := .loadTail kind s.seg.head}
  | _ => s

/-- A message is delivered by the copy of its payload, or by the call of the callback. -/
def consumerStep (s : State) : State :=
  match s.pop with
  | .idle => s
  | .loadTail kind head =>
    if head = s.seg.tail then {s with pop := .idle} else {s with pop := .readSeq kind head}
  | .readSeq kind head =>
    {s with pop := .readLen kind head (readU32 (p.slotAt head) s.seg.slots)}
  | .readLen kind head seqNum =>
    {s with pop := .readPayload kind head seqNum (readU32 (p.slotAt head + 4) s.seg.slots)}
  | .readPayload kind head seqNum len =>
    { s with
      pop := match kind with
        | .copy => .storeHead head
        | .zeroCopy => .callback head
      delivered := s.delivered ++ [⟨seqNum, region s.seg.slots (p.slotAt head + 8) len.toNat⟩] }
  | .callback head => {s with pop := .storeHead head}
  | .storeHead head =>
    { s with
      seg := {s.seg with head := p.next head}
      pop := .idle
      released := s.released + 1 }

def step (s : State) : Act → State
  | .push m => startPush p s m
  | .producer => producerStep p s
  | .pop kind => startPop s kind
  | .consumer => consumerStep p s

/-- The act is a push, or the part of one, that returns false. -/
def Refuses (s : State) : Act → Prop
  | .push m => s.push = .idle ∧ p.maxPayload < m.payload.length
  | .producer => ∃ m tail, s.push = .loadHead m tail ∧ p.next tail = s.seg.head
  | _ => False

/-- The bytes of a slot. -/
def slotBytes (s : State) (index : Nat) : Bytes := region s.seg.slots (p.slotAt index) p.slotSize

/-- An initialized ring; its slots hold whatever was there. -/
def fresh (slots : Bytes) : State := {seg := ⟨0, 0, slots⟩}

end

/-- Pushed and not yet released by the consumer. -/
def State.outstanding (s : State) : Nat := s.accepted.length - s.released

end Relink.Shm
