import Relink.Shm.Invariant

/-! The arithmetic of the shared-memory ring.

`open` takes any capacity and payload size; slots have a size of 32 bits, the mapping one of 64, and
the length of a message is cut to 32 bits where it is published. Here every division, access and
return is checked as it is made, between the accesses of the other side, and across what `open` does
to a ring whose creator died. `sound_iff` says for which sizes and messages no check ever fails. -/
namespace Relink.Shm.Words
open Buffer LittleEndian Transition
open Wire (Bytes)

/-! ### The sizes -/

/-- What `open` is called with. -/
structure Sizes where
  capacity : UInt32
  maxPayload : UInt32
deriving DecidableEq, Repr

/-- What must not happen. -/
inductive Violation where
  | moduloByZero
  | outsideSlot
  | outsideMapping
  /-- A push returns true and has not stored what it was called with. -/
  | notStored
deriving DecidableEq, Repr

/-- `sizeof(ShmRingHeader)`. -/
def kHeaderBytes : UInt64 := 28

namespace Sizes
variable (z : Sizes)

def slotSize : UInt32 := 8 + z.maxPayload

def mapSize : UInt64 := kHeaderBytes + z.capacity.toUInt64 * z.slotSize.toUInt64

/-- Where a slot begins, behind the header. -/
def slotAt (index : UInt32) : UInt64 := index.toUInt64 * z.slotSize.toUInt64

def next (index : UInt32) : Except Violation UInt32 :=
  if z.capacity = 0 then .error .moduloByZero else .ok ((index + 1) % z.capacity)

/-- An access to `count` bytes of a slot. -/
def access (index : UInt32) (offset count : Nat) : Except Violation Unit :=
  if z.slotSize.toNat < offset + count then .error .outsideSlot
  else if z.mapSize.toNat < (kHeaderBytes + z.slotAt index).toNat + offset + count then
    .error .outsideMapping
  else .ok ()

end Sizes

/-! ### The ring -/

/-- The locals of a push that are still needed, by the access it makes next. -/
inductive Push where
  | idle
  | loadHead (m : Msg) (tail : UInt32)
  | writeSeq (m : Msg) (tail next : UInt32)
  | writeLen (m : Msg) (tail next : UInt32)
  | writePayload (m : Msg) (tail next : UInt32)
  | storeTail (m : Msg) (tail next : UInt32)
deriving DecidableEq

/-- Both pops make the same accesses; the callback of one runs before it stores `head`. -/
inductive Pop where
  | idle
  | loadTail (head : UInt32)
  | readSeq (head : UInt32)
  | readLen (head : UInt32)
  | readPayload (head len : UInt32)
  | storeHead (head : UInt32)
deriving DecidableEq

structure State where
  head : UInt32 := 0
  tail : UInt32 := 0
  slots : Bytes
  push : Push := .idle
  pop : Pop := .idle
deriving DecidableEq

inductive Act where
  /-- The producer calls `publish_local_ipc` or `try_push`. -/
  | push (m : Msg)
  | producer
  | pop
  | consumer
  /-- The stores of `init_as_creator`, in an `open` that takes the ring over. -/
  | resetHead
  | resetTail
  /-- A side dies in its call, and another one opens the ring. -/
  | producerDies
  | consumerDies
deriving DecidableEq

section
variable (z : Sizes)

/-- The slot holds the bytes that the caller passed, and their number. -/
def Stored (slots : Bytes) (tail : UInt32) (m : Msg) : Prop :=
  (readU32 ((z.slotAt tail).toNat + 4) slots).toNat = m.payload.length ∧
    region slots ((z.slotAt tail).toNat + 8) m.payload.length = m.payload

instance (slots : Bytes) (tail : UInt32) (m : Msg) : Decidable (Stored z slots tail m) :=
  inferInstanceAs (Decidable (_ ∧ _))

def producerStep (s : State) : Except Violation State :=
  match s.push with
  | .idle => .ok s
  | .loadHead m tail => (z.next tail).map fun next =>
    {s with push := if next = s.head then .idle else .writeSeq m tail next}
  | .writeSeq m tail next => (z.access tail 0 4).map fun _ =>
    { s with
      slots := write s.slots (z.slotAt tail).toNat (u32 m.seqNum)
      push := .writeLen m tail next }
  | .writeLen m tail next => (z.access tail 4 4).map fun _ =>
    { s with
      slots := write s.slots ((z.slotAt tail).toNat + 4) (u32 m.len)
      push := .writePayload m tail next }
  | .writePayload m tail next => (z.access tail 8 m.len.toNat).map fun _ =>
    { s with
      slots := write s.slots ((z.slotAt tail).toNat + 8) (m.payload.take m.len.toNat)
      push := .storeTail m tail next }
  | .storeTail m tail next =>
    if Stored z s.slots tail m then .ok {s with tail := next, push := .idle} else .error .notStored

def consumerStep (s : State) : Except Violation State :=
  match s.pop with
  | .idle => .ok s
  | .loadTail head => .ok {s with pop := if head = s.tail then .idle else .readSeq head}
  | .readSeq head => (z.access head 0 4).map fun _ => {s with pop := .readLen head}
  | .readLen head => (z.access head 4 4).map fun _ =>
    {s with pop := .readPayload head (readU32 ((z.slotAt head).toNat + 4) s.slots)}
  | .readPayload head len => (z.access head 8 len.toNat).map fun _ => {s with pop := .storeHead head}
  | .storeHead head => (z.next head).map fun next => {s with head := next, pop := .idle}

/-- The first access of a push is the load of `tail`, and that of a pop the load of `head`. -/
def step (s : State) : Act → Except Violation State
  | .push m => .ok (match s.push with
    | .idle => if z.maxPayload < m.len then s else {s with push := .loadHead m s.tail}
    | _ => s)
  | .producer => producerStep z s
  | .pop => .ok (match s.pop with
    | .idle => {s with pop := .loadTail s.head}
    | _ => s)
  | .consumer => consumerStep z s
  | .resetHead => .ok {s with head := 0}
  | .resetTail => .ok {s with tail := 0}
  | .producerDies => .ok {s with push := .idle}
  | .consumerDies => .ok {s with pop := .idle}

/-- A new segment is zeros. -/
def created : State := {slots := List.replicate (z.capacity.toNat * z.slotSize.toNat) 0}

/-! ### No fault, and the messages that fit -/

/-- Nothing happens that must not, in any interleaving of calls with such messages. -/
def Sound (messages : Msg → Prop) : Prop :=
  ∀ acts : List Act, (∀ m, Act.push m ∈ acts → messages m) →
    ∃ s, acts.foldlM (step z) (created z) = .ok s

/-- A message that a push does not refuse needs a slot; a ring of one slot is always full; in others
the slot's size and the message's length are not cut. -/
def Fits (m : Msg) : Prop :=
  m.len ≤ z.maxPayload → z.capacity ≠ 0 ∧
    (z.capacity = 1 ∨ 8 + z.maxPayload.toNat < 2 ^ 32 ∧ m.payload.length < 2 ^ 32)

end

/-! ### Sizes that fit -/

/-- There is more than one slot, and its size is not cut. -/
structure Roomy (z : Sizes) : Prop where
  two : 2 ≤ z.capacity.toNat
  slot_lt : 8 + z.maxPayload.toNat < 2 ^ 32

namespace Roomy
variable {z : Sizes}

def params (h : Roomy z) : Params where
  capacity := z.capacity.toNat
  maxPayload := z.maxPayload.toNat
  capacity_pos := Nat.lt_of_lt_of_le Nat.two_pos h.two
  capacity_lt := z.capacity.toNat_lt
  slot_lt := h.slot_lt

theorem slotSize (h : Roomy z) : z.slotSize.toNat = h.params.slotSize := by
  rw [Sizes.slotSize, UInt32.toNat_add]
  rfl

theorem slotAt (h : Roomy z) (index : UInt32) :
    (z.slotAt index).toNat = h.params.slotAt index.toNat := by
  have hindex := index.toNat_lt
  have hslot := z.slotSize.toNat_lt
  have hmul : index.toNat * z.slotSize.toNat < 2 ^ 64 := by
    calc index.toNat * z.slotSize.toNat < 2 ^ 32 * 2 ^ 32 := Nat.mul_lt_mul'' hindex hslot
      _ = 2 ^ 64 := rfl
  rw [Sizes.slotAt, UInt64.toNat_mul, UInt32.toNat_toUInt64, UInt32.toNat_toUInt64,
    Nat.mod_eq_of_lt hmul, h.slotSize]
  rfl

theorem mapSize (h : Roomy z) :
    z.mapSize.toNat = 28 + h.params.capacity * h.params.slotSize := by
  have hcap : z.capacity.toNat ≤ 2 ^ 32 - 1 := Nat.le_sub_one_of_lt z.capacity.toNat_lt
  have hslot : z.slotSize.toNat ≤ 2 ^ 32 - 1 := Nat.le_sub_one_of_lt z.slotSize.toNat_lt
  have hmul := Nat.mul_le_mul hcap hslot
  have hhdr : kHeaderBytes.toNat = 28 := rfl
  rw [Sizes.mapSize, UInt64.toNat_add, UInt64.toNat_mul, UInt32.toNat_toUInt64,
    UInt32.toNat_toUInt64, hhdr, Nat.mod_eq_of_lt (by omega), Nat.mod_eq_of_lt (by omega),
    h.slotSize]
  rfl

/-- An access to the bytes of a slot is checked in vain. -/
theorem access (h : Roomy z) {index : UInt32} (hindex : index.toNat < z.capacity.toNat)
    {offset count : Nat} (hin : offset + count ≤ 8 + z.maxPayload.toNat) :
    z.access index offset count = .ok () := by
  have hslot : z.slotSize.toNat = 8 + z.maxPayload.toNat := h.slotSize.trans h.params.slotSize_eq
  have hinside := h.params.slotAt_inside (i := index.toNat) hindex
  have hparams := h.params.slotSize_eq
  have hmap := h.mapSize
  have hlt := z.mapSize.toNat_lt
  have hat : (kHeaderBytes + z.slotAt index).toNat = 28 + h.params.slotAt index.toNat := by
    have hhdr : kHeaderBytes.toNat = 28 := rfl
    rw [UInt64.toNat_add, hhdr, h.slotAt, Nat.mod_eq_of_lt (by omega)]
  have hsame : h.params.maxPayload = z.maxPayload.toNat := rfl
  rw [Sizes.access, if_neg (by omega), if_neg (by omega)]

/-- A message that a push lets through is one of at most `max_payload` bytes. -/
theorem uncut (h : Roomy z) {m : Msg} (hle : m.len ≤ z.maxPayload)
    (hcut : z.capacity = 1 ∨ 8 + z.maxPayload.toNat < 2 ^ 32 ∧ m.payload.length < 2 ^ 32) :
    m.payload.length ≤ z.maxPayload.toNat := by
  rcases hcut with hone | ⟨-, hlt⟩
  · have htwo := h.two
    rw [hone] at htwo
    exact absurd htwo (by decide)
  · rw [UInt32.le_iff_toNat_le, Msg.len, UInt32.toNat_ofNat', Nat.mod_eq_of_lt hlt] at hle
    exact hle

theorem len_toNat (h : Roomy z) {m : Msg} (hfits : m.payload.length ≤ z.maxPayload.toNat) :
    m.len.toNat = m.payload.length := @Msg.len_toNat h.params m hfits

theorem len_le (h : Roomy z) {m : Msg} (hfits : m.payload.length ≤ z.maxPayload.toNat) :
    m.len ≤ z.maxPayload := by
  rw [UInt32.le_iff_toNat_le, h.len_toNat hfits]
  exact hfits

theorem capacity_ne (h : Roomy z) : z.capacity ≠ 0 := by
  intro hzero
  have htwo := h.two
  rw [hzero] at htwo
  exact absurd htwo (by decide)

theorem next (h : Roomy z) (index : UInt32) :
    ∃ next, z.next index = .ok next ∧ next.toNat = h.params.next index.toNat := by
  refine ⟨(index + 1) % z.capacity, if_neg h.capacity_ne, ?_⟩
  rw [UInt32.toNat_mod, UInt32.toNat_add]
  rfl

theorem next_lt (h : Roomy z) (index : Nat) : h.params.next index < z.capacity.toNat :=
  Nat.mod_lt _ h.params.capacity_pos

end Roomy

/-! ### Between two accesses -/

/-- What a running push has loaded and written. -/
def PushFits (z : Sizes) (slots : Bytes) : Push → Prop
  | .idle => True
  | .loadHead m tail => m.payload.length ≤ z.maxPayload.toNat ∧ tail.toNat < z.capacity.toNat
  | .writeSeq m tail next | .writeLen m tail next =>
    m.payload.length ≤ z.maxPayload.toNat ∧ tail.toNat < z.capacity.toNat ∧
      next.toNat < z.capacity.toNat
  | .writePayload m tail next =>
    m.payload.length ≤ z.maxPayload.toNat ∧ tail.toNat < z.capacity.toNat ∧
      next.toNat < z.capacity.toNat ∧ readU32 ((z.slotAt tail).toNat + 4) slots = m.len
  | .storeTail m tail next => next.toNat < z.capacity.toNat ∧ Stored z slots tail m

def PopFits (z : Sizes) : Pop → Prop
  | .idle => True
  | .loadTail head | .readSeq head | .readLen head | .storeHead head =>
    head.toNat < z.capacity.toNat
  | .readPayload head len => head.toNat < z.capacity.toNat ∧ len ≤ z.maxPayload

/-- Whatever the two sides and an opener have done, the indices are slots, and the length in every
slot is one that a push has let through. -/
structure Live {z : Sizes} (hz : Roomy z) (s : State) : Prop where
  size : s.slots.length = hz.params.capacity * hz.params.slotSize
  head : s.head.toNat < z.capacity.toNat
  tail : s.tail.toNat < z.capacity.toNat
  lens : ∀ index < z.capacity.toNat,
    readU32 (hz.params.slotAt index + 4) s.slots ≤ z.maxPayload
  push : PushFits z s.slots s.push
  pop : PopFits z s.pop

section
variable {z : Sizes} {hz : Roomy z} {s : State}

theorem map_of_ok {A : Type} {x : Except Violation A} {a : A} (h : x = .ok a) (f : A → State) :
    x.map f = .ok (f a) := by
  rw [h]
  rfl

theorem readU32_congr {off : Nat} {a b : Bytes} (h : region a off 4 = region b off 4) :
    readU32 off a = readU32 off b := by
  rw [readU32, readU32, LittleEndian.read, LittleEndian.read, ← region, ← region, h]

/-- A length that is written is let through already, and other lengths stay. -/
theorem Live.writeSlot (h : Live hz s) {tail : UInt32} (htail : tail.toNat < z.capacity.toNat) {k : Nat}
    {src : Bytes} (hsrc : k + src.length ≤ hz.params.slotSize)
    (hlen : readU32 (hz.params.slotAt tail.toNat + 4)
      (write s.slots (hz.params.slotAt tail.toNat + k) src) ≤ z.maxPayload) {push : Push}
    (hpush : PushFits z (write s.slots (hz.params.slotAt tail.toNat + k) src) push) :
    Live hz { s with
      slots := Buffer.write s.slots (hz.params.slotAt tail.toNat + k) src
      push := push } := by
  have hinside := hz.params.slotAt_inside (i := tail.toNat) htail
  have hsize := h.size
  refine ⟨?_, h.head, h.tail, fun index hindex => ?_, hpush, h.pop⟩
  · rw [← hsize]
    exact write_length (by omega)
  · by_cases hsame : index = tail.toNat
    · rw [hsame]
      exact hlen
    · have hslot := hz.params.slotSize_eq
      rw [readU32_congr (region_other_slot hsize htail hsrc hsame 4 (by omega))]
      exact h.lens index hindex

theorem Live.producerStep (h : Live hz s) : ∃ s', producerStep z s = .ok s' ∧ Live hz s' := by
  have hslot := hz.params.slotSize_eq
  have hmax : hz.params.maxPayload = z.maxPayload.toNat := rfl
  have hpush := h.push
  have hsize := h.size
  unfold Words.producerStep
  cases hpc : s.push with
  | idle => exact ⟨s, rfl, h⟩
  | loadHead m tail =>
    rw [hpc] at hpush
    obtain ⟨hfits, htail⟩ := hpush
    obtain ⟨next, hnext, heq⟩ := hz.next tail
    have hlt : next.toNat < z.capacity.toNat := heq ▸ hz.next_lt _
    refine ⟨_, map_of_ok hnext _, h.size, h.head, h.tail, h.lens, ?_, h.pop⟩
    by_cases hfull : next = s.head
    · rw [if_pos hfull]
      trivial
    · rw [if_neg hfull]
      exact ⟨hfits, htail, hlt⟩
  | writeSeq m tail next =>
    rw [hpc] at hpush
    obtain ⟨hfits, htail, hnext⟩ := hpush
    have hinside := hz.params.slotAt_inside (i := tail.toNat) htail
    refine ⟨_, map_of_ok (hz.access htail (by omega)) _, ?_⟩
    rw [hz.slotAt tail]
    refine h.writeSlot htail (k := 0) (by rw [u32_length]; omega) ?_ ⟨hfits, htail, hnext⟩
    have hapart : (hz.params.slotAt tail.toNat + 0) + (u32 m.seqNum).length ≤
        hz.params.slotAt tail.toNat + 4 := by rw [u32_length, Nat.add_zero]
    rw [readU32_congr (region_write_apart (by omega) (Or.inr hapart))]
    exact h.lens _ htail
  | writeLen m tail next =>
    rw [hpc] at hpush
    obtain ⟨hfits, htail, hnext⟩ := hpush
    have hinside := hz.params.slotAt_inside (i := tail.toNat) htail
    have hlen : readU32 (hz.params.slotAt tail.toNat + 4)
        (write s.slots (hz.params.slotAt tail.toNat + 4) (u32 m.len)) = m.len :=
      readU32_region (region_write (by rw [u32_length]; omega))
    refine ⟨_, map_of_ok (hz.access htail (by omega)) _, ?_⟩
    rw [hz.slotAt tail]
    refine h.writeSlot htail (by rw [u32_length]; omega) ?_ ⟨hfits, htail, hnext, ?_⟩
    · rw [hlen]
      exact hz.len_le hfits
    · rw [hz.slotAt tail]
      exact hlen
  | writePayload m tail next =>
    rw [hpc] at hpush
    obtain ⟨hfits, htail, hnext, hlen⟩ := hpush
    have hinside := hz.params.slotAt_inside (i := tail.toNat) htail
    have hall : m.payload.take m.len.toNat = m.payload := by
      rw [hz.len_toNat hfits, List.take_length]
    have hin : hz.params.slotAt tail.toNat + 8 + m.payload.length ≤ s.slots.length := by omega
    have hapart : readU32 (hz.params.slotAt tail.toNat + 4)
        (write s.slots (hz.params.slotAt tail.toNat + 8) m.payload) = m.len := by
      rw [readU32_congr (region_write_apart hin (Or.inl (by omega))), ← hz.slotAt]
      exact hlen
    refine ⟨_, map_of_ok (hz.access htail (by rw [hz.len_toNat hfits]; omega)) _, ?_⟩
    rw [hz.slotAt tail, hall]
    refine h.writeSlot htail (by omega) (hapart.symm ▸ hz.len_le hfits) ⟨hnext, ?_, ?_⟩ <;> rw [hz.slotAt tail]
    · rw [hapart, hz.len_toNat hfits]
    · exact region_write hin
  | storeTail m tail next =>
    rw [hpc] at hpush
    obtain ⟨hnext, hstored⟩ := hpush
    exact ⟨_, if_pos hstored, h.size, h.head, hnext, h.lens, trivial, h.pop⟩

theorem Live.consumerStep (h : Live hz s) : ∃ s', consumerStep z s = .ok s' ∧ Live hz s' := by
  have hpop := h.pop
  unfold Words.consumerStep
  cases hpc : s.pop with
  | idle => exact ⟨s, rfl, h⟩
  | loadTail head =>
    rw [hpc] at hpop
    refine ⟨_, rfl, h.size, h.head, h.tail, h.lens, h.push, ?_⟩
    by_cases hempty : head = s.tail
    · rw [if_pos hempty]
      trivial
    · rw [if_neg hempty]
      exact hpop
  | readSeq head =>
    rw [hpc] at hpop
    exact ⟨_, map_of_ok (hz.access hpop (by omega)) _, h.size, h.head, h.tail, h.lens, h.push, hpop⟩
  | readLen head =>
    rw [hpc] at hpop
    refine ⟨_, map_of_ok (hz.access hpop (by omega)) _, h.size, h.head, h.tail, h.lens, h.push, hpop, ?_⟩
    rw [hz.slotAt head]
    exact h.lens _ hpop
  | readPayload head len =>
    rw [hpc] at hpop
    obtain ⟨hhead, hlen⟩ := hpop
    have hle := UInt32.le_iff_toNat_le.mp hlen
    exact ⟨_, map_of_ok (hz.access hhead (by omega)) _, h.size, h.head, h.tail, h.lens, h.push, hhead⟩
  | storeHead head =>
    obtain ⟨next, hnext, heq⟩ := hz.next head
    have hlt : next.toNat < z.capacity.toNat := heq ▸ hz.next_lt _
    exact ⟨_, map_of_ok hnext _, h.size, hlt, h.tail, h.lens, h.push, trivial⟩

theorem live_created (hz : Roomy z) : Live hz (created z) := by
  have hzero : (0 : UInt32).toNat < z.capacity.toNat := Nat.lt_of_lt_of_le Nat.two_pos hz.two
  refine ⟨?_, hzero, hzero, fun index hindex => ?_, trivial, trivial⟩
  · rw [created, List.length_replicate, hz.slotSize]
    rfl
  · rw [created, readU32_zeros]
    exact UInt32.zero_le

theorem Live.step (h : Live hz s) {act : Act} (hact : ∀ m, act = .push m → Fits z m) :
    ∃ s', step z s act = .ok s' ∧ Live hz s' := by
  have hzero : (0 : UInt32).toNat < z.capacity.toNat := Nat.lt_of_lt_of_le Nat.two_pos hz.two
  cases act with
  | push m =>
    refine ⟨_, rfl, ?_⟩
    cases hpc : s.push with
    | idle =>
      by_cases hlong : z.maxPayload < m.len
      · simp only [if_pos hlong]
        exact h
      · simp only [if_neg hlong]
        have hle : m.len ≤ z.maxPayload := UInt32.not_lt.mp hlong
        exact ⟨h.size, h.head, h.tail, h.lens, ⟨hz.uncut hle (hact m rfl hle).2, h.tail⟩, h.pop⟩
    | _ => exact h
  | producer => exact h.producerStep
  | pop =>
    refine ⟨_, rfl, ?_⟩
    cases hpc : s.pop with
    | idle => exact ⟨h.size, h.head, h.tail, h.lens, h.push, h.head⟩
    | _ => exact h
  | consumer => exact h.consumerStep
  | resetHead => exact ⟨_, rfl, h.size, hzero, h.tail, h.lens, h.push, h.pop⟩
  | resetTail => exact ⟨_, rfl, h.size, h.head, hzero, h.lens, h.push, h.pop⟩
  | producerDies => exact ⟨_, rfl, h.size, h.head, h.tail, h.lens, trivial, h.pop⟩
  | consumerDies => exact ⟨_, rfl, h.size, h.head, h.tail, h.lens, h.push, trivial⟩

end

/-! ### Sizes that do not -/

/-- Where no push gets past its checks, nothing moves. -/
structure Still (z : Sizes) (s : State) : Prop where
  head : s.head = 0
  tail : s.tail = 0
  push : s.push = .idle ∨ z.capacity = 1 ∧ ∃ m, s.push = .loadHead m 0
  pop : s.pop = .idle ∨ s.pop = .loadTail 0

section
variable {z : Sizes} {s : State}

theorem one_of_not_roomy (hz : ¬ Roomy z) {m : Msg} (hfits : Fits z m)
    (hle : m.len ≤ z.maxPayload) : z.capacity = 1 := by
  obtain ⟨hne, hone | ⟨hslot, -⟩⟩ := hfits hle
  · exact hone
  · by_contra hone
    have hzero : z.capacity.toNat ≠ 0 := fun h => hne (UInt32.toNat_inj.mp h)
    have hnotone : z.capacity.toNat ≠ 1 := fun h => hone (UInt32.toNat_inj.mp h)
    exact hz ⟨by omega, hslot⟩

theorem Still.step (h : Still z s) (hz : ¬ Roomy z) {act : Act}
    (hact : ∀ m, act = .push m → Fits z m) : ∃ s', step z s act = .ok s' ∧ Still z s' := by
  cases act with
  | push m =>
    refine ⟨_, rfl, ?_⟩
    rcases h.push with hpc | ⟨-, m', hpc⟩ <;> simp only [hpc]
    · by_cases hlong : z.maxPayload < m.len
      · rw [if_pos hlong]
        exact h
      · rw [if_neg hlong]
        have hone := one_of_not_roomy hz (hact m rfl) (UInt32.not_lt.mp hlong)
        exact ⟨h.head, h.tail, Or.inr ⟨hone, m, by rw [h.tail]⟩, h.pop⟩
    · exact h
  | producer =>
    rcases h.push with hpc | ⟨hone, m, hpc⟩
    · exact ⟨s, by rw [Words.step, producerStep, hpc], h⟩
    · have hnext : z.next 0 = .ok 0 := by
        rw [Sizes.next, hone]
        rfl
      refine ⟨{s with push := .idle}, ?_, h.head, h.tail, Or.inl rfl, h.pop⟩
      simp only [Words.step, producerStep, hpc]
      rw [map_of_ok hnext, if_pos h.head.symm]
  | pop =>
    refine ⟨_, rfl, ?_⟩
    rcases h.pop with hpc | hpc <;> simp only [hpc]
    · exact ⟨h.head, h.tail, h.push, Or.inr (by rw [h.head])⟩
    · exact h
  | consumer =>
    rcases h.pop with hpc | hpc
    · exact ⟨s, by rw [Words.step, consumerStep, hpc], h⟩
    · refine ⟨{s with pop := .idle}, ?_, h.head, h.tail, h.push, Or.inl rfl⟩
      simp only [Words.step, consumerStep, hpc]
      rw [if_pos h.tail.symm]
  | resetHead => exact ⟨_, rfl, rfl, h.tail, h.push, h.pop⟩
  | resetTail => exact ⟨_, rfl, h.head, rfl, h.push, h.pop⟩
  | producerDies => exact ⟨_, rfl, h.head, h.tail, Or.inl rfl, h.pop⟩
  | consumerDies => exact ⟨_, rfl, h.head, h.tail, h.push, Or.inl rfl⟩

/-! ### A message that does not fit -/

theorem of_map_ok {A : Type} {x : Except Violation A} {f : A → State} {s' : State}
    (h : x.map f = .ok s') : ∃ a, x = .ok a ∧ f a = s' := by
  cases x with
  | error v => cases h
  | ok a => exact ⟨a, rfl, Except.ok.inj h⟩

theorem le_of_access {index : UInt32} {offset count : Nat}
    (h : z.access index offset count = .ok ()) : offset + count ≤ z.slotSize.toNat := by
  by_contra hout
  rw [Sizes.access, if_pos (Nat.lt_of_not_le hout)] at h
  cases h

/-- More than one slot. -/
theorem one_mod_ne_zero {capacity : UInt32} (hne : capacity ≠ 0) (hone : capacity ≠ 1) :
    (0 + 1) % capacity ≠ 0 := by
  have hzero : capacity.toNat ≠ 0 := fun h => hne (UInt32.toNat_inj.mp h)
  have hnotone : capacity.toNat ≠ 1 := fun h => hone (UInt32.toNat_inj.mp h)
  have hunit : ((0 : UInt32) + 1).toNat = 1 := rfl
  intro h
  have hmod := congrArg UInt32.toNat h
  rw [UInt32.toNat_mod, hunit, Nat.mod_eq_of_lt (by omega)] at hmod
  exact absurd hmod (by decide)

/-- A push that writes its length has room for it. -/
theorem slot_lt_of_access {index : UInt32} (h : z.access index 4 4 = .ok ()) :
    8 + z.maxPayload.toNat < 2 ^ 32 := by
  have hle := le_of_access h
  have hmax := z.maxPayload.toNat_lt
  have hfields : (8 : UInt32).toNat = 8 := rfl
  rw [Sizes.slotSize, UInt32.toNat_add, hfields] at hle
  omega

section
variable {s' : State} {m : Msg} {tail next : UInt32}

theorem push_of_loadHead (hpush : s.push = .loadHead m tail) (h : producerStep z s = .ok s') :
    ∃ next, z.next tail = .ok next ∧
      s'.push = if next = s.head then .idle else .writeSeq m tail next := by
  rw [producerStep, hpush] at h
  obtain ⟨next, hnext, rfl⟩ := of_map_ok h
  exact ⟨next, hnext, rfl⟩

theorem push_of_writeSeq (hpush : s.push = .writeSeq m tail next) (h : producerStep z s = .ok s') :
    s'.push = .writeLen m tail next := by
  rw [producerStep, hpush] at h
  obtain ⟨_, _, rfl⟩ := of_map_ok h
  rfl

theorem push_of_writeLen (hpush : s.push = .writeLen m tail next) (h : producerStep z s = .ok s') :
    z.access tail 4 4 = .ok () ∧ s'.push = .writePayload m tail next := by
  rw [producerStep, hpush] at h
  obtain ⟨_, haccess, rfl⟩ := of_map_ok h
  exact ⟨haccess, rfl⟩

theorem push_of_writePayload (hpush : s.push = .writePayload m tail next)
    (h : producerStep z s = .ok s') : s'.push = .storeTail m tail next := by
  rw [producerStep, hpush] at h
  obtain ⟨_, _, rfl⟩ := of_map_ok h
  rfl

theorem stored_of_storeTail (hpush : s.push = .storeTail m tail next)
    (h : producerStep z s = .ok s') : Stored z s.slots tail m := by
  rw [producerStep, hpush] at h
  by_contra hnot
  simp only [if_neg hnot] at h
  cases h

end

/-- The accesses of a push, after the first. -/
def restOfPush : List Act := [.producer, .producer, .producer, .producer, .producer]

/-- A push into an empty ring makes all of them, except in a ring of one slot. -/
theorem restOfPush_ok (hhead : s.head = 0) {m : Msg} (hpush : s.push = .loadHead m 0) {t : State}
    (h : restOfPush.foldlM (step z) s = .ok t) : z.capacity ≠ 0 ∧
      (z.capacity = 1 ∨ 8 + z.maxPayload.toNat < 2 ^ 32 ∧ m.payload.length < 2 ^ 32) := by
  obtain ⟨s₁, h₁, h⟩ := foldlM_cons_ok h
  obtain ⟨s₂, h₂, h⟩ := foldlM_cons_ok h
  obtain ⟨s₃, h₃, h⟩ := foldlM_cons_ok h
  obtain ⟨s₄, h₄, h⟩ := foldlM_cons_ok h
  obtain ⟨s₅, h₅, -⟩ := foldlM_cons_ok h
  obtain ⟨next, hnext, hpush₁⟩ := push_of_loadHead hpush h₁
  have hne : z.capacity ≠ 0 := fun hzero => by
    rw [Sizes.next, if_pos hzero] at hnext
    cases hnext
  refine ⟨hne, or_iff_not_imp_left.mpr fun hone => ?_⟩
  have hroom : next ≠ s.head := by
    rw [Sizes.next, if_neg hne] at hnext
    rw [← Except.ok.inj hnext, hhead]
    exact one_mod_ne_zero hne hone
  rw [if_neg hroom] at hpush₁
  have hpush₂ := push_of_writeSeq hpush₁ h₂
  obtain ⟨hlen, hpush₃⟩ := push_of_writeLen hpush₂ h₃
  have hpush₄ := push_of_writePayload hpush₃ h₄
  have hstored := stored_of_storeTail hpush₄ h₅
  refine ⟨slot_lt_of_access hlen, ?_⟩
  rw [← hstored.1]
  exact UInt32.toNat_lt _

end

/-- No division by zero, no access outside of a slot or of the mapping, and no push that returns true
and has not stored the bytes it was called with, however calls are interleaved: if and only if every
message fits. -/
theorem sound_iff (z : Sizes) (messages : Msg → Prop) :
    Sound z messages ↔ ∀ m, messages m → Fits z m := by
  constructor
  · intro hsound m hm hle
    have hacts : ∀ m', Act.push m' ∈ Act.push m :: restOfPush → messages m' := by
      intro m' hm'
      simp only [restOfPush, List.mem_cons, Act.push.injEq, reduceCtorEq, List.not_mem_nil,
        or_false] at hm'
      exact hm' ▸ hm
    obtain ⟨t, ht⟩ := hsound _ hacts
    obtain ⟨s, hs, hrest⟩ := foldlM_cons_ok ht
    have hstart : s = {created z with push := .loadHead m 0} := by
      simp only [step, created, if_neg (UInt32.not_lt.mpr hle)] at hs
      exact (Except.ok.inj hs).symm
    exact restOfPush_ok (by rw [hstart]; rfl) (by rw [hstart]) hrest
  · intro hfits acts hacts
    have hadmitted : ∀ act ∈ acts, ∀ m, act = .push m → Fits z m :=
      fun act hact m heq => hfits m (hacts m (heq ▸ hact))
    by_cases hz : Roomy z
    · obtain ⟨t, ht, -⟩ := foldlM_ok (Live hz) (fun act => ∀ m, act = .push m → Fits z m)
        (step z) (fun s act h hact => h.step hact) acts (created z) (live_created hz) hadmitted
      exact ⟨t, ht⟩
    · obtain ⟨t, ht, -⟩ := foldlM_ok (Still z) (fun act => ∀ m, act = .push m → Fits z m)
        (step z) (fun s act h hact => h.step hz hact) acts (created z)
        ⟨rfl, rfl, Or.inl rfl, Or.inl rfl⟩ hadmitted
      exact ⟨t, ht⟩

/-- No slot, and slots that are smaller than their fields. -/
theorem small_rings_fault :
    [.push ⟨0, [1]⟩, .producer].foldlM (step ⟨0, 1400⟩) (created ⟨0, 1400⟩) =
        .error .moduloByZero ∧
      [.push ⟨0, [1]⟩, .producer, .producer, .producer].foldlM (step ⟨2, 0xFFFFFFFF⟩)
        (created ⟨2, 0xFFFFFFFF⟩) = .error .outsideSlot := by
  decide

end Relink.Shm.Words
