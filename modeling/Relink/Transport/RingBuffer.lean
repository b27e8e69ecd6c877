import Relink.Library.DropOldest
import Relink.Library.Ring

/-! The ring buffer of a topic.

`RingBuffer` keeps `Capacity` slots in an array, the index of the oldest element, the one to write
next and the number of elements. `ringBuffer_drops_oldest` says that it is the bounded queue that
drops its oldest element. -/
namespace Relink.Transport
open DropOldest Transition

/-- `tail_` is as far behind `head_` as there are elements, so `head_ + 1`, `tail_ + 1` and
`count_ + 1` are at most `Capacity` where the code computes them, and no `size_t` wraps. -/
structure RingBuffer (α : Type) (capacity : Nat) where
  data : Vector α capacity
  head : Nat
  tail : Nat
  count : Nat
  head_lt : head < capacity
  tail_eq : tail = (head + count) % capacity
  count_le : count ≤ capacity

namespace RingBuffer
variable {α : Type} {capacity : Nat}

theorem init_tail {capacity : Nat} : 0 = (0 + 0) % capacity := (Nat.zero_mod capacity).symm

/-- A buffer of value-initialized elements. -/
def init [Inhabited α] (hpos : 0 < capacity) : RingBuffer α capacity where
  data := Vector.replicate capacity default
  head := 0
  tail := 0
  count := 0
  head_lt := hpos
  tail_eq := init_tail
  count_le := Nat.zero_le capacity

theorem pos (b : RingBuffer α capacity) : 0 < capacity := Nat.lt_of_le_of_lt (Nat.zero_le _) b.head_lt

theorem next_lt (b : RingBuffer α capacity) (index : Nat) : (index + 1) % capacity < capacity :=
  Nat.mod_lt _ b.pos

variable (b : RingBuffer α capacity)

theorem tail_lt : b.tail < capacity := b.tail_eq ▸ Nat.mod_lt _ b.pos

theorem full_tail (h : b.count = capacity) :
    (b.tail + 1) % capacity = ((b.head + 1) % capacity + b.count) % capacity := by
  rw [b.tail_eq, Ring.succ_mod, Nat.mod_add_mod, h]
  congr 1
  omega

theorem room_tail : (b.tail + 1) % capacity = (b.head + (b.count + 1)) % capacity := by
  rw [b.tail_eq, Ring.succ_mod, Nat.add_assoc]

theorem room_count (h : ¬b.count = capacity) : b.count + 1 ≤ capacity :=
  Nat.lt_of_le_of_ne b.count_le h

theorem pop_tail (h : ¬b.count = 0) :
    b.tail = ((b.head + 1) % capacity + (b.count - 1)) % capacity := by
  rw [b.tail_eq, Nat.mod_add_mod]
  congr 1
  omega

theorem pop_count : b.count - 1 ≤ capacity := (Nat.sub_le ..).trans b.count_le

def push (value : α) : RingBuffer α capacity × Bool :=
  if h : b.count = capacity then
    ({ data := b.data.set b.tail value b.tail_lt
       head := (b.head + 1) % capacity
       tail := (b.tail + 1) % capacity
       count := b.count
       head_lt := b.next_lt b.head
       tail_eq := b.full_tail h
       count_le := b.count_le }, true)
  else
    ({ data := b.data.set b.tail value b.tail_lt
       head := b.head
       tail := (b.tail + 1) % capacity
       count := b.count + 1
       head_lt := b.head_lt
       tail_eq := b.room_tail
       count_le := b.room_count h }, false)

def pop : RingBuffer α capacity × Option α :=
  if h : b.count = 0 then (b, none)
  else
    ({ data := b.data
       head := (b.head + 1) % capacity
       tail := b.tail
       count := b.count - 1
       head_lt := b.next_lt b.head
       tail_eq := b.pop_tail h
       count_le := b.pop_count }, some (b.data.get ⟨b.head, b.head_lt⟩))

def size : Nat := b.count
def empty : Bool := b.count == 0
def full : Bool := b.count == capacity

def clear : RingBuffer α capacity where
  data := b.data
  head := 0
  tail := 0
  count := 0
  head_lt := b.pos
  tail_eq := init_tail
  count_le := Nat.zero_le capacity

def step : Op α → RingBuffer α capacity × Answer α
  | .push value => ((b.push value).1, .pushed (b.push value).2)
  | .pop => (b.pop.1, .popped b.pop.2)
  | .clear => (b.clear, .cleared)

/-! ### The queue that a buffer holds -/

/-- The elements from the oldest on. -/
def queue : List α :=
  (List.range b.count).map fun i => b.data.get ⟨(b.head + i) % capacity, Nat.mod_lt _ b.pos⟩

@[simp] theorem queue_length : b.queue.length = b.count := by
  rw [queue, List.length_map, List.length_range]

theorem queue_getElem (i : Nat) (h : i < b.queue.length) :
    b.queue[i] = getElem b.data ((b.head + i) % capacity) (Nat.mod_lt _ b.pos) := by
  simp only [queue, List.getElem_map, List.getElem_range]
  rfl

/-- The slot at `tail_` is none of those that are in use. -/
theorem slot_ne_tail {i : Nat} (hi : i < b.count) (hroom : ¬b.count = capacity) :
    b.tail ≠ (b.head + i) % capacity := by
  have hle := b.count_le
  rw [b.tail_eq]
  exact (Ring.slot_ne (by omega) (by omega)).symm

theorem queue_push_room (h : ¬b.count = capacity) (value : α) :
    (b.push value).1.queue = b.queue ++ [value] := by
  have hpush : (b.push value).1.count = b.count + 1 := by rw [push, dif_neg h]
  refine List.ext_getElem (by rw [queue_length, hpush, List.length_append, queue_length]; rfl) ?_
  intro i hi _
  rw [queue_length, hpush] at hi
  rw [queue_getElem]
  simp only [push, dif_neg h]
  by_cases hlast : i = b.count
  · subst hlast
    rw [List.getElem_append_right (by rw [queue_length])]
    simp [← b.tail_eq]
  · have hlt : i < b.count := by omega
    rw [List.getElem_append_left (by rwa [queue_length]), queue_getElem,
      Vector.getElem_set_ne _ _ (b.slot_ne_tail hlt h)]

theorem queue_pop : b.pop.1.queue = b.queue.tail ∧ b.pop.2 = b.queue.head? := by
  by_cases h : b.count = 0
  · have hempty : b.queue = [] := List.eq_nil_of_length_eq_zero (by rw [queue_length, h])
    rw [pop, dif_pos h, hempty]
    exact ⟨rfl, rfl⟩
  · have hpop : b.pop.1.count = b.count - 1 := by rw [pop, dif_neg h]
    constructor
    · refine List.ext_getElem (by rw [queue_length, hpop, List.length_tail, queue_length]) ?_
      intro i hi htail
      rw [queue_getElem, List.getElem_tail, queue_getElem]
      simp only [pop, dif_neg h]
      congr 1
      rw [Nat.mod_add_mod, Nat.add_assoc, Nat.add_comm 1]
    · have hpos : 0 < b.queue.length := by
        rw [queue_length]
        omega
      rw [List.head?_eq_getElem?, List.getElem?_eq_getElem hpos, queue_getElem, pop, dif_neg h]
      simp only [Nat.add_zero, Nat.mod_eq_of_lt b.head_lt]
      rfl

/-- On a full buffer a push is a pop and a push. -/
theorem push_full (h : b.count = capacity) (value : α) :
    (b.push value).1 = (b.pop.1.push value).1 := by
  have hpos := b.pos
  have hne : ¬b.count = 0 := by omega
  have hpop : b.pop.1.count = b.count - 1 := by rw [pop, dif_neg hne]
  have hroom : ¬b.pop.1.count = capacity := by omega
  rw [push, dif_pos h, push, dif_neg hroom]
  simp only [pop, dif_neg hne, mk.injEq, true_and]
  omega

theorem queue_push (value : α) :
    (b.push value).1.queue = (DropOldest.push capacity b.queue value).1 ∧
      (b.push value).2 = (DropOldest.push capacity b.queue value).2 := by
  rw [DropOldest.push, queue_length]
  by_cases h : b.count = capacity
  · have hpos := b.pos
    have hroom : ¬b.pop.1.count = capacity := by
      rw [pop, dif_neg (by omega)]
      show ¬b.count - 1 = capacity
      omega
    rw [if_pos h, b.push_full h, queue_push_room _ hroom, b.queue_pop.1]
    exact ⟨rfl, by rw [push, dif_pos h]⟩
  · rw [if_neg h, b.queue_push_room h]
    exact ⟨rfl, by rw [push, dif_neg h]⟩

/-- One operation. -/
theorem step_queue (op : Op α) :
    (b.step op).2 = (DropOldest.step capacity b.queue op).2 ∧
      (b.step op).1.queue = (DropOldest.step capacity b.queue op).1 := by
  cases op with
  | push value =>
    obtain ⟨hqueue, hdropped⟩ := b.queue_push value
    exact ⟨congrArg Answer.pushed hdropped, hqueue⟩
  | pop =>
    obtain ⟨hqueue, hvalue⟩ := b.queue_pop
    exact ⟨congrArg Answer.popped hvalue, hqueue⟩
  | clear => exact ⟨rfl, rfl⟩

/-- The buffer after a sequence of operations. -/
def run [Inhabited α] (hpos : 0 < capacity) (ops : List (Op α)) : RingBuffer α capacity :=
  ops.foldl (fun b op => (b.step op).1) (init hpos)

theorem run_sim [Inhabited α] (hpos : 0 < capacity) (ops : List (Op α)) :
    outputs step (init hpos) ops = outputs (DropOldest.step capacity) [] ops ∧
      (run hpos ops).queue = DropOldest.run capacity ops :=
  outputs_sim (fun (b : RingBuffer α capacity) queue => b.queue = queue) step
    (DropOldest.step capacity) (fun b _ op h => h ▸ b.step_queue op) ops _ _ rfl

/-- **The buffer is a bounded queue that drops its oldest element**: it answers every sequence of
operations like the queue, reports the queue's size, and what was pushed is what has left, in order,
and then the queue. -/
theorem ringBuffer_drops_oldest [Inhabited α] (hpos : 0 < capacity) (ops : List (Op α)) :
    outputs step (init hpos) ops = outputs (DropOldest.step capacity) [] ops ∧
      (run hpos ops).queue = DropOldest.run capacity ops ∧
      (DropOldest.run capacity ops).length ≤ capacity ∧
      (run hpos ops).size = (DropOldest.run capacity ops).length ∧
      (run hpos ops).empty = (DropOldest.run capacity ops).isEmpty ∧
      (run hpos ops).full = ((DropOldest.run capacity ops).length == capacity) ∧
      ops.flatMap Op.pushed = departed capacity [] ops ++ DropOldest.run capacity ops := by
  obtain ⟨houts, hqueue⟩ := run_sim hpos ops
  have hcount : (run hpos ops).count = (DropOldest.run capacity ops).length := by
    rw [← hqueue, queue_length]
  refine ⟨houts, hqueue, run_length hpos ops, hcount, ?_, ?_, (departed_run capacity ops).symm⟩
  · rw [empty, hcount]
    cases DropOldest.run capacity ops <;> rfl
  · rw [full, hcount]

/-- Four pushes on three slots. -/
theorem ringBuffer_drops_oldest_three :
    outputs step (init (by decide : 0 < 3)) [.push 1, .push 2, .push 3, .push 4, .pop] =
      [.pushed false, .pushed false, .pushed false, .pushed true, .popped (some 2)] :=
  (ringBuffer_drops_oldest (by decide : 0 < 3) _).1.trans (by decide)

end RingBuffer
end Relink.Transport
