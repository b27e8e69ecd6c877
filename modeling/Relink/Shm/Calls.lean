import Relink.Shm.Fifo

/-! Whole calls.

A `try_push` or `try_pop_zero_copy` that nobody else interrupts goes from one state of the segment
to another. Whatever lies in a segment, of which only the indices have to be inside, a message that
a push has accepted is found by pops. -/
namespace Relink.Shm
open Buffer LittleEndian
open Wire (Bytes)

/-! ### The calls -/

/-- The slot at `tail`, with a message in it. -/
def Segment.fill (p : Params) (seg : Segment) (m : Msg) : Segment :=
  ((seg.write (p.slotAt seg.tail) (u32 m.seqNum)).write (p.slotAt seg.tail + 4) (u32 m.len)).write
    (p.slotAt seg.tail + 8) m.payload

/-- `try_push`. -/
def tryPush (p : Params) (seg : Segment) (m : Msg) : Segment × Bool :=
  if p.maxPayload < m.payload.length ∨ p.next seg.tail = seg.head then (seg, false)
  else ({seg.fill p m with tail := p.next seg.tail}, true)

/-- What a slot says. -/
def Segment.msgAt (p : Params) (seg : Segment) (index : Nat) : Msg :=
  ⟨readU32 (p.slotAt index) seg.slots,
    region seg.slots (p.slotAt index + 8) (readU32 (p.slotAt index + 4) seg.slots).toNat⟩

/-- `try_pop_zero_copy`, and what the callback is handed. -/
def tryPop (p : Params) (seg : Segment) : Segment × Option Msg :=
  if seg.head = seg.tail then (seg, none)
  else ({seg with head := p.next seg.head}, some (seg.msgAt p seg.head))

/-- The segment after so many pops. -/
def popped (p : Params) (seg : Segment) : Nat → Segment
  | 0 => seg
  | k + 1 => popped p (tryPop p seg).1 k

section
variable {p : Params} {s : State} {seg : Segment} {m : Msg}

/-- The accesses of a push, one after the other. -/
theorem pushes_eq (hpush : s.push = .idle) : (pushes m).foldl (step p) s =
    { s with
      seg := (tryPush p s.seg m).1
      accepted := s.accepted ++ if (tryPush p s.seg m).2 then [m] else [] } := by
  obtain ⟨seg, push, pop, accepted, delivered, released⟩ := s
  obtain rfl : push = .idle := hpush
  simp only [pushes, List.replicate, List.foldl, step, startPush, tryPush]
  by_cases hlong : p.maxPayload < m.payload.length
  · simp [hlong, producerStep]
  · by_cases hfull : p.next seg.tail = seg.head
    · simp [hlong, hfull, producerStep]
    · simp [hlong, hfull, producerStep, Segment.fill, Segment.write]

theorem pops_eq (hpop : s.pop = .idle) : (pops .zeroCopy).foldl (step p) s =
    { s with
      seg := (tryPop p s.seg).1
      delivered := s.delivered ++ (tryPop p s.seg).2.toList
      released := s.released + (tryPop p s.seg).2.toList.length } := by
  obtain ⟨seg, push, pop, accepted, delivered, released⟩ := s
  obtain rfl : pop = .idle := hpop
  simp only [pops, List.replicate, List.foldl, step, startPop, tryPop]
  by_cases hempty : seg.head = seg.tail
  · simp [hempty, consumerStep]
  · simp [hempty, consumerStep, Segment.msgAt]

/-! ### What a pop finds -/

/-- The indices are inside. -/
structure Segment.Sound (p : Params) (seg : Segment) : Prop where
  head : seg.head < p.capacity
  tail : seg.tail < p.capacity
  size : seg.slots.length = p.capacity * p.slotSize

theorem next_lt (index : Nat) : p.next index < p.capacity := Nat.mod_lt _ p.capacity_pos

theorem Segment.Sound.tryPop (h : seg.Sound p) : (tryPop p seg).1.Sound p := by
  unfold Shm.tryPop
  split
  · exact h
  · exact ⟨next_lt _, h.tail, h.size⟩

/-- A push that refuses changes nothing. -/
theorem tryPush_refused (h : (tryPush p seg m).2 = false) : (tryPush p seg m).1 = seg := by
  unfold tryPush at h ⊢
  split at h
  · next hrefused => rw [if_pos hrefused]
  · cases h

/-- The slot that a push has filled. -/
theorem holds_tryPush (h : seg.Sound p) (haccepted : (tryPush p seg m).2 = true) :
    Holds p (tryPush p seg m).1.slots seg.tail m ∧ (tryPush p seg m).1.Sound p ∧
      m.payload.length ≤ p.maxPayload ∧ p.next seg.tail ≠ seg.head ∧
      (tryPush p seg m).1.head = seg.head ∧ (tryPush p seg m).1.tail = p.next seg.tail := by
  unfold tryPush at haccepted ⊢
  split at haccepted
  · cases haccepted
  · next hroom =>
    rw [if_neg hroom]
    rw [not_or, Nat.not_lt] at hroom
    have hinside := p.slotAt_inside h.tail
    have hslot := p.slotSize_eq
    have hsize := h.size
    have hseq : p.slotAt seg.tail + (u32 m.seqNum).length ≤ seg.slots.length := by
      rw [u32_length]
      omega
    have hlen : p.slotAt seg.tail + 4 + (u32 m.len).length ≤
        (write seg.slots (p.slotAt seg.tail) (u32 m.seqNum)).length := by
      rw [write_length hseq, u32_length]
      omega
    have hpayload : p.slotAt seg.tail + 8 + m.payload.length ≤
        (write (write seg.slots (p.slotAt seg.tail) (u32 m.seqNum)) (p.slotAt seg.tail + 4)
          (u32 m.len)).length := by
      rw [write_length hlen, write_length hseq]
      omega
    refine ⟨⟨?_, ?_, region_write hpayload⟩, ⟨h.head, next_lt _, ?_⟩, hroom.1, hroom.2, rfl, rfl⟩
    · simp only [Segment.fill, Segment.write]
      rw [region_write_apart hpayload (Or.inl (by omega)),
        region_write_apart hlen (Or.inl (le_refl _))]
      exact region_write hseq
    · simp only [Segment.fill, Segment.write]
      rw [region_write_apart hpayload (Or.inl (by omega))]
      exact region_write hlen
    · simp only [Segment.fill, Segment.write]
      rw [write_length hpayload, write_length hlen, write_length hseq, hsize]

theorem Segment.Sound.tryPush (h : seg.Sound p) : (tryPush p seg m).1.Sound p := by
  cases haccepted : (Shm.tryPush p seg m).2 with
  | false => rwa [tryPush_refused haccepted]
  | true => exact (holds_tryPush h haccepted).2.1

theorem Holds.msgAt {index : Nat} (h : Holds p seg.slots index m)
    (hfits : m.payload.length ≤ p.maxPayload) : seg.msgAt p index = m := by
  rw [Segment.msgAt, readU32_region h.seqNum, readU32_region h.len, Msg.len_toNat hfits, h.payload]

theorem tryPop_holds (hne : seg.head ≠ seg.tail) (hholds : Holds p seg.slots seg.head m)
    (hfits : m.payload.length ≤ p.maxPayload) : (tryPop p seg).2 = some m := by
  rw [tryPop, if_neg hne, hholds.msgAt hfits]

/-- Pops go through the slots up to `tail`. -/
theorem popped_finds {d : Nat} (h : seg.Sound p)
    (hbefore : ∀ j ≤ d, (seg.head + j) % p.capacity ≠ seg.tail)
    (hholds : Holds p seg.slots ((seg.head + d) % p.capacity) m)
    (hfits : m.payload.length ≤ p.maxPayload) : ∃ k, (tryPop p (popped p seg k)).2 = some m := by
  induction d generalizing seg with
  | zero =>
    rw [Nat.add_zero, Nat.mod_eq_of_lt h.head] at hholds
    have hne := hbefore 0 (le_refl 0)
    rw [Nat.add_zero, Nat.mod_eq_of_lt h.head] at hne
    exact ⟨0, tryPop_holds hne hholds hfits⟩
  | succ d ih =>
    have hne := hbefore 0 (Nat.zero_le _)
    rw [Nat.add_zero, Nat.mod_eq_of_lt h.head] at hne
    have hpop : (tryPop p seg).1 = {seg with head := p.next seg.head} := by
      unfold tryPop
      rw [if_neg hne]
    have hnext : ∀ j,
        ((tryPop p seg).1.head + j) % p.capacity = (seg.head + (j + 1)) % p.capacity := by
      intro j
      have hcap := p.capacity_lt
      have hhead := h.head
      rw [hpop]
      show ((seg.head + 1) % 2 ^ 32 % p.capacity + j) % p.capacity = _
      rw [Nat.mod_eq_of_lt (by omega : seg.head + 1 < 2 ^ 32), Nat.mod_add_mod, Nat.add_assoc,
        Nat.add_comm 1]
    have hslots : (tryPop p seg).1.slots = seg.slots := by rw [hpop]
    have htail : (tryPop p seg).1.tail = seg.tail := by rw [hpop]
    obtain ⟨k, hk⟩ := ih h.tryPop
      (fun j hj => by rw [hnext, htail]; exact hbefore (j + 1) (Nat.succ_le_succ hj))
      (by rw [hnext, hslots]; exact hholds)
    exact ⟨k + 1, hk⟩

/-- **What a push accepts pops will find**, whatever is in the segment before it. -/
theorem accepted_found (h : seg.Sound p) (haccepted : (tryPush p seg m).2 = true) :
    ∃ k, (tryPop p (popped p (tryPush p seg m).1 k)).2 = some m := by
  obtain ⟨hholds, hsound, hfits, hroom, hhead, htail⟩ := holds_tryPush h haccepted
  have hcap := p.capacity_lt
  have hh := h.head
  have ht := h.tail
  have hnext : p.next seg.tail = (seg.tail + 1) % p.capacity := by
    show (seg.tail + 1) % 2 ^ 32 % p.capacity = _
    rw [Nat.mod_eq_of_lt (by omega : seg.tail + 1 < 2 ^ 32)]
  -- how far the filled slot lies after `head`
  obtain ⟨d, hd, hslot⟩ : ∃ d < p.capacity, (seg.head + d) % p.capacity = seg.tail := by
    by_cases hle : seg.head ≤ seg.tail
    · exact ⟨seg.tail - seg.head, by omega, by rw [Nat.mod_eq_of_lt (by omega)]; omega⟩
    · refine ⟨seg.tail + p.capacity - seg.head, by omega, ?_⟩
      rw [show seg.head + (seg.tail + p.capacity - seg.head) = seg.tail + p.capacity by omega,
        Nat.add_mod_right, Nat.mod_eq_of_lt ht]
  have hbefore : ∀ j ≤ d, (seg.head + j) % p.capacity ≠ (seg.tail + 1) % p.capacity := by
    intro j hj heq
    rw [hnext, ← hslot, Nat.mod_add_mod, Nat.add_assoc] at hroom
    rw [← hslot, Nat.mod_add_mod, Nat.add_assoc] at heq
    rcases Nat.lt_or_ge (d + 1) p.capacity with hlt | hge
    · exact absurd (Nat.ModEq.add_left_cancel' seg.head heq)
        (by unfold Nat.ModEq; rw [Nat.mod_eq_of_lt (by omega), Nat.mod_eq_of_lt hlt]; omega)
    · rw [show d + 1 = p.capacity by omega, Nat.add_mod_right, Nat.mod_eq_of_lt hh] at hroom
      exact hroom rfl
  refine popped_finds hsound (d := d) ?_ ?_ hfits
  · rw [hhead, htail, hnext]
    exact hbefore
  · rw [hhead, hslot]
    exact hholds

end
end Relink.Shm
