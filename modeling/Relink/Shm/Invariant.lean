import Relink.Shm.Ring

/-! What holds of a ring between any two accesses.

The indices are the counts of what went in and out, modulo the capacity, and every slot
between them holds its message. A steal of the segment suspends parts of this: `H` says
that `head` is where the consumer left it, and `K` that what is in the ring is kept. A call
that was running when the indices were reset holds an index that is not current; the last
access of each call says what it needs. -/
namespace Relink.Shm
open Buffer LittleEndian
open Wire (Bytes)

/-- A slot holds a message. -/
structure Holds (p : Params) (slots : Bytes) (index : Nat) (m : Msg) : Prop where
  seqNum : region slots (p.slotAt index) 4 = u32 m.seqNum
  len : region slots (p.slotAt index + 4) 4 = u32 m.len
  payload : region slots (p.slotAt index + 8) m.payload.length = m.payload

/-- What is in the ring is there to be read. -/
structure Kept (p : Params) (s : State) : Prop where
  lt : s.accepted.length < s.released + p.capacity
  held : ∀ i m, s.released ≤ i → s.accepted[i]? = some m →
    Holds p s.seg.slots (i % p.capacity) m

/-- Where the indices are, and the messages. -/
structure Intact (p : Params) (H K : Prop) (s : State) : Prop where
  tail : s.seg.tail = s.accepted.length % p.capacity
  head : H → s.seg.head = s.released % p.capacity
  head_lt : s.seg.head < p.capacity
  le : s.released ≤ s.accepted.length
  size : s.seg.slots.length = p.capacity * p.slotSize
  fits : ∀ m ∈ s.accepted, m.payload.length ≤ p.maxPayload
  kept : K → Kept p s

/-- The slot of a push that found room. It is the next one, except where a reset has
emptied the ring in the meantime. -/
structure Vacant (p : Params) (H : Prop) (s : State) (m : Msg) (tail : Nat) : Prop where
  lt : tail < p.capacity
  two : 1 < p.capacity
  fits : m.payload.length ≤ p.maxPayload
  current : tail = s.seg.tail ∨ s.accepted = []
  room : H → tail = s.seg.tail → s.accepted.length + 1 < s.released + p.capacity

/-- What a push has written so far. -/
def PushInv (p : Params) (H : Prop) (s : State) : Prop :=
  match s.push with
  | .idle => True
  | .loadHead m tail => tail < p.capacity ∧ m.payload.length ≤ p.maxPayload ∧
    (tail = s.seg.tail ∨ s.accepted = [])
  | .writeSeq m tail => Vacant p H s m tail
  | .writeLen m tail => Vacant p H s m tail ∧ region s.seg.slots (p.slotAt tail) 4 = u32 m.seqNum
  | .writePayload m tail => Vacant p H s m tail ∧
    region s.seg.slots (p.slotAt tail) 4 = u32 m.seqNum ∧
    region s.seg.slots (p.slotAt tail + 4) 4 = u32 m.len
  | .storeTail m tail => Vacant p H s m tail ∧ Holds p s.seg.slots tail m

/-- A pop is at the oldest message in the ring. -/
def AtFront (p : Params) (s : State) (head : Nat) (m : Msg) : Prop :=
  head = s.released % p.capacity ∧ s.accepted[s.released]? = some m

/-- What a pop has read so far. -/
def PopInv (p : Params) (s : State) : Prop :=
  match s.pop with
  | .idle => s.delivered = s.accepted.take s.released
  | .loadTail _ _ => s.delivered = s.accepted.take s.released
  | .readSeq _ head => s.delivered = s.accepted.take s.released ∧ ∃ m, AtFront p s head m
  | .readLen _ head seqNum => s.delivered = s.accepted.take s.released ∧
    ∃ m, AtFront p s head m ∧ seqNum = m.seqNum
  | .readPayload _ head seqNum len => s.delivered = s.accepted.take s.released ∧
    ∃ m, AtFront p s head m ∧ seqNum = m.seqNum ∧ len = m.len
  | .callback head => s.delivered = s.accepted.take (s.released + 1) ∧ ∃ m, AtFront p s head m
  | .storeHead head => s.delivered = s.accepted.take (s.released + 1) ∧ ∃ m, AtFront p s head m

structure Inv (p : Params) (H K : Prop) (s : State) : Prop where
  intact : Intact p H K s
  push : PushInv p H s
  pop : PopInv p s

/-- The `tail` a push has loaded, when it is about to store the next. -/
def PushPc.storing : PushPc → Option Nat
  | .storeTail _ tail => some tail
  | _ => none

/-- The `head` a pop has loaded, when it is about to check for messages. -/
def PopPc.checking : PopPc → Option Nat
  | .loadTail _ head => some head
  | _ => none

/-- A push stores `tail` over the value it loaded. -/
def TailCurrent (s : State) : Prop := ∀ tail ∈ s.push.storing, tail = s.seg.tail

/-- A pop that finds messages has loaded the index of the oldest. -/
def HeadCurrent (p : Params) (s : State) : Prop :=
  ∀ head ∈ s.pop.checking, head = s.seg.tail ∨ head = s.released % p.capacity

instance (s : State) : Decidable (TailCurrent s) :=
  inferInstanceAs (Decidable (∀ tail ∈ s.push.storing, tail = s.seg.tail))

instance (p : Params) (s : State) : Decidable (HeadCurrent p s) :=
  inferInstanceAs (Decidable (∀ head ∈ s.pop.checking,
    head = s.seg.tail ∨ head = s.released % p.capacity))

/-! ### Slots -/

section
variable {p : Params} {slots src : Bytes} {index j k : Nat} {m : Msg}

/-- A word that was written is the word that is read. -/
theorem readU32_region {off : Nat} {x : UInt32} (h : region slots off 4 = u32 x) :
    readU32 off slots = x := by
  have hread : read 4 off slots = x.toNat := by
    rw [LittleEndian.read, ← region, h, u32, value_bytes_of_lt x.toNat_lt]
  rw [readU32, hread, UInt32.ofNat_toNat]

theorem Msg.len_toNat (h : m.payload.length ≤ p.maxPayload) : m.len.toNat = m.payload.length := by
  have hslot := p.slot_lt
  rw [Msg.len, UInt32.toNat_ofNat', Nat.mod_eq_of_lt (by omega)]

/-- What is written in one slot leaves the bytes of another alone. -/
theorem region_other_slot (hsize : slots.length = p.capacity * p.slotSize) (hj : j < p.capacity)
    (hsrc : k + src.length ≤ p.slotSize) (hne : index ≠ j) (off : Nat) {count : Nat}
    (hin : off + count ≤ p.slotSize) :
    region (write slots (p.slotAt j + k) src) (p.slotAt index + off) count =
      region slots (p.slotAt index + off) count := by
  have hinside := p.slotAt_inside hj
  refine region_write_apart (by omega) ?_
  rcases p.slotAt_apart hne with h | h
  · exact Or.inl (by omega)
  · exact Or.inr (by omega)

theorem Holds.write_other (h : Holds p slots index m) (hfits : m.payload.length ≤ p.maxPayload)
    (hsize : slots.length = p.capacity * p.slotSize) (hj : j < p.capacity)
    (hsrc : k + src.length ≤ p.slotSize) (hne : index ≠ j) :
    Holds p (Buffer.write slots (p.slotAt j + k) src) index m := by
  have hslot := p.slotSize_eq
  refine ⟨?_, ?_, ?_⟩
  · rw [← h.seqNum]
    exact region_other_slot hsize hj hsrc hne 0 (by omega)
  · rw [← h.len]
    exact region_other_slot hsize hj hsrc hne 4 (by omega)
  · conv_rhs => rw [← h.payload]
    exact region_other_slot hsize hj hsrc hne 8 (by omega)

end

/-! ### The producer's steps -/

section
variable {p : Params} {H K : Prop} {s : State}

theorem Intact.tail_lt (h : Intact p H K s) : s.seg.tail < p.capacity :=
  h.tail ▸ Nat.mod_lt _ p.capacity_pos

theorem Intact.room (h : Intact p H K s) (hK : K) :
    Ring.Room p.capacity s.accepted.length s.released :=
  ⟨h.le, (h.kept hK).lt⟩

/-- The front of the ring holds the message a pop is at. -/
theorem Intact.front (h : Intact p H K s) (hK : K) {head : Nat} {m : Msg}
    (hfront : AtFront p s head m) :
    Holds p s.seg.slots head m ∧ m.payload.length ≤ p.maxPayload := by
  obtain ⟨hhead, hm⟩ := hfront
  rw [hhead]
  exact ⟨(h.kept hK).held _ m (le_refl _) hm, h.fits m (List.mem_of_getElem? hm)⟩

/-- The slot of a push is none of those in the ring. -/
theorem Vacant.ne (h : Vacant p H s m tail) (hintact : Intact p H K s) (hK : K) {i : Nat}
    (hi : s.released ≤ i) (hlt : i < s.accepted.length) : i % p.capacity ≠ tail := by
  rcases h.current with heq | hempty
  · rw [heq, hintact.tail]
    exact (hintact.room hK).free hi hlt
  · rw [hempty] at hlt
    exact absurd hlt (Nat.not_lt_zero _)

theorem Vacant.of_eq (h : Vacant p H s m tail) {s' : State} (htail : s'.seg.tail = s.seg.tail)
    (haccepted : s'.accepted = s.accepted) (hreleased : s.released ≤ s'.released) :
    Vacant p H s' m tail := by
  refine ⟨h.lt, h.two, h.fits, ?_, fun hH heq => ?_⟩
  · rw [htail, haccepted]
    exact h.current
  · have hroom := h.room hH (heq.trans htail)
    rw [haccepted]
    omega

/-- Writing it touches no message in the ring. -/
theorem Intact.write (h : Intact p H K s) {m : Msg} {tail : Nat}
    (hvacant : Vacant p H s m tail) (k : Nat) (src : Bytes) (hsrc : k + src.length ≤ p.slotSize) :
    Intact p H K {s with seg := s.seg.write (p.slotAt tail + k) src} := by
  have hinside := p.slotAt_inside hvacant.lt
  have hsize := h.size
  refine ⟨h.tail, h.head, h.head_lt, h.le, ?_, h.fits,
    fun hK => ⟨(h.kept hK).lt, fun i m' hi hm' => ?_⟩⟩
  · rw [← hsize]
    exact write_length (by omega)
  · have hilt : i < s.accepted.length := (List.getElem?_eq_some_iff.mp hm').1
    exact ((h.kept hK).held i m' hi hm').write_other (h.fits m' (List.mem_of_getElem? hm')) hsize
      hvacant.lt hsrc (hvacant.ne h hK hi hilt)

/-- The counters of the two sides are no part of it. -/
theorem Intact.of_eq (h : Intact p H K s) {s' : State} (hseg : s'.seg = s.seg)
    (haccepted : s'.accepted = s.accepted) (hreleased : s'.released = s.released) :
    Intact p H K s' := by
  refine ⟨?_, ?_, ?_, ?_, ?_, ?_, fun hK => ⟨?_, ?_⟩⟩ <;> simp only [hseg, haccepted, hreleased]
  · exact h.tail
  · exact h.head
  · exact h.head_lt
  · exact h.le
  · exact h.size
  · exact h.fits
  · exact (h.kept hK).lt
  · exact (h.kept hK).held

/-- A `tail` stored over the current one adds the message of its slot. -/
theorem Intact.accept (h : Intact p H K s) (hKH : K → H) {m : Msg} {tail : Nat}
    (hvacant : Vacant p H s m tail) (hholds : Holds p s.seg.slots tail m)
    (hcurrent : tail = s.seg.tail) : Intact p H K { s with
      seg := {s.seg with tail := p.next tail}
      push := .idle
      accepted := s.accepted ++ [m] } := by
  have htail : tail = s.accepted.length % p.capacity := hcurrent.trans h.tail
  refine ⟨?_, h.head, h.head_lt, ?_, h.size, fun m' hm' => ?_, fun hK => ⟨?_, fun i m' hi hm' => ?_⟩⟩
  · show p.next tail = _
    rw [htail, p.next_mod, List.length_append, List.length_singleton]
  · have hle := h.le
    simp only [List.length_append, List.length_singleton]
    omega
  · rcases List.mem_append.mp hm' with hm' | hm'
    · exact h.fits m' hm'
    · exact List.mem_singleton.mp hm' ▸ hvacant.fits
  · have hroom := hvacant.room (hKH hK) hcurrent
    simp only [List.length_append, List.length_singleton]
    omega
  · rcases Nat.lt_or_ge i s.accepted.length with hlast | hlast
    · exact (h.kept hK).held i m' hi ((List.getElem?_append_left hlast).symm.trans hm')
    · have hlt := (List.getElem?_eq_some_iff.mp hm').1
      simp only [List.length_append, List.length_singleton] at hlt
      have heq : i = s.accepted.length := by omega
      subst heq
      simp only [List.getElem?_concat_length, Option.some.injEq] at hm'
      exact hm' ▸ htail ▸ hholds

/-- What a pop has read stays right when a message is added. -/
theorem PopInv.accept (h : PopInv p s) (hle : s.released ≤ s.accepted.length) (m : Msg)
    (tail : Nat) : PopInv p { s with
      seg := {s.seg with tail := tail}
      push := .idle
      accepted := s.accepted ++ [m] } := by
  have hfront : ∀ {head m'}, AtFront p s head m' → AtFront p { s with
      seg := {s.seg with tail := tail}
      push := .idle
      accepted := s.accepted ++ [m] } head m' := fun hm =>
    ⟨hm.1, (List.getElem?_append_left (List.getElem?_eq_some_iff.mp hm.2).1).trans hm.2⟩
  have htake : (s.accepted ++ [m]).take s.released = s.accepted.take s.released :=
    List.take_append_of_le_length hle
  have htake' : ∀ {head m'}, AtFront p s head m' →
      (s.accepted ++ [m]).take (s.released + 1) = s.accepted.take (s.released + 1) := fun hm =>
    List.take_append_of_le_length (List.getElem?_eq_some_iff.mp hm.2).1
  unfold PopInv at h ⊢
  cases hpc : s.pop with
  | idle | loadTail kind head =>
    rw [hpc] at h
    exact h.trans htake.symm
  | readSeq kind head =>
    rw [hpc] at h
    obtain ⟨hdelivered, m', hm⟩ := h
    exact ⟨hdelivered.trans htake.symm, m', hfront hm⟩
  | readLen kind head seqNum =>
    rw [hpc] at h
    obtain ⟨hdelivered, m', hm, hread⟩ := h
    exact ⟨hdelivered.trans htake.symm, m', hfront hm, hread⟩
  | readPayload kind head seqNum len =>
    rw [hpc] at h
    obtain ⟨hdelivered, m', hm, hread⟩ := h
    exact ⟨hdelivered.trans htake.symm, m', hfront hm, hread⟩
  | callback head | storeHead head =>
    rw [hpc] at h
    obtain ⟨hdelivered, m', hm⟩ := h
    exact ⟨hdelivered.trans (htake' hm).symm, m', hfront hm⟩

theorem Inv.startPush (h : Inv p H K s) (m : Msg) : Inv p H K (startPush p s m) := by
  unfold Shm.startPush
  cases hpc : s.push with
  | idle =>
    by_cases hlong : p.maxPayload < m.payload.length
    · simp only [if_pos hlong]
      exact h
    · simp only [if_neg hlong]
      exact ⟨h.intact.of_eq rfl rfl rfl, ⟨h.intact.tail_lt, not_lt.mp hlong, Or.inl rfl⟩, h.pop⟩
  | _ => exact h

/-- The check of a push for room. -/
theorem Intact.vacant (h : Intact p H K s) (hHK : H → K) {m : Msg} {tail : Nat}
    (hlt : tail < p.capacity) (hfits : m.payload.length ≤ p.maxPayload)
    (hcurrent : tail = s.seg.tail ∨ s.accepted = []) (hnext : p.next tail ≠ s.seg.head) :
    Vacant p H s m tail := by
  refine ⟨hlt, ?_, hfits, hcurrent, fun hH heq => ?_⟩
  · by_contra hone
    have hcap : p.capacity = 1 := by omega
    have hhead := h.head_lt
    have hzero : p.next tail = 0 := by
      rw [Params.next, hcap, Nat.mod_one]
    omega
  · have hfull := (h.room (hHK hH)).full_iff
    rw [← p.next_mod, ← h.tail, ← h.head hH, ← heq] at hfull
    exact lt_of_le_of_ne (h.room (hHK hH)).lt fun hall => hnext (hfull.mpr hall)

/-- A push checks for room, writes its slot field by field, and stores `tail`. -/
theorem Inv.producerStep (h : Inv p H K s) (hHK : H ↔ K) (hcurrent : TailCurrent s) :
    Inv p H K (producerStep p s) := by
  have hpush := h.push
  have hslot := p.slotSize_eq
  have hsize := h.intact.size
  unfold PushInv at hpush
  unfold Shm.producerStep
  cases hpc : s.push with
  | idle => exact h
  | loadHead m tail =>
    rw [hpc] at hpush
    simp only
    by_cases hnext : p.next tail = s.seg.head
    · rw [if_pos hnext]
      exact ⟨h.intact.of_eq rfl rfl rfl, trivial, h.pop⟩
    · rw [if_neg hnext]
      have hvacant := h.intact.vacant hHK.mp hpush.1 hpush.2.1 hpush.2.2 hnext
      exact ⟨h.intact.of_eq rfl rfl rfl, hvacant.of_eq rfl rfl (le_refl _), h.pop⟩
  | writeSeq m tail =>
    rw [hpc] at hpush
    have hinside := p.slotAt_inside hpush.lt
    have hintact := h.intact.write hpush 0 (u32 m.seqNum) (by rw [u32_length]; omega)
    exact ⟨hintact.of_eq rfl rfl rfl, ⟨hpush.of_eq rfl rfl (le_refl _),
      region_write (by rw [u32_length]; omega)⟩, h.pop⟩
  | writeLen m tail =>
    rw [hpc] at hpush
    obtain ⟨hvacant, hseq⟩ := hpush
    have hinside := p.slotAt_inside hvacant.lt
    have hintact := h.intact.write hvacant 4 (u32 m.len) (by rw [u32_length]; omega)
    have hin : p.slotAt tail + 4 + (u32 m.len).length ≤ s.seg.slots.length := by
      rw [u32_length]
      omega
    refine ⟨hintact.of_eq rfl rfl rfl, ⟨hvacant.of_eq rfl rfl (le_refl _), ?_, region_write hin⟩, h.pop⟩
    exact (region_write_apart hin (Or.inl (le_refl _))).trans hseq
  | writePayload m tail =>
    rw [hpc] at hpush
    obtain ⟨hvacant, hseq, hlen⟩ := hpush
    have hfits := hvacant.fits
    have hinside := p.slotAt_inside hvacant.lt
    have hintact := h.intact.write hvacant 8 m.payload (by omega)
    have hin : p.slotAt tail + 8 + m.payload.length ≤ s.seg.slots.length := by omega
    refine ⟨hintact.of_eq rfl rfl rfl, ⟨hvacant.of_eq rfl rfl (le_refl _), ?_, ?_,
      region_write hin⟩, h.pop⟩
    · exact (region_write_apart hin (Or.inl (by omega))).trans hseq
    · exact (region_write_apart hin (Or.inl (by omega))).trans hlen
  | storeTail m tail =>
    rw [hpc] at hpush
    have htail : tail = s.seg.tail := hcurrent tail (by rw [hpc]; rfl)
    exact ⟨h.intact.accept hHK.mpr hpush.1 hpush.2 htail, trivial, h.pop.accept h.intact.le m _⟩

/-! ### The consumer's steps -/

/-- What a push has written stays written where nobody else writes slots. -/
theorem PushInv.imp {H' : Prop} (h : PushInv p H s) {s' : State} (hpush : s'.push = s.push)
    (hslots : s'.seg.slots = s.seg.slots)
    (hcurrent : ∀ tail, tail = s.seg.tail ∨ s.accepted = [] →
      tail = s'.seg.tail ∨ s'.accepted = [])
    (hvacant : ∀ m tail, Vacant p H s m tail → Vacant p H' s' m tail) : PushInv p H' s' := by
  unfold PushInv at h ⊢
  rw [hpush]
  cases hpc : s.push with
  | idle => trivial
  | loadHead m tail =>
    rw [hpc] at h
    exact ⟨h.1, h.2.1, hcurrent tail h.2.2⟩
  | writeSeq m tail =>
    rw [hpc] at h
    exact hvacant m tail h
  | writeLen m tail | writePayload m tail | storeTail m tail =>
    rw [hpc] at h
    exact ⟨hvacant m tail h.1, hslots ▸ h.2⟩

theorem PushInv.mono (h : PushInv p H s) {s' : State} (hpush : s'.push = s.push)
    (htail : s'.seg.tail = s.seg.tail) (hslots : s'.seg.slots = s.seg.slots)
    (haccepted : s'.accepted = s.accepted) (hreleased : s.released ≤ s'.released) :
    PushInv p H s' :=
  h.imp hpush hslots (fun _ h' => by rwa [htail, haccepted])
    (fun _ _ hv => hv.of_eq htail haccepted hreleased)

theorem Inv.startPop (h : Inv p H K s) (kind : PopKind) : Inv p H K (startPop s kind) := by
  have hpop := h.pop
  unfold PopInv at hpop
  unfold Shm.startPop
  cases hpc : s.pop with
  | idle =>
    rw [hpc] at hpop
    exact ⟨h.intact.of_eq rfl rfl rfl, h.push.mono rfl rfl rfl rfl (le_refl _), hpop⟩
  | _ => exact h

/-- A stored `head` frees the slot of the oldest message. -/
theorem Intact.release (h : Intact p H K s) {head : Nat} {m : Msg} (hfront : AtFront p s head m) :
    Intact p H K { s with
      seg := {s.seg with head := p.next head}
      pop := .idle
      released := s.released + 1 } := by
  have hlt := (List.getElem?_eq_some_iff.mp hfront.2).1
  have hnext : p.next head = (s.released + 1) % p.capacity := by
    rw [hfront.1, p.next_mod]
  refine ⟨h.tail, fun _ => hnext, Nat.mod_lt _ p.capacity_pos, hlt, h.size, h.fits,
    fun hK => ⟨?_, fun i m' hi hm' => (h.kept hK).held i m' (Nat.le_of_succ_le hi) hm'⟩⟩
  have := (h.kept hK).lt
  show s.accepted.length < s.released + 1 + p.capacity
  omega

/-- A pop checks for a message, reads its slot field by field, and stores `head`. -/
theorem Inv.consumerStep (h : Inv p H K s) (hK : K) (hcurrent : HeadCurrent p s) :
    Inv p H K (consumerStep p s) := by
  have hpop := h.pop
  unfold PopInv at hpop
  have hpushed : ∀ {s'}, s'.push = s.push → s'.seg = s.seg → s'.accepted = s.accepted →
      s'.released = s.released → PushInv p H s' := fun hp hseg ha hr =>
    h.push.mono hp (hseg ▸ rfl) (hseg ▸ rfl) ha hr.ge
  unfold Shm.consumerStep
  cases hpc : s.pop with
  | idle => exact h
  | loadTail kind head =>
    rw [hpc] at hpop
    simp only
    by_cases hempty : head = s.seg.tail
    · rw [if_pos hempty]
      exact ⟨h.intact.of_eq rfl rfl rfl, hpushed rfl rfl rfl rfl, hpop⟩
    · rw [if_neg hempty]
      have hhead := (hcurrent head (by rw [hpc]; rfl)).resolve_left hempty
      have hne : s.released ≠ s.accepted.length := fun heq => hempty (by
        rw [hhead, h.intact.tail, heq])
      have hlt := lt_of_le_of_ne h.intact.le hne
      exact ⟨h.intact.of_eq rfl rfl rfl, hpushed rfl rfl rfl rfl, hpop, s.accepted[s.released],
        hhead, List.getElem?_eq_getElem hlt⟩
  | readSeq kind head =>
    rw [hpc] at hpop
    obtain ⟨hdelivered, m, hfront⟩ := hpop
    exact ⟨h.intact.of_eq rfl rfl rfl, hpushed rfl rfl rfl rfl, hdelivered, m, hfront,
      readU32_region (h.intact.front hK hfront).1.seqNum⟩
  | readLen kind head seqNum =>
    rw [hpc] at hpop
    obtain ⟨hdelivered, m, hfront, hseq⟩ := hpop
    exact ⟨h.intact.of_eq rfl rfl rfl, hpushed rfl rfl rfl rfl, hdelivered, m, hfront, hseq,
      readU32_region (h.intact.front hK hfront).1.len⟩
  | readPayload kind head seqNum len =>
    rw [hpc] at hpop
    obtain ⟨hdelivered, m, hfront, hseq, hlen⟩ := hpop
    obtain ⟨hholds, hfits⟩ := h.intact.front hK hfront
    have hread : Msg.mk seqNum (region s.seg.slots (p.slotAt head + 8) len.toNat) = m := by
      rw [hseq, hlen, Msg.len_toNat hfits, hholds.payload]
    have hall : s.delivered ++ [Msg.mk seqNum (region s.seg.slots (p.slotAt head + 8) len.toNat)] =
        s.accepted.take (s.released + 1) := by
      rw [hread, hdelivered, List.take_add_one, hfront.2]
      rfl
    cases kind with
    | copy => exact ⟨h.intact.of_eq rfl rfl rfl, hpushed rfl rfl rfl rfl, hall, m, hfront⟩
    | zeroCopy => exact ⟨h.intact.of_eq rfl rfl rfl, hpushed rfl rfl rfl rfl, hall, m, hfront⟩
  | callback head =>
    rw [hpc] at hpop
    exact ⟨h.intact.of_eq rfl rfl rfl, hpushed rfl rfl rfl rfl, hpop⟩
  | storeHead head =>
    rw [hpc] at hpop
    obtain ⟨hdelivered, m, hfront⟩ := hpop
    exact ⟨h.intact.release hfront, h.push.mono rfl rfl rfl rfl (Nat.le_succ _), hdelivered⟩

/-! ### What has gone through -/

/-- Delivered are the released messages, and one more while its pop completes. -/
theorem PopInv.delivered (h : PopInv p s) : ∃ n, s.delivered = s.accepted.take n ∧
    s.released ≤ n ∧ n ≤ s.released + 1 := by
  unfold PopInv at h
  cases hpc : s.pop with
  | idle | loadTail kind head =>
    rw [hpc] at h
    exact ⟨_, h, le_refl _, Nat.le_succ _⟩
  | readSeq kind head | readLen kind head seqNum | readPayload kind head seqNum len =>
    rw [hpc] at h
    exact ⟨_, h.1, le_refl _, Nat.le_succ _⟩
  | callback head | storeHead head =>
    rw [hpc] at h
    exact ⟨_, h.1, Nat.le_succ _, le_refl _⟩

theorem Inv.delivered (h : Inv p H K s) : s.delivered <+: s.accepted ∧
    s.released ≤ s.delivered.length ∧ s.delivered.length ≤ s.released + 1 := by
  obtain ⟨n, hn, hle, hle'⟩ := h.pop.delivered
  rw [hn, List.length_take]
  exact ⟨List.take_prefix n _, le_min hle h.intact.le, le_trans (Nat.min_le_left ..) hle'⟩

end

end Relink.Shm
