import Relink.Shm.Words

/-! The ring in the widths of the code.

`Shm.Ring` counts in `Nat`, and its parameters say that nothing is cut. `ring_in_words` says that
this loses nothing: where the sizes are such, every run of that ring, with messages that a `uint32_t`
can count, is one of the machine of `Shm.Words`, which checks every access, and no check fails. -/
namespace Relink.Shm.Words
open Buffer LittleEndian Transition

/-! ### The same state -/

/-- The push without the index it has computed. -/
def Push.ring : Push → PushPc
  | .idle => .idle
  | .loadHead m tail => .loadHead m tail.toNat
  | .writeSeq m tail _ => .writeSeq m tail.toNat
  | .writeLen m tail _ => .writeLen m tail.toNat
  | .writePayload m tail _ => .writePayload m tail.toNat
  | .storeTail m tail _ => .storeTail m tail.toNat

/-- It is the one that the ring computes when it stores it. -/
def Push.Computes (p : Params) : Push → Prop
  | .writeSeq _ tail next | .writeLen _ tail next | .writePayload _ tail next
  | .storeTail _ tail next => next.toNat = p.next tail.toNat
  | _ => True

/-- The pop is before the same access. The callback makes none. -/
inductive Pop.At : Pop → PopPc → Prop where
  | idle : At .idle .idle
  | loadTail (kind : PopKind) (head : UInt32) : At (.loadTail head) (.loadTail kind head.toNat)
  | readSeq (kind : PopKind) (head : UInt32) : At (.readSeq head) (.readSeq kind head.toNat)
  | readLen (kind : PopKind) (head seqNum : UInt32) :
    At (.readLen head) (.readLen kind head.toNat seqNum)
  | readPayload (kind : PopKind) (head seqNum len : UInt32) :
    At (.readPayload head len) (.readPayload kind head.toNat seqNum len)
  | callback (head : UInt32) : At (.storeHead head) (.callback head.toNat)
  | storeHead (head : UInt32) : At (.storeHead head) (.storeHead head.toNat)

structure Same {z : Sizes} (hz : Roomy z) (s : State) (r : Shm.State) : Prop where
  live : Live hz s
  head : r.seg.head = s.head.toNat
  tail : r.seg.tail = s.tail.toNat
  slots : r.seg.slots = s.slots
  push : r.push = s.push.ring
  computes : s.push.Computes hz.params
  pop : s.pop.At r.pop

/-- What the machine does for an act of the ring. -/
def acts (r : Shm.State) : Shm.Act → List Act
  | .push m => [.push m]
  | .producer => [.producer]
  | .pop _ => [.pop]
  | .consumer => match r.pop with
    | .callback _ => []
    | _ => [.consumer]

section
variable {z : Sizes} {hz : Roomy z} {s : State} {r : Shm.State}

/-! ### One access -/

theorem Same.producerStep (h : Same hz s r) : ∃ s', producerStep z s = .ok s' ∧
    Same hz s' (Shm.producerStep hz.params r) := by
  obtain ⟨s', hs', hlive⟩ := h.live.producerStep
  refine ⟨s', hs', ?_⟩
  have hpush := h.push
  have hcomputes := h.computes
  have hfits := h.live.push
  unfold Words.producerStep at hs'
  unfold Shm.producerStep
  cases hpc : s.push with
  | idle =>
    rw [hpc] at hs' hpush
    cases hs'
    rw [hpush]
    exact h
  | loadHead m tail =>
    rw [hpc] at hs' hpush
    obtain ⟨next, hnext, rfl⟩ := of_map_ok hs'
    obtain ⟨next', hnext', heq⟩ := hz.next tail
    obtain rfl : next = next' := Except.ok.inj (hnext.symm.trans hnext')
    have hfull : hz.params.next tail.toNat = r.seg.head ↔ next = s.head := by
      rw [← heq, h.head, UInt32.toNat_inj]
    rw [hpush]
    by_cases hroom : next = s.head
    · simp only [Push.ring, if_pos (hfull.mpr hroom)]
      refine ⟨hlive, h.head, h.tail, h.slots, ?_, ?_, h.pop⟩ <;> rw [if_pos hroom]
      · rfl
      · trivial
    · simp only [Push.ring, if_neg (mt hfull.mp hroom)]
      refine ⟨hlive, h.head, h.tail, h.slots, ?_, ?_, h.pop⟩ <;> rw [if_neg hroom]
      · rfl
      · exact heq
  | writeSeq m tail next | writeLen m tail next =>
    rw [hpc] at hs' hpush hcomputes
    obtain ⟨_, _, rfl⟩ := of_map_ok hs'
    rw [hpush]
    refine ⟨hlive, h.head, h.tail, ?_, rfl, hcomputes, h.pop⟩
    simp only [Push.ring, Segment.write, h.slots, hz.slotAt]
  | writePayload m tail next =>
    rw [hpc] at hs' hpush hcomputes hfits
    obtain ⟨_, _, rfl⟩ := of_map_ok hs'
    rw [hpush]
    refine ⟨hlive, h.head, h.tail, ?_, rfl, hcomputes, h.pop⟩
    simp only [Push.ring, Segment.write, h.slots, hz.slotAt, hz.len_toNat hfits.1, List.take_length]
  | storeTail m tail next =>
    rw [hpc] at hs' hpush hcomputes hfits
    simp only [if_pos hfits.2] at hs'
    cases hs'
    rw [hpush]
    exact ⟨hlive, h.head, hcomputes.symm, h.slots, rfl, trivial, h.pop⟩

/-- While the callback runs, nothing is read or written. -/
theorem Same.callback (h : Same hz s r) {index : Nat} (hpc : r.pop = .callback index) :
    Same hz s (Shm.consumerStep hz.params r) := by
  have hat := h.pop
  unfold Shm.consumerStep
  rw [hpc] at hat ⊢
  refine ⟨h.live, h.head, h.tail, h.slots, h.push, h.computes, ?_⟩
  generalize s.pop = pop at hat ⊢
  cases hat
  exact .storeHead _

theorem Same.consumerStep (h : Same hz s r) (hpc : ∀ index, r.pop ≠ .callback index) :
    ∃ s', consumerStep z s = .ok s' ∧ Same hz s' (Shm.consumerStep hz.params r) := by
  obtain ⟨s', hs', hlive⟩ := h.live.consumerStep
  refine ⟨s', hs', ?_⟩
  have hat := h.pop
  unfold Words.consumerStep at hs'
  unfold Shm.consumerStep
  generalize hpop : s.pop = pop at hat hs'
  generalize hring : r.pop = pc at hat
  cases hat with
  | idle =>
    cases hs'
    exact h
  | loadTail kind head =>
    cases hs'
    have hempty : head.toNat = r.seg.tail ↔ head = s.tail := by rw [h.tail, UInt32.toNat_inj]
    by_cases heq : head = s.tail
    · simp only [if_pos (hempty.mpr heq)]
      refine ⟨hlive, h.head, h.tail, h.slots, h.push, h.computes, ?_⟩
      rw [if_pos heq]
      exact .idle
    · simp only [if_neg (mt hempty.mp heq)]
      refine ⟨hlive, h.head, h.tail, h.slots, h.push, h.computes, ?_⟩
      rw [if_neg heq]
      exact .readSeq kind head
  | readSeq kind head =>
    obtain ⟨_, _, rfl⟩ := of_map_ok hs'
    exact ⟨hlive, h.head, h.tail, h.slots, h.push, h.computes, .readLen kind head _⟩
  | readLen kind head seqNum =>
    obtain ⟨_, _, rfl⟩ := of_map_ok hs'
    refine ⟨hlive, h.head, h.tail, h.slots, h.push, h.computes, ?_⟩
    simp only [h.slots, hz.slotAt]
    exact .readPayload kind head seqNum _
  | readPayload kind head seqNum len =>
    obtain ⟨_, _, rfl⟩ := of_map_ok hs'
    refine ⟨hlive, h.head, h.tail, h.slots, h.push, h.computes, ?_⟩
    cases kind with
    | copy => exact .storeHead head
    | zeroCopy => exact .callback head
  | callback head => exact absurd hring (hpc _)
  | storeHead head =>
    obtain ⟨next, hnext, rfl⟩ := of_map_ok hs'
    obtain ⟨next', hnext', heq⟩ := hz.next head
    obtain rfl : next = next' := Except.ok.inj (hnext.symm.trans hnext')
    exact ⟨hlive, heq.symm, h.tail, h.slots, h.push, h.computes, .idle⟩

/-! ### One act -/

theorem foldlM_one {act : Act} {s' : State} (h : step z s act = .ok s') :
    [act].foldlM (step z) s = .ok s' := by
  rw [List.foldlM_cons, h]
  rfl

theorem Same.startPush (h : Same hz s r) {m : Msg} (hshort : m.payload.length < 2 ^ 32) :
    ∃ s', step z s (.push m) = .ok s' ∧ Same hz s' (Shm.startPush hz.params r m) := by
  have hfits : ∀ m', Act.push m = .push m' → Fits z m' := by
    intro m' heq _
    cases heq
    exact ⟨hz.capacity_ne, Or.inr ⟨hz.slot_lt, hshort⟩⟩
  have hlong : hz.params.maxPayload < m.payload.length ↔ z.maxPayload < m.len := by
    rw [UInt32.lt_iff_toNat_lt, Msg.len, UInt32.toNat_ofNat', Nat.mod_eq_of_lt hshort]
    rfl
  obtain ⟨s', hs', hlive⟩ := h.live.step hfits
  refine ⟨s', hs', ?_⟩
  have hpush := h.push
  unfold Words.step at hs'
  cases hs'
  unfold Shm.startPush
  cases hpc : s.push with
  | idle =>
    rw [hpc] at hpush hlive
    rw [hpush]
    simp only [Push.ring]
    by_cases hover : z.maxPayload < m.len
    · simp only [if_pos hover, if_pos (hlong.mpr hover)]
      exact h
    · simp only [if_neg hover] at hlive
      simp only [if_neg hover, if_neg (mt hlong.mp hover)]
      exact ⟨hlive, h.head, h.tail, h.slots, by rw [h.tail]; rfl, trivial, h.pop⟩
  | _ =>
    rw [hpc] at hpush
    rw [hpush]
    exact h

theorem Same.startPop (h : Same hz s r) (kind : PopKind) :
    ∃ s', step z s .pop = .ok s' ∧ Same hz s' (Shm.startPop r kind) := by
  have hfits : ∀ m, Act.pop = .push m → Fits z m := by
    intro m heq
    cases heq
  obtain ⟨s', hs', hlive⟩ := h.live.step hfits
  refine ⟨s', hs', ?_⟩
  have hat := h.pop
  unfold Words.step at hs'
  cases hs'
  unfold Shm.startPop
  generalize hpop : s.pop = pop at hat hlive ⊢
  generalize hring : r.pop = pc at hat
  cases hat with
  | idle =>
    refine ⟨hlive, h.head, h.tail, h.slots, h.push, h.computes, ?_⟩
    rw [h.head]
    exact .loadTail kind s.head
  | _ => exact h

theorem Same.step (h : Same hz s r) {act : Shm.Act}
    (hact : ∀ m, act = .push m → m.payload.length < 2 ^ 32) :
    ∃ s', (acts r act).foldlM (step z) s = .ok s' ∧ Same hz s' (Shm.step hz.params r act) := by
  cases act with
  | push m =>
    obtain ⟨s', hs', hsame⟩ := h.startPush (hact m rfl)
    exact ⟨s', foldlM_one hs', hsame⟩
  | producer =>
    obtain ⟨s', hs', hsame⟩ := h.producerStep
    exact ⟨s', foldlM_one hs', hsame⟩
  | pop kind =>
    obtain ⟨s', hs', hsame⟩ := h.startPop kind
    exact ⟨s', foldlM_one hs', hsame⟩
  | consumer =>
    by_cases hpc : ∃ index, r.pop = .callback index
    · obtain ⟨index, hpc⟩ := hpc
      refine ⟨s, ?_, h.callback hpc⟩
      simp only [acts, hpc]
      rfl
    · have hnone := not_exists.mp hpc
      obtain ⟨s', hs', hsame⟩ := h.consumerStep hnone
      refine ⟨s', ?_, hsame⟩
      have hacts : acts r .consumer = [.consumer] := by
        show (match r.pop with
          | .callback _ => []
          | _ => [.consumer]) = [Act.consumer]
        split
        · next index hindex => exact absurd hindex (hnone index)
        · rfl
      rw [hacts]
      exact foldlM_one hs'

end

/-- The ring on a segment that was just created. -/
theorem same_created {z : Sizes} (hz : Roomy z) :
    Same hz (created z) (fresh (created z).slots) :=
  ⟨live_created hz, rfl, rfl, rfl, rfl, trivial, .idle⟩

/-- **A run of the ring is one of the machine of words**, whose checks do not fail. -/
theorem ring_in_words {z : Sizes} (hz : Roomy z) (ring : List Shm.Act)
    (hshort : ∀ m, Shm.Act.push m ∈ ring → m.payload.length < 2 ^ 32) :
    ∃ (acts : List Act) (s : State), acts.foldlM (step z) (created z) = .ok s ∧
      Same hz s (ring.foldl (Shm.step hz.params) (fresh (created z).slots)) :=
  foldlM_sim (Same hz) (fun act => ∀ m, act = .push m → m.payload.length < 2 ^ 32) acts (step z)
    (Shm.step hz.params) (fun _ _ _ h hact => h.step hact) ring _ _ (same_created hz)
    (fun _ hact m heq => hshort m (heq ▸ hact))

end Relink.Shm.Words
