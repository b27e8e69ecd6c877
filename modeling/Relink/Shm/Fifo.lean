import Relink.Shm.Invariant

/-! What the ring hands over.

With one producer and one consumer, both attached from the start, the index that either
side has loaded is its own and nobody else stores it. So each call finds what it needs,
and the invariant holds at every point of every interleaving. -/
namespace Relink.Shm
open Buffer LittleEndian Transition
open Wire (Bytes)

/-- The value of `tail` a push has loaded. -/
def PushPc.tail : PushPc → Option Nat
  | .idle => none
  | .loadHead _ tail => some tail
  | .writeSeq _ tail => some tail
  | .writeLen _ tail => some tail
  | .writePayload _ tail => some tail
  | .storeTail _ tail => some tail

/-- Each side has the index it stores. -/
structure Current (s : State) : Prop where
  push : ∀ tail, s.push.tail = some tail → tail = s.seg.tail
  pop : ∀ kind head, s.pop = .loadTail kind head → head = s.seg.head

structure FifoInv (p : Params) (s : State) : Prop where
  inv : Inv p True True s
  current : Current s

section
variable {p : Params} {s : State}

theorem Current.step (h : Current s) (act : Act) : Current (step p s act) := by
  cases act with
  | push m =>
    unfold Shm.step Shm.startPush
    cases hpc : s.push with
    | idle =>
      simp only
      split
      · exact h
      · exact ⟨fun tail htail => (Option.some.inj htail).symm, h.pop⟩
    | _ => exact h
  | producer =>
    have hpush := h.push
    unfold Shm.step Shm.producerStep
    cases hpc : s.push with
    | idle => exact h
    | loadHead m tail =>
      rw [hpc] at hpush
      simp only
      split
      · exact ⟨fun tail htail => (nomatch htail), h.pop⟩
      · exact ⟨hpush, h.pop⟩
    | storeTail m tail => exact ⟨fun tail htail => (nomatch htail), h.pop⟩
    | _ =>
      rw [hpc] at hpush
      exact ⟨hpush, h.pop⟩
  | pop kind =>
    unfold Shm.step Shm.startPop
    cases hpc : s.pop with
    | idle => exact ⟨h.push, fun kind head hhead => by cases hhead; rfl⟩
    | _ => exact h
  | consumer =>
    unfold Shm.step Shm.consumerStep
    cases hpc : s.pop with
    | idle => exact h
    | loadTail kind head =>
      simp only
      split <;> exact ⟨h.push, fun kind head hhead => nomatch hhead⟩
    | readPayload kind head seqNum len =>
      cases kind <;> exact ⟨h.push, fun kind head hhead => nomatch hhead⟩
    | _ => exact ⟨h.push, fun kind head hhead => nomatch hhead⟩

theorem FifoInv.tailCurrent (h : FifoInv p s) : TailCurrent s := by
  intro tail htail
  refine h.current.push tail ?_
  cases hpc : s.push with
  | storeTail m tail' =>
    rw [hpc] at htail
    exact htail
  | _ =>
    rw [hpc] at htail
    cases htail

theorem FifoInv.headCurrent (h : FifoInv p s) : HeadCurrent p s := by
  intro head hhead
  cases hpc : s.pop with
  | loadTail kind head' =>
    rw [hpc] at hhead
    cases hhead
    exact Or.inr ((h.current.pop kind head hpc).trans (h.inv.intact.head trivial))
  | _ =>
    rw [hpc] at hhead
    cases hhead

theorem FifoInv.step (h : FifoInv p s) (act : Act) : FifoInv p (step p s act) := by
  refine ⟨?_, h.current.step act⟩
  cases act with
  | push m => exact h.inv.startPush m
  | producer => exact h.inv.producerStep Iff.rfl h.tailCurrent
  | pop kind => exact h.inv.startPop kind
  | consumer => exact h.inv.consumerStep trivial h.headCurrent

theorem inv_fresh {H K : Prop} {slots : Bytes} (hsize : slots.length = p.capacity * p.slotSize) :
    Inv p H K (fresh slots) where
  intact := ⟨(Nat.zero_mod _).symm, fun _ => (Nat.zero_mod _).symm, p.capacity_pos, le_refl _,
    hsize, fun _ hm => absurd hm List.not_mem_nil,
    fun _ => ⟨(Nat.zero_add _).symm ▸ p.capacity_pos, fun _ _ _ hm => nomatch hm⟩⟩
  push := trivial
  pop := rfl

/-- A push returns false for a payload that is too long, or at a full ring. -/
theorem FifoInv.refuses (h : FifoInv p s) {act : Act} (hrefuses : Refuses p s act) :
    (∃ m, act = .push m ∧ p.maxPayload < m.payload.length) ∨ s.outstanding = p.capacity - 1 := by
  cases act with
  | push m => exact Or.inl ⟨m, rfl, hrefuses.2⟩
  | producer =>
    obtain ⟨m, tail, hpc, hnext⟩ := hrefuses
    have hpush := h.current.push
    rw [hpc] at hpush
    have hintact := h.inv.intact
    have hfull := (hintact.room trivial).full_iff
    rw [← p.next_mod, ← hintact.tail, ← hintact.head trivial, ← hpush tail rfl] at hfull
    have := hfull.mp hnext
    rw [State.outstanding]
    exact Or.inr (by omega)
  | pop kind => exact hrefuses.elim
  | consumer => exact hrefuses.elim

/-- A pop finds the messages that wait. -/
theorem FifoInv.finds (h : FifoInv p s) {kind : PopKind} {head : Nat}
    (hpc : s.pop = .loadTail kind head) (hwaiting : s.delivered.length < s.accepted.length) :
    head ≠ s.seg.tail := by
  have hpop := h.inv.pop
  unfold PopInv at hpop
  rw [hpc] at hpop
  have hlt : s.released < s.accepted.length := by
    rw [hpop, List.length_take] at hwaiting
    omega
  rw [h.current.pop kind head hpc, h.inv.intact.head trivial, h.inv.intact.tail]
  exact (h.inv.intact.room trivial).free (le_refl _) hlt

/-- A pop that is reading is at the front of the ring. -/
theorem PopInv.reading (h : PopInv p s) {head : Nat} (hreading : s.pop.reading = some head) :
    ∃ m, AtFront p s head m := by
  unfold PopInv at h
  cases hpc : s.pop with
  | idle | loadTail kind head' | storeHead head' =>
    rw [hpc] at hreading
    cases hreading
  | readSeq kind head' | callback head' =>
    rw [hpc] at h hreading
    cases hreading
    exact h.2
  | readLen kind head' seqNum | readPayload kind head' seqNum len =>
    rw [hpc] at h hreading
    cases hreading
    obtain ⟨_, m, hfront, _⟩ := h
    exact ⟨m, hfront⟩

/-- A write goes to a slot that is not the front one. -/
theorem Inv.slotBytes_write (h : Inv p True True s) {head tail k : Nat} {m m' : Msg} {src : Bytes}
    (hfront : AtFront p s head m) (hvacant : Vacant p True s m' tail)
    (hsrc : k + src.length ≤ p.slotSize) :
    region (Buffer.write s.seg.slots (p.slotAt tail + k) src) (p.slotAt head) p.slotSize =
      slotBytes p s head := by
  have hne : head ≠ tail := by
    rw [hfront.1]
    exact hvacant.ne h.intact trivial (le_refl _) (List.getElem?_eq_some_iff.mp hfront.2).1
  exact region_other_slot h.intact.size hvacant.lt hsrc hne 0 (by omega)

/-- The slot that is being read is not written. -/
theorem Inv.untouched (h : Inv p True True s) {head : Nat} (hreading : s.pop.reading = some head)
    (act : Act) : slotBytes p (Shm.step p s act) head = slotBytes p s head := by
  obtain ⟨m, hfront⟩ := h.pop.reading hreading
  have hslot := p.slotSize_eq
  have hpush := h.push
  unfold PushInv at hpush
  cases act with
  | push m' =>
    unfold Shm.step Shm.startPush
    cases s.push with
    | idle =>
      simp only
      split <;> rfl
    | _ => rfl
  | producer =>
    unfold Shm.step Shm.producerStep
    cases hpc : s.push with
    | idle | storeTail m' tail => rfl
    | loadHead m' tail =>
      simp only
      split <;> rfl
    | writeSeq m' tail =>
      rw [hpc] at hpush
      exact h.slotBytes_write (k := 0) hfront hpush (by rw [u32_length]; omega)
    | writeLen m' tail =>
      rw [hpc] at hpush
      exact h.slotBytes_write hfront hpush.1 (by rw [u32_length]; omega)
    | writePayload m' tail =>
      rw [hpc] at hpush
      have hfits := hpush.1.fits
      exact h.slotBytes_write hfront hpush.1 (by omega)
  | pop kind =>
    unfold Shm.step Shm.startPop
    cases s.pop <;> rfl
  | consumer =>
    unfold Shm.step Shm.consumerStep
    cases s.pop with
    | loadTail kind head' =>
      simp only
      split <;> rfl
    | _ => rfl

end

theorem run_inv (p : Params) {slots : Bytes} (hsize : slots.length = p.capacity * p.slotSize)
    (acts : List Act) : FifoInv p (acts.foldl (step p) (fresh slots)) :=
  foldl_invariant (FifoInv p) (fun _ => True) (step p) (fun _ act h _ => h.step act) acts _
    ⟨inv_fresh hsize, (fun _ h => nomatch h), (fun _ _ h => nomatch h)⟩ (fun _ _ => trivial)

/-- **The ring hands over in order and loses nothing**, at every point of every
interleaving: what was delivered is a prefix of what was accepted, at most `capacity - 1`
messages are in the ring, a push is refused only if it is too long or there are that many
at its load of `head`, and nothing writes the slot that is being read. -/
theorem ring_lossless_fifo (p : Params) (slots : Bytes)
    (hsize : slots.length = p.capacity * p.slotSize) (acts : List Act) :
    let s := acts.foldl (step p) (fresh slots)
    s.delivered <+: s.accepted ∧ s.released ≤ s.delivered.length ∧
      s.delivered.length ≤ s.released + 1 ∧ s.outstanding ≤ p.capacity - 1 ∧
      ∀ act, (Refuses p s act → (∃ m, act = .push m ∧ p.maxPayload < m.payload.length) ∨
          s.outstanding = p.capacity - 1) ∧
        ∀ head, s.pop.reading = some head →
          slotBytes p (step p s act) head = slotBytes p s head := by
  intro s
  have h : FifoInv p s := run_inv p hsize acts
  have hlt := (h.inv.intact.room trivial).lt
  obtain ⟨hpre, hle, hle'⟩ := h.inv.delivered
  refine ⟨hpre, hle, hle', ?_, fun act => ⟨h.refuses, fun head hreading =>
    h.inv.untouched hreading act⟩⟩
  rw [State.outstanding]
  omega

/-! A ring of four slots. -/

def blank : Bytes := List.replicate 64 0

/-- A whole push, and a whole pop. -/
def pushes (m : Msg) : List Act := .push m :: List.replicate 5 .producer

def pops (kind : PopKind) : List Act := .pop kind :: List.replicate 6 .consumer

example : (((pushes ⟨42, [1, 2, 3]⟩ ++ pops .copy).foldl (step four) (fresh blank)).delivered) =
    [⟨42, [1, 2, 3]⟩] := by decide

/-- A push that stops before it stores `tail`. -/
theorem ring_lossless_fifo_four :
    let s := (pushes ⟨1, [7]⟩ ++ [Act.push ⟨2, [8]⟩, .producer, .producer]).foldl (step four)
      (fresh blank)
    s.delivered <+: s.accepted ∧ s.released ≤ s.delivered.length ∧
      s.delivered.length ≤ s.released + 1 ∧ s.outstanding ≤ four.capacity - 1 ∧
      ∀ act, (Refuses four s act → (∃ m, act = .push m ∧ four.maxPayload < m.payload.length) ∨
          s.outstanding = four.capacity - 1) ∧
        ∀ head, s.pop.reading = some head →
          slotBytes four (step four s act) head = slotBytes four s head :=
  ring_lossless_fifo four blank (by decide) _

end Relink.Shm
