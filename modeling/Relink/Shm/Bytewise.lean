import Relink.Library.Scatter
import Relink.Shm.Python

/-! The ring, byte by byte.

A `memcpy` is not one access. Here a push stores the bytes of its slot one at a time and a pop loads
them one at a time, in any order, with accesses of the other side between any two; a callback looks
at whatever byte it likes while it runs. The orders include those of both builds: three copies in
the C++ one, and `pack_into` with a slice in the Python one. `Shm/Ring` makes each copy at once, and
what holds of it holds here. -/
namespace Relink.Shm.Bytewise
open Buffer LittleEndian Transition
open Wire (Bytes)

/-! ### The machine -/

/-- What a push copies into its slot: `seq_num`, `payload_len` and the payload follow each other. -/
def image (m : Msg) : Bytes := u32 m.seqNum ++ u32 m.len ++ m.payload

inductive PushPc where
  | idle
  | loadHead (m : Msg) (tail : Nat)
  /-- The bytes still to be stored; after the last one comes the store of `tail`. -/
  | copying (m : Msg) (tail : Nat) (todo : List Nat)

inductive PopPc where
  | idle
  | loadTail (kind : PopKind) (head : Nat)
  /-- Loads `seq_num` and `payload_len`. -/
  | readHeader (kind : PopKind) (head : Nat) (todo : List Nat) (got : Bytes)
  | readPayload (head : Nat) (seqNum len : UInt32) (todo : List Nat) (got : Bytes)
  /-- The zero-copy callback is running, and has looked at these bytes. -/
  | callback (head : Nat) (seqNum len : UInt32) (looks : List (Nat × UInt8))
  | storeHead (head : Nat)

/-- What the consumer has been given: its own copy, or a pointer for as long as the callback ran. -/
inductive Handed where
  | copied (m : Msg)
  | lent (seqNum len : UInt32) (looks : List (Nat × UInt8))
deriving DecidableEq

structure State where
  seg : Segment
  push : PushPc := .idle
  pop : PopPc := .idle
  accepted : List Msg := []
  delivered : List Handed := []
  released : Nat := 0

inductive Act where
  | push (m : Msg)
  /-- The running push makes its next access; of a copy, the one of this byte. -/
  | producer (byte : Nat)
  | pop (kind : PopKind)
  | consumer (byte : Nat)
  /-- The callback returns. -/
  | callbackReturns

/-- The byte of a copy, if it is one of those that are left. -/
def pick (todo : List Nat) (src : Nat → Option UInt8) (byte : Nat) : Option UInt8 :=
  if byte ∈ todo then src byte else none

section
variable (p : Params)

def startPush (s : State) (m : Msg) : State :=
  match s.push with
  | .idle =>
    if p.maxPayload < m.payload.length then s else {s with push := .loadHead m s.seg.tail}
  | _ => s

def producerStep (s : State) (byte : Nat) : State :=
  match s.push with
  | .idle => s
  | .loadHead m tail =>
    if p.next tail = s.seg.head then {s with push := .idle}
    else {s with push := .copying m tail (List.range (image m).length)}
  | .copying m tail [] =>
    { s with
      seg := {s.seg with tail := p.next tail}
      push := .idle
      accepted := s.accepted ++ [m] }
  | .copying m tail todo =>
    match pick todo (fun i => (image m)[i]?) byte with
    | some b =>
      { s with
        seg := {s.seg with slots := s.seg.slots.set (p.slotAt tail + byte) b}
        push := .copying m tail (todo.erase byte) }
    | none => s

def startPop (s : State) (kind : PopKind) : State :=
  match s.pop with
  | .idle => {s with pop := .loadTail kind s.seg.head}
  | _ => s

def consumerStep (s : State) (byte : Nat) : State :=
  match s.pop with
  | .idle => s
  | .loadTail kind head =>
    if head = s.seg.tail then {s with pop := .idle}
    else {s with pop := .readHeader kind head (List.range 8) (List.replicate 8 0)}
  | .readHeader kind head [] got =>
    let seqNum := readU32 0 got
    let len := readU32 4 got
    match kind with
    | .copy =>
      {s with pop :=
        .readPayload head seqNum len (List.range len.toNat) (List.replicate len.toNat 0)}
    | .zeroCopy => {s with pop := .callback head seqNum len []}
  | .readHeader kind head todo got =>
    match pick todo (fun i => s.seg.slots[p.slotAt head + i]?) byte with
    | some b => {s with pop := .readHeader kind head (todo.erase byte) (got.set byte b)}
    | none => s
  | .readPayload head seqNum _ [] got =>
    {s with pop := .storeHead head, delivered := s.delivered ++ [.copied ⟨seqNum, got⟩]}
  | .readPayload head seqNum len todo got =>
    match pick todo (fun i => s.seg.slots[p.slotAt head + 8 + i]?) byte with
    | some b => {s with pop := .readPayload head seqNum len (todo.erase byte) (got.set byte b)}
    | none => s
  | .callback head seqNum len looks =>
    match pick (List.range len.toNat) (fun i => s.seg.slots[p.slotAt head + 8 + i]?) byte with
    | some b => {s with pop := .callback head seqNum len (looks ++ [(byte, b)])}
    | none => s
  | .storeHead head =>
    { s with
      seg := {s.seg with head := p.next head}
      pop := .idle
      released := s.released + 1 }

def returnCallback (s : State) : State :=
  match s.pop with
  | .callback head seqNum len looks =>
    {s with pop := .storeHead head, delivered := s.delivered ++ [.lent seqNum len looks]}
  | _ => s

def step (s : State) : Act → State
  | .push m => startPush p s m
  | .producer byte => producerStep p s byte
  | .pop kind => startPop s kind
  | .consumer byte => consumerStep p s byte
  | .callbackReturns => returnCallback s

/-- The act is a push, or the part of one, that returns false. -/
def Refuses (s : State) : Act → Prop
  | .push m => (match s.push with | .idle => True | _ => False) ∧ p.maxPayload < m.payload.length
  | .producer _ => ∃ m tail, s.push = .loadHead m tail ∧ p.next tail = s.seg.head
  | _ => False

end

def fresh (slots : Bytes) : State := {seg := ⟨0, 0, slots⟩}

/-- What has been handed over is the message: all of it, or what the callback looked at. -/
def Gives : Handed → Msg → Prop
  | .copied m', m => m' = m
  | .lent seqNum len looks, m => seqNum = m.seqNum ∧ len.toNat = m.payload.length ∧
    ∀ look ∈ looks, m.payload[look.1]? = some look.2

/-- In order, without loss, and byte for byte. -/
structure HandsOver (p : Params) (s : State) : Prop where
  delivered : List.Forall₂ Gives s.delivered (s.accepted.take s.delivered.length)
  released : s.released ≤ s.delivered.length ∧ s.delivered.length ≤ s.released + 1
  room : s.accepted.length - s.released ≤ p.capacity - 1
  /-- Also while the callback runs. -/
  looking : ∀ head seqNum len looks, s.pop = .callback head seqNum len looks →
    ∃ m, s.accepted[s.delivered.length]? = some m ∧ Gives (.lent seqNum len looks) m
  refuses : ∀ act, Refuses p s act →
    (∃ m, act = .push m ∧ p.maxPayload < m.payload.length) ∨
      s.accepted.length - s.released = p.capacity - 1

/-! ### The ring whose copies are one access -/

/-- The accesses of `Shm/Ring` that an access here completes. -/
def completes (s : State) : Act → List Shm.Act
  | .push m => [.push m]
  | .producer _ =>
    match s.push with
    | .loadHead .. => [.producer]
    | .copying _ _ [] => List.replicate 4 .producer
    | _ => []
  | .pop kind => [.pop kind]
  | .consumer _ =>
    match s.pop with
    | .loadTail .. => [.consumer]
    | .readHeader .copy _ [] _ => List.replicate 2 .consumer
    | .readHeader .zeroCopy _ [] _ => List.replicate 3 .consumer
    | .readPayload _ _ _ [] _ => [.consumer]
    | .storeHead _ => [.consumer]
    | _ => []
  | .callbackReturns =>
    match s.pop with
    | .callback .. => [.consumer]
    | _ => []

/-- A push has copied some of its bytes, the other ring none. -/
def PushSim (p : Params) (s : State) (t : Shm.State) : Prop :=
  match s.push with
  | .idle => t.push = .idle ∧ s.seg.slots = t.seg.slots
  | .loadHead m tail => t.push = .loadHead m tail ∧ s.seg.slots = t.seg.slots
  | .copying m tail todo => t.push = .writeSeq m tail ∧ (∀ i ∈ todo, i < (image m).length) ∧
    Scatter.Underway (todo.map (p.slotAt tail + ·)) s.seg.slots
      (write t.seg.slots (p.slotAt tail) (image m))

/-- The other ring has handed over the message when a callback begins. -/
def PopSim (p : Params) (s : State) (t : Shm.State) : Prop :=
  match s.pop with
  | .idle => t.pop = .idle ∧ List.Forall₂ Gives s.delivered t.delivered
  | .loadTail kind head => t.pop = .loadTail kind head ∧ List.Forall₂ Gives s.delivered t.delivered
  | .readHeader kind head todo got => t.pop = .readSeq kind head ∧ (∀ i ∈ todo, i < 8) ∧
    Scatter.Underway todo got (region t.seg.slots (p.slotAt head) 8) ∧
    List.Forall₂ Gives s.delivered t.delivered
  | .readPayload head seqNum len todo got => t.pop = .readPayload .copy head seqNum len ∧
    (∀ i ∈ todo, i < len.toNat) ∧
    Scatter.Underway todo got (region t.seg.slots (p.slotAt head + 8) len.toNat) ∧
    List.Forall₂ Gives s.delivered t.delivered
  | .callback head seqNum len looks => t.pop = .callback head ∧
    ∃ before m, t.delivered = before ++ [m] ∧ List.Forall₂ Gives s.delivered before ∧
      Gives (.lent seqNum len looks) m
  | .storeHead head => t.pop = .storeHead head ∧ List.Forall₂ Gives s.delivered t.delivered

structure Sim (p : Params) (s : State) (t : Shm.State) : Prop where
  head : s.seg.head = t.seg.head
  tail : s.seg.tail = t.seg.tail
  accepted : s.accepted = t.accepted
  released : s.released = t.released
  push : PushSim p s t
  pop : PopSim p s t
  inv : FifoInv p t

section
variable {p : Params} {s s' : State} {t t' : Shm.State}

@[simp] theorem image_length (m : Msg) : (image m).length = 8 + m.payload.length := by
  simp only [image, List.length_append, u32_length]

/-- The three copies of a push are one. -/
theorem write_image {slots : Bytes} {offset : Nat} {m : Msg}
    (h : offset + 8 + m.payload.length ≤ slots.length) :
    write (write (write slots offset (u32 m.seqNum)) (offset + 4) (u32 m.len)) (offset + 8)
      m.payload = write slots offset (image m) := by
  have hheader : write (write slots offset (u32 m.seqNum)) (offset + 4) (u32 m.len) =
      write slots offset (u32 m.seqNum ++ u32 m.len) :=
    Scatter.write_append (by simp only [u32_length]; omega)
  rw [hheader]
  exact Scatter.write_append (by simp only [List.length_append, u32_length]; omega)

/-- The last accesses of a push that found room. -/
theorem filled (hinv : FifoInv p t) {m : Msg} {tail : Nat} (hpush : t.push = .writeSeq m tail) :
    (List.replicate 4 Shm.Act.producer).foldl (Shm.step p) t =
      { t with
        seg := ⟨t.seg.head, p.next tail, write t.seg.slots (p.slotAt tail) (image m)⟩
        push := .idle
        accepted := t.accepted ++ [m] } := by
  have hvacant := hinv.inv.push
  rw [PushInv, hpush] at hvacant
  have hinside := p.slotAt_inside hvacant.lt
  have hslot := p.slotSize_eq
  have hfits := hvacant.fits
  have hsize := hinv.inv.intact.size
  rw [← write_image (by omega)]
  simp [Shm.step, Shm.producerStep, hpush, Segment.write]

/-! ### The bytes of the front slot -/

/-- Pushes leave alone what pops have, and the slot that is being read. -/
theorem producers_frame (h : FifoInv p t) (acts : List Shm.Act)
    (hside : ∀ act ∈ acts, act.side = .producer) :
    (acts.foldl (Shm.step p) t).pop = t.pop ∧
      (acts.foldl (Shm.step p) t).delivered = t.delivered ∧
      (acts.foldl (Shm.step p) t).released = t.released ∧
      ∀ head, t.pop.reading = some head →
        slotBytes p (acts.foldl (Shm.step p) t) head = slotBytes p t head := by
  induction acts generalizing t with
  | nil => exact ⟨rfl, rfl, rfl, fun _ _ => rfl⟩
  | cons act rest ih =>
    obtain ⟨hpop, hdelivered, hreleased⟩ :=
      Python.producer_frame (p := p) (s := t) act (hside act List.mem_cons_self)
    obtain ⟨hpop', hdelivered', hreleased', hbytes⟩ :=
      ih (h.step act) fun a ha => hside a (List.mem_cons_of_mem act ha)
    refine ⟨hpop'.trans hpop, hdelivered'.trans hdelivered, hreleased'.trans hreleased, ?_⟩
    intro head hreading
    rw [List.foldl_cons, hbytes head (by rw [hpop]; exact hreading)]
    exact h.inv.untouched hreading act

/-- A part of a slot. -/
theorem region_slot {index k n : Nat} (h : k + n ≤ p.slotSize) :
    region t.seg.slots (p.slotAt index + k) n = region (slotBytes p t index) k n := by
  apply List.ext_getElem?
  intro i
  rw [slotBytes, region_getElem?, region_getElem?, region_getElem?]
  by_cases hi : i < n
  · rw [if_pos hi, if_pos hi, if_pos (by omega), Nat.add_assoc]
  · rw [if_neg hi, if_neg hi]

/-- The message that is being read lies in its slot. -/
theorem reading_fits (h : FifoInv p t) {kind : PopKind} {head : Nat} {seqNum len : UInt32}
    (hpop : t.pop = .readPayload kind head seqNum len) : 8 + len.toNat ≤ p.slotSize := by
  have hinv := h.inv.pop
  rw [PopInv, hpop] at hinv
  obtain ⟨_, m, hfront, _, rfl⟩ := hinv
  have hfits := (h.inv.intact.front trivial hfront).2
  rw [Msg.len_toNat hfits, p.slotSize_eq]
  omega

/-- The slot that is being read is a slot. -/
theorem reading_lt (h : FifoInv p t) (head : Nat) (hreading : t.pop.reading = some head) :
    p.slotAt head + p.slotSize ≤ t.seg.slots.length := by
  obtain ⟨m, hfront, _⟩ := h.inv.pop.reading hreading
  rw [h.inv.intact.size, hfront]
  exact p.slotAt_inside (Nat.mod_lt _ p.capacity_pos)

/-- **A push that is copying leaves the front slot alone**: its bytes are in both rings the same. -/
theorem Sim.byte_eq (h : Sim p s t) {head k : Nat} (hreading : t.pop.reading = some head)
    (hk : k < p.slotSize) :
    s.seg.slots[p.slotAt head + k]? = t.seg.slots[p.slotAt head + k]? := by
  have hpush := h.push
  unfold PushSim at hpush
  cases hpc : s.push with
  | idle | loadHead m tail =>
    rw [hpc] at hpush
    rw [hpush.2]
  | copying m tail todo =>
    rw [hpc] at hpush
    obtain ⟨hwriting, htodo, hunderway⟩ := hpush
    obtain ⟨m', hfront⟩ := h.inv.inv.pop.reading hreading
    have hvacant := h.inv.inv.push
    rw [PushInv, hwriting] at hvacant
    have hne : head ≠ tail := by
      rw [hfront.1]
      exact hvacant.ne h.inv.inv.intact trivial (le_refl _)
        (List.getElem?_eq_some_iff.mp hfront.2).1
    have hslot := p.slotSize_eq
    have hfits := hvacant.fits
    have hinside := p.slotAt_inside hvacant.lt
    have hsize := h.inv.inv.intact.size
    have hapart := p.slotAt_apart hne
    rw [hunderway.done, write_getElem? (by rw [image_length]; omega), if_neg]
    · rw [image_length]
      omega
    · intro hmem
      obtain ⟨i, hi, heq⟩ := List.mem_map.mp hmem
      have hlt := htodo i hi
      rw [image_length] at hlt
      omega

/-! ### The steps -/

theorem PopSim.frame (h : PopSim p s t) (hinv : FifoInv p t) (hspop : s'.pop = s.pop)
    (hsdelivered : s'.delivered = s.delivered) (hpop : t'.pop = t.pop)
    (hdelivered : t'.delivered = t.delivered)
    (hbytes : ∀ head, t.pop.reading = some head → slotBytes p t' head = slotBytes p t head) :
    PopSim p s' t' := by
  unfold PopSim at h ⊢
  rw [hspop, hsdelivered, hpop, hdelivered]
  cases hpc : s.pop with
  | idle | loadTail kind head | callback head seqNum len looks | storeHead head =>
    rw [hpc] at h
    exact h
  | readHeader kind head todo got =>
    rw [hpc] at h
    obtain ⟨hreading, htodo, hunderway, hgives⟩ := h
    have hslot := p.slotSize_eq
    have hsame := hbytes head (by rw [hreading]; rfl)
    have hregion : region t'.seg.slots (p.slotAt head) 8 = region t.seg.slots (p.slotAt head) 8 := by
      rw [← Nat.add_zero (p.slotAt head), region_slot (by omega), region_slot (by omega), hsame]
    refine ⟨hreading, htodo, ?_, hgives⟩
    rw [hregion]
    exact hunderway
  | readPayload head seqNum len todo got =>
    rw [hpc] at h
    obtain ⟨hreading, htodo, hunderway, hgives⟩ := h
    have hfits := reading_fits hinv hreading
    have hsame := hbytes head (by rw [hreading]; rfl)
    refine ⟨hreading, htodo, ?_, hgives⟩
    rw [region_slot hfits, hsame, ← region_slot hfits]
    exact hunderway

theorem PushSim.frame (h : PushSim p s t) (hspush : s'.push = s.push)
    (hsslots : s'.seg.slots = s.seg.slots) (hpush : t'.push = t.push)
    (hslots : t'.seg.slots = t.seg.slots) : PushSim p s' t' := by
  unfold PushSim at h ⊢
  rw [hspush, hsslots, hpush, hslots]
  exact h

theorem pick_eq {todo : List Nat} {src : Nat → Option UInt8} {byte : Nat} {b : UInt8}
    (h : pick todo src byte = some b) : byte ∈ todo ∧ src byte = some b := by
  unfold pick at h
  split at h
  · next hmem => exact ⟨hmem, h⟩
  · cases h

theorem Sim.startPush (h : Sim p s t) (m : Msg) : Sim p (startPush p s m) (Shm.step p t (.push m)) := by
  have hpush := h.push
  have hinv := h.inv.step (.push m)
  unfold PushSim at hpush
  unfold Bytewise.startPush Shm.step Shm.startPush at *
  cases hpc : s.push with
  | idle =>
    rw [hpc] at hpush
    rw [hpush.1] at hinv ⊢
    simp only at hinv ⊢
    by_cases hlong : p.maxPayload < m.payload.length
    · rw [if_pos hlong, if_pos hlong]
      exact h
    · rw [if_neg hlong] at hinv
      rw [if_neg hlong, if_neg hlong]
      refine ⟨h.head, h.tail, h.accepted, h.released, ⟨?_, hpush.2⟩, h.pop, hinv⟩
      rw [h.tail]
  | loadHead m' tail =>
    rw [hpc] at hpush
    rw [hpush.1]
    exact h
  | copying m' tail todo =>
    rw [hpc] at hpush
    rw [hpush.1]
    exact h

theorem Sim.producerStep (h : Sim p s t) (byte : Nat) :
    Sim p (producerStep p s byte) ((completes s (.producer byte)).foldl (Shm.step p) t) := by
  have hpush := h.push
  unfold PushSim at hpush
  unfold Bytewise.producerStep completes
  cases hpc : s.push with
  | idle => exact h
  | loadHead m tail =>
    rw [hpc] at hpush
    have hinv := h.inv.step .producer
    simp only [List.foldl, Shm.step, Shm.producerStep, hpush.1] at hinv ⊢
    rw [← h.head] at hinv ⊢
    by_cases hfull : p.next tail = s.seg.head
    · rw [if_pos hfull] at hinv ⊢
      rw [if_pos hfull]
      exact ⟨h.head, h.tail, h.accepted, h.released, ⟨rfl, hpush.2⟩,
        h.pop.frame h.inv rfl rfl rfl rfl fun _ _ => rfl, hinv⟩
    · rw [if_neg hfull] at hinv ⊢
      rw [if_neg hfull]
      have hvacant := hinv.inv.push
      rw [PushInv] at hvacant
      have hinside := p.slotAt_inside hvacant.lt
      have hslot := p.slotSize_eq
      have hfits := hvacant.fits
      have hsize := h.inv.inv.intact.size
      refine ⟨h.head, h.tail, h.accepted, h.released,
        ⟨rfl, fun i hi => List.mem_range.mp hi, ?_⟩,
        h.pop.frame h.inv rfl rfl rfl rfl fun _ _ => rfl, hinv⟩
      rw [hpush.2]
      exact Scatter.Underway.write (by rw [image_length]; omega)
  | copying m tail todo =>
    rw [hpc] at hpush
    obtain ⟨hwriting, htodo, hunderway⟩ := hpush
    cases todo with
    | nil =>
      obtain ⟨hpop, hdelivered, hreleased, hbytes⟩ :=
        producers_frame h.inv (List.replicate 4 .producer) fun act hact => by
          rw [List.eq_of_mem_replicate hact]
          rfl
      have hinv : FifoInv p ((List.replicate 4 Shm.Act.producer).foldl (Shm.step p) t) :=
        foldl_invariant (FifoInv p) (fun _ => True) (Shm.step p) (fun _ act h _ => h.step act) _ _
          h.inv fun _ _ => trivial
      have hslots := hunderway.finish
      rw [filled h.inv hwriting] at hpop hdelivered hreleased hbytes hinv ⊢
      refine ⟨h.head, rfl, ?_, h.released, ⟨rfl, hslots⟩,
        h.pop.frame h.inv rfl rfl hpop hdelivered hbytes, hinv⟩
      show s.accepted ++ [m] = t.accepted ++ [m]
      rw [h.accepted]
    | cons first rest =>
      simp only
      cases hpick : pick (first :: rest) (fun i => (image m)[i]?) byte with
      | none => exact h
      | some b =>
        obtain ⟨hmem, hb⟩ := pick_eq hpick
        have hvacant := h.inv.inv.push
        rw [PushInv, hwriting] at hvacant
        have hinside := p.slotAt_inside hvacant.lt
        have hslot := p.slotSize_eq
        have hfits := hvacant.fits
        have hsize := h.inv.inv.intact.size
        have hlt := htodo byte hmem
        refine ⟨h.head, h.tail, h.accepted, h.released,
          ⟨hwriting, fun i hi => htodo i (List.mem_of_mem_erase hi), ?_⟩,
          h.pop.frame h.inv rfl rfl rfl rfl fun _ _ => rfl, h.inv⟩
        have hnext := hunderway.step (i := p.slotAt tail + byte) (b := b) (by
          rw [write_getElem? (by rw [image_length]; omega), if_pos (by omega), Nat.add_sub_cancel_left]
          exact hb)
        rwa [List.map_erase (fun x y hxy => Nat.add_left_cancel hxy)]

theorem Sim.startPop (h : Sim p s t) (kind : PopKind) :
    Sim p (startPop s kind) (Shm.step p t (.pop kind)) := by
  have hpop := h.pop
  have hinv := h.inv.step (.pop kind)
  unfold PopSim at hpop
  unfold Bytewise.startPop Shm.step Shm.startPop at *
  cases hpc : s.pop with
  | idle =>
    rw [hpc] at hpop
    rw [hpop.1] at hinv ⊢
    refine ⟨h.head, h.tail, h.accepted, h.released, h.push.frame rfl rfl rfl rfl, ⟨?_, hpop.2⟩, hinv⟩
    rw [h.head]
  | _ =>
    rw [hpc] at hpop
    rw [hpop.1]
    exact h

/-- A word of the header, loaded byte by byte. -/
theorem readU32_header {slots got : Bytes} {index k : Nat} (h : got = region slots (p.slotAt index) 8)
    (hk : k + 4 ≤ 8) : readU32 k got = readU32 (p.slotAt index + k) slots := by
  rw [h, region, readU32_take _ hk, readU32, readU32, read_drop]

/-- The running callback was given the message at the front. -/
theorem lent_payload (h : FifoInv p t) {head : Nat} {before : List Msg} {m : Msg}
    (hpop : t.pop = .callback head) (hdelivered : t.delivered = before ++ [m]) :
    before.length = t.released ∧ t.accepted[t.released]? = some m ∧
      region t.seg.slots (p.slotAt head + 8) m.payload.length = m.payload ∧
      8 + m.payload.length ≤ p.slotSize := by
  have hinv := h.inv.pop
  rw [PopInv, hpop] at hinv
  obtain ⟨htake, m', hfront⟩ := hinv
  obtain ⟨hholds, hfits⟩ := h.inv.intact.front trivial hfront
  have hle := h.inv.intact.le
  rw [hdelivered, List.take_add_one, hfront.2] at htake
  obtain ⟨hbefore, hlast⟩ := List.append_inj' htake rfl
  obtain rfl : m = m' := List.head_eq_of_cons_eq hlast
  refine ⟨?_, hfront.2, hholds.payload, ?_⟩
  · rw [hbefore, List.length_take, Nat.min_eq_left hle]
  · rw [p.slotSize_eq]
    omega

theorem Sim.consumerStep (h : Sim p s t) (byte : Nat) :
    Sim p (consumerStep p s byte) ((completes s (.consumer byte)).foldl (Shm.step p) t) := by
  have hpop := h.pop
  have hslot := p.slotSize_eq
  have hruns : ∀ acts, FifoInv p (List.foldl (Shm.step p) t acts) := fun acts =>
    foldl_invariant (FifoInv p) (fun _ => True) (Shm.step p) (fun _ act h _ => h.step act) acts _
      h.inv fun _ _ => trivial
  unfold PopSim at hpop
  unfold Bytewise.consumerStep completes
  cases hpc : s.pop with
  | idle => exact h
  | loadTail kind head =>
    rw [hpc] at hpop
    have hinv := hruns [.consumer]
    simp only [List.foldl, Shm.step, Shm.consumerStep, hpop.1] at hinv ⊢
    rw [← h.tail] at hinv ⊢
    by_cases hempty : head = s.seg.tail
    · rw [if_pos hempty] at hinv ⊢
      rw [if_pos hempty]
      exact ⟨h.head, h.tail, h.accepted, h.released, h.push.frame rfl rfl rfl rfl, ⟨rfl, hpop.2⟩, hinv⟩
    · rw [if_neg hempty] at hinv ⊢
      rw [if_neg hempty]
      have hlt := reading_lt hinv head rfl
      have hsize : (region t.seg.slots (p.slotAt head) 8).length = 8 := by
        rw [region, List.length_take, List.length_drop]
        simp only at hlt
        omega
      have hroom : (List.replicate 8 (0 : UInt8)).length =
          (region t.seg.slots (p.slotAt head) 8).length := by
        rw [hsize, List.length_replicate]
      have hstart := Scatter.Underway.start hroom
      rw [hsize] at hstart
      exact ⟨h.head, h.tail, h.accepted, h.released, h.push.frame rfl rfl rfl rfl,
        ⟨rfl, fun i hi => List.mem_range.mp hi, hstart, hpop.2⟩, hinv⟩
  | readHeader kind head todo got =>
    rw [hpc] at hpop
    obtain ⟨hreading, htodo, hunderway, hgives⟩ := hpop
    cases todo with
    | nil =>
      have hgot := hunderway.finish
      have hseq := readU32_header (p := p) (k := 0) hgot (by decide)
      have hlen := readU32_header (p := p) (k := 4) hgot (by decide)
      rw [Nat.add_zero] at hseq
      cases kind with
      | copy =>
        have hinv := hruns (List.replicate 2 .consumer)
        simp only [List.replicate, List.foldl, Shm.step, Shm.consumerStep, hreading, ← hseq, ← hlen]
          at hinv ⊢
        have hlt := reading_lt hinv head rfl
        have hfits := reading_fits hinv rfl
        have hsize : (region t.seg.slots (p.slotAt head + 8) (readU32 4 got).toNat).length =
            (readU32 4 got).toNat := by
          rw [region, List.length_take, List.length_drop]
          simp only at hlt
          omega
        have hroom : (List.replicate (readU32 4 got).toNat (0 : UInt8)).length =
            (region t.seg.slots (p.slotAt head + 8) (readU32 4 got).toNat).length := by
          rw [hsize, List.length_replicate]
        have hstart := Scatter.Underway.start hroom
        rw [hsize] at hstart
        exact ⟨h.head, h.tail, h.accepted, h.released, h.push.frame rfl rfl rfl rfl,
          ⟨rfl, fun i hi => List.mem_range.mp hi, hstart, hgives⟩, hinv⟩
      | zeroCopy =>
        have hinv' := hruns (List.replicate 2 .consumer)
        have hinv := hruns (List.replicate 3 .consumer)
        simp only [List.replicate, List.foldl, Shm.step, Shm.consumerStep, hreading, ← hseq, ← hlen]
          at hinv hinv' ⊢
        have hlt := reading_lt hinv' head rfl
        have hfits := reading_fits hinv' rfl
        refine ⟨h.head, h.tail, h.accepted, h.released, h.push.frame rfl rfl rfl rfl,
          ⟨rfl, _, _, rfl, hgives, rfl, ?_, fun look hlook => absurd hlook List.not_mem_nil⟩, hinv⟩
        rw [region, List.length_take, List.length_drop]
        simp only at hlt
        omega
    | cons first rest =>
      simp only
      cases hpick : pick (first :: rest) (fun i => s.seg.slots[p.slotAt head + i]?) byte with
      | none => exact h
      | some b =>
        obtain ⟨hmem, hb⟩ := pick_eq hpick
        have hlt := htodo byte hmem
        rw [h.byte_eq (by rw [hreading]; rfl) (by omega)] at hb
        refine ⟨h.head, h.tail, h.accepted, h.released, h.push.frame rfl rfl rfl rfl,
          ⟨hreading, fun i hi => htodo i (List.mem_of_mem_erase hi), hunderway.step ?_, hgives⟩, h.inv⟩
        rw [region_getElem?, if_pos hlt, hb]
  | readPayload head seqNum len todo got =>
    rw [hpc] at hpop
    obtain ⟨hreading, htodo, hunderway, hgives⟩ := hpop
    cases todo with
    | nil =>
      have hgot := hunderway.finish
      have hinv := hruns [.consumer]
      simp only [List.foldl, Shm.step, Shm.consumerStep, hreading, ← hgot] at hinv ⊢
      exact ⟨h.head, h.tail, h.accepted, h.released, h.push.frame rfl rfl rfl rfl,
        ⟨rfl, List.rel_append hgives (.cons rfl .nil)⟩, hinv⟩
    | cons first rest =>
      simp only
      cases hpick : pick (first :: rest) (fun i => s.seg.slots[p.slotAt head + 8 + i]?) byte with
      | none => exact h
      | some b =>
        obtain ⟨hmem, hb⟩ := pick_eq hpick
        have hlt := htodo byte hmem
        have hfits := reading_fits h.inv hreading
        rw [Nat.add_assoc, h.byte_eq (by rw [hreading]; rfl) (by omega), ← Nat.add_assoc] at hb
        refine ⟨h.head, h.tail, h.accepted, h.released, h.push.frame rfl rfl rfl rfl,
          ⟨hreading, fun i hi => htodo i (List.mem_of_mem_erase hi), hunderway.step ?_, hgives⟩, h.inv⟩
        rw [region_getElem?, if_pos hlt, hb]
  | callback head seqNum len looks =>
    rw [hpc] at hpop
    obtain ⟨hreading, before, m, hdelivered, hgives, hseq, hlen, hlooks⟩ := hpop
    simp only
    cases hpick : pick (List.range len.toNat) (fun i => s.seg.slots[p.slotAt head + 8 + i]?) byte with
    | none => exact h
    | some b =>
      obtain ⟨hmem, hb⟩ := pick_eq hpick
      have hlt := List.mem_range.mp hmem
      obtain ⟨_, _, hpayload, hfits⟩ := lent_payload h.inv hreading hdelivered
      rw [Nat.add_assoc, h.byte_eq (by rw [hreading]; rfl) (by omega), ← Nat.add_assoc] at hb
      refine ⟨h.head, h.tail, h.accepted, h.released, h.push.frame rfl rfl rfl rfl,
        ⟨hreading, before, m, hdelivered, hgives, hseq, hlen, fun look hlook => ?_⟩, h.inv⟩
      rcases List.mem_append.mp hlook with hlook | hlook
      · exact hlooks look hlook
      · rw [List.mem_singleton.mp hlook, ← hpayload, region_getElem?, if_pos (by omega)]
        exact hb
  | storeHead head =>
    rw [hpc] at hpop
    have hinv := hruns [.consumer]
    simp only [List.foldl, Shm.step, Shm.consumerStep, hpop.1] at hinv ⊢
    refine ⟨rfl, h.tail, h.accepted, ?_, h.push.frame rfl rfl rfl rfl, ⟨rfl, hpop.2⟩, hinv⟩
    show s.released + 1 = t.released + 1
    rw [h.released]

theorem Sim.returnCallback (h : Sim p s t) :
    Sim p (returnCallback s) ((completes s .callbackReturns).foldl (Shm.step p) t) := by
  have hpop := h.pop
  unfold PopSim at hpop
  unfold Bytewise.returnCallback completes
  cases hpc : s.pop with
  | callback head seqNum len looks =>
    rw [hpc] at hpop
    obtain ⟨hreading, before, m, hdelivered, hgives, hlent⟩ := hpop
    have hinv := h.inv.step .consumer
    simp only [List.foldl, Shm.step, Shm.consumerStep, hreading] at hinv ⊢
    refine ⟨h.head, h.tail, h.accepted, h.released, h.push.frame rfl rfl rfl rfl, ⟨rfl, ?_⟩, hinv⟩
    show List.Forall₂ Gives (s.delivered ++ [.lent seqNum len looks]) t.delivered
    rw [hdelivered]
    exact List.rel_append hgives (.cons hlent .nil)
  | _ => exact h

/-- **Each access is followed by those it completes.** -/
theorem Sim.step (h : Sim p s t) (act : Act) :
    Sim p (step p s act) ((completes s act).foldl (Shm.step p) t) := by
  cases act with
  | push m => exact h.startPush m
  | producer byte => exact h.producerStep byte
  | pop kind => exact h.startPop kind
  | consumer byte => exact h.consumerStep byte
  | callbackReturns => exact h.returnCallback

/-! ### What is handed over -/

/-- What was handed over is the beginning of what was accepted, and of a running callback the next
message is lent. -/
theorem Sim.handed (h : Sim p s t) :
    List.Forall₂ Gives s.delivered (s.accepted.take s.delivered.length) ∧
      (s.released ≤ s.delivered.length ∧ s.delivered.length ≤ s.released + 1) ∧
      ∀ head seqNum len looks, s.pop = .callback head seqNum len looks →
        ∃ m, s.accepted[s.delivered.length]? = some m ∧ Gives (.lent seqNum len looks) m := by
  obtain ⟨⟨rest, hrest⟩, hreleased⟩ := h.inv.inv.delivered
  have hpop := h.pop
  unfold PopSim at hpop
  rw [h.accepted, h.released]
  by_cases hcallback : ∃ head seqNum len looks, s.pop = .callback head seqNum len looks
  · obtain ⟨head, seqNum, len, looks, hpc⟩ := hcallback
    rw [hpc] at hpop
    obtain ⟨hreading, before, m, hdelivered, hgives, hlent⟩ := hpop
    obtain ⟨hlength, hm, _⟩ := lent_payload h.inv hreading hdelivered
    have hsame : s.delivered.length = t.released := hgives.length_eq.trans hlength
    refine ⟨?_, by omega, fun head' seqNum' len' looks' hpc' => ?_⟩
    · rw [hgives.length_eq, ← hrest, hdelivered, List.append_assoc, List.take_left]
      exact hgives
    · rw [hpc] at hpc'
      cases hpc'
      rw [hsame]
      exact ⟨m, hm, hlent⟩
  · have hgives : List.Forall₂ Gives s.delivered t.delivered := by
      cases hpc : s.pop with
      | idle | loadTail kind head | storeHead head =>
        rw [hpc] at hpop
        exact hpop.2
      | readHeader kind head todo got | readPayload head seqNum len todo got =>
        rw [hpc] at hpop
        exact hpop.2.2.2
      | callback head seqNum len looks => exact absurd ⟨_, _, _, _, hpc⟩ hcallback
    have hsame := hgives.length_eq
    refine ⟨?_, by rw [hsame]; exact hreleased, fun head seqNum len looks hpc =>
      absurd ⟨_, _, _, _, hpc⟩ hcallback⟩
    rw [hsame, ← hrest, List.take_left]
    exact hgives

/-- A push that is refused here is refused there. -/
theorem Sim.refuses (h : Sim p s t) {act : Act} (hrefuses : Refuses p s act) :
    (∃ m, act = .push m ∧ p.maxPayload < m.payload.length) ∨
      s.accepted.length - s.released = p.capacity - 1 := by
  have hpush := h.push
  unfold PushSim at hpush
  cases act with
  | push m => exact Or.inl ⟨m, rfl, hrefuses.2⟩
  | producer byte =>
    obtain ⟨m, tail, hpc, hfull⟩ := hrefuses
    rw [hpc] at hpush
    have hthere : Shm.Refuses p t .producer := ⟨m, tail, hpush.1, by rw [hfull, h.head]⟩
    rw [h.accepted, h.released]
    rcases h.inv.refuses hthere with ⟨_, heq, _⟩ | hall
    · cases heq
    · exact Or.inr hall
  | pop kind | consumer byte | callbackReturns => exact hrefuses.elim

theorem Sim.handsOver (h : Sim p s t) : HandsOver p s := by
  obtain ⟨hdelivered, hreleased, hlooking⟩ := h.handed
  have hroom := (h.inv.inv.intact.room trivial).lt
  refine ⟨hdelivered, hreleased, ?_, hlooking, fun act => h.refuses⟩
  rw [h.accepted, h.released]
  omega

end

/-- **Copies need not be atomic**: with accesses of the other side between any two bytes, in any
order, what is handed over is what was accepted, in order and byte for byte, also while a callback
looks at it, and a push is refused only if it is too long or the ring is full. -/
theorem bytewise_hands_over (p : Params) (slots : Bytes)
    (hsize : slots.length = p.capacity * p.slotSize) (acts : List Act) :
    HandsOver p (acts.foldl (step p) (fresh slots)) := by
  have hfresh : Sim p (fresh slots) (Shm.fresh slots) :=
    ⟨rfl, rfl, rfl, rfl, ⟨rfl, rfl⟩, ⟨rfl, .nil⟩,
      inv_fresh hsize, (fun _ h => nomatch h), (fun _ _ h => nomatch h)⟩
  obtain ⟨_, hsim⟩ := foldl_sim (Sim p) completes (step p) (Shm.step p) (fun _ _ act h => h.step act)
    acts _ _ hfresh
  exact hsim.handsOver

/-- A push that writes its bytes from the last to the first while the message before it is being
looked at. -/
def overlapped : List Act :=
  [.push ⟨1, [7]⟩] ++ ([0] ++ List.range 9 ++ [0]).map .producer ++
  [.pop .zeroCopy] ++ ([0] ++ List.range 8 ++ [0]).map .consumer ++
  [.push ⟨2, [8]⟩, .producer 0] ++
  ((List.range 9).reverse.flatMap fun byte => [.producer byte, .consumer 0]) ++
  [.producer 0, .callbackReturns, .consumer 0]

theorem bytewise_hands_over_four :
    HandsOver four (overlapped.foldl (step four) (fresh blank)) ∧
      (overlapped.foldl (step four) (fresh blank)).delivered =
        [.lent 1 1 (List.replicate 9 (0, 7))] ∧
      (overlapped.foldl (step four) (fresh blank)).accepted = [⟨1, [7]⟩, ⟨2, [8]⟩] :=
  ⟨bytewise_hands_over four blank (by decide) overlapped, by decide, by decide⟩

end Relink.Shm.Bytewise
