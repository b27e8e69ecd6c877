import Mathlib.Data.List.Perm.Basic
import Mathlib.Data.List.Range
import Relink.Library.Run
import Relink.Relay.Xdp

/-! The rings of the fast path.

`RelayXdp` shares `kNumFrames` frames of memory with the kernel. They go over on the fill ring and
come back on the RX ring, each with a packet in it, and between any two steps of the loop of `main`
the kernel may take its own. The kernel and libxdp are not part of the sources: `Kernel` and
`Allowed` say what is asked of them. `fast_path_lossless` says what comes of it: the relay handles
what was put on the RX ring, once and in order, as if it had arrived on the plain socket's side, no
frame is written while it is read, and none is lost but in a `refill` that finds the fill ring full,
which happens exactly where the kernel is late to publish what it has taken. -/
namespace Relink.Relay.RelayXdp
open Wire
open Rlcore (Send Time)
open Transition (Throughout)

def kNumFrames : Nat := 4096
def kRingSize : Nat := 2048

/-- `struct xdp_desc`, a packet in the shared memory. -/
structure Desc where
  addr : Nat
  len : Nat
  short : len ≤ kFrameSize
deriving DecidableEq

/-- Where the loop stands: it has peeked `n` packets and is through with `i` of them. -/
inductive Loop where
  | poll
  | batch (n i : Nat)
  | reading (n i : Nat) (d : Desc)
  | handled (n i addr : Nat)
deriving DecidableEq

/-- What the kernel writes. -/
structure Shared where
  umemArea : Nat → UInt8
  /-- How many addresses it has taken off the fill ring. -/
  taken : Nat
  /-- How many of these it has published: its consumer index. -/
  published : Nat
  /-- The descriptors it has put on the RX ring, from the beginning. -/
  rxed : List Desc

structure State extends Shared where
  /-- The addresses submitted on the fill ring, from the beginning. -/
  filled : List Nat
  /-- Those that `refill` found no room for. -/
  lost : List Nat
  /-- How many descriptors are released. -/
  released : Nat
  loop : Loop
  relay : Standalone

/-- `RelayXdp::init` puts every frame on the fill ring. -/
def init (relay : Standalone) : State where
  umemArea _ := 0
  taken := 0
  published := 0
  rxed := []
  filled := (List.range kNumFrames).map (· * kFrameSize)
  lost := []
  released := 0
  loop := .poll
  relay := relay

/-- The kernel masks an address, so that any one in a frame stands for it. -/
def frameOf (addr : Nat) : Nat := addr / kFrameSize

def Desc.frame (d : Desc) : Nat := frameOf d.addr

/-- What the shared memory holds of a packet. -/
def frameAt (umemArea : Nat → UInt8) (d : Desc) : Frame :=
  ⟨(List.range d.len).map fun i => umemArea (d.addr + i), by
    rw [List.length_map, List.length_range]
    exact d.short⟩

def write (umemArea : Nat → UInt8) (addr : Nat) (bytes : Bytes) : Nat → UInt8 := fun a =>
  if addr ≤ a ∧ a < addr + bytes.length then bytes.getD (a - addr) 0 else umemArea a

/-- What the relay gets to handle, by either way. -/
inductive Event where
  | plain (a : Arrival)
  | frame (now : Time) (f : Frame)

def serve (relay : Standalone) : Event → Standalone × List Send
  | .plain a => relay.step a
  | .frame now f =>
    match xdpHands f with
    | some h => handlePacket relay (clockSecond now) h.src (h.payload f)
    | none => (relay, [])

inductive Note where
  | posted (fs : List Frame)
  | served (e : Event) (sends : List Send)

/-! ### The loop -/

def recvfrom (s : State) (a : Arrival) : State × Option Note :=
  match s.loop with
  | .poll =>
    let r := serve s.relay (.plain a)
    ({s with relay := r.1}, some (.served (.plain a) r.2))
  | _ => (s, none)

/-- `rx_batch(64, &idx_rx)`, where `xsk_ring_cons__peek` returns `n`. -/
def rxBatch (s : State) (n : Nat) : State :=
  match s.loop with
  | .poll => if 0 < n then {s with loop := .batch n 0} else s
  | _ => s

def rxFrame (s : State) : State :=
  match s.loop with
  | .batch n i =>
    if i < n then
      match s.rxed[s.released + i]? with
      | some d => {s with loop := .reading n i d}
      | none => s
    else s
  | _ => s

/-- The loop's body between `rx_frame` and `refill`. -/
def handle (s : State) (now : Time) : State × Option Note :=
  match s.loop with
  | .reading n i d =>
    let e := Event.frame now (frameAt s.umemArea d)
    let r := serve s.relay e
    ({s with relay := r.1, loop := .handled n i d.addr}, some (.served e r.2))
  | _ => (s, none)

/-- `refill`, where `xsk_ring_prod__reserve` does or does not return 1: then the frame is gone. -/
def refill (s : State) (reserved : Bool) : State :=
  match s.loop with
  | .handled n i addr =>
    if reserved then {s with filled := s.filled ++ [addr], loop := .batch n (i + 1)}
    else {s with lost := s.lost ++ [addr], loop := .batch n (i + 1)}
  | _ => s

def releaseRx (s : State) : State :=
  match s.loop with
  | .batch n i => if i < n then s else {s with released := s.released + n, loop := .poll}
  | _ => s

/-- The loop's steps, with what the functions of libxdp return, and the kernel's. -/
inductive Act where
  | kernel (k : Shared)
  | recvfrom (a : Arrival)
  | rxBatch (n : Nat)
  | rxFrame
  | handle (now : Time)
  | refill (reserved : Bool)
  | releaseRx

/-- What the kernel's step leaves, and what it has put on the RX ring. -/
def kernel (s : State) (k : Shared) : State × Option Note :=
  ({s with toShared := k},
    some (.posted ((k.rxed.drop s.rxed.length).map (frameAt k.umemArea))))

def step (s : State) : Act → State × Option Note
  | .kernel k => kernel s k
  | .recvfrom a => recvfrom s a
  | .rxBatch n => (rxBatch s n, none)
  | .rxFrame => (rxFrame s, none)
  | .handle now => handle s now
  | .refill reserved => (refill s reserved, none)
  | .releaseRx => (releaseRx s, none)

/-- The state alone. -/
def next (s : State) (a : Act) : State := (step s a).1

def run (s : State) (acts : List Act) : State := acts.foldl next s

def notes (s : State) (acts : List Act) : List Note :=
  (Transition.outputs step s acts).reduceOption

/-! ### What is asked of the kernel and of libxdp -/

/-- A packet stays in its frame. -/
def Desc.Inside (d : Desc) : Prop := d.addr % kFrameSize + d.len ≤ kFrameSize

/-- The frames that the kernel has taken and not put on the RX ring. -/
def held (filled : List Nat) (taken : Nat) (rxed : List Desc) : List Nat :=
  ((filled.take taken).map frameOf).diff (rxed.map Desc.frame)

/-- A step of the kernel. -/
structure Kernel (relayPort : UInt16) (s : State) (k : Shared) : Prop where
  /-- What is on the RX ring stays there. -/
  posts : s.rxed <+: k.rxed
  /-- The RX ring has `kRingSize` entries. -/
  room : k.rxed.length ≤ s.released + kRingSize
  /-- A packet comes in a frame that was taken off the fill ring, and in each only once. -/
  uses : (k.rxed.map Desc.frame).Subperm ((s.filled.take k.taken).map frameOf)
  /-- Only the frames that the kernel has are written. -/
  memory : ∀ a, frameOf a ∉ held s.filled k.taken s.rxed → k.umemArea a = s.umemArea a
  inside : ∀ d ∈ k.rxed.drop s.rxed.length, d.Inside
  /-- It was the program's verdict that put a packet there. -/
  redirected : ∀ d ∈ k.rxed.drop s.rxed.length,
    relayXdpProg relayPort (frameAt k.umemArea d) = .redirect

/-- `xsk_ring_cons__peek` may return fewer than there are, and `xsk_ring_prod__reserve` goes by the
consumer index that is published. -/
def Allowed (relayPort : UInt16) (s : State) : Act → Prop
  | .kernel k => Kernel relayPort s k
  | .rxBatch n => n ≤ min 64 (s.rxed.length - s.released)
  | .refill reserved => reserved ↔ s.filled.length - s.published < kNumFrames
  | _ => True

/-- The kernel has published that it took more frames than the loop has given back. -/
def Published (s : State) : Act → Prop
  | .refill _ =>
    match s.loop with
    | .handled _ i _ => s.released + i < s.published
    | _ => True
  | _ => True

/-! ### What the rings are for -/

def Note.frames : Note → List Frame
  | .posted fs => fs
  | .served _ _ => []

def Note.event? : Note → Option Event
  | .posted _ => none
  | .served e _ => some e

def Note.sends : Note → List Send
  | .posted _ => []
  | .served _ sends => sends

def Event.frame? : Event → Option Frame
  | .plain _ => none
  | .frame _ f => some f

/-- How many packets of the batch are handled, and of how many the frames are back. -/
def Loop.taken : Loop → Nat
  | .poll => 0
  | .batch _ i => i
  | .reading _ i _ => i
  | .handled _ i _ => i + 1

def Loop.refilled : Loop → Nat
  | .poll => 0
  | .batch _ i => i
  | .reading _ i _ => i
  | .handled _ i _ => i

/-- The packets that are on the RX ring and not handled yet. -/
def State.pending (s : State) : List Frame :=
  (s.rxed.drop (s.released + s.loop.taken)).map (frameAt s.umemArea)

/-- The descriptors that own their frame. -/
def State.owned (s : State) : List Desc := s.rxed.drop (s.released + s.loop.refilled)

/-- The frames, wherever they are: on the fill ring, with the kernel, with a packet, or lost. -/
def State.frames (s : State) : List Nat :=
  (s.filled.drop s.taken).map frameOf ++ (held s.filled s.taken s.rxed ++
    (s.owned.map Desc.frame ++ s.lost.map frameOf))

/-- The relay on its own, without rings. -/
def serveAll (relay : Standalone) (events : List Event) : Standalone × List Send :=
  (events.foldl (fun relay e => (serve relay e).1) relay,
    (Transition.outputs serve relay events).flatten)

/-- A run of the fast path from `relay` that noted `notes` and came to `s`. -/
structure Lossless (relayPort : UInt16) (relay : Standalone) (notes : List Note) (s : State) :
    Prop where
  /-- What the kernel put on the RX ring is handled, in order, or still there. -/
  order : notes.flatMap Note.frames =
    (notes.filterMap Note.event?).filterMap Event.frame? ++ s.pending
  redirected : ∀ f ∈ notes.flatMap Note.frames, relayXdpProg relayPort f = .redirect
  /-- The packet that the loop has a pointer to is the next one, byte for byte. -/
  reads : ∀ n i d, s.loop = .reading n i d →
    (notes.flatMap Note.frames)[((notes.filterMap Note.event?).filterMap Event.frame?).length]? =
      some (frameAt s.umemArea d)
  /-- The relay does what it would do without the rings. -/
  relays : serveAll relay (notes.filterMap Note.event?) = (s.relay, notes.flatMap Note.sends)
  /-- Every frame is in exactly one place, and the kernel has half of those that are not lost. -/
  frames : s.frames.Perm (List.range kNumFrames)
  supply : kRingSize ≤ (s.filled.drop s.taken).length + (held s.filled s.taken s.rxed).length +
    s.lost.length

/-! ### The shared memory -/

theorem frame_eq {f g : Frame} (h : f.bytes = g.bytes) : f = g := by
  cases f
  cases g
  cases h
  rfl

/-- What is written in other frames leaves a packet as it is. -/
theorem frameAt_congr {before after : Nat → UInt8} {d : Desc} (hd : d.Inside)
    (h : ∀ a, frameOf a = d.frame → after a = before a) : frameAt after d = frameAt before d := by
  refine frame_eq (List.map_congr_left fun i hi => h _ ?_)
  have hi : i < d.len := List.mem_range.mp hi
  simp only [Desc.Inside, Desc.frame, frameOf, kFrameSize] at *
  omega

/-! ### The invariant -/

/-- Where the loop stands on the RX ring. -/
def Loop.Agrees (rxRing : List Desc) : Loop → Prop
  | .poll => True
  | .batch n i => i ≤ n ∧ n ≤ rxRing.length
  | .reading n i d => i < n ∧ n ≤ rxRing.length ∧ rxRing[i]? = some d
  | .handled n i addr => i < n ∧ n ≤ rxRing.length ∧ rxRing[i]?.map Desc.addr = some addr

structure Inv (s : State) : Prop where
  balance : ((s.filled ++ s.lost).map frameOf).Perm
    (List.range kNumFrames ++ (s.rxed.take (s.released + s.loop.refilled)).map Desc.frame)
  uses : (s.rxed.map Desc.frame).Subperm ((s.filled.take s.taken).map frameOf)
  inside : ∀ d ∈ s.rxed, d.Inside
  released : s.released ≤ s.rxed.length
  ring : s.rxed.length ≤ s.released + kRingSize
  loop : s.loop.Agrees (s.rxed.drop s.released)

variable {s : State} {relayPort : UInt16}

theorem Loop.Agrees.append {rxRing : List Desc} {l : Loop} (h : l.Agrees rxRing)
    (descs : List Desc) : l.Agrees (rxRing ++ descs) := by
  have hlen : (rxRing ++ descs).length = rxRing.length + descs.length := List.length_append
  cases l with
  | poll => trivial
  | batch n i => exact ⟨h.1, by have := h.2; omega⟩
  | reading n i d' =>
    obtain ⟨hi, hn, hd⟩ := h
    exact ⟨hi, by omega, by rw [List.getElem?_append_left (by omega), hd]⟩
  | handled n i addr =>
    obtain ⟨hi, hn, hd⟩ := h
    exact ⟨hi, by omega, by rw [List.getElem?_append_left (by omega), hd]⟩

theorem Loop.Agrees.taken_le {rxRing : List Desc} {l : Loop} (h : l.Agrees rxRing) :
    l.taken ≤ rxRing.length := by
  cases l with
  | poll => exact Nat.zero_le _
  | batch n i => exact Nat.le_trans h.1 h.2
  | reading n i d => exact Nat.le_trans h.1.le h.2.1
  | handled n i addr => exact Nat.le_trans h.1 h.2.1

theorem Loop.refilled_le (l : Loop) : l.refilled ≤ l.taken := by
  cases l with
  | handled n i addr => exact Nat.le_succ i
  | _ => exact Nat.le_refl _

theorem Inv.taken_le (hs : Inv s) : s.released + s.loop.taken ≤ s.rxed.length := by
  have htaken := hs.loop.taken_le
  have hreleased := hs.released
  rw [List.length_drop] at htaken
  omega

theorem Inv.refilled_le (hs : Inv s) : s.released + s.loop.refilled ≤ s.rxed.length :=
  Nat.le_trans (Nat.add_le_add_left s.loop.refilled_le _) hs.taken_le

theorem mem_owned_of_pending {d : Desc} (hd : d ∈ s.rxed.drop (s.released + s.loop.taken)) :
    d ∈ s.owned :=
  (List.drop_sublist_drop_left s.rxed (Nat.add_le_add_left s.loop.refilled_le _)).subset hd

theorem mem_of_owned {d : Desc} (hd : d ∈ s.owned) : d ∈ s.rxed := List.mem_of_mem_drop hd

theorem init_inv (relay : Standalone) : Inv (init relay) where
  balance := by
    have hid : frameOf ∘ (· * kFrameSize) = id :=
      funext fun k => Nat.mul_div_cancel k (by decide : 0 < kFrameSize)
    simp only [init, List.append_nil, List.map_map, hid, List.map_id, List.take_nil, List.map_nil]
    exact List.Perm.refl _
  uses := List.nil_subperm
  inside d hd := absurd hd List.not_mem_nil
  released := Nat.le_refl _
  ring := Nat.zero_le _
  loop := trivial

/-- Each frame is where it is once. -/
theorem Inv.frames (hs : Inv s) : s.frames.Perm (List.range kNumFrames) := by
  refine List.perm_iff_count.mpr fun m => ?_
  have hbalance := hs.balance.count_eq m
  have hheld := (List.subperm_append_diff_self_of_count_le fun x _ => hs.uses.count_le x).count_eq m
  have hfilled := congrArg (fun l => (l.map frameOf).count m) (List.take_append_drop s.taken s.filled)
  have hrxed := congrArg (fun l => (l.map Desc.frame).count m)
    (List.take_append_drop (s.released + s.loop.refilled) s.rxed)
  simp only [State.frames, State.owned, held, List.map_append, List.count_append] at *
  omega

theorem Inv.frames_nodup (hs : Inv s) : s.frames.Nodup := hs.frames.nodup_iff.mpr List.nodup_range

/-- The frames that the kernel may write hold no packet on the RX ring. -/
theorem Inv.apart (hs : Inv s) {d : Desc} (hd : d ∈ s.owned) :
    d.frame ∉ held s.filled s.taken s.rxed := by
  have hnodup := (List.nodup_append'.mp hs.frames_nodup).2.1
  have hdisjoint := (List.nodup_append'.mp hnodup).2.2
  exact fun hheld => hdisjoint hheld (List.mem_append_left _ (List.mem_map_of_mem hd))

/-- What was submitted on the fill ring is all the frames there are, and those of the packets that
are through, but the lost ones. -/
theorem Inv.count (hs : Inv s) :
    s.filled.length + s.lost.length = kNumFrames + (s.released + s.loop.refilled) := by
  have hlen := hs.balance.length_eq
  have hle := hs.refilled_le
  simp only [List.length_append, List.length_map, List.length_range, List.length_take] at hlen
  omega

theorem Inv.supply (hs : Inv s) :
    kRingSize ≤ (s.filled.drop s.taken).length + (held s.filled s.taken s.rxed).length +
      s.lost.length := by
  have hlen := hs.frames.length_eq
  have hring := hs.ring
  simp only [State.frames, State.owned, List.length_append, List.length_map, List.length_range,
    List.length_drop] at hlen ⊢
  simp only [kNumFrames, kRingSize] at *
  omega

/-! ### The steps -/

/-- What a step does to the rings and to the relay, whichever it is. -/
structure Keeps (relayPort : UInt16) (s : State) (r : State × Option Note) : Prop where
  inv : Inv r.1
  flow : s.pending ++ r.2.elim [] Note.frames =
    ((r.2.bind Note.event?).bind Event.frame?).toList ++ r.1.pending
  redirected : ∀ f ∈ r.2.elim [] Note.frames, relayXdpProg relayPort f = .redirect
  relay : r.1.relay = (r.2.bind Note.event?).elim s.relay fun e => (serve s.relay e).1
  sends : r.2.elim [] Note.sends = (r.2.bind Note.event?).elim [] fun e => (serve s.relay e).2

theorem Keeps.silent {s' : State} (hinv : Inv s') (hpending : s'.pending = s.pending)
    (hrelay : s'.relay = s.relay) : Keeps relayPort s (s', none) where
  inv := hinv
  flow := by
    rw [hpending]
    exact List.append_nil _
  redirected f hf := absurd hf List.not_mem_nil
  relay := hrelay
  sends := rfl

theorem keeps_self (hs : Inv s) : Keeps relayPort s (s, none) := Keeps.silent hs rfl rfl

theorem kernel_keeps (hs : Inv s) {k : Shared} (hk : Kernel relayPort s k) :
    Keeps relayPort s (kernel s k) := by
  obtain ⟨descs, hdescs⟩ := hk.posts
  have hnew : k.rxed.drop s.rxed.length = descs := by rw [← hdescs, List.drop_left]
  have hinside : ∀ d ∈ k.rxed, d.Inside := by
    intro d hd
    rw [← hdescs, List.mem_append] at hd
    exact hd.elim (hs.inside d) fun hd => hk.inside d (hnew.symm ▸ hd)
  have hring : k.rxed.drop s.released = s.rxed.drop s.released ++ descs := by
    rw [← hdescs, List.drop_append_of_le_length hs.released]
  -- what is taken now is with the kernel before anything is written
  have htook : Inv {s with taken := k.taken} :=
    ⟨hs.balance, (hk.posts.sublist.map Desc.frame).subperm.trans hk.uses, hs.inside, hs.released,
      hs.ring, hs.loop⟩
  have hkept : ∀ d ∈ s.owned, frameAt k.umemArea d = frameAt s.umemArea d := by
    intro d hd
    refine frameAt_congr (hs.inside d (mem_of_owned hd)) fun a ha => hk.memory a ?_
    rw [ha]
    exact htook.apart hd
  have hpending : (s.rxed.drop (s.released + s.loop.taken)).map (frameAt k.umemArea) = s.pending :=
    List.map_congr_left fun d hd => hkept d (mem_owned_of_pending hd)
  refine ⟨⟨?_, hk.uses, hinside, ?_, hk.room, ?_⟩, ?_, ?_, rfl, rfl⟩
  · show ((s.filled ++ s.lost).map frameOf).Perm
      (List.range kNumFrames ++ (k.rxed.take (s.released + s.loop.refilled)).map Desc.frame)
    rw [← hdescs, List.take_append_of_le_length hs.refilled_le]
    exact hs.balance
  · exact Nat.le_trans hs.released hk.posts.length_le
  · show s.loop.Agrees (k.rxed.drop s.released)
    rw [hring]
    exact hs.loop.append descs
  · show s.pending ++ (k.rxed.drop s.rxed.length).map (frameAt k.umemArea) =
      (k.rxed.drop (s.released + s.loop.taken)).map (frameAt k.umemArea)
    rw [hnew, ← hdescs, List.drop_append_of_le_length hs.taken_le, List.map_append, hpending]
  · intro f hf
    obtain ⟨d, hd, rfl⟩ := List.mem_map.mp hf
    exact hk.redirected d hd

theorem recvfrom_keeps (hs : Inv s) (a : Arrival) : Keeps relayPort s (recvfrom s a) := by
  unfold recvfrom
  split
  · refine ⟨⟨hs.balance, hs.uses, hs.inside, hs.released, hs.ring, hs.loop⟩, ?_,
      fun f hf => absurd hf List.not_mem_nil, rfl, rfl⟩
    exact List.append_nil _
  · exact keeps_self hs

/-- A step of the loop that moves along the RX ring. -/
theorem Inv.move (hs : Inv s) {loop : Loop} (hrefilled : loop.refilled = s.loop.refilled)
    (hloop : loop.Agrees (s.rxed.drop s.released)) : Inv {s with loop := loop} := by
  refine ⟨?_, hs.uses, hs.inside, hs.released, hs.ring, hloop⟩
  show List.Perm _ (_ ++ (s.rxed.take (s.released + loop.refilled)).map Desc.frame)
  rw [hrefilled]
  exact hs.balance

theorem rxBatch_keeps (hs : Inv s) {n : Nat} (hn : n ≤ min 64 (s.rxed.length - s.released)) :
    Keeps relayPort s (rxBatch s n, none) := by
  unfold rxBatch
  split
  · next hloop =>
    split
    · refine Keeps.silent (hs.move (by rw [hloop]; rfl) ⟨Nat.zero_le _, ?_⟩) ?_ rfl
      · rw [List.length_drop]
        omega
      · rw [State.pending, State.pending, hloop]
        rfl
    · exact keeps_self hs
  · exact keeps_self hs

theorem rxFrame_keeps (hs : Inv s) : Keeps relayPort s (rxFrame s, none) := by
  unfold rxFrame
  split
  · next n i hloop =>
    have hagrees := hs.loop
    rw [hloop] at hagrees
    split
    · next hi =>
      split
      · next d hd =>
        refine Keeps.silent (hs.move (by rw [hloop]; rfl) ⟨hi, hagrees.2, ?_⟩) ?_ rfl
        · rw [List.getElem?_drop, hd]
        · rw [State.pending, State.pending, hloop]
          rfl
      · exact keeps_self hs
    · exact keeps_self hs
  · exact keeps_self hs

/-- The packet that is being read is the next one. -/
theorem Inv.pending_reading (hs : Inv s) {n i : Nat} {d : Desc} (hloop : s.loop = .reading n i d) :
    s.pending = frameAt s.umemArea d ::
      (s.rxed.drop (s.released + (i + 1))).map (frameAt s.umemArea) := by
  have hagrees := hs.loop
  rw [hloop] at hagrees
  obtain ⟨-, -, hd⟩ := hagrees
  rw [List.getElem?_drop] at hd
  obtain ⟨hlt, hget⟩ := List.getElem?_eq_some_iff.mp hd
  rw [State.pending, hloop, Loop.taken, List.drop_eq_getElem_cons hlt, hget, List.map_cons]
  rfl

theorem handle_keeps (hs : Inv s) (now : Time) : Keeps relayPort s (handle s now) := by
  unfold handle
  split
  · next n i d hloop =>
    have hagrees := hs.loop
    rw [hloop] at hagrees
    obtain ⟨hi, hn, hd⟩ := hagrees
    have hmoved : Inv {s with loop := .handled n i d.addr} :=
      hs.move (by rw [hloop]; rfl) ⟨hi, hn, by rw [hd, Option.map_some]⟩
    refine ⟨⟨hmoved.balance, hmoved.uses, hmoved.inside, hmoved.released, hmoved.ring, hmoved.loop⟩,
      ?_, fun f hf => absurd hf List.not_mem_nil, rfl, rfl⟩
    rw [hs.pending_reading hloop]
    exact List.append_nil _
  · exact keeps_self hs

/-- The frame goes from the RX ring to the fill ring, or is lost. -/
theorem refill_keeps (hs : Inv s) (reserved : Bool) : Keeps relayPort s (refill s reserved, none) := by
  unfold refill
  split
  · next n i addr hloop =>
    have hagrees := hs.loop
    have hbalance := hs.balance
    rw [hloop] at hagrees hbalance
    obtain ⟨hi, hn, haddr⟩ := hagrees
    obtain ⟨d, hd, rfl⟩ := Option.map_eq_some_iff.mp haddr
    rw [List.getElem?_drop] at hd
    have htake : s.rxed.take (s.released + (i + 1)) = s.rxed.take (s.released + i) ++ [d] := by
      rw [← Nat.add_assoc, List.take_add_one, hd, Option.toList_some]
    have hback : (List.range kNumFrames ++ (s.rxed.take (s.released + (i + 1))).map Desc.frame).Perm
        ((s.filled ++ s.lost).map frameOf ++ [d.frame]) := by
      rw [htake, List.map_append, ← List.append_assoc]
      exact hbalance.symm.append_right _
    have hpending : (s.rxed.drop (s.released + (Loop.batch n (i + 1)).taken)).map
        (frameAt s.umemArea) = s.pending := by
      rw [State.pending, hloop]
      rfl
    split
    · refine Keeps.silent ⟨?_, ?_, hs.inside, hs.released, hs.ring, hi, hn⟩ hpending rfl
      · refine (List.perm_iff_count.mpr fun m => ?_ : List.Perm _ _).trans hback.symm
        simp only [List.map_append, List.count_append, List.map_cons, List.map_nil, Desc.frame]
        omega
      · refine hs.uses.trans (List.Sublist.subperm (List.Sublist.map frameOf ?_))
        show (s.filled.take s.taken).Sublist ((s.filled ++ [d.addr]).take s.taken)
        rw [List.take_append]
        exact List.sublist_append_left _ _
    · refine Keeps.silent ⟨?_, hs.uses, hs.inside, hs.released, hs.ring, hi, hn⟩ hpending rfl
      refine (List.perm_iff_count.mpr fun m => ?_ : List.Perm _ _).trans hback.symm
      simp only [List.map_append, List.count_append, List.map_cons, List.map_nil, Desc.frame]
      omega
  · exact keeps_self hs

theorem releaseRx_keeps (hs : Inv s) : Keeps relayPort s (releaseRx s, none) := by
  unfold releaseRx
  split
  · next n i hloop =>
    have hagrees := hs.loop
    have hbalance := hs.balance
    rw [hloop] at hagrees hbalance
    split
    · exact keeps_self hs
    · next hi =>
      obtain rfl : i = n := Nat.le_antisymm hagrees.1 (Nat.not_lt.mp hi)
      have hlen := hagrees.2
      have hring := hs.ring
      have hreleased := hs.released
      rw [List.length_drop] at hlen
      refine Keeps.silent ⟨hbalance, hs.uses, hs.inside, ?_, ?_, trivial⟩ ?_ rfl
      · show s.released + i ≤ s.rxed.length
        omega
      · show s.rxed.length ≤ s.released + i + kRingSize
        omega
      · rw [State.pending, State.pending, hloop]
        rfl
  · exact keeps_self hs

theorem step_keeps (hs : Inv s) (a : Act) (ha : Allowed relayPort s a) :
    Keeps relayPort s (step s a) := by
  cases a with
  | kernel k => exact kernel_keeps hs ha
  | recvfrom a => exact recvfrom_keeps hs a
  | rxBatch n => exact rxBatch_keeps hs ha
  | rxFrame => exact rxFrame_keeps hs
  | handle now => exact handle_keeps hs now
  | refill reserved => exact refill_keeps hs reserved
  | releaseRx => exact releaseRx_keeps hs

theorem next_lost (s : State) {a : Act} (h : ∀ reserved, a ≠ .refill reserved) :
    (next s a).lost = s.lost := by
  cases a with
  | kernel k => rfl
  | recvfrom a =>
    show (recvfrom s a).1.lost = _
    unfold recvfrom
    split <;> rfl
  | rxBatch n =>
    show (rxBatch s n).lost = _
    unfold rxBatch
    split
    · split <;> rfl
    · rfl
  | rxFrame =>
    show (rxFrame s).lost = _
    unfold rxFrame
    split
    · split
      · split <;> rfl
      · rfl
    · rfl
  | handle now =>
    show (handle s now).1.lost = _
    unfold handle
    split <;> rfl
  | refill reserved => exact absurd rfl (h reserved)
  | releaseRx =>
    show (releaseRx s).lost = _
    unfold releaseRx
    split
    · split <;> rfl
    · rfl

/-- A frame is lost exactly in a `refill` that is ahead of what the kernel has published. -/
theorem refill_lost_iff (hs : Inv s) {reserved : Bool}
    (hreserved : reserved ↔ s.filled.length - s.published < kNumFrames) :
    (refill s reserved).lost = [] ↔ s.lost = [] ∧ Published s (.refill reserved) := by
  have hcount := hs.count
  have hnone : s.lost = [] ↔ s.lost.length = 0 := List.length_eq_zero_iff.symm
  unfold refill
  cases hloop : s.loop with
  | handled n i addr =>
    rw [hloop] at hcount
    simp only [Loop.refilled, kNumFrames] at hcount hreserved
    simp only [Published, hloop, hnone]
    cases reserved with
    | true =>
      have hroom := hreserved.mp rfl
      simp only [if_true, hnone]
      omega
    | false =>
      have hfull : ¬ s.filled.length - s.published < 4096 := fun h =>
        Bool.false_ne_true (hreserved.mpr h)
      refine iff_of_false (List.append_ne_nil_of_right_ne_nil _ (List.cons_ne_nil _ _)) ?_
      omega
  | poll => simp only [Published, hloop, and_true]
  | batch n i => simp only [Published, hloop, and_true]
  | reading n i d => simp only [Published, hloop, and_true]

theorem lost_step_iff (hs : Inv s) (a : Act) (ha : Allowed relayPort s a) :
    (next s a).lost = [] ↔ s.lost = [] ∧ Published s a := by
  cases a with
  | refill reserved => exact refill_lost_iff hs ha
  | _ =>
    rw [next_lost s fun reserved => Act.noConfusion]
    exact (and_iff_left trivial).symm

/-! ### Runs -/

theorem notes_cons (s : State) (a : Act) (rest : List Act) :
    notes s (a :: rest) = (step s a).2.toList ++ notes (next s a) rest := by
  rw [notes, Transition.outputs]
  cases (step s a).2 with
  | none => rw [List.reduceOption_cons_of_none, Option.toList_none, List.nil_append, notes, next]
  | some note =>
    rw [List.reduceOption_cons_of_some, Option.toList_some, notes, next]
    rfl

theorem filterMap_toList {A B : Type} (f : A → Option B) (o : Option A) :
    o.toList.filterMap f = (o.bind f).toList := by
  cases o with
  | none => rfl
  | some a => cases h : f a <;> simp [h]

theorem flatMap_toList {A B : Type} (f : A → List B) (o : Option A) :
    o.toList.flatMap f = o.elim [] f := by
  cases o with
  | none => rfl
  | some a => exact List.append_nil (f a)

theorem serveAll_cons (relay : Standalone) (e : Event) (rest : List Event) :
    serveAll relay (e :: rest) =
      ((serveAll (serve relay e).1 rest).1,
        (serve relay e).2 ++ (serveAll (serve relay e).1 rest).2) := rfl

/-- A run from wherever the rings are in order. -/
theorem run_keeps (hs : Inv s) {acts : List Act}
    (hacts : Throughout next (Allowed relayPort) s acts) :
    Inv (run s acts) ∧
      s.pending ++ (notes s acts).flatMap Note.frames =
        ((notes s acts).filterMap Note.event?).filterMap Event.frame? ++ (run s acts).pending ∧
      (∀ f ∈ (notes s acts).flatMap Note.frames, relayXdpProg relayPort f = .redirect) ∧
      serveAll s.relay ((notes s acts).filterMap Note.event?) =
        ((run s acts).relay, (notes s acts).flatMap Note.sends) := by
  induction acts generalizing s with
  | nil => exact ⟨hs, List.append_nil _, fun f hf => absurd hf List.not_mem_nil, rfl⟩
  | cons a rest ih =>
    obtain ⟨hinv, hflow, hredirected, hrelay, hsends⟩ := step_keeps hs a hacts.1
    have hnext : (step s a).1 = next s a := rfl
    rw [hnext] at hinv hflow hrelay
    obtain ⟨hend, hflows, hredirects, hserves⟩ := ih hinv hacts.2
    rw [notes_cons]
    refine ⟨hend, ?_, fun f hf => ?_, ?_⟩
    · rw [List.flatMap_append, List.filterMap_append, List.filterMap_append, flatMap_toList,
        filterMap_toList, filterMap_toList, ← List.append_assoc, hflow, List.append_assoc, hflows,
        List.append_assoc]
      rfl
    · rw [List.flatMap_append, flatMap_toList, List.mem_append] at hf
      exact hf.elim (hredirected f) (hredirects f)
    · rw [List.filterMap_append, filterMap_toList, List.flatMap_append, flatMap_toList]
      show _ = ((run (next s a) rest).relay, _)
      cases hevent : (step s a).2.bind Note.event? with
      | none =>
        rw [hevent] at hrelay hsends
        rw [hrelay] at hserves
        rw [hsends]
        exact hserves
      | some e =>
        rw [hevent] at hrelay hsends
        have hserved := serveAll_cons s.relay e ((notes (next s a) rest).filterMap Note.event?)
        rw [hrelay] at hserves
        simp only [Option.elim_some] at hserves hsends
        rw [hserves, ← hsends] at hserved
        exact hserved

/-- **The fast path hands on what the kernel posts**, once, in order and unharmed, however the steps
of the kernel and of the loop follow each other, and it loses no frame exactly if no `refill` is
ahead of what the kernel has published. -/
theorem fast_path_lossless (relayPort : UInt16) (relay : Standalone) (acts : List Act)
    (hacts : Throughout next (Allowed relayPort) (init relay) acts) :
    Lossless relayPort relay (notes (init relay) acts) (run (init relay) acts) ∧
      ((run (init relay) acts).lost = [] ↔ Throughout next Published (init relay) acts) := by
  obtain ⟨hinv, hflow, hredirected, hserves⟩ := run_keeps (init_inv relay) hacts
  constructor
  · refine ⟨hflow, hredirected, fun n i d hloop => ?_, hserves, hinv.frames, hinv.supply⟩
    have horder : _ = _ ++ _ := hflow
    rw [show (init relay).pending = [] from rfl, List.nil_append, hinv.pending_reading hloop] at horder
    rw [horder, List.getElem?_append_right (Nat.le_refl _), Nat.sub_self, List.getElem?_cons_zero]
  · have hlost := Throughout.property_iff Inv (fun s => s.lost = [])
      (fun s a hs ha => (step_keeps hs a ha).inv) (fun s a hs ha => lost_step_iff hs a ha)
      (init_inv relay) hacts
    exact hlost.trans (and_iff_right rfl)

/-- Two packets in the frames 0 and 1, of which the kernel has published one. -/
def twoPosted : Shared where
  umemArea := write (write (fun _ => 0) 256 dataFrame.bytes) 4352 dataFrame.bytes
  taken := 2
  published := 1
  rxed := [⟨256, 60, by decide⟩, ⟨4352, 60, by decide⟩]

/-- The loop peeks both and refills the first frame. The second finds no room on the fill ring. -/
def hastyLoop : List Act :=
  [.kernel twoPosted, .rxBatch 2, .rxFrame, .handle 5, .refill true, .rxFrame, .handle 5,
    .refill false, .releaseRx]

theorem twoPosted_kernel : Kernel 8446 (init {lastSweep := 0}) twoPosted := by
  have hheld : held (init {lastSweep := 0}).filled twoPosted.taken [] = [0, 1] := by decide +kernel
  refine ⟨List.nil_prefix, by decide, List.isSubperm_iff.mp (by decide +kernel), fun a ha => ?_,
    ?_, ?_⟩
  · have hapart : frameOf a ∉ [0, 1] := hheld ▸ ha
    simp only [List.mem_cons, List.not_mem_nil, or_false, not_or, frameOf, kFrameSize] at hapart
    have hlen : dataFrame.bytes.length = 60 := by decide
    show write _ 4352 dataFrame.bytes a = 0
    rw [write, if_neg (by omega), write, if_neg (by omega)]
  · show ∀ d ∈ twoPosted.rxed, d.addr % kFrameSize + d.len ≤ kFrameSize
    decide
  · show ∀ d ∈ twoPosted.rxed, relayXdpProg 8446 (frameAt twoPosted.umemArea d) = .redirect
    decide +kernel

/-- The two packets are handled, and frame 1 is lost. -/
theorem fast_path_lossless_hasty :
    Lossless 8446 {lastSweep := 0} (notes (init {lastSweep := 0}) hastyLoop)
        (run (init {lastSweep := 0}) hastyLoop) ∧
      ((run (init {lastSweep := 0}) hastyLoop).lost = [] ↔
        Throughout next Published (init {lastSweep := 0}) hastyLoop) := by
  refine fast_path_lossless 8446 {lastSweep := 0} hastyLoop ⟨twoPosted_kernel, ?_⟩
  refine ⟨(by decide : 2 ≤ min 64 2), trivial, trivial, ?_, trivial, trivial, ?_, trivial, trivial⟩
  · exact iff_of_true rfl (by decide +kernel)
  · exact iff_of_false Bool.false_ne_true (by decide +kernel)

end Relink.Relay.RelayXdp
