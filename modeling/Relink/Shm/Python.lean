import Mathlib.Logic.Function.Basic
import Relink.Library.Run
import Relink.Shm.Calls
import Relink.Shm.Takeover

/-! Two Python processes at a stale segment.

`ShmRing.open` of the Python build reads `creator_pid`, finds it dead and stores `magic = 0`, where
the C++ build compares and exchanges. So two processes that open a stale segment may both take it
over, each with the stores of `_init_as_creator`, and one of them may push or pop before the other
is done. Stores of the process that pushes come before its pushes, and a store of `head` changes
nothing; only the store of `tail` by the process that pops can take accepted messages out of the
ring. -/
namespace Relink.Shm.Python
open Transition
open Wire (Bytes)

/-! ### The machine -/

/-- What `open` does next, once the segment is there. -/
inductive OpenPc where
  | loadMagic
  /-- No magic was found; the deadline is looked at, or it sleeps and loads again. -/
  | poll
  | loadVersion
  | loadSlotSize
  | loadCapacity
  | loadCreatorPid
  | pidAlive (owner : Nat)
  /-- `magic = 0`. -/
  | steal
  | init (st : Store)
  | returned (ok : Bool)
deriving DecidableEq

/-- After a store of `_init_as_creator` comes the next one; `magic` is the last. -/
def next : Store → OpenPc
  | .version => .init .slotSize
  | .slotSize => .init .capacity
  | .capacity => .init .head
  | .head => .init .tail
  | .tail => .init .creatorPid
  | .creatorPid => .init .magic
  | .magic => .returned true

/-- What a creator that is dead has left, and who finds it: one process pushes, the other pops. -/
structure Stale (p : Params) where
  seg : Segment
  owner : Nat
  pid : Side → Nat
  dead : ∀ q, pid q ≠ owner
  size : seg.slots.length = p.capacity * p.slotSize

structure Takers where
  hdr : Header
  ring : State
  opener : Side → OpenPc := fun _ => .loadMagic

inductive Event where
  /-- The next access of a process's `open`. -/
  | opener (q : Side)
  /-- The deadline of its polling loop has passed. -/
  | timeout (q : Side)
  | tryPush (m : Msg)
  | pushAccess
  | tryPop
  | popAccess
deriving DecidableEq

namespace Takers

def ofStale {p : Params} (stale : Stale p) : Takers where
  hdr := ⟨kShmRingMagic, kShmRingVersion, p.slotSize, p.capacity, stale.owner⟩
  ring := {seg := stale.seg}

variable (p : Params) (pid : Side → Nat) (s : Takers)

def goto (q : Side) (pc : OpenPc) : Takers := {s with opener := Function.update s.opener q pc}

/-- A store of `_init_as_creator`. -/
def store (q : Side) (st : Store) : Takers :=
  { s with
    hdr := s.hdr.store p (pid q) st
    ring :=
      match st with
      | .head => {s.ring with seg := {s.ring.seg with head := 0}}
      | .tail => {s.ring with seg := {s.ring.seg with tail := 0}}
      | _ => s.ring }

/-- The next access of a process, by its program counter. -/
def access (q : Side) : OpenPc → Takers
  | .loadMagic => s.goto q (if s.hdr.magic = kShmRingMagic then .loadVersion else .poll)
  | .poll => s.goto q .loadMagic
  | .loadVersion =>
    s.goto q (if s.hdr.version = kShmRingVersion then .loadSlotSize else .returned false)
  | .loadSlotSize =>
    s.goto q (if s.hdr.slotSize = p.slotSize then .loadCapacity else .returned false)
  | .loadCapacity =>
    s.goto q (if s.hdr.capacity = p.capacity then .loadCreatorPid else .returned false)
  | .loadCreatorPid => s.goto q (.pidAlive s.hdr.creatorPid)
  | .pidAlive owner =>
    -- of the pids that may stand there, only those of the two processes are alive
    s.goto q (if owner ≠ pid .producer ∧ owner ≠ pid .consumer then .steal else .returned true)
  | .steal => {s with hdr := {s.hdr with magic := 0}}.goto q (.init .version)
  | .init st => (s.store p pid q st).goto q (next st)
  | .returned _ => s

/-- A process calls after its `open` has returned true. -/
def call (q : Side) (act : Act) : Takers :=
  if s.opener q = .returned true then {s with ring := Shm.step p s.ring act} else s

/-- The deadline is looked at where no magic was found. -/
def timeout (q : Side) : Takers := if s.opener q = .poll then s.goto q (.returned false) else s

def step : Event → Takers
  | .opener q => s.access p pid q (s.opener q)
  | .timeout q => s.timeout q
  | .tryPush m => s.call p .producer (.push m)
  | .pushAccess => s.call p .producer .producer
  | .tryPop => s.call p .consumer (.pop .copy)
  | .popAccess => s.call p .consumer .consumer

end Takers

/-! ### Lossless pops, and takeovers in time -/

/-- The messages between the indices. -/
def contents (p : Params) (seg : Segment) : List Msg :=
  (List.range ((seg.tail + p.capacity - seg.head) % p.capacity)).map fun k =>
    seg.msgAt p ((seg.head + k) % p.capacity)

/-- Every push that returned true was popped once, in order and with its own bytes, or is still in
the ring. -/
structure Takers.Lossless (p : Params) (s : Takers) : Prop where
  popped : s.ring.delivered <+: s.ring.accepted
  released : s.ring.released ≤ s.ring.delivered.length
  kept : s.ring.accepted.drop s.ring.released <:+ contents p s.ring.seg

/-- The process that pops takes the segment over, if it does, before a push has returned true. -/
def Takers.Timely (s : Takers) : Event → Prop
  | .opener .consumer => s.opener .consumer = .init .tail → s.ring.accepted = []
  | _ => True

/-! ### The ring -/

section
variable {p : Params} {s : State}

theorem count_eq {a r : Nat} (hle : r ≤ a) (hlt : a < r + p.capacity) :
    (a % p.capacity + p.capacity - r % p.capacity) % p.capacity = a - r := by
  obtain ⟨d, rfl⟩ := Nat.exists_eq_add_of_le hle
  have hr := Nat.mod_lt r p.capacity_pos
  have hd : d < p.capacity := by omega
  rw [Nat.add_sub_cancel_left, ← Nat.mod_add_mod]
  rcases Nat.lt_or_ge (r % p.capacity + d) p.capacity with hsmall | hlarge
  · rw [Nat.mod_eq_of_lt hsmall,
      show r % p.capacity + d + p.capacity - r % p.capacity = d + p.capacity by omega,
      Nat.add_mod_right, Nat.mod_eq_of_lt hd]
  · have hback : r % p.capacity + d - p.capacity < p.capacity := by omega
    rw [Nat.mod_eq_sub_mod hlarge, Nat.mod_eq_of_lt hback,
      show r % p.capacity + d - p.capacity + p.capacity - r % p.capacity = d by omega,
      Nat.mod_eq_of_lt hd]

/-- What was accepted and not yet released is between the indices. -/
theorem contents_eq (h : Shm.Inv p True True s) :
    contents p s.seg = s.accepted.drop s.released := by
  have hkept := h.intact.kept trivial
  have hcount := count_eq (p := p) h.intact.le hkept.lt
  rw [contents, h.intact.tail, h.intact.head trivial, hcount]
  refine List.ext_getElem? fun k => ?_
  rw [List.getElem?_map, List.getElem?_drop]
  rcases Nat.lt_or_ge k (s.accepted.length - s.released) with hk | hk
  · have hin : s.released + k < s.accepted.length := by omega
    have hm := List.getElem?_eq_getElem hin
    have hheld := hkept.held (s.released + k) _ (Nat.le_add_right _ _) hm
    rw [List.getElem?_range hk, hm, Option.map_some, Nat.mod_add_mod,
      hheld.msgAt (h.intact.fits _ (List.getElem_mem hin))]
  · rw [List.getElem?_eq_none (by rw [List.length_range]; exact hk),
      List.getElem?_eq_none (by omega)]
    rfl

theorem eq_fresh (hpush : s.push = .idle) (hpop : s.pop = .idle) (haccepted : s.accepted = [])
    (hdelivered : s.delivered = []) (hreleased : s.released = 0) (hhead : s.seg.head = 0) :
    {s with seg := {s.seg with tail := 0}} = fresh s.seg.slots := by
  obtain ⟨⟨head, tail, slots⟩, push, pop, accepted, delivered, released⟩ := s
  cases hpush
  cases hpop
  cases haccepted
  cases hdelivered
  cases hreleased
  cases hhead
  rfl

/-- A push leaves alone what pops have, and a pop what pushes have. -/
theorem producer_frame (act : Act) (h : act.side = .producer) :
    (Shm.step p s act).pop = s.pop ∧ (Shm.step p s act).delivered = s.delivered ∧
      (Shm.step p s act).released = s.released := by
  cases act with
  | push m =>
    unfold Shm.step startPush
    cases s.push with
    | idle =>
      simp only
      split <;> exact ⟨rfl, rfl, rfl⟩
    | _ => exact ⟨rfl, rfl, rfl⟩
  | producer =>
    unfold Shm.step producerStep
    cases s.push with
    | loadHead m tail =>
      simp only
      split <;> exact ⟨rfl, rfl, rfl⟩
    | _ => exact ⟨rfl, rfl, rfl⟩
  | pop kind => cases h
  | consumer => cases h

theorem consumer_frame (act : Act) (h : act.side = .consumer) :
    (Shm.step p s act).push = s.push ∧ (Shm.step p s act).accepted = s.accepted := by
  cases act with
  | push m => cases h
  | producer => cases h
  | pop kind =>
    unfold Shm.step startPop
    cases s.pop with
    | idle => exact ⟨rfl, rfl⟩
    | _ => exact ⟨rfl, rfl⟩
  | consumer =>
    unfold Shm.step consumerStep
    cases s.pop with
    | loadTail kind head =>
      simp only
      split <;> exact ⟨rfl, rfl⟩
    | _ => exact ⟨rfl, rfl⟩

end

/-! ### What holds of the two processes -/

/-- The stores of both indices are behind it, or were behind the process it attached to. -/
def OpenPc.ready : OpenPc → Prop
  | .init .creatorPid => True
  | .init .magic => True
  | .returned true => True
  | _ => False

namespace Takers

def Ready (s : Takers) : Prop := ∃ q, (s.opener q).ready

/-- The ring is in order from the first store of `tail` on. A process does nothing there before its
`open` has returned, and no `creator_pid` of a live process is seen before. -/
structure Inv (p : Params) (pid : Side → Nat) (s : Takers) : Prop where
  fifo : s.Ready → FifoInv p s.ring
  size : ¬ s.Ready → s.ring.seg.slots.length = p.capacity * p.slotSize
  head : ¬ s.Ready → ∀ q, s.opener q = .init .tail → s.ring.seg.head = 0
  creator : ∀ q, s.hdr.creatorPid = pid q → s.Ready
  owner : ∀ q q', s.opener q = .pidAlive (pid q') → s.Ready
  producer : s.opener .producer ≠ .returned true → s.ring.push = .idle ∧ s.ring.accepted = []
  consumer : s.opener .consumer ≠ .returned true →
    s.ring.pop = .idle ∧ s.ring.delivered = [] ∧ s.ring.released = 0

section
variable {p : Params} {pid : Side → Nat} {s : Takers} {q : Side} {pc : OpenPc}

theorem goto_self : (s.goto q pc).opener q = pc := by simp [goto]

theorem goto_of_ne {q' : Side} (h : q' ≠ q) : (s.goto q pc).opener q' = s.opener q' := by
  simp [goto, h]

/-- Before both indices are stored nobody has called. -/
theorem Inv.unready (h : s.Inv p pid) (hready : ¬ s.Ready) :
    s.ring.push = .idle ∧ s.ring.accepted = [] ∧ s.ring.pop = .idle ∧ s.ring.delivered = [] ∧
      s.ring.released = 0 := by
  have hnot : ∀ q, s.opener q ≠ .returned true := fun q hq => hready ⟨q, by rw [hq]; trivial⟩
  exact ⟨(h.producer (hnot _)).1, (h.producer (hnot _)).2, h.consumer (hnot _)⟩

theorem Inv.lossless (h : s.Inv p pid) : s.Lossless p := by
  by_cases hready : s.Ready
  · have hinv := (h.fifo hready).inv
    exact ⟨hinv.delivered.1, hinv.delivered.2.1, [], (contents_eq hinv).symm⟩
  · obtain ⟨_, haccepted, _, hdelivered, hreleased⟩ := h.unready hready
    refine ⟨?_, ?_, ?_⟩
    · rw [hdelivered]
      exact List.nil_prefix
    · rw [hreleased]
      exact Nat.zero_le _
    · rw [haccepted, List.drop_nil]
      exact List.nil_suffix

/-- While one process has not returned, `head` is 0, and so is `tail` if nothing was accepted. -/
theorem Inv.zero (h : s.Inv p pid) (hready : s.Ready) (hq : s.opener q ≠ .returned true) :
    s.ring.seg.head = 0 ∧ (s.ring.accepted = [] → s.ring.seg.tail = 0) := by
  have hintact := (h.fifo hready).inv.intact
  have hreleased : s.ring.released = 0 := by
    cases q with
    | producer =>
      have hle := hintact.le
      rw [(h.producer hq).2] at hle
      exact Nat.le_zero.mp hle
    | consumer => exact (h.consumer hq).2.2
  refine ⟨?_, fun haccepted => ?_⟩
  · rw [hintact.head trivial, hreleased, Nat.zero_mod]
  · rw [hintact.tail, haccepted, List.length_nil, Nat.zero_mod]

/-! ### Steps -/

/-- A process goes on, and the ring stays. -/
theorem Inv.goto (h : s.Inv p pid) (hdr : Header) (hq : s.opener q ≠ .returned true)
    (hkeeps : (s.opener q).ready → pc.ready) (hready : pc.ready → s.Ready)
    (hhead : pc = .init .tail → s.ring.seg.head = 0)
    (hcreator : ∀ q', hdr.creatorPid = pid q' → s.Ready)
    (howner : ∀ q', pc = .pidAlive (pid q') → s.Ready) :
    Inv p pid ({s with hdr := hdr}.goto q pc) := by
  have hself : ({s with hdr := hdr}.goto q pc).opener q = pc := goto_self
  have hothers : ∀ q', q' ≠ q → ({s with hdr := hdr}.goto q pc).opener q' = s.opener q' :=
    fun q' hne => goto_of_ne hne
  have hiff : ({s with hdr := hdr}.goto q pc).Ready ↔ s.Ready := by
    constructor
    · rintro ⟨q', hq'⟩
      by_cases hsame : q' = q
      · subst hsame
        rw [hself] at hq'
        exact hready hq'
      · rw [hothers q' hsame] at hq'
        exact ⟨q', hq'⟩
    · rintro ⟨q', hq'⟩
      refine ⟨q', ?_⟩
      by_cases hsame : q' = q
      · subst hsame
        rw [hself]
        exact hkeeps hq'
      · rw [hothers q' hsame]
        exact hq'
  have hreturned : ∀ q', ({s with hdr := hdr}.goto q pc).opener q' ≠ .returned true →
      s.opener q' ≠ .returned true := by
    intro q' hq'
    by_cases hsame : q' = q
    · rw [hsame]
      exact hq
    · rwa [hothers q' hsame] at hq'
  refine ⟨fun hr => h.fifo (hiff.mp hr), fun hr => h.size (hr ∘ hiff.mpr), fun hr q' hq' => ?_,
    fun q' hq' => hiff.mpr (hcreator q' hq'), fun q' q'' hq' => hiff.mpr ?_,
    fun hp => h.producer (hreturned _ hp), fun hc => h.consumer (hreturned _ hc)⟩
  · by_cases hsame : q' = q
    · subst hsame
      rw [hself] at hq'
      exact hhead hq'
    · rw [hothers q' hsame] at hq'
      exact h.head (hr ∘ hiff.mpr) q' hq'
  · by_cases hsame : q' = q
    · subst hsame
      rw [hself] at hq'
      exact howner q'' hq'
    · rw [hothers q' hsame] at hq'
      exact h.owner q' q'' hq'

/-- A load of `open`, and its `magic = 0`. -/
theorem Inv.loads (h : s.Inv p pid) (hdr : Header) (hhdr : hdr.creatorPid = s.hdr.creatorPid)
    {before : OpenPc} (hq : s.opener q = before) (hbefore : ¬ before.ready) (hpc : ¬ pc.ready)
    (hhead : pc ≠ .init .tail) (howner : ∀ q', pc = .pidAlive (pid q') → s.Ready) :
    Inv p pid ({s with hdr := hdr}.goto q pc) := by
  rw [← hq] at hbefore
  exact h.goto hdr (fun heq => hbefore (by rw [heq]; trivial)) (fun hr => absurd hr hbefore)
    (fun hr => absurd hr hpc) (fun heq => absurd heq hhead)
    (fun q' hq' => h.creator q' (hhdr ▸ hq')) howner

theorem Inv.storeHead (h : s.Inv p pid) (hq : s.opener q ≠ .returned true) :
    Inv p pid {s with ring := {s.ring with seg := {s.ring.seg with head := 0}}} := by
  by_cases hready : s.Ready
  · have hsame : {s.ring with seg := {s.ring.seg with head := 0}} = s.ring := by
      rw [← (h.zero hready hq).1]
    rw [hsame]
    exact h
  · exact ⟨fun hr => absurd hr hready, h.size, fun _ _ _ => rfl, h.creator, h.owner, h.producer,
      h.consumer⟩

/-- The first store of `tail` makes the ring a new one. -/
theorem Inv.firstTail (h : s.Inv p pid) (hready : ¬ s.Ready) (hq : s.opener q = .init .tail) :
    Inv p pid (({s with ring := {s.ring with seg := {s.ring.seg with tail := 0}}} : Takers).goto q
      (.init .creatorPid)) := by
  obtain ⟨hpush, haccepted, hpop, hdelivered, hreleased⟩ := h.unready hready
  rw [eq_fresh hpush hpop haccepted hdelivered hreleased (h.head hready q hq)]
  have hnew : Ready ({s with ring := fresh s.ring.seg.slots}.goto q (.init .creatorPid)) :=
    ⟨q, by rw [goto_self]; trivial⟩
  exact ⟨fun _ => ⟨inv_fresh (h.size hready), fun _ htail => (nomatch htail),
      fun _ _ hhead => (nomatch hhead)⟩,
    fun hr => absurd hnew hr, fun hr => absurd hnew hr, fun _ _ => hnew, fun _ _ _ => hnew,
    fun _ => ⟨rfl, rfl⟩, fun _ => ⟨rfl, rfl, rfl⟩⟩

/-- A later one changes nothing, if the process that pushes has got nothing accepted. -/
theorem Inv.storeTail (h : s.Inv p pid) (hq : s.opener q = .init .tail)
    (htimely : q = .consumer → s.ring.accepted = []) :
    Inv p pid (({s with ring := {s.ring with seg := {s.ring.seg with tail := 0}}} : Takers).goto q
      (.init .creatorPid)) := by
  by_cases hready : s.Ready
  · have hnot : s.opener q ≠ .returned true := fun heq => by
      rw [hq] at heq
      cases heq
    have haccepted : s.ring.accepted = [] := by
      cases q with
      | producer => exact (h.producer hnot).2
      | consumer => exact htimely rfl
    have hsame : {s.ring with seg := {s.ring.seg with tail := 0}} = s.ring := by
      rw [← (h.zero hready hnot).2 haccepted]
    rw [hsame]
    exact h.goto s.hdr hnot (fun _ => trivial) (fun _ => hready) nofun h.creator nofun
  · exact h.firstTail hready hq

theorem Inv.init (h : s.Inv p pid) {st : Store} (hq : s.opener q = .init st)
    (htimely : q = .consumer → st = .tail → s.ring.accepted = []) :
    Inv p pid ((s.store p pid q st).goto q (next st)) := by
  have hnot : s.opener q ≠ .returned true := fun heq => by
    rw [hq] at heq
    cases heq
  cases st with
  | version | slotSize | capacity => exact h.loads _ rfl hq id id nofun nofun
  | head =>
    refine (h.storeHead hnot).goto s.hdr hnot (fun hr => ?_) (fun hr => hr.elim) (fun _ => rfl)
      h.creator nofun
    rw [hq] at hr
    exact hr.elim
  | tail => exact h.storeTail hq fun hc => htimely hc rfl
  | creatorPid | magic =>
    have hready : s.Ready := ⟨q, by rw [hq]; trivial⟩
    exact h.goto _ hnot (fun _ => trivial) (fun _ => hready) nofun (fun _ _ => hready) nofun

/-- Who attaches has read the pid of a process that has stored both indices. -/
theorem Inv.attach (h : s.Inv p pid) {owner : Nat} (hq : s.opener q = .pidAlive owner)
    (halive : ¬ (owner ≠ pid .producer ∧ owner ≠ pid .consumer)) :
    Inv p pid (s.goto q (.returned true)) := by
  have hready : s.Ready := by
    by_cases hproducer : owner = pid .producer
    · exact h.owner q .producer (hproducer ▸ hq)
    · by_cases hconsumer : owner = pid .consumer
      · exact h.owner q .consumer (hconsumer ▸ hq)
      · exact absurd ⟨hproducer, hconsumer⟩ halive
  exact h.goto s.hdr (fun heq => by rw [hq] at heq; cases heq) (fun _ => trivial) (fun _ => hready)
    nofun h.creator nofun

theorem Inv.branch {c : Prop} [Decidable c] {pc' : OpenPc}
    (hyes : c → Inv p pid (s.goto q pc)) (hno : ¬ c → Inv p pid (s.goto q pc')) :
    Inv p pid (s.goto q (if c then pc else pc')) := by
  by_cases hc : c
  · rw [if_pos hc]
    exact hyes hc
  · rw [if_neg hc]
    exact hno hc

theorem Inv.access (h : s.Inv p pid) (q : Side)
    (htimely : q = .consumer → s.opener q = .init .tail → s.ring.accepted = []) :
    Inv p pid (s.access p pid q (s.opener q)) := by
  cases hpc : s.opener q with
  | init st =>
    exact h.init hpc fun hc hst => htimely hc (by rw [hpc, hst])
  | returned ok => exact h
  | pidAlive owner =>
    exact Inv.branch (fun _ => h.loads s.hdr rfl hpc id id nofun nofun)
      fun halive => h.attach hpc halive
  | loadCreatorPid =>
    exact h.loads s.hdr rfl hpc id id nofun fun q' heq => h.creator q' (OpenPc.pidAlive.inj heq)
  | poll | steal => exact h.loads _ rfl hpc id id nofun nofun
  | loadMagic | loadVersion | loadSlotSize | loadCapacity =>
    exact Inv.branch (fun _ => h.loads s.hdr rfl hpc id id nofun nofun)
      fun _ => h.loads s.hdr rfl hpc id id nofun nofun

theorem Inv.call (h : s.Inv p pid) {act : Act} (hq : act.side = q) :
    Inv p pid (s.call p q act) := by
  unfold Takers.call
  split
  · next hreturned =>
    have hready : s.Ready := ⟨q, by rw [hreturned]; trivial⟩
    refine ⟨fun _ => (h.fifo hready).step act, fun hr => absurd hready hr,
      fun hr => absurd hready hr, h.creator, h.owner, fun hp => ?_, fun hc => ?_⟩
    · -- a call of the other process
      have hside : act.side = .consumer := by
        cases q with
        | producer => exact absurd hreturned hp
        | consumer => exact hq
      obtain ⟨hpush, haccepted⟩ := consumer_frame (p := p) (s := s.ring) act hside
      rw [hpush, haccepted]
      exact h.producer hp
    · have hside : act.side = .producer := by
        cases q with
        | producer => exact hq
        | consumer => exact absurd hreturned hc
      obtain ⟨hpop, hdelivered, hreleased⟩ := producer_frame (p := p) (s := s.ring) act hside
      rw [hpop, hdelivered, hreleased]
      exact h.consumer hc
  · exact h

theorem Inv.timeout (h : s.Inv p pid) (q : Side) : Inv p pid (s.timeout q) := by
  unfold Takers.timeout
  split
  · next hpc => exact h.loads s.hdr rfl hpc id id nofun nofun
  · exact h

theorem Inv.step (h : s.Inv p pid) (e : Event) (htimely : s.Timely e) :
    Inv p pid (s.step p pid e) := by
  cases e with
  | opener q =>
    refine h.access q fun hc hq => ?_
    subst hc
    exact htimely hq
  | timeout q => exact h.timeout q
  | tryPush m => exact h.call rfl
  | pushAccess => exact h.call rfl
  | tryPop => exact h.call rfl
  | popAccess => exact h.call rfl

theorem inv_ofStale (stale : Stale p) : (ofStale stale).Inv p stale.pid := by
  have hunready : ¬ (ofStale stale).Ready := fun ⟨_, hq⟩ => hq
  exact ⟨fun hr => absurd hr hunready, fun _ => stale.size, fun _ _ hq => (nomatch hq),
    fun q hq => absurd hq.symm (stale.dead q), fun _ _ hq => (nomatch hq), fun _ => ⟨rfl, rfl⟩,
    fun _ => ⟨rfl, rfl, rfl⟩⟩

/-- A store of `tail` that comes too late takes what was accepted out of the ring. -/
theorem Inv.late (h : s.Inv p pid) (hq : s.opener .consumer = .init .tail)
    (haccepted : s.ring.accepted ≠ []) : ¬ (s.step p pid (.opener .consumer)).Lossless p := by
  intro hlossless
  have hnot : s.opener .consumer ≠ .returned true := fun heq => by
    rw [hq] at heq
    cases heq
  have hready : s.Ready := by
    by_cases hready : s.Ready
    · exact hready
    · exact absurd (h.unready hready).2.1 haccepted
  have hring : (s.step p pid (.opener .consumer)).ring =
      {s.ring with seg := {s.ring.seg with tail := 0}} := by
    rw [Takers.step, hq]
    rfl
  have hkept := hlossless.kept
  rw [hring] at hkept
  replace hkept : s.ring.accepted.drop s.ring.released <:+
    contents p {s.ring.seg with tail := 0} := hkept
  rw [(h.consumer hnot).2.2, List.drop_zero, contents, (h.zero hready hnot).1] at hkept
  simp only [Nat.zero_add, Nat.sub_zero, Nat.mod_self, List.range_zero, List.map_nil,
    List.suffix_nil] at hkept
  exact haccepted hkept

theorem lossless_step (h : s.Inv p pid) (e : Event) :
    (s.step p pid e).Lossless p ↔ s.Timely e := by
  constructor
  · intro hlossless
    cases e with
    | opener q =>
      cases q with
      | producer => trivial
      | consumer =>
        intro hq
        by_contra haccepted
        exact h.late hq haccepted hlossless
    | timeout | tryPush | pushAccess | tryPop | popAccess => trivial
  · exact fun htimely => (h.step e htimely).lossless

end
end Takers

/-- **Two Python processes at a stale segment.** In every interleaving of their calls, no push that
returned true is ever lost, exactly if the process that pops does not store `tail` in a takeover
of its own after the first of them. -/
theorem takeover_lossless_iff (p : Params) (stale : Stale p) (events : List Event) :
    (∀ before, before <+: events →
      (before.foldl (Takers.step p stale.pid) (Takers.ofStale stale)).Lossless p) ↔
    Throughout (Takers.step p stale.pid) Takers.Timely (Takers.ofStale stale) events := by
  have hinv := Takers.inv_ofStale stale
  rw [Throughout.of_states, and_iff_right hinv.lossless]
  exact Throughout.congr (C := fun _ _ => True) (Takers.Inv p stale.pid)
    (fun s e h _ => Takers.lossless_step h e) (fun s e h _ htimely => h.step e htimely) hinv
    (Throughout.of_mem (fun _ _ _ => trivial) _)

/-- Both find the creator dead; one takes over and pushes, and the other takes over. -/
def bothTakeOver : List Event :=
  List.replicate 6 (.opener .producer) ++ List.replicate 6 (.opener .consumer) ++
    List.replicate 8 (.opener .producer) ++ [.tryPush ⟨0, [7]⟩] ++ List.replicate 5 .pushAccess ++
    List.replicate 8 (.opener .consumer)

/-- Processes 2 and 3 find a ring that process 1 has left. -/
def left : Stale four where
  seg := ⟨0, 0, blank⟩
  owner := 1
  pid := fun q => if q = .producer then 2 else 3
  dead := fun q => by cases q <;> decide
  size := by decide

/-- Both `open` calls and the push have returned true, and nothing is in the ring. -/
theorem bothTakeOver_loses :
    (∀ q, (bothTakeOver.foldl (Takers.step four left.pid) (Takers.ofStale left)).opener q =
      .returned true) ∧
    ¬ ∀ (p : Params) (stale : Stale p) (events : List Event),
      (events.foldl (Takers.step p stale.pid) (Takers.ofStale stale)).Lossless p := by
  refine ⟨fun q => by cases q <;> decide, fun h => ?_⟩
  have hkept := (h four left bothTakeOver).kept
  have hcontents : contents four
      (bothTakeOver.foldl (Takers.step four left.pid) (Takers.ofStale left)).ring.seg = [] := by
    decide
  have haccepted : (bothTakeOver.foldl (Takers.step four left.pid)
      (Takers.ofStale left)).ring.accepted = [⟨0, [7]⟩] := by decide
  rw [hcontents, List.suffix_nil, haccepted] at hkept
  revert hkept
  decide

end Relink.Shm.Python
