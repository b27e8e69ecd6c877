import Mathlib.Logic.Function.Basic
import Relink.Library.Run
import Relink.Shm.Ring

/-! Opening a ring.

`ShmRing::open` and `init_as_creator`, one access to the header at a time, of any number of
processes that open one name with the same parameters and may die at any point. Who
finds the segment there attaches, unless the recorded creator is dead; then it claims the
segment by a compare-exchange on `magic` and initializes it anew. -/
namespace Relink.Shm
open Transition

def kShmRingMagic : Nat := 0x524C4B31
def kShmRingVersion : Nat := 1

/-- `ShmRingHeader`, but for the two indices, which are in `Segment`. A new segment is zero. -/
structure Header where
  magic : Nat := 0
  version : Nat := 0
  slotSize : Nat := 0
  capacity : Nat := 0
  creatorPid : Nat := 0
deriving DecidableEq

/-- The stores of `init_as_creator`. -/
inductive Store where
  | version
  | slotSize
  | capacity
  | head
  | tail
  | creatorPid
  | magic
deriving DecidableEq

def Header.store (p : Params) (pid : Nat) (hdr : Header) : Store → Header
  | .version => {hdr with version := kShmRingVersion}
  | .slotSize => {hdr with slotSize := p.slotSize}
  | .capacity => {hdr with capacity := p.capacity}
  | .head => hdr
  | .tail => hdr
  | .creatorPid => {hdr with creatorPid := pid}
  | .magic => {hdr with magic := kShmRingMagic}

/-- What `open` does next. -/
inductive OpenPc where
  | create
  /-- The segment is there, and has no bytes yet. -/
  | truncate
  | init (st : Store)
  | loadMagic
  /-- No magic was found; the deadline is looked at, or it sleeps and loads again. -/
  | poll
  | compare
  | readPid
  | checkAlive (owner : Nat)
  /-- The owner was found dead. -/
  | compareExchange (owner : Nat)
  | returned (ok : Bool)
deriving DecidableEq

/-- A creator that has not returned. -/
@[simp] def OpenPc.initing : OpenPc → Bool
  | .truncate => true
  | .init _ => true
  | _ => false

/-- After a store comes the next one; `magic` is the last. -/
def Store.next : Store → OpenPc
  | .version => .init .slotSize
  | .slotSize => .init .capacity
  | .capacity => .init .head
  | .head => .init .tail
  | .tail => .init .creatorPid
  | .creatorPid => .init .magic
  | .magic => .returned true

/-- `creator` is what `is_creator()` returns. -/
structure Process where
  pc : OpenPc := .create
  creator : Bool := false
  alive : Bool := true
deriving DecidableEq

/-- The name, if the segment exists and has its size, and the processes by pid. -/
structure Openers where
  present : Bool := false
  sized : Bool := false
  hdr : Header := {}
  procs : Nat → Process := fun _ => {}

inductive OpenEvent where
  | step (pid : Nat)
  /-- The deadline of the polling loop has passed. -/
  | timeout (pid : Nat)
  | crash (pid : Nat)
deriving DecidableEq

namespace Openers

/-- A process that runs; no process has pid 0. -/
def Live (w : Openers) (pid : Nat) : Prop := pid ≠ 0 ∧ (w.procs pid).alive = true

instance (w : Openers) (pid : Nat) : Decidable (w.Live pid) := inferInstanceAs (Decidable (_ ∧ _))

/-- `kill(pid, 0)` fails with `ESRCH`; pid 0 would be the caller's own group. -/
def Gone (w : Openers) (pid : Nat) : Prop := pid ≠ 0 ∧ (w.procs pid).alive = false

instance (w : Openers) (pid : Nat) : Decidable (w.Gone pid) := inferInstanceAs (Decidable (_ ∧ _))

def set (w : Openers) (pid : Nat) (proc : Process) : Openers :=
  {w with procs := Function.update w.procs pid proc}

def goto (w : Openers) (pid : Nat) (pc : OpenPc) : Openers :=
  w.set pid {w.procs pid with pc := pc}

/-- `creator_ = true`, and on to `init_as_creator`. -/
def claim (w : Openers) (pid : Nat) (pc : OpenPc) : Openers :=
  w.set pid {w.procs pid with creator := true, pc := pc}

def die (w : Openers) (pid : Nat) : Openers :=
  w.set pid {w.procs pid with alive := false}

/-- The next access of a process, by its program counter. -/
def access (p : Params) (w : Openers) (pid : Nat) : OpenPc → Openers
  | .create =>
    if w.present then w.goto pid .loadMagic else {w with present := true}.claim pid .truncate
  | .truncate => {w with sized := true}.goto pid (.init .version)
  | .init st => {w with hdr := w.hdr.store p pid st}.goto pid st.next
  | .loadMagic =>
    -- A mapping past the end of the object is a bus error on the first access.
    if w.sized = false then w.die pid
    else if w.hdr.magic = kShmRingMagic then w.goto pid .compare
    else w.goto pid .poll
  | .poll => w.goto pid .loadMagic
  | .compare =>
    if w.hdr.version ≠ kShmRingVersion ∨ w.hdr.slotSize ≠ p.slotSize ∨
        w.hdr.capacity ≠ p.capacity then w.goto pid (.returned false)
    else w.goto pid .readPid
  | .readPid => w.goto pid (.checkAlive w.hdr.creatorPid)
  | .checkAlive owner =>
    if owner ≠ pid ∧ w.Gone owner then w.goto pid (.compareExchange owner)
    else w.goto pid (.returned true)
  | .compareExchange _ =>
    if w.hdr.magic = kShmRingMagic then {w with hdr := {w.hdr with magic := 0}}.claim pid (.init .version)
    else w.goto pid .loadMagic
  | .returned _ => w

def step (p : Params) (w : Openers) : OpenEvent → Openers
  | .step pid => if w.Live pid then w.access p pid (w.procs pid).pc else w
  | .timeout pid =>
    if w.Live pid ∧ (w.procs pid).pc = .poll then w.goto pid (.returned false) else w
  | .crash pid => w.die pid

/-- The store of `init_as_creator` that an event makes. -/
def storing (w : Openers) : OpenEvent → Option Store
  | .step pid =>
    match (w.procs pid).pc with
    | .init st => if w.Live pid then some st else none
    | _ => none
  | _ => none

/-! ### One creator, and exchanges that find a dead one -/

def OneCreator (w : Openers) : Prop :=
  ∀ q r, w.Live q → w.Live r → (w.procs q).creator = true → (w.procs r).creator = true → q = r

/-- At most one live process is creator after the event, and a store of `init_as_creator`
in it finds no other live process recorded. -/
def Untaken (p : Params) (w : Openers) (e : OpenEvent) : Prop :=
  (w.step p e).OneCreator ∧ ∀ pid st, e = .step pid → w.Live pid → (w.procs pid).pc = .init st →
    w.Live w.hdr.creatorPid → w.hdr.creatorPid = pid

/-- Where a compare-exchange succeeds on a segment that was taken over since its process
read `creator_pid`, the creator recorded now is dead as well. -/
def StillStale (w : Openers) (e : OpenEvent) : Prop :=
  ∀ pid owner, e = .step pid → w.Live pid → (w.procs pid).pc = .compareExchange owner →
    w.hdr.magic = kShmRingMagic → w.hdr.creatorPid ≠ owner → ¬ w.Live w.hdr.creatorPid

structure Inv (w : Openers) : Prop where
  unused : w.present = false → w.hdr = {} ∧ ∀ q, (w.procs q).pc = .create
  initing : ∀ q, (w.procs q).pc.initing = true → (w.procs q).creator = true
  creator : ∀ q, (w.procs q).creator = true →
    (w.procs q).pc.initing = true ∨ (w.procs q).pc = .returned true
  one : w.OneCreator
  /-- A published segment records its creator. -/
  published : w.hdr.magic = kShmRingMagic → (w.procs w.hdr.creatorPid).creator = true ∧
    ∀ q, w.Live q → (w.procs q).creator = true → q = w.hdr.creatorPid
  /-- While a live process initializes, nothing is published, and no other is recorded. -/
  unpublished : ∀ q, w.Live q → (w.procs q).pc.initing = true → w.hdr.magic ≠ kShmRingMagic ∧
    (w.Live w.hdr.creatorPid → w.hdr.creatorPid = q) ∧
    ((w.procs q).pc = .init .magic → w.hdr.creatorPid = q)
  checked : ∀ q owner, (w.procs q).pc = .compareExchange owner → w.Gone owner

/-! ### Processes -/

section
variable {w : Openers} {pid q : Nat} {pc : OpenPc}

theorem set_procs (proc : Process) (q : Nat) :
    (w.set pid proc).procs q = if q = pid then proc else w.procs q :=
  Function.update_apply ..

/-- What a process keeps, all processes keep. -/
theorem set_keeps {α : Type} (f : Process → α) {proc : Process} (h : f proc = f (w.procs pid))
    (q : Nat) : f ((w.set pid proc).procs q) = f (w.procs q) := by
  rw [set_procs]
  split
  · next heq => rw [heq, h]
  · rfl

theorem set_live {proc : Process} (h : proc.alive = (w.procs pid).alive) :
    (w.set pid proc).Live q ↔ w.Live q := by
  rw [Live, Live, set_keeps Process.alive h]

theorem set_gone {proc : Process} (h : proc.alive = (w.procs pid).alive) :
    (w.set pid proc).Gone q ↔ w.Gone q := by
  rw [Gone, Gone, set_keeps Process.alive h]

@[simp] theorem goto_creator : ((w.goto pid pc).procs q).creator = (w.procs q).creator :=
  set_keeps Process.creator (by rfl) q

@[simp] theorem goto_live : (w.goto pid pc).Live q ↔ w.Live q :=
  set_live (by rfl)

@[simp] theorem goto_gone : (w.goto pid pc).Gone q ↔ w.Gone q :=
  set_gone (by rfl)

theorem goto_pc : ((w.goto pid pc).procs q).pc = if q = pid then pc else (w.procs q).pc := by
  rw [goto, set_procs]
  split <;> rfl

@[simp] theorem claim_live : (w.claim pid pc).Live q ↔ w.Live q :=
  set_live (by rfl)

@[simp] theorem claim_gone : (w.claim pid pc).Gone q ↔ w.Gone q :=
  set_gone (by rfl)

theorem claim_creator : ((w.claim pid pc).procs q).creator = true ↔
    q = pid ∨ (w.procs q).creator = true := by
  rw [claim, set_procs]
  split
  · next h => simp only [h, true_or]
  · next h => simp only [h, false_or]

theorem claim_pc : ((w.claim pid pc).procs q).pc = if q = pid then pc else (w.procs q).pc := by
  rw [claim, set_procs]
  split <;> rfl

@[simp] theorem die_pc : ((w.die pid).procs q).pc = (w.procs q).pc :=
  set_keeps Process.pc (by rfl) q

@[simp] theorem die_creator : ((w.die pid).procs q).creator = (w.procs q).creator :=
  set_keeps Process.creator (by rfl) q

theorem live_of_die (h : (w.die pid).Live q) : w.Live q := by
  refine ⟨h.1, ?_⟩
  have halive := h.2
  rw [die, set_procs] at halive
  split at halive
  · cases halive
  · exact halive

end

/-! ### Stores -/

theorem store_magic {p : Params} {pid : Nat} {hdr : Header} {st : Store} (h : st ≠ .magic) :
    (hdr.store p pid st).magic = hdr.magic := by
  cases st with
  | magic => exact absurd rfl h
  | _ => rfl

theorem store_creatorPid {p : Params} {pid : Nat} {hdr : Header} {st : Store} :
    (hdr.store p pid st).creatorPid = if st = .creatorPid then pid else hdr.creatorPid := by
  cases st <;> rfl

theorem next_init {st : Store} (h : st.next.initing = true) : st ≠ .magic := fun heq => by
  rw [heq] at h
  cases h

theorem next_magic {st : Store} (h : st.next = .init .magic) : st = .creatorPid := by
  cases st with
  | creatorPid => rfl
  | _ => cases h

theorem next_cases (st : Store) : st.next.initing = true ∨ st.next = .returned true := by
  cases st with
  | magic => exact Or.inr rfl
  | _ => exact Or.inl rfl

/-! ### Steps -/

section
variable {p : Params} {w : Openers} {pid : Nat}

theorem Gone.not_live (h : w.Gone pid) : ¬ w.Live pid := fun hlive =>
  Bool.false_ne_true (h.2.symm.trans hlive.2)

/-- A process that is not creator goes on and stays so. -/
theorem Inv.goto (h : w.Inv) (hpresent : w.present = true) {pc : OpenPc}
    (hcreator : (w.procs pid).creator = false) (hinit : pc.initing = false)
    (hchecked : ∀ owner, pc = .compareExchange owner → w.Gone owner) : (w.goto pid pc).Inv where
  unused := fun h' => absurd (hpresent.symm.trans h') (by decide)
  initing := fun q hpc => by
    rw [goto_pc] at hpc
    split at hpc
    · exact absurd hpc (Bool.eq_false_iff.mp hinit)
    · exact goto_creator.trans (h.initing q hpc)
  creator := fun q hq => by
    rw [goto_creator] at hq
    have hne : q ≠ pid := fun heq => by
      rw [heq, hcreator] at hq
      exact Bool.false_ne_true hq
    rw [goto_pc, if_neg hne]
    exact h.creator q hq
  one := fun q r hq hr hcq hcr => by
    simp only [goto_live, goto_creator] at hq hr hcq hcr
    exact h.one q r hq hr hcq hcr
  published := fun hmagic => by
    simp only [goto_live, goto_creator]
    exact h.published hmagic
  unpublished := fun q hq hpc => by
    simp only [goto_live] at hq ⊢
    rw [goto_pc] at hpc ⊢
    split at hpc
    · exact absurd hpc (Bool.eq_false_iff.mp hinit)
    · next hne => exact if_neg hne ▸ h.unpublished q hq hpc
  checked := fun q owner hpc => by
    rw [goto_gone]
    rw [goto_pc] at hpc
    split at hpc
    · exact hchecked owner hpc
    · exact h.checked q owner hpc

/-- A segment that no live process holds is claimed. -/
theorem Inv.claim (h : w.Inv) (hpresent : w.present = true) {pc : OpenPc} (hinit : pc.initing = true)
    (hfirst : pc ≠ .init .magic) (hmagic : w.hdr.magic ≠ kShmRingMagic)
    (hnone : ∀ q, w.Live q → (w.procs q).creator = false)
    (hdead : ¬ w.Live w.hdr.creatorPid) : (w.claim pid pc).Inv where
  unused := fun h' => absurd (hpresent.symm.trans h') (by decide)
  initing := fun q hpc => by
    rw [claim_creator]
    rw [claim_pc] at hpc
    split at hpc
    · next heq => exact Or.inl heq
    · exact Or.inr (h.initing q hpc)
  creator := fun q hq => by
    rw [claim_pc]
    rw [claim_creator] at hq
    split
    · exact Or.inl hinit
    · next hne => exact h.creator q (hq.resolve_left hne)
  one := by
    have hpid : ∀ q, (w.claim pid pc).Live q → ((w.claim pid pc).procs q).creator = true →
        q = pid := by
      intro q hq hcq
      rw [claim_live] at hq
      rw [claim_creator] at hcq
      exact hcq.resolve_right fun hc => Bool.false_ne_true ((hnone q hq).symm.trans hc)
    intro q r hq hr hcq hcr
    rw [hpid q hq hcq, hpid r hr hcr]
  published := fun h' => absurd h' hmagic
  unpublished := fun q hq hpc => by
    simp only [claim_live] at hq ⊢
    rw [claim_pc] at hpc ⊢
    split at hpc
    · next heq =>
      rw [if_pos heq]
      exact ⟨hmagic, fun hlive => absurd hlive hdead, fun hlast => absurd hlast hfirst⟩
    · next hne => exact if_neg hne ▸ h.unpublished q hq hpc
  checked := fun q owner hpc => by
    rw [claim_gone]
    rw [claim_pc] at hpc
    split at hpc
    · subst hpc
      cases hinit
    · exact h.checked q owner hpc

theorem Inv.appear (h : w.Inv) : Inv {w with present := true} :=
  ⟨(fun h' => nomatch h'), h.initing, h.creator, h.one, h.published, h.unpublished,
    h.checked⟩

/-- The compare-exchange withdraws what was published. -/
theorem Inv.withdraw (h : w.Inv) (hpresent : w.present = true) :
    Inv {w with hdr := {w.hdr with magic := 0}} :=
  ⟨fun h' => absurd (hpresent.symm.trans h') (by decide), h.initing, h.creator, h.one,
    (fun h' => nomatch h'), fun q hq hpc => ⟨Nat.zero_ne_add_one _, (h.unpublished q hq hpc).2⟩,
    h.checked⟩

theorem Inv.present_of_pc (h : w.Inv) {pc : OpenPc} (hpc : (w.procs pid).pc = pc)
    (hne : pc ≠ .create) : w.present = true := by
  cases hpresent : w.present with
  | false => exact absurd (hpc.symm.trans ((h.unused hpresent).2 pid)) hne
  | true => rfl

/-- Whoever initializes is the only live creator, so what it stores meets no other. -/
theorem Inv.proceed (h : w.Inv) (hlive : w.Live pid) (hpc : (w.procs pid).pc.initing = true) {sized : Bool}
    {hdr : Header} {pc : OpenPc} (hnext : pc.initing = true ∨ pc = .returned true)
    (hrecorded : hdr.creatorPid = pid ∨ hdr.creatorPid = w.hdr.creatorPid)
    (hinit : pc.initing = true → hdr.magic ≠ kShmRingMagic)
    (hlast : hdr.magic = kShmRingMagic ∨ pc = .init .magic → hdr.creatorPid = pid) :
    Inv ({w with sized := sized, hdr := hdr}.goto pid pc) := by
  have hpresent := h.present_of_pc rfl fun heq => by
    rw [heq] at hpc
    cases hpc
  have hcreator := h.initing pid hpc
  have honly : ∀ q, w.Live q → (w.procs q).creator = true → q = pid := fun q hq hc =>
    h.one q pid hq hlive hc hcreator
  refine ⟨fun h' => absurd (hpresent.symm.trans h') (by decide), fun q hq => ?_, fun q hq => ?_,
    fun q r hq hr hcq hcr => ?_, fun h' => ?_, fun q hq hq' => ?_, fun q owner hq => ?_⟩
  · rw [goto_creator]
    rw [goto_pc] at hq
    split at hq
    · next heq => exact heq ▸ hcreator
    · exact h.initing q hq
  · rw [goto_creator] at hq
    rw [goto_pc]
    split
    · exact hnext
    · exact h.creator q hq
  · simp only [goto_live, goto_creator] at hq hr hcq hcr
    exact h.one q r hq hr hcq hcr
  · show ((Openers.goto _ pid _).procs hdr.creatorPid).creator = true ∧
      ∀ q, (Openers.goto _ pid _).Live q → ((Openers.goto _ pid _).procs q).creator = true →
        q = hdr.creatorPid
    simp only [goto_live, goto_creator, hlast (Or.inl h')]
    exact ⟨hcreator, honly⟩
  · simp only [goto_live] at hq ⊢
    have heq : q = pid := by
      rw [goto_pc] at hq'
      split at hq'
      · next heq => exact heq
      · exact honly q hq (h.initing q hq')
    subst heq
    rw [goto_pc, if_pos rfl] at hq' ⊢
    refine ⟨hinit hq', fun hr => ?_, fun heq => hlast (Or.inr heq)⟩
    rcases hrecorded with heq | heq
    · exact heq
    · exact heq.trans ((h.unpublished q hlive hpc).2.1 (heq ▸ hr))
  · rw [goto_gone]
    rw [goto_pc] at hq
    split at hq
    · subst hq
      rcases hnext with heq | heq
      · cases heq
      · cases heq
    · exact h.checked q owner hq

theorem Inv.truncate (h : w.Inv) (hlive : w.Live pid) (hpc : (w.procs pid).pc = .truncate) :
    Inv ({w with sized := true}.goto pid (.init .version)) := by
  have hinit : (w.procs pid).pc.initing = true := by rw [hpc]; rfl
  have hmagic := (h.unpublished pid hlive hinit).1
  refine h.proceed hlive hinit (Or.inl rfl) (Or.inr rfl) (fun _ => hmagic) fun h' => ?_
  rcases h' with h' | h'
  · exact absurd h' hmagic
  · cases h'

/-- Only the last store publishes; `creator_pid` has been stored by then. -/
theorem Inv.init (h : w.Inv) {st : Store} (hlive : w.Live pid)
    (hpc : (w.procs pid).pc = .init st) :
    Inv ({w with hdr := w.hdr.store p pid st}.goto pid st.next) := by
  have hinit : (w.procs pid).pc.initing = true := by rw [hpc]; rfl
  obtain ⟨hmagic, _, hlast⟩ := h.unpublished pid hlive hinit
  refine h.proceed hlive hinit (next_cases st) ?_ (fun hnext => ?_) fun h' => ?_
  · rw [store_creatorPid]
    split
    · exact Or.inl rfl
    · exact Or.inr rfl
  · rw [store_magic (next_init hnext)]
    exact hmagic
  · rw [store_creatorPid]
    rcases h' with h' | h'
    · have hst : st = .magic := by
        by_contra hne
        exact hmagic ((store_magic hne).symm.trans h')
      subst hst
      exact hlast hpc
    · rw [if_pos (next_magic h')]

/-- A dead creator leaves nobody behind. -/
theorem Inv.crash (h : w.Inv) (pid : Nat) : Inv (w.die pid) := by
  refine ⟨fun h' => ⟨(h.unused h').1, fun q => ?_⟩, fun q hq => ?_, fun q hq => ?_,
    fun q r hq hr hcq hcr => ?_, fun h' => ⟨?_, fun q hq hc => ?_⟩, fun q hq hq' => ?_,
    fun q owner hq => ⟨?_, ?_⟩⟩
  · exact die_pc.trans ((h.unused h').2 q)
  · exact die_creator.trans (h.initing q (die_pc (w := w) ▸ hq))
  · rw [die_pc]
    exact h.creator q (die_creator.symm.trans hq)
  · exact h.one q r (live_of_die hq) (live_of_die hr) (die_creator.symm.trans hcq)
      (die_creator.symm.trans hcr)
  · exact die_creator.trans (h.published h').1
  · exact (h.published h').2 q (live_of_die hq) (die_creator.symm.trans hc)
  · rw [die_pc] at hq' ⊢
    obtain ⟨hmagic, hrecorded, hlast⟩ := h.unpublished q (live_of_die hq) hq'
    exact ⟨hmagic, fun hr => hrecorded (live_of_die hr), hlast⟩
  · exact (h.checked q owner (die_pc.symm.trans hq)).1
  · rw [die, set_procs]
    split
    · rfl
    · exact (h.checked q owner (die_pc.symm.trans hq)).2

/-- A process that has not claimed the segment is not creator. -/
theorem Inv.not_creator (h : w.Inv) (hinit : (w.procs pid).pc.initing = false)
    (hreturned : (w.procs pid).pc ≠ .returned true) : (w.procs pid).creator = false := by
  cases hcreator : (w.procs pid).creator with
  | false => rfl
  | true =>
    rcases h.creator pid hcreator with hst | hret
    · exact absurd hst (Bool.eq_false_iff.mp hinit)
    · exact absurd hret hreturned

/-- What an event can do, and the store it makes. -/
inductive Move (p : Params) (w : Openers) (e : OpenEvent) : Option Store → Openers → Prop where
  | stays : Move p w e none w
  /-- A process that is not creator reads, or returns. -/
  | goes {pid : Nat} {pc : OpenPc} (hpresent : w.present = true)
      (hcreator : (w.procs pid).creator = false) (hinit : pc.initing = false)
      (hchecked : ∀ owner, pc = .compareExchange owner → w.Gone owner) :
      Move p w e none (w.goto pid pc)
  | creates {pid : Nat} (hpresent : w.present = false) :
      Move p w e none ({w with present := true}.claim pid .truncate)
  | truncates {pid : Nat} (hlive : w.Live pid) (hpc : (w.procs pid).pc = .truncate) :
      Move p w e none ({w with sized := true}.goto pid (.init .version))
  | claims {pid owner : Nat} (he : e = .step pid) (hlive : w.Live pid)
      (hpc : (w.procs pid).pc = .compareExchange owner) (hmagic : w.hdr.magic = kShmRingMagic) :
      Move p w e none ({w with hdr := {w.hdr with magic := 0}}.claim pid (.init .version))
  | stores {pid : Nat} {st : Store} (hlive : w.Live pid) (hpc : (w.procs pid).pc = .init st) :
      Move p w e (some st) ({w with hdr := w.hdr.store p pid st}.goto pid st.next)
  | crashes {pid : Nat} : Move p w e none (w.die pid)

theorem Inv.move (h : w.Inv) (e : OpenEvent) : w.Move p e (w.storing e) (w.step p e) := by
  have hattach : ∀ {pid pc pc'}, (w.procs pid).pc = pc → pc ≠ .create → pc.initing = false →
      pc ≠ .returned true → pc'.initing = false →
      (∀ owner, pc' = .compareExchange owner → w.Gone owner) →
      w.Move p e none (w.goto pid pc') := by
    intro pid pc pc' hpc hcreate hinit hreturned hinit' hchecked
    subst hpc
    exact .goes (h.present_of_pc rfl hcreate) (h.not_creator hinit hreturned) hinit' hchecked
  cases e with
  | crash pid => exact .crashes
  | timeout pid =>
    simp only [Openers.step, storing]
    split
    · next hcond => exact hattach hcond.2 (by simp) (by simp) (by simp) (by simp) (by simp)
    · exact .stays
  | step pid =>
    by_cases hlive : w.Live pid
    · simp only [Openers.step, storing, if_pos hlive]
      cases hpc : (w.procs pid).pc with
      | create =>
        simp only [access]
        split
        · next hpresent =>
          exact .goes hpresent (h.not_creator (by simp [hpc]) (by simp [hpc])) (by simp) (by simp)
        · next hpresent => exact .creates (Bool.eq_false_iff.mpr hpresent)
      | truncate => exact .truncates hlive hpc
      | init st => exact .stores hlive hpc
      | loadMagic =>
        simp only [access]
        split
        · exact .crashes
        · split <;> exact hattach hpc (by simp) (by simp) (by simp) (by simp) (by simp)
      | poll => exact hattach hpc (by simp) (by simp) (by simp) (by simp) (by simp)
      | compare =>
        simp only [access]
        split <;> exact hattach hpc (by simp) (by simp) (by simp) (by simp) (by simp)
      | readPid => exact hattach hpc (by simp) (by simp) (by simp) (by simp) (by simp)
      | checkAlive owner =>
        simp only [access]
        split
        · next hgone =>
          refine hattach hpc (by simp) (by simp) (by simp) (by simp) fun owner' heq => ?_
          cases heq
          exact hgone.2
        · exact hattach hpc (by simp) (by simp) (by simp) (by simp) (by simp)
      | compareExchange owner =>
        simp only [access]
        split
        · next hmagic => exact .claims rfl hlive hpc hmagic
        · exact hattach hpc (by simp) (by simp) (by simp) (by simp) (by simp)
      | returned ok => exact .stays
    · have hnone : w.storing (.step pid) = none := by
        simp only [storing, if_neg hlive]
        split <;> rfl
      rw [hnone, Openers.step, if_neg hlive]
      exact .stays

/-- A compare-exchange through a gate that closes claims a segment without a creator. -/
theorem Inv.claims (h : w.Inv) {owner : Nat} (hpc : (w.procs pid).pc = .compareExchange owner)
    (hmagic : w.hdr.magic = kShmRingMagic)
    (hstale : w.hdr.creatorPid ≠ owner → ¬ w.Live w.hdr.creatorPid) :
    Inv ({w with hdr := {w.hdr with magic := 0}}.claim pid (.init .version)) := by
  have hpresent := h.present_of_pc hpc (by simp)
  have hdead : ¬ w.Live w.hdr.creatorPid := by
    by_cases heq : w.hdr.creatorPid = owner
    · exact heq ▸ (h.checked pid owner hpc).not_live
    · exact hstale heq
  refine (h.withdraw hpresent).claim hpresent rfl (by simp)
    (Nat.zero_ne_add_one _) (fun q hq => ?_) hdead
  refine Bool.eq_false_iff.mpr fun hc => hdead ?_
  exact (h.published hmagic).2 q hq hc ▸ hq

theorem Inv.creates (h : w.Inv) (hpresent : w.present = false) :
    Inv ({w with present := true}.claim pid .truncate) := by
  obtain ⟨hhdr, hall⟩ := h.unused hpresent
  have hnone : ∀ q, w.Live q → (w.procs q).creator = false := fun q _ =>
    h.not_creator (by simp [hall q]) (by simp [hall q])
  refine h.appear.claim rfl rfl (by simp) ?_ hnone ?_
  · show w.hdr.magic ≠ _
    rw [hhdr]
    exact Nat.zero_ne_add_one _
  · show ¬ w.Live w.hdr.creatorPid
    rw [hhdr]
    exact fun h0 => h0.1 rfl

/-- Every step keeps the invariant, unless it takes a segment over from a live creator. -/
theorem Inv.step (h : w.Inv) {e : OpenEvent} (hstale : w.StillStale e) : (w.step p e).Inv := by
  have hmove := h.move (p := p) e
  generalize w.step p e = w', w.storing e = stored at hmove
  cases hmove with
  | stays => exact h
  | goes hpresent hcreator hinit hchecked => exact h.goto hpresent hcreator hinit hchecked
  | creates hpresent => exact h.creates hpresent
  | claims he hlive hpc hmagic => exact h.claims hpc hmagic (hstale _ _ he hlive hpc hmagic)
  | truncates hlive hpc => exact h.truncate hlive hpc
  | stores hlive hpc => exact h.init hlive hpc
  | crashes => exact h.crash _

theorem inv_empty : Inv {} :=
  ⟨fun _ => ⟨rfl, fun _ => rfl⟩, fun _ h => absurd h (by simp), (fun _ h => nomatch h),
    (fun _ _ _ _ h _ => nomatch h), (fun h => nomatch h), fun _ _ h => absurd h (by simp),
    (fun _ _ h => nomatch h)⟩

/-- Nothing is taken from a live creator exactly where the gate closes on a dead one. -/
theorem Inv.untaken_iff (h : w.Inv) {e : OpenEvent} : w.Untaken p e ↔ w.StillStale e := by
  constructor
  · intro huntaken pid owner he hlive hpc hmagic _ hrecorded
    have hcreator := (h.published hmagic).1
    have hstep : w.step p e =
        {w with hdr := {w.hdr with magic := 0}}.claim pid (.init .version) := by
      rw [he, Openers.step, if_pos hlive, hpc, access, if_pos hmagic]
    have hone := huntaken.1
    rw [hstep] at hone
    have heq := hone pid w.hdr.creatorPid (claim_live.mpr hlive) (claim_live.mpr hrecorded)
      (claim_creator.mpr (Or.inl rfl)) (claim_creator.mpr (Or.inr hcreator))
    rw [← heq, h.not_creator (by simp [hpc]) (by simp [hpc])] at hcreator
    cases hcreator
  · intro hstale
    exact ⟨(h.step hstale).one, fun pid st _ hlive hpc =>
      (h.unpublished pid hlive (hpc ▸ rfl)).2.1⟩

end

/-- **A live creator keeps its ring** in a run of any number of openers, and no
`init_as_creator` runs on it, exactly if each compare-exchange that succeeds after the
segment has been taken over again finds that creator dead too. -/
theorem never_taken_over_iff (p : Params) (events : List OpenEvent) :
    Throughout (step p) (Untaken p) {} events ↔ Throughout (step p) StillStale {} events :=
  Throughout.congr Inv (C := fun _ _ => True) (fun _ _ h _ => h.untaken_iff)
    (fun _ _ h _ hstale => h.step hstale) inv_empty
    (Throughout.of_mem (fun _ _ _ => trivial) _)

/-! Three processes open one name. -/

/-- A process runs until it has returned. -/
def opens (pid : Nat) : List OpenEvent := List.replicate 14 (.step pid)

/-- The first dies as creator. The second finds it dead, and before it gets to its
compare-exchange the third takes the segment over. -/
def overtaken : List OpenEvent :=
  opens 1 ++ [.crash 1] ++ List.replicate 5 (.step 2) ++ opens 3

example : ((opens 1 ++ opens 2).foldl (step four) {}).procs 2 = ⟨.returned true, false, true⟩ := by
  decide

/-- The second's compare-exchange finds `magic` published again, and succeeds. -/
theorem overtaken_creator_taken_over :
    let w := overtaken.foldl (step four) {}
    let w' := w.step four (.step 2)
    (w.hdr.creatorPid = 3 ∧ w.Live 3 ∧ (w.procs 3) = ⟨.returned true, true, true⟩ ∧
      w'.hdr.creatorPid = 3 ∧ w'.Live 2 ∧ (w'.procs 2) = ⟨.init .version, true, true⟩) ∧
      ¬ Throughout (step four) (Untaken four) {} (overtaken ++ [.step 2]) := by
  refine ⟨by decide +kernel, fun h => ?_⟩
  have hone := ((Throughout.append.mp h).2.1).1
  exact absurd (hone 2 3 (by decide +kernel) (by decide +kernel) (by decide +kernel) (by decide +kernel))
    (by decide)

end Openers

end Relink.Shm
