import Relink.Shm.Takeover

/-! Opening a ring that a crash left.

Processes open a name and are killed, wherever they are. Then one process opens it, alone.
It creates what is not there, and takes over what a dead creator has published. What it
cannot get past is a segment that was never published: it waits for a creator that is no
more, or maps an object that has no bytes. -/
namespace Relink.Shm
open Transition

/-! ### What is left -/

namespace Openers

/-- All who opened are dead. Those that run now have not opened yet; a pid may be one that
was in use before. -/
def later (w : Openers) (alive : Nat → Bool) : Openers :=
  {w with procs := fun q => {alive := alive q}}

/-- What any number of generations of openers leave. -/
inductive Leaves (p : Params) : Openers → Prop where
  | empty : Leaves p {}
  | step {w : Openers} (h : Leaves p w) (e : OpenEvent) : Leaves p (w.step p e)
  | later {w : Openers} (h : Leaves p w) (alive : Nat → Bool) : Leaves p (w.later alive)

end Openers

/-- An attaching process takes the segment for one of its own parameters. -/
def Header.Compatible (p : Params) (hdr : Header) : Prop :=
  hdr.version = kShmRingVersion ∧ hdr.slotSize = p.slotSize ∧ hdr.capacity = p.capacity

/-- The stores before `st` have been made. -/
structure Header.Reached (p : Params) (hdr : Header) (st : Store) : Prop where
  version : st ≠ .version → hdr.version = kShmRingVersion
  slotSize : st ≠ .version → st ≠ .slotSize → hdr.slotSize = p.slotSize
  capacity : st ≠ .version → st ≠ .slotSize → st ≠ .capacity → hdr.capacity = p.capacity

theorem Header.Reached.compatible {p : Params} {hdr : Header} (h : hdr.Reached p .magic) :
    hdr.Compatible p :=
  ⟨h.version (by decide), h.slotSize (by decide) (by decide),
    h.capacity (by decide) (by decide) (by decide)⟩

theorem reached_version {p : Params} {hdr : Header} : hdr.Reached p .version :=
  ⟨fun h => absurd rfl h, fun h => absurd rfl h, fun h => absurd rfl h⟩

/-- A store keeps what the stores of the same parameters have written. -/
theorem Header.Reached.store {p : Params} {hdr : Header} {st : Store} (h : hdr.Reached p st)
    (pid : Nat) (st' : Store) : (hdr.store p pid st').Reached p st := by
  cases st' with
  | version => exact ⟨fun _ => rfl, h.slotSize, h.capacity⟩
  | slotSize => exact ⟨h.version, fun _ _ => rfl, h.capacity⟩
  | capacity => exact ⟨h.version, h.slotSize, fun _ _ _ => rfl⟩
  | _ => exact ⟨h.version, h.slotSize, h.capacity⟩

theorem Header.Reached.next {p : Params} {hdr : Header} {st st' : Store} (h : hdr.Reached p st)
    (pid : Nat) (hst : st.next = .init st') : (hdr.store p pid st).Reached p st' := by
  cases st with
  | version =>
    cases hst
    exact ⟨fun _ => rfl, fun _ h' => absurd rfl h', fun _ h' => absurd rfl h'⟩
  | slotSize =>
    cases hst
    exact ⟨fun _ => h.version (by decide), fun _ _ => rfl, fun _ _ h' => absurd rfl h'⟩
  | capacity =>
    cases hst
    exact ⟨fun _ => h.version (by decide), fun _ _ => h.slotSize (by decide) (by decide),
      fun _ _ _ => rfl⟩
  | magic => cases hst
  | _ =>
    cases hst
    exact ⟨fun _ => h.version (by decide), fun _ _ => h.slotSize (by decide) (by decide),
      fun _ _ _ => h.capacity (by decide) (by decide) (by decide)⟩

namespace Openers

/-- What is published is whole, whoever of several creators has published it. -/
structure Formed (p : Params) (w : Openers) : Prop where
  published : w.hdr.magic = kShmRingMagic → w.sized = true ∧ w.hdr.Compatible p
  initing : ∀ q st, (w.procs q).pc = .init st → w.sized = true ∧ w.hdr.Reached p st

section
variable {p : Params} {w : Openers} {pid : Nat}

theorem zero_ne_magic : ¬ 0 = kShmRingMagic := by decide

theorem Formed.set (h : w.Formed p) {proc : Process}
    (hpc : ∀ st, proc.pc = .init st → w.sized = true ∧ w.hdr.Reached p st) :
    (w.set pid proc).Formed p where
  published := h.published
  initing := fun q st hq => by
    rw [set_procs] at hq
    split at hq
    · exact hpc st hq
    · exact h.initing q st hq

theorem Formed.goto (h : w.Formed p) {pc : OpenPc} (hinit : pc.initing = false) :
    (w.goto pid pc).Formed p :=
  h.set fun st hpc => by
    have hpc : pc = .init st := hpc
    rw [hpc] at hinit
    cases hinit

theorem Formed.die (h : w.Formed p) : (w.die pid).Formed p :=
  h.set fun st hpc => h.initing pid st hpc

theorem Formed.access (h : w.Formed p) {pc : OpenPc} (hpc : (w.procs pid).pc = pc) :
    (w.access p pid pc).Formed p := by
  cases pc with
  | create =>
    simp only [Openers.access]
    split
    · exact h.goto rfl
    · exact (Formed.mk h.published h.initing : Formed p {w with present := true}).set
        fun st heq => by cases heq
  | truncate =>
    have hsized : Formed p {w with sized := true} :=
      ⟨fun hmagic => ⟨rfl, (h.published hmagic).2⟩, fun q st hq => ⟨rfl, (h.initing q st hq).2⟩⟩
    exact hsized.set fun st heq => by
      cases heq
      exact ⟨rfl, reached_version⟩
  | init st =>
    obtain ⟨hsized, hreached⟩ := h.initing pid st hpc
    have hstored : Formed p {w with hdr := w.hdr.store p pid st} := by
      refine ⟨fun hmagic => ⟨hsized, ?_⟩, fun q st' hq => ⟨hsized, ?_⟩⟩
      · by_cases hst : st = .magic
        · subst hst
          exact hreached.compatible
        · obtain ⟨hversion, hslot, hcapacity⟩ := (h.published (store_magic hst ▸ hmagic)).2
          have hall : w.hdr.Reached p .magic :=
            ⟨fun _ => hversion, fun _ _ => hslot, fun _ _ _ => hcapacity⟩
          exact (hall.store pid st).compatible
      · exact (h.initing q st' hq).2.store pid st
    exact hstored.set fun st' heq => ⟨hsized, hreached.next pid heq⟩
  | loadMagic =>
    simp only [Openers.access]
    split
    · exact h.die
    · split <;> exact h.goto rfl
  | compare =>
    simp only [Openers.access]
    split <;> exact h.goto rfl
  | checkAlive owner =>
    simp only [Openers.access]
    split <;> exact h.goto rfl
  | compareExchange owner =>
    simp only [Openers.access]
    split
    · next hmagic =>
      have hsized := (h.published hmagic).1
      have hwithdrawn : Formed p {w with hdr := {w.hdr with magic := 0}} :=
        ⟨fun heq => absurd heq zero_ne_magic, fun q st hq =>
          have hreached := (h.initing q st hq).2
          ⟨hsized, hreached.version, hreached.slotSize, hreached.capacity⟩⟩
      exact hwithdrawn.set fun st heq => by
        cases heq
        exact ⟨hsized, reached_version⟩
    · exact h.goto rfl
  | returned ok => exact h
  | _ => exact h.goto rfl

theorem Formed.step (h : w.Formed p) (e : OpenEvent) : (w.step p e).Formed p := by
  cases e with
  | crash pid => exact h.die
  | timeout pid =>
    simp only [Openers.step]
    split
    · exact h.goto rfl
    · exact h
  | step pid =>
    simp only [Openers.step]
    split
    · exact h.access rfl
    · exact h

theorem Leaves.formed (h : Leaves p w) : w.Formed p := by
  induction h with
  | empty => exact ⟨(fun h => nomatch h), (fun _ _ h => nomatch h)⟩
  | step _ e ih => exact ih.step e
  | later _ alive ih => exact ⟨ih.published, (fun _ _ h => nomatch h)⟩

end

end Openers

namespace Shared

/-! ### Recovery, and what a dead creator may leave -/

/-- `open` has returned true, and the ring is empty and the process's own. -/
def Recovered (s : Shared) (pid : Nat) : Prop :=
  (s.openers.procs pid).pc = .returned true ∧ s.ring.seg.head = s.ring.seg.tail ∧
    s.openers.hdr.creatorPid = pid

instance (s : Shared) (pid : Nat) : Decidable (s.Recovered pid) :=
  inferInstanceAs (Decidable (_ ∧ _ ∧ _))

end Shared

/-- The event is in one process's `open`. -/
def OpenEvent.By (pid : Nat) : OpenEvent → Prop
  | .step q => q = pid
  | .timeout q => q = pid
  | .crash _ => False

namespace Shared

/-- What the process does alone, for as long as it needs. -/
def Recovers (p : Params) (side : Side) (s : Shared) (pid : Nat) : Prop :=
  ∃ n, ∀ events : List OpenEvent, (∀ e ∈ events, e.By pid) → n ≤ events.count (.step pid) →
    Recovered (events.foldl (fun s e => s.step p side (.opener e)) s) pid

/-- The creator on record is dead. Or the opener has got its pid, and takes the ring for
one that it has made: nothing may be left in it. -/
def Inheritable (s : Shared) (pid : Nat) : Prop :=
  s.openers.Gone s.openers.hdr.creatorPid ∨
    (s.openers.hdr.creatorPid = pid ∧ s.ring.seg.head = s.ring.seg.tail)

/-- No segment, or one that has been published. -/
def Recoverable (s : Shared) (pid : Nat) : Prop :=
  s.openers.present = true → s.openers.hdr.magic = kShmRingMagic ∧ s.Inheritable pid

/-! ### The opener gets through -/

/-- What an attaching process needs to get through. -/
structure Ready (p : Params) (s : Shared) (pid : Nat) : Prop where
  sized : s.openers.sized = true
  published : s.openers.hdr.magic = kShmRingMagic
  compatible : s.openers.hdr.Compatible p
  inheritable : s.Inheritable pid

/-- Where a process is that gets through. -/
def Underway (p : Params) (s : Shared) (pid : Nat) : OpenPc → Prop
  | .create => s.openers.present = true → s.Ready p pid
  | .truncate => True
  | .init .tail => s.ring.seg.head = 0
  | .init .creatorPid => s.ring.seg.head = s.ring.seg.tail
  | .init .magic => s.ring.seg.head = s.ring.seg.tail ∧ s.openers.hdr.creatorPid = pid
  | .init _ => True
  | .checkAlive owner => s.Ready p pid ∧ owner = s.openers.hdr.creatorPid
  | .compareExchange _ => s.openers.hdr.magic = kShmRingMagic
  | .returned ok => ok = true ∧ s.ring.seg.head = s.ring.seg.tail ∧ s.openers.hdr.creatorPid = pid
  | .poll => False
  | _ => s.Ready p pid

end Shared

/-- How many steps are left, if none leads back. -/
def OpenPc.left : OpenPc → Nat
  | .create => 13
  | .poll => 13
  | .loadMagic => 12
  | .compare => 11
  | .readPid => 10
  | .checkAlive _ => 9
  | .compareExchange _ => 8
  | .truncate => 8
  | .init .version => 7
  | .init .slotSize => 6
  | .init .capacity => 5
  | .init .head => 4
  | .init .tail => 3
  | .init .creatorPid => 2
  | .init .magic => 1
  | .returned _ => 0

namespace Shared

/-- A live process is on its way. -/
structure OnWay (p : Params) (s : Shared) (pid : Nat) : Prop where
  live : s.openers.Live pid
  underway : s.Underway p pid (s.openers.procs pid).pc

section
variable {p : Params} {side : Side} {s : Shared} {pid : Nat}

theorem step_init (hlive : s.openers.Live pid) {st : Store}
    (hpc : (s.openers.procs pid).pc = .init st) : s.step p side (.opener (.step pid)) =
      s.opened side ({s.openers with hdr := s.openers.hdr.store p pid st}.goto pid st.next)
        (some st) := by
  simp only [Shared.step, Openers.step, Openers.storing, if_pos hlive, hpc, Openers.access]

/-- The ring is not concerned in what the process does else. -/
theorem step_other (hlive : s.openers.Live pid) {pc : OpenPc}
    (hpc : (s.openers.procs pid).pc = pc) (hinit : ∀ st, pc ≠ .init st) :
    s.step p side (.opener (.step pid)) = {s with openers := s.openers.access p pid pc} := by
  have hstored : s.openers.storing (.step pid) = none := by
    simp only [Openers.storing]
    split
    · next st heq => exact absurd (hpc.symm.trans heq) (hinit st)
    · rfl
  rw [Shared.step, hstored, Openers.step, if_pos hlive, hpc]
  rfl

/-- The process goes on, with what its next program counter asks for. -/
theorem onWay_set {w : Openers} {proc : Process} (hw : s.openers = w.set pid proc)
    (hlive : w.Live pid) (halive : proc.alive = (w.procs pid).alive)
    (hunderway : s.Underway p pid proc.pc) :
    s.OnWay p pid ∧ (s.openers.procs pid).pc = proc.pc := by
  have hpc : (s.openers.procs pid).pc = proc.pc := by rw [hw, Openers.set_procs, if_pos rfl]
  exact ⟨⟨hw ▸ (Openers.set_live halive).mpr hlive, hpc.symm ▸ hunderway⟩, hpc⟩

theorem Ready.of_set (h : s.Ready p pid) {proc : Process}
    (halive : proc.alive = (s.openers.procs pid).alive) :
    Ready p {s with openers := s.openers.set pid proc} pid :=
  ⟨h.sized, h.published, h.compatible, h.inheritable.imp_left (Openers.set_gone halive).mpr⟩

theorem OnWay.init (h : s.OnWay p pid) (side : Side) {st : Store}
    (hpc : (s.openers.procs pid).pc = .init st) :
    (s.step p side (.opener (.step pid))).OnWay p pid ∧
      ((s.step p side (.opener (.step pid))).openers.procs pid).pc = st.next := by
  have hunderway := h.underway
  rw [hpc] at hunderway
  rw [step_init h.live hpc]
  refine onWay_set (w := {s.openers with hdr := s.openers.hdr.store p pid st})
    (opened_openers _ _) h.live rfl ?_
  cases st with
  | head => exact rfl
  | tail => exact hunderway
  | creatorPid => exact ⟨hunderway, rfl⟩
  | magic => exact ⟨rfl, hunderway⟩
  | _ => trivial

/-- Alone, a process that is on its way comes nearer to its end by each step. -/
theorem OnWay.step (h : s.OnWay p pid) : (s.step p side (.opener (.step pid))).OnWay p pid ∧
    ((s.step p side (.opener (.step pid))).openers.procs pid).pc.left ≤
      (s.openers.procs pid).pc.left - 1 := by
  have hlive := h.live
  have hunderway := h.underway
  have hgoes : ∀ {w : Openers} {proc : Process} {n : Nat}, w.Live pid →
      proc.alive = (w.procs pid).alive →
      Underway p {s with openers := w.set pid proc} pid proc.pc → proc.pc.left ≤ n →
      OnWay p {s with openers := w.set pid proc} pid ∧
        ((w.set pid proc).procs pid).pc.left ≤ n := by
    intro w proc n hlive halive hnext hleft
    obtain ⟨hway, hpc⟩ := onWay_set (s := {s with openers := w.set pid proc}) rfl hlive
      halive hnext
    exact ⟨hway, hpc ▸ hleft⟩
  cases hpc : (s.openers.procs pid).pc with
  | init st =>
    obtain ⟨hway, hnext⟩ := h.init side hpc
    refine ⟨hway, ?_⟩
    rw [hnext]
    cases st <;> decide
  | create =>
    rw [hpc] at hunderway
    rw [step_other hlive hpc (by simp), Openers.access]
    split
    · next hpresent =>
      exact hgoes hlive rfl ((hunderway hpresent).of_set rfl) (by simp [OpenPc.left])
    · exact hgoes (w := {s.openers with present := true}) hlive rfl trivial
        (by simp [OpenPc.left])
  | truncate =>
    rw [step_other hlive hpc (by simp), Openers.access]
    exact hgoes (w := {s.openers with sized := true}) hlive rfl trivial (by simp [OpenPc.left])
  | loadMagic =>
    rw [hpc] at hunderway
    have hready : s.Ready p pid := hunderway
    rw [step_other hlive hpc (by simp), Openers.access, if_neg (by simp [hready.sized]),
      if_pos hready.published]
    exact hgoes hlive rfl (hready.of_set rfl) (by simp [OpenPc.left])
  | poll =>
    rw [hpc] at hunderway
    exact hunderway.elim
  | compare =>
    rw [hpc] at hunderway
    have hready : s.Ready p pid := hunderway
    obtain ⟨hversion, hslot, hcapacity⟩ := hready.compatible
    rw [step_other hlive hpc (by simp), Openers.access,
      if_neg (by simp [hversion, hslot, hcapacity])]
    exact hgoes hlive rfl (hready.of_set rfl) (by simp [OpenPc.left])
  | readPid =>
    rw [hpc] at hunderway
    have hready : s.Ready p pid := hunderway
    rw [step_other hlive hpc (by simp), Openers.access]
    exact hgoes hlive rfl ⟨hready.of_set rfl, rfl⟩ (by simp [OpenPc.left])
  | checkAlive owner =>
    rw [hpc] at hunderway
    obtain ⟨hready, howner⟩ := hunderway
    rw [step_other hlive hpc (by simp), Openers.access]
    split
    · exact hgoes hlive rfl hready.published (by simp [OpenPc.left])
    · -- Dead is whom the opener has not found dead only if it is itself.
      next hnot =>
      refine hgoes hlive rfl ⟨rfl, ?_⟩ (by simp [OpenPc.left])
      rw [howner] at hnot
      rcases hready.inheritable with hgone | hself
      · exact absurd ⟨fun heq => hgone.not_live (heq ▸ hlive), hgone⟩ hnot
      · exact ⟨hself.2, hself.1⟩
  | compareExchange owner =>
    rw [hpc] at hunderway
    have hmagic : s.openers.hdr.magic = kShmRingMagic := hunderway
    rw [step_other hlive hpc (by simp), Openers.access, if_pos hmagic]
    exact hgoes (w := {s.openers with hdr := {s.openers.hdr with magic := 0}}) hlive rfl trivial
      (by simp [OpenPc.left])
  | returned ok =>
    rw [step_other hlive hpc (by simp), Openers.access]
    exact ⟨h, by simp [hpc, OpenPc.left]⟩

/-- It waits for nobody, so no deadline passes. -/
theorem OnWay.timeout (h : s.OnWay p pid) : s.step p side (.opener (.timeout pid)) = s := by
  have hunderway := h.underway
  have hstored : s.openers.storing (.timeout pid) = none := rfl
  rw [Shared.step, hstored, Openers.step, if_neg]
  · rfl
  · intro hcond
    rw [hcond.2] at hunderway
    exact hunderway

theorem OnWay.event (h : s.OnWay p pid) {e : OpenEvent} (he : e.By pid) :
    (s.step p side (.opener e)).OnWay p pid ∧
      ((s.step p side (.opener e)).openers.procs pid).pc.left ≤
        (s.openers.procs pid).pc.left - if e == .step pid then 1 else 0 := by
  cases e with
  | crash q => exact he.elim
  | timeout q =>
    cases he
    rw [h.timeout]
    exact ⟨h, Nat.le_refl _⟩
  | step q =>
    cases he
    rw [if_pos (beq_self_eq_true _)]
    exact h.step

theorem OnWay.recovered (h : s.OnWay p pid) (hleft : (s.openers.procs pid).pc.left = 0) :
    s.Recovered pid := by
  have hunderway := h.underway
  cases hpc : (s.openers.procs pid).pc with
  | returned ok =>
    rw [hpc] at hunderway
    exact ⟨hpc.trans (by rw [hunderway.1]), hunderway.2⟩
  | init st =>
    rw [hpc] at hleft
    cases st <;> cases hleft
  | _ =>
    rw [hpc] at hleft
    cases hleft

theorem OnWay.recovers (h : s.OnWay p pid) : Recovers p side s pid := by
  refine ⟨(s.openers.procs pid).pc.left, fun events hby hn => ?_⟩
  have hway := foldl_invariant (fun s => s.OnWay p pid) (OpenEvent.By pid)
    (fun s e => s.step p side (.opener e)) (fun s e hs he => (hs.event he).1) events s h hby
  have hleft := foldl_rank (fun s => s.OnWay p pid) (OpenEvent.By pid)
    (fun s => (s.openers.procs pid).pc.left) (· == .step pid)
    (fun s e => s.step p side (.opener e)) (fun s e hs he => (hs.event he).1)
    (fun s e hs he => (hs.event he).2) events s h hby
  refine hway.recovered (Nat.le_zero.mp (hleft.trans_eq ?_))
  exact Nat.sub_eq_zero_of_le hn

/-! ### The opener does not get through -/

/-- Where a process is that waits, or has given up. It gets beyond `magic` only if the
segment is published. -/
def Waiting (s : Shared) : OpenPc → Prop
  | .truncate => False
  | .init _ => False
  | .compareExchange _ => False
  | .checkAlive owner => s.openers.hdr.magic = kShmRingMagic ∧ owner = s.openers.hdr.creatorPid
  | .create => True
  | .loadMagic => True
  | .poll => True
  | .returned false => True
  | _ => s.openers.hdr.magic = kShmRingMagic

structure Refused (s : Shared) (pid : Nat) : Prop where
  present : s.openers.present = true
  sized : s.openers.hdr.magic = kShmRingMagic → s.openers.sized = true
  refused : s.openers.hdr.magic = kShmRingMagic → ¬ s.Inheritable pid
  waiting : s.Waiting (s.openers.procs pid).pc

theorem Refused.goto (h : s.Refused pid) {pc : OpenPc} (hpc : s.Waiting pc) :
    Refused {s with openers := s.openers.goto pid pc} pid where
  present := h.present
  sized := h.sized
  refused := fun hmagic hinherit =>
    h.refused hmagic (hinherit.imp_left Openers.goto_gone.mp)
  waiting := by
    show Waiting _ ((s.openers.goto pid pc).procs pid).pc
    rw [Openers.goto_pc, if_pos rfl]
    exact hpc

theorem Refused.step (h : s.Refused pid) : (s.step p side (.opener (.step pid))).Refused pid := by
  have hwaiting := h.waiting
  by_cases hlive : s.openers.Live pid
  · cases hpc : (s.openers.procs pid).pc with
    | create =>
      rw [step_other hlive hpc (by simp), Openers.access, if_pos h.present]
      exact h.goto trivial
    | loadMagic =>
      rw [step_other hlive hpc (by simp), Openers.access]
      split
      · next hsized =>
        have hmagic : s.openers.hdr.magic ≠ kShmRingMagic := fun hmagic =>
          absurd (hsized.symm.trans (h.sized hmagic)) (by decide)
        refine ⟨h.present, h.sized, fun h' => absurd h' hmagic, ?_⟩
        show Waiting _ ((s.openers.die pid).procs pid).pc
        rw [Openers.die_pc]
        exact hwaiting
      · split
        · next hmagic => exact h.goto hmagic
        · exact h.goto trivial
    | poll =>
      rw [step_other hlive hpc (by simp), Openers.access]
      exact h.goto trivial
    | compare =>
      rw [hpc] at hwaiting
      rw [step_other hlive hpc (by simp), Openers.access]
      split
      · exact h.goto trivial
      · exact h.goto hwaiting
    | readPid =>
      rw [hpc] at hwaiting
      rw [step_other hlive hpc (by simp), Openers.access]
      exact h.goto ⟨hwaiting, rfl⟩
    | checkAlive owner =>
      rw [hpc] at hwaiting
      obtain ⟨hmagic, howner⟩ := hwaiting
      rw [step_other hlive hpc (by simp), Openers.access, if_neg]
      · exact h.goto hmagic
      · exact fun hcond => h.refused hmagic (Or.inl (howner ▸ hcond.2))
    | returned ok =>
      rw [step_other hlive hpc (by simp), Openers.access]
      exact h
    | _ =>
      rw [hpc] at hwaiting
      exact hwaiting.elim
  · have hstored : s.openers.storing (.step pid) = none := by
      simp only [Openers.storing, if_neg hlive]
      split <;> rfl
    rw [Shared.step, hstored, Openers.step, if_neg hlive]
    exact h

theorem Refused.timeout (h : s.Refused pid) :
    (s.step p side (.opener (.timeout pid))).Refused pid := by
  have hstored : s.openers.storing (.timeout pid) = none := rfl
  rw [Shared.step, hstored, Openers.step]
  split
  · exact h.goto trivial
  · exact h

theorem Refused.not_recovered (h : s.Refused pid) : ¬ s.Recovered pid := by
  intro ⟨hpc, hempty, hcreator⟩
  have hwaiting := h.waiting
  rw [hpc] at hwaiting
  exact h.refused hwaiting (Or.inr ⟨hcreator, hempty⟩)

theorem Refused.not_recovers (h : s.Refused pid) : ¬ Recovers p side s pid := by
  intro ⟨n, hall⟩
  have hby : ∀ e ∈ List.replicate n (OpenEvent.step pid), e.By pid := fun e he => by
    rw [List.eq_of_mem_replicate he]
    exact rfl
  refine Refused.not_recovered ?_ (hall (List.replicate n (.step pid)) hby (by simp))
  refine foldl_invariant (fun s => s.Refused pid) (OpenEvent.By pid)
    (fun s e => s.step p side (.opener e)) (fun s e hs he => ?_) _ s h hby
  cases e with
  | crash q => exact he.elim
  | timeout q =>
    cases he
    exact hs.timeout
  | step q =>
    cases he
    exact hs.step

end

/-- **A crash is recovered from** exactly where it left no segment, or one that has been
published: whatever steps of how many openers came before, and whatever was in the ring,
the process that opens it next, alone, gets an empty ring that it is the creator of.
Besides, no other process may have come by the pid of the creator that died. -/
theorem crash_recovered_iff (p : Params) (side : Side) {w : Openers} (hleft : Openers.Leaves p w)
    (alive : Nat → Bool) (ring : State) (resetting : Bool) (pid : Nat) (hpid : pid ≠ 0)
    (halive : alive pid = true) :
    Recovers p side ⟨w.later alive, ring, resetting⟩ pid ↔
      Recoverable ⟨w.later alive, ring, resetting⟩ pid := by
  have hformed := hleft.formed
  constructor
  · intro hrecovers
    by_contra hnot
    obtain ⟨hpresent, hnot⟩ := Classical.not_imp.mp hnot
    refine Refused.not_recovers ⟨hpresent, fun hmagic => (hformed.published hmagic).1,
      fun hmagic hinherit => hnot ⟨hmagic, hinherit⟩, trivial⟩ hrecovers
  · intro hrecoverable
    refine OnWay.recovers ⟨⟨hpid, halive⟩, fun hpresent => ?_⟩
    obtain ⟨hmagic, hinherit⟩ := hrecoverable hpresent
    exact ⟨(hformed.published hmagic).1, hmagic, (hformed.published hmagic).2, hinherit⟩

/-! Processes 1 and 2 are killed, and the third opens. -/

theorem leaves_foldl (p : Params) (events : List OpenEvent) :
    Openers.Leaves p (events.foldl (Openers.step p) {}) :=
  foldl_invariant (Openers.Leaves p) (fun _ => True) _ (fun _ e h _ => h.step e) events _ .empty
    fun _ _ => trivial

/-- The later processes, with the ring as `events` and the calls of its users left it. -/
def after (events : List OpenEvent) (ring : State) : Shared :=
  {openers := (events.foldl (Openers.step four) {}).later (· == third), ring := ring}

/-- Two messages are in the ring when its creator dies. -/
theorem crash_recovered_published : Recovers four .producer
    (after (Openers.opens 1 ++ [.crash 1]) {fresh blank with seg := ⟨0, 2, blank⟩}) third :=
  (crash_recovered_iff four .producer (leaves_foldl four _) (· == third) _ false third (by decide)
    (by decide)).mpr fun _ => ⟨by decide, Or.inl (by decide)⟩

/-- A creator before `ftruncate`, one before its last store, and a thief after its
compare-exchange. -/
def killed : List (List OpenEvent) :=
  [[.step 1, .crash 1],
    List.replicate 8 (.step 1) ++ [.crash 1],
    Openers.opens 1 ++ [.crash 1] ++ List.replicate 6 (.step 2) ++ [.crash 2]]

/-- None of them is recovered from. -/
theorem killed_not_recovered :
    killed.Forall fun events =>
      Openers.Leaves four (events.foldl (Openers.step four) {}) ∧
        ¬ Recovers four .producer (after events (fresh blank)) third := by
  have hall : ∀ events ∈ killed, (after events (fresh blank)).openers.present = true ∧
      (after events (fresh blank)).openers.hdr.magic ≠ kShmRingMagic := by
    decide +kernel
  refine List.forall_iff_forall_mem.mpr fun events hevents => ?_
  obtain ⟨hpresent, hmagic⟩ := hall events hevents
  exact ⟨leaves_foldl four events, Refused.not_recovers ⟨hpresent, fun h => absurd h hmagic,
    fun h => absurd h hmagic, trivial⟩⟩

end Shared

end Relink.Shm
