import Relink.Shm.Fifo
import Relink.Shm.Open

/-! A steal of a ring in use.

The creator of a ring is one of its two sides. When it dies, another process that opens
the name initializes the segment anew and takes its side; the other side stays attached
and is told nothing. `init_as_creator` stores `head` and `tail` one after the other, with
whatever call of the attached side is running. -/
namespace Relink.Shm
open Transition
open Wire (Bytes)

inductive Side where
  | producer
  | consumer
deriving DecidableEq

def Act.side : Act → Side
  | .push _ => .producer
  | .producer => .producer
  | .pop _ => .consumer
  | .consumer => .consumer

/-- Who opens the name, and the ring they share. `resetting` is set between the two index
stores of `init_as_creator`; what has gone through is counted from the second. -/
structure Shared where
  openers : Openers
  ring : State
  resetting : Bool := false

inductive SharedEvent where
  /-- A call on the ring, or its next access. -/
  | act (pid : Nat) (act : Act)
  | opener (e : OpenEvent)
deriving DecidableEq

/-- The process that stays attached. -/
def attached : Nat := 2

/-- The process that opens the name after the crash. -/
def third : Nat := 3

/-- Process 1 has created the ring on one side, and `attached` has opened the other. -/
def Openers.pair (p : Params) : Openers where
  present := true
  sized := true
  hdr := ⟨kShmRingMagic, kShmRingVersion, p.slotSize, p.capacity, 1⟩
  procs := fun pid =>
    if pid = 1 then ⟨.returned true, true, true⟩
    else if pid = attached then ⟨.returned true, false, true⟩
    else {}

def paired (p : Params) (slots : Bytes) : Shared := {openers := .pair p, ring := fresh slots}

/-- After the second store nothing is in the ring. The side of the creator is the new
creator's, which has no call running. -/
def renew (side : Side) (s : State) : State where
  seg := {s.seg with tail := 0}
  push := if side = .producer then .idle else s.push
  pop := if side = .consumer then .idle else s.pop

/-- Past its check for messages. -/
def PopPc.found : PopPc → Bool
  | .idle => false
  | .loadTail _ _ => false
  | _ => true

namespace Shared

/-- A live process whose `open` has returned true acts on its side: a creator on `side`,
and the attached process on the other. -/
def Acting (side : Side) (s : Shared) (pid : Nat) (act : Act) : Prop :=
  s.openers.Live pid ∧ (s.openers.procs pid).pc = .returned true ∧
    if act.side = side then (s.openers.procs pid).creator = true else pid = attached

instance (side : Side) (s : Shared) (pid : Nat) (act : Act) : Decidable (s.Acting side pid act) :=
  inferInstanceAs (Decidable (_ ∧ _ ∧ _))

/-- The openers after an event, and what the store in it does to the ring. -/
def opened (side : Side) (s : Shared) (w : Openers) : Option Store → Shared
  | some .head => ⟨w, {s.ring with seg := {s.ring.seg with head := 0}}, true⟩
  | some .tail => ⟨w, renew side s.ring, false⟩
  | _ => {s with openers := w}

def step (p : Params) (side : Side) (s : Shared) : SharedEvent → Shared
  | .act pid act => if s.Acting side pid act then {s with ring := Shm.step p s.ring act} else s
  | .opener e => s.opened side (s.openers.step p e) (s.openers.storing e)

/-! ### Uncorrupted messages, and calls that no reset overtakes -/

/-- Outside a reset the indices delimit exactly what was pushed and not yet popped since
the last one, and what was popped are the oldest pushed, each once. -/
structure Uncorrupted (p : Params) (s : Shared) : Prop where
  delimited : s.resetting = false → Intact p True True s.ring
  popped : s.ring.delivered <+: s.ring.accepted
  released : s.ring.released ≤ s.ring.delivered.length ∧
    s.ring.delivered.length ≤ s.ring.released + 1

/-- No call goes on with an index that a reset has replaced. A push stores `tail` over the
value it loaded; a pop that finds messages is at the oldest; and when the reset ends, no
pop of the attached side has found messages or has stored `head` since the reset began. -/
def Undisturbed (p : Params) (side : Side) (s : Shared) : SharedEvent → Prop
  | .act pid act => s.Acting side pid act →
    match act with
    | .producer => TailCurrent s.ring
    | .consumer => HeadCurrent p s.ring
    | _ => True
  | .opener e => s.openers.storing e = some .tail → side = .producer →
    s.ring.seg.head = 0 ∧ s.ring.pop.found = false

instance (p : Params) (side : Side) (s : Shared) (e : SharedEvent) :
    Decidable (s.Undisturbed p side e) :=
  match e with
  | .act pid .producer => inferInstanceAs (Decidable (s.Acting side pid .producer → _))
  | .act pid .consumer => inferInstanceAs (Decidable (s.Acting side pid .consumer → _))
  | .act pid (.push m) => inferInstanceAs (Decidable (s.Acting side pid (.push m) → True))
  | .act pid (.pop kind) => inferInstanceAs (Decidable (s.Acting side pid (.pop kind) → True))
  | .opener e => inferInstanceAs (Decidable (s.openers.storing e = some .tail → _ → _))

end Shared

/-- Any process may die, and only `third` opens. -/
def SharedEvent.ByThird : SharedEvent → Prop
  | .act _ _ => True
  | .opener (.step pid) => pid = third
  | .opener (.timeout pid) => pid = third
  | .opener (.crash _) => True

instance : DecidablePred SharedEvent.ByThird := fun e =>
  match e with
  | .act _ _ => .isTrue trivial
  | .opener (.step pid) => inferInstanceAs (Decidable (pid = third))
  | .opener (.timeout pid) => inferInstanceAs (Decidable (pid = third))
  | .opener (.crash _) => .isTrue trivial

/-! ### The first two processes -/

namespace Openers
variable {p : Params}

theorem pair_pc {pc : OpenPc} (hcreate : pc ≠ .create) (hreturned : pc ≠ .returned true) (q : Nat) :
    ((pair p).procs q).pc ≠ pc := by
  simp only [pair]
  split
  · exact hreturned.symm
  · split
    · exact hreturned.symm
    · exact hcreate.symm

theorem pair_initing (q : Nat) : ((pair p).procs q).pc.initing ≠ true := by
  simp only [pair]
  split
  · simp
  · split <;> simp

theorem pair_creator (q : Nat) : ((pair p).procs q).creator = true ↔ q = 1 := by
  simp only [pair]
  split
  · next h => simp only [h]
  · next h =>
    split <;> simp only [h, Bool.false_eq_true]

theorem inv_pair : (pair p).Inv where
  unused := fun h => nomatch h
  initing := fun q hpc => absurd hpc (pair_initing q)
  creator := fun q hq => Or.inr (by rw [(pair_creator q).mp hq]; rfl)
  one := fun q r _ _ hq hr => ((pair_creator q).mp hq).trans ((pair_creator r).mp hr).symm
  published := fun _ => ⟨rfl, fun q _ hq => (pair_creator q).mp hq⟩
  unpublished := fun q _ hpc => absurd hpc (pair_initing q)
  checked := fun q owner hpc => absurd hpc (pair_pc (by simp) (by simp) q)

/-- The creator that a thief has checked is still the one that is recorded. -/
structure Lone (w : Openers) : Prop where
  others : ∀ q owner, (w.procs q).pc = .compareExchange owner → q = third
  checked : ∀ owner, (w.procs third).pc = .checkAlive owner ∨
    (w.procs third).pc = .compareExchange owner → w.hdr.creatorPid = owner

section
variable {w : Openers}

theorem lone_goto (hothers : ∀ q owner, (w.procs q).pc = .compareExchange owner → q = third)
    {pc : OpenPc} (hchecked : ∀ owner, pc = .checkAlive owner ∨ pc = .compareExchange owner →
      w.hdr.creatorPid = owner) : (w.goto third pc).Lone where
  others := fun q owner hq => by
    rw [goto_pc] at hq
    split at hq
    · next heq => exact heq
    · exact hothers q owner hq
  checked := fun owner hq => by
    rw [goto_pc, if_pos rfl] at hq
    exact hchecked owner hq

theorem lone_claim (hothers : ∀ q owner, (w.procs q).pc = .compareExchange owner → q = third)
    (pc : OpenPc) (hinit : pc.initing = true) : (w.claim third pc).Lone where
  others := fun q owner hq => by
    rw [claim_pc] at hq
    split at hq
    · next heq => exact heq
    · exact hothers q owner hq
  checked := fun owner hq => by
    rw [claim_pc, if_pos rfl] at hq
    rcases hq with hq | hq
    · rw [hq] at hinit
      cases hinit
    · rw [hq] at hinit
      cases hinit

theorem Lone.die (h : w.Lone) (pid : Nat) : (w.die pid).Lone where
  others := fun q owner hq => h.others q owner (die_pc.symm.trans hq)
  checked := fun owner hq => h.checked owner (hq.imp die_pc.symm.trans die_pc.symm.trans)

theorem Lone.access (h : w.Lone) {pc : OpenPc} (hpc : (w.procs third).pc = pc) :
    (w.access p third pc).Lone := by
  have hchecked := h.checked
  rw [hpc] at hchecked
  cases pc with
  | create =>
    simp only [Openers.access]
    split
    · exact lone_goto h.others (by simp)
    · exact lone_claim (w := {w with present := true}) h.others .truncate rfl
  | truncate => exact lone_goto (w := {w with sized := true}) h.others (by simp)
  | init st =>
    refine lone_goto (w := {w with hdr := w.hdr.store p third st}) h.others fun owner heq => ?_
    rcases heq with heq | heq
    · cases st <;> cases heq
    · cases st <;> cases heq
  | loadMagic =>
    simp only [Openers.access]
    split
    · exact h.die third
    · split <;> exact lone_goto h.others (by simp)
  | poll => exact lone_goto h.others (by simp)
  | compare =>
    simp only [Openers.access]
    split <;> exact lone_goto h.others (by simp)
  | readPid => exact lone_goto h.others (by simp)
  | checkAlive owner =>
    simp only [Openers.access]
    split
    · refine lone_goto h.others fun owner' heq => hchecked owner' (Or.inl ?_)
      simpa using heq
    · exact lone_goto h.others (by simp)
  | compareExchange owner =>
    simp only [Openers.access]
    split
    · exact lone_claim (w := {w with hdr := {w.hdr with magic := 0}}) h.others (.init .version) rfl
    · exact lone_goto h.others (by simp)
  | returned ok => exact h

theorem Lone.step (h : w.Lone) {e : OpenEvent} (he : (SharedEvent.opener e).ByThird) :
    (w.step p e).Lone := by
  cases e with
  | crash pid => exact h.die pid
  | timeout pid =>
    cases he
    simp only [Openers.step]
    split
    · exact lone_goto h.others (by simp)
    · exact h
  | step pid =>
    cases he
    simp only [Openers.step]
    split
    · exact h.access rfl
    · exact h

theorem Lone.stillStale (h : w.Lone) (e : OpenEvent) : w.StillStale e := by
  intro pid owner _ _ hpc _ hne
  cases h.others pid owner hpc
  exact absurd (h.checked owner (Or.inr hpc)) hne

theorem lone_pair : (pair p).Lone :=
  ⟨fun q owner hpc => absurd hpc (pair_pc (by simp) (by simp) q),
    fun owner hpc => (hpc.elim (pair_pc (by simp) (by simp) third)
      (pair_pc (by simp) (by simp) third)).elim⟩

end

end Openers

/-! ### The reset -/

section
variable {p : Params} {H K H' K' : Prop} {s : State} {side : Side}

/-- From the store of `head` on, the index says nothing. -/
theorem Inv.resetHead (h : Inv p H K s) (hH : ¬ H') (hK : K' → K) :
    Inv p H' K' {s with seg := {s.seg with head := 0}} where
  intact := ⟨h.intact.tail, fun h' => absurd h' hH, p.capacity_pos, h.intact.le, h.intact.size,
    h.intact.fits, fun h' => ⟨(h.intact.kept (hK h')).lt, (h.intact.kept (hK h')).held⟩⟩
  push := h.push.imp rfl rfl (fun _ h' => h') fun _ _ hv =>
    ⟨hv.lt, hv.two, hv.fits, hv.current, fun h' => absurd h' hH⟩
  pop := h.pop

/-- The store of `tail` ends the reset, if nothing has moved `head` and no pop goes on. A
push that goes on has a slot, though perhaps not the first. -/
theorem Inv.renew (h : Inv p H K s) (hhead : s.seg.head = 0)
    (hfound : side = .producer → s.pop.found = false) : Inv p H' K' (renew side s) where
  intact := ⟨(Nat.zero_mod _).symm, fun _ => hhead.trans (Nat.zero_mod _).symm, h.intact.head_lt,
    le_refl _, h.intact.size, fun _ hm => absurd hm List.not_mem_nil,
    fun _ => ⟨(Nat.zero_add _).symm ▸ p.capacity_pos, fun _ _ _ hm => nomatch hm⟩⟩
  push := by
    cases side with
    | producer => trivial
    | consumer =>
      refine h.push.imp rfl rfl (fun _ _ => Or.inr rfl) fun _ _ hv =>
        ⟨hv.lt, hv.two, hv.fits, Or.inr rfl, fun _ _ => ?_⟩
      have htwo := hv.two
      show 0 + 1 < 0 + p.capacity
      omega
  pop := by
    cases side with
    | consumer => exact rfl
    | producer =>
      have hidle := hfound rfl
      show PopInv p {Shm.renew .producer s with pop := s.pop}
      unfold PopInv
      cases hpc : s.pop with
      | idle | loadTail kind head => exact rfl
      | _ =>
        rw [hpc] at hidle
        cases hidle

/-- The producer's accesses leave `head` alone. -/
theorem step_head (act : Act) (hside : act.side = .producer) :
    (Shm.step p s act).seg.head = s.seg.head := by
  cases act with
  | push m =>
    unfold Shm.step startPush
    cases s.push with
    | idle =>
      simp only
      split <;> rfl
    | _ => rfl
  | producer =>
    unfold Shm.step producerStep
    cases s.push with
    | loadHead m tail =>
      simp only
      split <;> rfl
    | _ => rfl
  | pop kind => cases hside
  | consumer => cases hside

end

/-! ### Steps -/

namespace Shared

/-- Nothing is published, and a live creator is at its second index store. -/
def MidReset (w : Openers) : Prop :=
  w.hdr.magic ≠ kShmRingMagic ∧
    ∀ q, w.Live q → (w.procs q).creator = true → (w.procs q).pc = .init .tail

structure Inv (p : Params) (side : Side) (s : Shared) : Prop where
  openers : s.openers.Inv
  present : s.openers.present = true
  /-- A dead producer leaves its messages to the consumer; a dead consumer leaves nobody
  to read them. -/
  ring : Shm.Inv p (s.resetting = false) (s.resetting = false ∨ side = .producer) s.ring
  midReset : s.resetting = true → MidReset s.openers
  resetting : ∀ q, s.openers.Live q → (s.openers.procs q).pc = .init .tail → s.resetting = true
  head : s.resetting = true → side = .consumer → s.ring.seg.head = 0

section
variable {p : Params} {side : Side} {s : Shared}

/-- No creator acts on the ring during a reset. -/
theorem Inv.not_resetting (h : s.Inv p side) {pid : Nat} {act : Act}
    (hacting : s.Acting side pid act) (hside : act.side = side) : s.resetting = false := by
  obtain ⟨hlive, hpc, hrole⟩ := hacting
  rw [if_pos hside] at hrole
  cases hr : s.resetting with
  | false => rfl
  | true => exact absurd (hpc.symm.trans ((h.midReset hr).2 pid hlive hrole)) (by decide)

theorem Inv.act (h : s.Inv p side) {pid : Nat} {act : Act}
    (hundisturbed : s.Undisturbed p side (.act pid act)) :
    (s.step p side (.act pid act)).Inv p side := by
  simp only [Shared.step]
  split
  · next hacting =>
    have hcreator := h.not_resetting hacting
    have hring : Shm.Inv p (s.resetting = false) (s.resetting = false ∨ side = .producer)
        (Shm.step p s.ring act) := by
      cases act with
      | push m => exact h.ring.startPush m
      | producer =>
        refine h.ring.producerStep ⟨Or.inl, fun h' => ?_⟩ (hundisturbed hacting)
        exact h'.elim id fun hside => hcreator hside.symm
      | pop kind => exact h.ring.startPop kind
      | consumer =>
        refine h.ring.consumerStep ?_ (hundisturbed hacting)
        cases side with
        | producer => exact Or.inr rfl
        | consumer => exact Or.inl (hcreator rfl)
    refine ⟨h.openers, h.present, hring, h.midReset, h.resetting, fun hr hside => ?_⟩
    have hproducer : act.side = .producer := by
      cases hact : act.side with
      | producer => rfl
      | consumer => exact absurd ((hcreator (hact.trans hside.symm)).symm.trans hr) (by decide)
    exact (step_head act hproducer).trans (h.head hr hside)
  · exact h

/-- The ring is not concerned in what the openers do else. -/
theorem Inv.of_openers (h : s.Inv p side) {w : Openers} (hinv : w.Inv) (hpresent : w.present = true)
    (hmid : s.resetting = true → MidReset w)
    (hresetting : ∀ q, w.Live q → (w.procs q).pc = .init .tail → s.resetting = true) :
    Inv p side {s with openers := w} :=
  ⟨hinv, hpresent, h.ring, hmid, hresetting, h.head⟩

/-- A store of `init_as_creator`, of which those of the indices reach the ring. -/
theorem Inv.stores (h : s.Inv p side) {pid : Nat} {st : Store} (hlive : s.openers.Live pid)
    (hpc : (s.openers.procs pid).pc = .init st)
    (hreset : st = .tail → side = .producer → s.ring.seg.head = 0 ∧ s.ring.pop.found = false)
    {w : Openers} (hw : w = {s.openers with
      hdr := s.openers.hdr.store p pid st}.goto pid st.next) (hinv : w.Inv) :
    Inv p side (s.opened side w (some st)) := by
  have hinit : (s.openers.procs pid).pc.initing = true := by rw [hpc]; rfl
  have hcreator := h.openers.initing pid hinit
  have honly : ∀ q, s.openers.Live q → (s.openers.procs q).creator = true → q = pid :=
    fun q hq hc => h.openers.one q pid hq hlive hc hcreator
  have hpresent : w.present = true := hw ▸ h.present
  -- Who is at the second index store has just made the first.
  have hhead : ∀ q, w.Live q → (w.procs q).pc = .init .tail → st = .head := by
    intro q hq hq'
    subst hw
    rw [Openers.goto_live] at hq
    rw [Openers.goto_pc] at hq'
    split at hq'
    · cases st with
      | head => rfl
      | _ => cases hq'
    · next hne => exact absurd (honly q hq (h.openers.initing q (by rw [hq']; rfl))) hne
  have hmid : st = .head → MidReset w := by
    intro hst
    subst hst hw
    refine ⟨(h.openers.unpublished pid hlive hinit).1, fun q hq hc => ?_⟩
    rw [Openers.goto_live] at hq
    rw [Openers.goto_creator] at hc
    rw [Openers.goto_pc, if_pos (honly q hq hc)]
    rfl
  have hother : st ≠ .head → st ≠ .tail → Inv p side {s with openers := w} := by
    intro hne hne'
    have hr : s.resetting = true → False := fun hr => by
      have htail := (h.midReset hr).2 pid hlive hcreator
      exact hne' (OpenPc.init.inj (hpc.symm.trans htail))
    exact h.of_openers hinv hpresent (fun h' => (hr h').elim)
      fun q hq hq' => absurd (hhead q hq hq') hne
  cases st with
  | head =>
    refine ⟨hinv, hpresent, h.ring.resetHead (fun h' => nomatch h') fun h' => ?_, fun _ => ?_,
      fun _ _ _ => rfl, fun _ _ => rfl⟩
    · exact Or.inr (h'.resolve_left fun h' => nomatch h')
    · exact hmid rfl
  | tail =>
    have hr := h.resetting pid hlive hpc
    refine ⟨hinv, hpresent, h.ring.renew ?_ fun hside => (hreset rfl hside).2,
      fun h' => (nomatch h'), fun q hq hq' => (nomatch hhead q hq hq'), fun h' => (nomatch h')⟩
    cases side with
    | producer => exact (hreset rfl rfl).1
    | consumer => exact h.head hr rfl
  | _ => exact hother (by decide) (by decide)

theorem Inv.opener (h : s.Inv p side) {e : OpenEvent} (hstale : s.openers.StillStale e)
    (hundisturbed : s.Undisturbed p side (.opener e)) :
    (s.step p side (.opener e)).Inv p side := by
  have hinv := h.openers.step (p := p) hstale
  have hmove := h.openers.move (p := p) e
  have hreset : s.openers.storing e = some .tail → side = .producer →
    s.ring.seg.head = 0 ∧ s.ring.pop.found = false := hundisturbed
  simp only [Shared.step]
  generalize s.openers.step p e = w, s.openers.storing e = stored at *
  cases hmove with
  | stays => exact h.of_openers hinv h.present h.midReset h.resetting
  | goes hpresent hcreator hinit hchecked =>
    refine h.of_openers hinv hpresent (fun hr => ⟨(h.midReset hr).1, fun q hq hc => ?_⟩)
      fun q hq hpc => ?_
    · rw [Openers.goto_live] at hq
      rw [Openers.goto_creator] at hc
      rw [Openers.goto_pc, if_neg fun heq => ?_]
      · exact (h.midReset hr).2 q hq hc
      · rw [heq, hcreator] at hc
        cases hc
    · rw [Openers.goto_live] at hq
      rw [Openers.goto_pc] at hpc
      split at hpc
      · rw [hpc] at hinit
        cases hinit
      · exact h.resetting q hq hpc
  | creates hpresent => exact absurd (h.present.symm.trans hpresent) (by decide)
  | @truncates pid hlive hpc =>
    have hcreator := h.openers.initing pid (by rw [hpc]; rfl)
    refine h.of_openers hinv h.present (fun hr => ?_) fun q hq hpc' => ?_
    · exact absurd (hpc.symm.trans ((h.midReset hr).2 pid hlive hcreator)) (by decide)
    · rw [Openers.goto_live] at hq
      rw [Openers.goto_pc] at hpc'
      split at hpc'
      · cases hpc'
      · exact h.resetting q hq hpc'
  | claims he hlive hpc hmagic =>
    refine h.of_openers hinv h.present (fun hr => absurd hmagic (h.midReset hr).1) fun q hq hpc' => ?_
    rw [Openers.claim_live] at hq
    rw [Openers.claim_pc] at hpc'
    split at hpc'
    · cases hpc'
    · exact h.resetting q hq hpc'
  | stores hlive hpc => exact h.stores hlive hpc (fun heq => hreset (heq ▸ rfl)) rfl hinv
  | crashes =>
    refine h.of_openers hinv h.present (fun hr => ⟨(h.midReset hr).1, fun q hq hc => ?_⟩)
      fun q hq hpc => ?_
    · rw [Openers.die_pc]
      exact (h.midReset hr).2 q (Openers.live_of_die hq) (Openers.die_creator.symm.trans hc)
    · exact h.resetting q (Openers.live_of_die hq) (Openers.die_pc.symm.trans hpc)

theorem Inv.uncorrupted (h : s.Inv p side) : s.Uncorrupted p where
  delimited := fun hr => by
    have hintact := h.ring.intact
    exact ⟨hintact.tail, fun _ => hintact.head hr, hintact.head_lt, hintact.le, hintact.size,
      hintact.fits, fun _ => hintact.kept (Or.inl hr)⟩
  popped := h.ring.delivered.1
  released := h.ring.delivered.2

theorem inv_paired {slots : Bytes} (hsize : slots.length = p.capacity * p.slotSize) :
    (paired p slots).Inv p side where
  openers := Openers.inv_pair
  present := rfl
  ring := inv_fresh hsize
  midReset := fun h => nomatch h
  resetting := fun q _ hpc => absurd hpc (Openers.pair_pc (by simp) (by simp) q)
  head := fun h => nomatch h

/-- What `third` and everybody's calls do to a ring keeps it, where no call is disturbed. -/
theorem Inv.step (h : s.Inv p side) (hlone : s.openers.Lone) {e : SharedEvent}
    (hundisturbed : s.Undisturbed p side e) : (s.step p side e).Inv p side := by
  cases e with
  | act pid act => exact h.act hundisturbed
  | opener e => exact h.opener (hlone.stillStale e) hundisturbed

theorem opened_openers (w : Openers) (stored : Option Store) :
    (s.opened side w stored).openers = w := by
  unfold opened
  split <;> rfl

theorem lone_step (hlone : s.openers.Lone) {e : SharedEvent} (he : e.ByThird) :
    (s.step p side e).openers.Lone := by
  cases e with
  | act pid act =>
    simp only [Shared.step]
    split
    · exact hlone
    · exact hlone
  | opener e =>
    rw [Shared.step, opened_openers]
    exact hlone.step he

end

/-- **A takeover corrupts nothing** in a run in which no call goes on with an index that the
reset has replaced: whichever side the dead creator was, and however the steps of the
attached process, of the crash and of `third` come. -/
theorem takeover_uncorrupted (p : Params) (side : Side) (slots : Bytes)
    (hsize : slots.length = p.capacity * p.slotSize) (events : List SharedEvent)
    (hthird : ∀ e ∈ events, e.ByThird)
    (hundisturbed : Throughout (step p side) (Undisturbed p side) (paired p slots) events) :
    Uncorrupted p (events.foldl (step p side) (paired p slots)) := by
  have hby : Throughout (step p side) (fun _ e => e.ByThird) (paired p slots) events :=
    Throughout.of_mem (fun e he _ => hthird e he) _
  have h := Throughout.invariant (fun s => s.Inv p side ∧ s.openers.Lone)
    (fun _ _ h hc => ⟨h.1.step h.2 hc.1, lone_step h.2 hc.2⟩)
    ⟨inv_paired hsize, Openers.lone_pair⟩ (hundisturbed.and hby)
  exact h.1.uncorrupted

/-! A ring of four slots, whose producer dies. -/

def calls (pid : Nat) (acts : List Act) : List SharedEvent := acts.map (.act pid)

def steal : List SharedEvent := .opener (.crash 1) :: (Openers.opens third).map .opener

/-- A message before the crash, and one from `third` after it. -/
def traded : List SharedEvent :=
  calls 1 (pushes ⟨1, [7]⟩) ++ calls attached (pops .copy) ++ steal ++
    calls third (pushes ⟨2, [8]⟩) ++ calls attached (pops .copy)

theorem takeover_uncorrupted_traded :
    Uncorrupted four (traded.foldl (step four .producer) (paired four blank)) :=
  takeover_uncorrupted four .producer blank (by decide) traded (by decide +kernel)
    (by decide +kernel)

/-- The second pop has found its message when the producer dies, and ends after the steal. -/
def interrupted : List SharedEvent :=
  calls 1 (pushes ⟨1, [7]⟩ ++ pushes ⟨2, [8]⟩) ++
    calls attached (pops .copy ++ [.pop .copy, .consumer]) ++ steal ++
    calls attached (List.replicate 4 .consumer ++ pops .copy)

/-- It stores `head` over the reset one, and the next pop takes a slot that was never
written for a message. -/
theorem interrupted_pop_corrupts :
    let s := interrupted.foldl (step four .producer) (paired four blank)
    (∀ e ∈ interrupted, e.ByThird) ∧ (∀ pid, .act pid (.push ⟨0, []⟩) ∉ interrupted) ∧
      s.resetting = false ∧ s.ring.accepted = [] ∧ s.ring.seg.head = 3 ∧ s.ring.seg.tail = 0 ∧
      s.ring.delivered = [⟨2, [8]⟩, ⟨0, []⟩] ∧ ¬ Uncorrupted four s := by
  refine ⟨by decide +kernel, fun pid => ?_, by decide +kernel, by decide +kernel,
    by decide +kernel, by decide +kernel, by decide +kernel, fun h => ?_⟩
  · simp [interrupted, calls, pushes, pops, steal, Openers.opens]
  · exact absurd h.popped (by decide +kernel)

end Shared

end Relink.Shm
