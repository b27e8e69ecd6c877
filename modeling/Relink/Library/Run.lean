import Mathlib.Data.List.Basic
import Mathlib.Data.List.Forall2
import Mathlib.Data.List.ReduceOption

/-! Runs of machines.

A machine is a function from a state and an input to the next state, and a run is a list
of inputs. An invariant that every step preserves holds at the end of every run from a
state that has it, and what is said of each step and its input is said `Throughout` a run.
A machine that may fault has the same rule. -/
namespace Transition
variable {S A : Type}

/-- A total machine's run is a fold. -/
theorem foldl_invariant (Inv : S → Prop) (C : A → Prop) (step : S → A → S)
    (hstep : ∀ s a, Inv s → C a → Inv (step s a)) (as : List A) (s : S) (hs : Inv s)
    (ha : ∀ a ∈ as, C a) : Inv (as.foldl step s) := by
  induction as generalizing s with
  | nil => exact hs
  | cons a rest ih =>
    exact ih (step s a) (hstep s a hs (ha a List.mem_cons_self))
      (fun b hb => ha b (List.mem_cons_of_mem a hb))

/-- What some of the inputs lower, and none raises, enough of them bring to zero. -/
theorem foldl_rank (Inv : S → Prop) (C : A → Prop) (rank : S → Nat) (counts : A → Bool)
    (step : S → A → S) (hstep : ∀ s a, Inv s → C a → Inv (step s a))
    (hle : ∀ s a, Inv s → C a → rank (step s a) ≤ rank s - if counts a then 1 else 0)
    (as : List A) (s : S) (hs : Inv s) (ha : ∀ a ∈ as, C a) :
    rank (as.foldl step s) ≤ rank s - as.countP counts := by
  induction as generalizing s with
  | nil => exact Nat.le_refl _
  | cons a rest ih =>
    have hhere := hle s a hs (ha a List.mem_cons_self)
    have hrest := ih (step s a) (hstep s a hs (ha a List.mem_cons_self))
      (fun b hb => ha b (List.mem_cons_of_mem a hb))
    rw [List.countP_cons, List.foldl_cons]
    omega

/-- A loop over distinct keys, each turn of which touches the view of its own key only:
every view changes as its own turn says, and the views of other keys stay. -/
theorem foldl_local {K V : Type} (key : A → K) (view : K → S → V) (R : A → V → V → Prop)
    (step : S → A → S) (hhere : ∀ s a, R a (view (key a) s) (view (key a) (step s a)))
    (helse : ∀ s a k, k ≠ key a → view k (step s a) = view k s) (as : List A)
    (hnodup : as.Pairwise fun a b => key a ≠ key b) (s : S) :
    (∀ a ∈ as, R a (view (key a) s) (view (key a) (as.foldl step s))) ∧
      ∀ k, (∀ a ∈ as, k ≠ key a) → view k (as.foldl step s) = view k s := by
  induction as generalizing s with
  | nil => exact ⟨fun a ha => absurd ha List.not_mem_nil, fun k _ => rfl⟩
  | cons a rest ih =>
    obtain ⟨hfresh, hrest⟩ := List.pairwise_cons.mp hnodup
    obtain ⟨hturns, hstay⟩ := ih hrest (step s a)
    refine ⟨fun b hb => ?_, fun k hk => ?_⟩
    · rcases List.mem_cons.mp hb with rfl | hb
      · show R b _ (view (key b) (rest.foldl step (step s b)))
        rw [hstay (key b) hfresh]
        exact hhere s b
      · have := hturns b hb
        rwa [helse s a (key b) (hfresh b hb).symm] at this
    · show view k (rest.foldl step (step s a)) = view k s
      rw [hstay k fun b hb => hk b (List.mem_cons_of_mem a hb)]
      exact helse s a k (hk a List.mem_cons_self)

/-- Two loops over distinct keys come to the same, if their turns do where the turn's key is still
as at the start. -/
theorem foldl_congr_local {K V : Type} (key : A → K) (view : K → S → V) (step step' : S → A → S)
    (helse : ∀ s a k, k ≠ key a → view k (step s a) = view k s) (as : List A)
    (hnodup : as.Pairwise fun a b => key a ≠ key b) (s : S)
    (hsame : ∀ t, ∀ a ∈ as, view (key a) t = view (key a) s → step t a = step' t a) :
    as.foldl step s = as.foldl step' s := by
  induction as generalizing s with
  | nil => rfl
  | cons a rest ih =>
    obtain ⟨hfresh, hrest⟩ := List.pairwise_cons.mp hnodup
    rw [List.foldl_cons, List.foldl_cons, ← hsame s a List.mem_cons_self rfl]
    refine ih hrest (step s a) fun t b hb hview => ?_
    rw [helse s a (key b) (hfresh b hb).symm] at hview
    exact hsame t b (List.mem_cons_of_mem a hb) hview

/-- What the steps of a run bring, each by the state it begins in and its input. -/
def gather {B : Type} (step : S → A → S) (brings : S → A → Option B) : S → List A → List B
  | _, [] => []
  | s, a :: rest => (brings s a).toList ++ gather step brings (step s a) rest

/-- Of every state of a run and the input taken there. -/
def Throughout (step : S → A → S) (P : S → A → Prop) : S → List A → Prop
  | _, [] => True
  | s, a :: rest => P s a ∧ Throughout step P (step s a) rest

instance (step : S → A → S) (P : S → A → Prop) [∀ s a, Decidable (P s a)] (s : S) (as : List A) :
    Decidable (Throughout step P s as) :=
  match as with
  | [] => .isTrue trivial
  | a :: rest =>
    have : Decidable (Throughout step P (step s a) rest) := instDecidableThroughout step P _ rest
    inferInstanceAs (Decidable (P s a ∧ Throughout step P (step s a) rest))

namespace Throughout
variable {step : S → A → S} {P Q C : S → A → Prop}

theorem append {s : S} {as bs : List A} :
    Throughout step P s (as ++ bs) ↔
      Throughout step P s as ∧ Throughout step P (as.foldl step s) bs := by
  induction as generalizing s with
  | nil => exact (true_and _).to_iff.symm
  | cons a rest ih =>
    rw [List.cons_append, Throughout, Throughout, ih, and_assoc]
    rfl

/-- On the runs that keep an invariant while `Q` holds, what is the same of each step is
the same of the run. -/
theorem congr (Inv : S → Prop) (hiff : ∀ s a, Inv s → C s a → (P s a ↔ Q s a))
    (hstep : ∀ s a, Inv s → C s a → Q s a → Inv (step s a)) {s : S} (hs : Inv s) {as : List A}
    (hc : Throughout step C s as) : Throughout step P s as ↔ Throughout step Q s as := by
  induction as generalizing s with
  | nil => exact Iff.rfl
  | cons a rest ih =>
    have hhere := hiff s a hs hc.1
    constructor
    · intro ⟨hp, hrest⟩
      have hq := hhere.mp hp
      exact ⟨hq, (ih (hstep s a hs hc.1 hq) hc.2).mp hrest⟩
    · intro ⟨hq, hrest⟩
      exact ⟨hhere.mpr hq, (ih (hstep s a hs hc.1 hq) hc.2).mpr hrest⟩

/-- Of the state after every part of a run and the input that follows. -/
theorem iff_prefix {s : S} {as : List A} :
    Throughout step P s as ↔ ∀ before a, before ++ [a] <+: as → P (before.foldl step s) a := by
  induction as generalizing s with
  | nil =>
    refine iff_of_true trivial fun before a hprefix => ?_
    exact absurd (List.prefix_nil.mp hprefix) (List.append_ne_nil_of_right_ne_nil before (by simp))
  | cons b rest ih =>
    rw [Throughout, ih]
    constructor
    · rintro ⟨hhere, hrest⟩ before a hprefix
      cases before with
      | nil =>
        obtain ⟨rfl, _⟩ := List.cons_prefix_cons.mp hprefix
        exact hhere
      | cons c before =>
        obtain ⟨rfl, htail⟩ := List.cons_prefix_cons.mp hprefix
        exact hrest before a htail
    · intro h
      refine ⟨h [] b (List.cons_prefix_cons.mpr ⟨rfl, List.nil_prefix⟩), fun before a hprefix => ?_⟩
      exact h (b :: before) a (List.cons_prefix_cons.mpr ⟨rfl, hprefix⟩)

/-- Of every state that a run comes to. -/
theorem of_states {Good : S → Prop} {s : S} {as : List A} :
    (∀ before, before <+: as → Good (before.foldl step s)) ↔
      Good s ∧ Throughout step (fun s a => Good (step s a)) s as := by
  rw [ iff_prefix]
  constructor
  · intro h
    refine ⟨h [] List.nil_prefix, fun before a hprefix => ?_⟩
    have := h (before ++ [a]) hprefix
    rwa [List.foldl_append] at this
  · rintro ⟨hs, h⟩ before hprefix
    rcases List.eq_nil_or_concat before with rfl | ⟨before, a, rfl⟩
    · exact hs
    · rw [List.concat_eq_append] at hprefix ⊢
      rw [List.foldl_append]
      exact h before a hprefix

theorem and {s : S} {as : List A} (hp : Throughout step P s as) (hq : Throughout step Q s as) :
    Throughout step (fun s a => P s a ∧ Q s a) s as := by
  induction as generalizing s with
  | nil => trivial
  | cons a rest ih => exact ⟨⟨hp.1, hq.1⟩, ih hp.2 hq.2⟩

theorem mono (hle : ∀ s a, P s a → Q s a) {s : S} {as : List A} (h : Throughout step P s as) :
    Throughout step Q s as := by
  induction as generalizing s with
  | nil => trivial
  | cons a rest ih => exact ⟨hle s a h.1, ih h.2⟩

/-- Of the inputs alone. -/
theorem of_mem {as : List A} (h : ∀ a ∈ as, ∀ s, P s a) (s : S) : Throughout step P s as := by
  induction as generalizing s with
  | nil => trivial
  | cons a rest ih =>
    exact ⟨h a List.mem_cons_self s, ih (fun b hb => h b (List.mem_cons_of_mem a hb)) (step s a)⟩

/-- What is said of the inputs alone is said of each. -/
theorem forall_mem {P : A → Prop} {s : S} {as : List A} (h : Throughout step (fun _ a => P a) s as) :
    ∀ a ∈ as, P a := by
  induction as generalizing s with
  | nil => exact fun a ha => absurd ha List.not_mem_nil
  | cons b rest ih =>
    intro a ha
    rcases List.mem_cons.mp ha with rfl | ha
    · exact h.1
    · exact ih h.2 a ha

/-- What follows from an invariant holds throughout. -/
theorem of_invariant (Inv : S → Prop) (hhere : ∀ s a, Inv s → C s a → P s a)
    (hstep : ∀ s a, Inv s → C s a → Inv (step s a)) {s : S} (hs : Inv s) {as : List A}
    (hc : Throughout step C s as) : Throughout step P s as := by
  induction as generalizing s with
  | nil => trivial
  | cons a rest ih => exact ⟨hhere s a hs hc.1, ih (hstep s a hs hc.1) hc.2⟩

/-- An invariant of the steps that satisfy a condition holds at the end. -/
theorem invariant (Inv : S → Prop) (hstep : ∀ s a, Inv s → C s a → Inv (step s a)) {s : S}
    (hs : Inv s) {as : List A} (hc : Throughout step C s as) : Inv (as.foldl step s) := by
  induction as generalizing s with
  | nil => exact hs
  | cons a rest ih => exact ih (hstep s a hs hc.1) hc.2

/-- What a run was given is what it gave out and what it still has, if each step keeps it so. -/
theorem balance {B : Type} (Inv : S → Prop) (gives : A → Option B) (comes : S → A → Option B)
    (stock : S → List B)
    (hstep : ∀ s a, Inv s → C s a → Inv (step s a) ∧
      ((gives a).toList ++ stock (step s a)).Perm (stock s ++ (comes s a).toList)) {s : S}
    (hs : Inv s) {as : List A} (hc : Throughout step C s as) :
    (as.filterMap gives ++ stock (as.foldl step s)).Perm (stock s ++ gather step comes s as) := by
  have hcons : ∀ (a : A) (rest : List A),
      (a :: rest).filterMap gives = (gives a).toList ++ rest.filterMap gives := by
    intro a rest
    rw [List.filterMap_cons]
    cases gives a <;> rfl
  induction as generalizing s with
  | nil => simp [gather]
  | cons a rest ih =>
    obtain ⟨hinv, hperm⟩ := hstep s a hs hc.1
    rw [hcons, gather, List.foldl_cons, List.append_assoc]
    refine ((ih hinv hc.2).append_left _).trans ?_
    rw [← List.append_assoc, ← List.append_assoc]
    exact hperm.append_right _

/-- Where a step keeps a property exactly if it satisfies a condition, of the states that have an
invariant, a run keeps it exactly if all its steps do. -/
theorem property_iff (Inv Good : S → Prop) (hstep : ∀ s a, Inv s → C s a → Inv (step s a))
    (hgood : ∀ s a, Inv s → C s a → (Good (step s a) ↔ Good s ∧ P s a)) {s : S} (hs : Inv s)
    {as : List A} (hc : Throughout step C s as) :
    Good (as.foldl step s) ↔ Good s ∧ Throughout step P s as := by
  induction as generalizing s with
  | nil => exact (and_true _).to_iff.symm
  | cons a rest ih =>
    rw [List.foldl_cons, ih (hstep s a hs hc.1) hc.2, hgood s a hs hc.1, and_assoc, Throughout]

theorem invariant_iff (Inv : S → Prop) (hstep : ∀ s a, Inv (step s a) ↔ Inv s ∧ P s a) {s : S}
    {as : List A} : Inv (as.foldl step s) ↔ Inv s ∧ Throughout step P s as :=
  property_iff (C := fun _ _ => True) (fun _ => True) Inv (fun _ _ _ _ => trivial)
    (fun s a _ _ => hstep s a) trivial (of_mem (fun _ _ _ => trivial) s)

end Throughout

/-- A machine that may fault never does, from a state with the invariant, on inputs
that satisfy the condition its invariant asks for. -/
theorem foldlM_ok {F : Type} (Inv : S → Prop) (C : A → Prop) (step : S → A → Except F S)
    (hstep : ∀ s a, Inv s → C a → ∃ s', step s a = .ok s' ∧ Inv s') (as : List A) (s : S)
    (hs : Inv s) (ha : ∀ a ∈ as, C a) : ∃ t, as.foldlM step s = .ok t ∧ Inv t := by
  induction as generalizing s with
  | nil => exact ⟨s, rfl, hs⟩
  | cons a rest ih =>
    obtain ⟨s', hstep', hs'⟩ := hstep s a hs (ha a List.mem_cons_self)
    obtain ⟨t, ht, hinv⟩ := ih s' hs' (fun b hb => ha b (List.mem_cons_of_mem a hb))
    refine ⟨t, ?_, hinv⟩
    rw [List.foldlM_cons, hstep']
    exact ht

/-- A run that does not fault has taken its first step. -/
theorem foldlM_cons_ok {F : Type} {step : S → A → Except F S} {a : A} {as : List A} {s t : S}
    (h : (a :: as).foldlM step s = .ok t) : ∃ s', step s a = .ok s' ∧ as.foldlM step s' = .ok t := by
  rw [List.foldlM_cons] at h
  cases hstep : step s a with
  | error fault =>
    rw [hstep] at h
    cases h
  | ok s' =>
    rw [hstep] at h
    exact ⟨s', rfl, h⟩

theorem foldlM_append_ok {F : Type} {step : S → A → Except F S} {as bs : List A} {s t u : S}
    (h : as.foldlM step s = .ok t) (h' : bs.foldlM step t = .ok u) :
    (as ++ bs).foldlM step s = .ok u := by
  rw [List.foldlM_append, h]
  exact h'

/-- A machine that may fault does what another one does, as long as it makes up for each of the
other's steps with some of its own. -/
theorem foldlM_sim {F T A' : Type} (R : S → T → Prop) (C : A' → Prop) (input : T → A' → List A)
    (step : S → A → Except F S) (step' : T → A' → T)
    (hstep : ∀ s t a, R s t → C a → ∃ s', (input t a).foldlM step s = .ok s' ∧ R s' (step' t a))
    (as : List A') (s : S) (t : T) (hs : R s t) (ha : ∀ a ∈ as, C a) :
    ∃ (bs : List A) (s' : S), bs.foldlM step s = .ok s' ∧ R s' (as.foldl step' t) := by
  induction as generalizing s t with
  | nil => exact ⟨[], s, rfl, hs⟩
  | cons a rest ih =>
    obtain ⟨s', hhere, hs'⟩ := hstep s t a hs (ha a List.mem_cons_self)
    obtain ⟨bs, u, hrest, hu⟩ := ih s' (step' t a) hs' (fun b hb => ha b (List.mem_cons_of_mem a hb))
    exact ⟨input t a ++ bs, u, foldlM_append_ok hhere hrest, hu⟩

/-- The run of a machine that may fault and that puts something out now and then. -/
def emits {B F : Type} (step : S → A → Except F (S × Option B)) :
    S → List A → Except F (S × List B)
  | s, [] => .ok (s, [])
  | s, a :: rest =>
    match step s a with
    | .error e => .error e
    | .ok (s', out) =>
      match emits step s' rest with
      | .error e => .error e
      | .ok (t, outs) => .ok (t, out.toList ++ outs)

theorem emits_append_ok {B F : Type} {step : S → A → Except F (S × Option B)} {as bs : List A}
    {s t u : S} {outs outs' : List B} (h : emits step s as = .ok (t, outs))
    (h' : emits step t bs = .ok (u, outs')) :
    emits step s (as ++ bs) = .ok (u, outs ++ outs') := by
  induction as generalizing s outs with
  | nil =>
    cases h
    exact h'
  | cons a rest ih =>
    rw [emits] at h
    rw [List.cons_append, emits]
    cases hstep : step s a with
    | error e =>
      rw [hstep] at h
      cases h
    | ok r =>
      rw [hstep] at h
      simp only at h ⊢
      cases hrest : emits step r.1 rest with
      | error e =>
        rw [hrest] at h
        cases h
      | ok r' =>
        rw [hrest] at h
        cases h
        rw [ih hrest]
        simp only [List.append_assoc]

/-- An invariant that speaks of what was taken in so far. -/
theorem emits_history {B F A' : Type} (Inv : List A' → S → Prop) (C : A' → Prop) (input : A' → A)
    (step : S → A → Except F (S × Option B))
    (hstep : ∀ done s a, Inv done s → C a →
      ∃ s' out, step s (input a) = .ok (s', out) ∧ Inv (done ++ [a]) s')
    (as done : List A') (s : S) (hs : Inv done s) (ha : ∀ a ∈ as, C a) :
    ∃ t outs, emits step s (as.map input) = .ok (t, outs) ∧ Inv (done ++ as) t := by
  induction as generalizing done s with
  | nil => exact ⟨s, [], rfl, (List.append_nil done).symm ▸ hs⟩
  | cons a rest ih =>
    obtain ⟨s', out, hout, hs'⟩ := hstep done s a hs (ha a List.mem_cons_self)
    obtain ⟨t, outs, houts, ht⟩ := ih (done ++ [a]) s' hs' fun b hb =>
      ha b (List.mem_cons_of_mem a hb)
    refine ⟨t, out.toList ++ outs, ?_, ?_⟩
    · rw [List.map_cons, emits, hout]
      simp only [houts]
    · rw [List.append_assoc] at ht
      exact ht

/-- A machine with more state, of which another is a view, puts out the same. -/
theorem emits_view {B F T A' : Type} (step : S → A → Except F (S × Option B))
    (step' : T → A' → Except F (T × Option B)) (view : S → T) (input : A → A')
    (hstep : ∀ s a, step' (view s) (input a) = (step s a).map fun r => (view r.1, r.2))
    (as : List A) (s : S) :
    emits step' (view s) (as.map input) = (emits step s as).map fun r => (view r.1, r.2) := by
  induction as generalizing s with
  | nil => rfl
  | cons a rest ih =>
    rw [List.map_cons, emits, emits, hstep]
    cases step s a with
    | error e => rfl
    | ok r =>
      simp only [Except.map]
      rw [ih r.1]
      cases emits step r.1 rest with
      | error e => rfl
      | ok r' => rfl

/-- Two machines whose steps agree on what both are fed. -/
theorem emits_congr {B F A' C : Type} (step : S → A → Except F (S × Option B))
    (step' : S → A' → Except F (S × Option B)) (f : C → A) (g : C → A') (cs : List C)
    (hstep : ∀ c ∈ cs, ∀ s, step s (f c) = step' s (g c)) (s : S) :
    emits step s (cs.map f) = emits step' s (cs.map g) := by
  induction cs generalizing s with
  | nil => rfl
  | cons c rest ih =>
    have hrest : ∀ s, emits step s (rest.map f) = emits step' s (rest.map g) :=
      ih fun c' hc' => hstep c' (List.mem_cons_of_mem c hc')
    rw [List.map_cons, List.map_cons, emits, emits, hstep c List.mem_cons_self]
    simp only [hrest]

/-- Of every state that a machine that may fault comes to, and the input taken there. -/
def ThroughoutOk {B F : Type} (step : S → A → Except F (S × Option B)) (P : S → A → Prop) :
    S → List A → Prop
  | _, [] => True
  | s, a :: rest => P s a ∧
    match step s a with
    | .error _ => True
    | .ok (s', _) => ThroughoutOk step P s' rest

namespace ThroughoutOk
variable {B F : Type} {step : S → A → Except F (S × Option B)} {P Q : S → A → Prop}

instance decidable [∀ s a, Decidable (P s a)] (s : S) (as : List A) :
    Decidable (ThroughoutOk step P s as) :=
  match as with
  | [] => .isTrue trivial
  | a :: rest =>
    have : Decidable (match step s a with
        | .error _ => True
        | .ok (s', _) => ThroughoutOk step P s' rest) :=
      match step s a with
      | .error _ => .isTrue trivial
      | .ok (s', _) => decidable s' rest
    inferInstanceAs (Decidable (P s a ∧ _))

theorem of_mem {as : List A} (h : ∀ a ∈ as, ∀ s, P s a) (s : S) : ThroughoutOk step P s as := by
  induction as generalizing s with
  | nil => trivial
  | cons a rest ih =>
    refine ⟨h a List.mem_cons_self s, ?_⟩
    split
    · trivial
    · next s' _ _ => exact ih (fun b hb => h b (List.mem_cons_of_mem a hb)) s'

theorem and {s : S} {as : List A} (hp : ThroughoutOk step P s as)
    (hq : ThroughoutOk step Q s as) : ThroughoutOk step (fun s a => P s a ∧ Q s a) s as := by
  induction as generalizing s with
  | nil => trivial
  | cons a rest ih =>
    obtain ⟨hp, hprest⟩ := hp
    obtain ⟨hq, hqrest⟩ := hq
    refine ⟨⟨hp, hq⟩, ?_⟩
    split
    · trivial
    · next s' out hstep =>
      rw [hstep] at hprest hqrest
      exact ih hprest hqrest

end ThroughoutOk

/-- What each step puts out, from a state with the invariant, is all that comes out. -/
theorem emits_ok {B F : Type} (Inv : S → Prop) (C : S → A → Prop) (P : B → Prop)
    (step : S → A → Except F (S × Option B))
    (hstep : ∀ s a, Inv s → C s a →
      ∃ s' out, step s a = .ok (s', out) ∧ Inv s' ∧ ∀ b ∈ out, P b)
    (as : List A) (s : S) (hs : Inv s) (hc : ThroughoutOk step C s as) :
    ∃ t outs, emits step s as = .ok (t, outs) ∧ ∀ b ∈ outs, P b := by
  induction as generalizing s with
  | nil => exact ⟨s, [], rfl, fun b hb => absurd hb List.not_mem_nil⟩
  | cons a rest ih =>
    obtain ⟨hhere, hrest⟩ := hc
    obtain ⟨s', out, hout, hs', hp⟩ := hstep s a hs hhere
    rw [hout] at hrest
    obtain ⟨t, outs, houts, hps⟩ := ih s' hs' hrest
    refine ⟨t, out.toList ++ outs, ?_, fun b hb => ?_⟩
    · rw [emits, hout]
      simp only
      rw [houts]
    · rcases List.mem_append.mp hb with hb | hb
      · exact hp b (Option.mem_toList.mp hb)
      · exact hps b hb

/-- The run comes to its end exactly if every step that it comes to meets what a step needs. -/
theorem emits_ok_iff {B F : Type} (Inv : S → Prop) (P : S → A → Prop)
    (step : S → A → Except F (S × Option B))
    (hiff : ∀ s a, Inv s → ((∃ r, step s a = .ok r) ↔ P s a))
    (hstep : ∀ s a r, Inv s → step s a = .ok r → Inv r.1) (as : List A) (s : S) (hs : Inv s) :
    (∃ r, emits step s as = .ok r) ↔ ThroughoutOk step P s as := by
  induction as generalizing s with
  | nil => exact iff_of_true ⟨_, rfl⟩ trivial
  | cons a rest ih =>
    rw [ThroughoutOk, ← hiff s a hs, emits]
    cases hout : step s a with
    | error e =>
      refine iff_of_false (fun ⟨_, h⟩ => ?_) fun ⟨⟨_, h⟩, _⟩ => ?_
      · cases h
      · cases h
    | ok r =>
      simp only
      rw [← ih r.1 (hstep s a r hs hout)]
      cases emits step r.1 rest with
      | error e =>
        refine iff_of_false (fun ⟨_, h⟩ => ?_) fun ⟨_, _, h⟩ => ?_
        · cases h
        · cases h
      | ok t => exact iff_of_true ⟨_, rfl⟩ ⟨⟨_, rfl⟩, _, rfl⟩

/-! ### Machines side by side -/

/-- What a machine answers, input by input. -/
def outputs {B : Type} (step : S → A → S × B) : S → List A → List B
  | _, [] => []
  | s, a :: rest => (step s a).2 :: outputs step (step s a).1 rest

theorem outputs_getElem? {B : Type} (step : S → A → S × B) (s : S) (as : List A) (k : Nat) :
    (outputs step s as)[k]? =
      as[k]?.map fun a => (step ((as.take k).foldl (fun s a => (step s a).1) s) a).2 := by
  induction as generalizing s k with
  | nil => rfl
  | cons a rest ih =>
    cases k with
    | zero => rfl
    | succ k => exact ih (step s a).1 k

/-- Machines answer the same, and stay related, while each step keeps the relation. -/
theorem outputs_sim {B T : Type} (R : S → T → Prop) (step : S → A → S × B) (step' : T → A → T × B)
    (hstep : ∀ s t a, R s t → (step s a).2 = (step' t a).2 ∧ R (step s a).1 (step' t a).1)
    (as : List A) (s : S) (t : T) (hs : R s t) : outputs step s as = outputs step' t as ∧
      R (as.foldl (fun s a => (step s a).1) s) (as.foldl (fun t a => (step' t a).1) t) := by
  induction as generalizing s t with
  | nil => exact ⟨rfl, hs⟩
  | cons a rest ih =>
    obtain ⟨hhere, hnext⟩ := hstep s t a hs
    obtain ⟨hrest, hend⟩ := ih _ _ hnext
    rw [outputs, outputs, hhere, hrest]
    exact ⟨rfl, hend⟩

/-- On related inputs, machines answer in a related way while each step keeps a relation of their
states. -/
theorem outputs_forall₂ {A' B B' T : Type} (R : S → T → Prop) (I : A → A' → Prop) (O : B → B' → Prop)
    (step : S → A → S × B) (step' : T → A' → T × B')
    (hstep : ∀ s t a a', R s t → I a a' →
      O (step s a).2 (step' t a').2 ∧ R (step s a).1 (step' t a').1)
    {as : List A} {as' : List A'} (h : List.Forall₂ I as as') (s : S) (t : T) (hs : R s t) :
    List.Forall₂ O (outputs step s as) (outputs step' t as') ∧
      R (as.foldl (fun s a => (step s a).1) s) (as'.foldl (fun t a => (step' t a).1) t) := by
  induction h generalizing s t with
  | nil => exact ⟨.nil, hs⟩
  | cons ha _ ih =>
    obtain ⟨hhere, hnext⟩ := hstep s t _ _ hs ha
    obtain ⟨hrest, hend⟩ := ih _ _ hnext
    exact ⟨.cons hhere hrest, hend⟩

/-- A machine whose inputs are some of another's, and encoded, goes along with it if the other
inputs keep the relation. -/
theorem foldl_filterMap_sim {T A' : Type} (R : S → T → Prop) (enc : A → Option A') (step : S → A → S)
    (step' : T → A' → T) (hsome : ∀ s t a b, R s t → enc a = some b → R (step s a) (step' t b))
    (hnone : ∀ s t a, R s t → enc a = none → R (step s a) t) (as : List A) (s : S) (t : T)
    (hs : R s t) : R (as.foldl step s) ((as.filterMap enc).foldl step' t) := by
  induction as generalizing s t with
  | nil => exact hs
  | cons a rest ih =>
    cases henc : enc a with
    | none =>
      rw [List.filterMap_cons_none henc]
      exact ih _ _ (hnone s t a hs henc)
    | some b =>
      rw [List.filterMap_cons_some henc]
      exact ih _ _ (hsome s t a b hs henc)

/-- A machine follows another one, if for each of the other's steps it can make some of its own. -/
theorem foldl_sim {B T : Type} (R : S → T → Prop) (input : S → A → List B) (step : S → A → S)
    (step' : T → B → T) (hstep : ∀ s t a, R s t → R (step s a) ((input s a).foldl step' t))
    (as : List A) (s : S) (t : T) (hs : R s t) :
    ∃ bs : List B, R (as.foldl step s) (bs.foldl step' t) := by
  induction as generalizing s t with
  | nil => exact ⟨[], hs⟩
  | cons a rest ih =>
    obtain ⟨bs, hrest⟩ := ih _ _ (hstep s t a hs)
    refine ⟨input s a ++ bs, ?_⟩
    rw [List.foldl_append]
    exact hrest

/-- A machine that may fault does not, and puts out what another one does, while a relation that
each step keeps ties their states. -/
theorem emits_sim {B B' F T A' : Type} (R : S → T → Prop) (C : A' → Prop) (input : A' → A)
    (g : B' → B) (step : S → A → Except F (S × Option B)) (step' : T → A' → T × Option B')
    (hstep : ∀ s t a, R s t → C a →
      ∃ s', step s (input a) = .ok (s', (step' t a).2.map g) ∧ R s' (step' t a).1)
    (as : List A') (s : S) (t : T) (hs : R s t) (ha : ∀ a ∈ as, C a) :
    ∃ s', emits step s (as.map input) = .ok (s', (outputs step' t as).reduceOption.map g) := by
  induction as generalizing s t with
  | nil => exact ⟨s, rfl⟩
  | cons a rest ih =>
    obtain ⟨s', hhere, hs'⟩ := hstep s t a hs (ha a List.mem_cons_self)
    obtain ⟨s'', hrest⟩ := ih s' (step' t a).1 hs' fun b hb => ha b (List.mem_cons_of_mem a hb)
    refine ⟨s'', ?_⟩
    rw [List.map_cons, emits, hhere]
    simp only
    rw [hrest, outputs]
    cases (step' t a).2 <;> rfl

/-- Two steps, or two runs, with the same end: the same fault, or the same answer in related
states. -/
inductive Alike {F T O : Type} (R : S → T → Prop) : Except F (S × O) → Except F (T × O) → Prop where
  | error (e : F) : Alike R (.error e) (.error e)
  | ok {s : S} {t : T} (o : O) (h : R s t) : Alike R (.ok (s, o)) (.ok (t, o))

theorem Alike.map {F T O O' : Type} {R : S → T → Prop} (f : O → O') {x : Except F (S × O)}
    {y : Except F (T × O)} (h : Alike R x y) :
    Alike R (x.map fun r => (r.1, f r.2)) (y.map fun r => (r.1, f r.2)) := by
  cases h with
  | error e => exact .error e
  | ok o h => exact .ok (f o) h

/-- Machines that may fault run alike while their steps do. -/
theorem emits_alike {B F T : Type} (R : S → T → Prop) (C : S → A → Prop)
    (step : S → A → Except F (S × Option B)) (step' : T → A → Except F (T × Option B))
    (hstep : ∀ s t a, R s t → C s a → Alike R (step s a) (step' t a))
    (as : List A) (s : S) (t : T) (hs : R s t) (hc : ThroughoutOk step C s as) :
    Alike R (emits step s as) (emits step' t as) := by
  induction as generalizing s t with
  | nil => exact .ok [] hs
  | cons a rest ih =>
    obtain ⟨hhere, hrest⟩ := hc
    have halike := hstep s t a hs hhere
    rw [emits, emits]
    generalize step s a = x at halike hrest
    generalize step' t a = y at halike
    cases halike with
    | error e => exact .error e
    | ok out h =>
      have hnext := ih _ _ h hrest
      simp only
      generalize emits step _ rest = x at hnext
      generalize emits step' _ rest = y at hnext
      cases hnext with
      | error e => exact .error e
      | ok outs h => exact .ok (out.toList ++ outs) h

/-- Two machines on the same inputs. -/
def both {B T : Type} (step : S → A → S × B) (step' : T → A → T × B) (s : S × T) (a : A) : S × T :=
  ((step s.1 a).1, (step' s.2 a).1)

/-- They answer the same exactly if they do at every step. -/
theorem outputs_eq_iff {B T : Type} (step : S → A → S × B) (step' : T → A → T × B) (as : List A)
    (s : S) (t : T) :
    outputs step s as = outputs step' t as ↔
      Throughout (both step step') (fun s a => (step s.1 a).2 = (step' s.2 a).2) (s, t) as := by
  induction as generalizing s t with
  | nil => exact iff_of_true rfl trivial
  | cons a rest ih => rw [outputs, outputs, List.cons.injEq, ih, Throughout, both]

end Transition
