import Mathlib.Data.Finset.Card
import Mathlib.Data.List.ReduceOption
import Relink.Library.Run

/-! Gathering the pieces of one frame at a time.

A frame has a number of pieces, told apart by their index. A collector holds the pieces of the
frame in progress; one of any other frame discards them, and the one that was missing last
completes the frame, after which nothing is in progress. `finished_eq_singleton_iff` says when a
frame whose pieces arrive alone is completed exactly once, `mem_finished_iff` when one is
completed among others. -/
namespace Gather
open Transition (outputs)
variable {F : Type} [DecidableEq F] (count : F → Nat)

/-- The frame in progress, and the pieces of it that there are. -/
abbrev Collector (F : Type) := Option (F × Finset Nat)

def gathered : Collector F → F → Finset Nat
  | some (g, got), f => if g = f then got else ∅
  | none, _ => ∅

def step (s : Collector F) (x : F × Nat) : Collector F × Option F :=
  let got := insert x.2 (gathered s x.1)
  if got.card = count x.1 then (none, some x.1) else (some (x.1, got), none)

/-- The frames completed, in order. -/
def finished (s : Collector F) (xs : List (F × Nat)) : List F :=
  (outputs (step count) s xs).reduceOption

/-- Some piece of the frame in progress is missing. -/
def Partial (s : Collector F) : Prop :=
  ∀ f, gathered s f ⊆ Finset.range (count f) ∧ ((gathered s f).Nonempty → (gathered s f).card < count f)

/-- With these indices and those gathered there are all. -/
def Covers (n : Nat) (got : Finset Nat) (is : List Nat) : Prop := ∀ i < n, i ∈ got ∨ i ∈ is

instance (n : Nat) (got : Finset Nat) (is : List Nat) : Decidable (Covers n got is) :=
  inferInstanceAs (Decidable (∀ i < n, _))

@[simp] theorem gathered_none (f : F) : gathered none f = ∅ := rfl

@[simp] theorem gathered_self (f : F) (got : Finset Nat) : gathered (some (f, got)) f = got :=
  if_pos rfl

theorem gathered_ne {f g : F} (h : g ≠ f) (got : Finset Nat) : gathered (some (g, got)) f = ∅ :=
  if_neg h

theorem partial_none : Partial count (none : Collector F) := fun _ =>
  ⟨Finset.empty_subset _, fun h => absurd h Finset.not_nonempty_empty⟩

theorem finished_cons (s : Collector F) (x : F × Nat) (xs : List (F × Nat)) :
    finished count s (x :: xs) = (step count s x).2.toList ++ finished count (step count s x).1 xs := by
  rw [finished, outputs]
  cases (step count s x).2 <;> rfl

theorem finished_append (s : Collector F) (xs ys : List (F × Nat)) :
    finished count s (xs ++ ys) = finished count s xs ++
      finished count (xs.foldl (fun s x => (step count s x).1) s) ys := by
  induction xs generalizing s with
  | nil => rfl
  | cons x xs ih =>
    rw [List.cons_append, finished_cons, finished_cons, ih, List.append_assoc]
    rfl

variable {count}

/-- All pieces are there exactly if there are as many as the frame has. -/
theorem card_eq_iff {n : Nat} {got : Finset Nat} (h : got ⊆ Finset.range n) :
    got.card = n ↔ ∀ i < n, i ∈ got := by
  constructor
  · intro hcard i hi
    rw [Finset.eq_of_subset_of_card_le h (by rw [Finset.card_range, hcard])]
    exact Finset.mem_range.mpr hi
  · intro hall
    have heq : got = Finset.range n :=
      Finset.Subset.antisymm h fun i hi => hall i (Finset.mem_range.mp hi)
    rw [heq, Finset.card_range]

section Step
variable {s : Collector F} {f : F} {i : Nat}

theorem insert_subset (hs : Partial count s) (hi : i < count f) :
    insert i (gathered s f) ⊆ Finset.range (count f) :=
  Finset.insert_subset (Finset.mem_range.mpr hi) (hs f).1

theorem partial_step (hs : Partial count s) (hi : i < count f) :
    Partial count (step count s (f, i)).1 := by
  unfold step
  simp only
  split
  · exact partial_none count
  · next hmissing =>
    intro g
    by_cases hg : f = g
    · subst hg
      rw [gathered_self]
      have hsub := insert_subset hs hi
      have hle := Finset.card_le_card hsub
      rw [Finset.card_range] at hle
      exact ⟨hsub, fun _ => lt_of_le_of_ne hle hmissing⟩
    · rw [gathered_ne hg]
      exact ⟨Finset.empty_subset _, fun h => absurd h Finset.not_nonempty_empty⟩

/-- A piece that leaves another missing is kept. -/
theorem step_missing (hs : Partial count s) (hi : i < count f)
    (hmissing : ¬ ∀ j < count f, j ∈ insert i (gathered s f)) :
    step count s (f, i) = (some (f, insert i (gathered s f)), none) :=
  if_neg fun h => hmissing ((card_eq_iff (insert_subset hs hi)).mp h)

/-- The piece that was missing last completes the frame. -/
theorem step_last (hs : Partial count s) (hi : i < count f)
    (hall : ∀ j < count f, j ∈ insert i (gathered s f)) : step count s (f, i) = (none, some f) :=
  if_pos ((card_eq_iff (insert_subset hs hi)).mpr hall)

end Step

/-! ### The pieces of one frame alone -/

section Alone
variable {f : F}

theorem not_covers_nil {s : Collector F} (hs : Partial count s) (hpos : 0 < count f) :
    ¬ Covers (count f) (gathered s f) [] := by
  intro hcovers
  have hall : ∀ i < count f, i ∈ gathered s f := fun i hi =>
    (hcovers i hi).resolve_right List.not_mem_nil
  have hcard := (card_eq_iff (hs f).1).mpr hall
  have hlt := (hs f).2 ⟨0, hall 0 hpos⟩
  omega

theorem covers_cons {n : Nat} {got : Finset Nat} {i : Nat} {is : List Nat} :
    Covers n got (i :: is) ↔ Covers n (insert i got) is := by
  refine forall₂_congr fun j _ => ?_
  rw [List.mem_cons, Finset.mem_insert]
  tauto

theorem Covers.mono {n : Nat} {got : Finset Nat} {is js : List Nat} (h : Covers n got is)
    (hsub : is ⊆ js) : Covers n got js := fun i hi => (h i hi).imp_right fun hmem => hsub hmem

/-- Without a cover nothing is completed; with one, the frame is, as soon as there is a cover, and
what follows begins anew. -/
theorem finished_alone {s : Collector F} (hs : Partial count s) (hpos : 0 < count f) {is : List Nat}
    (his : ∀ i ∈ is, i < count f) :
    (¬ Covers (count f) (gathered s f) is → finished count s (is.map (f, ·)) = []) ∧
      (Covers (count f) (gathered s f) is → ∃ before after, is = before ++ after ∧
        Covers (count f) (gathered s f) before ∧
        (∀ before' after', is = before' ++ after' → Covers (count f) (gathered s f) before' →
          after' <:+ after) ∧
        finished count s (is.map (f, ·)) = f :: finished count none (after.map (f, ·))) := by
  induction is generalizing s with
  | nil => exact ⟨fun _ => rfl, fun h => absurd h (not_covers_nil hs hpos)⟩
  | cons i rest ih =>
    have hi := his i List.mem_cons_self
    rw [List.map_cons, finished_cons]
    by_cases hall : ∀ j < count f, j ∈ insert i (gathered s f)
    · rw [step_last hs hi hall]
      have hcovers : Covers (count f) (gathered s f) [i] := fun j hj => by
        have := Finset.mem_insert.mp (hall j hj)
        rw [List.mem_singleton, or_comm]
        exact this
      refine ⟨fun hnot => absurd (hcovers.mono (by simp)) hnot, fun _ => ?_⟩
      refine ⟨[i], rest, rfl, hcovers, fun before' after' heq hbefore => ?_, rfl⟩
      cases before' with
      | nil => exact absurd hbefore (not_covers_nil hs hpos)
      | cons j before' =>
        obtain ⟨_, htail⟩ := List.cons.inj heq
        exact ⟨before', htail.symm⟩
    · have hgathered : gathered (some (f, insert i (gathered s f))) f = insert i (gathered s f) :=
        gathered_self ..
      have hnext := partial_step hs hi
      rw [step_missing hs hi hall] at hnext ⊢
      obtain ⟨hnone, hsome⟩ := ih hnext fun j hj => his j (List.mem_cons_of_mem i hj)
      rw [hgathered] at hnone hsome
      rw [covers_cons]
      refine ⟨hnone, fun hcovers => ?_⟩
      obtain ⟨before, after, heq, hbefore, hfirst, hfinished⟩ := hsome hcovers
      refine ⟨i :: before, after, by rw [heq, List.cons_append], covers_cons.mpr hbefore,
        fun before' after' heq' hbefore' => ?_, hfinished⟩
      cases before' with
      | nil => exact absurd hbefore' (not_covers_nil hs hpos)
      | cons j before' =>
        obtain ⟨hhead, htail⟩ := List.cons.inj heq'
        subst hhead
        exact hfirst before' after' htail (covers_cons.mp hbefore')

/-- No two parts, one after the other, each have every piece. -/
def CoveredOnce (n : Nat) (is : List Nat) : Prop :=
  ¬ ∃ before after, is = before ++ after ∧ Covers n ∅ before ∧ Covers n ∅ after

/-- A frame all of whose pieces arrive is completed exactly once if they do not come twice over. -/
theorem finished_eq_singleton_iff {s : Collector F} (hs : gathered s f = ∅) (hheld : Partial count s)
    (hpos : 0 < count f) {is : List Nat} (his : ∀ i ∈ is, i < count f)
    (hcovers : Covers (count f) ∅ is) :
    finished count s (is.map (f, ·)) = [f] ↔ CoveredOnce (count f) is := by
  obtain ⟨_, hsome⟩ := finished_alone hheld hpos his
  rw [hs] at hsome
  obtain ⟨before, after, heq, hbefore, hfirst, hfinished⟩ := hsome hcovers
  have hafter : ∀ i ∈ after, i < count f := fun i hi =>
    his i (heq ▸ List.mem_append_right before hi)
  obtain ⟨hnone, hagain⟩ := finished_alone (partial_none count) hpos hafter
  rw [hfinished]
  constructor
  · intro hone
    rintro ⟨before', after', heq', hbefore', hafter'⟩
    have hsuffix := hfirst before' after' heq' hbefore'
    obtain ⟨_, _, _, _, _, htwice⟩ := hagain (hafter'.mono hsuffix.subset)
    rw [htwice] at hone
    cases hone
  · intro honce
    rw [hnone fun htwice => honce ⟨before, after, heq, hbefore, htwice⟩]

/-- In order, each piece once. -/
theorem coveredOnce_range {n : Nat} (hpos : 0 < n) : CoveredOnce n (List.range n) := by
  rintro ⟨before, after, heq, hbefore, hafter⟩
  have hnodup := List.nodup_range (n := n)
  rw [heq] at hnodup
  have hfirst := (hbefore 0 hpos).resolve_left (Finset.notMem_empty 0)
  have hagain := (hafter 0 hpos).resolve_left (Finset.notMem_empty 0)
  exact (List.nodup_append.mp hnodup).2.2 0 hfirst 0 hagain rfl

end Alone

/-! ### One frame among others -/

section Among
variable {f : F}

/-- No piece of another frame comes between pieces of this one. -/
def Uninterrupted (f : F) (xs : List (F × Nat)) : Prop :=
  ∃ before own after, xs = before ++ (own ++ after) ∧ (∀ x ∈ before, x.1 ≠ f) ∧
    (∀ x ∈ own, x.1 = f) ∧ ∀ x ∈ after, x.1 ≠ f

theorem partial_foldl {s : Collector F} (hs : Partial count s) {xs : List (F × Nat)}
    (hxs : ∀ x ∈ xs, x.2 < count x.1) :
    Partial count (xs.foldl (fun s x => (step count s x).1) s) := by
  have hstep : ∀ s (x : F × Nat), Partial count s → x.2 < count x.1 →
      Partial count (step count s x).1 := fun _ _ hs hx => partial_step hs hx
  exact Transition.foldl_invariant _ (fun x => x.2 < count x.1) _ hstep xs s hs hxs

variable (count f) in
theorem gathered_step (s : Collector F) (x : F × Nat) :
    gathered (step count s x).1 f ⊆ if x.1 = f then insert x.2 (gathered s f) else ∅ := by
  unfold step
  simp only
  split
  · exact Finset.empty_subset _
  · by_cases hf : x.1 = f
    · subst hf
      rw [gathered_self, if_pos rfl]
    · rw [gathered_ne hf]
      exact Finset.empty_subset _

variable (count) in
/-- While only other frames' pieces arrive there is nothing of this one. -/
theorem gathered_foldl {s : Collector F} (hs : gathered s f = ∅) {xs : List (F × Nat)}
    (hxs : ∀ x ∈ xs, x.1 ≠ f) :
    gathered (xs.foldl (fun s x => (step count s x).1) s) f = ∅ := by
  refine Transition.foldl_invariant (fun s => gathered s f = ∅) (fun x => x.1 ≠ f) _
    (fun s x _ hx => ?_) xs s hs hxs
  have hsub := gathered_step count f s x
  rw [if_neg hx] at hsub
  exact Finset.subset_empty.mp hsub

theorem exists_mem_of_mem_finished {s : Collector F} {xs : List (F × Nat)}
    (h : f ∈ finished count s xs) : ∃ i, (f, i) ∈ xs := by
  induction xs generalizing s with
  | nil => cases h
  | cons x rest ih =>
    rw [finished_cons, List.mem_append] at h
    rcases h with hhere | hrest
    · unfold step at hhere
      simp only at hhere
      split at hhere
      · rw [show f = x.1 by simpa using hhere]
        exact ⟨x.2, List.mem_cons_self⟩
      · cases hhere
    · obtain ⟨i, hi⟩ := ih hrest
      exact ⟨i, List.mem_cons_of_mem x hi⟩

/-- A frame is completed by pieces that come one after the other. -/
theorem run_of_mem_finished {s : Collector F} (hs : Partial count s) {xs : List (F × Nat)}
    (hxs : ∀ x ∈ xs, x.2 < count x.1) (h : f ∈ finished count s xs) :
    ∃ before own after, xs = before ++ (own ++ after) ∧ (∀ x ∈ own, x.1 = f) ∧
      ∀ i < count f, (f, i) ∈ own ∨ before = [] ∧ i ∈ gathered s f := by
  induction xs generalizing s with
  | nil => cases h
  | cons x rest ih =>
    have hx := hxs x List.mem_cons_self
    have hnext := partial_step hs hx
    rw [finished_cons, List.mem_append] at h
    rcases h with hhere | hrest
    · -- this piece is the one that was missing
      refine ⟨[], [x], rest, rfl, ?_, ?_⟩
      all_goals
        by_cases hall : ∀ j < count x.1, j ∈ insert x.2 (gathered s x.1)
      · rw [step_last hs hx hall] at hhere
        have hf : f = x.1 := by simpa using hhere
        intro y hy
        rw [List.mem_singleton.mp hy, hf]
      · rw [step_missing hs hx hall] at hhere
        cases hhere
      · rw [step_last hs hx hall] at hhere
        have hf : f = x.1 := by simpa using hhere
        subst hf
        intro i hi
        rcases Finset.mem_insert.mp (hall i hi) with rfl | hmem
        · exact Or.inl List.mem_cons_self
        · exact Or.inr ⟨rfl, hmem⟩
      · rw [step_missing hs hx hall] at hhere
        cases hhere
    · obtain ⟨before, own, after, heq, hown, hcovers⟩ :=
        ih hnext (fun y hy => hxs y (List.mem_cons_of_mem x hy)) hrest
      have hsub := gathered_step count f s x
      by_cases hcontinues : before = [] ∧ x.1 = f
      · obtain ⟨rfl, hf⟩ := hcontinues
        rw [if_pos hf] at hsub
        refine ⟨[], x :: own, after, by rw [heq]; rfl, ?_, fun i hi => ?_⟩
        · intro y hy
          rcases List.mem_cons.mp hy with rfl | hy
          · exact hf
          · exact hown y hy
        · rcases hcovers i hi with hmem | ⟨-, hmem⟩
          · exact Or.inl (List.mem_cons_of_mem x hmem)
          · rcases Finset.mem_insert.mp (hsub hmem) with rfl | hmem
            · exact Or.inl (hf ▸ List.mem_cons_self)
            · exact Or.inr ⟨rfl, hmem⟩
      · refine ⟨x :: before, own, after, by rw [heq]; rfl, hown, fun i hi => ?_⟩
        rcases hcovers i hi with hmem | ⟨hnil, hmem⟩
        · exact Or.inl hmem
        · rw [if_neg fun hf => hcontinues ⟨hnil, hf⟩] at hsub
          exact absurd (hsub hmem) (Finset.notMem_empty i)

/-- A frame each piece of which arrives once is completed if nothing comes between them. -/
theorem mem_finished_iff (hpos : 0 < count f) {xs : List (F × Nat)} (hnodup : xs.Nodup)
    (hxs : ∀ x ∈ xs, x.2 < count x.1) (hall : ∀ i < count f, (f, i) ∈ xs) :
    f ∈ finished count none xs ↔ Uninterrupted f xs := by
  constructor
  · intro h
    obtain ⟨before, own, after, rfl, hown, hcovers⟩ :=
      run_of_mem_finished (partial_none count) hxs h
    -- all its pieces are in the middle, and no piece comes twice
    have hmiddle : ∀ x ∈ before ++ (own ++ after), x.1 = f → x ∈ own := by
      intro x hx hf
      obtain ⟨g, i⟩ := x
      subst hf
      exact (hcovers i (hxs _ hx)).resolve_right fun h => Finset.notMem_empty _ h.2
    obtain ⟨_, hright, hapart⟩ := List.nodup_append.mp hnodup
    obtain ⟨_, _, hapart'⟩ := List.nodup_append.mp hright
    refine ⟨before, own, after, rfl, fun x hx hf => ?_, hown, fun x hx hf => ?_⟩
    · have hmem := hmiddle x (List.mem_append_left _ hx) hf
      exact hapart x hx x (List.mem_append_left _ hmem) rfl
    · have hmem := hmiddle x (List.mem_append_right _ (List.mem_append_right _ hx)) hf
      exact hapart' x hmem x hx rfl
  · rintro ⟨before, own, after, rfl, hbefore, hown, hafter⟩
    have hlt : ∀ x ∈ before, x.2 < count x.1 := fun x hx => hxs x (List.mem_append_left _ hx)
    have hstart := gathered_foldl count (gathered_none f) hbefore
    have hheld := partial_foldl (partial_none count) hlt
    have hpieces : own = (own.map Prod.snd).map (f, ·) := by
      rw [List.map_map]
      exact (List.map_id own).symm.trans (List.map_congr_left fun x hx => Prod.ext (hown x hx) rfl)
    have hindices : ∀ i ∈ own.map Prod.snd, i < count f := by
      intro i hi
      obtain ⟨x, hx, rfl⟩ := List.mem_map.mp hi
      have := hxs x (List.mem_append_right _ (List.mem_append_left _ hx))
      rwa [hown x hx] at this
    have hcovers : Covers (count f) ∅ (own.map Prod.snd) := by
      intro i hi
      right
      rcases List.mem_append.mp (hall i hi) with hmem | hmem
      · exact absurd rfl (hbefore _ hmem)
      · rcases List.mem_append.mp hmem with hmem | hmem
        · exact List.mem_map.mpr ⟨_, hmem, rfl⟩
        · exact absurd rfl (hafter _ hmem)
    rw [finished_append, finished_append, hpieces]
    refine List.mem_append_right _ (List.mem_append_left _ ?_)
    obtain ⟨_, hsome⟩ := finished_alone hheld hpos hindices
    rw [hstart] at hsome
    obtain ⟨_, _, _, _, _, hfinished⟩ := hsome hcovers
    rw [hfinished]
    exact List.mem_cons_self

end Among

end Gather
