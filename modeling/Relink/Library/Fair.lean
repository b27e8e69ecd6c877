import Mathlib.Order.WellFounded

/-! Endless runs.

A run without end is a function from the step's number to its input. What is scheduled again and
again, and lowers a rank each time, reaches its goal, whatever else the run does in between. -/
namespace Transition
variable {S A : Type} {step : S → A → S} {s : S} {run : Nat → A}

/-- The state after the first inputs of a run. -/
def after (step : S → A → S) (s : S) (run : Nat → A) : Nat → S
  | 0 => s
  | n + 1 => step (after step s run n) (run n)

/-- An invariant of the steps that satisfy a condition holds of every state. -/
theorem after_invariant (Inv : S → Prop) (C : S → A → Prop)
    (hstep : ∀ s a, Inv s → C s a → Inv (step s a)) (hs : Inv s)
    (hc : ∀ n, C (after step s run n) (run n)) (n : Nat) : Inv (after step s run n) := by
  induction n with
  | zero => exact hs
  | succ n ih => exact hstep _ _ ih (hc n)

/-- What each step has to do with the next state, earlier states have to do with later ones. -/
theorem after_related (R : S → S → Prop) (hrefl : ∀ s, R s s)
    (htrans : ∀ {s t u}, R s t → R t u → R s u) {m n : Nat} (hmn : m ≤ n)
    (hstep : ∀ k, m ≤ k → R (after step s run k) (after step s run (k + 1))) :
    R (after step s run m) (after step s run n) := by
  induction n, hmn using Nat.le_induction with
  | base => exact hrefl _
  | succ n hmn ih => exact htrans ih (hstep n hmn)

/-- Inputs that come again and again, each of which lowers a rank that no other input raises, bring
a run to its goal. -/
theorem eventually_of_rank {α : Type} [Preorder α] [WellFoundedLT α] (rank : S → α)
    (Goal : S → Prop) (mine : A → Prop) (m : Nat) (hfair : ∀ n, ∃ k, n ≤ k ∧ mine (run k))
    (hlt : ∀ n, m ≤ n → ¬ Goal (after step s run n) → mine (run n) →
      rank (after step s run (n + 1)) < rank (after step s run n))
    (hle : ∀ n, m ≤ n → ¬ Goal (after step s run n) → ¬ mine (run n) →
      rank (after step s run (n + 1)) ≤ rank (after step s run n)) :
    ∃ n, m ≤ n ∧ Goal (after step s run n) := by
  by_contra hnever
  push Not at hnever
  have hstep : ∀ n, m ≤ n → rank (after step s run (n + 1)) ≤ rank (after step s run n) := by
    intro n hn
    by_cases hmine : mine (run n)
    · exact (hlt n hn (hnever n hn) hmine).le
    · exact hle n hn (hnever n hn) hmine
  -- Each rank that the run has is followed by a lower one.
  suffices hdrop : ∀ r n, m ≤ n → rank (after step s run n) = r → False from
    hdrop _ m (le_refl m) rfl
  intro r
  induction r using WellFoundedLT.induction with
  | ind r ih =>
    intro n hn hr
    obtain ⟨k, hnk, hmine⟩ := hfair n
    have hdown : rank (after step s run k) ≤ rank (after step s run n) :=
      after_related (fun s t => rank t ≤ rank s) (fun s => le_refl _) (fun h h' => h'.trans h) hnk
        fun j hj => hstep j (hn.trans hj)
    have hmk := hn.trans hnk
    refine ih _ ?_ (k + 1) (hmk.trans (Nat.le_succ k)) rfl
    exact hr ▸ (hlt k hmk (hnever k hmk) hmine).trans_le hdown

end Transition
