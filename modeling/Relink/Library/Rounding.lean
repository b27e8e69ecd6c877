import Mathlib.Algebra.Order.Round
import Mathlib.Data.Rat.Floor

/-! Rounding to an integer.

`round` takes a number halfway between two integers to the greater of them, and `halfEven` to the
even one, so that they differ exactly halfway above an even integer. -/
namespace Rounding

/-- Towards zero. -/
def truncate (x : ℚ) : ℤ := x.num.tdiv x.den

theorem truncate_eq_floor {x : ℚ} (h : 0 ≤ x) : truncate x = ⌊x⌋ := by
  rw [truncate, Int.tdiv_eq_ediv_of_nonneg (Rat.num_nonneg.mpr h), Rat.floor_def']

theorem truncate_add_half {x : ℚ} (h : 0 ≤ x) : truncate (x + 1 / 2) = round x := by
  rw [truncate_eq_floor (by linarith), round_eq]

section
variable {α : Type} [Field α] [LinearOrder α] [IsStrictOrderedRing α] [FloorRing α]

/-- The nearest integer, and of two the even one. -/
def halfEven (x : α) : ℤ :=
  if Int.fract x < 1 / 2 then ⌊x⌋
  else if 1 / 2 < Int.fract x then ⌊x⌋ + 1
  else if Even ⌊x⌋ then ⌊x⌋
  else ⌊x⌋ + 1

/-- Halfway between an even integer and the next. -/
def AboveEven (x : α) : Prop := ∃ k : ℤ, Even k ∧ x = k + 1 / 2

theorem aboveEven_iff {x : α} : AboveEven x ↔ Int.fract x = 1 / 2 ∧ Even ⌊x⌋ := by
  constructor
  · rintro ⟨k, hk, rfl⟩
    have hhalf : Int.fract (1 / 2 : α) = 1 / 2 := Int.fract_eq_self.mpr ⟨by norm_num, by norm_num⟩
    have hfloor : ⌊(1 / 2 : α)⌋ = 0 := by
      rw [Int.floor_eq_zero_iff]
      exact ⟨by norm_num, by norm_num⟩
    rw [Int.fract_intCast_add, Int.floor_intCast_add, hfloor, add_zero]
    exact ⟨hhalf, hk⟩
  · rintro ⟨hfract, hk⟩
    exact ⟨⌊x⌋, hk, by rw [← hfract, Int.floor_add_fract]⟩

instance (x : α) : Decidable (AboveEven x) := decidable_of_iff _ aboveEven_iff.symm

/-- **Half up and half to even** are the same but halfway above an even integer. -/
theorem round_eq_halfEven_iff {x : α} : round x = halfEven x ↔ ¬AboveEven x := by
  have hround : round x = if Int.fract x < 1 / 2 then ⌊x⌋ else ⌊x⌋ + 1 := by
    rw [round_eq]
    have hx := Int.floor_add_fract x
    have hlow := Int.fract_nonneg x
    have hhigh := Int.fract_lt_one x
    split
    · next h =>
      rw [Int.floor_eq_iff]
      constructor
      · linarith
      · linarith
    · next h =>
      rw [Int.floor_eq_iff]
      push_cast
      constructor
      · linarith
      · linarith
  rw [hround, aboveEven_iff, halfEven]
  split
  · next h => exact iff_of_true rfl fun htie => h.ne htie.1
  · next h =>
    split
    · next hlt => exact iff_of_true rfl fun htie => hlt.ne htie.1.symm
    · next hle =>
      have hhalf : Int.fract x = 1 / 2 := le_antisymm (not_lt.mp hle) (not_lt.mp h)
      split
      · next heven => exact iff_of_false (by omega) fun htie => htie ⟨hhalf, heven⟩
      · next hodd => exact iff_of_true rfl fun htie => hodd htie.2

end

end Rounding
