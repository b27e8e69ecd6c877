import Mathlib.Data.Nat.ModEq
import Mathlib.Tactic.ByContra

/-! The indices of a bounded ring.

`pushed` and `popped` count what went in and out since the ring was empty; the writer's
index is `pushed` modulo the capacity and the reader's `popped`. One slot stays free, so
that the indices agree only on an empty ring. -/
namespace Ring
variable {capacity pushed popped : Nat}

/-- Fewer are in the ring than it has slots. -/
structure Room (capacity pushed popped : Nat) : Prop where
  le : popped ≤ pushed
  lt : pushed < popped + capacity

theorem succ_mod (n capacity : Nat) : (n % capacity + 1) % capacity = (n + 1) % capacity := by
  rw [Nat.mod_add_mod]

/-- Numbers less than the capacity apart have different slots. -/
theorem slot_ne {i j : Nat} (hlt : i < j) (hle : j < i + capacity) : i % capacity ≠ j % capacity := by
  intro h
  have hdvd := (Nat.modEq_iff_dvd' hlt.le).mp h
  have := Nat.le_of_dvd (by omega) hdvd
  omega

/-- The ring is full where the writer's next index is the reader's. -/
theorem Room.full_iff (h : Room capacity pushed popped) :
    (pushed + 1) % capacity = popped % capacity ↔ pushed + 1 = popped + capacity := by
  have hle := h.le
  have hlt := h.lt
  constructor
  · intro heq
    by_contra hne
    exact slot_ne (by omega : popped < pushed + 1) (by omega) heq.symm
  · intro heq
    rw [heq, Nat.add_mod_right]

/-- The slot to write next holds nothing that is still to be read. -/
theorem Room.free (h : Room capacity pushed popped) {i : Nat} (hi : popped ≤ i) (hlt : i < pushed) :
    i % capacity ≠ pushed % capacity :=
  slot_ne hlt (Nat.lt_of_lt_of_le h.lt (by omega))

end Ring
