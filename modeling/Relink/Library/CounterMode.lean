import Mathlib.Data.List.Basic
import Mathlib.Data.List.Iterate
import Mathlib.Data.List.Nodup
import Mathlib.Data.Nat.ModEq

/-! Counter mode over sixteen-byte blocks.

A text is combined with the keystream a block function makes of successive counter
blocks, the last piece with as much of its block as it needs. The transformation keeps
lengths and is its own inverse, for any block function and any counter. Where the counter counts
modulo a number, the counters of a text of at most that many blocks are all different. -/
namespace CounterMode
variable {C : Type} (keystream : C → Vector UInt8 16) (next : C → C)

/-- Combine the text with the keystream that starts at a counter. -/
def apply (counter : C) (input : List UInt8) : List UInt8 :=
  if input = [] then []
  else (input.take 16).zipWith (· ^^^ ·) (keystream counter).toList ++
    apply (next counter) (input.drop 16)
termination_by input.length
decreasing_by
  rename_i hne
  have := List.length_pos_iff.mpr hne
  rw [List.length_drop]
  omega

@[simp] theorem apply_nil (counter : C) : apply keystream next counter [] = [] := by
  rw [apply, if_pos rfl]

theorem apply_block (counter : C) {input : List UInt8} (h : input ≠ []) :
    apply keystream next counter input =
      (input.take 16).zipWith (· ^^^ ·) (keystream counter).toList ++
        apply keystream next (next counter) (input.drop 16) := by
  rw [apply, if_neg h]

@[simp] theorem apply_length (counter : C) (input : List UInt8) :
    (apply keystream next counter input).length = input.length := by
  induction counter, input using apply.induct next with
  | case1 counter => rw [apply_nil]
  | case2 counter input h ih =>
    rw [apply_block keystream next counter h, List.length_append, ih]
    simp only [List.length_zipWith, List.length_take, List.length_drop, Vector.length_toList]
    omega

/-- A keystream applied twice is gone. -/
theorem zipWith_xor_twice (text stream : List UInt8) (h : text.length ≤ stream.length) :
    (text.zipWith (· ^^^ ·) stream).zipWith (· ^^^ ·) stream = text := by
  induction text generalizing stream with
  | nil => rfl
  | cons b rest ih =>
    cases stream with
    | nil => exact absurd h (by simp)
    | cons k ks =>
      simp only [List.zipWith_cons_cons, UInt8.xor_assoc, UInt8.xor_self, UInt8.xor_zero]
      rw [ih ks (by simpa using h)]

/-- Counter mode is its own inverse. -/
theorem apply_apply (counter : C) (input : List UInt8) :
    apply keystream next counter (apply keystream next counter input) = input := by
  induction counter, input using apply.induct next with
  | case1 counter => rw [apply_nil, apply_nil]
  | case2 counter input h ih =>
    have hlen : ((input.take 16).zipWith (· ^^^ ·) (keystream counter).toList).length =
        min 16 input.length := by
      simp
    have hne : apply keystream next counter input ≠ [] := by
      intro hnil
      have := apply_length keystream next counter input
      rw [hnil] at this
      exact h (List.length_eq_zero_iff.mp this.symm)
    rw [apply_block keystream next counter hne, apply_block keystream next counter h]
    by_cases hfull : 16 ≤ input.length
    · rw [List.take_left' (by omega), List.drop_left' (by omega), ih,
        zipWith_xor_twice _ _ (by rw [List.length_take, Vector.length_toList]; omega), List.take_append_drop]
    · -- the last block: nothing is left after it
      rw [List.drop_eq_nil_of_le (by omega), apply_nil, List.append_nil,
        List.take_of_length_le (by omega), List.drop_eq_nil_of_le (by omega), apply_nil,
        List.append_nil, List.take_of_length_le (by omega : input.length ≤ 16),
        zipWith_xor_twice _ _ (by rw [Vector.length_toList]; omega)]

/-! ### The counters of a text -/

/-- Counter mode with a log of the counters that the block function is given. -/
def logged (counter : C) (input : List UInt8) : List UInt8 × List C :=
  if input = [] then ([], [])
  else
    let rest := logged (next counter) (input.drop 16)
    ((input.take 16).zipWith (· ^^^ ·) (keystream counter).toList ++ rest.1, counter :: rest.2)
termination_by input.length
decreasing_by
  rename_i hne
  have := List.length_pos_iff.mpr hne
  rw [List.length_drop]
  omega

/-- One counter for each block that is begun. -/
theorem logged_eq (counter : C) (input : List UInt8) : logged keystream next counter input =
    (apply keystream next counter input, List.iterate next counter ((input.length + 15) / 16)) := by
  induction counter, input using logged.induct keystream next with
  | case1 counter =>
    rw [logged, if_pos rfl, apply_nil]
    rfl
  | case2 counter input h ih =>
    have hpos := List.length_pos_iff.mpr h
    have hcount : (input.length + 15) / 16 = ((input.drop 16).length + 15) / 16 + 1 := by
      rw [List.length_drop]
      omega
    rw [logged, if_neg h, ih, apply_block keystream next counter h, hcount]
    rfl

section
variable {next} {value : C → Nat} {period : Nat}

/-- The counter after some steps, where a step counts on. -/
theorem value_iterate (hnext : ∀ c, value (next c) = (value c + 1) % period) (counter : C) (n : Nat) :
    value (next^[n] counter) % period = (value counter + n) % period := by
  induction n with
  | zero => rfl
  | succ n ih =>
    rw [Function.iterate_succ_apply', hnext, Nat.mod_mod, ← Nat.mod_add_mod, ih, Nat.mod_add_mod,
      Nat.add_assoc]

/-- Within a period no counter comes twice, and after it the first comes again. -/
theorem iterate_nodup_iff (hnext : ∀ c, value (next c) = (value c + 1) % period) {counter : C}
    (hreturns : next^[period] counter = counter) (hpos : 0 < period) (n : Nat) :
    (List.iterate next counter n).Nodup ↔ n ≤ period := by
  rw [← List.range_map_iterate]
  constructor
  · intro h
    by_contra hlong
    have hsame := List.inj_on_of_nodup_map h (List.mem_range.mpr (by omega : 0 < n))
      (List.mem_range.mpr (by omega : period < n)) hreturns.symm
    omega
  · intro hn
    refine List.nodup_range.map_on fun i hi j hj heq => ?_
    have hi := List.mem_range.mp hi
    have hj := List.mem_range.mp hj
    have hsame : value (next^[i] counter) % period = value (next^[j] counter) % period := by
      rw [heq]
    rw [value_iterate hnext, value_iterate hnext] at hsame
    exact (Nat.ModEq.add_left_cancel' _ hsame).eq_of_lt_of_lt (by omega) (by omega)

end

end CounterMode
