import Mathlib.Data.List.Basic
import Relink.Library.Buffer

/-! Arrays of packed records.

A `Record` is a fixed-size codec with the proofs that make it one; its arrays are the
encodings laid end to end, and the `i`-th element is decoded at offset `i * size`. -/

/-- A codec of values of one type as byte strings of one size. -/
structure Record (α : Type) where
  size : Nat
  encode : α → List UInt8
  decode : List UInt8 → α
  length_encode : ∀ x, (encode x).length = size
  decode_encode : ∀ x rest, decode (encode x ++ rest) = x

namespace Record
variable {α : Type} (r : Record α)

/-- The elements one after the other. -/
def array (xs : List α) : List UInt8 := xs.flatMap r.encode

/-- The element at index `i` of an array that starts the buffer. -/
def load (buf : List UInt8) (i : Nat) : α := r.decode (buf.drop (i * r.size))

/-- The first `n` elements. -/
def loads (n : Nat) (buf : List UInt8) : List α := (List.range n).map (r.load buf)

@[simp] theorem array_nil : r.array [] = [] := rfl

theorem array_cons (x : α) (xs : List α) : r.array (x :: xs) = r.encode x ++ r.array xs := rfl

@[simp] theorem array_length (xs : List α) : (r.array xs).length = xs.length * r.size := by
  induction xs with
  | nil => simp
  | cons x xs ih =>
    rw [array_cons, List.length_append, r.length_encode, ih, List.length_cons, Nat.succ_mul,
      Nat.add_comm]

theorem load_array_zero (x : α) (xs : List α) (rest : List UInt8) :
    r.load (r.array (x :: xs) ++ rest) 0 = x := by
  rw [load, Nat.zero_mul, List.drop_zero, array_cons, List.append_assoc, r.decode_encode]

theorem load_array_succ (x : α) (xs : List α) (rest : List UInt8) (i : Nat) :
    r.load (r.array (x :: xs) ++ rest) (i + 1) = r.load (r.array xs ++ rest) i := by
  have hdrop : (i + 1) * r.size = (r.encode x).length + i * r.size := by
    rw [Nat.succ_mul, r.length_encode, Nat.add_comm]
  rw [load, array_cons, List.append_assoc, hdrop, List.drop_length_add_append, load]

/-- Loading all elements of an array gives them back, whatever follows it. -/
theorem loads_array (xs : List α) (rest : List UInt8) :
    r.loads xs.length (r.array xs ++ rest) = xs := by
  induction xs with
  | nil => rfl
  | cons x xs ih =>
    rw [loads, List.length_cons, List.range_succ_eq_map, List.map_cons, load_array_zero,
      List.map_map]
    congr 1
    calc (List.range xs.length).map (r.load (r.array (x :: xs) ++ rest) ∘ Nat.succ)
        = r.loads xs.length (r.array xs ++ rest) :=
          List.map_congr_left fun i _ => r.load_array_succ x xs rest i
      _ = xs := ih

/-! ### The other direction -/

theorem loads_succ (n : Nat) (buf : List UInt8) :
    r.loads (n + 1) buf = r.load buf 0 :: r.loads n (buf.drop r.size) := by
  rw [loads, List.range_succ_eq_map, List.map_cons, List.map_map, loads]
  congr 1
  refine List.map_congr_left fun i _ => ?_
  show r.decode (buf.drop ((i + 1) * r.size)) = r.decode ((buf.drop r.size).drop (i * r.size))
  rw [List.drop_drop, Nat.succ_mul, Nat.add_comm]

@[simp] theorem loads_length (n : Nat) (buf : List UInt8) : (r.loads n buf).length = n := by
  rw [loads, List.length_map, List.length_range]

/-- A codec without spare bits: all strings of its size are encodings. -/
def Exact : Prop := ∀ b : List UInt8, b.length = r.size → r.encode (r.decode b) = b

variable {r}

/-- A value is decoded from its own bytes alone. -/
theorem Exact.decode_append (h : r.Exact) {b : List UInt8} (hb : b.length = r.size)
    (rest : List UInt8) : r.decode (b ++ rest) = r.decode b := by
  rw [← h b hb, r.decode_encode, ← List.append_nil (r.encode _), r.decode_encode]

/-- Every string of whole records is an array. -/
theorem Exact.array_loads (h : r.Exact) (n : Nat) {buf : List UInt8}
    (hlen : buf.length = n * r.size) : r.array (r.loads n buf) = buf := by
  induction n generalizing buf with
  | zero =>
    rw [Nat.zero_mul, List.length_eq_zero_iff] at hlen
    exact hlen.symm
  | succ n ih =>
    rw [Nat.succ_mul] at hlen
    have htake : (buf.take r.size).length = r.size := by
      rw [List.length_take]
      omega
    have hfirst : r.encode (r.load buf 0) = buf.take r.size := by
      rw [load, Nat.zero_mul, List.drop_zero, ← List.take_append_drop r.size buf,
        h.decode_append htake, h _ htake, List.take_append_drop]
    rw [loads_succ, array_cons, hfirst, ih (by rw [List.length_drop]; omega),
      List.take_append_drop]

/-- Elements inside a buffer are the same whatever follows the buffer. -/
theorem Exact.loads_append (h : r.Exact) {n : Nat} {buf : List UInt8} (rest : List UInt8)
    (hlen : n * r.size ≤ buf.length) : r.loads n (buf ++ rest) = r.loads n buf := by
  induction n generalizing buf with
  | zero => rfl
  | succ n ih =>
    rw [Nat.succ_mul] at hlen
    have htake : (buf.take r.size).length = r.size := by
      rw [List.length_take]
      omega
    have hfirst : ∀ more, r.load (buf ++ more) 0 = r.decode (buf.take r.size) := by
      intro more
      rw [load, Nat.zero_mul, List.drop_zero, ← h.decode_append htake (buf.drop r.size ++ more),
        ← List.append_assoc, List.take_append_drop]
    have hhere := hfirst []
    rw [List.append_nil] at hhere
    rw [loads_succ, loads_succ, hfirst, hhere, List.drop_append_of_le_length (by omega),
      ih (by rw [List.length_drop]; omega)]

/-- The element at index `i`, its bytes copied out of the buffer. -/
def fetch (r : Record α) (buf : List UInt8) (i : Nat) : Except Buffer.Fault α :=
  (Buffer.load buf (i * r.size) r.size).map r.decode

theorem Exact.fetch_ok (h : r.Exact) {n i : Nat} {buf : List UInt8} (hi : i < n)
    (hlen : n * r.size ≤ buf.length) : r.fetch buf i = .ok (r.load buf i) := by
  have hroom : i * r.size + r.size ≤ buf.length := by
    rw [← Nat.succ_mul]
    exact Nat.le_trans (Nat.mul_le_mul_right _ hi) hlen
  have htake : ((buf.drop (i * r.size)).take r.size).length = r.size := by
    rw [List.length_take, List.length_drop]
    omega
  have hdecode := h.decode_append htake ((buf.drop (i * r.size)).drop r.size)
  rw [List.take_append_drop] at hdecode
  rw [fetch, Buffer.load_ok hroom, load, hdecode]
  rfl

end Record
