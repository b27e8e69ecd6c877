import Relink.Library.Buffer

/-! Byte strings cut into slots.

All slots have one size, except that the last is cut short by the end of the string.
A string is the concatenation of its slots, and a buffer that has each slot in its place
begins with the string. -/
namespace Slots
open Buffer

/-- The bytes in slot `i`. -/
def slot (size : Nat) (data : List UInt8) (i : Nat) : List UInt8 := region data (i * size) size

/-- How many slots it takes. -/
def slots (size length : Nat) : Nat := (length + size - 1) / size

section
variable (size : Nat) (data : List UInt8) (i : Nat)

theorem slot_length : (slot size data i).length = min size (data.length - i * size) := by
  rw [slot, region, List.length_take, List.length_drop]

theorem slot_length_le : (slot size data i).length ≤ size := by
  rw [slot_length]
  exact Nat.min_le_left ..

end

section
variable {size : Nat} {data : List UInt8} {i : Nat}

/-- Asking for no more bytes than there are changes nothing. -/
theorem region_eq_slot : region data (i * size) (min size (data.length - i * size)) =
    slot size data i := by
  rw [slot, region, region, ← List.length_drop, ← List.take_eq_take_min]

theorem slots_le (hsize : 0 < size) (length : Nat) : length ≤ slots size length * size := by
  have hdiv := Nat.div_add_mod (length + size - 1) size
  have hmod := Nat.mod_lt (length + size - 1) hsize
  rw [slots, Nat.mul_comm]
  omega

/-- All slots but the last are full. -/
theorem slots_full (hsize : 0 < size) (length : Nat) : (slots size length - 1) * size ≤ length := by
  have hdiv := Nat.div_mul_le_self (length + size - 1) size
  rw [slots, Nat.sub_mul]
  omega

theorem slots_le_of_le {n length : Nat} (hsize : 0 < size) (h : length ≤ n * size) :
    slots size length ≤ n := by
  rw [slots, Nat.div_le_iff_le_mul_add_pred hsize, Nat.mul_comm]
  omega

theorem flatten_slots (size : Nat) (data : List UInt8) (n : Nat) :
    ((List.range n).map (slot size data)).flatten = data.take (n * size) := by
  induction n with
  | zero => rw [Nat.zero_mul]; rfl
  | succ n ih =>
    rw [List.range_succ, List.map_append, List.flatten_append, ih, List.map_singleton,
      List.flatten_singleton, slot, region, Nat.succ_mul, List.take_add]

/-- Slot by slot, a buffer has got the whole string. -/
theorem take_of_slots {buf : List UInt8} {n : Nat} (hsize : 0 < size)
    (hle : data.length ≤ n * size)
    (hslots : ∀ i, i < n → region buf (i * size) (slot size data i).length = slot size data i) :
    buf.take data.length = data := by
  refine List.ext_getElem? fun j => ?_
  rw [List.getElem?_take]
  split
  · next hj =>
    have hslot : j / size < n := Nat.div_lt_of_lt_mul (by rw [Nat.mul_comm]; omega)
    have hmod := Nat.mod_lt j hsize
    have hsplit : j / size * size + j % size = j := Nat.div_add_mod' j size
    have hin : j % size < (slot size data (j / size)).length := by
      rw [slot_length]
      omega
    have hbuf : (region buf (j / size * size) (slot size data (j / size)).length)[j % size]? =
        buf[j]? := by
      rw [region_getElem?, if_pos hin, hsplit]
    rw [← hbuf, hslots _ hslot, slot, region_getElem?, if_pos hmod, hsplit]
  · next hj => exact (List.getElem?_eq_none (Nat.le_of_not_lt hj)).symm

end

/-! ### Slots one after another -/

/-- A slot that is not full is padded. -/
def padded (size : Nat) (piece : List UInt8) : List UInt8 :=
  piece ++ List.replicate (size - piece.length) 0

theorem padded_length {size : Nat} {piece : List UInt8} (h : piece.length ≤ size) :
    (padded size piece).length = size := by
  rw [padded, List.length_append, List.length_replicate]
  omega

section
variable {size : Nat} {f : Nat → List UInt8}

theorem length_flatMap_range (hsize : ∀ i, (f i).length = size) (n : Nat) :
    ((List.range n).flatMap f).length = n * size := by
  rw [List.length_flatMap]
  simp only [hsize, List.map_const', List.length_range, List.sum_replicate_nat]

theorem flatMap_range_split (f : Nat → List UInt8) {i n : Nat} (hi : i < n) :
    (List.range n).flatMap f =
      (List.range i).flatMap f ++ (f i ++ ((List.range n).drop (i + 1)).flatMap f) := by
  have hlength : i < (List.range n).length := by rwa [List.length_range]
  have hsplit := List.take_append_drop i (List.range n)
  rw [List.take_range, Nat.min_eq_left (Nat.le_of_lt hi), List.drop_eq_getElem_cons hlength,
    List.getElem_range] at hsplit
  rw [← hsplit, List.flatMap_append, List.flatMap_cons, hsplit]

/-- What is written into a slot changes that slot. -/
theorem write_flatMap_range (hsize : ∀ i, (f i).length = size) {i n : Nat} (hi : i < n)
    {src : List UInt8} (hsrc : src.length ≤ size) :
    write ((List.range n).flatMap f) (i * size) src =
      (List.range n).flatMap fun j => if j = i then src ++ (f i).drop src.length else f j := by
  have hbefore : ((List.range i).flatMap f).length = i * size := length_flatMap_range hsize i
  have hsame : ∀ is : List Nat, i ∉ is →
      is.flatMap (fun j => if j = i then src ++ (f i).drop src.length else f j) = is.flatMap f := by
    intro is hnot
    refine congrArg List.flatten (List.map_congr_left fun j hj => ?_)
    have hne : j ≠ i := by
      rintro rfl
      exact hnot hj
    rw [if_neg hne]
  have hafter : i ∉ (List.range n).drop (i + 1) := by
    rw [List.mem_drop_iff_getElem]
    rintro ⟨k, hk, heq⟩
    rw [List.getElem_range] at heq
    omega
  rw [flatMap_range_split f hi, flatMap_range_split _ hi, hsame _ hafter,
    hsame (List.range i) (by simp), if_pos rfl, write, List.take_left' hbefore]
  congr 1
  rw [← List.drop_drop, List.drop_left' hbefore, List.drop_append_of_le_length (by rw [hsize]; exact hsrc),
    List.append_assoc]

theorem length_flatMap_range_full {n : Nat} (hle : ∀ i, (f i).length ≤ size) :
    ((List.range n).flatMap f).length ≤ n * size ∧
      (((List.range n).flatMap f).length = n * size ↔ ∀ i, i < n → (f i).length = size) := by
  induction n with
  | zero => simp
  | succ n ih =>
    have hlast := hle n
    rw [List.range_succ, List.flatMap_append, List.flatMap_singleton, List.length_append,
      Nat.succ_mul]
    refine ⟨by omega, fun heq i hi => ?_, fun hall => ?_⟩
    · rcases Nat.lt_succ_iff_lt_or_eq.mp hi with hlt | rfl
      · exact ih.2.mp (by omega) i hlt
      · omega
    · rw [ih.2.mpr fun i hi => hall i (Nat.lt_succ_of_lt hi), hall n (Nat.lt_succ_self n)]

/-- Cut after the last piece, padded pieces are the pieces exactly if all before it are full. -/
theorem take_padded_iff (hle : ∀ i, (f i).length ≤ size) (n : Nat) :
    ((List.range (n + 1)).flatMap fun i => padded size (f i)).take (n * size + (f n).length) =
        (List.range (n + 1)).flatMap f ↔ ∀ i, i < n → (f i).length = size := by
  have hbefore : ((List.range n).flatMap fun i => padded size (f i)).length = n * size :=
    length_flatMap_range (fun i => padded_length (hle i)) n
  rw [List.range_succ, List.flatMap_append, List.flatMap_append, List.flatMap_singleton,
    List.flatMap_singleton, ← hbefore, List.take_length_add_append, padded, List.take_left,
    List.append_left_inj]
  constructor
  · intro heq
    rw [heq] at hbefore
    exact (length_flatMap_range_full hle).2.mp hbefore
  · intro hall
    refine congrArg List.flatten (List.map_congr_left fun i hi => ?_)
    rw [padded, hall i (List.mem_range.mp hi), Nat.sub_self, List.replicate_zero, List.append_nil]

end

end Slots
