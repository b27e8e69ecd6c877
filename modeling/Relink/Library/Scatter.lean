import Relink.Library.Buffer

/-! Copies that are not atomic.

A copy of bytes is many stores, and other threads run between them. `Underway` says how far one
is: where no byte is still to be copied, the buffer is as the whole copy leaves it. Which byte is
next does not matter. -/
namespace Scatter
open Buffer

/-- The positions in `todo` are still to be copied, and the rest is as in `target`. -/
structure Underway (todo : List Nat) (buf target : List UInt8) : Prop where
  length : buf.length = target.length
  done : ∀ i, i ∉ todo → buf[i]? = target[i]?

namespace Underway
variable {todo : List Nat} {buf target : List UInt8}

/-- A byte is copied. -/
theorem step (h : Underway todo buf target) {i : Nat} {b : UInt8} (hb : target[i]? = some b) :
    Underway (todo.erase i) (buf.set i b) target := by
  refine ⟨(List.length_set ..).trans h.length, fun j hj => ?_⟩
  by_cases hij : i = j
  · subst hij
    have hlt : i < buf.length := h.length ▸ (List.getElem?_eq_some_iff.mp hb).1
    rw [List.getElem?_set_self hlt, hb]
  · rw [List.getElem?_set_ne hij]
    exact h.done j fun hmem => hj ((List.mem_erase_of_ne (Ne.symm hij)).mpr hmem)

theorem finish (h : Underway [] buf target) : buf = target := by
  apply List.ext_getElem?
  intro i
  exact h.done i List.not_mem_nil

/-- Nothing is copied yet. -/
theorem start (h : buf.length = target.length) : Underway (List.range target.length) buf target := by
  refine ⟨h, fun i hi => ?_⟩
  rw [List.mem_range, Nat.not_lt] at hi
  rw [List.getElem?_eq_none (by omega), List.getElem?_eq_none hi]

/-- A `memcpy` into a buffer, before its first byte. -/
theorem write {src : List UInt8} {offset : Nat} (h : offset + src.length ≤ buf.length) :
    Underway ((List.range src.length).map (offset + ·)) buf (Buffer.write buf offset src) := by
  refine ⟨(write_length h).symm, fun i hi => ?_⟩
  rw [write_getElem? h, if_neg]
  rintro ⟨hle, hlt⟩
  refine hi (List.mem_map.mpr ⟨i - offset, List.mem_range.mpr (by omega), ?_⟩)
  omega

end Underway

/-- Bytes that follow each other are copied as one. -/
theorem write_append {buf src src' : List UInt8} {offset : Nat}
    (h : offset + (src.length + src'.length) ≤ buf.length) :
    Buffer.write (Buffer.write buf offset src) (offset + src.length) src' =
      Buffer.write buf offset (src ++ src') := by
  have hfirst : offset + src.length ≤ buf.length := by omega
  have hsecond : offset + src.length + src'.length ≤ (Buffer.write buf offset src).length := by
    rw [write_length hfirst]
    omega
  have hboth : offset + (src ++ src').length ≤ buf.length := by
    rw [List.length_append]
    exact h
  apply List.ext_getElem?
  intro i
  rw [write_getElem? hsecond, write_getElem? hfirst, write_getElem? hboth, List.length_append]
  by_cases hlow : i < offset
  · rw [if_neg (by omega), if_neg (by omega), if_neg (by omega)]
  by_cases hmid : i < offset + src.length
  · rw [if_neg (by omega), if_pos ⟨by omega, hmid⟩, if_pos (by omega),
      List.getElem?_append_left (by omega)]
  by_cases hhigh : i < offset + src.length + src'.length
  · rw [if_pos ⟨by omega, hhigh⟩, if_pos (by omega), List.getElem?_append_right (by omega)]
    congr 1
    omega
  · rw [if_neg (by omega), if_neg (by omega), if_neg (by omega)]

end Scatter
