import Mathlib.Data.List.Basic

/-! Byte buffers with checked accesses.

The accesses of a C++ byte buffer, made total: one outside the buffer is a `Fault`
that names it. A program over these operations is memory safe exactly when it
never returns a fault. -/
namespace Buffer

inductive Fault where
  /-- `count` bytes read from a source that holds fewer. -/
  | read (count available : Nat)
  /-- `count` bytes written at `offset` of a buffer of `size` bytes. -/
  | write (offset count size : Nat)
  /-- The first `total` elements taken of a buffer of `size`. -/
  | slice (total size : Nat)
deriving DecidableEq, Repr

/-- `memcpy(buf + offset, src, count)`. -/
def copyInto (buf : List UInt8) (offset : Nat) (src : List UInt8) (count : Nat) :
    Except Fault (List UInt8) :=
  if src.length < count then .error (.read count src.length)
  else if buf.length < offset + count then .error (.write offset count buf.length)
  else .ok (buf.take offset ++ (src.take count ++ buf.drop (offset + count)))

/-- `vector(buf.begin(), buf.begin() + total)`. -/
def slice (buf : List UInt8) (total : Nat) : Except Fault (List UInt8) :=
  if buf.length < total then .error (.slice total buf.length) else .ok (buf.take total)

theorem copyInto_ok {buf src : List UInt8} {offset count : Nat} (hs : count ≤ src.length)
    (hb : offset + count ≤ buf.length) :
    copyInto buf offset src count =
      .ok (buf.take offset ++ (src.take count ++ buf.drop (offset + count))) := by
  rw [copyInto, if_neg (by omega), if_neg (by omega)]

theorem copyInto_length {buf src out : List UInt8} {offset count : Nat}
    (h : copyInto buf offset src count = .ok out) : out.length = buf.length := by
  unfold copyInto at h
  split at h
  · cases h
  split at h
  · cases h
  simp only [Except.ok.injEq] at h
  subst h
  simp only [List.length_append, List.length_take, List.length_drop]
  omega

theorem copyInto_fault {buf src : List UInt8} {offset count : Nat} (hs : count ≤ src.length)
    (hb : buf.length < offset + count) :
    copyInto buf offset src count = .error (.write offset count buf.length) := by
  rw [copyInto, if_neg (by omega), if_pos hb]

theorem slice_ok {buf : List UInt8} {total : Nat} (h : total ≤ buf.length) :
    slice buf total = .ok (buf.take total) := by
  rw [slice, if_neg (by omega)]

theorem eq_take_of_slice {buf image : List UInt8} {total : Nat} (h : slice buf total = .ok image) :
    image = buf.take total := by
  unfold slice at h
  split at h
  · cases h
  · exact (Except.ok.inj h).symm

/-- `memcpy(&x, buf + offset, count)`: the bytes loaded. -/
def load (buf : List UInt8) (offset count : Nat) : Except Fault (List UInt8) :=
  if buf.length < offset + count then .error (.read count (buf.length - offset))
  else .ok ((buf.drop offset).take count)

theorem load_ok {buf : List UInt8} {offset count : Nat} (h : offset + count ≤ buf.length) :
    load buf offset count = .ok ((buf.drop offset).take count) := by
  rw [load, if_neg (by omega)]

/-- `buf[offset]`. -/
def byteAt (buf : List UInt8) (offset : Nat) : Except Fault UInt8 :=
  match buf[offset]? with
  | none => .error (.read 1 (buf.length - offset))
  | some b => .ok b

theorem byteAt_ok {buf : List UInt8} {offset : Nat} (h : offset < buf.length) :
    byteAt buf offset = .ok (buf.getD offset 0) := by
  rw [byteAt, List.getD_eq_getElem?_getD, List.getElem?_eq_getElem h]
  rfl

/-! ### Accesses known to stay inside -/

/-- `memcpy(buf + offset, src, src.size())`. -/
def write (buf : List UInt8) (offset : Nat) (src : List UInt8) : List UInt8 :=
  buf.take offset ++ (src ++ buf.drop (offset + src.length))

theorem copyInto_all {buf src : List UInt8} {offset : Nat}
    (h : offset + src.length ≤ buf.length) :
    copyInto buf offset src src.length = .ok (write buf offset src) := by
  rw [copyInto_ok (Nat.le_refl _) h, List.take_length]
  rfl

/-- The `count` bytes at an offset. -/
def region (buf : List UInt8) (offset count : Nat) : List UInt8 := (buf.drop offset).take count

section
variable {buf src : List UInt8} {offset : Nat}

@[simp] theorem write_length (h : offset + src.length ≤ buf.length) :
    (write buf offset src).length = buf.length := by
  simp only [write, List.length_append, List.length_take, List.length_drop]
  omega

theorem write_getElem? (h : offset + src.length ≤ buf.length) (i : Nat) :
    (write buf offset src)[i]? =
      if offset ≤ i ∧ i < offset + src.length then src[i - offset]? else buf[i]? := by
  have htake : (buf.take offset).length = offset := by
    rw [List.length_take, Nat.min_eq_left (by omega)]
  rw [write, List.getElem?_append, htake]
  by_cases hlow : i < offset
  · rw [if_pos hlow, if_neg (by omega), List.getElem?_take_of_lt hlow]
  · rw [if_neg hlow, List.getElem?_append]
    by_cases hhigh : i - offset < src.length
    · rw [if_pos hhigh, if_pos (by omega)]
    · rw [if_neg hhigh, if_neg (by omega), List.getElem?_drop]
      congr 1
      omega

theorem region_getElem? (buf : List UInt8) (offset count i : Nat) :
    (region buf offset count)[i]? = if i < count then buf[offset + i]? else none := by
  rw [region, List.getElem?_take, List.getElem?_drop]

/-- What was written is there. -/
theorem region_write (h : offset + src.length ≤ buf.length) :
    region (write buf offset src) offset src.length = src := by
  refine List.ext_getElem? fun i => ?_
  rw [region_getElem?]
  by_cases hi : i < src.length
  · rw [if_pos hi, write_getElem? h, if_pos (by omega), Nat.add_sub_cancel_left]
  · rw [if_neg hi, List.getElem?_eq_none (by omega)]

/-- Bytes apart from the written ones stay. -/
theorem region_write_apart (h : offset + src.length ≤ buf.length) {off count : Nat}
    (hapart : off + count ≤ offset ∨ offset + src.length ≤ off) :
    region (write buf offset src) off count = region buf off count := by
  refine List.ext_getElem? fun i => ?_
  rw [region_getElem?, region_getElem?]
  by_cases hi : i < count
  · rw [if_pos hi, if_pos hi, write_getElem? h, if_neg (by omega)]
  · rw [if_neg hi, if_neg hi]

end

end Buffer
