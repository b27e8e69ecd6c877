import Mathlib.Tactic.Ring
import Mathlib.Tactic.NormNum

/-! Little-endian words in byte strings.

`bytes w n` is the encoding of `n` in `w` bytes and `value` its inverse; `read`
is a load of `w` bytes at an offset. Packed records are concatenations of
`bytes`, and the `read_*` lemmas walk a load past the fields before it. -/
namespace LittleEndian

/-- The `w` bytes of `n`, least significant first. -/
def bytes : Nat → Nat → List UInt8
  | 0, _ => []
  | w + 1, n => UInt8.ofNat n :: bytes w (n / 256)

/-- The number with the given bytes. -/
def value : List UInt8 → Nat
  | [] => 0
  | b :: rest => b.toNat + 256 * value rest

@[simp] theorem bytes_length (w n : Nat) : (bytes w n).length = w := by
  induction w generalizing n with
  | zero => rfl
  | succ w ih => simp only [bytes, List.length_cons, ih]

theorem value_bytes (w n : Nat) : value (bytes w n) = n % 256 ^ w := by
  induction w generalizing n with
  | zero => simp [bytes, value, Nat.mod_one]
  | succ w ih =>
    have hbyte : (UInt8.ofNat n).toNat = n % 256 := UInt8.toNat_ofNat'
    rw [bytes, value, ih, hbyte, pow_succ', Nat.mod_mul]

theorem value_bytes_of_lt {w n : Nat} (h : n < 256 ^ w) : value (bytes w n) = n := by
  rw [value_bytes, Nat.mod_eq_of_lt h]

theorem value_lt (l : List UInt8) : value l < 256 ^ l.length := by
  induction l with
  | nil => exact Nat.one_pos
  | cons b rest ih =>
    have hb := b.toNat_lt
    rw [value, List.length_cons, pow_succ']
    omega

/-- Every byte string is the encoding of its value. -/
theorem bytes_value (l : List UInt8) : bytes l.length (value l) = l := by
  induction l with
  | nil => rfl
  | cons b rest ih =>
    have hb := b.toNat_lt
    have hlow : UInt8.ofNat (b.toNat + 256 * value rest) = b := by
      apply UInt8.toNat_inj.mp
      rw [UInt8.toNat_ofNat']
      omega
    have hhigh : (b.toNat + 256 * value rest) / 256 = value rest := by omega
    rw [List.length_cons, bytes, value, hlow, hhigh, ih]

/-! ### Loads -/

/-- The `w`-byte word at offset `off`; bytes past the end of the buffer count as none. -/
def read (w off : Nat) (buf : List UInt8) : Nat := value ((buf.drop off).take w)

theorem read_here {w n : Nat} (rest : List UInt8) (h : n < 256 ^ w) :
    read w 0 (bytes w n ++ rest) = n := by
  unfold read
  rw [List.drop_zero, List.take_append_of_le_length (by simp), List.take_of_length_le (by simp),
    value_bytes_of_lt h]

theorem read_skip {w v off : Nat} (pre rest : List UInt8) (hv : pre.length = v) (h : v ≤ off) :
    read w off (pre ++ rest) = read w (off - v) rest := by
  unfold read
  rw [List.drop_append, List.drop_eq_nil_of_le (by omega), List.nil_append, hv]

theorem read_lt (w off : Nat) (buf : List UInt8) : read w off buf < 256 ^ w :=
  lt_of_lt_of_le (value_lt _) (Nat.pow_le_pow_right (by decide) (List.length_take_le ..))

/-- What lies at an offset is the encoding of the word loaded there. -/
theorem bytes_read {w off : Nat} {buf : List UInt8} (h : off + w ≤ buf.length) :
    bytes w (read w off buf) = (buf.drop off).take w := by
  have hlen : ((buf.drop off).take w).length = w := by
    rw [List.length_take, List.length_drop, Nat.min_eq_left (by omega)]
  calc bytes w (read w off buf)
      = bytes ((buf.drop off).take w).length (value ((buf.drop off).take w)) := by rw [hlen, read]
    _ = (buf.drop off).take w := bytes_value _

/-- A load sees the bytes it loads and no others. -/
theorem read_take {w off n : Nat} (buf : List UInt8) (h : off + w ≤ n) :
    read w off (buf.take n) = read w off buf := by
  rw [read, read, List.drop_take, List.take_take, Nat.min_eq_left (by omega)]

theorem read_drop (w off k : Nat) (buf : List UInt8) :
    read w off (buf.drop k) = read w (k + off) buf := by
  rw [read, read, List.drop_drop]

/-! ### Fixed-width words -/

def u16 (x : UInt16) : List UInt8 := bytes 2 x.toNat
def u32 (x : UInt32) : List UInt8 := bytes 4 x.toNat
def u64 (x : UInt64) : List UInt8 := bytes 8 x.toNat
def readU16 (off : Nat) (buf : List UInt8) : UInt16 := UInt16.ofNat (read 2 off buf)
def readU32 (off : Nat) (buf : List UInt8) : UInt32 := UInt32.ofNat (read 4 off buf)
def readU64 (off : Nat) (buf : List UInt8) : UInt64 := UInt64.ofNat (read 8 off buf)

@[simp] theorem u16_length (x : UInt16) : (u16 x).length = 2 := bytes_length ..
@[simp] theorem u32_length (x : UInt32) : (u32 x).length = 4 := bytes_length ..
@[simp] theorem u64_length (x : UInt64) : (u64 x).length = 8 := bytes_length ..

theorem readU32_zeros (off n : Nat) : readU32 off (List.replicate n 0) = 0 := by
  have hvalue : ∀ k, value (List.replicate k 0) = 0 := by
    intro k
    induction k with
    | zero => rfl
    | succ k ih => rw [List.replicate_succ, value, ih, UInt8.toNat_zero]
  rw [readU32, read, List.drop_replicate, List.take_replicate, hvalue]
  rfl

theorem readU16_here (x : UInt16) (rest : List UInt8) : readU16 0 (u16 x ++ rest) = x := by
  rw [readU16, u16, read_here rest x.toNat_lt, UInt16.ofNat_toNat]

theorem readU32_here (x : UInt32) (rest : List UInt8) : readU32 0 (u32 x ++ rest) = x := by
  rw [readU32, u32, read_here rest x.toNat_lt, UInt32.ofNat_toNat]

theorem readU64_here (x : UInt64) (rest : List UInt8) : readU64 0 (u64 x ++ rest) = x := by
  rw [readU64, u64, read_here rest x.toNat_lt, UInt64.ofNat_toNat]

theorem readU16_skip {off v : Nat} (pre rest : List UInt8) (hv : pre.length = v) (h : v ≤ off) :
    readU16 off (pre ++ rest) = readU16 (off - v) rest := by
  rw [readU16, read_skip pre rest hv h, ← readU16]

theorem readU32_skip {off v : Nat} (pre rest : List UInt8) (hv : pre.length = v) (h : v ≤ off) :
    readU32 off (pre ++ rest) = readU32 (off - v) rest := by
  rw [readU32, read_skip pre rest hv h, ← readU32]

theorem readU16_take {off n : Nat} (buf : List UInt8) (h : off + 2 ≤ n) :
    readU16 off (buf.take n) = readU16 off buf := by
  rw [readU16, read_take _ h, readU16]

theorem readU32_take {off n : Nat} (buf : List UInt8) (h : off + 4 ≤ n) :
    readU32 off (buf.take n) = readU32 off buf := by
  rw [readU32, read_take _ h, readU32]

/-- A load inside a buffer is the same whatever follows the buffer. -/
theorem readU16_append {off : Nat} {buf : List UInt8} (rest : List UInt8)
    (h : off + 2 ≤ buf.length) : readU16 off (buf ++ rest) = readU16 off buf := by
  rw [← readU16_take (buf ++ rest) h, List.take_left' rfl]

theorem readU32_append {off : Nat} {buf : List UInt8} (rest : List UInt8)
    (h : off + 4 ≤ buf.length) : readU32 off (buf ++ rest) = readU32 off buf := by
  rw [← readU32_take (buf ++ rest) h, List.take_left' rfl]

theorem u16_readU16 {off : Nat} {buf : List UInt8} (h : off + 2 ≤ buf.length) :
    u16 (readU16 off buf) = (buf.drop off).take 2 := by
  rw [u16, readU16, UInt16.toNat_ofNat_of_lt' (read_lt 2 off buf), bytes_read h]

theorem u32_readU32 {off : Nat} {buf : List UInt8} (h : off + 4 ≤ buf.length) :
    u32 (readU32 off buf) = (buf.drop off).take 4 := by
  rw [u32, readU32, UInt32.toNat_ofNat_of_lt' (read_lt 4 off buf), bytes_read h]

/-! A packed record is put together again from the words that were loaded from it, the last one
first. -/

theorem u16_then {off : Nat} {buf : List UInt8} (h : off + 2 ≤ buf.length) :
    u16 (readU16 off buf) ++ buf.drop (off + 2) = buf.drop off := by
  rw [u16_readU16 h, ← List.drop_drop, List.take_append_drop]

theorem u32_then {off : Nat} {buf : List UInt8} (h : off + 4 ≤ buf.length) :
    u32 (readU32 off buf) ++ buf.drop (off + 4) = buf.drop off := by
  rw [u32_readU32 h, ← List.drop_drop, List.take_append_drop]

theorem byte_then {off : Nat} {buf : List UInt8} (h : off < buf.length) :
    buf.getD off 0 :: buf.drop (off + 1) = buf.drop off := by
  rw [List.drop_eq_getElem_cons h, List.getD_eq_getElem?_getD, List.getElem?_eq_getElem h,
    Option.getD_some]

end LittleEndian
