import Relink.Crypto.Gcm

/-! AES-256-GCM as `crypto.py` computes it.

The Python build has its own implementation, over unbounded integers cut by masks where
the C++ one has machine words. A block is sixteen bytes in both. -/
namespace Relink.Crypto.Py
open Wire

/-- `_SBOX[b]`; the table is the same list of bytes. -/
def sbox (b : Nat) : Nat := (kSbox.getD b 0).toNat

def rcon : List Nat :=
  [0x00, 0x01, 0x02, 0x04, 0x08, 0x10, 0x20, 0x40, 0x80, 0x1b, 0x36, 0x6c, 0xd8, 0xab, 0x4d]

def xtime (x : Nat) : Nat :=
  let x := x <<< 1
  let x := if x &&& 0x100 ≠ 0 then x ^^^ 0x11b else x
  x &&& 0xff

/-- One turn of the loop of `_gmul`, on `(p, a, b)`. -/
def gmulStep (s : Nat × Nat × Nat) : Nat × Nat × Nat :=
  (if s.2.2 &&& 1 ≠ 0 then s.1 ^^^ s.2.1 else s.1, xtime s.2.1, s.2.2 >>> 1)

def gmul (a b : Nat) : Nat := (gmulStep^[8] (0, a, b)).1 &&& 0xff

/-- The four bytes of a word, substituted. -/
def subWord (temp : Nat) : Nat :=
  (sbox ((temp >>> 24) &&& 0xff) <<< 24) ||| (sbox ((temp >>> 16) &&& 0xff) <<< 16) |||
    (sbox ((temp >>> 8) &&& 0xff) <<< 8) ||| sbox (temp &&& 0xff)

/-- `struct.unpack(">I", …)` of four bytes. -/
def beWord (b₀ b₁ b₂ b₃ : UInt8) : Nat :=
  b₀.toNat * 2 ^ 24 + b₁.toNat * 2 ^ 16 + b₂.toNat * 2 ^ 8 + b₃.toNat

/-- The word the schedule computes at `i = k + 8`. -/
def expandWord (w : Vector Nat 60) (k : Fin 52) : Vector Nat 60 :=
  let temp := w[k.val + 7]!
  let temp := if (k.val + 8) % 8 = 0 then
      subWord (((temp <<< 8) ||| (temp >>> 24)) &&& 0xffffffff) ^^^
        (rcon.getD ((k.val + 8) / 8) 0 <<< 24)
    else if (k.val + 8) % 8 = 4 then subWord temp
    else temp
  w.set! (k.val + 8) ((w[k.val]! ^^^ temp) &&& 0xffffffff)

def keyExpansion (key : Key) : Vector Nat 60 :=
  (List.finRange 52).foldl expandWord (Vector.ofFn fun i => if i.val < 8 then
    beWord key[4 * i.val]! key[4 * i.val + 1]! key[4 * i.val + 2]! key[4 * i.val + 3]! else 0)

def addRoundKey (w : Vector Nat 60) (round : Nat) (s : Block) : Block :=
  Vector.ofFn fun i : Fin 16 =>
    s.get i ^^^ UInt8.ofNat ((w[round * 4 + i.val / 4]! >>> (24 - 8 * (i.val % 4))) &&& 0xff)

def subBytes (s : Block) : Block := s.map fun b => UInt8.ofNat (sbox b.toNat)

def mixColumns (s : Block) : Block :=
  Vector.ofFn fun i : Fin 16 =>
    let a₀ := s[4 * (i.val / 4)]!.toNat
    let a₁ := s[4 * (i.val / 4) + 1]!.toNat
    let a₂ := s[4 * (i.val / 4) + 2]!.toNat
    let a₃ := s[4 * (i.val / 4) + 3]!.toNat
    UInt8.ofNat <| match i.val % 4 with
      | 0 => gmul a₀ 2 ^^^ gmul a₁ 3 ^^^ a₂ ^^^ a₃
      | 1 => a₀ ^^^ gmul a₁ 2 ^^^ gmul a₂ 3 ^^^ a₃
      | 2 => a₀ ^^^ a₁ ^^^ gmul a₂ 2 ^^^ gmul a₃ 3
      | _ => gmul a₀ 3 ^^^ a₁ ^^^ a₂ ^^^ gmul a₃ 2

/-- `_aes256_encrypt_block`; `_shift_rows` permutes bytes as the C++ one does. -/
def encryptBlock (w : Vector Nat 60) (input : Block) : Block :=
  let s := (List.range 13).foldl
    (fun s r => addRoundKey w (r + 1) (mixColumns (shiftRows (subBytes s))))
    (addRoundKey w 0 input)
  addRoundKey w 14 (shiftRows (subBytes s))

/-! ### GHASH and counter mode -/

/-- The inner loop that shifts `v`, with the bit carried from byte to byte. -/
def shiftCarry (carry : UInt8) : List UInt8 → List UInt8
  | [] => []
  | b :: rest => ((b >>> 1) ||| (carry <<< 7)) :: shiftCarry (b &&& 1) rest

@[simp] theorem shiftCarry_length (carry : UInt8) (v : List UInt8) :
    (shiftCarry carry v).length = v.length := by
  induction v generalizing carry with
  | nil => rfl
  | cons b rest ih => rw [shiftCarry, List.length_cons, ih, List.length_cons]

def shiftRight (v : Block) : Block := ⟨(shiftCarry 0 v.toList).toArray, by simp⟩

def gf128Step (xi : UInt8) (s : Block × Block) (bit : Nat) : Block × Block :=
  let z := if (xi >>> bit.toUInt8) &&& 1 ≠ 0 then xorBlock s.1 s.2 else s.1
  let v := shiftRight s.2
  (z, if s.2[15]! &&& 1 ≠ 0 then v.set! 0 (v[0]! ^^^ 0xe1) else v)

def gf128Mul (x y : Block) : Block :=
  (x.toList.foldl (fun s xi => [7, 6, 5, 4, 3, 2, 1, 0].foldl (gf128Step xi) s) (zeroBlock, y)).1

/-- The chunks of the data, absorbed one after the other. -/
def absorb (h y : Block) (data : Bytes) : Block :=
  if data = [] then y
  else absorb h (gf128Mul (xorBlock y (padBlock (data.take 16))) h) (data.drop 16)
termination_by data.length
decreasing_by
  rename_i hne
  have := List.length_pos_iff.mpr hne
  rw [List.length_drop]
  omega

/-- `struct.pack(">QQ", 0, n * 8)`. -/
def lenBlock (n : Nat) : Block :=
  Vector.ofFn fun k : Fin 16 =>
    if k.val < 8 then 0 else UInt8.ofNat ((n * 8) >>> (8 * (15 - k.val)))

def ghash (h : Block) (data : Bytes) : Block :=
  gf128Mul (xorBlock (absorb h zeroBlock data) (lenBlock data.length)) h

/-- The last four bytes unpacked as a big-endian number, incremented, masked, repacked. -/
def inc32 (b : Block) : Block :=
  let counter := (beWord b[12]! b[13]! b[14]! b[15]! + 1) &&& 0xffffffff
  Vector.ofFn fun i : Fin 16 =>
    if i.val < 12 then b.get i else UInt8.ofNat (counter >>> (8 * (15 - i.val)))

def gctr (w : Vector Nat 60) (counter : Block) (data : Bytes) : Bytes :=
  CounterMode.apply (encryptBlock w) inc32 counter data

def tagOf (w : Vector Nat 60) (nonce ct : Bytes) : Bytes :=
  (gctr w (j0 nonce) (ghash (encryptBlock w zeroBlock) ct).toList).take kAesGcmTagBytes

/-! ### Sealing and opening -/

def aes256gcmSeal (key : Key) (nonce : Nonce) (plaintext : Bytes) : Bytes :=
  let w := keyExpansion key
  let ct := gctr w (inc32 (j0 nonce.toList)) plaintext
  nonce.toList ++ ct ++ tagOf w nonce.toList ct

def aes256gcmOpen (key : Key) (blob : Bytes) : Option Bytes :=
  if blob.length < kAesGcmNonceBytes + kAesGcmTagBytes then none
  else
    let nonce := blob.take kAesGcmNonceBytes
    let ct := (blob.drop kAesGcmNonceBytes).take
      (blob.length - kAesGcmNonceBytes - kAesGcmTagBytes)
    let tag := blob.drop (blob.length - kAesGcmTagBytes)
    let w := keyExpansion key
    -- `secrets.compare_digest`
    if tagOf w nonce ct ≠ tag then none
    else some (gctr w (inc32 (j0 nonce)) ct)

@[simp] theorem aes256gcmSeal_length (key : Key) (nonce : Nonce) (plaintext : Bytes) :
    (aes256gcmSeal key nonce plaintext).length = plaintext.length + 28 := by
  simp [aes256gcmSeal, tagOf, gctr, kAesGcmTagBytes]
  omega

theorem aes256gcmOpen_seal (key : Key) (nonce : Nonce) (plaintext : Bytes) :
    aes256gcmOpen key (aes256gcmSeal key nonce plaintext) = some plaintext := by
  have hct : ∀ c : Block, (gctr (keyExpansion key) c plaintext).length = plaintext.length :=
    fun c => CounterMode.apply_length ..
  have hn : nonce.toList.length = 12 := nonce.length_toList
  have hlen := aes256gcmSeal_length key nonce plaintext
  unfold aes256gcmOpen
  rw [hlen]
  unfold aes256gcmSeal
  simp only [kAesGcmNonceBytes, kAesGcmTagBytes, List.append_assoc, List.take_left' hn,
    List.drop_left' hn]
  rw [if_neg (by omega), List.take_left' (by rw [hct]; omega), ← List.append_assoc,
    List.drop_left' (by rw [List.length_append, hn, hct]; omega), if_neg (not_not.mpr rfl)]
  exact congrArg some (CounterMode.apply_apply ..)

end Relink.Crypto.Py
