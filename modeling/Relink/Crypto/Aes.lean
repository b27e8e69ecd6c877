import Relink.Wire.Frame

/-! The block cipher of `crypto.hpp`: the AES-256 key schedule and one block of
encryption, with the tables and loops of the source. The state is column-major,
byte `r + 4 * c` in row `r` and column `c`. -/
namespace Relink.Crypto
open Wire

/-- `uint8_t[16]`. -/
abbrev Block := Vector UInt8 16

/-- A pre-shared key. -/
abbrev Key := Vector UInt8 32

def kSbox : List UInt8 := [
    0x63, 0x7c, 0x77, 0x7b, 0xf2, 0x6b, 0x6f, 0xc5, 0x30, 0x01, 0x67, 0x2b, 0xfe, 0xd7, 0xab, 0x76,
    0xca, 0x82, 0xc9, 0x7d, 0xfa, 0x59, 0x47, 0xf0, 0xad, 0xd4, 0xa2, 0xaf, 0x9c, 0xa4, 0x72, 0xc0,
    0xb7, 0xfd, 0x93, 0x26, 0x36, 0x3f, 0xf7, 0xcc, 0x34, 0xa5, 0xe5, 0xf1, 0x71, 0xd8, 0x31, 0x15,
    0x04, 0xc7, 0x23, 0xc3, 0x18, 0x96, 0x05, 0x9a, 0x07, 0x12, 0x80, 0xe2, 0xeb, 0x27, 0xb2, 0x75,
    0x09, 0x83, 0x2c, 0x1a, 0x1b, 0x6e, 0x5a, 0xa0, 0x52, 0x3b, 0xd6, 0xb3, 0x29, 0xe3, 0x2f, 0x84,
    0x53, 0xd1, 0x00, 0xed, 0x20, 0xfc, 0xb1, 0x5b, 0x6a, 0xcb, 0xbe, 0x39, 0x4a, 0x4c, 0x58, 0xcf,
    0xd0, 0xef, 0xaa, 0xfb, 0x43, 0x4d, 0x33, 0x85, 0x45, 0xf9, 0x02, 0x7f, 0x50, 0x3c, 0x9f, 0xa8,
    0x51, 0xa3, 0x40, 0x8f, 0x92, 0x9d, 0x38, 0xf5, 0xbc, 0xb6, 0xda, 0x21, 0x10, 0xff, 0xf3, 0xd2,
    0xcd, 0x0c, 0x13, 0xec, 0x5f, 0x97, 0x44, 0x17, 0xc4, 0xa7, 0x7e, 0x3d, 0x64, 0x5d, 0x19, 0x73,
    0x60, 0x81, 0x4f, 0xdc, 0x22, 0x2a, 0x90, 0x88, 0x46, 0xee, 0xb8, 0x14, 0xde, 0x5e, 0x0b, 0xdb,
    0xe0, 0x32, 0x3a, 0x0a, 0x49, 0x06, 0x24, 0x5c, 0xc2, 0xd3, 0xac, 0x62, 0x91, 0x95, 0xe4, 0x79,
    0xe7, 0xc8, 0x37, 0x6d, 0x8d, 0xd5, 0x4e, 0xa9, 0x6c, 0x56, 0xf4, 0xea, 0x65, 0x7a, 0xae, 0x08,
    0xba, 0x78, 0x25, 0x2e, 0x1c, 0xa6, 0xb4, 0xc6, 0xe8, 0xdd, 0x74, 0x1f, 0x4b, 0xbd, 0x8b, 0x8a,
    0x70, 0x3e, 0xb5, 0x66, 0x48, 0x03, 0xf6, 0x0e, 0x61, 0x35, 0x57, 0xb9, 0x86, 0xc1, 0x1d, 0x9e,
    0xe1, 0xf8, 0x98, 0x11, 0x69, 0xd9, 0x8e, 0x94, 0x9b, 0x1e, 0x87, 0xe9, 0xce, 0x55, 0x28, 0xdf,
    0x8c, 0xa1, 0x89, 0x0d, 0xbf, 0xe6, 0x42, 0x68, 0x41, 0x99, 0x2d, 0x0f, 0xb0, 0x54, 0xbb, 0x16]

def kRcon : Vector UInt8 15 := #v[
    0x00, 0x01, 0x02, 0x04, 0x08, 0x10, 0x20, 0x40, 0x80, 0x1b, 0x36, 0x6c, 0xd8, 0xab, 0x4d]

def subByte (b : UInt8) : UInt8 := kSbox.getD b.toNat 0

/-- Four bytes as a big-endian word. -/
def beWord (b₀ b₁ b₂ b₃ : UInt8) : UInt32 :=
  (b₀.toUInt32 <<< 24) ||| (b₁.toUInt32 <<< 16) ||| (b₂.toUInt32 <<< 8) ||| b₃.toUInt32

def rotWord (w : UInt32) : UInt32 := (w <<< 8) ||| (w >>> 24)

def subWord (w : UInt32) : UInt32 :=
  beWord (subByte (w >>> 24).toUInt8) (subByte (w >>> 16).toUInt8) (subByte (w >>> 8).toUInt8)
    (subByte w.toUInt8)

structure Aes256 where
  roundKeys : Vector UInt32 60

/-- The words of the key itself. -/
def keyWords (key : Key) : Vector UInt32 60 :=
  Vector.ofFn fun i => if h : i.val < 8 then
      beWord key[4 * i.val] key[4 * i.val + 1] key[4 * i.val + 2] key[4 * i.val + 3]
    else 0

/-- The word the schedule computes at `i = k + 8`. -/
def expandWord (w : Vector UInt32 60) (k : Fin 52) : Vector UInt32 60 :=
  let temp := w[k.val + 7]
  let temp := if (k.val + 8) % 8 = 0 then
      subWord (rotWord temp) ^^^ (kRcon[(k.val + 8) / 8].toUInt32 <<< 24)
    else if (k.val + 8) % 8 = 4 then subWord temp
    else temp
  w.set (k.val + 8) (w[k.val] ^^^ temp)

/-- `Aes256(key)`. -/
def Aes256.expand (key : Key) : Aes256 where
  roundKeys := (List.finRange 52).foldl expandWord (keyWords key)

def xtime (x : UInt8) : UInt8 := (x <<< 1) ^^^ (if x &&& 0x80 ≠ 0 then 0x1b else 0x00)

/-- One turn of the loop of `gmul`, on `(p, a, b)`. -/
def gmulStep (s : UInt8 × UInt8 × UInt8) : UInt8 × UInt8 × UInt8 :=
  (if s.2.2 &&& 1 ≠ 0 then s.1 ^^^ s.2.1 else s.1, xtime s.2.1, s.2.2 >>> 1)

def gmul (a b : UInt8) : UInt8 := (gmulStep^[8] (0, a, b)).1

/-! ### One block -/

def Aes256.addRoundKey (aes : Aes256) (round : Fin 15) (s : Block) : Block :=
  Vector.ofFn fun i : Fin 16 =>
    s[i] ^^^ (aes.roundKeys[round.val * 4 + i.val / 4] >>> (24 - 8 * (i.val % 4)).toUInt32).toUInt8

def subBytes (s : Block) : Block := s.map subByte

/-- Row `r` is rotated left by `r`. -/
def shiftRows (s : Block) : Block :=
  Vector.ofFn fun i : Fin 16 => s[4 * ((i.val / 4 + i.val % 4) % 4) + i.val % 4]

def mixColumns (s : Block) : Block :=
  Vector.ofFn fun i : Fin 16 =>
    let a₀ := s[4 * (i.val / 4)]
    let a₁ := s[4 * (i.val / 4) + 1]
    let a₂ := s[4 * (i.val / 4) + 2]
    let a₃ := s[4 * (i.val / 4) + 3]
    match i.val % 4 with
    | 0 => gmul a₀ 2 ^^^ gmul a₁ 3 ^^^ a₂ ^^^ a₃
    | 1 => a₀ ^^^ gmul a₁ 2 ^^^ gmul a₂ 3 ^^^ a₃
    | 2 => a₀ ^^^ a₁ ^^^ gmul a₂ 2 ^^^ gmul a₃ 3
    | _ => gmul a₀ 3 ^^^ a₁ ^^^ a₂ ^^^ gmul a₃ 2

/-- `encrypt_block`; rounds 1 to 13 mix columns and the last does not. -/
def Aes256.encryptBlock (aes : Aes256) (input : Block) : Block :=
  let s := (List.finRange 13).foldl
    (fun s (r : Fin 13) =>
      aes.addRoundKey ⟨r.val + 1, by omega⟩ (mixColumns (shiftRows (subBytes s))))
    (aes.addRoundKey 0 input)
  aes.addRoundKey 14 (shiftRows (subBytes s))

end Relink.Crypto
