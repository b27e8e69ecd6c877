import Relink.Crypto.Aes
import Relink.Library.CounterMode

/-! AES-256-GCM as `crypto.hpp` computes it: a sealed message is nonce, ciphertext,
tag. The nonce is drawn by the sealing process, so it is an argument here; there is no
associated data. -/
namespace Relink.Crypto
open Wire

def kAesGcmNonceBytes : Nat := 12
def kAesGcmTagBytes : Nat := 16

abbrev Nonce := Vector UInt8 12

def zeroBlock : Block := Vector.replicate 16 0

def xorBlock (x y : Block) : Block := Vector.zipWith (· ^^^ ·) x y

/-! ### The authenticator -/

/-- A right shift by one bit of the block read most significant bit first. -/
def shiftRight (v : Block) : Block :=
  Vector.ofFn fun k : Fin 16 =>
    if h : k.val = 0 then v[0] >>> 1 else (v.get k >>> 1) ||| ((v[k.val - 1] &&& 1) <<< 7)

/-- The step of `gf128_mul` at one bit of `x`, on the product so far and the shifted `y`. -/
def gf128Step (xi : UInt8) (s : Block × Block) (bit : Nat) : Block × Block :=
  let z := if (xi >>> bit.toUInt8) &&& 1 ≠ 0 then xorBlock s.1 s.2 else s.1
  let v := shiftRight s.2
  (z, if s.2[15] &&& 1 ≠ 0 then v.set 0 (v[0] ^^^ 0xe1) else v)

def gf128Mul (x y : Block) : Block :=
  (x.toList.foldl (fun s xi => [7, 6, 5, 4, 3, 2, 1, 0].foldl (gf128Step xi) s) (zeroBlock, y)).1

/-- Up to sixteen bytes as a block, zeros after them. -/
def padBlock (data : Bytes) : Block := Vector.ofFn fun i : Fin 16 => data.getD i.val 0

/-- The blocks of the data, absorbed one after the other. -/
def absorb (h y : Block) (data : Bytes) : Block :=
  if data = [] then y
  else absorb h (gf128Mul (xorBlock y (padBlock data)) h) (data.drop 16)
termination_by data.length
decreasing_by
  rename_i hne
  have := List.length_pos_iff.mpr hne
  rw [List.length_drop]
  omega

/-- The length in bits, big-endian in the last eight bytes; `uint64_t(len) * 8`. -/
def lenBlock (len : Nat) : Block :=
  Vector.ofFn fun k : Fin 16 =>
    if k.val < 8 then 0 else UInt8.ofNat ((len * 8 % 2 ^ 64) >>> (8 * (15 - k.val)))

def ghash (h : Block) (data : Bytes) : Block :=
  gf128Mul (xorBlock (absorb h zeroBlock data) (lenBlock data.length)) h

/-! ### Counter mode -/

/-- Increments bytes in the order given until one does not wrap to zero. -/
def incBytes (b : Block) : List (Fin 16) → Block
  | [] => b
  | i :: rest =>
    let b := b.set i (b[i] + 1)
    if b[i] ≠ 0 then b else incBytes b rest

/-- The last four bytes as a big-endian counter, plus one. -/
def inc32 (b : Block) : Block := incBytes b [15, 14, 13, 12]

def gctr (aes : Aes256) (counter : Block) (input : Bytes) : Bytes :=
  CounterMode.apply aes.encryptBlock inc32 counter input

/-- `J0` of a twelve-byte nonce: the nonce, three zero bytes and a one. -/
def j0 (nonce : Bytes) : Block :=
  Vector.ofFn fun i : Fin 16 =>
    if i.val < 12 then nonce.getD i.val 0 else if i.val = 15 then 1 else 0

/-- The tag both directions compute from the ciphertext. -/
def tagOf (aes : Aes256) (nonce ct : Bytes) : Bytes :=
  let h := aes.encryptBlock zeroBlock
  gctr aes (j0 nonce) (ghash h ct).toList

/-! ### Sealing and opening -/

def aes256gcmSeal (key : Key) (nonce : Nonce) (pt : Bytes) (outCapacity : Nat) : Option Bytes :=
  if outCapacity < kAesGcmNonceBytes + pt.length + kAesGcmTagBytes then none
  else
    let aes := Aes256.expand key
    let ct := gctr aes (inc32 (j0 nonce.toList)) pt
    some (nonce.toList ++ ct ++ tagOf aes nonce.toList ct)

/-- The constant-time comparison: the differences of all bytes, or-ed together. -/
def tagDiff (expected tag : Bytes) : UInt8 :=
  (expected.zipWith (· ^^^ ·) tag).foldl (· ||| ·) 0

def aes256gcmOpen (key : Key) (input : Bytes) (outCapacity : Nat) : Option Bytes :=
  if input.length < kAesGcmNonceBytes + kAesGcmTagBytes then none
  else
    let nonce := input.take kAesGcmNonceBytes
    let ctLen := input.length - kAesGcmNonceBytes - kAesGcmTagBytes
    let ct := (input.drop kAesGcmNonceBytes).take ctLen
    let tag := (input.drop kAesGcmNonceBytes).drop ctLen
    if outCapacity < ctLen then none
    else
      let aes := Aes256.expand key
      if tagDiff (tagOf aes nonce ct) tag ≠ 0 then none
      else some (gctr aes (inc32 (j0 nonce)) ct)

/-! ### What opening undoes -/

@[simp] theorem gctr_length (aes : Aes256) (counter : Block) (input : Bytes) :
    (gctr aes counter input).length = input.length :=
  CounterMode.apply_length ..

theorem gctr_gctr (aes : Aes256) (counter : Block) (input : Bytes) :
    gctr aes counter (gctr aes counter input) = input :=
  CounterMode.apply_apply ..

theorem tagOf_length (aes : Aes256) (nonce ct : Bytes) : (tagOf aes nonce ct).length = 16 := by
  simp [tagOf]

/-- The constant-time comparison tells equal tags. -/
theorem tagDiff_eq_zero {expected tag : Bytes} (h : expected.length = tag.length) :
    tagDiff expected tag = 0 ↔ expected = tag := by
  have hfold : ∀ (d : UInt8) (xs ys : Bytes), xs.length = ys.length →
      ((xs.zipWith (· ^^^ ·) ys).foldl (· ||| ·) d = 0 ↔ d = 0 ∧ xs = ys) := by
    intro d xs
    induction xs generalizing d with
    | nil =>
      intro ys hlen
      rw [List.length_eq_zero_iff.mp hlen.symm]
      exact (and_iff_left rfl).symm
    | cons x rest ih =>
      intro ys hlen
      cases ys with
      | nil => cases hlen
      | cons y ys =>
        rw [List.zipWith_cons_cons, List.foldl_cons, ih _ _ (Nat.succ.inj hlen),
          UInt8.or_eq_zero_iff, UInt8.xor_eq_zero_iff, List.cons.injEq, and_assoc]
  exact (hfold 0 expected tag h).trans (and_iff_right rfl)

theorem tagDiff_self (tag : Bytes) : tagDiff tag tag = 0 := (tagDiff_eq_zero rfl).mpr rfl

/-- A sealed message has room for the nonce and the tag and nothing else. -/
theorem aes256gcmSeal_some (key : Key) (nonce : Nonce) (pt : Bytes) {cap : Nat}
    (h : pt.length + 28 ≤ cap) :
    ∃ sealed, aes256gcmSeal key nonce pt cap = some sealed ∧ sealed.length = pt.length + 28 ∧
      sealed.take 12 = nonce.toList := by
  refine ⟨_, if_neg (by simp only [kAesGcmNonceBytes, kAesGcmTagBytes]; omega), ?_, ?_⟩
  · simp [tagOf_length]
    omega
  · rw [List.append_assoc, List.take_left' (by simp)]

theorem aes256gcmSeal_none (key : Key) (nonce : Nonce) (pt : Bytes) {cap : Nat}
    (h : cap < pt.length + 28) : aes256gcmSeal key nonce pt cap = none :=
  if_pos (by simp only [kAesGcmNonceBytes, kAesGcmTagBytes]; omega)

/-- What was sealed opens, in any buffer that holds the plaintext. -/
theorem aes256gcmOpen_seal (key : Key) (nonce : Nonce) (pt : Bytes) {cap cap' : Nat} {sealed : Bytes}
    (h : aes256gcmSeal key nonce pt cap = some sealed) (hcap : pt.length ≤ cap') :
    aes256gcmOpen key sealed cap' = some pt := by
  unfold aes256gcmSeal at h
  split at h
  · cases h
  simp only [Option.some.injEq] at h
  subst h
  have hct : ∀ c : Block, (gctr (Aes256.expand key) c pt).length = pt.length := fun c => gctr_length ..
  have hn : nonce.toList.length = 12 := nonce.length_toList
  unfold aes256gcmOpen
  simp only [kAesGcmNonceBytes, kAesGcmTagBytes, List.append_assoc, List.length_append, hct, hn,
    tagOf_length, List.take_left' hn, List.drop_left' hn]
  rw [if_neg (by omega), if_neg (by omega)]
  rw [List.take_left' (by rw [hct]; omega), List.drop_left' (by rw [hct]; omega), tagDiff_self,
    if_neg (by simp), gctr_gctr]

/-- The parts of a message are read back, and only the tag of its ciphertext opens it. -/
theorem aes256gcmOpen_parts (key : Key) (nonce : Nonce) (ct : Bytes) (tag : Block) (cap : Nat) :
    aes256gcmOpen key (nonce.toList ++ ct ++ tag.toList) cap =
      if tag.toList = tagOf (Aes256.expand key) nonce.toList ct ∧ ct.length ≤ cap then
        some (gctr (Aes256.expand key) (inc32 (j0 nonce.toList)) ct)
      else none := by
  have hn : nonce.toList.length = 12 := nonce.length_toList
  have ht : tag.toList.length = 16 := tag.length_toList
  unfold aes256gcmOpen
  simp only [kAesGcmNonceBytes, kAesGcmTagBytes, List.append_assoc, List.length_append, hn, ht,
    List.take_left' hn, List.drop_left' hn]
  have hct : 12 + (ct.length + 16) - 12 - 16 = ct.length := by omega
  rw [if_neg (by omega), hct, List.take_left' rfl, List.drop_left' rfl]
  have hdiff : tagDiff (tagOf (Aes256.expand key) nonce.toList ct) tag.toList = 0 ↔
      tag.toList = tagOf (Aes256.expand key) nonce.toList ct :=
    (tagDiff_eq_zero ((tagOf_length ..).trans ht.symm)).trans eq_comm
  by_cases hroom : ct.length ≤ cap
  · simp only [if_neg (Nat.not_lt.mpr hroom), ne_eq, hdiff, hroom, and_true, ite_not]
  · rw [if_pos (Nat.lt_of_not_le hroom), if_neg fun h => hroom h.2]

/-- **Sealing and opening are inverse.** Sealing succeeds exactly in a buffer that has room for
nonce and tag and fills that much of it; what it writes opens to the plaintext, and of all tags
after a nonce and a ciphertext exactly one is accepted. -/
theorem seal_roundTrip (key : Key) (nonce : Nonce) (pt : Bytes) (cap : Nat) :
    ((aes256gcmSeal key nonce pt cap).isSome ↔ pt.length + 28 ≤ cap) ∧
      (∀ sealed, aes256gcmSeal key nonce pt cap = some sealed →
        sealed.length = pt.length + 28 ∧
          ∀ cap', pt.length ≤ cap' → aes256gcmOpen key sealed cap' = some pt) ∧
      ∀ (nonce : Nonce) (ct : Bytes), ∃ tag : Block, ∀ (tag' : Block) (cap' : Nat),
        (aes256gcmOpen key (nonce.toList ++ ct ++ tag'.toList) cap').isSome ↔
          tag' = tag ∧ ct.length ≤ cap' := by
  refine ⟨?_, ?_, ?_⟩
  · constructor
    · intro h
      by_contra hcap
      rw [aes256gcmSeal_none key nonce pt (by omega)] at h
      cases h
    · intro h
      obtain ⟨sealed, hsealed, _⟩ := aes256gcmSeal_some key nonce pt h
      rw [hsealed]
      rfl
  · intro sealed hsealed
    refine ⟨?_, fun cap' hcap' => aes256gcmOpen_seal key nonce pt hsealed hcap'⟩
    have hroom : pt.length + 28 ≤ cap := by
      by_contra hcap
      rw [aes256gcmSeal_none key nonce pt (by omega)] at hsealed
      cases hsealed
    obtain ⟨_, hsome, hlen, _⟩ := aes256gcmSeal_some key nonce pt hroom
    cases hsealed.symm.trans hsome
    exact hlen
  · intro nonce ct
    have hlen := tagOf_length (Aes256.expand key) nonce.toList ct
    refine ⟨⟨(tagOf (Aes256.expand key) nonce.toList ct).toArray, hlen⟩, fun tag' cap' => ?_⟩
    rw [aes256gcmOpen_parts, ← Vector.toList_inj]
    split
    · next h => exact iff_of_true rfl h
    · next h => exact iff_of_false Bool.false_ne_true h

end Relink.Crypto
