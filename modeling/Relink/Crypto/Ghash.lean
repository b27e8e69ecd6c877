import Mathlib.RingTheory.AdjoinRoot
import Relink.Crypto.Agree
import Relink.Library.BitPolynomial

/-! The authenticator as polynomial arithmetic.

A block is a polynomial of degree below 128 over the two-element field: its bits, the most
significant of each byte first, are the coefficients from the constant one on. The 128 turns of
`gf128_mul` multiply such polynomials modulo `X^128 + X^7 + X^2 + X + 1`, since shifting a block
right multiplies by `X` and the constant put in for a bit that is shifted out is what is left of
`X^128`. `ghash` is Horner's rule in that ring. -/
namespace Relink.Crypto
open Wire Polynomial BitPolynomial

noncomputable def gcmModulus : (ZMod 2)[X] := X ^ 128 + (X ^ 7 + X ^ 2 + X + 1)

/-- The bit `gf128_mul` tests. -/
def bitAt (b : UInt8) (bit : Nat) : Bool := decide ((b >>> bit.toUInt8) &&& 1 ≠ 0)

/-- The bits in the order of the loop. -/
def byteBits (b : UInt8) : List Bool := [7, 6, 5, 4, 3, 2, 1, 0].map (bitAt b)

def blockBits (b : Block) : List Bool := b.toList.flatMap byteBits

noncomputable def polynomial (b : Block) : (ZMod 2)[X] := ofBits (blockBits b)

/-- The element of the ring that a block stands for. -/
noncomputable def element (b : Block) : AdjoinRoot gcmModulus :=
  AdjoinRoot.mk gcmModulus (polynomial b)

/-! ### Bits of blocks -/

theorem flatMap_byteBits_length (bytes : List UInt8) :
    (bytes.flatMap byteBits).length = 8 * bytes.length := by
  induction bytes with
  | nil => rfl
  | cons b rest ih =>
    rw [List.flatMap_cons, List.length_append, ih, List.length_cons]
    simp only [byteBits, List.length_map, List.length_cons, List.length_nil]
    omega

theorem flatMap_byteBits_zeros (k : Nat) :
    (List.replicate k (0 : UInt8)).flatMap byteBits = List.replicate (8 * k) false := by
  induction k with
  | zero => rfl
  | succ k ih =>
    have hzero : byteBits 0 = List.replicate 8 false := by decide
    rw [List.replicate_succ, List.flatMap_cons, ih, hzero, List.replicate_append_replicate,
      Nat.add_comm, Nat.mul_succ]

@[simp] theorem blockBits_length (b : Block) : (blockBits b).length = 128 := by
  rw [blockBits, flatMap_byteBits_length, Vector.length_toList]

theorem bitAt_testBit (b : UInt8) {bit : Nat} (h : bit < 8) : bitAt b bit = b.toNat.testBit bit := by
  have hbit : bit.toUInt8.toNat = bit := Nat.mod_eq_of_lt (by omega)
  rw [bitAt, Nat.testBit, Nat.one_and_eq_mod_two, ← Nat.and_one_is_mod]
  have hand : ((b >>> bit.toUInt8) &&& 1).toNat = (b.toNat >>> bit) &&& 1 := by
    rw [UInt8.toNat_and, UInt8.toNat_shiftRight, hbit, Nat.mod_eq_of_lt h]
    rfl
  rw [← hand, bne, beq_eq_decide, ← decide_not]
  exact decide_eq_decide.mpr (not_congr UInt8.toNat_inj.symm)

theorem byteBits_eq (b : UInt8) :
    byteBits b = [7, 6, 5, 4, 3, 2, 1, 0].map b.toNat.testBit :=
  List.map_congr_left fun bit hbit => bitAt_testBit b (by
    simp only [List.mem_cons, List.not_mem_nil, or_false] at hbit
    omega)

theorem byteBits_injective : Function.Injective byteBits := by
  intro a b h
  rw [byteBits_eq, byteBits_eq, List.map_inj_left] at h
  rw [← UInt8.toNat_inj]
  refine Nat.eq_of_testBit_eq fun bit => ?_
  by_cases hbit : bit < 8
  · refine h bit ?_
    simp only [List.mem_cons, List.not_mem_nil, or_false]
    omega
  · have hbound : ∀ c : UInt8, c.toNat.testBit bit = false := fun c =>
      Nat.testBit_lt_two_pow (lt_of_lt_of_le c.toNat_lt (Nat.pow_le_pow_right (by decide) (by omega)))
    rw [hbound, hbound]

theorem byteBits_xor (a b : UInt8) : byteBits (a ^^^ b) = (byteBits a).zipWith xor (byteBits b) := by
  simp only [byteBits_eq, UInt8.toNat_xor, Nat.testBit_xor, List.map_cons, List.map_nil,
    List.zipWith_cons_cons, List.zipWith_nil_left]

theorem bitAt_xor (a b : UInt8) {bit : Nat} (h : bit < 8) :
    bitAt (a ^^^ b) bit = (bitAt a bit ^^ bitAt b bit) := by
  simp only [bitAt_testBit _ h, UInt8.toNat_xor, Nat.testBit_xor]

theorem bitAt_or (a b : UInt8) {bit : Nat} (h : bit < 8) :
    bitAt (a ||| b) bit = (bitAt a bit || bitAt b bit) := by
  simp only [bitAt_testBit _ h, UInt8.toNat_or, Nat.testBit_or]

theorem bitAt_shiftLeft (b : UInt8) {k : UInt8} (hk : k.toNat < 8) {bit : Nat} (h : bit < 8) :
    bitAt (b <<< k) bit = (decide (k.toNat ≤ bit) && bitAt b (bit - k.toNat)) := by
  rw [bitAt_testBit _ h, bitAt_testBit _ (by omega), UInt8.toNat_shiftLeft, Nat.mod_eq_of_lt hk,
    Nat.testBit_mod_two_pow, Nat.testBit_shiftLeft]
  simp [h]

theorem bitAt_shiftRight (b : UInt8) {k : UInt8} (hk : k.toNat < 8) {bit : Nat} (h : bit < 8) :
    bitAt (b >>> k) bit = (decide (k.toNat + bit < 8) && bitAt b (k.toNat + bit)) := by
  rw [bitAt_testBit _ h, UInt8.toNat_shiftRight, Nat.mod_eq_of_lt hk, Nat.testBit_shiftRight]
  by_cases hin : k.toNat + bit < 8
  · simp [hin, bitAt_testBit _ hin]
  · have hout : b.toNat.testBit (k.toNat + bit) = false :=
      Nat.testBit_lt_two_pow (lt_of_lt_of_le b.toNat_lt (Nat.pow_le_pow_right (by decide)
        (Nat.le_of_not_lt hin)))
    simp [hin, hout]

/-- The bit that comes in at the top, and the bits that move down. -/
theorem byteBits_shift (carry b : UInt8) :
    byteBits ((b >>> 1) ||| (carry <<< 7)) ++ [bitAt b 0] = bitAt carry 0 :: byteBits b := by
  have htop : bitAt ((b >>> 1) ||| (carry <<< 7)) 7 = bitAt carry 0 := by
    rw [bitAt_or _ _ (by decide), bitAt_shiftRight _ (by decide) (by decide),
      bitAt_shiftLeft _ (by decide) (by decide)]
    rfl
  have hlow : ∀ bit < 7, bitAt ((b >>> 1) ||| (carry <<< 7)) bit = bitAt b (bit + 1) := by
    intro bit hbit
    rw [bitAt_or _ _ (by omega), bitAt_shiftRight _ (by decide) (by omega),
      bitAt_shiftLeft _ (by decide) (by omega)]
    show (decide (1 + bit < 8) && bitAt b (1 + bit) || decide (7 ≤ bit) && _) = _
    rw [decide_eq_true (by omega), decide_eq_false (by omega), Nat.add_comm]
    simp
  simp only [byteBits, List.map_cons, List.map_nil, htop, hlow _ (by decide : 6 < 7),
    hlow _ (by decide : 5 < 7), hlow _ (by decide : 4 < 7), hlow _ (by decide : 3 < 7),
    hlow _ (by decide : 2 < 7), hlow _ (by decide : 1 < 7), hlow _ (by decide : 0 < 7)]
  rfl

theorem flatMap_byteBits_xor (xs ys : List UInt8) (h : xs.length = ys.length) :
    (xs.zipWith (· ^^^ ·) ys).flatMap byteBits =
      (xs.flatMap byteBits).zipWith xor (ys.flatMap byteBits) := by
  induction xs generalizing ys with
  | nil => rfl
  | cons x xs ih =>
    cases ys with
    | nil => cases h
    | cons y ys =>
      rw [List.zipWith_cons_cons, List.flatMap_cons, List.flatMap_cons, List.flatMap_cons,
        ih ys (Nat.succ.inj h), byteBits_xor, List.zipWith_append (by simp [byteBits])]

theorem flatMap_byteBits_inj {xs ys : List UInt8} (h : xs.length = ys.length) :
    xs.flatMap byteBits = ys.flatMap byteBits ↔ xs = ys := by
  refine ⟨fun heq => ?_, congrArg _⟩
  induction xs generalizing ys with
  | nil => exact (List.length_eq_zero_iff.mp h.symm).symm
  | cons x xs ih =>
    cases ys with
    | nil => cases h
    | cons y ys =>
      obtain ⟨hhead, htail⟩ := List.append_inj heq rfl
      rw [byteBits_injective hhead, ih (Nat.succ.inj h) htail]

theorem blockBits_xor (x y : Block) :
    blockBits (xorBlock x y) = (blockBits x).zipWith xor (blockBits y) := by
  rw [blockBits, xorBlock, Vector.toList_zipWith]
  exact flatMap_byteBits_xor _ _ (by simp)

/-- The bits of bytes shifted one by one, with the bit shifted out after them. -/
theorem flatMap_byteBits_shift (carry : UInt8) (v : List UInt8) :
    (Py.shiftCarry carry v).flatMap byteBits ++ [(v.map (bitAt · 0)).getLastD (bitAt carry 0)] =
      bitAt carry 0 :: v.flatMap byteBits := by
  induction v generalizing carry with
  | nil => rfl
  | cons b rest ih =>
    have hcarry : bitAt (b &&& 1) 0 = bitAt b 0 := by
      rw [bitAt_testBit _ (by decide), bitAt_testBit _ (by decide), UInt8.toNat_and,
        Nat.testBit_and]
      exact Bool.and_true _
    have hrest := ih (b &&& 1)
    rw [hcarry] at hrest
    rw [Py.shiftCarry, List.flatMap_cons, List.map_cons, List.getLastD_cons, List.append_assoc,
      hrest, List.append_cons, byteBits_shift, List.flatMap_cons, List.cons_append]

/-! ### The ring -/

theorem gcmModulus_eq : gcmModulus = X ^ 128 + (X ^ 7 + X ^ 2 + X + 1) := by
  unfold gcmModulus
  with_reducible rfl

theorem gcmModulus_monic : gcmModulus.Monic := by
  unfold gcmModulus
  refine monic_X_pow_add ?_
  compute_degree!

theorem gcmModulus_degree : gcmModulus.degree = 128 := by
  unfold gcmModulus
  compute_degree!

theorem polynomial_inj {x y : Block} : polynomial x = polynomial y ↔ x = y := by
  rw [polynomial, polynomial, ofBits_inj (by simp), blockBits, blockBits,
    flatMap_byteBits_inj (by simp), Vector.toList_inj]

theorem modByMonicHom_element (b : Block) :
    AdjoinRoot.modByMonicHom gcmModulus_monic (element b) = polynomial b :=
  modByMonicHom_residue gcmModulus_monic gcmModulus_degree (blockBits_length b)

/-- Two blocks of one element are equal. -/
theorem element_injective : Function.Injective element := by
  intro x y h
  have hmod := congrArg (AdjoinRoot.modByMonicHom gcmModulus_monic) h
  rw [modByMonicHom_element, modByMonicHom_element] at hmod
  exact polynomial_inj.mp hmod

theorem element_xor (x y : Block) : element (xorBlock x y) = element x + element y := by
  rw [element, polynomial, blockBits_xor]
  exact residue_xor (by simp)

theorem element_zeroBlock : element zeroBlock = 0 := by
  have hbits : blockBits zeroBlock = List.replicate 128 false := by
    rw [blockBits, zeroBlock, Vector.toList_replicate, flatMap_byteBits_zeros]
  rw [element, polynomial, hbits, ofBits_replicate_false, map_zero]

/-! ### The loop of the product -/

/-- The constant that is put in when a bit is shifted out. -/
def reduction : Block := Vector.ofFn fun i => if i.val = 0 then 0xe1 else 0

/-- It is what is left of `X^128`. -/
theorem element_reduction : element reduction = AdjoinRoot.root gcmModulus ^ 128 := by
  have hbits : blockBits reduction =
      [true, true, true, false, false, false, false, true] ++ List.replicate 120 false := by
    have hbytes : reduction.toList = 0xe1 :: List.replicate 15 0 := by decide
    have hfirst : byteBits 0xe1 = [true, true, true, false, false, false, false, true] := by decide
    rw [blockBits, hbytes, List.flatMap_cons, flatMap_byteBits_zeros, hfirst]
  have hpoly : polynomial reduction = X ^ 7 + X ^ 2 + X + 1 := by
    rw [polynomial, hbits, ofBits_append, ofBits_replicate_false]
    simp only [ofBits_cons, ofBits_nil, coefficient, if_true, Bool.false_eq_true, if_false, C_0, C_1]
    ring
  rw [element, hpoly, root_pow gcmModulus_eq]

theorem element_shiftRight (v : Block) :
    element (shiftRight v) +
        AdjoinRoot.mk gcmModulus (C (coefficient (bitAt (v.get 15) 0))) *
          AdjoinRoot.root gcmModulus ^ 128 =
      AdjoinRoot.root gcmModulus * element v := by
  have hbits : blockBits (shiftRight v) ++ [bitAt (v.get 15) 0] = false :: blockBits v := by
    have h := flatMap_byteBits_shift 0 v.toList
    have hlast : (v.toList.map (bitAt · 0)).getLastD (bitAt 0 0) = bitAt (v.get 15) 0 := by
      rw [List.getLastD_eq_getLast?, List.getLast?_eq_getElem?]
      simp
      rfl
    rw [hlast] at h
    rw [← Py.shiftRight_eq]
    exact h
  have hring := residue_shift gcmModulus hbits
  rw [blockBits_length] at hring
  exact hring

/-- The next value of `v`, whichever bit is tested. -/
def nextShift (v : Block) : Block := (gf128Step 0 (zeroBlock, v) 0).2

theorem nextShift_eq (v : Block) : nextShift v =
    if bitAt (v.get 15) 0 then xorBlock (shiftRight v) reduction else shiftRight v := by
  have hset : (shiftRight v).set 0 ((shiftRight v)[0] ^^^ 0xe1) = xorBlock (shiftRight v) reduction := by
    refine Vector.ext fun i hi => ?_
    rw [xorBlock, Vector.getElem_zipWith, reduction, Vector.getElem_set, Vector.getElem_ofFn]
    cases i with
    | zero => rfl
    | succ i => exact (UInt8.xor_zero).symm
  simp only [nextShift, gf128Step, hset, bitAt, decide_eq_true_eq]
  rfl

theorem element_nextShift (v : Block) :
    element (nextShift v) = AdjoinRoot.root gcmModulus * element v := by
  rw [← element_shiftRight, nextShift_eq]
  cases bitAt (v.get 15) 0 with
  | true => rw [if_pos rfl, element_xor, element_reduction, coefficient, if_pos rfl, C_1, map_one,
      one_mul]
  | false => simp [coefficient]

/-- One turn, told of the bit it tests. -/
def bitStep (s : Block × Block) (b : Bool) : Block × Block :=
  (if b then xorBlock s.1 s.2 else s.1, nextShift s.2)

theorem gf128Mul_bits (x y : Block) :
    gf128Mul x y = ((blockBits x).foldl bitStep (zeroBlock, y)).1 := by
  have hstep : ∀ xi, gf128Step xi = fun s bit => bitStep s (bitAt xi bit) := by
    intro xi
    funext s bit
    simp only [gf128Step, bitStep, bitAt, nextShift, decide_eq_true_eq]
  rw [gf128Mul, blockBits, List.foldl_flatMap]
  simp only [byteBits, List.foldl_map, hstep]

/-- The loop multiplies in the ring. -/
theorem element_gf128Mul (x y : Block) : element (gf128Mul x y) = element x * element y := by
  have hsum : ∀ s b, element (bitStep s b).1 =
      element s.1 + AdjoinRoot.mk gcmModulus (C (coefficient b)) * element s.2 := by
    intro s b
    cases b with
    | false => simp [bitStep, coefficient]
    | true => simp [bitStep, coefficient, element_xor]
  have hloop := foldl_shiftAdd (AdjoinRoot.mk gcmModulus) (fun s : Block × Block => element s.1)
    (fun s => element s.2) bitStep hsum
    (fun s _ => (element_nextShift s.2).trans (by rw [AdjoinRoot.mk_X])) (blockBits x) (zeroBlock, y)
  rw [gf128Mul_bits, hloop, element_zeroBlock, zero_add]
  rfl

theorem polynomial_gf128Mul (x y : Block) :
    polynomial (gf128Mul x y) = polynomial x * polynomial y %ₘ gcmModulus := by
  have h := congrArg (AdjoinRoot.modByMonicHom gcmModulus_monic) (element_gf128Mul x y)
  rw [modByMonicHom_element, element, element, ← map_mul, AdjoinRoot.modByMonicHom_mk] at h
  exact h

/-! ### The hash -/

def blockCount (data : Bytes) : Nat := (data.length + 15) / 16

/-- The `i`th block of the data, counted from one and padded with zeros. -/
def blockAt (data : Bytes) (i : Nat) : Block := padBlock (data.drop (16 * (i - 1)))

theorem element_absorb (h y : Block) (data : Bytes) :
    element (absorb h y data) = element y * element h ^ blockCount data +
      ∑ i ∈ Finset.range (blockCount data),
        element (blockAt data (i + 1)) * element h ^ (blockCount data - i) := by
  induction y, data using absorb.induct h with
  | case1 y =>
    rw [absorb, if_pos rfl]
    simp [blockCount]
  | case2 y data hne ih =>
    have hcount : blockCount data = blockCount (data.drop 16) + 1 := by
      have hpos := List.length_pos_iff.mpr hne
      rw [blockCount, blockCount, List.length_drop]
      omega
    have hfirst : blockAt data 1 = padBlock data := rfl
    have hrest : ∀ i, blockAt (data.drop 16) (i + 1) = blockAt data (i + 1 + 1) := by
      intro i
      rw [blockAt, blockAt, List.drop_drop]
      congr 2
      omega
    rw [absorb, if_neg hne, ih, hcount, Finset.sum_range_succ', element_gf128Mul, element_xor,
      zero_add, hfirst, Nat.sub_zero]
    simp only [hrest, Nat.add_sub_add_right]
    ring

/-- The number a block is, big-endian. -/
def bigEndian (b : Block) : Nat := b.toList.foldl (fun n byte => 256 * n + byte.toNat) 0

/-- The bytes of a number, the highest first, make it up again. -/
theorem foldl_shifted (n k acc : Nat) :
    ((List.range k).map fun i => UInt8.ofNat (n >>> (8 * (k - 1 - i)))).foldl
      (fun m byte => 256 * m + byte.toNat) acc = 256 ^ k * acc + n % 256 ^ k := by
  induction k generalizing acc with
  | zero => rw [List.range_zero, List.map_nil, List.foldl_nil, pow_zero, one_mul, Nat.mod_one,
      Nat.add_zero]
  | succ k ih =>
    have hrest : ((List.range k).map fun i => UInt8.ofNat (n >>> (8 * (k + 1 - 1 - (i + 1))))) =
        (List.range k).map fun i => UInt8.ofNat (n >>> (8 * (k - 1 - i))) :=
      List.map_congr_left fun i _ => by rw [show k + 1 - 1 - (i + 1) = k - 1 - i by omega]
    have hfirst : (UInt8.ofNat (n >>> (8 * (k + 1 - 1 - 0)))).toNat = n / 256 ^ k % 256 := by
      rw [UInt8.toNat_ofNat', Nat.shiftRight_eq_div_pow, Nat.sub_zero, Nat.add_sub_cancel, pow_mul]
      rfl
    rw [List.range_succ_eq_map, List.map_cons, List.map_map, List.foldl_cons]
    show (List.foldl _ _ ((List.range k).map fun i => UInt8.ofNat (n >>> (8 * (k + 1 - 1 - (i + 1)))))) = _
    rw [hrest, ih, hfirst, pow_succ, Nat.mod_mul]
    ring

theorem lenBlock_toList (len : Nat) : (lenBlock len).toList = List.replicate 8 (0 : UInt8) ++
    (List.range 8).map fun i => UInt8.ofNat ((len * 8 % 2 ^ 64) >>> (8 * (8 - 1 - i))) := by
  refine List.ext_getElem (by simp) fun i hi hi' => ?_
  rw [Vector.length_toList] at hi
  simp only [lenBlock, Vector.getElem_toList, Vector.getElem_ofFn]
  by_cases hsmall : i < 8
  · rw [if_pos hsmall, List.getElem_append_left (by simpa using hsmall), List.getElem_replicate]
  · rw [if_neg hsmall, List.getElem_append_right (by simpa using hsmall), List.getElem_map,
      List.getElem_range, List.length_replicate, show 15 - i = 8 - 1 - (i - 8) by omega]

theorem bigEndian_lenBlock (len : Nat) : bigEndian (lenBlock len) = 8 * len % 2 ^ 64 := by
  rw [bigEndian, lenBlock_toList, List.foldl_append, foldl_shifted, mul_comm len]
  show 256 ^ 8 * 0 + 8 * len % 2 ^ 64 % 2 ^ 64 = 8 * len % 2 ^ 64
  rw [Nat.mod_mod, mul_zero, zero_add]

/-- **The authenticator is the polynomial hash.** A block's bits are the coefficients of a
polynomial and determined by its class; the loop multiplies classes, and the hash of `n` blocks is
their sum with falling powers of the key, with the length put in last. -/
theorem ghash_polynomial :
    Function.Injective element ∧
      (∀ x y, polynomial (gf128Mul x y) = polynomial x * polynomial y %ₘ gcmModulus) ∧
      (∀ x y, gf128Mul x y = gf128Mul y x) ∧
      (∀ x y z, gf128Mul (gf128Mul x y) z = gf128Mul x (gf128Mul y z)) ∧
      (∀ x y z, gf128Mul x (xorBlock y z) = xorBlock (gf128Mul x y) (gf128Mul x z)) ∧
      ∀ h data, element (ghash h data) =
          ∑ i ∈ Finset.Icc 1 (blockCount data),
              element (blockAt data i) * element h ^ (blockCount data - i + 2) +
            element (lenBlock data.length) * element h ∧
        bigEndian (lenBlock data.length) = 8 * data.length % 2 ^ 64 := by
  refine ⟨element_injective, polynomial_gf128Mul, fun x y => ?_, fun x y z => ?_, fun x y z => ?_,
    fun h data => ⟨?_, bigEndian_lenBlock _⟩⟩
  · apply element_injective
    rw [element_gf128Mul, element_gf128Mul, mul_comm]
  · apply element_injective
    simp only [element_gf128Mul]
    rw [mul_assoc]
  · apply element_injective
    simp only [element_gf128Mul, element_xor]
    rw [mul_add]
  · have hindex : ∑ i ∈ Finset.Icc 1 (blockCount data),
        element (blockAt data i) * element h ^ (blockCount data - i + 2) =
          ∑ i ∈ Finset.range (blockCount data),
            element (blockAt data (i + 1)) * element h ^ (blockCount data - i) * element h := by
      refine Finset.sum_nbij' (· - 1) (· + 1) ?_ ?_ ?_ ?_ ?_
      · intro i hi
        simp only [Finset.mem_Icc, Finset.mem_range] at hi ⊢
        omega
      · intro i hi
        simp only [Finset.mem_Icc, Finset.mem_range] at hi ⊢
        omega
      · intro i hi
        exact Nat.sub_add_cancel (Finset.mem_Icc.mp hi).1
      · intro i hi
        rfl
      · intro i hi
        have hi' := Finset.mem_Icc.mp hi
        rw [Nat.sub_add_cancel hi'.1, mul_assoc, ← pow_succ]
        congr 2
        omega
    rw [ghash, element_gf128Mul, element_xor, element_absorb, element_zeroBlock, zero_mul, zero_add,
      add_mul, Finset.sum_mul, hindex]

end Relink.Crypto
