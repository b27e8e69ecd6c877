import Mathlib.Algebra.CharP.Algebra
import Mathlib.RingTheory.PrincipalIdealDomain
import Relink.Crypto.Ghash

/-! Bytes as the field of 256 elements, and the S-box as inversion in it.

The bits of a byte, the least significant first, are the coefficients of a polynomial modulo
`X^8 + X^4 + X^3 + X + 1`. `xtime` multiplies by `X` there and `gmul` by any byte, which shows every
byte but 0 to have an inverse: what the table says, with its affine map taken back. -/
namespace Relink.Crypto
open Polynomial BitPolynomial Function
open Py (forall_byte)

noncomputable def aesModulus : (ZMod 2)[X] := X ^ 8 + (X ^ 4 + X ^ 3 + X + 1)

/-- The bytes, once the modulus is known to be irreducible. -/
abbrev GF256 := AdjoinRoot aesModulus

/-- What `xtime` multiplies by. -/
noncomputable abbrev GF256.x : GF256 := AdjoinRoot.root aesModulus

def lowBits (b : UInt8) : List Bool := (List.range 8).map (bitAt b)

noncomputable def byteElement (b : UInt8) : GF256 := residue aesModulus (lowBits b)

/-! ### Bytes and residues -/

theorem aesModulus_monic : aesModulus.Monic := by
  unfold aesModulus
  refine monic_X_pow_add ?_
  compute_degree!

theorem aesModulus_degree : aesModulus.degree = 8 := by
  unfold aesModulus
  compute_degree!

@[simp] theorem lowBits_length (b : UInt8) : (lowBits b).length = 8 := rfl

theorem lowBits_injective : Injective lowBits := by
  intro a b h
  have hreverse : byteBits a = byteBits b := congrArg List.reverse h
  exact byteBits_injective hreverse

theorem lowBits_xor (a b : UInt8) : lowBits (a ^^^ b) = (lowBits a).zipWith xor (lowBits b) := by
  rw [lowBits, lowBits, lowBits, List.zipWith_map, List.zipWith_self]
  exact List.map_congr_left fun bit hbit => bitAt_xor a b (List.mem_range.mp hbit)

theorem byteElement_xor (a b : UInt8) :
    byteElement (a ^^^ b) = byteElement a + byteElement b := by
  rw [byteElement, lowBits_xor, residue_xor (by simp)]
  rfl

theorem lowBits_surjective {bits : List Bool} (h : bits.length = 8) : ∃ b, lowBits b = bits := by
  have hbyte := Nat.ofBits_lt_two_pow fun i : Fin 8 => bits.getD i false
  refine ⟨UInt8.ofNat (Nat.ofBits fun i : Fin 8 => bits.getD i false), ?_⟩
  refine List.ext_getElem h.symm fun i hi hi' => ?_
  have hi8 : i < 8 := h ▸ hi'
  simp only [lowBits, List.getElem_map, List.getElem_range]
  rw [bitAt_testBit _ hi8, UInt8.toNat_ofNat', Nat.mod_eq_of_lt hbyte, Nat.testBit_ofBits_lt _ _ hi8]
  exact List.getD_eq_getElem _ _ hi'

theorem byteElement_bijective : Bijective byteElement := by
  constructor
  · intro a b h
    exact lowBits_injective ((residue_inj aesModulus_monic aesModulus_degree (by simp)
      (by simp)).mp h)
  · intro a
    obtain ⟨bits, hlen, rfl⟩ := residue_surjective aesModulus_monic aesModulus_degree a
    obtain ⟨b, rfl⟩ := lowBits_surjective hlen
    exact ⟨b, rfl⟩

theorem byteElement_zero : byteElement 0 = 0 := by
  rw [byteElement, residue, show lowBits 0 = List.replicate 8 false by decide,
    ofBits_replicate_false, map_zero]

theorem byteElement_one : byteElement 1 = 1 := by
  rw [byteElement, residue, show lowBits 1 = true :: List.replicate 7 false by decide, ofBits_cons,
    ofBits_replicate_false]
  simp [coefficient]

/-! ### Products -/

/-- The bits that move up, and the bit that goes out at the top. -/
theorem lowBits_shift (b : UInt8) : lowBits (b <<< 1) ++ [bitAt b 7] = false :: lowBits b := by
  have hbits : ∀ bit < 7, bitAt (b <<< 1) (bit + 1) = bitAt b bit := fun bit h =>
    bitAt_shiftLeft b (by decide) (by omega)
  have hlow : bitAt (b <<< 1) 0 = false := bitAt_shiftLeft b (by decide) (by decide)
  have hmap : lowBits (b <<< 1) = false :: (List.range 7).map (bitAt b) := by
    rw [lowBits, List.range_succ_eq_map, List.map_cons, hlow, List.map_map]
    exact congrArg _ (List.map_congr_left fun bit h => hbits bit (List.mem_range.mp h))
  have hlast : lowBits b = (List.range 7).map (bitAt b) ++ [bitAt b 7] := rfl
  rw [hmap, hlast, List.cons_append]

/-- What is left of `X^8`. -/
theorem byteElement_reduction : byteElement 0x1b = GF256.x ^ 8 := by
  have hbits : lowBits 0x1b = [true, true, false, true, true, false, false, false] := by decide
  have hpoly : ofBits (lowBits 0x1b) = X ^ 4 + X ^ 3 + X + 1 := by
    rw [hbits]
    simp only [ofBits_cons, ofBits_nil, coefficient, if_true, Bool.false_eq_true, if_false, C_0, C_1]
    ring
  have hmodulus : aesModulus = X ^ 8 + (X ^ 4 + X ^ 3 + X + 1) := rfl
  rw [byteElement, residue, hpoly, GF256.x, root_pow hmodulus]

theorem byteElement_xtime (b : UInt8) : byteElement (xtime b) = GF256.x * byteElement b := by
  have hring := residue_shift aesModulus (lowBits_shift b)
  rw [lowBits_length] at hring
  have htop : xtime b = if bitAt b 7 then (b <<< 1) ^^^ 0x1b else b <<< 1 :=
    forall_byte (P := fun b => xtime b = if bitAt b 7 then (b <<< 1) ^^^ 0x1b else b <<< 1)
      (by decide +kernel) b
  rw [htop]
  refine Eq.trans ?_ hring
  cases bitAt b 7 with
  | true =>
    rw [if_pos rfl, byteElement_xor, byteElement_reduction, coefficient, if_pos rfl, C_1, map_one,
      one_mul]
    rfl
  | false =>
    simp only [Bool.false_eq_true, if_false, coefficient, map_zero, zero_mul, add_zero]
    rfl

/-- A turn of `gmul`, told of the bit it tests. -/
def productStep (s : UInt8 × UInt8) (bit : Bool) : UInt8 × UInt8 :=
  (if bit then s.1 ^^^ s.2 else s.1, xtime s.2)

theorem gmulStep_iterate {n : Nat} (hn : n ≤ 8) (p a b : UInt8) :
    (gmulStep^[n] (p, a, b)).1 = (((List.range n).map (bitAt b)).foldl productStep (p, a)).1 := by
  induction n generalizing p a b with
  | zero => rfl
  | succ n ih =>
    have hbits : (List.range n).map (bitAt (b >>> 1)) =
        (List.range n).map fun bit => bitAt b (bit + 1) := by
      refine List.map_congr_left fun bit hbit => ?_
      have hbit := List.mem_range.mp hbit
      rw [bitAt_testBit _ (by omega), bitAt_testBit _ (by omega), UInt8.toNat_shiftRight]
      show (b.toNat >>> 1).testBit bit = _
      rw [Nat.testBit_shiftRight, Nat.add_comm]
    have hhere : (p, a, b).2.2 &&& 1 ≠ 0 ↔ bitAt b 0 = true := by simp [bitAt]
    rw [iterate_succ_apply, gmulStep, ih (by omega), hbits, List.range_succ_eq_map, List.map_cons,
      List.foldl_cons, List.map_map]
    simp only [hhere]
    rfl

theorem byteElement_gmul (a b : UInt8) :
    byteElement (gmul a b) = byteElement a * byteElement b := by
  have hsum : ∀ s bit, byteElement (productStep s bit).1 =
      byteElement s.1 + AdjoinRoot.mk aesModulus (C (coefficient bit)) * byteElement s.2 := by
    intro s bit
    cases bit with
    | false => simp [productStep, coefficient]
    | true => simp [productStep, coefficient, byteElement_xor]
  have hloop := foldl_shiftAdd (AdjoinRoot.mk aesModulus)
    (fun s : UInt8 × UInt8 => byteElement s.1) (fun s => byteElement s.2) productStep hsum
    (fun s _ => (byteElement_xtime s.2).trans (by rw [AdjoinRoot.mk_X])) (lowBits b) (0, a)
  rw [gmul, gmulStep_iterate le_rfl, mul_comm]
  refine hloop.trans ?_
  rw [byteElement_zero, zero_add]
  rfl

/-! ### The field -/

def rotl (b : UInt8) (k : UInt8) : UInt8 := (b <<< k) ||| (b >>> (8 - k))

/-- The affine map of the S-box, on a byte. -/
def affineByte (b : UInt8) : UInt8 :=
  b ^^^ rotl b 1 ^^^ rotl b 2 ^^^ rotl b 3 ^^^ rotl b 4 ^^^ 0x63

/-- The affine map taken back. -/
def unaffineByte (b : UInt8) : UInt8 := rotl b 1 ^^^ rotl b 3 ^^^ rotl b 6 ^^^ 0x05

/-- What the table holds before the affine map. -/
def inverseByte (b : UInt8) : UInt8 := unaffineByte (subByte b)

theorem affineByte_inverseByte (b : UInt8) : affineByte (inverseByte b) = subByte b :=
  forall_byte (P := fun c => affineByte (unaffineByte c) = c) (by decide +kernel) (subByte b)

theorem gmul_inverseByte (b : UInt8) : b = 0 ∧ inverseByte b = 0 ∨ gmul b (inverseByte b) = 1 :=
  forall_byte (P := fun b => b = 0 ∧ inverseByte b = 0 ∨ gmul b (inverseByte b) = 1)
    (by decide +kernel) b

theorem isField_GF256 : IsField GF256 where
  exists_pair_ne := by
    refine ⟨byteElement 0, byteElement 1, fun h => ?_⟩
    exact absurd (byteElement_bijective.1 h) (by decide)
  mul_comm := mul_comm
  mul_inv_cancel := by
    intro a ha
    obtain ⟨b, rfl⟩ := byteElement_bijective.2 a
    refine ⟨byteElement (inverseByte b), ?_⟩
    rcases gmul_inverseByte b with ⟨rfl, -⟩ | h
    · exact absurd byteElement_zero ha
    · rw [← byteElement_gmul, h, byteElement_one]

theorem aesModulus_irreducible : Irreducible aesModulus := by
  have hmax : (Ideal.span {aesModulus}).IsMaximal := Ideal.Quotient.maximal_of_isField _ isField_GF256
  exact ((Ideal.span_singleton_prime aesModulus_monic.ne_zero).mp hmax.isPrime).irreducible

instance : Fact (Irreducible aesModulus) := ⟨aesModulus_irreducible⟩

instance : CharP GF256 2 :=
  charP_of_injective_algebraMap (algebraMap (ZMod 2) GF256).injective 2

theorem byteElement_inverseByte (b : UInt8) : byteElement (inverseByte b) = (byteElement b)⁻¹ := by
  rcases gmul_inverseByte b with ⟨rfl, h⟩ | h
  · rw [h, byteElement_zero, inv_zero]
  · refine eq_inv_of_mul_eq_one_right ?_
    rw [← byteElement_gmul, h, byteElement_one]

/-! ### The S-box -/

/-- The coefficient of `X^i`. -/
noncomputable def GF256.bit (a : GF256) (i : ℕ) : ZMod 2 :=
  (AdjoinRoot.modByMonicHom aesModulus_monic a).coeff i

/-- The affine map: every bit and the four before it are added, and the bits of `0x63`. -/
noncomputable def GF256.affine (a : GF256) : GF256 :=
  ∑ i : Fin 8, AdjoinRoot.of aesModulus (a.bit i + a.bit ((i + 4) % 8) + a.bit ((i + 5) % 8) +
    a.bit ((i + 6) % 8) + a.bit ((i + 7) % 8) + (![1, 1, 0, 0, 0, 1, 1, 0] : Fin 8 → ZMod 2) i) *
      GF256.x ^ i.val

/-- Inversion, which takes 0 to 0, and then the affine map. -/
noncomputable def GF256.sbox (a : GF256) : GF256 := GF256.affine a⁻¹

theorem bit_byteElement (b : UInt8) {i : ℕ} (hi : i < 8) :
    (byteElement b).bit i = coefficient (bitAt b i) := by
  rw [GF256.bit, byteElement, modByMonicHom_residue aesModulus_monic aesModulus_degree (by simp),
    coeff_ofBits, List.getD_eq_getElem _ _ (by simpa using hi)]
  simp only [lowBits, List.getElem_map, List.getElem_range]

/-- An element is the sum of its bits. -/
theorem byteElement_eq_sum (b : UInt8) : byteElement b =
    ∑ i : Fin 8, AdjoinRoot.of aesModulus (coefficient (bitAt b i.val)) * GF256.x ^ i.val := by
  rw [byteElement, residue, lowBits, ofBits_range, map_sum]
  exact Finset.sum_congr rfl fun i _ => by rw [map_mul, map_pow, AdjoinRoot.mk_C, AdjoinRoot.mk_X]

/-- A rotation by `k` brings the bit `j = 8 - k` places on. -/
theorem bitAt_rotl (b : UInt8) {k : UInt8} {j : Nat} (hk : k.toNat < 8 ∧ j < 8)
    (hj : k.toNat + j = 8) (i : Fin 8) : bitAt (rotl b k) i.val = bitAt b ((i.val + j) % 8) := by
  have hi := i.isLt
  have hback : (8 - k).toNat = j := by
    rw [UInt8.toNat_sub_of_le 8 k (UInt8.le_iff_toNat_le.mpr (by show k.toNat ≤ 8; omega))]
    show 8 - k.toNat = j
    omega
  rw [bitAt_testBit _ hi, bitAt_testBit _ (Nat.mod_lt _ (by decide)), rotl, UInt8.toNat_or,
    UInt8.toNat_shiftLeft, UInt8.toNat_shiftRight, hback, Nat.mod_eq_of_lt hk.1,
    Nat.mod_eq_of_lt hk.2, Nat.testBit_or, Nat.testBit_mod_two_pow, Nat.testBit_shiftLeft,
    Nat.testBit_shiftRight]
  by_cases hle : k.toNat ≤ i.val
  · have hhigh : b.toNat.testBit (j + i.val) = false :=
      Nat.testBit_lt_two_pow (lt_of_lt_of_le b.toNat_lt (Nat.pow_le_pow_right (by decide)
        (by omega)))
    rw [hhigh, show (i.val + j) % 8 = i.val - k.toNat by omega]
    simp [hi, hle]
  · rw [show (i.val + j) % 8 = j + i.val by omega]
    simp [hle]

theorem affine_byteElement (b : UInt8) :
    GF256.affine (byteElement b) = byteElement (affineByte b) := by
  have hconstant : ∀ i : Fin 8, coefficient (bitAt 0x63 i.val) =
      (![1, 1, 0, 0, 0, 1, 1, 0] : Fin 8 → ZMod 2) i := by decide
  have hon : ∀ i, i % 8 < 8 := fun i => Nat.mod_lt i (by decide)
  rw [GF256.affine, byteElement_eq_sum (affineByte b)]
  refine Finset.sum_congr rfl fun i _ => ?_
  simp only [affineByte, bitAt_xor _ _ i.isLt, coefficient_xor, hconstant,
    bit_byteElement b i.isLt, bit_byteElement b (hon _)]
  rw [bitAt_rotl b (k := 1) (j := 7) (by decide) rfl, bitAt_rotl b (k := 2) (j := 6) (by decide) rfl,
    bitAt_rotl b (k := 3) (j := 5) (by decide) rfl, bitAt_rotl b (k := 4) (j := 4) (by decide) rfl]
  refine congrArg (fun c => AdjoinRoot.of aesModulus c * GF256.x ^ i.val) ?_
  ring

theorem byteElement_subByte (b : UInt8) : byteElement (subByte b) = GF256.sbox (byteElement b) := by
  rw [GF256.sbox, ← byteElement_inverseByte, affine_byteElement, affineByte_inverseByte]

theorem subByte_bijective : Bijective subByte := by
  have hfinite : Finite UInt8 := Finite.of_injective UInt8.toFin fun a b h => by
    rw [← UInt8.ofFin_toFin a, h, UInt8.ofFin_toFin]
  refine Finite.injective_iff_bijective.mp fun a b h => ?_
  have hinv : byteElement (inverseByte a) = byteElement (inverseByte b) := by
    rw [inverseByte, inverseByte, h]
  rw [byteElement_inverseByte, byteElement_inverseByte] at hinv
  exact byteElement_bijective.1 (inv_injective hinv)

theorem sbox_bijective : Bijective GF256.sbox := by
  have hcomp : GF256.sbox ∘ byteElement = byteElement ∘ subByte :=
    funext fun b => (byteElement_subByte b).symm
  refine (Bijective.of_comp_iff GF256.sbox byteElement_bijective).mp ?_
  rw [hcomp]
  exact byteElement_bijective.comp subByte_bijective

end Relink.Crypto
