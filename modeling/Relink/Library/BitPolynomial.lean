import Mathlib.Algebra.Field.ZMod
import Mathlib.Algebra.Polynomial.Degree.Operations
import Mathlib.Data.List.GetD
import Mathlib.Data.ZMod.Basic
import Mathlib.RingTheory.AdjoinRoot

/-! Polynomials over the two-element field, as lists of bits.

A list of bits is the polynomial with these coefficients, the constant one first. Bitwise
exclusive or adds, a zero bit put in front multiplies by `X`, and a loop that shifts one operand
while it adds it for each bit set in the other multiplies, in any ring the polynomials map to. -/
namespace BitPolynomial
open Polynomial

def coefficient (b : Bool) : ZMod 2 := if b then 1 else 0

theorem coefficient_xor (a b : Bool) : coefficient (a ^^ b) = coefficient a + coefficient b := by
  revert a b
  decide

theorem coefficient_injective : Function.Injective coefficient := by decide

noncomputable def ofBits : List Bool → (ZMod 2)[X]
  | [] => 0
  | b :: bs => C (coefficient b) + X * ofBits bs

@[simp] theorem ofBits_nil : ofBits [] = 0 := rfl

theorem ofBits_cons (b : Bool) (bs : List Bool) :
    ofBits (b :: bs) = C (coefficient b) + X * ofBits bs := rfl

/-- A zero bit in front multiplies by `X`. -/
theorem ofBits_shift (bs : List Bool) : ofBits (false :: bs) = X * ofBits bs := by
  simp [ofBits_cons, coefficient]

theorem ofBits_append (as bs : List Bool) :
    ofBits (as ++ bs) = ofBits as + X ^ as.length * ofBits bs := by
  induction as with
  | nil => simp
  | cons a as ih =>
    rw [List.cons_append, ofBits_cons, ih, ofBits_cons, List.length_cons]
    ring

theorem ofBits_xor {as bs : List Bool} (h : as.length = bs.length) :
    ofBits (as.zipWith xor bs) = ofBits as + ofBits bs := by
  induction as generalizing bs with
  | nil =>
    rw [List.length_eq_zero_iff.mp h.symm]
    simp
  | cons a as ih =>
    cases bs with
    | nil => cases h
    | cons b bs =>
      rw [List.zipWith_cons_cons, ofBits_cons, ih (Nat.succ.inj h), ofBits_cons, ofBits_cons,
        coefficient_xor, C_add]
      ring

theorem ofBits_replicate_false (n : Nat) : ofBits (List.replicate n false) = 0 := by
  induction n with
  | zero => rfl
  | succ n ih => rw [List.replicate_succ, ofBits_shift, ih, mul_zero]

theorem ofBits_range (f : Nat → Bool) (n : Nat) :
    ofBits ((List.range n).map f) = ∑ i : Fin n, C (coefficient (f i)) * X ^ i.val := by
  induction n with
  | zero => rfl
  | succ n ih =>
    rw [List.range_succ, List.map_append, ofBits_append, ih, Fin.sum_univ_castSucc,
      List.length_map, List.length_range, List.map_singleton, ofBits_cons, ofBits_nil, mul_zero,
      add_zero, mul_comm]
    rfl

theorem coeff_ofBits (bs : List Bool) (i : Nat) :
    (ofBits bs).coeff i = coefficient (bs.getD i false) := by
  induction bs generalizing i with
  | nil => simp [coefficient]
  | cons b bs ih =>
    rw [ofBits_cons, coeff_add]
    cases i with
    | zero => simp
    | succ i =>
      rw [coeff_C_succ, coeff_X_mul, ih, zero_add]
      rfl

theorem degree_ofBits (bs : List Bool) : (ofBits bs).degree < bs.length := by
  rw [degree_lt_iff_coeff_zero]
  intro i hi
  rw [coeff_ofBits, List.getD_eq_default _ _ hi]
  rfl

theorem ofBits_inj {as bs : List Bool} (hlen : as.length = bs.length) :
    ofBits as = ofBits bs ↔ as = bs := by
  refine ⟨fun h => ?_, congrArg ofBits⟩
  refine List.ext_getElem hlen fun i ha hb => ?_
  have hcoeff := congrArg (fun p => coeff p i) h
  simp only [coeff_ofBits] at hcoeff
  rw [List.getD_eq_getElem _ _ ha, List.getD_eq_getElem _ _ hb] at hcoeff
  exact coefficient_injective hcoeff

/-! ### Shift and add -/

section ShiftAdd
variable {R S : Type} [CommRing R] (φ : (ZMod 2)[X] →+* R) (sum shifted : S → R)
  (step : S → Bool → S)

/-- A loop over the bits of one factor, whose turns add what the other has become and then
multiply it by `X`, ends with their product added. -/
theorem foldl_shiftAdd
    (hsum : ∀ s b, sum (step s b) = sum s + φ (C (coefficient b)) * shifted s)
    (hshift : ∀ s b, shifted (step s b) = φ X * shifted s) (bits : List Bool) (s : S) :
    sum (bits.foldl step s) = sum s + φ (ofBits bits) * shifted s := by
  induction bits generalizing s with
  | nil => simp
  | cons b bits ih =>
    rw [List.foldl_cons, ih, hsum, hshift, ofBits_cons, map_add, map_mul]
    ring

end ShiftAdd

/-! ### Residues

Modulo a monic polynomial of degree `n`, the lists of `n` bits are the residues. -/

section Residue
variable {modulus : (ZMod 2)[X]} {n : Nat} {as bs : List Bool}

noncomputable def residue (modulus : (ZMod 2)[X]) (bits : List Bool) : AdjoinRoot modulus :=
  AdjoinRoot.mk modulus (ofBits bits)

theorem residue_xor (h : as.length = bs.length) :
    residue modulus (as.zipWith xor bs) = residue modulus as + residue modulus bs := by
  rw [residue, ofBits_xor h, map_add]
  rfl

/-- What is left of `X^n`. -/
theorem root_pow {p : (ZMod 2)[X]} (h : modulus = X ^ n + p) :
    AdjoinRoot.root modulus ^ n = AdjoinRoot.mk modulus p := by
  have hzero : AdjoinRoot.mk modulus (X ^ n) + AdjoinRoot.mk modulus p = 0 := by
    rw [← map_add, ← h, AdjoinRoot.mk_self]
  rw [← AdjoinRoot.mk_X, ← map_pow, eq_neg_of_add_eq_zero_left hzero, ← map_neg, CharTwo.neg_eq]

/-- Bits that move up by one, and the bit that goes out at the end. -/
theorem residue_shift (modulus : (ZMod 2)[X]) {out : Bool} (h : bs ++ [out] = false :: as) :
    residue modulus bs + AdjoinRoot.mk modulus (C (coefficient out)) *
        AdjoinRoot.root modulus ^ bs.length = AdjoinRoot.root modulus * residue modulus as := by
  have hpoly := congrArg ofBits h
  rw [ofBits_append, ofBits_shift, ofBits_cons, ofBits_nil, mul_zero, add_zero] at hpoly
  have hring := congrArg (AdjoinRoot.mk modulus) hpoly
  rw [map_add, map_mul, map_mul, map_pow, AdjoinRoot.mk_X, mul_comm (_ ^ _)] at hring
  exact hring

variable (hmonic : modulus.Monic) (hdegree : modulus.degree = n)
include hdegree

/-- The residue of a list of bits is the polynomial it is. -/
theorem modByMonicHom_residue (h : as.length = n) :
    AdjoinRoot.modByMonicHom hmonic (residue modulus as) = ofBits as := by
  rw [residue, AdjoinRoot.modByMonicHom_mk, modByMonic_eq_self_iff hmonic, hdegree, ← h]
  exact degree_ofBits as

include hmonic in
theorem residue_inj (has : as.length = n) (hbs : bs.length = n) :
    residue modulus as = residue modulus bs ↔ as = bs := by
  refine ⟨fun h => ?_, congrArg _⟩
  have hpoly := congrArg (AdjoinRoot.modByMonicHom hmonic) h
  rw [modByMonicHom_residue hmonic hdegree has, modByMonicHom_residue hmonic hdegree hbs] at hpoly
  exact (ofBits_inj (has.trans hbs.symm)).mp hpoly

include hmonic in
theorem residue_surjective (a : AdjoinRoot modulus) :
    ∃ bits : List Bool, bits.length = n ∧ residue modulus bits = a := by
  obtain ⟨p, rfl⟩ := AdjoinRoot.mk_surjective a
  have hcoefficient : ∀ c : ZMod 2, coefficient (decide (c = 1)) = c := by decide
  refine ⟨(List.range n).map fun i => decide ((p %ₘ modulus).coeff i = 1), by simp, ?_⟩
  have hbits : ofBits ((List.range n).map fun i => decide ((p %ₘ modulus).coeff i = 1)) =
      p %ₘ modulus := by
    ext i
    rw [coeff_ofBits]
    by_cases hi : i < n
    · rw [List.getD_eq_getElem _ _ (by simpa using hi), List.getElem_map, List.getElem_range,
        hcoefficient]
    · rw [List.getD_eq_default _ _ (by simpa using hi), coeff_eq_zero_of_degree_lt]
      · rfl
      · refine (degree_modByMonic_lt p hmonic).trans_le ?_
        rw [hdegree]
        exact_mod_cast Nat.le_of_not_lt hi
  rw [residue, hbits, AdjoinRoot.mk_eq_mk]
  exact dvd_modByMonic_sub p modulus

end Residue

end BitPolynomial
