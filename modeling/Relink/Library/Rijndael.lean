import Mathlib.Algebra.CharP.Two
import Mathlib.Algebra.Polynomial.Div
import Mathlib.Tactic.ComputeDegree
import Mathlib.Tactic.LinearCombination

/-! The block cipher with a key of eight words and fourteen rounds, in algebra.

The bytes are elements of a commutative ring of characteristic two, with an element `x` that stands
for 2, and the S-box is a function on them. A column is a polynomial of degree below four, which the
rounds multiply by `3X^3 + X^2 + X + 2` modulo `X^4 + 1`. The cipher is a bijection if the S-box is
one. -/
namespace Rijndael
open Polynomial Function

variable {R : Type} [CommRing R]

/-- A column, or a word of the key schedule. -/
abbrev Word (R : Type) := Fin 4 → R

/-- Rows of four columns. -/
abbrev State (R : Type) := Fin 4 → Fin 4 → R

/-! ### Rounds -/

def subBytes (S : R → R) (s : State R) : State R := fun r c => S (s r c)

/-- Row `r` is rotated left by `r`. -/
def shiftRows (s : State R) : State R := fun r c => s r (c + r)

noncomputable def columnPolynomial (w : Word R) : R[X] :=
  C (w 3) * X ^ 3 + C (w 2) * X ^ 2 + C (w 1) * X + C (w 0)

/-- The product of a polynomial and a column modulo `X^4 + 1`. -/
noncomputable def mulColumn (p : R[X]) (w : Word R) : Word R :=
  fun i => ((p * columnPolynomial w) %ₘ (X ^ 4 + 1)).coeff i

/-- `3X^3 + X^2 + X + 2`. -/
noncomputable def mixPolynomial (x : R) : R[X] := C (x + 1) * X ^ 3 + X ^ 2 + X + C x

noncomputable def mixColumns (x : R) (s : State R) : State R :=
  fun r c => mulColumn (mixPolynomial x) (fun r => s r c) r

/-- The round's four words of the key schedule are added to the columns. -/
def addRoundKey (w : ℕ → Word R) (round : ℕ) (s : State R) : State R :=
  fun r c => s r c + w (4 * round + c) r

noncomputable def round (S : R → R) (x : R) (w : ℕ → Word R) (i : ℕ) (s : State R) : State R :=
  addRoundKey w i (mixColumns x (shiftRows (subBytes S s)))

/-- The first rounds, from 1 on. -/
noncomputable def rounds (S : R → R) (x : R) (w : ℕ → Word R) (n : ℕ) (s : State R) : State R :=
  (List.range n).foldl (fun s i => round S x w (i + 1) s) s

/-- Thirteen rounds, and a last one that does not mix columns. -/
noncomputable def cipher (S : R → R) (x : R) (w : ℕ → Word R) (s : State R) : State R :=
  addRoundKey w 14 (shiftRows (subBytes S (rounds S x w 13 (addRoundKey w 0 s))))

/-! ### The key schedule -/

def subWord (S : R → R) (w : Word R) : Word R := fun i => S (w i)

def rotWord (w : Word R) : Word R := fun i => w (i + 1)

/-- A power of `x`, from 1 on. -/
def rcon (x : R) (i : ℕ) : Word R := ![x ^ (i - 1), 0, 0, 0]

/-- The words of the key, and then each is the sum of the one eight before it and of the one before
it, transformed at the multiples of four. -/
def keyExpansion (S : R → R) (x : R) (key : Fin 8 → Word R) (i : ℕ) : Word R :=
  if h : i < 8 then key ⟨i, h⟩
  else
    let temp := keyExpansion S x key (i - 1)
    keyExpansion S x key (i - 8) +
      if i % 8 = 0 then subWord S (rotWord temp) + rcon x (i / 8)
      else if i % 8 = 4 then subWord S temp
      else temp
termination_by i

theorem keyExpansion_key (S : R → R) (x : R) (key : Fin 8 → Word R) {i : ℕ} (h : i < 8) :
    keyExpansion S x key i = key ⟨i, h⟩ := by
  rw [keyExpansion, dif_pos h]

theorem keyExpansion_next (S : R → R) (x : R) (key : Fin 8 → Word R) (k : ℕ) :
    keyExpansion S x key (k + 8) = keyExpansion S x key k +
      if (k + 8) % 8 = 0 then
        subWord S (rotWord (keyExpansion S x key (k + 7))) + rcon x ((k + 8) / 8)
      else if (k + 8) % 8 = 4 then subWord S (keyExpansion S x key (k + 7))
      else keyExpansion S x key (k + 7) := by
  rw [keyExpansion, dif_neg (Nat.not_lt.mpr (Nat.le_add_left 8 k))]
  rfl

/-! ### Columns -/

theorem columnPolynomial_coeff (w : Word R) (i : Fin 4) : (columnPolynomial w).coeff i = w i := by
  fin_cases i <;> simp [columnPolynomial, coeff_X, coeff_C, coeff_X_pow]

theorem columnPolynomial_degree (w : Word R) : (columnPolynomial w).degree < 4 := by
  rw [columnPolynomial]
  compute_degree!

/-- A polynomial of degree below four is the one of its coefficients. -/
theorem columnPolynomial_coeffs {p : R[X]} (h : p.degree < 4) :
    columnPolynomial (fun i => p.coeff i) = p := by
  ext n
  by_cases hn : n < 4
  · exact columnPolynomial_coeff (fun i => p.coeff i) ⟨n, hn⟩
  · have hge : ((4 : ℕ) : WithBot ℕ) ≤ n := by exact_mod_cast Nat.le_of_not_lt hn
    rw [coeff_eq_zero_of_degree_lt (lt_of_lt_of_le (columnPolynomial_degree _) hge),
      coeff_eq_zero_of_degree_lt (lt_of_lt_of_le h hge)]

variable (R) in
theorem modulus_monic : (X ^ 4 + 1 : R[X]).Monic := by monicity!

variable [Nontrivial R]

variable (R) in
theorem modulus_degree : (X ^ 4 + 1 : R[X]).degree = 4 := by compute_degree!

/-- A product modulo `X^4 + 1` is a column again. -/
theorem columnPolynomial_mulColumn (p : R[X]) (w : Word R) :
    columnPolynomial (mulColumn p w) = (p * columnPolynomial w) %ₘ (X ^ 4 + 1) :=
  columnPolynomial_coeffs (modulus_degree R ▸ degree_modByMonic_lt _ (modulus_monic R))

theorem mulColumn_mulColumn (p q : R[X]) (w : Word R) :
    mulColumn p (mulColumn q w) = mulColumn (p * q) w := by
  funext i
  rw [mulColumn, columnPolynomial_mulColumn, mulColumn, mul_assoc]
  refine congrArg (fun f => coeff f i) (modByMonic_eq_of_dvd_sub (modulus_monic R) ?_)
  rw [← mul_sub]
  exact (dvd_modByMonic_sub _ _).mul_left p

omit [Nontrivial R] in
/-- Only the remainder of the factor counts. -/
theorem mulColumn_congr {p q : R[X]} (h : X ^ 4 + 1 ∣ p - q) (w : Word R) :
    mulColumn p w = mulColumn q w := by
  funext i
  refine congrArg (fun f => coeff f i) (modByMonic_eq_of_dvd_sub (modulus_monic R) ?_)
  rw [← sub_mul]
  exact h.mul_right _

theorem mulColumn_one (w : Word R) : mulColumn 1 w = w := by
  funext i
  rw [mulColumn, one_mul, (modByMonic_eq_self_iff (modulus_monic R)).mpr
    (modulus_degree R ▸ columnPolynomial_degree w), columnPolynomial_coeff]

/-! ### Mixing -/

variable [CharP R 2]

/-- The factor that the inverse of the cipher uses, `bX^3 + dX^2 + 9X + e`. -/
noncomputable def unmixPolynomial (x : R) : R[X] :=
  C (x ^ 3 + x + 1) * X ^ 3 + C (x ^ 3 + x ^ 2 + 1) * X ^ 2 + C (x ^ 3 + 1) * X +
    C (x ^ 3 + x ^ 2 + x)

omit [Nontrivial R] in
theorem unmix_mul_mix (x : R) : (X ^ 4 + 1 : R[X]) ∣ unmixPolynomial x * mixPolynomial x - 1 := by
  have htwo : (2 : R[X]) = 0 := CharTwo.two_eq_zero
  simp only [unmixPolynomial, mixPolynomial, C_add, C_pow, C_1]
  generalize C x = y
  -- `X^4` is 1 up to a sign, and what is left over is even
  refine ⟨(y ^ 4 + 3 * y ^ 3 + y ^ 2 + 2 * y + 3) + (y ^ 4 + 3 * y ^ 3 + y ^ 2 + 2 * y + 2) * X +
    (y ^ 4 + y ^ 3 + y ^ 2 + 2 * y + 1) * X ^ 2, ?_⟩
  linear_combination (-(y ^ 3 + y + 2) - (y ^ 3 + 1) * X + y ^ 3 * X ^ 2 +
    (y ^ 4 + 2 * y ^ 3 + 2 * y ^ 2 + y + 1) * X ^ 3) * htwo

theorem mix_bijective (x : R) : Bijective (mulColumn (mixPolynomial x)) := by
  have hunmix : ∀ p q : R[X], p * q = unmixPolynomial x * mixPolynomial x →
      LeftInverse (mulColumn p) (mulColumn q) := by
    intro p q hpq w
    rw [mulColumn_mulColumn, hpq, mulColumn_congr (unmix_mul_mix x), mulColumn_one]
  exact bijective_iff_has_inverse.mpr ⟨mulColumn (unmixPolynomial x), hunmix _ _ rfl,
    hunmix _ _ (mul_comm ..)⟩

/-- The product, written out for the four rows. -/
theorem mulColumn_mix (x : R) (w : Word R) : mulColumn (mixPolynomial x) w =
    ![x * w 0 + (x + 1) * w 1 + w 2 + w 3, w 0 + x * w 1 + (x + 1) * w 2 + w 3,
      w 0 + w 1 + x * w 2 + (x + 1) * w 3, (x + 1) * w 0 + w 1 + w 2 + x * w 3] := by
  have htwo : (2 : R[X]) = 0 := CharTwo.two_eq_zero
  have hrem : ∀ v, columnPolynomial v + (X ^ 4 + 1) * ((C (w 3) + C (w 2) + C (x + 1) * C (w 1)) +
      (C (w 3) + C (x + 1) * C (w 2)) * X + C (x + 1) * C (w 3) * X ^ 2) =
        mixPolynomial x * columnPolynomial w → mulColumn (mixPolynomial x) w = v := by
    intro v hv
    funext i
    rw [mulColumn, (div_modByMonic_unique _ (columnPolynomial v) (modulus_monic R)
      ⟨hv, modulus_degree R ▸ columnPolynomial_degree v⟩).2, columnPolynomial_coeff]
  refine hrem _ ?_
  simp only [mixPolynomial, columnPolynomial, C_add, C_mul, C_1, Matrix.cons_val]
  linear_combination ((C (w 3) + C (w 2) + (C x + 1) * C (w 1)) +
    (C (w 3) + (C x + 1) * C (w 2)) * X + (C x + 1) * C (w 3) * X ^ 2) * htwo

/-! ### The cipher is a bijection -/

omit [CommRing R] [Nontrivial R] [CharP R 2] in
theorem subBytes_bijective {S : R → R} (hS : Bijective S) : Bijective (subBytes S) :=
  .comp_left (.comp_left hS)

omit [CommRing R] [Nontrivial R] [CharP R 2] in
theorem shiftRows_bijective : Bijective (shiftRows (R := R)) := by
  have hback : ∀ r c : Fin 4, c - r + r = c ∧ c + r - r = c := by decide
  refine bijective_iff_has_inverse.mpr ⟨fun s r c => s r (c - r), fun s => ?_, fun s => ?_⟩
  · funext r c
    exact congrArg (s r) (hback r c).1
  · funext r c
    exact congrArg (s r) (hback r c).2

/-- The columns are mixed one by one. -/
theorem mixColumns_bijective (x : R) : Bijective (mixColumns x) :=
  (swap_bijective.comp (mix_bijective x).comp_left).comp swap_bijective

omit [Nontrivial R] [CharP R 2] in
theorem addRoundKey_bijective (w : ℕ → Word R) (round : ℕ) : Bijective (addRoundKey w round) :=
  (Equiv.addRight (fun r c => w (4 * round + c) r : State R)).bijective

theorem round_bijective {S : R → R} (hS : Bijective S) (x : R) (w : ℕ → Word R) (i : ℕ) :
    Bijective (round S x w i) :=
  (addRoundKey_bijective w i).comp
    ((mixColumns_bijective x).comp (shiftRows_bijective.comp (subBytes_bijective hS)))

theorem rounds_bijective {S : R → R} (hS : Bijective S) (x : R) (w : ℕ → Word R) (n : ℕ) :
    Bijective (rounds S x w n) := by
  induction n with
  | zero => exact bijective_id
  | succ n ih =>
    have hstep : rounds S x w (n + 1) = round S x w (n + 1) ∘ rounds S x w n := by
      funext s
      rw [rounds, List.range_succ, List.foldl_append]
      rfl
    rw [hstep]
    exact (round_bijective hS x w (n + 1)).comp ih

theorem cipher_bijective {S : R → R} (hS : Bijective S) (x : R) (w : ℕ → Word R) :
    Bijective (cipher S x w) := by
  have hlast := (addRoundKey_bijective w 14).comp
    (shiftRows_bijective.comp (subBytes_bijective hS))
  exact (hlast.comp (rounds_bijective hS x w 13)).comp (addRoundKey_bijective w 0)

end Rijndael
