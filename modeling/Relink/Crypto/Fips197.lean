import Relink.Crypto.ByteField
import Relink.Library.Rijndael

/-! The block cipher computes AES-256.

The byte `r + 4 * c` of a block is row `r` and column `c` of the state, over the field of bytes. The
tables, shifts and loops of the source are the algebraic cipher there, and so every key encrypts
blocks one to one. -/
namespace Relink.Crypto
open Function
open Py (toNat_byte beWord_toNat rotWord_toNat)

noncomputable def blockState (b : Block) : Rijndael.State GF256 :=
  fun r c => byteElement b[r.val + 4 * c.val]

/-- The bytes of a word, the most significant first. -/
def wordByte (w : UInt32) (i : Fin 4) : UInt8 := (w >>> (24 - 8 * i.val).toUInt32).toUInt8

noncomputable def wordElements (w : UInt32) : Rijndael.Word GF256 :=
  fun i => byteElement (wordByte w i)

noncomputable def keyElements (key : Key) : Fin 8 → Rijndael.Word GF256 :=
  fun i j => byteElement key[4 * i.val + j.val]

/-- The words of the key schedule. -/
noncomputable def keySchedule (key : Key) : ℕ → Rijndael.Word GF256 :=
  Rijndael.keyExpansion GF256.sbox GF256.x (keyElements key)

/-! ### Words -/

theorem wordByte_xor (a b : UInt32) (i : Fin 4) :
    wordByte (a ^^^ b) i = wordByte a i ^^^ wordByte b i := by
  rw [wordByte, UInt32.shiftRight_xor, UInt32.toUInt8_xor]
  rfl

theorem wordByte_toNat (w : UInt32) (i : Fin 4) :
    (wordByte w i).toNat = w.toNat / 2 ^ (24 - 8 * i.val) % 256 := by
  have hshift : (24 - 8 * i.val).toUInt32.toNat = 24 - 8 * i.val := Nat.mod_eq_of_lt (by omega)
  rw [wordByte, toNat_byte _ (by omega), hshift, Nat.shiftRight_eq_div_pow]
  exact Nat.and_two_pow_sub_one_eq_mod _ 8

theorem wordByte_beWord (b₀ b₁ b₂ b₃ : UInt8) (i : Fin 4) :
    wordByte (beWord b₀ b₁ b₂ b₃) i = (![b₀, b₁, b₂, b₃] : Fin 4 → UInt8) i := by
  have h₀ := b₀.toNat_lt
  have h₁ := b₁.toNat_lt
  have h₂ := b₂.toNat_lt
  have h₃ := b₃.toNat_lt
  rw [← UInt8.toNat_inj, wordByte_toNat, ← beWord_toNat, Py.beWord]
  fin_cases i
  · show _ / 2 ^ 24 % 256 = b₀.toNat
    omega
  · show _ / 2 ^ 16 % 256 = b₁.toNat
    omega
  · show _ / 2 ^ 8 % 256 = b₂.toNat
    omega
  · show _ / 2 ^ 0 % 256 = b₃.toNat
    omega

theorem toNat_rotWord (w : UInt32) :
    (rotWord w).toNat = w.toNat % 2 ^ 24 * 2 ^ 8 + w.toNat / 2 ^ 24 := by
  have hw := w.toNat_lt
  have htop : w.toNat / 2 ^ 24 < 2 ^ 8 := by omega
  have hlow : w.toNat * 2 ^ 8 % 2 ^ 32 = w.toNat % 2 ^ 24 * 2 ^ 8 := by omega
  rw [rotWord, UInt32.toNat_or, UInt32.toNat_shiftLeft, UInt32.toNat_shiftRight]
  show w.toNat <<< 8 % 2 ^ 32 ||| w.toNat >>> 24 = _
  rw [Nat.shiftLeft_eq, hlow, Nat.shiftRight_eq_div_pow, ← Nat.shiftLeft_eq,
    Nat.shiftLeft_add_eq_or_of_lt htop]

theorem beWord_wordByte (w : UInt32) :
    beWord (wordByte w 0) (wordByte w 1) (wordByte w 2) (wordByte w 3) = w := by
  have hw := w.toNat_lt
  rw [← UInt32.toNat_inj, ← beWord_toNat, Py.beWord]
  simp only [wordByte_toNat]
  show w.toNat / 2 ^ 24 % 256 * 2 ^ 24 + w.toNat / 2 ^ 16 % 256 * 2 ^ 16 +
    w.toNat / 2 ^ 8 % 256 * 2 ^ 8 + w.toNat / 2 ^ 0 % 256 = w.toNat
  omega

theorem rotWord_beWord (b₀ b₁ b₂ b₃ : UInt8) :
    rotWord (beWord b₀ b₁ b₂ b₃) = beWord b₁ b₂ b₃ b₀ := by
  have h₀ := b₀.toNat_lt
  have h₁ := b₁.toNat_lt
  have h₂ := b₂.toNat_lt
  have h₃ := b₃.toNat_lt
  rw [← UInt32.toNat_inj, toNat_rotWord, ← beWord_toNat, ← beWord_toNat, Py.beWord, Py.beWord]
  omega

theorem wordByte_rotWord (w : UInt32) (i : Fin 4) :
    wordByte (rotWord w) i = wordByte w (i + 1) := by
  rw [← beWord_wordByte w, rotWord_beWord, wordByte_beWord, wordByte_beWord]
  fin_cases i <;> rfl

theorem wordElements_xor (a b : UInt32) :
    wordElements (a ^^^ b) = wordElements a + wordElements b := by
  funext i
  rw [wordElements, wordByte_xor, byteElement_xor]
  rfl

theorem wordElements_beWord (b₀ b₁ b₂ b₃ : UInt8) : wordElements (beWord b₀ b₁ b₂ b₃) =
    fun i => byteElement ((![b₀, b₁, b₂, b₃] : Fin 4 → UInt8) i) := by
  funext i
  rw [wordElements, wordByte_beWord]

theorem wordElements_rotWord (w : UInt32) :
    wordElements (rotWord w) = Rijndael.rotWord (wordElements w) := by
  funext i
  rw [wordElements, wordByte_rotWord]
  rfl

theorem wordElements_subWord (w : UInt32) :
    wordElements (subWord w) = Rijndael.subWord GF256.sbox (wordElements w) := by
  have hbytes : subWord w = beWord (subByte (wordByte w 0)) (subByte (wordByte w 1))
      (subByte (wordByte w 2)) (subByte (wordByte w 3)) := by
    have hlow : wordByte w 3 = w.toUInt8 := by
      rw [← UInt8.toNat_inj, wordByte_toNat, UInt32.toNat_toUInt8]
      exact congrArg (· % 256) (Nat.div_one _)
    rw [hlow]
    rfl
  rw [hbytes, wordElements_beWord]
  funext i
  rw [Rijndael.subWord, wordElements, ← byteElement_subByte]
  fin_cases i <;> rfl

theorem byteElement_two : byteElement 2 = GF256.x := by
  have h := byteElement_xtime 1
  rw [byteElement_one, mul_one] at h
  exact h

/-- The table of round constants is repeated `xtime`. -/
theorem kRcon_succ : ∀ i, (h : i < 13) → kRcon[i + 2] = xtime kRcon[i + 1] := by decide

theorem byteElement_kRcon {i : Nat} (h : i < 14) : byteElement kRcon[i + 1] = GF256.x ^ i := by
  induction i with
  | zero => exact byteElement_one
  | succ i ih =>
    rw [show kRcon[i + 1 + 1] = xtime kRcon[i + 1] from kRcon_succ i (by omega),
      byteElement_xtime, ih (by omega), pow_succ']

theorem wordElements_kRcon {i : Nat} (hpos : 0 < i) (h : i < 15) :
    wordElements (kRcon[i].toUInt32 <<< 24) = Rijndael.rcon GF256.x i := by
  obtain ⟨j, rfl⟩ : ∃ j, i = j + 1 := ⟨i - 1, by omega⟩
  have hword : kRcon[j + 1].toUInt32 <<< 24 = beWord kRcon[j + 1] 0 0 0 := by simp [beWord]
  rw [hword, wordElements_beWord]
  funext r
  fin_cases r
  · exact byteElement_kRcon (by omega)
  · exact byteElement_zero
  · exact byteElement_zero
  · exact byteElement_zero

/-! ### The key schedule -/

/-- The words are right up to one. -/
def Scheduled (key : Key) (n : Nat) (w : Vector UInt32 60) : Prop :=
  ∀ i, (h : i < 60) → i < n → wordElements w[i] = keySchedule key i

theorem scheduled_keyWords (key : Key) : Scheduled key 8 (keyWords key) := by
  intro i h hi
  rw [keySchedule, Rijndael.keyExpansion_key _ _ _ hi, keyWords, Vector.getElem_ofFn, dif_pos hi, wordElements_beWord]
  funext j
  fin_cases j <;> rfl

/-- A turn of the loop makes the next word right. -/
theorem Scheduled.expandWord {key : Key} {w : Vector UInt32 60} {k : Nat} (hk : k < 52)
    (h : Scheduled key (k + 8) w) : Scheduled key (k + 9) (expandWord w ⟨k, hk⟩) := by
  intro i hi hlt
  rw [Crypto.expandWord, Vector.getElem_set]
  by_cases heq : k + 8 = i
  · subst heq
    have hold : wordElements w[k] = keySchedule key k := h k (by omega) (by omega)
    have hprev : wordElements w[k + 7] = keySchedule key (k + 7) := h (k + 7) (by omega) (by omega)
    have hcon := wordElements_kRcon (i := (k + 8) / 8) (by omega) (by omega)
    rw [if_pos rfl, wordElements_xor, hold, keySchedule, Rijndael.keyExpansion_next]
    refine congrArg (keySchedule key k + ·) ?_
    show wordElements (if (k + 8) % 8 = 0 then _ else if (k + 8) % 8 = 4 then _ else _) =
      if (k + 8) % 8 = 0 then _ else if (k + 8) % 8 = 4 then _ else _
    split
    · rw [wordElements_xor, wordElements_subWord, wordElements_rotWord, hprev, hcon]
      rfl
    · split
      · rw [wordElements_subWord, hprev]
        rfl
      · exact hprev
  · rw [if_neg heq]
    exact h i hi (by omega)

theorem scheduled_foldl {key : Key} (m : Nat) {w : Vector UInt32 60} {k : Nat} (hm : k + m = 52)
    (h : Scheduled key (k + 8) w) :
    Scheduled key 60 (((List.finRange 52).drop k).foldl expandWord w) := by
  induction m generalizing k w with
  | zero =>
    obtain rfl : k = 52 := hm
    exact h
  | succ m ih =>
    have hk : k < 52 := by omega
    rw [List.drop_eq_getElem_cons (by simpa using hk), List.getElem_finRange, List.foldl_cons]
    exact ih (by omega) (h.expandWord hk)

/-- The key schedule. -/
theorem roundKeys_schedule (key : Key) (i : Nat) (h : i < 60) :
    wordElements (Aes256.expand key).roundKeys[i] = keySchedule key i :=
  scheduled_foldl 52 (Nat.zero_add 52) (scheduled_keyWords key) i h h

/-! ### Layers -/

theorem blockState_bijective : Bijective blockState := by
  constructor
  · intro a b h
    refine Vector.ext fun i hi => byteElement_bijective.1 ?_
    have hcell := congrFun (congrFun h ⟨i % 4, by omega⟩) ⟨i / 4, by omega⟩
    simp only [blockState, Nat.mod_add_div] at hcell
    exact hcell
  · intro s
    refine ⟨Vector.ofFn fun i : Fin 16 => surjInv byteElement_bijective.surjective
      (s ⟨i.val % 4, by omega⟩ ⟨i.val / 4, by omega⟩), ?_⟩
    funext r c
    have hrow : (r.val + 4 * c.val) % 4 = r.val := by omega
    have hcolumn : (r.val + 4 * c.val) / 4 = c.val := by omega
    rw [blockState, Vector.getElem_ofFn]
    refine (surjInv_eq byteElement_bijective.surjective _).trans ?_
    simp only [hrow, hcolumn]

theorem blockState_cell (s : Block) (r c : Fin 4) :
    byteElement s[4 * c.val + r.val] = blockState s r c := by
  simp only [blockState, Nat.add_comm (4 * c.val)]

theorem blockState_subBytes (s : Block) :
    blockState (subBytes s) = Rijndael.subBytes GF256.sbox (blockState s) := by
  funext r c
  rw [blockState, subBytes, Vector.getElem_map, byteElement_subByte]
  rfl

theorem blockState_shiftRows (s : Block) :
    blockState (shiftRows s) = Rijndael.shiftRows (blockState s) := by
  funext r c
  have hrow : (r.val + 4 * c.val) % 4 = r.val := by omega
  have hcolumn : (r.val + 4 * c.val) / 4 = c.val := by omega
  rw [blockState, shiftRows, Vector.getElem_ofFn, Rijndael.shiftRows, ← blockState_cell]
  simp only [hrow, hcolumn, Fin.val_add]

theorem blockState_mixColumns (s : Block) :
    blockState (mixColumns s) = Rijndael.mixColumns GF256.x (blockState s) := by
  have hdouble : ∀ b, byteElement (gmul b 2) = GF256.x * byteElement b := fun b => by
    rw [byteElement_gmul, byteElement_two, mul_comm]
  have htriple : ∀ b, byteElement (gmul b 3) = (GF256.x + 1) * byteElement b := fun b => by
    rw [byteElement_gmul, show (3 : UInt8) = 2 ^^^ 1 by decide, byteElement_xor, byteElement_two,
      byteElement_one, mul_comm]
  funext r c
  have hrow : (r.val + 4 * c.val) % 4 = r.val := by omega
  have hcolumn : (r.val + 4 * c.val) / 4 = c.val := by omega
  rw [blockState, mixColumns, Vector.getElem_ofFn, Rijndael.mixColumns, Rijndael.mulColumn_mix]
  have h₀ : byteElement s[4 * c.val] = blockState s 0 c := blockState_cell s 0 c
  have h₁ : byteElement s[4 * c.val + 1] = blockState s 1 c := blockState_cell s 1 c
  have h₂ : byteElement s[4 * c.val + 2] = blockState s 2 c := blockState_cell s 2 c
  have h₃ : byteElement s[4 * c.val + 3] = blockState s 3 c := blockState_cell s 3 c
  simp only [hrow, hcolumn, ← h₀, ← h₁, ← h₂, ← h₃, ← hdouble, ← htriple, ← byteElement_xor]
  fin_cases r <;> rfl

theorem blockState_addRoundKey (key : Key) (round : Fin 15) (s : Block) :
    blockState ((Aes256.expand key).addRoundKey round s) =
      Rijndael.addRoundKey (keySchedule key) round (blockState s) := by
  funext r c
  have hrow : (r.val + 4 * c.val) % 4 = r.val := by omega
  have hcolumn : (r.val + 4 * c.val) / 4 = c.val := by omega
  rw [blockState, Aes256.addRoundKey, Vector.getElem_ofFn, byteElement_xor, Rijndael.addRoundKey,
    ← roundKeys_schedule key (4 * round.val + c.val) (by omega)]
  simp only [hrow, hcolumn, Nat.mul_comm round.val]
  rfl

/-! ### The cipher -/

theorem blockState_encryptBlock (key : Key) (input : Block) :
    blockState ((Aes256.expand key).encryptBlock input) =
      Rijndael.cipher GF256.sbox GF256.x (keySchedule key) (blockState input) := by
  have hround : ∀ s (r : Fin 13), Rijndael.round GF256.sbox GF256.x (keySchedule key) (r.val + 1)
      (blockState s) = blockState ((Aes256.expand key).addRoundKey ⟨r.val + 1, by omega⟩
        (mixColumns (shiftRows (subBytes s)))) := by
    intro s r
    rw [blockState_addRoundKey, blockState_mixColumns, blockState_shiftRows, blockState_subBytes]
    rfl
  have hrounds : ∀ s, Rijndael.rounds GF256.sbox GF256.x (keySchedule key) 13 (blockState s) =
      blockState ((List.finRange 13).foldl (fun s (r : Fin 13) =>
        (Aes256.expand key).addRoundKey ⟨r.val + 1, by omega⟩
          (mixColumns (shiftRows (subBytes s)))) s) := by
    intro s
    rw [Rijndael.rounds, ← List.map_coe_finRange_eq_range, List.foldl_map]
    exact List.foldl_hom blockState hround
  have hfirst : ∀ s, blockState ((Aes256.expand key).addRoundKey 0 s) =
      Rijndael.addRoundKey (keySchedule key) 0 (blockState s) := blockState_addRoundKey key 0
  rw [Aes256.encryptBlock, Rijndael.cipher, ← hfirst, hrounds, ← blockState_subBytes,
    ← blockState_shiftRows]
  exact blockState_addRoundKey key 14 _

/-- The round keys and the blocks are those of AES-256, and a key's blocks are all different. -/
theorem aes256_fips197 (key : Key) :
    (∀ i : Fin 60, wordElements (Aes256.expand key).roundKeys[i] =
      Rijndael.keyExpansion GF256.sbox GF256.x (keyElements key) i) ∧
    (∀ block, blockState ((Aes256.expand key).encryptBlock block) =
      Rijndael.cipher GF256.sbox GF256.x
        (Rijndael.keyExpansion GF256.sbox GF256.x (keyElements key)) (blockState block)) ∧
    Bijective (Aes256.expand key).encryptBlock := by
  refine ⟨fun i => roundKeys_schedule key i i.isLt, blockState_encryptBlock key, ?_⟩
  have hcomp : blockState ∘ (Aes256.expand key).encryptBlock =
      Rijndael.cipher GF256.sbox GF256.x (keySchedule key) ∘ blockState :=
    funext (blockState_encryptBlock key)
  refine (Bijective.of_comp_iff' blockState_bijective _).mp ?_
  rw [hcomp]
  exact (Rijndael.cipher_bijective sbox_bijective _ _).comp blockState_bijective

end Relink.Crypto
