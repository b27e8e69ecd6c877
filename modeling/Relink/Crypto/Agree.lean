import Relink.Crypto.Python

/-! Both builds compute the same AES-256-GCM.

The Python build's numbers are the values of the C++ build's words and bytes. From the key
schedule over a block to sealing and opening, every operation of the one is the other's, so a
datagram that one build seals the other opens, and neither opens more. -/
namespace Relink.Crypto.Py
open Wire

/-! ### Bytes and words -/

theorem sbox_toNat (b : UInt8) : sbox b.toNat = (subByte b).toNat := rfl

/-- What a computation shows of every byte. -/
theorem forall_byte {P : UInt8 → Prop} (h : ∀ n < 256, P (UInt8.ofNat n)) (b : UInt8) : P b := by
  have := h b.toNat b.toNat_lt
  rwa [UInt8.ofNat_toNat] at this

theorem xtime_toNat (x : UInt8) : xtime x.toNat = (Crypto.xtime x).toNat :=
  forall_byte (P := fun x => xtime x.toNat = (Crypto.xtime x).toNat) (by decide +kernel) x

theorem and_one_toNat (x : UInt8) : x.toNat &&& 1 = (x &&& 1).toNat := UInt8.toNat_and x 1 |>.symm

/-- The values of a triple of bytes. -/
def values (s : UInt8 × UInt8 × UInt8) : Nat × Nat × Nat := (s.1.toNat, s.2.1.toNat, s.2.2.toNat)

theorem gmulStep_values (s : UInt8 × UInt8 × UInt8) :
    gmulStep (values s) = values (Crypto.gmulStep s) := by
  have hodd : s.2.2.toNat &&& 1 ≠ 0 ↔ s.2.2 &&& 1 ≠ 0 := by
    rw [and_one_toNat]
    exact not_congr ⟨fun h => UInt8.toNat_inj.mp h, fun h => congrArg UInt8.toNat h⟩
  simp only [gmulStep, values, Crypto.gmulStep, hodd, xtime_toNat]
  congr 1
  split
  · exact (UInt8.toNat_xor ..).symm
  · rfl

theorem gmul_toNat (a b : UInt8) : gmul a.toNat b.toNat = (Crypto.gmul a b).toNat := by
  have hiter := Function.Semiconj.iterate_right (f := values) (fun s => (gmulStep_values s).symm) 8
    (0, a, b)
  have hfirst := congrArg Prod.fst hiter
  unfold gmul Crypto.gmul
  refine (congrArg (· &&& 0xff) hfirst.symm).trans ?_
  exact (Nat.and_two_pow_sub_one_eq_mod _ 8).trans (Nat.mod_eq_of_lt (UInt8.toNat_lt _))

theorem toNat_shiftLeft_byte (b : UInt8) {k : UInt32} (hk : k.toNat ≤ 24) :
    (b.toUInt32 <<< k).toNat = b.toNat <<< k.toNat := by
  have hb := b.toNat_lt
  rw [UInt32.toNat_shiftLeft, Nat.mod_eq_of_lt (by omega : k.toNat < 32), UInt8.toNat_toUInt32,
    Nat.mod_eq_of_lt]
  rw [Nat.shiftLeft_eq]
  calc b.toNat * 2 ^ k.toNat ≤ b.toNat * 2 ^ 24 :=
        Nat.mul_le_mul_left _ (Nat.pow_le_pow_right (by decide) hk)
    _ < 2 ^ 32 := by omega

theorem toNat_beWord (b₀ b₁ b₂ b₃ : UInt8) : (Crypto.beWord b₀ b₁ b₂ b₃).toNat =
    b₀.toNat <<< 24 ||| b₁.toNat <<< 16 ||| b₂.toNat <<< 8 ||| b₃.toNat := by
  rw [Crypto.beWord, UInt32.toNat_or, UInt32.toNat_or, UInt32.toNat_or,
    toNat_shiftLeft_byte b₀ (k := 24) (by decide), toNat_shiftLeft_byte b₁ (k := 16) (by decide),
    toNat_shiftLeft_byte b₂ (k := 8) (by decide), UInt8.toNat_toUInt32]
  rfl

theorem beWord_toNat (b₀ b₁ b₂ b₃ : UInt8) :
    beWord b₀ b₁ b₂ b₃ = (Crypto.beWord b₀ b₁ b₂ b₃).toNat := by
  have h₁ := b₁.toNat_lt
  have h₂ := b₂.toNat_lt
  have h₃ := b₃.toNat_lt
  rw [toNat_beWord, beWord, Nat.or_assoc, Nat.or_assoc,
    ← Nat.shiftLeft_add_eq_or_of_lt (by omega : b₃.toNat < 2 ^ 8),
    ← Nat.shiftLeft_add_eq_or_of_lt
      (by rw [Nat.shiftLeft_eq]; omega : b₂.toNat <<< 8 + b₃.toNat < 2 ^ 16),
    ← Nat.shiftLeft_add_eq_or_of_lt
      (by simp only [Nat.shiftLeft_eq]; omega :
        b₁.toNat <<< 16 + (b₂.toNat <<< 8 + b₃.toNat) < 2 ^ 24)]
  simp only [Nat.shiftLeft_eq]
  omega

/-- A byte of a word. -/
theorem toNat_byte (w : UInt32) {k : UInt32} (hk : k.toNat < 32) :
    (w >>> k).toUInt8.toNat = (w.toNat >>> k.toNat) &&& 0xff := by
  rw [UInt32.toNat_toUInt8, UInt32.toNat_shiftRight, Nat.mod_eq_of_lt hk]
  exact (Nat.and_two_pow_sub_one_eq_mod _ 8).symm

theorem subWord_toNat (w : UInt32) : subWord w.toNat = (Crypto.subWord w).toNat := by
  have hlow : w.toUInt8.toNat = w.toNat &&& 0xff :=
    (UInt32.toNat_toUInt8 w).trans (Nat.and_two_pow_sub_one_eq_mod _ 8).symm
  rw [Crypto.subWord, toNat_beWord, ← sbox_toNat, ← sbox_toNat, ← sbox_toNat, ← sbox_toNat,
    toNat_byte w (k := 24) (by decide), toNat_byte w (k := 16) (by decide),
    toNat_byte w (k := 8) (by decide), hlow]
  rfl

theorem rotWord_toNat (w : UInt32) :
    ((w.toNat <<< 8) ||| (w.toNat >>> 24)) &&& 0xffffffff = (rotWord w).toNat := by
  have hw := w.toNat_lt
  rw [rotWord, UInt32.toNat_or, UInt32.toNat_shiftLeft, UInt32.toNat_shiftRight,
    Nat.and_two_pow_sub_one_eq_mod _ 32, Nat.or_mod_two_pow]
  congr 1
  exact Nat.mod_eq_of_lt (lt_of_le_of_lt (Nat.shiftRight_le ..) hw)

/-! ### The key schedule -/

@[simp] theorem getElem!_map_toNat {n : Nat} (w : Vector UInt32 n) {i : Nat} (h : i < n) :
    (w.map UInt32.toNat)[i]! = w[i].toNat := by
  rw [getElem!_pos (w.map UInt32.toNat) i h, Vector.getElem_map]

theorem rcon_toNat {i : Nat} (h : i < 15) : rcon.getD i 0 = kRcon[i].toNat := by
  revert i
  decide

theorem expandWord_map (w : Vector UInt32 60) (k : Fin 52) :
    expandWord (w.map UInt32.toNat) k = (Crypto.expandWord w k).map UInt32.toNat := by
  have hk := k.isLt
  have hcon : rcon.getD ((k.val + 8) / 8) 0 <<< 24 =
      (kRcon[(k.val + 8) / 8].toUInt32 <<< 24).toNat := by
    rw [rcon_toNat (by omega), toNat_shiftLeft_byte _ (k := 24) (by decide)]
    rfl
  have hmask : ∀ a : UInt32, a.toNat &&& 0xffffffff = a.toNat := fun a =>
    (Nat.and_two_pow_sub_one_eq_mod _ 32).trans (Nat.mod_eq_of_lt a.toNat_lt)
  simp only [expandWord, Crypto.expandWord, getElem!_map_toNat _ (by omega : k.val + 7 < 60),
    getElem!_map_toNat _ (by omega : k.val < 60), hcon, rotWord_toNat, subWord_toNat,
    ← UInt32.toNat_xor, ← apply_ite UInt32.toNat, hmask]
  ext i hi
  rw [Vector.set!_eq_setIfInBounds, Vector.getElem_setIfInBounds, Vector.getElem_map,
    Vector.getElem_map, Vector.getElem_set]
  split <;> rfl

theorem keyWords_map (key : Key) : (Vector.ofFn fun i : Fin 60 => if i.val < 8 then
    beWord key[4 * i.val]! key[4 * i.val + 1]! key[4 * i.val + 2]! key[4 * i.val + 3]! else 0) =
      (keyWords key).map UInt32.toNat := by
  ext i hi
  rw [Vector.getElem_map, Vector.getElem_ofFn, keyWords, Vector.getElem_ofFn]
  by_cases h : i < 8
  · simp only [h, if_true, dif_pos]
    rw [beWord_toNat, getElem!_pos key (4 * i) (by omega), getElem!_pos key (4 * i + 1) (by omega),
      getElem!_pos key (4 * i + 2) (by omega), getElem!_pos key (4 * i + 3) (by omega)]
  · simp only [h, if_false, dif_neg, not_false_eq_true]
    rfl

/-- The round keys are the values of the C++ build's. -/
theorem keyExpansion_map (key : Key) :
    keyExpansion key = (Aes256.expand key).roundKeys.map UInt32.toNat := by
  have hfold : ∀ (ks : List (Fin 52)) (w : Vector UInt32 60),
      ks.foldl expandWord (w.map UInt32.toNat) = (ks.foldl Crypto.expandWord w).map UInt32.toNat := by
    intro ks
    induction ks with
    | nil => intro w; rfl
    | cons k rest ih => intro w; rw [List.foldl_cons, expandWord_map, ih, List.foldl_cons]
  rw [keyExpansion, keyWords_map, hfold, Aes256.expand]

/-! ### One block -/

theorem addRoundKey_eq (key : Key) (round : Fin 15) (s : Block) :
    addRoundKey (keyExpansion key) round.val s = (Aes256.expand key).addRoundKey round s := by
  rw [keyExpansion_map]
  refine Vector.ext fun i hi => ?_
  have hshift : (24 - 8 * (i % 4)).toUInt32.toNat = 24 - 8 * (i % 4) :=
    Nat.mod_eq_of_lt (by omega)
  simp only [addRoundKey, Aes256.addRoundKey, Vector.getElem_ofFn,
    getElem!_map_toNat _ (by omega : round.val * 4 + i / 4 < 60)]
  refine congrArg (s[i] ^^^ ·) (UInt8.toNat_inj.mp ?_)
  rw [toNat_byte _ (by omega), hshift, UInt8.toNat_ofNat']
  exact Nat.mod_eq_of_lt (lt_of_le_of_lt Nat.and_le_right (by decide))

theorem subBytes_eq (s : Block) : subBytes s = Crypto.subBytes s := by
  refine Vector.ext fun i hi => ?_
  simp only [subBytes, Crypto.subBytes, Vector.getElem_map, sbox_toNat, UInt8.ofNat_toNat]

theorem mixColumns_eq (s : Block) : mixColumns s = Crypto.mixColumns s := by
  refine Vector.ext fun i hi => ?_
  simp only [mixColumns, Crypto.mixColumns, Vector.getElem_ofFn,
    getElem!_pos s (4 * (i / 4)) (by omega), getElem!_pos s (4 * (i / 4) + 1) (by omega),
    getElem!_pos s (4 * (i / 4) + 2) (by omega), getElem!_pos s (4 * (i / 4) + 3) (by omega)]
  have htwo : ∀ a : UInt8, gmul a.toNat 2 = (Crypto.gmul a 2).toNat := fun a => gmul_toNat a 2
  have hthree : ∀ a : UInt8, gmul a.toNat 3 = (Crypto.gmul a 3).toNat := fun a => gmul_toNat a 3
  simp only [htwo, hthree, ← UInt8.toNat_xor]
  have hrow : i % 4 = 0 ∨ i % 4 = 1 ∨ i % 4 = 2 ∨ i % 4 = 3 := by omega
  rcases hrow with h | h | h | h <;> simp only [h, UInt8.ofNat_toNat]

theorem encryptBlock_eq (key : Key) (input : Block) :
    encryptBlock (keyExpansion key) input = (Aes256.expand key).encryptBlock input := by
  have hround : ∀ s (r : Fin 13), addRoundKey (keyExpansion key) (r.val + 1)
      (mixColumns (shiftRows (subBytes s))) =
        (Aes256.expand key).addRoundKey ⟨r.val + 1, by omega⟩
          (Crypto.mixColumns (shiftRows (Crypto.subBytes s))) := by
    intro s r
    rw [mixColumns_eq, subBytes_eq]
    exact addRoundKey_eq key ⟨r.val + 1, by omega⟩ _
  rw [encryptBlock, Aes256.encryptBlock, subBytes_eq, ← List.map_coe_finRange_eq_range,
    List.foldl_map]
  simp only [hround]
  rw [show addRoundKey (keyExpansion key) 0 input = _ from addRoundKey_eq key 0 input]
  exact addRoundKey_eq key 14 _

/-! ### The authenticator and the counter -/

theorem shiftCarry_getD (carry : UInt8) (v : List UInt8) {i : Nat} (h : i < v.length) :
    (shiftCarry carry v).getD i 0 = (v.getD i 0 >>> 1) |||
      ((if i = 0 then carry else v.getD (i - 1) 0 &&& 1) <<< 7) := by
  induction v generalizing carry i with
  | nil => cases h
  | cons b rest ih =>
    cases i with
    | zero => rfl
    | succ i =>
      rw [shiftCarry, List.getD_cons_succ, ih _ (by simpa using h)]
      cases i with
      | zero => rfl
      | succ i => rfl

theorem toList_getD (v : Block) {i : Nat} (h : i < 16) : v.toList.getD i 0 = v[i] := by
  rw [List.getD_eq_getElem _ _ (by simpa using h), Vector.getElem_toList]

theorem shiftRight_eq (v : Block) : shiftRight v = Crypto.shiftRight v := by
  refine Vector.ext fun i hi => ?_
  have hcarry := shiftCarry_getD 0 v.toList (i := i) (by simpa using hi)
  have hlist : (shiftRight v).toList = shiftCarry 0 v.toList := rfl
  rw [← hlist, toList_getD _ hi, toList_getD v hi] at hcarry
  rw [hcarry, Crypto.shiftRight, Vector.getElem_ofFn]
  by_cases h : i = 0
  · subst h
    simp
  · rw [if_neg h, dif_neg h, toList_getD v (by omega)]
    rfl

theorem gf128Step_eq : gf128Step = Crypto.gf128Step := by
  funext xi s bit
  have hset : ∀ (v : Block) (b : UInt8), v.set! 0 b = v.set 0 b := by
    intro v b
    refine Vector.ext fun i hi => ?_
    rw [Vector.set!_eq_setIfInBounds, Vector.getElem_setIfInBounds, Vector.getElem_set]
  simp only [gf128Step, Crypto.gf128Step, shiftRight_eq, hset,
    getElem!_pos s.2 15 (by decide), getElem!_pos (Crypto.shiftRight s.2) 0 (by decide)]

theorem gf128Mul_eq (x y : Block) : gf128Mul x y = Crypto.gf128Mul x y := by
  rw [gf128Mul, Crypto.gf128Mul, gf128Step_eq]

theorem padBlock_take (data : Bytes) : padBlock (data.take 16) = padBlock data := by
  refine Vector.ext fun i hi => ?_
  simp only [padBlock, Vector.getElem_ofFn, List.getD_eq_getElem?_getD, List.getElem?_take, hi,
    if_true]

theorem absorb_eq (h y : Block) (data : Bytes) : absorb h y data = Crypto.absorb h y data := by
  induction y, data using absorb.induct h with
  | case1 y =>
    rw [absorb, Crypto.absorb, if_pos rfl, if_pos rfl]
  | case2 y data hne ih =>
    rw [absorb, if_neg hne, ih, gf128Mul_eq, padBlock_take]
    conv_rhs => rw [Crypto.absorb, if_neg hne]

/-- The bytes read of the length are below the cut. -/
theorem lenBlock_eq (n : Nat) : lenBlock n = Crypto.lenBlock n := by
  refine Vector.ext fun k hk => ?_
  simp only [lenBlock, Crypto.lenBlock, Vector.getElem_ofFn]
  split
  · rfl
  · next h =>
    have hbits : 2 ^ 64 = 2 ^ (8 * (15 - k)) * 2 ^ (64 - 8 * (15 - k)) := by
      rw [← Nat.pow_add]
      congr 1
      omega
    have hbyte : 256 ∣ 2 ^ (64 - 8 * (15 - k)) :=
      Nat.pow_dvd_pow 2 (by omega : 8 ≤ 64 - 8 * (15 - k))
    rw [← UInt8.toNat_inj, UInt8.toNat_ofNat', UInt8.toNat_ofNat', Nat.shiftRight_eq_div_pow,
      Nat.shiftRight_eq_div_pow, hbits, Nat.mod_mul_right_div_self, Nat.mod_mod_of_dvd _ hbyte]

theorem ghash_eq (h : Block) (data : Bytes) : ghash h data = Crypto.ghash h data := by
  rw [ghash, Crypto.ghash, absorb_eq, gf128Mul_eq, lenBlock_eq]

theorem byte_wraps (b : UInt8) : b + 1 = 0 ↔ b.toNat = 255 := by
  have hb := b.toNat_lt
  have hsucc : (b + 1).toNat = (b.toNat + 1) % 256 := UInt8.toNat_add b 1
  rw [← UInt8.toNat_inj, hsucc, UInt8.toNat_zero]
  omega

theorem incBytes_step (b : Block) {i : Fin 16} (hi : i.val < 16) (rest : List (Fin 16)) :
    incBytes b (i :: rest) =
      if b[i.val] + 1 ≠ 0 then b.set i.val (b[i.val] + 1)
      else incBytes (b.set i.val (b[i.val] + 1)) rest := by
  have hself : (b.set i.val (b[i.val] + 1))[i.val] = b[i.val] + 1 := Vector.getElem_set_self ..
  show (if (b.set i.val (b[i.val] + 1))[i.val] ≠ 0 then _ else _) = _
  rw [hself]
  rfl

theorem incBytes_set (b : Block) {i : Fin 16} (hi : i.val < 16) (x : UInt8)
    {rest : List (Fin 16)} (h : i ∉ rest) :
    incBytes (b.set i.val x) rest = (incBytes b rest).set i.val x := by
  induction rest generalizing b with
  | nil => rfl
  | cons j rest ih =>
    obtain ⟨hne, hrest⟩ := not_or.mp (mt List.mem_cons.mpr h)
    have hval : i.val ≠ j.val := fun heq => hne (Fin.ext heq)
    rw [incBytes_step _ j.isLt, incBytes_step _ j.isLt, Vector.getElem_set_ne _ _ hval,
      Vector.set_comm _ _ hval]
    split
    · rfl
    · exact ih _ hrest

/-- A byte after the first changes if the first wraps. -/
theorem incBytes_cons (b : Block) {i : Fin 16} (hi : i.val < 16) {rest : List (Fin 16)}
    (h : i ∉ rest) :
    incBytes b (i :: rest) =
      (if b[i.val] + 1 = 0 then incBytes b rest else b).set i.val (b[i.val] + 1) := by
  rw [incBytes_step b hi]
  by_cases hwrap : b[i.val] + 1 = 0
  · rw [if_neg (not_not.mpr hwrap), if_pos hwrap, incBytes_set b hi _ h]
  · rw [if_pos hwrap, if_neg hwrap]

/-- The four bytes with their carries. -/
theorem inc32_getElem (b : Block) {i : Nat} (hi : i < 16) : (Crypto.inc32 b)[i] =
    if i = 15 then b[15] + 1 else if b[15] + 1 ≠ 0 then b[i]
    else if i = 14 then b[14] + 1 else if b[14] + 1 ≠ 0 then b[i]
    else if i = 13 then b[13] + 1 else if b[13] + 1 ≠ 0 then b[i]
    else if i = 12 then b[12] + 1 else b[i] := by
  have hset : ∀ (c : Prop) [Decidable c] (v : Block) (k : Fin 16) (x : UInt8),
      ((if c then v else b).set k x)[i] =
        if i = k.val then x else if ¬ c then b[i] else v[i] := by
    intro c _ v k x
    rw [Vector.getElem_set]
    by_cases hk : i = k.val
    · rw [if_pos hk.symm, if_pos hk]
    · rw [if_neg (Ne.symm hk), if_neg hk, ite_not]
      split <;> rfl
  rw [Crypto.inc32, incBytes_cons b (Fin.isLt _) (by decide),
    incBytes_cons b (Fin.isLt _) (by decide), incBytes_cons b (Fin.isLt _) (by decide),
    incBytes_cons b (Fin.isLt _) (by decide), hset, hset, hset, hset]
  have hnil : incBytes b [] = b := rfl
  simp only [hnil, ite_self]
  rfl

theorem inc32_eq (b : Block) : inc32 b = Crypto.inc32 b := by
  refine Vector.ext fun i hi => ?_
  rw [inc32_getElem b hi]
  simp only [inc32, Vector.getElem_ofFn, getElem!_pos b 12 (by decide),
    getElem!_pos b 13 (by decide), getElem!_pos b 14 (by decide), getElem!_pos b 15 (by decide)]
  by_cases hlow : i < 12
  · simp only [hlow, if_true, show i ≠ 15 by omega, show i ≠ 14 by omega, show i ≠ 13 by omega,
      show i ≠ 12 by omega, if_false, ite_self]
    rfl
  · have h₁₂ := b[12].toNat_lt
    have h₁₃ := b[13].toNat_lt
    have h₁₄ := b[14].toNat_lt
    have h₁₅ := b[15].toNat_lt
    rw [if_neg hlow, ← UInt8.toNat_inj, UInt8.toNat_ofNat', Nat.shiftRight_eq_div_pow, beWord,
      Nat.and_two_pow_sub_one_eq_mod _ 32]
    have hsucc : ∀ c : UInt8, (c + 1).toNat = (c.toNat + 1) % 256 := fun c => UInt8.toNat_add c 1
    simp only [apply_ite UInt8.toNat, hsucc, ne_eq, byte_wraps]
    have hi' : i = 15 ∨ i = 14 ∨ i = 13 ∨ i = 12 := by omega
    rcases hi' with rfl | rfl | rfl | rfl <;> simp only [Nat.reduceEqDiff, if_true, if_false]
    · omega
    all_goals split_ifs <;> omega

/-! ### Sealing and opening -/

theorem gctr_eq (key : Key) (counter : Block) (data : Bytes) :
    gctr (keyExpansion key) counter data = Crypto.gctr (Aes256.expand key) counter data := by
  have hcipher : encryptBlock (keyExpansion key) = (Aes256.expand key).encryptBlock :=
    funext (encryptBlock_eq key)
  have hnext : inc32 = Crypto.inc32 := funext inc32_eq
  rw [gctr, Crypto.gctr, hcipher, hnext]

theorem tagOf_eq (key : Key) (nonce ct : Bytes) :
    tagOf (keyExpansion key) nonce ct = Crypto.tagOf (Aes256.expand key) nonce ct := by
  rw [tagOf, gctr_eq, encryptBlock_eq, ghash_eq]
  exact List.take_of_length_le (le_of_eq (tagOf_length ..))

/-- What the C++ build seals, in a buffer that has room for it, the Python build seals the same. -/
theorem aes256gcmSeal_eq (key : Key) (nonce : Nonce) (plaintext : Bytes) {cap : Nat}
    (h : plaintext.length + 28 ≤ cap) :
    Crypto.aes256gcmSeal key nonce plaintext cap = some (aes256gcmSeal key nonce plaintext) := by
  rw [Crypto.aes256gcmSeal, if_neg (by simp only [kAesGcmNonceBytes, kAesGcmTagBytes]; omega),
    aes256gcmSeal, inc32_eq, gctr_eq, tagOf_eq]

/-- A datagram opens for both builds to the same, or for neither. -/
theorem aes256gcmOpen_eq (key : Key) (blob : Bytes) {cap : Nat} (h : blob.length ≤ cap + 28) :
    Crypto.aes256gcmOpen key blob cap = aes256gcmOpen key blob := by
  unfold Crypto.aes256gcmOpen aes256gcmOpen
  by_cases hshort : blob.length < kAesGcmNonceBytes + kAesGcmTagBytes
  · rw [if_pos hshort, if_pos hshort]
  · rw [if_neg hshort, if_neg hshort]
    have htag : (blob.drop kAesGcmNonceBytes).drop
        (blob.length - kAesGcmNonceBytes - kAesGcmTagBytes) =
          blob.drop (blob.length - kAesGcmTagBytes) := by
      rw [List.drop_drop]
      congr 1
      omega
    have hlen : (blob.drop (blob.length - kAesGcmTagBytes)).length = 16 := by
      rw [List.length_drop]
      simp only [kAesGcmNonceBytes, kAesGcmTagBytes] at hshort ⊢
      omega
    have hroom : ¬ cap < blob.length - kAesGcmNonceBytes - kAesGcmTagBytes := by
      simp only [kAesGcmNonceBytes, kAesGcmTagBytes]
      omega
    simp only [htag]
    rw [if_neg hroom, inc32_eq, gctr_eq, tagOf_eq]
    simp only [ne_eq, tagDiff_eq_zero ((tagOf_length ..).trans hlen.symm)]

/-- **Both builds compute one cipher.** In a buffer with room for the plaintext a byte string opens
for the one exactly as for the other, and for neither if it cannot hold a nonce and a tag; for each
nonce they seal a plaintext alike. -/
theorem same_cipher (key : Key) :
    (∀ (blob : Bytes) (cap : Nat), blob.length ≤ cap + 28 →
        Crypto.aes256gcmOpen key blob cap = aes256gcmOpen key blob) ∧
      (∀ (blob : Bytes) (cap : Nat), blob.length < 28 →
        Crypto.aes256gcmOpen key blob cap = none ∧ aes256gcmOpen key blob = none) ∧
      ∀ (nonce : Nonce) (plaintext : Bytes) (cap : Nat), plaintext.length + 28 ≤ cap →
        Crypto.aes256gcmSeal key nonce plaintext cap = some (aes256gcmSeal key nonce plaintext) :=
  ⟨fun blob _ h => aes256gcmOpen_eq key blob h, fun _ _ h => ⟨if_pos h, if_pos h⟩,
    fun nonce plaintext _ h => aes256gcmSeal_eq key nonce plaintext h⟩

end Relink.Crypto.Py
