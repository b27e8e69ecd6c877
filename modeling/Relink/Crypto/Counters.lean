import Relink.Crypto.Agree

/-! The counter blocks of a message.

Counter mode is only as good as its counters: two blocks of one message under the same counter
would be combined with the same keystream, and one under `J0` with what hides the tag. The carry of
`inc32` adds one to a number of 32 bits, and a message has fewer blocks than that.
`counters_never_repeat` is about the blocks that `gctr` really gives to `encrypt_block`, which are
logged here. -/
namespace Relink.Crypto
open Wire (Bytes)

/-! ### What is logged -/

/-- What is sealed, and the blocks that `gctr` has encrypted for the message and for the tag. -/
structure SealLog where
  sealed : Bytes
  message : List Block
  tag : List Block
deriving DecidableEq

def gctrLogged (aes : Aes256) (counter : Block) (input : Bytes) : Bytes × List Block :=
  CounterMode.logged aes.encryptBlock inc32 counter input

def aes256gcmSealLogged (key : Key) (nonce : Nonce) (pt : Bytes) (outCapacity : Nat) :
    Option SealLog :=
  if outCapacity < kAesGcmNonceBytes + pt.length + kAesGcmTagBytes then none
  else
    let aes := Aes256.expand key
    let h := aes.encryptBlock zeroBlock
    let ct := gctrLogged aes (inc32 (j0 nonce.toList)) pt
    let tag := gctrLogged aes (j0 nonce.toList) (ghash h ct.1).toList
    some ⟨nonce.toList ++ ct.1 ++ tag.1, ct.2, tag.2⟩

namespace Py

def gctrLogged (w : Vector Nat 60) (counter : Block) (data : Bytes) : Bytes × List Block :=
  CounterMode.logged (encryptBlock w) inc32 counter data

def aes256gcmSealLogged (key : Key) (nonce : Nonce) (plaintext : Bytes) : SealLog :=
  let w := keyExpansion key
  let h := encryptBlock w zeroBlock
  let ct := gctrLogged w (inc32 (j0 nonce.toList)) plaintext
  let tag := gctrLogged w (j0 nonce.toList) (ghash h ct.1).toList
  ⟨nonce.toList ++ ct.1 ++ tag.1.take kAesGcmTagBytes, ct.2, tag.2⟩

end Py

/-! ### Counters apart -/

/-- The last four bytes, read big-endian. -/
def counterOf (b : Block) : Nat := Py.beWord b[12]! b[13]! b[14]! b[15]!

/-- It adds one to the counter, and changes nothing before it. -/
structure CountsOn (inc : Block → Block) : Prop where
  counter : ∀ b, counterOf (inc b) = (counterOf b + 1) % 2 ^ 32
  nonce : ∀ (b : Block) (i : Nat) (h : i < 12), (inc b)[i] = b[i]

/-- No block is encrypted twice, and the one for the tag is `J0`. -/
structure SealLog.Apart (log : SealLog) (nonce : Nonce) : Prop where
  tag : log.tag = [j0 nonce.toList]
  nodup : log.message.Nodup
  fresh : j0 nonce.toList ∉ log.message

/-! ### One increment -/

/-- A word is the number that its bytes spell. -/
theorem beWord_bytes {w : Nat} (h : w < 2 ^ 32) :
    Py.beWord (UInt8.ofNat (w >>> 24)) (UInt8.ofNat (w >>> 16)) (UInt8.ofNat (w >>> 8))
      (UInt8.ofNat w) = w := by
  simp only [Py.beWord, UInt8.toNat_ofNat', Nat.shiftRight_eq_div_pow]
  omega

theorem beWord_inj {a b c d a' b' c' d' : UInt8} (h : Py.beWord a b c d = Py.beWord a' b' c' d') :
    a = a' ∧ b = b' ∧ c = c' ∧ d = d' := by
  have ha := a.toNat_lt
  have hb := b.toNat_lt
  have hc := c.toNat_lt
  have hd := d.toNat_lt
  have ha' := a'.toNat_lt
  have hb' := b'.toNat_lt
  have hc' := c'.toNat_lt
  have hd' := d'.toNat_lt
  simp only [Py.beWord] at h
  simp only [← UInt8.toNat_inj]
  omega

theorem counterOf_lt (b : Block) : counterOf b < 2 ^ 32 := by
  have h₁₂ := b[12]!.toNat_lt
  have h₁₃ := b[13]!.toNat_lt
  have h₁₄ := b[14]!.toNat_lt
  have h₁₅ := b[15]!.toNat_lt
  rw [counterOf, Py.beWord]
  omega

/-- A block is its nonce and its counter. -/
theorem block_ext {b b' : Block} (hnonce : ∀ (i : Nat) (h : i < 12), b[i] = b'[i])
    (hcounter : counterOf b = counterOf b') : b = b' := by
  obtain ⟨h₁₂, h₁₃, h₁₄, h₁₅⟩ := beWord_inj hcounter
  refine Vector.ext fun i hi => ?_
  by_cases hlow : i < 12
  · exact hnonce i hlow
  · have hcases : i = 12 ∨ i = 13 ∨ i = 14 ∨ i = 15 := by omega
    have hsame : b[i]! = b'[i]! := by
      rcases hcases with rfl | rfl | rfl | rfl
      · exact h₁₂
      · exact h₁₃
      · exact h₁₄
      · exact h₁₅
    rwa [getElem!_pos b i hi, getElem!_pos b' i hi] at hsame

theorem Py.inc32_countsOn : CountsOn Py.inc32 := by
  constructor
  · intro b
    have hword : (Py.beWord b[12]! b[13]! b[14]! b[15]! + 1) &&& 0xffffffff =
        (counterOf b + 1) % 2 ^ 32 := by
      rw [Nat.and_two_pow_sub_one_eq_mod _ 32, counterOf]
    rw [counterOf, getElem!_pos _ 12 (by decide), getElem!_pos _ 13 (by decide),
      getElem!_pos _ 14 (by decide), getElem!_pos _ 15 (by decide)]
    simp only [Py.inc32, Vector.getElem_ofFn, hword]
    exact beWord_bytes (Nat.mod_lt _ (by decide))
  · intro b i h
    simp only [Py.inc32, Vector.getElem_ofFn, if_pos h]
    rfl

/-- The carry of the C++ loop is that of the addition. -/
theorem inc32_countsOn : CountsOn inc32 := by
  have hsame : Py.inc32 = inc32 := funext Py.inc32_eq
  exact hsame ▸ Py.inc32_countsOn

/-! ### The blocks from `J0` on -/

theorem iterate_nonce (b : Block) (n : Nat) {i : Nat} (h : i < 12) : (inc32^[n] b)[i] = b[i] := by
  induction n with
  | zero => rfl
  | succ n ih =>
    rw [Function.iterate_succ_apply']
    exact (inc32_countsOn.nonce _ i h).trans ih

/-- After `2 ^ 32` increments a block is itself again. -/
theorem iterate_returns (b : Block) : inc32^[2 ^ 32] b = b := by
  refine block_ext (fun i h => iterate_nonce b _ h) ?_
  have hvalue := CounterMode.value_iterate inc32_countsOn.counter b (2 ^ 32)
  rwa [Nat.add_mod_right, Nat.mod_eq_of_lt (counterOf_lt _), Nat.mod_eq_of_lt (counterOf_lt _)]
    at hvalue

/-- `J0` and the blocks of a message are all different up to `2 ^ 32 - 1` blocks; the one after that
is `J0` again. -/
theorem counters_apart_iff (nonce : Bytes) (blocks : Nat) :
    (j0 nonce :: List.iterate inc32 (inc32 (j0 nonce)) blocks).Nodup ↔ blocks < 2 ^ 32 :=
  (CounterMode.iterate_nodup_iff inc32_countsOn.counter (iterate_returns _) (by decide)
    (blocks + 1)).trans Nat.succ_le_iff

/-! ### Sealing -/

/-- Without its log it is the sealing. -/
theorem aes256gcmSealLogged_sealed (key : Key) (nonce : Nonce) (pt : Bytes) (outCapacity : Nat) :
    (aes256gcmSealLogged key nonce pt outCapacity).map SealLog.sealed =
      aes256gcmSeal key nonce pt outCapacity := by
  unfold aes256gcmSealLogged aes256gcmSeal
  split
  · rfl
  · simp only [gctrLogged, CounterMode.logged_eq]
    rfl

theorem Py.aes256gcmSealLogged_sealed (key : Key) (nonce : Nonce) (plaintext : Bytes) :
    (Py.aes256gcmSealLogged key nonce plaintext).sealed =
      Py.aes256gcmSeal key nonce plaintext := by
  simp only [Py.aes256gcmSealLogged, Py.gctrLogged, CounterMode.logged_eq]
  rfl

/-- The blocks of a message, and the one block of a tag. -/
theorem apart_of_blocks {log : SealLog} {nonce : Nonce} {blocks : Nat} (hblocks : blocks ≤ 2 ^ 32 - 2)
    (hmessage : log.message = List.iterate inc32 (inc32 (j0 nonce.toList)) blocks)
    (htag : log.tag = List.iterate inc32 (j0 nonce.toList) 1) : log.Apart nonce := by
  have hlt : blocks < 2 ^ 32 := by omega
  obtain ⟨hfresh, hnodup⟩ := List.nodup_cons.mp ((counters_apart_iff nonce.toList blocks).mpr hlt)
  exact ⟨htag, hmessage ▸ hnodup, hmessage ▸ hfresh⟩

theorem tagBlocks (h : Block) : (h.toList.length + 15) / 16 = 1 := by
  rw [Vector.length_toList]

/-- **Counter blocks never repeat** within a message of at most `2 ^ 32 - 2` blocks, in either
build, and an increment is the addition of one to the last four bytes. -/
theorem counters_never_repeat :
    CountsOn inc32 ∧ CountsOn Py.inc32 ∧
      ∀ (key : Key) (nonce : Nonce) (pt : Bytes), (pt.length + 15) / 16 ≤ 2 ^ 32 - 2 →
        (∀ outCapacity, ∀ log ∈ aes256gcmSealLogged key nonce pt outCapacity, log.Apart nonce) ∧
          (Py.aes256gcmSealLogged key nonce pt).Apart nonce := by
  refine ⟨inc32_countsOn, Py.inc32_countsOn, fun key nonce pt hblocks => ⟨?_, ?_⟩⟩
  · intro outCapacity log hlog
    unfold aes256gcmSealLogged at hlog
    split at hlog
    · cases hlog
    simp only [gctrLogged, CounterMode.logged_eq, tagBlocks, Option.mem_def, Option.some.injEq]
      at hlog
    subst hlog
    exact apart_of_blocks hblocks rfl rfl
  · have hsame : Py.inc32 = inc32 := funext Py.inc32_eq
    unfold Py.aes256gcmSealLogged
    simp only [Py.gctrLogged, CounterMode.logged_eq, tagBlocks, hsame]
    exact apart_of_blocks hblocks rfl rfl

/-- A message of three blocks, the last of which is not full, sealed by both builds; the C++ buffer
is just as long as what is sealed. -/
theorem counters_never_repeat_three :
    let key : Key := Vector.replicate 32 0
    let nonce : Nonce := Vector.replicate 12 0xFF
    let pt : Bytes := List.replicate 40 0x61
    (∃ log, aes256gcmSealLogged key nonce pt 68 = some log ∧ log.Apart nonce) ∧
      (Py.aes256gcmSealLogged key nonce pt).Apart nonce := by
  intro key nonce pt
  obtain ⟨hcpp, hpython⟩ := counters_never_repeat.2.2 key nonce pt (by decide)
  have hroom : ¬ 68 < kAesGcmNonceBytes + pt.length + kAesGcmTagBytes := by decide
  have hseals : (aes256gcmSealLogged key nonce pt 68).isSome := by
    rw [aes256gcmSealLogged, if_neg hroom]
    rfl
  obtain ⟨log, hlog⟩ := Option.isSome_iff_exists.mp hseals
  exact ⟨⟨log, hlog, hcpp 68 log hlog⟩, hpython⟩

end Relink.Crypto
