import Relink.Rlcore.Server
import Relink.Wire.Beacon

/-! Which discovery packets reach the decoder they were made for.

Five formats share rlcore's socket and are told apart by their first bytes, which in a
plaintext request are the node's own address and in a sealed one a random nonce; a
multicast listener makes the same kind of test before it decodes a beacon.
`demux_exact` says for which addresses and nonces the test goes the way its comments
promise. -/
namespace Relink.Rlcore
open LittleEndian Wire Crypto

/-- The words the name directory claims. -/
def nameMagics : List Bytes := [kTopicDirAnnounceMagic, kTopicDirQueryMagic, kTopicDirReplyMagic]

/-- The words the two directories claim. -/
def directoryMagics : List Bytes :=
  nameMagics ++ [kRoleAnnounceMagic, kRoleQueryMagic, kRoleReplyMagic]

/-- The registration branch of the loop, for packets too long for a relay registration. -/
theorem dispatch_registration_iff (relayMode : Bool) (buf : Bytes) (hlen : 8 ≤ buf.length) :
    dispatch relayMode buf = .registration ↔
      buf.take 4 ∉ directoryMagics ∧
        ¬ (relayMode = true ∧ 10 ≤ buf.length ∧ buf.getD 0 0 = kStartByte) := by
  have hname := packetKind_unknown_iff kTopicDirAnnounceMagic kTopicDirQueryMagic
    kTopicDirReplyMagic buf (le_trans (by decide) hlen)
  have hrole := packetKind_unknown_iff kRoleAnnounceMagic kRoleQueryMagic kRoleReplyMagic buf
    (le_trans (by decide) hlen)
  have hregister : decodeRelayRegister buf = none := if_pos (Or.inl (by omega))
  have hpeek : peekFrameTopicId buf = none ↔ ¬ (10 ≤ buf.length ∧ buf.getD 0 0 = kStartByte) := by
    show (if buf.length < 10 ∨ buf.getD 0 0 ≠ kStartByte then none else some (readU32 1 buf)) =
      none ↔ _
    by_cases h : buf.length < 10 ∨ buf.getD 0 0 ≠ kStartByte
    · rw [if_pos h]
      refine iff_of_true rfl fun ⟨h₁, h₂⟩ => ?_
      rcases h with h | h
      · omega
      · exact h h₂
    · rw [if_neg h]
      push Not at h
      exact iff_of_false (by simp) (not_not.mpr h)
  rw [show kTopicDirMagicLen = 4 from rfl] at hname hrole
  rw [directoryMagics, List.mem_append, not_or, nameMagics]
  cases hk : topicDirPacketKind buf with
  | unknown =>
    have hnotName := hname.mp hk
    cases hr : rolePacketKind buf with
    | unknown =>
      have hnotRole := hrole.mp hr
      cases relayMode with
      | false =>
        have hroute : dispatch false buf = .registration := by simp [dispatch, hk, roleDispatch, hr]
        exact iff_of_true hroute ⟨⟨hnotName, hnotRole⟩, fun h => Bool.false_ne_true h.1⟩
      | true =>
        have hrelay : dispatch true buf = .registration ↔ peekFrameTopicId buf = none := by
          simp only [dispatch, hk, roleDispatch, hr, if_true, relayDispatch, hregister]
          cases peekFrameTopicId buf <;> simp
        rw [hrelay, hpeek]
        exact ⟨fun h => ⟨⟨hnotName, hnotRole⟩, fun h' => h h'.2⟩, fun h h' => h.2 ⟨rfl, h'⟩⟩
    | announce | query | reply =>
      have hin := not_not.mp (mt hrole.mpr (by rw [show packetKind _ _ _ buf = _ from hr]; simp))
      refine iff_of_false ?_ fun h => h.1.2 hin
      simp [dispatch, hk, roleDispatch, hr]
  | announce | query | reply =>
    have hin := not_not.mp (mt hname.mpr (by rw [show packetKind _ _ _ buf = _ from hk]; simp))
    refine iff_of_false ?_ fun h => h.1.1 hin
    simp [dispatch, hk]

/-! ### The multicast listener -/

/-- What `MulticastDiscovery::listener_loop` does with a datagram. -/
inductive ListenerBranch where
  | answerNames
  | ignored
  | beacon (decoded : Except BeaconDecodeResult DecodedBeacon)

/-- The size of the listener's buffer; what is longer is cut. -/
def kListenerBufBytes : Nat := 512

def listenerBranch (datagram : Bytes) : ListenerBranch :=
  let buf := datagram.take kListenerBufBytes
  match topicDirPacketKind buf with
  | .query => .answerNames
  | .announce => .ignored
  | .reply => .ignored
  | .unknown => .beacon (decodeBeaconPacket buf)

theorem listenerBranch_beacon_iff (datagram : Bytes) (hlen : 4 ≤ datagram.length) :
    (∃ decoded, listenerBranch datagram = .beacon decoded) ↔ datagram.take 4 ∉ nameMagics := by
  have hcut : (datagram.take kListenerBufBytes).take 4 = datagram.take 4 := by
    rw [List.take_take]
    rfl
  have hkind := packetKind_unknown_iff kTopicDirAnnounceMagic kTopicDirQueryMagic
    kTopicDirReplyMagic (datagram.take kListenerBufBytes) (by
      rw [List.length_take]
      exact le_min (by decide) hlen)
  rw [show kTopicDirMagicLen = 4 from rfl, hcut] at hkind
  rw [nameMagics, ← hkind, listenerBranch]
  cases hk : topicDirPacketKind (datagram.take kListenerBufBytes) with
  | unknown => exact iff_of_true ⟨_, rfl⟩ hk
  | announce | query | reply =>
    refine iff_of_false (fun ⟨_, h⟩ => by simp at h) ?_
    rw [show packetKind _ _ _ (datagram.take kListenerBufBytes) = _ from hk]
    simp

/-! ### Requests and beacons -/

/-- A request starts with the address. -/
theorem encodeRegisterRequest_head {nodeIp : UInt32} {nodePort : UInt16} {topicIds : List UInt32}
    {topicCount : UInt16} (hcount : topicIds.length = topicCount.toNat) {cap : Nat} {out : Bytes}
    (hout : encodeRegisterRequest nodeIp nodePort topicIds topicCount cap = .ok out) :
    out.take 4 = u32 nodeIp ∧ out.getD 0 0 = UInt8.ofNat nodeIp.toNat ∧
      out.length = 8 + 4 * topicIds.length := by
  have hbytes : out = u32 nodeIp ++ (u16 nodePort ++ (u16 topicCount ++
      topicRecord.array topicIds)) := by
    unfold encodeRegisterRequest at hout
    split at hout
    · cases hout
    split at hout
    · cases hout
    cases hout
    rw [← hcount, List.take_length]
    simp only [List.append_assoc]
  refine ⟨?_, ?_, ?_⟩
  · rw [hbytes, List.take_left' (u32_length _)]
  · rw [hbytes]
    rfl
  · rw [hbytes]
    simp only [List.length_append, u32_length, u16_length, Record.array_length]
    show 4 + (2 + (2 + topicIds.length * 4)) = _
    omega

/-- A sealed message starts with the nonce. -/
theorem aes256gcmSeal_head {key : Key} {nonce : Nonce} {pt blob : Bytes} {cap : Nat}
    (hseal : aes256gcmSeal key nonce pt cap = some blob) :
    blob.take 4 = nonce.toList.take 4 ∧ blob.getD 0 0 = nonce[0] ∧ blob.length = pt.length + 28 := by
  have hcap : pt.length + 28 ≤ cap := by
    by_contra hcap
    rw [aes256gcmSeal_none key nonce pt (by omega)] at hseal
    cases hseal
  obtain ⟨b, hb, hlen, hhead⟩ := aes256gcmSeal_some key nonce pt hcap
  rw [hseal, Option.some.injEq] at hb
  subst hb
  refine ⟨?_, ?_, hlen⟩
  · rw [← hhead, List.take_take]
    rfl
  · have hget : blob.getD 0 0 = (blob.take 12).getD 0 0 := by
      cases blob <;> rfl
    rw [hget, hhead]
    simp [List.getD_eq_getElem?_getD]

/-- **Demultiplexing, exactly.** A plaintext request reaches registration unless its
address spells a directory magic or, with the relay on and a topic listed, ends in the
data frame's start byte; a sealed one unless its nonce does; and a beacon reaches its
decoder unless the address spells a name magic. -/
theorem demux_exact (relayMode : Bool) (nodeIp : UInt32) (nodePort : UInt16)
    (topicIds : List UInt32) (topicCount : UInt16) (hcount : topicIds.length = topicCount.toNat) :
    (∀ cap out, encodeRegisterRequest nodeIp nodePort topicIds topicCount cap = .ok out →
      (dispatch relayMode out = .registration ↔
        u32 nodeIp ∉ directoryMagics ∧
          ¬ (relayMode = true ∧ topicIds ≠ [] ∧ UInt8.ofNat nodeIp.toNat = kStartByte)) ∧
      ∀ (key : Key) (nonce : Nonce) (cap' : Nat) (blob : Bytes),
        aes256gcmSeal key nonce out cap' = some blob →
        (dispatch relayMode blob = .registration ↔
          nonce.toList.take 4 ∉ directoryMagics ∧
            ¬ (relayMode = true ∧ nonce[0] = kStartByte))) ∧
    (∀ cap out pid shmCapable,
      encodeBeaconPacket nodeIp nodePort topicIds topicCount cap pid shmCapable = .ok out →
      ((∃ decoded, listenerBranch out = .beacon decoded) ↔ u32 nodeIp ∉ nameMagics)) := by
  refine ⟨fun cap out hout => ⟨?_, fun key nonce cap' blob hseal => ?_⟩,
    fun cap out pid shmCapable hout => ?_⟩
  · obtain ⟨hhead, hfirst, hlen⟩ := encodeRegisterRequest_head hcount hout
    have hnonempty : 10 ≤ out.length ↔ topicIds ≠ [] := by
      rw [hlen, ← List.length_pos_iff]
      omega
    rw [dispatch_registration_iff relayMode out (by omega), hhead, hfirst, hnonempty]
  · obtain ⟨htake, hfirst, hlen⟩ := aes256gcmSeal_head hseal
    rw [dispatch_registration_iff relayMode blob (by omega), htake, hfirst]
    simp [show 10 ≤ blob.length by omega]
  · obtain ⟨hhead, hlen⟩ := encodeBeaconPacket_head hout
    rw [listenerBranch_beacon_iff out (by omega), hhead]

/-- A node at 192.168.1.20, whose request a relaying rlcore registers. -/
theorem demux_exact_lan :
    (∀ cap out, encodeRegisterRequest 0xC0A80114 45000 [7] 1 cap = .ok out →
      (dispatch true out = .registration ↔
        u32 0xC0A80114 ∉ directoryMagics ∧
          ¬ (true = true ∧ [(7 : UInt32)] ≠ [] ∧
            UInt8.ofNat (0xC0A80114 : UInt32).toNat = kStartByte)) ∧
      ∀ (key : Key) (nonce : Nonce) (cap' : Nat) (blob : Bytes),
        aes256gcmSeal key nonce out cap' = some blob →
        (dispatch true blob = .registration ↔
          nonce.toList.take 4 ∉ directoryMagics ∧ ¬ (true = true ∧ nonce[0] = kStartByte))) ∧
    (∀ cap out pid shmCapable,
      encodeBeaconPacket 0xC0A80114 45000 [7] 1 cap pid shmCapable = .ok out →
      ((∃ decoded, listenerBranch out = .beacon decoded) ↔ u32 0xC0A80114 ∉ nameMagics)) :=
  demux_exact true 0xC0A80114 45000 [7] 1 rfl

/-- A request from 192.168.1.35 is forwarded as a data frame by a relaying rlcore; one from
77.78.76.82 is read as a name announcement, and so is its beacon. -/
theorem colliding_addresses_misrouted :
    (∃ out, encodeRegisterRequest 0xC0A80123 45000 [7] 1 kMaxDatagramBytes = .ok out ∧
      dispatch true out = .dataFrame 0xC8C0A801) ∧
    (∃ out, encodeRegisterRequest 0x4D4E4C52 45000 [7] 1 kMaxDatagramBytes = .ok out ∧
      dispatch false out = .topicAnnounce) ∧
    (∃ out, encodeBeaconPacket 0x4D4E4C52 45000 [7] 1 kMaxDatagramBytes 1 false = .ok out ∧
      ¬ ∃ decoded, listenerBranch out = .beacon decoded) := by
  refine ⟨⟨_, rfl, by decide⟩, ⟨_, rfl, by decide⟩, ⟨_, rfl, ?_⟩⟩
  intro ⟨decoded, h⟩
  cases h

end Relink.Rlcore
