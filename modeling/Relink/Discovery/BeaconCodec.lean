import Relink.Discovery.Multicast
import Relink.Wire.RegisterCodec

/-! The beacon codec in both languages.

Behind its topics a beacon may carry an extension that nothing marks: it is there if eight more
bytes are. So a beacon may be padded without its address or topics being read differently, and one
that is cut short still says what its remaining bytes cover. The C++ decoder is given once more
with its accesses checked. -/
namespace Relink.Discovery
open LittleEndian Wire

/-! ### The accesses of the decoder -/

/-- `decode_beacon_packet` once more. -/
def loadBeaconPacket (buf : Bytes) :
    Except Buffer.Fault (Except BeaconDecodeResult DecodedBeacon) :=
  if buf.length < kBeaconHeaderBytes then .ok (.error .tooShort)
  else do
    let hdr ← Buffer.load buf 0 kBeaconHeaderBytes
    let topicCount := readU16 6 hdr
    let needed := kBeaconHeaderBytes + topicCount.toNat * 4
    if buf.length < needed then return .error .lengthMismatch
    let bare : DecodedBeacon :=
      ⟨readU32 0 hdr, readU16 4 hdr, topicCount, buf.drop kBeaconHeaderBytes, 0, false⟩
    if needed + 8 ≤ buf.length then
      let pid ← Buffer.load buf needed 4
      let flags ← Buffer.load buf (needed + 4) 4
      return .ok {bare with
        nodePid := readU32 0 pid
        shmCapable := (readU32 0 flags &&& kCapFlagShmLocalIpc) != 0}
    return .ok bare

def beaconTopicAt (b : DecodedBeacon) (i : Nat) : Except Buffer.Fault UInt32 :=
  topicRecord.fetch b.topicIdsRaw i

theorem readU32_load {off : Nat} (buf : Bytes) :
    readU32 0 ((buf.drop off).take 4) = readU32 off buf := by
  rw [readU32_take _ (by decide), readU32, read_drop, readU32, Nat.add_zero]

theorem loadBeaconPacket_eq (buf : Bytes) : loadBeaconPacket buf = .ok (decodeBeaconPacket buf) := by
  unfold loadBeaconPacket decodeBeaconPacket
  by_cases hshort : buf.length < kBeaconHeaderBytes
  · rw [if_pos hshort, if_pos hshort]
  rw [if_neg hshort, if_neg hshort, Buffer.load_ok (by omega)]
  simp only [bind, Except.bind, pure, Except.pure, List.drop_zero,
    readU16_take buf (show 6 + 2 ≤ kBeaconHeaderBytes by decide),
    readU16_take buf (show 4 + 2 ≤ kBeaconHeaderBytes by decide),
    readU32_take buf (show 0 + 4 ≤ kBeaconHeaderBytes by decide)]
  by_cases hneeded : buf.length < kBeaconHeaderBytes + (readU16 6 buf).toNat * 4
  · rw [if_pos hneeded, if_pos hneeded]
  rw [if_neg hneeded, if_neg hneeded]
  by_cases hext : kBeaconHeaderBytes + (readU16 6 buf).toNat * 4 + 8 ≤ buf.length
  · rw [if_pos hext, Buffer.load_ok (by omega), Buffer.load_ok (by omega)]
    simp only [readU32_load, hext, decide_true, Bool.true_and, if_true]
  · rw [if_neg hext]
    simp only [hext, decide_false, Bool.false_and, Bool.false_eq_true, if_false]

/-! ### What is read -/

/-- The bytes that the header asks for. -/
def needed (buf : Bytes) : Nat := kBeaconHeaderBytes + (readU16 6 buf).toNat * 4

theorem decodeBeaconPacket_error_iff (buf : Bytes) :
    (∃ e, decodeBeaconPacket buf = .error e) ↔
      buf.length < kBeaconHeaderBytes ∨ buf.length < needed buf := by
  unfold decodeBeaconPacket needed
  by_cases hshort : buf.length < kBeaconHeaderBytes
  · rw [if_pos hshort]
    exact iff_of_true ⟨_, rfl⟩ (.inl hshort)
  rw [if_neg hshort]
  by_cases hneeded : buf.length < kBeaconHeaderBytes + (readU16 6 buf).toNat * 4
  · simp only [if_pos hneeded]
    exact iff_of_true ⟨_, rfl⟩ (.inr hneeded)
  · simp only [if_neg hneeded]
    refine iff_of_false (fun ⟨_, h⟩ => ?_) (not_or.mpr ⟨hshort, hneeded⟩)
    cases h

/-- Everything an accepted beacon is read as. -/
theorem decodeBeaconPacket_inv {buf : Bytes} {b : DecodedBeacon} (h : decodeBeaconPacket buf = .ok b) :
    kBeaconHeaderBytes ≤ buf.length ∧ needed buf ≤ buf.length ∧
      b.nodeIp = readU32 0 buf ∧ b.nodePort = readU16 4 buf ∧ b.topicCount = readU16 6 buf ∧
      b.topicIdsRaw = buf.drop kBeaconHeaderBytes ∧
      (b.nodePid, b.shmCapable) =
        if needed buf + 8 ≤ buf.length then
          (readU32 (needed buf) buf, (readU32 (needed buf + 4) buf &&& kCapFlagShmLocalIpc) != 0)
        else (0, false) := by
  unfold decodeBeaconPacket at h
  split at h
  · cases h
  next hshort =>
  simp only at h
  split at h
  · cases h
  next hneeded =>
  cases h
  refine ⟨by omega, Nat.le_of_not_lt hneeded, rfl, rfl, rfl, rfl, ?_⟩
  unfold needed
  by_cases hext : kBeaconHeaderBytes + (readU16 6 buf).toNat * 4 + 8 ≤ buf.length
  · simp only [hext, decide_true, Bool.true_and, if_true]
  · simp only [hext, decide_false, Bool.false_and, Bool.false_eq_true, if_false]

/-- The topics lie inside the buffer. -/
theorem beaconTopicAt_ok {buf : Bytes} {b : DecodedBeacon} (h : decodeBeaconPacket buf = .ok b)
    {i : Nat} (hi : i < b.topicCount.toNat) :
    ∃ topic, beaconTopicAt b i = .ok topic ∧ (readBeacon b).topicIds[i]? = some topic := by
  obtain ⟨hshort, hneeded, -, -, hcount, hraw, -⟩ := decodeBeaconPacket_inv h
  have hroom : b.topicCount.toNat * topicRecord.size ≤ b.topicIdsRaw.length := by
    rw [hraw, hcount, List.length_drop]
    show _ * 4 ≤ _
    unfold needed at hneeded
    omega
  refine ⟨_, topicRecord_exact.fetch_ok hi hroom, ?_⟩
  simp [readBeacon, Record.loads, hi]

/-- Padding leaves the address and the topics. -/
theorem decodeBeaconPacket_append {buf : Bytes} {b : DecodedBeacon}
    (h : decodeBeaconPacket buf = .ok b) (rest : Bytes) :
    ∃ b', decodeBeaconPacket (buf ++ rest) = .ok b' ∧ b'.nodeIp = b.nodeIp ∧
      b'.nodePort = b.nodePort ∧ (readBeacon b').topicIds = (readBeacon b).topicIds := by
  obtain ⟨hshort, hneeded, hip, hport, hcount, hraw, -⟩ := decodeBeaconPacket_inv h
  have hshort' : 8 ≤ buf.length := hshort
  have hsame : readU16 6 (buf ++ rest) = readU16 6 buf := readU16_append rest (by omega)
  have hlen : (buf ++ rest).length = buf.length + rest.length := List.length_append
  cases hdecode : decodeBeaconPacket (buf ++ rest) with
  | error e =>
    have hfails := (decodeBeaconPacket_error_iff (buf ++ rest)).mp ⟨e, hdecode⟩
    unfold needed at hfails hneeded
    rw [hsame] at hfails
    omega
  | ok b' =>
    obtain ⟨-, -, hip', hport', hcount', hraw', -⟩ := decodeBeaconPacket_inv hdecode
    refine ⟨b', rfl, ?_, ?_, ?_⟩
    · rw [hip', hip, readU32_append rest (by omega)]
    · rw [hport', hport, readU16_append rest (by omega)]
    · have hroom : b.topicCount.toNat * topicRecord.size ≤ (buf.drop kBeaconHeaderBytes).length := by
        rw [hcount, List.length_drop]
        show _ * 4 ≤ _
        unfold needed at hneeded
        omega
      rw [readBeacon, readBeacon, hraw', hraw, hcount', hsame, ← hcount,
        List.drop_append_of_le_length hshort, topicRecord_exact.loads_append rest hroom]

/-! ### What is written -/

/-- Both encoders write the same bytes, and both decoders read everything back from them. -/
theorem beacon_roundTrip (nodeIp : UInt32) (nodePort : UInt16) {topicIds : List UInt32}
    (nodePid : UInt32) (shmCapable : Bool) (h : topicIds.length ≤ kMaxBeaconTopics)
    {outCapacity : Nat} (hcap : 16 + 4 * topicIds.length ≤ outCapacity) :
    ∃ bytes b,
      encodeBeaconPacket nodeIp nodePort topicIds (UInt16.ofNat topicIds.length) outCapacity nodePid
        shmCapable = .ok bytes ∧
      Py.encodeBeaconPacket nodeIp nodePort topicIds nodePid shmCapable = some bytes ∧
      loadBeaconPacket bytes = .ok (.ok b) ∧
      readBeacon b = ⟨nodeIp, nodePort, topicIds, nodePid, shmCapable⟩ ∧
      Py.decodeBeaconPacket bytes = some ⟨nodeIp, nodePort, topicIds, nodePid, shmCapable⟩ := by
  have hmax : topicIds.length ≤ 128 := h
  let c : MulticastConfig := ⟨nodeIp, nodePid, shmCapable, [], List.nodup_nil⟩
  have hread : (decodeBeaconPacket ((c.beaconBytes nodePort topicIds).take
      (16 + 4 * topicIds.length))).toOption.map readBeacon =
        c.readCut (16 + 4 * topicIds.length) nodePort topicIds :=
    c.decode_cut (by omega) (by omega)
  rw [List.take_of_length_le (Nat.le_of_eq c.beaconBytes_length), MulticastConfig.readCut,
    if_neg (by omega), if_neg (by omega), Option.map_eq_some_iff] at hread
  obtain ⟨b, hb, hfields⟩ := hread
  have hb := toOption_eq_some_iff.mp hb
  refine ⟨c.beaconBytes nodePort topicIds, b, ?_, ?_, by rw [loadBeaconPacket_eq, hb], hfields, ?_⟩
  · unfold encodeBeaconPacket
    rw [toNat_ofNat_count (by omega), if_neg (by omega), List.take_length,
      if_neg (by simp only [kBeaconHeaderBytes]; omega)]
    simp only [MulticastConfig.beaconBytes, MulticastConfig.extension, List.append_assoc, c]
  · rw [Py.encodeBeaconPacket, if_neg (by omega)]
    simp only [MulticastConfig.beaconBytes, MulticastConfig.extension, List.append_assoc, c]
  · rw [Py.decodeBeaconPacket_eq, hb]
    exact congrArg some hfields

/-- A beacon of at most 128 topics goes through either build unchanged. Any bytes fail to decode
exactly if they are cut before the end of the topics; the extension is read behind the topics if
all of it is there, and else taken for absent; every topic read is in bounds; and what follows an
accepted beacon changes neither its address nor its topics. -/
theorem beacon_codecs_exact :
    (∀ nodeIp nodePort topicIds nodePid shmCapable outCapacity,
      topicIds.length ≤ kMaxBeaconTopics → 16 + 4 * topicIds.length ≤ outCapacity →
      ∃ bytes b,
        encodeBeaconPacket nodeIp nodePort topicIds (UInt16.ofNat topicIds.length) outCapacity
          nodePid shmCapable = .ok bytes ∧
        Py.encodeBeaconPacket nodeIp nodePort topicIds nodePid shmCapable = some bytes ∧
        loadBeaconPacket bytes = .ok (.ok b) ∧
        readBeacon b = ⟨nodeIp, nodePort, topicIds, nodePid, shmCapable⟩ ∧
        Py.decodeBeaconPacket bytes = some ⟨nodeIp, nodePort, topicIds, nodePid, shmCapable⟩) ∧
    ∀ buf, ∃ r, loadBeaconPacket buf = .ok r ∧
      Py.decodeBeaconPacket buf = r.toOption.map readBeacon ∧
      ((∃ e, r = .error e) ↔ buf.length < 8 ∨ buf.length < 8 + 4 * (readU16 6 buf).toNat) ∧
      ∀ b, r = .ok b →
        b.topicCount = readU16 6 buf ∧
        (b.nodePid, b.shmCapable) =
          (if buf.length < 8 + 4 * b.topicCount.toNat + 8 then (0, false)
          else (readU32 (8 + 4 * b.topicCount.toNat) buf,
            (readU32 (8 + 4 * b.topicCount.toNat + 4) buf &&& kCapFlagShmLocalIpc) != 0)) ∧
        (∀ i < b.topicCount.toNat, ∃ topic, beaconTopicAt b i = .ok topic ∧
          (readBeacon b).topicIds[i]? = some topic) ∧
        ∀ rest, ∃ b', decodeBeaconPacket (buf ++ rest) = .ok b' ∧ b'.nodeIp = b.nodeIp ∧
          b'.nodePort = b.nodePort ∧ (readBeacon b').topicIds = (readBeacon b).topicIds := by
  refine ⟨fun nodeIp nodePort topicIds nodePid shmCapable outCapacity h hcap =>
    beacon_roundTrip nodeIp nodePort nodePid shmCapable h hcap, fun buf => ?_⟩
  have hneeded : needed buf = 8 + 4 * (readU16 6 buf).toNat := by
    rw [needed, kBeaconHeaderBytes, Nat.mul_comm]
  refine ⟨_, loadBeaconPacket_eq buf, Py.decodeBeaconPacket_eq buf, ?_, fun b h => ?_⟩
  · rw [decodeBeaconPacket_error_iff, hneeded]
    rfl
  · obtain ⟨-, -, -, -, hcount, -, hext⟩ := decodeBeaconPacket_inv h
    refine ⟨hcount, ?_, fun i hi => beaconTopicAt_ok h hi, fun rest => decodeBeaconPacket_append h rest⟩
    rw [hext, hcount, ← hneeded]
    by_cases hroom : needed buf + 8 ≤ buf.length
    · rw [if_pos hroom, if_neg (by omega)]
    · rw [if_neg hroom, if_pos (by omega)]

end Relink.Discovery
