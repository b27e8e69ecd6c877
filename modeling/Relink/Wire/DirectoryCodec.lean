import Relink.Wire.RegisterCodec
import Relink.Wire.Reply

/-! The directory codecs.

The decoders walk a buffer with an offset and fill a list that replaces the caller's only at the
end. They are given here with every access checked and with the caller's list, and are the
decoders of lists in `Directory` exactly. What they accept is the encoding of what they return,
and what the chunkers put out goes through encoder and decoder unchanged. -/
namespace Relink.Wire
open LittleEndian

/-! ### The accesses of the decoders -/

section Load
variable {α : Type}

/-- The loop of a decoder: `count` entries from offset `off` on, with the offset behind them, or
none where it returns false. -/
def loadLoop (entry : Bytes → Nat → Except Buffer.Fault (Option (α × Nat))) (buf : Bytes) :
    Nat → Nat → Except Buffer.Fault (Option (List α × Nat))
  | 0, off => .ok (some ([], off))
  | count + 1, off => do
    let some (e, off) ← entry buf off | return none
    let some (entries, off) ← loadLoop entry buf count off | return none
    return some (e :: entries, off)

/-- A decoder: whether it returns true, and `*out` afterwards. -/
def loadDirectory (entry : Bytes → Nat → Except Buffer.Fault (Option (α × Nat)))
    (maxEntries maxPacket : Nat) (buf : Bytes) (out : List α) : Except Buffer.Fault (Bool × List α) :=
  if buf.length < kDirHeaderLen ∨ maxPacket < buf.length then .ok (false, out)
  else do
    let count := readU16 0 (← Buffer.load buf kTopicDirMagicLen 2)
    if maxEntries < count.toNat then return (false, out)
    let some (entries, off) ← loadLoop entry buf count.toNat kDirHeaderLen | return (false, out)
    if off ≠ buf.length then return (false, out)
    return (true, entries)

/-- One turn of the loop of `decode_topic_dir_entries`. -/
def loadTopicDirEntry (buf : Bytes) (off : Nat) :
    Except Buffer.Fault (Option (TopicDirEntry × Nat)) :=
  if buf.length < off + 5 then .ok none
  else do
    let topicId ← Buffer.load buf off 4
    let nameLen ← Buffer.byteAt buf (off + 4)
    if buf.length < off + 5 + nameLen.toNat then return none
    let name ← Buffer.load buf (off + 5) nameLen.toNat
    return some (⟨readU32 0 topicId, name⟩, off + 5 + nameLen.toNat)

/-- One turn of the loops of the role decoders, whose entries have one size. -/
def loadRecord (r : Record α) (buf : Bytes) (off : Nat) :
    Except Buffer.Fault (Option (α × Nat)) :=
  if buf.length < off + r.size then .ok none
  else do
    let raw ← Buffer.load buf off r.size
    return some (r.decode raw, off + r.size)

def loadTopicDirEntries (buf : Bytes) (out : List TopicDirEntry) :
    Except Buffer.Fault (Bool × List TopicDirEntry) :=
  loadDirectory loadTopicDirEntry kTopicDirMaxEntries kTopicDirMaxPacket buf out

def loadRoleAnnounce (buf : Bytes) (out : List RoleAnnounceEntry) :
    Except Buffer.Fault (Bool × List RoleAnnounceEntry) :=
  loadDirectory (loadRecord roleAnnounceRecord) kRoleMaxEntries kRoleMaxPacket buf out

def loadRoleReply (buf : Bytes) (out : List RolePeerEntry) :
    Except Buffer.Fault (Bool × List RolePeerEntry) :=
  loadDirectory (loadRecord rolePeerRecord) kRoleMaxEntries kRoleMaxPacket buf out

/-- What a caller has after a decoder that returned a list or rejected. -/
def filled (out : List α) : Option (List α) → Bool × List α
  | none => (false, out)
  | some entries => (true, entries)

/-- A decoder is what its loop is. -/
theorem loadDirectory_eq {entry : Bytes → Nat → Except Buffer.Fault (Option (α × Nat))}
    {maxEntries maxPacket : Nat} {buf : Bytes} {r : Option (List α × Nat)}
    (hloop : kDirHeaderLen ≤ buf.length →
      loadLoop entry buf (readU16 4 buf).toNat kDirHeaderLen = .ok r) (out : List α) :
    loadDirectory entry maxEntries maxPacket buf out = .ok (filled out
      (if buf.length < kDirHeaderLen ∨ maxPacket < buf.length ∨ maxEntries < (readU16 4 buf).toNat
      then none else (r.filter fun r => r.2 = buf.length).map Prod.fst)) := by
  unfold loadDirectory
  by_cases hsize : buf.length < kDirHeaderLen ∨ maxPacket < buf.length
  · rw [if_pos hsize, if_pos (hsize.imp_right .inl)]
    rfl
  have hlow : 6 ≤ buf.length := Nat.le_of_not_lt fun h => hsize (.inl h)
  have hcount : readU16 0 ((buf.drop kTopicDirMagicLen).take 2) = readU16 4 buf := by
    rw [readU16_take _ (by decide), readU16, read_drop, readU16]
    rfl
  rw [if_neg hsize, Buffer.load_ok (show kTopicDirMagicLen + 2 ≤ buf.length from by
    show 4 + 2 ≤ _; omega)]
  simp only [bind, Except.bind, hcount, hloop hlow, pure, Except.pure]
  by_cases hmany : maxEntries < (readU16 4 buf).toNat
  · rw [if_pos hmany, if_pos (.inr (.inr hmany))]
    rfl
  · have hfine : ¬(buf.length < kDirHeaderLen ∨ maxPacket < buf.length ∨
        maxEntries < (readU16 4 buf).toNat) := fun h =>
      h.elim (fun h => hsize (.inl h)) (·.elim (fun h => hsize (.inr h)) hmany)
    rw [if_neg hmany, if_neg hfine]
    cases r with
    | none => rfl
    | some r =>
      by_cases hend : r.2 = buf.length
      · simp [Option.filter, hend, filled]
      · simp [Option.filter, hend, filled]

/-- Entries of one size: the loop goes through exactly if they all fit. -/
theorem loadLoop_record {r : Record α} (hexact : r.Exact) (buf : Bytes) (count off : Nat) :
    loadLoop (loadRecord r) buf count off =
      .ok (if count = 0 ∨ off + count * r.size ≤ buf.length
        then some (r.loads count (buf.drop off), off + count * r.size) else none) := by
  induction count generalizing off with
  | zero => simp [loadLoop, Record.loads]
  | succ count ih =>
    have hmul : (count + 1) * r.size = r.size + count * r.size := by
      rw [Nat.succ_mul, Nat.add_comm]
    rw [loadLoop, loadRecord]
    by_cases hroom : buf.length < off + r.size
    · rw [if_pos hroom, if_neg (by omega)]
      rfl
    have htake : ((buf.drop off).take r.size).length = r.size := by
      rw [List.length_take, List.length_drop]
      omega
    have hfirst : r.decode ((buf.drop off).take r.size) = r.load (buf.drop off) 0 := by
      have := hexact.decode_append htake ((buf.drop off).drop r.size)
      rw [List.take_append_drop] at this
      rw [Record.load, Nat.zero_mul, List.drop_zero, this]
    rw [if_neg hroom, Buffer.load_ok (by omega)]
    simp only [bind, Except.bind, pure, Except.pure, ih]
    by_cases hrest : count = 0 ∨ off + r.size + count * r.size ≤ buf.length
    · have hall : count + 1 = 0 ∨ off + (count + 1) * r.size ≤ buf.length := by
        rcases hrest with rfl | h
        · right; omega
        · right; omega
      rw [if_pos hrest, if_pos hall, r.loads_succ, List.drop_drop, hfirst, hmul, Nat.add_assoc]
    · rw [if_neg hrest, if_neg (by omega)]

/-- The loop over names stays inside the buffer, and goes as the loop over what is left of it. -/
theorem loadLoop_names (buf : Bytes) (count off : Nat) (hoff : off ≤ buf.length) :
    loadLoop loadTopicDirEntry buf count off =
      .ok ((decodeEntries count (buf.drop off)).map fun r => (r.1, buf.length - r.2.length)) := by
  induction count generalizing off with
  | zero =>
    rw [loadLoop, decodeEntries, Option.map_some, List.length_drop,
      show buf.length - (buf.length - off) = off by omega]
  | succ count ih =>
    rw [loadLoop, loadTopicDirEntry, decodeEntries, List.length_drop]
    by_cases hroom : buf.length < off + 5
    · rw [if_pos hroom, if_pos (by omega)]
      rfl
    have hbyte : (buf.drop off).getD 4 0 = buf.getD (off + 4) 0 := by
      rw [List.getD_eq_getElem?_getD, List.getElem?_drop, List.getD_eq_getElem?_getD]
    have hid : readU32 0 ((buf.drop off).take 4) = readU32 0 (buf.drop off) :=
      readU32_take _ (by decide)
    rw [if_neg hroom, if_neg (by omega), Buffer.load_ok (by omega), Buffer.byteAt_ok (by omega)]
    simp only [bind, Except.bind, pure, Except.pure, hbyte, hid]
    by_cases hname : buf.length < off + 5 + (buf.getD (off + 4) 0).toNat
    · rw [if_pos hname, if_pos (by omega)]
      rfl
    · have hrest := ih _ (Nat.le_of_not_lt hname)
      rw [Nat.add_assoc] at hrest
      rw [if_neg hname, if_neg (by omega), Buffer.load_ok (by omega)]
      simp only [Nat.add_assoc, hrest, List.drop_drop]
      cases decodeEntries count (buf.drop (off + (5 + (buf.getD (off + 4) 0).toNat))) <;> rfl

end Load

theorem loadTopicDirEntries_eq (buf : Bytes) (out : List TopicDirEntry) :
    loadTopicDirEntries buf out = .ok (filled out (decodeTopicDirEntries buf)) := by
  refine (loadDirectory_eq (fun hlow => loadLoop_names buf _ _ hlow) out).trans ?_
  congr 2
  rw [decodeTopicDirEntries]
  by_cases hsize : buf.length < kDirHeaderLen ∨ kTopicDirMaxPacket < buf.length
  · rw [if_pos (hsize.imp_right .inl), if_pos hsize]
  have hlow : 6 ≤ buf.length := Nat.le_of_not_lt fun h => hsize (.inl h)
  rw [if_neg hsize]
  by_cases hmany : kTopicDirMaxEntries < (readU16 4 buf).toNat
  · rw [if_pos (.inr (.inr hmany)), if_pos hmany]
  rw [if_neg (by tauto), if_neg hmany]
  cases decodeEntries (readU16 4 buf).toNat (buf.drop kDirHeaderLen) with
  | none => rfl
  | some r =>
    obtain ⟨entries, rest⟩ := r
    -- the offset is at the end exactly if nothing is left
    cases rest with
    | nil => simp [Option.filter]
    | cons b rest =>
      have hleft : ¬buf.length - (rest.length + 1) = buf.length := by omega
      simp [Option.filter, hleft]

theorem loadRoles_eq {α : Type} {r : Record α} (hexact : r.Exact) (buf : Bytes) (out : List α) :
    loadDirectory (loadRecord r) kRoleMaxEntries kRoleMaxPacket buf out =
      .ok (filled out (decodeRoleEntries r buf)) := by
  refine (loadDirectory_eq (fun _ => loadLoop_record hexact buf _ _) out).trans ?_
  congr 2
  rw [decodeRoleEntries]
  by_cases hsize : buf.length < kDirHeaderLen ∨ kRoleMaxPacket < buf.length
  · rw [if_pos (hsize.imp_right .inl), if_pos hsize]
  rw [if_neg hsize]
  by_cases hmany : kRoleMaxEntries < (readU16 4 buf).toNat
  · rw [if_pos (.inr (.inr hmany)), if_pos hmany]
  rw [if_neg (by tauto), if_neg hmany]
  by_cases hlen : buf.length ≠ kDirHeaderLen + (readU16 4 buf).toNat * r.size
  · rw [if_pos hlen]
    split
    · simp [Option.filter, Ne.symm hlen]
    · rfl
  · have hall : kDirHeaderLen + (readU16 4 buf).toNat * r.size = buf.length :=
      (not_not.mp hlen).symm
    rw [if_neg hlen, if_pos (.inr (Nat.le_of_eq hall))]
    simp [Option.filter, hall]

/-! ### What is accepted -/

/-- The loop returns the entries that lie in front. -/
theorem decodeEntries_inv {count : Nat} {buf rest : Bytes} {entries : List TopicDirEntry}
    (h : decodeEntries count buf = some (entries, rest)) :
    entries.length = count ∧ buf = entries.flatMap TopicDirEntry.pack ++ rest ∧
      ∀ e ∈ entries, e.name.length ≤ kTopicDirMaxNameLen := by
  induction count generalizing buf entries rest with
  | zero =>
    cases h
    exact ⟨rfl, rfl, fun e he => absurd he List.not_mem_nil⟩
  | succ count ih =>
    rw [decodeEntries] at h
    split at h
    · cases h
    next hroom =>
    simp only at h
    split at h
    · cases h
    next hname =>
    obtain ⟨⟨entries, more⟩, hmore, heq⟩ := Option.map_eq_some_iff.mp h
    cases heq
    obtain ⟨hcount, hbytes, hnames⟩ := ih hmore
    have hlt : (buf.getD 4 0).toNat < 256 := (buf.getD 4 0).toNat_lt
    have hlen : ((buf.drop 5).take (buf.getD 4 0).toNat).length = (buf.getD 4 0).toNat := by
      rw [List.length_take, List.length_drop]
      omega
    refine ⟨by rw [List.length_cons, hcount], ?_, List.forall_mem_cons.mpr ⟨?_, hnames⟩⟩
    · -- number, length byte, name and the rest are consecutive pieces
      rw [List.flatMap_cons, List.append_assoc, ← hbytes, TopicDirEntry.pack]
      simp only [hlen, UInt8.ofNat_toNat, List.append_assoc, List.cons_append]
      rw [← List.drop_drop, List.take_append_drop, byte_then (by omega), u32_then (by omega),
        List.drop_zero]
    · show ((buf.drop 5).take _).length ≤ 255
      omega

/-- A list that the decoder returns is written as the same bytes, but for the magic. -/
theorem decodeTopicDirEntries_inv {buf : Bytes} {entries : List TopicDirEntry}
    (h : decodeTopicDirEntries buf = some entries) :
    entries.length ≤ kTopicDirMaxEntries ∧ (∀ e ∈ entries, e.name.length ≤ kTopicDirMaxNameLen) ∧
      buf.length ≤ kTopicDirMaxPacket ∧
      ∀ magic : Bytes, magic.length = 4 → namePacket magic entries = magic ++ buf.drop 4 := by
  rw [decodeTopicDirEntries] at h
  split at h
  · cases h
  next hsize =>
  simp only at h
  split at h
  · cases h
  next hmany =>
  have hlow : 6 ≤ buf.length := Nat.le_of_not_lt fun h => hsize (.inl h)
  split at h
  · next entries' hloop =>
    cases h
    obtain ⟨hcount, hbytes, hnames⟩ := decodeEntries_inv hloop
    refine ⟨by omega, hnames, Nat.le_of_not_lt fun h => hsize (.inr h), fun magic _ => ?_⟩
    have hrest : entries.flatMap TopicDirEntry.pack = buf.drop 6 := by
      rw [← List.append_nil (entries.flatMap _)]
      exact hbytes.symm
    rw [namePacket, hcount, UInt16.ofNat_toNat, hrest, List.append_assoc, u16_then (by omega)]
  · cases h

theorem decodeRoleEntries_inv {α : Type} {r : Record α} (hexact : r.Exact) {buf : Bytes}
    {entries : List α} (h : decodeRoleEntries r buf = some entries) :
    entries.length ≤ kRoleMaxEntries ∧ buf.length ≤ kRoleMaxPacket ∧
      ∀ magic : Bytes, magic.length = 4 → rolePacket r magic entries = magic ++ buf.drop 4 := by
  rw [decodeRoleEntries] at h
  split at h
  · cases h
  next hsize =>
  simp only at h
  split at h
  · cases h
  next hmany =>
  split at h
  · cases h
  next hlen =>
  cases h
  have hlow : 6 ≤ buf.length := Nat.le_of_not_lt fun h => hsize (.inl h)
  have hraw : (buf.drop kDirHeaderLen).length = (readU16 4 buf).toNat * r.size := by
    rw [List.length_drop, not_not.mp hlen, Nat.add_sub_cancel_left]
  refine ⟨by rw [r.loads_length]; omega, Nat.le_of_not_lt fun h => hsize (.inr h), fun magic _ => ?_⟩
  rw [rolePacket, r.loads_length, UInt16.ofNat_toNat, hexact.array_loads _ hraw, List.append_assoc]
  show magic ++ (u16 (readU16 4 buf) ++ buf.drop 6) = _
  rw [u16_then (by omega)]

/-! ### Chunks -/

theorem roleAnnounceRecord_exact : roleAnnounceRecord.Exact := by
  intro b hb
  have hb : b.length = 5 := hb
  have hlast : [b.getD 4 0] = b.drop 4 := by
    rw [← byte_then (by omega), List.drop_eq_nil_of_le (by omega)]
  show u32 (readU32 0 b) ++ [b.getD 4 0] = b
  rw [hlast, u32_then (by omega), List.drop_zero]

theorem rolePeerRecord_exact : rolePeerRecord.Exact := by
  intro b hb
  have hb : b.length = 11 := hb
  have hlast : u16 (readU16 9 b) = b.drop 9 := by
    rw [← u16_then (by omega), List.drop_eq_nil_of_le (by omega), List.append_nil]
  show u32 (readU32 0 b) ++ (b.getD 4 0 :: (u32 (readU32 5 b) ++ u16 (readU16 9 b))) = b
  rw [hlast, u32_then (by omega), byte_then (by omega), u32_then (by omega), List.drop_zero]

section Exact
variable {α : Type} (chunk : List α → List (List α)) (encode : List α → Nat → Option Bytes)
  (load : Bytes → List α → Except Buffer.Fault (Bool × List α))

/-- The chunks of a list are not empty and make up the list, and each of them is written into
8192 bytes and read back. -/
def ChunksExact (entries : List α) : Prop :=
  (∀ c ∈ chunk entries, c ≠ []) ∧ (chunk entries).flatten = entries ∧
    ∀ c ∈ chunk entries, ∃ bytes, encode c 8192 = some bytes ∧ ∀ out, load bytes out = .ok (true, c)

/-- Any bytes are rejected and leave the caller's list, or are read inside the buffer as a list that
is written as the same bytes from offset 4 on. -/
def ReadsExact : Prop :=
  ∀ buf out, load buf out = .ok (false, out) ∨ ∃ entries bytes, load buf out = .ok (true, entries) ∧
    encode entries 8192 = some bytes ∧ bytes.drop 4 = buf.drop 4

end Exact

theorem names_chunksExact {magic : Bytes} (hmagic : magic.length = 4) {entries : List TopicDirEntry}
    (hnames : ∀ e ∈ entries, e.name.length ≤ kTopicDirMaxNameLen) :
    ChunksExact chunkTopicDirEntries (encodeTopicDirEntries magic) loadTopicDirEntries entries := by
  refine ⟨chunkLoop_nonempty _ _ _ _ _ _, chunkTopicDirEntries_flatten entries, fun c hc => ?_⟩
  obtain ⟨hcount, hlen⟩ := chunkTopicDirEntries_packet hmagic hnames c hc
  have hown : ∀ e ∈ c, e.name.length ≤ kTopicDirMaxNameLen := fun e he =>
    hnames e (chunkTopicDirEntries_flatten entries ▸ List.mem_flatten_of_mem hc he)
  have hencode := encodeTopicDirEntries_eq hmagic (show kDirHeaderLen ≤ 8192 by decide) c
  rw [if_pos ⟨hcount, hown, hlen⟩] at hencode
  refine ⟨_, hencode, fun out => ?_⟩
  rw [loadTopicDirEntries_eq, decodeTopicDirEntries_namePacket hmagic hcount hown, if_pos hlen]
  rfl

theorem names_readsExact {magic : Bytes} (hmagic : magic.length = 4) :
    ReadsExact (encodeTopicDirEntries magic) loadTopicDirEntries := by
  intro buf out
  rw [loadTopicDirEntries_eq]
  cases h : decodeTopicDirEntries buf with
  | none => exact .inl rfl
  | some entries =>
    obtain ⟨hcount, hnames, hlen, hbytes⟩ := decodeTopicDirEntries_inv h
    have hsize : (namePacket magic entries).length ≤ 8192 := by
      have hlen : buf.length ≤ 8192 := hlen
      rw [hbytes magic hmagic, List.length_append, List.length_drop, hmagic]
      omega
    refine .inr ⟨entries, namePacket magic entries, rfl, ?_, ?_⟩
    · rw [encodeTopicDirEntries_eq hmagic (by decide), if_pos ⟨hcount, hnames, hsize⟩]
    · rw [hbytes magic hmagic, List.drop_left' hmagic]

theorem roles_chunksExact {α : Type} {r : Record α} (hexact : r.Exact)
    (hone : kDirHeaderLen + r.size ≤ kRoleMaxPacket) {magic : Bytes} (hmagic : magic.length = 4)
    (entries : List α) :
    ChunksExact (chunkEntries (fun _ => r.size) kRoleMaxEntries kRoleMaxPacket)
      (encodeRoleEntries r magic) (loadDirectory (loadRecord r) kRoleMaxEntries kRoleMaxPacket)
      entries := by
  refine ⟨chunkLoop_nonempty _ _ _ _ _ _, (chunkLoop_flatten ..).trans (List.nil_append _),
    fun c hc => ?_⟩
  obtain ⟨hcount, hlen⟩ := chunkRoles_packet r hmagic hone entries c hc
  refine ⟨_, (encodeRoleEntries_eq r hmagic c 8192).trans (if_pos ⟨hcount, hlen⟩), fun out => ?_⟩
  rw [loadRoles_eq hexact, decodeRoleEntries_rolePacket r hmagic hcount hlen]
  rfl

theorem roles_readsExact {α : Type} {r : Record α} (hexact : r.Exact) {magic : Bytes}
    (hmagic : magic.length = 4) : ReadsExact (encodeRoleEntries r magic)
      (loadDirectory (loadRecord r) kRoleMaxEntries kRoleMaxPacket) := by
  intro buf out
  rw [loadRoles_eq hexact]
  cases h : decodeRoleEntries r buf with
  | none => exact .inl rfl
  | some entries =>
    obtain ⟨hcount, hlen, hbytes⟩ := decodeRoleEntries_inv hexact h
    have hsize : (rolePacket r magic entries).length ≤ 8192 := by
      have hlen : buf.length ≤ 8192 := hlen
      rw [hbytes magic hmagic, List.length_append, List.length_drop, hmagic]
      omega
    refine .inr ⟨entries, rolePacket r magic entries, rfl, ?_, ?_⟩
    · rw [encodeRoleEntries_eq r hmagic, if_pos ⟨hcount, hsize⟩]
    · rw [hbytes magic hmagic, List.drop_left' hmagic]

/-- Every list of entries goes through chunker, encoder and decoder unchanged, names up to 255
bytes; and whatever a decoder accepts is what the encoder writes for it. -/
theorem directory_codecs_exact :
    (∀ entries : List TopicDirEntry, (∀ e ∈ entries, e.name.length ≤ 255) →
      ChunksExact chunkTopicDirEntries encodeTopicDirAnnounce loadTopicDirEntries entries ∧
      ChunksExact chunkTopicDirEntries encodeTopicDirReply loadTopicDirEntries entries) ∧
    (∀ entries, ChunksExact chunkRoleAnnounceEntries encodeRoleAnnounce loadRoleAnnounce entries) ∧
    (∀ entries, ChunksExact chunkRolePeerEntries encodeRoleReply loadRoleReply entries) ∧
    ReadsExact encodeTopicDirAnnounce loadTopicDirEntries ∧
    ReadsExact encodeTopicDirReply loadTopicDirEntries ∧
    ReadsExact encodeRoleAnnounce loadRoleAnnounce ∧ ReadsExact encodeRoleReply loadRoleReply :=
  ⟨fun _ hnames => ⟨names_chunksExact rfl hnames, names_chunksExact rfl hnames⟩,
    roles_chunksExact roleAnnounceRecord_exact (by decide) rfl,
    roles_chunksExact rolePeerRecord_exact (by decide) rfl,
    names_readsExact rfl, names_readsExact rfl, roles_readsExact roleAnnounceRecord_exact rfl,
    roles_readsExact rolePeerRecord_exact rfl⟩

end Relink.Wire
