import Relink.Wire.Directory

/-! What the replies of the directories carry.

A list is cut into chunks, every chunk goes into a reply of its own, and a reply reads as its
chunk: so all the replies together read as the list. -/
namespace Relink.Wire
open LittleEndian

/-! ### Chunks -/

section Chunks
variable {α : Type} (entryLen : α → Nat) (maxEntries maxPacket : Nat)

/-- The bytes of a chunk's packet. -/
def chunkLen (chunk : List α) : Nat := kDirHeaderLen + (chunk.map entryLen).sum

theorem chunkLoop_flatten (current : List α) (currentLen : Nat) (entries : List α) :
    (chunkLoop entryLen maxEntries maxPacket current currentLen entries).flatten =
      current ++ entries := by
  induction entries generalizing current currentLen with
  | nil =>
    unfold chunkLoop
    split
    · next h => rw [h]; rfl
    · simp
  | cons e rest ih =>
    unfold chunkLoop
    split
    · rw [List.flatten_cons, ih, List.singleton_append]
    · rw [ih, List.append_assoc, List.singleton_append]

theorem chunkLoop_nonempty (current : List α) (currentLen : Nat) (entries : List α) :
    ∀ chunk ∈ chunkLoop entryLen maxEntries maxPacket current currentLen entries, chunk ≠ [] := by
  induction entries generalizing current currentLen with
  | nil =>
    unfold chunkLoop
    split
    · intro chunk hchunk
      cases hchunk
    · next hne =>
      intro chunk hchunk
      rwa [List.mem_singleton.mp hchunk]
  | cons e rest ih =>
    unfold chunkLoop
    split
    · next hfull => exact List.forall_mem_cons.mpr ⟨hfull.1, ih _ _⟩
    · exact ih _ _

/-- No chunk is past the caps, but for an entry that is past them alone. -/
theorem chunkLoop_limits (hone : 1 ≤ maxEntries) {current : List α}
    (hcount : current.length ≤ maxEntries)
    (hlen : current = [] ∨ (∃ e, current = [e]) ∨ chunkLen entryLen current ≤ maxPacket)
    (entries : List α) :
    ∀ chunk ∈ chunkLoop entryLen maxEntries maxPacket current (chunkLen entryLen current) entries,
      chunk.length ≤ maxEntries ∧ ((∃ e, chunk = [e]) ∨ chunkLen entryLen chunk ≤ maxPacket) := by
  induction entries generalizing current with
  | nil =>
    unfold chunkLoop
    split
    · intro chunk hchunk
      cases hchunk
    · next hne =>
      intro chunk hchunk
      rw [List.mem_singleton.mp hchunk]
      exact ⟨hcount, hlen.resolve_left hne⟩
  | cons e rest ih =>
    have hsingle : kDirHeaderLen + entryLen e = chunkLen entryLen [e] := by simp [chunkLen]
    have hlonger : chunkLen entryLen current + entryLen e = chunkLen entryLen (current ++ [e]) := by
      simp [chunkLen, Nat.add_assoc]
    unfold chunkLoop
    split
    · next hfull =>
      rw [hsingle]
      refine List.forall_mem_cons.mpr ⟨⟨hcount, hlen.resolve_left hfull.1⟩, ?_⟩
      exact ih (by simpa using hone) (.inr (.inl ⟨e, rfl⟩))
    · next hroom =>
      rw [hlonger]
      by_cases hempty : current = []
      · subst hempty
        exact ih (by simpa using hone) (.inr (.inl ⟨e, rfl⟩))
      · simp only [ne_eq, hempty, not_false_eq_true, true_and, not_or, not_le, not_lt] at hroom
        rw [hlonger] at hroom
        exact ih (by simpa [Nat.succ_le_iff] using hroom.1) (.inr (.inr hroom.2))

/-- A chunk that is being filled is at the front of the first one. -/
theorem chunkLoop_head {current : List α} (hne : current ≠ []) (currentLen : Nat)
    (entries : List α) : ∃ more chunks,
      chunkLoop entryLen maxEntries maxPacket current currentLen entries =
        (current ++ more) :: chunks := by
  induction entries generalizing current currentLen with
  | nil => exact ⟨[], [], by rw [chunkLoop, if_neg hne, List.append_nil]⟩
  | cons e rest ih =>
    unfold chunkLoop
    split
    · exact ⟨[], _, by rw [List.append_nil]⟩
    · obtain ⟨more, chunks, h⟩ := ih (List.append_ne_nil_of_left_ne_nil hne [e])
        (currentLen + entryLen e)
      exact ⟨e :: more, chunks, by rw [h, List.append_assoc]; rfl⟩

/-- No chunk is past the caps, if no entry is past them alone. -/
theorem chunkEntries_fits (hone : 1 ≤ maxEntries) {entries : List α}
    (hentries : ∀ e ∈ entries, kDirHeaderLen + entryLen e ≤ maxPacket) :
    ∀ chunk ∈ chunkEntries entryLen maxEntries maxPacket entries,
      chunk.length ≤ maxEntries ∧ chunkLen entryLen chunk ≤ maxPacket := by
  intro chunk hchunk
  obtain ⟨hcount, hlen⟩ := chunkLoop_limits entryLen maxEntries maxPacket hone (Nat.zero_le _)
    (.inl rfl) entries chunk hchunk
  refine ⟨hcount, hlen.elim (fun ⟨e, he⟩ => ?_) id⟩
  have hflatten : (chunkEntries entryLen maxEntries maxPacket entries).flatten = entries :=
    (chunkLoop_flatten ..).trans (List.nil_append _)
  have hmem : e ∈ entries :=
    hflatten ▸ List.mem_flatten_of_mem hchunk (he ▸ List.mem_singleton_self e)
  subst he
  simpa [chunkLen] using hentries e hmem

end Chunks

/-! ### Names -/

/-- The encoder's loop writes all the entries, if every name and all together fit. -/
theorem encodeEntries_eq (outCapacity : Nat) {off : Nat} (hoff : off ≤ outCapacity)
    (entries : List TopicDirEntry) : encodeEntries outCapacity off entries =
      if (∀ e ∈ entries, e.name.length ≤ kTopicDirMaxNameLen) ∧
          off + (entries.map fun e => 5 + e.name.length).sum ≤ outCapacity
      then some (entries.flatMap TopicDirEntry.pack) else none := by
  induction entries generalizing off with
  | nil => simp [encodeEntries, hoff]
  | cons e rest ih =>
    rw [encodeEntries, List.map_cons, List.sum_cons]
    by_cases hname : kTopicDirMaxNameLen < e.name.length
    · rw [if_pos hname, if_neg]
      exact fun h => absurd (h.1 e List.mem_cons_self) (by omega)
    rw [if_neg hname]
    by_cases hroom : outCapacity < off + (5 + e.name.length)
    · rw [if_pos hroom, if_neg]
      exact fun h => absurd h.2 (by omega)
    have hiff : ((∀ x ∈ e :: rest, x.name.length ≤ kTopicDirMaxNameLen) ∧
        off + (5 + e.name.length + (rest.map fun e => 5 + e.name.length).sum) ≤ outCapacity) ↔
          (∀ x ∈ rest, x.name.length ≤ kTopicDirMaxNameLen) ∧
            off + (5 + e.name.length) + (rest.map fun e => 5 + e.name.length).sum ≤ outCapacity := by
      rw [List.forall_mem_cons, and_assoc, and_iff_right (Nat.le_of_not_lt hname), Nat.add_assoc off]
    rw [if_neg hroom, ih (by omega)]
    simp only [hiff]
    split <;> rfl

theorem entry_length (e : TopicDirEntry) : e.pack.length = 5 + e.name.length := by
  simp [TopicDirEntry.pack]
  omega

theorem entries_length (entries : List TopicDirEntry) :
    (entries.flatMap TopicDirEntry.pack).length =
      (entries.map fun e => 5 + e.name.length).sum := by
  rw [List.length_flatMap]
  exact congrArg List.sum (List.map_congr_left fun e _ => entry_length e)

theorem decodeEntries_pack (entries : List TopicDirEntry) (rest : Bytes)
    (hnames : ∀ e ∈ entries, e.name.length ≤ kTopicDirMaxNameLen) :
    decodeEntries entries.length (entries.flatMap TopicDirEntry.pack ++ rest) =
      some (entries, rest) := by
  induction entries with
  | nil => rfl
  | cons e es ih =>
    obtain ⟨he, hes⟩ := List.forall_mem_cons.mp hnames
    set more := es.flatMap TopicDirEntry.pack ++ rest with hmore
    have hbytes : (e :: es).flatMap TopicDirEntry.pack ++ rest =
        u32 e.topicId ++ (UInt8.ofNat e.name.length :: (e.name ++ more)) := by
      rw [List.flatMap_cons, TopicDirEntry.pack, hmore]
      simp only [List.append_assoc, List.cons_append]
    have hlen : ((UInt8.ofNat e.name.length).toNat) = e.name.length := by
      rw [UInt8.toNat_ofNat']
      exact Nat.mod_eq_of_lt (lt_of_le_of_lt he (by decide))
    have hid : (u32 e.topicId).length = 4 := u32_length _
    have hdrop : ∀ k, (u32 e.topicId ++ (UInt8.ofNat e.name.length :: (e.name ++ more))).drop (5 + k) =
        (e.name ++ more).drop k := by
      intro k
      rw [List.drop_append, List.drop_eq_nil_of_le (by omega), List.nil_append, hid,
        show 5 + k - 4 = k + 1 by omega, List.drop_succ_cons]
    have hcount : (u32 e.topicId ++ (UInt8.ofNat e.name.length :: (e.name ++ more))).getD 4 0 =
        UInt8.ofNat e.name.length := by
      rw [List.getD_append_right _ _ _ _ (by omega), hid]
      rfl
    rw [hbytes, List.length_cons, decodeEntries, hcount, hlen, if_neg (by simp; omega),
      if_neg (by simp; omega), hdrop, List.drop_left, ih hes, readU32_here, hdrop 0,
      List.drop_zero, List.take_left, Option.map_some]

/-- Bytes that are cut short do not decode as many entries. -/
theorem decodeEntries_cut {entries : List TopicDirEntry}
    (hnames : ∀ e ∈ entries, e.name.length ≤ kTopicDirMaxNameLen) {limit : Nat}
    (hcut : limit < (entries.flatMap TopicDirEntry.pack).length) :
    decodeEntries entries.length ((entries.flatMap TopicDirEntry.pack).take limit) = none := by
  induction entries generalizing limit with
  | nil => exact absurd hcut (Nat.not_lt_zero limit)
  | cons e es ih =>
    obtain ⟨he, hes⟩ := List.forall_mem_cons.mp hnames
    have hpack : e.pack.length = 5 + e.name.length := entry_length e
    rw [List.flatMap_cons, List.length_append] at hcut
    rw [List.flatMap_cons, List.length_cons, decodeEntries, List.length_take, List.length_append]
    by_cases hshort : limit < 5
    · rw [if_pos (by omega)]
    have hlen : ((e.pack ++ es.flatMap TopicDirEntry.pack).take limit).getD 4 0 =
        UInt8.ofNat e.name.length := by
      rw [List.getD_eq_getElem?_getD, List.getElem?_take_of_lt (by omega), TopicDirEntry.pack,
        List.append_assoc, List.getElem?_append_right (by rw [u32_length]), u32_length]
      rfl
    have hname : (UInt8.ofNat e.name.length).toNat = e.name.length := by
      rw [UInt8.toNat_ofNat']
      exact Nat.mod_eq_of_lt (lt_of_le_of_lt he (by decide))
    rw [if_neg (by omega), hlen, hname]
    simp only
    by_cases hcutHere : limit < 5 + e.name.length
    · rw [if_pos (by omega)]
    have hrest : ((e.pack ++ es.flatMap TopicDirEntry.pack).take limit).drop (5 + e.name.length) =
        (es.flatMap TopicDirEntry.pack).take (limit - (5 + e.name.length)) := by
      rw [List.drop_take, ← hpack, List.drop_left]
    rw [if_neg (by omega), hrest, ih hes (by omega), Option.map_none]

/-- The head of a reply. -/
theorem packetKind_reply {announce query reply : Bytes} (hlen : reply.length = kTopicDirMagicLen)
    (hannounce : reply ≠ announce) (hquery : reply ≠ query) (rest : Bytes) :
    packetKind announce query reply (reply ++ rest) = .reply := by
  have hlong : ¬ (reply ++ rest).length < kTopicDirMagicLen := by
    rw [List.length_append, hlen]
    omega
  rw [packetKind, if_neg hlong, List.take_left' hlen, if_neg hannounce, if_neg hquery, if_pos rfl]

theorem readCount_reply {reply : Bytes} (hlen : reply.length = 4) {n : Nat} (hn : n < 65536)
    (rest : Bytes) : (readU16 4 (reply ++ (u16 (UInt16.ofNat n) ++ rest))).toNat = n := by
  rw [readU16_skip _ _ hlen (by decide), readU16_here, UInt16.toNat_ofNat']
  exact Nat.mod_eq_of_lt hn

theorem drop_reply {reply : Bytes} (hlen : reply.length = 4) (x : UInt16) (rest : Bytes) :
    (reply ++ (u16 x ++ rest)).drop kDirHeaderLen = rest := by
  rw [← List.append_assoc, List.drop_left' (by rw [List.length_append, u16_length, hlen]; rfl)]

def nameLen (e : TopicDirEntry) : Nat := 5 + e.name.length

/-- The bytes of a name packet, an announce or a reply. -/
def namePacket (magic : Bytes) (entries : List TopicDirEntry) : Bytes :=
  magic ++ u16 (UInt16.ofNat entries.length) ++ entries.flatMap TopicDirEntry.pack

section NamePacket
variable {magic : Bytes} (hmagic : magic.length = 4)
include hmagic

theorem namePacket_length (entries : List TopicDirEntry) :
    (namePacket magic entries).length = chunkLen nameLen entries := by
  rw [namePacket, List.length_append, List.length_append, u16_length, entries_length, hmagic]
  rfl

/-- What the encoder does in a buffer of any size. -/
theorem encodeTopicDirEntries_eq {outCapacity : Nat} (hcap : kDirHeaderLen ≤ outCapacity)
    (entries : List TopicDirEntry) :
    encodeTopicDirEntries magic entries outCapacity =
      if entries.length ≤ kTopicDirMaxEntries ∧
          (∀ e ∈ entries, e.name.length ≤ kTopicDirMaxNameLen) ∧
          (namePacket magic entries).length ≤ outCapacity
      then some (namePacket magic entries) else none := by
  rw [encodeTopicDirEntries, namePacket_length hmagic]
  by_cases hcount : kTopicDirMaxEntries < entries.length
  · rw [if_pos hcount, if_neg fun h => absurd h.1 (by omega)]
  rw [if_neg hcount, if_neg (by omega), encodeEntries_eq outCapacity hcap]
  simp only [Nat.le_of_not_lt hcount, true_and]
  have hsum : kDirHeaderLen + (entries.map fun e => 5 + e.name.length).sum =
      chunkLen nameLen entries := rfl
  rw [hsum]
  by_cases h : (∀ e ∈ entries, e.name.length ≤ kTopicDirMaxNameLen) ∧
      chunkLen nameLen entries ≤ outCapacity
  · rw [if_pos h, if_pos h]
    rfl
  · rw [if_neg h, if_neg h]
    rfl

/-- A name packet decodes to its entries, up to the size the decoder takes. -/
theorem decodeTopicDirEntries_namePacket {entries : List TopicDirEntry}
    (hcount : entries.length ≤ kTopicDirMaxEntries)
    (hnames : ∀ e ∈ entries, e.name.length ≤ kTopicDirMaxNameLen) :
    decodeTopicDirEntries (namePacket magic entries) =
      if (namePacket magic entries).length ≤ kTopicDirMaxPacket then some entries else none := by
  have hbytes : namePacket magic entries = magic ++
      (u16 (UInt16.ofNat entries.length) ++ entries.flatMap TopicDirEntry.pack) :=
    List.append_assoc ..
  have hsize := namePacket_length hmagic entries
  have hcount' : (readU16 4 (namePacket magic entries)).toNat = entries.length := by
    rw [hbytes]
    exact readCount_reply hmagic (lt_of_le_of_lt hcount (by decide)) _
  have hdrop : (namePacket magic entries).drop kDirHeaderLen =
      entries.flatMap TopicDirEntry.pack ++ [] := by
    rw [hbytes, drop_reply hmagic, List.append_nil]
  rw [decodeTopicDirEntries]
  by_cases hlen : (namePacket magic entries).length ≤ kTopicDirMaxPacket
  · rw [if_pos hlen, if_neg (by rw [hsize, chunkLen] at hlen ⊢; omega)]
    simp only [hcount', hdrop, decodeEntries_pack entries [] hnames]
    rw [if_neg (by omega)]
  · rw [if_neg hlen, if_pos (Or.inr (by omega))]

end NamePacket

/-- The bytes of a name reply. -/
def nameReply (entries : List TopicDirEntry) : Bytes :=
  kTopicDirReplyMagic ++ u16 (UInt16.ofNat entries.length) ++ entries.flatMap TopicDirEntry.pack

/-- The entries of a name reply. -/
def readNames (buf : Bytes) : Option (List TopicDirEntry) :=
  if topicDirPacketKind buf = .reply then decodeTopicDirEntries buf else none

theorem nameReply_length (entries : List TopicDirEntry) :
    (nameReply entries).length = chunkLen nameLen entries := namePacket_length rfl entries

theorem encodeTopicDirReply_iff {outCapacity : Nat} (hcap : kDirHeaderLen ≤ outCapacity)
    (entries : List TopicDirEntry) :
    encodeTopicDirReply entries outCapacity =
      if entries.length ≤ kTopicDirMaxEntries ∧
          (∀ e ∈ entries, e.name.length ≤ kTopicDirMaxNameLen) ∧
          (nameReply entries).length ≤ outCapacity
      then some (nameReply entries) else none :=
  encodeTopicDirEntries_eq rfl hcap entries

theorem encodeTopicDirReply_eq (entries : List TopicDirEntry) :
    encodeTopicDirReply entries kMaxDatagramBytes =
      if entries.length ≤ kTopicDirMaxEntries ∧
          (∀ e ∈ entries, e.name.length ≤ kTopicDirMaxNameLen) ∧
          (nameReply entries).length ≤ kMaxDatagramBytes
      then some (nameReply entries) else none :=
  encodeTopicDirReply_iff (by decide) entries

/-- A reply reads as its entries, up to the size the readers take. -/
theorem readNames_nameReply {entries : List TopicDirEntry}
    (hcount : entries.length ≤ kTopicDirMaxEntries)
    (hnames : ∀ e ∈ entries, e.name.length ≤ kTopicDirMaxNameLen) :
    readNames (nameReply entries) =
      if (nameReply entries).length ≤ kTopicDirMaxPacket then some entries else none := by
  have hkind : topicDirPacketKind (nameReply entries) = .reply := by
    rw [nameReply, List.append_assoc]
    exact packetKind_reply rfl (by decide) (by decide) _
  rw [readNames, if_pos hkind]
  exact decodeTopicDirEntries_namePacket rfl hcount hnames

/-- A reply that is cut short does not read. -/
theorem readNames_cut {entries : List TopicDirEntry}
    (hcount : entries.length ≤ kTopicDirMaxEntries)
    (hnames : ∀ e ∈ entries, e.name.length ≤ kTopicDirMaxNameLen) {limit : Nat}
    (hlow : kDirHeaderLen ≤ limit) (hcut : limit < (nameReply entries).length) :
    readNames ((nameReply entries).take limit) = none := by
  have hbytes : nameReply entries = kTopicDirReplyMagic ++
      (u16 (UInt16.ofNat entries.length) ++ entries.flatMap TopicDirEntry.pack) :=
    List.append_assoc ..
  have hhead : (nameReply entries).take limit = kTopicDirReplyMagic ++
      (u16 (UInt16.ofNat entries.length) ++
        (entries.flatMap TopicDirEntry.pack).take (limit - kDirHeaderLen)) := by
    have hmagic : kTopicDirReplyMagic.length = 4 := rfl
    simp only [kDirHeaderLen] at hlow ⊢
    rw [hbytes, List.take_append, List.take_append, u16_length, hmagic,
      List.take_of_length_le (by omega), List.take_of_length_le (by rw [u16_length]; omega),
      show limit - 4 - 2 = limit - 6 by omega]
  have hlength : (nameReply entries).length =
      kDirHeaderLen + (entries.flatMap TopicDirEntry.pack).length := by
    rw [nameReply_length, entries_length]
    rfl
  have hkind : topicDirPacketKind ((nameReply entries).take limit) = .reply := by
    rw [hhead]
    exact packetKind_reply rfl (by decide) (by decide) _
  have hcount' : (readU16 4 ((nameReply entries).take limit)).toNat = entries.length := by
    rw [hhead]
    exact readCount_reply rfl (lt_of_le_of_lt hcount (by decide)) _
  have hdrop : ((nameReply entries).take limit).drop kDirHeaderLen =
      (entries.flatMap TopicDirEntry.pack).take (limit - kDirHeaderLen) := by
    rw [hhead, drop_reply rfl]
  rw [readNames, if_pos hkind, decodeTopicDirEntries]
  split
  · rfl
  · simp only [hcount', hdrop, decodeEntries_cut hnames
      (show limit - kDirHeaderLen < (entries.flatMap TopicDirEntry.pack).length by omega)]
    split <;> rfl

/-! ### Roles -/

section RolePacket
variable {α : Type} (r : Record α)

/-- The bytes of a role packet, an announce or a reply. -/
def rolePacket (magic : Bytes) (entries : List α) : Bytes :=
  magic ++ u16 (UInt16.ofNat entries.length) ++ r.array entries

variable {magic : Bytes} (hmagic : magic.length = 4)
include hmagic

theorem rolePacket_length (entries : List α) :
    (rolePacket r magic entries).length = kDirHeaderLen + entries.length * r.size := by
  rw [rolePacket, List.length_append, List.length_append, u16_length, Record.array_length, hmagic]
  rfl

theorem encodeRoleEntries_eq (entries : List α) (outCapacity : Nat) :
    encodeRoleEntries r magic entries outCapacity =
      if entries.length ≤ kRoleMaxEntries ∧ (rolePacket r magic entries).length ≤ outCapacity
      then some (rolePacket r magic entries) else none := by
  rw [encodeRoleEntries, rolePacket_length r hmagic]
  by_cases hcount : kRoleMaxEntries < entries.length
  · rw [if_pos hcount, if_neg fun h => absurd h.1 (by omega)]
  by_cases hroom : outCapacity < kDirHeaderLen + entries.length * r.size
  · rw [if_neg hcount, if_pos hroom, if_neg fun h => absurd h.2 (by omega)]
  · rw [if_neg hcount, if_neg hroom, if_pos ⟨by omega, by omega⟩]
    rfl

theorem decodeRoleEntries_rolePacket {entries : List α} (hcount : entries.length ≤ kRoleMaxEntries)
    (hlen : (rolePacket r magic entries).length ≤ kRoleMaxPacket) :
    decodeRoleEntries r (rolePacket r magic entries) = some entries := by
  have hsize := rolePacket_length r hmagic entries
  have hbytes : rolePacket r magic entries = magic ++
      (u16 (UInt16.ofNat entries.length) ++ r.array entries) := List.append_assoc ..
  have hread : (readU16 4 (rolePacket r magic entries)).toNat = entries.length := by
    rw [hbytes]
    exact readCount_reply hmagic (lt_of_le_of_lt hcount (by decide)) _
  have hdrop : (rolePacket r magic entries).drop kDirHeaderLen = r.array entries ++ [] := by
    rw [hbytes, drop_reply hmagic, List.append_nil]
  rw [decodeRoleEntries]
  simp only [hread, hdrop, r.loads_array]
  rw [if_neg (by omega), if_neg (by omega), if_neg (by omega)]

end RolePacket

/-- The entries of a role reply. -/
def readRoles (buf : Bytes) : Option (List RolePeerEntry) :=
  if rolePacketKind buf = .reply then decodeRoleEntries rolePeerRecord buf else none

def roleReply (entries : List RolePeerEntry) : Bytes :=
  kRoleReplyMagic ++ u16 (UInt16.ofNat entries.length) ++ rolePeerRecord.array entries

theorem roleReply_length (entries : List RolePeerEntry) :
    (roleReply entries).length = kDirHeaderLen + entries.length * 11 :=
  rolePacket_length rolePeerRecord rfl entries

/-- Every list that the count allows fits a datagram. -/
theorem encodeRoleReply_eq (entries : List RolePeerEntry) :
    encodeRoleReply entries kMaxDatagramBytes =
      if entries.length ≤ kRoleMaxEntries then some (roleReply entries) else none := by
  have hsize := roleReply_length entries
  refine (encodeRoleEntries_eq rolePeerRecord rfl entries kMaxDatagramBytes).trans ?_
  refine if_congr (and_iff_left_of_imp fun hcount => ?_) rfl rfl
  show (roleReply entries).length ≤ _
  simp only [kRoleMaxEntries, kMaxDatagramBytes, kDirHeaderLen] at hcount hsize ⊢
  omega

theorem readRoles_roleReply {entries : List RolePeerEntry}
    (hlen : (roleReply entries).length ≤ kRoleMaxPacket) :
    readRoles (roleReply entries) = some entries := by
  have hsize := roleReply_length entries
  have hkind : rolePacketKind (roleReply entries) = .reply := by
    rw [roleReply, List.append_assoc]
    exact packetKind_reply rfl (by decide) (by decide) _
  have hcount : entries.length ≤ kRoleMaxEntries := by
    simp only [kRoleMaxPacket, kRoleMaxEntries, kDirHeaderLen] at hlen hsize ⊢
    omega
  rw [readRoles, if_pos hkind]
  exact decodeRoleEntries_rolePacket rolePeerRecord rfl hcount hlen

/-! ### All the replies -/

theorem chunkTopicDirEntries_flatten (entries : List TopicDirEntry) :
    (chunkTopicDirEntries entries).flatten = entries :=
  (chunkLoop_flatten ..).trans (List.nil_append _)

/-- Every chunk fits the packet that carries it. -/
theorem chunkTopicDirEntries_packet {magic : Bytes} (hmagic : magic.length = 4)
    {entries : List TopicDirEntry} (hnames : ∀ e ∈ entries, e.name.length ≤ kTopicDirMaxNameLen) :
    ∀ chunk ∈ chunkTopicDirEntries entries,
      chunk.length ≤ kTopicDirMaxEntries ∧
        (namePacket magic chunk).length ≤ kTopicDirMaxPacket := by
  intro chunk hchunk
  rw [namePacket_length hmagic]
  refine chunkEntries_fits nameLen kTopicDirMaxEntries kTopicDirMaxPacket (by decide)
    (fun e he => ?_) chunk hchunk
  have := hnames e he
  simp only [kTopicDirMaxNameLen, kDirHeaderLen, nameLen, kTopicDirMaxPacket] at this ⊢
  omega

theorem chunkTopicDirEntries_fits {entries : List TopicDirEntry}
    (hnames : ∀ e ∈ entries, e.name.length ≤ kTopicDirMaxNameLen) :
    ∀ chunk ∈ chunkTopicDirEntries entries,
      chunk.length ≤ kTopicDirMaxEntries ∧ (nameReply chunk).length ≤ kTopicDirMaxPacket :=
  chunkTopicDirEntries_packet rfl hnames

/-- Likewise for entries of one size. -/
theorem chunkRoles_packet {α : Type} (r : Record α) {magic : Bytes} (hmagic : magic.length = 4)
    (hone : kDirHeaderLen + r.size ≤ kRoleMaxPacket) (entries : List α) :
    ∀ chunk ∈ chunkEntries (fun _ => r.size) kRoleMaxEntries kRoleMaxPacket entries,
      chunk.length ≤ kRoleMaxEntries ∧ (rolePacket r magic chunk).length ≤ kRoleMaxPacket := by
  intro chunk hchunk
  have hfits := chunkEntries_fits (fun _ : α => r.size) kRoleMaxEntries kRoleMaxPacket (by decide)
    (fun _ _ => hone) chunk hchunk
  refine ⟨hfits.1, le_of_eq_of_le ?_ hfits.2⟩
  rw [rolePacket_length r hmagic, chunkLen, List.map_const', List.sum_replicate_nat]

theorem chunkRolePeerEntries_flatten (entries : List RolePeerEntry) :
    (chunkRolePeerEntries entries).flatten = entries :=
  (chunkLoop_flatten ..).trans (List.nil_append _)

theorem chunkRolePeerEntries_fits (entries : List RolePeerEntry) :
    ∀ chunk ∈ chunkRolePeerEntries entries,
      chunk.length ≤ kRoleMaxEntries ∧ (roleReply chunk).length ≤ kRoleMaxPacket :=
  chunkRoles_packet rolePeerRecord rfl (by decide) entries

end Relink.Wire
