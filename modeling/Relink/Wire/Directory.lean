import Relink.Wire.Register

/-! The name and role directories, and the relay's control packets.

`topic_directory.hpp` and `relay_wire.hpp`. Three kinds of name packet and three of
role packet are told apart by a four-byte magic; their payload is a counted list of
entries. A long list is split into chunks that respect a cap on entries and one on
bytes. A relay registration is six bytes, and a data frame is recognised by its start
byte alone. -/
namespace Relink.Wire
open LittleEndian

/-! ### Packet kinds -/

def kTopicDirMagicLen : Nat := 4
/-- `RLNM` -/
def kTopicDirAnnounceMagic : Bytes := [0x52, 0x4C, 0x4E, 0x4D]
/-- `RLNQ` -/
def kTopicDirQueryMagic : Bytes := [0x52, 0x4C, 0x4E, 0x51]
/-- `RLNR` -/
def kTopicDirReplyMagic : Bytes := [0x52, 0x4C, 0x4E, 0x52]
/-- `RLPA` -/
def kRoleAnnounceMagic : Bytes := [0x52, 0x4C, 0x50, 0x41]
/-- `RLPQ` -/
def kRoleQueryMagic : Bytes := [0x52, 0x4C, 0x50, 0x51]
/-- `RLPR` -/
def kRoleReplyMagic : Bytes := [0x52, 0x4C, 0x50, 0x52]

/-- `TopicDirKind` and `RoleDirKind`. -/
inductive DirKind where
  | announce
  | query
  | reply
  | unknown
deriving DecidableEq, Repr

/-- The kind of a packet among three magics. -/
def packetKind (announce query reply buf : Bytes) : DirKind :=
  if buf.length < kTopicDirMagicLen then .unknown
  else if buf.take kTopicDirMagicLen = announce then .announce
  else if buf.take kTopicDirMagicLen = query then .query
  else if buf.take kTopicDirMagicLen = reply then .reply
  else .unknown

def topicDirPacketKind (buf : Bytes) : DirKind :=
  packetKind kTopicDirAnnounceMagic kTopicDirQueryMagic kTopicDirReplyMagic buf

def rolePacketKind (buf : Bytes) : DirKind :=
  packetKind kRoleAnnounceMagic kRoleQueryMagic kRoleReplyMagic buf

theorem packetKind_unknown_iff (announce query reply buf : Bytes)
    (h : kTopicDirMagicLen ≤ buf.length) :
    packetKind announce query reply buf = .unknown ↔
      buf.take kTopicDirMagicLen ∉ [announce, query, reply] := by
  unfold packetKind
  rw [if_neg (by omega)]
  simp only [List.mem_cons, List.not_mem_nil, or_false, not_or]
  split
  · rename_i h₁
    simp [h₁]
  · split
    · rename_i h₂
      simp [h₂]
    · split
      · rename_i h₃
        simp [h₃]
      · rename_i h₁ h₂ h₃
        exact iff_of_true rfl ⟨h₁, h₂, h₃⟩

/-! ### Topic names -/

def kTopicDirMaxEntries : Nat := 512
def kTopicDirMaxNameLen : Nat := 255
def kTopicDirMaxPacket : Nat := 8192

structure TopicDirEntry where
  topicId : UInt32
  name : Bytes
deriving DecidableEq, Repr

/-- Magic and count. -/
def kDirHeaderLen : Nat := 6

def TopicDirEntry.pack (e : TopicDirEntry) : Bytes :=
  u32 e.topicId ++ (UInt8.ofNat e.name.length :: e.name)

/-- The loop of the encoder from offset `off` on. -/
def encodeEntries (outCapacity : Nat) : Nat → List TopicDirEntry → Option Bytes
  | _, [] => some []
  | off, e :: rest =>
    if kTopicDirMaxNameLen < e.name.length then none
    else if outCapacity < off + (5 + e.name.length) then none
    else (encodeEntries outCapacity (off + (5 + e.name.length)) rest).map (e.pack ++ ·)

def encodeTopicDirEntries (magic : Bytes) (entries : List TopicDirEntry) (outCapacity : Nat) :
    Option Bytes :=
  if kTopicDirMaxEntries < entries.length then none
  else if outCapacity < kDirHeaderLen then none
  else (encodeEntries outCapacity kDirHeaderLen entries).map
    (magic ++ u16 (UInt16.ofNat entries.length) ++ ·)

def encodeTopicDirAnnounce (entries : List TopicDirEntry) (outCapacity : Nat) : Option Bytes :=
  encodeTopicDirEntries kTopicDirAnnounceMagic entries outCapacity

def encodeTopicDirReply (entries : List TopicDirEntry) (outCapacity : Nat) : Option Bytes :=
  encodeTopicDirEntries kTopicDirReplyMagic entries outCapacity

/-- The loop of the decoder: `count` entries from the front of what is left. -/
def decodeEntries : Nat → Bytes → Option (List TopicDirEntry × Bytes)
  | 0, rest => some ([], rest)
  | count + 1, rest =>
    if rest.length < 5 then none
    else
      let nameLen := (rest.getD 4 0).toNat
      if rest.length < 5 + nameLen then none
      else (decodeEntries count (rest.drop (5 + nameLen))).map fun r =>
        (⟨readU32 0 rest, (rest.drop 5).take nameLen⟩ :: r.1, r.2)

def decodeTopicDirEntries (buf : Bytes) : Option (List TopicDirEntry) :=
  if buf.length < kDirHeaderLen ∨ kTopicDirMaxPacket < buf.length then none
  else
    let count := readU16 4 buf
    if kTopicDirMaxEntries < count.toNat then none
    else match decodeEntries count.toNat (buf.drop kDirHeaderLen) with
      | some (entries, []) => some entries
      | _ => none

/-! ### Roles -/

def kRoleMaxEntries : Nat := 2048
def kRoleMaxPacket : Nat := 8192

structure RoleAnnounceEntry where
  topicId : UInt32
  role : UInt8
deriving DecidableEq, Repr

structure RolePeerEntry where
  topicId : UInt32
  role : UInt8
  ip : UInt32
  port : UInt16
deriving DecidableEq, Repr

def roleAnnounceRecord : Record RoleAnnounceEntry where
  size := 5
  encode e := u32 e.topicId ++ [e.role]
  decode buf := ⟨readU32 0 buf, buf.getD 4 0⟩
  length_encode e := by simp
  decode_encode e rest := by
    congr 1
    rw [List.append_assoc]
    exact readU32_here ..

def rolePeerRecord : Record RolePeerEntry where
  size := 11
  encode e := u32 e.topicId ++ ([e.role] ++ (u32 e.ip ++ u16 e.port))
  decode buf := ⟨readU32 0 buf, buf.getD 4 0, readU32 5 buf, readU16 9 buf⟩
  length_encode e := by simp
  decode_encode e rest := by
    have hrole : [e.role].length = 1 := rfl
    simp only [List.append_assoc]
    congr 1
    · exact readU32_here ..
    · rw [readU32_skip _ _ (u32_length _) (by decide), readU32_skip _ _ hrole (by decide)]
      exact readU32_here ..
    · rw [readU16_skip _ _ (u32_length _) (by decide), readU16_skip _ _ hrole (by decide),
        readU16_skip _ _ (u32_length _) (by decide)]
      exact readU16_here ..

section RoleEntries
variable {α : Type} (r : Record α)

/-- `encode_role_announce` and `encode_role_reply`. -/
def encodeRoleEntries (magic : Bytes) (entries : List α) (outCapacity : Nat) : Option Bytes :=
  if kRoleMaxEntries < entries.length then none
  else if outCapacity < kDirHeaderLen + entries.length * r.size then none
  else some (magic ++ u16 (UInt16.ofNat entries.length) ++ r.array entries)

/-- `decode_role_announce` and `decode_role_reply`. -/
def decodeRoleEntries (buf : Bytes) : Option (List α) :=
  if buf.length < kDirHeaderLen ∨ kRoleMaxPacket < buf.length then none
  else
    let count := readU16 4 buf
    if kRoleMaxEntries < count.toNat then none
    else if buf.length ≠ kDirHeaderLen + count.toNat * r.size then none
    else some (r.loads count.toNat (buf.drop kDirHeaderLen))

end RoleEntries

def decodeRoleAnnounce (buf : Bytes) : Option (List RoleAnnounceEntry) :=
  decodeRoleEntries roleAnnounceRecord buf

def encodeRoleAnnounce (entries : List RoleAnnounceEntry) (outCapacity : Nat) : Option Bytes :=
  encodeRoleEntries roleAnnounceRecord kRoleAnnounceMagic entries outCapacity

def encodeRoleReply (entries : List RolePeerEntry) (outCapacity : Nat) : Option Bytes :=
  encodeRoleEntries rolePeerRecord kRoleReplyMagic entries outCapacity

/-! ### Chunks -/

section Chunks
variable {α : Type} (entryLen : α → Nat) (maxEntries maxPacket : Nat)

/-- The loop of a chunker, with the chunk being filled and its length. -/
def chunkLoop (current : List α) (currentLen : Nat) : List α → List (List α)
  | [] => if current = [] then [] else [current]
  | e :: rest =>
    if current ≠ [] ∧ (maxEntries ≤ current.length ∨ maxPacket < currentLen + entryLen e) then
      current :: chunkLoop [e] (kDirHeaderLen + entryLen e) rest
    else chunkLoop (current ++ [e]) (currentLen + entryLen e) rest

def chunkEntries (entries : List α) : List (List α) :=
  chunkLoop entryLen maxEntries maxPacket [] kDirHeaderLen entries

end Chunks

def chunkTopicDirEntries (entries : List TopicDirEntry) : List (List TopicDirEntry) :=
  chunkEntries (fun e : TopicDirEntry => 5 + e.name.length) kTopicDirMaxEntries kTopicDirMaxPacket
    entries

def chunkRoleAnnounceEntries (entries : List RoleAnnounceEntry) : List (List RoleAnnounceEntry) :=
  chunkEntries (fun _ => 5) kRoleMaxEntries kRoleMaxPacket entries

def chunkRolePeerEntries (entries : List RolePeerEntry) : List (List RolePeerEntry) :=
  chunkEntries (fun _ => 11) kRoleMaxEntries kRoleMaxPacket entries

/-! ### Relay packets -/

def kRelayControlMagic : UInt8 := 0x52
def kRelayRegister : UInt8 := 0x01

/-- The topic of a relay registration, if the packet is one. -/
def decodeRelayRegister (buf : Bytes) : Option UInt32 :=
  if buf.length ≠ 6 ∨ buf.getD 0 0 ≠ kRelayControlMagic ∨ buf.getD 1 0 ≠ kRelayRegister then none
  else some (readU32 2 buf)

/-- The topic of what looks like a data frame: the start byte and a whole header. -/
def peekFrameTopicId (buf : Bytes) : Option UInt32 :=
  if buf.length < 1 + kHeaderBytes ∨ buf.getD 0 0 ≠ kStartByte then none
  else some (readU32 1 buf)

theorem getD_take_four (buf : Bytes) {i : Nat} (hi : i < 4) :
    (buf.take 4).getD i 0 = buf.getD i 0 := by
  rw [List.getD_eq_getElem?_getD, List.getElem?_take_of_lt hi, ← List.getD_eq_getElem?_getD]

/-- The second byte of every directory magic is a letter, and the first one no start byte. -/
theorem not_directory {buf : Bytes} (hlen : 4 ≤ buf.length)
    (h : buf.getD 1 0 = kRelayRegister ∨ buf.getD 0 0 = kStartByte) :
    topicDirPacketKind buf = .unknown ∧ rolePacketKind buf = .unknown := by
  have hapart : ∀ magic ∈ [kTopicDirAnnounceMagic, kTopicDirQueryMagic, kTopicDirReplyMagic,
      kRoleAnnounceMagic, kRoleQueryMagic, kRoleReplyMagic],
      magic.getD 1 0 ≠ kRelayRegister ∧ magic.getD 0 0 ≠ kStartByte := by
    decide
  have hnot : ∀ magic ∈ [kTopicDirAnnounceMagic, kTopicDirQueryMagic, kTopicDirReplyMagic,
      kRoleAnnounceMagic, kRoleQueryMagic, kRoleReplyMagic], buf.take 4 ≠ magic := by
    intro magic hmagic heq
    obtain ⟨hsecond, hfirst⟩ := hapart magic hmagic
    rw [← heq, getD_take_four buf (by decide)] at hsecond hfirst
    exact h.elim hsecond hfirst
  constructor
  · refine (packetKind_unknown_iff _ _ _ buf hlen).mpr fun hmem => ?_
    exact hnot _ (List.mem_of_mem_take (i := 3) hmem) rfl
  · refine (packetKind_unknown_iff _ _ _ buf hlen).mpr fun hmem => ?_
    exact hnot _ (List.mem_of_mem_drop (i := 3) hmem) rfl

end Relink.Wire
