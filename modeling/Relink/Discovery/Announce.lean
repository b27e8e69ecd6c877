import Mathlib.Data.List.Pairwise
import Relink.Discovery.Names
import Relink.Wire.DirectoryCodec

/-! What a node tells rlcore of its topic names.

The registry is cut into packets by number and size of its entries, and a packet with a name over
255 bytes is never sent, for no encoder writes it. So such a name hides the names that the map
happens to put into the same packet. -/
namespace Relink.Discovery
open LittleEndian Wire
open Rlcore (Build)

/-! ### Announcing -/

/-- `encode_announce`, which raises where the C++ encoder returns false. It has no buffer. -/
def Py.encodeAnnounce (entries : List TopicDirEntry) : Option Bytes :=
  if kTopicDirMaxEntries < entries.length ∨ ∃ e ∈ entries, kTopicDirMaxNameLen < e.name.length
  then none
  else some (namePacket kTopicDirAnnounceMagic entries)

def encodeAnnounce : Build → List TopicDirEntry → Option Bytes
  | .cpp, chunk => encodeTopicDirAnnounce chunk kTopicDirMaxPacket
  | .python, chunk => Py.encodeAnnounce chunk

/-- `announce_topic_names_to_rlcore`: what is sent, for the registry in the order in which the map
iterates. -/
def announceTopicNamesToRlcore (build : Build) (entries : List TopicDirEntry) : List Bytes :=
  if entries = [] then []
  else (chunkTopicDirEntries entries).filterMap (encodeAnnounce build)

/-- The entries of an announce. -/
def readAnnounce (buf : Bytes) : Option (List TopicDirEntry) :=
  if topicDirPacketKind buf = .announce then decodeTopicDirEntries buf else none

def Short (e : TopicDirEntry) : Prop := e.name.length ≤ kTopicDirMaxNameLen

instance (e : TopicDirEntry) : Decidable (Short e) :=
  inferInstanceAs (Decidable (e.name.length ≤ kTopicDirMaxNameLen))

/-- The datagrams decode to every entry whose name has at most 255 bytes. -/
def Announces (build : Build) (entries : List TopicDirEntry) : Prop :=
  ∀ e ∈ entries, Short e → ∃ datagram ∈ announceTopicNamesToRlcore build entries,
    ∃ es, readAnnounce datagram = some es ∧ e ∈ es

/-! ### Packets -/

variable {entries chunk : List TopicDirEntry}

theorem announce_limits (hchunk : chunk ∈ chunkTopicDirEntries entries) :
    chunk.length ≤ kTopicDirMaxEntries ∧
      ((∃ e, chunk = [e]) ∨ chunkLen nameLen chunk ≤ kTopicDirMaxPacket) :=
  chunkLoop_limits nameLen kTopicDirMaxEntries kTopicDirMaxPacket (by decide) (Nat.zero_le _)
    (.inl rfl) entries chunk hchunk

theorem announce_fits (hchunk : chunk ∈ chunkTopicDirEntries entries)
    (hshort : ∀ e ∈ chunk, Short e) :
    (namePacket kTopicDirAnnounceMagic chunk).length ≤ kTopicDirMaxPacket := by
  rw [namePacket_length rfl]
  refine (announce_limits hchunk).2.elim (fun ⟨e, he⟩ => ?_) id
  have hone : e.name.length ≤ 255 := hshort e (he ▸ List.mem_singleton_self e)
  subst he
  simp only [chunkLen, nameLen, List.map_singleton, List.sum_singleton, kDirHeaderLen,
    kTopicDirMaxPacket]
  omega

/-- A packet is sent exactly if all its names are short. -/
theorem encodeAnnounce_eq (build : Build) (hchunk : chunk ∈ chunkTopicDirEntries entries) :
    encodeAnnounce build chunk =
      if ∀ e ∈ chunk, Short e then some (namePacket kTopicDirAnnounceMagic chunk) else none := by
  have hcount := (announce_limits hchunk).1
  by_cases hshort : ∀ e ∈ chunk, Short e
  · have hfits := announce_fits hchunk hshort
    rw [if_pos hshort]
    cases build with
    | cpp =>
      exact (encodeTopicDirEntries_eq rfl (by decide) chunk).trans
        (if_pos ⟨hcount, hshort, hfits⟩)
    | python =>
      refine if_neg (not_or.mpr ⟨Nat.not_lt_of_le hcount, fun ⟨e, he, hlong⟩ => ?_⟩)
      exact absurd (hshort e he) (Nat.not_le_of_lt hlong)
  · rw [if_neg hshort]
    cases build with
    | cpp =>
      exact (encodeTopicDirEntries_eq rfl (by decide) chunk).trans
        (if_neg fun h => hshort h.2.1)
    | python =>
      have hlong : ∃ e ∈ chunk, kTopicDirMaxNameLen < e.name.length := by
        simpa only [Short, not_forall, not_le, exists_prop] using hshort
      exact if_pos (.inr hlong)

/-- A packet that is sent reads as its entries. -/
theorem readAnnounce_namePacket (hchunk : chunk ∈ chunkTopicDirEntries entries)
    (hshort : ∀ e ∈ chunk, Short e) :
    readAnnounce (namePacket kTopicDirAnnounceMagic chunk) = some chunk := by
  have hmagic : kTopicDirAnnounceMagic.length = kTopicDirMagicLen := rfl
  have hkind : topicDirPacketKind (namePacket kTopicDirAnnounceMagic chunk) = .announce := by
    have hlong : ¬(namePacket kTopicDirAnnounceMagic chunk).length < kTopicDirMagicLen := by
      rw [namePacket, List.append_assoc, List.length_append, hmagic]
      omega
    rw [topicDirPacketKind, packetKind, if_neg hlong, namePacket, List.append_assoc,
      List.take_left' hmagic, if_pos rfl]
  rw [readAnnounce, if_pos hkind, decodeTopicDirEntries_namePacket rfl (announce_limits hchunk).1
    hshort, if_pos (announce_fits hchunk hshort)]

/-- An entry is announced exactly if it is in a packet of short names. -/
theorem announced_iff (build : Build) (e : TopicDirEntry) :
    (∃ datagram ∈ announceTopicNamesToRlcore build entries,
      ∃ es, readAnnounce datagram = some es ∧ e ∈ es) ↔
      ∃ chunk ∈ chunkTopicDirEntries entries, (∀ e ∈ chunk, Short e) ∧ e ∈ chunk := by
  have hsent : announceTopicNamesToRlcore build entries =
      (chunkTopicDirEntries entries).filterMap (encodeAnnounce build) := by
    unfold announceTopicNamesToRlcore
    split
    · next h => rw [h]; rfl
    · rfl
  rw [hsent]
  constructor
  · intro ⟨datagram, hmem, es, hes, he⟩
    obtain ⟨packet, hchunk, hencode⟩ := List.mem_filterMap.mp hmem
    rw [encodeAnnounce_eq build hchunk] at hencode
    split at hencode
    · next hshort =>
      cases hencode
      rw [readAnnounce_namePacket hchunk hshort] at hes
      cases hes
      exact ⟨_, hchunk, hshort, he⟩
    · cases hencode
  · intro ⟨chunk, hchunk, hshort, he⟩
    refine ⟨_, List.mem_filterMap.mpr ⟨chunk, hchunk, ?_⟩, chunk,
      readAnnounce_namePacket hchunk hshort, he⟩
    rw [encodeAnnounce_eq build hchunk, if_pos hshort]

/-! ### What is hidden -/

/-- The packets with short names have no others. -/
def Unmixed (entries : List TopicDirEntry) : Prop :=
  ∀ chunk ∈ chunkTopicDirEntries entries, (∀ e ∈ chunk, Short e) ∨ ∀ e ∈ chunk, ¬Short e

/-- Every name is in one packet only, so it is announced there or nowhere. -/
theorem announces_iff (build : Build) (hnodup : entries.Nodup) :
    Announces build entries ↔ Unmixed entries := by
  have hflatten := chunkTopicDirEntries_flatten entries
  constructor
  · intro h chunk hchunk
    by_cases hall : ∀ e ∈ chunk, ¬Short e
    · exact .inr hall
    · simp only [not_forall, not_not] at hall
      obtain ⟨e, he, hshort⟩ := hall
      have hmem : e ∈ entries := hflatten ▸ List.mem_flatten_of_mem hchunk he
      obtain ⟨other, hother, hothers, he'⟩ := (announced_iff build e).mp (h e hmem hshort)
      rw [← hflatten, List.nodup_flatten] at hnodup
      by_cases hsame : other = chunk
      · exact .inl (hsame ▸ hothers)
      · have : Std.Symm (@List.Disjoint TopicDirEntry) := ⟨fun _ _ h _ ha hb => h hb ha⟩
        exact absurd he (hnodup.2.forall hother hchunk hsame he')
  · intro h e hmem hshort
    rw [announced_iff]
    rw [← hflatten] at hmem
    obtain ⟨chunk, hchunk, he⟩ := List.mem_flatten.mp hmem
    exact ⟨chunk, hchunk, (h chunk hchunk).resolve_right fun hlong => hlong e he hshort, he⟩

/-- Two entries of one packet are no longer together than a packet. -/
theorem together_le (hchunk : chunk ∈ chunkTopicDirEntries entries) {e l : TopicDirEntry}
    (he : e ∈ chunk) (hl : l ∈ chunk) (hne : l ≠ e) :
    16 + e.name.length + l.name.length ≤ kTopicDirMaxPacket := by
  have hl' : l ∈ chunk.erase e := (List.mem_erase_of_ne hne).mpr hl
  have hlen := (announce_limits hchunk).2.resolve_left fun ⟨x, hx⟩ => by
    rw [hx, List.mem_singleton] at he hl
    exact hne (hl.trans he.symm)
  have hsum : (chunk.map nameLen).sum = nameLen e + (nameLen l +
      (((chunk.erase e).erase l).map nameLen).sum) := by
    rw [((List.perm_cons_erase he).map nameLen).sum_nat, List.map_cons, List.sum_cons,
      ((List.perm_cons_erase hl').map nameLen).sum_nat, List.map_cons, List.sum_cons]
  simp only [chunkLen, hsum, kDirHeaderLen, nameLen] at hlen
  omega

/-- Whatever the order, a short name stays out of the packets of longer ones exactly if it has no
room there. -/
theorem unmixed_iff (entries : List TopicDirEntry) :
    (∀ order, order.Perm entries → Unmixed order) ↔
      ∀ e ∈ entries, ∀ l ∈ entries, Short e → ¬Short l →
        kTopicDirMaxPacket < 16 + e.name.length + l.name.length := by
  constructor
  · intro h e he l hl hshort hlong
    by_contra hroom
    have hne : l ≠ e := fun heq => hlong (heq ▸ hshort)
    have hl' : l ∈ entries.erase e := (List.mem_erase_of_ne hne).mpr hl
    -- iterated from these two on, the map puts them into its first packet
    have horder : (e :: l :: (entries.erase e).erase l).Perm entries :=
      ((List.perm_cons_erase hl').symm.cons e).trans (List.perm_cons_erase he).symm
    have hfirst : ∃ more chunks, chunkTopicDirEntries (e :: l :: (entries.erase e).erase l) =
        ([e, l] ++ more) :: chunks := by
      have hfull : ¬([e] ≠ [] ∧ (kTopicDirMaxEntries ≤ [e].length ∨
          kTopicDirMaxPacket < kDirHeaderLen + (5 + e.name.length) + (5 + l.name.length))) := by
        simp only [kTopicDirMaxEntries, kDirHeaderLen, List.length_singleton]
        omega
      rw [chunkTopicDirEntries, chunkEntries, chunkLoop, if_neg (fun h => h.1 rfl), List.nil_append,
        chunkLoop, if_neg hfull]
      exact chunkLoop_head _ _ _ (by simp) _ _
    obtain ⟨more, chunks, hchunks⟩ := hfirst
    rcases h _ horder _ (hchunks ▸ List.mem_cons_self) with hall | hall
    · exact hlong (hall l (by simp))
    · exact hall e (by simp) hshort
  · intro h order horder chunk hchunk
    by_contra hmixed
    rw [not_or] at hmixed
    simp only [not_forall, not_not] at hmixed
    obtain ⟨⟨l, hl, hlong⟩, e, he, hshort⟩ := hmixed
    have hmem : ∀ x ∈ chunk, x ∈ entries := fun x hx =>
      horder.mem_iff.mp (chunkTopicDirEntries_flatten order ▸ List.mem_flatten_of_mem hchunk hx)
    have hroom := together_le hchunk he hl fun heq => hlong (heq ▸ hshort)
    have := h e (hmem e he) l (hmem l hl) hshort hlong
    omega

theorem Named.nodup {calls : List Bytes} (h : Named calls entries) : entries.Nodup :=
  List.Nodup.of_map _ h.ids

/-- In a given order the short names are all announced exactly if no packet is mixed. Whatever the
order, they are exactly if no short name and longer name have room in one packet together. -/
theorem hides_only_itself_iff (calls : List Bytes) :
    (∀ build order, order.Perm (registry calls) → (Announces build order ↔ Unmixed order)) ∧
    ∀ build, (∀ order, order.Perm (registry calls) → Announces build order) ↔
      ∀ e ∈ registry calls, ∀ l ∈ registry calls, Short e → ¬Short l →
        kTopicDirMaxPacket < 16 + e.name.length + l.name.length := by
  have horder : ∀ build order, order.Perm (registry calls) →
      (Announces build order ↔ Unmixed order) := fun build order hperm =>
    announces_iff build (hperm.nodup_iff.mpr (registry_named calls).nodup)
  refine ⟨horder, fun build => ?_⟩
  rw [← unmixed_iff]
  exact forall₂_congr (horder build)

/-- A name of one byte, and one of 256. -/
def oneOverLong : List Bytes := [[0x61], List.replicate 256 0x62]

theorem over_long_hides :
    ⟨fnv1a32 [0x61], [0x61]⟩ ∈ registry oneOverLong ∧
      announceTopicNamesToRlcore .cpp (registry oneOverLong) = [] ∧
      announceTopicNamesToRlcore .python (registry oneOverLong) = [] := by
  decide +kernel

end Relink.Discovery
