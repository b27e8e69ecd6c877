import Relink.Rlcore.Agree

/-! What the directories' replies come to.

A query is answered with as many packets as the list takes. Each can be read by itself, and what
they list together is compared as a multiset: the two builds answer a query for roles the same, and
one for names exactly if the names are text. -/
namespace Relink.Rlcore
open Wire Crypto
open Std (ExtTreeMap)

/-! ### What replies list -/

section
variable {α : Type}

/-- All that the replies list, each entry with where it goes. -/
def readings (read : Bytes → Option (List α)) : List Send → Option (List (PeerEntry × α))
  | [] => some []
  | send :: rest =>
    match read send.2, readings read rest with
    | some entries, some more => some (entries.map (send.1, ·) ++ more)
    | _, _ => none

def SameEntries : Option (List α) → Option (List α) → Prop
  | some entries, some entries' => entries.Perm entries'
  | _, _ => False

instance [DecidableEq α] : (a b : Option (List α)) → Decidable (SameEntries a b)
  | some entries, some entries' => inferInstanceAs (Decidable (entries.Perm entries'))
  | none, _ => .isFalse id
  | some _, none => .isFalse id

/-- Both can be read, and list the same. -/
def SameReadings (read : Bytes → Option (List α)) (sends sends' : List Send) : Prop :=
  (sends = [] ↔ sends' = []) ∧ SameEntries (readings read sends) (readings read sends')

/-- Chunks that all go out and can be read come to the whole list. -/
theorem readings_chunks (src : PeerEntry) (encode : List α → Option Bytes)
    (read : Bytes → Option (List α)) (chunks : List (List α))
    (h : ∀ chunk ∈ chunks, ∃ bytes, encode chunk = some bytes ∧ read bytes = some chunk) :
    readings read (chunks.filterMap fun chunk => (encode chunk).map (src, ·)) =
      some (chunks.flatten.map (src, ·)) := by
  induction chunks with
  | nil => rfl
  | cons chunk rest ih =>
    obtain ⟨hhere, hrest⟩ := List.forall_mem_cons.mp h
    obtain ⟨bytes, hencode, hread⟩ := hhere
    rw [List.filterMap_cons, hencode, Option.map_some]
    simp only [readings, hread, ih hrest]
    rw [List.flatten_cons, List.map_append]

/-- What is read comes from one of the replies. -/
theorem mem_readings {read : Bytes → Option (List α)} {sends : List Send}
    {entries : List (PeerEntry × α)} (h : readings read sends = some entries)
    {x : PeerEntry × α} (hx : x ∈ entries) :
    ∃ send ∈ sends, ∃ es, read send.2 = some es ∧ x.2 ∈ es := by
  induction sends generalizing entries with
  | nil =>
    cases h
    cases hx
  | cons send rest ih =>
    unfold readings at h
    split at h
    · next es more hread hmore =>
      cases h
      rcases List.mem_append.mp hx with hx | hx
      · obtain ⟨e, he, rfl⟩ := List.mem_map.mp hx
        exact ⟨send, List.mem_cons_self, es, hread, he⟩
      · obtain ⟨send', hsend, hes⟩ := ih hmore hx
        exact ⟨send', List.mem_cons_of_mem send hsend, hes⟩
    · cases h

theorem orEmptyChunk_flatten (chunks : List (List α)) :
    (orEmptyChunk chunks).flatten = chunks.flatten := by
  unfold orEmptyChunk
  split
  · next h => rw [h]; rfl
  · rfl

/-- What holds of the chunks and of none. -/
theorem forall_orEmptyChunk {P : List α → Prop} (hnil : P []) {chunks : List (List α)}
    (h : ∀ chunk ∈ chunks, P chunk) : ∀ chunk ∈ orEmptyChunk chunks, P chunk := by
  unfold orEmptyChunk
  split
  · intro chunk hchunk
    rwa [List.mem_singleton.mp hchunk]
  · exact h

end

/-! ### Roles -/

/-- The roles that a query is answered with. -/
def queriedRoles (s : State) : List RolePeerEntry :=
  s.roleTable.toList.map fun e => ⟨e.1.topic, e.2, e.1.peer.ip, e.1.peer.port⟩

theorem answerRoleQuery_readings (src : PeerEntry) (s : State) :
    readings readRoles (answerRoleQuery src s) = some ((queriedRoles s).map (src, ·)) := by
  have hread := readings_chunks src (fun chunk => encodeRoleReply chunk kMaxDatagramBytes) readRoles
    (orEmptyChunk (chunkRolePeerEntries (queriedRoles s)))
    (forall_orEmptyChunk ⟨_, rfl, by decide⟩ fun chunk hchunk => by
      obtain ⟨hcount, hlen⟩ := chunkRolePeerEntries_fits (queriedRoles s) chunk hchunk
      exact ⟨_, (encodeRoleReply_eq chunk).trans (if_pos hcount), readRoles_roleReply hlen⟩)
  rwa [orEmptyChunk_flatten, chunkRolePeerEntries_flatten] at hread

/-! ### Names -/

/-- The names that a query is answered with. -/
def queried (s : State) : List TopicDirEntry :=
  s.table.keys.map fun topic => ⟨topic, s.topicNames.getD topic []⟩

theorem queried_names (hs : InOrder s) :
    ∀ e ∈ queried s, e.name.length ≤ kTopicDirMaxNameLen := by
  intro e he
  obtain ⟨topic, _, rfl⟩ := List.mem_map.mp he
  simp only [ExtTreeMap.getD_eq_getD_getElem?]
  cases hname : s.topicNames[topic]? with
  | none => exact Nat.zero_le _
  | some name => exact hs.names topic name hname

/-- Every reply to a query for names can be read. -/
theorem names_reply (hs : InOrder s) : ∀ chunk ∈ orEmptyChunk (chunkTopicDirEntries (queried s)),
    ∃ bytes, encodeTopicDirReply chunk kMaxDatagramBytes = some bytes ∧
      readNames bytes = some chunk := by
  refine forall_orEmptyChunk ⟨_, rfl, by decide⟩ fun chunk hchunk => ?_
  obtain ⟨hcount, hlen⟩ := chunkTopicDirEntries_fits (queried_names hs) chunk hchunk
  have hnames : ∀ e ∈ chunk, e.name.length ≤ kTopicDirMaxNameLen := fun e he => by
    refine queried_names hs e ?_
    rw [← chunkTopicDirEntries_flatten (queried s)]
    exact List.mem_flatten.mpr ⟨chunk, hchunk, he⟩
  refine ⟨nameReply chunk, ?_, ?_⟩
  · rw [encodeTopicDirReply_eq, if_pos ⟨hcount, hnames, le_trans hlen (by decide)⟩]
  · rw [readNames_nameReply hcount hnames, if_pos hlen]

theorem answerTopicQuery_readings (hs : InOrder s) (src : PeerEntry) :
    readings readNames (answerTopicQuery src s) = some ((queried s).map (src, ·)) := by
  have hread := readings_chunks src (fun chunk => encodeTopicDirReply chunk kMaxDatagramBytes)
    readNames _ (names_reply hs)
  rwa [orEmptyChunk_flatten, chunkTopicDirEntries_flatten] at hread

theorem getD_repaired (s : State) (topic : UInt32) :
    (Py.repaired s).topicNames.getD topic [] = Py.repair (s.topicNames.getD topic []) := by
  rw [Py.repaired, ExtTreeMap.getD_eq_getD_getElem?, ExtTreeMap.getElem?_map,
    ExtTreeMap.getD_eq_getD_getElem?]
  cases s.topicNames[topic]? <;> rfl

theorem queried_repaired (s : State) :
    queried (Py.repaired s) = s.table.keys.map fun topic =>
      ⟨topic, Py.repair (s.topicNames.getD topic [])⟩ := by
  simp only [queried, getD_repaired]
  rfl

/-- The Python build encodes the same chunks of its own names. -/
theorem answerTopicQuery_chunks (src : PeerEntry) (s : State) :
    Py.answerTopicQuery src s =
      (orEmptyChunk (chunkTopicDirEntries (queried s))).filterMap fun chunk =>
        (encodeTopicDirReply chunk kMaxDatagramBytes).map (src, ·) := by
  simp only [Py.answerTopicQuery, Py.encodeReply_eq]
  rfl

/-- What its replies list are its own names. -/
theorem queried_of_readings {src : PeerEntry} {s : State} {entries : List (PeerEntry × TopicDirEntry)}
    (h : readings readNames (Py.answerTopicQuery src s) = some entries)
    {x : PeerEntry × TopicDirEntry} (hx : x ∈ entries) : x.2 ∈ queried s := by
  obtain ⟨send, hsend, es, hread, he⟩ := mem_readings h hx
  rw [answerTopicQuery_chunks] at hsend
  obtain ⟨chunk, hchunk, hencode⟩ := List.mem_filterMap.mp hsend
  obtain ⟨bytes, hbytes, rfl⟩ := Option.map_eq_some_iff.mp hencode
  have hes : es = chunk := by
    rw [encodeTopicDirReply_eq] at hbytes
    split at hbytes
    · next hfits =>
      cases hbytes
      rw [readNames_nameReply hfits.1 hfits.2.1] at hread
      split at hread
      · cases hread
        rfl
      · cases hread
    · cases hbytes
  rw [← chunkTopicDirEntries_flatten (queried s), ← orEmptyChunk_flatten]
  exact List.mem_flatten.mpr ⟨chunk, hchunk, hes ▸ he⟩

/-- A query for names is answered the same exactly if they are text. -/
theorem same_names_iff (hs : InOrder s) (src : PeerEntry) :
    SameReadings readNames (answerTopicQuery src s)
        (Py.answerTopicQuery src (Py.repaired s)) ↔
      ∀ topic ∈ s.table.keys, Py.repair (s.topicNames.getD topic []) = s.topicNames.getD topic [] := by
  have hcpp := answerTopicQuery_readings hs src
  constructor
  · intro ⟨_, hsame⟩ topic htopic
    rw [hcpp] at hsame
    cases hentries : readings readNames (Py.answerTopicQuery src (Py.repaired s)) with
    | none =>
      rw [hentries] at hsame
      exact absurd hsame id
    | some entries =>
      rw [hentries] at hsame
      -- the entry is one of the Python build's, so its name is as kept there
      have hmem : (src, (⟨topic, s.topicNames.getD topic []⟩ : TopicDirEntry)) ∈ entries :=
        List.Perm.mem_iff hsame |>.mp
          (List.mem_map_of_mem (List.mem_map.mpr ⟨topic, htopic, rfl⟩))
      have hentry := queried_of_readings hentries hmem
      rw [queried_repaired] at hentry
      obtain ⟨topic', _, heq⟩ := List.mem_map.mp hentry
      obtain ⟨rfl, hname⟩ := TopicDirEntry.mk.inj heq
      exact hname
  · intro htext
    have hentries : queried (Py.repaired s) = queried s := by
      rw [queried_repaired]
      exact List.map_congr_left fun topic htopic => by rw [htext topic htopic]
    have hsends : Py.answerTopicQuery src (Py.repaired s) = answerTopicQuery src s := by
      rw [answerTopicQuery_chunks, hentries]
      rfl
    rw [hsends]
    refine ⟨Iff.rfl, ?_⟩
    rw [hcpp]
    exact List.Perm.refl _

end Relink.Rlcore
