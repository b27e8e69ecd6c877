import Relink.Discovery.Multicast
import Relink.Rlcore.Agree

/-! What a multicast node answers a name query with.

A node keeps the names it has hashed to topic ids, and `rl_topic` asks every node on the group for
them. The reply is the whole registry in one packet: neither build chunks it here. The C++ encoder
has a buffer as long as what `rl_topic` takes of a packet, and the Python one sends more than that,
which `rl_topic` then cuts. -/
namespace Relink.Discovery
open LittleEndian Wire
open Rlcore (Build PeerEntry Send Datagram kListenerBufBytes)
open Std (ExtTreeMap)

/-! ### The registry -/

def kNatPunchTopicId : UInt32 := 0xFFFFFFFF

def fnv1a32 (name : Bytes) : UInt32 :=
  name.foldl (fun hash b => (hash ^^^ b.toUInt32) * 0x01000193) 0x811C9DC5

inductive TopicNameError where
  | reservedId (name : Bytes)
  | hashCollision (existing name : Bytes) (id : UInt32)
deriving DecidableEq, Repr

def TopicNameError.what : TopicNameError → Bytes
  | .reservedId name =>
    utf8 "ReLink: topic name \"" ++ name ++
      utf8 "\" hashes to the reserved NAT-punch topic id -- pick a different name"
  | .hashCollision existing name id =>
    utf8 "ReLink: topic hash collision between \"" ++ existing ++ utf8 "\" and \"" ++ name ++
      utf8 "\" (both hash to " ++ utf8 (toString id) ++ utf8 ")"

/-- `topic_id_for`, on the names so far. -/
def topicIdFor (names : List TopicDirEntry) (name : Bytes) :
    Except TopicNameError (List TopicDirEntry × UInt32) :=
  let id := fnv1a32 name
  if id = kNatPunchTopicId then .error (.reservedId name)
  else match names.find? (·.topicId = id) with
    | some e => if e.name ≠ name then .error (.hashCollision e.name name id) else .ok (names, id)
    | none => .ok (names ++ [⟨id, name⟩], id)

/-- A call that throws leaves the names as they are. -/
def nameTopic (names : List TopicDirEntry) (name : Bytes) : List TopicDirEntry :=
  match topicIdFor names name with
  | .ok r => r.1
  | .error _ => names

/-- The names after some calls. -/
def registry (calls : List Bytes) : List TopicDirEntry := calls.foldl nameTopic []

/-! ### Query and reply -/

/-- What a listener takes of a datagram. -/
def listenerBuf : Build → Bytes → Bytes
  | .cpp, datagram => datagram.take kListenerBufBytes
  | .python, datagram => datagram.take (max 512 kTopicDirMaxPacket)

def encodeNames : Build → PeerEntry → List TopicDirEntry → Option Send
  | .cpp, src, entries => (encodeTopicDirReply entries kTopicDirMaxPacket).map (src, ·)
  | .python, src, entries => Rlcore.Py.trySend src (Rlcore.Py.encodeReply entries)

/-- `listener_loop` on a query; `entries` are what the provider lists, in the order of its table. -/
def answerNameQuery (build : Build) (entries : List TopicDirEntry) (d : Datagram) : List Send :=
  match topicDirPacketKind (listenerBuf build d.bytes) with
  | .query => (encodeNames build d.src entries).toList
  | _ => []

/-- The table that `query_multicast` fills from what arrives; an empty datagram ends it. -/
def collect (datagrams : List Bytes) : ExtTreeMap UInt32 Bytes :=
  (datagrams.takeWhile (· ≠ [])).foldl
    (fun out datagram =>
      match readNames (datagram.take kTopicDirMaxPacket) with
      | none => out
      | some entries => entries.foldl (fun out e => out.insert e.topicId e.name) out) ∅

/-- What `rl_topic` collects of the answer is the registry. -/
def Complete (build : Build) (entries : List TopicDirEntry) (d : Datagram) : Prop :=
  ∀ (topic : UInt32) (name : Bytes),
    (collect ((answerNameQuery build entries d).map (·.2)))[topic]? = some name ↔
      TopicDirEntry.mk topic name ∈ entries

/-! ### What the registry keeps -/

structure Named (calls : List Bytes) (names : List TopicDirEntry) : Prop where
  ids : (names.map (·.topicId)).Nodup
  hashed : ∀ e ∈ names, e.topicId = fnv1a32 e.name
  called : ∀ e ∈ names, e.name ∈ calls

theorem Named.name {calls : List Bytes} {names : List TopicDirEntry} (h : Named calls names)
    (name : Bytes) : Named (calls ++ [name]) (nameTopic names name) := by
  have hkeep : Named (calls ++ [name]) names :=
    ⟨h.ids, h.hashed, fun e he => List.mem_append_left _ (h.called e he)⟩
  unfold nameTopic topicIdFor
  simp only
  by_cases hreserved : fnv1a32 name = kNatPunchTopicId
  · rw [if_pos hreserved]
    exact hkeep
  rw [if_neg hreserved]
  cases hfind : names.find? (·.topicId = fnv1a32 name) with
  | some e =>
    by_cases hname : e.name ≠ name
    · simp only [if_pos hname]
      exact hkeep
    · simp only [if_neg hname]
      exact hkeep
  | none =>
    have hfresh : ∀ e ∈ names, e.topicId ≠ fnv1a32 name := by
      simpa using List.find?_eq_none.mp hfind
    refine ⟨?_, fun e he => ?_, fun e he => ?_⟩
    · simp only [List.map_append, List.map_singleton]
      rw [List.nodup_append]
      refine ⟨h.ids, List.nodup_singleton _, fun i hi j hj heq => ?_⟩
      obtain ⟨e, he, rfl⟩ := List.mem_map.mp hi
      exact hfresh e he (heq.trans (List.mem_singleton.mp hj))
    · rcases List.mem_append.mp he with he | he
      · exact h.hashed e he
      · rw [List.mem_singleton.mp he]
    · rcases List.mem_append.mp he with he | he
      · exact List.mem_append_left _ (h.called e he)
      · rw [List.mem_singleton.mp he]
        exact List.mem_append_right _ List.mem_cons_self

theorem registry_named (calls : List Bytes) : Named calls (registry calls) := by
  induction calls using List.reverseRecOn with
  | nil => exact ⟨List.nodup_nil, fun e he => absurd he List.not_mem_nil,
      fun e he => absurd he List.not_mem_nil⟩
  | append_singleton calls name ih =>
    rw [registry, List.foldl_append]
    exact ih.name name

/-! ### What is collected -/

theorem topicDirPacketKind_take (buf : Bytes) {limit : Nat} (hlimit : kTopicDirMagicLen ≤ limit) :
    topicDirPacketKind (buf.take limit) = topicDirPacketKind buf := by
  have hshort : (buf.take limit).length < kTopicDirMagicLen ↔ buf.length < kTopicDirMagicLen := by
    rw [List.length_take]
    omega
  rw [topicDirPacketKind, topicDirPacketKind, packetKind, packetKind, List.take_take,
    Nat.min_eq_left hlimit]
  exact if_congr hshort rfl rfl

theorem listenerBuf_kind (build : Build) (buf : Bytes) :
    topicDirPacketKind (listenerBuf build buf) = topicDirPacketKind buf := by
  cases build with
  | cpp => exact topicDirPacketKind_take buf (by decide)
  | python => exact topicDirPacketKind_take buf (by decide)

/-- How much either build sends. -/
def replyLimit : Build → Nat
  | .cpp => kTopicDirMaxPacket
  | .python => kMaxDatagramBytes

variable {entries : List TopicDirEntry}

theorem encodeNames_eq (build : Build) (src : PeerEntry)
    (hnames : ∀ e ∈ entries, e.name.length ≤ kTopicDirMaxNameLen) :
    encodeNames build src entries =
      if entries.length ≤ kTopicDirMaxEntries ∧ (nameReply entries).length ≤ replyLimit build
      then some (src, nameReply entries) else none := by
  have hencode : encodeNames build src entries =
      (encodeTopicDirReply entries (replyLimit build)).map (src, ·) := by
    cases build with
    | cpp => rfl
    | python => exact Rlcore.Py.encodeReply_eq entries src
  rw [hencode, encodeTopicDirReply_iff (by cases build <;> decide)]
  have hfits : (entries.length ≤ kTopicDirMaxEntries ∧
      (∀ e ∈ entries, e.name.length ≤ kTopicDirMaxNameLen) ∧
        (nameReply entries).length ≤ replyLimit build) ↔
      entries.length ≤ kTopicDirMaxEntries ∧ (nameReply entries).length ≤ replyLimit build :=
    and_congr_right fun _ => and_iff_right hnames
  rw [if_congr hfits rfl rfl]
  split <;> rfl

/-- One reply, as far as it can be read. -/
theorem collect_reply (hids : (entries.map (·.topicId)).Nodup)
    (hcount : entries.length ≤ kTopicDirMaxEntries)
    (hnames : ∀ e ∈ entries, e.name.length ≤ kTopicDirMaxNameLen) (topic : UInt32) (name : Bytes) :
    (collect [nameReply entries])[topic]? = some name ↔
      (nameReply entries).length ≤ kTopicDirMaxPacket ∧ TopicDirEntry.mk topic name ∈ entries := by
  have hnonempty : nameReply entries ≠ [] := by
    rw [← List.length_pos_iff, nameReply_length, chunkLen, kDirHeaderLen]
    omega
  have hall : [nameReply entries].takeWhile (· ≠ []) = [nameReply entries] := by
    simp [hnonempty]
  rw [collect, hall, List.foldl_cons, List.foldl_nil]
  by_cases hlen : (nameReply entries).length ≤ kTopicDirMaxPacket
  · simp only [List.take_of_length_le hlen, readNames_nameReply hcount hnames, hlen, if_true,
      true_and]
    rw [Sweep.insertAll_iff TopicDirEntry.topicId TopicDirEntry.name hids]
    constructor
    · rintro ⟨e, he, rfl, rfl⟩
      exact he
    · intro h
      exact ⟨_, h, rfl, rfl⟩
  · simp only [readNames_cut hcount hnames (by decide) (Nat.lt_of_not_le hlen), hlen, false_and,
      ExtTreeMap.getElem?_empty, reduceCtorEq]

/-- The answer is complete exactly if the registry goes into one packet. -/
theorem complete_iff (build : Build) (hids : (entries.map (·.topicId)).Nodup)
    (hnames : ∀ e ∈ entries, e.name.length ≤ kTopicDirMaxNameLen) {d : Datagram}
    (hquery : topicDirPacketKind d.bytes = .query) :
    Complete build entries d ↔
      entries.length ≤ kTopicDirMaxEntries ∧ (nameReply entries).length ≤ kTopicDirMaxPacket := by
  have hanswer : answerNameQuery build entries d = (encodeNames build d.src entries).toList := by
    rw [answerNameQuery, listenerBuf_kind, hquery]
  rw [Complete, hanswer, encodeNames_eq build d.src hnames]
  have hlimit : kTopicDirMaxPacket ≤ replyLimit build := by
    cases build <;> decide
  -- an answer that is not sent is complete only for an empty registry, which is short
  have hnothing : ¬ (entries.length ≤ kTopicDirMaxEntries ∧
      (nameReply entries).length ≤ kTopicDirMaxPacket) → entries ≠ [] := by
    rintro hlong rfl
    exact hlong (by decide)
  by_cases hsent : entries.length ≤ kTopicDirMaxEntries ∧
      (nameReply entries).length ≤ replyLimit build
  · rw [if_pos hsent]
    simp only [Option.toList_some, List.map_singleton, collect_reply hids hsent.1 hnames]
    constructor
    · intro h
      by_contra hlong
      obtain ⟨e, he⟩ := List.exists_mem_of_ne_nil _ (hnothing hlong)
      exact hlong ⟨hsent.1, ((h e.topicId e.name).mpr he).1⟩
    · rintro ⟨-, hlen⟩ topic name
      exact and_iff_right hlen
  · rw [if_neg hsent]
    refine iff_of_false (fun h => ?_) fun h => hsent ⟨h.1, h.2.trans hlimit⟩
    obtain ⟨e, he⟩ := List.exists_mem_of_ne_nil _ (hnothing fun h => hsent ⟨h.1, h.2.trans hlimit⟩)
    have hcollected := (h e.topicId e.name).mpr he
    simp [collect] at hcollected

/-- **A name query is answered completely** exactly if the registry has at most 512 names and all
of it goes into a packet of 8192 bytes, whatever the order in which it is listed. -/
theorem names_complete_iff (build : Build) (calls : List Bytes)
    (hshort : ∀ name ∈ calls, name.length ≤ kTopicDirMaxNameLen) (entries : List TopicDirEntry)
    (hlisted : entries.Perm (registry calls)) (d : Datagram)
    (hquery : topicDirPacketKind d.bytes = .query) :
    Complete build entries d ↔
      (registry calls).length ≤ kTopicDirMaxEntries ∧
        kDirHeaderLen + ((registry calls).map fun e => 5 + e.name.length).sum ≤
          kTopicDirMaxPacket := by
  have hnamed := registry_named calls
  have hnames : ∀ e ∈ entries, e.name.length ≤ kTopicDirMaxNameLen := fun e he =>
    hshort e.name (hnamed.called e (hlisted.mem_iff.mp he))
  rw [complete_iff build ((hlisted.map _).nodup_iff.mpr hnamed.ids) hnames hquery, hlisted.length_eq,
    nameReply_length, chunkLen, (hlisted.map nameLen).sum_nat]
  rfl

/-- Three names, one of them asked for twice, which the table lists in another order. -/
theorem names_complete_iff_three :
    let calls : List Bytes := [[0x61], [0x62, 0x63], [0x61], []]
    let entries := (registry calls).reverse
    entries ≠ registry calls ∧ entries.length = 3 ∧
      Complete .cpp entries ⟨⟨9, 9⟩, kTopicDirQueryMagic⟩ ∧
      Complete .python entries ⟨⟨9, 9⟩, kTopicDirQueryMagic⟩ := by
  intro calls entries
  have hcomplete := fun build => (names_complete_iff build calls (by decide) entries
    (List.reverse_perm _) ⟨⟨9, 9⟩, kTopicDirQueryMagic⟩ (by decide)).mpr (by decide)
  exact ⟨by decide, by decide, hcomplete .cpp, hcomplete .python⟩

/-- Thirty-two names of 255 bytes. -/
def longNames : List Bytes := (List.range 32).map fun k => List.replicate 254 0x61 ++ [UInt8.ofNat k]

theorem longNames_incomplete : ¬ ∀ (build : Build) (calls : List Bytes),
    (∀ name ∈ calls, name.length ≤ kTopicDirMaxNameLen) →
      ∀ entries : List TopicDirEntry, entries.Perm (registry calls) → ∀ d : Datagram,
        topicDirPacketKind d.bytes = .query → Complete build entries d := by
  intro h
  have hnamed := registry_named longNames
  have hshort : ∀ name ∈ longNames, name.length ≤ kTopicDirMaxNameLen := by decide +kernel
  have hcomplete := h .cpp longNames hshort _ (List.Perm.refl _)
    ⟨⟨9, 9⟩, kTopicDirQueryMagic⟩ (by decide)
  rw [complete_iff .cpp hnamed.ids (fun e he => hshort e.name (hnamed.called e he)) (by decide)]
    at hcomplete
  revert hcomplete
  decide +kernel

end Relink.Discovery
