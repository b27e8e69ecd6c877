import Relink.Crypto.Agree
import Relink.Rlcore.Answered
import Relink.Wire.Reply

/-! Turn by turn, the two builds of the daemon.

Both expire the same registrations, roles and members, as long as every listed peer has a time,
which the C++ tables keep (`InOrder`), and both open the same requests. Their tables differ in the
names alone: the Python build keeps a name as text, and what is no UTF-8 is replaced. `repaired`
are its tables. -/
namespace Relink.Rlcore
open LittleEndian Wire Crypto
open Std (ExtTreeMap ExtTreeSet)

/-! ### Expiry -/

namespace Py

theorem live_some (now t : Time) : live now (some t) = !stale now (some t) := by
  rw [Bool.eq_iff_iff, Bool.not_eq_true', ← Bool.not_eq_true, stale_some, not_lt]
  exact decide_eq_true_iff

theorem forget_here (topic : UInt32) (gone : List PeerEntry) (lastSeen : ExtTreeMap TopicPeer Time)
    (q : PeerEntry) : (gone.foldl (forget topic) lastSeen)[TopicPeer.mk topic q]? =
      if q ∈ gone then none else lastSeen[TopicPeer.mk topic q]? := by
  induction gone generalizing lastSeen with
  | nil => simp
  | cons p rest ih =>
    rw [List.foldl_cons, ih, forget, ExtTreeMap.getElem?_erase]
    by_cases hrest : q ∈ rest
    · rw [if_pos hrest, if_pos (List.mem_cons_of_mem p hrest)]
    · rw [if_neg hrest]
      by_cases heq : q = p
      · subst heq
        rw [if_pos Std.ReflOrd.compare_self, if_pos List.mem_cons_self]
      · have hne : ¬ compare (TopicPeer.mk topic p) (TopicPeer.mk topic q) = .eq := by
          rw [Std.compare_eq_iff_eq, TopicPeer.mk.injEq]
          exact fun h => heq h.2.symm
        rw [if_neg hne, if_neg fun h => (List.mem_cons.mp h).elim heq hrest]

/-- One topic's turn, where the topic is still as at the start and its peers have times. -/
theorem pruneTopic_eq (now : Time) {s : TableAndTimes} {entry : UInt32 × ExtTreeSet PeerEntry}
    (hpeers : s.1.getD entry.1 ∅ = entry.2)
    (hseen : ∀ q ∈ entry.2, (s.2[TopicPeer.mk entry.1 q]?).isSome) :
    Rlcore.pruneTopic now s entry = pruneTopic now s entry.1 := by
  have hlive : ∀ q ∈ entry.2, live now s.2[TopicPeer.mk entry.1 q]? =
      !stale now s.2[TopicPeer.mk entry.1 q]? := by
    intro q hq
    obtain ⟨t, ht⟩ := Option.isSome_iff_exists.mp (hseen q hq)
    rw [ht, live_some]
  have hkept : (prunePeers now entry.1 entry.2 s.2).1 =
      entry.2.filter fun p => live now s.2[TopicPeer.mk entry.1 p]? := by
    refine ExtTreeSet.ext_mem fun q => ?_
    rw [(prunePeers_here now entry.1 entry.2 s.2 q).1, ExtTreeSet.mem_filter]
    simp only [ExtTreeSet.get_eq, exists_prop]
    refine and_congr_right fun hq => ?_
    rw [hlive q hq, Bool.not_eq_true']
  have htimes : (prunePeers now entry.1 entry.2 s.2).2 =
      (entry.2.toList.filter fun p => !live now s.2[TopicPeer.mk entry.1 p]?).foldl
        (forget entry.1) s.2 := by
    refine ExtTreeMap.ext_getElem? fun k => ?_
    by_cases hk : k.topic = entry.1
    · obtain ⟨topic, q⟩ := k
      subst hk
      rw [(prunePeers_here now _ entry.2 s.2 q).2, forget_here]
      refine if_congr ?_ rfl rfl
      rw [List.mem_filter, ExtTreeSet.mem_toList]
      refine and_congr_right fun hq => ?_
      rw [hlive q hq, Bool.not_not]
    · rw [prunePeers_else now entry.1 entry.2 s.2 k hk, forget_else k entry.1 _ s.2 hk]
  simp only [Rlcore.pruneTopic, pruneTopic, hpeers, hkept, htimes]

theorem pruneTable_eq (now : Time) {table : ExtTreeMap UInt32 (ExtTreeSet PeerEntry)}
    {lastSeen : ExtTreeMap TopicPeer Time}
    (hseen : ∀ topic, ∀ p ∈ table.getD topic ∅, (lastSeen[TopicPeer.mk topic p]?).isSome) :
    Rlcore.pruneTable now table lastSeen = pruneTable now table lastSeen := by
  refine Sweep.foldl_keys
    (fun (t : UInt32) (s : TableAndTimes) =>
      (s.1.getD t ∅, fun q : PeerEntry => s.2[TopicPeer.mk t q]?)) (Rlcore.pruneTopic now)
    (pruneTopic now) (fun s entry t ht => ?_) table _ fun s entry hentry hview => ?_
  · obtain ⟨hpeers, htimes⟩ := Rlcore.pruneTopic_else now s entry ht
    exact Prod.ext hpeers (funext htimes)
  · have hpeers := Sweep.getD_of_mem hentry ∅
    obtain ⟨hhere, htimes⟩ := Prod.mk.inj hview
    refine pruneTopic_eq now (hhere.trans hpeers) fun q hq => ?_
    rw [congrFun htimes q]
    exact hseen entry.1 q (by rwa [hpeers])

theorem pruneRoles_eq (now : Time) (roleTable : ExtTreeMap TopicPeer UInt8)
    (roleLastSeen : ExtTreeMap TopicPeer Time) :
    Rlcore.pruneRoles now roleTable roleLastSeen = pruneRoles now roleTable roleLastSeen := by
  rw [Rlcore.pruneRoles, pruneRoles, List.foldl_map, List.foldl_filter]
  simp only [decide_eq_true_eq]
  rfl

theorem pruneMembers_eq (now : Time) (members : ExtTreeMap PeerEntry Time) :
    Rlcore.pruneMembers now members = pruneMembers now members := by
  rw [Rlcore.pruneMembers, pruneMembers, List.foldl_map, List.foldl_filter]
  simp only [decide_eq_true_eq]
  rfl

theorem pruneGroups_eq (now : Time) (groups : ExtTreeMap UInt32 (ExtTreeMap PeerEntry Time)) :
    Rlcore.pruneGroups now groups = pruneGroups now groups := by
  refine Sweep.foldl_keys
    (fun (t : UInt32) (g : ExtTreeMap UInt32 (ExtTreeMap PeerEntry Time)) => g.getD t ∅) _ _
    (fun g entry t ht => Sweep.getD_eraseOrInsert_of_ne g ht) groups groups
    fun g entry hentry hview => ?_
  simp only [hview, Sweep.getD_of_mem hentry, pruneMembers_eq]

/-- Both builds expire the same, where no listed peer lacks its time. -/
theorem pruneStale_eq (cfg : Config) (now : Time) {s : State}
    (hseen : ∀ topic p, s.Listed topic p → (s.lastSeen[TopicPeer.mk topic p]?).isSome) :
    Rlcore.pruneStale cfg now s = pruneStale cfg now s := by
  simp only [Rlcore.pruneStale, pruneStale, pruneTable_eq now hseen, pruneRoles_eq, pruneGroups_eq]

/-! ### The tables of the Python build -/

/-- A name as the Python build keeps it. -/
def repair (name : Bytes) : Bytes := utf8Replace name.length name

/-- The tables with the names as text. -/
def repaired (s : State) : State := {s with topicNames := s.topicNames.map fun _ name => repair name}

theorem repaired_pruneStale (cfg : Config) (now : Time) (s : State) :
    pruneStale cfg now (repaired s) = repaired (pruneStale cfg now s) := rfl

theorem repaired_enroll (now : Time) (self lan : PeerEntry) (topics : List UInt32) (s : State) :
    enroll now self lan topics (repaired s) = repaired (enroll now self lan topics s) := by
  have hfold : ∀ t : State, topics.foldl (enrollTopic now self) (repaired t) =
      repaired (topics.foldl (enrollTopic now self) t) := by
    induction topics with
    | nil => exact fun _ => rfl
    | cons topic rest ih => exact fun t => ih (enrollTopic now self t topic)
  exact hfold {s with lanOf := s.lanOf.insert self lan}

theorem ackPeers_repaired (s : State) (self : PeerEntry) (topics : List UInt32) :
    ackPeers (repaired s) self topics = ackPeers s self topics := rfl

theorem map_insert_repair (names : ExtTreeMap UInt32 Bytes) (topic : UInt32) (name : Bytes) :
    (names.map fun _ name => repair name).insert topic (repair name) =
      (names.insert topic name).map fun _ name => repair name := by
  refine ExtTreeMap.ext_getElem? fun k => ?_
  rw [ExtTreeMap.getElem?_insert, ExtTreeMap.getElem?_map, ExtTreeMap.getElem?_map,
    ExtTreeMap.getElem?_insert]
  split <;> rfl

theorem repaired_topicAnnounce (bytes : Bytes) (s : State) :
    handleTopicAnnounce bytes (repaired s) = repaired (Rlcore.handleTopicAnnounce bytes s) := by
  have hfold : ∀ (entries : List TopicDirEntry) (t : State),
      entries.foldl announceName (repaired t) = repaired {t with
        topicNames := entries.foldl (fun m e => m.insert e.topicId e.name) t.topicNames} := by
    intro entries
    induction entries with
    | nil => exact fun _ => rfl
    | cons e rest ih =>
      intro t
      have hhere : announceName (repaired t) e =
          repaired {t with topicNames := t.topicNames.insert e.topicId e.name} := by
        rw [announceName, repaired, repaired, ← map_insert_repair]
        rfl
      rw [List.foldl_cons, hhere, ih, List.foldl_cons]
  unfold handleTopicAnnounce Rlcore.handleTopicAnnounce
  cases decodeTopicDirEntries bytes with
  | none => rfl
  | some entries => exact hfold entries s

theorem repaired_roleAnnounce (now : Time) (src : PeerEntry) (bytes : Bytes) (s : State) :
    handleRoleAnnounce now src bytes (repaired s) =
      repaired (handleRoleAnnounce now src bytes s) := by
  have hfold : ∀ (entries : List RoleAnnounceEntry) (t : State),
      entries.foldl (announceRole now src) (repaired t) =
        repaired (entries.foldl (announceRole now src) t) := by
    intro entries
    induction entries with
    | nil => exact fun _ => rfl
    | cons e rest ih => exact fun t => ih (announceRole now src t e)
  unfold handleRoleAnnounce
  cases decodeRoleAnnounce bytes with
  | none => rfl
  | some entries => exact hfold entries s

/-! ### Requests and replies -/

theorem openRequest_eq (cfg : Config) {bytes : Bytes} (h : bytes.length ≤ kMaxDatagramBytes) :
    openRequest cfg bytes = Rlcore.openRequest cfg bytes := by
  unfold openRequest Rlcore.openRequest
  cases cfg.encryptKey with
  | none => rfl
  | some key => exact (Crypto.Py.aes256gcmOpen_eq key bytes (by omega)).symm

/-- Both read the same request from a datagram. -/
theorem readRequest_eq (cfg : Config) {bytes : Bytes} (h : bytes.length ≤ kMaxDatagramBytes) :
    (openRequest cfg bytes).bind decodeRegisterRequest =
      (readRequest cfg bytes).map fun req => (req.nodeIp, req.nodePort, req.topics) := by
  rw [openRequest_eq cfg h, readRequest]
  cases Rlcore.openRequest cfg bytes with
  | none => rfl
  | some data =>
    rw [Option.bind_some, decodeRegisterRequest_eq]
    cases hreq : Wire.decodeRegisterRequest data with
    | error e => simp only [hreq, Except.toOption, Option.map_none]
    | ok req => simp only [hreq, Except.toOption, Option.map_some]

/-- Both requesters read the same from a reply. -/
theorem readReply_eq (cfg : Config) {bytes : Bytes} (h : bytes.length ≤ kMaxDatagramBytes) :
    Rlcore.readReply cfg bytes = readReply cfg bytes := by
  unfold Rlcore.readReply readReply
  cases cfg.encryptKey with
  | none => rfl
  | some key => exact congrArg (Option.bind · readAck) (Crypto.Py.aes256gcmOpen_eq key bytes (by omega))

theorem trySend_some {dst : PeerEntry} {data : Bytes} (h : data.length ≤ kMaxDatagramBytes) :
    trySend dst (some data) = some (dst, data) := by
  rw [trySend, Option.bind_some, sendto, if_neg (by omega)]
  rfl

theorem forwardFrame_eq (d : Datagram) (topic : UInt32) (s : State)
    (h : d.bytes.length ≤ kMaxDatagramBytes) :
    forwardFrame d topic (repaired s) = Rlcore.forwardFrame d topic s := by
  rw [forwardFrame, Rlcore.forwardFrame, ← List.filterMap_eq_map]
  refine congrFun (congrArg List.filterMap (funext fun member => ?_)) _
  exact trySend_some h

theorem encodeReply_eq (chunk : List TopicDirEntry) (src : PeerEntry) :
    trySend src (encodeReply chunk) =
      (encodeTopicDirReply chunk kMaxDatagramBytes).map (src, ·) := by
  rw [encodeTopicDirReply_eq, encodeReply, ← nameReply]
  by_cases hcount : kTopicDirMaxEntries < chunk.length
  · rw [if_pos (Or.inl hcount), if_neg fun h => absurd h.1 (by omega)]
    rfl
  by_cases hnames : ∃ e ∈ chunk, kTopicDirMaxNameLen < e.name.length
  · obtain ⟨e, he, hlong⟩ := hnames
    rw [if_pos (Or.inr ⟨e, he, hlong⟩), if_neg fun h => absurd (h.2.1 e he) (by omega)]
    rfl
  rw [if_neg (not_or.mpr ⟨hcount, hnames⟩)]
  by_cases hlen : (nameReply chunk).length ≤ kMaxDatagramBytes
  · rw [trySend_some hlen, if_pos]
    · rfl
    · exact ⟨Nat.le_of_not_lt hcount, fun e he => Nat.le_of_not_lt fun h => hnames ⟨e, he, h⟩, hlen⟩
  · rw [if_neg fun h => hlen h.2.2, trySend, Option.bind_some, sendto, if_pos (by omega)]
    rfl

theorem encodeRoleReply_eq (chunk : List RolePeerEntry) (src : PeerEntry) :
    trySend src (encodeRoleReply chunk) =
      (Wire.encodeRoleReply chunk kMaxDatagramBytes).map (src, ·) := by
  rw [Wire.encodeRoleReply_eq, encodeRoleReply]
  by_cases hcount : kRoleMaxEntries < chunk.length
  · rw [if_pos hcount, if_neg (by omega)]
    rfl
  · have hlen := roleReply_length chunk
    rw [if_neg hcount, if_pos (Nat.le_of_not_lt hcount)]
    refine trySend_some (le_of_eq_of_le hlen ?_)
    simp only [kRoleMaxEntries, kDirHeaderLen, kMaxDatagramBytes] at hcount ⊢
    omega

theorem answerRoleQuery_eq (src : PeerEntry) (s : State) :
    answerRoleQuery src (repaired s) = Rlcore.answerRoleQuery src s := by
  simp only [answerRoleQuery, Rlcore.answerRoleQuery, encodeRoleReply_eq]
  rfl

end Py

/-! ### What the C++ tables keep -/

/-- Every listed peer has a time, and every name is short enough for a reply. -/
structure InOrder (s : State) : Prop where
  seen : ∀ topic p, s.Listed topic p → (s.lastSeen[TopicPeer.mk topic p]?).isSome
  names : ∀ (topic : UInt32) (name : Bytes), s.topicNames[topic]? = some name → name.length ≤ kTopicDirMaxNameLen

theorem inOrder_init : InOrder {} where
  seen topic p h := by simp [State.Listed, State.peersOf] at h
  names topic name h := by simp at h

variable {cfg : Config} {s : State}

theorem InOrder.prune (hs : InOrder s) (cfg : Config) (now : Time) : InOrder (pruneStale cfg now s) where
  seen topic p h := by
    obtain ⟨hlisted, hfresh⟩ := (listed_pruneStale cfg now s topic p).mp h
    rw [lastSeen_pruneStale, if_neg (by simp [hfresh])]
    exact hs.seen topic p hlisted
  names := hs.names

theorem InOrder.enroll (hs : InOrder s) (now : Time) (self lan : PeerEntry) (topics : List UInt32) :
    InOrder (enroll now self lan topics s) where
  seen topic p h := by
    rw [enroll_lastSeen]
    split
    · rfl
    · next hself => exact hs.seen topic p (((enroll_listed ..).mp h).resolve_right hself)
  names := by
    rw [(enroll_others now self lan topics s).2.2.2]
    exact hs.names

/-- A name is preceded by its length in one byte. -/
theorem decodeEntries_names {count : Nat} {buf rest : Bytes} {entries : List TopicDirEntry}
    (h : decodeEntries count buf = some (entries, rest)) :
    ∀ e ∈ entries, e.name.length ≤ kTopicDirMaxNameLen := by
  induction count generalizing buf entries with
  | zero =>
    cases h
    intro e he
    cases he
  | succ count ih =>
    unfold decodeEntries at h
    split at h
    · cases h
    simp only at h
    split at h
    · cases h
    obtain ⟨r, hr, heq⟩ := Option.map_eq_some_iff.mp h
    obtain ⟨es, rest'⟩ := r
    cases heq
    refine List.forall_mem_cons.mpr ⟨?_, ih hr⟩
    have hbyte := (buf.getD 4 0).toNat_lt
    rw [List.length_take, kTopicDirMaxNameLen]
    omega

theorem InOrder.topicAnnounce (hs : InOrder s) (bytes : Bytes) : InOrder (handleTopicAnnounce bytes s) := by
  unfold handleTopicAnnounce
  cases hentries : decodeTopicDirEntries bytes with
  | none => exact hs
  | some entries =>
    have hnames : ∀ e ∈ entries, e.name.length ≤ kTopicDirMaxNameLen := by
      unfold decodeTopicDirEntries at hentries
      split at hentries
      · cases hentries
      simp only at hentries
      split at hentries
      · cases hentries
      split at hentries
      · next hdecode =>
        cases hentries
        exact decodeEntries_names hdecode
      · cases hentries
    refine ⟨hs.seen, ?_⟩
    refine Transition.foldl_invariant
      (fun m : ExtTreeMap UInt32 Bytes => ∀ (topic : UInt32) (name : Bytes), m[topic]? = some name →
        name.length ≤ kTopicDirMaxNameLen)
      (fun e : TopicDirEntry => e.name.length ≤ kTopicDirMaxNameLen) _ (fun m e hm he => ?_)
      entries s.topicNames hs.names hnames
    intro topic name hget
    rw [ExtTreeMap.getElem?_insert] at hget
    split at hget
    · cases hget
      exact he
    · exact hm topic name hget

theorem InOrder.handle (hs : InOrder s) (cfg : Config) (now : Time) (nonce : Nonce) (d : Datagram) :
    InOrder (handle cfg now nonce d s).1 := by
  unfold Rlcore.handle
  split
  · exact hs.topicAnnounce d.bytes
  · exact hs
  · exact hs
  · unfold handleRoleAnnounce
    split
    · exact hs
    · exact Transition.foldl_invariant InOrder (fun _ => True) (announceRole now d.src)
        (fun t _ ht _ => ⟨ht.seen, ht.names⟩) _ s hs fun _ _ => trivial
  · exact hs
  · exact hs
  · exact ⟨hs.seen, hs.names⟩
  · exact hs
  · unfold handleRegistration
    split
    · exact hs
    · exact hs.enroll ..

theorem InOrder.step (hs : InOrder s) (cfg : Config) (turn : Turn) : InOrder (step cfg s turn).1 := by
  have hpruned := hs.prune cfg turn.pruneAt
  unfold Rlcore.step
  simp only
  split
  · exact hpruned
  · split
    · exact hpruned
    · exact hpruned.handle ..

end Relink.Rlcore
