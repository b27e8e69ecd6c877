import Mathlib.Data.List.TakeWhile
import Relink.Discovery.Announce
import Relink.Rlcore.Directory
import Relink.Rlcore.Fleet

/-! The list of a fleet's topics.

Nodes tell rlcore the names of their topics in chunked announces, and `rl_topic list` asks rlcore
for all of them and collects the replies, in whatever order they come. When every node has sent
its topics and its names, the list has each topic of the fleet, under the name that its nodes have
for it, and nothing else. -/
namespace Relink.Discovery
open Wire Transition
open Rlcore (Build Fleet Site SiteEvent Group PeerEntry Time Turn State Send)
open Std (ExtTreeMap)

/-! ### The tool -/

/-- A name as the tool has it: Python decodes it, with replacement. -/
def shownName : Build → Bytes → Bytes
  | .cpp, name => name
  | .python, name => Rlcore.Py.repair name

/-- The turn of the loop of `query_rlcore` for what arrives: anything but a reply is skipped. -/
def collectReply (tool : Build) (out : ExtTreeMap UInt32 Bytes) (datagram : Bytes) :
    ExtTreeMap UInt32 Bytes :=
  match readNames (datagram.take kTopicDirMaxPacket) with
  | none => out
  | some entries => entries.foldl (fun out e => out.insert e.topicId (shownName tool e.name)) out

/-- `query_rlcore`, of what comes before the socket times out. The C++ loop takes an empty datagram
for that. -/
def queryRlcore (tool : Build) (datagrams : List Bytes) : ExtTreeMap UInt32 Bytes :=
  match tool with
  | .cpp => (datagrams.takeWhile (· ≠ [])).foldl (collectReply .cpp) ∅
  | .python => datagrams.foldl (collectReply .python) ∅

/-- What others may send to the tool's socket meanwhile. -/
def Noise (tool : Build) (datagram : Bytes) : Prop :=
  readNames (datagram.take kTopicDirMaxPacket) = none ∧ (tool = .cpp → datagram ≠ [])

instance (tool : Build) (datagram : Bytes) : Decidable (Noise tool datagram) :=
  inferInstanceAs (Decidable (_ ∧ (_ → _)))

/-! ### The fleet's names -/

/-- What each node calls its topics. No name is too long for an announce, and no two have one
hash. -/
structure Vocabulary (ι : Type) where
  calls : ι → List Bytes
  /-- The registry, in the order of the node's table. -/
  names : ι → List TopicDirEntry
  registered : ∀ i, (names i).Perm (registry (calls i))
  short : ∀ i, ∀ name ∈ calls i, name.length ≤ kTopicDirMaxNameLen
  apart : ∀ i j, ∀ name ∈ calls i, ∀ name' ∈ calls j, fnv1a32 name = fnv1a32 name' → name = name'

namespace Vocabulary
variable {ι : Type} (N : Vocabulary ι)

/-- Some node has the name for the topic. -/
def Given (topic : UInt32) (name : Bytes) : Prop := ∃ i, ⟨topic, name⟩ ∈ N.names i

/-- The name under which the topic is to be listed: its own, or an empty one. -/
def Listed (topic : UInt32) (name : Bytes) : Prop :=
  N.Given topic name ∨ (∀ name', ¬N.Given topic name') ∧ name = []

theorem named {i : ι} {e : TopicDirEntry} (he : e ∈ N.names i) :
    e.topicId = fnv1a32 e.name ∧ e.name ∈ N.calls i := by
  have hnamed := registry_named (N.calls i)
  have hmem := (N.registered i).mem_iff.mp he
  exact ⟨hnamed.hashed e hmem, hnamed.called e hmem⟩

theorem Given.unique {topic : UInt32} {name name' : Bytes} (h : N.Given topic name)
    (h' : N.Given topic name') : name = name' := by
  obtain ⟨i, he⟩ := h
  obtain ⟨j, he'⟩ := h'
  obtain ⟨hhash, hcalled⟩ := N.named he
  obtain ⟨hhash', hcalled'⟩ := N.named he'
  exact N.apart i j _ hcalled _ hcalled' (hhash.symm.trans hhash')

theorem names_short {i : ι} {e : TopicDirEntry} (he : e ∈ N.names i) : Short e :=
  N.short i e.name (N.named he).2

variable (F : Fleet ι)

/-- Only the nodes announce names, and only theirs. -/
def Announces : SiteEvent ι → Prop
  | .turn turn => ∀ d ∈ turn.datagram, topicDirPacketKind d.bytes = .announce →
    ∃ i, d.bytes ∈ announceTopicNamesToRlcore (F.build i) (N.names i)
  | _ => True

instance [Fintype ι] (e : SiteEvent ι) : Decidable (N.Announces F e) :=
  match e with
  | .turn turn => inferInstanceAs (Decidable (∀ d ∈ turn.datagram, _))
  | .wake .. => .isTrue trivial
  | .call .. => .isTrue trivial

/-- The daemon has had all the announces of every node. -/
def AllAnnounced (events : List (SiteEvent ι)) : Prop :=
  ∀ i, ∀ bytes ∈ announceTopicNamesToRlcore (F.build i) (N.names i),
    ∃ turn, .turn turn ∈ events ∧ ∃ src, turn.datagram = some ⟨src, bytes⟩

end Vocabulary

/-! ### What the tool collects -/

/-- The entries of a datagram, if it is a reply. -/
def replied (datagram : Bytes) : List TopicDirEntry :=
  (readNames (datagram.take kTopicDirMaxPacket)).getD []

theorem collectReply_eq (tool : Build) (out : ExtTreeMap UInt32 Bytes) (datagram : Bytes) :
    collectReply tool out datagram = (replied datagram).foldl
      (fun out e => out.insert e.topicId (shownName tool e.name)) out := by
  unfold collectReply replied
  cases readNames (datagram.take kTopicDirMaxPacket) <;> rfl

/-- The tool's table is filled from the entries of all that it takes. -/
theorem queryRlcore_eq {tool : Build} {datagrams : List Bytes}
    (hnonempty : ∀ d ∈ datagrams, tool = .cpp → d ≠ []) :
    queryRlcore tool datagrams = (datagrams.flatMap replied).foldl
      (fun out e => out.insert e.topicId (shownName tool e.name)) ∅ := by
  have hfold : ∀ tool, datagrams.foldl (collectReply tool) ∅ = (datagrams.flatMap replied).foldl
      (fun out e => out.insert e.topicId (shownName tool e.name)) ∅ := by
    intro tool
    rw [List.foldl_flatMap]
    congr 1
    funext out datagram
    exact collectReply_eq tool out datagram
  cases tool with
  | python => exact hfold .python
  | cpp =>
    have hall : datagrams.takeWhile (· ≠ []) = datagrams :=
      List.takeWhile_eq_self_iff.mpr fun d hd => decide_eq_true (hnonempty d hd rfl)
    rw [queryRlcore, hall]
    exact hfold .cpp

/-- A reply that can be read fits the tool's buffer. -/
theorem readNames_fits {bytes : Bytes} {entries : List TopicDirEntry}
    (h : readNames bytes = some entries) : bytes.take kTopicDirMaxPacket = bytes ∧ bytes ≠ [] := by
  unfold readNames at h
  split at h
  · unfold decodeTopicDirEntries at h
    split at h
    · cases h
    · next hlen =>
      rw [not_or, Nat.not_lt, Nat.not_lt] at hlen
      refine ⟨List.take_of_length_le hlen.2, ?_⟩
      rintro rfl
      exact absurd hlen.1 (by decide)
  · cases h

theorem readings_replied {sends : List Send} {entries : List (PeerEntry × TopicDirEntry)}
    (h : Rlcore.readings readNames sends = some entries) :
    (sends.map (·.2)).flatMap replied = entries.map (·.2) ∧ ∀ send ∈ sends, send.2 ≠ [] := by
  induction sends generalizing entries with
  | nil =>
    cases h
    exact ⟨rfl, fun send hsend => absurd hsend List.not_mem_nil⟩
  | cons send rest ih =>
    unfold Rlcore.readings at h
    split at h
    · next es more hread hmore =>
      cases h
      obtain ⟨hrest, hnonempty⟩ := ih hmore
      obtain ⟨htake, hne⟩ := readNames_fits hread
      refine ⟨?_, List.forall_mem_cons.mpr ⟨hne, hnonempty⟩⟩
      have hmap : (es.map (send.1, ·)).map (·.2) = es := by
        rw [List.map_map]
        exact List.map_id _
      rw [List.map_cons, List.flatMap_cons, hrest, List.map_append, hmap, replied, htake, hread,
        Option.getD_some]
    · cases h

/-- Whatever the order and whatever comes between, the tool has what the replies list. -/
theorem queryRlcore_iff {tool : Build} {arrivals noise : List Bytes} {sends : List Send}
    {entries : List (PeerEntry × TopicDirEntry)} (hreadings : Rlcore.readings readNames sends = some entries)
    (hnodup : ((entries.map (·.2)).map (·.topicId)).Nodup)
    (harrivals : arrivals.Perm (sends.map (·.2) ++ noise)) (hnoise : ∀ d ∈ noise, Noise tool d)
    (topic : UInt32) (shown : Bytes) :
    (queryRlcore tool arrivals)[topic]? = some shown ↔
      ∃ name, ⟨topic, name⟩ ∈ entries.map (·.2) ∧ shown = shownName tool name := by
  obtain ⟨hreplied, hreplies⟩ := readings_replied hreadings
  have hskipped : noise.flatMap replied = [] := by
    rw [List.flatMap_eq_nil_iff]
    intro d hd
    rw [replied, (hnoise d hd).1]
    rfl
  have hentries : (arrivals.flatMap replied).Perm (entries.map (·.2)) := by
    have hperm := harrivals.flatMap_right replied
    rwa [List.flatMap_append, hskipped, List.append_nil, hreplied] at hperm
  have hnonempty : ∀ d ∈ arrivals, tool = .cpp → d ≠ [] := by
    intro d hd htool
    rcases List.mem_append.mp (harrivals.mem_iff.mp hd) with hd | hd
    · obtain ⟨send, hsend, rfl⟩ := List.mem_map.mp hd
      exact hreplies send hsend
    · exact (hnoise d hd).2 htool
  rw [queryRlcore_eq hnonempty, Sweep.insertAll_iff TopicDirEntry.topicId
    (fun e => shownName tool e.name) ((hentries.map _).nodup_iff.mpr hnodup)]
  constructor
  · rintro ⟨e, he, rfl, rfl⟩
    exact ⟨e.name, hentries.mem_iff.mp he, rfl⟩
  · rintro ⟨name, he, rfl⟩
    exact ⟨⟨topic, name⟩, hentries.mem_iff.mpr he, rfl, rfl⟩

/-! ### Announces -/

/-- An announce that a node sends is read as some of its names. -/
theorem readAnnounce_sent {build : Build} {entries : List TopicDirEntry} {bytes : Bytes}
    (h : bytes ∈ announceTopicNamesToRlcore build entries) :
    ∃ es, readAnnounce bytes = some es ∧ es ⊆ entries := by
  unfold announceTopicNamesToRlcore at h
  split at h
  · cases h
  obtain ⟨chunk, hchunk, hencode⟩ := List.mem_filterMap.mp h
  rw [encodeAnnounce_eq build hchunk] at hencode
  split at hencode
  · next hshort =>
    cases hencode
    refine ⟨chunk, readAnnounce_namePacket hchunk hshort, fun e he => ?_⟩
    rw [← chunkTopicDirEntries_flatten entries]
    exact List.mem_flatten.mpr ⟨chunk, hchunk, he⟩
  · cases hencode

/-- Short names are all announced. -/
theorem mem_announce {build : Build} {entries : List TopicDirEntry} {e : TopicDirEntry}
    (hshort : ∀ e ∈ entries, Short e) (he : e ∈ entries) :
    ∃ bytes ∈ announceTopicNamesToRlcore build entries, ∃ es, readAnnounce bytes = some es ∧
      e ∈ es := by
  rw [announced_iff]
  rw [← chunkTopicDirEntries_flatten entries] at he
  obtain ⟨chunk, hchunk, he⟩ := List.mem_flatten.mp he
  refine ⟨chunk, hchunk, fun e he => hshort e ?_, he⟩
  rw [← chunkTopicDirEntries_flatten entries]
  exact List.mem_flatten.mpr ⟨chunk, hchunk, he⟩

theorem dispatch_announce_iff (relayMode : Bool) (bytes : Bytes) :
    Rlcore.dispatch relayMode bytes = .topicAnnounce ↔ topicDirPacketKind bytes = .announce := by
  unfold Rlcore.dispatch
  cases topicDirPacketKind bytes with
  | announce => simp only
  | query => simp only [reduceCtorEq]
  | reply => simp only [reduceCtorEq]
  | unknown =>
    simp only [Rlcore.roleDispatch, Rlcore.relayDispatch, reduceCtorEq, iff_false]
    repeat' split
    all_goals simp only [reduceCtorEq, not_false_eq_true]

/-- What the daemon takes from a datagram. -/
theorem announcedIn_eq {cfg : Rlcore.Config} {turn : Turn} {d : Rlcore.Datagram}
    (hd : turn.datagram = some d) :
    Rlcore.announcedIn cfg turn = (readAnnounce d.bytes).getD [] := by
  unfold Rlcore.announcedIn readAnnounce
  rw [hd]
  simp only [dispatch_announce_iff]
  by_cases hkind : topicDirPacketKind d.bytes = .announce
  · have hne : d.bytes ≠ [] := by
      intro hnil
      rw [hnil] at hkind
      cases hkind
    rw [if_pos ⟨hne, hkind⟩, if_pos hkind]
  · rw [if_neg fun h => hkind h.2, if_neg hkind]
    rfl

/-! ### The daemon's names -/

section
variable {ι : Type} {F : Fleet ι} {n : Site ι} {N : Vocabulary ι}

/-- The names that the daemon takes at an event. -/
def heardAt (F : Fleet ι) : SiteEvent ι → List TopicDirEntry
  | .turn turn => Rlcore.announcedIn F.cfg turn
  | _ => []

/-- What an event does to the daemon is at most a turn. -/
theorem step_daemon [DecidableEq ι] {e : SiteEvent ι} (hallowed : F.Allowed n e) :
    (F.step n e).rlcore = n.rlcore ∧ heardAt F e = [] ∨ ∃ turn,
      (F.step n e).rlcore = (Rlcore.step F.cfg n.rlcore turn).1 ∧
        Rlcore.announcedIn F.cfg turn = heardAt F e := by
  cases e with
  | turn turn => exact Or.inr ⟨turn, rfl, rfl⟩
  | wake i delay => exact Or.inl ⟨rfl, rfl⟩
  | call i g fate =>
    obtain ⟨-, hcall⟩ := hallowed
    have hrlcore : (F.step n (.call i g fate)).rlcore = (F.called n i g fate).rlcore := rfl
    rw [hrlcore, (Fleet.called_daemon n i g fate).1]
    cases hx : fate.exchange? with
    | none => exact Or.inl ⟨rfl, rfl⟩
    | some x =>
      simp only [Option.elim_some, Fleet.step_call]
      cases hsends : F.sends n i g with
      | none => exact Or.inl ⟨rfl, rfl⟩
      | some topics =>
        refine Or.inr ⟨x.turn (F.world n i) g, rfl, ?_⟩
        have hdispatch := ((hcall topics hsends).handled hx).1
        have hkind : ¬topicDirPacketKind x.bytes = .announce := by
          intro hkind
          rw [(dispatch_announce_iff ..).mpr hkind] at hdispatch
          cases hdispatch
        rw [announcedIn_eq (d := ⟨g.src, x.bytes⟩) rfl, readAnnounce, if_neg hkind]
        rfl

/-- A table that names are put into. -/
theorem getElem?_insertNames (entries : List TopicDirEntry) (names : ExtTreeMap UInt32 Bytes)
    (topic : UInt32) :
    ∃ o : Option TopicDirEntry, (∀ e ∈ o, e ∈ entries ∧ e.topicId = topic) ∧
      (o = none → ∀ e ∈ entries, e.topicId ≠ topic) ∧
      (entries.foldl (fun m e => m.insert e.topicId e.name) names)[topic]? =
        o.elim names[topic]? fun e => some e.name := by
  induction entries generalizing names with
  | nil => exact ⟨none, fun e he => (nomatch he), fun _ e he => (nomatch he), rfl⟩
  | cons first rest ih =>
    obtain ⟨o, hmem, hnone, hget⟩ := ih (names.insert first.topicId first.name)
    rw [List.foldl_cons, hget]
    cases o with
    | some e =>
      refine ⟨some e, fun e' he' => ?_, fun h => (nomatch h), rfl⟩
      exact ⟨List.mem_cons_of_mem _ (hmem e' he').1, (hmem e' he').2⟩
    | none =>
      rw [Option.elim_none, ExtTreeMap.getElem?_insert]
      by_cases hfirst : first.topicId = topic
      · rw [if_pos (Std.compare_eq_iff_eq.mpr hfirst)]
        refine ⟨some first, fun e he => ?_, fun h => (nomatch h), rfl⟩
        cases he
        exact ⟨List.mem_cons_self, hfirst⟩
      · rw [if_neg (by rwa [Std.compare_eq_iff_eq])]
        refine ⟨none, fun e he => (nomatch he), fun _ e he => ?_, rfl⟩
        rcases List.mem_cons.mp he with rfl | he
        · exact hfirst
        · exact hnone rfl e he

/-- What holds of the daemon's tables while only the nodes announce. -/
structure Keeps (F : Fleet ι) (N : Vocabulary ι) (n : Site ι) : Prop where
  consistent : Rlcore.Consistent F.cfg n.rlcore
  inOrder : Rlcore.InOrder n.rlcore
  given : ∀ topic name, n.rlcore.topicNames[topic]? = some name → N.Given topic name

theorem start_keeps (F : Fleet ι) (N : Vocabulary ι) (born : ι → Time) :
    Keeps F N (F.start born) where
  consistent := Rlcore.consistent_init F.cfg
  inOrder := Rlcore.inOrder_init
  given topic name h := by simp [Fleet.start] at h

theorem heardAt_given {e : SiteEvent ι} (h : N.Announces F e) :
    ∀ entry ∈ heardAt F e, N.Given entry.topicId entry.name := by
  intro entry hentry
  cases e with
  | turn turn =>
    rw [heardAt] at hentry
    cases hd : turn.datagram with
    | none =>
      rw [Rlcore.announcedIn, hd] at hentry
      cases hentry
    | some d =>
      rw [announcedIn_eq hd] at hentry
      have hkind : topicDirPacketKind d.bytes = .announce := by
        by_contra hother
        rw [readAnnounce, if_neg hother] at hentry
        cases hentry
      obtain ⟨i, hsent⟩ := h d hd hkind
      obtain ⟨es, hes, hsub⟩ := readAnnounce_sent hsent
      rw [hes] at hentry
      exact ⟨i, hsub hentry⟩
  | wake => cases hentry
  | call => cases hentry

variable [DecidableEq ι]

/-- The daemon's names after an event: those taken, and for the rest those before. -/
theorem step_names {e : SiteEvent ι} (hallowed : F.Allowed n e) (topic : UInt32) :
    ∃ o : Option TopicDirEntry, (∀ entry ∈ o, entry ∈ heardAt F e ∧ entry.topicId = topic) ∧
      (o = none → ∀ entry ∈ heardAt F e, entry.topicId ≠ topic) ∧
      (F.step n e).rlcore.topicNames[topic]? =
        o.elim n.rlcore.topicNames[topic]? fun entry => some entry.name := by
  rcases step_daemon hallowed with ⟨hsame, hnone⟩ | ⟨turn, hturn, hheard⟩
  · rw [hsame, hnone]
    exact ⟨none, fun entry he => (nomatch he), fun _ entry he => (nomatch he), rfl⟩
  · rw [hturn, Rlcore.step_topicNames, hheard]
    exact getElem?_insertNames ..

theorem Keeps.step (h : Keeps F N n) {e : SiteEvent ι} (hallowed : F.Allowed n e)
    (hnames : N.Announces F e) : Keeps F N (F.step n e) where
  consistent := by
    rcases step_daemon hallowed with ⟨hsame, -⟩ | ⟨turn, hturn, -⟩
    · rw [hsame]
      exact h.consistent
    · rw [hturn]
      exact h.consistent.step turn
  inOrder := by
    rcases step_daemon hallowed with ⟨hsame, -⟩ | ⟨turn, hturn, -⟩
    · rw [hsame]
      exact h.inOrder
    · rw [hturn]
      exact h.inOrder.step F.cfg turn
  given topic name hname := by
    obtain ⟨o, hmem, -, hget⟩ := step_names hallowed topic
    rw [hget] at hname
    cases o with
    | none => exact h.given topic name hname
    | some entry =>
      cases hname
      obtain ⟨hheard, rfl⟩ := hmem entry rfl
      exact heardAt_given hnames entry hheard

/-- A name that was taken stays: whoever announces the topic later has the same name for it. -/
theorem step_name {e : SiteEvent ι} (hallowed : F.Allowed n e)
    (hnames : N.Announces F e) {topic : UInt32} {name : Bytes} (hgiven : N.Given topic name)
    (hknown : n.rlcore.topicNames[topic]? = some name ∨ ⟨topic, name⟩ ∈ heardAt F e) :
    (F.step n e).rlcore.topicNames[topic]? = some name := by
  obtain ⟨o, hmem, hnone, hget⟩ := step_names hallowed topic
  rw [hget]
  cases o with
  | none => exact hknown.resolve_right fun hheard => hnone rfl _ hheard rfl
  | some entry =>
    obtain ⟨hheard, rfl⟩ := hmem entry rfl
    exact congrArg some ((heardAt_given hnames entry hheard).unique N hgiven)

/-! ### Every run -/

/-- A name that was taken once is there at the end. -/
theorem run_name {events : List (SiteEvent ι)} (hallowed : Throughout F.step F.Allowed n events)
    (hnames : ∀ e ∈ events, N.Announces F e) {topic : UInt32} {name : Bytes}
    (hgiven : N.Given topic name) (hknown : n.rlcore.topicNames[topic]? = some name ∨
      ∃ e ∈ events, ⟨topic, name⟩ ∈ heardAt F e) :
    (F.run n events).rlcore.topicNames[topic]? = some name := by
  induction events generalizing n with
  | nil => exact hknown.resolve_right fun ⟨e, he, _⟩ => absurd he List.not_mem_nil
  | cons first rest ih =>
    rw [List.forall_mem_cons] at hnames
    refine ih hallowed.2 hnames.2 ?_
    rw [List.exists_mem_cons_iff, ← or_assoc] at hknown
    exact hknown.imp_left fun h => step_name hallowed.1 hnames.1 hgiven h

/-- A topic that the tool is still to be shown was had at most a term before. -/
def Shown (query : Turn) (t : Time) : Prop := query.pruneAt - t ≤ Rlcore.kRegistrationTtlSec

/-- What has to have happened before the tool asks. -/
structure Settled (F : Fleet ι) (N : Vocabulary ι) (query : Turn) (n : Site ι) : Prop where
  inv : Fleet.Inv F n
  registered : Fleet.Registered F (Shown query) n
  keeps : Keeps F N n
  sent : F.AllSent n
  named : ∀ topic name, N.Given topic name → n.rlcore.topicNames[topic]? = some name

/-- No expiry is later than the one when the tool asks. -/
def Earlier (F : Fleet ι) (query : Turn) (n : Site ι) (e : SiteEvent ι) : Prop :=
  ∀ now ∈ F.prunedAt n e, now ≤ query.pruneAt

instance (query : Turn) (n : Site ι) (e : SiteEvent ι) : Decidable (Earlier F query n e) :=
  inferInstanceAs (Decidable (∀ now ∈ F.prunedAt n e, _))

theorem run_settled {born : ι → Time} {events : List (SiteEvent ι)} {query : Turn}
    (hallowed : Throughout F.step F.Allowed (F.start born) events)
    (hearlier : Throughout F.step (Earlier F query) (F.start born) events)
    (hnames : ∀ e ∈ events, N.Announces F e) (hsent : F.AllSent (F.run (F.start born) events))
    (hannounced : N.AllAnnounced F events) :
    Settled F N query (F.run (F.start born) events) := by
  have hkeeps := Throughout.invariant (Keeps F N) (fun _ _ hs hc => hs.step hc.1 hc.2)
    (start_keeps F N born) (hallowed.and (Throughout.of_mem (fun e he _ => hnames e he) _))
  have hkept : ∀ n e, Fleet.Inv F n ∧ Fleet.Registered F (Shown query) n →
      F.Allowed n e ∧ Earlier F query n e →
      Fleet.Inv F (F.step n e) ∧ Fleet.Registered F (Shown query) (F.step n e) := by
    intro n e hs hc
    refine ⟨hs.1.step hc.1, hs.2.step hs.1 hc.1 fun now hnow i g _ topic _ t _ hshown => ?_⟩
    exact le_trans (sub_le_sub_right (hc.2 now hnow) t) hshown
  obtain ⟨hinv, hregistered⟩ := Throughout.invariant _ hkept
    ⟨Fleet.start_inv F born, Fleet.start_registered F born _⟩ (hallowed.and hearlier)
  refine ⟨hinv, hregistered, hkeeps, hsent, fun topic name hgiven => ?_⟩
  refine run_name hallowed hnames hgiven (Or.inr ?_)
  obtain ⟨i, hmem⟩ := hgiven
  obtain ⟨bytes, hbytes, es, hes, he⟩ := mem_announce (fun e he => N.names_short he) hmem
  obtain ⟨turn, hturn, src, hd⟩ := hannounced i bytes hbytes
  refine ⟨.turn turn, hturn, ?_⟩
  rw [heardAt, announcedIn_eq hd, hes]
  exact he

omit [DecidableEq ι] in
/-- The daemon has every topic of the fleet, and no other, under the name it should have. -/
theorem Settled.mem_queried {turn : Turn} (h : Settled F N turn n) (hterm : F.InTerm n (.turn turn))
    (topic : UInt32) (name : Bytes) :
    ⟨topic, name⟩ ∈ Rlcore.queried (Rlcore.pruneStale F.cfg turn.pruneAt n.rlcore) ↔
      (∃ i, ∃ g ∈ F.groups i, topic ∈ g.topics) ∧ N.Listed topic name := by
  rw [(h.keeps.consistent.prune turn.pruneAt).mem_queried]
  refine and_congr ?_ ?_
  · constructor
    · rintro ⟨p, hp⟩
      obtain ⟨i, g, hg, htopic, -⟩ :=
        h.inv.listed topic p ((Rlcore.listed_pruneStale F.cfg turn.pruneAt n.rlcore topic p).mp hp).1
      exact ⟨i, g, hg, htopic⟩
    · rintro ⟨i, g, hg, htopic⟩
      obtain ⟨t, ht⟩ := Option.isSome_iff_exists.mp (h.sent i g hg topic htopic)
      have hshown := hterm turn.pruneAt rfl i g hg topic htopic t ht
      refine ⟨g.registrant F.cfg, ?_⟩
      exact ((h.registered i g hg topic htopic t ht hshown).prune_listed ht turn.pruneAt).mpr hshown
  · show name = n.rlcore.topicNames.getD topic [] ↔ _
    rw [ExtTreeMap.getD_eq_getD_getElem?]
    constructor
    · rintro rfl
      cases hname : n.rlcore.topicNames[topic]? with
      | some name => exact Or.inl (h.keeps.given topic name hname)
      | none =>
        refine Or.inr ⟨fun name' hgiven => ?_, rfl⟩
        rw [h.named topic name' hgiven] at hname
        cases hname
    · rintro (hgiven | ⟨hnone, rfl⟩)
      · rw [h.named topic name hgiven, Option.getD_some]
      · cases hname : n.rlcore.topicNames[topic]? with
        | some name => exact absurd (h.keeps.given topic name hname) (hnone name)
        | none => rfl

omit [DecidableEq ι] in
theorem Settled.answer {turn : Turn} (h : Settled F N turn n) {d : Rlcore.Datagram}
    (hd : turn.datagram = some d) (hquery : topicDirPacketKind d.bytes = .query) :
    Rlcore.readings readNames (Rlcore.step F.cfg n.rlcore turn).2 =
      some ((Rlcore.queried (Rlcore.pruneStale F.cfg turn.pruneAt n.rlcore)).map (d.src, ·)) := by
  have hbytes : d.bytes ≠ [] := by
    intro hnil
    rw [hnil] at hquery
    cases hquery
  have hdispatch : Rlcore.dispatch F.cfg.relayMode d.bytes = .topicQuery := by
    rw [Rlcore.dispatch, hquery]
  have hstep : (Rlcore.step F.cfg n.rlcore turn).2 =
      Rlcore.answerTopicQuery d.src (Rlcore.pruneStale F.cfg turn.pruneAt n.rlcore) := by
    rw [Rlcore.step, hd]
    simp only [hbytes, if_false, Rlcore.handle, hdispatch]
  rw [hstep]
  exact Rlcore.answerTopicQuery_readings (h.keeps.inOrder.prune F.cfg turn.pruneAt) d.src

/-- **`rl_topic list` shows the fleet.** Once the daemon has had the topics of every node, each at
most a term ago, and their names, the tool of either build lists each topic that some node has, under
the name that the nodes have for it or an empty one, and no other; and neither the order of the
replies nor other datagrams between them matter. -/
theorem fleet_listed (F : Fleet ι) (N : Vocabulary ι) (born : ι → Time)
    (events : List (SiteEvent ι)) (query : Turn) (d : Rlcore.Datagram)
    (hd : query.datagram = some d) (hquery : topicDirPacketKind d.bytes = .query)
    (hallowed : Throughout F.step F.Allowed (F.start born) events)
    (hearlier : Throughout F.step (Earlier F query) (F.start born) events)
    (hnames : ∀ e ∈ events, N.Announces F e)
    (hsent : F.AllSent (F.run (F.start born) events)) (hannounced : N.AllAnnounced F events)
    (hterm : F.InTerm (F.run (F.start born) events) (.turn query))
    (tool : Build) (arrivals noise : List Bytes)
    (harrivals : arrivals.Perm
      ((Rlcore.step F.cfg (F.run (F.start born) events).rlcore query).2.map (·.2) ++ noise))
    (hnoise : ∀ d ∈ noise, Noise tool d) (topic : UInt32) (shown : Bytes) :
    (queryRlcore tool arrivals)[topic]? = some shown ↔
      (∃ i, ∃ g ∈ F.groups i, topic ∈ g.topics) ∧
        ∃ name, N.Listed topic name ∧ shown = shownName tool name := by
  have hsettled := run_settled hallowed hearlier hnames hsent hannounced
  have hentries : ∀ entries : List TopicDirEntry, (entries.map (d.src, ·)).map (·.2) = entries := by
    intro entries
    rw [List.map_map]
    exact List.map_id _
  rw [queryRlcore_iff (hsettled.answer hd hquery) (by
    rw [hentries]
    exact Rlcore.queried_nodup _) harrivals hnoise, hentries]
  constructor
  · rintro ⟨name, hmem, rfl⟩
    obtain ⟨htopic, hname⟩ := (hsettled.mem_queried hterm topic name).mp hmem
    exact ⟨htopic, name, hname, rfl⟩
  · rintro ⟨htopic, name, hname, rfl⟩
    exact ⟨name, (hsettled.mem_queried hterm topic name).mpr ⟨htopic, hname⟩, rfl⟩

end

/-! A node of each build, both with the topic `a`, and one with a topic that has no name. -/

def namedTopicId : UInt32 := fnv1a32 [0x61]

def namedPair : Fleet Bool where
  cfg := .plain
  build i := if i then .python else .cpp
  groups i := if i then [⟨⟨3, 4⟩, ⟨3, 4⟩, [namedTopicId, 9]⟩]
    else [⟨⟨1, 2⟩, ⟨1, 2⟩, [namedTopicId]⟩]
  apart {i j g g'} hg hg' h := by
    cases i <;> cases j <;> simp_all [Rlcore.Group.registrant]
  partition {i g g' topic} hg hg' _ _ := by
    cases i <;> simp_all
  distinct i := by cases i <;> decide
  declared {i g} hg := by
    cases i
    · obtain rfl := List.mem_singleton.mp hg
      decide
    · obtain rfl := List.mem_singleton.mp hg
      decide

def namedWords : Vocabulary Bool where
  calls _ := [[0x61]]
  names _ := [⟨namedTopicId, [0x61]⟩]
  registered _ := List.Perm.of_eq (by decide)
  short := by decide
  apart := by decide

def namedAnnounce : Bytes := namePacket kTopicDirAnnounceMagic [⟨namedTopicId, [0x61]⟩]

/-- The start of each node, one's answer being lost, and their names. -/
def namedEvents : List (SiteEvent Bool) :=
  [.call false ⟨⟨1, 2⟩, ⟨1, 2⟩, [namedTopicId]⟩
      (.answered ⟨requestBytes 1 2 [namedTopicId], 0, Vector.replicate 12 0⟩),
    .turn (.receive 1 ⟨1, 2⟩ namedAnnounce),
    .call true ⟨⟨3, 4⟩, ⟨3, 4⟩, [namedTopicId, 9]⟩
      (.unanswered ⟨requestBytes 3 4 [namedTopicId, 9], 1, Vector.replicate 12 0⟩),
    .turn (.receive 1 ⟨3, 4⟩ namedAnnounce)]

/-- What comes to the tool: a stranger's datagram, and then the replies. -/
def namedArrivals : List Bytes :=
  [[0]] ++ (Rlcore.step .plain (namedPair.run (namedPair.start fun _ => 0) namedEvents).rlcore
    (.receive 2 ⟨9, 9⟩ kTopicDirQueryMagic)).2.map (·.2)

example : (queryRlcore .cpp namedArrivals).toList = [(9, []), (namedTopicId, [0x61])] := by
  decide +kernel

theorem fleet_listed_pair :
    (queryRlcore .python namedArrivals)[namedTopicId]? = some [0x61] ↔
      (∃ i, ∃ g ∈ namedPair.groups i, namedTopicId ∈ g.topics) ∧
        ∃ name, namedWords.Listed namedTopicId name ∧ [0x61] = shownName .python name := by
  refine fleet_listed namedPair namedWords (fun _ => 0) namedEvents
    (.receive 2 ⟨9, 9⟩ kTopicDirQueryMagic) ⟨⟨9, 9⟩, kTopicDirQueryMagic⟩ rfl (by decide)
    (by decide +kernel) (by decide +kernel) (by decide +kernel) (by decide +kernel) ?_
    (by decide +kernel) .python namedArrivals [[0]] List.perm_append_comm (by decide) namedTopicId
    [0x61]
  intro i bytes hbytes
  have hannounce : bytes = namedAnnounce := by
    revert hbytes
    cases i <;> exact fun h => List.mem_singleton.mp h
  rw [hannounce]
  exact ⟨.receive 1 ⟨1, 2⟩ namedAnnounce, by simp [namedEvents], ⟨1, 2⟩, rfl⟩

end Relink.Discovery
