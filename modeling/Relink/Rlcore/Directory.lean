import Relink.Rlcore.Ack
import Relink.Rlcore.Consistent
import Relink.Rlcore.History
import Relink.Rlcore.Replies

/-! What the directories answer, against what was announced.

The abstract directories are histories: a topic's name is the one announced for it last, by
whomever and however long ago, and an address has the role that it announced last, for as long as
a registration lasts. `directory_answers` says that the replies to a query, all of which can be
read, list just that: each live topic once, and each live role once. -/
namespace Relink.Rlcore
open Wire Crypto History
open Std (ExtTreeMap)

variable {cfg : Config}

/-! ### Names -/

/-- The names that a turn takes from an announce. -/
def announcedIn (cfg : Config) (turn : Turn) : List TopicDirEntry :=
  match turn.datagram with
  | none => []
  | some d =>
    if d.bytes ≠ [] ∧ dispatch cfg.relayMode d.bytes = .topicAnnounce then
      (decodeTopicDirEntries d.bytes).getD []
    else []

def announced (cfg : Config) (turns : List Turn) : List TopicDirEntry :=
  turns.flatMap (announcedIn cfg)

def lastName (names : List TopicDirEntry) (topic : UInt32) : Option Bytes :=
  (latest (fun e => e.topicId = topic) names).map (·.name)

theorem step_topicNames (s : State) (turn : Turn) :
    (step cfg s turn).1.topicNames =
      (announcedIn cfg turn).foldl (fun m e => m.insert e.topicId e.name) s.topicNames := by
  have hnames : (pruneStale cfg turn.pruneAt s).topicNames = s.topicNames := rfl
  rw [step, announcedIn, ← hnames]
  generalize pruneStale cfg turn.pruneAt s = s
  cases turn.datagram with
  | none => rfl
  | some d =>
    by_cases hempty : d.bytes = []
    · simp only [hempty, if_true, ne_eq, not_true_eq_false, false_and, if_false, List.foldl_nil]
    · simp only [hempty, if_false, ne_eq, not_false_eq_true, true_and, handle]
      cases dispatch cfg.relayMode d.bytes with
      | topicAnnounce =>
        simp only [handleTopicAnnounce, if_true]
        cases decodeTopicDirEntries d.bytes <;> rfl
      | roleAnnounce =>
        simp only [handleRoleAnnounce, reduceCtorEq, if_false, List.foldl_nil]
        split
        · rfl
        · exact Transition.foldl_invariant (fun t : State => t.topicNames = s.topicNames)
            (fun _ => True) (announceRole turn.handleAt d.src) (fun _ _ h _ => h) _ s rfl
            fun _ _ => trivial
      | registration =>
        simp only [handleRegistration, reduceCtorEq, if_false, List.foldl_nil]
        split
        · rfl
        · exact (enroll_others ..).2.2.2
      | topicQuery => rfl
      | topicReply => rfl
      | roleQuery => rfl
      | roleReply => rfl
      | relayRegister topic => rfl
      | dataFrame topic => rfl

/-- A topic's name is the one announced last. -/
theorem run_topicNames (cfg : Config) (turns : List Turn) (topic : UInt32) :
    (run cfg {} turns).topicNames[topic]? = lastName (announced cfg turns) topic := by
  have hrun : (run cfg {} turns).topicNames =
      (announced cfg turns).foldl (fun m e => m.insert e.topicId e.name) ∅ := by
    induction turns using List.reverseRecOn with
    | nil => rfl
    | append_singleton turns turn ih =>
      have hnames : announced cfg (turns ++ [turn]) = announced cfg turns ++ announcedIn cfg turn := by
        simp [announced]
      rw [run_snoc, step_topicNames, ih, hnames, List.foldl_append]
  rw [hrun]
  exact Sweep.getElem?_insertAll TopicDirEntry.topicId TopicDirEntry.name _ topic

/-! ### Roles -/

/-- A role that was announced: when, from which address, for which topic. -/
structure RoleHeard where
  time : Time
  key : TopicPeer
  role : UInt8
deriving DecidableEq

/-- The roles that a turn takes from an announce. -/
def heardIn (cfg : Config) (turn : Turn) : List RoleHeard :=
  match turn.datagram with
  | none => []
  | some d =>
    if d.bytes ≠ [] ∧ dispatch cfg.relayMode d.bytes = .roleAnnounce then
      ((decodeRoleAnnounce d.bytes).getD []).map fun e =>
        ⟨turn.handleAt, ⟨e.topicId, d.src⟩, e.role⟩
    else []

def heard (cfg : Config) (turns : List Turn) : List RoleHeard := turns.flatMap (heardIn cfg)

def lastRole (roles : List RoleHeard) (key : TopicPeer) : Option RoleHeard :=
  latest (fun r => r.key = key) roles

/-- The role that the address announced last for the topic, within its term. -/
def RoleLive (roles : List RoleHeard) (now : Time) (key : TopicPeer) (role : UInt8) : Prop :=
  ∃ r, lastRole roles key = some r ∧ now - r.time ≤ kRegistrationTtlSec ∧ r.role = role

theorem lastRole_snoc (roles : List RoleHeard) (r : RoleHeard) (key : TopicPeer) :
    lastRole (roles ++ [r]) key = if r.key = key then some r else lastRole roles key := by
  rw [lastRole, latest_snoc]
  simp only [decide_eq_true_eq]
  rfl

def hear (s : State) (r : RoleHeard) : State :=
  { s with
    roleTable := s.roleTable.insert r.key r.role
    roleLastSeen := s.roleLastSeen.insert r.key r.time }

/-- What is kept of the roles: the announce that came last, unless it is past its term. -/
structure Heard (roles : List RoleHeard) (clock : Time) (s : State) : Prop where
  kept : ∀ (k : TopicPeer) (t : Time), s.roleLastSeen[k]? = some t →
    ∃ r, lastRole roles k = some r ∧ r.time = t ∧ s.roleTable[k]? = some r.role
  gone : ∀ k : TopicPeer, s.roleLastSeen[k]? = none → s.roleTable[k]? = none ∧
    ∀ r, lastRole roles k = some r → kRegistrationTtlSec < clock - r.time

theorem heard_init (clock : Time) : Heard [] clock {} where
  kept k t h := by simp at h
  gone k h := ⟨by simp, fun r hr => by cases hr⟩

variable {roles : List RoleHeard} {clock : Time} {s : State}

theorem Heard.prune (hs : Heard roles clock s) {now : Time} (hle : clock ≤ now) (cfg : Config) :
    Heard roles now (pruneStale cfg now s) where
  kept k t h := by
    obtain ⟨hroles, htimes⟩ := pruneRoles_getElem? now s.roleTable s.roleLastSeen k
    rw [pruneStale, htimes, Option.filter_eq_some_iff] at h
    obtain ⟨r, hr, ht, hrole⟩ := hs.kept k t h.1
    refine ⟨r, hr, ht, ?_⟩
    rw [pruneStale, hroles, h.1, Option.any_some, if_neg (by simpa using h.2), hrole]
  gone k h := by
    obtain ⟨hroles, htimes⟩ := pruneRoles_getElem? now s.roleTable s.roleLastSeen k
    rw [pruneStale, htimes] at h
    rw [pruneStale, hroles]
    cases htime : s.roleLastSeen[k]? with
    | none =>
      obtain ⟨hnone, hpast⟩ := hs.gone k htime
      refine ⟨by rw [Option.any_none, if_neg Bool.false_ne_true, hnone], fun r hr => ?_⟩
      have := hpast r hr
      linarith
    | some t =>
      rw [htime, Option.filter_some] at h
      have hdue : kRegistrationTtlSec < now - t := by
        by_contra hdue
        simp [hdue] at h
      refine ⟨by rw [Option.any_some, if_pos (decide_eq_true hdue)], fun r hr => ?_⟩
      obtain ⟨r', hr', ht, _⟩ := hs.kept k t htime
      rw [hr'] at hr
      cases hr
      rwa [ht]

theorem Heard.hear (hs : Heard roles clock s) (r : RoleHeard) :
    Heard (roles ++ [r]) clock (hear s r) where
  kept k t h := by
    simp only [Rlcore.hear] at h ⊢
    rw [ExtTreeMap.getElem?_insert] at h
    rw [lastRole_snoc, ExtTreeMap.getElem?_insert]
    by_cases hk : r.key = k
    · rw [if_pos (Std.compare_eq_iff_eq.mpr hk)] at h
      cases h
      rw [if_pos hk, if_pos (Std.compare_eq_iff_eq.mpr hk)]
      exact ⟨r, rfl, rfl, rfl⟩
    · rw [if_neg (by rwa [Std.compare_eq_iff_eq])] at h
      rw [if_neg hk, if_neg (by rwa [Std.compare_eq_iff_eq])]
      exact hs.kept k t h
  gone k h := by
    simp only [Rlcore.hear] at h ⊢
    rw [ExtTreeMap.getElem?_insert] at h
    by_cases hk : r.key = k
    · rw [if_pos (Std.compare_eq_iff_eq.mpr hk)] at h
      cases h
    · rw [if_neg (by rwa [Std.compare_eq_iff_eq])] at h
      rw [lastRole_snoc, if_neg hk, ExtTreeMap.getElem?_insert, if_neg (by rwa [Std.compare_eq_iff_eq])]
      exact hs.gone k h

/-- Every other table aside, a turn expires the roles and takes in what it hears. -/
theorem step_roles (cfg : Config) (s : State) (turn : Turn) :
    let t := (heardIn cfg turn).foldl hear (pruneStale cfg turn.pruneAt s)
    (step cfg s turn).1.roleTable = t.roleTable ∧
      (step cfg s turn).1.roleLastSeen = t.roleLastSeen := by
  simp only
  rw [step, heardIn]
  generalize pruneStale cfg turn.pruneAt s = s
  cases turn.datagram with
  | none => exact ⟨rfl, rfl⟩
  | some d =>
    by_cases hempty : d.bytes = []
    · simp only [hempty, if_true, ne_eq, not_true_eq_false, false_and, if_false, List.foldl_nil,
        and_self]
    · simp only [hempty, if_false, ne_eq, not_false_eq_true, true_and, handle]
      cases dispatch cfg.relayMode d.bytes with
      | roleAnnounce =>
        simp only [handleRoleAnnounce, if_true]
        cases decodeRoleAnnounce d.bytes with
        | none => exact ⟨rfl, rfl⟩
        | some entries =>
          rw [Option.getD_some, List.foldl_map]
          exact ⟨rfl, rfl⟩
      | topicAnnounce =>
        simp only [handleTopicAnnounce, reduceCtorEq, if_false, List.foldl_nil]
        split <;> exact ⟨rfl, rfl⟩
      | registration =>
        simp only [handleRegistration, reduceCtorEq, if_false, List.foldl_nil]
        split
        · exact ⟨rfl, rfl⟩
        · exact ⟨(enroll_others ..).1, (enroll_others ..).2.1⟩
      | topicQuery => exact ⟨rfl, rfl⟩
      | topicReply => exact ⟨rfl, rfl⟩
      | roleQuery => exact ⟨rfl, rfl⟩
      | roleReply => exact ⟨rfl, rfl⟩
      | relayRegister topic => exact ⟨rfl, rfl⟩
      | dataFrame topic => exact ⟨rfl, rfl⟩

theorem Heard.step (cfg : Config) (hs : Heard roles clock s) (turn : Turn) (hle : clock ≤ turn.pruneAt) :
    Heard (roles ++ heardIn cfg turn) turn.pruneAt (step cfg s turn).1 := by
  have hheard : ∀ (more roles : List RoleHeard) (t : State), Heard roles turn.pruneAt t →
      Heard (roles ++ more) turn.pruneAt (more.foldl Rlcore.hear t) := by
    intro more
    induction more with
    | nil =>
      intro roles t ht
      rwa [List.append_nil]
    | cons r rest ih =>
      intro roles t ht
      rw [List.append_cons]
      exact ih _ _ (ht.hear r)
  have hall := hheard (heardIn cfg turn) roles _ (hs.prune hle cfg)
  obtain ⟨htable, htimes⟩ := step_roles cfg s turn
  exact ⟨fun k t h => by
    rw [htimes] at h
    rw [htable]
    exact hall.kept k t h, fun k h => by
    rw [htimes] at h
    rw [htable]
    exact hall.gone k h⟩

theorem run_heard (cfg : Config) (turns : List Turn) (hclock : Clocked turns) (clock : Time)
    (hle : ∀ turn ∈ turns, turn.pruneAt ≤ clock) :
    Heard (heard cfg turns) clock (run cfg {} turns) := by
  induction turns using List.reverseRecOn generalizing clock with
  | nil => exact heard_init clock
  | append_singleton turns turn ih =>
    obtain ⟨hbefore, _, hlast⟩ := List.pairwise_append.mp hclock
    have hs := ih hbefore turn.pruneAt (fun a ha => hlast a ha turn (List.mem_singleton_self turn))
    have hstep := hs.step cfg turn (le_refl _)
    have hheard : heard cfg (turns ++ [turn]) = heard cfg turns ++ heardIn cfg turn := by
      simp [heard]
    rw [run_snoc, hheard]
    have hle' := hle turn (List.mem_append_right _ (List.mem_singleton_self turn))
    refine ⟨hstep.kept, fun k h => ?_⟩
    obtain ⟨hnone, hpast⟩ := hstep.gone k h
    exact ⟨hnone, fun r hr => lt_of_lt_of_le (hpast r hr) (by linarith)⟩

/-- Right after expiry a role is in the table exactly if it is live. -/
theorem Heard.live (hs : Heard roles clock s) {now : Time} (hle : clock ≤ now) (cfg : Config)
    (k : TopicPeer) (role : UInt8) :
    (pruneStale cfg now s).roleTable[k]? = some role ↔ RoleLive roles now k role := by
  have hpruned := hs.prune hle cfg
  cases htime : (pruneStale cfg now s).roleLastSeen[k]? with
  | none =>
    obtain ⟨hnone, hpast⟩ := hpruned.gone k htime
    rw [hnone]
    refine ⟨fun h => (by cases h), fun ⟨r, hr, hterm, _⟩ => ?_⟩
    exact absurd (hpast r hr) (not_lt.mpr hterm)
  | some t =>
    obtain ⟨r, hr, ht, hrole⟩ := hpruned.kept k t htime
    have hterm : now - r.time ≤ kRegistrationTtlSec := by
      have htimes := (pruneRoles_getElem? now s.roleTable s.roleLastSeen k).2.symm.trans htime
      rw [Option.filter_eq_some_iff] at htimes
      rw [ht]
      simpa using htimes.2
    rw [hrole, Option.some.injEq]
    refine ⟨fun h => ⟨r, hr, hterm, h⟩, fun ⟨r', hr', _, hrole'⟩ => ?_⟩
    rw [hr] at hr'
    cases hr'
    exact hrole'

/-! ### The answers -/

/-- A topic is in the table exactly if somebody is registered for it. -/
theorem Consistent.mem_table (hs : Consistent cfg s) (topic : UInt32) :
    topic ∈ s.table ↔ ∃ p, s.Listed topic p := by
  unfold State.Listed State.peersOf
  rw [ExtTreeMap.mem_iff_isSome_getElem?, ExtTreeMap.getD_eq_getD_getElem?]
  cases hget : s.table[topic]? with
  | none => simp
  | some peers =>
    have hpeers := hs.peers topic peers hget
    rw [← Std.ExtTreeSet.isEmpty_toList, List.isEmpty_eq_false_iff] at hpeers
    obtain ⟨p, hp⟩ := List.exists_mem_of_ne_nil _ hpeers
    exact iff_of_true rfl ⟨p, Std.ExtTreeSet.mem_toList.mp hp⟩

/-- A query lists each topic somebody is registered for, under the name the table has for it. -/
theorem Consistent.mem_queried (hs : Consistent cfg s) (e : TopicDirEntry) :
    e ∈ queried s ↔ (∃ p, s.Listed e.topicId p) ∧ e.name = s.topicNames.getD e.topicId [] := by
  rw [queried, List.mem_map, ← hs.mem_table]
  constructor
  · rintro ⟨topic, htopic, rfl⟩
    exact ⟨ExtTreeMap.mem_keys.mp htopic, rfl⟩
  · rintro ⟨hmem, hname⟩
    refine ⟨e.topicId, ExtTreeMap.mem_keys.mpr hmem, ?_⟩
    rw [← hname]

theorem queried_nodup (s : State) : ((queried s).map (·.topicId)).Nodup := by
  have hkeys : (queried s).map (·.topicId) = s.table.keys := by
    rw [queried, List.map_map]
    exact List.map_id _
  rw [hkeys]
  exact ExtTreeMap.distinct_keys.imp fun h heq => h (Std.compare_eq_iff_eq.mpr heq)

/-- The topic and address of a role. -/
def RolePeerEntry.key (e : RolePeerEntry) : TopicPeer := ⟨e.topicId, ⟨e.ip, e.port⟩⟩

theorem queriedRoles_nodup (s : State) : ((queriedRoles s).map RolePeerEntry.key).Nodup := by
  have hkeys : (queriedRoles s).map RolePeerEntry.key = s.roleTable.keys := by
    rw [queriedRoles, List.map_map, ← ExtTreeMap.map_fst_toList_eq_keys]
    rfl
  rw [hkeys]
  exact ExtTreeMap.distinct_keys.imp fun h heq => h (Std.compare_eq_iff_eq.mpr heq)

theorem mem_queriedRoles (s : State) (e : RolePeerEntry) :
    e ∈ queriedRoles s ↔ s.roleTable[RolePeerEntry.key e]? = some e.role := by
  rw [queriedRoles, List.mem_map, ← ExtTreeMap.mem_toList_iff_getElem?_eq_some]
  constructor
  · rintro ⟨entry, hentry, rfl⟩
    exact hentry
  · intro h
    exact ⟨_, h, rfl⟩

/-- **The directories answer completely and exactly.** After any run, a query for names is answered
with packets that can all be read and that list each topic somebody is registered for once, under
the name announced last; a query for roles with ones that list each live role once. -/
theorem directory_answers (cfg : Config) (turns : List Turn) (turn : Turn) (d : Datagram)
    (hclock : Clocked (turns ++ [turn])) (hd : turn.datagram = some d) (hbytes : d.bytes ≠ []) :
    (dispatch cfg.relayMode d.bytes = .topicQuery → ∃ entries : List TopicDirEntry,
      readings readNames (step cfg (run cfg {} turns) turn).2 = some (entries.map (d.src, ·)) ∧
        (entries.map (·.topicId)).Nodup ∧
        ∀ e, e ∈ entries ↔ (∃ p, Fresh (history cfg turns) turn.pruneAt e.topicId p) ∧
          e.name = (lastName (announced cfg turns) e.topicId).getD []) ∧
      (dispatch cfg.relayMode d.bytes = .roleQuery → ∃ entries : List RolePeerEntry,
        readings readRoles (step cfg (run cfg {} turns) turn).2 = some (entries.map (d.src, ·)) ∧
          (entries.map RolePeerEntry.key).Nodup ∧
          ∀ e, e ∈ entries ↔
            RoleLive (heard cfg turns) turn.pruneAt (RolePeerEntry.key e) e.role) := by
  obtain ⟨hbefore, _, hlast⟩ := List.pairwise_append.mp hclock
  have hle : ∀ a ∈ turns, a.pruneAt ≤ turn.pruneAt := fun a ha =>
    hlast a ha turn (List.mem_singleton_self turn)
  have hfaithful := run_faithful cfg turns hbefore turn.pruneAt hle
  have hheard := run_heard cfg turns hbefore turn.pruneAt hle
  have hconsistent := (consistent_after cfg turns).prune turn.pruneAt
  have horder : InOrder (pruneStale cfg turn.pruneAt (run cfg {} turns)) :=
    (Transition.foldl_invariant InOrder (fun _ => True) _ (fun _ turn h _ => h.step cfg turn)
      turns {} inOrder_init fun _ _ => trivial).prune cfg turn.pruneAt
  have hstep : (step cfg (run cfg {} turns) turn).2 =
      (handle cfg turn.handleAt turn.nonce d (pruneStale cfg turn.pruneAt (run cfg {} turns))).2 := by
    rw [step, hd]
    simp only [hbytes, if_false]
  rw [hstep]
  constructor
  · intro hquery
    refine ⟨queried (pruneStale cfg turn.pruneAt (run cfg {} turns)), ?_, queried_nodup _, fun e => ?_⟩
    · rw [handle, hquery]
      exact answerTopicQuery_readings horder d.src
    · have hname : (pruneStale cfg turn.pruneAt (run cfg {} turns)).topicNames.getD e.topicId [] =
          (lastName (announced cfg turns) e.topicId).getD [] := by
        rw [ExtTreeMap.getD_eq_getD_getElem?, ← run_topicNames cfg turns e.topicId]
        rfl
      rw [hconsistent.mem_queried, hname]
      exact and_congr_left fun _ => exists_congr fun p =>
        faithful_fresh hfaithful (le_refl _) cfg e.topicId p
  · intro hquery
    refine ⟨queriedRoles (pruneStale cfg turn.pruneAt (run cfg {} turns)), ?_, queriedRoles_nodup _,
      fun e => ?_⟩
    · rw [handle, hquery]
      exact answerRoleQuery_readings d.src _
    · rw [mem_queriedRoles]
      exact hheard.live (le_refl _) cfg _ _

/-- A node registers for two topics and names one of them. -/
def namedTopic : List Turn :=
  [.receive 0 ⟨3, 4⟩ (requestBytes 3 4 [7, 8]),
    .receive 1 ⟨3, 4⟩ (kTopicDirAnnounceMagic ++ [1, 0, 7, 0, 0, 0, 2, 0x68, 0x69])]

theorem directory_answers_named : ∃ entries : List TopicDirEntry,
    readings readNames (step .plain (run .plain {} namedTopic)
        (.receive 2 ⟨9, 9⟩ kTopicDirQueryMagic)).2 = some (entries.map (⟨9, 9⟩, ·)) ∧
      (entries.map (·.topicId)).Nodup ∧
      ∀ e, e ∈ entries ↔ (∃ p, Fresh (history .plain namedTopic) 2 e.topicId p) ∧
        e.name = (lastName (announced .plain namedTopic) e.topicId).getD [] :=
  (directory_answers .plain namedTopic (.receive 2 ⟨9, 9⟩ kTopicDirQueryMagic)
    ⟨⟨9, 9⟩, kTopicDirQueryMagic⟩ (by norm_num [Clocked, Turn.receive, namedTopic]) rfl
    (by decide)).1 (by decide)

end Relink.Rlcore
