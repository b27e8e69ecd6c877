import Mathlib.Algebra.Order.Ring.Rat
import Std.Data.ExtTreeMap
import Std.Data.ExtTreeSet
import Relink.Library.Sweep
import Relink.Crypto.Gcm
import Relink.Wire.Directory

/-! The tables of the rlcore daemon, and how they expire.

The local variables of `main` in `relink_rlcore.cpp`, and `prune_stale` with its
loops. Clock readings are rational seconds. -/
namespace Relink.Rlcore
open Wire Crypto Std

/-- An address; ordered by `ip`, then `port`, as the maps iterate. -/
structure PeerEntry where
  ip : UInt32
  port : UInt16
deriving DecidableEq, Repr

instance : Ord PeerEntry := ⟨compareLex (compareOn (·.ip)) (compareOn (·.port))⟩

instance : TransOrd PeerEntry :=
  inferInstanceAs (TransCmp (compareLex (compareOn PeerEntry.ip) (compareOn PeerEntry.port)))

instance : LawfulEqOrd PeerEntry where
  eq_of_compare {a b} h := by
    obtain ⟨hip, hport⟩ := compareLex_eq_eq.mp h
    cases a
    cases b
    simp only [PeerEntry.mk.injEq]
    exact ⟨LawfulEqOrd.eq_of_compare hip, LawfulEqOrd.eq_of_compare hport⟩

/-- The key of `last_seen` and `role_table`. -/
structure TopicPeer where
  topic : UInt32
  peer : PeerEntry
deriving DecidableEq, Repr

instance : Ord TopicPeer := ⟨compareLex (compareOn (·.topic)) (compareOn (·.peer))⟩

instance : TransOrd TopicPeer :=
  inferInstanceAs (TransCmp (compareLex (compareOn TopicPeer.topic) (compareOn TopicPeer.peer)))

instance : LawfulEqOrd TopicPeer where
  eq_of_compare {a b} h := by
    obtain ⟨htopic, hpeer⟩ := compareLex_eq_eq.mp h
    cases a
    cases b
    simp only [TopicPeer.mk.injEq]
    exact ⟨LawfulEqOrd.eq_of_compare htopic, LawfulEqOrd.eq_of_compare hpeer⟩

/-- A reading of the clock, in seconds. -/
abbrev Time := ℚ

def kRegistrationTtlSec : Time := 3
def kRelayMemberTtlSec : Time := 30

/-- The command line: `--nat` turns the relay on. -/
structure Config where
  natMode : Bool
  relayMode : Bool
  encryptKey : Option Key
  natRelays : natMode = true → relayMode = true

structure State where
  table : ExtTreeMap UInt32 (ExtTreeSet PeerEntry) := ∅
  lanOf : ExtTreeMap PeerEntry PeerEntry := ∅
  lastSeen : ExtTreeMap TopicPeer Time := ∅
  roleTable : ExtTreeMap TopicPeer UInt8 := ∅
  roleLastSeen : ExtTreeMap TopicPeer Time := ∅
  relayGroups : ExtTreeMap UInt32 (ExtTreeMap PeerEntry Time) := ∅
  topicNames : ExtTreeMap UInt32 Bytes := ∅

/-- `table[topic]`, without creating the entry. -/
def State.peersOf (s : State) (topic : UInt32) : ExtTreeSet PeerEntry := s.table.getD topic ∅

/-! ### Expiry -/

/-- The test of the inner loop; a peer without a time counts as past its term. -/
def stale (now : Time) (seen : Option Time) : Bool :=
  let age := match seen with
    | some t => now - t
    | none => kRegistrationTtlSec + 1
  kRegistrationTtlSec < age

/-- A topic's peers and all the times. -/
abbrev PeersAndTimes := ExtTreeSet PeerEntry × ExtTreeMap TopicPeer Time

def prunePeer (now : Time) (topic : UInt32) (s : PeersAndTimes) (p : PeerEntry) : PeersAndTimes :=
  if stale now s.2[TopicPeer.mk topic p]? then (s.1.erase p, s.2.erase ⟨topic, p⟩) else s

def prunePeers (now : Time) (topic : UInt32) (peers : ExtTreeSet PeerEntry)
    (lastSeen : ExtTreeMap TopicPeer Time) : PeersAndTimes :=
  peers.toList.foldl (prunePeer now topic) (peers, lastSeen)

abbrev TableAndTimes := ExtTreeMap UInt32 (ExtTreeSet PeerEntry) × ExtTreeMap TopicPeer Time

/-- One topic of the outer loop; a topic left without peers goes. -/
def pruneTopic (now : Time) (s : TableAndTimes) (entry : UInt32 × ExtTreeSet PeerEntry) :
    TableAndTimes :=
  let r := prunePeers now entry.1 entry.2 s.2
  (if r.1.isEmpty then s.1.erase entry.1 else s.1.insert entry.1 r.1, r.2)

def pruneTable (now : Time) (table : ExtTreeMap UInt32 (ExtTreeSet PeerEntry))
    (lastSeen : ExtTreeMap TopicPeer Time) : TableAndTimes :=
  table.toList.foldl (pruneTopic now) (table, lastSeen)

/-- The role table and its times. -/
def pruneRoles (now : Time) (roleTable : ExtTreeMap TopicPeer UInt8)
    (roleLastSeen : ExtTreeMap TopicPeer Time) :
    ExtTreeMap TopicPeer UInt8 × ExtTreeMap TopicPeer Time :=
  roleLastSeen.toList.foldl
    (fun s entry => if kRegistrationTtlSec < now - entry.2
      then (s.1.erase entry.1, s.2.erase entry.1) else s)
    (roleTable, roleLastSeen)

def pruneMembers (now : Time) (members : ExtTreeMap PeerEntry Time) : ExtTreeMap PeerEntry Time :=
  members.toList.foldl
    (fun m entry => if kRelayMemberTtlSec < now - entry.2 then m.erase entry.1 else m) members

def pruneGroups (now : Time) (groups : ExtTreeMap UInt32 (ExtTreeMap PeerEntry Time)) :
    ExtTreeMap UInt32 (ExtTreeMap PeerEntry Time) :=
  groups.toList.foldl
    (fun g entry =>
      let members := pruneMembers now entry.2
      if members.isEmpty then g.erase entry.1 else g.insert entry.1 members) groups

def pruneStale (cfg : Config) (now : Time) (s : State) : State :=
  let registrations := pruneTable now s.table s.lastSeen
  let roles := pruneRoles now s.roleTable s.roleLastSeen
  { s with
    table := registrations.1
    lastSeen := registrations.2
    roleTable := roles.1
    roleLastSeen := roles.2
    relayGroups := if cfg.relayMode then pruneGroups now s.relayGroups else s.relayGroups }

/-! ### What expiry does to a registration -/

theorem stale_some (now t : Time) : stale now (some t) = true ↔ 3 < now - t := by
  rw [stale]
  exact decide_eq_true_iff

theorem stale_none (now : Time) : stale now none = true := by
  have : (3 : ℚ) < 3 + 1 := by norm_num
  simp only [stale, kRegistrationTtlSec]
  exact decide_eq_true this

/-- One topic's peers after the inner loop, and their times. -/
theorem prunePeers_here (now : Time) (topic : UInt32) (peers : ExtTreeSet PeerEntry)
    (lastSeen : ExtTreeMap TopicPeer Time) (p : PeerEntry) :
    (p ∈ (prunePeers now topic peers lastSeen).1 ↔
        p ∈ peers ∧ stale now lastSeen[TopicPeer.mk topic p]? = false) ∧
      (prunePeers now topic peers lastSeen).2[TopicPeer.mk topic p]? =
        if p ∈ peers ∧ stale now lastSeen[TopicPeer.mk topic p]? = true then none
        else lastSeen[TopicPeer.mk topic p]? := by
  have hfold := Transition.foldl_local id
    (fun (q : PeerEntry) (s : PeersAndTimes) => (decide (q ∈ s.1), s.2[TopicPeer.mk topic q]?))
    (fun _ v v' => v' = if stale now v.2 then (false, none) else v) (prunePeer now topic)
    (by
      intro s q
      unfold prunePeer
      simp only [id]
      split <;> simp)
    (by
      intro s q k hk
      have hne : q ≠ k := Ne.symm hk
      unfold prunePeer
      split
      · simp [ExtTreeMap.getElem?_erase, hne]
      · rfl)
    peers.toList (by
      have := ExtTreeSet.distinct_toList (t := peers)
      exact this.imp fun h heq => h (Std.compare_eq_iff_eq.mpr heq))
    (peers, lastSeen)
  have hmem : p ∈ peers.toList ↔ p ∈ peers := ExtTreeSet.mem_toList
  by_cases hp : p ∈ peers
  · have := hfold.1 p (hmem.mpr hp)
    simp only [id, hp, decide_true] at this
    cases hstale : stale now lastSeen[TopicPeer.mk topic p]?
    · simp only [hstale, Bool.false_eq_true, if_false, Prod.mk.injEq, decide_eq_true_eq] at this
      exact ⟨by simpa [hp, prunePeers] using this.1, by simpa [prunePeers] using this.2⟩
    · simp only [hstale, if_true, Prod.mk.injEq, decide_eq_false_iff_not] at this
      exact ⟨by simpa [prunePeers] using this.1, by simpa [hp, prunePeers] using this.2⟩
  · have := hfold.2 p (fun q hq => by
      intro heq
      subst heq
      exact hp (hmem.mp hq))
    simp only [hp, decide_false, Prod.mk.injEq, decide_eq_false_iff_not] at this
    exact ⟨by simpa [hp, prunePeers] using this.1, by simpa [hp, prunePeers] using this.2⟩

/-- The inner loop leaves the times of other topics alone. -/
theorem prunePeers_else (now : Time) (topic : UInt32) (peers : ExtTreeSet PeerEntry)
    (lastSeen : ExtTreeMap TopicPeer Time) (k : TopicPeer) (hk : k.topic ≠ topic) :
    (prunePeers now topic peers lastSeen).2[k]? = lastSeen[k]? := by
  apply Transition.foldl_invariant (fun s : PeersAndTimes => s.2[k]? = lastSeen[k]?)
    (fun _ => True) (prunePeer now topic) _ peers.toList (peers, lastSeen) rfl (fun _ _ => trivial)
  intro s p hs _
  have hne : TopicPeer.mk topic p ≠ k := by
    intro heq
    subst heq
    exact hk rfl
  unfold prunePeer
  split
  · rw [ExtTreeMap.getElem?_erase, if_neg (by rwa [Std.compare_eq_iff_eq]), hs]
  · exact hs

/-- A registration: the peer is in the table under the topic. -/
def State.Listed (s : State) (topic : UInt32) (p : PeerEntry) : Prop := p ∈ s.peersOf topic

instance (s : State) (topic : UInt32) (p : PeerEntry) : Decidable (s.Listed topic p) :=
  inferInstanceAs (Decidable (p ∈ s.peersOf topic))

/-- A topic's turn prunes its peers and their times. -/
theorem pruneTopic_here (now : Time) (s : TableAndTimes) (entry : UInt32 × ExtTreeSet PeerEntry)
    (q : PeerEntry) :
    (q ∈ (pruneTopic now s entry).1.getD entry.1 ∅ ↔
        q ∈ entry.2 ∧ stale now s.2[TopicPeer.mk entry.1 q]? = false) ∧
      (pruneTopic now s entry).2[TopicPeer.mk entry.1 q]? =
        if q ∈ entry.2 ∧ stale now s.2[TopicPeer.mk entry.1 q]? = true then none
        else s.2[TopicPeer.mk entry.1 q]? := by
  have hhere := prunePeers_here now entry.1 entry.2 s.2 q
  refine ⟨?_, hhere.2⟩
  rw [← hhere.1]
  simp only [pruneTopic]
  rw [Sweep.getD_eraseOrInsert_self s.1 entry.1 ExtTreeSet.isEmpty_iff.mp]

theorem pruneTopic_else (now : Time) (s : TableAndTimes) (entry : UInt32 × ExtTreeSet PeerEntry)
    {topic : UInt32} (htopic : topic ≠ entry.1) :
    (pruneTopic now s entry).1.getD topic ∅ = s.1.getD topic ∅ ∧
      ∀ q, (pruneTopic now s entry).2[TopicPeer.mk topic q]? = s.2[TopicPeer.mk topic q]? :=
  ⟨Sweep.getD_eraseOrInsert_of_ne s.1 htopic,
    fun q => prunePeers_else now entry.1 entry.2 s.2 ⟨topic, q⟩ htopic⟩

/-- Both loops on one topic. -/
theorem pruneTable_spec (now : Time) (table : ExtTreeMap UInt32 (ExtTreeSet PeerEntry))
    (lastSeen : ExtTreeMap TopicPeer Time) (topic : UInt32) (p : PeerEntry) :
    (p ∈ (pruneTable now table lastSeen).1.getD topic ∅ ↔
        p ∈ table.getD topic ∅ ∧ stale now lastSeen[TopicPeer.mk topic p]? = false) ∧
      (pruneTable now table lastSeen).2[TopicPeer.mk topic p]? =
        if p ∈ table.getD topic ∅ ∧ stale now lastSeen[TopicPeer.mk topic p]? = true then none
        else lastSeen[TopicPeer.mk topic p]? := by
  -- what one topic's turn sees and changes: its peers and its times
  let view := fun (t : UInt32) (s : TableAndTimes) =>
    (s.1.getD t ∅, fun q : PeerEntry => s.2[TopicPeer.mk t q]?)
  have helse : ∀ s entry t, t ≠ entry.1 → view t (pruneTopic now s entry) = view t s := by
    intro s entry t ht
    obtain ⟨hpeers, htimes⟩ := pruneTopic_else now s entry ht
    exact Prod.ext hpeers (funext htimes)
  cases hget : table[topic]? with
  | some peers =>
    have hpeers : table.getD topic ∅ = peers := by
      rw [ExtTreeMap.getD_eq_getD_getElem?, hget, Option.getD_some]
    rw [hpeers]
    exact Sweep.foldl_some view
      (fun entry v v' => ∀ q,
        (q ∈ v'.1 ↔ q ∈ entry.2 ∧ stale now (v.2 q) = false) ∧
          v'.2 q = if q ∈ entry.2 ∧ stale now (v.2 q) = true then none else v.2 q)
      (pruneTopic now) (fun s entry q => pruneTopic_here now s entry q) helse hget
      (table, lastSeen) p
  | none =>
    have hempty : table.getD topic ∅ = ∅ := by
      rw [ExtTreeMap.getD_eq_getD_getElem?, hget, Option.getD_none]
    obtain ⟨hpeers, htimes⟩ := Prod.mk.inj
      (Sweep.foldl_none view (pruneTopic now) helse hget (table, lastSeen))
    rw [pruneTable, hpeers, congrFun htimes p, hempty]
    simp

/-- What is left listed is what was listed and is not stale. -/
theorem listed_pruneStale (cfg : Config) (now : Time) (s : State) (topic : UInt32) (p : PeerEntry) :
    (pruneStale cfg now s).Listed topic p ↔
      s.Listed topic p ∧ stale now s.lastSeen[TopicPeer.mk topic p]? = false :=
  (pruneTable_spec now s.table s.lastSeen topic p).1

/-- Only what goes from the table loses its time. -/
theorem lastSeen_pruneStale (cfg : Config) (now : Time) (s : State) (topic : UInt32)
    (p : PeerEntry) :
    (pruneStale cfg now s).lastSeen[TopicPeer.mk topic p]? =
      if s.Listed topic p ∧ stale now s.lastSeen[TopicPeer.mk topic p]? = true then none
      else s.lastSeen[TopicPeer.mk topic p]? :=
  (pruneTable_spec now s.table s.lastSeen topic p).2

/-- A topic is left with the peers that are left, and goes when there are none. -/
theorem table_pruneStale (cfg : Config) (now : Time) (s : State) (topic : UInt32)
    {peers : ExtTreeSet PeerEntry} (h : (pruneStale cfg now s).table[topic]? = some peers) :
    peers.isEmpty = false := by
  let view := fun (t : UInt32) (s : TableAndTimes) => s.1[t]?
  have helse : ∀ s entry t, t ≠ entry.1 → view t (pruneTopic now s entry) = view t s :=
    fun s entry t ht => Sweep.getElem?_eraseOrInsert_of_ne s.1 ht
  cases hget : s.table[topic]? with
  | some before =>
    refine Sweep.foldl_some view (fun _ _ v' => ∀ ps, v' = some ps → ps.isEmpty = false)
      (pruneTopic now) (fun s entry ps hps => ?_) helse hget (s.table, s.lastSeen) peers h
    simp only [view, pruneTopic] at hps
    rw [Sweep.getElem?_eraseOrInsert_self] at hps
    split at hps
    · cases hps
    · next hkept =>
      cases hps
      exact Bool.not_eq_true _ |>.mp hkept
  | none =>
    have hnone := Sweep.foldl_none view (pruneTopic now) helse hget (s.table, s.lastSeen)
    rw [show view topic (s.table, s.lastSeen) = none from hget] at hnone
    have h' : view topic (s.table.toList.foldl (pruneTopic now) (s.table, s.lastSeen)) =
      some peers := h
    rw [hnone] at h'
    cases h'

/-! ### What expiry does to roles and to relay members -/

/-- The role table and its times are swept alike. -/
theorem foldl_roles (now : Time) (entries : List (TopicPeer × Time))
    (roles : ExtTreeMap TopicPeer UInt8) (times : ExtTreeMap TopicPeer Time) :
    entries.foldl
        (fun s entry => if kRegistrationTtlSec < now - entry.2
          then (s.1.erase entry.1, s.2.erase entry.1) else s) (roles, times) =
      (entries.foldl (fun t e => if kRegistrationTtlSec < now - e.2 then t.erase e.1 else t) roles,
        entries.foldl (fun t e => if kRegistrationTtlSec < now - e.2 then t.erase e.1 else t)
          times) := by
  induction entries generalizing roles times with
  | nil => rfl
  | cons e rest ih =>
    simp only [List.foldl_cons]
    by_cases hdue : kRegistrationTtlSec < now - e.2
    · simp only [if_pos hdue, ih]
    · simp only [if_neg hdue, ih]

theorem pruneRoles_getElem? (now : Time) (roleTable : ExtTreeMap TopicPeer UInt8)
    (roleLastSeen : ExtTreeMap TopicPeer Time) (k : TopicPeer) :
    (pruneRoles now roleTable roleLastSeen).1[k]? =
        (if roleLastSeen[k]?.any fun t => decide (kRegistrationTtlSec < now - t) then none
          else roleTable[k]?) ∧
      (pruneRoles now roleTable roleLastSeen).2[k]? =
        roleLastSeen[k]?.filter fun t => !decide (kRegistrationTtlSec < now - t) := by
  rw [pruneRoles, foldl_roles]
  exact ⟨Sweep.getElem?_eraseDue (fun t => kRegistrationTtlSec < now - t) roleLastSeen roleTable k,
    Sweep.getElem?_keepFresh (fun t => kRegistrationTtlSec < now - t) roleLastSeen k⟩

theorem pruneMembers_getElem? (now : Time) (members : ExtTreeMap PeerEntry Time) (p : PeerEntry) :
    (pruneMembers now members)[p]? =
      members[p]?.filter fun t => !decide (kRelayMemberTtlSec < now - t) :=
  Sweep.getElem?_keepFresh (fun t => kRelayMemberTtlSec < now - t) members p

theorem pruneGroups_getElem? (now : Time) (groups : ExtTreeMap UInt32 (ExtTreeMap PeerEntry Time))
    (topic : UInt32) :
    (pruneGroups now groups)[topic]? =
      (groups[topic]?.map (pruneMembers now)).filter fun members => !members.isEmpty := by
  cases hget : groups[topic]? with
  | some members =>
    refine (Sweep.foldl_some (fun (t : UInt32) g => g[t]?)
      (fun entry _ v' => v' = if (pruneMembers now entry.2).isEmpty then none
        else some (pruneMembers now entry.2)) _
      (fun g entry => Sweep.getElem?_eraseOrInsert_self g entry.1)
      (fun g entry t ht => Sweep.getElem?_eraseOrInsert_of_ne g ht) hget groups).trans ?_
    rw [Option.map_some, Option.filter_some]
    cases (pruneMembers now members).isEmpty <;> rfl
  | none =>
    exact (Sweep.foldl_none (fun (t : UInt32) g => g[t]?) _
      (fun g entry t ht => Sweep.getElem?_eraseOrInsert_of_ne g ht) hget groups).trans hget

end Relink.Rlcore
