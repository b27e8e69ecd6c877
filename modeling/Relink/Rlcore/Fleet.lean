import Mathlib.Data.Fintype.Defs
import Mathlib.Data.Fintype.Basic
import Mathlib.Logic.Function.Basic
import Relink.Rlcore.Learned

/-! A fleet of nodes and their rlcore.

Every node registers its groups when it starts and again from its re-registration loop, in either
build and in its own time; requests and acks get lost, calls try again, and the daemon handles what
arrives in whatever order that gives. `fleet_converges` says what the protocol is for: once the
daemon has had each topic of every node, ten more ticks whose calls are answered are enough for a
node to know the addresses of all the others on its topics, exactly those, and each once if no two
of them share one. -/
namespace Relink.Rlcore
open Wire Crypto Transition
open Sources (NamedOnce candidates pushPeer mergePeers_nodup)
open Std (ExtTreeMap)

/-- Nodes and the groups that they register. -/
structure Fleet (ι : Type) where
  cfg : Config
  build : ι → Build
  groups : ι → List Group
  /-- No two groups are listed under one address. -/
  apart : ∀ {i j : ι} {g g' : Group}, g ∈ groups i → g' ∈ groups j →
    g.registrant cfg = g'.registrant cfg → i = j ∧ g = g'
  /-- A node has a topic in one group only, and there once. -/
  partition : ∀ {i : ι} {g g' : Group} {topic : UInt32}, g ∈ groups i → g' ∈ groups i →
    topic ∈ g.topics → topic ∈ g'.topics → g = g'
  distinct : ∀ i, (groups i).Nodup
  declared : ∀ {i : ι} {g : Group}, g ∈ groups i → g.topics.Nodup

/-- What a node has besides its groups. At tick 0 it is in `ensure_started`. -/
structure Loop where
  peers : Peers := ∅
  tick : Nat := 0
  todo : List Group
  woke : Time
  sentAt : TopicPeer → Option Time := fun _ => none

/-- The daemon and the nodes. -/
structure Site (ι : Type) where
  rlcore : State
  node : ι → Loop

/-- What becomes of a request of a call: it does not get to the daemon or is not taken for one, or it
is handled and its answer is lost, with the call's attempts over or another one to come, or the call
takes the answer. -/
inductive Fate where
  | lost
  | unanswered (x : Exchange)
  | retried (x : Exchange)
  | answered (x : Exchange)

def Fate.exchange? : Fate → Option Exchange
  | .lost => none
  | .unanswered x => some x
  | .retried x => some x
  | .answered x => some x

/-- The call is over. -/
def Fate.over : Fate → Bool
  | .retried _ => false
  | _ => true

inductive SiteEvent (ι : Type) where
  /-- A turn of the daemon that is no node's call. -/
  | turn (turn : Turn)
  | wake (i : ι) (delay : Time)
  | call (i : ι) (g : Group) (fate : Fate)

/-- The ticks that are over. -/
def Loop.done (n : Loop) : Nat := if n.todo = [] then n.tick else n.tick - 1

def Site.put {ι : Type} [DecidableEq ι] (n : Site ι) (i : ι) (w : World) : Site ι :=
  ⟨w.rlcore, Function.update n.node i ⟨w.peers, w.tick, w.todo, w.woke, w.sentAt⟩⟩

namespace Fleet
variable {ι : Type} (F : Fleet ι)

/-- Before anything was sent: the daemon's tables are empty, and each node has its groups to
register. -/
def start (born : ι → Time) : Site ι := ⟨{}, fun i => {todo := F.groups i, woke := born i}⟩

/-- The fleet as one of its nodes has to do with it. -/
def world (n : Site ι) (i : ι) : World :=
  ⟨n.rlcore, F.groups i, (n.node i).peers, (n.node i).tick, (n.node i).todo, (n.node i).woke,
    (n.node i).sentAt⟩

/-- The topics that a node's call for a group sends; at tick 0 that is all of them. -/
def sends (n : Site ι) (i : ι) (g : Group) : Option (List UInt32) :=
  (F.build i).toRegister (n.node i).tick (n.node i).peers g

/-- When an event makes the daemon expire its tables. -/
def prunedAt (n : Site ι) : SiteEvent ι → Option Time
  | .turn turn => some turn.pruneAt
  | .wake _ _ => none
  | .call i g fate => fate.exchange?.bind fun x => (F.sends n i g).map fun _ => x.pruneAt

/-- What a fate takes: a request that is handled is read as the group's, and an answer has room
for all that match. -/
def Possible (n : Site ι) (g : Group) (topics : List UInt32) : Fate → Prop
  | .lost => True
  | .unanswered x => x.Handled F.cfg g topics
  | .retried x => x.Handled F.cfg g topics
  | .answered x => x.Handled F.cfg g topics ∧
    (wanted F.cfg n.rlcore x.pruneAt g.src g.lan topics).length ≤ ackRoom F.cfg

/-- The daemon hears requests from the fleet only. A node calls once for each group, at its start
and in every tick, and before the next one. -/
def Allowed (n : Site ι) : SiteEvent ι → Prop
  | .turn turn => turn.request F.cfg = none
  | .wake i _ => (n.node i).todo = []
  | .call i g fate => g ∈ (n.node i).todo ∧ ∀ topics ∈ F.sends n i g, F.Possible n g topics fate

/-- No expiry comes more than a term after the daemon last had a topic of a node. -/
def InTerm (n : Site ι) (e : SiteEvent ι) : Prop :=
  ∀ now ∈ F.prunedAt n e, ∀ i, ∀ g ∈ F.groups i, ∀ topic ∈ g.topics,
    ∀ t ∈ (n.node i).sentAt ⟨topic, g.registrant F.cfg⟩, now - t ≤ kRegistrationTtlSec

/-- A call of the node that sends anything ends with an answer. -/
def Answered (j : ι) (n : Site ι) : SiteEvent ι → Prop
  | .call i g fate => i = j → F.sends n i g ≠ none → fate.over → ∃ x, fate = .answered x
  | _ => True

/-- An address that a group is reached at: the one it is listed under, or its LAN address. -/
def Reaches (g : Group) (addr : PeerEntry) : Prop :=
  addr = g.registrant F.cfg ∨ g.lan.ip ≠ 0 ∧ addr = g.lan

/-- The node offers the address for the topic. -/
def Offers (i : ι) (topic : UInt32) (addr : PeerEntry) : Prop :=
  ∃ g ∈ F.groups i, topic ∈ g.topics ∧ F.Reaches g addr

/-- No two groups on the topic are reached at one address. -/
def OffersApart (topic : UInt32) : Prop :=
  ∀ i, ∀ g ∈ F.groups i, topic ∈ g.topics → ∀ i', ∀ g' ∈ F.groups i', topic ∈ g'.topics →
    ∀ addr, F.Reaches g addr → F.Reaches g' addr → g.registrant F.cfg = g'.registrant F.cfg

/-- The daemon has had each topic of every node. -/
def AllSent (n : Site ι) : Prop :=
  ∀ i, ∀ g ∈ F.groups i, ∀ topic ∈ g.topics,
    ((n.node i).sentAt ⟨topic, g.registrant F.cfg⟩).isSome

instance (n : Site ι) (g : Group) (topics : List UInt32) (fate : Fate) :
    Decidable (F.Possible n g topics fate) :=
  match fate with
  | .lost => .isTrue trivial
  | .unanswered x => inferInstanceAs (Decidable (x.Handled F.cfg g topics))
  | .retried x => inferInstanceAs (Decidable (x.Handled F.cfg g topics))
  | .answered x => inferInstanceAs (Decidable (x.Handled F.cfg g topics ∧ _))

instance (n : Site ι) (e : SiteEvent ι) : Decidable (F.Allowed n e) :=
  match e with
  | .turn turn => inferInstanceAs (Decidable (turn.request F.cfg = none))
  | .wake i _ => inferInstanceAs (Decidable ((n.node i).todo = []))
  | .call i g fate => inferInstanceAs (Decidable (g ∈ (n.node i).todo ∧
      ∀ topics ∈ F.sends n i g, F.Possible n g topics fate))

instance [Fintype ι] (n : Site ι) (e : SiteEvent ι) : Decidable (F.InTerm n e) :=
  have (now : Time) (i : ι) (g : Group) : Decidable (∀ topic ∈ g.topics,
      ∀ t ∈ (n.node i).sentAt ⟨topic, g.registrant F.cfg⟩, now - t ≤ kRegistrationTtlSec) :=
    List.decidableBAll _ g.topics
  inferInstanceAs (Decidable (∀ now ∈ F.prunedAt n e, ∀ i, ∀ g ∈ F.groups i, _))

instance [Fintype ι] (n : Site ι) : Decidable (F.AllSent n) :=
  have (i : ι) (g : Group) : Decidable (∀ topic ∈ g.topics,
      ((n.node i).sentAt ⟨topic, g.registrant F.cfg⟩).isSome) := List.decidableBAll _ g.topics
  inferInstanceAs (Decidable (∀ i, ∀ g ∈ F.groups i, _))

instance (fate : Fate) : Decidable (∃ x, fate = .answered x) :=
  match fate with
  | .lost => .isFalse fun ⟨_, h⟩ => Fate.noConfusion h
  | .unanswered _ => .isFalse fun ⟨_, h⟩ => Fate.noConfusion h
  | .retried _ => .isFalse fun ⟨_, h⟩ => Fate.noConfusion h
  | .answered x => .isTrue ⟨x, rfl⟩

instance [DecidableEq ι] (j : ι) (n : Site ι) (e : SiteEvent ι) : Decidable (F.Answered j n e) :=
  match e with
  | .turn _ => .isTrue trivial
  | .wake .. => .isTrue trivial
  | .call i g fate => inferInstanceAs
      (Decidable (i = j → F.sends n i g ≠ none → fate.over → ∃ x, fate = .answered x))

/-- What a node's call for a group comes to. `ensure_started` does not look whether it has an
address before it enters it. -/
def called (n : Site ι) (i : ι) (g : Group) : Fate → World
  | .lost => {F.world n i with todo := (n.node i).todo.erase g}
  | .unanswered x =>
    {(F.world n i).step F.cfg (F.build i) (.call g x) with peers := (n.node i).peers}
  | .retried x =>
    {(F.world n i).step F.cfg (F.build i) (.call g x) with
      peers := (n.node i).peers
      todo := (n.node i).todo}
  | .answered x =>
    let w := (F.world n i).step F.cfg (F.build i) (.call g x)
    if (n.node i).tick = 0 then
      let r := Rlcore.step F.cfg n.rlcore (x.turn (F.world n i) g)
      {w with peers := ((F.build i).outcome F.cfg r.2).foldl pushPeer (n.node i).peers}
    else w

variable [DecidableEq ι]

def step (n : Site ι) : SiteEvent ι → Site ι
  | .turn turn => {n with rlcore := (Rlcore.step F.cfg n.rlcore turn).1}
  | .wake i delay => n.put i ((F.world n i).step F.cfg (F.build i) (.wake delay))
  | .call i g fate => n.put i (F.called n i g fate)

def run (n : Site ι) (events : List (SiteEvent ι)) : Site ι := events.foldl F.step n

/-- What an event is to a node and the daemon: another node's call is a turn of the daemon. -/
def sees (n : Site ι) (i : ι) : SiteEvent ι → Option Event
  | .turn turn => some (.turn turn)
  | .wake j delay => if j = i then some (.wake delay) else none
  | .call j g fate => fate.exchange?.bind fun x =>
    if j = i then some (.call g x)
    else (F.sends n j g).map fun _ => .turn (x.turn (F.world n j) g)

end Fleet

/-! ### One event -/

namespace Fleet
variable {ι : Type} {F : Fleet ι} {n : Site ι}

/-- What holds of every fleet that has started. -/
structure Inv (F : Fleet ι) (n : Site ι) : Prop where
  todo : ∀ i, (n.node i).todo.Sublist (F.groups i)
  listed : ∀ topic p, n.rlcore.Listed topic p →
    ∃ i, ∃ g ∈ F.groups i, topic ∈ g.topics ∧ p = g.registrant F.cfg ∧
      n.rlcore.lanOf[p]? = some g.lan
  known : ∀ j topic, ∀ addr ∈ (n.node j).peers.getD topic [], ∃ i, i ≠ j ∧ F.Offers i topic addr
  /-- A node that is starting knows nothing of the groups that it has not registered. -/
  unknown : ∀ j, (n.node j).tick = 0 → ∀ g ∈ (n.node j).todo, ∀ topic ∈ g.topics,
    (n.node j).peers.getD topic [] = []
  once : ∀ j topic, F.OffersApart topic → ((n.node j).peers.getD topic []).Nodup

/-- The topics that the daemon has had are registered, as far as `keep` goes. -/
def Registered (F : Fleet ι) (keep : Time → Prop) (n : Site ι) : Prop :=
  ∀ i, ∀ g ∈ F.groups i, ∀ topic ∈ g.topics,
    ∀ t ∈ (n.node i).sentAt ⟨topic, g.registrant F.cfg⟩, keep t →
      Accepted F.cfg ⟨topic, g.registrant F.cfg⟩ (F.world n i)

theorem start_inv (F : Fleet ι) (born : ι → Time) : Inv F (F.start born) where
  todo i := List.Sublist.refl _
  listed topic p h := by simp [State.Listed, State.peersOf, start] at h
  known j topic addr h := by simp [start] at h
  unknown j _ g _ topic _ := by simp [start]
  once j topic _ := by simp [start]

theorem start_registered (F : Fleet ι) (born : ι → Time) (keep : Time → Prop) :
    Registered F keep (F.start born) :=
  fun i g _ topic _ t ht => by cases ht

/-- Where no LAN address is another than the one listed, the groups' addresses are apart. -/
theorem offersApart_of_reaches (h : ∀ i, ∀ g ∈ F.groups i, ∀ addr, F.Reaches g addr →
    addr = g.registrant F.cfg) (topic : UInt32) : F.OffersApart topic :=
  fun i g hg _ i' g' hg' _ addr haddr haddr' =>
    (h i g hg addr haddr).symm.trans (h i' g' hg' addr haddr')

theorem offersApart_plain (hplain : F.cfg.natMode = false) (topic : UInt32) :
    F.OffersApart topic := by
  refine offersApart_of_reaches (fun i g _ addr haddr => ?_) topic
  have hlan : g.registrant F.cfg = g.lan := by
    rw [Group.registrant, hplain]
    rfl
  rcases haddr with haddr | ⟨-, haddr⟩
  · exact haddr
  · rw [haddr, hlan]

/-- What a call that is handled does, but for what the node learns from it. -/
theorem step_call (n : Site ι) (i : ι) (g : Group) (x : Exchange) :
    (F.world n i).step F.cfg (F.build i) (.call g x) =
      match F.sends n i g with
      | none => {F.world n i with todo := (n.node i).todo.erase g}
      | some topics =>
        let r := Rlcore.step F.cfg n.rlcore (x.turn (F.world n i) g)
        { F.world n i with
          todo := (n.node i).todo.erase g
          rlcore := r.1
          peers := ((F.build i).outcome F.cfg r.2).foldl mergePeer (n.node i).peers
          sentAt := noteSent F.cfg (F.world n i) g topics } := by
  simp only [World.step, callGroup, sends, world]
  cases (F.build i).toRegister (n.node i).tick (n.node i).peers g <;> rfl

theorem sends_start (n : Site ι) (i : ι) (g : Group) (htick : (n.node i).tick = 0) :
    F.sends n i g = some g.topics := by
  rw [sends, htick]
  cases F.build i <;> rfl

/-- What is left of the call is the same, whatever its fate. -/
theorem called_loop (n : Site ι) (i : ι) (g : Group) (fate : Fate) :
    (F.called n i g fate).groups = F.groups i ∧ (F.called n i g fate).tick = (n.node i).tick ∧
      (F.called n i g fate).todo =
        (if fate.over then (n.node i).todo.erase g else (n.node i).todo) ∧
      (F.called n i g fate).woke = (n.node i).woke := by
  have hstep : ∀ x, let w := (F.world n i).step F.cfg (F.build i) (.call g x)
      w.groups = F.groups i ∧ w.tick = (n.node i).tick ∧ w.todo = (n.node i).todo.erase g ∧
        w.woke = (n.node i).woke := by
    intro x
    simp only [step_call]
    cases F.sends n i g <;> exact ⟨rfl, rfl, rfl, rfl⟩
  cases fate with
  | lost => exact ⟨rfl, rfl, rfl, rfl⟩
  | unanswered x => exact hstep x
  | retried x =>
    obtain ⟨hgroups, htick, -, hwoke⟩ := hstep x
    exact ⟨hgroups, htick, rfl, hwoke⟩
  | answered x =>
    simp only [called]
    split <;> exact hstep x

/-- A request that is handled changes the daemon and what was sent as a call does. -/
theorem called_daemon (n : Site ι) (i : ι) (g : Group) (fate : Fate) :
    let w := fate.exchange?.elim (F.world n i) fun x =>
      (F.world n i).step F.cfg (F.build i) (.call g x)
    (F.called n i g fate).rlcore = w.rlcore ∧ (F.called n i g fate).sentAt = w.sentAt := by
  cases fate with
  | lost => exact ⟨rfl, rfl⟩
  | unanswered x => exact ⟨rfl, rfl⟩
  | retried x => exact ⟨rfl, rfl⟩
  | answered x =>
    simp only [called, Fate.exchange?, Option.elim_some]
    split <;> exact ⟨rfl, rfl⟩

/-- What a node knows after its call. -/
theorem called_peers (n : Site ι) (i : ι) (g : Group) (fate : Fate) :
    (F.called n i g fate).peers = (n.node i).peers ∧
        (∀ topics ∈ F.sends n i g, ∀ x, fate ≠ .answered x) ∨
      ∃ x topics, fate = .answered x ∧ F.sends n i g = some topics ∧
        (F.called n i g fate).peers = ((F.build i).outcome F.cfg
          (Rlcore.step F.cfg n.rlcore (x.turn (F.world n i) g)).2).foldl (enter (n.node i).tick)
            (n.node i).peers := by
  cases fate with
  | lost => exact Or.inl ⟨rfl, fun _ _ x => Fate.noConfusion⟩
  | unanswered x => exact Or.inl ⟨rfl, fun _ _ x => Fate.noConfusion⟩
  | retried x => exact Or.inl ⟨rfl, fun _ _ x => Fate.noConfusion⟩
  | answered x =>
    simp only [called, enter, step_call]
    cases hsends : F.sends n i g with
    | none =>
      have htick : (n.node i).tick ≠ 0 := fun h => by
        rw [sends_start n i g h] at hsends
        cases hsends
      rw [if_neg htick]
      exact Or.inl ⟨rfl, fun topics htopics => by cases htopics⟩
    | some topics =>
      refine Or.inr ⟨x, topics, rfl, rfl, ?_⟩
      split <;> rfl

/-- A handled call is the group's request. -/
theorem Possible.handled {g : Group} {topics : List UInt32} {fate : Fate}
    (h : F.Possible n g topics fate) {x : Exchange} (hx : fate.exchange? = some x) :
    x.Handled F.cfg g topics := by
  cases fate with
  | lost => cases hx
  | unanswered x' =>
    cases hx
    exact h
  | retried x' =>
    cases hx
    exact h
  | answered x' =>
    cases hx
    exact h.1

/-- A registration as a reply lists it. -/
theorem Inv.ackPeer_eq (hs : Inv F n) {i : ι} {g : Group} (hg : g ∈ F.groups i) {topic : UInt32}
    (hlisted : n.rlcore.Listed topic (g.registrant F.cfg)) :
    ackPeer n.rlcore topic (g.registrant F.cfg) =
      ⟨(g.registrant F.cfg).ip, (g.registrant F.cfg).port, topic, g.lan.ip, g.lan.port⟩ := by
  obtain ⟨i', g', hg', -, hsame, hlan⟩ := hs.listed topic _ hlisted
  obtain ⟨-, rfl⟩ := F.apart hg hg' hsame
  rw [ackPeer, ExtTreeMap.getD_eq_getD_getElem?, hlan, Option.getD_some]

/-- It names the addresses that the group is reached at. -/
theorem Inv.mem_candidates_iff (hs : Inv F n) {i : ι} {g : Group} (hg : g ∈ F.groups i)
    {topic : UInt32} (hlisted : n.rlcore.Listed topic (g.registrant F.cfg)) (addr : PeerEntry) :
    addr ∈ candidates (ackPeer n.rlcore topic (g.registrant F.cfg)) ↔ F.Reaches g addr := by
  rw [hs.ackPeer_eq hg hlisted, mem_candidates]
  rfl

/-- An entry that a call is given, and what it stands for. -/
theorem mem_outcome (hs : Inv F n) {j : ι} {g : Group} {x : Exchange} {topics : List UInt32}
    (hallowed : F.Allowed n (.call j g (.answered x))) (hsends : F.sends n j g = some topics)
    (topic : UInt32) (addr : PeerEntry) :
    (∃ p ∈ (F.build j).outcome F.cfg
        (Rlcore.step F.cfg n.rlcore (x.turn (F.world n j) g)).2, Names p topic addr) ↔
      topic ∈ topics ∧ ∃ i, i ≠ j ∧ ∃ g' ∈ F.groups i, topic ∈ g'.topics ∧
        (pruneStale F.cfg x.pruneAt n.rlcore).Listed topic (g'.registrant F.cfg) ∧
        F.Reaches g' addr := by
  obtain ⟨hmem, hcall⟩ := hallowed
  have hg := (hs.todo j).subset hmem
  obtain ⟨hhandled, hroom⟩ := hcall topics hsends
  have hperm := outcome_wanted (F.build j) (w := F.world n j) hhandled hroom
  have hbefore : ∀ {topic p}, (pruneStale F.cfg x.pruneAt n.rlcore).Listed topic p →
      n.rlcore.Listed topic p := fun h => ((listed_pruneStale F.cfg x.pruneAt n.rlcore _ _).mp h).1
  constructor
  · rintro ⟨p, hp, hnames⟩
    obtain ⟨topic', htopic', q, hq, hne, rfl⟩ := mem_wanted.mp (hperm.mem_iff.mp hp)
    obtain rfl : topic' = topic := hnames.1
    obtain ⟨i, g', hg', hmem', rfl, -⟩ := hs.listed topic' q (hbefore hq)
    refine ⟨htopic', i, ?_, g', hg', hmem', hq, ?_⟩
    · rintro rfl
      have hsame := F.partition hg hg' (toRegister_subset hsends htopic') hmem'
      exact hne (by rw [← hsame]; rfl)
    · exact (hs.mem_candidates_iff hg' (hbefore hq) addr).mp (mem_candidates.mpr hnames.2)
  · rintro ⟨htopic, i, hij, g', hg', hmem', hlisted, haddr⟩
    refine ⟨ackPeer n.rlcore topic (g'.registrant F.cfg), hperm.mem_iff.mpr (mem_wanted.mpr
      ⟨topic, htopic, g'.registrant F.cfg, hlisted, fun hself => ?_, rfl⟩), rfl, ?_⟩
    · exact hij (F.apart hg' hg hself).1
    · exact mem_candidates.mp ((hs.mem_candidates_iff hg' (hbefore hlisted) addr).mpr haddr)

/-- An answer names the topics of its group only. -/
theorem outcome_topicId {j : ι} {g : Group} {x : Exchange} {topics : List UInt32}
    (hallowed : F.Allowed n (.call j g (.answered x))) (hsends : F.sends n j g = some topics)
    {p : RegisterAckPeer} (hp : p ∈ (F.build j).outcome F.cfg
      (Rlcore.step F.cfg n.rlcore (x.turn (F.world n j) g)).2) : p.topicId ∈ g.topics := by
  obtain ⟨hhandled, hroom⟩ := hallowed.2 topics hsends
  have hperm := outcome_wanted (F.build j) (w := F.world n j) hhandled hroom
  exact toRegister_subset hsends (wanted_topicId (hperm.mem_iff.mp hp))

/-- The reply to a call names no address of a topic twice where the groups' addresses are apart. -/
theorem outcome_namedOnce (hs : Inv F n) {j : ι} {g : Group} {x : Exchange} {topics : List UInt32}
    (hallowed : F.Allowed n (.call j g (.answered x))) (hsends : F.sends n j g = some topics)
    (hnodup : topics.Nodup) {topic : UInt32} (hapart : F.OffersApart topic) :
    NamedOnce (((F.build j).outcome F.cfg
      (Rlcore.step F.cfg n.rlcore (x.turn (F.world n j) g)).2).filter (·.topicId = topic)) := by
  obtain ⟨hhandled, hroom⟩ := hallowed.2 topics hsends
  have hperm := outcome_wanted (F.build j) (w := F.world n j) hhandled hroom
  refine namedOnce_perm (wanted_namedOnce hnodup topic fun p p' hp hp' hne => ?_)
    (hperm.symm.filter _)
  intro addr haddr haddr'
  obtain ⟨i, g', hg', hmem, rfl, -⟩ := hs.listed topic p hp
  obtain ⟨i', g'', hg'', hmem', rfl, -⟩ := hs.listed topic p' hp'
  exact hne (hapart i g' hg' hmem i' g'' hg'' hmem' addr
    ((hs.mem_candidates_iff hg' hp addr).mp haddr) ((hs.mem_candidates_iff hg'' hp' addr).mp haddr'))

variable [DecidableEq ι]

theorem put_self (n : Site ι) (i : ι) (w : World) (hgroups : w.groups = F.groups i) :
    F.world (n.put i w) i = w := by
  cases w
  cases hgroups
  simp only [world, Site.put, Function.update_self]

theorem put_ne (n : Site ι) {i j : ι} (w : World) (hne : j ≠ i) :
    F.world (n.put j w) i = {F.world n i with rlcore := w.rlcore} := by
  simp only [world, Site.put, Function.update_of_ne hne.symm]

/-- A node goes along with the fleet by what it sees, but for what it learns. -/
theorem world_step (n : Site ι) (e : SiteEvent ι) (i : ι) :
    F.world (F.step n e) i =
      {(F.sees n i e).elim (F.world n i) ((F.world n i).step F.cfg (F.build i)) with
        todo := ((F.step n e).node i).todo
        peers := ((F.step n e).node i).peers} := by
  cases e with
  | turn turn => rfl
  | wake j delay =>
    simp only [step, sees]
    by_cases hji : j = i
    · subst hji
      rw [if_pos rfl, put_self _ _ _ rfl]
      simp only [Site.put, Function.update_self]
      rfl
    · rw [if_neg hji, put_ne n _ hji]
      simp only [Site.put, Function.update_of_ne (Ne.symm hji)]
      rfl
  | call j g fate =>
    obtain ⟨hgroups, htick, -, hwoke⟩ := called_loop (F := F) n j g fate
    obtain ⟨hrlcore, hsent⟩ := called_daemon (F := F) n j g fate
    simp only [step, sees]
    by_cases hji : j = i
    · subst hji
      rw [put_self _ _ _ hgroups]
      simp only [Site.put, Function.update_self, if_true]
      have hcalled : F.called n j g fate = ⟨(F.called n j g fate).rlcore, F.groups j,
          (F.called n j g fate).peers, (n.node j).tick, (F.called n j g fate).todo,
          (n.node j).woke, (F.called n j g fate).sentAt⟩ := by
        rw [← hgroups, ← htick, ← hwoke]
      rw [hcalled, hrlcore, hsent]
      cases fate.exchange? with
      | none => rfl
      | some x =>
        simp only [Option.elim_some, Option.bind_some, step_call]
        cases F.sends n j g <;> rfl
    · rw [put_ne n _ hji, hrlcore]
      simp only [Site.put, Function.update_of_ne (Ne.symm hji), if_neg hji]
      cases fate.exchange? with
      | none => rfl
      | some x =>
        simp only [Option.elim_some, Option.bind_some, step_call]
        cases F.sends n j g <;> rfl

theorem sees_allowed (hs : Inv F n) {e : SiteEvent ι} (hallowed : F.Allowed n e) {i : ι} {e' : Event}
    (he : F.sees n i e = some e') (hwake : ∀ delay, e' ≠ .wake delay) :
    Rlcore.Allowed F.cfg (F.build i) (F.world n i) e' := by
  cases e with
  | turn turn =>
    cases he
    intro r hr
    have hnone : turn.request F.cfg = none := hallowed
    rw [hnone] at hr
    cases hr
  | wake j delay =>
    simp only [sees] at he
    split at he
    · cases he
      exact absurd rfl (hwake delay)
    · cases he
  | call j g fate =>
    obtain ⟨hg, hcall⟩ := hallowed
    obtain ⟨x, hx, hevent⟩ := Option.bind_eq_some_iff.mp he
    split at hevent
    · next hji =>
      subst hji
      cases hevent
      exact ⟨hg, fun topics htopics => (hcall topics htopics).handled hx⟩
    · next hji =>
      obtain ⟨topics, htopics, rfl⟩ := Option.map_eq_some_iff.mp hevent
      obtain ⟨req, hreq, hid, -⟩ :=
        Exchange.turn_request (F.world n j) ((hcall topics htopics).handled hx)
      intro r hr g' hg' hsame
      rw [hreq, Option.mem_some_iff] at hr
      rw [← hr, hid] at hsame
      exact hji (F.apart ((hs.todo j).subset hg) hg' hsame).1

/-- A node sees every expiry. -/
theorem sees_prunedAt {e : SiteEvent ι} {i : ι} {e' : Event} (he : F.sees n i e = some e')
    {now : Time} (hnow : now ∈ Rlcore.prunedAt (F.build i) (F.world n i) e') :
    now ∈ F.prunedAt n e := by
  cases e with
  | turn turn =>
    cases he
    exact hnow
  | wake j delay =>
    simp only [sees] at he
    split at he
    · cases he
      cases hnow
    · cases he
  | call j g' fate =>
    obtain ⟨x, hx, hevent⟩ := Option.bind_eq_some_iff.mp he
    rw [prunedAt, hx]
    split at hevent
    · next hji =>
      subst hji
      cases hevent
      exact hnow
    · obtain ⟨topics, htopics, rfl⟩ := Option.map_eq_some_iff.mp hevent
      rw [Option.bind_some, htopics]
      exact hnow

/-- What was had is registered, and stays so, while what is kept is in term. -/
theorem Registered.step {keep : Time → Prop} (h : Registered F keep n) (hs : Inv F n)
    {e : SiteEvent ι} (hallowed : F.Allowed n e) (hterm : ∀ now ∈ F.prunedAt n e, ∀ i,
      ∀ g ∈ F.groups i, ∀ topic ∈ g.topics, ∀ t ∈ (n.node i).sentAt ⟨topic, g.registrant F.cfg⟩,
        keep t → now - t ≤ kRegistrationTtlSec) : Registered F keep (F.step n e) := by
  intro i g hg topic htopic t ht hkeep
  have ht : (F.world (F.step n e) i).sentAt ⟨topic, g.registrant F.cfg⟩ = some t := ht
  rw [world_step] at ht ⊢
  have hold : ∀ ht : (n.node i).sentAt ⟨topic, g.registrant F.cfg⟩ = some t,
      Accepted F.cfg ⟨topic, g.registrant F.cfg⟩ (F.world n i) ∧ ∀ now ∈ F.prunedAt n e,
        now - t ≤ kRegistrationTtlSec := fun ht =>
    ⟨h i g hg topic htopic t ht hkeep, fun now hnow => hterm now hnow i g hg topic htopic t ht hkeep⟩
  cases he : F.sees n i e with
  | none =>
    rw [he] at ht
    have hhere := (hold ht).1
    exact ⟨hhere.ours, hhere.sent, hhere.listed, hhere.seen⟩
  | some e' =>
    rw [he] at ht
    simp only [Option.elim_some] at ht ⊢
    have hgoes : Accepted F.cfg ⟨topic, g.registrant F.cfg⟩
        ((F.world n i).step F.cfg (F.build i) e') := by
      have hkept : ∀ ht : (n.node i).sentAt ⟨topic, g.registrant F.cfg⟩ = some t,
          (∀ delay, e' ≠ .wake delay) → Accepted F.cfg ⟨topic, g.registrant F.cfg⟩
            ((F.world n i).step F.cfg (F.build i) e') := by
        intro ht hwake
        obtain ⟨hhere, hterm⟩ := hold ht
        refine hhere.step (sees_allowed hs hallowed he hwake) ((hhere.kept_iff _).mpr ?_)
        intro now hnow t' ht'
        obtain rfl : t = t' := Option.some.inj (ht.symm.trans ht')
        exact hterm now (sees_prunedAt he hnow)
      cases e' with
      | wake delay =>
        have hhere := (hold ht).1
        exact ⟨hhere.ours, hhere.sent, hhere.listed, hhere.seen⟩
      | turn turn => exact hkept ht fun _ => Event.noConfusion
      | call g' x =>
        have hallowed' := sees_allowed hs hallowed he fun _ => Event.noConfusion
        by_cases hnew : ∃ topics, F.sends n i g' = some topics ∧
            g.registrant F.cfg = g'.registrant F.cfg ∧ topic ∈ topics
        · obtain ⟨topics, hsends, hsame, hmem⟩ := hnew
          have hg' : g' ∈ F.groups i := (hs.todo i).subset hallowed'.1
          have := accepted_call (w := F.world n i) hg' hsends (hallowed'.2 topics hsends) hmem
          rwa [← hsame] at this
        · refine hkept ?_ fun _ => Event.noConfusion
          rw [step_call] at ht
          cases hsends : F.sends n i g' with
          | none =>
            rw [hsends] at ht
            exact ht
          | some topics =>
            rw [hsends] at ht
            simp only [noteSent] at ht
            rwa [if_neg fun h => hnew ⟨topics, hsends, h⟩] at ht
    exact ⟨hgoes.ours, hgoes.sent, hgoes.listed, hgoes.seen⟩

/-- What the daemon's tables are after an event. -/
theorem step_rlcore (hs : Inv F n) {e : SiteEvent ι} (hallowed : F.Allowed n e) :
    (F.step n e).rlcore = n.rlcore ∨ ∃ now,
      ((F.step n e).rlcore.table = (pruneStale F.cfg now n.rlcore).table ∧
        (F.step n e).rlcore.lanOf = n.rlcore.lanOf) ∨
      ∃ i, ∃ g ∈ F.groups i, ∃ topics, topics ⊆ g.topics ∧ ∃ sentAt, (F.step n e).rlcore =
        enroll sentAt (g.registrant F.cfg) g.lan topics (pruneStale F.cfg now n.rlcore) := by
  cases e with
  | turn turn =>
    obtain ⟨htable, -, hlan⟩ := step_other n.rlcore (show turn.request F.cfg = none from hallowed)
    exact Or.inr ⟨turn.pruneAt, Or.inl ⟨htable, hlan⟩⟩
  | wake i delay => exact Or.inl rfl
  | call i g fate =>
    obtain ⟨hg, hcall⟩ := hallowed
    have hrlcore : (F.step n (.call i g fate)).rlcore = (F.called n i g fate).rlcore := rfl
    rw [hrlcore, (called_daemon n i g fate).1]
    cases hx : fate.exchange? with
    | none => exact Or.inl rfl
    | some x =>
      simp only [Option.elim_some, step_call]
      cases hsends : F.sends n i g with
      | none => exact Or.inl rfl
      | some topics =>
        refine Or.inr ⟨x.pruneAt, Or.inr ⟨i, g, (hs.todo i).subset hg, topics,
          toRegister_subset hsends, (n.node i).woke, ?_⟩⟩
        show (Rlcore.step F.cfg (F.world n i).rlcore (x.turn (F.world n i) g)).1 = _
        rw [Exchange.turn_asks (F.world n i) ((hcall topics hsends).handled hx)]
        rfl

/-- Only groups of the fleet are registered, with their LAN addresses. -/
theorem listed_step (hs : Inv F n) {e : SiteEvent ι} (hallowed : F.Allowed n e) (topic : UInt32)
    (p : PeerEntry) (h : (F.step n e).rlcore.Listed topic p) :
    ∃ i, ∃ g ∈ F.groups i, topic ∈ g.topics ∧ p = g.registrant F.cfg ∧
      (F.step n e).rlcore.lanOf[p]? = some g.lan := by
  rcases step_rlcore hs hallowed with heq | ⟨now, ⟨htable, hlan⟩ | ⟨i, g, hg, topics, hsub, sentAt, heq⟩⟩
  · rw [heq] at h ⊢
    exact hs.listed topic p h
  · rw [State.Listed, State.peersOf, htable] at h
    rw [hlan]
    exact hs.listed topic p ((listed_pruneStale F.cfg now n.rlcore topic p).mp h).1
  · rw [heq, enroll_listed] at h
    rw [heq, enroll_lanOf, ExtTreeMap.getElem?_insert]
    by_cases hself : p = g.registrant F.cfg
    · subst hself
      rw [if_pos Std.ReflOrd.compare_self]
      rcases h with h | ⟨-, hmem⟩
      · obtain ⟨i', g', hg', htopic, hsame, -⟩ :=
          hs.listed topic _ ((listed_pruneStale F.cfg now n.rlcore topic _).mp h).1
        obtain ⟨-, rfl⟩ := F.apart hg hg' hsame
        exact ⟨i, g, hg, htopic, rfl, rfl⟩
      · exact ⟨i, g, hg, hsub hmem, rfl, rfl⟩
    · rw [if_neg (by rw [Std.compare_eq_iff_eq]; exact Ne.symm hself)]
      have h := h.resolve_right fun hhere => hself hhere.1
      exact hs.listed topic p ((listed_pruneStale F.cfg now n.rlcore topic p).mp h).1

/-- Only its own events move a node's loop on. -/
theorem step_loop (n : Site ι) (e : SiteEvent ι) (j : ι) :
    ((F.step n e).node j).tick =
        (match e with
        | .wake i _ => if i = j then (n.node j).tick + 1 else (n.node j).tick
        | _ => (n.node j).tick) ∧
      ((F.step n e).node j).todo =
        match e with
        | .turn _ => (n.node j).todo
        | .wake i _ => if i = j then F.groups j else (n.node j).todo
        | .call i g fate =>
          if i = j ∧ fate.over then (n.node j).todo.erase g else (n.node j).todo := by
  cases e with
  | turn turn => exact ⟨rfl, rfl⟩
  | wake i delay =>
    simp only [step, Site.put]
    by_cases hij : i = j
    · subst hij
      rw [Function.update_self, if_pos rfl, if_pos rfl]
      exact ⟨rfl, rfl⟩
    · rw [Function.update_of_ne (Ne.symm hij), if_neg hij, if_neg hij]
      exact ⟨rfl, rfl⟩
  | call i g fate =>
    obtain ⟨-, htick, htodo, -⟩ := called_loop (F := F) n i g fate
    simp only [step, Site.put]
    by_cases hij : i = j
    · subst hij
      rw [Function.update_self]
      simp only [true_and]
      exact ⟨htick, htodo⟩
    · rw [Function.update_of_ne (Ne.symm hij), if_neg fun h => hij h.1]
      exact ⟨rfl, rfl⟩

/-- What a node knows after an event. -/
theorem step_peers (n : Site ι) (e : SiteEvent ι) (j : ι) :
    ((F.step n e).node j).peers = (n.node j).peers ∨
      ∃ g x topics, e = .call j g (.answered x) ∧ F.sends n j g = some topics ∧
        ((F.step n e).node j).peers = ((F.build j).outcome F.cfg
          (Rlcore.step F.cfg n.rlcore (x.turn (F.world n j) g)).2).foldl (enter (n.node j).tick)
            (n.node j).peers := by
  cases e with
  | turn turn => exact Or.inl rfl
  | wake i delay =>
    left
    simp only [step, Site.put]
    by_cases hij : i = j
    · subst hij
      rw [Function.update_self]
      rfl
    · rw [Function.update_of_ne (Ne.symm hij)]
  | call i g fate =>
    simp only [step, Site.put]
    by_cases hij : i = j
    · subst hij
      rw [Function.update_self]
      rcases called_peers (F := F) n i g fate with ⟨hsame, -⟩ | ⟨x, topics, rfl, hsends, heq⟩
      · exact Or.inl hsame
      · exact Or.inr ⟨g, x, topics, rfl, hsends, heq⟩
    · rw [Function.update_of_ne (Ne.symm hij)]
      exact Or.inl rfl

/-- What a node that is starting learns is about the group that it registers. -/
theorem unknown_step (hs : Inv F n) {e : SiteEvent ι} (hallowed : F.Allowed n e) (j : ι)
    (htick : ((F.step n e).node j).tick = 0) (g : Group) (hg : g ∈ ((F.step n e).node j).todo)
    (topic : UInt32) (htopic : topic ∈ g.topics) :
    ((F.step n e).node j).peers.getD topic [] = [] := by
  obtain ⟨hticks, htodo⟩ := step_loop (F := F) n e j
  rw [hticks] at htick
  rw [htodo] at hg
  have hbefore : ∀ htodo : g ∈ (n.node j).todo, (n.node j).tick = 0 →
      (n.node j).peers.getD topic [] = [] := fun htodo htick => hs.unknown j htick g htodo topic htopic
  rcases step_peers n e j with heq | ⟨g', x, topics, rfl, hsends, heq⟩
  · rw [heq]
    cases e with
    | turn turn => exact hbefore hg htick
    | wake i delay =>
      simp only at htick hg
      by_cases hij : i = j
      · rw [if_pos hij] at htick
        cases htick
      · rw [if_neg hij] at htick hg
        exact hbefore hg htick
    | call i g' fate =>
      simp only at htick hg
      split at hg
      · exact hbefore (List.mem_of_mem_erase hg) htick
      · exact hbefore hg htick
  · simp only [Fate.over, and_true, if_true] at htick hg
    have htodo := List.mem_of_mem_erase hg
    rw [heq, enter_getD_of_forall_ne fun p hp hsame => ?_]
    · exact hbefore htodo htick
    · have hasked := outcome_topicId hallowed hsends hp
      rw [hsame] at hasked
      have hgroup := F.partition ((hs.todo j).subset hallowed.1) ((hs.todo j).subset htodo) hasked
        htopic
      rw [← hgroup] at hg
      exact ((F.distinct j).sublist (hs.todo j)).not_mem_erase hg

/-- Where no groups on the topic share an address, none gets listed twice. -/
theorem once_step (hs : Inv F n) {e : SiteEvent ι} (hallowed : F.Allowed n e) (j : ι)
    (topic : UInt32) (hapart : F.OffersApart topic) :
    (((F.step n e).node j).peers.getD topic []).Nodup := by
  have hold := hs.once j topic hapart
  rcases step_peers n e j with heq | ⟨g, x, topics, rfl, hsends, heq⟩
  · rwa [heq]
  rw [heq]
  by_cases htick : (n.node j).tick = 0
  · -- the whole group is asked for, and nothing of it is known
    rw [sends_start n j g htick, Option.some.injEq] at hsends
    subst hsends
    have hsends := sends_start (F := F) n j g htick
    by_cases htopic : topic ∈ g.topics
    · rw [htick, enter]
      exact pushPeers_nodup (outcome_namedOnce hs hallowed hsends
        (F.declared ((hs.todo j).subset hallowed.1)) hapart)
        (hs.unknown j htick g hallowed.1 topic htopic)
    · have hother : ∀ p ∈ (F.build j).outcome F.cfg
          (Rlcore.step F.cfg n.rlcore (x.turn (F.world n j) g)).2, p.topicId ≠ topic := by
        rintro p hp rfl
        exact htopic (outcome_topicId hallowed hsends hp)
      rwa [enter_getD_of_forall_ne hother]
  · rw [enter, if_neg htick]
    exact (mergePeers_nodup ..).mpr hold

theorem Inv.step (hs : Inv F n) {e : SiteEvent ι} (hallowed : F.Allowed n e) :
    Inv F (F.step n e) where
  todo i := by
    rw [(step_loop n e i).2]
    cases e with
    | turn turn => exact hs.todo i
    | wake j delay =>
      simp only
      split
      · exact List.Sublist.refl _
      · exact hs.todo i
    | call j g fate =>
      simp only
      split
      · exact List.erase_sublist.trans (hs.todo i)
      · exact hs.todo i
  listed := listed_step hs hallowed
  known j topic addr haddr := by
    rcases step_peers n e j with heq | ⟨g, x, topics, rfl, hsends, heq⟩
    · rw [heq] at haddr
      exact hs.known j topic addr haddr
    · rw [heq, mem_enter] at haddr
      rcases haddr with hnew | hold
      · obtain ⟨-, i, hij, g', hg', hmem, -, haddr⟩ :=
          (mem_outcome hs hallowed hsends topic addr).mp hnew
        exact ⟨i, hij, g', hg', hmem, haddr⟩
      · exact hs.known j topic addr hold
  unknown := unknown_step hs hallowed
  once := once_step hs hallowed

/-! ### Ten ticks -/

/-- The node knows every address that the others offer for the topic. -/
def KnowsAll (F : Fleet ι) (n : Site ι) (j : ι) (topic : UInt32) : Prop :=
  ∀ i, i ≠ j → ∀ addr, F.Offers i topic addr → addr ∈ (n.node j).peers.getD topic []

/-- Nothing is forgotten. -/
theorem KnowsAll.step {j : ι} {topic : UInt32} (h : KnowsAll F n j topic) (e : SiteEvent ι) :
    KnowsAll F (F.step n e) j topic := by
  intro i hij addr hoffers
  have hold := h i hij addr hoffers
  rcases step_peers n e j with heq | ⟨g, x, topics, -, -, heq⟩
  · rwa [heq]
  · rw [heq, mem_enter]
    exact Or.inr hold

theorem AllSent.step (h : F.AllSent n) (e : SiteEvent ι) : F.AllSent (F.step n e) := by
  intro i g hg topic htopic
  have hold := h i g hg topic htopic
  have hworld : ((F.step n e).node i).sentAt = (F.world (F.step n e) i).sentAt := rfl
  rw [hworld, world_step]
  cases F.sees n i e with
  | none => exact hold
  | some e' =>
    cases e' with
    | turn turn => exact hold
    | wake delay => exact hold
    | call g' x =>
      simp only [Option.elim_some, step_call]
      split
      · exact hold
      · simp only [noteSent]
        split
        · rfl
        · exact hold

/-- A sweep asks for every topic, and the answer lists all whose topics the daemon has had. -/
theorem knowsAll_sweep (hs : Inv F n) (hreg : Registered F (fun _ => True) n) (hsent : F.AllSent n)
    {j : ι} {g : Group} {x : Exchange} (hallowed : F.Allowed n (.call j g (.answered x)))
    (hterm : F.InTerm n (.call j g (.answered x))) {topic : UInt32} (htopic : topic ∈ g.topics)
    (hsweep : fullSweep (n.node j).tick = true) :
    KnowsAll F (F.step n (.call j g (.answered x))) j topic := by
  obtain ⟨topics, hsends, hmem⟩ :=
    (F.build j).toRegister_sends (n.node j).tick (n.node j).peers htopic (Or.inl hsweep)
  have hcalled : F.sends n j g = some topics := hsends
  intro i hij addr ⟨g', hg', htopic', haddr⟩
  obtain ⟨t, ht⟩ := Option.isSome_iff_exists.mp (hsent i g' hg' topic htopic')
  have haccepted := hreg i g' hg' topic htopic' t ht trivial
  have hlisted := (haccepted.prune_listed ht x.pruneAt).mpr
    (hterm x.pruneAt (by rw [prunedAt, hcalled]; rfl) i g' hg' topic htopic' t ht)
  have hnamed := (mem_outcome hs hallowed hcalled topic addr).mpr
    ⟨hmem, i, hij, g', hg', htopic', hlisted, haddr⟩
  rcases called_peers n j g (.answered x) with ⟨-, hnone⟩ | ⟨x', topics', hx', -, heq⟩
  · exact absurd rfl (hnone topics hcalled x)
  · cases hx'
    have hpeers : ((F.step n (.call j g (.answered x))).node j).peers =
        (F.called n j g (.answered x)).peers := by
      simp only [step, Site.put, Function.update_self]
    rw [hpeers, heq, mem_enter]
    exact Or.inl hnamed

/-- Of the ticks after number `m₀`, a sweep is over once the node knows the others; until then
it has the group's call ahead. -/
def Swept (F : Fleet ι) (j : ι) (g : Group) (topic : UInt32) (m₀ : Nat) (n : Site ι) : Prop :=
  KnowsAll F n j topic ∨ ∀ m, m₀ < m → m ≤ (n.node j).tick → fullSweep m = true →
    m = (n.node j).tick ∧ g ∈ (n.node j).todo

theorem Swept.step {j : ι} {g : Group} {topic : UInt32} {m₀ : Nat}
    (h : Swept F j g topic m₀ n) (hs : Inv F n) (hreg : Registered F (fun _ => True) n)
    (hsent : F.AllSent n) (hg : g ∈ F.groups j) (htopic : topic ∈ g.topics) {e : SiteEvent ι}
    (hallowed : F.Allowed n e) (hterm : F.InTerm n e) (hanswered : F.Answered j n e) :
    Swept F j g topic m₀ (F.step n e) := by
  rcases h with h | h
  · exact Or.inl (h.step e)
  obtain ⟨htick, htodo⟩ := step_loop (F := F) n e j
  rw [Swept, htick, htodo]
  cases e with
  | turn turn => exact Or.inr h
  | wake i delay =>
    simp only
    by_cases hij : i = j
    · subst hij
      have hidle : (n.node i).todo = [] := hallowed
      rw [if_pos rfl, if_pos rfl]
      refine Or.inr fun m hm hle hsweep => ?_
      rcases Nat.le_succ_iff.mp hle with hle | rfl
      · -- an earlier sweep has no call ahead
        have := (h m hm hle hsweep).2
        rw [hidle] at this
        cases this
      · exact ⟨rfl, hg⟩
    · rw [if_neg hij, if_neg hij]
      exact Or.inr h
  | call i g' fate =>
    simp only
    by_cases hij : i = j
    · subst hij
      by_cases hsweep : fullSweep (n.node i).tick = true ∧ g' = g
      · obtain ⟨hsweep, rfl⟩ := hsweep
        obtain ⟨topics, hsends, -⟩ :=
          (F.build i).toRegister_sends (n.node i).tick (n.node i).peers htopic (Or.inl hsweep)
        have hcalled : F.sends n i g' = some topics := hsends
        by_cases hover : fate.over
        · obtain ⟨x, rfl⟩ := hanswered rfl (by rw [hcalled]; exact Option.some_ne_none _) hover
          exact Or.inl (knowsAll_sweep hs hreg hsent hallowed hterm htopic hsweep)
        · rw [if_neg fun h => hover h.2]
          exact Or.inr h
      · refine Or.inr fun m hm hle hmsweep => ?_
        obtain ⟨rfl, hahead⟩ := h m hm hle hmsweep
        have hne : g ≠ g' := fun heq => hsweep ⟨hmsweep, heq.symm⟩
        refine ⟨rfl, ?_⟩
        split
        · exact (List.mem_erase_of_ne hne).mpr hahead
        · exact hahead
    · rw [if_neg fun h => hij h.1]
      exact Or.inr h

omit [DecidableEq ι] in
/-- Ten ticks have a sweep among them. -/
theorem Swept.knowsAll {j : ι} {g : Group} {topic : UInt32} {m₀ : Nat}
    (h : Swept F j g topic m₀ n) (hticks : m₀ + 10 ≤ (n.node j).done) : KnowsAll F n j topic := by
  rcases h with h | h
  · exact h
  have hsweep : fullSweep (10 * (m₀ / 10 + 1)) = true := decide_eq_true (Nat.mul_mod_right ..)
  have hdone : (n.node j).done ≤ (n.node j).tick := by
    rw [Loop.done]
    split
    · exact Nat.le_refl _
    · exact Nat.sub_le ..
  obtain ⟨hlast, hahead⟩ := h (10 * (m₀ / 10 + 1)) (by omega) (by omega) hsweep
  -- the sweep would be the current tick, which is not over
  rw [Loop.done, if_neg (List.ne_nil_of_mem hahead)] at hticks
  omega

/-! ### Every run -/

theorem run_append (n : Site ι) (before after : List (SiteEvent ι)) :
    F.run n (before ++ after) = F.run (F.run n before) after := List.foldl_append

theorem run_inv (F : Fleet ι) (born : ι → Time) {events : List (SiteEvent ι)}
    (hallowed : Throughout F.step F.Allowed (F.start born) events) :
    Inv F (F.run (F.start born) events) :=
  Throughout.invariant (Inv F) (fun _ _ hs hc => hs.step hc) (start_inv F born) hallowed

/-- Ten ticks after the daemon has had all topics. -/
theorem knowsAll_run (F : Fleet ι) (born : ι → Time) {before after : List (SiteEvent ι)}
    (hallowed : Throughout F.step F.Allowed (F.start born) (before ++ after))
    (hterm : Throughout F.step F.InTerm (F.start born) (before ++ after))
    (hsent : F.AllSent (F.run (F.start born) before)) {j : ι}
    (hanswered : Throughout F.step (F.Answered j) (F.run (F.start born) before) after)
    (hticks : ((F.run (F.start born) before).node j).tick + 10 ≤
      ((F.run (F.start born) (before ++ after)).node j).done)
    {g : Group} (hg : g ∈ F.groups j) {topic : UInt32} (htopic : topic ∈ g.topics) :
    KnowsAll F (F.run (F.start born) (before ++ after)) j topic := by
  have hstep : ∀ (n : Site ι) (e : SiteEvent ι), Inv F n ∧ Registered F (fun _ => True) n →
      F.Allowed n e ∧ F.InTerm n e →
      Inv F (F.step n e) ∧ Registered F (fun _ => True) (F.step n e) := by
    intro n e hs hc
    refine ⟨hs.1.step hc.1, hs.2.step hs.1 hc.1 fun now hnow i g hg topic htopic t ht _ => ?_⟩
    exact hc.2 now hnow i g hg topic htopic t ht
  obtain ⟨hallowed, hallowed'⟩ := Throughout.append.mp hallowed
  obtain ⟨hterm, hterm'⟩ := Throughout.append.mp hterm
  have hstart := Throughout.invariant (fun n => Inv F n ∧ Registered F (fun _ => True) n) hstep
    ⟨start_inv F born, start_registered F born _⟩ (hallowed.and hterm)
  have hend := Throughout.invariant
    (fun n => (Inv F n ∧ Registered F (fun _ => True) n) ∧ F.AllSent n ∧
      Swept F j g topic ((F.run (F.start born) before).node j).tick n)
    (fun n e hs hc => ⟨hstep n e hs.1 hc.1, AllSent.step hs.2.1 e,
      hs.2.2.step hs.1.1 hs.1.2 hs.2.1 hg htopic hc.1.1 hc.1.2 hc.2⟩)
    ⟨hstart, hsent, Or.inr fun m hm hle _ => absurd hm (Nat.not_lt.mpr hle)⟩
    ((hallowed'.and hterm').and hanswered)
  rw [run_append] at hticks ⊢
  exact hend.2.2.knowsAll hticks

/-- **Every node finds every other.** In any order of events from the start of a fleet, ten answered
ticks of a node after the daemon has had all topics it knows the addresses that the others offer,
exactly those, and each once where they are apart, as they always are without NAT. -/
theorem fleet_converges (F : Fleet ι) (born : ι → Time) (before after : List (SiteEvent ι))
    (hallowed : Throughout F.step F.Allowed (F.start born) (before ++ after))
    (hterm : Throughout F.step F.InTerm (F.start born) (before ++ after))
    (hsent : F.AllSent (F.run (F.start born) before)) (j : ι)
    (hanswered : Throughout F.step (F.Answered j) (F.run (F.start born) before) after)
    (hticks : ((F.run (F.start born) before).node j).tick + 10 ≤
      ((F.run (F.start born) (before ++ after)).node j).done)
    (g : Group) (hg : g ∈ F.groups j) (topic : UInt32) (htopic : topic ∈ g.topics) :
    (∀ addr, addr ∈ ((F.run (F.start born) (before ++ after)).node j).peers.getD topic [] ↔
        ∃ i, i ≠ j ∧ F.Offers i topic addr) ∧
      (F.cfg.natMode = false ∨ F.OffersApart topic →
        (((F.run (F.start born) (before ++ after)).node j).peers.getD topic []).Nodup) := by
  have hinv := run_inv F born hallowed
  have hall := knowsAll_run F born hallowed hterm hsent hanswered hticks hg htopic
  refine ⟨fun addr => ⟨hinv.known j topic addr, ?_⟩, fun hapart =>
    hinv.once j topic (hapart.elim (offersApart_plain · topic) id)⟩
  rintro ⟨i, hij, hoffers⟩
  exact hall i hij addr hoffers

/-- A node of each build on topic 7. -/
def pair : Fleet Bool where
  cfg := .plain
  build i := if i then .python else .cpp
  groups i := if i then [⟨⟨3, 4⟩, ⟨3, 4⟩, [7]⟩] else [⟨⟨1, 2⟩, ⟨1, 2⟩, [7]⟩]
  apart {i j g g'} hg hg' h := by
    cases i <;> cases j <;> simp_all [Group.registrant]
  partition {i g g' topic} hg hg' _ _ := by
    cases i <;> simp_all
  distinct i := by cases i <;> decide
  declared {i g} hg := by
    cases i <;> simp_all

/-- The exchange of a node's call, three tenths of a second after the last. -/
def pairExchange (ip : UInt32) (port : UInt16) (tick : Nat) : Exchange :=
  ⟨requestBytes ip port [7], tick * 3 / 10, Vector.replicate 12 0⟩

/-- The first node's start is answered; the second's request is handled for nothing, and the next
one is lost. -/
def pairStart : List (SiteEvent Bool) :=
  [.call false ⟨⟨1, 2⟩, ⟨1, 2⟩, [7]⟩ (.answered (pairExchange 1 2 0)),
    .call true ⟨⟨3, 4⟩, ⟨3, 4⟩, [7]⟩ (.retried (pairExchange 3 4 0)),
    .call true ⟨⟨3, 4⟩, ⟨3, 4⟩, [7]⟩ .lost]

/-- A tick of one node and then of the other. -/
def pairTick (tick : Nat) : List (SiteEvent Bool) :=
  [.wake false (3 / 10),
    .call false ⟨⟨1, 2⟩, ⟨1, 2⟩, [7]⟩ (.answered (pairExchange 1 2 tick)),
    .wake true (3 / 10),
    .call true ⟨⟨3, 4⟩, ⟨3, 4⟩, [7]⟩ (.answered (pairExchange 3 4 tick))]

/-- A run of the pair: a tick of each node after the start, and then ten more. -/
def pairBefore : List (SiteEvent Bool) := pairStart ++ pairTick 1

def pairAfter : List (SiteEvent Bool) := (List.range' 2 10).flatMap pairTick

theorem pair_allowed :
    Throughout pair.step pair.Allowed (pair.start fun _ => 0) (pairBefore ++ pairAfter) := by
  decide +kernel

theorem pair_inTerm :
    Throughout pair.step pair.InTerm (pair.start fun _ => 0) (pairBefore ++ pairAfter) := by
  decide +kernel

theorem pair_answered : ∀ j, Throughout pair.step (pair.Answered j)
    (pair.run (pair.start fun _ => 0) pairBefore) pairAfter := by
  decide +kernel

theorem pair_ticks : ∀ j, ((pair.run (pair.start fun _ => 0) pairBefore).node j).tick + 10 ≤
    ((pair.run (pair.start fun _ => 0) (pairBefore ++ pairAfter)).node j).done := by
  decide +kernel

theorem fleet_converges_pair :
    (∀ addr, addr ∈ ((pair.run (pair.start fun _ => 0) (pairBefore ++ pairAfter)).node
          true).peers.getD 7 [] ↔ ∃ i, i ≠ true ∧ pair.Offers i 7 addr) ∧
      (pair.cfg.natMode = false ∨ pair.OffersApart 7 →
        (((pair.run (pair.start fun _ => 0) (pairBefore ++ pairAfter)).node
          true).peers.getD 7 []).Nodup) :=
  fleet_converges pair (fun _ => 0) pairBefore pairAfter pair_allowed pair_inTerm
    (by decide +kernel) true (pair_answered true) (pair_ticks true) ⟨⟨3, 4⟩, ⟨3, 4⟩, [7]⟩ (by decide) 7
    (by decide)

end Fleet

end Relink.Rlcore
