import Relink.Rlcore.Reregister

/-! When a live node loses its registration.

Between two requests that carry a topic the daemon sees nothing of it, so what decides is
the time from one such tick to an expiry. A topic the node knows a peer of is sent on
every tenth tick only, which is the whole term at the loop's nominal pace and more at any
slower one. -/
namespace Relink.Rlcore
open Wire Crypto Transition
open Std (ExtTreeMap)

/-- The node's registration is in the table, as of when the loop last sent it. -/
structure Accepted (cfg : Config) (key : TopicPeer) (w : World) : Prop where
  ours : ∃ g ∈ w.groups, g.registrant cfg = key.peer
  sent : (w.sentAt key).isSome
  listed : w.rlcore.Listed key.topic key.peer
  seen : w.rlcore.lastSeen[key]? = w.sentAt key

/-- The registration outlasts the event, and the expiry within it. -/
def Kept (cfg : Config) (build : Build) (key : TopicPeer) (w : World) (e : Event) : Prop :=
  (∀ now ∈ prunedAt build w e, (pruneStale cfg now w.rlcore).Listed key.topic key.peer) ∧
    (w.step cfg build e).rlcore.Listed key.topic key.peer

/-- An expiry comes at most a term after the latest tick that sent the topic. -/
def InTerm (build : Build) (key : TopicPeer) (w : World) (e : Event) : Prop :=
  ∀ now ∈ prunedAt build w e, ∀ t ∈ w.sentAt key, now - t ≤ kRegistrationTtlSec

/-! ### One event -/

section
variable {cfg : Config} {build : Build} {key : TopicPeer} {w : World}

/-- Expiry spares the registration exactly within its term. -/
theorem Accepted.prune_listed (h : Accepted cfg key w) {t : Time} (ht : w.sentAt key = some t)
    (now : Time) : (pruneStale cfg now w.rlcore).Listed key.topic key.peer ↔
      now - t ≤ kRegistrationTtlSec := by
  have hseen : w.rlcore.lastSeen[TopicPeer.mk key.topic key.peer]? = some t := h.seen.trans ht
  rw [listed_pruneStale, hseen, ← Bool.not_eq_true, stale_some, not_lt]
  exact and_iff_right h.listed

theorem Accepted.prune_seen (h : Accepted cfg key w) {now : Time}
    (hkeep : (pruneStale cfg now w.rlcore).Listed key.topic key.peer) :
    (pruneStale cfg now w.rlcore).lastSeen[key]? = w.sentAt key := by
  have hspared := ((listed_pruneStale cfg now w.rlcore key.topic key.peer).mp hkeep).2
  have hseen := lastSeen_pruneStale cfg now w.rlcore key.topic key.peer
  rw [hspared, if_neg fun hc => Bool.false_ne_true hc.2] at hseen
  exact hseen.trans h.seen

/-- A call that sends topics is a turn that handles the group's request. -/
theorem Exchange.turn_request (w : World) {g : Group} {x : Exchange} {topics : List UInt32}
    (h : x.Handled cfg g topics) : ∃ req, (x.turn w g).request cfg = some (g.src, req) ∧
      identity cfg g.src req = g.registrant cfg ∧ req.topics = topics := by
  obtain ⟨req, hreq, hself, htopics⟩ := readRequest_wellFormed h.2
  refine ⟨req, ?_, ?_, htopics⟩
  · rw [Turn.request, Exchange.turn, Option.bind_some, requestOf,
      if_pos ⟨bytes_ne_nil h.2, h.1⟩, hreq, Option.map_some]
  · rw [identity, hself, Group.registrant]

/-- Handling a request only adds to what expiry left. -/
theorem listed_step {turn : Turn} (s : State) {topic : UInt32} {p : PeerEntry}
    (h : (pruneStale cfg turn.pruneAt s).Listed topic p) : (step cfg s turn).1.Listed topic p := by
  cases hreq : turn.request cfg with
  | none =>
    rw [State.Listed, State.peersOf, (step_other s hreq).1]
    exact h
  | some r =>
    rw [step_request s hreq]
    exact (enroll_listed ..).mpr (Or.inl h)

/-- What a call sends is accepted, from any state. -/
theorem accepted_call {g : Group} {x : Exchange} {topics : List UInt32} (hg : g ∈ w.groups)
    (hsend : build.toRegister w.tick w.peers g = some topics) (hx : x.Handled cfg g topics)
    {topic : UInt32} (hmem : topic ∈ topics) :
    Accepted cfg ⟨topic, g.registrant cfg⟩ (w.step cfg build (.call g x)) := by
  obtain ⟨req, hreq, hid, htopics⟩ := Exchange.turn_request w hx
  have hsent : noteSent cfg w g topics ⟨topic, g.registrant cfg⟩ = some w.woke :=
    if_pos ⟨rfl, hmem⟩
  have hstep : (Rlcore.step cfg w.rlcore (x.turn w g)).1 = enroll w.woke (g.registrant cfg)
      (selfReported req) topics (pruneStale cfg x.pruneAt w.rlcore) := by
    rw [step_request w.rlcore hreq, handleRequest, hid, htopics]
    rfl
  simp only [World.step, callGroup, hsend]
  refine ⟨⟨g, hg, rfl⟩, Option.isSome_iff_exists.mpr ⟨_, hsent⟩, ?_, ?_⟩
  · show (Rlcore.step cfg w.rlcore (x.turn w g)).1.Listed topic (g.registrant cfg)
    rw [hstep]
    exact (enroll_listed ..).mpr (Or.inr ⟨rfl, hmem⟩)
  · show (Rlcore.step cfg w.rlcore (x.turn w g)).1.lastSeen[_]? = noteSent cfg w g topics _
    rw [hstep, hsent]
    exact (enroll_lastSeen ..).trans (if_pos ⟨rfl, hmem⟩)

/-- A registration that outlasts an event is there with the time the loop sent it. -/
theorem Accepted.step (h : Accepted cfg key w) {e : Event} (hallowed : Allowed cfg build w e)
    (hkept : Kept cfg build key w e) : Accepted cfg key (w.step cfg build e) := by
  cases e with
  | wake delay => exact ⟨h.ours, h.sent, h.listed, h.seen⟩
  | turn turn =>
    have hpruned := hkept.1 turn.pruneAt rfl
    refine ⟨h.ours, h.sent, hkept.2, ?_⟩
    show (Rlcore.step cfg w.rlcore turn).1.lastSeen[key]? = w.sentAt key
    rw [← h.prune_seen hpruned]
    cases hreq : turn.request cfg with
    | none => rw [(step_other w.rlcore hreq).2.1]
    | some r =>
      obtain ⟨g, hg, hkey⟩ := h.ours
      have hother := hallowed r hreq g hg
      rw [step_request w.rlcore hreq]
      refine (enroll_lastSeen _ _ _ _ _ key.topic key.peer).trans (if_neg fun hself => ?_)
      exact hother (hself.1.symm.trans hkey.symm)
  | call g x =>
    obtain ⟨_, hhandled⟩ := hallowed
    cases hsend : build.toRegister w.tick w.peers g with
    | none =>
      have hstep : w.step cfg build (.call g x) = {w with todo := w.todo.erase g} := by
        simp only [World.step, callGroup, hsend]
      rw [hstep]
      exact ⟨h.ours, h.sent, h.listed, h.seen⟩
    | some topics =>
      have hpruned := hkept.1 x.pruneAt (by simp [prunedAt, hsend])
      obtain ⟨req, hreq, hid, htopics⟩ := Exchange.turn_request w (hhandled topics hsend)
      have hlisted := hkept.2
      simp only [World.step, callGroup, hsend] at hlisted ⊢
      have hseen := enroll_lastSeen w.woke (g.registrant cfg) (selfReported req) topics
        (pruneStale cfg x.pruneAt w.rlcore) key.topic key.peer
      refine ⟨h.ours, ?_, hlisted, ?_⟩
      · show (noteSent cfg w g topics key).isSome
        rw [noteSent]
        split
        · rfl
        · exact h.sent
      · show (Rlcore.step cfg w.rlcore (x.turn w g)).1.lastSeen[key]? = noteSent cfg w g topics key
        rw [step_request w.rlcore hreq, handleRequest, hid, htopics, noteSent, ← h.prune_seen hpruned]
        exact hseen

/-- The registration outlasts an event exactly if its expiry is in term. -/
theorem Accepted.kept_iff (h : Accepted cfg key w) (e : Event) :
    Kept cfg build key w e ↔ InTerm build key w e := by
  obtain ⟨t, ht⟩ := Option.isSome_iff_exists.mp h.sent
  have hspared : (∀ now ∈ prunedAt build w e,
      (pruneStale cfg now w.rlcore).Listed key.topic key.peer) ↔ InTerm build key w e := by
    refine forall₂_congr fun now _ => ?_
    rw [h.prune_listed ht now, ht]
    simp only [Option.mem_some_iff, forall_eq']
  rw [Kept, hspared]
  refine and_iff_left_of_imp fun hterm => ?_
  have hpruned := hspared.mpr hterm
  cases e with
  | wake delay => exact h.listed
  | turn turn => exact listed_step w.rlcore (hpruned turn.pruneAt rfl)
  | call g x =>
    cases hsend : build.toRegister w.tick w.peers g with
    | none =>
      simp only [World.step, callGroup, hsend]
      exact h.listed
    | some topics =>
      simp only [World.step, callGroup, hsend]
      exact listed_step w.rlcore (hpruned x.pruneAt (by simp [prunedAt, hsend]))

end

/-! ### The pace that suffices -/

/-- Ticks are at most `D` apart, and readings of the daemon's clock fit between them. -/
def Paced (D : Time) (w : World) : Event → Prop
  | .turn turn => turn.pruneAt ≤ if w.todo = [] then w.woke + D else w.woke
  | .wake delay => delay ≤ D
  | .call _ x => x.pruneAt ≤ w.woke

/-- The group's calls send the topic on every tick that `n` divides. -/
def SentEvery (build : Build) (n : Nat) (g : Group) (topic : UInt32) (w : World) : Event → Prop
  | .call g' _ => g' = g → n ∣ w.tick →
    ∃ topics, build.toRegister w.tick w.peers g = some topics ∧ topic ∈ topics
  | _ => True

/-- How many ticks ago the topic was last sent, at most. -/
def lag (n : Nat) (g : Group) (w : World) : Nat :=
  if g ∈ w.todo then (w.tick + (n - 1)) % n + 1 else w.tick % n

structure Recent (cfg : Config) (n : Nat) (D : Time) (g : Group) (topic : UInt32) (w : World) :
    Prop where
  ours : g ∈ w.groups
  sent : ∃ t, w.sentAt ⟨topic, g.registrant cfg⟩ = some t ∧ w.woke - t ≤ D * lag n g w

section
variable {cfg : Config} {build : Build} {n : Nat} {D : Time} {g : Group} {topic : UInt32} {w : World}

theorem lag_wake (hn : 0 < n) (hg : g ∈ w.groups) (htodo : w.todo = []) (delay : Time) :
    lag n g (w.step cfg build (.wake delay)) = lag n g w + 1 := by
  have htick : w.tick + 1 + (n - 1) = w.tick + n := by omega
  rw [lag, lag, htodo, if_neg List.not_mem_nil, World.step, if_pos hg, htick, Nat.add_mod_right]

/-- A tick that may skip the topic has a lag of its own number. -/
theorem lag_skip (hn : 0 < n) (hskip : ¬ n ∣ w.tick) (htodo : g ∈ w.todo) :
    lag n g w = w.tick % n := by
  rw [lag, if_pos htodo]
  have hpos := Nat.pos_of_ne_zero fun h => hskip (Nat.dvd_of_mod_eq_zero h)
  have hlt := Nat.mod_lt w.tick hn
  have hsplit : w.tick + (n - 1) = w.tick % n - 1 + n * (w.tick / n + 1) := by
    have := Nat.mod_add_div w.tick n
    rw [Nat.mul_add]
    omega
  rw [hsplit, Nat.add_mul_mod_self_left, Nat.mod_eq_of_lt (by omega)]
  omega

theorem lag_le (hn : 0 < n) : lag n g w ≤ n := by
  rw [lag]
  split
  · exact Nat.mod_lt _ hn
  · exact (Nat.mod_lt _ hn).le

/-- What a call leaves undone makes nothing older. -/
theorem lag_call {g' : Group} (hn : 0 < n) (htodo : g' ∈ w.todo)
    (hskip : g' = g → ¬ n ∣ w.tick) : lag n g {w with todo := w.todo.erase g'} = lag n g w := by
  by_cases hg : g' = g
  · subst hg
    have hlag := lag_skip hn (hskip rfl) htodo
    rw [hlag, lag]
    split
    · rw [lag, if_pos htodo] at hlag
      exact hlag
    · rfl
  · simp only [lag, List.mem_erase_of_ne (Ne.symm hg)]

theorem Recent.step (h : Recent cfg n D g topic w) (hn : 0 < n) (hD : 0 ≤ D) {e : Event}
    (hallowed : Allowed cfg build w e) (hpaced : Paced D w e)
    (hsent : SentEvery build n g topic w e) : Recent cfg n D g topic (w.step cfg build e) := by
  obtain ⟨t, ht, hlag⟩ := h.sent
  cases e with
  | turn turn => exact ⟨h.ours, t, ht, hlag⟩
  | wake delay =>
    refine ⟨h.ours, t, ht, ?_⟩
    rw [lag_wake hn h.ours hallowed.1]
    have hdelay : delay ≤ D := hpaced
    show w.woke + delay - t ≤ _
    push_cast
    linarith
  | call g' x =>
    -- a call that leaves the topic out is for another group, or at a tick that may skip it
    have hkeep : (g' = g → ¬ n ∣ w.tick) →
        w.woke - t ≤ D * lag n g {w with todo := w.todo.erase g'} := by
      intro hskip
      rw [lag_call hn hallowed.1 hskip]
      exact hlag
    cases hreg : build.toRegister w.tick w.peers g' with
    | none =>
      have hstep : w.step cfg build (.call g' x) = {w with todo := w.todo.erase g'} := by
        simp only [World.step, callGroup, hreg]
      rw [hstep]
      refine ⟨h.ours, t, ht, hkeep fun hg hdvd => ?_⟩
      obtain ⟨topics, htopics, _⟩ := hsent hg hdvd
      rw [← hg, hreg] at htopics
      cases htopics
    | some topics =>
      simp only [World.step, callGroup, hreg]
      by_cases hhit : g.registrant cfg = g'.registrant cfg ∧ topic ∈ topics
      · refine ⟨h.ours, w.woke, if_pos hhit, ?_⟩
        show w.woke - w.woke ≤ _
        rw [sub_self]
        exact mul_nonneg hD (Nat.cast_nonneg _)
      · refine ⟨h.ours, t, (if_neg hhit).trans ht, hkeep fun hg hdvd => hhit ?_⟩
        obtain ⟨topics', htopics, hmem⟩ := hsent hg hdvd
        rw [← hg, hreg, Option.some.injEq] at htopics
        exact ⟨by rw [hg], htopics ▸ hmem⟩

theorem Recent.inTerm (h : Recent cfg n D g topic w) (hn : 0 < n) (hD : 0 ≤ D)
    (hterm : D * n ≤ kRegistrationTtlSec) {e : Event} (hpaced : Paced D w e) :
    InTerm build ⟨topic, g.registrant cfg⟩ w e := by
  intro now hnow t ht
  obtain ⟨t', ht', hlag⟩ := h.sent
  have heq : t' = t := Option.some.inj (ht'.symm.trans ht)
  subst heq
  have hle : D * lag n g w ≤ D * n :=
    mul_le_mul_of_nonneg_left (Nat.cast_le.mpr (lag_le hn)) hD
  cases e with
  | wake delay => cases hnow
  | call g' x =>
    obtain ⟨_, _, hx⟩ := Option.map_eq_some_iff.mp hnow
    have hbefore : x.pruneAt ≤ w.woke := hpaced
    linarith
  | turn turn =>
    have hnow' : turn.pruneAt = now := Option.some.inj hnow
    have hbefore : turn.pruneAt ≤ if w.todo = [] then w.woke + D else w.woke := hpaced
    by_cases htodo : w.todo = []
    · have hnext : lag n g w + 1 ≤ n := by
        rw [lag, htodo, if_neg List.not_mem_nil]
        exact Nat.mod_lt _ hn
      have : D * (lag n g w + 1 : ℕ) ≤ D * n :=
        mul_le_mul_of_nonneg_left (Nat.cast_le.mpr hnext) hD
      rw [if_pos htodo] at hbefore
      push_cast at this
      linarith
    · rw [if_neg htodo] at hbefore
      linarith

end

/-- A topic that is sent on every `n`-th tick is in term while `n` ticks fit in one. -/
theorem sentEvery_inTerm (cfg : Config) (build : Build) {n : Nat} {D : Time} (hn : 0 < n)
    (hD : 0 ≤ D) (hterm : D * n ≤ kRegistrationTtlSec) {g : Group} {topic : UInt32} {w : World}
    (hrecent : Recent cfg n D g topic w) {events : List Event}
    (hallowed : Throughout (World.step cfg build) (Allowed cfg build) w events)
    (hpaced : Throughout (World.step cfg build) (Paced D) w events)
    (hsent : Throughout (World.step cfg build) (SentEvery build n g topic) w events) :
    Throughout (World.step cfg build) (InTerm build ⟨topic, g.registrant cfg⟩) w events :=
  Throughout.of_invariant (Recent cfg n D g topic) (fun _ _ h hc => h.inTerm hn hD hterm hc.2.1)
    (fun _ _ h hc => h.step hn hD hc.1 hc.2.1 hc.2.2) hrecent (hallowed.and (hpaced.and hsent))

/-- At the loop's nominal pace the ten ticks from sweep to sweep just fit. -/
theorem nominal_pace_inTerm (cfg : Config) (build : Build) {g : Group} {topic : UInt32} {w : World}
    (hmem : topic ∈ g.topics) (hrecent : Recent cfg 10 (3 / 10) g topic w) {events : List Event}
    (hallowed : Throughout (World.step cfg build) (Allowed cfg build) w events)
    (hpaced : Throughout (World.step cfg build) (Paced (3 / 10)) w events) :
    Throughout (World.step cfg build) (InTerm build ⟨topic, g.registrant cfg⟩) w events := by
  refine sentEvery_inTerm cfg build (by norm_num) (by norm_num) (by norm_num [kRegistrationTtlSec])
    hrecent hallowed hpaced (hpaced.mono fun w e _ => ?_)
  cases e with
  | call g' x =>
    intro _ hdvd
    have hsweep : fullSweep w.tick = true := decide_eq_true (Nat.mod_eq_zero_of_dvd hdvd)
    exact build.toRegister_sends w.tick w.peers hmem (Or.inl hsweep)
  | _ => trivial

/-- While the node knows no peer of the topic, every pace of the claimed range is in term. -/
theorem pending_inTerm (cfg : Config) (build : Build) {g : Group} {topic : UInt32} {w : World}
    (hmem : topic ∈ g.topics) (hrecent : Recent cfg 1 (6 / 10) g topic w) {events : List Event}
    (hallowed : Throughout (World.step cfg build) (Allowed cfg build) w events)
    (hpaced : Throughout (World.step cfg build) (Paced (6 / 10)) w events)
    (hpending : Throughout (World.step cfg build) (fun w _ => w.peers.knows topic = false) w events) :
    Throughout (World.step cfg build) (InTerm build ⟨topic, g.registrant cfg⟩) w events := by
  refine sentEvery_inTerm cfg build one_pos (by norm_num) (by norm_num [kRegistrationTtlSec])
    hrecent hallowed hpaced (hpending.mono fun w e hunknown => ?_)
  cases e with
  | call g' x =>
    intro _ _
    exact build.toRegister_sends w.tick w.peers hmem (Or.inr hunknown)
  | _ => trivial

/-! ### Every run -/

/-- **A live node is never evicted exactly when** no expiry comes more than 3.0 s after the
latest tick that sent the topic, in every run of either build's loop. -/
theorem never_evicted_iff (cfg : Config) (build : Build) (key : TopicPeer) (w : World)
    (events : List Event) (haccepted : Accepted cfg key w)
    (hallowed : Throughout (World.step cfg build) (Allowed cfg build) w events) :
    Throughout (World.step cfg build) (Kept cfg build key) w events ↔
      Throughout (World.step cfg build) (InTerm build key) w events :=
  Throughout.congr (Accepted cfg key) (fun _ e h _ => h.kept_iff e)
    (fun _ e h hallowed hterm => h.step hallowed ((h.kept_iff e).mpr hterm)) haccepted hallowed

/-! A node with a peer of its topic there when it first asks, at its first tick. -/

def listener : Group := ⟨⟨3, 4⟩, ⟨3, 4⟩, [7]⟩

def listenerKey : TopicPeer := ⟨7, ⟨3, 4⟩⟩

def Exchange.at (now : Time) : Exchange := ⟨requestBytes 3 4 [7], now, Vector.replicate 12 0⟩

def slowTick (now : Time) : List Event := [.wake (2 / 5), .call listener (.at now)]

/-- The node after its first tick. -/
def met (build : Build) : World :=
  (slowTick (2 / 5)).foldl (World.step .plain build)
    ⟨crowd, [listener], ∅, 0, [], 0, fun _ => none⟩

theorem met_accepted (build : Build) : Accepted .plain listenerKey (met build) := by
  cases build <;> exact ⟨by decide +kernel, by decide +kernel, by decide +kernel, by decide +kernel⟩

/-- Two ticks that skip the topic. -/
theorem never_evicted_iff_met :
    Throughout (World.step .plain .cpp) (Kept .plain .cpp listenerKey) (met .cpp)
        (slowTick 0 ++ slowTick 0) ↔
      Throughout (World.step .plain .cpp) (InTerm .cpp listenerKey) (met .cpp)
        (slowTick 0 ++ slowTick 0) :=
  never_evicted_iff .plain .cpp listenerKey (met .cpp) _ (met_accepted .cpp) (by decide +kernel)

def Turn.timeout (now : Time) : Turn := ⟨now, now, Vector.replicate 12 0, none⟩

/-- Eight such ticks, and an expiry 3.2 s after the topic was sent. -/
def slowTicks : List Event :=
  (List.replicate 8 (slowTick 0)).flatten ++ [.turn (.timeout (18 / 5))]

theorem slowTicks_evict (build : Build) :
    Throughout (World.step .plain build) (Allowed .plain build) (met build) slowTicks ∧
      ¬ Throughout (World.step .plain build) (Kept .plain build listenerKey) (met build)
        slowTicks := by
  refine ⟨by cases build <;> decide +kernel, fun h => ?_⟩
  have hlast := (Throughout.append.mp h).2.1.2
  cases build <;> exact absurd hlast (by decide +kernel)

/-- Ticks 0.4 s apart lose the registration of a node that knows a peer, in either build. -/
theorem slow_node_evicted :
    (Accepted .plain listenerKey (met .cpp) ∧
      Throughout (World.step .plain .cpp) (Allowed .plain .cpp) (met .cpp) slowTicks ∧
      ¬ Throughout (World.step .plain .cpp) (Kept .plain .cpp listenerKey) (met .cpp) slowTicks) ∧
    (Accepted .plain listenerKey (met .python) ∧
      Throughout (World.step .plain .python) (Allowed .plain .python) (met .python) slowTicks ∧
      ¬ Throughout (World.step .plain .python) (Kept .plain .python listenerKey) (met .python)
        slowTicks) :=
  ⟨⟨met_accepted .cpp, slowTicks_evict .cpp⟩, met_accepted .python, slowTicks_evict .python⟩

end Relink.Rlcore
