import Relink.Rlcore.Replay
import Relink.Rlcore.Reregister
import Relink.Transport.Receive

/-! Whose answer a registration call takes.

Once a transport runs, `register_with_rlcore_on_socket` takes its answer from a queue, in which
acks lie in the order of their arrival and do not say which request they answer. A request is
sent again after a timeout, and the network may delay, lose and repeat. `own_answer_iff` says
between which sends and arrivals every call takes an answer of its own. -/
namespace Relink.Rlcore.Calls
open Wire Crypto
open Transport (kMaxQueuedRegisterReplies)

/-! ### The node, rlcore and what is under way -/

/-- A call: which one it is of the node's, on which group's socket, and the request it sends. -/
structure Ask where
  number : Nat
  group : Nat
  topics : List UInt32
  bytes : Bytes
deriving DecidableEq

/-- A datagram to a group's socket. What rlcore sends in response to a call's request goes with
that call, and with the peers that rlcore then listed for its topics. -/
structure Answer where
  group : Nat
  ask : Option Ask
  listed : List RegisterAckPeer
  bytes : Bytes
deriving DecidableEq

/-- The retry loop; `waiting` is inside `get_register_reply`. -/
structure Active where
  ask : Ask
  attempt : Nat
  waiting : Bool
deriving DecidableEq

/-- A call that returned ok, and what it used. -/
structure Outcome where
  ask : Ask
  used : Answer
  peers : List RegisterAckPeer
deriving DecidableEq

structure Session where
  rlcore : State
  groups : List Group
  peers : Peers
  tick : Nat
  begun : Nat
  active : Option Active
  queues : Nat → List Answer
  requests : List Ask
  answers : List Answer
  outcomes : List Outcome

/-- The loop begins: whatever rlcore and the node know, and nothing is under way. -/
def Session.start (rlcore : State) (groups : List Group) (peers : Peers) : Session :=
  ⟨rlcore, groups, peers, 0, 0, none, fun _ => [], [], [], []⟩

inductive Event where
  /-- rlcore's turn on a datagram of somebody else. -/
  | turn (turn : Turn)
  /-- Somebody else sends to the node. -/
  | stray (group : Nat) (bytes : Bytes)
  | tick
  /-- The loop calls for a group. -/
  | call (group : Nat) (nonce : Nonce)
  | send (accepted : Bool)
  /-- A request that was sent reaches rlcore. -/
  | deliver (i : Nat) (pruneAt handleAt : Time) (nonce : Nonce)
  /-- An answer reaches the node. -/
  | arrive (i : Nat)
  | reply
  | timeout

def kMaxRetries : Nat := 5

/-- The next attempt, if there is one. -/
def Active.next (a : Active) : Option Active :=
  if a.attempt + 1 < kMaxRetries then some {a with attempt := a.attempt + 1, waiting := false}
  else none

section
variable (cfg : Config)

/-- `wire_req`. -/
def wireRequest (nonce : Nonce) (lan : PeerEntry) (topics : List UInt32) : Option Bytes :=
  match cfg.encryptKey with
  | none => (encodeRegisterRequest lan.ip lan.port topics (UInt16.ofNat topics.length)
      kMaxDatagramBytes).toOption
  | some key => sealRequest key nonce lan topics

/-- The peers of an answer that reads as an ack of status 0. -/
def usable (x : Answer) : Option (List RegisterAckPeer) :=
  match readReply cfg x.bytes with
  | some (status, peers) => if status = 0 then some peers else none
  | none => none

/-- The call's part of `recv_and_dispatch`: what is no data frame is queued, while there is
room. -/
def enqueue (queue : List Answer) (x : Answer) : List Answer :=
  if x.bytes = [] then queue
  else
    match decodeFrame x.bytes with
    | .ok _ => queue
    | .error _ => if queue.length < kMaxQueuedRegisterReplies then queue ++ [x] else queue

namespace Session
variable (w : Session)

def call (group : Nat) (nonce : Nonce) : Session :=
  match w.active, w.groups[group]? with
  | none, some g =>
    match toRegister w.tick w.peers g with
    | none => w
    | some topics =>
      match wireRequest cfg nonce g.lan topics with
      | none => w
      | some bytes =>
        { w with
          begun := w.begun + 1
          active := some ⟨⟨w.begun, group, topics, bytes⟩, 0, false⟩ }
  | _, _ => w

def send (accepted : Bool) : Session :=
  match w.active with
  | none => w
  | some a =>
    if a.waiting then w
    else if accepted then
      {w with requests := w.requests ++ [a.ask], active := some {a with waiting := true}}
    else {w with active := a.next}

def deliver (i : Nat) (pruneAt handleAt : Time) (nonce : Nonce) : Session :=
  match w.requests[i]? with
  | none => w
  | some ask =>
    match w.groups[ask.group]? with
    | none => w
    | some g =>
      let r := Rlcore.step cfg w.rlcore ⟨pruneAt, handleAt, nonce, some ⟨g.src, ask.bytes⟩⟩
      { w with
        rlcore := r.1
        answers := w.answers ++ (r.2.filter (·.1 = g.src)).map fun s =>
          ⟨ask.group, some ask, ackPeers r.1 (g.registrant cfg) ask.topics, s.2⟩ }

def arrive (i : Nat) : Session :=
  match w.answers[i]? with
  | none => w
  | some x =>
    {w with queues := Function.update w.queues x.group (enqueue (w.queues x.group) x)}

/-- `get_register_reply` returns the oldest of the queue. -/
def reply : Session :=
  match w.active with
  | none => w
  | some a =>
    if a.waiting then
      match w.queues a.ask.group with
      | [] => w
      | x :: rest =>
        let w := {w with queues := Function.update w.queues a.ask.group rest}
        match usable cfg x with
        | none => {w with active := a.next}
        | some peers =>
          { w with
            active := none
            peers := peers.foldl mergePeer w.peers
            outcomes := w.outcomes ++ [⟨a.ask, x, peers⟩] }
    else w

/-- `get_register_reply` gives up on an empty queue only. -/
def timeout : Session :=
  match w.active with
  | none => w
  | some a => if a.waiting ∧ w.queues a.ask.group = [] then {w with active := a.next} else w

def step : Event → Session
  | .turn turn => {w with rlcore := (Rlcore.step cfg w.rlcore turn).1}
  | .stray group bytes => {w with answers := w.answers ++ [⟨group, none, [], bytes⟩]}
  | .tick => {w with tick := w.tick + 1}
  | .call group nonce => w.call cfg group nonce
  | .send accepted => w.send accepted
  | .deliver i pruneAt handleAt nonce => w.deliver cfg i pruneAt handleAt nonce
  | .arrive i => w.arrive i
  | .reply => w.reply cfg
  | .timeout => w.timeout

end Session

/-! ### Own answers, and queues that hold no other first -/

/-- Every call that returned ok used an answer to a request of its own. -/
def Session.OwnAnswers (w : Session) : Prop := ∀ o ∈ w.outcomes, o.used.ask = some o.ask

/-- The answer is the call's own, if the call would use it. -/
def Own (x : Answer) (a : Active) : Prop := (usable cfg x).isSome → x.ask = some a.ask

/-- Whenever a call sends, the answer that has lain in its queue longest is its own; whenever an
answer comes to the empty queue of a call that waits, it is. -/
def InTime (w : Session) : Event → Prop
  | .send accepted => accepted = true → ∀ a, w.active = some a → a.waiting = false →
      ∀ x ∈ (w.queues a.ask.group).head?, Own cfg x a
  | .arrive i => ∀ a, w.active = some a → a.waiting = true → w.queues a.ask.group = [] →
      ∀ x, w.answers[i]? = some x → x.group = a.ask.group → enqueue [] x = [x] → Own cfg x a
  | _ => True

/-- What a waiting call is about to use is its own. -/
def Session.Good (w : Session) : Prop :=
  w.OwnAnswers ∧ ∀ a, w.active = some a → a.waiting = true →
    ∀ x ∈ (w.queues a.ask.group).head?, Own cfg x a

/-- No call is about to use an answer. -/
def Session.Idle (w : Session) : Prop :=
  ∀ a, w.active = some a → a.waiting = true → w.queues a.ask.group = []

/-! ### One step -/

variable {cfg} {w w' : Session} {a : Active}

theorem good_congr (hactive : w'.active = w.active) (hqueues : w'.queues = w.queues)
    (houtcomes : w'.outcomes = w.outcomes) : w'.Good cfg ↔ w.Good cfg := by
  unfold Session.Good Session.OwnAnswers
  rw [hactive, hqueues, houtcomes]

theorem Session.Idle.good (h : w.Idle) : w.Good cfg ↔ w.OwnAnswers := by
  refine and_iff_left fun a ha hwaiting x hx => ?_
  rw [h a ha hwaiting] at hx
  cases hx

theorem idle_of_waiting (h : ∀ a, w.active = some a → a.waiting = false) : w.Idle := by
  intro a ha hwaiting
  rw [h a ha] at hwaiting
  cases hwaiting

theorem good_idle (h : ∀ a, w.active = some a → a.waiting = false) :
    w.Good cfg ↔ w.OwnAnswers :=
  (idle_of_waiting h).good

theorem good_waiting (ha : w.active = some a) (hwaiting : a.waiting = true) :
    w.Good cfg ↔ w.OwnAnswers ∧ ∀ x ∈ (w.queues a.ask.group).head?, Own cfg x a := by
  refine and_congr_right fun _ => ⟨fun h => h a ha hwaiting, fun h a' ha' _ => ?_⟩
  rw [ha, Option.some.injEq] at ha'
  subst ha'
  exact h

theorem next_idle {a' : Active} (h : a.next = some a') : a'.waiting = false := by
  unfold Active.next at h
  split at h
  · cases h
    rfl
  · cases h

theorem good_call (group : Nat) (nonce : Nonce) :
    (w.call cfg group nonce).Good cfg ↔ w.Good cfg := by
  unfold Session.call
  split
  · next g hactive _ =>
    split
    · exact Iff.rfl
    · split
      · exact Iff.rfl
      · rw [good_idle fun a ha => by cases ha; rfl, good_idle fun a ha => by rw [hactive] at ha; cases ha]
        exact Iff.rfl
  · exact Iff.rfl

theorem good_send (accepted : Bool) :
    (w.send accepted).Good cfg ↔ w.Good cfg ∧ InTime cfg w (.send accepted) := by
  cases hactive : w.active with
  | none =>
    have hstays : w.send accepted = w := by simp only [Session.send, hactive]
    rw [hstays]
    exact (and_iff_left fun _ a ha => by rw [hactive] at ha; cases ha).symm
  | some a =>
    have hsent : w.send accepted = if a.waiting then w
        else if accepted then
          {w with requests := w.requests ++ [a.ask], active := some {a with waiting := true}}
        else {w with active := a.next} := by
      simp only [Session.send, hactive]
    have htime : InTime cfg w (.send accepted) ↔ (accepted = true → a.waiting = false →
        ∀ x ∈ (w.queues a.ask.group).head?, Own cfg x a) := by
      simp only [InTime, hactive, Option.some.injEq, forall_eq']
    rw [hsent, htime]
    cases hwaiting : a.waiting with
    | true => exact (and_iff_left fun _ h => by cases h).symm
    | false =>
      have hidle : w.Good cfg ↔ w.OwnAnswers := good_idle fun a' ha' => by
        rw [hactive, Option.some.injEq] at ha'
        rw [← ha', hwaiting]
      rw [hidle]
      cases accepted with
      | false =>
        refine (good_idle fun a' ha' => next_idle ha').trans ?_
        exact (and_iff_left fun h => by cases h).symm
      | true =>
        refine (good_waiting rfl rfl).trans (and_congr_right fun _ => ?_)
        exact ⟨fun h _ _ => h, fun h => h rfl rfl⟩

theorem enqueue_head {queue : List Answer} (x : Answer) (hne : queue ≠ []) :
    (enqueue queue x).head? = queue.head? := by
  unfold enqueue
  split
  · rfl
  split
  · rfl
  split
  · exact List.head?_append_of_ne_nil _ hne
  · rfl

theorem enqueue_nil (x : Answer) : enqueue [] x = [x] ∨ enqueue [] x = [] := by
  unfold enqueue
  split
  · exact Or.inr rfl
  split
  · exact Or.inr rfl
  · exact Or.inl rfl

theorem good_arrive (i : Nat) :
    (w.arrive i).Good cfg ↔ w.Good cfg ∧ InTime cfg w (.arrive i) := by
  cases hx : w.answers[i]? with
  | none =>
    have hstays : w.arrive i = w := by simp only [Session.arrive, hx]
    rw [hstays]
    exact (and_iff_left fun a _ _ _ x hx' => by rw [hx] at hx'; cases hx').symm
  | some x =>
    have harrived : w.arrive i =
        {w with queues := Function.update w.queues x.group (enqueue (w.queues x.group) x)} := by
      simp only [Session.arrive, hx]
    rw [harrived]
    by_cases hbusy : ∃ a, w.active = some a ∧ a.waiting = true
    · obtain ⟨a, hactive, hwaiting⟩ := hbusy
      have htime : InTime cfg w (.arrive i) ↔ (w.queues a.ask.group = [] →
          x.group = a.ask.group → enqueue [] x = [x] → Own cfg x a) := by
        simp only [InTime, hactive, hx, Option.some.injEq, forall_eq', hwaiting, true_imp_iff]
      refine (good_waiting (w := {w with queues := Function.update w.queues x.group _}) hactive
        hwaiting).trans ?_
      rw [good_waiting hactive hwaiting, htime, and_assoc]
      refine and_congr_right fun _ => ?_
      by_cases hgroup : x.group = a.ask.group
      · simp only [hgroup, Function.update_self]
        by_cases hempty : w.queues a.ask.group = []
        · -- the answer is the oldest of the queue, unless it is a data frame
          rw [hempty]
          rcases enqueue_nil x with hqueued | hdropped
          · simp [hqueued]
          · simp [hdropped]
        · rw [enqueue_head x hempty]
          exact (and_iff_left fun h => absurd h hempty).symm
      · simp only [Function.update_of_ne (Ne.symm hgroup)]
        exact (and_iff_left fun _ h => absurd h hgroup).symm
    · have hidle : ∀ a, w.active = some a → a.waiting = false := fun a ha => by
        by_contra hwaiting
        exact hbusy ⟨a, ha, by simpa using hwaiting⟩
      refine (good_idle (w := {w with queues := Function.update w.queues x.group _}) hidle).trans ?_
      rw [good_idle hidle]
      exact (and_iff_left fun a ha hwaiting => absurd ⟨a, ha, hwaiting⟩ hbusy).symm

/-- What a call does that looks for an answer. -/
theorem reply_cases (cfg : Config) (w : Session) :
    (w.Idle ∧ w.reply cfg = w) ∨ ∃ a x rest, w.active = some a ∧ a.waiting = true ∧
      w.queues a.ask.group = x :: rest ∧
      ((usable cfg x = none ∧ w.reply cfg =
          {w with queues := Function.update w.queues a.ask.group rest, active := a.next}) ∨
        ∃ peers, usable cfg x = some peers ∧ w.reply cfg =
          { w with
            queues := Function.update w.queues a.ask.group rest
            active := none
            peers := peers.foldl mergePeer w.peers
            outcomes := w.outcomes ++ [⟨a.ask, x, peers⟩] }) := by
  cases hactive : w.active with
  | none =>
    refine Or.inl ⟨fun a ha => ?_, by simp only [Session.reply, hactive]⟩
    rw [hactive] at ha
    cases ha
  | some a =>
    cases hwaiting : a.waiting with
    | false =>
      refine Or.inl ⟨idle_of_waiting fun a' ha' => ?_, ?_⟩
      · rw [hactive, Option.some.injEq] at ha'
        rw [← ha', hwaiting]
      · simp only [Session.reply, hactive, hwaiting, Bool.false_eq_true, if_false]
    | true =>
      cases hqueue : w.queues a.ask.group with
      | nil =>
        refine Or.inl ⟨fun a' ha' _ => ?_, ?_⟩
        · rw [hactive, Option.some.injEq] at ha'
          rw [← ha', hqueue]
        · simp only [Session.reply, hactive, hwaiting, if_true, hqueue]
      | cons x rest =>
        refine Or.inr ⟨a, x, rest, rfl, hwaiting, hqueue, ?_⟩
        cases hpeers : usable cfg x with
        | none =>
          exact Or.inl ⟨rfl, by simp only [Session.reply, hactive, hwaiting, if_true, hqueue, hpeers]⟩
        | some peers =>
          refine Or.inr ⟨peers, rfl, ?_⟩
          simp only [Session.reply, hactive, hwaiting, if_true, hqueue, hpeers]

theorem good_reply : (w.reply cfg).Good cfg ↔ w.Good cfg := by
  obtain ⟨_, hstays⟩ | ⟨a, x, rest, hactive, hwaiting, hqueue, hread⟩ := reply_cases cfg w
  · rw [hstays]
  · rw [good_waiting hactive hwaiting, hqueue]
    simp only [List.head?_cons, Option.mem_some_iff, forall_eq']
    obtain ⟨hpeers, hread⟩ | ⟨peers, hpeers, hread⟩ := hread
    · rw [hread]
      refine (good_idle fun a' ha' => next_idle ha').trans ?_
      exact (and_iff_left fun h => by rw [hpeers] at h; cases h).symm
    · rw [hread]
      refine (good_idle fun a' ha' => by cases ha').trans ?_
      simp only [Session.OwnAnswers, List.forall_mem_append, List.forall_mem_singleton, Own,
        hpeers, Option.isSome_some, true_imp_iff]

/-- A call that has looked is not about to use anything. -/
theorem reply_idle (cfg : Config) (w : Session) : (w.reply cfg).Idle := by
  obtain ⟨hidle, hstays⟩ | ⟨a, x, rest, _, _, _, hread⟩ := reply_cases cfg w
  · rwa [hstays]
  · obtain ⟨_, hread⟩ | ⟨peers, _, hread⟩ := hread
    · rw [hread]
      exact idle_of_waiting fun a' ha' => next_idle ha'
    · rw [hread]
      exact idle_of_waiting fun a' ha' => by cases ha'

theorem good_timeout : w.timeout.Good cfg ↔ w.Good cfg := by
  cases hactive : w.active with
  | none =>
    have hstays : w.timeout = w := by simp only [Session.timeout, hactive]
    rw [hstays]
  | some a =>
    have htimed : w.timeout =
        if a.waiting ∧ w.queues a.ask.group = [] then {w with active := a.next} else w := by
      simp only [Session.timeout, hactive]
    rw [htimed]
    split
    · next h =>
      rw [good_waiting (w := w) hactive h.1, h.2]
      refine (good_idle fun a' ha' => next_idle ha').trans ?_
      exact (and_iff_left fun x hx => by cases hx).symm
    · exact Iff.rfl

/-- **One step** keeps what matters exactly if it is in time. -/
theorem good_step (w : Session) (e : Event) :
    (w.step cfg e).Good cfg ↔ w.Good cfg ∧ InTime cfg w e := by
  cases e with
  | turn turn => exact (good_congr rfl rfl rfl).trans (and_iff_left trivial).symm
  | stray group bytes => exact (good_congr rfl rfl rfl).trans (and_iff_left trivial).symm
  | tick => exact (good_congr rfl rfl rfl).trans (and_iff_left trivial).symm
  | call group nonce => exact (good_call group nonce).trans (and_iff_left trivial).symm
  | send accepted => exact good_send accepted
  | deliver i pruneAt handleAt nonce =>
    refine Iff.trans ?_ (and_iff_left trivial).symm
    simp only [Session.step, Session.deliver]
    split
    · exact Iff.rfl
    · split
      · exact Iff.rfl
      · exact good_congr rfl rfl rfl
  | arrive i => exact good_arrive i
  | reply => exact good_reply.trans (and_iff_left trivial).symm
  | timeout => exact good_timeout.trans (and_iff_left trivial).symm

end

/-! ### What its own answer says -/

/-- It lists peers that rlcore had for the call's topics. -/
def Reads (cfg : Config) (x : Answer) : Prop :=
  ∀ ask, x.ask = some ask → dispatch cfg.relayMode ask.bytes = .registration →
    ∀ peers, usable cfg x = some peers → peers ⊆ x.listed

def Asked (cfg : Config) (groups : List Group) (ask : Ask) : Prop :=
  ∃ g nonce, groups[ask.group]? = some g ∧
    wireRequest cfg nonce g.lan ask.topics = some ask.bytes

structure Truthful (cfg : Config) (w : Session) : Prop where
  active : ∀ a, w.active = some a → Asked cfg w.groups a.ask
  requests : ∀ ask ∈ w.requests, Asked cfg w.groups ask
  answers : ∀ x ∈ w.answers, Reads cfg x
  queues : ∀ group, ∀ x ∈ w.queues group, Reads cfg x
  outcomes : ∀ o ∈ w.outcomes, usable cfg o.used = some o.peers ∧ Reads cfg o.used

theorem wireRequest_wellFormed {cfg : Config} {nonce : Nonce} {lan : PeerEntry}
    {topics : List UInt32} {bytes : Bytes} (h : wireRequest cfg nonce lan topics = some bytes) :
    WellFormed (openRequest cfg bytes) lan (topics.take (UInt16.ofNat topics.length).toNat) := by
  unfold wireRequest at h
  cases hkey : cfg.encryptKey with
  | none =>
    rw [hkey] at h
    cases hreq : encodeRegisterRequest lan.ip lan.port topics (UInt16.ofNat topics.length)
        kMaxDatagramBytes with
    | error e =>
      simp only [hreq, Except.toOption] at h
      cases h
    | ok req =>
      simp only [hreq, Except.toOption, Option.some.injEq] at h
      obtain ⟨hcount, hbytes⟩ := encodeRegisterRequest_bytes hreq
      refine ⟨hcount, ?_⟩
      rw [openRequest, hkey, ← h, hbytes]
  | some key =>
    rw [hkey] at h
    exact sealRequest_wellFormed hkey h

/-- What rlcore sends in response to a request of the loop lists those it has for the topics. -/
theorem reads_response {cfg : Config} {groups : List Group} {ask : Ask} {g : Group}
    (hasked : Asked cfg groups ask) (hg : groups[ask.group]? = some g) (s : State)
    (pruneAt handleAt : Time) (nonce : Nonce) {sent : Send}
    (hsent : sent ∈ (Rlcore.step cfg s ⟨pruneAt, handleAt, nonce, some ⟨g.src, ask.bytes⟩⟩).2) :
    Reads cfg ⟨ask.group, some ask, ackPeers
      (Rlcore.step cfg s ⟨pruneAt, handleAt, nonce, some ⟨g.src, ask.bytes⟩⟩).1
      (g.registrant cfg) ask.topics, sent.2⟩ := by
  intro ask' hask hroute peers hpeers
  obtain ⟨g', nonce', hg', hwire⟩ := hasked
  rw [hg, Option.some.injEq] at hg'
  subst hg'
  have hwell := wireRequest_wellFormed hwire
  obtain ⟨req, hreq, hself, htopics⟩ := readRequest_wellFormed hwell
  rw [Option.some.injEq] at hask
  subst hask
  have hrequest : Turn.request cfg ⟨pruneAt, handleAt, nonce, some ⟨g.src, ask.bytes⟩⟩ =
      some (g.src, req) := by
    rw [Turn.request, Option.bind_some, requestOf, if_pos ⟨bytes_ne_nil hwell, hroute⟩, hreq,
      Option.map_some]
  have hid : identity cfg g.src req = g.registrant cfg := by
    rw [identity, hself, Group.registrant]
  rw [step_request s hrequest, handleRequest, hid, htopics] at hsent ⊢
  set s' := enroll handleAt (g.registrant cfg) (selfReported req)
    (ask.topics.take (UInt16.ofNat ask.topics.length).toNat) (pruneStale cfg pruneAt s)
  set listed := ackPeers s' (g.registrant cfg)
    (ask.topics.take (UInt16.ofNat ask.topics.length).toNat) with hlisted
  -- a call names the topics up to the count, and the ack lists peers up to its own
  have hsub : listed ⊆ ackPeers s' (g.registrant cfg) ask.topics := by
    intro p hp
    rw [hlisted, ackPeers, List.mem_flatMap] at hp
    obtain ⟨topic, htopic, hp⟩ := hp
    exact List.mem_flatMap.mpr ⟨topic, List.mem_of_mem_take htopic, hp⟩
  obtain ⟨bytes, hbytes, heq⟩ := List.mem_map.mp hsent
  rw [Option.mem_toList] at hbytes
  by_cases hroom : listed.length % 65536 ≤ ackRoom cfg
  · obtain ⟨bytes', hbytes', hread⟩ := encodeAck_some cfg nonce listed hroom
    rw [hbytes, Option.some.injEq] at hbytes'
    subst hbytes'
    rw [← heq] at hpeers
    simp only [usable, hread, if_true, Option.some.injEq] at hpeers
    rw [← hpeers]
    exact List.Subset.trans (List.take_subset ..) hsub
  · rw [encodeAck_none cfg nonce listed (by omega)] at hbytes
    cases hbytes

theorem reads_enqueue {cfg : Config} {queue : List Answer} {x : Answer}
    (hqueue : ∀ y ∈ queue, Reads cfg y) (hx : Reads cfg x) : ∀ y ∈ enqueue queue x, Reads cfg y := by
  intro y hy
  unfold enqueue at hy
  split at hy
  · exact hqueue y hy
  split at hy
  · exact hqueue y hy
  split at hy
  · rcases List.mem_append.mp hy with hy | hy
    · exact hqueue y hy
    · rwa [List.mem_singleton.mp hy]
  · exact hqueue y hy

/-- What holds of all that lies in the queues holds after one queue is replaced by such. -/
theorem forall_mem_update {α : Type} {P : Nat → α → Prop} {queues : Nat → List α} {queue : List α}
    (hqueues : ∀ group, ∀ y ∈ queues group, P group y) (group : Nat)
    (hqueue : ∀ y ∈ queue, P group y) :
    ∀ group', ∀ y ∈ Function.update queues group queue group', P group' y := by
  intro group' y hy
  by_cases heq : group' = group
  · subst heq
    rw [Function.update_self] at hy
    exact hqueue y hy
  · rw [Function.update_of_ne heq] at hy
    exact hqueues group' y hy

theorem asked_next {cfg : Config} {groups : List Group} {a a' : Active} (h : Asked cfg groups a.ask)
    (hnext : a.next = some a') : Asked cfg groups a'.ask := by
  unfold Active.next at hnext
  split at hnext
  · cases hnext
    exact h
  · cases hnext

section
variable {cfg : Config} {w : Session}

theorem truthful_call (hw : Truthful cfg w) (group : Nat) (nonce : Nonce) :
    Truthful cfg (w.call cfg group nonce) := by
  unfold Session.call
  split
  · next g _ hg =>
    split
    · exact hw
    · split
      · exact hw
      · next bytes hwire =>
        refine {hw with active := fun a ha => ?_}
        cases ha
        exact ⟨g, nonce, hg, hwire⟩
  · exact hw

theorem truthful_send (hw : Truthful cfg w) (accepted : Bool) :
    Truthful cfg (w.send accepted) := by
  unfold Session.send
  split
  · exact hw
  · next a hactive =>
    have hasked := hw.active a hactive
    split
    · exact hw
    split
    · refine {hw with active := fun a' ha' => ?_, requests := fun ask hask => ?_}
      · cases ha'
        exact hasked
      · rcases List.mem_append.mp hask with hask | hask
        · exact hw.requests ask hask
        · rwa [List.mem_singleton.mp hask]
    · exact {hw with active := fun a' ha' => asked_next hasked ha'}

theorem truthful_deliver (hw : Truthful cfg w) (i : Nat) (pruneAt handleAt : Time) (nonce : Nonce) :
    Truthful cfg (w.deliver cfg i pruneAt handleAt nonce) := by
  unfold Session.deliver
  split
  · exact hw
  · next ask hask =>
    split
    · exact hw
    · next g hg =>
      refine {hw with answers := fun x hx => ?_}
      rcases List.mem_append.mp hx with hx | hx
      · exact hw.answers x hx
      · obtain ⟨sent, hsent, rfl⟩ := List.mem_map.mp hx
        exact reads_response (hw.requests ask (List.mem_of_getElem? hask)) hg w.rlcore pruneAt
          handleAt nonce (List.mem_filter.mp hsent).1

theorem truthful_arrive (hw : Truthful cfg w) (i : Nat) : Truthful cfg (w.arrive i) := by
  unfold Session.arrive
  split
  · exact hw
  · next x hx =>
    have hqueue := reads_enqueue (hw.queues x.group) (hw.answers x (List.mem_of_getElem? hx))
    exact {hw with queues := forall_mem_update hw.queues x.group hqueue}

theorem truthful_reply (hw : Truthful cfg w) : Truthful cfg (w.reply cfg) := by
  obtain ⟨_, hstays⟩ | ⟨a, x, rest, hactive, _, hqueue, hread⟩ := reply_cases cfg w
  · rwa [hstays]
  · have hread' : ∀ y ∈ x :: rest, Reads cfg y := hqueue ▸ hw.queues a.ask.group
    have hqueues := forall_mem_update hw.queues a.ask.group
      fun y hy => hread' y (List.mem_cons_of_mem x hy)
    obtain ⟨_, hread⟩ | ⟨peers, hpeers, hread⟩ := hread
    · rw [hread]
      exact {hw with
        active := fun a' ha' => asked_next (hw.active a hactive) ha'
        queues := hqueues}
    · rw [hread]
      refine {hw with
        active := fun a' ha' => (by cases ha')
        queues := hqueues
        outcomes := fun o ho => ?_}
      rcases List.mem_append.mp ho with ho | ho
      · exact hw.outcomes o ho
      · rw [List.mem_singleton.mp ho]
        exact ⟨hpeers, hread' x List.mem_cons_self⟩

theorem truthful_timeout (hw : Truthful cfg w) : Truthful cfg w.timeout := by
  unfold Session.timeout
  split
  · exact hw
  · next a hactive =>
    split
    · exact {hw with active := fun a' ha' => asked_next (hw.active a hactive) ha'}
    · exact hw

theorem truthful_step (hw : Truthful cfg w) (e : Event) : Truthful cfg (w.step cfg e) := by
  cases e with
  | turn turn => exact {hw with}
  | stray group bytes =>
    refine {hw with answers := fun x hx => ?_}
    rcases List.mem_append.mp hx with hx | hx
    · exact hw.answers x hx
    · rw [List.mem_singleton.mp hx]
      intro ask hask
      cases hask
  | tick => exact {hw with}
  | call group nonce => exact truthful_call hw group nonce
  | send accepted => exact truthful_send hw accepted
  | deliver i pruneAt handleAt nonce => exact truthful_deliver hw i pruneAt handleAt nonce
  | arrive i => exact truthful_arrive hw i
  | reply => exact truthful_reply hw
  | timeout => exact truthful_timeout hw

end

theorem truthful_start (cfg : Config) (rlcore : State) (groups : List Group) (peers : Peers) :
    Truthful cfg (.start rlcore groups peers) where
  active a ha := by cases ha
  requests ask hask := by cases hask
  answers x hx := by cases hx
  queues group x hx := by cases hx
  outcomes o ho := by cases ho

/-! ### Whole runs -/

/-- **A call uses an answer of its own**, in every run of the loop, exactly if the answer that
lies first in its queue when it sends, and the one that comes while it waits, are its own. Then the
peers it returns are ones that rlcore listed, as it handled that request, for the topics it named.
A run ends when the call under way has looked into its queue. -/
theorem own_answer_iff (cfg : Config) (rlcore : State) (groups : List Group) (peers : Peers)
    (events : List Event) :
    (((events.foldl (Session.step cfg) (.start rlcore groups peers)).reply cfg).OwnAnswers ↔
      Transition.Throughout (Session.step cfg) (InTime cfg) (.start rlcore groups peers) events) ∧
    ∀ o ∈ ((events.foldl (Session.step cfg) (.start rlcore groups peers)).reply cfg).outcomes,
      o.used.ask = some o.ask → dispatch cfg.relayMode o.ask.bytes = .registration →
        o.peers ⊆ o.used.listed := by
  constructor
  · have hstart : (Session.start rlcore groups peers).Good cfg :=
      ⟨fun o ho => (by cases ho), fun a ha => (by cases ha)⟩
    have hidle : ∀ w : Session, (w.reply cfg).Good cfg ↔ (w.reply cfg).OwnAnswers :=
      fun w => (reply_idle cfg w).good
    rw [← hidle, good_reply, Transition.Throughout.invariant_iff (Session.Good cfg) good_step]
    exact and_iff_right hstart
  · have hend : Truthful cfg ((events.foldl (Session.step cfg) (.start rlcore groups peers)).reply
        cfg) :=
      truthful_reply (Transition.foldl_invariant (Truthful cfg) (fun _ => True) (Session.step cfg)
        (fun w e hw _ => truthful_step hw e) events _ (truthful_start cfg rlcore groups peers)
        fun _ _ => trivial)
    intro o ho hown hroute
    obtain ⟨hpeers, hreads⟩ := hend.outcomes o ho
    exact hreads o.ask hown hroute o.peers hpeers

/-! ### An answer left over -/

/-- Topics 7 and 9 on one socket, and another node on topic 7. -/
def leftover : List Event :=
  [.turn (.receive 0 ⟨1, 2⟩ (requestBytes 1 2 [7])),
    -- the first answer is late: the call asks again, and then both come
    .tick, .call 0 (Vector.replicate 12 0), .send true, .timeout, .send true,
    .deliver 0 1 1 (Vector.replicate 12 0), .deliver 1 1 1 (Vector.replicate 12 0),
    .arrive 0, .reply, .arrive 1,
    -- the next call asks for topic 9
    .tick, .call 0 (Vector.replicate 12 0), .send true]

/-- The second call takes the answer that the first left over, and returns a peer of topic 7. -/
theorem leftover_not_own :
    ¬ ((leftover.foldl (Session.step .plain) (.start {} [⟨⟨3, 4⟩, ⟨3, 4⟩, [7, 9]⟩] ∅)).reply
        .plain).OwnAnswers ∧
      (((leftover.foldl (Session.step .plain) (.start {} [⟨⟨3, 4⟩, ⟨3, 4⟩, [7, 9]⟩] ∅)).reply
        .plain).outcomes.map fun o => (o.ask.topics, o.peers)) =
        [([7, 9], [⟨1, 2, 7, 1, 2⟩]), ([9], [⟨1, 2, 7, 1, 2⟩])] := by
  unfold Session.OwnAnswers
  decide +kernel

end Relink.Rlcore.Calls
