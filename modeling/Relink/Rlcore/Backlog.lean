import Relink.Rlcore.Sources

/-! A registration call among replies left over.

The queue that `register_with_rlcore_on_socket` takes its answer from is not emptied when a call
begins. An attempt takes the oldest datagram, and what is no ack ends it at once, without its
backoff; and while the queue is full an ack that comes is dropped. `returned_iff` says which
contents of the queue a call gets past. -/
namespace Relink.Rlcore.Backlog
open Wire Crypto
open Calls (wireRequest)
open Sources (outcomePeers)
open Transport (UdpTransport recvAndDispatch kMaxQueuedRegisterReplies)

/-! ### The call and its clock -/

/-- What is not the call's own doing, by attempt: whether `sendto` takes the request, and the time
from the end of the attempt before to the look at the queue. -/
structure Course where
  accepted : Nat → Bool
  delay : Nat → Nat

/-- The time since the call began, the transport's queue, and the datagram that is yet to come,
with its time. -/
structure Waiting where
  now : Nat
  queue : List Bytes
  due : Option (Nat × Bytes)
deriving DecidableEq, Repr

/-- What `recv_and_dispatch` does to the queue. -/
def handedOff (queue : List Bytes) (datagram : Bytes) : List Bytes :=
  if datagram = [] then queue
  else match decodeFrame datagram with
    | .ok _ => queue
    | .error _ => if queue.length < kMaxQueuedRegisterReplies then queue ++ [datagram] else queue

namespace Waiting
variable (s : Waiting)

/-- Until then, what is due comes. -/
def waitUntil (time : Nat) : Waiting :=
  match s.due with
  | none => {s with now := time}
  | some (t, datagram) =>
    if t ≤ time then ⟨time, handedOff s.queue datagram, none⟩ else {s with now := time}

def pop : Waiting × Option Bytes := ({s with queue := s.queue.tail}, s.queue.head?)

/-- `get_register_reply`, which waits on an empty queue only. -/
def getRegisterReply (timeout : Nat) : Waiting × Option Bytes :=
  if s.queue ≠ [] then s.pop
  else
    let waited := s.waitUntil (s.due.elim (s.now + timeout) fun d => min d.1 (s.now + timeout))
    if waited.queue ≠ [] then waited.pop else (waited.waitUntil (s.now + timeout), none)

end Waiting

/-- The retry loop, with so many attempts left. -/
def attempts (cfg : Config) (c : Course) : Nat → Nat → Nat → Waiting → Option (List RegisterAckPeer)
  | 0, _, _, _ => none
  | left + 1, attempt, backoff, s =>
    let s := s.waitUntil (s.now + c.delay attempt)
    if c.accepted attempt then
      let (s, reply) := s.getRegisterReply backoff
      (reply.bind (outcomePeers cfg)).or (attempts cfg c left (attempt + 1) (2 * backoff) s)
    else attempts cfg c left (attempt + 1) (2 * backoff) s

/-- `register_with_rlcore_on_socket` while the transport runs: the peers, if it returns ok. -/
def registerOnSocket (cfg : Config) (nonce : Nonce) (lan : PeerEntry) (topics : List UInt32)
    (maxRetries timeout : Nat) (c : Course) (s : Waiting) : Option (List RegisterAckPeer) :=
  match wireRequest cfg nonce lan topics with
  | none => none
  | some _ => attempts cfg c maxRetries 0 timeout s

/-! ### The answer used, and the attempts that look for it -/

/-- The attempts that get to look at the queue. -/
def Course.looks (c : Course) (attempt left : Nat) : Nat :=
  (List.range' attempt left).countP c.accepted

/-- Of the entries that the call looks at, the first that reads as an ack of status 0 has these
peers; or none does, looks are left for one entry more, and the ack is queued: it is no data frame,
and the queue was not full, or an entry had been taken from it. -/
def Answered (cfg : Config) (c : Course) (maxRetries : Nat) (queue : List Bytes) (t : Nat)
    (ack : Bytes) (peers : List RegisterAckPeer) : Prop :=
  (queue.take (c.looks 0 maxRetries)).findSome? (outcomePeers cfg) = some peers ∨
    (queue.take (c.looks 0 maxRetries)).findSome? (outcomePeers cfg) = none ∧
      queue.length < c.looks 0 maxRetries ∧ (decodeFrame ack).isOk = false ∧
      (queue.length < kMaxQueuedRegisterReplies ∨ c.delay 0 < t)

/-! ### What comes to the queue -/

theorem recvAndDispatch_handedOff {H F O : Type} {call : H → Bytes → Except F (H × O)}
    {t t' : UdpTransport H} {datagram : Bytes} {o : Transport.Outcome O}
    (h : recvAndDispatch call t datagram = .ok (t', o)) :
    t'.registerReplyQueue = handedOff t.registerReplyQueue datagram := by
  unfold recvAndDispatch at h
  unfold handedOff
  split at h
  · next hempty =>
    cases h
    rw [if_pos hempty]
  · next hne =>
    rw [if_neg hne]
    split at h
    · next heq =>
      cases h
      rw [heq]
      unfold Transport.handOff
      split <;> rfl
    · next heq =>
      rw [heq]
      exact Transport.dispatchFrame_queue h

theorem handedOff_room {queue : List Bytes} (h : queue.length < kMaxQueuedRegisterReplies)
    (datagram : Bytes) : handedOff queue datagram = queue ++ handedOff [] datagram := by
  unfold handedOff
  split
  · exact (List.append_nil queue).symm
  · split
    · exact (List.append_nil queue).symm
    · rfl

/-! ### One look -/

namespace Waiting
variable {s : Waiting}

/-- What the call will find, if it is in time: the queue, and the datagram that is due. -/
def contents (s : Waiting) : List Bytes :=
  s.queue ++ s.due.elim [] fun d => handedOff [] d.2

/-- The datagram that is due will find room. -/
def Room (s : Waiting) : Prop := s.due.isSome → s.queue.length < kMaxQueuedRegisterReplies

/-- It comes before a wait of this length ends. -/
def InTime (s : Waiting) (timeout : Nat) : Prop := ∀ d, s.due = some d → d.1 < s.now + timeout

theorem waitUntil_contents (h : s.Room) (time : Nat) : (s.waitUntil time).contents = s.contents := by
  unfold Waiting.waitUntil
  split
  · rfl
  · next t datagram hdue =>
    split
    · rw [contents, contents, hdue, handedOff_room (h (by rw [hdue]; rfl))]
      exact List.append_nil _
    · rfl

theorem waitUntil_room (h : s.Room) (time : Nat) : (s.waitUntil time).Room := by
  unfold Waiting.waitUntil
  split
  · exact h
  · split
    · exact fun hsome => (by cases hsome)
    · exact h

@[simp] theorem waitUntil_now (time : Nat) : (s.waitUntil time).now = time := by
  unfold Waiting.waitUntil
  split
  · rfl
  · split <;> rfl

theorem waitUntil_due (time : Nat) : ∀ d, (s.waitUntil time).due = some d → s.due = some d := by
  unfold Waiting.waitUntil
  split
  · exact fun d hd => hd
  · split
    · exact fun d hd => (by cases hd)
    · exact fun d hd => hd

theorem waitUntil_inTime {timeout time : Nat} (h : s.InTime timeout) (htime : s.now ≤ time) :
    (s.waitUntil time).InTime timeout := by
  intro d hd
  have := h d (waitUntil_due time d hd)
  rw [waitUntil_now]
  omega

theorem pop_spec (h : s.due.isSome → s.queue.length ≤ kMaxQueuedRegisterReplies) (hne : s.queue ≠ []) :
    s.pop.2 = s.contents.head? ∧ s.pop.1.contents = s.contents.tail ∧ s.pop.1.Room := by
  obtain ⟨bytes, rest, hqueue⟩ := List.exists_cons_of_ne_nil hne
  refine ⟨?_, ?_, fun hsome => ?_⟩
  · rw [pop, contents, hqueue]
    rfl
  · rw [pop, contents, contents, hqueue]
    rfl
  · have hfull := h hsome
    have hpos := List.length_pos_iff.mpr hne
    simp only [pop, List.length_tail]
    omega

theorem waitUntil_spent (h : s.due = none) (time : Nat) : s.waitUntil time = {s with now := time} := by
  rw [Waiting.waitUntil, h]

theorem spent (h : s.due = none) (timeout : Nat) : s.Room ∧ s.InTime timeout := by
  unfold Room InTime
  simp [h]

/-- **One look** finds the first of the contents, if what is due is in time. -/
theorem getRegisterReply_spec {timeout : Nat}
    (h : s.due.isSome → s.queue.length ≤ kMaxQueuedRegisterReplies) (hdue : s.InTime timeout) :
    (s.getRegisterReply timeout).2 = s.contents.head? ∧
      (s.getRegisterReply timeout).1.contents = s.contents.tail ∧
      (s.getRegisterReply timeout).1.Room ∧ (s.getRegisterReply timeout).1.InTime (2 * timeout) := by
  unfold getRegisterReply
  by_cases hne : s.queue ≠ []
  · rw [if_pos hne]
    obtain ⟨hreply, hcontents, hroom⟩ := pop_spec h hne
    refine ⟨hreply, hcontents, hroom, fun d hd => ?_⟩
    have hbefore := hdue d hd
    have hnow : s.pop.1.now = s.now := rfl
    omega
  · rw [if_neg hne]
    -- after the wait nothing is due
    have hwaited : ∃ time, s.waitUntil (s.due.elim (s.now + timeout) fun d =>
        min d.1 (s.now + timeout)) = ⟨time, s.contents, none⟩ := by
      rw [contents, not_not.mp hne, List.nil_append]
      cases hd : s.due with
      | none =>
        refine ⟨s.now + timeout, ?_⟩
        rw [waitUntil_spent hd, not_not.mp hne, hd]
        rfl
      | some d =>
        refine ⟨d.1, ?_⟩
        rw [Waiting.waitUntil, hd, Option.elim_some, Option.elim_some,
          Nat.min_eq_left (Nat.le_of_lt (hdue d hd)), not_not.mp hne]
        exact if_pos (Nat.le_refl _)
    obtain ⟨time, hwaited⟩ := hwaited
    simp only [hwaited]
    by_cases hfound : s.contents ≠ []
    · rw [if_pos hfound]
      exact ⟨rfl, List.append_nil _, (spent rfl 0).1, (spent rfl _).2⟩
    · rw [if_neg hfound, waitUntil_spent rfl, not_not.mp hfound]
      exact ⟨rfl, rfl, (spent rfl 0).1, (spent rfl _).2⟩

end Waiting

/-! ### The retry loop -/

section
variable {cfg : Config} {c : Course}

theorem looks_succ (c : Course) (attempt left : Nat) :
    c.looks attempt (left + 1) =
      c.looks (attempt + 1) left + if c.accepted attempt then 1 else 0 := by
  rw [Course.looks, List.range'_succ, List.countP_cons]
  rfl

/-- An attempt that gets to look, and those after it. -/
theorem look_eq {left attempt backoff : Nat} {s : Waiting}
    (h : s.due.isSome → s.queue.length ≤ kMaxQueuedRegisterReplies) (hdue : s.InTime backoff)
    (hrest : ∀ s : Waiting, s.Room → s.InTime (2 * backoff) →
      attempts cfg c left attempt (2 * backoff) s =
        (s.contents.take (c.looks attempt left)).findSome? (outcomePeers cfg)) :
    ((s.getRegisterReply backoff).2.bind (outcomePeers cfg)).or
        (attempts cfg c left attempt (2 * backoff) (s.getRegisterReply backoff).1) =
      (s.contents.take (c.looks attempt left + 1)).findSome? (outcomePeers cfg) := by
  obtain ⟨hreply, hcontents, hroom, hintime⟩ := Waiting.getRegisterReply_spec h hdue
  rw [hrest _ hroom hintime, hcontents, hreply]
  cases s.contents with
  | nil => simp
  | cons bytes rest =>
    rw [List.take_succ_cons, List.findSome?_cons]
    simp only [List.head?_cons, Option.bind_some, List.tail_cons]
    cases outcomePeers cfg bytes <;> rfl

/-- **The loop** takes the first entry that it can use. -/
theorem attempts_eq {left attempt backoff : Nat} {s : Waiting} (h : s.Room) (hdue : s.InTime backoff) :
    attempts cfg c left attempt backoff s =
      (s.contents.take (c.looks attempt left)).findSome? (outcomePeers cfg) := by
  induction left generalizing attempt backoff s with
  | zero => rfl
  | succ left ih =>
    have hcontents := Waiting.waitUntil_contents h (s.now + c.delay attempt)
    have hroom := Waiting.waitUntil_room h (s.now + c.delay attempt)
    have hintime := Waiting.waitUntil_inTime hdue (Nat.le_add_right s.now (c.delay attempt))
    rw [attempts, looks_succ]
    generalize s.waitUntil (s.now + c.delay attempt) = s' at hcontents hroom hintime
    rw [← hcontents]
    by_cases haccepted : c.accepted attempt = true
    · simp only [if_pos haccepted]
      exact look_eq (fun hsome => Nat.le_of_lt (hroom hsome)) hintime fun _ h hdue => ih h hdue
    · simp only [if_neg haccepted, Nat.add_zero]
      refine ih hroom fun d hd => ?_
      have := hintime d hd
      omega

/-- What the call finds from its first look on. -/
def found (c : Course) (queue : List Bytes) (t : Nat) (ack : Bytes) : List Bytes :=
  if t ≤ c.delay 0 then handedOff queue ack else queue ++ handedOff [] ack

/-- The first look may find the queue full. -/
theorem attempts_first {left timeout t : Nat} {queue : List Bytes} {ack : Bytes}
    (hfull : queue.length ≤ kMaxQueuedRegisterReplies) (haccepted : c.accepted 0 = true)
    (ht : t < c.delay 0 + timeout) :
    attempts cfg c (left + 1) 0 timeout ⟨0, queue, some (t, ack)⟩ =
      ((found c queue t ack).take (c.looks 0 (left + 1))).findSome? (outcomePeers cfg) := by
  have hwait : (⟨0, queue, some (t, ack)⟩ : Waiting).waitUntil (0 + c.delay 0) =
      if t ≤ c.delay 0 then ⟨c.delay 0, handedOff queue ack, none⟩
      else ⟨c.delay 0, queue, some (t, ack)⟩ := by
    rw [Nat.zero_add]
    rfl
  rw [attempts, looks_succ]
  simp only [hwait, if_pos haccepted, found]
  split
  · let late : Waiting := ⟨c.delay 0, handedOff queue ack, none⟩
    have hlook : ((late.getRegisterReply timeout).2.bind (outcomePeers cfg)).or
          (attempts cfg c left 1 (2 * timeout) (late.getRegisterReply timeout).1) =
        (late.contents.take (c.looks 1 left + 1)).findSome? (outcomePeers cfg) :=
      look_eq (fun hsome => by cases hsome) (Waiting.spent rfl _).2
        fun _ h hdue => attempts_eq h hdue
    rw [hlook, Waiting.contents, Option.elim_none, List.append_nil]
  · have hintime : Waiting.InTime ⟨c.delay 0, queue, some (t, ack)⟩ timeout := fun d hd => by
      cases hd
      exact ht
    exact look_eq (fun _ => hfull) hintime fun _ h hdue => attempts_eq h hdue

theorem handedOff_ack {ack : Bytes} (hne : ack ≠ []) (queue : List Bytes) :
    handedOff queue ack = queue ++
      if (decodeFrame ack).isOk = false ∧ queue.length < kMaxQueuedRegisterReplies then [ack]
      else [] := by
  unfold handedOff
  rw [if_neg hne]
  cases decodeFrame ack with
  | ok frame => exact (List.append_nil queue).symm
  | error e =>
    have herror : (Except.error e : Except DecodeResult DecodedFrame).isOk = false := rfl
    simp only [herror, true_and]
    split
    · rfl
    · exact (List.append_nil queue).symm

theorem found_eq {ack : Bytes} (hne : ack ≠ []) (queue : List Bytes) (t : Nat) :
    found c queue t ack = queue ++
      if (decodeFrame ack).isOk = false ∧
        (queue.length < kMaxQueuedRegisterReplies ∨ c.delay 0 < t) then [ack] else [] := by
  have hempty : ([] : List Bytes).length < kMaxQueuedRegisterReplies := by decide
  unfold found
  rw [handedOff_ack hne, handedOff_ack hne]
  by_cases ht : t ≤ c.delay 0
  · simp only [if_pos ht, Nat.not_lt.mpr ht, or_false]
  · simp only [if_neg ht, Nat.lt_of_not_le ht, or_true, hempty, and_true, List.nil_append]

theorem outcomePeers_ne_nil {ack : Bytes} {peers : List RegisterAckPeer}
    (h : outcomePeers cfg ack = some peers) : ack ≠ [] := by
  rintro rfl
  have hnone : readReply cfg [] = none := by
    unfold readReply
    cases cfg.encryptKey with
    | none => rfl
    | some key => rfl
  rw [outcomePeers, hnone] at h
  cases h

end

/-- **A call gets past the replies left over** exactly if none of those it looks at is usable, or
the first that is says the same, and otherwise the ack comes into a queue with room, in reach of
its looks. -/
theorem returned_iff (cfg : Config) (nonce : Nonce) (lan : PeerEntry) (topics : List UInt32)
    (maxRetries timeout : Nat) (c : Course) (queue : List Bytes) (t : Nat) (ack : Bytes)
    (peers : List RegisterAckPeer) (hrequest : (wireRequest cfg nonce lan topics).isSome)
    (hretries : 0 < maxRetries) (haccepted : c.accepted 0 = true)
    (hqueue : queue.length ≤ kMaxQueuedRegisterReplies)
    (hack : outcomePeers cfg ack = some peers) (ht : t < c.delay 0 + timeout) :
    registerOnSocket cfg nonce lan topics maxRetries timeout c ⟨0, queue, some (t, ack)⟩ = some peers ↔
      Answered cfg c maxRetries queue t ack peers := by
  obtain ⟨request, hsome⟩ := Option.isSome_iff_exists.mp hrequest
  obtain ⟨left, rfl⟩ := Nat.exists_eq_succ_of_ne_zero (Nat.ne_of_gt hretries)
  rw [registerOnSocket, hsome]
  simp only
  rw [attempts_first hqueue haccepted ht, found_eq (outcomePeers_ne_nil hack), List.take_append,
    List.findSome?_append, Answered]
  cases (queue.take (c.looks 0 (left + 1))).findSome? (outcomePeers cfg) with
  | some stale => simp
  | none =>
    have hnone : (none : Option (List RegisterAckPeer)) ≠ some peers := (Option.some_ne_none peers).symm
    rw [Option.none_or]
    refine Iff.trans ?_ ((or_iff_right hnone).trans (and_iff_right rfl)).symm
    by_cases hcomes : (decodeFrame ack).isOk = false ∧
        (queue.length < kMaxQueuedRegisterReplies ∨ c.delay 0 < t)
    · rw [if_pos hcomes]
      by_cases hlooks : queue.length < c.looks 0 (left + 1)
      · obtain ⟨n, hn⟩ := Nat.exists_eq_add_of_lt hlooks
        have hleft : c.looks 0 (left + 1) - queue.length = n + 1 := by omega
        rw [hleft, List.take_succ_cons, List.findSome?_cons, hack]
        exact iff_of_true rfl ⟨hlooks, hcomes⟩
      · have hleft : c.looks 0 (left + 1) - queue.length = 0 := by omega
        rw [hleft]
        exact iff_of_false hnone fun h => hlooks h.1
    · rw [if_neg hcomes, List.take_nil]
      exact iff_of_false hnone fun h => hcomes h.2

/-- One entry that is no ack, in the loop of the node. -/
theorem answered_after_one : registerOnSocket .plain (Vector.replicate 12 0) ⟨1, 2⟩ [7] 5 100
    ⟨fun _ => true, fun _ => 0⟩ ⟨0, [[1]], some (1, ackBytes 0 [⟨1, 2, 7, 1, 2⟩])⟩ =
      some [⟨1, 2, 7, 1, 2⟩] :=
  (returned_iff .plain _ _ _ 5 100 ⟨fun _ => true, fun _ => 0⟩ [[1]] 1 _ _ (by decide) (by decide) rfl
    (by decide) (by decide) (by decide)).mpr (Or.inr (by decide))

/-- Five such entries take the five attempts. -/
theorem backlog_defeats : ¬ ∀ (queue : List Bytes) (t : Nat) (ack : Bytes)
    (peers : List RegisterAckPeer), queue.length ≤ kMaxQueuedRegisterReplies →
      outcomePeers .plain ack = some peers → t < 100 →
      registerOnSocket .plain (Vector.replicate 12 0) ⟨1, 2⟩ [7] 5 100 ⟨fun _ => true, fun _ => 0⟩
        ⟨0, queue, some (t, ack)⟩ = some peers := by
  intro h
  have hcall := h (List.replicate 5 [1]) 1 (ackBytes 0 []) [] (by decide) (by decide) (by decide)
  revert hcall
  decide

end Relink.Rlcore.Backlog
