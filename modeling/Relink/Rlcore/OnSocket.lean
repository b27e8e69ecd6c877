import Relink.Rlcore.Sources
import Relink.Wire.RegisterCodec

/-! One registration call, with the socket it is made on.

`register_with_rlcore_on_socket` sends its request again after a timeout, and waits on the socket
itself unless the transport runs. `timeout_restored_iff` says when it leaves the socket's receive
timeout as it found it, and `whole_list_iff` of which topics its request is. -/
namespace Relink.Rlcore.OnSocket
open Wire Crypto
open Calls (wireRequest)
open Sources (outcomePeers)

/-! ### The socket's timeout -/

/-- The two variants of `platform.hpp`. -/
inductive Platform where
  | windows
  | posix
deriving DecidableEq, Repr

/-- What `SO_RCVTIMEO` is set to: a `DWORD` of milliseconds, or a `struct timeval`. -/
inductive TimeoutValue where
  | dword (ms : UInt32)
  | timeval (tvSec tvUsec : Int)
deriving DecidableEq, Repr

/-- The argument that `set_recv_timeout_ms` makes of a number of milliseconds; the division is C's. -/
def Platform.timeoutValue : Platform → Int → TimeoutValue
  | .windows, ms => .dword (UInt32.ofInt ms)
  | .posix, ms => .timeval (ms.tdiv 1000) (ms.tmod 1000 * 1000)

/-- `set_recv_timeout_ms`. Nobody looks at what `setsockopt` returns. -/
def setRecvTimeoutMs {T : Type} (setsockopt : T → TimeoutValue → T) (platform : Platform) (timeout : T)
    (ms : Int32) : T :=
  setsockopt timeout (platform.timeoutValue ms.toInt)

/-- `setsockopt` sets the timeout that the value names, whatever was set before, or refuses the value
and leaves what there is. -/
def SetsTimeout {T : Type} (setsockopt : T → TimeoutValue → T) (named : TimeoutValue → Option T) :
    Prop :=
  ∀ timeout value, setsockopt timeout value = (named value).getD timeout

/-- The last of the timeouts that is not refused. -/
def lastNamed {T : Type} (named : TimeoutValue → Option T) (platform : Platform) (timeouts : List Int32) :
    Option T :=
  (timeouts.filterMap fun ms => named (platform.timeoutValue ms.toInt)).getLast?

/-- What is left of setting one timeout after the other is the last that is not refused. -/
theorem foldl_setRecvTimeoutMs {T : Type} {setsockopt : T → TimeoutValue → T}
    {named : TimeoutValue → Option T} (hsets : SetsTimeout setsockopt named) (platform : Platform)
    (timeouts : List Int32) (timeout : T) :
    timeouts.foldl (setRecvTimeoutMs setsockopt platform) timeout =
      (lastNamed named platform timeouts).getD timeout := by
  induction timeouts generalizing timeout with
  | nil => rfl
  | cons ms rest ih =>
    rw [List.foldl_cons, ih, setRecvTimeoutMs, hsets, lastNamed, lastNamed, List.filterMap_cons]
    cases named (platform.timeoutValue ms.toInt) with
    | none => rfl
    | some value =>
      simp only [Option.getD_some]
      rw [List.getLast?_cons, Option.getD_some]

/-! ### The call -/

/-- What is not the call's own doing, by attempt: whether `sendto` takes all of the request, and what
the socket or the transport's queue has within the timeout. -/
structure Course where
  accepted : Nat → Bool
  reply : Nat → Option Bytes

/-- What the call leaves: the socket's receive timeout, the datagrams it has sent, and the peers if it
returns ok. -/
structure Left (T : Type) where
  timeout : T
  sent : List Bytes
  peers : Option (List RegisterAckPeer)
deriving DecidableEq

section
variable {T : Type} (setsockopt : T → TimeoutValue → T) (platform : Platform) (cfg : Config)
  (c : Course) (running : Bool)

/-- The retry loop, with so many attempts left. The timeout doubles as an `int`. -/
def attempts (request : Bytes) : Nat → Nat → Int32 → T → Left T
  | 0, _, _, timeout => ⟨timeout, [], none⟩
  | left + 1, attempt, backoff, timeout =>
    let timeout := if running then timeout else setRecvTimeoutMs setsockopt platform timeout backoff
    if c.accepted attempt then
      match (c.reply attempt).bind (outcomePeers cfg) with
      | some peers => ⟨timeout, [request], some peers⟩
      | none =>
        let r := attempts request left (attempt + 1) (backoff * 2) timeout
        {r with sent := request :: r.sent}
    else attempts request left (attempt + 1) (backoff * 2) timeout

/-- `register_with_rlcore_on_socket`, `setsockopt` being a parameter. -/
def registerOnSocket (nonce : Nonce) (lan : PeerEntry) (topics : List UInt32) (maxRetries : Int)
    (timeoutMs : Int32) (timeout : T) : Left T :=
  match wireRequest cfg nonce lan topics with
  | none => ⟨timeout, [], none⟩
  | some request =>
    attempts setsockopt platform cfg c running request maxRetries.toNat 0 timeoutMs timeout

end

/-! ### The attempts it makes -/

/-- The attempt that gets an ack of status 0 has these peers. -/
def Course.answer (c : Course) (cfg : Config) (attempt : Nat) : Option (List RegisterAckPeer) :=
  if c.accepted attempt then (c.reply attempt).bind (outcomePeers cfg) else none

/-- The number of attempts from this one on: up to the first that is answered. -/
def Course.tries (c : Course) (cfg : Config) (attempt left : Nat) : Nat :=
  min left (((List.range' attempt left).takeWhile fun i => (c.answer cfg i).isNone).length + 1)

/-- The timeouts they set. -/
def Course.timeouts (c : Course) (cfg : Config) (attempt left : Nat) (backoff : Int32) : List Int32 :=
  (List.range (c.tries cfg attempt left)).map fun i => (· * 2)^[i] backoff

section
variable {T : Type} (setsockopt : T → TimeoutValue → T) (platform : Platform) {cfg : Config}
  {c : Course} (running : Bool)

theorem tries_answered {attempt : Nat} (h : (c.answer cfg attempt).isSome) (left : Nat) :
    c.tries cfg attempt (left + 1) = 1 := by
  rw [Course.tries, List.range'_succ, List.takeWhile_cons_of_neg]
  · simp
  · rw [Option.isNone_iff_eq_none, ← Option.not_isSome_iff_eq_none, not_not]
    exact h

theorem tries_unanswered {attempt : Nat} (h : c.answer cfg attempt = none) (left : Nat) :
    c.tries cfg attempt (left + 1) = c.tries cfg (attempt + 1) left + 1 := by
  rw [Course.tries, List.range'_succ, List.takeWhile_cons_of_pos, List.length_cons, Course.tries]
  · omega
  · rw [h]
    rfl

theorem timeouts_answered {attempt : Nat} (h : (c.answer cfg attempt).isSome) (left : Nat)
    (backoff : Int32) : c.timeouts cfg attempt (left + 1) backoff = [backoff] := by
  rw [Course.timeouts, tries_answered h]
  rfl

theorem timeouts_unanswered {attempt : Nat} (h : c.answer cfg attempt = none) (left : Nat)
    (backoff : Int32) : c.timeouts cfg attempt (left + 1) backoff =
      backoff :: c.timeouts cfg (attempt + 1) left (backoff * 2) := by
  rw [Course.timeouts, tries_unanswered h, List.range_succ_eq_map, List.map_cons, List.map_map]
  rfl

theorem attempts_answered {attempt : Nat} {peers : List RegisterAckPeer}
    (h : c.answer cfg attempt = some peers) (request : Bytes) (left : Nat) (backoff : Int32)
    (timeout : T) :
    attempts setsockopt platform cfg c running request (left + 1) attempt backoff timeout =
      ⟨if running then timeout else setRecvTimeoutMs setsockopt platform timeout backoff, [request],
        some peers⟩ := by
  unfold Course.answer at h
  split at h
  · next haccepted =>
    rw [attempts, if_pos haccepted, h]
  · cases h

theorem attempts_unanswered {attempt : Nat} (h : c.answer cfg attempt = none) (request : Bytes)
    (left : Nat) (backoff : Int32) (timeout : T) :
    attempts setsockopt platform cfg c running request (left + 1) attempt backoff timeout =
      let r := attempts setsockopt platform cfg c running request left (attempt + 1) (backoff * 2)
        (if running then timeout else setRecvTimeoutMs setsockopt platform timeout backoff)
      {r with sent := (if c.accepted attempt then [request] else []) ++ r.sent} := by
  unfold Course.answer at h
  split at h
  · next haccepted =>
    rw [attempts, if_pos haccepted, h, if_pos haccepted]
    rfl
  · next haccepted =>
    rw [attempts, if_neg haccepted, if_neg haccepted]
    rfl

/-- The timeout is what the attempts set, one after the other. -/
theorem attempts_timeout (request : Bytes) (left attempt : Nat) (backoff : Int32) (timeout : T) :
    (attempts setsockopt platform cfg c running request left attempt backoff timeout).timeout =
      if running then timeout
      else (c.timeouts cfg attempt left backoff).foldl (setRecvTimeoutMs setsockopt platform) timeout := by
  induction left generalizing attempt backoff timeout with
  | zero => simp [attempts, Course.timeouts, Course.tries]
  | succ left ih =>
    cases hanswer : c.answer cfg attempt with
    | some peers =>
      rw [attempts_answered _ _ _ hanswer, timeouts_answered (by rw [hanswer]; rfl)]
      rfl
    | none =>
      rw [attempts_unanswered _ _ _ hanswer, timeouts_unanswered hanswer]
      show (attempts _ _ cfg c running request left _ _ _).timeout = _
      rw [ih]
      cases running <;> rfl

end

/-! ### The Python build -/

namespace Py

/-- What `gettimeout` returns afterwards, and the peers if it returns ok; or it raises. -/
inductive Returned where
  | ok (peers : List RegisterAckPeer)
  | failed
  | raised
deriving DecidableEq

section
variable (cfg : Config) (c : Course) (running : Bool)

/-- The retry loop; `settimeout` raises for a negative timeout. -/
def attempts : Nat → Nat → ℚ → Option ℚ → Option ℚ × Returned
  | 0, _, _, timeout => (timeout, .failed)
  | left + 1, attempt, backoff, timeout =>
    if running = false ∧ backoff < 0 then (timeout, .raised)
    else
      let timeout := if running then timeout else some backoff
      match if c.accepted attempt then (c.reply attempt).bind (Rlcore.Py.readReply cfg) else none with
      | some (0, peers) => (timeout, .ok peers)
      | _ => attempts left (attempt + 1) (backoff * 2) timeout

/-- The caller's timeout comes back in a `finally`. -/
def registerOnSocket (lan : PeerEntry) (topics : List UInt32) (maxRetries : Int) (timeoutS : ℚ)
    (originalTimeout : Option ℚ) : Option ℚ × Returned :=
  match Wire.Py.encodeRegisterRequest lan.ip lan.port topics with
  | .error _ => (originalTimeout, .raised)
  | .ok _ =>
    let r := attempts cfg c running maxRetries.toNat 0 timeoutS originalTimeout
    (if running then r.1 else originalTimeout, r.2)

end

theorem attempts_running (cfg : Config) (c : Course) (left attempt : Nat) (backoff : ℚ)
    (timeout : Option ℚ) : (attempts cfg c true left attempt backoff timeout).1 = timeout := by
  induction left generalizing attempt backoff with
  | zero => rfl
  | succ left ih =>
    rw [attempts, if_neg (by simp)]
    dsimp only
    split
    · rfl
    · exact ih ..

theorem registerOnSocket_timeout (cfg : Config) (c : Course) (running : Bool) (lan : PeerEntry)
    (topics : List UInt32) (maxRetries : Int) (timeoutS : ℚ) (originalTimeout : Option ℚ) :
    (registerOnSocket cfg c running lan topics maxRetries timeoutS originalTimeout).1 =
      originalTimeout := by
  unfold registerOnSocket
  split
  · rfl
  · cases running with
    | true => exact attempts_running ..
    | false => rfl

end Py

/-- **A call leaves the timeout as it found it** exactly if the transport runs, the request is not
sent, there is no attempt, or the last timeout of its attempts that `setsockopt` takes, twice the one
before it each time, names the one the call found. The Python build always does. -/
theorem timeout_restored_iff {T : Type} {setsockopt : T → TimeoutValue → T}
    {named : TimeoutValue → Option T} (hsets : SetsTimeout setsockopt named) (platform : Platform)
    (cfg : Config) (c : Course) (running : Bool) (nonce : Nonce) (lan : PeerEntry)
    (topics : List UInt32) (maxRetries : Int) :
    (∀ timeoutMs timeout,
      (registerOnSocket setsockopt platform cfg c running nonce lan topics maxRetries timeoutMs
        timeout).timeout = timeout ↔
      running ∨ wireRequest cfg nonce lan topics = none ∨ maxRetries ≤ 0 ∨
        ∀ last ∈ lastNamed named platform (c.timeouts cfg 0 maxRetries.toNat timeoutMs),
          last = timeout) ∧
    ∀ timeoutS timeout, (Py.registerOnSocket cfg c running lan topics maxRetries timeoutS timeout).1 =
      timeout := by
  refine ⟨fun timeoutMs timeout => ?_, fun timeoutS timeout => Py.registerOnSocket_timeout ..⟩
  unfold registerOnSocket
  cases wireRequest cfg nonce lan topics with
  | none => simp
  | some request =>
    simp only
    rw [attempts_timeout, foldl_setRecvTimeoutMs hsets]
    cases running with
    | true => simp
    | false =>
      by_cases hnone : maxRetries ≤ 0
      · have hempty : c.timeouts cfg 0 maxRetries.toNat timeoutMs = [] := by
          rw [Int.toNat_eq_zero.mpr hnone, Course.timeouts, Course.tries, Nat.zero_min]
          rfl
        rw [hempty]
        simp [lastNamed, hnone]
      · cases lastNamed named platform (c.timeouts cfg 0 maxRetries.toNat timeoutMs) with
        | none => simp
        | some last => simp [hnone]

/-- Linux, in microseconds; `none` waits for ever. -/
def linuxTimeout : TimeoutValue → Option (Option Nat)
  | .dword _ => none
  | .timeval tvSec tvUsec =>
    if tvUsec < 0 ∨ 1000000 ≤ tvUsec then none
    else if tvSec < 0 then some (some 0)
    else if tvSec = 0 ∧ tvUsec = 0 then some none
    else some (some (tvSec.toNat * 1000000 + tvUsec.toNat))

def linuxSetsockopt (timeout : Option Nat) (value : TimeoutValue) : Option Nat :=
  (linuxTimeout value).getD timeout

/-- Two attempts without an answer, of 25 and of 50 ms, on a socket that `bind` gave 50. -/
theorem timeout_restored_iff_doubled :
    (registerOnSocket linuxSetsockopt .posix .plain ⟨fun _ => true, fun _ => none⟩ false
      (Vector.replicate 12 0) ⟨1, 2⟩ [7] 2 25 (some 50000)).timeout = some 50000 ∧
    (Py.registerOnSocket .plain ⟨fun _ => true, fun _ => none⟩ false ⟨1, 2⟩ [7] 2 (1 / 40)
      (some (1 / 20))).1 = some (1 / 20) := by
  have hcall := timeout_restored_iff (fun _ _ => rfl : SetsTimeout linuxSetsockopt linuxTimeout) .posix
    .plain ⟨fun _ => true, fun _ => none⟩ false (Vector.replicate 12 0) ⟨1, 2⟩ [7] 2
  exact ⟨(hcall.1 25 (some 50000)).mpr (.inr (.inr (.inr (by decide +kernel)))), hcall.2 _ _⟩

/-- The call of `ensure_started`, one attempt of 300 ms on a socket that `bind` gave 50, without an
answer and with one. -/
theorem start_leaves_300 :
    (registerOnSocket linuxSetsockopt .posix .plain ⟨fun _ => true, fun _ => none⟩ false
      (Vector.replicate 12 0) ⟨1, 2⟩ [7] 1 300 (some 50000)).timeout = some 300000 ∧
    registerOnSocket linuxSetsockopt .posix .plain ⟨fun _ => true, fun _ => some (ackBytes 0 [])⟩ false
      (Vector.replicate 12 0) ⟨1, 2⟩ [7] 1 300 (some 50000) =
        ⟨some 300000, [requestBytes 1 2 [7]], some []⟩ := by
  decide +kernel

/-! ### The topics of the request -/

/-- The number of topics a request has room for; a sealed one is 28 bytes longer. -/
def requestRoom (cfg : Config) : Nat :=
  match cfg.encryptKey with
  | none => kMaxRegisterTopics
  | some _ => 16367

/-- The two places that make the call. -/
inductive CallSite where
  | ensureStarted
  | reregister
deriving DecidableEq, Repr

def CallSite.maxRetries : CallSite → Int
  | .ensureStarted => 1
  | .reregister => 5

def CallSite.timeoutMs : CallSite → Int32
  | .ensureStarted => 300
  | .reregister => 100

/-- The datagram reads as a request of all the topics. -/
def ListsAll (cfg : Config) (topics : List UInt32) (bytes : Bytes) : Prop :=
  ∃ req, readRequest cfg bytes = some req ∧ topics ⊆ req.topics

/-- Whatever happens, the call returns ok only if it has sent a request of all the topics. -/
def CoversList (cfg : Config) (site : CallSite) (nonce : Nonce) (lan : PeerEntry)
    (topics : List UInt32) : Prop :=
  ∀ {T : Type} (setsockopt : T → TimeoutValue → T) platform c running timeout,
    let r := registerOnSocket setsockopt platform cfg c running nonce lan topics site.maxRetries
      site.timeoutMs timeout
    r.peers.isSome → ∃ bytes ∈ r.sent, ListsAll cfg topics bytes

theorem encodeRegisterRequest_cast (nodeIp : UInt32) (nodePort : UInt16) (topics : List UInt32) :
    encodeRegisterRequest nodeIp nodePort topics (UInt16.ofNat topics.length) kMaxDatagramBytes =
      if topics.length % 65536 ≤ kMaxRegisterTopics
      then .ok (requestBytes nodeIp nodePort (topics.take (topics.length % 65536)))
      else .error .tooManyTopics := by
  have hcast : (UInt16.ofNat topics.length).toNat = topics.length % 65536 := UInt16.toNat_ofNat'
  have hle : topics.length % 65536 ≤ topics.length := Nat.mod_le ..
  have hcount : UInt16.ofNat (topics.length % 65536) = UInt16.ofNat topics.length := by
    apply UInt16.toNat_inj.mp
    rw [hcast, UInt16.toNat_ofNat', Nat.mod_mod]
  unfold encodeRegisterRequest
  rw [hcast]
  by_cases hfits : topics.length % 65536 ≤ kMaxRegisterTopics
  · have hcap : kMaxRegisterTopics = 16374 := rfl
    rw [if_pos hfits, if_neg (not_lt.mpr hfits),
      if_neg (by rw [kMaxDatagramBytes, kRegisterRequestHeaderBytes]; omega), requestBytes,
      List.length_take, Nat.min_eq_left hle, hcount, List.append_assoc, List.append_assoc]
  · rw [if_neg hfits, if_pos (not_le.mp hfits)]

theorem wireRequest_plain {cfg : Config} (hplain : cfg.encryptKey = none) {topics : List UInt32}
    (h : topics.length % 65536 ≤ kMaxRegisterTopics) (nonce : Nonce) (lan : PeerEntry) :
    wireRequest cfg nonce lan topics =
      some (requestBytes lan.ip lan.port (topics.take (topics.length % 65536))) := by
  rw [wireRequest, hplain]
  simp only
  rw [encodeRegisterRequest_cast, if_pos h]
  rfl

/-- A list whose cast length fits is asked for, up to that length. -/
theorem wireRequest_some {cfg : Config} {topics : List UInt32}
    (h : topics.length % 65536 ≤ requestRoom cfg) (nonce : Nonce) (lan : PeerEntry) :
    ∃ bytes req, wireRequest cfg nonce lan topics = some bytes ∧
      readRequest cfg bytes = some req ∧ req.topics = topics.take (topics.length % 65536) := by
  have hsent : ∃ bytes, wireRequest cfg nonce lan topics = some bytes := by
    unfold requestRoom at h
    cases hkey : cfg.encryptKey with
    | none =>
      rw [hkey] at h
      exact ⟨_, wireRequest_plain hkey h nonce lan⟩
    | some key =>
      rw [hkey] at h
      have hroom : topics.length % 65536 ≤ 16367 := h
      have hlength := requestBytes_length lan.ip lan.port (topics.take (topics.length % 65536))
      rw [List.length_take, Nat.min_eq_left (Nat.mod_le ..)] at hlength
      obtain ⟨blob, hseal, _⟩ := aes256gcmSeal_some key nonce
        (requestBytes lan.ip lan.port (topics.take (topics.length % 65536)))
        (show _ ≤ kMaxDatagramBytes by rw [hlength, kMaxDatagramBytes]; omega)
      refine ⟨blob, ?_⟩
      rw [wireRequest, hkey]
      simp only [sealRequest]
      rw [encodeRegisterRequest_cast, if_pos (hroom.trans (by decide))]
      exact hseal
  obtain ⟨bytes, hbytes⟩ := hsent
  obtain ⟨req, hread, _, htopics⟩ := readRequest_wellFormed (Calls.wireRequest_wellFormed hbytes)
  rw [UInt16.toNat_ofNat'] at htopics
  exact ⟨bytes, req, hbytes, hread, htopics⟩

/-- One whose cast length does not fit is refused. -/
theorem wireRequest_none {cfg : Config} {topics : List UInt32}
    (h : requestRoom cfg < topics.length % 65536) (nonce : Nonce) (lan : PeerEntry) :
    wireRequest cfg nonce lan topics = none := by
  unfold requestRoom at h
  unfold wireRequest
  cases hkey : cfg.encryptKey with
  | none =>
    rw [hkey] at h
    rw [encodeRegisterRequest_cast, if_neg (not_le.mpr h)]
    rfl
  | some key =>
    rw [hkey] at h
    have hroom : 16367 < topics.length % 65536 := h
    simp only [sealRequest]
    rw [encodeRegisterRequest_cast]
    by_cases hfits : topics.length % 65536 ≤ kMaxRegisterTopics
    · have hlength := requestBytes_length lan.ip lan.port (topics.take (topics.length % 65536))
      rw [List.length_take, Nat.min_eq_left (Nat.mod_le ..)] at hlength
      rw [if_pos hfits]
      exact aes256gcmSeal_none key nonce _ (by rw [hlength, kMaxDatagramBytes]; omega)
    · rw [if_neg hfits]

section
variable {T : Type} (setsockopt : T → TimeoutValue → T) (platform : Platform) {cfg : Config}
  (c : Course) (running : Bool)

/-- Nothing is sent but the request, and it has been sent once an answer is taken. -/
theorem attempts_sent (request : Bytes) (left attempt : Nat) (backoff : Int32) (timeout : T) :
    let r := attempts setsockopt platform cfg c running request left attempt backoff timeout
    (∀ bytes ∈ r.sent, bytes = request) ∧ (r.peers.isSome → request ∈ r.sent) := by
  induction left generalizing attempt backoff timeout with
  | zero => exact ⟨fun bytes hbytes => (nomatch hbytes), fun hsome => (nomatch hsome)⟩
  | succ left ih =>
    cases hanswer : c.answer cfg attempt with
    | some peers =>
      rw [attempts_answered _ _ _ hanswer]
      exact ⟨fun bytes hbytes => List.mem_singleton.mp hbytes, fun _ => List.mem_singleton_self _⟩
    | none =>
      obtain ⟨hall, hsent⟩ := ih (attempt + 1) (backoff * 2)
        (if running then timeout else setRecvTimeoutMs setsockopt platform timeout backoff)
      rw [attempts_unanswered _ _ _ hanswer]
      refine ⟨fun bytes hbytes => ?_, fun hsome => List.mem_append_right _ (hsent hsome)⟩
      rcases List.mem_append.mp hbytes with hhere | hlater
      · split at hhere
        · exact List.mem_singleton.mp hhere
        · cases hhere
      · exact hall bytes hlater

end

/-- There is a reply that a call takes for an answer. -/
theorem exists_answer (cfg : Config) : ∃ c : Course, c.answer cfg 0 = some [] := by
  obtain ⟨ack, _, hread⟩ := encodeAck_some cfg (Vector.replicate 12 0) [] (Nat.zero_le _)
  refine ⟨⟨fun _ => true, fun _ => some ack⟩, ?_⟩
  show outcomePeers cfg ack = some []
  rw [outcomePeers, hread]
  rfl

/-- A call covers its list exactly if its request is refused, or is one of all the topics. -/
theorem coversList_iff (cfg : Config) (site : CallSite) (nonce : Nonce) (lan : PeerEntry)
    (topics : List UInt32) : CoversList cfg site nonce lan topics ↔
      requestRoom cfg < topics.length % 65536 ∨ topics ⊆ topics.take (topics.length % 65536) := by
  by_cases hroom : requestRoom cfg < topics.length % 65536
  · refine iff_of_true (fun set platform c running timeout => ?_) (.inl hroom)
    rw [registerOnSocket, wireRequest_none hroom]
    exact fun hsome => nomatch hsome
  · obtain ⟨request, req, hwire, hread, htopics⟩ := wireRequest_some (not_lt.mp hroom) nonce lan
    rw [or_iff_right hroom, ← htopics]
    constructor
    · intro hcovers
      obtain ⟨c, hanswer⟩ := exists_answer cfg
      have hretries : ∃ left, site.maxRetries.toNat = left + 1 := by
        cases site with
        | ensureStarted => exact ⟨0, rfl⟩
        | reregister => exact ⟨4, rfl⟩
      obtain ⟨left, hleft⟩ := hretries
      have hcall := hcovers linuxSetsockopt .posix c false (some 50000)
      rw [registerOnSocket, hwire] at hcall
      simp only [hleft, attempts_answered _ _ _ hanswer] at hcall
      obtain ⟨bytes, hbytes, req', hread', hlists⟩ := hcall rfl
      rw [List.mem_singleton.mp hbytes, hread, Option.some.injEq] at hread'
      rwa [hread']
    · intro hlists T set platform c running timeout
      rw [registerOnSocket, hwire]
      intro r hsome
      exact ⟨request, (attempts_sent set platform c running request _ _ _ timeout).2 hsome, req, hread,
        hlists⟩

/-- A list without duplicates is whole only if it is shorter than the cast. -/
theorem subset_take_iff {topics : List UInt32} (hnodup : topics.Nodup) :
    topics ⊆ topics.take (topics.length % 65536) ↔ topics.length < 65536 := by
  constructor
  · intro hsub
    have hlength := (List.subperm_of_subset hnodup hsub).length_le
    rw [List.length_take] at hlength
    have hcast : topics.length % 65536 < 65536 := Nat.mod_lt _ (by decide)
    omega
  · intro hlt
    rw [Nat.mod_eq_of_lt hlt, List.take_length]
    exact List.Subset.refl _

/-- **No call registers a part of its list**, at either place, exactly if the length is one whose cast
is refused, or all the topics are among as many as the cast says; a group's list, which has no topic
twice, has to be shorter than 65536. -/
theorem whole_list_iff (cfg : Config) (site : CallSite) (nonce : Nonce) (lan : PeerEntry)
    (topics : List UInt32) :
    (CoversList cfg site nonce lan topics ↔
      requestRoom cfg < topics.length % 65536 ∨ topics ⊆ topics.take (topics.length % 65536)) ∧
    (topics.Nodup → (CoversList cfg site nonce lan topics ↔
      requestRoom cfg < topics.length % 65536 ∨ topics.length < 65536)) := by
  refine ⟨coversList_iff .., fun hnodup => ?_⟩
  rw [coversList_iff, subset_take_iff hnodup]

/-- The topics 0 to 65536. -/
def manyTopics : List UInt32 := (List.range 65537).map UInt32.ofNat

/-- The request is for topic 0 alone. rlcore acknowledges it, and the call of `ensure_started` returns
ok. -/
theorem manyTopics_first :
    let r := registerOnSocket linuxSetsockopt .posix .plain
      ⟨fun _ => true, fun _ => some (ackBytes 0 [])⟩ false (Vector.replicate 12 0) ⟨1, 2⟩ manyTopics 1
      300 (some 50000)
    r.sent = [requestBytes 1 2 [0]] ∧
      (Rlcore.step .plain {} (.receive 0 ⟨1, 2⟩ (requestBytes 1 2 [0]))).2 =
        [(⟨1, 2⟩, ackBytes 0 [])] ∧
      r.peers = some [] ∧ ¬CoversList .plain .ensureStarted (Vector.replicate 12 0) ⟨1, 2⟩ manyTopics := by
  intro r
  have hcast : manyTopics.length % 65536 = 1 := by
    rw [manyTopics, List.length_map, List.length_range]
  have hfirst : manyTopics.take 1 = [0] := by
    rw [manyTopics, List.range_succ_eq_map, List.map_cons, List.take_succ_cons, List.take_zero]
    decide
  have hwire : wireRequest .plain (Vector.replicate 12 0) ⟨1, 2⟩ manyTopics =
      some (requestBytes 1 2 [0]) := by
    rw [wireRequest_plain rfl (by rw [hcast]; decide), hcast, hfirst]
  have hreturns : r = ⟨some 300000, [requestBytes 1 2 [0]], some []⟩ := by
    show registerOnSocket _ _ _ _ _ _ _ manyTopics _ _ _ = _
    rw [registerOnSocket, hwire]
    decide +kernel
  refine ⟨by rw [hreturns], by decide +kernel, by rw [hreturns], fun hcovers => ?_⟩
  rw [coversList_iff, hcast, hfirst] at hcovers
  rcases hcovers with hrefused | hlists
  · exact absurd hrefused (by decide)
  · have hone : (1 : UInt32) ∈ manyTopics := List.mem_map.mpr ⟨1, List.mem_range.mpr (by decide), rfl⟩
    exact absurd (hlists hone) (by decide)

end Relink.Rlcore.OnSocket
