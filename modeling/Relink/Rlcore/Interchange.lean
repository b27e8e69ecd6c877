import Relink.Rlcore.Replies

/-! The two builds of the daemon, side by side.

`Interchangeable` runs both on the same datagrams: neither stops, and what they send in response
to each is the same, an ack or a directory's reply as what it reads as. `interchangeable_iff` says
at which datagrams they part: where they take a datagram for different things, where an ack does
not fit or cannot go out, and where a name is no text. -/
namespace Relink.Rlcore
open LittleEndian Wire Crypto
open Std (ExtTreeMap ExtTreeSet)

/-! ### Both builds on one input -/

/-- A turn of both daemons, on the same readings of the clock. The reply of the Python build draws
its own nonce, and the system takes a reply to the turn's source or refuses it. -/
structure Input where
  turn : Turn
  nonce : Nonce
  taken : Bool
  /-- UDP carries no longer datagram. -/
  fits : ∀ d ∈ turn.datagram, d.bytes.length ≤ kMaxDatagramBytes

/-- A turn of the Python build; `none` once an exception has left its loop. Of its sends only the
ack's is not inside a `try`. -/
def Py.serve (cfg : Config) (s : State) (i : Input) : Option (State × List Send) :=
  match Py.step cfg s {i.turn with nonce := i.nonce} with
  | .error _ => none
  | .ok r =>
    if (i.turn.datagram.bind (Py.requestOf cfg)).isSome ∧ i.taken = false then none else some r

/-! ### The same response -/

def SameAck : Option (UInt8 × List RegisterAckPeer) → Option (UInt8 × List RegisterAckPeer) → Prop
  | some ack, some ack' => ack.1 = ack'.1 ∧ ack.2.Perm ack'.2
  | _, _ => False

instance : (a b : Option (UInt8 × List RegisterAckPeer)) → Decidable (SameAck a b)
  | some ack, some ack' => inferInstanceAs (Decidable (ack.1 = ack'.1 ∧ ack.2.Perm ack'.2))
  | none, _ => .isFalse id
  | some _, none => .isFalse id

def SameAcks (cfg : Config) : List Send → List Send → Prop
  | [], [] => True
  | [ack], [ack'] => ack.1 = ack'.1 ∧ SameAck (readReply cfg ack.2) (readReply cfg ack'.2)
  | _, _ => False

instance (cfg : Config) : (a b : List Send) → Decidable (SameAcks cfg a b)
  | [], [] => .isTrue trivial
  | [ack], [ack'] => inferInstanceAs (Decidable
      (ack.1 = ack'.1 ∧ SameAck (readReply cfg ack.2) (readReply cfg ack'.2)))
  | [], _ :: _ => .isFalse id
  | [_], [] => .isFalse id
  | [_], _ :: _ :: _ => .isFalse id
  | _ :: _ :: _, _ => .isFalse id

/-- The same response to a datagram of the kind. -/
def Same (cfg : Config) (sends sends' : List Send) : Branch → Prop
  | .registration => SameAcks cfg sends sends'
  | .topicQuery => SameReadings readNames sends sends'
  | .roleQuery => SameReadings readRoles sends sends'
  | _ => sends.Perm sends'

instance (cfg : Config) (sends sends' : List Send) :
    (kind : Branch) → Decidable (Same cfg sends sends' kind)
  | .registration => inferInstanceAs (Decidable (SameAcks cfg sends sends'))
  | .topicQuery => inferInstanceAs (Decidable (_ ∧ _))
  | .roleQuery => inferInstanceAs (Decidable (_ ∧ _))
  | .topicAnnounce => inferInstanceAs (Decidable (sends.Perm sends'))
  | .topicReply => inferInstanceAs (Decidable (sends.Perm sends'))
  | .roleAnnounce => inferInstanceAs (Decidable (sends.Perm sends'))
  | .roleReply => inferInstanceAs (Decidable (sends.Perm sends'))
  | .relayRegister _ => inferInstanceAs (Decidable (sends.Perm sends'))
  | .dataFrame _ => inferInstanceAs (Decidable (sends.Perm sends'))

/-- The same response in a turn. -/
def SameSends (cfg : Config) (sends sends' : List Send) : Option Datagram → Prop
  | none => sends = [] ∧ sends' = []
  | some d => Same cfg sends sends' (dispatch cfg.relayMode d.bytes)

instance (cfg : Config) (sends sends' : List Send) :
    (d : Option Datagram) → Decidable (SameSends cfg sends sends' d)
  | none => inferInstanceAs (Decidable (sends = [] ∧ sends' = []))
  | some d => inferInstanceAs (Decidable (Same cfg sends sends' (dispatch cfg.relayMode d.bytes)))

/-- On every input the Python build still serves, and sends what the C++ build sends. -/
def Interchangeable (cfg : Config) : State → State → List Input → Prop
  | _, _, [] => True
  | s, p, i :: rest =>
    match Py.serve cfg p i with
    | none => False
    | some (p', sends) =>
      SameSends cfg (step cfg s i.turn).2 sends i.turn.datagram ∧
        Interchangeable cfg (step cfg s i.turn).1 p' rest

/-! ### Where they agree -/

/-- Behind a relay, what begins as a frame does and is too short for a frame's header. -/
def ShortFrame (cfg : Config) (bytes : Bytes) : Prop :=
  cfg.relayMode = true ∧ 1 + 4 ≤ bytes.length ∧ bytes.length < 1 + kHeaderBytes ∧
    bytes.getD 0 0 = kStartByte

instance (cfg : Config) (bytes : Bytes) : Decidable (ShortFrame cfg bytes) :=
  inferInstanceAs (Decidable (_ ∧ _))

/-- What a datagram must be, for the two builds to respond the same. -/
def AgreeOn (cfg : Config) (s : State) (i : Input) (d : Datagram) : Prop :=
  if ShortFrame cfg d.bytes then
    -- the Python build forwards it: it is no request, and there is nobody to get it
    readRequest cfg d.bytes = none ∧
      ∀ member ∈ ((pruneStale cfg i.turn.pruneAt s).relayGroups.getD (readU32 1 d.bytes) ∅).keys,
        member = d.src
  else
    match dispatch cfg.relayMode d.bytes with
    | .topicQuery =>
      -- the names it asks for are text
      ∀ topic ∈ (pruneStale cfg i.turn.pruneAt s).table.keys,
        Py.repair (s.topicNames.getD topic []) = s.topicNames.getD topic []
    | .registration =>
      -- its reply can go out, and is complete
      ∀ req ∈ readRequest cfg d.bytes, i.taken = true ∧
        (wanted cfg s i.turn.pruneAt d.src (selfReported req) req.topics).length ≤ ackRoom cfg
    | _ => True

def Agree (cfg : Config) (s : State) (i : Input) : Prop :=
  ∀ d ∈ i.turn.datagram, AgreeOn cfg s i d

variable {cfg : Config} {s : State}

/-! ### One datagram, taken for the same -/

/-- They part on what the Python build takes for a frame, and the C++ build for a request. -/
theorem dispatch_short {buf : Bytes} (h : ShortFrame cfg buf) :
    dispatch cfg.relayMode buf = .registration ∧
      Py.dispatch cfg.relayMode buf = .dataFrame (readU32 1 buf) := by
  obtain ⟨hmode, hfive, hshort, hstart⟩ := h
  obtain ⟨hname, hrole⟩ := not_directory (by omega) (Or.inr hstart)
  have hregister : decodeRelayRegister buf = none :=
    if_pos (Or.inr (Or.inl (by rw [hstart]; decide)))
  have hpeek : peekFrameTopicId buf = none := if_pos (Or.inl hshort)
  have hpeek' : Py.peekFrameTopicId buf = some (readU32 1 buf) :=
    if_neg fun h => h.elim (by omega) fun hne => hne hstart
  constructor
  · simp only [dispatch, hname, roleDispatch, hrole, hmode, if_true, relayDispatch, hregister, hpeek]
  · simp only [Py.dispatch, hname, Py.roleDispatch, hrole, hmode, if_true, Py.relayDispatch,
      hregister, hpeek']

theorem dispatch_same {buf : Bytes} (h : ¬ ShortFrame cfg buf) :
    Py.dispatch cfg.relayMode buf = dispatch cfg.relayMode buf := by
  unfold Py.dispatch dispatch
  cases topicDirPacketKind buf with
  | announce | query | reply => rfl
  | unknown =>
    simp only [Py.roleDispatch, roleDispatch]
    cases rolePacketKind buf with
    | announce | query | reply => rfl
    | unknown =>
      cases hmode : cfg.relayMode with
      | false => rfl
      | true =>
        have hpeek : Py.peekFrameTopicId buf = peekFrameTopicId buf := by
          unfold Py.peekFrameTopicId peekFrameTopicId
          refine if_congr ⟨Or.imp_left fun hlen => lt_of_lt_of_le hlen (by decide), fun hframe => ?_⟩
            rfl rfl
          by_contra hshort
          rw [not_or, not_lt, not_not] at hshort
          exact hframe.elim (fun hlen => h ⟨hmode, hshort.1, hlen, hshort.2⟩)
            fun hne => hne hshort.2
        simp only [if_true, Py.relayDispatch, relayDispatch]
        cases decodeRelayRegister buf with
        | some topic => rfl
        | none =>
          generalize Py.peekFrameTopicId buf = peek at hpeek
          subst hpeek
          cases peekFrameTopicId buf <;> rfl

theorem readRequest_nil (cfg : Config) : readRequest cfg [] = none := by
  rw [readRequest, openRequest]
  cases cfg.encryptKey with
  | none => rfl
  | some key => rfl

/-- An empty datagram, which the C++ loop skips, would come to nothing. -/
theorem step_some {turn : Turn} {d : Datagram} (hd : turn.datagram = some d) (s : State) :
    step cfg s turn =
      handle cfg turn.handleAt turn.nonce d (pruneStale cfg turn.pruneAt s) := by
  rw [step, hd]
  simp only
  split
  · next hempty =>
    have hkind : dispatch cfg.relayMode [] = .registration := by
      cases cfg.relayMode <;> decide
    rw [handle, hempty, hkind]
    simp only [handleRegistration, hempty, readRequest_nil]
  · rfl

theorem requestOf_registration {d : Datagram} (h : dispatch cfg.relayMode d.bytes = .registration) :
    requestOf cfg d = readRequest cfg d.bytes := by
  rw [requestOf]
  by_cases hempty : d.bytes = []
  · rw [if_neg fun h => h.1 hempty, hempty, readRequest_nil]
  · rw [if_pos ⟨hempty, h⟩]

theorem serve_some {i : Input} {d : Datagram} (hs : InOrder s) (hd : i.turn.datagram = some d) :
    Py.serve cfg (Py.repaired s) i =
      match Py.handle cfg i.turn.handleAt i.nonce d
        (Py.repaired (pruneStale cfg i.turn.pruneAt s)) with
      | .error _ => none
      | .ok r => if (Py.requestOf cfg d).isSome ∧ i.taken = false then none else some r := by
  rw [Py.pruneStale_eq cfg i.turn.pruneAt hs.seen, ← Py.repaired_pruneStale]
  simp only [Py.serve, Py.step, hd, Option.bind_some]

/-- What is neither a request nor asks for names is handled the same. -/
theorem handle_same {d : Datagram} (hsize : d.bytes.length ≤ kMaxDatagramBytes)
    (hdispatch : Py.dispatch cfg.relayMode d.bytes = dispatch cfg.relayMode d.bytes)
    (hrequest : dispatch cfg.relayMode d.bytes ≠ .registration)
    (hquery : dispatch cfg.relayMode d.bytes ≠ .topicQuery) (now : Time) (nonce nonce' : Nonce)
    (s : State) : Py.handle cfg now nonce' d (Py.repaired s) =
      .ok (Py.repaired (handle cfg now nonce d s).1, (handle cfg now nonce d s).2) := by
  rw [Py.handle, handle, hdispatch]
  cases hkind : dispatch cfg.relayMode d.bytes with
  | topicAnnounce => simp only [Py.repaired_topicAnnounce]
  | topicQuery => exact absurd hkind hquery
  | topicReply => rfl
  | roleAnnounce => simp only [Py.repaired_roleAnnounce]
  | roleQuery => simp only [Py.answerRoleQuery_eq]
  | roleReply => rfl
  | relayRegister topic => rfl
  | dataFrame topic => simp only [Py.forwardFrame_eq d topic s hsize]
  | registration => exact absurd hkind hrequest

/-! ### Requests -/

theorem requestOf_map {d : Datagram} (hsize : d.bytes.length ≤ kMaxDatagramBytes)
    (hdispatch : Py.dispatch cfg.relayMode d.bytes = dispatch cfg.relayMode d.bytes) :
    Py.requestOf cfg d =
      (requestOf cfg d).map fun req => (req.nodeIp, req.nodePort, req.topics) := by
  rw [Py.requestOf, hdispatch]
  by_cases hkind : dispatch cfg.relayMode d.bytes = .registration
  · rw [if_pos hkind, Py.readRequest_eq cfg hsize, requestOf_registration hkind]
  · rw [if_neg hkind, requestOf, if_neg fun h => hkind h.2]
    rfl

/-- The two acks of a list that fits read the same. -/
theorem sameAcks_of_room (nonce nonce' : Nonce) (src : PeerEntry) {peers : List RegisterAckPeer}
    (h : peers.length ≤ ackRoom cfg) :
    SameAcks cfg ((encodeAck cfg nonce peers).toList.map (src, ·))
      [(src, Py.sealAck cfg nonce' (ackBytes 0 peers))] := by
  have hmod : peers.length % 65536 = peers.length :=
    Nat.mod_eq_of_lt (lt_of_le_of_lt (le_trans h (ackRoom_le cfg)) (by decide))
  obtain ⟨bytes, hbytes, hread⟩ := encodeAck_some cfg nonce peers (by rwa [hmod])
  rw [hmod, List.take_length] at hread
  have hread' : readReply cfg (Py.sealAck cfg nonce' (ackBytes 0 peers)) = some (0, peers) := by
    rw [Py.readReply_eq cfg ((Py.sealAck_fits_iff cfg nonce' peers).mpr h),
      Py.readReply_sealAck cfg nonce' h]
  rw [hbytes]
  show src = src ∧ SameAck (readReply cfg bytes) (readReply cfg (Py.sealAck cfg nonce' _))
  rw [hread, hread']
  exact ⟨rfl, rfl, List.Perm.refl _⟩

/-- What a request is answered with, before it is encoded. -/
def answer (cfg : Config) (s : State) (turn : Turn) (src : PeerEntry)
    (req : DecodedRegisterRequest) : List RegisterAckPeer :=
  ackPeers (enroll turn.handleAt (identity cfg src req) (selfReported req) req.topics
    (pruneStale cfg turn.pruneAt s)) (identity cfg src req) req.topics

theorem answer_length (cfg : Config) (s : State) (turn : Turn) (src : PeerEntry)
    (req : DecodedRegisterRequest) : (answer cfg s turn src req).length =
      (wanted cfg s turn.pruneAt src (selfReported req) req.topics).length :=
  (ackPeers_wanted cfg s turn.pruneAt turn.handleAt src (selfReported req) req.topics).length_eq

theorem step_answer {turn : Turn} {d : Datagram} {req : DecodedRegisterRequest}
    (hd : turn.datagram = some d) (hreq : requestOf cfg d = some req) (s : State) :
    (step cfg s turn).2 =
      (encodeAck cfg turn.nonce (answer cfg s turn d.src req)).toList.map (d.src, ·) := by
  rw [step_request s (Turn.request_of hd hreq)]
  rfl

/-- A request that both builds take for one. -/
theorem serve_request {i : Input} {d : Datagram} {req : DecodedRegisterRequest} (hs : InOrder s)
    (hd : i.turn.datagram = some d) (hsize : d.bytes.length ≤ kMaxDatagramBytes)
    (hdispatch : Py.dispatch cfg.relayMode d.bytes = dispatch cfg.relayMode d.bytes)
    (hreq : requestOf cfg d = some req) :
    Py.serve cfg (Py.repaired s) i =
      if i.taken = true ∧ (answer cfg s i.turn d.src req).length ≤ ackRoom cfg then
        some (Py.repaired (step cfg s i.turn).1,
          [(d.src, Py.sealAck cfg i.nonce (ackBytes 0 (answer cfg s i.turn d.src req)))])
      else none := by
  have hpy := requestOf_map hsize hdispatch
  rw [hreq, Option.map_some] at hpy
  have hkind : Py.dispatch cfg.relayMode d.bytes = .registration := by
    rw [Py.requestOf] at hpy
    by_contra hkind
    rw [if_neg hkind] at hpy
    cases hpy
  have hread := hpy
  rw [Py.requestOf, if_pos hkind] at hread
  -- the Python build enrolls the same, and has the same peers to list
  have hhandle : Py.handleRegistration cfg i.turn.handleAt i.nonce d
      (Py.repaired (pruneStale cfg i.turn.pruneAt s)) =
        (Py.sendAck cfg i.nonce d.src (answer cfg s i.turn d.src req)).map
          fun sent => (Py.repaired (step cfg s i.turn).1, [sent]) := by
    rw [Py.handleRegistration, hread, step_request s (Turn.request_of hd hreq)]
    simp only [Py.repaired_enroll, Py.ackPeers_repaired, answer, handleRequest, identity,
      selfReported]
    generalize Py.sendAck cfg i.nonce d.src _ = sent
    cases sent <;> rfl
  rw [serve_some hs hd, Py.handle, hkind, hpy]
  simp only [hhandle, Option.isSome_some, true_and]
  by_cases hroom : (answer cfg s i.turn d.src req).length ≤ ackRoom cfg
  · rw [Py.sendAck_ok i.nonce d.src hroom]
    cases i.taken with
    | false => rfl
    | true => rw [if_pos ⟨rfl, hroom⟩]; rfl
  · obtain ⟨e, he⟩ := Py.sendAck_error i.nonce d.src (Nat.lt_of_not_le hroom)
    rw [he, if_neg fun h => hroom h.2]
    rfl

/-- What is no request leaves the C++ tables as expiry left them. -/
theorem step_ignored {turn : Turn} {d : Datagram} (hd : turn.datagram = some d)
    (hkind : dispatch cfg.relayMode d.bytes = .registration) (hreq : requestOf cfg d = none)
    (s : State) : step cfg s turn = (pruneStale cfg turn.pruneAt s, []) := by
  rw [requestOf_registration hkind] at hreq
  rw [step_some hd, handle, hkind]
  simp only [handleRegistration, hreq]

/-! ### One turn -/

/-- What one turn of both comes to: they send the same, and what holds of the tables after it. -/
def Responds (cfg : Config) (s p : State) (i : Input) (P : State → Prop) : Prop :=
  ∃ p' sends, Py.serve cfg p i = some (p', sends) ∧
    SameSends cfg (step cfg s i.turn).2 sends i.turn.datagram ∧ P p'

theorem interchangeable_cons {p : State} {i : Input} {rest : List Input} :
    Interchangeable cfg s p (i :: rest) ↔
      Responds cfg s p i fun p' => Interchangeable cfg (step cfg s i.turn).1 p' rest := by
  rw [Interchangeable]
  constructor
  · intro h
    split at h
    · exact absurd h id
    · next p' sends hserve => exact ⟨p', sends, hserve, h⟩
  · intro ⟨p', sends, hserve, h⟩
    simp only [hserve, h, and_self]

/-- Where the Python build serves the turn. -/
theorem responds_of_serve {p p' : State} {i : Input} {sends : List Send} {P : State → Prop}
    (hserve : Py.serve cfg p i = some (p', sends)) :
    Responds cfg s p i P ↔
      SameSends cfg (step cfg s i.turn).2 sends i.turn.datagram ∧ P p' := by
  constructor
  · intro ⟨p'', sends', hserve', h⟩
    rw [hserve] at hserve'
    cases hserve'
    exact h
  · intro h
    exact ⟨p', sends, hserve, h⟩

/-- A datagram that both builds take for the same, which is no request. -/
theorem responds_handled {i : Input} {d : Datagram} {P : State → Prop} (hs : InOrder s)
    (hd : i.turn.datagram = some d) (hsize : d.bytes.length ≤ kMaxDatagramBytes)
    (hdispatch : Py.dispatch cfg.relayMode d.bytes = dispatch cfg.relayMode d.bytes)
    (hrequest : dispatch cfg.relayMode d.bytes ≠ .registration)
    (hquery : dispatch cfg.relayMode d.bytes ≠ .topicQuery) :
    Responds cfg s (Py.repaired s) i P ↔ P (Py.repaired (step cfg s i.turn).1) := by
  have hserve : Py.serve cfg (Py.repaired s) i =
      some (Py.repaired (step cfg s i.turn).1, (step cfg s i.turn).2) := by
    rw [serve_some hs hd, handle_same hsize hdispatch hrequest hquery i.turn.handleAt i.turn.nonce,
      ← step_some hd, Py.requestOf, if_neg (by rwa [hdispatch])]
    rfl
  rw [responds_of_serve hserve, hd, SameSends]
  refine and_iff_right ?_
  cases hkind : dispatch cfg.relayMode d.bytes with
  | registration => exact absurd hkind hrequest
  | topicQuery => exact absurd hkind hquery
  | roleQuery =>
    have hsends : (step cfg s i.turn).2 =
        answerRoleQuery d.src (pruneStale cfg i.turn.pruneAt s) := by
      rw [step_some hd, handle, hkind]
    rw [hsends]
    refine ⟨Iff.rfl, ?_⟩
    rw [answerRoleQuery_readings]
    exact List.Perm.refl _
  | topicAnnounce | topicReply | roleAnnounce | roleReply => exact List.Perm.refl _
  | relayRegister topic | dataFrame topic => exact List.Perm.refl _

/-- A query for names. -/
theorem responds_query {i : Input} {d : Datagram} {P : State → Prop} (hs : InOrder s)
    (hd : i.turn.datagram = some d)
    (hdispatch : Py.dispatch cfg.relayMode d.bytes = dispatch cfg.relayMode d.bytes)
    (hkind : dispatch cfg.relayMode d.bytes = .topicQuery) :
    Responds cfg s (Py.repaired s) i P ↔
      (∀ topic ∈ (pruneStale cfg i.turn.pruneAt s).table.keys,
        Py.repair (s.topicNames.getD topic []) = s.topicNames.getD topic []) ∧
          P (Py.repaired (step cfg s i.turn).1) := by
  have hstep : step cfg s i.turn = (pruneStale cfg i.turn.pruneAt s,
      answerTopicQuery d.src (pruneStale cfg i.turn.pruneAt s)) := by
    rw [step_some hd, handle, hkind]
  have hserve : Py.serve cfg (Py.repaired s) i = some (Py.repaired (step cfg s i.turn).1,
      Py.answerTopicQuery d.src (Py.repaired (pruneStale cfg i.turn.pruneAt s))) := by
    rw [serve_some hs hd, hstep, Py.handle, Py.requestOf, hdispatch, hkind]
    rfl
  rw [responds_of_serve hserve, hd, SameSends, hkind, hstep]
  exact and_congr_left' (same_names_iff (hs.prune cfg i.turn.pruneAt) d.src)

/-- What both builds take to the registration path. -/
theorem responds_registration {i : Input} {d : Datagram} {P : State → Prop} (hs : InOrder s)
    (hd : i.turn.datagram = some d) (hsize : d.bytes.length ≤ kMaxDatagramBytes)
    (hdispatch : Py.dispatch cfg.relayMode d.bytes = dispatch cfg.relayMode d.bytes)
    (hkind : dispatch cfg.relayMode d.bytes = .registration) :
    Responds cfg s (Py.repaired s) i P ↔
      (∀ req ∈ readRequest cfg d.bytes, i.taken = true ∧
        (wanted cfg s i.turn.pruneAt d.src (selfReported req) req.topics).length ≤ ackRoom cfg) ∧
          P (Py.repaired (step cfg s i.turn).1) := by
  rw [← requestOf_registration hkind]
  cases hreq : requestOf cfg d with
  | none =>
    have hpy := requestOf_map hsize hdispatch
    rw [hreq, Option.map_none] at hpy
    have hread := hpy
    rw [Py.requestOf, if_pos (hdispatch.trans hkind)] at hread
    have hstep := step_ignored hd hkind hreq s
    have hserve : Py.serve cfg (Py.repaired s) i =
        some (Py.repaired (step cfg s i.turn).1, []) := by
      rw [serve_some hs hd, hstep, Py.handle, hdispatch, hkind, hpy]
      simp only [Py.handleRegistration, hread]
      rfl
    rw [responds_of_serve hserve, hd, SameSends, hkind, hstep]
    exact and_congr_left' (iff_of_true trivial fun req hmem => absurd hmem (by simp))
  | some req =>
    have hserve := serve_request hs hd hsize hdispatch hreq
    simp only [Option.mem_def, Option.some.injEq, forall_eq', ← answer_length]
    by_cases hfits : i.taken = true ∧ (answer cfg s i.turn d.src req).length ≤ ackRoom cfg
    · rw [if_pos hfits] at hserve
      rw [responds_of_serve hserve, hd, SameSends, hkind, step_answer hd hreq]
      exact and_congr_left'
        (iff_of_true (sameAcks_of_room i.turn.nonce i.nonce d.src hfits.2) hfits)
    · rw [if_neg hfits] at hserve
      refine iff_of_false ?_ fun h => hfits h.1
      intro hresponds
      obtain ⟨p', sends, hserve', _⟩ := hresponds
      rw [hserve] at hserve'
      cases hserve'

/-- A request shorter than a frame's header has no topics. -/
theorem requestOf_short {d : Datagram} {req : DecodedRegisterRequest}
    (hshort : d.bytes.length < 1 + kHeaderBytes) (h : requestOf cfg d = some req) :
    req.topics = [] := by
  unfold requestOf at h
  split at h
  · unfold readRequest openRequest at h
    cases hkey : cfg.encryptKey with
    | some key =>
      have hsealed : aes256gcmOpen key d.bytes kMaxDatagramBytes = none :=
        if_pos (lt_trans hshort (by decide))
      simp only [hkey, hsealed] at h
      cases h
    | none =>
      simp only [hkey, decodeRegisterRequest] at h
      split at h
      · cases h
      · next req' hdecode =>
        cases h
        split at hdecode
        · cases hdecode
        · split at hdecode
          · cases hdecode
          · next hlen =>
            cases hdecode
            have hcount : (readU16 6 d.bytes).toNat = 0 := by
              simp only [kRegisterRequestHeaderBytes, kHeaderBytes] at hlen hshort
              omega
            simp only [DecodedRegisterRequest.topics, hcount]
            rfl
  · cases h

/-- Nothing is sent for a frame exactly if its group has no other member. -/
theorem forwardFrame_eq_nil (d : Datagram) (topic : UInt32) (s : State) :
    forwardFrame d topic s = [] ↔ ∀ member ∈ (s.relayGroups.getD topic ∅).keys, member = d.src := by
  rw [forwardFrame, List.map_eq_nil_iff, List.filter_eq_nil_iff]
  simp only [decide_eq_true_eq, not_not]

/-- A frame does not go back to its source, so it is no ack. -/
theorem not_sameAcks_forward (d : Datagram) (topic : UInt32) (s : State) (bytes : Bytes) :
    ¬ SameAcks cfg [(d.src, bytes)] (forwardFrame d topic s) := by
  cases hsends : forwardFrame d topic s with
  | nil => exact id
  | cons sent rest =>
    cases rest with
    | cons _ _ => exact id
    | nil =>
      intro ⟨hsrc, _⟩
      have hsent : sent ∈ forwardFrame d topic s := by
        rw [hsends]
        exact List.mem_singleton_self sent
      obtain ⟨member, hmember, rfl⟩ := List.mem_map.mp hsent
      exact of_decide_eq_true (List.mem_filter.mp hmember).2 hsrc.symm

/-- What the Python build takes for a frame, and the C++ build for a request. -/
theorem responds_frame {i : Input} {d : Datagram} {P : State → Prop} (hs : InOrder s)
    (hd : i.turn.datagram = some d) (hsize : d.bytes.length ≤ kMaxDatagramBytes)
    (hshort : ShortFrame cfg d.bytes) :
    Responds cfg s (Py.repaired s) i P ↔
      (readRequest cfg d.bytes = none ∧ ∀ member ∈ ((pruneStale cfg i.turn.pruneAt s).relayGroups.getD
        (readU32 1 d.bytes) ∅).keys, member = d.src) ∧
          P (Py.repaired (step cfg s i.turn).1) := by
  obtain ⟨hkind, hframe⟩ := dispatch_short hshort
  rw [← requestOf_registration hkind]
  have hserve : Py.serve cfg (Py.repaired s) i =
      some (Py.repaired (pruneStale cfg i.turn.pruneAt s),
        forwardFrame d (readU32 1 d.bytes) (pruneStale cfg i.turn.pruneAt s)) := by
    rw [serve_some hs hd, Py.handle, Py.requestOf, hframe]
    simp only [Py.forwardFrame_eq d _ _ hsize]
    rfl
  rw [responds_of_serve hserve, hd, SameSends, hkind]
  cases hreq : requestOf cfg d with
  | none =>
    rw [step_ignored hd hkind hreq s, and_iff_right rfl, ← forwardFrame_eq_nil]
    refine and_congr_left' ?_
    cases forwardFrame d (readU32 1 d.bytes) (pruneStale cfg i.turn.pruneAt s) with
    | nil => exact iff_of_true trivial rfl
    | cons sent rest => exact iff_of_false id (List.cons_ne_nil sent rest)
  | some req =>
    -- the C++ build acks it, and the list is empty
    have hanswer : answer cfg s i.turn d.src req = [] := by
      rw [answer, requestOf_short hshort.2.2.1 hreq]
      rfl
    obtain ⟨bytes, hbytes, _⟩ := encodeAck_some cfg i.turn.nonce [] (Nat.zero_le _)
    have hsends : (step cfg s i.turn).2 = [(d.src, bytes)] := by
      rw [step_answer hd hreq, hanswer, hbytes]
      rfl
    rw [hsends]
    exact iff_of_false (fun h => not_sameAcks_forward d _ _ bytes h.1) fun h => absurd h.1.1 (by simp)

/-! ### Runs -/

/-- One turn, from the same tables. -/
theorem responds_iff (hs : InOrder s) (i : Input) (P : State → Prop) :
    Responds cfg s (Py.repaired s) i P ↔
      Agree cfg s i ∧ P (Py.repaired (step cfg s i.turn).1) := by
  cases hd : i.turn.datagram with
  | none =>
    have hserve : Py.serve cfg (Py.repaired s) i =
        some (Py.repaired (step cfg s i.turn).1, []) := by
      simp only [Py.serve, Py.step, step, hd, Py.pruneStale_eq cfg i.turn.pruneAt hs.seen]
      rfl
    have hsends : (step cfg s i.turn).2 = [] := by
      rw [step, hd]
    have hagree : Agree cfg s i := by
      intro d hmem
      rw [hd] at hmem
      cases hmem
    rw [responds_of_serve hserve, hd, SameSends, hsends]
    exact and_congr_left' (iff_of_true ⟨rfl, rfl⟩ hagree)
  | some d =>
    have hbytes := i.fits d hd
    have hagree : Agree cfg s i ↔ AgreeOn cfg s i d := by
      simp only [Agree, hd, Option.mem_def, Option.some.injEq, forall_eq']
    rw [hagree, AgreeOn]
    by_cases hshort : ShortFrame cfg d.bytes
    · rw [if_pos hshort]
      exact responds_frame hs hd hbytes hshort
    · have hsame := dispatch_same hshort
      rw [if_neg hshort]
      by_cases hrequest : dispatch cfg.relayMode d.bytes = .registration
      · rw [hrequest]
        exact responds_registration hs hd hbytes hsame hrequest
      by_cases hquery : dispatch cfg.relayMode d.bytes = .topicQuery
      · rw [hquery]
        exact responds_query hs hd hsame hquery
      · rw [responds_handled hs hd hbytes hsame hrequest hquery]
        refine (and_iff_right ?_).symm
        cases hkind : dispatch cfg.relayMode d.bytes with
        | topicQuery => exact absurd hkind hquery
        | registration => exact absurd hkind hrequest
        | _ => trivial

/-- The C++ tables in a run. -/
abbrev advance (cfg : Config) (s : State) (i : Input) : State := (step cfg s i.turn).1

theorem interchangeable_from (hs : InOrder s) (inputs : List Input) :
    Interchangeable cfg s (Py.repaired s) inputs ↔
      Transition.Throughout (advance cfg) (Agree cfg) s inputs := by
  induction inputs generalizing s with
  | nil => exact iff_of_true trivial trivial
  | cons i rest ih =>
    rw [interchangeable_cons, responds_iff hs, Transition.Throughout]
    exact and_congr_right' (ih (hs.step cfg i.turn))

/-- **The two builds are interchangeable exactly on** the runs in which they agree on every
datagram: from empty tables, whatever the options, the sources and the times. -/
theorem interchangeable_iff (cfg : Config) (inputs : List Input) :
    Interchangeable cfg {} {} inputs ↔
      Transition.Throughout (advance cfg) (Agree cfg) {} inputs :=
  interchangeable_from inOrder_init inputs

/-! ### A run on which they part -/

instance decidableInterchangeable (cfg : Config) :
    (s p : State) → (inputs : List Input) → Decidable (Interchangeable cfg s p inputs)
  | _, _, [] => .isTrue trivial
  | s, p, i :: rest =>
    match hserve : Py.serve cfg p i with
    | none => .isFalse (by rw [Interchangeable, hserve]; exact id)
    | some (p', sends) =>
      have := decidableInterchangeable cfg (step cfg s i.turn).1 p' rest
      decidable_of_iff (SameSends cfg (step cfg s i.turn).2 sends i.turn.datagram ∧
        Interchangeable cfg (step cfg s i.turn).1 p' rest) (by rw [Interchangeable, hserve])

/-- A turn that receives a datagram, whose reply the system would take. -/
def Input.receive (now : Time) (src : PeerEntry) (bytes : Bytes)
    (h : bytes.length ≤ kMaxDatagramBytes) : Input where
  turn := .receive now src bytes
  nonce := Vector.replicate 12 0
  taken := true
  fits := by
    intro d hd
    cases hd
    exact h

/-- A node joins the relay of topic 7, and another sends five bytes that begin as a frame of it
does: the Python build forwards them, and the C++ build drops them. -/
theorem short_frame_parts :
    ¬ Interchangeable ⟨false, true, none, by decide⟩ {} {}
      [.receive 0 ⟨1, 2⟩ [kRelayControlMagic, kRelayRegister, 7, 0, 0, 0] (by decide),
        .receive 0 ⟨3, 4⟩ [kStartByte, 7, 0, 0, 0] (by decide)] := by
  decide +kernel

end Relink.Rlcore
