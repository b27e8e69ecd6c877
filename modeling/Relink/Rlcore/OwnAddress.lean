import Relink.Rlcore.Reregister

/-! Whether a node is given itself as a peer.

The list of an ack leaves out the requester's own table entry. Without `--nat` that is
the address the requester reports, and the LAN addresses are the table's own. With `--nat`
it is the source that was observed, and a node that comes from another source is a stranger
with its own address: `spared_iff` says between which requests that happens. -/
namespace Relink.Rlcore
open Wire Crypto
open Std (ExtTreeMap ExtTreeSet)

/-! ### The acks of a run -/

/-- No entry has the address, neither as the primary one nor as the LAN candidate. -/
def Spares (own : PeerEntry) (entries : List RegisterAckPeer) : Prop :=
  ∀ e ∈ entries, PeerEntry.mk e.ip e.port ≠ own ∧ PeerEntry.mk e.lanIp e.lanPort ≠ own

instance (own : PeerEntry) (entries : List RegisterAckPeer) : Decidable (Spares own entries) :=
  inferInstanceAs (Decidable (∀ e ∈ entries, _ ∧ _))

/-- The address that the requester of a turn reports, and the peers of its ack. -/
def builtAck (cfg : Config) (s : State) (turn : Turn) : Option (PeerEntry × List RegisterAckPeer) :=
  (turn.request cfg).map fun r =>
    (selfReported r.2, ackPeers (step cfg s turn).1 (identity cfg r.1 r.2) r.2.topics)

/-- The address that the requester of a turn reports, and the peers it reads off the reply. -/
def sentAck (cfg : Config) (s : State) (turn : Turn) : Option (PeerEntry × List RegisterAckPeer) :=
  (turn.request cfg).map fun r => (selfReported r.2, Build.cpp.outcome cfg (step cfg s turn).2)

/-- In every state of a run, no requester is an entry of its own ack. -/
def Spared (cfg : Config) (turns : List Turn) : Prop :=
  ∀ before turn after, turns = before ++ turn :: after →
    ∀ ack ∈ builtAck cfg (run cfg {} before) turn, Spares ack.1 ack.2

/-- An ack that a requester with the address reads in a run. -/
def ReadsAck (cfg : Config) (turns : List Turn) (own : PeerEntry) (entries : List RegisterAckPeer) :
    Prop :=
  ∃ before turn after, turns = before ++ turn :: after ∧
    (own, entries) ∈ sentAck cfg (run cfg {} before) turn

/-- `peers_` of a node that has processed some acks, in any order. -/
def learned (acks : List (List RegisterAckPeer)) : Peers := acks.flatten.foldl mergePeer ∅

/-! ### When it holds -/

/-- No other registrant of the request's topics is at, or last reported, the address that the
request reports. -/
def Unclaimed (h : List Handled) (now : Time) (r : Handled) : Prop :=
  ∀ topic ∈ r.topics, ∀ p, p ≠ r.peer → Fresh h now topic p →
    p ≠ r.lan ∧ lastLan h p ≠ some r.lan

/-- Of every request of a run, where the registrants are the sources. -/
def Apart (cfg : Config) (turns : List Turn) : Prop :=
  cfg.natMode = true → ∀ before turn after, turns = before ++ turn :: after →
    ∀ r ∈ handledOf cfg turn, Unclaimed (history cfg before) turn.pruneAt r

theorem Reports.spares_iff {h : List Handled} {own : PeerEntry} {topic : UInt32}
    {peers : List PeerEntry} {entries : List RegisterAckPeer}
    (hall : List.Forall₂ (Reports h topic) peers entries) :
    Spares own entries ↔ ∀ p ∈ peers, p ≠ own ∧ lastLan h p ≠ some own := by
  induction hall with
  | nil => exact iff_of_true (fun _ he => by cases he) (fun _ hp => by cases hp)
  | cons hentry _ ih =>
    obtain ⟨lan, hlan, rfl⟩ := hentry
    unfold Spares at ih ⊢
    rw [List.forall_mem_cons, List.forall_mem_cons, ih, hlan, Ne, Ne, Ne, Option.some.injEq]

/-- The entries of one topic against the registry. -/
theorem Lists.spares_iff {h : List Handled} {now : Time} {self own : PeerEntry} {topic : UInt32}
    {entries : List RegisterAckPeer} (hlists : Lists h now self topic entries) :
    Spares own entries ↔
      ∀ p, p ≠ self → Fresh h now topic p → p ≠ own ∧ lastLan h p ≠ some own := by
  obtain ⟨peers, -, hpeers, hentries⟩ := hlists
  rw [Reports.spares_iff hentries]
  constructor
  · intro hall p hne hfresh
    exact hall p ((hpeers p).mpr ⟨hne, hfresh⟩)
  · intro hall p hp
    obtain ⟨hne, hfresh⟩ := (hpeers p).mp hp
    exact hall p hne hfresh

/-- One ack of a run. -/
theorem builtAck_spares_iff {cfg : Config} {turns : List Turn} {turn : Turn}
    (hclock : Clocked (turns ++ [turn])) :
    (∀ ack ∈ builtAck cfg (run cfg {} turns) turn, Spares ack.1 ack.2) ↔
      ∀ r ∈ handledOf cfg turn, Unclaimed (history cfg turns) turn.pruneAt r := by
  obtain ⟨hbefore, _, hlast⟩ := List.pairwise_append.mp hclock
  have hs := run_faithful cfg turns hbefore turn.pruneAt
    (fun a ha => hlast a ha turn (List.mem_singleton_self turn))
  cases hreq : turn.request cfg with
  | none =>
    rw [builtAck, handledOf, hreq]
    exact iff_of_true (fun _ h => by cases h) (fun _ h => by cases h)
  | some r =>
    rw [builtAck, handledOf, hreq]
    simp only [Option.map_some, Option.mem_some_iff, forall_eq', step_request _ hreq,
      handleRequest]
    rw [Unclaimed, ackPeers, Spares]
    simp only [List.mem_flatMap]
    constructor
    · intro hall topic htopic
      refine (topicPeers_lists hs (le_refl _) cfg turn.handleAt (identity cfg r.1 r.2)
        (selfReported r.2) r.2.topics topic).spares_iff.mp fun e he => ?_
      exact hall e ⟨topic, htopic, he⟩
    · intro hall e hmem
      obtain ⟨topic, htopic, he⟩ := hmem
      exact (topicPeers_lists hs (le_refl _) cfg turn.handleAt (identity cfg r.1 r.2)
        (selfReported r.2) r.2.topics topic).spares_iff.mpr (hall topic htopic) e he

/-- Without `--nat` a registrant is where it says it is. -/
theorem lastLan_plain {cfg : Config} (hplain : cfg.natMode = false) (turns : List Turn)
    {p lan : PeerEntry} (h : lastLan (history cfg turns) p = some lan) : lan = p := by
  rw [lastLan, Option.map_eq_some_iff] at h
  obtain ⟨r, hr, rfl⟩ := h
  obtain ⟨hmem, hp⟩ := History.latest_mem hr
  obtain ⟨turn, -, hturn⟩ := List.mem_filterMap.mp hmem
  rw [handledOf, Option.map_eq_some_iff] at hturn
  obtain ⟨req, -, rfl⟩ := hturn
  rw [← of_decide_eq_true hp]
  simp [identity, hplain]

theorem unclaimed_plain {cfg : Config} (hplain : cfg.natMode = false) (turns : List Turn)
    {turn : Turn} {r : Handled} (hr : r ∈ handledOf cfg turn) (now : Time) :
    Unclaimed (history cfg turns) now r := by
  have hself : r.peer = r.lan := by
    obtain ⟨req, -, rfl⟩ := Option.map_eq_some_iff.mp hr
    simp [identity, hplain]
  intro topic _ p hne _
  rw [hself] at hne
  exact ⟨hne, fun hlan => hne (lastLan_plain hplain turns hlan).symm⟩

/-- The acks as built. -/
theorem spared_iff {cfg : Config} {turns : List Turn} (hclock : Clocked turns) :
    Spared cfg turns ↔ Apart cfg turns := by
  have hone : ∀ before turn after, turns = before ++ turn :: after →
      ((∀ ack ∈ builtAck cfg (run cfg {} before) turn, Spares ack.1 ack.2) ↔
        ∀ r ∈ handledOf cfg turn, Unclaimed (history cfg before) turn.pruneAt r) := by
    intro before turn after hsplit
    refine builtAck_spares_iff (hclock.sublist ?_)
    rw [hsplit]
    exact (List.singleton_sublist.mpr List.mem_cons_self).append_left before
  constructor
  · intro hspared _ before turn after hsplit
    exact (hone before turn after hsplit).mp (hspared before turn after hsplit)
  · intro hapart before turn after hsplit
    refine (hone before turn after hsplit).mpr fun r hr => ?_
    cases hnat : cfg.natMode with
    | true => exact hapart hnat before turn after hsplit r hr
    | false => exact unclaimed_plain hnat before hr _

/-! ### From the ack to the client -/

/-- What is read off a reply was built. -/
theorem sentAck_subset {cfg : Config} {s : State} {turn : Turn} {own : PeerEntry}
    {entries : List RegisterAckPeer} (h : (own, entries) ∈ sentAck cfg s turn) :
    ∃ built, (own, built) ∈ builtAck cfg s turn ∧ entries ⊆ built := by
  obtain ⟨r, hreq, heq⟩ := Option.map_eq_some_iff.mp h
  cases heq
  refine ⟨_, by rw [builtAck, hreq]; rfl, ?_⟩
  rw [step_request _ hreq, handleRequest]
  generalize ackPeers _ _ _ = peers
  by_cases hroom : peers.length % 65536 ≤ ackRoom cfg
  · obtain ⟨bytes, hbytes, hread⟩ := encodeAck_some cfg turn.nonce peers hroom
    simp only [hbytes, Option.toList_some, List.map_cons, List.map_nil, Build.outcome,
      List.head?_cons, Option.bind_some, Build.readReply, hread, if_true]
    exact List.take_subset ..
  · rw [encodeAck_none cfg turn.nonce peers (by omega)]
    exact List.nil_subset _

/-- A node that was spared by all its acks does not hold its own address. -/
theorem learned_spares {own : PeerEntry} {acks : List (List RegisterAckPeer)}
    (hspares : ∀ entries ∈ acks, Spares own entries) (topic : UInt32) :
    own ∉ (learned acks).getD topic [] := by
  refine Transition.foldl_invariant (fun peers : Peers => own ∉ peers.getD topic [])
    (fun e => PeerEntry.mk e.ip e.port ≠ own ∧ PeerEntry.mk e.lanIp e.lanPort ≠ own) mergePeer
    (fun peers e hpeers he hmem => ?_) _ ∅ ?_ (fun e he => ?_)
  · rcases mem_mergePeer hmem with ⟨_, h | ⟨_, h⟩⟩ | h
    · exact he.1 h.symm
    · exact he.2 h.symm
    · exact hpeers h
  · rw [ExtTreeMap.getD_empty]
    exact List.not_mem_nil
  · obtain ⟨entries, hentries, he⟩ := List.mem_flatten.mp he
    exact hspares entries hentries e he

/-- **Who is given itself, exactly**: with `--nat` and nothing else, a requester that reports
the address another registrant of one of its topics is at, or last reported. Where there is
none in a run, no node ever holds its own address. -/
theorem never_own_peer_iff (cfg : Config) (turns : List Turn) (hclock : Clocked turns) :
    (Spared cfg turns ↔ Apart cfg turns) ∧
      (Apart cfg turns → ∀ own acks, (∀ entries ∈ acks, ReadsAck cfg turns own entries) →
        (∀ entries ∈ acks, Spares own entries) ∧ ∀ topic, own ∉ (learned acks).getD topic []) := by
  refine ⟨spared_iff hclock, fun hapart own acks hsent => ?_⟩
  have hspares : ∀ entries ∈ acks, Spares own entries := by
    intro entries hentries
    obtain ⟨before, turn, after, hsplit, hack⟩ := hsent entries hentries
    obtain ⟨built, hbuilt, hsub⟩ := sentAck_subset hack
    have hall := (spared_iff hclock).mpr hapart before turn after hsplit _ hbuilt
    exact fun e he => hall e (hsub he)
  exact ⟨hspares, learned_spares hspares⟩

/-- A daemon behind `--nat`. -/
def Config.nat : Config := ⟨true, true, none, by decide⟩

/-- Two nodes behind two routers ask for topic 7. -/
def neighbours : List Turn :=
  [.receive 0 ⟨0xCB007105, 1000⟩ (requestBytes 0xC0A80114 45000 [7]),
    .receive 2 ⟨0xCB007106, 1000⟩ (requestBytes 0xC0A80115 45000 [7])]

theorem never_own_peer_iff_neighbours :
    (Spared .nat neighbours ↔ Apart .nat neighbours) ∧
      (Apart .nat neighbours → ∀ own acks, (∀ entries ∈ acks, ReadsAck .nat neighbours own entries) →
        (∀ entries ∈ acks, Spares own entries) ∧ ∀ topic, own ∉ (learned acks).getD topic []) :=
  never_own_peer_iff .nat neighbours (by simp [Clocked, neighbours, Turn.receive])

/-- A node that has registered topic 7 from one source asks again from another one. -/
def remapped : List Turn :=
  [.receive 0 ⟨0xCB007105, 1000⟩ (requestBytes 0xC0A80114 45000 [7]),
    .receive 2 ⟨0xCB007105, 1001⟩ (requestBytes 0xC0A80114 45000 [7])]

/-- The second ack of a node whose observed source changed gives it its own address, and it
learns it. -/
theorem remapped_not_spared :
    Clocked remapped ∧ ¬ Spared .nat remapped ∧
      ReadsAck .nat remapped ⟨0xC0A80114, 45000⟩ [⟨0xCB007105, 1000, 7, 0xC0A80114, 45000⟩] ∧
      (⟨0xC0A80114, 45000⟩ : PeerEntry) ∈
        (learned [[⟨0xCB007105, 1000, 7, 0xC0A80114, 45000⟩]]).getD 7 [] := by
  have hbuilt : builtAck .nat (run .nat {} (remapped.take 1)) (remapped.getLast (by decide)) =
      some (⟨0xC0A80114, 45000⟩, [⟨0xCB007105, 1000, 7, 0xC0A80114, 45000⟩]) := by
    decide +kernel
  have hsent : sentAck .nat (run .nat {} (remapped.take 1)) (remapped.getLast (by decide)) =
      some (⟨0xC0A80114, 45000⟩, [⟨0xCB007105, 1000, 7, 0xC0A80114, 45000⟩]) := by
    decide +kernel
  refine ⟨by simp [Clocked, remapped, Turn.receive], fun hspared => ?_, ⟨_, _, [], rfl, hsent⟩,
    by decide +kernel⟩
  exact absurd (hspared _ _ [] rfl _ hbuilt) (by decide)

end Relink.Rlcore
