import Relink.Rlcore.Consistent
import Relink.Rlcore.OwnAddress
import Relink.Rlcore.Sources

/-! Whether a node lists an address twice.

`ensure_started` puts every address of an ack behind the others; the re-registration thread first
looks whether it is there. So an address comes to be listed twice at the start or never:
`listed_once_iff` says from which acks. An rlcore without `--nat` sends none
(`unmapped_named_once`). -/
namespace Relink.Rlcore.Sources
open Wire Crypto
open Calls (wireRequest)
open Transport (UdpTransport)
open Std (ExtTreeMap ExtTreeSet)
open Transition (Throughout)

/-! ### Addresses listed once, and when they are -/

def ListedOnce (peers : Peers) : Prop := ∀ topic, (peers.getD topic []).Nodup

/-- The addresses of an entry: the primary one, and a LAN candidate that is another. -/
def candidates (p : RegisterAckPeer) : List PeerEntry :=
  ⟨p.ip, p.port⟩ ::
    if p.lanIp ≠ 0 ∧ ¬(p.lanIp = p.ip ∧ p.lanPort = p.port) then [⟨p.lanIp, p.lanPort⟩] else []

/-- No two entries have an address in common for the same topic. -/
def NamedOnce (entries : List RegisterAckPeer) : Prop :=
  entries.Pairwise fun p p' => p.topicId = p'.topicId → (candidates p).Disjoint (candidates p')

/-- No entry has an address that is listed for its topic. -/
def Unlisted (peers : Peers) (entries : List RegisterAckPeer) : Prop :=
  ∀ p ∈ entries, ∀ addr ∈ candidates p, addr ∉ peers.getD p.topicId []

/-- The ack that a call of `ensure_started` takes names no address twice, and none that the acks of
the groups before it have named. -/
def StartsApart {H : Type} (cfg : Config) (w : Node H) : Event → Prop
  | .register nonce accepted => ∀ g ∈ w.groups[w.registered]?,
      (wireRequest cfg nonce g.lan g.topics).isSome ∧ accepted → ∀ d ∈ (w.buffers w.registered).head?,
        ∀ entries ∈ outcomePeers cfg d.bytes, NamedOnce entries ∧ Unlisted w.peers entries
  | _ => True

/-! ### One entry -/

theorem candidates_nodup (p : RegisterAckPeer) : (candidates p).Nodup := by
  unfold candidates
  split
  · next hlan =>
    rw [List.nodup_cons, List.mem_singleton, PeerEntry.mk.injEq]
    exact ⟨fun h => hlan.2 ⟨h.1.symm, h.2.symm⟩, List.nodup_singleton _⟩
  · exact List.nodup_singleton _

theorem pushBack_getD (peers : Peers) (topic topic' : UInt32) (addr : PeerEntry) :
    (pushBack peers topic addr).getD topic' [] =
      peers.getD topic' [] ++ if topic = topic' then [addr] else [] := by
  rw [pushBack, ExtTreeMap.getD_insert]
  by_cases htopic : topic = topic'
  · subst htopic
    simp
  · simp [htopic]

theorem pushPeer_getD (peers : Peers) (p : RegisterAckPeer) (topic : UInt32) :
    (pushPeer peers p).getD topic [] =
      peers.getD topic [] ++ if p.topicId = topic then candidates p else [] := by
  unfold pushPeer candidates
  by_cases htopic : p.topicId = topic
  · split <;> simp [pushBack_getD, htopic]
  · split <;> simp [pushBack_getD, htopic]

/-- An ack's addresses go behind the others, in their order. -/
theorem pushPeers_getD (peers : Peers) (entries : List RegisterAckPeer) (topic : UInt32) :
    (entries.foldl pushPeer peers).getD topic [] = peers.getD topic [] ++
      entries.flatMap fun p => if p.topicId = topic then candidates p else [] := by
  induction entries generalizing peers with
  | nil => exact (List.append_nil _).symm
  | cons p rest ih =>
    rw [List.foldl_cons, ih, pushPeer_getD, List.append_assoc]
    rfl

theorem namedOnce_iff (entries : List RegisterAckPeer) : NamedOnce entries ↔
    ∀ topic, (entries.flatMap fun p => if p.topicId = topic then candidates p else []).Nodup := by
  have hpairs : ∀ topic, (entries.flatMap fun p => if p.topicId = topic then candidates p else []).Nodup ↔
      entries.Pairwise fun p p' => (if p.topicId = topic then candidates p else []).Disjoint
        (if p'.topicId = topic then candidates p' else []) := by
    intro topic
    rw [List.nodup_flatMap, and_iff_right]
    intro p _
    split
    · exact candidates_nodup p
    · exact List.nodup_nil
  simp only [hpairs, NamedOnce, List.pairwise_iff_forall_sublist]
  constructor
  · intro h topic p p' hsub
    by_cases hp : p.topicId = topic
    · by_cases hp' : p'.topicId = topic
      · rw [if_pos hp, if_pos hp']
        exact h hsub (hp.trans hp'.symm)
      · rw [if_neg hp']
        exact List.disjoint_nil_right _
    · rw [if_neg hp]
      exact List.disjoint_nil_left _
  · intro h p p' hsub htopic
    simpa [htopic] using h p'.topicId hsub

/-- An ack leaves every address listed once exactly if it names new ones only, and each once. -/
theorem pushPeers_listedOnce (peers : Peers) (entries : List RegisterAckPeer) :
    ListedOnce (entries.foldl pushPeer peers) ↔
      ListedOnce peers ∧ NamedOnce entries ∧ Unlisted peers entries := by
  unfold ListedOnce
  simp only [pushPeers_getD, List.nodup_append', forall_and, ← namedOnce_iff]
  refine and_congr_right fun _ => and_congr_right fun _ => ?_
  constructor
  · intro h p hp addr haddr hlisted
    refine h p.topicId hlisted (List.mem_flatMap.mpr ⟨p, hp, ?_⟩)
    rwa [if_pos rfl]
  · intro h topic addr hlisted haddr
    obtain ⟨p, hp, hnamed⟩ := List.mem_flatMap.mp haddr
    split at hnamed
    · next htopic => exact h p hp addr hnamed (htopic ▸ hlisted)
    · cases hnamed

/-- What is added is new, and nothing else moves. -/
theorem addIfNew_nodup (peers : Peers) (topic topic' : UInt32) (addr : PeerEntry) :
    ((addIfNew peers topic addr).getD topic' []).Nodup ↔ (peers.getD topic' []).Nodup := by
  rw [addIfNew, ExtTreeMap.getD_insert]
  by_cases htopic : topic = topic'
  · subst htopic
    rw [if_pos Std.ReflCmp.compare_self]
    split
    · exact Iff.rfl
    · next hnew =>
      refine ⟨fun h => (List.nodup_append.mp h).1, fun h => ?_⟩
      exact h.append (List.nodup_singleton _) (by simpa using hnew)
  · rw [if_neg (by rwa [Std.compare_eq_iff_eq])]

theorem mergePeer_nodup (peers : Peers) (p : RegisterAckPeer) (topic : UInt32) :
    ((mergePeer peers p).getD topic []).Nodup ↔ (peers.getD topic []).Nodup := by
  unfold mergePeer
  split
  · rw [addIfNew_nodup, addIfNew_nodup]
  · exact addIfNew_nodup ..

theorem mergePeers_nodup (peers : Peers) (entries : List RegisterAckPeer) (topic : UInt32) :
    ((entries.foldl mergePeer peers).getD topic []).Nodup ↔ (peers.getD topic []).Nodup := by
  induction entries generalizing peers with
  | nil => exact Iff.rfl
  | cons p rest ih => exact (ih _).trans (mergePeer_nodup peers p topic)

theorem mergePeers_listedOnce (peers : Peers) (entries : List RegisterAckPeer) :
    ListedOnce (entries.foldl mergePeer peers) ↔ ListedOnce peers :=
  forall_congr' fun topic => mergePeers_nodup peers entries topic

/-! ### One step -/

section
variable {H F O : Type} {cfg : Config} {handler : H → Bytes → Except F (H × O)} {w : Node H}

theorem register_listedOnce (nonce : Nonce) (accepted : Bool) :
    ListedOnce (w.register cfg nonce accepted).peers ↔
      ListedOnce w.peers ∧ StartsApart cfg w (.register nonce accepted) := by
  show _ ↔ ListedOnce w.peers ∧ ∀ g ∈ w.groups[w.registered]?, _
  unfold Node.register
  cases w.groups[w.registered]? with
  | none => simp
  | some g =>
    simp only [Option.mem_some_iff, forall_eq']
    split
    · next hsent =>
      cases w.buffers w.registered with
      | nil => simp
      | cons d rest =>
        cases hread : outcomePeers cfg d.bytes with
        | none => simp [hsent, hread]
        | some entries => simpa [hsent, hread] using pushPeers_listedOnce w.peers entries
    · next hsent => simp [hsent]

theorem reply_listedOnce : ListedOnce (w.reply cfg).peers ↔ ListedOnce w.peers := by
  unfold Node.reply
  split
  · exact Iff.rfl
  split
  · exact Iff.rfl
  split
  · exact Iff.rfl
  · exact mergePeers_listedOnce ..

theorem receive_peers (group : Nat) : (w.receive handler group).peers = w.peers := by
  unfold Node.receive
  split
  · rfl
  · split <;> rfl

theorem call_peers (group : Nat) (nonce : Nonce) : (w.call cfg group nonce).peers = w.peers := by
  unfold Node.call
  split
  · split
    · rfl
    · split <;> rfl
  · rfl

theorem send_peers (accepted : Bool) : (w.send accepted).peers = w.peers := by
  unfold Node.send
  split
  · rfl
  · split <;> rfl

theorem timeout_peers : w.timeout.peers = w.peers := by
  unfold Node.timeout
  split
  · rfl
  · split <;> rfl

theorem step_listedOnce (e : Event) : ListedOnce (w.step cfg handler e).peers ↔
    ListedOnce w.peers ∧ StartsApart cfg w e := by
  cases e with
  | register nonce accepted => exact register_listedOnce nonce accepted
  | reply => exact reply_listedOnce.trans (and_iff_left trivial).symm
  | arrive group d => exact (and_iff_left trivial).symm
  | tick => exact (and_iff_left trivial).symm
  | receive group =>
    show ListedOnce (w.receive handler group).peers ↔ _
    rw [receive_peers]
    exact (and_iff_left trivial).symm
  | call group nonce =>
    show ListedOnce (w.call cfg group nonce).peers ↔ _
    rw [call_peers]
    exact (and_iff_left trivial).symm
  | send accepted =>
    show ListedOnce (w.send accepted).peers ↔ _
    rw [send_peers]
    exact (and_iff_left trivial).symm
  | timeout =>
    show ListedOnce w.timeout.peers ↔ _
    rw [timeout_peers]
    exact (and_iff_left trivial).symm

end

/-! ### Whole runs -/

/-- **No address is listed twice**, in any state of a run, exactly if the acks of the start name none
twice. -/
theorem listed_once_iff {H F O : Type} (cfg : Config) (handler : H → Bytes → Except F (H × O))
    (groups : List Group) (transports : Nat → UdpTransport H) (events : List Event) :
    (∀ before, before <+: events → ListedOnce (run cfg handler groups transports before).peers) ↔
      Throughout (Node.step cfg handler) (StartsApart cfg) (.init groups transports) events := by
  have hinit : ListedOnce (Node.init groups transports).peers := by
    intro topic
    rw [Node.init, ExtTreeMap.getD_empty]
    exact List.nodup_nil
  refine Iff.trans (@Throughout.of_states _ _ _ (fun w : Node H => ListedOnce w.peers) _ _) ?_
  rw [and_iff_right hinit]
  refine Throughout.congr (C := fun _ _ => True) (fun w => ListedOnce w.peers) (fun w e hw _ => ?_)
    (fun w e hw _ happart => (step_listedOnce e).mpr ⟨hw, happart⟩) hinit
    (Throughout.of_mem (fun _ _ _ => trivial) _)
  rw [step_listedOnce, and_iff_right hw]

/-- An rlcore with `--nat` that two nodes behind one NAT have registered with, reporting the same LAN
address, and a third node at its start, which takes the reply. -/
def sharedLan : List Event :=
  let registered := Rlcore.run .nat {} [
    .receive 0 ⟨0xCB007101, 1001⟩ (requestBytes 0xC0A8010A 5000 [7]),
    .receive 1 ⟨0xCB007101, 1002⟩ (requestBytes 0xC0A8010A 5000 [7])]
  let replies := (Rlcore.step .nat registered
    (.receive 2 ⟨0xC6336403, 1003⟩ (requestBytes 0x0A000003 6000 [7]))).2
  replies.map (fun reply => .arrive 0 ⟨⟨0x0A000009, 8445⟩, reply.2⟩) ++
    [.register (Vector.replicate 12 0) true]

/-- The LAN address is listed twice. -/
theorem shared_lan_listed_twice :
    let w := run (H := Unit) (F := Unit) .nat (fun h _ => .ok (h, ()))
      [⟨⟨0xC6336403, 1003⟩, ⟨0x0A000003, 6000⟩, [7]⟩] (fun _ => {}) sharedLan
    w.peers.getD 7 [] =
        [⟨0xCB007101, 1001⟩, ⟨0xC0A8010A, 5000⟩, ⟨0xCB007101, 1002⟩, ⟨0xC0A8010A, 5000⟩] ∧
      ¬ListedOnce w.peers := by
  intro w
  have hlisted : w.peers.getD 7 [] =
      [⟨0xCB007101, 1001⟩, ⟨0xC0A8010A, 5000⟩, ⟨0xCB007101, 1002⟩, ⟨0xC0A8010A, 5000⟩] := by
    decide +kernel
  refine ⟨hlisted, fun honce => ?_⟩
  have htopic := honce 7
  rw [hlisted] at htopic
  exact absurd htopic (by decide)

/-! ### An rlcore without `--nat` -/

section
variable {cfg : Config} {s : State}

/-- The LAN address that it knows of a peer is the peer's own. -/
theorem candidates_unmapped (hs : Consistent cfg s) (hplain : cfg.natMode = false) (topic : UInt32)
    (peer : PeerEntry) : candidates (ackPeer s topic peer) = [peer] := by
  unfold candidates ackPeer
  rw [ExtTreeMap.getD_eq_getD_getElem?]
  cases hlan : s.lanOf[peer]? with
  | none => simp
  | some lan =>
    rw [hs.lanSelf hplain peer lan hlan]
    simp

theorem topicPeers_namedOnce (hs : Consistent cfg s) (hplain : cfg.natMode = false)
    (self : PeerEntry) (topic : UInt32) : NamedOnce (topicPeers s self topic) := by
  rw [NamedOnce, topicPeers, List.pairwise_map]
  refine ((peersOf_nodup s topic).filter _).imp fun hne _ => ?_
  rw [candidates_unmapped hs hplain, candidates_unmapped hs hplain]
  simpa using hne.symm

theorem ackPeers_namedOnce (hs : Consistent cfg s) (hplain : cfg.natMode = false)
    (self : PeerEntry) {topics : List UInt32} (hnodup : topics.Nodup) :
    NamedOnce (ackPeers s self topics) := by
  refine List.pairwise_flatMap.mpr ⟨fun topic _ => topicPeers_namedOnce hs hplain self topic, ?_⟩
  refine hnodup.imp fun hne p hp p' hp' htopic => ?_
  obtain ⟨peer, _, rfl⟩ := List.mem_map.mp hp
  obtain ⟨peer', _, rfl⟩ := List.mem_map.mp hp'
  exact absurd htopic hne

/-- No ack of such a run names an address twice for a request that names no topic twice. -/
theorem unmapped_named_once (hplain : cfg.natMode = false) (turns : List Turn) (self : PeerEntry)
    {topics : List UInt32} (hnodup : topics.Nodup) :
    NamedOnce (ackPeers (Rlcore.run cfg {} turns) self topics) :=
  ackPeers_namedOnce (consistent_after cfg turns) hplain self hnodup

end

end Relink.Rlcore.Sources
