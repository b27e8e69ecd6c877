import Relink.Node.Announced

/-! The groups of topics that a node announces, as a partition.

`ensure_started` puts the declared topics into groups by the transport that each one's key leads to.
Where no call has thrown, keys say which topics belong together: a pair's, tagged, is that of the
topics paired under it, any other the topic's own, and only a call that is for no image makes a
transport for a key. What a topic leaves behind when it is paired later is found by no key. -/
namespace Relink.Node
open Std (ExtTreeMap ExtTreeSet)

/-! ### Groups that partition the topics -/

/-- Every topic is in one group, and no two groups have the same transport. -/
structure Partitions (groups : List (TransportId × List UInt32)) (topics : ExtTreeSet UInt32) :
    Prop where
  covers : ∀ topic ∈ topics, ∃! g, g ∈ groups ∧ topic ∈ g.2
  within : ∀ g ∈ groups, ∀ topic ∈ g.2, topic ∈ topics
  once : ∀ g ∈ groups, g.2.Nodup
  nonempty : ∀ g ∈ groups, g.2 ≠ []
  distinct : (groups.map Prod.fst).Nodup

/-- The group of this transport has the topic. -/
def InGroup (groups : List (TransportId × List UInt32)) (t : TransportId) (topic : UInt32) : Prop :=
  ∃ group, (t, group) ∈ groups ∧ topic ∈ group

def Together (groups : List (TransportId × List UInt32)) (a b : UInt32) : Prop :=
  ∃ g ∈ groups, a ∈ g.2 ∧ b ∈ g.2

section
variable {H : Type}

/-- Some call declares the topic for no image. -/
def Dedicated (ds : List (Declaration H)) (topic : UInt32) : Prop :=
  ∃ d ∈ ds, d.topic = topic ∧ d.pairing.isSome

def PairedUnder (ds : List (Declaration H)) (topic pairId : UInt32) : Prop :=
  ∃ d ∈ ds, d.topic = topic ∧ d.pairing = some (true, pairId)

/-- The call does not throw. -/
def RelinkNode.Returns (w : RelinkNode H) (d : Declaration H) (binds : Bool) : Prop :=
  ∀ pair pairId, d.pairing = some (pair, pairId) →
    ∃ w', w.registerPair d.topic pair pairId = some w' ∧ (w'.transportFor d.topic binds).2.isSome

def Py.RelinkNode.Returns (p : Py.RelinkNode H) (d : Declaration H) (binds : Bool) : Prop :=
  ∀ pair pairId, d.pairing = some (pair, pairId) →
    (p.pairedTransport d.topic pair pairId binds).2.isSome

/-- The run of a Python node with `set_multiplex(False)`. -/
def Py.run (calls : List (Call H × Bool)) : Py.RelinkNode H :=
  calls.foldl (fun p e => p.declare e.2 e.1) {multiplex := false}

end

/-! ### Groups by transport -/

section
variable {topics : List UInt32} {own : UInt32 → Option Nat} {t : TransportId} {group : List UInt32}
  {topic : UInt32}

theorem mem_leftover_group : (t, group) ∈ leftover topics ↔
    t = .shared ∧ group = topics ∧ group ≠ [] := by
  unfold leftover
  split
  · next hempty => simp [hempty]
  · next hne =>
    simp only [List.mem_singleton, Prod.mk.injEq]
    constructor
    · rintro ⟨rfl, rfl⟩
      exact ⟨rfl, rfl, hne⟩
    · rintro ⟨rfl, rfl, _⟩
      exact ⟨rfl, rfl⟩

/-- A group is what its transport is found for. -/
theorem mem_byTransport_group : (t, group) ∈ byTransport topics own ↔
    group ≠ [] ∧ group = topics.filter fun topic => (own topic).elim .shared .own = t := by
  simp only [byTransport, List.mem_append, mem_leftover_group, List.mem_map, List.mem_dedup,
    List.mem_filterMap, Prod.mk.injEq]
  cases t with
  | shared =>
    simp only [elim_shared]
    constructor
    · rintro (⟨n, _, h, _⟩ | ⟨_, rfl, hne⟩)
      · cases h
      · exact ⟨hne, rfl⟩
    · rintro ⟨hne, rfl⟩
      exact Or.inr ⟨trivial, rfl, hne⟩
  | own m =>
    simp only [elim_own]
    constructor
    · rintro (⟨n, ⟨topic, hmem, hown⟩, heq, rfl⟩ | ⟨h, _⟩)
      · cases heq
        exact ⟨List.ne_nil_of_mem (List.mem_filter.mpr ⟨hmem, by simpa using hown⟩), rfl⟩
      · cases h
    · rintro ⟨hne, rfl⟩
      obtain ⟨topic, hmem⟩ := List.exists_mem_of_ne_nil _ hne
      obtain ⟨hmem, hown⟩ := List.mem_filter.mp hmem
      exact Or.inl ⟨m, ⟨topic, hmem, by simpa using hown⟩, rfl, rfl⟩

theorem byTransport_distinct (topics : List UInt32) (own : UInt32 → Option Nat) :
    ((byTransport topics own).map Prod.fst).Nodup := by
  have hown : ((topics.filterMap own).dedup.map TransportId.own).Nodup :=
    List.Nodup.map (fun _ _ h => TransportId.own.inj h) (List.nodup_dedup _)
  have hshared : ((leftover (topics.filter fun topic => own topic = none)).map Prod.fst).Nodup := by
    unfold leftover
    split
    · exact List.nodup_nil
    · exact List.nodup_singleton _
  rw [byTransport, List.map_append, List.map_map]
  refine List.nodup_append.mpr ⟨hown, hshared, fun t ht t' ht' heq => ?_⟩
  obtain ⟨n, _, rfl⟩ := List.mem_map.mp ht
  obtain ⟨⟨_, group⟩, hmem, rfl⟩ := List.mem_map.mp ht'
  have hfirst := (mem_leftover_group.mp hmem).1
  cases heq.trans hfirst

/-- Where no topic has a transport of its own, all are left over. -/
theorem byTransport_none (h : ∀ topic, own topic = none) : byTransport topics own = leftover topics := by
  have hfilter : topics.filterMap own = [] := List.filterMap_eq_nil_iff.mpr fun topic _ => h topic
  rw [byTransport, hfilter]
  simp [h]

theorem partitions_byTransport {declared : ExtTreeSet UInt32} :
    Partitions (byTransport declared.toList own) declared := by
  have hnodup : declared.toList.Nodup := by
    refine List.Pairwise.imp ?_ ExtTreeSet.distinct_toList
    rintro a b hne rfl
    exact hne Std.ReflCmp.compare_self
  refine ⟨fun topic hmem => ?_, ?_, ?_, ?_, byTransport_distinct _ _⟩
  · have hin := ExtTreeSet.mem_toList.mpr hmem
    obtain ⟨group, hgroup, htopic⟩ := mem_byTransport.mpr ⟨hin, rfl⟩
    refine ⟨_, ⟨hgroup, htopic⟩, ?_⟩
    rintro ⟨t, other⟩ ⟨hother, htopic'⟩
    obtain ⟨_, rfl⟩ := mem_byTransport.mp ⟨other, hother, htopic'⟩
    rw [(mem_byTransport_group.mp hother).2, (mem_byTransport_group.mp hgroup).2]
  · rintro ⟨t, group⟩ hgroup topic htopic
    exact ExtTreeSet.mem_toList.mp (mem_byTransport.mp ⟨group, hgroup, htopic⟩).1
  · rintro ⟨t, group⟩ hgroup
    rw [(mem_byTransport_group.mp hgroup).2]
    exact hnodup.filter _
  · rintro ⟨t, group⟩ hgroup
    exact (mem_byTransport_group.mp hgroup).1

end

/-! ### The groups of both builds -/

section
variable {H : Type} {w w' : RelinkNode H} {p : Py.RelinkNode H} {topic : UInt32}

theorem topicGroups_eq (hmultiplex : w.multiplex = false) : w.topicGroups =
    byTransport w.declared.toList fun topic => w.topicTransports[w.groupKey topic]? := by
  unfold RelinkNode.topicGroups
  simp only [hmultiplex, Bool.not_false, Bool.true_and]
  split
  · rfl
  · next hempty =>
    rw [Bool.not_eq_true', Bool.not_eq_false, ExtTreeMap.isEmpty_iff] at hempty
    exact (byTransport_none fun topic => by rw [hempty, ExtTreeMap.getElem?_empty]).symm

theorem Py.topicGroups_eq (hmultiplex : p.multiplex = false) : p.topicGroups =
    byTransport p.declared.toList fun topic => p.topicTransports.lookup (p.groupKey topic) := by
  unfold Py.RelinkNode.topicGroups
  simp only [hmultiplex, Bool.not_false, Bool.true_and]
  split
  · rfl
  · next hempty =>
    rw [Bool.not_eq_true', Bool.not_eq_false, List.isEmpty_iff] at hempty
    exact (byTransport_none fun topic => by rw [hempty, List.lookup_nil]).symm

theorem inGroup_iff (hmultiplex : w.multiplex = false) {t : TransportId} :
    InGroup w.topicGroups t topic ↔ topic ∈ w.declared ∧ w.route topic = t :=
  announces_iff hmultiplex

theorem together_iff (hmultiplex : w.multiplex = false) {a b : UInt32} :
    Together w.topicGroups a b ↔
      a ∈ w.declared ∧ b ∈ w.declared ∧ w.route a = w.route b := by
  have hpartitions : Partitions w.topicGroups w.declared := by
    rw [topicGroups_eq hmultiplex]
    exact partitions_byTransport
  constructor
  · rintro ⟨⟨t, group⟩, hgroup, ha, hb⟩
    have hina := (inGroup_iff hmultiplex).mp ⟨group, hgroup, ha⟩
    have hinb := (inGroup_iff hmultiplex).mp ⟨group, hgroup, hb⟩
    exact ⟨hina.1, hinb.1, hina.2.trans hinb.2.symm⟩
  · rintro ⟨ha, hb, hroute⟩
    obtain ⟨group, hgroup, ha'⟩ := (inGroup_iff hmultiplex).mpr ⟨ha, rfl⟩
    obtain ⟨group', hgroup', hb'⟩ := (inGroup_iff hmultiplex).mpr ⟨hb, hroute.symm⟩
    have hsame := List.inj_on_of_nodup_map hpartitions.distinct hgroup hgroup' rfl
    cases hsame
    exact ⟨_, hgroup, ha', hb'⟩

/-! ### What a call that returns records -/

/-- It gives its topic the key, and finds or makes a transport for it. -/
theorem returns_declare (hw : Valid w) {d : Declaration H} {binds : Bool} {pair : Bool}
    {pairId : UInt32} (hpairing : d.pairing = some (pair, pairId)) (hreturns : w.Returns d binds) :
    (∀ topic, topic ∈ (w.declare d binds).declared ↔ topic = d.topic ∨ topic ∈ w.declared) ∧
      (w.declare d binds).groupKey d.topic = w.keyFor d.topic pair pairId ∧
      (∀ other, other ≠ d.topic → (w.declare d binds).groupKey other = w.groupKey other) ∧
      ∀ key, key ∈ (w.declare d binds).topicTransports ↔
        key = w.keyFor d.topic pair pairId ∨ key ∈ w.topicTransports := by
  obtain ⟨w', hreg, hsome⟩ := hreturns pair pairId hpairing
  obtain ⟨hw', hkey, hothers⟩ := registerPair_some hreg
  have htransports : w'.topicTransports = w.topicTransports := by rw [hw']
  have hdeclared : w'.declared = w.declared := by rw [hw']
  have hinstall : ∀ (v : RelinkNode H) t topic, (v.install d.topic d.handler t).groupKey topic = v.groupKey topic := by
    intro v t topic
    cases d.handler <;> rfl
  have hkept : ∀ (v : RelinkNode H) t, (v.install d.topic d.handler t).topicTransports = v.topicTransports := by
    intro v t
    cases d.handler <;> rfl
  obtain ⟨n, hbound, hdeclare⟩ | ⟨_, _, hdeclare⟩ | ⟨hunbound, hbinds, _⟩ :=
    declare_cases hw binds hpairing hreg
  · have hmem : w.keyFor d.topic pair pairId ∈ w.topicTransports := by
      rw [ExtTreeMap.mem_iff_isSome_getElem?, hbound]
      rfl
    simp only [hdeclare, hinstall, hkept, htransports, mem_declared_install, hdeclared]
    exact ⟨fun _ => trivial, hkey, hothers, fun key => (or_iff_right_of_imp fun heq => heq ▸ hmem).symm⟩
  · simp only [hdeclare, hinstall, hkept, mem_declared_install]
    refine ⟨fun topic => or_congr_right (by rw [← hdeclared]; rfl), hkey, hothers, fun key => ?_⟩
    rw [RelinkNode.openTransport, ExtTreeMap.mem_insert, Std.compare_eq_iff_eq, htransports, eq_comm]
  · -- without a socket it would have thrown
    have hmultiplex : w'.multiplex = false := by
      rw [hw']
      exact hw.multiplex
    have hnone : (w'.transportFor d.topic binds).2 = none := by
      rw [← getElem?_none] at hunbound
      simp [RelinkNode.transportFor, hmultiplex, hkey, htransports, hunbound, hbinds]
    rw [hnone] at hsome
    cases hsome

/-- A topic that is paired is paired again only as it is. -/
theorem registerPair_paired {pair : Bool} {pairId known : UInt32}
    (hreg : w.registerPair topic pair pairId = some w') (h : w.topicPairId[topic]? = some known) :
    pair = true ∧ pairId = known := by
  rw [RelinkNode.registerPair, h] at hreg
  simp only at hreg
  split at hreg
  · cases hreg
  · next hsame =>
    rw [not_or, not_not] at hsame
    exact ⟨by simpa using hsame.1, hsame.2.symm⟩

theorem groupKey_eq_pairKey {pairId : UInt32} :
    w.groupKey topic = pairKey pairId ↔ w.topicPairId[topic]? = some pairId := by
  unfold RelinkNode.groupKey
  cases w.topicPairId[topic]? with
  | none =>
    have hne : (Py.GroupKey.topic topic).code ≠ (Py.GroupKey.pair pairId).code := fun h => by
      cases code_inj.mp h
    exact iff_of_false hne (Option.some_ne_none pairId).symm
  | some known =>
    have hinj := @code_inj (.pair known) (.pair pairId)
    simpa [Py.GroupKey.code] using hinj

theorem groupKey_eq_topic {topic' : UInt32} :
    w.groupKey topic = topic'.toUInt64 ↔ topic = topic' ∧ w.topicPairId[topic]? = none := by
  unfold RelinkNode.groupKey
  cases w.topicPairId[topic]? with
  | none =>
    have hinj := @code_inj (.topic topic) (.topic topic')
    simpa [Py.GroupKey.code] using hinj
  | some known =>
    have hne : (Py.GroupKey.pair known).code ≠ (Py.GroupKey.topic topic').code := fun h => by
      cases code_inj.mp h
    exact iff_of_false hne fun h => Option.some_ne_none known h.2

/-- The node's tables are what the declarations so far say. -/
structure Recorded (ds : List (Declaration H)) (w : RelinkNode H) : Prop where
  declared : ∀ topic, topic ∈ w.declared ↔ ∃ d ∈ ds, d.topic = topic
  paired : ∀ topic pairId, w.topicPairId[topic]? = some pairId ↔ PairedUnder ds topic pairId
  bound : ∀ topic, Dedicated ds topic → w.groupKey topic ∈ w.topicTransports
  dedicated : ∀ topic : UInt32, topic.toUInt64 ∈ w.topicTransports → Dedicated ds topic

theorem exists_snoc {A : Type} {P : A → Prop} {as : List A} {a : A} :
    (∃ x ∈ as ++ [a], P x) ↔ (∃ x ∈ as, P x) ∨ P a := by
  simp only [List.mem_append, List.mem_singleton, or_and_right, exists_or, exists_eq_left]

variable {ds : List (Declaration H)}

/-- An image's declaration finds no transport and makes none. -/
theorem recorded_image (hr : Recorded ds w) {d : Declaration H} (hpairing : d.pairing = none)
    (binds : Bool) : Recorded (ds ++ [d]) (w.declare d binds) := by
  have hdeclare : w.declare d binds = w.install d.topic d.handler .shared := by
    rw [RelinkNode.declare, hpairing]
  have hpairs : (w.install d.topic d.handler .shared).topicPairId = w.topicPairId := by
    cases d.handler <;> rfl
  have htransports : (w.install d.topic d.handler .shared).topicTransports = w.topicTransports := by
    cases d.handler <;> rfl
  have hgroupKey : ∀ topic, (w.install d.topic d.handler .shared).groupKey topic = w.groupKey topic := by
    intro topic
    cases d.handler <;> rfl
  have hdedicated : ∀ topic, Dedicated (ds ++ [d]) topic ↔ Dedicated ds topic := by
    intro topic
    rw [Dedicated, exists_snoc, hpairing]
    simp [Dedicated]
  have hpaired : ∀ topic pairId, PairedUnder (ds ++ [d]) topic pairId ↔ PairedUnder ds topic pairId := by
    intro topic pairId
    rw [PairedUnder, exists_snoc, hpairing]
    simp [PairedUnder]
  rw [hdeclare]
  refine ⟨fun topic => ?_, fun topic pairId => ?_, fun topic h => ?_, fun topic h => ?_⟩
  · rw [mem_declared_install, hr.declared, exists_snoc, or_comm, eq_comm (a := topic)]
  · rw [hpairs, hr.paired, hpaired]
  · rw [hgroupKey, htransports]
    exact hr.bound topic ((hdedicated topic).mp h)
  · rw [htransports] at h
    exact (hdedicated topic).mpr (hr.dedicated topic h)

theorem recorded_dedicated (hw : Valid w) (hr : Recorded ds w) {d : Declaration H} {pair : Bool}
    {pairId : UInt32} (hpairing : d.pairing = some (pair, pairId)) {binds : Bool}
    (hreturns : w.Returns d binds) : Recorded (ds ++ [d]) (w.declare d binds) := by
  obtain ⟨hdeclared, hkey, hothers, htransports⟩ := returns_declare hw hpairing hreturns
  obtain ⟨w', hreg, _⟩ := hreturns pair pairId hpairing
  refine ⟨fun topic => ?_, fun topic known => ?_, fun topic h => ?_, fun topic h => ?_⟩
  · rw [hdeclared, hr.declared, exists_snoc, or_comm, eq_comm (a := topic)]
  · rw [← groupKey_eq_pairKey, PairedUnder, exists_snoc, hpairing]
    by_cases htopic : d.topic = topic
    · subst htopic
      rw [hkey, RelinkNode.keyFor]
      cases pair with
      | true =>
        rw [if_pos rfl]
        have hinj := @code_inj (.pair pairId) (.pair known)
        rw [Py.GroupKey.code, Py.GroupKey.code, Py.GroupKey.pair.injEq] at hinj
        rw [hinj]
        constructor
        · rintro rfl
          exact Or.inr ⟨rfl, rfl⟩
        · rintro (hpaired | ⟨_, hsame⟩)
          · exact (registerPair_paired hreg ((hr.paired _ _).mpr hpaired)).2
          · cases hsame
            rfl
      | false =>
        rw [if_neg Bool.false_ne_true, groupKey_eq_pairKey, hr.paired, PairedUnder]
        simp
    · rw [hothers topic (Ne.symm htopic), groupKey_eq_pairKey, hr.paired, PairedUnder]
      simp [htopic]
  · rw [htransports]
    by_cases htopic : topic = d.topic
    · subst htopic
      exact Or.inl hkey
    · rw [Dedicated, exists_snoc] at h
      rw [hothers topic htopic]
      exact Or.inr (hr.bound topic (h.resolve_right fun hd => htopic hd.1.symm))
  · rw [Dedicated, exists_snoc]
    rcases (htransports _).mp h with hnew | hold
    · rw [RelinkNode.keyFor] at hnew
      cases pair with
      | true =>
        cases @code_inj (.topic topic) (.pair pairId) |>.mp hnew
      | false =>
        rw [if_neg Bool.false_ne_true, eq_comm, groupKey_eq_topic] at hnew
        exact Or.inr ⟨hnew.1, by rw [hpairing]; rfl⟩
    · exact Or.inl (hr.dedicated topic hold)

theorem recorded_declare (hw : Valid w) (hr : Recorded ds w) (d : Declaration H) {binds : Bool}
    (hreturns : w.Returns d binds) : Recorded (ds ++ [d]) (w.declare d binds) := by
  cases hpairing : d.pairing with
  | none => exact recorded_image hr hpairing binds
  | some p => exact recorded_dedicated hw hr hpairing hreturns

theorem recorded_foldl (calls : List (Call H × Bool)) (hw : Valid w) (hr : Recorded ds w)
    (hreturns : Transition.Throughout RelinkNode.step (fun w e => w.Returns e.1.declaration e.2) w
      calls) :
    Recorded (ds ++ calls.map fun e => e.1.declaration) (calls.foldl RelinkNode.step w) := by
  induction calls generalizing w ds with
  | nil => rwa [List.map_nil, List.append_nil]
  | cons e rest ih =>
    have hstep := ih (valid_declare hw e.1.declaration e.2)
      (recorded_declare hw hr e.1.declaration hreturns.1) hreturns.2
    rwa [List.append_assoc] at hstep

theorem recorded_run {calls : List (Call H × Bool)}
    (hreturns : Transition.Throughout RelinkNode.step (fun w e => w.Returns e.1.declaration e.2)
      {multiplex := false} calls) : Recorded (calls.map fun e => e.1.declaration) (run calls) := by
  have hinit : Recorded [] ({multiplex := false} : RelinkNode H) :=
    ⟨by simp, by simp [PairedUnder], by simp [Dedicated], by simp⟩
  exact recorded_foldl calls (valid_run []) hinit hreturns

/-- Only a topic of images is left on the shared transport. -/
theorem Recorded.shared_iff (hr : Recorded ds w) : w.route topic = .shared ↔ ¬ Dedicated ds topic := by
  rw [RelinkNode.route, transportOf_shared]
  refine ⟨fun hunbound h => hunbound (hr.bound topic h), fun h hbound => ?_⟩
  have hunpaired : w.topicPairId[topic]? = none := by
    cases hpair : w.topicPairId[topic]? with
    | none => rfl
    | some pairId =>
      obtain ⟨d, hd, htopic, hpairing⟩ := (hr.paired topic pairId).mp hpair
      exact absurd ⟨d, hd, htopic, by rw [hpairing]; rfl⟩ h
  rw [groupKey_eq_topic.mpr ⟨rfl, hunpaired⟩] at hbound
  exact h (hr.dedicated topic hbound)

/-- Two others share a transport as the two topics of a pair. -/
theorem Recorded.route_iff (hw : Valid w) (hr : Recorded ds w) {a b : UInt32} (hne : a ≠ b)
    (ha : Dedicated ds a) :
    w.route a = w.route b ↔ ∃ pairId, PairedUnder ds a pairId ∧ PairedUnder ds b pairId := by
  rw [RelinkNode.route, RelinkNode.route, transportOf_inj hw (hr.bound a ha)]
  simp only [← hr.paired]
  constructor
  · intro heq
    cases hpair : w.topicPairId[a]? with
    | some pairId =>
      rw [groupKey_eq_pairKey.mpr hpair] at heq
      exact ⟨pairId, rfl, groupKey_eq_pairKey.mp heq.symm⟩
    | none =>
      rw [groupKey_eq_topic.mpr ⟨rfl, hpair⟩] at heq
      exact absurd (groupKey_eq_topic.mp heq.symm).1.symm hne
  · rintro ⟨pairId, hpaira, hpairb⟩
    rw [groupKey_eq_pairKey.mpr hpaira, groupKey_eq_pairKey.mpr hpairb]


/-! ### The Python build -/

/-- If it returns, whether a socket could have been had makes no difference. -/
theorem returns_binds {d : Declaration H} {binds : Bool} (h : w.Returns d binds) :
    w.declare d binds = w.declare d true := by
  cases hpairing : d.pairing with
  | none => simp only [RelinkNode.declare, hpairing]
  | some p =>
    obtain ⟨w', hreg, hsome⟩ := h p.1 p.2 hpairing
    have hfor : w'.transportFor d.topic binds = w'.transportFor d.topic true := by
      revert hsome
      unfold RelinkNode.transportFor
      split
      · exact fun _ => rfl
      · split
        · exact fun _ => rfl
        · cases binds <;> simp
    simp only [RelinkNode.declare, hpairing, hreg, hfor]

theorem Py.pairedTransport_binds {pair : Bool} {pairId : UInt32} {binds : Bool}
    (h : (p.pairedTransport topic pair pairId binds).2.isSome) :
    p.pairedTransport topic pair pairId binds = p.pairedTransport topic pair pairId true := by
  revert h
  unfold Py.RelinkNode.pairedTransport
  split
  · exact fun _ => rfl
  · unfold Py.RelinkNode.transportFor
    split
    · exact fun _ => rfl
    · split
      · exact fun _ => rfl
      · cases binds <;> simp

theorem Py.pairedTransport_addSubscribed (topic' : UInt32) (pair : Bool) (pairId : UInt32) (binds : Bool) :
    ((p.addSubscribed topic').pairedTransport topic pair pairId binds).2 =
      (p.pairedTransport topic pair pairId binds).2 := by
  have hreg : (p.addSubscribed topic').registerPair topic pair pairId =
      (p.registerPair topic pair pairId).map fun q => q.addSubscribed topic' := by
    unfold Py.RelinkNode.registerPair
    simp only [Py.RelinkNode.addSubscribed]
    split <;> split <;> rfl
  unfold Py.RelinkNode.pairedTransport
  rw [hreg]
  cases p.registerPair topic pair pairId with
  | none => rfl
  | some q =>
    show ((q.addSubscribed topic').transportFor topic binds).2 = (q.transportFor topic binds).2
    have hmultiplex : (q.addSubscribed topic').multiplex = q.multiplex := rfl
    have hfound : (q.addSubscribed topic').topicTransports.lookup
        ((q.addSubscribed topic').groupKey topic) = q.topicTransports.lookup (q.groupKey topic) := rfl
    unfold Py.RelinkNode.transportFor
    rw [hmultiplex, hfound]
    cases q.multiplex with
    | true => rfl
    | false =>
      cases q.topicTransports.lookup (q.groupKey topic) with
      | some n => rfl
      | none => cases binds <;> rfl

theorem Py.returns_binds {call : Call H} {binds : Bool} (h : p.Returns call.declaration binds) :
    p.declare binds call = p.declare true call := by
  have hpaired : ∀ topic pair pairId, (p.pairedTransport topic pair pairId binds).2.isSome →
      p.pairedTransport topic pair pairId binds = p.pairedTransport topic pair pairId true :=
    fun topic pair pairId h => Py.pairedTransport_binds h
  have hsubscribed : ∀ topic pair pairId, (p.pairedTransport topic pair pairId binds).2.isSome →
      (p.addSubscribed topic).pairedTransport topic pair pairId binds =
        (p.addSubscribed topic).pairedTransport topic pair pairId true := by
    intro topic pair pairId h
    rw [← Py.pairedTransport_addSubscribed topic] at h
    exact Py.pairedTransport_binds h
  cases call with
  | advertise largeBlob topic pair pairId =>
    cases largeBlob with
    | true => rfl
    | false =>
      simp only [Py.RelinkNode.declare, Py.RelinkNode.advertise,
        hpaired topic pair pairId (h pair pairId rfl)]
  | subscribe largeBlob topic callback pair pairId =>
    cases largeBlob with
    | true => rfl
    | false =>
      simp only [Py.RelinkNode.declare, Py.RelinkNode.subscribe,
        hsubscribed topic pair pairId (h pair pairId rfl)]
  | advertiseRaw topic pair pairId =>
    simp only [Py.RelinkNode.declare, Py.RelinkNode.advertise,
      hpaired topic pair pairId (h pair pairId rfl)]
  | subscribeRaw topic callback pair pairId =>
    simp only [Py.RelinkNode.declare, Py.RelinkNode.subscribeRaw,
      hpaired topic pair pairId (h pair pairId rfl)]
  | advertiseImage topic => rfl
  | subscribeImage topic callback => rfl
  | advertiseCompressedImage topic => rfl
  | subscribeCompressedImage topic callback => rfl

/-- The same calls leave both builds with the same topics on the same transports. -/
theorem alike_foldl {v : Session H} {named : List UInt32} (h : Alike v p named)
    {calls calls' : List (Call H × Bool)} (hsame : calls'.map Prod.fst = calls.map Prod.fst)
    (hreturns : Transition.Throughout RelinkNode.step (fun w e => w.Returns e.1.declaration e.2) v.node
      calls)
    (hreturns' : Transition.Throughout (fun p e => p.declare e.2 e.1)
      (fun p e => Py.RelinkNode.Returns p e.1.declaration e.2) p calls') :
    Alike {v with node := calls.foldl RelinkNode.step v.node}
      (calls'.foldl (fun p e => p.declare e.2 e.1) p)
      (named ++ calls.flatMap fun e => (ApiCall.declare e.1).named.toList) := by
  induction calls generalizing v p named calls' with
  | nil =>
    rw [List.map_nil, List.map_eq_nil_iff] at hsame
    rw [hsame, List.flatMap_nil, List.append_nil]
    exact h
  | cons e rest ih =>
    obtain ⟨⟨call, binds⟩, rest', rfl, rfl, hrest⟩ := List.map_eq_cons_iff.mp hsame
    have hstep := alike_declare h e.1 true
    rw [← returns_binds hreturns.1, ← Py.returns_binds hreturns'.1] at hstep
    have hrun := ih hstep hrest hreturns.2 hreturns'.2
    rwa [List.append_assoc] at hrun

theorem declaration_named {call : Call H} (h : topic ∈ (ApiCall.declare call).named.toList) :
    call.declaration.topic = topic := by
  cases call <;> simp [ApiCall.named] at h
  exact h.symm

theorem Alike.groups {v : Session H} {named : List UInt32} (h : Alike v p named) (hv : Valid v.node)
    (hnamed : ∀ topic ∈ named, topic ∈ v.node.declared) :
    Partitions p.topicGroups p.declared ∧
      ∀ t topic, InGroup p.topicGroups t topic ↔ InGroup v.node.topicGroups t topic := by
  rw [Py.topicGroups_eq (h.ports.multiplex.trans hv.multiplex)]
  refine ⟨partitions_byTransport, fun t topic => ?_⟩
  have hown : p.topicTransports.lookup (p.groupKey topic) =
      v.node.topicTransports[v.node.groupKey topic]? := by
    rw [h.ports.transports, groupKey_code h.ports]
  rw [inGroup_iff hv.multiplex, InGroup, mem_byTransport, ExtTreeSet.mem_toList, h.declared, hown,
    or_iff_left_of_imp (hnamed topic)]
  rfl

/-- **The groups are the right partition** of what the calls declared, in both builds: topics share
one as the topics of a pair, the shared transport is left to images, and a topic's transport is
found again where it is announced. -/
theorem topic_groups_partition (calls : List (Call H × Bool))
    (hreturns : Transition.Throughout RelinkNode.step (fun w e => w.Returns e.1.declaration e.2)
      {multiplex := false} calls) :
    Partitions (run calls).topicGroups (run calls).declared ∧
      (∀ a b, a ≠ b → Dedicated (calls.map fun e => e.1.declaration) a →
        Dedicated (calls.map fun e => e.1.declaration) b →
        (Together (run calls).topicGroups a b ↔
          ∃ pairId, PairedUnder (calls.map fun e => e.1.declaration) a pairId ∧
            PairedUnder (calls.map fun e => e.1.declaration) b pairId)) ∧
      (∀ topic, InGroup (run calls).topicGroups .shared topic ↔
        (∃ e ∈ calls, e.1.declaration.topic = topic) ∧
          ¬ Dedicated (calls.map fun e => e.1.declaration) topic) ∧
      (∀ t topic, t ≠ .shared → InGroup (run calls).topicGroups t topic →
        ∀ binds, (run calls).transportFor topic binds = (run calls, some t)) ∧
      ∀ calls' : List (Call H × Bool), calls'.map Prod.fst = calls.map Prod.fst →
        Transition.Throughout (fun p e => p.declare e.2 e.1)
          (fun p e => Py.RelinkNode.Returns p e.1.declaration e.2) {multiplex := false} calls' →
        Partitions (Py.run calls').topicGroups (Py.run calls').declared ∧
          ∀ t topic, InGroup (Py.run calls').topicGroups t topic ↔
            InGroup (run calls).topicGroups t topic := by
  have hw := valid_run calls
  have hr := recorded_run hreturns
  refine ⟨?_, fun a b hne ha hb => ?_, fun topic => ?_, fun t topic ht hin binds => ?_,
    fun calls' hsame hreturns' => ?_⟩
  · rw [topicGroups_eq hw.multiplex]
    exact partitions_byTransport
  · have hdeclared : ∀ topic, Dedicated (calls.map fun e => e.1.declaration) topic →
        topic ∈ (run calls).declared := by
      rintro topic ⟨d, hd, htopic, _⟩
      exact (hr.declared topic).mpr ⟨d, hd, htopic⟩
    rw [together_iff hw.multiplex, hr.route_iff hw hne ha]
    exact ⟨fun h => h.2.2, fun h => ⟨hdeclared a ha, hdeclared b hb, h⟩⟩
  · rw [inGroup_iff hw.multiplex, hr.shared_iff, hr.declared]
    simp only [List.mem_map, exists_exists_and_eq_and]
  · obtain ⟨_, hroute⟩ := (inGroup_iff hw.multiplex).mp hin
    cases t with
    | shared => exact absurd rfl ht
    | own n =>
      rw [RelinkNode.route, transportOf_own] at hroute
      simp only [RelinkNode.transportFor, hw.multiplex, Bool.false_eq_true, if_false, hroute]
  · have hinit : Alike ({node := {multiplex := false}} : Session H) {multiplex := false} [] :=
      ⟨⟨rfl, rfl, fun key => by simp, rfl⟩, rfl, by simp, rfl⟩
    have halike : Alike {node := run calls} (Py.run calls') _ :=
      alike_foldl hinit hsame hreturns hreturns'
    refine halike.groups hw fun topic hnamed => ?_
    obtain ⟨e, he, hnamed⟩ := List.mem_flatMap.mp hnamed
    exact (hr.declared topic).mpr ⟨_, List.mem_map_of_mem he, declaration_named hnamed⟩

/-! ### Two paired topics and an image -/

/-- Topic 7 is paired after it was advertised. -/
def pairedAndImage : List (Call Unit × Bool) :=
  [(.advertiseRaw 7 false 0, true), (.subscribeRaw 8 () true 7, true), (.advertiseRaw 7 true 7, false),
    (.advertiseImage 9, true)]

theorem pairedAndImage_groups : Together (run pairedAndImage).topicGroups 7 8 ∧
    InGroup (run pairedAndImage).topicGroups .shared 9 := by
  have hreturns : Transition.Throughout RelinkNode.step (fun w e => w.Returns e.1.declaration e.2)
      {multiplex := false} pairedAndImage := by
    refine ⟨fun pair pairId h => ?_, fun pair pairId h => ?_, fun pair pairId h => ?_,
      fun pair pairId h => ?_, trivial⟩ <;> cases h
    · exact ⟨_, rfl, by decide +kernel⟩
    · exact ⟨_, rfl, by decide +kernel⟩
    · exact ⟨_, rfl, by decide +kernel⟩
  obtain ⟨_, hpairs, himages, _⟩ := topic_groups_partition pairedAndImage hreturns
  refine ⟨(hpairs 7 8 (by decide) ?_ ?_).mpr ⟨7, ?_, ?_⟩, (himages 9).mpr ⟨?_, ?_⟩⟩
  · exact ⟨_, List.mem_cons_self, rfl, rfl⟩
  · exact ⟨_, List.mem_cons_of_mem _ List.mem_cons_self, rfl, rfl⟩
  · exact ⟨_, List.mem_cons_of_mem _ (List.mem_cons_of_mem _ List.mem_cons_self), rfl, rfl⟩
  · exact ⟨_, List.mem_cons_of_mem _ List.mem_cons_self, rfl, rfl⟩
  · exact ⟨_, List.mem_cons_of_mem _ (List.mem_cons_of_mem _ (List.mem_cons_of_mem _
      List.mem_cons_self)), rfl⟩
  · simp [Dedicated, pairedAndImage, Call.declaration]

end
end Relink.Node
