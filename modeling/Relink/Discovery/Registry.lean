import Relink.Discovery.Names
import Relink.Library.Intern

/-! The name registry of a node.

`topic_id_for` hashes a name to the id that goes on the wire, and keeps the name under it, so that a
second name with the same hash is refused and not mistaken for the first. A call that throws keeps
what it has done to the registry by then. The Python build has strings of code points; it hashes
their UTF-8, which a string with a surrogate does not have. -/
namespace Relink.Discovery.Registry
open Wire Transition Intern
open Std (ExtTreeMap)

/-! ### Resolving a name -/

/-- What the builds of `topic_id_for` differ in. -/
structure Naming (N I E : Type) where
  hash : N → Except E I
  natPunchTopicId : I
  reservedId : N → E
  hashCollision : N → N → I → E

section
variable {N I E : Type} [Ord I] [Std.TransOrd I] [DecidableEq N] [DecidableEq I]

def Naming.topicIdFor (build : Naming N I E) (name : N) : EStateM E (ExtTreeMap I N) I := do
  let id ← ofExcept (build.hash name)
  if id = build.natPunchTopicId then throw (build.reservedId name)
  match (← get)[id]? with
  | some existing => if existing ≠ name then throw (build.hashCollision existing name id)
  | none => modify fun names => names.insert id name
  return id

/-- What a method leaves, and what it returns or throws. -/
def outcome {S A : Type} : EStateM.Result E S A → S × Except E A
  | .ok a s => (s, .ok a)
  | .error e s => (s, .error e)

/-- A call of one. -/
def step {S A : Type} (method : N → EStateM E S A) (s : S) (name : N) : S × Except E A :=
  outcome ((method name).run s)

def entry (names : ExtTreeMap I N) (topicId : I) : Option N := names[topicId]?

end

/-! ### The C++ build -/

abbrev TopicNames := ExtTreeMap UInt32 Bytes

def cpp : Naming Bytes UInt32 TopicNameError where
  hash name := .ok (fnv1a32 name)
  natPunchTopicId := kNatPunchTopicId
  reservedId := .reservedId
  hashCollision := .hashCollision

def topicIdFor (name : Bytes) : EStateM TopicNameError TopicNames UInt32 := cpp.topicIdFor name

def topicNameFor (names : TopicNames) (topicId : UInt32) : Bytes := names.getD topicId []

/-! ### The Python build -/

namespace Py

/-- `ord`; a `str` may hold surrogates. -/
abbrev CodePoint := Fin 0x110000

abbrev Str := List CodePoint

def scalar (c : CodePoint) : Option Char :=
  if 0xD800 ≤ c.val ∧ c.val ≤ 0xDFFF then none else some (Char.ofNat c.val)

/-- `encode("utf-8")`; nothing if it raises. -/
def encodeUtf8 (s : Str) : Option Bytes :=
  (s.mapM scalar).map fun chars => chars.flatMap String.utf8EncodeChar

inductive NameError where
  | unicodeEncode (name : Str)
  | reservedId (topic : Str)
  | hashCollision (existing topic : Str) (topicId : Nat)
deriving DecidableEq

/-- A text of the source. -/
def str (text : String) : Str := text.toList.map fun c => Fin.ofNat 0x110000 c.toNat

/-- The message of an error; that of a `UnicodeEncodeError` is the interpreter's. -/
def NameError.message : NameError → Option Str
  | .unicodeEncode _ => none
  | .reservedId topic =>
    some (str "topic name \"" ++ topic ++
      str "\" hashes to the reserved NAT-punch topic id -- pick a different name")
  | .hashCollision existing topic topicId =>
    some (str "topic hash collision between \"" ++ existing ++ str "\" and \"" ++ topic ++
      str "\" (both hash to " ++ str (toString topicId) ++ str ")")

def fnv1a32 (name : Str) : Except NameError Nat :=
  match encodeUtf8 name with
  | none => .error (.unicodeEncode name)
  | some bytes =>
    .ok (bytes.foldl (fun h b => ((h ^^^ b.toNat) * 0x01000193) &&& 0xFFFFFFFF) 0x811C9DC5)

abbrev TopicNames := ExtTreeMap Nat Str

def python : Naming Str Nat NameError where
  hash := fnv1a32
  natPunchTopicId := 0xFFFFFFFF
  reservedId := .reservedId
  hashCollision := .hashCollision

/-- `_topic_id_for` of a string. -/
def topicIdFor (topic : Str) : EStateM NameError TopicNames Nat := python.topicIdFor topic

def topicNameFor (names : TopicNames) (topicId : Nat) : Str := names.getD topicId []

end Py

/-! ### One call -/

section
variable {N I E : Type} [DecidableEq I] (build : Naming N I E)

/-- The id of a name, or why it may not have one. -/
def Naming.idFor (name : N) : Except E I :=
  match build.hash name with
  | .error e => .error e
  | .ok id => if id = build.natPunchTopicId then .error (build.reservedId name) else .ok id

variable {build}

theorem Naming.idFor_of_hash {name : N} {id : I} (h : build.hash name = .ok id) : build.idFor name =
    if id = build.natPunchTopicId then .error (build.reservedId name) else .ok id := by
  simp only [Naming.idFor, h]

theorem Naming.idFor_of_error {name : N} {e : E} (h : build.hash name = .error e) :
    build.idFor name = .error e := by
  simp only [Naming.idFor, h]

theorem Naming.idFor_eq_some {name : N} {id : I} (h : (build.idFor name).toOption = some id) :
    build.hash name = .ok id ∧ id ≠ build.natPunchTopicId := by
  cases hhash : build.hash name with
  | error e =>
    rw [idFor_of_error hhash] at h
    cases h
  | ok own =>
    rw [idFor_of_hash hhash] at h
    by_cases hreserved : own = build.natPunchTopicId
    · rw [if_pos hreserved] at h
      cases h
    · rw [if_neg hreserved] at h
      cases h
      exact ⟨rfl, hreserved⟩

variable (build)
variable [DecidableEq N] [Ord I] [Std.TransOrd I]

theorem Naming.step_eq : step build.topicIdFor =
    register build.idFor (fun names id name => names.insert id name) build.hashCollision entry := by
  funext names name
  unfold step Naming.topicIdFor register Naming.idFor entry
  cases build.hash name with
  | error e => rfl
  | ok id =>
    simp only [ofExcept, pure_bind]
    by_cases hreserved : id = build.natPunchTopicId
    · simp only [if_pos hreserved]
      rfl
    · simp only [if_neg hreserved, EStateM.run_bind, EStateM.run_get]
      cases hentry : names[id]? with
      | none => rfl
      | some existing =>
        by_cases hsame : existing = name
        · simp only [ne_eq, ite_not, if_pos hsame]
          rfl
        · simp only [ne_eq, ite_not, if_neg hsame]
          rfl

variable [Std.LawfulEqOrd I]

omit [DecidableEq N] in
theorem inserts :
    Inserts (fun (names : ExtTreeMap I N) id name => names.insert id name) entry := by
  intro names id name _
  funext id'
  simp only [entry, ExtTreeMap.getElem?_insert, Std.compare_eq_iff_eq, Function.update_apply]
  by_cases hsame : id = id'
  · rw [if_pos hsame, if_pos hsame.symm]
  · rw [if_neg hsame, if_neg fun h => hsame h.symm]

/-- The registry of either build, after any calls. -/
theorem Naming.registers (calls : List N) : Registers (step build.topicIdFor) entry
    (fun name id => build.hash name = .ok id ∧ id ≠ build.natPunchTopicId) ∅ calls := by
  rw [build.step_eq]
  exact registers_of_refines (refines_register inserts) (fun _ _ => Naming.idFor_eq_some)
    (fun _ => ExtTreeMap.getElem?_empty) calls

end

/-! ### UTF-8 -/

namespace Py

theorem toNat_of_scalar {c : CodePoint} {char : Char} (h : scalar c = some char) :
    char.toNat = c.val := by
  unfold scalar at h
  by_cases hsurrogate : 0xD800 ≤ c.val ∧ c.val ≤ 0xDFFF
  · rw [if_pos hsurrogate] at h
    cases h
  · rw [if_neg hsurrogate] at h
    obtain rfl := Option.some.inj h
    have hvalid : c.val.isValidChar := by
      unfold Nat.isValidChar
      omega
    rw [Char.ofNat, dif_pos hvalid]
    rfl

theorem map_toNat_of_mapM {s : Str} {chars : List Char} (h : s.mapM scalar = some chars) :
    chars.map Char.toNat = s.map Fin.val := by
  induction s generalizing chars with
  | nil =>
    cases h
    rfl
  | cons c rest ih =>
    rw [List.mapM_cons] at h
    obtain ⟨char, hchar, h⟩ := Option.bind_eq_some_iff.mp h
    obtain ⟨chars', hchars, h⟩ := Option.bind_eq_some_iff.mp h
    cases h
    rw [List.map_cons, List.map_cons, toNat_of_scalar hchar, ih hchars]

/-- Strings with the same UTF-8 are the same. -/
theorem encodeUtf8_injective {s s' : Str} {bytes : Bytes} (h : encodeUtf8 s = some bytes)
    (h' : encodeUtf8 s' = some bytes) : s = s' := by
  obtain ⟨chars, hchars, hbytes⟩ := Option.map_eq_some_iff.mp h
  obtain ⟨chars', hchars', hbytes'⟩ := Option.map_eq_some_iff.mp h'
  have hutf8 : chars.utf8Encode = chars'.utf8Encode :=
    congrArg List.toByteArray (hbytes.trans hbytes'.symm)
  have hsame : chars = chars' := by
    rw [← String.toByteArray_ofList, ← String.toByteArray_ofList, String.toByteArray_inj] at hutf8
    exact String.ofList_injective hutf8
  refine List.map_injective_iff.mpr (fun _ _ h => Fin.eq_of_val_eq h) ?_
  rw [← map_toNat_of_mapM hchars, ← map_toNat_of_mapM hchars', hsame]

theorem fnv1a32_of_encoded {topic : Str} {name : Bytes} (h : encodeUtf8 topic = some name) :
    fnv1a32 topic = .ok (Discovery.fnv1a32 name).toNat := by
  have hfold : ∀ (bytes : Bytes) (hash : UInt32),
      bytes.foldl (fun h b => ((h ^^^ b.toNat) * 0x01000193) &&& 0xFFFFFFFF) hash.toNat =
        (bytes.foldl (fun hash b => (hash ^^^ b.toUInt32) * 0x01000193) hash).toNat := by
    intro bytes
    induction bytes with
    | nil => exact fun _ => rfl
    | cons b rest ih =>
      intro hash
      rw [List.foldl_cons, List.foldl_cons, ← ih, UInt32.toNat_mul, UInt32.toNat_xor,
        UInt8.toNat_toUInt32, ← Nat.and_two_pow_sub_one_eq_mod]
      rfl
  simp only [fnv1a32, h]
  exact congrArg Except.ok (hfold name 0x811C9DC5)

theorem scalar_ofNat (c : Char) : scalar (Fin.ofNat 0x110000 c.toNat) = some c := by
  have hvalid : c.toNat.isValidChar := c.valid
  have hval : (Fin.ofNat 0x110000 c.toNat).val = c.toNat := by
    apply Nat.mod_eq_of_lt
    unfold Nat.isValidChar at hvalid
    omega
  have hnone : ¬ (0xD800 ≤ c.toNat ∧ c.toNat ≤ 0xDFFF) := by
    unfold Nat.isValidChar at hvalid
    omega
  rw [scalar, hval, if_neg hnone, Char.ofNat_toNat]

theorem encodeUtf8_str (text : String) : encodeUtf8 (str text) = some (utf8 text) := by
  have hscalars : (str text).mapM scalar = some text.toList := by
    unfold str
    induction text.toList with
    | nil => rfl
    | cons c rest ih =>
      rw [List.map_cons, List.mapM_cons, scalar_ofNat, ih]
      rfl
  rw [encodeUtf8, hscalars]
  rfl

theorem encodeUtf8_append {s s' : Str} {bytes bytes' : Bytes} (h : encodeUtf8 s = some bytes)
    (h' : encodeUtf8 s' = some bytes') : encodeUtf8 (s ++ s') = some (bytes ++ bytes') := by
  obtain ⟨chars, hchars, rfl⟩ := Option.map_eq_some_iff.mp h
  obtain ⟨chars', hchars', rfl⟩ := Option.map_eq_some_iff.mp h'
  simp [encodeUtf8, hchars, hchars']

end Py

/-! ### The builds together -/

def SameError : Py.NameError → TopicNameError → Prop
  | .reservedId topic, .reservedId name => Py.encodeUtf8 topic = some name
  | .hashCollision existing topic id, .hashCollision existing' name id' =>
    Py.encodeUtf8 existing = some existing' ∧ Py.encodeUtf8 topic = some name ∧ id = id'.toNat
  | _, _ => False

/-- The C++ build says what the Python build says, behind its own name. -/
theorem SameError.message {e : Py.NameError} {e' : TopicNameError} (h : SameError e e') :
    ∃ text bytes, e.message = some text ∧ Py.encodeUtf8 text = some bytes ∧
      e'.what = utf8 "ReLink: " ++ bytes := by
  cases e with
  | unicodeEncode topic =>
    cases e' <;> cases h
  | reservedId topic =>
    cases e' with
    | hashCollision existing name id => cases h
    | reservedId name =>
      have hname : Py.encodeUtf8 topic = some name := h
      refine ⟨_, _, rfl, Py.encodeUtf8_append (Py.encodeUtf8_append (Py.encodeUtf8_str _) hname)
        (Py.encodeUtf8_str _), ?_⟩
      have hprefix : utf8 "ReLink: topic name \"" = utf8 "ReLink: " ++ utf8 "topic name \"" := by
        decide +kernel
      rw [TopicNameError.what, hprefix]
      simp only [List.append_assoc]
  | hashCollision existing topic topicId =>
    cases e' with
    | reservedId name => cases h
    | hashCollision existing' name id =>
      obtain ⟨hexisting, hname, rfl⟩ := h
      refine ⟨_, _, rfl, Py.encodeUtf8_append (Py.encodeUtf8_append (Py.encodeUtf8_append
        (Py.encodeUtf8_append (Py.encodeUtf8_append (Py.encodeUtf8_append (Py.encodeUtf8_str _)
          hexisting) (Py.encodeUtf8_str _)) hname) (Py.encodeUtf8_str _)) (Py.encodeUtf8_str _))
        (Py.encodeUtf8_str _), ?_⟩
      have hprefix : utf8 "ReLink: topic hash collision between \"" =
          utf8 "ReLink: " ++ utf8 "topic hash collision between \"" := by
        decide +kernel
      rw [TopicNameError.what, hprefix]
      simp only [List.append_assoc]
      rfl

def Together (topics : Py.TopicNames) (names : TopicNames) : Prop :=
  SameNames Py.encodeUtf8 UInt32.toNat (entry topics) (entry names)

/-- The registries have the same names, and do the same with another one, which the C++ build gets
in UTF-8; what UTF-8 does not have the Python build refuses. -/
structure Agree (topics : Py.TopicNames) (names : TopicNames) : Prop where
  entries : Together topics names
  call : ∀ topic name, Py.encodeUtf8 topic = some name →
    Alike UInt32.toNat SameError (step Py.topicIdFor topics topic).2 (step topicIdFor names name).2
  raises : ∀ topic, Py.encodeUtf8 topic = none →
    step Py.topicIdFor topics topic = (topics, .error (.unicodeEncode topic))
  lookup : ∀ topicId : UInt32,
    Py.encodeUtf8 (Py.topicNameFor topics topicId.toNat) = some (topicNameFor names topicId)

theorem idFor_alike (topic : Py.Str) (name : Bytes) (h : Py.encodeUtf8 topic = some name) :
    Alike UInt32.toNat SameError (Py.python.idFor topic) (cpp.idFor name) := by
  have hpy : Py.python.hash topic = .ok (fnv1a32 name).toNat := Py.fnv1a32_of_encoded h
  have hcpp : cpp.hash name = .ok (fnv1a32 name) := rfl
  rw [Naming.idFor_of_hash hpy, Naming.idFor_of_hash hcpp]
  by_cases hreserved : fnv1a32 name = cpp.natPunchTopicId
  · have hreserved' : (fnv1a32 name).toNat = Py.python.natPunchTopicId := by
      rw [hreserved]
      rfl
    rw [if_pos hreserved, if_pos hreserved']
    exact .error h
  · have hreserved' : (fnv1a32 name).toNat ≠ Py.python.natPunchTopicId :=
      fun hnum => hreserved (UInt32.toNat_inj.mp hnum)
    rw [if_neg hreserved, if_neg hreserved']
    exact .ok _

variable {topics : Py.TopicNames} {names : TopicNames}

/-- One call of each build. -/
theorem call_alike (h : Together topics names) {topic : Py.Str} {name : Bytes}
    (hname : Py.encodeUtf8 topic = some name) :
    Alike UInt32.toNat SameError (step Py.topicIdFor topics topic).2
        (step topicIdFor names name).2 ∧
      Together (step Py.topicIdFor topics topic).1 (step topicIdFor names name).1 := by
  have hcollision : ∀ a b a' b' (id : UInt32), Py.encodeUtf8 a = some a' →
      Py.encodeUtf8 b = some b' →
        SameError (Py.python.hashCollision a b id.toNat) (cpp.hashCollision a' b' id) :=
    fun _ _ _ _ _ ha hb => ⟨ha, hb, rfl⟩
  have hsim := register_sim inserts inserts (fun _ _ => UInt32.toNat_inj.mp)
    (fun _ _ _ => Py.encodeUtf8_injective) idFor_alike hcollision h hname
  rwa [← Py.python.step_eq, ← cpp.step_eq] at hsim

theorem raises (topics : Py.TopicNames) {topic : Py.Str} (h : Py.encodeUtf8 topic = none) :
    step Py.topicIdFor topics topic = (topics, .error (.unicodeEncode topic)) := by
  have hhash : Py.python.hash topic = .error (.unicodeEncode topic) := by
    simp only [Py.python, Py.fnv1a32, h]
  exact (congrFun (congrFun Py.python.step_eq topics) topic).trans
    (register_error (Naming.idFor_of_error hhash))

theorem lookup_same (h : Together topics names) (topicId : UInt32) :
    Py.encodeUtf8 (Py.topicNameFor topics topicId.toNat) = some (topicNameFor names topicId) := by
  have hentries := h.same topicId
  rw [Py.topicNameFor, topicNameFor, ExtTreeMap.getD_eq_getD_getElem?,
    ExtTreeMap.getD_eq_getD_getElem?]
  unfold entry at hentries
  generalize topics[topicId.toNat]? = o at hentries ⊢
  generalize names[topicId]? = o' at hentries ⊢
  cases hentries with
  | none => rfl
  | some hname => exact hname

/-- The builds go along. -/
theorem agree (calls : List Py.Str) :
    Agree (after (step Py.topicIdFor) ∅ calls)
      (after (step topicIdFor) ∅ (calls.filterMap Py.encodeUtf8)) := by
  have htogether : Together (after (step Py.topicIdFor) ∅ calls)
      (after (step topicIdFor) ∅ (calls.filterMap Py.encodeUtf8)) := by
    refine foldl_filterMap_sim Together _ _ _
      (fun topics names topic name h hname => (call_alike h hname).2)
      (fun topics names topic h hname => ?_) calls ∅ ∅
      (.of_none (fun _ => ExtTreeMap.getElem?_empty) fun _ => ExtTreeMap.getElem?_empty)
    rw [raises topics hname]
    exact h
  exact ⟨htogether, fun _ _ hname => (call_alike htogether hname).1, fun _ h => raises _ h,
    lookup_same htogether⟩

/-! ### The list that is sent -/

def listed (names : List TopicDirEntry) (topicId : UInt32) : Option Bytes :=
  (names.find? (·.topicId = topicId)).map (·.name)

theorem listed_inserts : Inserts (fun names id name => names ++ [⟨id, name⟩]) listed := by
  intro names id name hnone
  funext id'
  have habsent : names.find? (·.topicId = id) = none := Option.map_eq_none_iff.mp hnone
  unfold listed
  rw [Function.update_apply, List.find?_append]
  by_cases hsame : id' = id
  · rw [if_pos hsame, hsame, habsent, Option.none_or, List.find?_singleton]
    simp only [decide_true, if_true, Option.map_some]
  · have hne : ¬id = id' := fun h => hsame h.symm
    rw [if_neg hsame, List.find?_singleton]
    simp only [decide_eq_true_eq, if_neg hne, Option.or_none]

theorem nameTopic_eq (names : List TopicDirEntry) (name : Bytes) : nameTopic names name =
    (register cpp.idFor (fun names id name => names ++ [⟨id, name⟩]) cpp.hashCollision listed
      names name).1 := by
  have hid : cpp.idFor name = if fnv1a32 name = kNatPunchTopicId then .error (.reservedId name)
      else .ok (fnv1a32 name) := Naming.idFor_of_hash rfl
  unfold nameTopic Discovery.topicIdFor
  by_cases hreserved : fnv1a32 name = kNatPunchTopicId
  · rw [if_pos hreserved] at hid ⊢
    rw [register_error hid]
  · rw [if_neg hreserved] at hid ⊢
    cases hfind : names.find? (·.topicId = fnv1a32 name) with
    | none =>
      rw [register_new hid (by rw [listed, hfind, Option.map_none])]
    | some e =>
      rw [register_found hid (by rw [listed, hfind, Option.map_some])]
      by_cases hsame : e.name = name
      · simp only [ne_eq, ite_not, if_pos hsame]
      · simp only [ne_eq, ite_not, if_neg hsame]

theorem mem_iff_listed {names : List TopicDirEntry} (h : (names.map (·.topicId)).Nodup)
    (topicId : UInt32) (name : Bytes) :
    ⟨topicId, name⟩ ∈ names ↔ listed names topicId = some name := by
  unfold listed
  rw [Option.map_eq_some_iff]
  constructor
  · intro hmem
    refine ⟨⟨topicId, name⟩, ?_, rfl⟩
    cases hfind : names.find? (·.topicId = topicId) with
    | none => exact absurd (decide_eq_true rfl) (List.find?_eq_none.mp hfind _ hmem)
    | some e =>
      have hid : e.topicId = topicId := by simpa using List.find?_some hfind
      rw [List.inj_on_of_nodup_map h (List.mem_of_find?_eq_some hfind) hmem hid]
  · rintro ⟨e, hfind, rfl⟩
    have hid : e.topicId = topicId := by simpa using List.find?_some hfind
    exact hid ▸ List.mem_of_find?_eq_some hfind

theorem listed_registry (calls : List Bytes) :
    listed (registry calls) = entry (after (step topicIdFor) ∅ calls) := by
  have hids : ∀ a b, some a = some b → Alike id Eq (cpp.idFor a) (cpp.idFor b) :=
    fun a b hsame => Option.some.inj hsame ▸ alike_refl _
  have hcollision : ∀ a b a' b' id, some a = some a' → some b = some b' →
      cpp.hashCollision a b id = cpp.hashCollision a' b' id :=
    fun a b a' b' id ha hb => by rw [Option.some.inj ha, Option.some.inj hb]
  have hrun := foldl_filterMap_sim
    (fun names topics => SameNames some id (listed names) (entry topics)) some nameTopic
    (fun topics name => (step topicIdFor topics name).1) (fun names topics name name' h hname => ?_)
    (fun _ _ _ _ hnone => nomatch hnone) calls [] ∅
    (.of_none (fun _ => rfl) fun _ => ExtTreeMap.getElem?_empty)
  · rw [List.filterMap_some] at hrun
    exact hrun.eq
  · have hsim := register_sim listed_inserts inserts (fun _ _ h => h)
      (fun _ _ _ h h' => Option.some.inj (h.trans h'.symm)) hids hcollision h hname
    rw [← cpp.step_eq, ← nameTopic_eq] at hsim
    exact hsim.2

/-- What a name query lists is the registry. -/
theorem mem_registry (calls : List Bytes) (topicId : UInt32) (name : Bytes) :
    ⟨topicId, name⟩ ∈ registry calls ↔
      entry (after (step topicIdFor) ∅ calls) topicId = some name := by
  rw [mem_iff_listed (registry_named calls).ids, listed_registry]

/-! ### Whole runs -/

/-- Whatever the calls, a registry has no name under an id but its own, tells names apart by their
ids, keeps what it has accepted, and is left alone by a call that throws; and the builds agree. -/
theorem registry_injective :
    (∀ calls : List Bytes, Registers (step topicIdFor) entry
      (fun name id => fnv1a32 name = id ∧ id ≠ 0xFFFFFFFF) ∅ calls) ∧
    (∀ calls : List Py.Str, Registers (step Py.topicIdFor) entry
      (fun topic id => Py.fnv1a32 topic = .ok id ∧ id ≠ 0xFFFFFFFF) ∅ calls) ∧
    ∀ calls : List Py.Str, Agree (after (step Py.topicIdFor) ∅ calls)
      (after (step topicIdFor) ∅ (calls.filterMap Py.encodeUtf8)) := by
  refine ⟨fun calls => ?_, Py.python.registers, agree⟩
  have hcpp := cpp.registers calls
  refine ⟨fun id name hname => ?_, hcpp.ids, hcpp.stays, hcpp.unchanged⟩
  obtain ⟨hid, hne⟩ := hcpp.entries id name hname
  exact ⟨Except.ok.inj hid, hne⟩

-- The hash of `costarring` is that of `liquid`.
example :
    let costarring : Bytes := [0x63, 0x6F, 0x73, 0x74, 0x61, 0x72, 0x72, 0x69, 0x6E, 0x67]
    let liquid : Bytes := [0x6C, 0x69, 0x71, 0x75, 0x69, 0x64]
    outputs (step topicIdFor) ∅ [costarring, liquid, costarring] =
      [.ok 0x5E4DAA9D, .error (.hashCollision costarring liquid 0x5E4DAA9D), .ok 0x5E4DAA9D] ∧
    (TopicNameError.hashCollision costarring liquid 0x5E4DAA9D).what =
      utf8 ("ReLink: topic hash collision between \"costarring\" and \"liquid\" " ++
        "(both hash to 1582148253)") := by
  decide +kernel

end Relink.Discovery.Registry
