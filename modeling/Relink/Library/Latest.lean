import Mathlib.Data.List.Basic
import Mathlib.Data.List.Induction
import Mathlib.Logic.Function.Basic

/-! The latest element of a history that satisfies a test, and the first of each kind. -/
namespace History
variable {A : Type}

def latest (P : A → Bool) (history : List A) : Option A := history.reverse.find? P

theorem latest_snoc (P : A → Bool) (history : List A) (a : A) :
    latest P (history ++ [a]) = if P a then some a else latest P history := by
  rw [latest, List.reverse_append, List.reverse_singleton, List.singleton_append, List.find?_cons]
  cases P a <;> rfl

theorem latest_mem {P : A → Bool} {history : List A} {a : A} (h : latest P history = some a) :
    a ∈ history ∧ P a = true :=
  ⟨List.mem_reverse.mp (List.mem_of_find?_eq_some h), List.find?_some h⟩

theorem latest_eq_none {P : A → Bool} {history : List A} :
    latest P history = none ↔ ∀ a ∈ history, P a = false := by
  simp [latest, List.find?_eq_none]

/-- A weaker test has a latest element wherever a stronger one has. -/
theorem latest_of_imp {P Q : A → Bool} (himp : ∀ a, P a = true → Q a = true) {history : List A}
    {a : A} (h : latest P history = some a) : ∃ b, latest Q history = some b := by
  obtain ⟨hmem, hP⟩ := latest_mem h
  refine Option.ne_none_iff_exists'.mp fun hnone => ?_
  have := latest_eq_none.mp hnone a hmem
  rw [himp a hP] at this
  cases this

/-! ### The first of each kind -/

variable {K : Type} [DecidableEq K] (kind : A → K)

/-- A log takes an element of a kind that it has none of. -/
def enter (log : List A) (a : A) : List A :=
  if kind a ∈ log.map kind then log else log ++ [a]

def firsts (history : List A) : List A := history.foldl (enter kind) []

variable {history : List A}

theorem firsts_snoc (history : List A) (a : A) :
    firsts kind (history ++ [a]) = enter kind (firsts kind history) a := by
  rw [firsts, List.foldl_append]
  rfl

theorem firsts_nodup (history : List A) : ((firsts kind history).map kind).Nodup := by
  induction history using List.reverseRecOn with
  | nil => exact List.nodup_nil
  | append_singleton history a ih =>
    rw [firsts_snoc, enter]
    split
    · exact ih
    · next hnew =>
      rw [List.map_append, List.nodup_append]
      refine ⟨ih, by simp, fun k hk k' hk' heq => ?_⟩
      rw [List.map_singleton, List.mem_singleton] at hk'
      exact hnew (hk' ▸ heq ▸ hk)

theorem mem_kinds {k : K} :
    k ∈ (firsts kind history).map kind ↔ ∃ a ∈ history, kind a = k := by
  induction history using List.reverseRecOn with
  | nil => simp [firsts]
  | append_singleton history a ih =>
    have hentered : k ∈ (firsts kind (history ++ [a])).map kind ↔
        k ∈ (firsts kind history).map kind ∨ kind a = k := by
      rw [firsts_snoc, enter]
      split
      · next hold =>
        refine ⟨.inl, fun h => ?_⟩
        rcases h with h | rfl
        · exact h
        · exact hold
      · simp [eq_comm]
    rw [hentered, ih]
    simp [or_and_right, exists_or]

/-- An element of the log is the first of its kind. -/
theorem mem_firsts {a : A} :
    a ∈ firsts kind history ↔ history.find? (fun b => kind b = kind a) = some a := by
  induction history using List.reverseRecOn with
  | nil => simp [firsts]
  | append_singleton history b ih =>
    rw [firsts_snoc, enter, List.find?_append]
    by_cases hkind : kind b = kind a
    · split
      · next hold =>
        -- what is already there of the kind comes first
        obtain ⟨c, hc, hcb⟩ := (mem_kinds kind).mp hold
        have hsome : (history.find? fun b => kind b = kind a).isSome := by
          rw [List.find?_isSome]
          exact ⟨c, hc, by simpa using hcb.trans hkind⟩
        rw [ih, Option.or_of_isSome hsome]
      · next hnew =>
        have hnone : history.find? (fun b => kind b = kind a) = none := by
          rw [List.find?_eq_none]
          intro c hc hca
          have hcb : kind c = kind b := (of_decide_eq_true hca).trans hkind.symm
          exact hnew ((mem_kinds kind).mpr ⟨c, hc, hcb⟩)
        rw [List.mem_append, ih, hnone]
        simp [hkind, eq_comm]
    · have hne : a ≠ b := fun h => hkind (h ▸ rfl)
      have hnone : [b].find? (fun c => kind c = kind a) = none := by simp [hkind]
      rw [hnone, Option.or_none, ← ih]
      split
      · rfl
      · simp [hne]

/-! ### Values

An element that is of a kind may have a value. -/

section
variable {V : Type} (kind : A → Option K) (value : A → Option V)

def firstValue (history : List A) (k : K) : Option V :=
  (history.find? fun a => kind a = some k).bind value

def latestValue (history : List A) (k : K) : Option V :=
  (latest (fun a => kind a = some k) history).bind value

/-- The first of each kind have the values that the latest have. -/
def SameValues (history : List A) : Prop :=
  ∀ v, (∃ k, firstValue kind value history k = some v) ↔
    ∃ k, latestValue kind value history k = some v

theorem update_range_of_none {P V : Type} [DecidableEq P] {f : P → Option V} {p : P}
    (hp : f p = none) (x : Option V) (v : V) :
    (∃ q, Function.update f p x q = some v) ↔ x = some v ∨ ∃ q, f q = some v := by
  constructor
  · rintro ⟨q, hq⟩
    by_cases heq : q = p
    · rw [heq, Function.update_self] at hq
      exact .inl hq
    · exact .inr ⟨q, by rwa [Function.update_of_ne heq] at hq⟩
  · rintro (hx | ⟨q, hq⟩)
    · exact ⟨p, by rw [Function.update_self, hx]⟩
    · have hne : q ≠ p := fun heq => by simp [heq, hp] at hq
      exact ⟨q, by rwa [Function.update_of_ne hne]⟩

/-- What the new value of one kind leaves of the values of all. -/
theorem update_range_iff {P V : Type} [DecidableEq P] (f : P → Option V) (p : P) (x : Option V) :
    (∀ v, (∃ q, f q = some v) ↔ ∃ q, Function.update f p x q = some v) ↔
      x = f p ∨ ∀ v, x = some v ∨ f p = some v → ∃ q, q ≠ p ∧ f q = some v := by
  constructor
  · intro h
    rw [or_iff_not_imp_left]
    rintro hne v (hx | hp)
    · obtain ⟨q, hq⟩ := (h v).mpr ⟨p, by rw [Function.update_self, hx]⟩
      exact ⟨q, fun heq => hne (hx.trans (heq ▸ hq).symm), hq⟩
    · obtain ⟨q, hq⟩ := (h v).mp ⟨p, hp⟩
      by_cases heq : q = p
      · rw [heq, Function.update_self] at hq
        exact absurd (hq.trans hp.symm) hne
      · exact ⟨q, heq, by rwa [Function.update_of_ne heq] at hq⟩
  · rintro (rfl | h) v
    · rw [Function.update_eq_self]
    · constructor
      · rintro ⟨q, hq⟩
        by_cases heq : q = p
        · obtain ⟨q', hne, hq'⟩ := h v (.inr (heq ▸ hq))
          exact ⟨q', by rwa [Function.update_of_ne hne]⟩
        · exact ⟨q, by rwa [Function.update_of_ne heq]⟩
      · rintro ⟨q, hq⟩
        by_cases heq : q = p
        · rw [heq, Function.update_self] at hq
          obtain ⟨q', -, hq'⟩ := h v (.inl hq)
          exact ⟨q', hq'⟩
        · exact ⟨q, by rwa [Function.update_of_ne heq] at hq⟩

theorem latestValue_snoc (history : List A) {a : A} {k : K} (hkind : kind a = some k) :
    latestValue kind value (history ++ [a]) =
      Function.update (latestValue kind value history) k (value a) := by
  funext k'
  rw [latestValue, latest_snoc]
  by_cases hk : k' = k
  · rw [hk, Function.update_self, if_pos (decide_eq_true hkind)]
    rfl
  · rw [Function.update_of_ne hk, if_neg]
    · rfl
    · rw [hkind]
      simpa [eq_comm] using hk

/-- Another element changes no value if it is of no kind. -/
theorem latestValue_snoc_none (history : List A) {a : A} (hkind : kind a = none) :
    latestValue kind value (history ++ [a]) = latestValue kind value history := by
  funext k
  rw [latestValue, latest_snoc, if_neg (by simp [hkind])]
  rfl

/-- An element changes the first value of its kind, if there was none of the kind. -/
theorem firstValue_snoc (history : List A) (a : A) (k : K) :
    firstValue kind value (history ++ [a]) k =
      if kind a = some k ∧ latest (fun a => kind a = some k) history = none then value a
      else firstValue kind value history k := by
  have hnone : latest (fun a => kind a = some k) history = none ↔
      history.find? (fun a => kind a = some k) = none := by
    rw [latest_eq_none, List.find?_eq_none]
    simp
  simp only [firstValue, List.find?_append, hnone]
  cases history.find? (fun a => kind a = some k) with
  | some b => simp
  | none =>
    by_cases hkind : kind a = some k
    · simp [hkind]
    · simp [hkind]

/-- The first element of a kind sets its first value. -/
theorem firstValue_snoc_new {history : List A} {a : A} {k : K} (hkind : kind a = some k)
    (hnew : latest (fun a => kind a = some k) history = none) :
    firstValue kind value (history ++ [a]) =
      Function.update (firstValue kind value history) k (value a) := by
  funext k'
  rw [firstValue_snoc, hkind]
  by_cases hk : k' = k
  · rw [hk, Function.update_self, if_pos ⟨rfl, hnew⟩]
  · rw [Function.update_of_ne hk, if_neg fun h => hk (Option.some.inj h.1).symm]

/-- A later element of a kind changes no first value. -/
theorem firstValue_snoc_old {history : List A} {a old : A} {k : K} (hkind : kind a = some k)
    (hold : latest (fun a => kind a = some k) history = some old) :
    firstValue kind value (history ++ [a]) = firstValue kind value history := by
  funext k'
  rw [firstValue_snoc, if_neg]
  rintro ⟨hk, hnone⟩
  rw [← hk, hkind, hold] at hnone
  cases hnone

/-- What no element is of has no first value. -/
theorem firstValue_eq_none {history : List A} {k : K}
    (hnone : latest (fun a => kind a = some k) history = none) :
    firstValue kind value history k = none := by
  have hfind : history.find? (fun a => kind a = some k) = none := by
    rw [List.find?_eq_none]
    simpa using latest_eq_none.mp hnone
  rw [firstValue, hfind]
  rfl

/-- An element keeps the values the same if it is the first of its kind, if it has the value of the
latest of its kind, or if both values are those of other kinds too. -/
theorem sameValues_snoc {history : List A} (h : SameValues kind value history) (a : A) :
    SameValues kind value (history ++ [a]) ↔
      ∀ k, kind a = some k → ∀ old, latest (fun a => kind a = some k) history = some old →
        value a = value old ∨ ∀ v, value a = some v ∨ value old = some v →
          ∃ k', k' ≠ k ∧ latestValue kind value history k' = some v := by
  cases hkind : kind a with
  | none =>
    refine iff_of_true (fun v => ?_) fun k hk => by cases hk
    rw [latestValue_snoc_none kind value history hkind, ← h v]
    simp only [firstValue_snoc, hkind, reduceCtorEq, false_and, if_false]
  | some k =>
    simp only [SameValues, Option.some.injEq, forall_eq']
    rw [latestValue_snoc kind value history hkind]
    cases hlatest : latest (fun a => kind a = some k) history with
    | none =>
      -- both histories have no value of the kind, and get the same
      have hnone : latestValue kind value history k = none := by
        rw [latestValue, hlatest]
        rfl
      refine iff_of_true (fun v => ?_) fun old hold => by cases hold
      rw [firstValue_snoc_new kind value hkind hlatest,
        update_range_of_none (firstValue_eq_none kind value hlatest), update_range_of_none hnone, h v]
    | some old =>
      have hold : latestValue kind value history k = value old := by
        rw [latestValue, hlatest]
        rfl
      simp only [firstValue_snoc_old kind value hkind hlatest, Option.some.injEq, forall_eq']
      rw [← hold, ← update_range_iff]
      exact forall_congr' fun v => by rw [h v]

end
end History
