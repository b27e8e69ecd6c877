import Std.Data.ExtTreeMap
import Mathlib.Data.List.Induction
import Mathlib.Data.List.Nodup
import Relink.Library.Latest
import Relink.Library.Run

/-! Loops that sweep a map.

A sweep goes once over the entries of a map and changes a state, each turn only what belongs to
its own key. What it leaves at a key is then said of the key's own turn, and a sweep over the
entries is one over the keys that looks the values up. -/
namespace Sweep
open Std (ExtTreeMap)

variable {α β : Type} [Ord α] [Std.TransOrd α] [Std.LawfulEqOrd α]

theorem keys_distinct (m : ExtTreeMap α β) : m.toList.Pairwise fun a b => a.1 ≠ b.1 :=
  ExtTreeMap.distinct_keys_toList.imp fun h heq => h (Std.compare_eq_iff_eq.mpr heq)

theorem getD_of_mem {m : ExtTreeMap α β} {entry : α × β} (h : entry ∈ m.toList) (dflt : β) :
    m.getD entry.1 dflt = entry.2 := by
  rw [ExtTreeMap.getD_eq_getD_getElem?, ExtTreeMap.mem_toList_iff_getElem?_eq_some.mp h,
    Option.getD_some]

/-! ### What a sweep leaves -/

section
variable {S V : Type} (view : α → S → V) (R : α × β → V → V → Prop) (step : S → α × β → S)

/-- At a key of the map, what the key's turn does. -/
theorem foldl_some (hhere : ∀ s e, R e (view e.1 s) (view e.1 (step s e)))
    (helse : ∀ s e k, k ≠ e.1 → view k (step s e) = view k s) {m : ExtTreeMap α β} {k : α} {v : β}
    (h : m[k]? = some v) (s : S) : R (k, v) (view k s) (view k (m.toList.foldl step s)) :=
  (Transition.foldl_local Prod.fst view R step hhere helse m.toList (keys_distinct m) s).1 (k, v)
    (ExtTreeMap.mem_toList_iff_getElem?_eq_some.mpr h)

/-- At any other, nothing. -/
theorem foldl_none (helse : ∀ s e k, k ≠ e.1 → view k (step s e) = view k s)
    {m : ExtTreeMap α β} {k : α} (h : m[k]? = none) (s : S) :
    view k (m.toList.foldl step s) = view k s := by
  refine Transition.foldl_invariant (fun t => view k t = view k s) (fun e => k ≠ e.1) step
    (fun t e ht hk => (helse t e k hk).trans ht) m.toList s rfl fun e he heq => ?_
  rw [heq, ExtTreeMap.mem_toList_iff_getElem?_eq_some.mp he] at h
  cases h

/-- The values may be looked up as the loop comes to them. -/
theorem foldl_keys (step' : S → α → S) (helse : ∀ s e k, k ≠ e.1 → view k (step s e) = view k s)
    (m : ExtTreeMap α β) (s : S)
    (hsame : ∀ t, ∀ e ∈ m.toList, view e.1 t = view e.1 s → step t e = step' t e.1) :
    m.toList.foldl step s = m.keys.foldl step' s := by
  rw [← ExtTreeMap.map_fst_toList_eq_keys, List.foldl_map]
  exact Transition.foldl_congr_local Prod.fst view step _ helse m.toList (keys_distinct m) s hsame

end

/-! ### Entries that are past their term -/

/-- A sweep that erases, from this map or from another, the keys whose values here are due. -/
theorem getElem?_eraseDue {γ : Type} (due : β → Prop) [DecidablePred due] (m : ExtTreeMap α β)
    (target : ExtTreeMap α γ) (k : α) :
    (m.toList.foldl (fun t e => if due e.2 then t.erase e.1 else t) target)[k]? =
      if m[k]?.any (decide <| due ·) then none else target[k]? := by
  let step := fun (t : ExtTreeMap α γ) (e : α × β) => if due e.2 then t.erase e.1 else t
  have helse : ∀ t e (q : α), q ≠ e.1 → (step t e)[q]? = t[q]? := by
    intro t e q hq
    simp only [step]
    split
    · rw [ExtTreeMap.getElem?_erase, if_neg (by rw [Std.compare_eq_iff_eq]; exact Ne.symm hq)]
    · rfl
  have hhere : ∀ t e, (step t e)[e.1]? = if due e.2 then none else t[e.1]? := by
    intro t e
    simp only [step]
    split <;> simp
  cases hget : m[k]? with
  | some v =>
    exact foldl_some (fun q (t : ExtTreeMap α γ) => t[q]?)
      (fun e v v' => v' = if decide (due e.2) then none else v) step
      (fun t e => (hhere t e).trans (if_congr decide_eq_true_iff.symm rfl rfl)) helse hget target
  | none => exact foldl_none (fun q (t : ExtTreeMap α γ) => t[q]?) step helse hget target

/-- What a sweep of a map's own entries leaves. -/
theorem getElem?_keepFresh (due : β → Prop) [DecidablePred due] (m : ExtTreeMap α β) (k : α) :
    (m.toList.foldl (fun t e => if due e.2 then t.erase e.1 else t) m)[k]? =
      m[k]?.filter fun v => !decide (due v) := by
  rw [getElem?_eraseDue]
  cases m[k]? with
  | none => rfl
  | some v =>
    rw [Option.any_some, Option.filter_some]
    by_cases hdue : due v <;> simp [hdue]

/-! ### A map filled from a list -/

section
variable {γ : Type} [DecidableEq α] (key : γ → α) (value : γ → β)

/-- At a key, the last item with that key. -/
theorem getElem?_insertAll (items : List γ) (k : α) :
    (items.foldl (fun (m : ExtTreeMap α β) e => m.insert (key e) (value e)) ∅)[k]? =
      (History.latest (fun e => key e = k) items).map value := by
  induction items using List.reverseRecOn with
  | nil => exact ExtTreeMap.getElem?_empty
  | append_singleton items e ih =>
    rw [List.foldl_append, List.foldl_cons, List.foldl_nil, ExtTreeMap.getElem?_insert, ih,
      History.latest_snoc]
    by_cases he : key e = k
    · rw [if_pos (Std.compare_eq_iff_eq.mpr he), if_pos (decide_eq_true he), Option.map_some]
    · rw [if_neg (by rwa [Std.compare_eq_iff_eq]), if_neg (by simpa using he)]

/-- With distinct keys, the items themselves. -/
theorem insertAll_iff {items : List γ} (hnodup : (items.map key).Nodup) (k : α) (v : β) :
    (items.foldl (fun (m : ExtTreeMap α β) e => m.insert (key e) (value e)) ∅)[k]? = some v ↔
      ∃ e ∈ items, key e = k ∧ value e = v := by
  rw [getElem?_insertAll, Option.map_eq_some_iff]
  constructor
  · rintro ⟨e, he, hv⟩
    obtain ⟨hmem, hkey⟩ := History.latest_mem he
    exact ⟨e, hmem, of_decide_eq_true hkey, hv⟩
  · rintro ⟨e, hmem, hkey, hv⟩
    obtain ⟨e', he'⟩ : ∃ e', History.latest (fun e => decide (key e = k)) items = some e' := by
      refine Option.ne_none_iff_exists'.mp fun hnone => ?_
      have := History.latest_eq_none.mp hnone e hmem
      exact absurd hkey (of_decide_eq_false this)
    obtain ⟨hmem', hkey'⟩ := History.latest_mem he'
    have heq : e' = e :=
      List.inj_on_of_nodup_map hnodup hmem' hmem ((of_decide_eq_true hkey').trans hkey.symm)
    exact ⟨e', he', heq ▸ hv⟩

end

/-! ### Groups that go when they are empty -/

variable (m : ExtTreeMap α β) {k t : α} {kept dflt : β} {empty : Bool}

omit [Std.LawfulEqOrd α] in
theorem getD_eraseOrInsert_self (k : α) (hempty : empty = true → kept = dflt) :
    (if empty then m.erase k else m.insert k kept).getD k dflt = kept := by
  cases empty with
  | true => rw [if_pos rfl, ExtTreeMap.getD_erase_self, hempty rfl]
  | false => rw [if_neg Bool.false_ne_true, ExtTreeMap.getD_insert_self]

theorem getD_eraseOrInsert_of_ne (h : t ≠ k) :
    (if empty then m.erase k else m.insert k kept).getD t dflt = m.getD t dflt := by
  have hne : ¬ compare k t = .eq := by
    rw [Std.compare_eq_iff_eq]
    exact Ne.symm h
  split
  · rw [ExtTreeMap.getD_erase, if_neg hne]
  · rw [ExtTreeMap.getD_insert, if_neg hne]

omit [Std.LawfulEqOrd α] in
theorem getElem?_eraseOrInsert_self (k : α) :
    (if empty then m.erase k else m.insert k kept)[k]? = if empty then none else some kept := by
  cases empty with
  | true => rw [if_pos rfl, if_pos rfl, ExtTreeMap.getElem?_erase_self]
  | false =>
    rw [if_neg Bool.false_ne_true, if_neg Bool.false_ne_true, ExtTreeMap.getElem?_insert_self]

theorem getElem?_eraseOrInsert_of_ne (h : t ≠ k) :
    (if empty then m.erase k else m.insert k kept)[t]? = m[t]? := by
  have hne : ¬ compare k t = .eq := by
    rw [Std.compare_eq_iff_eq]
    exact Ne.symm h
  split
  · rw [ExtTreeMap.getElem?_erase, if_neg hne]
  · rw [ExtTreeMap.getElem?_insert, if_neg hne]

end Sweep
