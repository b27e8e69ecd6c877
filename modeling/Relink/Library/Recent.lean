import Mathlib.Data.List.DropRight
import Mathlib.Data.ZMod.Defs
import Relink.Library.Ring
import Relink.Library.Run

/-! A circular buffer as the memory of a sequence.

The buffer has `n` slots, and a cursor at the one to write next. After every element of a
sequence was written in turn, it holds the sequence's last `n`, each at its own index
modulo `n`. -/
namespace Recent
variable {α : Type} {n : Nat} [NeZero n]

structure Remembers (slot : Fin n → Option α) (next : Fin n) (l : List α) : Prop where
  cursor : next = Fin.ofNat n l.length
  recent : ∀ j (h : j < l.length), l.length ≤ j + n → slot (Fin.ofNat n j) = some l[j]
  fresh : ∀ i : Fin n, l.length ≤ i.val → slot i = none

theorem remembers_nil : Remembers (fun _ : Fin n => (none : Option α)) 0 [] where
  cursor := by
    apply Fin.ext
    simp
  recent j h := absurd h (Nat.not_lt_zero j)
  fresh i _ := rfl

theorem Remembers.push {slot slot' : Fin n → Option α} {next : Fin n} {l : List α}
    (h : Remembers slot next l) {x : α} (hhere : slot' next = some x)
    (helse : ∀ i, i ≠ next → slot' i = slot i) : Remembers slot' (next + 1) (l ++ [x]) where
  cursor := by
    rw [h.cursor, List.length_append, List.length_singleton]
    apply Fin.ext
    simp [Fin.val_add, Nat.add_mod]
  recent j hj hlast := by
    rw [List.length_append, List.length_singleton] at hj hlast
    by_cases hnew : j = l.length
    · subst hnew
      rw [← h.cursor, hhere]
      simp
    · have hlt : j < l.length := by omega
      have hne : Fin.ofNat n j ≠ next := by
        rw [h.cursor]
        exact fun heq => Ring.slot_ne hlt (by omega) (congrArg Fin.val heq)
      rw [helse _ hne, h.recent j hlt (by omega), List.getElem_append_left hlt]
  fresh i hi := by
    rw [List.length_append, List.length_singleton] at hi
    have hne : i ≠ next := by
      intro heq
      have hval := congrArg Fin.val (heq.trans h.cursor)
      have : l.length % n ≤ l.length := Nat.mod_le ..
      simp only [Fin.val_ofNat] at hval
      omega
    rw [helse i hne]
    exact h.fresh i (by omega)

/-- A scan of all slots finds the last `n` elements and nothing else. -/
theorem Remembers.mem_iff {slot : Fin n → Option α} {next : Fin n} {l : List α}
    (h : Remembers slot next l) (x : α) : (∃ i, slot i = some x) ↔ x ∈ l.rtake n := by
  rw [List.rtake, List.mem_drop_iff_getElem]
  constructor
  · intro ⟨i, hi⟩
    have hlt : i.val < l.length := by
      by_contra hge
      rw [h.fresh i (by omega)] at hi
      cases hi
    -- the last index that falls into this slot
    have hrest : (l.length - 1 - i.val) % n < n := Nat.mod_lt _ (Nat.pos_of_neZero n)
    have hdiv := Nat.div_add_mod (l.length - 1 - i.val) n
    have hidx : l.length - 1 - (l.length - 1 - i.val) % n =
        i.val + n * ((l.length - 1 - i.val) / n) := by omega
    have hslot : Fin.ofNat n (l.length - 1 - (l.length - 1 - i.val) % n) = i := by
      apply Fin.ext
      rw [Fin.val_ofNat, hidx, Nat.add_mul_mod_self_left, Nat.mod_eq_of_lt i.isLt]
    have hrecent := h.recent (l.length - 1 - (l.length - 1 - i.val) % n) (by omega) (by omega)
    rw [hslot, hi, Option.some.injEq] at hrecent
    refine ⟨l.length - 1 - (l.length - 1 - i.val) % n - (l.length - n), by omega, ?_⟩
    rw [hrecent]
    congr 1
    omega
  · intro ⟨j, hj, hx⟩
    exact ⟨_, hx ▸ h.recent (l.length - n + j) (by omega) (by omega)⟩

/-! ### A bounded queue -/

/-- Appending to a queue of at most `n`, where the oldest makes room. -/
def append (n : Nat) (queue : List α) (x : α) : List α :=
  if n < (queue ++ [x]).length then (queue ++ [x]).tail else queue ++ [x]

omit [NeZero n] in
/-- A bounded queue holds the last elements of what was appended to it. -/
theorem append_rtake (l : List α) (x : α) : append n (l.rtake n) x = (l ++ [x]).rtake n := by
  have hlen : (l.rtake n ++ [x]).length = min n l.length + 1 := by
    rw [List.rtake, List.length_append, List.length_drop, List.length_singleton]
    omega
  have hsnoc : (l ++ [x]).rtake n = (l ++ [x]).drop (l.length + 1 - n) := by
    rw [List.rtake, List.length_append, List.length_singleton]
  have hqueue : l.rtake n ++ [x] = (l ++ [x]).drop (l.length - n) := by
    rw [List.rtake, List.drop_append_of_le_length (by omega)]
  rw [append, hlen, hqueue, hsnoc]
  split
  · rw [List.tail_drop]
    congr 1
    omega
  · congr 1
    omega

/-! ### Repetitions -/

section Keyed
variable {K : Type} [DecidableEq K] [DecidableEq α] (n : Nat)

/-- What was kept under each key, and an element that comes: it is dropped as a repetition if
it is among the last `n` kept under its key, and kept otherwise. The answer says which. -/
def offer (kept : K → List α) (c : K × α) : (K → List α) × Bool :=
  if c.2 ∈ (kept c.1).rtake n then (kept, true)
  else (Function.update kept c.1 (kept c.1 ++ [c.2]), false)

/-- What the elements of a sequence leave behind. -/
def offers (kept : K → List α) (cs : List (K × α)) : K → List α :=
  cs.foldl (fun kept c => (offer n kept c).1) kept

/-- The elements under a key that were answered with false, oldest first. -/
def keptOf (key : K) (cs : List (K × α)) (answers : List Bool) : List α :=
  ((cs.zip answers).filter fun c => c.1.1 = key ∧ c.2 = false).map fun c => c.1.2

theorem offer_iff (kept : K → List α) (c : K × α) :
    (offer n kept c).2 = true ↔ c.2 ∈ (kept c.1).rtake n := by
  unfold offer
  split
  · next h => exact iff_of_true rfl h
  · next h => exact iff_of_false Bool.false_ne_true h

theorem offer_here (kept : K → List α) (c : K × α) :
    (offer n kept c).1 c.1 = kept c.1 ++ if (offer n kept c).2 then [] else [c.2] := by
  unfold offer
  split
  · simp
  · simp

theorem offer_else (kept : K → List α) (c : K × α) {key : K} (h : key ≠ c.1) :
    (offer n kept c).1 key = kept key := by
  unfold offer
  split
  · rfl
  · exact Function.update_of_ne h ..

/-- What is kept is what was answered with false. -/
theorem offers_eq (kept : K → List α) (cs : List (K × α)) (key : K) :
    offers n kept cs key = kept key ++ keptOf key cs (Transition.outputs (offer n) kept cs) := by
  induction cs generalizing kept with
  | nil => exact (List.append_nil _).symm
  | cons c rest ih =>
    rw [offers, List.foldl_cons, ← offers, ih, Transition.outputs, keptOf, keptOf, List.zip_cons_cons]
    by_cases hkey : c.1 = key
    · subst hkey
      rw [offer_here, List.append_assoc]
      cases (offer n kept c).2 <;> simp
    · rw [offer_else n kept c (Ne.symm hkey), List.filter_cons_of_neg (by simp [hkey])]

/-- What is kept under a key depends on the elements under that key only. -/
theorem offers_filter {kept kept' : K → List α} {key : K} (h : kept key = kept' key)
    (cs : List (K × α)) :
    offers n kept cs key = offers n kept' (cs.filter fun c => c.1 = key) key := by
  induction cs generalizing kept kept' with
  | nil => exact h
  | cons c rest ih =>
    by_cases hkey : c.1 = key
    · have hsame : (offer n kept c).1 key = (offer n kept' c).1 key := by
        subst hkey
        unfold offer
        rw [h]
        split <;> simp [h]
      rw [List.filter_cons_of_pos (by simp [hkey])]
      exact ih hsame
    · rw [List.filter_cons_of_neg (by simp [hkey])]
      exact ih ((offer_else n kept c (Ne.symm hkey)).trans h)

end Keyed

/-! ### What is left of a sequence -/

section Thinned
variable {β : Type} [DecidableEq α] (n : Nat) (key : β → α)

/-- The elements of a sequence whose key is not among the last `n` that were kept. -/
def thin : List α → List β → List β
  | _, [] => []
  | kept, b :: rest =>
    if key b ∈ kept.rtake n then thin kept rest else b :: thin (kept ++ [key b]) rest

theorem thin_snoc (kept : List α) (l : List β) (b : β) :
    thin n key kept (l ++ [b]) = thin n key kept l ++
      if key b ∈ (kept ++ (thin n key kept l).map key).rtake n then [] else [b] := by
  induction l generalizing kept with
  | nil =>
    simp only [List.nil_append, thin, List.map_nil, List.append_nil]
  | cons first rest ih =>
    rw [List.cons_append, thin, thin]
    split
    · exact ih kept
    · rw [ih, List.map_cons, List.append_assoc, List.singleton_append, List.cons_append]

theorem thin_sublist (kept : List α) (l : List β) : (thin n key kept l).Sublist l := by
  induction l generalizing kept with
  | nil => exact List.Sublist.refl _
  | cons b rest ih =>
    rw [thin]
    split
    · exact (ih kept).cons b
    · exact (ih _).cons_cons b

/-- What stands beside the keys makes no difference. -/
theorem thin_map {γ : Type} (f : γ → β) (kept : List α) (l : List γ) :
    thin n key kept (l.map f) = (thin n (fun c => key (f c)) kept l).map f := by
  induction l generalizing kept with
  | nil => rfl
  | cons c rest ih =>
    rw [List.map_cons, thin, thin]
    split
    · exact ih kept
    · rw [ih, List.map_cons]

/-- Where no key comes twice nothing is dropped. -/
theorem thin_eq_self {kept : List α} {l : List β} (h : (kept ++ l.map key).Nodup) :
    thin n key kept l = l := by
  induction l generalizing kept with
  | nil => rfl
  | cons b rest ih =>
    rw [List.map_cons] at h
    have hfresh : key b ∉ kept.rtake n := fun hmem =>
      (List.nodup_append.mp h).2.2 _ (List.mem_of_mem_drop hmem) _ List.mem_cons_self rfl
    rw [thin, if_neg hfresh, ih (by rwa [List.append_assoc, List.singleton_append])]

end Thinned

end Recent
