import Mathlib.Data.List.DropRight
import Mathlib.Data.List.TakeWhile

/-! Cutting text into tokens.

A greedy match of a kind of characters is `takeWhile` and `dropWhile`. Where what follows a token
does not start with another character of its kind, the cut is the only one, so that a text put
together from such pieces is taken apart into the same pieces. -/
namespace Token
variable {α : Type} {p : α → Bool} {l w rest : List α}

/-- Does not start with a character of the kind. -/
def Stops (p : α → Bool) (l : List α) : Prop := ∀ a ∈ l.head?, p a = false

theorem stops_nil (p : α → Bool) : Stops p [] := fun _ h => nomatch h

theorem stops_cons {a : α} : Stops p (a :: l) ↔ p a = false := by
  refine ⟨fun h => h a rfl, fun h b hb => ?_⟩
  cases hb
  exact h

/-- Of two kinds that exclude each other, what is of the one is not of the other. -/
theorem stops_of_all {q : α → Bool} (hl : ∀ a ∈ l, q a) (hpq : ∀ a, q a → p a = false) :
    Stops p l := fun a ha => hpq a (hl a (List.mem_of_head? ha))

theorem stops_append (hne : w ≠ []) (rest : List α) : Stops p (w ++ rest) ↔ Stops p w := by
  cases w with
  | nil => exact absurd rfl hne
  | cons a w => exact stops_cons.trans stops_cons.symm

/-- **A greedy match**, and what it leaves. -/
theorem cut_iff : l.takeWhile p = w ∧ l.dropWhile p = rest ↔
    l = w ++ rest ∧ (∀ a ∈ w, p a) ∧ Stops p rest := by
  constructor
  · rintro ⟨rfl, rfl⟩
    refine ⟨(List.takeWhile_append_dropWhile).symm, fun a ha => List.mem_takeWhile_imp ha, ?_⟩
    induction l with
    | nil => exact stops_nil p
    | cons a l ih =>
      cases ha : p a with
      | true =>
        rw [List.dropWhile_cons_of_pos ha]
        exact ih
      | false =>
        rw [List.dropWhile_cons_of_neg (by rw [ha]; decide)]
        exact stops_cons.mpr ha
  · rintro ⟨rfl, hw, hrest⟩
    rw [List.takeWhile_append_of_pos hw, List.dropWhile_append_of_pos hw]
    cases rest with
    | nil => exact ⟨List.append_nil w, rfl⟩
    | cons a rest =>
      have ha : ¬p a = true := by
        rw [stops_cons.mp hrest]
        decide
      rw [List.takeWhile_cons_of_neg ha, List.dropWhile_cons_of_neg ha]
      exact ⟨List.append_nil w, rfl⟩

/-! ### Margins -/

/-- Without the characters of a kind at both ends. -/
def strip (p : α → Bool) (l : List α) : List α := (l.dropWhile p).rdropWhile p

theorem strip_eq_nil_iff : strip p l = [] ↔ ∀ a ∈ l, p a := by
  rw [strip, List.rdropWhile_eq_nil_iff]
  refine ⟨fun h a ha => ?_, fun h a ha => h a ((List.dropWhile_suffix p).mem ha)⟩
  rw [← List.takeWhile_append_dropWhile (p := p) (l := l)] at ha
  rcases List.mem_append.mp ha with ha | ha
  · exact List.mem_takeWhile_imp ha
  · exact h a ha

theorem rdropWhile_iff : l.rdropWhile p = w ↔
    ∃ trail, l = w ++ trail ∧ (∀ a ∈ trail, p a) ∧ Stops p w.reverse := by
  constructor
  · intro h
    have hcut := (cut_iff (p := p) (l := l.reverse)).mp ⟨rfl, rfl⟩
    obtain ⟨hl, htrail, hstops⟩ := hcut
    refine ⟨(l.reverse.takeWhile p).reverse, ?_, fun a ha => htrail a (List.mem_reverse.mp ha), ?_⟩
    · rw [← h, List.rdropWhile, ← List.reverse_append, ← hl, List.reverse_reverse]
    · rw [← h, List.rdropWhile, List.reverse_reverse]
      exact hstops
  · rintro ⟨trail, rfl, htrail, hstops⟩
    have hcut := cut_iff.mpr ⟨List.reverse_append, fun a ha => htrail a (List.mem_reverse.mp ha), hstops⟩
    rw [List.rdropWhile, hcut.2, List.reverse_reverse]

/-- What is left of a text is what stands between its margins. -/
theorem strip_iff (hne : w ≠ []) : strip p l = w ↔ ∃ lead trail, l = lead ++ (w ++ trail) ∧
    (∀ a ∈ lead, p a) ∧ (∀ a ∈ trail, p a) ∧ Stops p w ∧ Stops p w.reverse := by
  rw [strip, rdropWhile_iff]
  constructor
  · rintro ⟨trail, hdrop, htrail, hlast⟩
    obtain ⟨hl, hlead, hstops⟩ := cut_iff.mp ⟨rfl, hdrop⟩
    exact ⟨l.takeWhile p, trail, hl, hlead, htrail, (stops_append hne trail).mp hstops, hlast⟩
  · rintro ⟨lead, trail, rfl, hlead, htrail, hfirst, hlast⟩
    have hcut := cut_iff.mpr ⟨rfl, hlead, (stops_append hne trail).mpr hfirst⟩
    exact ⟨trail, hcut.2, htrail, hlast⟩

end Token
