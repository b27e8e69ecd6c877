import Mathlib.Logic.Function.Basic
import Relink.Library.Run

/-! Names under ids that are computed from them.

A table holds a name under the id that it has, and a name that has none, or finds another one under
its id, is refused. So a table never tells two names apart wrongly, and what it has accepted it
keeps. `Registers` says what this means for a run of a machine, and `registers_of_refines` that it
holds of every machine that does with its table what `call` does. -/
namespace Intern
open Transition

section
variable {N I : Type} [DecidableEq N] [DecidableEq I] (idOf : N → Option I)

/-- The table after a call, and the id it returns. -/
def call (table : I → Option N) (name : N) : (I → Option N) × Option I :=
  match idOf name with
  | none => (table, none)
  | some id => match table id with
    | none => (Function.update table id (some name), some id)
    | some other => (table, if other = name then some id else none)

/-- Every name is under its id. -/
def Sound (table : I → Option N) : Prop := ∀ id name, table id = some name → idOf name = some id

variable {idOf} {table : I → Option N} {name : N} {id : I}

/-- A call is refused, enters a name, or finds one. -/
theorem call_cases (idOf : N → Option I) (table : I → Option N) (name : N) :
    (idOf name = none ∧ call idOf table name = (table, none)) ∨
    (∃ id, idOf name = some id ∧ table id = none ∧
      call idOf table name = (Function.update table id (some name), some id)) ∨
    ∃ id other, idOf name = some id ∧ table id = some other ∧
      call idOf table name = (table, if other = name then some id else none) := by
  cases hid : idOf name with
  | none => exact .inl ⟨rfl, by simp only [call, hid]⟩
  | some id =>
    cases hentry : table id with
    | none => exact .inr (.inl ⟨id, rfl, hentry, by simp only [call, hid, hentry]⟩)
    | some other => exact .inr (.inr ⟨id, other, rfl, hentry, by simp only [call, hid, hentry]⟩)

/-- A name gets its id where no other has it. -/
theorem call_eq_some : (call idOf table name).2 = some id ↔
    idOf name = some id ∧ (table id = none ∨ table id = some name) := by
  obtain ⟨hid, hcall⟩ | ⟨own, hid, hentry, hcall⟩ | ⟨own, other, hid, hentry, hcall⟩ :=
    call_cases idOf table name <;> rw [hcall, hid]
  · exact iff_of_false nofun (fun h => nomatch h.1)
  · refine (and_iff_left_of_imp fun h => .inl ?_).symm
    exact Option.some.inj h ▸ hentry
  · by_cases hsame : other = name
    · rw [if_pos hsame]
      refine (and_iff_left_of_imp fun h => .inr ?_).symm
      exact Option.some.inj h ▸ hsame ▸ hentry
    · rw [if_neg hsame]
      refine iff_of_false nofun fun ⟨h, hfound⟩ => ?_
      rw [← Option.some.inj h, hentry] at hfound
      rcases hfound with hnone | hname
      · cases hnone
      · exact hsame (Option.some.inj hname)

/-- What is in a table stays. -/
theorem call_keeps (h : table id = some name) (name' : N) :
    (call idOf table name').1 id = some name := by
  obtain ⟨-, hcall⟩ | ⟨own, -, hentry, hcall⟩ | ⟨own, other, -, -, hcall⟩ :=
    call_cases idOf table name' <;> rw [hcall]
  · exact h
  · have hne : id ≠ own := by
      rintro rfl
      cases h.symm.trans hentry
    exact (Function.update_of_ne hne ..).trans h
  · exact h

/-- A name that gets its id is there. -/
theorem call_enters (h : (call idOf table name).2 = some id) :
    (call idOf table name).1 id = some name := by
  obtain ⟨hid, hentry | hentry⟩ := call_eq_some.mp h
  · simp only [call, hid, hentry, Function.update_self]
  · exact call_keeps hentry name

theorem Sound.call (h : Sound idOf table) (name : N) : Sound idOf (call idOf table name).1 := by
  obtain ⟨-, hcall⟩ | ⟨own, hid, -, hcall⟩ | ⟨own, other, -, -, hcall⟩ :=
    call_cases idOf table name <;> rw [hcall]
  · exact h
  · intro id name' hname'
    replace hname' : Function.update table own (some name) id = some name' := hname'
    by_cases heq : id = own
    · rw [heq, Function.update_self, Option.some.injEq] at hname'
      rw [heq, ← hname', hid]
    · rw [Function.update_of_ne heq] at hname'
      exact h id name' hname'
  · exact h

end

/-! ### Machines with such a table -/

section
variable {S N I E : Type} [DecidableEq N] [DecidableEq I]
  (step : S → N → S × Except E I) (entry : S → I → Option N) (idOf : N → Option I)

/-- The state after some calls. -/
def after (start : S) (calls : List N) : S := calls.foldl (fun s name => (step s name).1) start

/-- What is expected of a run: entries have the ids of their names, ids tell names apart, a name that
was accepted is from then on, and a call that throws leaves everything as it is. -/
structure Registers (HasId : N → I → Prop) (start : S) (calls : List N) : Prop where
  entries : ∀ id name, entry (after step start calls) id = some name → HasId name id
  ids : ∀ (i j : Nat) name name' id id', calls[i]? = some name → calls[j]? = some name' →
    (outputs step start calls)[i]? = some (.ok id) →
      (outputs step start calls)[j]? = some (.ok id') → (id = id' ↔ name = name')
  stays : ∀ (i j : Nat) name id, i ≤ j → calls[i]? = some name → calls[j]? = some name →
    (outputs step start calls)[i]? = some (.ok id) → (outputs step start calls)[j]? = some (.ok id)
  unchanged : ∀ before name error, before ++ [name] <+: calls →
    (step (after step start before) name).2 = .error error →
      (step (after step start before) name).1 = after step start before

/-- The machine's table changes as by `call`, which also says which calls throw. -/
structure Refines : Prop where
  table : ∀ s name, entry (step s name).1 = (call idOf (entry s) name).1
  result : ∀ s name, (step s name).2.toOption = (call idOf (entry s) name).2
  throws : ∀ s name error, (step s name).2 = .error error → (step s name).1 = s

variable {step} {entry} {idOf} {start : S} {calls : List N} {name : N} {id : I}

theorem Refines.ok_iff (h : Refines step entry idOf) (s : S) :
    (step s name).2 = .ok id ↔ idOf name = some id ∧ (entry s id = none ∨ entry s id = some name) := by
  rw [← call_eq_some, ← h.result]
  cases (step s name).2 with
  | error e => exact iff_of_false nofun nofun
  | ok id' => simp [Except.toOption]

theorem Refines.keeps (h : Refines step entry idOf) {s : S} (hs : entry s id = some name)
    (rest : List N) : entry (after step s rest) id = some name :=
  foldl_invariant (fun s => entry s id = some name) (fun _ => True) _
    (fun s name' hs _ => (congrFun (h.table s name') id).trans (call_keeps hs name')) rest s hs
    fun _ _ => trivial

theorem Refines.sound (h : Refines step entry idOf) (hstart : ∀ id, entry start id = none)
    (calls : List N) : Sound idOf (entry (after step start calls)) := by
  refine foldl_invariant (fun s => Sound idOf (entry s)) (fun _ => True) _ (fun s name hs _ => ?_)
    calls start (fun id name hname => ?_) fun _ _ => trivial
  · rw [h.table]
    exact hs.call name
  · cases (hstart id).symm.trans hname

/-- What a call has returned, and where its name is from then on. -/
theorem Refines.accepted (h : Refines step entry idOf) {i : Nat} (hcall : calls[i]? = some name)
    (hok : (outputs step start calls)[i]? = some (.ok id)) : idOf name = some id ∧
      ∀ n, i < n → entry (after step start (calls.take n)) id = some name := by
  rw [outputs_getElem?, hcall, Option.map_some, Option.some.injEq] at hok
  refine ⟨((h.ok_iff _).mp hok).1, fun n hn => ?_⟩
  obtain ⟨hi, hname⟩ := List.getElem?_eq_some_iff.mp hcall
  have hsplit : calls.take n = calls.take i ++ name :: (calls.take n).drop (i + 1) := by
    have hlt : i < (calls.take n).length := by
      rw [List.length_take]
      omega
    have hhere : (calls.take n)[i] = name := by rw [List.getElem_take, hname]
    conv_lhs => rw [← List.take_append_drop i (calls.take n)]
    rw [List.drop_eq_getElem_cons hlt, hhere, List.take_take, Nat.min_eq_left (Nat.le_of_lt hn)]
  have hentered : entry (step (after step start (calls.take i)) name).1 id = some name := by
    rw [h.table]
    refine call_enters ?_
    rw [← h.result]
    exact congrArg Except.toOption hok
  rw [hsplit, after, List.foldl_append]
  exact h.keeps hentered _

theorem registers_of_refines {HasId : N → I → Prop} (h : Refines step entry idOf)
    (hid : ∀ name id, idOf name = some id → HasId name id) (hstart : ∀ id, entry start id = none)
    (calls : List N) : Registers step entry HasId start calls where
  entries := fun id name hname => hid name id (h.sound hstart calls id name hname)
  ids := by
    intro i j name name' id id' hi hj hoki hokj
    obtain ⟨hid, hentry⟩ := h.accepted hi hoki
    obtain ⟨hid', hentry'⟩ := h.accepted hj hokj
    constructor
    · rintro rfl
      have hboth := (hentry (i + j + 1) (by omega)).symm.trans (hentry' (i + j + 1) (by omega))
      exact Option.some.inj hboth
    · rintro rfl
      exact Option.some.inj (hid.symm.trans hid')
  stays := by
    intro i j name id hle hi hj hok
    obtain ⟨hid, hentry⟩ := h.accepted hi hok
    rcases Nat.eq_or_lt_of_le hle with rfl | hlt
    · exact hok
    · rw [outputs_getElem?, hj]
      exact congrArg some ((h.ok_iff _).mpr ⟨hid, .inr (hentry j hlt)⟩)
  unchanged := fun before name error _ herror => h.throws _ name error herror

end

/-! ### Calls that throw -/

section
variable {S N I E : Type} [DecidableEq N] (hash : N → Except E I) (insert : S → I → N → S)
  (collision : N → N → I → E) (entry : S → I → Option N)

/-- A call of a machine that throws where a name is refused. -/
def register (s : S) (name : N) : S × Except E I :=
  match hash name with
  | .error e => (s, .error e)
  | .ok id => match entry s id with
    | none => (insert s id name, .ok id)
    | some other => (s, if other = name then .ok id else .error (collision other name id))

variable {hash} {insert} {collision} {entry} {s : S} {name : N} {id : I}

theorem register_error {e : E} (h : hash name = .error e) :
    register hash insert collision entry s name = (s, .error e) := by
  simp only [register, h]

theorem register_new (h : hash name = .ok id) (hentry : entry s id = none) :
    register hash insert collision entry s name = (insert s id name, .ok id) := by
  simp only [register, h, hentry]

theorem register_found {other : N} (h : hash name = .ok id) (hentry : entry s id = some other) :
    register hash insert collision entry s name =
      (s, if other = name then .ok id else .error (collision other name id)) := by
  simp only [register, h, hentry]

variable [DecidableEq I] (insert) (entry)

/-- A name that is not there yet can be entered. -/
def Inserts : Prop := ∀ s id name, entry s id = none →
  entry (insert s id name) = Function.update (entry s) id (some name)

variable {insert} {entry}

theorem refines_register (hinsert : Inserts insert entry) :
    Refines (register hash insert collision entry) entry (fun name => (hash name).toOption) := by
  have hstep : ∀ s name, let r := register hash insert collision entry s name
      let c := call (fun name => (hash name).toOption) (entry s) name
      entry r.1 = c.1 ∧ r.2.toOption = c.2 ∧ ∀ e, r.2 = .error e → r.1 = s := by
    intro s name
    simp only [call]
    cases hid : hash name with
    | error e =>
      rw [register_error hid]
      exact ⟨rfl, rfl, fun _ _ => rfl⟩
    | ok id =>
      simp only [Except.toOption]
      cases hentry : entry s id with
      | none =>
        rw [register_new hid hentry]
        exact ⟨hinsert s id name hentry, rfl, fun _ h => nomatch h⟩
      | some other =>
        rw [register_found hid hentry]
        refine ⟨rfl, ?_, fun _ _ => rfl⟩
        by_cases hsame : other = name
        · simp only [if_pos hsame]
        · simp only [if_neg hsame]
  exact ⟨fun s name => (hstep s name).1, fun s name => (hstep s name).2.1,
    fun s name => (hstep s name).2.2⟩

end

/-! ### Two registries of the same names -/

section
variable {S T N N' I I' E E' : Type} (enc : N → Option N') (num : I' → I) (Err : E → E' → Prop)

/-- The same names, encoded, under the same ids. -/
structure SameNames (table : I → Option N) (table' : I' → Option N') : Prop where
  same : ∀ id, Option.Rel (fun name name' => enc name = some name') (table (num id)) (table' id)
  only : ∀ id name, table id = some name → ∃ id', num id' = id

/-- The same id, or the same error. -/
inductive Alike : Except E I → Except E' I' → Prop
  | ok (id : I') : Alike (.ok (num id)) (.ok id)
  | error {e : E} {e' : E'} (h : Err e e') : Alike (.error e) (.error e')

variable {enc} {num} {Err}

theorem alike_refl (r : Except E I) : Alike id Eq r r := by
  cases r with
  | error e => exact .error rfl
  | ok id => exact .ok id

theorem SameNames.of_none {table : I → Option N} {table' : I' → Option N'}
    (h : ∀ id, table id = none) (h' : ∀ id, table' id = none) : SameNames enc num table table' := by
  constructor
  · intro id
    rw [h, h']
    exact .none
  · intro id name hname
    rw [h] at hname
    cases hname

/-- Names that are not encoded, under ids that are not either. -/
theorem SameNames.eq {table table' : I → Option N} (h : SameNames some id table table') :
    table = table' := by
  funext n
  have hentries := h.same n
  rw [id] at hentries
  generalize table n = o at hentries ⊢
  generalize table' n = o' at hentries ⊢
  cases hentries with
  | none => rfl
  | some hname => exact hname

variable [DecidableEq I] [DecidableEq I']

theorem SameNames.update {table : I → Option N} {table' : I' → Option N'} {name : N} {name' : N'}
    (h : SameNames enc num table table') (hnum : Function.Injective num) (id : I')
    (hname : enc name = some name') :
    SameNames enc num (Function.update table (num id) (some name))
      (Function.update table' id (some name')) := by
  constructor
  · intro id'
    by_cases heq : id' = id
    · rw [heq, Function.update_self, Function.update_self]
      exact .some hname
    · rw [Function.update_of_ne heq, Function.update_of_ne fun hn => heq (hnum hn)]
      exact h.same id'
  · intro n other hother
    by_cases heq : n = num id
    · exact ⟨id, heq.symm⟩
    · rw [Function.update_of_ne heq] at hother
      exact h.only n other hother

/-- Calls with a name and its encoding do the same. -/
theorem register_sim [DecidableEq N] [DecidableEq N'] {hash : N → Except E I}
    {hash' : N' → Except E' I'} {insert : S → I → N → S} {insert' : T → I' → N' → T}
    {collision : N → N → I → E} {collision' : N' → N' → I' → E'} {entry : S → I → Option N}
    {entry' : T → I' → Option N'} (hinsert : Inserts insert entry) (hinsert' : Inserts insert' entry')
    (hnum : Function.Injective num) (henc : ∀ a b c, enc a = some c → enc b = some c → a = b)
    (hhash : ∀ a b, enc a = some b → Alike num Err (hash a) (hash' b))
    (hcollision : ∀ a b a' b' id, enc a = some a' → enc b = some b' →
      Err (collision a b (num id)) (collision' a' b' id))
    {s : S} {t : T} (h : SameNames enc num (entry s) (entry' t)) {name : N} {name' : N'}
    (hname : enc name = some name') :
    Alike num Err (register hash insert collision entry s name).2
        (register hash' insert' collision' entry' t name').2 ∧
      SameNames enc num (entry (register hash insert collision entry s name).1)
        (entry' (register hash' insert' collision' entry' t name').1) := by
  have hids := hhash name name' hname
  generalize hid : hash name = r at hids
  generalize hid' : hash' name' = r' at hids
  cases hids with
  | error herr =>
    rw [register_error hid, register_error hid']
    exact ⟨.error herr, h⟩
  | ok id =>
    have hentries := h.same id
    generalize hentry : entry s (num id) = o at hentries
    generalize hentry' : entry' t id = o' at hentries
    cases hentries with
    | none =>
      rw [register_new hid hentry, register_new hid' hentry', hinsert s _ name hentry,
        hinsert' t _ name' hentry']
      exact ⟨.ok id, h.update hnum id hname⟩
    | @some other other' hother =>
      rw [register_found hid hentry, register_found hid' hentry']
      refine ⟨?_, h⟩
      by_cases hsame : other = name
      · have hsame' : other' = name' := Option.some.inj (hother.symm.trans (hsame ▸ hname))
        rw [if_pos hsame, if_pos hsame']
        exact .ok id
      · have hsame' : other' ≠ name' := by
          rintro rfl
          exact hsame (henc other name other' hother hname)
        rw [if_neg hsame, if_neg hsame']
        exact .error (hcollision other name other' name' id hother hname)

end

end Intern
