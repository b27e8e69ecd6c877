import Mathlib.Data.Vector.Basic
import Relink.Library.LittleEndian
import Relink.Library.Record

/-! Packed message layouts.

A `Ty` is a type whose values all have one size: a primitive, an array of known length, or a record
of labelled fields, laid end to end without padding. Its codec is a `Record` put together from those
of its parts, so that every layout has a round trip and no spare bits. `leaves` says of a value what
a program can read of it: the number behind each path of labels and indices. Labels are a
parameter, and two layouts that differ in labels only read the same bytes as the same numbers. -/

/-! ### Codecs of the parts -/

namespace Record
variable {α β : Type}

def unit : Record Unit where
  size := 0
  encode _ := []
  decode _ := ()
  length_encode _ := rfl
  decode_encode _ _ := rfl

/-- A little-endian number of `w` bytes. -/
def word (w : Nat) : Record (Fin (256 ^ w)) where
  size := w
  encode n := LittleEndian.bytes w n
  decode b := ⟨LittleEndian.read w 0 b, LittleEndian.read_lt w 0 b⟩
  length_encode n := LittleEndian.bytes_length w n
  decode_encode n rest := by
    apply Fin.ext
    exact LittleEndian.read_here rest n.isLt

/-- One record after another. -/
def pair (r : Record α) (s : Record β) : Record (α × β) where
  size := r.size + s.size
  encode x := r.encode x.1 ++ s.encode x.2
  decode b := (r.decode b, s.decode (b.drop r.size))
  length_encode x := by rw [List.length_append, r.length_encode, s.length_encode]
  decode_encode x rest := by
    rw [List.append_assoc, r.decode_encode, List.drop_left' (r.length_encode x.1), s.decode_encode]

def vector (n : Nat) (r : Record α) : Record (List.Vector α n) where
  size := n * r.size
  encode v := r.array v.toList
  decode b := ⟨r.loads n b, r.loads_length n b⟩
  length_encode v := by rw [array_length, v.toList_length]
  decode_encode v rest := by
    obtain ⟨l, rfl⟩ := v
    exact Subtype.ext (r.loads_array l rest)

theorem unit_exact : unit.Exact := by
  intro b hb
  exact (List.length_eq_zero_iff.mp hb).symm

theorem word_exact (w : Nat) : (word w).Exact := by
  intro b hb
  have hlen : b.length = w := hb
  have hroom : 0 + w ≤ b.length := by omega
  have hread := LittleEndian.bytes_read hroom
  rw [List.drop_zero, List.take_of_length_le (Nat.le_of_eq hlen)] at hread
  exact hread

theorem Exact.pair {r : Record α} {s : Record β} (hr : r.Exact) (hs : s.Exact) :
    (r.pair s).Exact := by
  intro b hb
  have hsize : b.length = r.size + s.size := hb
  have htake : (b.take r.size).length = r.size := by
    rw [List.length_take]
    omega
  have hfirst : r.encode (r.decode b) = b.take r.size := by
    rw [← List.take_append_drop r.size b, hr.decode_append htake, hr _ htake,
      List.take_append_drop]
  have hsecond : s.encode (s.decode (b.drop r.size)) = b.drop r.size :=
    hs _ (by rw [List.length_drop]; omega)
  show r.encode (r.decode b) ++ s.encode (s.decode (b.drop r.size)) = b
  rw [hfirst, hsecond, List.take_append_drop]

theorem Exact.vector {r : Record α} (hr : r.Exact) (n : Nat) : (r.vector n).Exact := by
  intro b hb
  exact hr.array_loads n hb

end Record

namespace Layout

/-! ### Types -/

mutual
/-- `P` are the primitive types, and `L` is what fields are called. -/
inductive Ty (P L : Type) where
  | prim (p : P)
  | array (n : Nat) (elem : Ty P L)
  | record (fields : Fields P L)

inductive Fields (P L : Type) where
  | nil
  | cons (label : L) (ty : Ty P L) (rest : Fields P L)
end

variable {P L L' : Type}

def Fields.ofList (fields : List (L × Ty P L)) : Fields P L :=
  fields.foldr (fun field rest => .cons field.1 field.2 rest) .nil

mutual
/-- The same layout under other labels. -/
def Ty.map (f : L → L') : Ty P L → Ty P L'
  | .prim p => .prim p
  | .array n elem => .array n (elem.map f)
  | .record fields => .record (fields.map f)

def Fields.map (f : L → L') : Fields P L → Fields P L'
  | .nil => .nil
  | .cons label ty rest => .cons (f label) (ty.map f) (rest.map f)
end

section
variable (width : P → Nat)

mutual
/-- The values: numbers, as the bytes of a primitive spell them. -/
def Ty.Val : Ty P L → Type
  | .prim p => Fin (256 ^ width p)
  | .array n elem => List.Vector elem.Val n
  | .record fields => fields.Val

def Fields.Val : Fields P L → Type
  | .nil => Unit
  | .cons _ ty rest => ty.Val × rest.Val
end

mutual
def Ty.codec : (t : Ty P L) → Record (t.Val width)
  | .prim p => Record.word (width p)
  | .array n elem => (elem.codec).vector n
  | .record fields => fields.codec

def Fields.codec : (fields : Fields P L) → Record (fields.Val width)
  | .nil => Record.unit
  | .cons _ ty rest => (ty.codec).pair rest.codec
end

/-- `sizeof`. -/
def Ty.size (t : Ty P L) : Nat := (t.codec width).size

mutual
/-- **A layout has no spare bits**: all strings of its size are values. -/
theorem Ty.exact : (t : Ty P L) → (t.codec width).Exact
  | .prim p => Record.word_exact (width p)
  | .array n elem => elem.exact.vector n
  | .record fields => fields.exact

theorem Fields.exact : (fields : Fields P L) → (fields.codec width).Exact
  | .nil => Record.unit_exact
  | .cons _ ty rest => ty.exact.pair rest.exact
end

/-! ### What can be read -/

end

/-- A step from a value to a part of it. -/
inductive Step (L : Type) where
  | field (label : L)
  | index (i : Nat)
deriving DecidableEq

def Step.map (f : L → L') : Step L → Step L'
  | .field label => .field (f label)
  | .index i => .index i

/-- A number in a value: where it is, its primitive type, and the number. -/
structure Leaf (P L : Type) where
  path : List (Step L)
  prim : P
  number : Nat
deriving DecidableEq

def Leaf.under (step : Step L) (leaf : Leaf P L) : Leaf P L := {leaf with path := step :: leaf.path}

def Leaf.map (f : L → L') (leaf : Leaf P L) : Leaf P L' :=
  ⟨leaf.path.map (Step.map f), leaf.prim, leaf.number⟩

section
variable (width : P → Nat)

mutual
def Ty.leaves : (t : Ty P L) → t.Val width → List (Leaf P L)
  | .prim p, n => [⟨[], p, n.val⟩]
  | .array _ elem, v =>
    v.toList.zipIdx.flatMap fun x => (elem.leaves x.1).map (Leaf.under (.index x.2))
  | .record fields, v => fields.leaves v

def Fields.leaves : (fields : Fields P L) → fields.Val width → List (Leaf P L)
  | .nil, _ => []
  | .cons label ty rest, v => (ty.leaves v.1).map (Leaf.under (.field label)) ++ rest.leaves v.2
end

/-- What a program reads of a string of bytes as a value of the type. -/
def Ty.reads (t : Ty P L) (b : List UInt8) : List (Leaf P L) :=
  t.leaves width ((t.codec width).decode b)

def Fields.reads (fields : Fields P L) (b : List UInt8) : List (Leaf P L) :=
  fields.leaves width ((fields.codec width).decode b)

/-- What was written is read, whatever follows it. -/
theorem Ty.reads_encode (t : Ty P L) (v : t.Val width) (rest : List UInt8) :
    t.reads width ((t.codec width).encode v ++ rest) = t.leaves width v := by
  rw [Ty.reads, (t.codec width).decode_encode]

/-- The elements of an array are read one after the other. -/
theorem Ty.reads_array (n : Nat) (elem : Ty P L) (b : List UInt8) :
    (Ty.array n elem).reads width b = (List.range n).flatMap fun i =>
      (elem.reads width (b.drop (i * elem.size width))).map (Leaf.under (.index i)) := by
  have hzip : ((List.range n).map ((elem.codec width).load b)).zipIdx =
      (List.range n).map fun i => ((elem.codec width).load b i, i) := by
    apply List.ext_getElem
    · simp only [List.length_zipIdx, List.length_map]
    · intro i hi hi'
      simp only [List.getElem_zipIdx, List.getElem_map, List.getElem_range, Nat.zero_add]
  show (((List.range n).map ((elem.codec width).load b)).zipIdx.flatMap fun x =>
    (elem.leaves width x.1).map (Leaf.under (.index x.2))) = _
  rw [hzip, List.flatMap_map]
  rfl

theorem Fields.reads_cons (label : L) (ty : Ty P L) (rest : Fields P L) (b : List UInt8) :
    (Fields.cons label ty rest).reads width b =
      (ty.reads width b).map (Leaf.under (.field label)) ++
        rest.reads width (b.drop (ty.size width)) := rfl

mutual
theorem Ty.size_map (f : L → L') : (t : Ty P L) → (t.map f).size width = t.size width
  | .prim _ => rfl
  | .array n elem => congrArg (n * ·) (elem.size_map f)
  | .record fields => fields.size_map f

theorem Fields.size_map (f : L → L') :
    (fields : Fields P L) → ((fields.map f).codec width).size = (fields.codec width).size
  | .nil => rfl
  | .cons _ ty rest => congrArg₂ (· + ·) (ty.size_map f) (rest.size_map f)
end

mutual
/-- **Layouts that differ in labels only read the same bytes as the same numbers.** -/
theorem Ty.reads_map (f : L → L') :
    (t : Ty P L) → (b : List UInt8) → (t.map f).reads width b = (t.reads width b).map (Leaf.map f)
  | .prim _, _ => rfl
  | .array n elem, b => by
    rw [Ty.map, Ty.reads_array, Ty.reads_array, List.map_flatMap]
    apply List.flatMap_congr
    intro i _
    rw [elem.reads_map f, elem.size_map width f, List.map_map, List.map_map]
    rfl
  | .record fields, b => fields.reads_map f b

theorem Fields.reads_map (f : L → L') :
    (fields : Fields P L) → (b : List UInt8) →
      (fields.map f).reads width b = (fields.reads width b).map (Leaf.map f)
  | .nil, _ => rfl
  | .cons label ty rest, b => by
    rw [Fields.map, Fields.reads_cons, Fields.reads_cons, List.map_append, ty.reads_map f,
      rest.reads_map f, ty.size_map width f, List.map_map, List.map_map]
    rfl
end

end
end Layout
