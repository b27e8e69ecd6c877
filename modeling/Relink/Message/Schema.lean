import Mathlib.Data.List.ReduceOption
import Relink.Library.Token
import Relink.Message.Types

/-! Schema files.

`rl_topic echo --msg` takes a message type from a text file, one field on a line. `parse_msg_file`
strips comments and margins, matches each line against one regular expression, and looks the type
up; the first line that fails ends the parse with its number. What the interpreter raises on the way
(a file that is no text, too many digits, an array that is too large, a field list that `ctypes` does
not take) leaves it as it is. -/
namespace Relink.Message.Schema
open Token

/-! ### The parser -/

/-- `str.isspace`, which is `\s` too. -/
def isSpace (c : Char) : Bool :=
  let n := c.toNat
  (9 ≤ n && n ≤ 13) || (28 ≤ n && n ≤ 32) || n == 0x85 || n == 0xA0 || n == 0x1680 ||
    (0x2000 ≤ n && n ≤ 0x200A) || n == 0x2028 || n == 0x2029 || n == 0x202F || n == 0x205F ||
    n == 0x3000

/-- `[0-9]` -/
def isAsciiDigit (c : Char) : Bool := 48 ≤ c.toNat && c.toNat ≤ 57

/-- `[a-zA-Z0-9_]` -/
def isWord (c : Char) : Bool :=
  let n := c.toNat
  isAsciiDigit c || (65 ≤ n && n ≤ 90) || (97 ≤ n && n ≤ 122) || n == 95

abbrev Ty := Layout.Ty Prim String

/-- What depends on the interpreter and its `ctypes`. -/
structure Interpreter where
  /-- What `\d` matches, and the value `int` gives it, are in its Unicode tables, but for ASCII. -/
  value : Char → Option Nat
  ascii : ∀ c, c.toNat < 128 → value c = if isAsciiDigit c then some (c.toNat - 48) else none
  /-- The limit of `int` on the digits of a string, in the versions that have one. -/
  maxStrDigits : Option Nat
  /-- `sys.maxsize` -/
  maxSize : Nat
  /-- What creating a structure with these fields raises, if it does: some names, such as `_fields_`,
  mean something to `ctypes`. -/
  refuses : List (String × Ty) → Option String

/-- The groups of `_LINE_RE`. -/
structure RawField where
  type : List Char
  arrayLen : Option (List Char)
  name : List Char
deriving DecidableEq

inductive MsgSchemaError where
  | cannotRead (e : String)
  | cannotParse (lineno : Nat) (raw : List Char)
  | unknownType (lineno : Nat) (typeName : List Char)
  | noFields
deriving DecidableEq

/-- `repr` is `!r`. -/
def MsgSchemaError.message (path : String) (repr : List Char → String) : MsgSchemaError → String
  | .cannotParse lineno raw => s!"{path}:{lineno}: cannot parse {repr raw}"
  | .unknownType lineno typeName =>
    s!"{path}:{lineno}: unknown type {repr typeName} " ++
      "(expected one of: bool, float32, float64, int16, int32, int64, int8, uint16, uint32, " ++
      "uint64, uint8, string)"
  | .noFields => s!"{path}: no fields found"
  | .cannotRead e => s!"cannot read {path}: {e}"

/-- What `parse_msg_file` raises. -/
inductive Exn where
  | msgSchemaError (e : MsgSchemaError)
  | unicodeDecodeError
  | valueError
  | overflowError
  | ofType (e : String)
deriving DecidableEq

/-- What comes of opening and reading the file. -/
inductive FileRead where
  | text (contents : List Char)
  | osError (e : String)
  | unicodeDecodeError

/-- `_TYPE_MAP` -/
def typeMap : List (String × Prim) := [
  ("bool", .bool), ("int8", .i8), ("uint8", .u8), ("int16", .i16), ("uint16", .u16),
  ("int32", .i32), ("uint32", .u32), ("int64", .i64), ("uint64", .u64), ("float32", .f32),
  ("float64", .f64)]

/-- Reading a text file translates the ends of its lines. -/
def translate : List Char → List Char
  | [] => []
  | '\r' :: '\n' :: rest => '\n' :: translate rest
  | c :: rest => (if c = '\r' then '\n' else c) :: translate rest

def readlines : List Char → List (List Char)
  | [] => []
  | c :: rest =>
    if c = '\n' then [c] :: readlines rest
    else match readlines rest with
      | [] => [[c]]
      | line :: lines => (c :: line) :: lines

section
variable (python : Interpreter)

def isDigit (c : Char) : Bool := (python.value c).isSome

/-- `int` of a string of digits. -/
def number (ds : List Char) : Except Exn Nat :=
  if python.maxStrDigits.any (· < ds.length) then .error .valueError
  else .ok (ds.foldl (fun n c => 10 * n + (python.value c).getD 0) 0)

/-- A `ctypes` type times a length. -/
def times (prim : Prim) (n : Nat) : Except Exn Ty :=
  if python.maxSize < n * prim.width then .error .overflowError else .ok (.array n (.prim prim))

/-- The last part of `_LINE_RE`: space, and a name that ends the line but for more space. -/
def matchName (type : List Char) (arrayLen : Option (List Char)) (rest : List Char) :
    Option RawField :=
  let name := (rest.dropWhile isSpace).takeWhile isWord
  let trail := (rest.dropWhile isSpace).dropWhile isWord
  if rest.takeWhile isSpace = [] ∨ name = [] ∨ isAsciiDigit (name.headD '0') = true ∨
    trail.all isSpace = false then none
  else some ⟨type, arrayLen, name⟩

/-- `_LINE_RE.match`. The kinds of characters are told apart where one part meets the next, so
that greedy matches are the only ones. -/
def matchLine (line : List Char) : Option RawField :=
  let type := line.takeWhile isWord
  let rest := line.dropWhile isWord
  if type = [] then none
  else match rest with
    | '[' :: inner =>
      let arrayLen := inner.takeWhile (isDigit python)
      match inner.dropWhile (isDigit python) with
      | ']' :: after => if arrayLen = [] then none else matchName type (some arrayLen) after
      | _ => none
    | _ => matchName type none rest

/-- `None` where the type is not known. -/
def fieldType (f : RawField) : Option (Except Exn Ty) :=
  if String.ofList f.type = "string" then
    some (f.arrayLen.elim (.ok 64) (number python) >>= times python .char)
  else (typeMap.lookup (String.ofList f.type)).map fun prim =>
    f.arrayLen.elim (.ok (.prim prim)) fun ds => number python ds >>= times python prim

/-- The body of the loop. -/
def parseLine (lineno : Nat) (raw : List Char) : Except Exn (Option (String × Ty)) :=
  let line := strip isSpace (raw.takeWhile (· != '#'))
  if line = [] then .ok none
  else match matchLine python line with
    | none => .error (.msgSchemaError (.cannotParse lineno (raw.rdropWhile isSpace)))
    | some f => match fieldType python f with
      | none => .error (.msgSchemaError (.unknownType lineno f.type))
      | some (.error e) => .error e
      | some (.ok ty) => .ok (some (String.ofList f.name, ty))

def parseLines (lineno : Nat) : List (List Char) → Except Exn (List (String × Ty))
  | [] => .ok []
  | raw :: rest => match parseLine python lineno raw with
    | .error e => .error e
    | .ok field => (parseLines (lineno + 1) rest).map (field.toList ++ ·)

/-- What follows the loop. -/
def customMsg (fields : List (String × Ty)) : Except Exn Ty :=
  if fields = [] then .error (.msgSchemaError .noFields)
  else match python.refuses fields with
    | some e => .error (.ofType e)
    | none => .ok (record fields)

def parseMsgFile : FileRead → Except Exn Ty
  | .osError e => .error (.msgSchemaError (.cannotRead e))
  | .unicodeDecodeError => .error .unicodeDecodeError
  | .text contents => match parseLines python 1 (readlines (translate contents)) with
    | .error e => .error e
    | .ok fields => customMsg python fields

end

/-! ### The grammar -/

section
variable (python : Interpreter)

structure RawField.Valid (f : RawField) : Prop where
  type_ne : f.type ≠ []
  type_word : ∀ c ∈ f.type, isWord c
  arrayLen : ∀ ds ∈ f.arrayLen, ds ≠ [] ∧ ∀ c ∈ ds, isDigit python c
  name_ne : f.name ≠ []
  name_word : ∀ c ∈ f.name, isWord c
  name_first : Stops isAsciiDigit f.name

/-- Nothing, or a `#` and anything. -/
def Comment (l : List Char) : Prop := Stops (· != '#') l

def Blank (l : List Char) : Prop := ∃ lead comment, l = lead ++ comment ∧ (∀ c ∈ lead, isSpace c) ∧
  Comment comment

/-- `[N]`, if there is one. -/
def RawField.suffix (f : RawField) : List Char :=
  f.arrayLen.elim [] fun ds => '[' :: (ds ++ [']'])

/-- `<type> <name>` or `<type>[N] <name>`, between margins, before a comment. -/
structure Spells (l : List Char) (f : RawField) : Prop where
  valid : f.Valid python
  line : ∃ lead gap trail comment,
    l = lead ++ (f.type ++ (f.suffix ++ (gap ++ (f.name ++ (trail ++ comment))))) ∧
    (∀ c ∈ lead, isSpace c) ∧ gap ≠ [] ∧ (∀ c ∈ gap, isSpace c) ∧ (∀ c ∈ trail, isSpace c) ∧
    Comment comment

/-- What a line of a schema says. -/
inductive LineOf (l : List Char) : Option (String × Ty) → Prop where
  | blank (h : Blank l) : LineOf l none
  | field {f : RawField} {ty : Ty} (h : Spells python l f)
    (hty : fieldType python f = some (.ok ty)) : LineOf l (some (String.ofList f.name, ty))

/-- What a line that is none is answered with. -/
inductive Fault (lineno : Nat) (raw : List Char) : Exn → Prop where
  | cannotParse (hblank : ¬Blank raw) (hraw : ∀ f, ¬Spells python raw f) :
    Fault lineno raw (.msgSchemaError (.cannotParse lineno (raw.rdropWhile isSpace)))
  | unknownType {f : RawField} (hraw : Spells python raw f) (hty : fieldType python f = none) :
    Fault lineno raw (.msgSchemaError (.unknownType lineno f.type))
  /-- The length has too many digits, or the array is too large. -/
  | length {f : RawField} {e : Exn} (hraw : Spells python raw f)
    (hty : fieldType python f = some (.error e)) : Fault lineno raw e

/-- What is to become of a file's lines: their fields in their order, or the fault of the first line
that is none. -/
inductive Verdict (lines : List (List Char)) : Except Exn Ty → Prop where
  | fields {said : List (Option (String × Ty))} (h : List.Forall₂ (LineOf python) lines said)
    (hne : said.reduceOption ≠ []) (hbuilt : python.refuses said.reduceOption = none) :
    Verdict lines (.ok (record said.reduceOption))
  | refused {said : List (Option (String × Ty))} {e : String}
    (h : List.Forall₂ (LineOf python) lines said) (hne : said.reduceOption ≠ [])
    (he : python.refuses said.reduceOption = some e) : Verdict lines (.error (.ofType e))
  | noFields (h : ∀ l ∈ lines, Blank l) : Verdict lines (.error (.msgSchemaError .noFields))
  | fault {before after : List (List Char)} {raw : List Char} {said : List (Option (String × Ty))}
    {e : Exn} (hlines : lines = before ++ raw :: after)
    (hbefore : List.Forall₂ (LineOf python) before said)
    (hraw : Fault python (before.length + 1) raw e) : Verdict lines (.error e)

/-- What is to become of a file. -/
inductive Outcome : FileRead → Except Exn Ty → Prop where
  | text {contents : List Char} {r : Except Exn Ty}
    (h : Verdict python (readlines (translate contents)) r) : Outcome (.text contents) r
  | osError (e : String) : Outcome (.osError e) (.error (.msgSchemaError (.cannotRead e)))
  | unicodeDecodeError : Outcome .unicodeDecodeError (.error .unicodeDecodeError)

end

/-! ### Characters -/

theorem isWord_range {c : Char} (h : isWord c) : 48 ≤ c.toNat ∧ c.toNat ≤ 122 ∧ c.toNat ≠ 91 := by
  simp only [isWord, isAsciiDigit, Bool.or_eq_true, Bool.and_eq_true, decide_eq_true_eq,
    beq_iff_eq] at h
  omega

theorem isSpace_range {c : Char} (h : isSpace c) : c.toNat ≤ 32 ∨ 128 ≤ c.toNat := by
  simp only [isSpace, Bool.or_eq_true, Bool.and_eq_true, decide_eq_true_eq, beq_iff_eq] at h
  omega

theorem isSpace_of_isWord (c : Char) (h : isWord c) : isSpace c = false := by
  rw [← Bool.not_eq_true]
  intro hs
  have := isWord_range h
  have := isSpace_range hs
  omega

theorem isWord_of_isSpace (c : Char) (h : isSpace c) : isWord c = false := by
  rw [← Bool.not_eq_true]
  intro hw
  have := isWord_range hw
  have := isSpace_range h
  omega

section
variable (python : Interpreter)

theorem isDigit_bracket : isDigit python ']' = false := by
  rw [isDigit, python.ascii ']' (by decide), if_neg (by decide)]
  rfl

theorem isDigit_hash : isDigit python '#' = false := by
  rw [isDigit, python.ascii '#' (by decide), if_neg (by decide)]
  rfl

/-! ### The regular expression -/

variable {python}

theorem matchName_iff {type rest : List Char} {arrayLen : Option (List Char)} {f : RawField} :
    matchName type arrayLen rest = some f ↔ f.type = type ∧ f.arrayLen = arrayLen ∧
      f.name ≠ [] ∧ (∀ c ∈ f.name, isWord c) ∧ Stops isAsciiDigit f.name ∧
      ∃ gap trail, rest = gap ++ (f.name ++ trail) ∧ gap ≠ [] ∧ (∀ c ∈ gap, isSpace c) ∧
        ∀ c ∈ trail, isSpace c := by
  have hfirst : ∀ name : List Char, name ≠ [] →
      (isAsciiDigit (name.headD '0') = false ↔ Stops isAsciiDigit name) := by
    intro name hne
    cases name with
    | nil => exact absurd rfl hne
    | cons c name => exact stops_cons.symm
  unfold matchName
  simp only
  constructor
  · intro h
    obtain ⟨hrest, hgap, -⟩ := cut_iff.mp (⟨rfl, rfl⟩ :
      rest.takeWhile isSpace = _ ∧ rest.dropWhile isSpace = _)
    obtain ⟨hafter, hname, -⟩ := cut_iff.mp (⟨rfl, rfl⟩ :
      (rest.dropWhile isSpace).takeWhile isWord = _ ∧ (rest.dropWhile isSpace).dropWhile isWord = _)
    split at h
    · cases h
    · next hok =>
      simp only [not_or, Bool.not_eq_true, Bool.not_eq_false] at hok
      obtain ⟨hgapne, hnamene, hhead, htrail⟩ := hok
      cases h
      refine ⟨rfl, rfl, hnamene, hname, (hfirst _ hnamene).mp hhead, _, _, ?_, hgapne, hgap,
        List.all_eq_true.mp htrail⟩
      rw [← hafter]
      exact hrest
  · rintro ⟨rfl, rfl, hne, hword, hdigit, gap, trail, rfl, hgapne, hgap, htrail⟩
    have hstop : Stops isSpace (f.name ++ trail) :=
      (stops_append hne trail).mpr (stops_of_all hword isSpace_of_isWord)
    have hend : Stops isWord trail := stops_of_all htrail isWord_of_isSpace
    have hcut := cut_iff.mpr ⟨rfl, hgap, hstop⟩
    have hcut' := cut_iff.mpr ⟨rfl, hword, hend⟩
    rw [hcut.1, hcut.2, hcut'.1, hcut'.2, if_neg]
    simp only [not_or, Bool.not_eq_true, Bool.not_eq_false]
    exact ⟨hgapne, hne, (hfirst _ hne).mpr hdigit, List.all_eq_true.mpr htrail⟩

theorem matchLine_iff {line : List Char} {f : RawField} :
    matchLine python line = some f ↔ f.Valid python ∧ ∃ gap trail,
      line = f.type ++ (f.suffix ++ (gap ++ (f.name ++ trail))) ∧ gap ≠ [] ∧
        (∀ c ∈ gap, isSpace c) ∧ ∀ c ∈ trail, isSpace c := by
  unfold matchLine
  simp only
  constructor
  · intro h
    obtain ⟨hline, htype, -⟩ := cut_iff.mp (⟨rfl, rfl⟩ :
      line.takeWhile isWord = _ ∧ line.dropWhile isWord = _)
    generalize line.takeWhile isWord = type at h hline htype
    generalize line.dropWhile isWord = rest at h hline
    split at h
    · cases h
    next htypene =>
    split at h
    · next inner =>
      obtain ⟨hinner, hds, -⟩ := cut_iff.mp (⟨rfl, rfl⟩ :
        inner.takeWhile (isDigit python) = _ ∧ inner.dropWhile (isDigit python) = _)
      generalize inner.takeWhile (isDigit python) = ds at h hinner hds
      generalize inner.dropWhile (isDigit python) = close at h hinner
      split at h
      · next after =>
        split at h
        · cases h
        next hdsne =>
        obtain ⟨rfl, hlen, hne, hword, hdigit, gap, trail, rfl, hgaps⟩ := matchName_iff.mp h
        refine ⟨⟨htypene, htype, ?_, hne, hword, hdigit⟩, gap, trail, ?_, hgaps⟩
        · intro ds' hds'
          rw [hlen] at hds'
          cases hds'
          exact ⟨hdsne, hds⟩
        · rw [hline, hinner, RawField.suffix, hlen]
          simp
      · cases h
    · obtain ⟨rfl, hlen, hne, hword, hdigit, gap, trail, rfl, hgaps⟩ := matchName_iff.mp h
      refine ⟨⟨htypene, htype, ?_, hne, hword, hdigit⟩, gap, trail, ?_, hgaps⟩
      · intro ds' hds'
        rw [hlen] at hds'
        cases hds'
      · rw [hline, RawField.suffix, hlen]
        rfl
  · rintro ⟨hvalid, gap, trail, rfl, hgapne, hgap, htrail⟩
    have hname : ∀ arrayLen, f.arrayLen = arrayLen →
        matchName f.type arrayLen (gap ++ (f.name ++ trail)) = some f := fun _ hlen =>
      matchName_iff.mpr ⟨rfl, hlen, hvalid.name_ne, hvalid.name_word, hvalid.name_first, gap,
        trail, rfl, hgapne, hgap, htrail⟩
    have hgapStop : Stops isWord (gap ++ (f.name ++ trail)) :=
      (stops_append hgapne _).mpr (stops_of_all hgap isWord_of_isSpace)
    cases hlen : f.arrayLen with
    | none =>
      have hsuffix : f.suffix = [] := by rw [RawField.suffix, hlen]; rfl
      have hcut := cut_iff.mpr ⟨rfl, hvalid.type_word, hgapStop⟩
      rw [hsuffix, List.nil_append, hcut.1, hcut.2, if_neg hvalid.type_ne]
      split
      · next inner hinner =>
        have hspace : Stops (fun c => !isSpace c) (gap ++ (f.name ++ trail)) :=
          (stops_append hgapne _).mpr (stops_of_all hgap fun c hc => by rw [hc]; rfl)
        rw [hinner] at hspace
        exact absurd (stops_cons.mp hspace) (by decide)
      · exact hname none hlen
    | some ds =>
      obtain ⟨hdsne, hds⟩ := hvalid.arrayLen ds hlen
      have hsuffix : f.suffix = '[' :: (ds ++ [']']) := by rw [RawField.suffix, hlen]; rfl
      have hbracket : Stops isWord ('[' :: (ds ++ ([']'] ++ (gap ++ (f.name ++ trail))))) :=
        stops_cons.mpr (by decide)
      have hclose : Stops (isDigit python) ([']'] ++ (gap ++ (f.name ++ trail))) :=
        stops_cons.mpr (isDigit_bracket python)
      have hcut := cut_iff.mpr ⟨rfl, hvalid.type_word, hbracket⟩
      have hcut' := cut_iff.mpr ⟨rfl, hds, hclose⟩
      rw [hsuffix, List.cons_append, List.append_assoc, hcut.1, hcut.2, if_neg hvalid.type_ne]
      simp only [hcut'.1, hcut'.2]
      simp only [List.cons_append, List.nil_append, if_neg hdsne]
      exact hname (some ds) hlen

/-! ### A line -/

/-- The fields of a line have no `#` in them. -/
theorem not_hash_of_isSpace (c : Char) (h : isSpace c) : (c != '#') = true := by
  rw [bne_iff_ne]
  rintro rfl
  exact absurd h (by decide)

theorem not_hash_of_isWord (c : Char) (h : isWord c) : (c != '#') = true := by
  rw [bne_iff_ne]
  rintro rfl
  exact absurd h (by decide)

theorem RawField.Valid.suffix_no_hash {f : RawField} (h : f.Valid python) :
    ∀ c ∈ f.suffix, (c != '#') = true := by
  intro c hc
  unfold RawField.suffix at hc
  cases hlen : f.arrayLen with
  | none =>
    rw [hlen] at hc
    cases hc
  | some ds =>
    rw [hlen] at hc
    rw [bne_iff_ne]
    rintro rfl
    rcases List.mem_cons.mp hc with hc | hc
    · exact absurd hc (by decide)
    rcases List.mem_append.mp hc with hc | hc
    · have hdigit := (h.arrayLen ds hlen).2 '#' hc
      rw [isDigit_hash] at hdigit
      cases hdigit
    · exact absurd (List.mem_singleton.mp hc) (by decide)

/-- A field as it stands on its line, without what is around it. -/
def RawField.core (f : RawField) (gap : List Char) : List Char :=
  f.type ++ (f.suffix ++ (gap ++ f.name))

theorem blank_iff {raw : List Char} :
    strip isSpace (raw.takeWhile (· != '#')) = [] ↔ Blank raw := by
  rw [strip_eq_nil_iff]
  constructor
  · intro h
    obtain ⟨hraw, -, hcomment⟩ := cut_iff.mp (⟨rfl, rfl⟩ :
      raw.takeWhile (· != '#') = _ ∧ raw.dropWhile (· != '#') = _)
    exact ⟨_, _, hraw, h, hcomment⟩
  · rintro ⟨lead, comment, rfl, hlead, hcomment⟩
    have hcut := cut_iff.mpr ⟨rfl, fun c hc => not_hash_of_isSpace c (hlead c hc), hcomment⟩
    rw [hcut.1]
    exact hlead

theorem spells_iff {raw : List Char} {f : RawField} :
    matchLine python (strip isSpace (raw.takeWhile (· != '#'))) = some f ↔
      Spells python raw f := by
  obtain ⟨hraw, -, hcomment⟩ := cut_iff.mp (⟨rfl, rfl⟩ :
    raw.takeWhile (· != '#') = _ ∧ raw.dropWhile (· != '#') = _)
  constructor
  · intro h
    obtain ⟨hvalid, gap, trail, hline, hgapne, hgap, htrail⟩ := matchLine_iff.mp h
    have hne : f.type ++ (f.suffix ++ (gap ++ (f.name ++ trail))) ≠ [] :=
      List.append_ne_nil_of_left_ne_nil hvalid.type_ne _
    obtain ⟨lead, trail', hpre, hlead, htrail', -, -⟩ := (strip_iff hne).mp hline
    refine ⟨hvalid, lead, gap, trail ++ trail', _, ?_, hlead, hgapne, hgap, ?_, hcomment⟩
    · rw [hpre] at hraw
      refine hraw.trans ?_
      simp only [List.append_assoc]
    · intro c hc
      exact (List.mem_append.mp hc).elim (htrail c) (htrail' c)
  · rintro ⟨hvalid, lead, gap, trail, comment, rfl, hlead, hgapne, hgap, htrail, hcomment⟩
    have hpre : ∀ c ∈ lead ++ (f.core gap ++ trail), (c != '#') = true := by
      intro c hc
      simp only [RawField.core, List.mem_append] at hc
      rcases hc with hc | (hc | hc | hc | hc) | hc
      · exact not_hash_of_isSpace c (hlead c hc)
      · exact not_hash_of_isWord c (hvalid.type_word c hc)
      · exact hvalid.suffix_no_hash c hc
      · exact not_hash_of_isSpace c (hgap c hc)
      · exact not_hash_of_isWord c (hvalid.name_word c hc)
      · exact not_hash_of_isSpace c (htrail c hc)
    have hline : lead ++ (f.type ++ (f.suffix ++ (gap ++ (f.name ++ (trail ++ comment))))) =
        lead ++ (f.core gap ++ trail) ++ comment := by
      simp only [RawField.core, List.append_assoc]
    have hcut := cut_iff.mpr ⟨hline, hpre, hcomment⟩
    have hne : f.core gap ≠ [] := List.append_ne_nil_of_left_ne_nil hvalid.type_ne _
    have hfirst : Stops isSpace (f.core gap) :=
      (stops_append hvalid.type_ne _).mpr (stops_of_all hvalid.type_word isSpace_of_isWord)
    have hlast : Stops isSpace (f.core gap).reverse := by
      have hname : f.name.reverse ≠ [] := List.reverse_ne_nil_iff.mpr hvalid.name_ne
      simp only [RawField.core, List.reverse_append, List.append_assoc]
      refine (stops_append hname _).mpr (stops_of_all (fun c hc => ?_) isSpace_of_isWord)
      exact hvalid.name_word c (List.mem_reverse.mp hc)
    rw [hcut.1, (strip_iff hne).mpr ⟨lead, trail, rfl, hlead, htrail, hfirst, hlast⟩, matchLine_iff]
    refine ⟨hvalid, gap, [], ?_, hgapne, hgap, fun c hc => absurd hc List.not_mem_nil⟩
    rw [List.append_nil, RawField.core]

variable (python) in
/-- What the body of the loop does with a line. -/
inductive Parsed (lineno : Nat) (raw : List Char) : Except Exn (Option (String × Ty)) → Prop where
  | line {o : Option (String × Ty)} (h : LineOf python raw o) : Parsed lineno raw (.ok o)
  | fault {e : Exn} (h : Fault python lineno raw e) : Parsed lineno raw (.error e)

theorem Spells.not_blank {raw : List Char} {f : RawField} (h : Spells python raw f) :
    ¬Blank raw := by
  rw [← blank_iff]
  intro hblank
  have hmatch := spells_iff.mpr h
  rw [hblank] at hmatch
  cases hmatch

theorem Spells.unique {raw : List Char} {f g : RawField} (hf : Spells python raw f)
    (hg : Spells python raw g) : f = g :=
  Option.some.inj ((spells_iff.mpr hf).symm.trans (spells_iff.mpr hg))

theorem parseLine_iff {lineno : Nat} {raw : List Char} {r : Except Exn (Option (String × Ty))} :
    parseLine python lineno raw = r ↔ Parsed python lineno raw r := by
  constructor
  · rintro rfl
    unfold parseLine
    simp only
    split
    · next hline => exact .line (.blank (blank_iff.mp hline))
    next hline =>
    split
    · next hmatch =>
      refine .fault (.cannotParse (fun h => hline (blank_iff.mpr h)) fun f hf => ?_)
      rw [spells_iff.mpr hf] at hmatch
      cases hmatch
    next f hmatch =>
    split
    · next hty => exact .fault (.unknownType (spells_iff.mp hmatch) hty)
    · next e hty => exact .fault (.length (spells_iff.mp hmatch) hty)
    · next ty hty => exact .line (.field (spells_iff.mp hmatch) hty)
  · have hfield : ∀ {f}, Spells python raw f → parseLine python lineno raw =
        match fieldType python f with
        | none => .error (.msgSchemaError (.unknownType lineno f.type))
        | some (.error e) => .error e
        | some (.ok ty) => .ok (some (String.ofList f.name, ty)) := by
      intro f hraw
      unfold parseLine
      simp only [if_neg fun h => hraw.not_blank (blank_iff.mp h), spells_iff.mpr hraw]
    intro h
    cases h with
    | line h =>
      cases h with
      | blank h => exact if_pos (blank_iff.mpr h)
      | field hraw hty => rw [hfield hraw, hty]
    | fault h =>
      cases h with
      | cannotParse hblank hraw =>
        unfold parseLine
        simp only
        rw [if_neg fun h => hblank (blank_iff.mp h)]
        cases hmatch : matchLine python (strip isSpace (raw.takeWhile (· != '#'))) with
        | none => rfl
        | some f => exact absurd (spells_iff.mp hmatch) (hraw f)
      | unknownType hraw hty => rw [hfield hraw, hty]
      | length hraw hty => rw [hfield hraw, hty]

/-! ### A file -/

theorem parseLines_ok_iff {lineno : Nat} {lines : List (List Char)} {fields : List (String × Ty)} :
    parseLines python lineno lines = .ok fields ↔
      ∃ said, List.Forall₂ (LineOf python) lines said ∧ fields = said.reduceOption := by
  induction lines generalizing lineno fields with
  | nil =>
    simp only [parseLines, Except.ok.injEq, List.forall₂_nil_left_iff, exists_eq_left,
      List.reduceOption_nil]
    exact eq_comm
  | cons raw rest ih =>
    rw [parseLines]
    constructor
    · intro h
      cases hline : parseLine python lineno raw with
      | error e =>
        rw [hline] at h
        cases h
      | ok o =>
        cases hrest : parseLines python (lineno + 1) rest with
        | error e =>
          rw [hline, hrest] at h
          cases h
        | ok later =>
          rw [hline, hrest] at h
          obtain ⟨said, hsaid, rfl⟩ := ih.mp hrest
          cases h
          cases parseLine_iff.mp hline with
          | line ho => exact ⟨o :: said, .cons ho hsaid, by cases o <;> rfl⟩
    · rintro ⟨said, hsaid, rfl⟩
      cases hsaid with
      | @cons _ o _ said ho hsaid =>
        rw [parseLine_iff.mpr (.line ho), ih.mpr ⟨said, hsaid, rfl⟩]
        cases o <;> rfl

theorem parseLines_error_iff {lineno : Nat} {lines : List (List Char)} {e : Exn} :
    parseLines python lineno lines = .error e ↔
      ∃ before raw after said, lines = before ++ raw :: after ∧
        List.Forall₂ (LineOf python) before said ∧
        Fault python (lineno + before.length) raw e := by
  induction lines generalizing lineno with
  | nil =>
    constructor
    · intro h
      cases h
    · rintro ⟨before, raw, after, said, h, -, -⟩
      cases before <;> cases h
  | cons raw rest ih =>
    rw [parseLines]
    constructor
    · intro h
      cases hline : parseLine python lineno raw with
      | error e' =>
        rw [hline] at h
        cases h
        cases parseLine_iff.mp hline with
        | fault hfault => exact ⟨[], raw, rest, [], rfl, .nil, hfault⟩
      | ok o =>
        cases hrest : parseLines python (lineno + 1) rest with
        | ok later =>
          rw [hline, hrest] at h
          cases h
        | error e' =>
          rw [hline, hrest] at h
          cases h
          obtain ⟨before, bad, after, said, rfl, hsaid, hbad⟩ := ih.mp hrest
          cases parseLine_iff.mp hline with
          | line ho =>
            refine ⟨raw :: before, bad, after, o :: said, rfl, .cons ho hsaid, ?_⟩
            rw [List.length_cons, show lineno + (before.length + 1) =
              lineno + 1 + before.length by omega]
            exact hbad
    · rintro ⟨before, bad, after, said, hlines, hsaid, hbad⟩
      cases hsaid with
      | nil =>
        cases hlines
        rw [List.length_nil, Nat.add_zero] at hbad
        rw [parseLine_iff.mpr (.fault hbad)]
      | @cons first o before said ho hsaid =>
        cases hlines
        rw [List.length_cons, show lineno + (before.length + 1) =
          lineno + 1 + before.length by omega] at hbad
        rw [parseLine_iff.mpr (.line ho), ih.mpr ⟨before, bad, after, said, rfl, hsaid, hbad⟩]
        rfl

theorem forall₂_reduceOption_nil {lines : List (List Char)} {said : List (Option (String × Ty))}
    (h : List.Forall₂ (LineOf python) lines said) :
    said.reduceOption = [] ↔ ∀ l ∈ lines, Blank l := by
  induction h with
  | nil => simp
  | @cons l o lines said ho _ ih =>
    rw [List.forall_mem_cons]
    cases ho with
    | blank hblank =>
      rw [List.reduceOption_cons_of_none, ih]
      exact (and_iff_right hblank).symm
    | field hl hty =>
      rw [List.reduceOption_cons_of_some]
      refine iff_of_false (List.cons_ne_nil _ _) ?_
      rintro ⟨hblank, -⟩
      exact hl.not_blank hblank

theorem forall₂_blank {lines : List (List Char)} (h : ∀ l ∈ lines, Blank l) :
    ∃ said, List.Forall₂ (LineOf python) lines said ∧ said.reduceOption = [] := by
  induction lines with
  | nil => exact ⟨[], .nil, rfl⟩
  | cons l lines ih =>
    rw [List.forall_mem_cons] at h
    obtain ⟨said, hsaid, hnil⟩ := ih h.2
    exact ⟨none :: said, .cons (.blank h.1) hsaid, hnil⟩

theorem parseText_iff {contents : List Char} {r : Except Exn Ty} :
    parseMsgFile python (.text contents) = r ↔
      Verdict python (readlines (translate contents)) r := by
  have hparse : parseMsgFile python (.text contents) =
      match parseLines python 1 (readlines (translate contents)) with
      | .error e => .error e
      | .ok fields => customMsg python fields := rfl
  rw [hparse]
  generalize readlines (translate contents) = lines
  constructor
  · rintro rfl
    cases hlines : parseLines python 1 lines with
    | ok fields =>
      obtain ⟨said, hsaid, rfl⟩ := parseLines_ok_iff.mp hlines
      simp only [customMsg]
      split
      · next hnil => exact .noFields ((forall₂_reduceOption_nil hsaid).mp hnil)
      · next hne =>
        cases hrefuses : python.refuses said.reduceOption with
        | none => exact .fields hsaid hne hrefuses
        | some e => exact .refused hsaid hne hrefuses
    | error e =>
      obtain ⟨before, raw, after, said, rfl, hsaid, hbad⟩ := parseLines_error_iff.mp hlines
      rw [Nat.add_comm] at hbad
      exact .fault rfl hsaid hbad
  · intro h
    cases h with
    | fields hsaid hne hrefuses =>
      rw [parseLines_ok_iff.mpr ⟨_, hsaid, rfl⟩]
      simp only [customMsg, if_neg hne, hrefuses]
    | refused hsaid hne hrefuses =>
      rw [parseLines_ok_iff.mpr ⟨_, hsaid, rfl⟩]
      simp only [customMsg, if_neg hne, hrefuses]
    | noFields hblank =>
      obtain ⟨said, hsaid, hnil⟩ := forall₂_blank hblank
      rw [parseLines_ok_iff.mpr ⟨said, hsaid, rfl⟩, hnil]
      rfl
    | fault hlines hsaid hraw =>
      rw [Nat.add_comm] at hraw
      rw [parseLines_error_iff.mpr ⟨_, _, _, _, hlines, hsaid, hraw⟩]

/-- The parser gives each file its verdict, and no other: the fields of all its lines, if `ctypes`
takes them, or the fault of the first line that is neither a field nor blank. -/
theorem parse_reads_grammar (python : Interpreter) (read : FileRead) (r : Except Exn Ty) :
    parseMsgFile python read = r ↔ Outcome python read r := by
  cases read with
  | text contents =>
    refine parseText_iff.trans ⟨fun h => .text h, fun h => ?_⟩
    cases h with
    | text h => exact h
  | osError e =>
    constructor
    · rintro rfl
      exact .osError e
    · intro h
      cases h
      rfl
  | unicodeDecodeError =>
    constructor
    · rintro rfl
      exact .unicodeDecodeError
    · intro h
      cases h
      rfl

/-- An interpreter whose digits are ASCII. -/
def asciiPython : Interpreter where
  value c := if isAsciiDigit c then some (c.toNat - 48) else none
  ascii _ _ := rfl
  maxStrDigits := some 4300
  maxSize := 2 ^ 63 - 1
  refuses fields := if ("_fields_" ∈ fields.map Prod.fst) then some "TypeError" else none

/-- A file with a field of each kind, and one whose array is too large. -/
example : parseMsgFile asciiPython
    (.text "# imu\r\n  float32[3] accel # m/s2\r\n\nstring[16] sensor_name".toList) =
      .ok (record [("accel", .array 3 (.prim .f32)), ("sensor_name", text 16)]) ∧
    parseMsgFile asciiPython (.text "int64[1152921504606846976] big".toList) =
      .error .overflowError := ⟨rfl, rfl⟩

end

end Relink.Message.Schema
