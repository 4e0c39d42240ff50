import StrixPEP.Lib.Bounded

/-!
# JSON values and audit records

* `Json` — what `json.loads` returns: the Python `int` and `bool` are separate constructors, so
  `isinstance(v, int) and not isinstance(v, bool)` is "is an `int`".  A `float` is given by the
  text that `json.dumps` gives it (its `repr`, where it is finite; the text determines it) and
  whether it is finite; nothing here computes with floats.
* `Record` — a Python `dict` with string keys, as an association list.  Every access goes
  through `get?` (the first entry of a key), so a list with repeated keys is read as a dict.
* `item`, `int`, `str` — `record[key]`, with the `KeyError` it raises and the `TypeError` an
  operation on a value of the wrong type raises.
-/

namespace StrixPEP

inductive Json where
  | null
  | bool (b : Bool)
  | int (n : Int)
  | float (repr : String) (finite : Bool)
  | str (s : String)
  | arr (xs : List Json)
  | obj (kvs : List (String × Json))
  deriving Repr

namespace Json

mutual

def decEq : (a b : Json) → Decidable (a = b)
  | .null, .null => isTrue rfl
  | .bool x, .bool y =>
    if h : x = y then isTrue (by rw [h]) else isFalse fun e => h (Json.bool.inj e)
  | .int x, .int y =>
    if h : x = y then isTrue (by rw [h]) else isFalse fun e => h (Json.int.inj e)
  | .float x f, .float y g =>
    if h : x = y ∧ f = g then isTrue (by rw [h.1, h.2]) else isFalse fun e => h (Json.float.inj e)
  | .str x, .str y =>
    if h : x = y then isTrue (by rw [h]) else isFalse fun e => h (Json.str.inj e)
  | .arr xs, .arr ys =>
    match decEqList xs ys with
    | isTrue h => isTrue (by rw [h])
    | isFalse h => isFalse fun e => h (Json.arr.inj e)
  | .obj xs, .obj ys =>
    match decEqFields xs ys with
    | isTrue h => isTrue (by rw [h])
    | isFalse h => isFalse fun e => h (Json.obj.inj e)
  | .null, .bool _ | .null, .int _ | .null, .float _ _ | .null, .str _ | .null, .arr _
  | .null, .obj _ | .bool _, .null | .bool _, .int _ | .bool _, .float _ _ | .bool _, .str _
  | .bool _, .arr _ | .bool _, .obj _ | .int _, .null | .int _, .bool _ | .int _, .float _ _
  | .int _, .str _ | .int _, .arr _ | .int _, .obj _ | .float _ _, .null | .float _ _, .bool _
  | .float _ _, .int _ | .float _ _, .str _ | .float _ _, .arr _ | .float _ _, .obj _
  | .str _, .null | .str _, .bool _ | .str _, .int _ | .str _, .float _ _ | .str _, .arr _
  | .str _, .obj _ | .arr _, .null | .arr _, .bool _ | .arr _, .int _ | .arr _, .float _ _
  | .arr _, .str _ | .arr _, .obj _ | .obj _, .null | .obj _, .bool _ | .obj _, .int _
  | .obj _, .float _ _ | .obj _, .str _ | .obj _, .arr _ => isFalse (by intro h; cases h)

def decEqList : (xs ys : List Json) → Decidable (xs = ys)
  | [], [] => isTrue rfl
  | [], _ :: _ => isFalse (by intro h; cases h)
  | _ :: _, [] => isFalse (by intro h; cases h)
  | x :: xs, y :: ys =>
    match decEq x y, decEqList xs ys with
    | isTrue h, isTrue h' => isTrue (by rw [h, h'])
    | isFalse h, _ => isFalse fun e => h (List.cons.inj e).1
    | _, isFalse h' => isFalse fun e => h' (List.cons.inj e).2

def decEqFields : (xs ys : List (String × Json)) → Decidable (xs = ys)
  | [], [] => isTrue rfl
  | [], _ :: _ => isFalse (by intro h; cases h)
  | _ :: _, [] => isFalse (by intro h; cases h)
  | (k, x) :: xs, (k', y) :: ys =>
    if hk : k = k' then
      match decEq x y, decEqFields xs ys with
      | isTrue h, isTrue h' => isTrue (by rw [hk, h, h'])
      | isFalse h, _ => isFalse fun e => h (Prod.mk.inj (List.cons.inj e).1).2
      | _, isFalse h' => isFalse fun e => h' (List.cons.inj e).2
    else isFalse fun e => hk (Prod.mk.inj (List.cons.inj e).1).1

end

instance : DecidableEq Json := decEq

/-- A text as Python's `repr` shows it.  Non-ASCII characters stand for themselves, as the
printable ones do. -/
def reprText (s : String) : String :=
  let quote := if '\'' ∈ s.toList ∧ '"' ∉ s.toList then '"' else '\''
  let esc (c : Char) : List Char :=
    if c = '\\' then ['\\', '\\']
    else if c = quote then ['\\', c]
    else if c = '\n' then ['\\', 'n']
    else if c = '\r' then ['\\', 'r']
    else if c = '\t' then ['\\', 't']
    else if c.toNat < 32 ∨ c.toNat = 127 then
      ['\\', 'x', Nat.digitChar (c.toNat / 16), Nat.digitChar (c.toNat % 16)]
    else [c]
  String.ofList ([quote] ++ s.toList.flatMap esc ++ [quote])

/-- A list of texts as Python's `repr` shows it. -/
def reprTexts (xs : List String) : String :=
  "[" ++ String.intercalate ", " (xs.map reprText) ++ "]"

/-- `str` of a float: its `repr`, which names an infinity or a NaN otherwise than `json.dumps`. -/
def floatText (r : String) (finite : Bool) : String :=
  if finite then r
  else if r = "NaN" then "nan"
  else if r = "Infinity" then "inf"
  else "-inf"

/-- `str(value)`.  A list or a dict is shown by its brackets only: no caller looks inside. -/
def toText : Json → String
  | .null => "None"
  | .bool true => "True"
  | .bool false => "False"
  | .int n => toString n
  | .float r finite => floatText r finite
  | .str s => s
  | .arr _ => "[...]"
  | .obj _ => "\x7b...\x7d"

/-- `repr(value)`. -/
def reprOf : Json → String
  | .str s => reprText s
  | v => v.toText

def isStr : Json → Bool
  | .str _ => true
  | _ => false

def isBool : Json → Bool
  | .bool _ => true
  | _ => false

theorem isStr_iff {v : Json} : v.isStr = true ↔ ∃ s, v = .str s := by
  cases v <;> simp [isStr]

/-- Texts as a JSON list. -/
def ofTexts (xs : List String) : Json := .arr (xs.map .str)

end Json

/-- A Python exception that leaves the function it was raised in. -/
inductive PyError where
  | keyError (key : String)
  | typeError
  | indexError
  | overflowError
  | attributeError
  | recursionError
  | valueError (message : String)
  deriving DecidableEq, Repr

/-- A `dict` with string keys. -/
abbrev Record := List (String × Json)

namespace Record

/-- `record.get(key)`. -/
def get? (r : Record) (key : String) : Option Json := r.lookup key

/-- `key in record`. -/
def has (r : Record) (key : String) : Bool := (r.get? key).isSome

/-- `set(record)`, as the list of its entries' keys. -/
def keys (r : Record) : List String := r.map Prod.fst

/-- `record[key]`. -/
def item (r : Record) (key : String) : Except PyError Json :=
  match r.get? key with
  | some v => .ok v
  | none => .error (.keyError key)

/-- `record[key]` used as an integer. -/
def int (r : Record) (key : String) : Except PyError Int :=
  match r.get? key with
  | some (.int n) => .ok n
  | some _ => .error .typeError
  | none => .error (.keyError key)

/-- `record[key]` used as a text. -/
def str (r : Record) (key : String) : Except PyError String :=
  match r.get? key with
  | some (.str s) => .ok s
  | some _ => .error .typeError
  | none => .error (.keyError key)

/-- `record[key]` used as a list of texts. -/
def texts (r : Record) (key : String) : Except PyError (List String) :=
  match r.get? key with
  | some (.arr xs) => xs.mapM fun | .str s => .ok s | _ => .error .typeError
  | some _ => .error .typeError
  | none => .error (.keyError key)

/-- `str(record.get(key, ""))`. -/
def textOr (r : Record) (key : String) : String :=
  match r.get? key with
  | some v => v.toText
  | none => ""

theorem item_ok {r : Record} {k : String} {v : Json} :
    r.item k = .ok v ↔ r.get? k = some v := by
  unfold item
  cases h : r.get? k <;> simp

theorem int_ok {r : Record} {k : String} {n : Int} :
    r.int k = .ok n ↔ r.get? k = some (.int n) := by
  unfold int
  split
  · rename_i m h; rw [h]; simp
  · rename_i v hv h
    rw [h]
    simp only [reduceCtorEq, Option.some.injEq, false_iff]
    intro e
    exact hv n e
  · rename_i h; rw [h]; simp

theorem str_ok {r : Record} {k s : String} : r.str k = .ok s ↔ r.get? k = some (.str s) := by
  unfold str
  split
  · rename_i m h; rw [h]; simp
  · rename_i v hv h
    rw [h]
    simp only [reduceCtorEq, Option.some.injEq, false_iff]
    intro e
    exact hv s e
  · rename_i h; rw [h]; simp

theorem has_iff {r : Record} {k : String} : r.has k = true ↔ ∃ v, r.get? k = some v := by
  unfold has
  exact Option.isSome_iff_exists

theorem mem_keys_iff {r : Record} {k : String} : k ∈ r.keys ↔ ∃ v, r.get? k = some v := by
  induction r with
  | nil => simp [keys, get?]
  | cons e r ih =>
    obtain ⟨k', v'⟩ := e
    simp only [keys, get?, List.map_cons, List.mem_cons, List.lookup_cons] at ih ⊢
    by_cases h : k = k'
    · subst h; simp
    · have hb : (k == k') = false := by simpa using h
      simp [h, hb, ih]

end Record

end StrixPEP
