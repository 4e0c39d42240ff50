import StrixPEP.Json
import StrixPEP.Lib.Dict

/-!
# Reading JSON (`json.loads` on bytes)

* `decode` — the bytes as text, with the encoding that `json.detect_encoding` finds;
* `value` — one JSON value at the head of a text, with what follows it;
* `loads` — the whole text is one value with white space around it.

`Reader` holds what the interpreter decides: the depth of nesting at which it raises
`RecursionError`, and the floats.  A float is shown by the text that `json.dumps` gives it.  A lone
surrogate, which no `String` can hold, reads as U+FFFD.
-/

namespace StrixPEP

namespace Json

/-- What the interpreter decides about a text. -/
structure Reader where
  /-- How deep arrays and objects may be nested. -/
  depth : Nat
  /-- `float(token)`: the text that `json.dumps` gives it, and whether it is finite. -/
  float : String → String × Bool

/-- How `json.loads` fails. -/
inductive Fault where
  | valueError
  | recursionError
  deriving DecidableEq, Repr

/-- A parser reads the head of a text. -/
abbrev Parser (α : Type) := List Char → Except Fault (α × List Char)

/-! ## The parser -/

def isWhite (c : Char) : Bool := c = ' ' || c = '\t' || c = '\n' || c = '\r'

def skip (s : List Char) : List Char := s.dropWhile isWhite

/-- A code point, or U+FFFD in the place of a surrogate. -/
def codeChar (n : Nat) : Char := if n.isValidChar then Char.ofNat n else Char.ofNat 0xFFFD

def hexVal (c : Char) : Option Nat :=
  let n := c.toNat
  if 48 ≤ n ∧ n ≤ 57 then some (n - 48)
  else if 97 ≤ n ∧ n ≤ 102 then some (n - 87)
  else if 65 ≤ n ∧ n ≤ 70 then some (n - 55)
  else none

/-- The character that a one-letter escape stands for. -/
def unescape (c : Char) : Option Char :=
  if c = '"' ∨ c = '\\' ∨ c = '/' then some c
  else if c = 'b' then some (Char.ofNat 8)
  else if c = 'f' then some (Char.ofNat 12)
  else if c = 'n' then some '\n'
  else if c = 'r' then some '\r'
  else if c = 't' then some '\t'
  else none

def isHigh (n : Nat) : Bool := decide (0xD800 ≤ n ∧ n ≤ 0xDBFF)

def isLow (n : Nat) : Bool := decide (0xDC00 ≤ n ∧ n ≤ 0xDFFF)

/-- The code point of a surrogate pair. -/
def joinPair (h l : Nat) : Nat := 0x10000 + (h - 0xD800) * 1024 + (l - 0xDC00)

/-- Where the scanner of a string is; `high` modes follow an escaped high surrogate. -/
inductive Mode where
  | plain
  | escape
  | hex (acc left : Nat)
  | high (h : Nat)
  | highEscape (h : Nat)
  | highHex (h acc left : Nat)
  deriving DecidableEq, Repr

/-- One more character of a string. -/
def emit (c : Char) (r : Option (List Char × List Char)) : Option (List Char × List Char) :=
  r.map fun p => (c :: p.1, p.2)

/-- A string after its opening quote: its characters, and what follows its closing quote. -/
def stringBody : Mode → List Char → Option (List Char × List Char)
  | _, [] => none
  | .plain, c :: s =>
    if c = '"' then some ([], s)
    else if c = '\\' then stringBody .escape s
    else if c.toNat < 32 then none
    else emit c (stringBody .plain s)
  | .escape, c :: s =>
    if c = 'u' then stringBody (.hex 0 3) s
    else
      match unescape c with
      | some d => emit d (stringBody .plain s)
      | none => none
  | .hex acc left, c :: s =>
    match hexVal c with
    | none => none
    | some d =>
      let n := 16 * acc + d
      match left with
      | left + 1 => stringBody (.hex n left) s
      | 0 => if isHigh n then stringBody (.high n) s else emit (codeChar n) (stringBody .plain s)
  | .high h, c :: s =>
    if c = '"' then some ([codeChar h], s)
    else if c = '\\' then stringBody (.highEscape h) s
    else if c.toNat < 32 then none
    else emit (codeChar h) (emit c (stringBody .plain s))
  | .highEscape h, c :: s =>
    if c = 'u' then stringBody (.highHex h 0 3) s
    else
      match unescape c with
      | some d => emit (codeChar h) (emit d (stringBody .plain s))
      | none => none
  | .highHex h acc left, c :: s =>
    match hexVal c with
    | none => none
    | some d =>
      let n := 16 * acc + d
      match left with
      | left + 1 => stringBody (.highHex h n left) s
      | 0 =>
        if isLow n then emit (codeChar (joinPair h n)) (stringBody .plain s)
        else if isHigh n then emit (codeChar h) (stringBody (.high n) s)
        else emit (codeChar h) (emit (codeChar n) (stringBody .plain s))

/-- The digits before a point or an exponent. -/
def scanInt : List Char → Option (List Char × List Char)
  | [] => none
  | c :: s =>
    if c = '0' then some (['0'], s)
    else if c.isDigit then some (c :: s.takeWhile Char.isDigit, s.dropWhile Char.isDigit)
    else none

/-- A point with digits behind it, if there is one. -/
def scanFrac (s : List Char) : List Char × List Char :=
  match s with
  | [] => ([], s)
  | c :: t =>
    if c = '.' ∧ t.takeWhile Char.isDigit ≠ [] then
      (c :: t.takeWhile Char.isDigit, t.dropWhile Char.isDigit)
    else ([], s)

def scanSign : List Char → List Char × List Char
  | [] => ([], [])
  | c :: s => if c = '+' ∨ c = '-' then ([c], s) else ([], c :: s)

/-- An exponent with its digits, if there is one. -/
def scanExp (s : List Char) : List Char × List Char :=
  match s with
  | [] => ([], s)
  | c :: t =>
    let u := (scanSign t).2
    if (c = 'e' ∨ c = 'E') ∧ u.takeWhile Char.isDigit ≠ [] then
      (c :: (scanSign t).1 ++ u.takeWhile Char.isDigit, u.dropWhile Char.isDigit)
    else ([], s)

/-- `sys.get_int_max_str_digits()`. -/
def maxDigits : Nat := 4300

def signed (negative : Bool) (n : Nat) : Int := if negative then -(n : Int) else n

/-- A number, after its sign. -/
def unsigned (R : Reader) (negative : Bool) (s : List Char) : Option (Json × List Char) :=
  match scanInt s with
  | none => none
  | some (ds, t) =>
    let frac := scanFrac t
    let exp := scanExp frac.2
    if frac.1 = [] ∧ exp.1 = [] then
      if ds.length ≤ maxDigits then some (.int (signed negative (Nat.ofDigitChars 10 ds 0)), exp.2)
      else none
    else
      let token := (if negative then ['-'] else []) ++ ds ++ frac.1 ++ exp.1
      let x := R.float (String.ofList token)
      some (.float x.1 x.2, exp.2)

def number (R : Reader) : List Char → Option (Json × List Char)
  | [] => none
  | c :: s => if c = '-' then unsigned R true s else unsigned R false (c :: s)

/-- The words of the language. -/
def words : List (List Char × Json) :=
  [("null".toList, .null), ("true".toList, .bool true), ("false".toList, .bool false),
    ("NaN".toList, .float "NaN" false), ("Infinity".toList, .float "Infinity" false),
    ("-Infinity".toList, .float "-Infinity" false)]

def word (s : List Char) : Option (Json × List Char) :=
  words.findSome? fun e => if e.1.isPrefixOf s then some (e.2, s.drop e.1.length) else none

def scalar (R : Reader) : Parser Json := fun s =>
  match word s with
  | some x => .ok x
  | none =>
    match number R s with
    | some x => .ok x
    | none => .error .valueError

/-- Items with commas between them, up to the closing bracket; the first argument bounds their
number. -/
def sequence {α : Type} (item : Parser α) (close : Char) : Nat → Parser (List α)
  | 0, _ => .error .valueError
  | n + 1, s =>
    match item s with
    | .error e => .error e
    | .ok (v, r) =>
      match skip r with
      | [] => .error .valueError
      | c :: t =>
        if c = close then .ok ([v], t)
        else if c = ',' then
          match sequence item close n (skip t) with
          | .error e => .error e
          | .ok (vs, u) => .ok (v :: vs, u)
        else .error .valueError

/-- What follows an opening bracket. -/
def bracketed {α : Type} (item : Parser α) (close : Char) : Parser (List α) := fun s =>
  match skip s with
  | [] => .error .valueError
  | c :: t => if c = close then .ok ([], t) else sequence item close (c :: t).length (c :: t)

/-- `"key": value`. -/
def member (p : Parser Json) : Parser (String × Json) := fun s =>
  match s with
  | [] => .error .valueError
  | c :: s =>
    if c = '"' then
      match stringBody .plain s with
      | none => .error .valueError
      | some (key, r) =>
        match skip r with
        | [] => .error .valueError
        | c :: t =>
          if c = ':' then
            match p (skip t) with
            | .error e => .error e
            | .ok (v, u) => .ok ((String.ofList key, v), u)
          else .error .valueError
    else .error .valueError

/-- `dict(pairs)`. -/
def ofPairs (pairs : List (String × Json)) : Json :=
  .obj (pairs.foldl (fun d e => Dict.set d e.1 e.2) [])

/-- A list or a dict, from its opening bracket on; `p` reads what is inside. -/
def container (p : Parser Json) (c : Char) : Parser Json := fun s =>
  if c = '[' then
    match bracketed p ']' s with
    | .error e => .error e
    | .ok (vs, r) => .ok (.arr vs, r)
  else
    match bracketed (member p) '\x7d' s with
    | .error e => .error e
    | .ok (kvs, r) => .ok (ofPairs kvs, r)

/-- A value whose lists and dicts are read by `inner`. -/
def valueWith (R : Reader) (inner : Char → Parser Json) : Parser Json := fun s =>
  match s with
  | [] => .error .valueError
  | c :: t =>
    if c = '"' then
      match stringBody .plain t with
      | some (x, r) => .ok (.str (String.ofList x), r)
      | none => .error .valueError
    else if c = '[' ∨ c = '\x7b' then inner c t
    else scalar R (c :: t)

/-- A value, nested at most as deep as the first argument says. -/
def value (R : Reader) : Nat → Parser Json
  | 0 => valueWith R fun _ _ => .error .recursionError
  | d + 1 => valueWith R (container (value R d))

/-- A whole text. -/
def loadsText (R : Reader) (s : List Char) : Except Fault Json :=
  match value R R.depth (skip s) with
  | .error e => .error e
  | .ok (v, r) => if skip r = [] then .ok v else .error .valueError

/-! ## Encodings -/

inductive Encoding where
  | utf8
  | utf16 (big : Bool)
  | utf32 (big : Bool)
  deriving DecidableEq, Repr

/-- `json.detect_encoding`, with the length of the byte order mark. -/
def detectEncoding (b : List UInt8) : Encoding × Nat :=
  if [0x00, 0x00, 0xFE, 0xFF].isPrefixOf b then (.utf32 true, 4)
  else if [0xFF, 0xFE, 0x00, 0x00].isPrefixOf b then (.utf32 false, 4)
  else if [0xFE, 0xFF].isPrefixOf b then (.utf16 true, 2)
  else if [0xFF, 0xFE].isPrefixOf b then (.utf16 false, 2)
  else if [0xEF, 0xBB, 0xBF].isPrefixOf b then (.utf8, 3)
  else
    match b with
    | b0 :: b1 :: b2 :: b3 :: _ =>
      if b0 = 0 then (if b1 = 0 then .utf32 true else .utf16 true, 0)
      else if b1 = 0 then (if b2 = 0 ∧ b3 = 0 then .utf32 false else .utf16 false, 0)
      else (.utf8, 0)
    | [b0, b1] =>
      if b0 = 0 then (.utf16 true, 0) else if b1 = 0 then (.utf16 false, 0) else (.utf8, 0)
    | _ => (.utf8, 0)

/-- A continuation byte. -/
def isTail (b : UInt8) : Bool := decide (0x80 ≤ b ∧ b ≤ 0xBF)

/-- One more code point of a decoded text. -/
def push (n : Nat) (r : Option (List Nat)) : Option (List Nat) := r.map (n :: ·)

/-- UTF-8, with surrogates (`surrogatepass`). -/
def utf8 : List UInt8 → Option (List Nat)
  | [] => some []
  | b :: s =>
    if b < 0x80 then push b.toNat (utf8 s)
    else
      match s with
      | [] => none
      | c :: s =>
        if 0xC2 ≤ b ∧ b ≤ 0xDF then
          if isTail c then push ((b.toNat - 0xC0) * 64 + (c.toNat - 0x80)) (utf8 s) else none
        else
          match s with
          | [] => none
          | d :: s =>
            if 0xE0 ≤ b ∧ b ≤ 0xEF then
              let n := (b.toNat - 0xE0) * 4096 + (c.toNat - 0x80) * 64 + (d.toNat - 0x80)
              if isTail c ∧ isTail d ∧ 0x800 ≤ n then push n (utf8 s) else none
            else
              match s with
              | [] => none
              | e :: s =>
                let n := (b.toNat - 0xF0) * 262144 + (c.toNat - 0x80) * 4096 +
                  (d.toNat - 0x80) * 64 + (e.toNat - 0x80)
                if 0xF0 ≤ b ∧ b ≤ 0xF4 ∧ isTail c ∧ isTail d ∧ isTail e ∧ 0x10000 ≤ n ∧
                    n ≤ 0x10FFFF then push n (utf8 s)
                else none

/-- The 16-bit units of a text. -/
def units (big : Bool) : List UInt8 → Option (List Nat)
  | [] => some []
  | [_] => none
  | a :: b :: s =>
    push (if big then a.toNat * 256 + b.toNat else b.toNat * 256 + a.toNat) (units big s)

/-- Surrogate pairs become one code point; lone surrogates stay. -/
def joinUnits : List Nat → List Nat
  | [] => []
  | [u] => [u]
  | u :: v :: us =>
    if isHigh u && isLow v then joinPair u v :: joinUnits us else u :: joinUnits (v :: us)

/-- A 32-bit unit. -/
def quad (big : Bool) (a b c d : UInt8) : Nat :=
  if big then ((a.toNat * 256 + b.toNat) * 256 + c.toNat) * 256 + d.toNat
  else ((d.toNat * 256 + c.toNat) * 256 + b.toNat) * 256 + a.toNat

/-- UTF-32, with surrogates. -/
def utf32 (big : Bool) : List UInt8 → Option (List Nat)
  | [] => some []
  | [_] | [_, _] | [_, _, _] => none
  | a :: b :: c :: d :: s =>
    if quad big a b c d ≤ 0x10FFFF then push (quad big a b c d) (utf32 big s) else none

def codePoints : Encoding → List UInt8 → Option (List Nat)
  | .utf8, b => utf8 b
  | .utf16 big, b => (units big b).map joinUnits
  | .utf32 big, b => utf32 big b

/-- `b.decode(detect_encoding(b), "surrogatepass")`. -/
def decode (b : List UInt8) : Option (List Char) :=
  (codePoints (detectEncoding b).1 (b.drop (detectEncoding b).2)).map fun ns => ns.map codeChar

/-- `json.loads` on bytes. -/
def loads (R : Reader) (b : List UInt8) : Except Fault Json :=
  match decode b with
  | none => .error .valueError
  | some s => loadsText R s

end Json

end StrixPEP
