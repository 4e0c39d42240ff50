import Mathlib.Data.List.Infix
import StrixPEP.Pdp.Addressing

/-!
# Values of a policy

A policy is what `json.loads` returns.  The PDP reads it with Python's operations on values of any
type, which raise where the type does not have them:

* `truthy`, `orElse`, `get`, `getOr` — `bool(v)`, `v or d`, `v.get(k)`, `v.get(k, d)`;
* `hasText`, `hasPort`, `elements`, `textSet` — `text in v`, `port in v`, `iter(v)`, `set(v)`;
* `shown`, `display` — `repr(v)` and `str(v)`.

`Platform` is what the interpreter brings: the character database, the `idna` codec and `float`.
-/

namespace StrixPEP

open IpAddress (Text)

/-- What is read of floating point. -/
structure Floats where
  Value : Type
  /-- `float(value)`. -/
  ofJson : Json → Except PyError Value
  /-- `x <= y`. -/
  le : Value → Value → Bool
  /-- `x == n`, of the `float` with the text. -/
  equals : String → Nat → Bool
  /-- `n >= x`, of the `float` with the text. -/
  atMost : String → Nat → Bool
  zero : Value
  one : Value
  ofJson_one : ofJson (.int 1) = .ok one
  one_not_le : le one zero = false

/-- What the interpreter brings. -/
structure Platform where
  tables : CharTables
  idna : Text → Option Bytes
  upper : String → String
  floats : Floats
  upper_connect : upper "CONNECT" = "CONNECT"

namespace Json

/-- `bool(value)`. -/
def truthy : Json → Bool
  | .null => false
  | .bool b => b
  | .int n => n != 0
  | .float r _ => !(r == "0.0" || r == "-0.0")
  | .str s => s != ""
  | .arr xs => !xs.isEmpty
  | .obj kvs => !kvs.isEmpty

/-- `value or default`. -/
def orElse (v default : Json) : Json := if v.truthy then v else default

/-- `value.get(key)`. -/
def get (v : Json) (key : String) : Except PyError Json :=
  match v with
  | .obj kvs => .ok ((Record.get? kvs key).getD .null)
  | _ => .error .attributeError

/-- `value.get(key, default)`. -/
def getOr (v : Json) (key : String) (default : Json) : Except PyError Json :=
  match v with
  | .obj kvs => .ok ((Record.get? kvs key).getD default)
  | _ => .error .attributeError

/-- `value.get(key) or default`. -/
def field (v : Json) (key : String) (default : Json) : Except PyError Json :=
  (v.get key).map fun found => found.orElse default

/-- `text in value`. -/
def hasText (s : String) : Json → Except PyError Bool
  | .arr xs => .ok (decide (Json.str s ∈ xs))
  | .obj kvs => .ok (Record.has kvs s)
  | .str t => .ok (decide (s.toList <:+: t.toList))
  | _ => .error .typeError

/-- `value == n`. -/
def equals (floats : Floats) (n : Nat) : Json → Bool
  | .int m => decide (m = n)
  | .bool b => decide (b.toNat = n)
  | .float r _ => floats.equals r n
  | _ => false

/-- `n in value`. -/
def hasPort (floats : Floats) (n : Nat) : Json → Except PyError Bool
  | .arr xs => .ok (xs.any (equals floats n))
  | .obj _ => .ok false
  | _ => .error .typeError

/-- `iter(value)`. -/
def elements : Json → Except PyError (List Json)
  | .arr xs => .ok xs
  | .obj kvs => .ok (kvs.map fun e => .str e.1)
  | .str s => .ok (s.toList.map fun c => .str (String.singleton c))
  | _ => .error .typeError

def hashable : Json → Bool
  | .arr _ => false
  | .obj _ => false
  | _ => true

/-- The texts of `set(value)`. -/
def textSet (v : Json) : Except PyError (List String) :=
  match v.elements with
  | .error e => .error e
  | .ok xs =>
    if xs.all hashable then .ok (xs.filterMap fun | .str s => some s | _ => none)
    else .error .typeError

mutual

/-- `repr(value)`. -/
def shown : Json → String
  | .null => "None"
  | .bool b => if b then "True" else "False"
  | .int n => toString n
  | .float r finite => if finite then r else if r = "NaN" then "nan" else if r = "Infinity" then "inf" else "-inf"
  | .str s => reprText s
  | .arr xs => "[" ++ String.intercalate ", " (shownItems xs) ++ "]"
  | .obj kvs => "\x7b" ++ String.intercalate ", " (shownEntries kvs) ++ "\x7d"

def shownItems : List Json → List String
  | [] => []
  | v :: vs => shown v :: shownItems vs

def shownEntries : List (String × Json) → List String
  | [] => []
  | (k, v) :: kvs => (reprText k ++ ": " ++ shown v) :: shownEntries kvs

end

/-- `str(value)`. -/
def display : Json → String
  | .str s => s
  | v => shown v

theorem orElse_of_truthy {v d : Json} (h : v.truthy = true) : v.orElse d = v := if_pos h

theorem orElse_of_not {v d : Json} (h : v.truthy = false) : v.orElse d = d := if_neg (by simp [h])

theorem get_ok {v w : Json} {k : String} : v.get k = .ok w ↔
    ∃ kvs, v = .obj kvs ∧ (Record.get? kvs k).getD .null = w := by
  unfold get
  split
  · rename_i kvs
    constructor
    · intro h
      exact ⟨kvs, rfl, by simpa using h⟩
    · rintro ⟨kvs', he, hw⟩
      cases he
      rw [hw]
  · rename_i hne
    constructor
    · nofun
    · rintro ⟨kvs, rfl, -⟩
      exact absurd rfl (hne kvs)

theorem field_ok {v w d : Json} {k : String} : v.field k d = .ok w ↔
    ∃ found, v.get k = .ok found ∧ w = found.orElse d := by
  unfold field
  cases h : v.get k with
  | error e => simp [Except.map]
  | ok found =>
    simp only [Except.map, Except.ok.injEq, exists_eq_left']
    exact eq_comm

end Json

end StrixPEP
