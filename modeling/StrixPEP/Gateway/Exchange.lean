import StrixPEP.Audit.AuditLog

/-!
# One allowed exchange: its data and its texts

The values that the handler of a connection computes with: decisions of the PDP, pins, exceptions,
the parsed request head, the upstream status line and the sanitized intent.

* `readHead` — `_read_head` on the chunks received so far;
* `statusOf` — `int(chunk.split(b" ", 2)[1])`, with Python's `int` of a byte string;
* `sanitizedIntent`, `requestIntentDigest` — as in `pep/lifecycle.py`.

A head is decoded as Latin-1, so the text functions below are Python's on Latin-1 characters.
Texts hold no lone surrogates, hence `encode()` succeeds; the request that carries the secret, which may
hold one, is encoded by the environment (`Query.encodeRequest`).
-/

namespace StrixPEP

/-- `Family`. -/
inductive Family where
  | ipv4
  | ipv6
  deriving DecidableEq, Repr

def Family.text : Family → String
  | ipv4 => "ipv4"
  | ipv6 => "ipv6"

/-- `Pin`. -/
structure Pin where
  family : Family
  ip : String
  port : Nat
  deriving DecidableEq, Repr

/-- `as_tuple`. -/
def Pin.asTuple (p : Pin) : Value := .tuple [.str p.family.text, .str p.ip, .int p.port]

/-- `Decision`; `resolution` is read by nobody here. -/
structure Decision where
  allow : Bool
  reason : String
  pin : Option Pin
  secret : Option String
  programId : Option String
  detail : Option Record
  deriving DecidableEq, Repr

/-- `str((d.detail or {}).get("policy_generation", ""))`. -/
def Decision.policyGeneration (d : Decision) : String :=
  Record.textOr (d.detail.getD []) "policy_generation"

/-- `str((d.detail or {}).get("budget_binding", ""))`. -/
def Decision.budgetBinding (d : Decision) : String :=
  Record.textOr (d.detail.getD []) "budget_binding"

/-- `d.secret` where it is true. -/
def Decision.liveSecret (d : Decision) : Option String := d.secret.filter (· ≠ "")

/-- The classes of exceptions that some handler tells apart. -/
inductive ExnClass where
  | auditUnhealthy
  | cancelled
  | ca
  | certVerification
  | timeout
  /-- Any other `OSError` or `SSLError`. -/
  | os
  | other
  deriving DecidableEq, Repr

/-- An exception: `type(exc).__name__` and `str(exc)`. -/
structure Exn where
  cls : ExnClass
  name : String
  text : String
  deriving DecidableEq, Repr

namespace Exn

def auditUnhealthy : Exn := ⟨.auditUnhealthy, "AuditUnhealthy", ""⟩
def cancelled : Exn := ⟨.cancelled, "Cancelled", ""⟩
def lifecycleError : Exn := ⟨.other, "LifecycleError", ""⟩
def runtimeError : Exn := ⟨.other, "RuntimeError", ""⟩
def attributeError : Exn := ⟨.other, "AttributeError", ""⟩
def valueError : Exn := ⟨.other, "ValueError", ""⟩

/-- The `OSError` of this class name; `TimeoutError` is one. -/
def osError (name : String) : Exn := ⟨if name = "TimeoutError" then .timeout else .os, name, ""⟩

/-- `isinstance(exc, (ssl.SSLError, OSError))`. -/
def isOs (e : Exn) : Bool := decide (e.cls = .certVerification ∨ e.cls = .timeout ∨ e.cls = .os)

end Exn

/-! ## Texts -/

namespace PyText

/-- `f"{value}"` of a text or `None`. -/
def ofOption : Option String → String
  | none => "None"
  | some s => s

/-- The parts before and after the first occurrence. -/
def cut {α : Type} [BEq α] (sep : List α) : List α → Option (List α × List α)
  | [] => none
  | x :: xs =>
    if sep.isPrefixOf (x :: xs) then some ([], (x :: xs).drop sep.length)
    else (cut sep xs).map fun r => (x :: r.1, r.2)

/-- `text.split(sep, n)`. -/
def split {α : Type} [BEq α] (sep : List α) : Nat → List α → List (List α)
  | 0, text => [text]
  | n + 1, text =>
    match cut sep text with
    | none => [text]
    | some (before, after) => before :: split sep n after

/-- `text.split(sep)`. -/
def splitAll {α : Type} [BEq α] (sep text : List α) : List (List α) := split sep text.length text

/-- `text.rpartition(sep)`, if there is one. -/
def rpartition (sep : Char) (text : List Char) : Option (List Char × List Char) :=
  (cut [sep] text.reverse).map fun r => (r.2.reverse, r.1.reverse)

/-- White space among the Latin-1 characters. -/
def isSpace (c : Char) : Bool :=
  let n := c.toNat
  decide (9 ≤ n ∧ n ≤ 13 ∨ 28 ≤ n ∧ n ≤ 32 ∨ n = 0x85 ∨ n = 0xA0)

/-- `strip`. -/
def strip (text : List Char) : List Char :=
  ((text.dropWhile isSpace).reverse.dropWhile isSpace).reverse

/-- `lower`. -/
def lower (text : List Char) : List Char :=
  text.map fun c =>
    let n := c.toNat
    if 65 ≤ n ∧ n ≤ 90 ∨ 0xC0 ≤ n ∧ n ≤ 0xDE ∧ n ≠ 0xD7 then Char.ofNat (n + 32) else c

/-- `upper`. -/
def upper (text : String) : String :=
  String.ofList (text.toList.flatMap fun c =>
    let n := c.toNat
    if 97 ≤ n ∧ n ≤ 122 ∨ 0xE0 ≤ n ∧ n ≤ 0xFE ∧ n ≠ 0xF7 then [Char.ofNat (n - 32)]
    else if n = 0xDF then ['S', 'S']
    else if n = 0xFF then [Char.ofNat 0x178]
    else if n = 0xB5 then [Char.ofNat 0x39C]
    else [c])

def isAsciiDigit (c : Char) : Bool := decide (48 ≤ c.toNat ∧ c.toNat ≤ 57)

/-- `isdigit`, which also accepts the superscripts one to three. -/
def isDigits (text : List Char) : Bool :=
  !text.isEmpty && text.all fun c =>
    isAsciiDigit c || decide (c.toNat = 0xB2 ∨ c.toNat = 0xB3 ∨ c.toNat = 0xB9)

def ofDigits (text : List Char) : Nat := text.foldl (fun n c => 10 * n + (c.toNat - 48)) 0

/-- `int(text)` of a text for which `isdigit` holds; the superscripts and more than 4300 digits
raise `ValueError`. -/
def toPort (text : List Char) : Option Nat :=
  if text.all isAsciiDigit ∧ text.length ≤ 4300 then some (ofDigits text) else none

end PyText

/-! ## Bytes -/

abbrev Bytes := List UInt8

/-- `decode("latin-1")`. -/
def latin1 (b : Bytes) : List Char := b.map fun x => Char.ofNat x.toNat

/-- Digits, in which single underscores may stand between two digits. -/
def digitsOf : List Char → Option (List Char)
  | [] => none
  | [c] => if PyText.isAsciiDigit c then some [c] else none
  | c :: '_' :: rest => if PyText.isAsciiDigit c then (digitsOf rest).map (c :: ·) else none
  | c :: rest => if PyText.isAsciiDigit c then (digitsOf rest).map (c :: ·) else none

/-- `int(b)` of a byte string. -/
def pyInt (b : Bytes) : Option Int :=
  let space (c : Char) : Bool := decide (9 ≤ c.toNat ∧ c.toNat ≤ 13 ∨ c.toNat = 32)
  let text := (((latin1 b).dropWhile space).reverse.dropWhile space).reverse
  let (sign, body) : Int × List Char :=
    match text with
    | '-' :: rest => (-1, rest)
    | '+' :: rest => (1, rest)
    | rest => (1, rest)
  match digitsOf body with
  | some digits => if digits.length ≤ 4300 then some (sign * PyText.ofDigits digits) else none
  | none => none

/-- `status` after the first chunk. -/
def statusOf (chunk : Bytes) : Int :=
  match PyText.split [(32 : UInt8)] 2 chunk with
  | _ :: part :: _ => (pyInt part).getD 0
  | _ => 0

/-- `status` after the stream: the first chunk decides. -/
def streamStatus : List Bytes → Int
  | [] => 0
  | chunk :: _ => statusOf chunk

/-- `total` after the stream. -/
def streamTotal (chunks : List Bytes) : Nat := (chunks.map List.length).sum

/-- `h.hexdigest()` after the stream. -/
def streamHash (chunks : List Bytes) : String := Sha256.hexdigest chunks.flatten

/-! ## The request head -/

/-- `method, path, headers, rest`. -/
structure Head where
  method : String
  path : String
  headers : List (String × String)
  preBody : Bytes
  deriving DecidableEq, Repr

def crlf : Bytes := [13, 10]

/-- `_read_head` once the blank line is there. -/
def parseHead (head rest : Bytes) : Option Head :=
  match PyText.splitAll ['\r', '\n'] (latin1 head) with
  | [] => none
  | first :: lines =>
    match PyText.split [' '] 2 first with
    | [method, path, _] =>
      let headers := lines.foldl (fun d line =>
        match PyText.cut [':'] line with
        | none => d
        | some (k, v) =>
          Dict.set d (String.ofList (PyText.lower (PyText.strip k)))
            (String.ofList (PyText.strip v))) []
      some ⟨String.ofList method, String.ofList path, headers, rest⟩
    | _ => none

/-- How far `_read_head` comes with the chunks received so far. -/
inductive HeadRead where
  | head (h : Head)
  /-- `None` is returned. -/
  | malformed
  /-- Another `recv` is made. -/
  | more
  deriving DecidableEq, Repr

/-- What is returned once the blank line is in the buffer. -/
def endHead (buf : Bytes) : Option HeadRead :=
  match PyText.cut (crlf ++ crlf) buf with
  | none => none
  | some (head, rest) =>
    match parseHead head rest with
    | some h => some (.head h)
    | none => some .malformed

/-- The loop of `_read_head`. -/
def readHead (buf : Bytes) : List Bytes → HeadRead
  | [] => (endHead buf).getD .more
  | chunk :: chunks =>
    match endHead buf with
    | some r => r
    | none =>
      if (buf ++ chunk).length > 262144 then .malformed else readHead (buf ++ chunk) chunks

/-- The host part of the `Host` header. -/
def hostOf (headers : List (String × String)) : String :=
  let host := ((headers.lookup "host").getD "").toList
  match host with
  | '[' :: _ => String.ofList ((PyText.splitAll [']'] host).headD [] ++ [']'])
  | _ => String.ofList ((PyText.splitAll [':'] host).headD [])

/-! ## The connection and the intent -/

/-- `ConnectionState`, less its socket ownership (`ConnectionLifecycle`) and `started`. -/
structure ConnectionState where
  clientIp : String
  connId : String
  testNonce : String
  rowId : String
  pin : Option Pin
  canonical : Option String
  programId : Option String
  policyGeneration : String
  budgetBinding : String
  deriving DecidableEq, Repr

/-- `request_intent_digest`. -/
def requestIntentDigest (method : String) (authority : Option String) (path : String)
    (bodyLen : Nat) : String :=
  let canon := s!"v2\n{PyText.upper method}\n{PyText.ofOption authority}\n{path}\nbody_len={bodyLen}"
  "sha256:" ++ Sha256.hexdigest canon.toUTF8.toList

/-- The values of a sanitized intent. -/
structure Intent where
  runId : String
  attemptId : String
  connId : String
  epoch : Nat
  programId : String
  policyGeneration : String
  budgetBinding : String
  method : String
  canonicalHost : Option String
  pin : Option Pin
  credentialRef : String
  requestIntentDigest : String
  deriving DecidableEq, Repr

/-- `value or default` of a text. -/
def orElse (s default : String) : String := if s = "" then default else s

/-- `sanitized_intent`. -/
def sanitizedIntent (runId connId attemptId : String) (epoch : Nat)
    (programId policyGeneration method : String) (canonicalHost : Option String) (path : String)
    (pin : Option Pin) (credentialRef budgetBinding : String) (bodyLen : Nat) : Intent where
  runId := runId
  attemptId := attemptId
  connId := connId
  epoch := epoch
  programId := programId
  policyGeneration := policyGeneration
  budgetBinding := budgetBinding
  method := PyText.upper method
  canonicalHost := canonicalHost
  pin := pin
  credentialRef := orElse credentialRef "none"
  requestIntentDigest := requestIntentDigest method canonicalHost path bodyLen

end StrixPEP
