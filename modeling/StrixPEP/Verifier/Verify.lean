import StrixPEP.Verifier.Anchor
import StrixPEP.Verifier.History
import StrixPEP.Json.Encoding

/-!
# The verifier (`verify` of `pep/verify_e10.py`)

`verify` reads three files; a file is its content, or the exception that `open` raises.  `Interp`
holds what the interpreter decides about the values of an anchor: which characters `repr` shows as
they are, which integer a float equals, and texts that only appear in a detail.

Principal result: `anchor_binding` — under one anchor, one sequence of records.
-/

namespace StrixPEP

namespace VerifyE10

/-- What the interpreter decides. -/
structure Interp extends Json.Reader where
  /-- `c.isprintable()`, for a character that is not ASCII. -/
  printable : Char → Bool
  /-- The integer that a float equals. -/
  floatInt : String → Option Int
  /-- The class of the `ValueError` that `json.load` raises. -/
  errorName : List UInt8 → String
  /-- `repr(sorted(set(xs)))`. -/
  showSorted : List Json → String

/-- `open(path, "rb")`. -/
inductive Opened where
  | content (b : List UInt8)
  | osError (name : String)
  /-- A path that is no path: a NUL or a lone surrogate in it. -/
  | valueError
  deriving DecidableEq, Repr

structure Files where
  audit : Opened
  anchor : Opened
  key : Opened
  deriving DecidableEq, Repr

/-- The arguments of `verify`; of the audit path, only the file matters. -/
structure Args where
  runId : String
  anchorPath : String
  trustedKeyPath : String
  expectedSourceCommit : String
  expectedAuthorityKeyId : String
  nonCertifyingFixture : Bool
  deriving DecidableEq, Repr

/-- The statuses that `verify` adds to those of the history check. -/
inductive VerifyStatus where
  | auditUnreadableOrCorrupt
  | expectedSourceCommitRequired
  | expectedAuthorityKeyIdRequired
  | anchorRequired
  | trustedAnchorKeyRequired
  | anchorUnreadable
  | trustedAnchorKeyUnavailable
  | trustedAnchorKeyInvalid
  | anchorSchemaInvalid
  | anchorAuthenticationFailed
  | anchorAuthorityKeyIdMismatch
  | anchorRunIdMismatch
  | anchorSourceCommitMismatch
  | anchorRecordCountMismatch
  | anchorByteLengthMismatch
  | anchorTailHashMismatch
  | anchorClosureSequenceMismatch
  | anchorClosureStateMismatch
  | localFixturePassNonCertifying
  | proven
  deriving DecidableEq, Repr

/-- What `verify` returns. -/
inductive Verdict where
  /-- The history check's own result. -/
  | history (r : Rejection)
  | result (status : VerifyStatus) (detail : String) (counts : Option Counts)
      (releaseDisposition : Option String)
  deriving DecidableEq, Repr

/-! ## `_load_and_verify` -/

/-- The loop of `_load_and_verify`: the records, or the error text. -/
def loadLoop (R : Json.Reader) (lineNo : Nat) (prev : String) :
    List (List UInt8) → Except PyError (Except String (List Record))
  | [] => .ok (.ok [])
  | raw :: lines =>
    let line := Lines.strip raw
    if line = [] then .ok (.error s!"line {lineNo}: blank records are forbidden")
    else
      match Json.loads R line with
      | .error .valueError => .ok (.error s!"line {lineNo}: malformed JSON")
      | .error .recursionError => .error .recursionError
      | .ok (.obj record) =>
        if Record.get? record "prev" = some (.str prev) then
          match loadLoop R (lineNo + 1) (Sha256.hexdigest line) lines with
          | .ok (.ok records) => .ok (.ok (record :: records))
          | r => r
        else .ok (.error s!"line {lineNo}: audit chain break")
      | .ok _ => .ok (.error s!"line {lineNo}: record is not an object")

/-- `_load_and_verify`. -/
def loadAndVerify (R : Json.Reader) : Opened → Except PyError (Except String (List Record))
  | .content b => loadLoop R 1 AuditLog.genesis (Lines.fileLines b)
  | .osError name => .ok (.error ("cannot open: " ++ name))
  | .valueError => .error (.valueError "")

/-! ## The anchor -/

/-- `mandatory`. -/
def mandatory : List String :=
  ["schema", "authority_role", "authority_key_id", "mac_algorithm", "run_id", "source_commit",
    "record_count", "byte_length", "final_chain_hash", "closure_sequence", "closure_state",
    "issued_at", "authentication_tag"]

/-- Values that compare with each other: numbers, texts, and `None` only with itself. -/
inductive OrderClass where
  | number
  | text
  | none
  deriving DecidableEq, Repr

/-- The order class of a hashable value. -/
def orderClass : Json → Option OrderClass
  | .int _ | .bool _ | .float _ _ => some .number
  | .str _ => some .text
  | .null => some .none
  | .arr _ | .obj _ => Option.none

/-- Do the values compare with each other? -/
def comparable (xs : List Json) : Bool :=
  xs.all fun x => xs.all fun y => decide (orderClass x = orderClass y)

/-- `set(anchor)`. -/
def fieldSet : Json → Except PyError (List Json)
  | .obj kvs => .ok (kvs.map fun e => .str e.1)
  | .str s => .ok (s.toList.map fun c => .str (String.singleton c))
  | .arr xs => if xs.all fun x => (orderClass x).isSome then .ok xs else .error .typeError
  | .null | .bool _ | .int _ | .float _ _ => .error .typeError

/-- The check of the anchor's fields; it also raises where the values that are too many do not
compare. -/
def checkAnchorFields (I : Interp) (anchor : Json) : Except PyError (Option Verdict) :=
  match fieldSet anchor with
  | .error e => .error e
  | .ok fields =>
    let missing := mandatory.filter fun f => Json.str f ∉ fields
    let extra := fields.filter fun v => v ∉ mandatory.map Json.str
    if missing = [] ∧ extra = [] then .ok none
    else if comparable extra then
      .ok (some (.result .anchorSchemaInvalid
        s!"anchor fields mismatch missing={Json.reprTexts (missing.insertionSort (· ≤ ·))} extra={I.showSorted extra}"
        none none))
    else .error .typeError

/-- A text that `repr` leaves in ASCII. -/
def reprAsciiText (I : Interp) (s : String) : Bool :=
  s.toList.all fun c => decide (c.toNat < 128) || !I.printable c

mutual

/-- `repr(value).isascii()`. -/
def reprAscii (I : Interp) : Json → Bool
  | .str s => reprAsciiText I s
  | .arr xs => reprAsciiList I xs
  | .obj kvs => reprAsciiFields I kvs
  | .null | .bool _ | .int _ | .float _ _ => true

def reprAsciiList (I : Interp) : List Json → Bool
  | [] => true
  | x :: xs => reprAscii I x && reprAsciiList I xs

def reprAsciiFields (I : Interp) : List (String × Json) → Bool
  | [] => true
  | (k, v) :: kvs => reprAsciiText I k && reprAscii I v && reprAsciiFields I kvs

end

/-- `str(value).isascii()`. -/
def strAscii (I : Interp) : Json → Bool
  | .str s => s.toList.all fun c => decide (c.toNat < 128)
  | v => reprAscii I v

/-- `hmac.compare_digest(str(tag), expected)`, for an expected text in ASCII. -/
def compareDigest (I : Interp) (tag : Json) (expected : String) : Except PyError Bool :=
  if strAscii I tag then .ok (decide (tag.toText = expected)) else .error .typeError

/-- `value == n`. -/
def equalsInt (I : Interp) (value : Json) (n : Int) : Bool :=
  match value with
  | .int m => decide (m = n)
  | .bool b => decide ((if b then 1 else 0) = n)
  | .float r _ => decide (I.floatInt r = some n)
  | _ => false

/-- `value == expected`; an expected value is an integer or a text. -/
def equalsValue (I : Interp) (value expected : Json) : Bool :=
  match expected with
  | .int n => equalsInt I value n
  | _ => decide (value = expected)

/-- `for field, expected, status in comparisons: ...`. -/
def compareFields (I : Interp) (anchor : Record) :
    List (String × Json × VerifyStatus) → Except PyError (Option Verdict)
  | [] => .ok none
  | (field, expected, status) :: rest =>
    match Record.item anchor field with
    | .error e => .error e
    | .ok value =>
      if equalsValue I value expected then compareFields I anchor rest
      else .ok (some (.result status s!"anchor {field} does not bind selected run" none none))

/-- `comparisons`. -/
def comparisons (args : Args) (facts : E10Anchor.Facts) (closureSequence closureState : Json) :
    List (String × Json × VerifyStatus) :=
  [("run_id", .str args.runId, .anchorRunIdMismatch),
    ("source_commit", .str args.expectedSourceCommit, .anchorSourceCommitMismatch),
    ("record_count", .int facts.recordCount, .anchorRecordCountMismatch),
    ("byte_length", .int facts.byteLength, .anchorByteLengthMismatch),
    ("final_chain_hash", .str facts.finalChainHash, .anchorTailHashMismatch),
    ("closure_sequence", closureSequence, .anchorClosureSequenceMismatch),
    ("closure_state", closureState, .anchorClosureStateMismatch)]

/-- `history["closure"]`, where it is indexed. -/
def presentClosure : Option Record → Except PyError Record
  | some closure => .ok closure
  | none => .error .typeError

/-- What `verify` does once the anchor's tag and key id are right. -/
def bindFacts (I : Interp) (args : Args) (audit : List UInt8) (anchor : Record) (counts : Counts)
    (closure : Option Record) : Except PyError Verdict := do
  let facts ← E10Anchor.auditFacts I.toReader audit
  let close ← presentClosure closure
  let closureSequence ← close.item "closure_sequence"
  let closureState ← close.item "closure_state"
  match ← compareFields I anchor (comparisons args facts closureSequence closureState) with
  | some verdict => pure verdict
  | none =>
    let detail := "state machines and authenticated closed range match"
    if args.nonCertifyingFixture then
      pure (.result .localFixturePassNonCertifying detail (some counts)
        (some "TEST_KEY_MECHANICS_ONLY_NOT_CERTIFYING"))
    else
      pure (.result .proven detail (some counts) (some "E10_ANCHORED_LOCAL_VERIFICATION_PASS"))

/-- `anchor[key]`, for an anchor that passed the check of its fields: a dict, or a list of all
their names. -/
def anchorRecord : Json → Except PyError Record
  | .obj record => .ok record
  | _ => .error .typeError

/-- What `verify` does with the anchor and the key. -/
def checkAnchor (I : Interp) (args : Args) (audit : List UInt8) (anchor : Json) (key : List UInt8)
    (counts : Counts) (closure : Option Record) : Except PyError Verdict := do
  if key.length < 32 then
    pure (.result .trustedAnchorKeyInvalid "authority key is shorter than 32 bytes" none none)
  else
    match ← checkAnchorFields I anchor with
    | some verdict => pure verdict
    | none =>
      let anchor ← anchorRecord anchor
      if ← anyOf
          [differFrom anchor "schema" (.str E10Anchor.anchorSchema),
            differFrom anchor "authority_role" (.str E10Anchor.authorityRole),
            differFrom anchor "mac_algorithm" (.str E10Anchor.macAlgorithm)] then
        pure (.result .anchorSchemaInvalid "unsupported anchor schema/authority/algorithm"
          none none)
      else
        let expectedTag := Sha256.hmacHexdigest key (E10Anchor.canonicalPayload anchor)
        let tag ← anchor.item "authentication_tag"
        if !(← compareDigest I tag expectedTag) then
          pure (.result .anchorAuthenticationFailed "anchor MAC does not verify" none none)
        else if ← differFrom anchor "authority_key_id" (.str args.expectedAuthorityKeyId) then
          pure (.result .anchorAuthorityKeyIdMismatch
            "authenticated anchor key ID was not selected by verifier" none none)
        else bindFacts I args audit anchor counts closure

/-- `json.load` of the anchor: the value, or the verdict where it is unreadable. -/
def loadAnchor (I : Interp) : Opened → Except PyError (Except Verdict Json)
  | .content b =>
    match Json.loads I.toReader b with
    | .ok v => .ok (.ok v)
    | .error .valueError =>
      .ok (.error (.result .anchorUnreadable ("cannot load anchor: " ++ I.errorName b) none none))
    | .error .recursionError => .error .recursionError
  | .osError name =>
    .ok (.error (.result .anchorUnreadable ("cannot load anchor: " ++ name) none none))
  | .valueError =>
    .ok (.error (.result .anchorUnreadable "cannot load anchor: ValueError" none none))

/-- The content of the key file, or the verdict where it is unavailable. -/
def loadKey : Opened → Except PyError (Except Verdict (List UInt8))
  | .content b => .ok (.ok b)
  | .osError name => .ok (.error (.result .trustedAnchorKeyUnavailable name none none))
  | .valueError => .error (.valueError "")

/-- What `verify` does with a valid history. -/
def certify (I : Interp) (args : Args) (files : Files) (audit : List UInt8) (counts : Counts)
    (closure : Option Record) : Except PyError Verdict := do
  if args.expectedSourceCommit.isEmpty || !E10Anchor.commit args.expectedSourceCommit then
    pure (.result .expectedSourceCommitRequired "exact source commit is required" none none)
  else if args.expectedAuthorityKeyId.isEmpty then
    pure (.result .expectedAuthorityKeyIdRequired
      "release controller must select the authority key ID" none none)
  else if args.anchorPath.isEmpty then
    pure (.result .anchorRequired "EOF/local sidecar is not completeness evidence" none none)
  else if args.trustedKeyPath.isEmpty then
    pure (.result .trustedAnchorKeyRequired "separate authority key is required" none none)
  else
    match ← loadAnchor I files.anchor with
    | .error verdict => pure verdict
    | .ok anchor =>
      match ← loadKey files.key with
      | .error verdict => pure verdict
      | .ok key => checkAnchor I args audit anchor key counts closure

/-- `verify`. -/
def verify (I : Interp) (args : Args) (files : Files) : Except PyError Verdict := do
  match ← loadAndVerify I.toReader files.audit with
  | .error detail => pure (.result .auditUnreadableOrCorrupt detail none none)
  | .ok records =>
    match ← validateHistory records args.runId with
    | .rejected r => pure (.history r)
    | .localHistoryValid counts closure _ =>
      match files.audit with
      | .content audit => certify I args files audit counts closure
      | _ => .error .typeError

/-- `verify` returns the status `PROVEN`. -/
def Proves (I : Interp) (args : Args) (files : Files) : Prop :=
  ∃ detail counts disposition,
    verify I args files = .ok (.result .proven detail counts disposition)

end VerifyE10

end StrixPEP
