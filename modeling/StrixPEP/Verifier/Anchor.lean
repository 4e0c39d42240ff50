import StrixPEP.Json.Text
import StrixPEP.Lib.HashChain
import StrixPEP.Lib.Lines
import StrixPEP.Audit.AuditLog
import StrixPEP.Verifier.Schema

/-!
# The close anchor (`pep/e10_anchor.py`)

* `canonicalPayload`, `auditFacts`, `buildAnchor` — the functions of the module;
* `Linked` — a chain of lines: each parses to a dict whose `prev` is the hash of the line before.

Principal result: `auditFacts_ok` — what a call that returns says about the lines of the file.
-/

namespace StrixPEP

/-- The link of a line in the audit chain. -/
def linkOf (R : Json.Reader) (line : List UInt8) : Option String :=
  match Json.loads R line with
  | .ok (.obj record) =>
    match Record.get? record "prev" with
    | some (.str prev) => some prev
    | _ => none
  | _ => none

/-- The lines form a chain from `prev` on. -/
def Linked (R : Json.Reader) : String → List (List UInt8) → Prop :=
  HashChain.Chain (linkOf R) Sha256.hexdigest

/-- The hash of the last line. -/
def chainTail : String → List (List UInt8) → String := HashChain.tail Sha256.hexdigest

theorem linkOf_eq_some {R : Json.Reader} {line : List UInt8} {prev : String} :
    linkOf R line = some prev ↔
      ∃ record, Json.loads R line = .ok (.obj record) ∧
        Record.get? record "prev" = some (.str prev) := by
  unfold linkOf
  constructor
  · intro h
    split at h
    · rename_i record hr
      split at h
      · rename_i p hp
        cases h
        exact ⟨record, hr, hp⟩
      · cases h
    · cases h
  · rintro ⟨record, hr, hp⟩
    rw [hr]
    simp only [hp]

namespace E10Anchor

/-- `ANCHOR_SCHEMA`. -/
def anchorSchema : String := "E10-close-anchor-v1"

/-- `RUN_CLOSE_SCHEMA`. -/
def runCloseSchema : String := "E10-run-close-v1"

/-- `MAC_ALGORITHM`. -/
def macAlgorithm : String := "HMAC-SHA256"

/-- `AUTHORITY_ROLE`. -/
def authorityRole : String := "CONTROL_PLANE_CLOSE_AUTHORITY"

/-- `COMMIT.fullmatch(s)`. -/
def commit (s : String) : Bool :=
  (s.toList.length == 40 || s.toList.length == 64) && s.toList.all VerifyE10.isHexChar

/-- `canonical_payload`. -/
def canonicalPayload (anchor : Record) : List UInt8 :=
  (Json.dumps (.obj (anchor.filter fun e => e.1 ≠ "authentication_tag"))).toUTF8.toList

/-- The dict that `audit_facts` returns. -/
structure Facts where
  recordCount : Nat
  byteLength : Nat
  finalChainHash : String
  lastRecord : Option Record
  deriving DecidableEq, Repr

/-- The loop of `audit_facts`, from a line on: `count`, `tail` and `last` are its variables. -/
def factsLoop (R : Json.Reader) (lineNo count : Nat) (tail : String) (last : Option Record) :
    List (List UInt8) → Except PyError (Nat × String × Option Record)
  | [] => .ok (count, tail, last)
  | raw :: lines =>
    let line := Lines.strip raw
    if line = [] then factsLoop R (lineNo + 1) count tail last lines
    else
      match Json.loads R line with
      | .error .valueError => .error (.valueError s!"line {lineNo}: malformed JSON")
      | .error .recursionError => .error .recursionError
      | .ok (.obj record) =>
        if Record.get? record "prev" = some (.str tail) then
          factsLoop R (lineNo + 1) (count + 1) (Sha256.hexdigest line) (some record) lines
        else .error (.valueError s!"line {lineNo}: audit chain break")
      | .ok _ => .error .attributeError

/-- `audit_facts`, on the content of the file. -/
def auditFacts (R : Json.Reader) (rawFile : List UInt8) : Except PyError Facts :=
  match factsLoop R 1 0 AuditLog.genesis none (Lines.splitLines rawFile) with
  | .error e => .error e
  | .ok (count, tail, last) => .ok ⟨count, rawFile.length, tail, last⟩

/-- The anchor without its tag. -/
def unsignedAnchor (facts : Facts) (close : Record) (runId sourceCommit keyId issuedAt : String) :
    Record :=
  [("schema", .str anchorSchema), ("authority_role", .str authorityRole),
    ("authority_key_id", .str keyId), ("mac_algorithm", .str macAlgorithm),
    ("run_id", .str runId), ("source_commit", .str sourceCommit),
    ("record_count", .int facts.recordCount), ("byte_length", .int facts.byteLength),
    ("final_chain_hash", .str facts.finalChainHash),
    ("closure_sequence", (Record.get? close "closure_sequence").getD .null),
    ("closure_state", (Record.get? close "closure_state").getD .null),
    ("issued_at", .str issuedAt)]

/-- `build_anchor`; `now` is what `time.strftime` gives where `issued_at` is missing. -/
def buildAnchor (R : Json.Reader) (rawFile : List UInt8) (expectedRunId sourceCommit : String)
    (key : List UInt8) (keyId : String) (issuedAt : Option String) (now : String) :
    Except PyError Record :=
  if expectedRunId.isEmpty then .error (.valueError "expected_run_id is required")
  else if !commit sourceCommit then
    .error (.valueError "source_commit must be a lowercase 40/64-hex object id")
  else if key.length < 32 then
    .error (.valueError "control-plane anchor key must contain at least 32 bytes")
  else if keyId.isEmpty then .error (.valueError "key_id is required")
  else
    match auditFacts R rawFile with
    | .error e => .error e
    | .ok facts =>
      let close := facts.lastRecord.getD []
      if Record.get? close "decision" ≠ some (.str "RUN_CLOSED") then
        .error (.valueError "the final record is not RUN_CLOSED")
      else if Record.get? close "run_id" ≠ some (.str expectedRunId) then
        .error (.valueError "RUN_CLOSED does not bind expected_run_id")
      else if Record.get? close "closure_schema" ≠ some (.str runCloseSchema) then
        .error (.valueError "unsupported run closure schema")
      else
        let issued :=
          match issuedAt with
          | some t => if t.isEmpty then now else t
          | none => now
        let anchor := unsignedAnchor facts close expectedRunId sourceCommit keyId issued
        .ok (anchor ++ [("authentication_tag",
          .str (Sha256.hmacHexdigest key (canonicalPayload anchor)))])

/-! ## What the loop has seen -/

theorem factsLoop_ok {R : Json.Reader} {lineNo count : Nat} {tail : String} {last : Option Record}
    {lines : List (List UInt8)} {count' : Nat} {tail' : String} {last' : Option Record} :
    factsLoop R lineNo count tail last lines = .ok (count', tail', last') →
      Linked R tail (Lines.records lines) ∧ count' = count + (Lines.records lines).length ∧
        tail' = chainTail tail (Lines.records lines) := by
  induction lines generalizing lineNo count tail last with
  | nil =>
    intro h
    cases h
    exact ⟨trivial, rfl, rfl⟩
  | cons raw lines ih =>
    intro h
    rw [Lines.records_cons, Lines.records_singleton]
    simp only [factsLoop] at h
    split at h
    · rename_i hblank
      rw [if_pos hblank, List.nil_append]
      exact ih h
    · rename_i hblank
      rw [if_neg hblank, List.singleton_append]
      split at h
      · cases h
      · cases h
      · rename_i record hrec
        split at h
        · rename_i hprev
          obtain ⟨h1, h2, h3⟩ := ih h
          refine ⟨⟨linkOf_eq_some.2 ⟨record, hrec, hprev⟩, h1⟩, ?_, h3⟩
          rw [h2, List.length_cons]
          omega
        · cases h
      · cases h

/-- **What `audit_facts` has seen when it returns.** -/
theorem auditFacts_ok {R : Json.Reader} {rawFile : List UInt8} {facts : Facts}
    (h : auditFacts R rawFile = .ok facts) :
    Linked R AuditLog.genesis (Lines.records (Lines.splitLines rawFile)) ∧
      facts.recordCount = (Lines.records (Lines.splitLines rawFile)).length ∧
      facts.byteLength = rawFile.length ∧
      facts.finalChainHash =
        chainTail AuditLog.genesis (Lines.records (Lines.splitLines rawFile)) := by
  unfold auditFacts at h
  split at h
  · cases h
  · rename_i count tail last hloop
    cases h
    obtain ⟨h1, h2, h3⟩ := factsLoop_ok hloop
    exact ⟨h1, by rw [h2, Nat.zero_add], rfl, h3⟩

end E10Anchor

end StrixPEP
