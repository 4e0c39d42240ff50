import StrixPEP.Json
import Mathlib.Algebra.Ring.Int.Defs
import Mathlib.Data.List.Sort

/-!
# Record schemas of the E10 verifier (`pep/verify_e10.py`)

`Kind` enumerates the recognised decisions (`AUTH = "AUTH_COMMITTED"`, ...), `schemas` is
`SCHEMAS` and `schemaError` is `_schema_error`.  The Python function returns an error text
`STATUS: detail` or `""`; its only caller splits the text at the first `": "`, so here it stops
with that status and detail, or returns.  It can also raise: an unhashable decision, and a
timestamp too large for `math.isfinite`.

Where the source iterates over a set intersection, the order in which fields are tried (and so
which of several bad fields is named) is unspecified; here it is the order of the field list.
-/

namespace StrixPEP

/-- The recognised decisions. -/
inductive Kind where
  | auth
  | permit
  | permitReleased
  | attempted
  | completed
  | failed
  | unknown
  | cancelled
  | allow
  | cancelRequested
  | cancelLinearized
  | cancelAck
  | cancelDrainTimeout
  | runClosed
  | killSwitch
  | blockedByPolicy
  | connectionTerminated
  | startup
  | startupDegraded
  | startupFailed
  deriving DecidableEq, Repr

namespace Kind

/-- The text of a decision. -/
def text : Kind → String
  | auth => "AUTH_COMMITTED"
  | permit => "PERMIT_GRANTED"
  | permitReleased => "PERMIT_RELEASED"
  | attempted => "EFFECT_ATTEMPTED"
  | completed => "EFFECT_COMPLETED"
  | failed => "EFFECT_FAILED"
  | unknown => "EFFECT_OUTCOME_UNKNOWN"
  | cancelled => "EFFECT_CANCELLED"
  | allow => "ALLOW"
  | cancelRequested => "CANCELLATION_REQUESTED"
  | cancelLinearized => "CANCELLATION_LINEARIZED"
  | cancelAck => "CANCELLATION_ACK"
  | cancelDrainTimeout => "CANCELLATION_DRAIN_TIMEOUT"
  | runClosed => "RUN_CLOSED"
  | killSwitch => "KILL_SWITCH"
  | blockedByPolicy => "BLOCKED_BY_POLICY"
  | connectionTerminated => "CONNECTION_TERMINATED"
  | startup => "STARTUP"
  | startupDegraded => "STARTUP_DEGRADED"
  | startupFailed => "STARTUP_FAILED"

def all : List Kind :=
  [auth, permit, permitReleased, attempted, completed, failed, unknown, cancelled, allow,
    cancelRequested, cancelLinearized, cancelAck, cancelDrainTimeout, runClosed, killSwitch,
    blockedByPolicy, connectionTerminated, startup, startupDegraded, startupFailed]

/-- `decision in SCHEMAS`, for a text. -/
def ofText (s : String) : Option Kind := all.find? (fun k => k.text = s)

@[simp] theorem ofText_text (k : Kind) : ofText k.text = some k := by
  cases k <;> decide

theorem text_of_ofText {s : String} {k : Kind} (h : ofText s = some k) : k.text = s := by
  simpa using List.find?_some h

/-- `TERMINAL`. -/
def terminal : Kind → Bool
  | completed | failed | unknown | cancelled => true
  | _ => false

end Kind

/-- The decision of a record, if it is a recognised one. -/
def Record.kind? (r : Record) : Option Kind :=
  match r.get? "decision" with
  | some (.str s) => Kind.ofText s
  | _ => none

theorem Record.kind?_eq_some {r : Record} {k : Kind} :
    r.kind? = some k ↔ r.get? "decision" = some (.str k.text) := by
  unfold Record.kind?
  constructor
  · intro h
    split at h
    · rename_i s hs
      rw [hs, Kind.text_of_ofText h]
    · cases h
  · intro h
    rw [h]
    exact Kind.ofText_text k

namespace VerifyE10

/-- Result statuses of the verifier's history check. -/
inductive Status where
  | expectedRunIdRequired
  | noLifecycleRecords
  | wrongRunId
  | unknownDecision
  | malformedRecordSchema
  | replayedLifecycleSequence
  | quiescenceCountMismatch
  | recordAfterRunClosure
  | illegalRunTransition
  | contextBindingMismatch
  | illegalAttemptTransition
  | credentialLeak
  | authSequenceNotBeforeCancellation
  | permitWithoutIntent
  | bindingMismatch
  | lifecycleSequenceOrder
  | permitSequenceNotBeforeCancellation
  | postCancellationEffect
  | effectWithoutIntent
  | allowWithoutCompletion
  | duplicateAllow
  | releaseWithoutPermit
  | releaseBeforeTerminal
  | releaseBeforeAllow
  | duplicatePermitRelease
  | releaseBindingMismatch
  | releaseSequenceOrder
  | cancellationRequestBindingMismatch
  | killSwitchCardinalityOrder
  | incompleteAttempt
  | missingRequiredAllow
  | missingPermitRelease
  | inflightLinearizationMismatch
  | killSwitchBindingMismatch
  | falseCancellationDisposition
  | invalidRunClosure
  | orphanConnectionTerminated
  | duplicateConnectionTerminated
  | connectionTerminatedBindingMismatch
  | unvalidatedContextualRecord
  | missingKillSwitch
  | runNotClosed
  | missingCancellationLinearization
  | missingCancellationDisposition
  deriving DecidableEq, Repr

/-- `counts` of a result. -/
structure Counts where
  intents : Nat
  permits : Nat
  attempted : Nat
  completed : Nat
  outcomeUnknown : Nat
  allow : Nat
  released : Nat
  deriving DecidableEq, Repr

/-- `_result(status, detail, **extra)` for every status but `LOCAL_HISTORY_VALID`; `ids` is
`incomplete_attempt_ids` or `attempt_ids`, whichever the status has. -/
structure Rejection where
  status : Status
  detail : String
  counts : Option Counts := none
  ids : List String := []
  releaseDisposition : Option String := none
  deriving DecidableEq, Repr

/-- What the history check returns. -/
inductive Result where
  | rejected (r : Rejection)
  | localHistoryValid (counts : Counts) (closure : Option Record) (disposition : Option Kind)
  deriving DecidableEq, Repr

/-- A check ends early by returning a rejection or by raising. -/
inductive Stop where
  | returned (r : Rejection)
  | raised (e : PyError)
  deriving DecidableEq, Repr

abbrev Check := Except Stop

/-- `return _result(status, detail)`. -/
def reject {α : Type} (status : Status) (detail : String) : Check α :=
  .error (.returned { status := status, detail := detail })

/-- `if bad: return _result(status, detail)`. -/
def rejectIf (bad : Bool) (status : Status) (detail : String) : Check Unit :=
  if bad then reject status detail else .ok ()

/-- An expression that may raise. -/
def eval {α : Type} : Except PyError α → Check α
  | .ok a => .ok a
  | .error e => .error (.raised e)

/-- `x or y or ...`: left to right, up to the first that is true or raises. -/
def anyOf : List (Except PyError Bool) → Except PyError Bool
  | [] => .ok false
  | x :: xs =>
    match x with
    | .ok false => anyOf xs
    | r => r

/-- `x and y and ...`: left to right, up to the first that is false or raises. -/
def allOf : List (Except PyError Bool) → Except PyError Bool
  | [] => .ok true
  | x :: xs =>
    match x with
    | .ok true => allOf xs
    | r => r

/-- `if x or y or ...: return _result(status, detail)`. -/
def rejectAny (conds : List (Except PyError Bool)) (status : Status) (detail : String) :
    Check Unit := do
  rejectIf (← eval (anyOf conds)) status detail

theorem bind_ok {α β : Type} {x : Check α} {f : α → Check β} {b : β} :
    (x >>= f) = .ok b ↔ ∃ a, x = .ok a ∧ f a = .ok b := by
  cases x with
  | error e => simp [bind, Except.bind]
  | ok a => simp [bind, Except.bind]

theorem pure_ok {α : Type} {a b : α} : (pure a : Check α) = .ok b ↔ a = b := by
  simp [pure, Except.pure]

theorem rejectIf_ok {bad : Bool} {s : Status} {d : String} {u : Unit} :
    rejectIf bad s d = .ok u ↔ bad = false := by
  unfold rejectIf reject
  cases bad <;> simp

theorem eval_ok {α : Type} {x : Except PyError α} {a : α} : eval x = .ok a ↔ x = .ok a := by
  cases x <;> simp [eval]

theorem anyOf_false {xs : List (Except PyError Bool)} :
    anyOf xs = .ok false ↔ ∀ x ∈ xs, x = .ok false := by
  induction xs with
  | nil => simp [anyOf]
  | cons x xs ih =>
    unfold anyOf
    split
    · simp [ih]
    · rename_i h
      simp only [List.mem_cons, forall_eq_or_imp]
      exact ⟨fun e => absurd e h, fun e => absurd e.1 h⟩

theorem allOf_true {xs : List (Except PyError Bool)} :
    allOf xs = .ok true ↔ ∀ x ∈ xs, x = .ok true := by
  induction xs with
  | nil => simp [allOf]
  | cons x xs ih =>
    unfold allOf
    split
    · simp [ih]
    · rename_i h
      simp only [List.mem_cons, forall_eq_or_imp]
      exact ⟨fun e => absurd e h, fun e => absurd e.1 h⟩

theorem rejectAny_ok {xs : List (Except PyError Bool)} {s : Status} {d : String} {u : Unit} :
    rejectAny xs s d = .ok u ↔ ∀ x ∈ xs, x = .ok false := by
  unfold rejectAny
  simp only [bind_ok, eval_ok, rejectIf_ok, ← anyOf_false]
  constructor
  · rintro ⟨b, hb, rfl⟩; exact hb
  · intro h; exact ⟨false, h, rfl⟩

/-- `record[key] != other[key']`. -/
def differ (record : Record) (key : String) (other : Record) (key' : String) :
    Except PyError Bool := do
  let a ← record.item key
  let b ← other.item key'
  pure (decide (a ≠ b))

/-- `record[key] != value`. -/
def differFrom (record : Record) (key : String) (value : Json) : Except PyError Bool := do
  let a ← record.item key
  pure (decide (a ≠ value))

theorem differ_false {r s : Record} {k k' : String} :
    differ r k s k' = .ok false ↔ ∃ v, r.get? k = some v ∧ s.get? k' = some v := by
  unfold differ Record.item
  cases hr : r.get? k with
  | none => simp [bind, Except.bind]
  | some a =>
    cases hs : s.get? k' with
    | none => simp [bind, Except.bind]
    | some b =>
      simp only [bind, Except.bind, pure, Except.pure, Except.ok.injEq, decide_eq_false_iff_not,
        not_not, Option.some.injEq]
      exact ⟨fun h => ⟨a, rfl, h.symm⟩, fun ⟨v, h, h'⟩ => h.trans h'.symm⟩

theorem differFrom_false {r : Record} {k : String} {v : Json} :
    differFrom r k v = .ok false ↔ r.get? k = some v := by
  unfold differFrom Record.item
  cases hr : r.get? k with
  | none => simp [bind, Except.bind]
  | some a => simp [bind, Except.bind, pure, Except.pure]

/-! ## Texts -/

/-- A character of `[0-9a-f]`. -/
def isHexChar (c : Char) : Bool :=
  (decide (48 ≤ c.toNat) && decide (c.toNat ≤ 57)) ||
    (decide (97 ≤ c.toNat) && decide (c.toNat ≤ 102))

/-- `HEX64.fullmatch(s)`. -/
def hex64 (s : String) : Bool := s.toList.length == 64 && s.toList.all isHexChar

/-- `DIGEST.fullmatch(s)`. -/
def digest (s : String) : Bool :=
  match "sha256:".toList.isPrefixOf s.toList with
  | true => hex64 (String.ofList (s.toList.drop 7))
  | false => false

/-! ## The tables -/

/-- `COMMON`. -/
def common : List String := ["decision", "run_id", "ts", "prev"]

/-- `AUTH_FIELDS`. -/
def authFields : List String :=
  ["lifecycle_version", "attempt_id", "conn_id", "epoch", "program_id", "policy_generation",
    "budget_binding", "method", "canonical_host", "pin_family", "pin_ip", "pin_port",
    "credential_ref", "request_intent_digest", "lifecycle_seq"]

/-- `ALLOW_FIELDS`. -/
def allowFields : List String :=
  ["reason", "url", "method", "src", "program_id", "conn_id", "attempt_id", "test_nonce",
    "row_id", "tls_intercepted", "canonical_host", "sni", "pin_family", "pin_ip", "pin_port",
    "upstream_status", "redirect_followed", "credential_injected", "streamed_bytes",
    "request_hash", "request_hash_semantics", "response_hash"]

/-- `CANCEL_REQUIRED`. -/
def cancelRequired : List String :=
  ["cancellation_epoch", "lifecycle_seq", "local_drain_complete", "inflight_remaining",
    "effect_permits_remaining", "audit_producers_remaining", "listener_state",
    "external_enforcement"]

/-- `SCHEMAS`: required fields, allowed fields. -/
def schemas : Kind → List String × List String
  | .auth => (authFields, authFields)
  | .permit =>
    let f := ["attempt_id", "conn_id", "epoch", "lifecycle_seq", "policy_generation",
      "budget_binding"]
    (f, f)
  | .permitReleased =>
    let f := ["attempt_id", "conn_id", "epoch", "permit_seq", "lifecycle_seq"]
    (f, f)
  | .attempted =>
    let f := ["attempt_id", "conn_id", "epoch", "permit_seq", "pin_ip", "pin_port"]
    (f, f)
  | .completed =>
    let f := ["attempt_id", "conn_id", "epoch", "permit_seq", "upstream_status",
      "response_hash", "streamed_bytes"]
    (f, f)
  | .failed =>
    (["attempt_id", "conn_id", "epoch", "reason"],
      ["attempt_id", "conn_id", "epoch", "permit_seq", "reason"])
  | .unknown =>
    (["attempt_id", "conn_id", "epoch", "permit_seq", "reason"],
      ["attempt_id", "conn_id", "epoch", "permit_seq", "reason", "bytes_streamed"])
  | .cancelled =>
    (["attempt_id", "conn_id", "epoch", "reason"],
      ["attempt_id", "conn_id", "epoch", "permit_seq", "reason"])
  | .allow => (allowFields, allowFields)
  | .cancelRequested =>
    let f := ["reason", "cancellation_epoch", "lifecycle_seq"]
    (f, f)
  | .cancelLinearized =>
    let f := ["cancelled_epoch", "new_epoch", "lifecycle_seq", "inflight_at_linearization"]
    (f, f)
  | .cancelAck => (cancelRequired ++ ["ack_scope"], cancelRequired ++ ["ack_scope"])
  | .cancelDrainTimeout =>
    (cancelRequired ++ ["ack_scope"], cancelRequired ++ ["ack_scope", "closure_blockers"])
  | .runClosed =>
    let f := ["closure_schema", "closure_sequence", "closure_state", "admission_state",
      "inflight_remaining", "cancellation_disposition", "effect_permits_remaining",
      "audit_producers_remaining", "listener_state", "seal_action"]
    (f, f)
  | .killSwitch =>
    let f := ["reason", "connections_terminated", "terminated_conn_ids", "registered_at_kill"]
      ++ cancelRequired
    (f, f)
  | .blockedByPolicy =>
    (["reason"], ["reason", "url", "method", "src", "conn_id", "row_id", "test_nonce", "tls",
      "detail", "pin"])
  | .connectionTerminated =>
    let f := ["reason", "url", "method", "bytes_streamed", "conn_id", "attempt_id",
      "test_nonce", "row_id", "pin"]
    (f, f)
  | .startup =>
    let f := ["reason", "max_connections", "port", "listener", "listen_family", "listen_addr"]
    (f, f)
  | .startupDegraded => (["reason", "detail", "port"], ["reason", "detail", "port"])
  | .startupFailed => (["reason", "detail"], ["reason", "detail"])

/-- `STRING_FIELDS`. -/
def stringFields : List String :=
  ["lifecycle_version", "attempt_id", "conn_id", "program_id", "policy_generation",
    "budget_binding", "method", "canonical_host", "pin_family", "pin_ip", "credential_ref",
    "request_intent_digest", "reason", "url", "src", "test_nonce", "row_id", "request_hash",
    "request_hash_semantics", "response_hash", "ack_scope", "external_enforcement",
    "closure_schema", "closure_state", "admission_state", "cancellation_disposition",
    "listener_state", "seal_action", "detail", "listener", "listen_family", "listen_addr"]

/-- `int_fields`. -/
def intFields : List String :=
  ["epoch", "pin_port", "lifecycle_seq", "permit_seq", "cancelled_epoch", "new_epoch",
    "inflight_at_linearization", "cancellation_epoch", "inflight_remaining",
    "effect_permits_remaining", "audit_producers_remaining", "closure_sequence",
    "upstream_status", "streamed_bytes", "bytes_streamed", "connections_terminated", "port",
    "max_connections"]

/-- `bool_fields`. -/
def boolFields : List String :=
  ["local_drain_complete", "tls_intercepted", "redirect_followed", "credential_injected", "tls"]

/-- `list_fields`. -/
def listFields : List String := ["terminated_conn_ids", "registered_at_kill", "closure_blockers"]

/-- The fields an `AUTH_COMMITTED` record must not leave empty. -/
def authNonempty : List String :=
  ["attempt_id", "conn_id", "program_id", "policy_generation", "budget_binding", "method",
    "canonical_host", "pin_ip", "credential_ref"]

/-! ## `_schema_error` -/

/-- `sni` is `None` or a text. -/
def validSni : Json → Bool
  | .null | .str _ => true
  | _ => false

/-- An integer that is not negative. -/
def validInt : Json → Bool
  | .int n => decide (0 ≤ n)
  | _ => false

def validTexts : Json → Bool
  | .arr xs => xs.all Json.isStr
  | _ => false

/-- `pin`: family, address and a port between 1 and 65535. -/
def validPin : Json → Bool
  | .arr [.str _, .str _, .int port] => decide (1 ≤ port ∧ port ≤ 65535)
  | _ => false

/-- The least integer that `float(n)` cannot represent: `math.isfinite` raises from here on. -/
def floatOverflow : Int := 2 ^ 1024 - 2 ^ 970

/-- `isinstance(ts, (int, float)) and not isinstance(ts, bool) and math.isfinite(ts)`. -/
def finiteTs : Option Json → Check Bool
  | some (.int n) =>
    if n ≤ -floatOverflow ∨ floatOverflow ≤ n then .error (.raised .overflowError) else .ok true
  | some (.float _ finite) => .ok finite
  | _ => .ok false

/-- Check `ok` on each of `fields` that the record has. -/
def checkFields (record : Record) (lineNo : Nat) (ok : Json → Bool) : List String → Check Unit
  | [] => .ok ()
  | field :: fields => do
    rejectIf ((record.get? field).any fun v => !ok v) .malformedRecordSchema
      s!"line {lineNo} invalid {field}"
    checkFields record lineNo ok fields

/-- `if cond: ...`, for a check that only some records get. -/
def onlyIf (cond : Bool) (check : Check Unit) : Check Unit :=
  if cond then check else .ok ()

/-- `decision not in SCHEMAS`. -/
def checkDecision (record : Record) (lineNo : Nat) : Check Kind :=
  match record.get? "decision" with
  | some (.str s) =>
    match Kind.ofText s with
    | some k => .ok k
    | none => reject .unknownDecision s!"line {lineNo} decision={Json.reprText s}"
  | some (.arr _) | some (.obj _) => .error (.raised .typeError)
  | some v => reject .unknownDecision s!"line {lineNo} decision={v.reprOf}"
  | none => reject .unknownDecision s!"line {lineNo} decision=None"

/-- The missing and the extra fields. -/
def checkKeys (kind : Kind) (record : Record) (lineNo : Nat) : Check Unit :=
  let missing := ((schemas kind).1.filter fun f => !record.has f).insertionSort (· ≤ ·)
  let extra := (record.keys.filter fun k => k ∉ common ∧ k ∉ (schemas kind).2)
    |>.insertionSort (· ≤ ·)
  rejectIf (!missing.isEmpty || !extra.isEmpty) .malformedRecordSchema
    s!"line {lineNo} {kind.text} missing={Json.reprTexts missing} extra={Json.reprTexts extra}"

/-- `run_id`, `ts` and `prev`. -/
def checkMetadata (record : Record) (lineNo : Nat) : Check Unit := do
  let invalid := s!"line {lineNo} invalid chain metadata"
  rejectIf (match record.get? "run_id" with | some (.str s) => s.isEmpty | _ => true)
    .malformedRecordSchema invalid
  let finite ← finiteTs (record.get? "ts")
  rejectIf (!finite) .malformedRecordSchema invalid
  rejectIf (!hex64 (record.textOr "prev")) .malformedRecordSchema invalid

/-- The type of every field that is present. -/
def checkTypes (record : Record) (lineNo : Nat) : Check Unit := do
  checkFields record lineNo Json.isStr stringFields
  checkFields record lineNo validSni ["sni"]
  checkFields record lineNo validInt intFields
  checkFields record lineNo Json.isBool boolFields
  checkFields record lineNo validTexts listFields
  checkFields record lineNo validPin ["pin"]

/-- The condition on an `AUTH_COMMITTED` record, up to its port. -/
def badIntent (record : Record) (port : Int) : Bool :=
  decide (record.get? "lifecycle_version" ≠ some (.str "E10-v2")) ||
    authNonempty.any (fun f => (record.textOr f).isEmpty) ||
    decide (record.textOr "pin_family" ∉ ["ipv4", "ipv6"]) ||
    !decide (1 ≤ port ∧ port ≤ 65535) ||
    !digest (record.textOr "request_intent_digest")

def checkIntent (record : Record) (lineNo : Nat) : Check Unit := do
  let port ← eval (record.int "pin_port")
  rejectIf (badIntent record port) .malformedRecordSchema s!"line {lineNo} invalid E10 intent"

/-- `record[field] <= 0`. -/
def checkPositive (field : String) (record : Record) (lineNo : Nat) : Check Unit := do
  let seq ← eval (record.int field)
  rejectIf (decide (seq ≤ 0)) .malformedRecordSchema s!"line {lineNo} non-positive {field}"

def checkResponseHash (record : Record) (lineNo : Nat) : Check Unit := do
  let hash ← eval (record.str "response_hash")
  rejectIf (!hex64 hash) .malformedRecordSchema s!"line {lineNo} invalid response_hash"

def checkAllowHashes (record : Record) (lineNo : Nat) : Check Unit :=
  rejectIf (decide (record.get? "request_hash_semantics" ≠ some (.str "sanitized-intent-v2")) ||
      !hex64 (record.textOr "request_hash") || !hex64 (record.textOr "response_hash"))
    .malformedRecordSchema s!"line {lineNo} invalid ALLOW hashes"

def checkReason (record : Record) (lineNo : Nat) : Check Unit :=
  rejectIf (record.textOr "reason").isEmpty .malformedRecordSchema s!"line {lineNo} empty reason"

/-- Decisions with a positive `lifecycle_seq`. -/
def sequenced : List Kind := [.auth, .permit, .permitReleased, .cancelRequested, .cancelLinearized]

/-- Decisions with a reason. -/
def reasoned : List Kind :=
  [.failed, .unknown, .cancelled, .cancelRequested, .blockedByPolicy, .connectionTerminated,
    .startup, .startupDegraded, .startupFailed, .killSwitch]

/-- `_schema_error`. -/
def schemaError (record : Record) (lineNo : Nat) : Check Unit := do
  let kind ← checkDecision record lineNo
  checkKeys kind record lineNo
  checkMetadata record lineNo
  checkTypes record lineNo
  onlyIf (decide (kind = .auth)) (checkIntent record lineNo)
  onlyIf (decide (kind ∈ sequenced)) (checkPositive "lifecycle_seq" record lineNo)
  onlyIf (decide (kind ∈ [Kind.attempted, .completed, .unknown]))
    (checkPositive "permit_seq" record lineNo)
  onlyIf (decide (kind ∈ [Kind.failed, .cancelled]) && record.has "permit_seq")
    (checkPositive "permit_seq" record lineNo)
  onlyIf (decide (kind = .completed)) (checkResponseHash record lineNo)
  onlyIf (decide (kind = .allow)) (checkAllowHashes record lineNo)
  onlyIf (decide (kind ∈ reasoned)) (checkReason record lineNo)

/-! ## What passes -/

/-- Every field of `fields` that the record has satisfies `ok`. -/
def FieldsOk (r : Record) (ok : Json → Bool) (fields : List String) : Prop :=
  ∀ f ∈ fields, ∀ v, r.get? f = some v → ok v = true

/-- A positive integer field. -/
def PositiveField (r : Record) (field : String) : Prop :=
  ∃ n, r.get? field = some (.int n) ∧ 0 < n

/-- The records of one decision that pass `_schema_error`. -/
structure WellFormed (k : Kind) (r : Record) : Prop where
  decision : r.kind? = some k
  required : ∀ f ∈ (schemas k).1, ∃ v, r.get? f = some v
  allowed : ∀ f v, r.get? f = some v → f ∈ common ∨ f ∈ (schemas k).2
  runId : ∃ s, r.get? "run_id" = some (.str s) ∧ s ≠ ""
  ts : finiteTs (r.get? "ts") = .ok true
  prev : hex64 (r.textOr "prev") = true
  strs : FieldsOk r Json.isStr stringFields
  sni : FieldsOk r validSni ["sni"]
  ints : FieldsOk r validInt intFields
  bools : FieldsOk r Json.isBool boolFields
  lists : FieldsOk r validTexts listFields
  pin : FieldsOk r validPin ["pin"]
  intent : k = .auth → ∃ port, r.get? "pin_port" = some (.int port) ∧ badIntent r port = false
  lifecycleSeq : k ∈ sequenced → PositiveField r "lifecycle_seq"
  permitSeq : k ∈ [Kind.attempted, .completed, .unknown] → PositiveField r "permit_seq"
  permitSeq' : k ∈ [Kind.failed, .cancelled] ∧ r.has "permit_seq" = true →
    PositiveField r "permit_seq"
  responseHash : k = .completed → ∃ s, r.get? "response_hash" = some (.str s) ∧ hex64 s = true
  allowHashes : k = .allow → r.get? "request_hash_semantics" = some (.str "sanitized-intent-v2") ∧
    hex64 (r.textOr "request_hash") = true ∧ hex64 (r.textOr "response_hash") = true
  reason : k ∈ reasoned → r.textOr "reason" ≠ ""

theorem onlyIf_ok {cond : Bool} {check : Check Unit} {u : Unit} :
    onlyIf cond check = .ok u ↔ (cond = true → check = .ok u) := by
  unfold onlyIf
  cases cond <;> simp

theorem checkDecision_ok {r : Record} {i : Nat} {k : Kind} :
    checkDecision r i = .ok k ↔ r.kind? = some k := by
  unfold checkDecision Record.kind?
  cases hd : r.get? "decision" with
  | none => simp [reject]
  | some v =>
    cases v with
    | str s =>
      cases hs : Kind.ofText s with
      | none => simp [hs, reject]
      | some j => simp [hs]
    | _ => simp [reject]

theorem checkKeys_ok {r : Record} {i : Nat} {k : Kind} {u : Unit} :
    checkKeys k r i = .ok u ↔
      (∀ f ∈ (schemas k).1, ∃ v, r.get? f = some v) ∧
        ∀ f v, r.get? f = some v → f ∈ common ∨ f ∈ (schemas k).2 := by
  unfold checkKeys
  simp only [rejectIf_ok, Bool.or_eq_false_iff, Bool.not_eq_false', List.isEmpty_iff,
    ← List.length_eq_zero_iff, List.length_insertionSort]
  simp only [List.length_eq_zero_iff, List.filter_eq_nil_iff, Bool.not_eq_true', Bool.not_eq_false,
    decide_eq_true_eq, not_and, not_not, Record.has_iff, Record.mem_keys_iff, forall_exists_index]
  constructor
  · rintro ⟨h1, h2⟩
    exact ⟨h1, fun f v hf => or_iff_not_imp_left.2 (h2 f v hf)⟩
  · rintro ⟨h1, h2⟩
    exact ⟨h1, fun f v hf => or_iff_not_imp_left.1 (h2 f v hf)⟩

theorem checkMetadata_ok {r : Record} {i : Nat} {u : Unit} :
    checkMetadata r i = .ok u ↔
      (∃ s, r.get? "run_id" = some (.str s) ∧ s ≠ "") ∧ finiteTs (r.get? "ts") = .ok true ∧
        hex64 (r.textOr "prev") = true := by
  have hid : (match r.get? "run_id" with | some (.str s) => s.isEmpty | _ => true) = false ↔
      ∃ s, r.get? "run_id" = some (.str s) ∧ s ≠ "" := by
    split
    · rename_i s hs
      simp [hs]
    · rename_i hn
      simp only [Bool.true_eq_false, false_iff]
      rintro ⟨s, hs, -⟩
      exact hn s hs
  unfold checkMetadata
  simp only [bind_ok, rejectIf_ok, Bool.not_eq_false', hid]
  constructor
  · rintro ⟨_, h1, f, h2, _, rfl, h3⟩
    exact ⟨h1, h2, h3⟩
  · rintro ⟨h1, h2, h3⟩
    exact ⟨(), h1, true, h2, (), rfl, h3⟩

theorem checkFields_ok {r : Record} {i : Nat} {ok : Json → Bool} {fields : List String}
    {u : Unit} : checkFields r i ok fields = .ok u ↔ FieldsOk r ok fields := by
  induction fields with
  | nil => simp [checkFields, FieldsOk]
  | cons f fs ih =>
    unfold checkFields
    simp only [bind_ok, rejectIf_ok, ih, FieldsOk, List.mem_cons, forall_eq_or_imp]
    have hf : (r.get? f).any (fun v => !ok v) = false ↔ ∀ v, r.get? f = some v → ok v = true := by
      cases hr : r.get? f <;> simp
    rw [hf]
    exact ⟨fun ⟨_, h⟩ => h, fun h => ⟨(), h⟩⟩

theorem checkTypes_ok {r : Record} {i : Nat} {u : Unit} :
    checkTypes r i = .ok u ↔
      FieldsOk r Json.isStr stringFields ∧ FieldsOk r validSni ["sni"] ∧
        FieldsOk r validInt intFields ∧ FieldsOk r Json.isBool boolFields ∧
        FieldsOk r validTexts listFields ∧ FieldsOk r validPin ["pin"] := by
  unfold checkTypes
  simp only [bind_ok, checkFields_ok, exists_and_left, exists_const]

theorem checkIntent_ok {r : Record} {i : Nat} {u : Unit} :
    checkIntent r i = .ok u ↔
      ∃ port, r.get? "pin_port" = some (.int port) ∧ badIntent r port = false := by
  unfold checkIntent
  simp only [bind_ok, eval_ok, Record.int_ok, rejectIf_ok]

theorem checkPositive_ok {r : Record} {i : Nat} {field : String} {u : Unit} :
    checkPositive field r i = .ok u ↔ PositiveField r field := by
  unfold checkPositive PositiveField
  simp only [bind_ok, eval_ok, Record.int_ok, rejectIf_ok, decide_eq_false_iff_not, not_le]

theorem checkResponseHash_ok {r : Record} {i : Nat} {u : Unit} :
    checkResponseHash r i = .ok u ↔
      ∃ s, r.get? "response_hash" = some (.str s) ∧ hex64 s = true := by
  unfold checkResponseHash
  simp only [bind_ok, eval_ok, Record.str_ok, rejectIf_ok, Bool.not_eq_false']

theorem checkAllowHashes_ok {r : Record} {i : Nat} {u : Unit} :
    checkAllowHashes r i = .ok u ↔
      r.get? "request_hash_semantics" = some (.str "sanitized-intent-v2") ∧
        hex64 (r.textOr "request_hash") = true ∧ hex64 (r.textOr "response_hash") = true := by
  unfold checkAllowHashes
  simp only [rejectIf_ok, Bool.or_eq_false_iff, decide_eq_false_iff_not, not_not,
    Bool.not_eq_false', and_assoc]

theorem checkReason_ok {r : Record} {i : Nat} {u : Unit} :
    checkReason r i = .ok u ↔ r.textOr "reason" ≠ "" := by
  unfold checkReason
  simp [rejectIf_ok]

/-- **`_schema_error` accepts exactly the well-formed records.** -/
theorem schemaError_ok {r : Record} {i : Nat} :
    schemaError r i = .ok () ↔ ∃ k, WellFormed k r := by
  unfold schemaError
  simp only [bind_ok, checkDecision_ok, checkKeys_ok, checkMetadata_ok, checkTypes_ok, onlyIf_ok,
    checkIntent_ok, checkPositive_ok, checkResponseHash_ok, checkAllowHashes_ok, checkReason_ok,
    decide_eq_true_eq, Bool.and_eq_true]
  constructor
  · rintro ⟨k, hk, _, ⟨h1, h2⟩, _, ⟨h3, h4, h5⟩, _, ⟨h6, h7, h8, h9, h10, h11⟩, _, h12, _, h13, _,
      h14, _, h15, _, h16, _, h17, h18⟩
    exact ⟨k, hk, h1, h2, h3, h4, h5, h6, h7, h8, h9, h10, h11, h12, h13, h14, h15, h16, h17, h18⟩
  · rintro ⟨k, w⟩
    exact ⟨k, w.decision, (), ⟨w.required, w.allowed⟩, (), ⟨w.runId, w.ts, w.prev⟩, (),
      ⟨w.strs, w.sni, w.ints, w.bools, w.lists, w.pin⟩, (), w.intent, (), w.lifecycleSeq, (),
      w.permitSeq, (), w.permitSeq', (), w.responseHash, (), w.allowHashes, w.reason⟩

namespace WellFormed

variable {k : Kind} {r : Record}

theorem str {f : String} (w : WellFormed k r) (hr : f ∈ (schemas k).1) (hs : f ∈ stringFields) :
    ∃ s, r.get? f = some (.str s) := by
  obtain ⟨v, hv⟩ := w.required f hr
  obtain ⟨s, rfl⟩ := Json.isStr_iff.1 (w.strs f hs v hv)
  exact ⟨s, hv⟩

theorem absent {f : String} (w : WellFormed k r) (hc : f ∉ common) (ha : f ∉ (schemas k).2) :
    r.get? f = none := by
  cases h : r.get? f with
  | none => rfl
  | some v => rcases w.allowed f v h with h | h <;> contradiction

end WellFormed

end VerifyE10

end StrixPEP
