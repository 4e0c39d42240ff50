import StrixPEP.Gateway.Exchange
import StrixPEP.Lifecycle.RunContext

/-!
# The records that the gateway writes

`Entry` has one constructor for each record that a handler or the cancellation hands to
`AuditLog.write`; `Entry.fields` is the dict of the source.  `Entry.attempt?` is the attempt that a
record carries.
-/

namespace StrixPEP

/-- The outcomes that `settle` records. -/
inductive Settlement where
  | completed
  | failed
  | unknown
  | cancelled
  deriving DecidableEq, Repr

def Settlement.text : Settlement → String
  | completed => "EFFECT_COMPLETED"
  | failed => "EFFECT_FAILED"
  | unknown => "EFFECT_OUTCOME_UNKNOWN"
  | cancelled => "EFFECT_CANCELLED"

/-- What the `ALLOW` record says. -/
structure AllowFacts where
  url : String
  method : String
  state : ConnectionState
  attemptId : String
  sni : Option String
  pin : Pin
  upstreamStatus : Int
  credentialInjected : Bool
  streamedBytes : Nat
  requestHash : String
  responseHash : String
  deriving DecidableEq, Repr

/-- What the `CONNECTION_TERMINATED` record says. -/
structure TerminatedFacts where
  reason : String
  url : String
  method : String
  bytesStreamed : Nat
  state : ConnectionState
  attemptId : String
  pin : Pin
  deriving DecidableEq, Repr

/-- `common` of `cancel_and_quiesce`. -/
structure Common where
  cancellationEpoch : Nat
  lifecycleSeq : Nat
  localDrainComplete : Bool
  inflightRemaining : Nat
  effectPermitsRemaining : Nat
  auditProducersRemaining : Nat
  listenerStopped : Bool
  deriving DecidableEq, Repr

inductive Entry where
  | auth (intent : Intent) (lifecycleSeq : Nat)
  | permit (attemptId connId : String) (epoch lifecycleSeq : Nat)
      (policyGeneration budgetBinding : String)
  | released (attemptId connId : String) (epoch permitSeq lifecycleSeq : Nat)
  | attempted (attemptId connId : String) (epoch permitSeq : Nat) (pin : Pin)
  /-- `settle`: the permit's sequence if there is a permit; the epoch of the permit or of the
  intent. -/
  | settled (outcome : Settlement) (attemptId connId : String) (permitSeq epoch : Option Nat)
      (extra : Fields)
  | allow (facts : AllowFacts)
  | terminated (facts : TerminatedFacts)
  | blocked (rest : Fields)
  | cancelRequested (t : CancellationTransition)
  | cancelLinearized (t : CancellationTransition)
  | killSwitch (torn snapshot : List String) (common : Common)
  | drainTimeout (blockers : List String) (common : Common)
  | ack (common : Common)
  | runClosed (closureSequence : Nat)
  deriving DecidableEq, Repr

open Fields in
/-- `common`, as it is spread into a record. -/
def Common.fields (c : Common) : Fields :=
  [("cancellation_epoch", int c.cancellationEpoch), ("lifecycle_seq", int c.lifecycleSeq),
    ("local_drain_complete", bool c.localDrainComplete),
    ("inflight_remaining", int c.inflightRemaining),
    ("effect_permits_remaining", int c.effectPermitsRemaining),
    ("audit_producers_remaining", int c.auditProducersRemaining),
    ("listener_state", str (if c.listenerStopped then "STOPPED" else "NOT_STOPPED")),
    ("external_enforcement", str "NOT_RUN_PHASE1")]

namespace Entry

open Fields

/-- The value of `decision`. -/
def decision : Entry → String
  | auth _ _ => "AUTH_COMMITTED"
  | permit _ _ _ _ _ _ => "PERMIT_GRANTED"
  | released _ _ _ _ _ => "PERMIT_RELEASED"
  | attempted _ _ _ _ _ => "EFFECT_ATTEMPTED"
  | settled o _ _ _ _ _ => o.text
  | allow _ => "ALLOW"
  | terminated _ => "CONNECTION_TERMINATED"
  | blocked _ => "BLOCKED_BY_POLICY"
  | cancelRequested _ => "CANCELLATION_REQUESTED"
  | cancelLinearized _ => "CANCELLATION_LINEARIZED"
  | killSwitch _ _ _ => "KILL_SWITCH"
  | drainTimeout _ _ => "CANCELLATION_DRAIN_TIMEOUT"
  | ack _ => "CANCELLATION_ACK"
  | runClosed _ => "RUN_CLOSED"

/-- The rest of the dict, in the order of the source. -/
def rest : Entry → Fields
  | auth i seq =>
    [("lifecycle_version", str "E10-v2"), ("run_id", str i.runId), ("attempt_id", str i.attemptId),
      ("conn_id", str i.connId), ("epoch", int i.epoch), ("program_id", str i.programId),
      ("policy_generation", str i.policyGeneration), ("budget_binding", str i.budgetBinding),
      ("method", str i.method), ("canonical_host", optStr i.canonicalHost),
      ("pin_family", optStr (i.pin.map (·.family.text))), ("pin_ip", optStr (i.pin.map (·.ip))),
      ("pin_port", match i.pin with | some p => int p.port | none => .json .null),
      ("credential_ref", str i.credentialRef),
      ("request_intent_digest", str i.requestIntentDigest), ("lifecycle_seq", int seq)]
  | permit a c epoch seq gen bud =>
    [("attempt_id", str a), ("conn_id", str c), ("epoch", int epoch), ("lifecycle_seq", int seq),
      ("policy_generation", str gen), ("budget_binding", str bud)]
  | released a c epoch permitSeq seq =>
    [("attempt_id", str a), ("conn_id", str c), ("epoch", int epoch), ("permit_seq", int permitSeq),
      ("lifecycle_seq", int seq)]
  | attempted a c epoch permitSeq pin =>
    update
      [("attempt_id", str a), ("conn_id", str c), ("epoch", int epoch),
        ("permit_seq", int permitSeq)]
      [("pin_ip", str pin.ip), ("pin_port", int pin.port)]
  | settled _ a c permitSeq epoch extra =>
    update
      ([("attempt_id", str a), ("conn_id", str c)] ++
        (permitSeq.map fun s => ("permit_seq", int s)).toList ++
        (epoch.map fun e => ("epoch", int e)).toList)
      extra
  | allow f =>
    [("reason", str "ALLOW"), ("url", str f.url), ("method", str f.method),
      ("src", str f.state.clientIp), ("program_id", optStr f.state.programId),
      ("conn_id", str f.state.connId), ("attempt_id", str f.attemptId),
      ("test_nonce", str f.state.testNonce), ("row_id", str f.state.rowId),
      ("tls_intercepted", bool true), ("canonical_host", optStr f.state.canonical),
      ("sni", optStr f.sni), ("pin_family", str f.pin.family.text), ("pin_ip", str f.pin.ip),
      ("pin_port", int f.pin.port), ("upstream_status", int f.upstreamStatus),
      ("redirect_followed", bool false), ("credential_injected", bool f.credentialInjected),
      ("streamed_bytes", int f.streamedBytes), ("request_hash", str f.requestHash),
      ("request_hash_semantics", str "sanitized-intent-v2"), ("response_hash", str f.responseHash)]
  | terminated f =>
    [("reason", str f.reason), ("url", str f.url), ("method", str f.method),
      ("bytes_streamed", int f.bytesStreamed), ("conn_id", str f.state.connId),
      ("attempt_id", str f.attemptId), ("test_nonce", str f.state.testNonce),
      ("row_id", str f.state.rowId), ("pin", f.pin.asTuple)]
  | blocked rest => rest
  | cancelRequested t =>
    [("reason", str "STOP_ALL_PRESENT"), ("cancellation_epoch", int t.newEpoch),
      ("lifecycle_seq", int t.lifecycleSeq)]
  | cancelLinearized t =>
    [("cancelled_epoch", int t.cancelledEpoch), ("new_epoch", int t.newEpoch),
      ("lifecycle_seq", int t.lifecycleSeq),
      ("inflight_at_linearization", int t.inflightAtLinearization)]
  | killSwitch torn snapshot common =>
    [("reason", str "STOP_ALL_TORE_DOWN_LIVE_CONNECTIONS"),
      ("connections_terminated", int torn.length),
      ("terminated_conn_ids", .json (Json.ofTexts torn)),
      ("registered_at_kill", .json (Json.ofTexts snapshot))] ++ common.fields
  | drainTimeout blockers common =>
    [("ack_scope", str "NO_ACK_DRAIN_INCOMPLETE"),
      ("closure_blockers", .json (Json.ofTexts blockers))] ++ common.fields
  | ack common => ("ack_scope", str "LOCAL_IN_PROCESS_DRAIN_ONLY") :: common.fields
  | runClosed seq =>
    [("closure_schema", str "E10-run-close-v1"), ("closure_sequence", int seq),
      ("closure_state", str "CLOSED"), ("admission_state", str "TERMINAL"),
      ("inflight_remaining", int 0), ("effect_permits_remaining", int 0),
      ("audit_producers_remaining", int 0), ("listener_state", str "STOPPED"),
      ("seal_action", str "FINAL_FSYNC_THEN_ATOMIC_SEAL"),
      ("cancellation_disposition", str "CANCELLATION_ACK")]

/-- The dict that is handed to `write`. -/
def fields (e : Entry) : Fields := ("decision", str e.decision) :: e.rest

/-- The attempt that the record carries. -/
def attempt? : Entry → Option String
  | auth i _ => some i.attemptId
  | permit a _ _ _ _ _ | released a _ _ _ _ | attempted a _ _ _ _ | settled _ a _ _ _ _ => some a
  | allow f => some f.attemptId
  | terminated f => some f.attemptId
  | blocked _ | cancelRequested _ | cancelLinearized _ | killSwitch _ _ _ | drainTimeout _ _ | ack _
  | runClosed _ => none

/-- Only the cancellation writes these. -/
def byCanceller : Entry → Bool
  | cancelRequested _ | cancelLinearized _ | killSwitch _ _ _ | drainTimeout _ _ | ack _
  | runClosed _ => true
  | _ => false

def isAttempted : Entry → Bool
  | attempted _ _ _ _ _ => true
  | _ => false

def isRequested : Entry → Bool
  | cancelRequested _ => true
  | _ => false

end Entry

/-! ## What a record shows of its entry -/

/-- A text, a number, a flag or nothing, or a tuple of these. -/
def Value.plain : Value → Bool
  | .json (.arr _) | .json (.obj _) => false
  | .json _ => true
  | .tuple xs => xs.all fun
    | .arr _ | .obj _ => false
    | _ => true

/-- The keys that the last argument of `settle` has. -/
def outcomeKeys : List String :=
  ["reason", "bytes_streamed", "upstream_status", "response_hash", "streamed_bytes"]

/-- The dicts that `settle` and the refusals are given. -/
def Entry.Regular : Entry → Prop
  | .settled _ _ _ _ _ extra => ∀ f ∈ extra, f.1 ∈ outcomeKeys ∧ f.2.plain = true
  | .blocked rest => ("decision" :: rest.map Prod.fst).Nodup ∧ ∀ f ∈ rest, f.2.plain = true
  | _ => True

theorem Fields.lookup_update {fields extra : Fields} {key : String} (h : ∀ f ∈ extra, f.1 ≠ key) :
    (update fields extra).lookup key = fields.lookup key := by
  induction extra generalizing fields with
  | nil => rfl
  | cons f extra ih =>
    have hset : (Dict.set fields f.1 f.2).lookup key = fields.lookup key :=
      Dict.lookup_set_ne _ _ (h f List.mem_cons_self).symm
    rw [← hset]
    exact ih fun g hg => h g (List.mem_cons_of_mem _ hg)

/-- A record about an attempt says which. -/
theorem Entry.lookup_attempt {e : Entry} {a : String} (h : e.attempt? = some a) (hreg : e.Regular) :
    e.fields.lookup "attempt_id" = some (Fields.str a) := by
  cases e with
  | settled o b c permitSeq epoch extra =>
    cases h
    have hextra : ∀ f ∈ extra, f.1 ≠ "attempt_id" := by
      intro f hf heq
      exact absurd (heq ▸ (hreg f hf).1) (by decide)
    show (Fields.update _ extra).lookup "attempt_id" = _
    rw [Fields.lookup_update hextra]
    rfl
  | auth | permit | released | attempted | allow | terminated =>
    cases h
    rfl
  | _ => cases h

/-- The keys that `write` assigns to. -/
def stampKeys : List String := ["ts", "run_id", "prev"]

/-- No secret of the list occurs in the text. -/
def Spared (secrets : List String) (text : String) : Prop :=
  ∀ s ∈ secrets, s = "" ∨ ¬ s.toList <:+: text.toList

/-- The record has these fields, with secrets of the list replaced in their texts. -/
structure Record.Tells (secrets : List String) (record : Record) (fields : Fields) : Prop where
  scrubbed : ∃ order, (∀ s ∈ order, s ∈ secrets) ∧
    ∀ f ∈ fields, record.get? f.1 = some (f.2.scrubbed order)
  /-- A text in which no secret occurs is there as it is. -/
  texts : ∀ key text, (key, Fields.str text) ∈ fields → Spared secrets text →
    record.get? key = some (.str text)
  /-- So is any number. -/
  numbers : ∀ key n, (key, Fields.int n) ∈ fields → record.get? key = some (.int n)

theorem Record.tells_of {secrets : List String} {record : Record} {fields : Fields}
    (h : ∃ order, (∀ s ∈ order, s ∈ secrets) ∧
      ∀ f ∈ fields, record.get? f.1 = some (f.2.scrubbed order)) : record.Tells secrets fields := by
  obtain ⟨order, hmem, hfields⟩ := h
  refine ⟨⟨order, hmem, hfields⟩, fun key text hf hs => ?_, fun key n hf => hfields _ hf⟩
  rw [hfields _ hf]
  exact congrArg (some ∘ Json.str) (redact_absent fun s hs' => hs s (hmem s hs'))

namespace AuditLog

variable {log : AuditLog} {e : Entry} {o : Outcome}

/-- A field of the record. -/
theorem persist_get? {fields : Fields} {key : String} (h : key ∉ stampKeys) :
    (log.persist fields o).get? key = (fields.lookup key).map (·.scrubbed o.order) := by
  simp only [stampKeys, List.mem_cons, List.not_mem_nil, or_false, not_or] at h
  unfold persist Record.get?
  rw [Dict.lookup_set_ne _ _ h.2.2, Dict.lookup_set_ne _ _ h.2.1, Dict.lookup_set_ne _ _ h.1]
  exact Dict.lookup_map _ fields key

/-- The decision of a record, after redaction. -/
theorem persist_decision : (log.persist e.fields o).get? "decision" =
    some (.str (redact o.order e.decision)) := by
  rw [persist_get? (by decide)]
  rfl

/-- Only the closure is recorded as `RUN_CLOSED`: redaction cannot make that text. -/
theorem persist_runClosed (h : (log.persist e.fields o).get? "decision" = some (.str "RUN_CLOSED")) :
    ∃ seq, e = .runClosed seq := by
  rw [persist_decision, Option.some.injEq, Json.str.injEq] at h
  have hd := redact_eq (by decide) h
  cases e with
  | runClosed seq => exact ⟨seq, rfl⟩
  | settled o _ _ _ _ _ => cases o <;> simp [Entry.decision, Settlement.text] at hd
  | _ => simp [Entry.decision] at hd

end AuditLog

end StrixPEP
