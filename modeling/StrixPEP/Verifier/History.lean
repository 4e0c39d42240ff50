import StrixPEP.Verifier.Anchor
import StrixPEP.Lib.Dict

/-!
# The history check of the E10 verifier (`_validate_history`)

One function per branch of the loop over the records (`onAuth`, `onPermit`, ...), `step` for one
iteration, `scan` for the loop and `validateHistory` for the whole.  Every record has passed
`schemaError` when the loop starts, so the fields that the branches read are there, with the
types that the schema gives them.

`Accepts` says once what a step that does not return can do: `step_accepts` derives it from
`step`, and every property of accepted histories is proved from it.
-/

namespace StrixPEP

namespace VerifyE10

/-- `run_state`. -/
inductive RunState where
  | running
  | cancelRequested
  | cancelLinearized
  | acknowledged
  | drainTimeout
  | startupFailed
  | closed
  deriving DecidableEq, Repr

/-- `attempt["state"]`: a terminal attempt's state is its decision. -/
inductive AttemptState where
  | authorized
  | permitted
  | attempted
  | terminal (decision : Kind)
  deriving DecidableEq, Repr

def AttemptState.text : AttemptState → String
  | authorized => "AUTHORIZED"
  | permitted => "PERMITTED"
  | attempted => "ATTEMPTED"
  | terminal k => k.text

/-- An entry of `attempts`. -/
structure Attempt where
  state : AttemptState
  auth : Record
  permit : Option Record
  attempted : Option Record
  terminal : Option Record
  allow : Option Record
  release : Option Record
  lateAuth : Bool
  connectionTerminated : Option Record
  deriving DecidableEq, Repr

/-- The local variables of the loop. -/
structure Scan where
  attempts : List (String × Attempt)
  sequences : List (Int × String)
  runState : RunState
  startupSeen : Bool
  activeSeen : Bool
  cancel : Option Record
  cancelRequest : Option Record
  kill : Option Record
  disposition : Option Kind
  closure : Option Record
  deriving DecidableEq, Repr

def Scan.start : Scan :=
  { attempts := [], sequences := [], runState := .running, startupSeen := false,
    activeSeen := false, cancel := none, cancelRequest := none, kill := none,
    disposition := none, closure := none }

/-! ## Helpers of the loop -/

/-- `own_sequence`. -/
def ownSequence (s : Scan) (seq : Int) (owner : String) : Check (List (Int × String)) :=
  match s.sequences.lookup seq with
  | some other => reject .replayedLifecycleSequence s!"sequence {seq} already owned by {other}"
  | none => .ok (s.sequences ++ [(seq, owner)])

/-- `count_error`. -/
def countError (record : Record) : Check Unit := do
  let inflight ← eval (record.int "inflight_remaining")
  let permits ← eval (record.int "effect_permits_remaining")
  let producers ← eval (record.int "audit_producers_remaining")
  rejectIf (decide (inflight ≠ permits + producers)) .quiescenceCountMismatch
    "inflight count is not permit plus producer counts"

/-- `value["terminal"] is not None and value["terminal"]["decision"] == decision`. -/
def Attempt.ended (a : Attempt) (decision : Kind) : Bool :=
  match a.terminal with
  | some t => decide (t.get? "decision" = some (.str decision.text))
  | none => false

/-- `incomplete_attempts`. -/
def Scan.incompleteAttempts (s : Scan) : List String :=
  (s.attempts.filter fun e => e.2.terminal.isNone).map Prod.fst

/-- `missing_releases`. -/
def Scan.missingReleases (s : Scan) : List String :=
  (s.attempts.filter fun e => e.2.permit.isSome && e.2.release.isNone).map Prod.fst

/-- `missing_allows`. -/
def Scan.missingAllows (s : Scan) : List String :=
  (s.attempts.filter fun e => e.2.ended .completed && e.2.allow.isNone).map Prod.fst

/-- `run_state in {"RUNNING", "CANCEL_REQUESTED", "CANCEL_LINEARIZED"} and not kill`. -/
def Scan.draining (s : Scan) : Bool :=
  decide (s.runState ∈ [.running, .cancelRequested, .cancelLinearized]) && s.kill.isNone

/-- `any(char.isspace() for char in s)`, with Python's table of white space. -/
def isSpace (c : Char) : Bool :=
  let n := c.toNat
  decide (9 ≤ n ∧ n ≤ 13 ∨ 28 ≤ n ∧ n ≤ 32 ∨ n = 0x85 ∨ n = 0xA0 ∨ n = 0x1680 ∨
    0x2000 ≤ n ∧ n ≤ 0x200A ∨ n = 0x2028 ∨ n = 0x2029 ∨ n = 0x202F ∨ n = 0x205F ∨ n = 0x3000)

/-- `str.lower`, on the characters that decide a comparison with an ASCII text: no other
character has an ASCII letter of these texts as its lower case. -/
def lowerAscii (s : String) : String := String.ofList (s.toList.map Char.toLower)

/-- `forbidden` of `_looks_secret`. -/
def forbiddenKeys : List String := ["authorization", "secret", "credential_secret", "raw_request"]

mutual

/-- `walk`. -/
def walk : Json → Bool
  | .obj kvs => kvs.any (fun e => decide (lowerAscii e.1 ∈ forbiddenKeys)) || walkFields kvs
  | .arr xs => walkList xs
  | _ => false

def walkList : List Json → Bool
  | [] => false
  | x :: xs => walk x || walkList xs

def walkFields : List (String × Json) → Bool
  | [] => false
  | (_, x) :: xs => walk x || walkFields xs

end

/-- `_looks_secret`. -/
def looksSecret (record : Record) : Bool :=
  let credential := record.textOr "credential_ref"
  walk (.obj record) || "bearer ".toList.isPrefixOf (lowerAscii credential).toList ||
    credential.toList.any isSpace

/-- `seq >= cancel["lifecycle_seq"] or record["epoch"] != cancel["cancelled_epoch"]`, once the
cancellation is known. -/
def notBeforeCancel (cancel : Option Record) (seq : Int) (record : Record) (status : Status)
    (detail : String) : Check Unit :=
  match cancel with
  | none => .ok ()
  | some c =>
    rejectAny
      [do pure (decide ((← c.int "lifecycle_seq") ≤ seq)), differ record "epoch" c "cancelled_epoch"]
      status detail

/-- The fields that a permit repeats from its intent. -/
def permitFields : List String := ["conn_id", "epoch", "policy_generation", "budget_binding"]

/-- `for field in permitFields: if record[field] != auth[field]: return ...`. -/
def checkPermitFields (record auth : Record) (aid : String) : List String → Check Unit
  | [] => .ok ()
  | field :: fields => do
    rejectAny [differ record field auth field] .bindingMismatch
      s!"permit {aid} {field} != intent"
    checkPermitFields record auth aid fields

/-! ## The branches -/

/-- `AUTH_COMMITTED`. -/
def onAuth (s : Scan) (record : Record) (aid : String) : Check Scan := do
  rejectIf (!s.draining) .illegalRunTransition
    "AUTH_COMMITTED is outside the active/cancel drain"
  rejectIf (s.attempts.lookup aid).isSome .illegalAttemptTransition s!"attempt replayed: {aid}"
  rejectIf (looksSecret record) .credentialLeak s!"AUTH_COMMITTED {aid} may carry a secret"
  let seq ← eval (record.int "lifecycle_seq")
  let sequences ← ownSequence s seq s!"auth:{aid}"
  let late := decide (s.runState ≠ .running)
  notBeforeCancel (if late then s.cancel else none) seq record .authSequenceNotBeforeCancellation
    "late AUTH does not prove pre-cancel allocation"
  pure { s with
    sequences := sequences
    attempts := Dict.set s.attempts aid
      { state := .authorized, auth := record, permit := none, attempted := none,
        terminal := none, allow := none, release := none, lateAuth := late,
        connectionTerminated := none } }

/-- `PERMIT_GRANTED`. -/
def onPermit (s : Scan) (record : Record) (aid : String) : Check Scan := do
  rejectIf (!s.draining) .illegalRunTransition "PERMIT_GRANTED is outside active/cancel drain"
  match s.attempts.lookup aid with
  | none => reject .permitWithoutIntent s!"permit {Json.reprText aid} has no intent"
  | some attempt =>
    rejectIf (decide (attempt.state ≠ .authorized) || attempt.lateAuth) .illegalAttemptTransition
      s!"PERMIT_GRANTED after {attempt.state.text} for {aid}"
    checkPermitFields record attempt.auth aid permitFields
    let seq ← eval (record.int "lifecycle_seq")
    let authSeq ← eval (attempt.auth.int "lifecycle_seq")
    rejectIf (decide (seq ≤ authSeq)) .lifecycleSequenceOrder
      s!"AUTH sequence is not below permit for {aid}"
    let sequences ← ownSequence s seq s!"permit:{aid}"
    notBeforeCancel s.cancel seq record .permitSequenceNotBeforeCancellation
      "late permit does not prove pre-cancel allocation"
    pure { s with
      sequences := sequences
      attempts := Dict.set s.attempts aid
        { attempt with state := .permitted, permit := some record } }

/-- `EFFECT_ATTEMPTED`. -/
def onAttempted (s : Scan) (record : Record) (aid : String) : Check Scan := do
  rejectIf (decide (s.runState ≠ .running)) .postCancellationEffect
    s!"EFFECT_ATTEMPTED after cancellation for {aid}"
  match s.attempts.lookup aid with
  | none =>
      reject .illegalAttemptTransition
        s!"EFFECT_ATTEMPTED after NO_INTENT for {Json.reprText aid}"
  | some attempt =>
    rejectIf (decide (attempt.state ≠ .permitted)) .illegalAttemptTransition
      s!"EFFECT_ATTEMPTED after {attempt.state.text} for {Json.reprText aid}"
    match attempt.permit with
    | none => .error (.raised .typeError)
    | some permit =>
      rejectAny
        [differ record "permit_seq" permit "lifecycle_seq",
          differ record "conn_id" permit "conn_id",
          differ record "epoch" permit "epoch",
          differ record "pin_ip" attempt.auth "pin_ip",
          differ record "pin_port" attempt.auth "pin_port"]
        .bindingMismatch s!"attempt {aid} does not match permit/pin"
      pure { s with
        attempts := Dict.set s.attempts aid
          { attempt with state := .attempted, attempted := some record } }

/-- `legal` of the `TERMINAL` branch. -/
def legalTerminal (prior : AttemptState) (decision : Kind) : Bool :=
  match prior with
  | .authorized | .permitted => decide (decision = .failed ∨ decision = .cancelled)
  | .attempted => decision.terminal
  | .terminal _ => false

/-- A terminal record names the permit's sequence if there is a permit, and none otherwise. -/
def checkTerminalPermit (permit : Option Record) (record : Record) (aid : String) : Check Unit :=
  match permit with
  | some p => do
    let seq ← eval (p.item "lifecycle_seq")
    rejectIf (decide (record.get? "permit_seq" ≠ some seq)) .bindingMismatch
      s!"terminal permit mismatch for {aid}"
  | none => rejectIf (record.has "permit_seq") .bindingMismatch
      s!"terminal invents permit for {aid}"

/-- `EFFECT_COMPLETED`, `EFFECT_FAILED`, `EFFECT_OUTCOME_UNKNOWN`, `EFFECT_CANCELLED`. -/
def onTerminal (s : Scan) (decision : Kind) (record : Record) (aid : String) : Check Scan := do
  rejectIf (!s.draining) .illegalRunTransition s!"{decision.text} is outside active/cancel drain"
  match s.attempts.lookup aid with
  | none => reject .effectWithoutIntent s!"{decision.text} has no intent: {Json.reprText aid}"
  | some attempt =>
    rejectIf (!legalTerminal attempt.state decision) .illegalAttemptTransition
      s!"{decision.text} after absorbing/illegal {attempt.state.text} for {aid}"
    rejectAny
      [differ record "conn_id" attempt.auth "conn_id", differ record "epoch" attempt.auth "epoch"]
      .bindingMismatch s!"terminal != intent for {aid}"
    checkTerminalPermit attempt.permit record aid
    pure { s with
      attempts := Dict.set s.attempts aid
        { attempt with state := .terminal decision, terminal := some record } }

/-- `s.split(":", 1)[1]`; without a colon the index is out of range. -/
def afterColon (s : String) : Except PyError String :=
  match s.toList.dropWhile (· ≠ ':') with
  | [] => .error .indexError
  | _ :: rest => .ok (String.ofList rest)

/-- `record["url"].startswith("https://" + auth["canonical_host"])`. -/
def urlBinds (record auth : Record) : Except PyError Bool := do
  let url ← record.str "url"
  let host ← auth.str "canonical_host"
  pure (("https://" ++ host).toList.isPrefixOf url.toList)

/-- `record[key] == other[key']`. -/
def same (record : Record) (key : String) (other : Record) (key' : String) :
    Except PyError Bool := do
  pure (!(← differ record key other key'))

/-- `record[key] == value`. -/
def isValue (record : Record) (key : String) (value : Json) : Except PyError Bool := do
  pure (!(← differFrom record key value))

/-- `valid` of the `ALLOW` branch. -/
def allowBinds (record auth terminal : Record) (attempted : Option Record) :
    Except PyError Bool := do
  let expectedRequest ← afterColon (← auth.str "request_intent_digest")
  allOf
    [.ok attempted.isSome,
      same record "conn_id" auth "conn_id",
      same record "program_id" auth "program_id",
      same record "method" auth "method",
      same record "canonical_host" auth "canonical_host",
      same record "pin_family" auth "pin_family",
      same record "pin_ip" auth "pin_ip",
      same record "pin_port" auth "pin_port",
      isValue record "request_hash" (.str expectedRequest),
      same record "response_hash" terminal "response_hash",
      same record "upstream_status" terminal "upstream_status",
      same record "streamed_bytes" terminal "streamed_bytes",
      isValue record "reason" (.str "ALLOW"),
      isValue record "tls_intercepted" (.bool true),
      isValue record "redirect_followed" (.bool false),
      do isValue record "credential_injected"
          (.bool (decide ((← auth.item "credential_ref") ≠ .str "none"))),
      urlBinds record auth,
      do
        let sni ← record.item "sni"
        let host ← auth.item "canonical_host"
        pure (decide (sni = .null ∨ sni = host))]

/-- `ALLOW`. -/
def onAllow (s : Scan) (record : Record) (aid : String) : Check Scan := do
  rejectIf (!s.draining) .illegalRunTransition "ALLOW is outside active/cancel drain"
  match s.attempts.lookup aid with
  | none =>
      reject .allowWithoutCompletion
        s!"ALLOW has no preceding completion: {Json.reprText aid}"
  | some attempt =>
    match attempt.terminal with
    | none =>
        reject .allowWithoutCompletion
          s!"ALLOW has no preceding completion: {Json.reprText aid}"
    | some terminal =>
      rejectIf (!attempt.ended .completed) .allowWithoutCompletion
        s!"ALLOW has no preceding completion: {Json.reprText aid}"
      rejectIf attempt.allow.isSome .duplicateAllow s!"multiple ALLOW records for {aid}"
      let valid ← eval (allowBinds record attempt.auth terminal attempt.attempted)
      rejectIf (!valid) .bindingMismatch s!"ALLOW facts contradict attempt {aid}"
      pure { s with
        attempts := Dict.set s.attempts aid { attempt with allow := some record } }

/-- `PERMIT_RELEASED`. -/
def onReleased (s : Scan) (record : Record) (aid : String) : Check Scan := do
  rejectIf (!s.draining) .illegalRunTransition "PERMIT_RELEASED is outside active/cancel drain"
  match s.attempts.lookup aid with
  | none => reject .releaseWithoutPermit s!"release {Json.reprText aid} has no durable permit"
  | some attempt =>
    match attempt.permit with
    | none => reject .releaseWithoutPermit s!"release {Json.reprText aid} has no durable permit"
    | some permit =>
      rejectIf attempt.terminal.isNone .releaseBeforeTerminal
        s!"release precedes terminal for {aid}"
      rejectIf (attempt.ended .completed && attempt.allow.isNone) .releaseBeforeAllow
        s!"completed attempt {aid} released before ALLOW"
      rejectIf attempt.release.isSome .duplicatePermitRelease s!"multiple releases for {aid}"
      rejectAny
        [differ record "conn_id" permit "conn_id", differ record "epoch" permit "epoch",
          differ record "permit_seq" permit "lifecycle_seq"]
        .releaseBindingMismatch s!"release does not bind permit {aid}"
      let seq ← eval (record.int "lifecycle_seq")
      let permitSeq ← eval (permit.int "lifecycle_seq")
      rejectIf (decide (seq ≤ permitSeq)) .releaseSequenceOrder
        s!"permit is not below release for {aid}"
      let sequences ← ownSequence s seq s!"release:{aid}"
      pure { s with
        sequences := sequences
        attempts := Dict.set s.attempts aid { attempt with release := some record } }

/-- `CANCELLATION_REQUESTED`. -/
def onCancelRequested (s : Scan) (record : Record) : Check Scan := do
  rejectIf (decide (s.runState ≠ .running)) .illegalRunTransition
    "duplicate/out-of-order cancellation request"
  pure { s with cancelRequest := some record, runState := .cancelRequested }

/-- `permit is not None and permit["lifecycle_seq"] >= seq`. -/
def checkPermitBefore (seq : Int) (id : String) : Option Record → Check Unit
  | none => .ok ()
  | some permit => do
    let permitSeq ← eval (permit.int "lifecycle_seq")
    rejectIf (decide (seq ≤ permitSeq)) .permitSequenceNotBeforeCancellation
      s!"permit {id} is not below cancellation"

/-- The loop over `attempts` of the `CANCELLATION_LINEARIZED` branch. -/
def checkLinearized (record : Record) (seq : Int) : List (String × Attempt) → Check Unit
  | [] => .ok ()
  | (id, attempt) :: rest => do
    rejectAny [differ attempt.auth "epoch" record "cancelled_epoch"] .bindingMismatch
      s!"AUTH {id} epoch is not cancelled epoch"
    let authSeq ← eval (attempt.auth.int "lifecycle_seq")
    rejectIf (decide (seq ≤ authSeq)) .authSequenceNotBeforeCancellation
      s!"AUTH {id} is not below cancellation"
    checkPermitBefore seq id attempt.permit
    checkLinearized record seq rest

/-- `CANCELLATION_LINEARIZED`. -/
def onLinearized (s : Scan) (record : Record) : Check Scan := do
  rejectIf (decide (s.runState ≠ .cancelRequested)) .illegalRunTransition
    "linearization lacks one request"
  let seq ← eval (record.int "lifecycle_seq")
  let newEpoch ← eval (record.int "new_epoch")
  let cancelledEpoch ← eval (record.int "cancelled_epoch")
  rejectIf (decide (newEpoch ≠ cancelledEpoch + 1)) .illegalRunTransition
    "invalid cancellation epoch transition"
  match s.cancelRequest with
  | none => .error (.raised .typeError)
  | some request =>
    rejectAny
      [differ request "lifecycle_seq" record "lifecycle_seq",
        differ request "cancellation_epoch" record "new_epoch"]
      .cancellationRequestBindingMismatch "request does not bind the linearization"
    let sequences ← ownSequence s seq "cancellation"
    checkLinearized record seq s.attempts
    pure { s with sequences := sequences, cancel := some record, runState := .cancelLinearized }

/-- The condition under `logical_inflight`'s sum. -/
def Attempt.inflightAt (a : Attempt) (c : Int) : Except PyError Bool :=
  match a.permit with
  | none => .ok false
  | some p => do
    if (← p.int "lifecycle_seq") < c then
      match a.release with
      | none => .error .typeError
      | some r => pure (decide (c < (← r.int "lifecycle_seq")))
    else pure false

/-- `logical_inflight`. -/
def logicalInflight (c : Int) : List (String × Attempt) → Except PyError Nat
  | [] => .ok 0
  | (_, a) :: rest => do
    let here ← a.inflightAt c
    let others ← logicalInflight c rest
    pure (here.toNat + others)

/-- The binding condition of the `KILL_SWITCH` branch. -/
def killBindings (record cancel : Record) : List (Except PyError Bool) :=
  [differ record "lifecycle_seq" cancel "lifecycle_seq",
    differ record "cancellation_epoch" cancel "new_epoch",
    differFrom record "effect_permits_remaining" (.int 0),
    do pure (decide ((← record.int "connections_terminated") ≠
        (← record.texts "terminated_conn_ids").length)),
    do pure (!decide (← record.texts "terminated_conn_ids").Nodup),
    do pure (!decide (← record.texts "registered_at_kill").Nodup),
    do pure (!decide ((← record.texts "terminated_conn_ids") ⊆
        (← record.texts "registered_at_kill"))),
    differFrom record "external_enforcement" (.str "NOT_RUN_PHASE1")]

/-- `record["local_drain_complete"] is not quiescent`. -/
def drainContradicts (record : Record) : Except PyError Bool := do
  let idle ← allOf [isValue record "inflight_remaining" (.int 0),
    isValue record "listener_state" (.str "STOPPED")]
  differFrom record "local_drain_complete" (.bool idle)

/-- `KILL_SWITCH`. -/
def onKillSwitch (s : Scan) (record : Record) : Check Scan := do
  rejectIf (decide (s.runState ≠ .cancelLinearized) || s.kill.isSome) .killSwitchCardinalityOrder
    "KILL_SWITCH must occur exactly once after linearization"
  if !s.incompleteAttempts.isEmpty then
    .error (.returned
      { status := .incompleteAttempt, detail := "KILL_SWITCH precedes terminal attempts"
        ids := s.incompleteAttempts })
  else if !s.missingAllows.isEmpty then
    .error (.returned
      { status := .missingRequiredAllow, detail := "KILL_SWITCH precedes required ALLOW"
        ids := s.missingAllows })
  else if !s.missingReleases.isEmpty then
    .error (.returned
      { status := .missingPermitRelease, detail := "KILL_SWITCH precedes durable releases"
        ids := s.missingReleases })
  else
    countError record
    match s.cancel with
    | none => .error (.raised .typeError)
    | some cancel =>
      let c ← eval (cancel.int "lifecycle_seq")
      let logical ← eval (logicalInflight c s.attempts)
      let recorded ← eval (cancel.int "inflight_at_linearization")
      rejectIf (decide ((logical : Int) ≠ recorded)) .inflightLinearizationMismatch
        s!"recorded={recorded} computed={logical}"
      rejectAny (killBindings record cancel) .killSwitchBindingMismatch
        "KILL_SWITCH facts contradict cancellation"
      rejectAny [drainContradicts record] .killSwitchBindingMismatch
        "KILL_SWITCH drain fact contradicts counts/listener"
      pure { s with kill := some record }

/-- `binding_fields` of the disposition branch. -/
def dispositionFields : List String :=
  ["cancellation_epoch", "lifecycle_seq", "local_drain_complete", "inflight_remaining",
    "effect_permits_remaining", "audit_producers_remaining", "listener_state",
    "external_enforcement"]

/-- `valid` for `CANCELLATION_ACK`. -/
def ackValid (record : Record) : Except PyError Bool :=
  allOf
    [isValue record "local_drain_complete" (.bool true),
      isValue record "inflight_remaining" (.int 0),
      isValue record "effect_permits_remaining" (.int 0),
      isValue record "audit_producers_remaining" (.int 0),
      isValue record "listener_state" (.str "STOPPED"),
      isValue record "external_enforcement" (.str "NOT_RUN_PHASE1"),
      isValue record "ack_scope" (.str "LOCAL_IN_PROCESS_DRAIN_ONLY")]

/-- `valid` for `CANCELLATION_DRAIN_TIMEOUT`; `closure_blockers` is read first, and is not a
required field. -/
def timeoutValid (record : Record) : Except PyError Bool := do
  let blockers ← record.texts "closure_blockers"
  allOf
    [isValue record "local_drain_complete" (.bool false),
      isValue record "ack_scope" (.str "NO_ACK_DRAIN_INCOMPLETE"),
      .ok (!blockers.isEmpty),
      anyOf [do pure (decide (0 < (← record.int "inflight_remaining"))),
        differFrom record "listener_state" (.str "STOPPED")]]

/-- `CANCELLATION_ACK` and `CANCELLATION_DRAIN_TIMEOUT`. -/
def onDisposition (s : Scan) (decision : Kind) (record : Record) : Check Scan := do
  rejectIf (decide (s.runState ≠ .cancelLinearized)) .illegalRunTransition
    s!"{decision.text} lacks the sole bound KILL_SWITCH"
  match s.kill with
  | none => reject .illegalRunTransition s!"{decision.text} lacks the sole bound KILL_SWITCH"
  | some kill =>
    countError record
    rejectAny (dispositionFields.map fun f => differ record f kill f) .falseCancellationDisposition
      "disposition contradicts KILL_SWITCH"
    if decision = .cancelAck then
      let valid ← eval (ackValid record)
      rejectIf (!valid) .falseCancellationDisposition "invalid ACK quiescence facts"
      pure { s with runState := .acknowledged, disposition := some decision }
    else
      let valid ← eval (timeoutValid record)
      rejectIf (!valid) .falseCancellationDisposition "invalid TIMEOUT quiescence facts"
      pure { s with runState := .drainTimeout, disposition := some decision }

/-- The condition of the `RUN_CLOSED` branch. -/
def closureBindings (record cancel : Record) : List (Except PyError Bool) :=
  [differFrom record "closure_schema" (.str E10Anchor.runCloseSchema),
    differ record "closure_sequence" cancel "lifecycle_seq",
    differFrom record "closure_state" (.str "CLOSED"),
    differFrom record "admission_state" (.str "TERMINAL"),
    differFrom record "inflight_remaining" (.int 0),
    differFrom record "effect_permits_remaining" (.int 0),
    differFrom record "audit_producers_remaining" (.int 0),
    differFrom record "listener_state" (.str "STOPPED"),
    differFrom record "seal_action" (.str "FINAL_FSYNC_THEN_ATOMIC_SEAL"),
    differFrom record "cancellation_disposition" (.str Kind.cancelAck.text)]

/-- `RUN_CLOSED`. -/
def onRunClosed (s : Scan) (record : Record) : Check Scan := do
  rejectIf (decide (s.runState ≠ .acknowledged)) .illegalRunTransition "RUN_CLOSED requires ACK"
  match s.cancel with
  | none => .error (.raised .typeError)
  | some cancel =>
    rejectAny (closureBindings record cancel) .invalidRunClosure "RUN_CLOSED fields are not exact"
    countError record
    pure { s with closure := some record, runState := .closed }

/-- `[auth["pin_family"], auth["pin_ip"], auth["pin_port"]]`. -/
def expectedPin (auth : Record) : Except PyError Json := do
  pure (.arr [← auth.item "pin_family", ← auth.item "pin_ip", ← auth.item "pin_port"])

/-- The binding condition of the `CONNECTION_TERMINATED` branch. -/
def terminationBindings (record auth terminal : Record) : List (Except PyError Bool) :=
  [differ record "conn_id" auth "conn_id",
    differ record "method" auth "method",
    do differFrom record "pin" (← expectedPin auth),
    do pure (decide (terminal.get? "bytes_streamed" ≠ some (← record.item "bytes_streamed"))),
    do pure (!(← urlBinds record auth))]

/-- `CONNECTION_TERMINATED`. -/
def onConnectionTerminated (s : Scan) (record : Record) (aid : String) : Check Scan := do
  rejectIf (!s.draining) .illegalRunTransition "CONNECTION_TERMINATED outside active/drain run"
  match s.attempts.lookup aid with
  | none =>
      reject .orphanConnectionTerminated
        s!"no attempted UNKNOWN effect for {Json.reprText aid}"
  | some attempt =>
    rejectIf attempt.attempted.isNone .orphanConnectionTerminated
      s!"no attempted UNKNOWN effect for {Json.reprText aid}"
    match attempt.terminal with
    | none =>
        reject .orphanConnectionTerminated
          s!"no attempted UNKNOWN effect for {Json.reprText aid}"
    | some terminal =>
      rejectIf (!attempt.ended .unknown) .orphanConnectionTerminated
        s!"no attempted UNKNOWN effect for {Json.reprText aid}"
      rejectIf attempt.connectionTerminated.isSome .duplicateConnectionTerminated
        s!"multiple termination records for {aid}"
      rejectAny (terminationBindings record attempt.auth terminal)
        .connectionTerminatedBindingMismatch s!"termination facts contradict {aid}"
      pure { s with
        attempts := Dict.set s.attempts aid
          { attempt with connectionTerminated := some record } }

/-- `record.get("pin") is not None and record["pin"][0] not in {"ipv4", "ipv6"}`. -/
def badPinFamily (record : Record) : Except PyError Bool :=
  match record.get? "pin" with
  | none | some .null => .ok false
  | some (.arr (family :: _)) => .ok (decide (family ∉ [Json.str "ipv4", .str "ipv6"]))
  | some (.arr []) => .error .indexError
  | some _ => .error .typeError

/-- `BLOCKED_BY_POLICY`. -/
def onBlocked (s : Scan) (record : Record) : Check Scan := do
  rejectIf (!s.draining) .illegalRunTransition "BLOCKED_BY_POLICY outside active/drain run"
  rejectAny [badPinFamily record] .contextBindingMismatch
    "BLOCKED_BY_POLICY has invalid pin family"
  pure s

/-- `startup_seen or active_seen or run_state != "RUNNING"`. -/
def Scan.pastStartup (s : Scan) : Bool :=
  s.startupSeen || s.activeSeen || decide (s.runState ≠ .running)

/-- `STARTUP_DEGRADED`. -/
def onStartupDegraded (s : Scan) : Check Scan := do
  rejectIf s.pastStartup .illegalRunTransition "STARTUP_DEGRADED is outside startup"
  pure s

/-- `STARTUP_FAILED`. -/
def onStartupFailed (s : Scan) : Check Scan := do
  rejectIf s.pastStartup .illegalRunTransition "STARTUP_FAILED is outside startup"
  pure { s with runState := .startupFailed }

/-- `STARTUP`. -/
def onStartup (s : Scan) (record : Record) : Check Scan := do
  rejectIf s.pastStartup .illegalRunTransition "duplicate or out-of-position STARTUP"
  let maxConnections ← eval (record.int "max_connections")
  rejectIf (decide (maxConnections ≤ 0)) .contextBindingMismatch
    "STARTUP max_connections must be positive"
  pure { s with startupSeen := true, runState := .running }

/-- The two guards at the head of the loop body. -/
def checkRunState (s : Scan) (index : Nat) (kind : Kind) : Check Unit := do
  rejectIf (decide (s.runState = .closed)) .recordAfterRunClosure
    s!"line {index} follows RUN_CLOSED"
  rejectIf (decide (s.runState ∈ [.acknowledged, .drainTimeout, .startupFailed]) &&
      !(decide (s.runState = .acknowledged) && decide (kind = .runClosed)))
    .illegalRunTransition s!"{kind.text} appended after terminal run disposition"

/-- The branches that follow `active_seen = True`. -/
def onActive (s : Scan) (kind : Kind) (record : Record) : Check Scan :=
  let aid := record.textOr "attempt_id"
  match kind with
  | .auth => onAuth s record aid
  | .permit => onPermit s record aid
  | .attempted => onAttempted s record aid
  | .completed | .failed | .unknown | .cancelled => onTerminal s kind record aid
  | .allow => onAllow s record aid
  | .permitReleased => onReleased s record aid
  | .cancelRequested => onCancelRequested s record
  | .cancelLinearized => onLinearized s record
  | .killSwitch => onKillSwitch s record
  | .cancelAck | .cancelDrainTimeout => onDisposition s kind record
  | .runClosed => onRunClosed s record
  | .connectionTerminated => onConnectionTerminated s record aid
  | .blockedByPolicy => onBlocked s record
  | .startup | .startupDegraded | .startupFailed =>
    reject .unvalidatedContextualRecord s!"no semantic branch for {kind.text}"

/-- One iteration of the loop. -/
def step (s : Scan) (index : Nat) (record : Record) : Check Scan :=
  match record.kind? with
  | none => .error (.raised (.keyError "decision"))
  | some kind => do
    checkRunState s index kind
    match kind with
    | .startupDegraded => onStartupDegraded s
    | .startupFailed => onStartupFailed s
    | .startup => onStartup s record
    | _ => onActive { s with activeSeen := true } kind record

/-- The loop over the records. -/
def scan (s : Scan) (index : Nat) : List Record → Check Scan
  | [] => .ok s
  | record :: records => do
    let s' ← step s index record
    scan s' (index + 1) records

/-- The first loop: the run id and the schema of every record. -/
def checkRecords (expectedRunId : String) (lineNo : Nat) : List Record → Check Unit
  | [] => .ok ()
  | record :: records => do
    rejectIf (decide (record.get? "run_id" ≠ some (.str expectedRunId))) .wrongRunId
      s!"line {lineNo} is outside expected Run ID"
    schemaError record lineNo
    checkRecords expectedRunId (lineNo + 1) records

/-- `counts`. -/
def Scan.counts (s : Scan) : Counts :=
  let count (p : Attempt → Bool) := (s.attempts.filter fun e => p e.2).length
  { intents := s.attempts.length
    permits := count fun a => a.permit.isSome
    attempted := count fun a => a.attempted.isSome
    completed := count fun a => a.ended .completed
    outcomeUnknown := s.incompleteAttempts.length
    allow := count fun a => a.allow.isSome
    released := count fun a => a.release.isSome }

/-- What follows the loop. -/
def conclude (s : Scan) : Check Result :=
  if s.attempts.isEmpty then
    reject .noLifecycleRecords "no E10-v2 authorization intents"
  else if !s.incompleteAttempts.isEmpty then
    .error (.returned
      { status := .incompleteAttempt, detail := "attempt lacks absorbing outcome"
        counts := some s.counts, ids := s.incompleteAttempts
        releaseDisposition := some "INDEPENDENT_REVIEW_REQUIRED_NO_AUTOMATIC_RETRY" })
  else if !s.missingAllows.isEmpty then
    .error (.returned
      { status := .missingRequiredAllow, detail := "completed gateway effects lack ALLOW"
        counts := some s.counts, ids := s.missingAllows })
  else if !s.missingReleases.isEmpty then
    .error (.returned
      { status := .missingPermitRelease, detail := "durable permits lack durable release"
        counts := some s.counts, ids := s.missingReleases })
  else if s.kill.isNone && s.cancel.isSome then
    reject .missingKillSwitch "cancellation has no semantically bound KILL_SWITCH"
  else
    let notClosed (detail : String) : Check Result :=
      .error (.returned
        { status := .runNotClosed, detail := detail, counts := some s.counts })
    match s.runState with
    | .running => notClosed "EOF is not completeness evidence"
    | .cancelRequested =>
      reject .missingCancellationLinearization "request has no linearization"
    | .cancelLinearized =>
      reject .missingCancellationDisposition "linearization has no disposition"
    | .drainTimeout => notClosed "timeout cannot close a run"
    | .acknowledged => notClosed "ACK is not a close"
    | .startupFailed | .closed => .ok (.localHistoryValid s.counts s.closure s.disposition)

/-- The checks in order. -/
def historyCheck (records : List Record) (expectedRunId : String) : Check Result := do
  rejectIf expectedRunId.isEmpty .expectedRunIdRequired "an explicit expected Run ID is required"
  rejectIf records.isEmpty .noLifecycleRecords "audit contains no records"
  checkRecords expectedRunId 1 records
  conclude (← scan .start 1 records)

/-- `_validate_history`. -/
def validateHistory (records : List Record) (expectedRunId : String) : Except PyError Result :=
  match historyCheck records expectedRunId with
  | .ok r => .ok r
  | .error (.returned r) => .ok (.rejected r)
  | .error (.raised e) => .error e

/-- The verdict is `LOCAL_HISTORY_VALID`. -/
def accepts (records : List Record) (expectedRunId : String) : Bool :=
  match validateHistory records expectedRunId with
  | .ok (.localHistoryValid ..) => true
  | _ => false

/-! ## A small accepted run

One attempt whose connection is cut by the cancellation: it holds its permit at the
linearization, and its release and its termination record arrive afterwards. -/

namespace Sample

def hash : String := "0000000000000000000000000000000000000000000000000000000000000000"

def record (kind : Kind) (fields : Record) : Record :=
  [("decision", .str kind.text), ("run_id", .str "run-1"), ("ts", .float "1.5" true),
    ("prev", .str hash)] ++ fields

def attempt : Record := [("attempt_id", .str "attempt-1"), ("conn_id", .str "conn-1")]

def quiescent : Record :=
  [("cancellation_epoch", .int 2), ("lifecycle_seq", .int 3), ("local_drain_complete", .bool true),
    ("inflight_remaining", .int 0), ("effect_permits_remaining", .int 0),
    ("audit_producers_remaining", .int 0), ("listener_state", .str "STOPPED"),
    ("external_enforcement", .str "NOT_RUN_PHASE1")]

def history : List Record :=
  [record .startup
      [("reason", .str "LISTENING"), ("max_connections", .int 8), ("port", .int 8080),
        ("listener", .str "TLS"), ("listen_family", .str "ipv4"), ("listen_addr", .str "127.0.0.1")],
    record .auth
      (attempt ++ [("lifecycle_version", .str "E10-v2"), ("epoch", .int 1),
        ("program_id", .str "program-1"), ("policy_generation", .str "g1"),
        ("budget_binding", .str "b1"), ("method", .str "GET"),
        ("canonical_host", .str "api.example"), ("pin_family", .str "ipv4"),
        ("pin_ip", .str "192.0.2.1"), ("pin_port", .int 443), ("credential_ref", .str "none"),
        ("request_intent_digest", .str ("sha256:" ++ hash)), ("lifecycle_seq", .int 1)]),
    record .permit
      (attempt ++ [("epoch", .int 1), ("lifecycle_seq", .int 2), ("policy_generation", .str "g1"),
        ("budget_binding", .str "b1")]),
    record .attempted
      (attempt ++ [("epoch", .int 1), ("permit_seq", .int 2), ("pin_ip", .str "192.0.2.1"),
        ("pin_port", .int 443)]),
    record .cancelRequested
      [("reason", .str "operator"), ("cancellation_epoch", .int 2), ("lifecycle_seq", .int 3)],
    record .cancelLinearized
      [("cancelled_epoch", .int 1), ("new_epoch", .int 2), ("lifecycle_seq", .int 3),
        ("inflight_at_linearization", .int 1)],
    record .unknown
      (attempt ++ [("epoch", .int 1), ("permit_seq", .int 2), ("reason", .str "UPSTREAM"),
        ("bytes_streamed", .int 0)]),
    record .permitReleased
      (attempt ++ [("epoch", .int 1), ("permit_seq", .int 2), ("lifecycle_seq", .int 4)]),
    record .connectionTerminated
      (attempt ++ [("reason", .str "UPSTREAM"), ("url", .str "https://api.example/"),
        ("method", .str "GET"), ("bytes_streamed", .int 0), ("test_nonce", .str ""),
        ("row_id", .str ""), ("pin", .arr [.str "ipv4", .str "192.0.2.1", .int 443])]),
    record .killSwitch
      ([("reason", .str "operator"), ("connections_terminated", .int 1),
        ("terminated_conn_ids", .arr [.str "conn-1"]),
        ("registered_at_kill", .arr [.str "conn-1"])] ++ quiescent),
    record .cancelAck (quiescent ++ [("ack_scope", .str "LOCAL_IN_PROCESS_DRAIN_ONLY")]),
    record .runClosed
      [("closure_schema", .str E10Anchor.runCloseSchema), ("closure_sequence", .int 3),
        ("closure_state", .str "CLOSED"), ("admission_state", .str "TERMINAL"),
        ("inflight_remaining", .int 0), ("cancellation_disposition", .str Kind.cancelAck.text),
        ("effect_permits_remaining", .int 0), ("audit_producers_remaining", .int 0),
        ("listener_state", .str "STOPPED"), ("seal_action", .str "FINAL_FSYNC_THEN_ATOMIC_SEAL")]]

theorem history_accepted : accepts history "run-1" = true := by decide +kernel

end Sample

end VerifyE10

end StrixPEP
