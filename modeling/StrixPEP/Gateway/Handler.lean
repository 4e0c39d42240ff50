import StrixPEP.Gateway.World

/-!
# The programs of the gateway

The methods of `Gateway`, `EffectGate` and `EffectPermit` and the function `cancel_and_quiesce`, as
programs over `Cmd`, under their own names.

`canonical_host` (IDNA and `ipaddress`) is a parameter; the PDP, the CA and the network answer
through `Query`.  A loop over what the environment sends takes the whole list from it at once.
`raise` inside `try` is `tryCatch`, `finally` is `tryFinally`; an early `return` is the end of the
branch.
-/

namespace StrixPEP

open Threads Fields

/-- A program of the gateway. -/
abbrev GProg := Prog Exn Cmd Cmd.Resp

namespace GProg

/-- One step. -/
def issue (c : Cmd) : GProg c.Resp := Prog.perform c

def fail {α : Type} (e : Exn) : GProg α := .raise e

/-- A request to the environment that may raise. -/
def ask (q : Query) : GProg q.Result := do
  let r : Except Exn q.Result ← issue (.env q)
  match r with
  | .ok a => return a
  | .error e => fail e

/-- `try: ... except Exception: pass` around bytes to the client. -/
def respond : GProg Unit := do
  let _ ← issue (.env .respond)
  return ()

/-- A program on the connections. -/
def onNet {α : Type} : NetProg α → GProg α
  | .ret a => .ret a
  | .raise e => nomatch e
  | .cmd c k => .cmd (.net c) fun r => onNet (k r)

/-- What a call that did not return raises. -/
def raised : Outcome → GProg Unit
  | .written _ _ => return ()
  | .refused => fail .runtimeError
  | .openFailed name | .ioFailed name _ _ _ | .closeFailed name _ _ => fail (.osError name)

/-- `audit.write(...)`. -/
def auditWrite (e : Entry) : GProg Unit := do
  let o : Outcome ← issue (.write e)
  raised o

/-- `audit.seal_with(...)`. -/
def auditSeal (e : Entry) : GProg Unit := do
  let o : Outcome ← issue (.sealWith e)
  raised o

end GProg

open GProg

/-! ## `EffectPermit` and `EffectGate` -/

namespace EffectPermit

/-- `release`. -/
def release (permit : EffectPermit) : GProg Unit := do
  let entered : RunState.ReleaseEntry ← issue (.releaseEnter permit.ref)
  match entered with
  | .again failed _ => if failed then fail .auditUnhealthy else return ()
  | .silent _ => return ()
  | .write t connId =>
    let ok ← Prog.tryCatch
      (do
        auditWrite (.released permit.attemptId connId permit.epoch permit.lifecycleSeq
          t.lifecycleSeq)
        return true)
      fun _ => return false
    let _ ← issue (.releaseExit permit.ref ok)
    if ok then return () else fail .auditUnhealthy

end EffectPermit

/-- `_intents` of an `EffectGate`; every handler makes its own. -/
abbrev EffectGate := List (String × Intent)

namespace EffectGate

/-- `commit_intent`. -/
def commitIntent (gate : EffectGate) (intent : Intent) : GProg EffectGate := do
  let healthy : Bool ← issue .healthy
  if !healthy then fail .auditUnhealthy
  else
    let sequence : Option Nat ← issue (.authorize intent.attemptId intent.epoch)
    match sequence with
    | none => fail .cancelled
    | some seq =>
      Prog.tryCatch (auditWrite (.auth intent seq)) fun _ => fail .auditUnhealthy
      return Dict.set gate intent.attemptId intent

/-- The checks of `acquire_permit` against the intent. -/
def binds (intent : Intent) (epoch : Nat) (connId policyGeneration budgetBinding : String) : Bool :=
  decide (policyGeneration ≠ "" ∧ budgetBinding ≠ "" ∧
    intent.policyGeneration = policyGeneration ∧ intent.budgetBinding = budgetBinding ∧
    intent.epoch = epoch ∧ intent.connId = connId)

/-- `acquire_permit`, less the marks of the call. -/
def permitCall (gate : EffectGate) (attemptId : String) (epoch : Nat)
    (connId policyGeneration budgetBinding : String) : GProg (Option EffectPermit) :=
  match gate.lookup attemptId with
  | none => return none
  | some intent =>
    if !binds intent epoch connId policyGeneration budgetBinding then return none
    else do
      let issued : Option EffectPermit ←
        issue (.issuePermit attemptId epoch connId policyGeneration budgetBinding)
      match issued with
      | none => return none
      | some permit =>
        Prog.tryCatch
          (auditWrite (.permit attemptId connId epoch permit.lifecycleSeq policyGeneration
            budgetBinding))
          fun _ => do
            let _ ← issue (.abandonUndurable permit.ref)
            fail .auditUnhealthy
        let bound : Bool ← issue (.bindDurableRelease permit.ref connId)
        if bound then return some permit else fail .lifecycleError

/-- `acquire_permit`. -/
def acquirePermit (gate : EffectGate) (attemptId : String) (epoch : Nat)
    (connId policyGeneration budgetBinding : String) : GProg (Option EffectPermit) := do
  let start : Nat ← issue (.permitCalled attemptId)
  let permit ← Prog.tryCatch (gate.permitCall attemptId epoch connId policyGeneration budgetBinding)
    fun e => do
      let _ ← issue (.permitReturned attemptId start false)
      fail e
  let _ ← issue (.permitReturned attemptId start permit.isSome)
  return permit

/-- `mark_attempted`. -/
def markAttempted (permit : EffectPermit) (connId : String) (pin : Pin) : GProg Unit :=
  Prog.tryCatch
    (auditWrite (.attempted permit.attemptId connId permit.epoch permit.lifecycleSeq pin))
    fun _ => fail .auditUnhealthy

/-- `settle` of an attempt id. -/
def settleAttempt (gate : EffectGate) (attemptId connId : String) (outcome : Settlement)
    (extra : Fields) : GProg Unit :=
  Prog.tryCatch
    (auditWrite (.settled outcome attemptId connId none
      ((gate.lookup attemptId).map (·.epoch)) extra))
    fun _ => return ()

/-- `settle` of a permit. -/
def settlePermit (permit : EffectPermit) (connId : String) (outcome : Settlement)
    (extra : Fields) : GProg Unit :=
  Prog.tryCatch
    (auditWrite (.settled outcome permit.attemptId connId (some permit.lifecycleSeq)
      (some permit.epoch) extra))
    fun _ => return ()

end EffectGate

/-! ## `Gateway` -/

/-- What the client sends once its connection is accepted. -/
structure ConnectRequest where
  target : String
  /-- `self.connection`. -/
  raw : Nat
  clientIp : String
  nonce : String
  row : String
  session : String
  asset : String
  cred : String
  deriving DecidableEq, Repr

/-- A request as `handle_one_request` dispatches it. -/
inductive Request where
  /-- Nothing is dispatched; the parser may raise. -/
  | none (failure : Option Exn)
  | get (path clientIp : String)
  /-- Any other method: `__getattr__`. -/
  | other (method path clientIp : String)
  | connect (r : ConnectRequest)
  deriving DecidableEq, Repr

/-- What the handler knows when it enters the tunnel. -/
structure Tunnel where
  state : ConnectionState
  port : Nat
  session : String
  asset : String
  cred : String
  sni : Option String
  deriving DecidableEq, Repr

namespace Tunnel

/-- `label`. -/
def label (t : Tunnel) : String := s!"https://{PyText.ofOption t.state.canonical}:{t.port}"

end Tunnel

namespace Gateway

/-- The labels that every record of a connection carries. -/
def labels (s : ConnectionState) : Fields :=
  [("conn_id", str s.connId), ("row_id", str s.rowId), ("test_nonce", str s.testNonce)]

/-- `_deny`; the labels of the connection once there is one. -/
def deny (reason url method src : String) (state : Option ConnectionState) : GProg Unit := do
  respond
  auditWrite (.blocked ([("reason", str reason), ("url", str url), ("method", str method),
    ("src", str src)] ++ (state.map labels).getD []))

/-- `_deny_tls`. -/
def denyTls (s : ConnectionState) (reason url method : String) : GProg Unit := do
  respond
  auditWrite (.blocked ([("reason", str reason), ("url", str url), ("method", str method),
    ("tls", bool true)] ++ labels s))

/-- What `_inside` knows of an exchange once its request is allowed. -/
structure Exchange where
  tunnel : Tunnel
  head : Head
  decision : Decision
  epoch : Nat
  attemptId : String
  intent : Intent
  deriving DecidableEq, Repr

namespace Exchange

def state (x : Exchange) : ConnectionState := x.tunnel.state

/-- `label + path`. -/
def url (x : Exchange) : String := x.tunnel.label ++ x.head.path

/-- `_deny_tls` inside the tunnel. -/
def deny (x : Exchange) (reason : String) : GProg Unit :=
  denyTls x.state reason x.url x.head.method

/-- `req_hash`. -/
def requestHash (x : Exchange) : String :=
  String.ofList ((x.intent.requestIntentDigest.toList.dropWhile (· ≠ ':')).drop 1)

end Exchange

open EffectGate

/-- The end of the exchange: the stream is relayed and recorded. -/
def relay (x : Exchange) (permit : EffectPermit) (pin : Pin) : GProg Unit := do
  let streamed : Except Exn (List Bytes × Option Exn) ← issue (.env .stream)
  let (chunks, failure) : List Bytes × Option Exn :=
    match streamed with
    | .ok r => r
    | .error e => ([], some e)
  match failure with
  | some e =>
    settlePermit permit x.state.connId .unknown
      [("reason", str e.name), ("bytes_streamed", int (streamTotal chunks))]
    auditWrite (.terminated
      { reason := e.name, url := x.url, method := x.head.method
        bytesStreamed := streamTotal chunks, state := x.state, attemptId := x.attemptId, pin := pin })
  | none =>
    settlePermit permit x.state.connId .completed
      [("upstream_status", int (streamStatus chunks)), ("response_hash", str (streamHash chunks)),
        ("streamed_bytes", int (streamTotal chunks))]
    auditWrite (.allow
      { url := x.url, method := x.head.method, state := x.state, attemptId := x.attemptId
        sni := x.tunnel.sni, pin := pin, upstreamStatus := streamStatus chunks
        credentialInjected := x.decision.liveSecret.isSome, streamedBytes := streamTotal chunks
        requestHash := x.requestHash, responseHash := streamHash chunks })

/-- `plain.connect`, the TLS handshake and the transfer; `false` where `_inside` returns. -/
def openUpstream (x : Exchange) (permit : EffectPermit) (pin : Pin) (plain : Nat) : GProg Bool :=
  let conn := x.state.connId
  Prog.tryCatch
    (do
      let connected : Except Exn Unit ← issue (.connect x.attemptId conn pin)
      match connected with
      | .error e => fail e
      | .ok _ =>
        let up : Nat ← ask .wrapUpstream
        let ok ← onNet (NetProg.transfer conn plain up)
        if ok then return true
        else
          settlePermit permit conn .unknown [("reason", str "TERMINAL_DURING_TLS")]
          x.deny "CANCELLED_DURING_TLS"
          return false)
    fun e => do
      match e.cls with
      | .certVerification =>
        settlePermit permit conn .unknown [("reason", str "UPSTREAM_CERT_INVALID")]
        auditWrite (.blocked ([("reason", str "UPSTREAM_CERT_INVALID"),
          ("detail", str (String.ofList (e.text.toList.take 160))), ("url", str x.url),
          ("pin", pin.asTuple)] ++ labels x.state))
        x.deny "UPSTREAM_CERT_INVALID"
        return false
      | .timeout =>
        settlePermit permit conn .unknown [("reason", str "CONNECT_TIMEOUT")]
        x.deny "UPSTREAM_ERROR:TimeoutError"
        return false
      | _ =>
        settlePermit permit conn .unknown [("reason", str s!"UPSTREAM_ERROR:{e.name}")]
        x.deny s!"UPSTREAM_ERROR:{e.name}"
        return false

/-- The effect, with a permit in hand. -/
def permitted (x : Exchange) (permit : EffectPermit) (pin : Pin) (plain : Nat) : GProg Unit := do
  let conn := x.state.connId
  let terminal : Bool ← issue (.checkTerminal conn)
  if terminal then
    settlePermit permit conn .cancelled [("reason", str "TERMINAL_BEFORE_ATTEMPT")]
    x.deny "CANCELLED_BEFORE_ATTEMPT"
  else
    let marked ← Prog.tryCatch
      (do
        markAttempted permit conn pin
        return true)
      fun e => do
        match e.cls with
        | .auditUnhealthy =>
          x.deny s!"AUDIT_UNHEALTHY:{e.name}"
          return false
        | _ => fail e
    if !marked then return ()
    else
      let up ← openUpstream x permit pin plain
      if !up then return ()
      else
        -- a `UnicodeEncodeError` here passes every handler of `_inside` but the `finally`
        let _ ← ask .encodeRequest
        let sent : Except Exn Unit ← issue (.env .sendRequest)
        match sent with
        | .error e =>
          settlePermit permit conn .unknown [("reason", str s!"UPSTREAM_WRITE:{e.name}")]
          x.deny s!"UPSTREAM_WRITE:{e.name}"
        | .ok _ => relay x permit pin

/-- The outer `try` of `_inside`: `permit` is released once it is bound. -/
def effect (x : Exchange) (gate : EffectGate) (current : Decision) (pin : Pin) : GProg Unit := do
  let conn := x.state.connId
  let created : Except Exn Nat ← issue (.env .createSocket)
  match created with
  | .error e =>
    gate.settleAttempt x.attemptId conn .failed [("reason", str s!"SOCKET_CREATE:{e.name}")]
    x.deny s!"UPSTREAM_ERROR:{e.name}"
  | .ok plain =>
    let tracked ← onNet (NetProg.trackOrReject conn plain)
    if !tracked then
      gate.settleAttempt x.attemptId conn .cancelled [("reason", str "TERMINAL_BEFORE_CONNECT")]
      x.deny "KILL_SWITCH_ACTIVE"
    else
      let acquired ← Prog.tryCatch
        (do
          let permit ← gate.acquirePermit x.attemptId x.epoch conn current.policyGeneration
            current.budgetBinding
          return some permit)
        fun e => do
          match e.cls with
          | .auditUnhealthy =>
            x.deny s!"AUDIT_UNHEALTHY:{e.name}"
            return none
          | _ => fail e
      match acquired with
      | none => return ()
      | some none =>
        gate.settleAttempt x.attemptId conn .cancelled
          [("reason", str "EPOCH_TERMINAL_OR_BINDING_AT_PERMIT")]
        x.deny "CANCELLED_AT_PERMIT"
      | some (some permit) => Prog.tryFinally (permitted x permit pin plain) permit.release

/-- `_inside` from the recheck of the policy on. -/
def recheck (x : Exchange) (gate : EffectGate) : GProg Unit := do
  let conn := x.state.connId
  let decided : Except Exn Decision ← issue (.env (.decide .recheck))
  match decided with
  | .error e =>
    gate.settleAttempt x.attemptId conn .failed [("reason", str s!"PDP_RECHECK:{e.name}")]
    x.deny s!"PDP_FAILURE:{e.name}"
  | .ok current =>
    if !current.allow ∨ current.programId ≠ x.state.programId ∨ current.pin ≠ x.state.pin ∨
        current.policyGeneration ≠ x.decision.policyGeneration ∨
        current.budgetBinding ≠ x.decision.budgetBinding then
      gate.settleAttempt x.attemptId conn .failed [("reason", str "AUTHORIZATION_RECHECK_FAILED")]
      x.deny "AUTHORIZATION_RECHECK_FAILED"
    else
      -- `state.pin.family` is the first use of the pin
      match x.state.pin with
      | none => fail .attributeError
      | some pin =>
        let _ ← ask .upstreamContext
        effect x gate current pin

/-- `_inside` from the new attempt on. -/
def committing (t : Tunnel) (head : Head) (d : Decision) : GProg Unit := do
  let epoch : Nat ← issue .epoch
  let uuid : String ← issue .newAttemptId
  let attemptId := "att-" ++ uuid
  if d.policyGeneration ≠ t.state.policyGeneration ∨ d.budgetBinding ≠ t.state.budgetBinding then
    denyTls t.state "AUTHORIZATION_BINDING_CHANGED" (t.label ++ head.path) head.method
  else
    let runId : String ← issue .runId
    let intent := sanitizedIntent runId t.state.connId attemptId epoch (t.state.programId.getD "")
      d.policyGeneration head.method t.state.canonical head.path t.state.pin (orElse t.cred "none")
      d.budgetBinding head.preBody.length
    let x : Exchange := ⟨t, head, d, epoch, attemptId, intent⟩
    let committed ← Prog.tryCatch
      (do
        let gate ← commitIntent [] intent
        return some gate)
      fun e => do
        match e.cls with
        | .auditUnhealthy | .cancelled =>
          x.deny s!"AUDIT_UNHEALTHY:{e.name}"
          return none
        | _ => fail e
    match committed with
    | none => return ()
    | some gate => recheck x gate

/-- `_inside` once the PDP has allowed the request. -/
def allowed (t : Tunnel) (head : Head) (d : Decision) : GProg Unit := do
  match d.liveSecret with
  | some s =>
    let _ ← issue (.addSecret s)
    committing t head d
  | none => committing t head d

section

variable (canonicalHost : String → Option String)

/-- `_inside` with the head in hand. -/
def request (t : Tunnel) (head : Head) : GProg Unit := do
  let url := t.label ++ head.path
  let hdrHost := canonicalHost (hostOf head.headers)
  if hdrHost ≠ t.state.canonical then
    denyTls t.state
      s!"HOST_HEADER_MISMATCH:{PyText.ofOption hdrHost}!={PyText.ofOption t.state.canonical}"
      url head.method
  else
    let decided : Except Exn Decision ← issue (.env (.decide .request))
    match decided with
    | .error e => denyTls t.state s!"PDP_FAILURE:{e.name}" url head.method
    | .ok d => if !d.allow then denyTls t.state d.reason url head.method else allowed t head d

/-- `sni is not None and canonical_host(sni) != canon`. -/
def sniDiffers (t : Tunnel) : Bool :=
  match t.sni with
  | none => false
  | some name => decide (canonicalHost name ≠ t.state.canonical)

/-- `_inside`. -/
def inside (t : Tunnel) : GProg Unit := do
  if sniDiffers canonicalHost t then
    denyTls t.state
      s!"SNI_MISMATCH:{PyText.ofOption t.sni}!={PyText.ofOption t.state.canonical}" t.label "CONNECT"
  else
    let received : List Bytes × Option Exn ← ask .recvHead
    match readHead [] received.1, received.2 with
    | .head head, _ => request canonicalHost t head
    | .more, some e => fail e
    | _, _ =>
      auditWrite (.blocked ([("reason", str "MALFORMED_HTTP_IN_TUNNEL"), ("url", str t.label)] ++
        labels t.state))

/-- `_connect_flow` once the certificate is loaded. -/
def handshake (state : ConnectionState) (r : ConnectRequest) (port : Nat) : GProg Unit := do
  let _ ← onNet (NetProg.trackOrReject state.connId r.raw)
  let _ ← ask .settimeout
  let wrapped : Except Exn (Nat × Option String) ← issue (.env .wrapClient)
  match wrapped with
  | .error e =>
    if e.isOs then
      auditWrite (.blocked ([("reason", str "MALFORMED_TLS_CLIENT_HELLO"), ("detail", str e.name),
        ("url", str s!"CONNECT {r.target}"), ("method", str "CONNECT")] ++ labels state))
    else fail e
  | .ok (tls, sni) =>
    let ok ← onNet (NetProg.transfer state.connId r.raw tls)
    if !ok then return ()
    else inside canonicalHost ⟨state, port, r.session, r.asset, r.cred, sni⟩

/-- `_connect_flow`. -/
def connectFlow (state : ConnectionState) (r : ConnectRequest) (host : String) (port : Nat) :
    GProg Unit := do
  let url := s!"CONNECT {r.target}"
  let decided : Except Exn Decision ← issue (.env (.decide .admission))
  match decided with
  | .error e => deny s!"PDP_FAILURE:{e.name}" url "CONNECT" r.clientIp (some state)
  | .ok d =>
    if !d.allow then deny d.reason url "CONNECT" r.clientIp (some state)
    else
      let state := { state with
        pin := d.pin
        canonical := canonicalHost host
        programId := d.programId
        policyGeneration := d.policyGeneration
        budgetBinding := d.budgetBinding }
      let leaf : Except Exn Unit ← issue (.env .leafFor)
      match leaf with
      | .error e =>
        if e.cls = .ca then
          deny s!"CERT_MINT_FAILED:{e.text}" url "CONNECT" r.clientIp (some state)
        else fail e
      | .ok _ =>
        let _ ← ask .establish
        let _ ← ask .serverContext
        let loaded : Except Exn Unit ← issue (.env .loadCertChain)
        match loaded with
        | .error e => deny s!"CERT_LOAD_FAILED:{e.name}" url "CONNECT" r.clientIp (some state)
        | .ok _ => handshake canonicalHost state r port

/-- The records that `do_CONNECT` itself writes. -/
def refuse (state : ConnectionState) (r : ConnectRequest) (reason : String) : GProg Unit :=
  auditWrite (.blocked ([("reason", str reason), ("url", str s!"CONNECT {r.target}"),
    ("method", str "CONNECT")] ++ labels state ++ [("src", str state.clientIp)]))

/-- The `finally` of `do_CONNECT`. -/
def cleanUp (connId : String) : GProg Unit := do
  let _ ← onNet (NetProg.terminate connId)
  let _ ← issue (.net (.remove connId))
  let _ ← issue .releaseSlot

/-- `do_CONNECT` with a slot. -/
def connection (r : ConnectRequest) (host : String) (port : Nat) : GProg Unit := do
  let connId : String ← issue .newConnId
  let state : ConnectionState := ⟨r.clientIp, connId, r.nonce, r.row, none, none, none, "", ""⟩
  Prog.tryFinally
    (Prog.tryCatch
      (do
        let added : Bool ← issue (.net (.add connId))
        if !added then refuse state r "KILL_SWITCH_ACTIVE"
        else connectFlow canonicalHost state r host port)
      fun e => refuse state r s!"INTERNAL_FAILURE:{e.name}")
    (cleanUp connId)

/-- `_deny` where there is no connection yet; the client may go on with its next request. -/
def denyEarly (reason url method src : String) : GProg Bool := do
  deny reason url method src none
  return true

/-- `do_CONNECT`.  Only the `finally` sets `close_connection` (`false`): a target or a client that is
refused before keeps its connection. -/
def doConnect (r : ConnectRequest) : GProg Bool := do
  let url := s!"CONNECT {r.target}"
  match PyText.rpartition ':' r.target.toList with
  | none => denyEarly "MALFORMED_CONNECT_TARGET" url "CONNECT" r.clientIp
  | some (host, p) =>
    if !PyText.isDigits p then denyEarly "MALFORMED_CONNECT_TARGET" url "CONNECT" r.clientIp
    else
      match PyText.toPort p with
      | none => fail .valueError
      | some port =>
        let acquired : Bool ← issue .acquireSlot
        if !acquired then denyEarly "CONCURRENCY_LIMIT_REACHED" url "CONNECT" r.clientIp
        else
          connection canonicalHost r (String.ofList host) port
          return false

/-- One dispatch of `handle_one_request`; `false` where `close_connection` is set. -/
def dispatch : Request → GProg Bool
  | .none none => return true
  | .none (some e) => fail e
  | .get path ip => denyEarly "PLAINTEXT_HTTP_DISABLED" path "GET" ip
  | .other method path ip => denyEarly "UNSUPPORTED_PROTOCOL_OR_METHOD" path method ip
  | .connect r => doConnect canonicalHost r

/-- `BaseHTTPRequestHandler.handle`: one request after another; a `TimeoutError` ends the
connection. -/
def requests : List Request → GProg Unit
  | [] => return ()
  | r :: rs => do
    let more ← Prog.tryCatch
      (do
        let more ← dispatch canonicalHost r
        let _ ← ask .flush
        return more)
      fun e => if e.cls = .timeout then return false else fail e
    if more then requests rs else return ()

/-- The `finally` of `handle`. -/
def endProducer : GProg Unit := do
  let ok : Bool ← issue .endProducer
  if ok then return () else fail .runtimeError

/-- `handle`. -/
def handle (rs : List Request) : GProg Unit := do
  let ok : Bool ← issue .beginProducer
  if !ok then return ()
  else Prog.tryFinally (requests canonicalHost rs) endProducer

end

end Gateway

/-! ## Cancellation and the listener -/

/-- The optional arguments of `cancel_and_quiesce` that are given. -/
structure QuiesceArgs where
  server : Bool
  listenerClosed : Bool
  deriving DecidableEq, Repr

namespace Quiesce

/-- `record_linearization`. -/
def recordLinearization (t : CancellationTransition) : GProg Unit := do
  auditWrite (.cancelRequested t)
  auditWrite (.cancelLinearized t)

/-- `terminate_all`, less the evidence and the drain: the transition, `torn` and the snapshot. -/
def terminate : GProg (CancellationTransition × List String × List String) := do
  let cancelled : ℚ × CancellationTransition ← issue .cancel
  let (torn, victims) ← onNet NetProg.enforce
  return (cancelled.2, torn, victims)

/-- `blockers`. -/
def blockers (effects producers : Nat) (listenerStopped : Bool) : List String :=
  (if effects ≠ 0 then ["EFFECT_PERMITS_REMAIN"] else []) ++
    (if producers ≠ 0 then ["AUDIT_PRODUCERS_REMAIN"] else []) ++
    (if !listenerStopped then ["LISTENER_NOT_STOPPED"] else [])

/-- The `try` at the end of `cancel_and_quiesce`; the result is `outcome["sealed"]`. -/
def close (t : CancellationTransition) (torn snapshot : List String) (evidenceDurable : Bool)
    (blockers : List String) (common : Common) : GProg Bool :=
  Prog.tryCatch
    (do
      if !evidenceDurable then fail .runtimeError
      else
        let healthy : Bool ← issue .healthy
        if !healthy then fail .runtimeError
        else
          auditWrite (.killSwitch torn snapshot common)
          if !blockers.isEmpty then
            auditWrite (.drainTimeout blockers common)
            return false
          else
            auditWrite (.ack common)
            auditSeal (.runClosed t.lifecycleSeq)
            return true)
    fun _ => return false

/-- `cancel_and_quiesce` after the drain has been waited for. -/
def sample (t : CancellationTransition) (torn snapshot : List String)
    (evidenceDurable stopStarted listenerStopped : Bool) : GProg Bool := do
  let effects : Nat ← issue .inflightCount
  let producers : Nat ← issue .producerCount
  let epoch : Nat ← issue .epoch
  let stopped := listenerStopped && stopStarted
  let bs := blockers effects producers stopped
  close t torn snapshot evidenceDurable bs
    ⟨epoch, t.lifecycleSeq, bs.isEmpty, effects + producers, effects, producers, stopped⟩

/-- The call of `stop_listener`; `false` where it raises. -/
def stopListening (args : QuiesceArgs) : GProg Bool :=
  if args.server then do
    let stopped : Except Exn Unit ← issue .stopListener
    match stopped with
    | .ok _ => return true
    | .error _ => return false
  else return true

/-- `listener_closed.wait(timeout)`. -/
def awaitListener (args : QuiesceArgs) : GProg Bool :=
  match args.listenerClosed with
  | true => Prog.bind (issue .waitListener) fun (closed : Bool) => .ret closed
  | false => .ret !args.server

/-- `cancel_and_quiesce` from the wait for the permits on. -/
def drain (args : QuiesceArgs) (t : CancellationTransition) (torn snapshot : List String)
    (evidenceDurable stopStarted : Bool) : GProg Bool := do
  let _ ← issue .waitForDrain
  let _ ← issue .inflightCount
  let listenerStopped ← awaitListener args
  let _ ← issue .waitForProducerDrain
  sample t torn snapshot evidenceDurable stopStarted listenerStopped

/-- `cancel_and_quiesce`. -/
def cancelAndQuiesce (args : QuiesceArgs) : GProg Bool := do
  let (t, torn, snapshot) ← terminate
  let stopStarted ← stopListening args
  let _ ← issue (.net (.linearized torn snapshot))
  let evidenceDurable ← Prog.tryCatch
    (do
      recordLinearization t
      return true)
    fun _ => return false
  drain args t torn snapshot evidenceDurable stopStarted

/-- The thread that cancels the run. -/
def canceller (args : QuiesceArgs) : GProg Unit := do
  let sealed ← cancelAndQuiesce args
  let _ ← issue (.quiesced sealed)

/-- The end of `serve`: the serve loop ends, then `listener_closed` is set. -/
def listener : GProg Unit := do
  let _ ← issue .endServing
  let _ ← issue .setListenerClosed

end Quiesce

/-- The threads of a run: the canceller, the listener and the handlers. -/
def gatewayPool (canonicalHost : String → Option String) (args : QuiesceArgs)
    (clients : Nat → List Request) : Nat → GProg Unit
  | 0 => Quiesce.canceller args
  | 1 => Quiesce.listener
  | i + 2 => Gateway.handle canonicalHost (clients i)

end StrixPEP
