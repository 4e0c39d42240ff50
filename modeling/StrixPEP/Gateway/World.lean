import StrixPEP.Gateway.Entries
import StrixPEP.Gateway.Registry
import StrixPEP.Lifecycle.Linearization

/-!
# The gateway's shared state and its atomic steps

* `World` — what the threads of a run share: the `RunContext` with its permits, the audit log, the
  registry with the connections, the listener.
* `Cmd` — the atomic steps: one lock section, one call of `AuditLog.write` (its lock is held
  throughout), one observation, or one request to the environment (`Query`), which answers
  anything or raises anything.
* `World.exec` — one step of a thread; all nondeterminism is in the response.

What no program reads is kept for the properties: who authorized an attempt, holds a permit or
made a connection, what was appended to the log by whom (`log`), the traffic of the in-flight map
(`flights`), and three flags of the run: `lost` (some write raised), `unguarded` (the environment
raised where the handler has no handler) and `raced` (`CANCELLATION_REQUESTED` was appended while a
handler stood between its terminal check and its `EFFECT_ATTEMPTED`).
-/

namespace StrixPEP

open Threads

/-! ## The environment -/

/-- Which call of `pdp.decide`. -/
inductive DecidePhase where
  | admission
  | request
  | recheck
  deriving DecidableEq, Repr

/-- A request to the world outside the process. -/
inductive Query where
  | decide (phase : DecidePhase)
  /-- `ca.leaf_for`. -/
  | leafFor
  /-- `send_response(200)`, `end_headers()`. -/
  | establish
  /-- `ssl.SSLContext(...)` of the client side. -/
  | serverContext
  | loadCertChain
  /-- `raw.settimeout`. -/
  | settimeout
  /-- `ctx.wrap_socket(raw)`: the wrapped socket and the SNI that the callback saw. -/
  | wrapClient
  /-- The `recv` calls of `_read_head`: the chunks, and how it ends: an exception or the end. -/
  | recvHead
  /-- `ssl.create_default_context(...)` and the attributes of the context. -/
  | upstreamContext
  /-- `socket.socket(...)`, `settimeout`. -/
  | createSocket
  | wrapUpstream
  /-- The `.encode()` of `raw_req`, whose text holds the secret. -/
  | encodeRequest
  /-- `up.sendall(raw_req)`. -/
  | sendRequest
  /-- The streaming loop: the chunks received, and the exception that ended it, if one did. -/
  | stream
  /-- Bytes to the client whose failure is ignored. -/
  | respond
  /-- The rest of `handle_one_request`. -/
  | flush
  deriving DecidableEq, Repr

/-- What a request returns. -/
def Query.Result : Query → Type
  | .decide _ => Decision
  | .createSocket | .wrapUpstream => Nat
  | .wrapClient => Nat × Option String
  | .recvHead | .stream => List Bytes × Option Exn
  | .leafFor | .establish | .serverContext | .loadCertChain | .settimeout | .upstreamContext
  | .encodeRequest | .sendRequest | .respond | .flush => Unit

/-- The answers after which an unguarded statement between the durable intent and its outcome
raises: a recheck that allows without a pin, an exception from the upstream context or from the
encoding of the request. -/
def Query.unguarded : (q : Query) → Except Exn q.Result → Bool
  | .decide .recheck, .ok (d : Decision) => d.allow && d.pin.isNone
  | .upstreamContext, .error _ | .encodeRequest, .error _ => true
  | _, _ => false

/-! ## The shared state -/

/-- The listener: `serve_forever` is running; `listener_closed` is set. -/
structure Listener where
  serving : Bool
  closed : Bool
  deriving DecidableEq, Repr

/-- A line that was appended to the audit log; `ok` is whether the call returned. -/
structure Written where
  tid : Nat
  entry : Entry
  record : Record
  ok : Bool
  deriving DecidableEq, Repr

/-- What happened to the in-flight map, and the calls of `acquire_permit`. -/
inductive Flight where
  | issued (tid : Nat) (p : EffectPermit)
  | popped (tid : Nat) (attemptId : String)
  | called (tid : Nat) (attemptId : String)
  /-- The call that was made after `start` entries has returned a permit, or not. -/
  | returned (tid : Nat) (attemptId : String) (start : Nat) (granted : Bool)
  deriving DecidableEq, Repr

def Flight.tid : Flight → Nat
  | issued i _ | popped i _ | called i _ | returned i _ _ _ => i

def Flight.ofEvent (tid : Nat) : Lifecycle.Event → List Flight
  | .permitted p => [.issued tid p]
  | .released t => [.popped tid t.attemptId]
  | _ => []

structure World where
  run : RunState
  audit : AuditLog
  net : Net
  maxConnections : Nat
  listener : Listener
  history : Lifecycle.History
  flights : List Flight
  log : List Written
  /-- Who authorized an attempt. -/
  attempts : List (String × Nat)
  /-- Who holds the permit of this identity. -/
  holders : List Nat
  /-- Who made a connection. -/
  conns : List (String × Nat)
  /-- The connections that were added and not yet removed. -/
  live : List String
  /-- The handlers that count as producers. -/
  producers : List Nat
  /-- The handlers between a passed terminal check and the append of `EFFECT_ATTEMPTED`. -/
  poised : List Nat
  raced : Bool
  lost : Bool
  unguarded : Bool
  /-- `outcome["sealed"]` of `cancel_and_quiesce`, once it has returned. -/
  outcome : Option Bool

/-- The atomic steps. -/
inductive Cmd where
  | env (q : Query)
  | net (c : NetCmd)
  /-- `state.is_terminal()` before `mark_attempted`. -/
  | checkTerminal (connId : String)
  | acquireSlot
  | releaseSlot
  | beginProducer
  | endProducer
  /-- `uuid.uuid4().hex` of a new `ConnectionState`. -/
  | newConnId
  /-- `uuid.uuid4().hex` of `new_attempt_id`. -/
  | newAttemptId
  | epoch
  | runId
  | healthy
  | addSecret (secret : String)
  | authorize (attemptId : String) (epoch : Nat)
  | permitCalled (attemptId : String)
  | permitReturned (attemptId : String) (start : Nat) (granted : Bool)
  | issuePermit (attemptId : String) (epoch : Nat) (connId policyGeneration budgetBinding : String)
  | bindDurableRelease (ref : Nat) (connId : String)
  | abandonUndurable (ref : Nat)
  | releaseEnter (ref : Nat)
  | releaseExit (ref : Nat) (ok : Bool)
  | write (e : Entry)
  | sealWith (e : Entry)
  /-- `plain.connect`. -/
  | connect (attemptId connId : String) (pin : Pin)
  | cancel
  | inflightCount
  | producerCount
  | waitForDrain
  | waitForProducerDrain
  /-- `server.shutdown()`, which returns when the serve loop has ended. -/
  | stopListener
  /-- `listener_closed.wait(timeout)`. -/
  | waitListener
  /-- The serve loop ends. -/
  | endServing
  /-- `listener_closed.set()`. -/
  | setListenerClosed
  /-- `cancel_and_quiesce` returns. -/
  | quiesced (sealed : Bool)

/-- What each step returns. -/
def Cmd.Resp : Cmd → Type
  | .env q => Except Exn q.Result
  | .net c => c.Resp
  | .checkTerminal _ | .acquireSlot | .beginProducer | .endProducer | .healthy
  | .bindDurableRelease _ _ | .waitForDrain | .waitForProducerDrain | .waitListener => Bool
  | .newConnId | .newAttemptId | .runId => String
  | .epoch | .inflightCount | .producerCount | .permitCalled _ => Nat
  | .authorize _ _ => Option Nat
  | .issuePermit _ _ _ _ _ => Option EffectPermit
  | .releaseEnter _ => RunState.ReleaseEntry
  | .write _ | .sealWith _ => Outcome
  | .connect _ _ _ | .stopListener => Except Exn Unit
  | .cancel => ℚ × CancellationTransition
  | .releaseSlot | .addSecret _ | .permitReturned _ _ _ | .abandonUndurable _ | .releaseExit _ _
  | .endServing | .setListenerClosed | .quiesced _ => Unit

namespace World

def fresh (maxConnections : Nat) (audit : AuditLog) (listener : Listener) : World where
  run := RunState.fresh
  audit := audit
  net := Net.fresh maxConnections
  maxConnections := maxConnections
  listener := listener
  history := Lifecycle.History.empty
  flights := []
  log := []
  attempts := []
  holders := []
  conns := []
  live := []
  producers := []
  poised := []
  raced := false
  lost := false
  unguarded := false
  outcome := none

def setRegistry (w : World) (registry : Registry) : World :=
  { w with net := { w.net with registry := registry } }

/-- One operation of the permit authority by thread `i`. -/
def advance (i : Nat) (w : World) (op : Lifecycle.Op) : Option (Lifecycle.Event × World) :=
  (Lifecycle.step w.run op).map fun r =>
    (r.1, { w with
      run := r.2
      history := w.history.push r.1
      flights := w.flights ++ Flight.ofEvent i r.1 })

/-- What the connections that were added become. -/
def liveAfter (live : List String) : (c : NetCmd) → c.Resp → List String
  | .add c, (ok : Bool) => if ok then live ++ [c] else live
  | .remove c, _ => live.filter (· ≠ c)
  | _, _ => live

/-- The log after a call of `write` or `seal_with` by thread `i`. -/
def record (i : Nat) (w : World) (e : Entry) (o : Outcome) (audit : AuditLog) : World :=
  { w with
    audit := audit
    log := if AuditLog.appends o then
        w.log ++ [⟨i, e, w.audit.persist e.fields o, o.ok⟩]
      else w.log
    lost := w.lost || !o.ok
    raced := w.raced || (e.isRequested && AuditLog.appends o && !w.poised.isEmpty)
    poised := if e.isAttempted then w.poised.filter (· ≠ i) else w.poised }

open Net in
/-- One step of thread `i`. -/
def exec (i : Nat) : (c : Cmd) → World → c.Resp → Option World
  | .env q, w, (r : Except Exn q.Result) => some { w with unguarded := w.unguarded || q.unguarded r }
  | .net c, w, (r : c.Resp) =>
    (Net.exec i c w.net r).map fun n => { w with net := n, live := liveAfter w.live c r }
  | .checkTerminal c, w, (r : Bool) =>
    give r (w.net.lifecycles c).terminal { w with poised := if r then w.poised else i :: w.poised }
  | .acquireSlot, w, (r : Bool) => give r w.net.registry.acquire.1 (w.setRegistry w.net.registry.acquire.2)
  | .releaseSlot, w, _ => some (w.setRegistry (w.net.registry.release w.maxConnections))
  | .beginProducer, w, (r : Bool) =>
    give r w.net.registry.beginProducer.1
      { w.setRegistry w.net.registry.beginProducer.2 with
        producers := if r then i :: w.producers else w.producers }
  | .endProducer, w, (r : Bool) =>
    give r w.net.registry.endProducer.1
      { w.setRegistry w.net.registry.endProducer.2 with producers := w.producers.erase i }
  | .newConnId, w, (r : String) =>
    if r ∈ w.conns.map Prod.fst then none else some { w with conns := w.conns ++ [(r, i)] }
  | .newAttemptId, w, _ => some w
  | .epoch, w, (r : Nat) => give r w.run.ctx.epoch w
  | .runId, w, (r : String) => give r w.audit.runId w
  | .healthy, w, (r : Bool) => give r w.audit.healthy w
  | .addSecret s, w, _ => some { w with audit := w.audit.addSecret s }
  | .authorize a e, w, (r : Option Nat) =>
    (w.advance i (.authorize a e)).bind fun x =>
      give r (w.run.ctx.authorize a e).1
        { x.2 with attempts := if r.isSome then w.attempts ++ [(a, i)] else w.attempts }
  | .permitCalled a, w, (r : Nat) =>
    give r w.flights.length { w with flights := w.flights ++ [.called i a] }
  | .permitReturned a start granted, w, _ =>
    some { w with flights := w.flights ++ [.returned i a start granted] }
  | .issuePermit a e c gen bud, w, (r : Option EffectPermit) =>
    let terminal := (w.net.lifecycles c).terminal
    (w.advance i (.issuePermit a e terminal gen bud)).bind fun x =>
      give r (w.run.issuePermit a e terminal gen bud).1
        { x.2 with holders := if r.isSome then w.holders ++ [i] else w.holders }
  | .bindDurableRelease ref c, w, (r : Bool) =>
    (w.run.bindDurableRelease ref c).bind fun y =>
      (w.advance i (.bindDurableRelease ref c)).bind fun x => give r y.1 x.2
  | .abandonUndurable ref, w, _ => (w.advance i (.abandonUndurable ref)).map Prod.snd
  | .releaseEnter ref, w, (r : RunState.ReleaseEntry) =>
    (w.run.releaseEnter ref).bind fun y =>
      (w.advance i (.release ref)).bind fun x => give r y.1 x.2
  | .releaseExit ref ok, w, _ => (w.advance i (.releaseWrite ref ok)).map Prod.snd
  | .write e, w, (r : Outcome) => (w.audit.write e.fields r).map (w.record i e r)
  | .sealWith e, w, (r : Outcome) => (w.audit.sealWith e.fields r).map (w.record i e r)
  | .connect _ _ _, w, _ => some w
  | .cancel, w, (r : ℚ × CancellationTransition) =>
    (w.advance i (.cancel r.1)).bind fun x => give r.2 (w.run.ctx.cancel r.1).1 x.2
  | .inflightCount, w, (r : Nat) => give r w.run.ctx.inflight.length w
  | .producerCount, w, (r : Nat) => give r w.net.registry.activeProducers w
  | .waitForDrain, w, (r : Bool) => give r w.run.ctx.inflight.isEmpty w
  | .waitForProducerDrain, w, (r : Bool) => give r (decide (w.net.registry.activeProducers = 0)) w
  | .stopListener, w, (r : Except Exn Unit) =>
    match r with
    | .ok _ => if w.listener.serving then none else some w
    | .error _ => some w
  | .waitListener, w, (r : Bool) => give r w.listener.closed w
  | .endServing, w, _ => some { w with listener := { w.listener with serving := false } }
  | .setListenerClosed, w, _ => some { w with listener := { w.listener with closed := true } }
  | .quiesced b, w, _ => some { w with outcome := some b }

end World

/-- The gateway as a machine. -/
def gatewayMachine : Machine Cmd Cmd.Resp World := ⟨World.exec⟩

end StrixPEP
