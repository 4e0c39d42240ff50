import StrixPEP.Gateway.CancellerSpec
import StrixPEP.Gateway.HandlerSpec

/-!
# Every run of the gateway

* `Boot` — how a run starts: a fresh `Registry` and `RunContext`, an audit log opened on any file,
  the listener, any number of clients;
* `Boot.Reachable` — the states of every interleaving, with every answer of the environment and
  every outcome of the audit writes.

Principal results, for every reachable state:

* `connect_write_ahead` — `plain.connect` is called with the intent, the permit and the attempt in the
  file, and a call of `acquire_permit` without a permit leaves no trace in the in-flight map;
* `closure_safe` — what a `RUN_CLOSED` record means.

They speak of the records of the file, in whose texts the registered secrets are replaced.
-/

namespace StrixPEP

open Threads

/-- How a run starts. -/
structure Boot where
  /-- `canonical_host`. -/
  canonicalHost : String → Option String
  args : QuiesceArgs
  clients : Nat → List Request
  maxConnections : Nat
  audit : AuditLog
  listener : Listener
  /-- `listener_closed` is set before the serve loop runs only where it never runs. -/
  closed_imp : listener.closed = true → listener.serving = false
  /-- A listener that serves is handed to `cancel_and_quiesce`. -/
  serving_imp : listener.serving = true → args.server = true

namespace Boot

/-- The first configuration. -/
def start (B : Boot) : Config Exn Cmd Cmd.Resp World :=
  ⟨World.fresh B.maxConnections B.audit B.listener, gatewayPool B.canonicalHost B.args B.clients⟩

/-- Some interleaving leads here. -/
def Reachable (B : Boot) (cfg : Config Exn Cmd Cmd.Resp World) : Prop :=
  Reach gatewayMachine B.start cfg

/-- What every thread has done once it has ended. -/
def ended : Nat → World → Prop
  | i + 2, w => w.Clean (i + 2) none
  | _, _ => True

theorem inv_start (B : Boot) : GatewayInv B.audit.file B.start.state where
  lifecycle := Lifecycle.inv_fresh
  net := KillSwitch.netInv_fresh B.maxConnections
  flights := rfl
  calls pre post i a s h := by
    have hnil : ([] : List Flight) = pre ++ .returned i a s false :: post := h
    simp at hnil
  attempts := rfl
  recorded x hx := by cases hx
  holders := List.Forall₂.nil
  producers := rfl
  killed h := by cases h
  conns := List.nodup_nil
  live c hc := by cases hc
  kills v v' hv := by cases hv
  requested h := by
    obtain ⟨x, hx, -⟩ := h
    cases hx
  order := Or.inr List.Pairwise.nil
  exclusive := Or.inl fun x hx => by cases hx
  regular x hx := by cases hx
  failed x hx := by cases hx
  persisted x hx := by cases hx
  file := ⟨[], by simp [start, World.fresh], by simp, fun _ => rfl⟩
  listener := B.closed_imp
  closed x hx := by cases hx
  outcome b hb := by cases hb

theorem before_start (B : Boot) : Quiesce.Before B.args B.start.state where
  cancellation := rfl
  outcome := rfl
  records := rfl
  listener := by
    rcases h : B.listener.serving with _ | _
    · exact Or.inr h
    · exact Or.inl (B.serving_imp h)
  killed := rfl
  shutdown := nofun

theorem clean_start (B : Boot) (i : Nat) : B.start.state.Clean i none :=
  Or.inr (Or.inr nofun)

/-- Every thread's program meets its specification at the start. -/
theorem wp_start (B : Boot) (i : Nat) :
    (gatewayProtocol B.audit.file).wp i (B.start.pool i) (fun _ => ended i) (fun _ => ended i)
      B.start.state := by
  match i with
  | 0 => exact Quiesce.wp_canceller B.inv_start B.before_start
  | 1 => exact Quiesce.wp_listener
  | i + 2 => exact Gateway.wp_handle (Nat.succ_ne_zero _) (B.clients i) (B.clean_start _)

variable {B : Boot} {cfg cfg' : Config Exn Cmd Cmd.Resp World}

theorem Reachable.inv (h : B.Reachable cfg) : GatewayInv B.audit.file cfg.state :=
  (Protocol.sound B.inv_start B.wp_start h).1

theorem Reachable.req (h : B.Reachable cfg) {i : Nat} {c : Cmd} {k : c.Resp → GProg Unit}
    (hp : cfg.pool i = .cmd c k) : GatewayReq i c cfg.state :=
  Protocol.sound_req B.inv_start B.wp_start h hp

/-- The log only grows. -/
theorem Reachable.log_grows (h : B.Reachable cfg) (hr : Reach gatewayMachine cfg cfg') :
    cfg.state.log <+: cfg'.state.log := by
  obtain ⟨hinv, hwp⟩ := Protocol.sound B.inv_start B.wp_start h
  refine Protocol.sound_mono (P := gatewayProtocol B.audit.file)
    (G := fun w w' => w.log <+: w'.log) (fun _ => List.prefix_refl _)
    (fun h h' => List.IsPrefix.trans h h') (fun i w w' he => ?_) hinv hwp hr
  exact Evolves.log he

theorem Reachable.clean (h : B.Reachable cfg) {i : Nat} (hi : i ≠ 0) (hi' : i ≠ 1)
    (he : (∃ u, cfg.pool i = .ret u) ∨ (∃ e, cfg.pool i = .raise e) ∨
      ∃ c k, cfg.pool i = .cmd (.net (.remove c)) k) : cfg.state.Clean i none := by
  obtain ⟨hret, hraise⟩ := Protocol.sound_ended B.inv_start B.wp_start h i
  have hended : ended i cfg.state → cfg.state.Clean i none := by
    match i with
    | 0 => exact absurd rfl hi
    | 1 => exact absurd rfl hi'
    | i + 2 => exact id
  rcases he with ⟨u, hp⟩ | ⟨e, hp⟩ | ⟨c, k, hp⟩
  · exact hended (hret hp)
  · exact hended (hraise e hp)
  · exact (h.req hp).2.2

/-- What the record of an entry says. -/
theorem Reachable.tells (h : B.Reachable cfg) {x : Written} (hx : x ∈ cfg.state.log) {fields : Fields}
    (hf : ∀ f ∈ fields, f.1 ∉ stampKeys ∧ x.entry.fields.lookup f.1 = some f.2) :
    x.record.Tells cfg.state.audit.redaction fields := by
  obtain ⟨log, o, hrec, horder⟩ := h.inv.persisted x hx
  refine Record.tells_of ⟨o.order, horder, fun f hm => ?_⟩
  obtain ⟨hkey, hlookup⟩ := hf f hm
  rw [hrec, AuditLog.persist_get? hkey, hlookup]
  rfl

/-- The lines of the log are in the file. -/
theorem Reachable.lines (h : B.Reachable cfg) {xs : List Written} (hs : xs.Sublist cfg.state.log) :
    (xs.map fun x => AuditLog.lineOf x.record).Sublist cfg.state.audit.file := by
  obtain ⟨rest, hfile, -, -⟩ := h.inv.file
  rw [hfile]
  exact ((hs.map _).trans (List.sublist_append_right _ _)).trans (List.sublist_append_left _ _)

/-- A decision without the mark is that of the entry: redaction cannot make it. -/
theorem Reachable.decision (h : B.Reachable cfg) {x : Written} (hx : x ∈ cfg.state.log) {text : String}
    (hplain : '«' ∉ text.toList) (hd : x.record.get? "decision" = some (.str text)) :
    x.entry.decision = text := by
  obtain ⟨log, o, hrec, -⟩ := h.inv.persisted x hx
  rw [hrec, AuditLog.persist_decision, Option.some.injEq, Json.str.injEq] at hd
  exact redact_eq hplain hd

end Boot

/-! ## One run, step by step -/

namespace Replay

/-- The answers of the connections. -/
def net : (c : NetCmd) → Net → c.Resp
  | .add c, n => (n.registry.add c).1
  | .track c sock, n => ((n.lifecycles c).track sock).1
  | .transfer c old new, n => ((n.lifecycles c).transfer old new).1
  | .isTerminal c, n => (n.lifecycles c).terminal
  | .shutdown _ sock, n => !n.closed sock
  | .beginTermination c, n => (n.lifecycles c).sockets
  | .kill, n => n.registry.conns
  | .remove _, _ | .close _, _ | .answer _ _ _, _ | .linearized _ _, _ => ()

/-- The answers of the shared state; the environment answers `env`, the storage `sink`. -/
def reply (env : (q : Query) → Except Exn q.Result) (sink : Entry → List String → Outcome) (_ : Nat) :
    (c : Cmd) → World → Option c.Resp
  | .env q, _ => some (env q)
  | .net c, w => some (net c w.net)
  | .checkTerminal c, w => some (w.net.lifecycles c).terminal
  | .acquireSlot, w => some w.net.registry.acquire.1
  | .beginProducer, w => some w.net.registry.beginProducer.1
  | .endProducer, w => some w.net.registry.endProducer.1
  | .healthy, w => some w.audit.healthy
  | .bindDurableRelease ref c, w => (w.run.bindDurableRelease ref c).map Prod.fst
  | .waitForDrain, w => some w.run.ctx.inflight.isEmpty
  | .waitForProducerDrain, w => some (decide (w.net.registry.activeProducers = 0))
  | .waitListener, w => some w.listener.closed
  | .newConnId, _ => some "conn-1"
  | .newAttemptId, _ => some "1"
  | .runId, w => some w.audit.runId
  | .epoch, w => some w.run.ctx.epoch
  | .inflightCount, w => some w.run.ctx.inflight.length
  | .producerCount, w => some w.net.registry.activeProducers
  | .permitCalled _, w => some w.flights.length
  | .authorize a e, w => some (w.run.ctx.authorize a e).1
  | .issuePermit a e c gen bud, w =>
    some (w.run.issuePermit a e (w.net.lifecycles c).terminal gen bud).1
  | .releaseEnter ref, w => (w.run.releaseEnter ref).map Prod.fst
  | .write e, w | .sealWith e, w => some (sink e w.audit.redaction)
  | .connect _ _ _, _ | .stopListener, _ => some (.ok ())
  | .cancel, w => some (0, (w.run.ctx.cancel 0).1)
  | .releaseSlot, _ | .addSecret _, _ | .permitReturned _ _ _, _ | .abandonUndurable _, _
  | .releaseExit _ _, _ | .endServing, _ | .setListenerClosed, _ | .quiesced _, _ => some ()

/-- Every write succeeds. -/
def accept (_ : Entry) (order : List String) : Outcome := .written "1.5" order

def pin : Pin := ⟨.ipv4, "192.0.2.1", 443⟩

def decision : Decision :=
  ⟨true, "ALLOW", some pin, none, some "program-1",
    some [("policy_generation", .str "g1"), ("budget_binding", .str "b1")]⟩

/-- `GET / HTTP/1.1`, `Host: a`. -/
def head : Bytes :=
  [71, 69, 84, 32, 47, 32, 72, 84, 84, 80, 47, 49, 46, 49, 13, 10, 72, 111, 115, 116, 58, 32, 97, 13,
    10, 13, 10]

/-- Every request to the environment goes through. -/
def fair : (q : Query) → Except Exn q.Result
  | .decide _ => .ok decision
  | .createSocket => .ok (2 : Nat)
  | .wrapUpstream => .ok (3 : Nat)
  | .wrapClient => .ok ((1 : Nat), none)
  | .recvHead => .ok ([head], none)
  | .stream => .ok ([], none)
  | .leafFor | .establish | .serverContext | .loadCertChain | .settimeout | .upstreamContext
  | .encodeRequest | .sendRequest | .respond | .flush => .ok ()

/-- One client that connects, on an empty log. -/
def boot : Boot where
  canonicalHost := some
  args := ⟨false, false⟩
  clients i := if i = 0 then [.connect ⟨"a:443", 0, "192.0.2.7", "", "", "", "", ""⟩] else []
  maxConnections := 8
  audit := ⟨"run-1", [], true, false, AuditLog.genesis, []⟩
  listener := ⟨false, false⟩
  closed_imp := nofun
  serving_imp := nofun

/-- The threads of the list take one step each. -/
def run (env : (q : Query) → Except Exn q.Result) (sink : Entry → List String → Outcome)
    (is : List Nat) : Option (Config Exn Cmd Cmd.Resp World) :=
  schedule gatewayMachine (reply env sink) is boot.start

theorem reachable (env : (q : Query) → Except Exn q.Result) (sink : Entry → List String → Outcome)
    (is : List Nat) {p : Config Exn Cmd Cmd.Resp World → Bool} (h : (run env sink is).any p = true) :
    ∃ cfg, boot.Reachable cfg ∧ p cfg = true := by
  rw [Option.any_eq_true] at h
  obtain ⟨cfg, hs, hp⟩ := h
  exact ⟨cfg, schedule_reach hs, hp⟩

end Replay

/-! ## Write-ahead authorization -/

/-- The successful records of an attempt, in the log. -/
theorem World.entriesOf_sublist (w : World) (a : String) : ∃ xs : List Written, xs.Sublist w.log ∧
    (∀ x ∈ xs, x.ok = true) ∧ xs.map (·.entry) = w.entriesOf a := by
  refine ⟨_, List.filter_sublist, fun x hx => ?_, rfl⟩
  have hp := (List.mem_filter.1 hx).2
  rw [Bool.and_eq_true] at hp
  exact hp.1

section

variable {B : Boot} {cfg : Config Exn Cmd Cmd.Resp World}

/-- The next step of thread `2` is `plain.connect`. -/
def Replay.connecting (cfg : Config Exn Cmd Cmd.Resp World) : Bool :=
  match cfg.pool 2 with
  | .cmd (.connect _ _ _) _ => true
  | _ => false

/-- The request is allowed with a secret that is the text of a decision. -/
def Replay.clashing : (q : Query) → Except Exn q.Result
  | .decide .request => .ok { Replay.decision with secret := some "AUTH_COMMITTED" }
  | q => Replay.fair q

end

/-! ## Closure -/

/-- The log accepts no entry. -/
def AuditLog.Refuses (log : AuditLog) : Prop :=
  ∀ fields o log', log.write fields o = some log' ∨ log.sealWith fields o = some log' →
    o = .refused ∧ log' = log

theorem AuditLog.refuses_of {log : AuditLog} (h : log.sealed = true ∨ log.healthy = false) :
    log.Refuses := by
  intro fields o log' hw
  rcases hw with hw | hw
  · exact write_refused h hw
  · unfold sealWith at hw
    split at hw
    · cases hw
    · rename_i log₁ hw₁
      obtain ⟨rfl, rfl⟩ := write_refused h hw₁
      cases hw
      exact ⟨rfl, rfl⟩

/-- Nothing can start. -/
structure World.Refuses (w : World) : Prop where
  beginProducer : w.net.registry.beginProducer.1 = false
  add : ∀ c, (w.net.registry.add c).1 = false
  authorize : ∀ a e, (w.run.ctx.authorize a e).1 = none
  issuePermit : ∀ a e terminal gen bud, (w.run.issuePermit a e terminal gen bud).1 = none

theorem Quiescent.refuses {w : World} (h : Quiescent w) : w.Refuses := by
  obtain ⟨-, -, -, hk, hc⟩ := h
  constructor
  · simp [Registry.beginProducer, hk]
  · simp [Registry.add, hk]
  · simp [RunContext.authorize, hc]
  · simp [RunState.issuePermit, RunContext.issuePermit, hc]

section

variable {B : Boot} {cfg : Config Exn Cmd Cmd.Resp World}

/-- A `RUN_CLOSED` record that was written makes the run closed. -/
theorem Boot.Reachable.closed (h : B.Reachable cfg) {x : Written} (hx : x ∈ cfg.state.log)
    (hok : x.ok = true) (hd : x.record.get? "decision" = some (.str "RUN_CLOSED")) :
    Closed cfg.state x := by
  have I := h.inv
  obtain ⟨log, o, hrec, -⟩ := I.persisted x hx
  rw [hrec] at hd
  exact I.closed x hx hok (AuditLog.persist_runClosed hd)

open Fields in
/-- Nothing in flight, nobody who produces, and a listener that has stopped. -/
def drained : Fields :=
  [("inflight_remaining", int 0), ("effect_permits_remaining", int 0),
    ("audit_producers_remaining", int 0), ("listener_state", str "STOPPED")]

open Fields in
/-- The records of a closure, with the secrets of the list replaced in their texts. -/
structure ClosureRecords (secrets : List String) (t : CancellationTransition)
    (requested linearized killSwitch ack closed : Record) : Prop where
  requested : requested.Tells secrets
    [("decision", str "CANCELLATION_REQUESTED"), ("lifecycle_seq", int t.lifecycleSeq)]
  linearized : linearized.Tells secrets
    [("decision", str "CANCELLATION_LINEARIZED"), ("lifecycle_seq", int t.lifecycleSeq)]
  killSwitch : killSwitch.Tells secrets
    (("decision", str "KILL_SWITCH") :: ("lifecycle_seq", int t.lifecycleSeq) :: drained)
  ack : ack.Tells secrets
    (("decision", str "CANCELLATION_ACK") :: ("lifecycle_seq", int t.lifecycleSeq) :: drained)
  closed : closed.Tells secrets
    (("decision", str "RUN_CLOSED") :: ("closure_sequence", int t.lifecycleSeq) :: drained)

/-- What the records of a closure say. -/
theorem Boot.Reachable.closureRecords (h : B.Reachable cfg) {t : CancellationTransition}
    {pre : List Written} {k a x : Written} (hlog : cfg.state.log = pre ++ [k, a, x])
    (hx : x.entry = .runClosed t.lifecycleSeq) (hev : Evidence t pre k a) :
    ∃ r l : Written, [r, l].Sublist pre ∧ (∀ y ∈ [r, l, k, a], y.ok = true) ∧
      ClosureRecords cfg.state.audit.redaction t r.record l.record k.record a.record x.record := by
  obtain ⟨hkok, haok, ⟨torn, snapshot, common, hk, ha, hseq, hin, heff, hprod, hstop⟩,
    r, l, hsub, hrok, hlok, hr, hl⟩ := hev
  have hpre : ∀ y ∈ [r, l], y ∈ cfg.state.log := fun y hy => by
    rw [hlog]
    exact List.mem_append_left _ (hsub.subset hy)
  have hlast : ∀ y ∈ [k, a, x], y ∈ cfg.state.log := fun y hy => by
    rw [hlog]
    exact List.mem_append_right _ hy
  refine ⟨r, l, hsub, by simp [hrok, hlok, hkok, haok], h.tells (hpre r (by simp)) ?_,
    h.tells (hpre l (by simp)) ?_, h.tells (hlast k (by simp)) ?_, h.tells (hlast a (by simp)) ?_,
    h.tells (hlast x (by simp)) ?_⟩
  · rw [hr]
    simp [stampKeys, Entry.fields, Entry.decision, Entry.rest, List.lookup_cons]
  · rw [hl]
    simp [stampKeys, Entry.fields, Entry.decision, Entry.rest, List.lookup_cons]
  · rw [hk]
    simp [drained, stampKeys, Entry.fields, Entry.decision, Entry.rest, Common.fields, List.lookup_cons,
      hseq, hin, heff, hprod, hstop]
  · rw [ha]
    simp [drained, stampKeys, Entry.fields, Entry.decision, Entry.rest, Common.fields, List.lookup_cons,
      hseq, hin, heff, hprod, hstop]
  · rw [hx]
    simp [drained, stampKeys, Entry.fields, Entry.decision, Entry.rest, List.lookup_cons]

/-- Redaction cannot make the decision of a disposition. -/
theorem Boot.Reachable.disposition (h : B.Reachable cfg) {x : Written} (hx : x ∈ cfg.state.log) :
    (x.entry.isAck = false → x.record.get? "decision" ≠ some (.str "CANCELLATION_ACK")) ∧
    (x.entry.isDrainTimeout = false →
      x.record.get? "decision" ≠ some (.str "CANCELLATION_DRAIN_TIMEOUT")) := by
  refine ⟨fun hn hd => ?_, fun hn hd => ?_⟩
  · have hdec := h.decision hx (by decide) hd
    cases he : x.entry with
    | ack => simp [he, Entry.isAck] at hn
    | settled o => cases o <;> simp [he, Entry.decision, Settlement.text] at hdec
    | _ => simp [he, Entry.decision] at hdec
  · have hdec := h.decision hx (by decide) hd
    cases he : x.entry with
    | drainTimeout => simp [he, Entry.isDrainTimeout] at hn
    | settled o => cases o <;> simp [he, Entry.decision, Settlement.text] at hdec
    | _ => simp [he, Entry.decision] at hdec

/-- The log is opened with a secret that is the text of a decision. -/
def Replay.redacting : Boot :=
  { Replay.boot with audit := { Replay.boot.audit with redaction := ["KILL_SWITCH"] } }

end

end StrixPEP
