import StrixPEP.Gateway.Handler
import StrixPEP.Gateway.KillSwitch
import StrixPEP.Lifecycle.Effects

/-!
# What the threads of the gateway agree on

* `GatewayInv` — what holds of the shared state between any two steps;
* `GatewayReq` — what a thread establishes before a step: who may write what, who may touch which
  permit, and what must be on record before `plain.connect` and before the closure;
* `Evolves` — what a thread may expect of the others: nobody writes records of its attempts,
  touches its permits or its connections, or ends its producer; for the canceller, nobody writes
  cancellation records, and after the kill producers and permits only go away.
-/

namespace StrixPEP

open Threads KillSwitch

/-! ## Reading the ghosts -/

namespace Flight

/-- The attempt whose permit is put into the in-flight map or taken out of it. -/
def attempt? : Flight → Option String
  | issued _ p => some p.attemptId
  | popped _ a => some a
  | called _ _ | returned _ _ _ _ => none

def isMark : Flight → Bool
  | called _ _ | returned _ _ _ _ => true
  | issued _ _ | popped _ _ => false

/-- One entry of the traffic. -/
def fly (inflight : List (String × EffectPermit)) : Flight → List (String × EffectPermit)
  | issued _ p => inflight ++ [(p.attemptId, p)]
  | popped _ a => inflight.filter fun e => e.1 ≠ a
  | called _ _ | returned _ _ _ _ => inflight

/-- The in-flight map that a traffic leads to. -/
def replay (fs : List Flight) : List (String × EffectPermit) := fs.foldl fly []

@[simp] theorem replay_append (fs gs : List Flight) : replay (fs ++ gs) = gs.foldl fly (replay fs) :=
  List.foldl_append

theorem foldl_ofEvent (i : Nat) (ev : Lifecycle.Event) (l : List (String × EffectPermit)) :
    (ofEvent i ev).foldl fly l = ev.fly l := by
  cases ev <;> rfl

/-- Traffic of other attempts commutes with taking an attempt out. -/
theorem foldl_fly_filter {a : String} {seg : List Flight} (h : ∀ f ∈ seg, f.attempt? ≠ some a)
    (l : List (String × EffectPermit)) :
    (seg.foldl fly l).filter (fun e => e.1 ≠ a) = seg.foldl fly (l.filter fun e => e.1 ≠ a) := by
  induction seg generalizing l with
  | nil => rfl
  | cons f seg ih =>
    rw [List.foldl_cons, List.foldl_cons, ih fun g hg => h g (List.mem_cons_of_mem _ hg)]
    congr 1
    have hf := h f List.mem_cons_self
    cases f with
    | issued i p =>
      have hne : p.attemptId ≠ a := by simpa [attempt?] using hf
      simp [fly, hne]
    | popped i b => simp [fly, List.filter_filter, Bool.and_comm]
    | called i b => rfl
    | returned i b s g => rfl

/-- The call of `acquire_permit` that began after `start` entries and ends here has left the
in-flight map as if its own steps had not been made. -/
def Undone (i : Nat) (a : String) (start : Nat) (traffic : List Flight) : Prop :=
  ∃ before seg, traffic = before ++ .called i a :: seg ∧ before.length = start ∧
    (∀ f ∈ seg, f.tid = i → f.isMark = false) ∧
    replay traffic = replay (before ++ seg.filter fun f => f.tid ≠ i)

end Flight

namespace Entry

def isAck : Entry → Bool
  | ack _ => true
  | _ => false

def isDrainTimeout : Entry → Bool
  | drainTimeout _ _ => true
  | _ => false

def isAuth : Entry → Bool
  | auth _ _ => true
  | _ => false

def isPermit : Entry → Bool
  | permit _ _ _ _ _ _ => true
  | _ => false

/-- `EFFECT_COMPLETED`, `EFFECT_FAILED`, `EFFECT_OUTCOME_UNKNOWN` or `EFFECT_CANCELLED`. -/
def isSettled : Entry → Bool
  | settled _ _ _ _ _ _ => true
  | _ => false

/-- What is written between the outcome and the release. -/
def isReport : Entry → Bool
  | allow _ | terminated _ => true
  | _ => false

def isReleased : Entry → Bool
  | released _ _ _ _ _ => true
  | _ => false

end Entry

/-- The records of an attempt with a permit up to its outcome and the report on it. -/
def Concluded (es : List Entry) : Prop :=
  ∃ auth permit mid s tail, es = auth :: permit :: (mid ++ s :: tail) ∧ auth.isAuth = true ∧
    permit.isPermit = true ∧ (∀ e ∈ mid, e.isAttempted = true) ∧ s.isSettled = true ∧
    ∀ e ∈ tail, e.isReport = true

/-- The records of an attempt that has been dealt with: an intent and an outcome, or an intent, a
permit, an outcome and the release. -/
def Finished (es : List Entry) : Prop :=
  (∃ auth s, es = [auth, s] ∧ auth.isAuth = true ∧ s.isSettled = true) ∨
  ∃ es' r, es = es' ++ [r] ∧ Concluded es' ∧ r.isReleased = true

namespace World

/-- The successful records of an attempt, in order. -/
def entriesOf (w : World) (a : String) : List Entry :=
  (w.log.filter fun x => x.ok && decide (x.entry.attempt? = some a)).map (·.entry)

/-- `CANCELLATION_REQUESTED` has been appended. -/
def Requested (w : World) : Prop := ∃ x ∈ w.log, x.entry.isRequested = true

/-- The records of the cancellation. -/
def cancelRecords (w : World) : List Written := w.log.filter fun x => x.entry.byCanceller

/-- The closure has been written and the call has returned. -/
def SealedOk (w : World) : Prop := ∃ x ∈ w.log, x.ok = true ∧ ∃ seq, x.entry = .runClosed seq

/-- Thread `i` has dealt with all its attempts but `skip`, unless a write has failed or the
environment has raised where nothing catches it. -/
def Clean (i : Nat) (skip : Option String) (w : World) : Prop :=
  w.lost = true ∨ w.unguarded = true ∨
    ∀ a, (a, i) ∈ w.attempts → skip ≠ some a → Finished (w.entriesOf a)

end World

/-! ## The closure -/

/-- The evidence on which the closure rests. -/
def Evidence (t : CancellationTransition) (pre : List Written) (k a : Written) : Prop :=
  k.ok = true ∧ a.ok = true ∧
  (∃ torn snapshot common, k.entry = .killSwitch torn snapshot common ∧ a.entry = .ack common ∧
    common.lifecycleSeq = t.lifecycleSeq ∧ common.inflightRemaining = 0 ∧
    common.effectPermitsRemaining = 0 ∧ common.auditProducersRemaining = 0 ∧
    common.listenerStopped = true) ∧
  ∃ r l, [r, l].Sublist pre ∧ r.ok = true ∧ l.ok = true ∧ r.entry = .cancelRequested t ∧
    l.entry = .cancelLinearized t

/-- Nothing runs and nothing can start. -/
def Quiescent (w : World) : Prop :=
  w.run.ctx.inflight = [] ∧ w.producers = [] ∧ w.listener.serving = false ∧
    w.net.registry.killed = true ∧ w.run.ctx.cancelled = true

/-- The run is closed by the record `x`. -/
def Closed (w : World) (x : Written) : Prop :=
  (∃ t pre k a, w.log = pre ++ [k, a, x] ∧ x.entry = .runClosed t.lifecycleSeq ∧
    Evidence t pre k a ∧ w.run.ctx.cancellation = some t) ∧
  Quiescent w ∧ w.audit.sealed = true ∧ w.audit.healthy = true

/-! ## The invariant -/

/-- What holds between any two steps; `boot` is the file as the run found it. -/
structure GatewayInv (boot : List Line) (w : World) : Prop where
  lifecycle : Lifecycle.Inv w.run w.history
  net : NetInv w.net
  flights : Flight.replay w.flights = w.run.ctx.inflight
  calls : ∀ pre post i a start, w.flights = pre ++ .returned i a start false :: post →
    Flight.Undone i a start pre
  attempts : w.attempts.map Prod.fst = w.run.ctx.authorizations.map Prod.fst
  recorded : ∀ x ∈ w.log, ∀ a, x.entry.attempt? = some a → a ∈ w.attempts.map Prod.fst
  holders : List.Forall₂ (fun p i => (p.attemptId, i) ∈ w.attempts) w.history.permits w.holders
  producers : w.producers.length = w.net.registry.activeProducers
  killed : w.net.registry.killed = true →
    w.run.ctx.cancelled = true ∧ w.net.registry.conns = []
  conns : (w.conns.map Prod.fst).Nodup
  live : ∀ c ∈ w.live, c ∈ w.net.registry.conns ∨ ∃ v, .killed v ∈ w.net.events ∧ c ∈ v
  kills : ∀ v v', .killed v ∈ w.net.events → .killed v' ∈ w.net.events → v = v'
  requested : w.Requested → ∃ t v, .linearized t v ∈ w.net.events
  order : w.raced = true ∨
    w.log.Pairwise fun x y => x.entry.isRequested = true → y.entry.isAttempted = false
  exclusive : (∀ x ∈ w.log, x.entry.isAck = false) ∨ ∀ x ∈ w.log, x.entry.isDrainTimeout = false
  regular : ∀ x ∈ w.log, x.entry.Regular
  failed : ∀ x ∈ w.log, x.ok = true ∨ w.lost = true
  persisted : ∀ x ∈ w.log, ∃ (log : AuditLog) (o : Outcome),
    x.record = log.persist x.entry.fields o ∧ ∀ s ∈ o.order, s ∈ w.audit.redaction
  file : ∃ rest, w.audit.file = boot ++ (w.log.map fun x => AuditLog.lineOf x.record) ++ rest ∧
    (∀ l ∈ rest, ∃ text, l = .torn text) ∧ (w.audit.healthy = true → rest = [])
  listener : w.listener.closed = true → w.listener.serving = false
  closed : ∀ x ∈ w.log, x.ok = true → (∃ seq, x.entry = .runClosed seq) → Closed w x
  outcome : ∀ b, w.outcome = some b → (b = true ↔ w.SealedOk)

/-! ## The requirements -/

/-- The attempt's intent, permit and attempt are on record, and bind each other. -/
def WriteAhead (w : World) (a conn : String) : Prop :=
  ∃ intent seq p pin, w.entriesOf a =
      [.auth intent seq, .permit a conn intent.epoch p.lifecycleSeq intent.policyGeneration
        intent.budgetBinding, .attempted a conn intent.epoch p.lifecycleSeq pin] ∧
    intent.attemptId = a ∧ intent.connId = conn ∧ p ∈ w.history.permits ∧ p.attemptId = a

/-- Before a record is appended. -/
def WriteReq (i : Nat) (w : World) (e : Entry) : Prop :=
  e.Regular ∧ (e.byCanceller = false → i ∈ w.producers) ∧ (e.byCanceller = true → i = 0) ∧
  (∀ a, e.attempt? = some a → (a, i) ∈ w.attempts) ∧
  (e.isAttempted = true → w.raced = true ∨ ¬ w.Requested) ∧
  (e.isRequested = true → ∃ t v, .linearized t v ∈ w.net.events) ∧
  (e.isAck = true → ∀ x ∈ w.log, x.entry.isDrainTimeout = false) ∧
  (e.isDrainTimeout = true → ∀ x ∈ w.log, x.entry.isAck = false)

/-- What thread `i` establishes before a step. -/
def GatewayReq (i : Nat) : Cmd → World → Prop
  | .net c, w => NetReq i c w.net ∧
    match c with
    | .add d => (d, i) ∈ w.conns
    | .remove d => (d, i) ∈ w.conns ∧ w.Clean i none
    | .kill => w.run.ctx.cancelled = true
    | _ => True
  | .endProducer, w => i ∈ w.producers
  | .permitReturned a start false, w => Flight.Undone i a start w.flights
  | .issuePermit a _ _ _ _, w => (a, i) ∈ w.attempts
  | .bindDurableRelease ref _, w | .abandonUndurable ref, w | .releaseEnter ref, w
  | .releaseExit ref _, w => w.holders[ref]? = some i
  | .write e, w => WriteReq i w e ∧ ∀ seq, e ≠ .runClosed seq
  | .sealWith e, w => i = 0 ∧ w.outcome = none ∧ Quiescent w ∧ ∃ t pre k a, w.log = pre ++ [k, a] ∧
    e = .runClosed t.lifecycleSeq ∧ Evidence t pre k a ∧ w.run.ctx.cancellation = some t
  | .connect a c _, w => WriteAhead w a c
  | .cancel, _ => i = 0
  | .setListenerClosed, w => w.listener.serving = false
  | .quiesced b, w => i = 0 ∧ (b = true ↔ w.SealedOk)
  | _, _ => True

/-! ## The rely -/

/-- What the canceller may expect of the others. -/
structure CancellerRely (w w' : World) : Prop where
  net : NetRely 0 w.net w'.net
  cancellation : w'.run.ctx.cancellation = w.run.ctx.cancellation
  records : w'.cancelRecords = w.cancelRecords
  producers : w.net.registry.killed = true → w'.producers ⊆ w.producers
  inflight : w.run.ctx.cancelled = true → w'.run.ctx.inflight.Sublist w.run.ctx.inflight
  quiet : w.net.registry.killed = true → w.producers = [] → w'.log = w.log
  outcome : w'.outcome = w.outcome

/-- What thread `i` may expect of the others. -/
structure Evolves (i : Nat) (w w' : World) : Prop where
  log : w.log <+: w'.log
  mine : ∀ a, (a, i) ∈ w.attempts → w'.entriesOf a = w.entriesOf a
  attempts : ∀ a, (a, i) ∈ w'.attempts ↔ (a, i) ∈ w.attempts
  permits : w.history.permits ⊆ w'.history.permits
  cells : ∀ (ref : Nat) (c : PermitCell), w.holders[ref]? = some i → w.run.cells[ref]? = some c →
    w'.holders[ref]? = some i ∧ w'.run.cells[ref]? = some c
  producer : i ∈ w.producers → i ∈ w'.producers
  conns : ∀ c, (c, i) ∈ w.conns → (c, i) ∈ w'.conns ∧ (c ∈ w.live → c ∈ w'.live)
  poised : i ∈ w.poised → i ∈ w'.poised ∧ (¬ w.Requested → w'.raced = true ∨ ¬ w'.Requested)
  raced : w.raced = true → w'.raced = true
  lost : w.lost = true → w'.lost = true
  unguarded : w.unguarded = true → w'.unguarded = true
  flights : ∃ seg, w'.flights = w.flights ++ seg ∧
    ∀ f ∈ seg, f.tid ≠ i ∧ ∀ a, (a, i) ∈ w.attempts → f.attempt? ≠ some a
  serving : w.listener.serving = false → w'.listener.serving = false
  cancelled : w.run.ctx.cancelled = true → w'.run.ctx.cancelled = true
  canceller : i = 0 → CancellerRely w w'

theorem CancellerRely.refl (w : World) : CancellerRely w w :=
  ⟨NetRely.refl 0 w.net, rfl, rfl, fun _ => List.Subset.refl _, fun _ => List.Sublist.refl _,
    fun _ _ => rfl, rfl⟩

theorem Evolves.refl (i : Nat) (w : World) : Evolves i w w where
  log := List.prefix_refl _
  mine _ _ := rfl
  attempts _ := Iff.rfl
  permits := List.Subset.refl _
  cells _ _ h h' := ⟨h, h'⟩
  producer h := h
  conns _ h := ⟨h, id⟩
  poised h := ⟨h, Or.inr⟩
  raced h := h
  lost h := h
  unguarded h := h
  flights := ⟨[], by simp, by simp⟩
  serving h := h
  cancelled h := h
  canceller _ := CancellerRely.refl w

theorem CancellerRely.trans {w w' w'' : World} (h : CancellerRely w w')
    (hcan : w.run.ctx.cancelled = true → w'.run.ctx.cancelled = true)
    (h' : CancellerRely w' w'') : CancellerRely w w'' where
  net := h.net.trans h'.net
  cancellation := h'.cancellation.trans h.cancellation
  records := h'.records.trans h.records
  producers hk := List.Subset.trans (h'.producers ((h.net.killed rfl).trans hk)) (h.producers hk)
  inflight hc := (h'.inflight (hcan hc)).trans (h.inflight hc)
  quiet hk hp := by
    have hnil : w'.producers = [] := List.subset_nil.1 (hp ▸ h.producers hk)
    exact (h'.quiet ((h.net.killed rfl).trans hk) hnil).trans (h.quiet hk hp)
  outcome := h'.outcome.trans h.outcome

theorem Evolves.trans {i : Nat} {w w' w'' : World} (h : Evolves i w w') (h' : Evolves i w' w'') :
    Evolves i w w'' where
  log := h.log.trans h'.log
  mine a ha := (h'.mine a ((h.attempts a).2 ha)).trans (h.mine a ha)
  attempts a := (h'.attempts a).trans (h.attempts a)
  permits := List.Subset.trans h.permits h'.permits
  cells ref c hr hc := by
    obtain ⟨h1, h2⟩ := h.cells ref c hr hc
    exact h'.cells ref c h1 h2
  producer hp := h'.producer (h.producer hp)
  conns c hc := by
    obtain ⟨h1, h2⟩ := h.conns c hc
    obtain ⟨h3, h4⟩ := h'.conns c h1
    exact ⟨h3, fun hl => h4 (h2 hl)⟩
  poised hp := by
    obtain ⟨h1, h2⟩ := h.poised hp
    obtain ⟨h3, h4⟩ := h'.poised h1
    refine ⟨h3, fun hr => ?_⟩
    rcases h2 hr with h | h
    · exact Or.inl (h'.raced h)
    · exact h4 h
  raced hr := h'.raced (h.raced hr)
  lost hl := h'.lost (h.lost hl)
  unguarded hu := h'.unguarded (h.unguarded hu)
  flights := by
    obtain ⟨seg, h1, h2⟩ := h.flights
    obtain ⟨seg', h3, h4⟩ := h'.flights
    refine ⟨seg ++ seg', by rw [h3, h1, List.append_assoc], fun f hf => ?_⟩
    rcases List.mem_append.1 hf with hf | hf
    · exact h2 f hf
    · exact ⟨(h4 f hf).1, fun a ha => (h4 f hf).2 a ((h.attempts a).2 ha)⟩
  serving hs := h'.serving (h.serving hs)
  cancelled hc := h'.cancelled (h.cancelled hc)
  canceller hi := (h.canceller hi).trans h.cancelled (h'.canceller hi)

end StrixPEP
