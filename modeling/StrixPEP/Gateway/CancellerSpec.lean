import StrixPEP.Gateway.HandlerState

/-!
# Specification of `cancel_and_quiesce`

The canceller cancels the run, enforces the kill (`wp_enforce` of the connections, lifted by
`wp_onNet_lift`), records the linearization and samples the drains.  What it samples only goes
away after the kill, so a sample of zero stays true; from the sample on nobody else writes, so the
three closing records are the last ones (`wp_close`).
-/

namespace StrixPEP

open Threads KillSwitch GProg

/-- Kept by the threads other than the canceller. -/
def Steady (A : World → Prop) : Prop := ∀ {w w' : World}, A w → Evolves 0 w w' → A w'

/-- The canceller has cancelled by `t` and has appended the records `rs`. -/
structure Cancelling (args : QuiesceArgs) (t : CancellationTransition) (rs : List Written)
    (w : World) : Prop where
  cancellation : w.run.ctx.cancellation = some t
  outcome : w.outcome = none
  records : w.cancelRecords = rs
  listener : args.server = true ∨ w.listener.serving = false

/-- The drains are complete and the log is `log`. -/
structure Closing (t : CancellationTransition) (log : List Written) (w : World) : Prop where
  cancellation : w.run.ctx.cancellation = some t
  outcome : w.outcome = none
  quiescent : Quiescent w
  log : w.log = log

/-- `on_linearized` has been invoked. -/
def Announced (w : World) : Prop := ∃ t v, .linearized t v ∈ w.net.events

/-- Records that neither end nor close the drain. -/
def Plain (rs : List Written) : Prop :=
  ∀ x ∈ rs, x.entry.isAck = false ∧ x.entry.isDrainTimeout = false ∧ ∀ seq, x.entry ≠ .runClosed seq

section Steady

theorem steady_cancelling (args : QuiesceArgs) (t : CancellationTransition) (rs : List Written) :
    Steady (Cancelling args t rs) := by
  intro w w' h hr
  have hc := hr.canceller rfl
  exact ⟨hc.cancellation.trans h.cancellation, hc.outcome.trans h.outcome,
    hc.records.trans h.records, h.listener.imp id hr.serving⟩

theorem steady_quiescent : Steady Quiescent := by
  rintro w w' ⟨hin, hprod, hserv, hkill, hcan⟩ hr
  have hc := hr.canceller rfl
  have hin' := hc.inflight hcan
  rw [hin] at hin'
  have hprod' := hc.producers hkill
  rw [hprod] at hprod'
  exact ⟨List.sublist_nil.1 hin', List.subset_nil.1 hprod', hr.serving hserv,
    (hc.net.killed rfl).trans hkill, hr.cancelled hcan⟩

theorem steady_closing (t : CancellationTransition) (log : List Written) :
    Steady (Closing t log) := by
  intro w w' h hr
  have hc := hr.canceller rfl
  obtain ⟨-, hprod, -, hkill, -⟩ := h.quiescent
  exact ⟨hc.cancellation.trans h.cancellation, hc.outcome.trans h.outcome,
    steady_quiescent h.quiescent hr, (hc.quiet hkill hprod).trans h.log⟩

theorem steady_announced : Steady Announced := by
  rintro w w' ⟨t, v, h⟩ hr
  exact ⟨t, v, ((hr.canceller rfl).net.mine (.linearized t v) rfl).2 h⟩

theorem sealedOk_iff {w : World} :
    w.SealedOk ↔ ∃ x ∈ w.cancelRecords, x.ok = true ∧ ∃ seq, x.entry = .runClosed seq := by
  constructor
  · rintro ⟨x, hx, hok, seq, hseq⟩
    exact ⟨x, List.mem_filter.2 ⟨hx, by rw [hseq]; rfl⟩, hok, seq, hseq⟩
  · rintro ⟨x, hx, hrest⟩
    exact ⟨x, (List.mem_filter.1 hx).1, hrest⟩

theorem sealedOk_rely {w w' : World} (hr : Evolves 0 w w') : w'.SealedOk ↔ w.SealedOk := by
  rw [sealedOk_iff, sealedOk_iff, (hr.canceller rfl).records]

theorem steady_unsealed : Steady fun w => ¬ w.SealedOk := by
  intro w w' h hr
  rwa [sealedOk_rely hr]

theorem Plain.unsealed {rs : List Written} {w : World} (h : Plain rs) (hr : w.cancelRecords = rs) :
    ¬ w.SealedOk := by
  rw [sealedOk_iff, hr]
  rintro ⟨x, hx, -, seq, hseq⟩
  exact (h x hx).2.2 seq hseq

end Steady

/-! ## Writes of the canceller -/

section Writes

variable {boot : List Line} {w : World} {e : Entry} {A B C : World → Prop}

theorem record_log (w : World) (i : Nat) (e : Entry) (o : Outcome) (audit : AuditLog) :
    (w.record i e o audit).log =
      w.log ++ if AuditLog.appends o then [⟨i, e, w.audit.persist e.fields o, o.ok⟩] else [] := by
  unfold World.record
  dsimp only
  split <;> simp

theorem appends_of_ok {o : Outcome} (h : o.ok = true) : AuditLog.appends o = true := by
  cases o <;> first | rfl | cases h

/-- A record of the canceller. -/
theorem record_cancelRecords (he : e.byCanceller = true) (o : Outcome) (audit : AuditLog) :
    (w.record 0 e o audit).cancelRecords = w.cancelRecords ++
      if AuditLog.appends o then [⟨0, e, w.audit.persist e.fields o, o.ok⟩] else [] := by
  unfold World.cancelRecords
  rw [record_log, List.filter_append]
  congr 1
  split <;> simp [he]

/-- What a failed write of the canceller leaves. -/
theorem record_failed (he : e.byCanceller = true) {o : Outcome} (ho : o.ok = false)
    (audit : AuditLog) (hw : ¬ w.SealedOk) : ¬ (w.record 0 e o audit).SealedOk := by
  rw [sealedOk_iff, record_cancelRecords he]
  rintro ⟨x, hx, hok, hseq⟩
  rcases List.mem_append.1 hx with hx | hx
  · exact hw (sealedOk_iff.2 ⟨x, hx, hok, hseq⟩)
  · split at hx
    · rw [List.mem_singleton.1 hx, ho] at hok
      cases hok
    · cases hx

theorem wp_cancelWrite (hA : Steady A) (hB : Steady B) (hC : Steady C)
    (hreq : ∀ w, GatewayInv boot w → A w → GatewayReq 0 (.write e) w)
    (hok : ∀ w o audit, A w → o.ok = true → B (w.record 0 e o audit))
    (hfail : ∀ w o audit, A w → o.ok = false → C (w.record 0 e o audit)) (h : A w) :
    (gatewayProtocol boot).wp 0 (auditWrite e) (fun _ => B) (fun _ => C) w := by
  refine Protocol.wp_perform fun t ht It => ⟨hreq t It (hA h ht), fun (o : Outcome) t' he => ?_⟩
  obtain ⟨audit, -, rfl⟩ := exec_write he
  cases o with
  | written ts order => exact fun u hu _ => hB (hok t _ audit (hA h ht) rfl) hu
  | _ => exact fun u hu _ => hC (hfail t _ audit (hA h ht) rfl) hu

theorem wp_cancelSeal (hA : Steady A) (hB : Steady B) (hC : Steady C)
    (hreq : ∀ w, GatewayInv boot w → A w → GatewayReq 0 (.sealWith e) w)
    (hok : ∀ w o audit, A w → o.ok = true → B (w.record 0 e o audit))
    (hfail : ∀ w o audit, A w → o.ok = false → C (w.record 0 e o audit)) (h : A w) :
    (gatewayProtocol boot).wp 0 (auditSeal e) (fun _ => B) (fun _ => C) w := by
  refine Protocol.wp_perform fun t ht It => ⟨hreq t It (hA h ht), fun (o : Outcome) t' he => ?_⟩
  obtain ⟨audit, -, rfl⟩ := exec_sealWith he
  cases o with
  | written ts order => exact fun u hu _ => hB (hok t _ _ (hA h ht) rfl) hu
  | _ => exact fun u hu _ => hC (hfail t _ _ (hA h ht) rfl) hu

/-- The log holds a record of the drain's end only where the canceller has written one. -/
theorem Plain.mem_log {rs : List Written} (h : Plain rs) (hr : w.cancelRecords = rs) {x : Written}
    (hx : x ∈ w.log) : x.entry.isAck = false ∧ x.entry.isDrainTimeout = false := by
  by_cases hby : x.entry.byCanceller = true
  · have hx' : x ∈ w.cancelRecords := List.mem_filter.2 ⟨hx, hby⟩
    rw [hr] at hx'
    exact ⟨(h x hx').1, (h x hx').2.1⟩
  · cases he : x.entry <;> rw [he] at hby <;> first | exact ⟨rfl, rfl⟩ | exact absurd rfl hby

/-- The requirements of a record of the cancellation. -/
theorem cancelWriteReq (he : e.byCanceller = true) (hne : ∀ seq, e ≠ .runClosed seq)
    (hreq : e.isRequested = true → Announced w) (hp : Plain w.cancelRecords) :
    GatewayReq 0 (.write e) w := by
  refine ⟨⟨?_, fun h => ?_, fun _ => rfl, fun a ha => ?_, fun ha => ?_, hreq, fun _ x hx => ?_,
    fun _ x hx => ?_⟩, hne⟩
  · cases e <;> trivial
  · rw [he] at h
    cases h
  · have := (Entry.of_attempt ha).1
    rw [he] at this
    cases this
  · cases e <;> simp_all [Entry.byCanceller, Entry.isAttempted]
  · exact (hp.mem_log rfl hx).2
  · exact (hp.mem_log rfl hx).1

end Writes

/-! ## The closure -/

section Closing

variable {args : QuiesceArgs} {t : CancellationTransition} {w : World}

theorem Cancelling.record {rs : List Written} (h : Cancelling args t rs w) {e : Entry}
    (he : e.byCanceller = true) (o : Outcome) (audit : AuditLog) :
    Cancelling args t (rs ++ if AuditLog.appends o then
      [⟨0, e, w.audit.persist e.fields o, o.ok⟩] else []) (w.record 0 e o audit) :=
  ⟨h.cancellation, h.outcome, by rw [record_cancelRecords he, h.records], h.listener⟩

theorem Closing.record {log : List Written} (h : Closing t log w) {e : Entry} {o : Outcome}
    (ho : o.ok = true) (audit : AuditLog) :
    Closing t (log ++ [⟨0, e, w.audit.persist e.fields o, true⟩]) (w.record 0 e o audit) := by
  refine ⟨h.cancellation, h.outcome, h.quiescent, ?_⟩
  rw [record_log, h.log, appends_of_ok ho, ho]
  rfl

theorem Closing.cancelRecords {log : List Written} (h : Closing t log w) :
    w.cancelRecords = log.filter fun x => x.entry.byCanceller := by
  unfold World.cancelRecords
  rw [h.log]

/-- Between the drain and the closure the log holds no other end of the drain. -/
theorem Closing.open {pre more : List Written} (h : Closing t (pre ++ more) w)
    (hpre : Plain (pre.filter fun x => x.entry.byCanceller))
    (hmore : ∀ x ∈ more, x.entry.isDrainTimeout = false ∧ ∀ seq, x.entry ≠ .runClosed seq) :
    (∀ x ∈ w.log, x.entry.isDrainTimeout = false) ∧ ¬ w.SealedOk := by
  have hall : ∀ x ∈ w.log, x.entry.isDrainTimeout = false ∧ ∀ seq, x.entry ≠ .runClosed seq := by
    intro x hx
    rw [h.log] at hx
    rcases List.mem_append.1 hx with hx | hx
    · by_cases hby : x.entry.byCanceller = true
      · exact (hpre x (List.mem_filter.2 ⟨hx, hby⟩)).2
      · cases he : x.entry <;> simp_all [Entry.byCanceller, Entry.isDrainTimeout]
    · exact hmore x hx
  refine ⟨fun x hx => (hall x hx).1, ?_⟩
  rintro ⟨x, hx, -, seq, hseq⟩
  exact (hall x hx).2 seq hseq

end Closing

namespace Quiesce

section Close

variable {boot : List Line} {args : QuiesceArgs} {t : CancellationTransition} {w : World}
  {torn snapshot bs : List String} {common : Common}

/-- The records of the linearization. -/
def Linearized (t : CancellationTransition) (rs : List Written) : Prop :=
  ∃ r l, rs = [r, l] ∧ r.ok = true ∧ l.ok = true ∧ r.entry = .cancelRequested t ∧
    l.entry = .cancelLinearized t

theorem Linearized.plain {rs : List Written} (h : Linearized t rs) : Plain rs := by
  obtain ⟨r, l, rfl, -, -, hr, hl⟩ := h
  intro x hx
  simp only [List.mem_cons, List.not_mem_nil, or_false] at hx
  rcases hx with rfl | rfl
  · rw [hr]
    exact ⟨rfl, rfl, fun _ => nofun⟩
  · rw [hl]
    exact ⟨rfl, rfl, fun _ => nofun⟩

theorem steady_ret {β : Type} {A : World → Prop} (hA : Steady A) {Q : β → World → Prop}
    {E : Exn → World → Prop} {b : β} (h : A w) (hQ : ∀ w, A w → Q b w) :
    (gatewayProtocol boot).wp 0 (pure b : GProg β) Q E w :=
  fun _ hu _ => hQ _ (hA h hu)

/-- The drain is not complete. -/
theorem wp_drainTimeout {rs : List Written} (hrs : Plain rs) (I : GatewayInv boot w)
    (h : Cancelling args t rs w) :
    (gatewayProtocol boot).wp 0
      (do
        auditWrite (.killSwitch torn snapshot common)
        auditWrite (.drainTimeout bs common)
        return false)
      (fun b w => b = true ↔ w.SealedOk) (fun _ w => ¬ w.SealedOk) w := by
  have hkill : Steady fun w => ∃ rs, Plain rs ∧ w.cancelRecords = rs := by
    rintro w w' ⟨rs, hrs, hr⟩ he
    exact ⟨rs, hrs, (he.canceller rfl).records.trans hr⟩
  have hpush : ∀ {w : World} {e : Entry} (o : Outcome) (audit : AuditLog), e.byCanceller = true →
      e.isAck = false → e.isDrainTimeout = false → (∀ seq, e ≠ .runClosed seq) →
      (∃ rs, Plain rs ∧ w.cancelRecords = rs) →
      ∃ rs, Plain rs ∧ (w.record 0 e o audit).cancelRecords = rs := by
    rintro w e o audit hby hack htime hne ⟨rs, hrs, hr⟩
    refine ⟨_, fun x hx => ?_, record_cancelRecords hby o audit⟩
    rw [hr] at hx
    rcases List.mem_append.1 hx with hx | hx
    · exact hrs x hx
    · split at hx
      · rw [List.mem_singleton.1 hx]
        exact ⟨hack, htime, hne⟩
      · cases hx
  refine Protocol.wp_seq (wp_cancelWrite hkill hkill steady_unsealed (fun w _ h => ?_)
    (fun w o audit h _ => hpush o audit rfl rfl rfl (fun seq he => by cases he) h)
    (fun w o audit h ho => ?_) ⟨rs, hrs, h.records⟩) I fun _ w I h => ?_
  · obtain ⟨rs, hrs, hr⟩ := h
    exact cancelWriteReq rfl (fun seq he => by cases he) (by simp [Entry.isRequested]) (hr ▸ hrs)
  · obtain ⟨rs, hrs, hr⟩ := h
    exact record_failed rfl ho audit (hrs.unsealed hr)
  · refine Protocol.wp_seq (wp_cancelWrite hkill steady_unsealed steady_unsealed (fun w _ h => ?_)
      (fun w o audit h _ => ?_) (fun w o audit h ho => ?_) h) I fun _ w I h =>
      steady_ret steady_unsealed h fun w h => by simpa using h
    · obtain ⟨rs, hrs, hr⟩ := h
      exact cancelWriteReq rfl (fun seq he => by cases he) (by simp [Entry.isRequested]) (hr ▸ hrs)
    · obtain ⟨rs, hrs, hr⟩ := h
      rw [sealedOk_iff, record_cancelRecords rfl, hr]
      rintro ⟨x, hx, -, seq, hseq⟩
      rcases List.mem_append.1 hx with hx | hx
      · exact (hrs x hx).2.2 seq hseq
      · split at hx
        · rw [List.mem_singleton.1 hx] at hseq
          cases hseq
        · cases hx
    · obtain ⟨rs, hrs, hr⟩ := h
      exact record_failed rfl ho audit (hrs.unsealed hr)

/-- What `common` says when nothing remains. -/
structure Drained (t : CancellationTransition) (common : Common) : Prop where
  lifecycleSeq : common.lifecycleSeq = t.lifecycleSeq
  inflight : common.inflightRemaining = 0
  permits : common.effectPermitsRemaining = 0
  producers : common.auditProducersRemaining = 0
  listener : common.listenerStopped = true

/-- The drain is complete: the run is acknowledged and closed. -/
theorem wp_ackSeal {pre : List Written} (I : GatewayInv boot w) (hd : Drained t common)
    (hlin : Linearized t (pre.filter fun x => x.entry.byCanceller)) (h : Closing t pre w) :
    (gatewayProtocol boot).wp 0
      (do
        auditWrite (.killSwitch torn snapshot common)
        auditWrite (.ack common)
        auditSeal (.runClosed t.lifecycleSeq)
        return true)
      (fun b w => b = true ↔ w.SealedOk) (fun _ w => ¬ w.SealedOk) w := by
  have hkill : Steady fun w => ∃ k : Written, k.ok = true ∧
      k.entry = .killSwitch torn snapshot common ∧ Closing t (pre ++ [k]) w := by
    rintro w w' ⟨k, h1, h2, h3⟩ hr
    exact ⟨k, h1, h2, steady_closing t _ h3 hr⟩
  have hack : Steady fun w => ∃ k a : Written, k.ok = true ∧
      k.entry = .killSwitch torn snapshot common ∧ a.ok = true ∧ a.entry = .ack common ∧
      Closing t (pre ++ [k, a]) w := by
    rintro w w' ⟨k, a, h1, h2, h3, h4, h5⟩ hr
    exact ⟨k, a, h1, h2, h3, h4, steady_closing t _ h5 hr⟩
  have hsealed : Steady World.SealedOk := fun h hr => (sealedOk_rely hr).2 h
  refine Protocol.wp_seq (wp_cancelWrite (steady_closing t pre) hkill steady_unsealed
    (fun w _ h => ?_) (fun w o audit h ho => ⟨_, rfl, rfl, h.record ho audit⟩)
    (fun w o audit h ho => record_failed rfl ho audit ?_) h) I fun _ w I h => ?_
  · exact cancelWriteReq rfl (fun seq he => by cases he) (by simp [Entry.isRequested])
      (h.cancelRecords ▸ hlin.plain)
  · exact hlin.plain.unsealed h.cancelRecords
  refine Protocol.wp_seq (wp_cancelWrite hkill hack steady_unsealed (fun w _ h => ?_)
    (fun w o audit h ho => ?_) (fun w o audit h ho => record_failed rfl ho audit ?_) h) I
    fun _ w I h => ?_
  · obtain ⟨k, -, hke, h⟩ := h
    have hopen := h.open hlin.plain (by simp [hke, Entry.isDrainTimeout])
    refine ⟨⟨trivial, fun he => ?_, fun _ => rfl, fun id he => ?_, fun he => ?_, fun he => ?_,
      fun _ => hopen.1, fun he => ?_⟩, fun seq he => ?_⟩ <;> cases he
  · obtain ⟨k, hk, hke, h⟩ := h
    have hrec := h.record (e := .ack common) ho audit
    rw [List.append_assoc] at hrec
    exact ⟨k, ⟨0, .ack common, _, true⟩, hk, hke, rfl, rfl, hrec⟩
  · obtain ⟨k, -, hke, h⟩ := h
    exact (h.open hlin.plain (by simp [hke, Entry.isDrainTimeout])).2
  refine Protocol.wp_seq (wp_cancelSeal hack hsealed steady_unsealed (fun w _ h => ?_)
    (fun w o audit h ho => ?_) (fun w o audit h ho => record_failed rfl ho audit ?_) h) I
    fun _ w I h => steady_ret hsealed h fun w h => by simpa using h
  · obtain ⟨k, a, hk, hke, ha, hae, h⟩ := h
    obtain ⟨r, l, hrl, hr, hl, hre, hle⟩ := hlin
    refine ⟨rfl, h.outcome, h.quiescent, t, pre, k, a, h.log, rfl, ⟨hk, ha, ?_, r, l, ?_, hr, hl,
      hre, hle⟩, h.cancellation⟩
    · exact ⟨torn, snapshot, common, hke, hae, hd.lifecycleSeq, hd.inflight, hd.permits,
        hd.producers, hd.listener⟩
    · rw [← hrl]
      exact List.filter_sublist
  · refine ⟨⟨0, .runClosed t.lifecycleSeq, 
      w.audit.persist (Entry.runClosed t.lifecycleSeq).fields o, o.ok⟩, ?_, ho, _, rfl⟩
    rw [record_log, appends_of_ok ho]
    simp
  · obtain ⟨k, a, -, hke, -, hae, h⟩ := h
    exact (h.open hlin.plain (by simp [hke, hae, Entry.isDrainTimeout])).2

/-- The end of `cancel_and_quiesce`, with the sampled counts. -/
theorem wp_close {durable : Bool} {rs : List Written} (I : GatewayInv boot w)
    (h : Cancelling args t rs w) (hrs : Plain rs) (hdur : durable = true → Linearized t rs)
    (hclean : bs = [] → Quiescent w ∧ Drained t common) :
    (gatewayProtocol boot).wp 0 (close t torn snapshot durable bs common)
      (fun b w => b = true ↔ w.SealedOk) (fun _ _ => False) w := by
  have hA : Steady fun w => Cancelling args t rs w ∧ (bs = [] → Quiescent w ∧ Drained t common) :=
    fun h hr => ⟨steady_cancelling args t rs h.1 hr,
      fun hbs => ⟨steady_quiescent (h.2 hbs).1 hr, (h.2 hbs).2⟩⟩
  refine Protocol.wp_tryCatch (Protocol.wp_mono (E := fun _ w => ¬ w.SealedOk) ?_
    (fun _ _ _ h => h) fun _ w _ h => steady_ret steady_unsealed h fun w h => by simpa using h) I
  cases durable with
  | false => exact fun u hu _ => steady_unsealed (hrs.unsealed h.records) hu
  | true =>
    have hlin := hdur rfl
    refine Protocol.wp_perform fun v hv Iv => ⟨trivial, fun (healthy : Bool) v' he => ?_⟩
    obtain ⟨-, rfl⟩ := Net.give_eq_some.1 he
    obtain ⟨h, hclean⟩ := hA ⟨h, hclean⟩ hv
    cases healthy with
    | false => exact fun u hu _ => steady_unsealed (hrs.unsealed h.records) hu
    | true =>
      cases hbs : bs with
      | nil =>
        obtain ⟨hq, hd⟩ := hclean hbs
        have hclosing : Closing t v.log v := ⟨h.cancellation, h.outcome, hq, rfl⟩
        have hrec : v.log.filter (fun x => x.entry.byCanceller) = rs := h.records
        exact wp_ackSeal Iv hd (hrec.symm ▸ hlin) hclosing
      | cons b bs => exact wp_drainTimeout hrs Iv h

theorem blockers_nil {effects producers : Nat} {stopped : Bool}
    (h : blockers effects producers stopped = []) :
    effects = 0 ∧ producers = 0 ∧ stopped = true := by
  unfold blockers at h
  rw [List.append_eq_nil_iff, List.append_eq_nil_iff] at h
  obtain ⟨⟨h1, h2⟩, h3⟩ := h
  refine ⟨?_, ?_, ?_⟩
  · by_contra hne
    rw [if_pos hne] at h1
    cases h1
  · by_contra hne
    rw [if_pos hne] at h2
    cases h2
  · cases stopped with
    | true => rfl
    | false => cases h3

/-- The samples, and what follows from them. -/
theorem wp_sample {durable started stopped : Bool} {rs : List Written}
    (h : Cancelling args t rs w) (hrs : Plain rs) (hdur : durable = true → Linearized t rs)
    (hkilled : w.net.registry.killed = true)
    (hstop : (stopped && started) = true → w.listener.serving = false) :
    (gatewayProtocol boot).wp 0 (sample t torn snapshot durable started stopped)
      (fun b w => b = true ↔ w.SealedOk) (fun _ _ => False) w := by
  have hA : Steady fun w => Cancelling args t rs w ∧ w.net.registry.killed = true ∧
      ((stopped && started) = true → w.listener.serving = false) := fun h hr =>
    ⟨steady_cancelling args t rs h.1 hr, ((hr.canceller rfl).net.killed rfl).trans h.2.1,
      fun hs => hr.serving (h.2.2 hs)⟩
  refine Protocol.wp_perform fun v hv Iv => ⟨trivial, fun (effects : Nat) v' he => ?_⟩
  obtain ⟨heff, rfl⟩ := Net.give_eq_some.1 he
  have hv' := hA ⟨h, hkilled, hstop⟩ hv
  refine Protocol.wp_perform fun u hu Iu => ⟨trivial, fun (producers : Nat) u' he' => ?_⟩
  obtain ⟨hprod, rfl⟩ := Net.give_eq_some.1 he'
  have hu' := hA hv' hu
  refine Protocol.wp_perform fun x hx Ix => ⟨trivial, fun (epoch : Nat) x' he'' => ?_⟩
  obtain ⟨-, rfl⟩ := Net.give_eq_some.1 he''
  obtain ⟨hx', hkx, hsx⟩ := hA hu' hx
  refine wp_close Ix hx' hrs hdur fun hbs => ?_
  obtain ⟨rfl, rfl, hstopped⟩ := blockers_nil hbs
  have hcan : v.run.ctx.cancelled = true := (Iv.killed hv'.2.1).1
  have hin : x.run.ctx.inflight = [] := by
    have hsub := (hu.trans hx).canceller rfl |>.inflight hcan
    rw [List.length_eq_zero_iff.1 heff.symm] at hsub
    exact List.sublist_nil.1 hsub
  have hpr : x.producers = [] := by
    have hsub := (hx.canceller rfl).producers hu'.2.1
    rw [List.length_eq_zero_iff.1 (Iu.producers.trans hprod.symm)] at hsub
    exact List.subset_nil.1 hsub
  exact ⟨⟨hin, hpr, hsx hstopped, hkx, (Ix.killed hkx).1⟩, rfl, rfl, rfl, rfl, hstopped⟩

end Close

/-! ## The whole call -/

section Cancel

variable {boot : List Line} {args : QuiesceArgs} {t : CancellationTransition} {w : World}

/-- Steps of the canceller on the connections. -/
def OnKill : NetCmd → Prop
  | .add _ | .remove _ => False
  | _ => True

/-- A program on the connections, inside the gateway. -/
theorem wp_onNet_lift {α : Type} {p : NetProg α} {Q : α → Net → Prop} {E : Empty → Net → Prop}
    {E' : Exn → World → Prop} {A : World → Prop} (hA : Steady A)
    (hnet : ∀ {w n live}, A w → A { w with net := n, live := live })
    (hcan : ∀ {w}, A w → w.run.ctx.cancelled = true) (hp : p.Issues OnKill)
    (h : netProtocol.wp 0 p Q E w.net) (hw : A w) :
    (gatewayProtocol boot).wp 0 (onNet p) (fun a w => Q a w.net ∧ A w) E' w := by
  induction p generalizing w with
  | ret a =>
    exact fun u hu Iu => ⟨h u.net (hu.canceller rfl).net Iu.net, hA hw hu⟩
  | raise e => exact nomatch e
  | cmd c k ih =>
    intro u hu Iu
    obtain ⟨hreq, hk⟩ := h u.net (hu.canceller rfl).net Iu.net
    have hreq' : GatewayReq 0 (.net c) u := by
      refine ⟨hreq, ?_⟩
      cases c with
      | add d => exact absurd hp.1 id
      | remove d => exact absurd hp.1 id
      | kill => exact hcan (hA hw hu)
      | _ => trivial
    refine ⟨hreq', fun r u' he => ?_⟩
    obtain ⟨n, hn, rfl⟩ := exec_net he
    exact ih r (hp.2 r) (hk r n hn) (hnet (hA hw hu))

theorem issues_enforce : NetProg.enforce.Issues OnKill := by
  have hshut : ∀ c s, (NetProg.shutdownClose c s).Issues OnKill := fun _ _ =>
    ⟨trivial, fun _ => ⟨trivial, fun _ => trivial⟩⟩
  have hret : ∀ c socks, (NetProg.shutdownRetained c socks).Issues OnKill := by
    intro c socks
    induction socks with
    | nil => trivial
    | cons s socks ih =>
      exact Prog.issues_bind (hshut c s) fun _ => Prog.issues_bind ih fun _ => trivial
  have hmark : ∀ victims, (NetProg.markAll victims).Issues OnKill := by
    intro victims
    induction victims with
    | nil => trivial
    | cons c victims ih =>
      exact Prog.issues_bind (Prog.issues_perform trivial) fun _ =>
        Prog.issues_bind ih fun _ => trivial
  have htear : ∀ retained, (NetProg.tearAll retained).Issues OnKill := by
    intro retained
    induction retained with
    | nil => trivial
    | cons e retained ih =>
      exact Prog.issues_bind (hret e.1 e.2) fun _ => Prog.issues_bind ih fun _ => trivial
  exact Prog.issues_bind (Prog.issues_perform trivial) fun _ =>
    Prog.issues_bind (hmark _) fun _ => Prog.issues_bind (htear _) fun _ => trivial

/-- Nothing has been cancelled yet. -/
structure Before (args : QuiesceArgs) (w : World) : Prop where
  cancellation : w.run.ctx.cancellation = none
  outcome : w.outcome = none
  records : w.cancelRecords = []
  listener : args.server = true ∨ w.listener.serving = false
  killed : w.net.registry.killed = false
  shutdown : ∀ c s, .shutdown 0 c s true ∉ w.net.events

theorem steady_before (args : QuiesceArgs) : Steady (Before args) := by
  intro w w' h hr
  have hc := hr.canceller rfl
  exact ⟨hc.cancellation.trans h.cancellation, hc.outcome.trans h.outcome,
    hc.records.trans h.records, h.listener.imp id hr.serving, (hc.net.killed rfl).trans h.killed,
    fun c s hs => h.shutdown c s ((hc.net.mine (.shutdown 0 c s true) rfl).1 hs)⟩

/-- `terminate_all` up to the end of the enforcement. -/
theorem wp_terminate (h : Before args w) :
    (gatewayProtocol boot).wp 0 terminate
      (fun r w => Enforced w.net r.2.1 r.2.2 ∧ Cancelling args r.1 [] w) (fun _ _ => False) w := by
  refine Protocol.wp_perform fun u hu Iu => ⟨rfl, fun r u' he => ?_⟩
  have hb := steady_before args h hu
  have Iu' := inv_exec (c := .cancel) (i := 0) Iu rfl he
  obtain ⟨ev, run, hs, hr, rfl⟩ := exec_cancel he
  have hrun : run.ctx.cancellation = some r.2 := by
    simp only [Lifecycle.step] at hs
    cases hs
    rw [hr]
    unfold RunContext.cancel
    rw [hb.cancellation]
  have hcan : Cancelling args r.2 [] (u.advanced 0 ev run) :=
    ⟨hrun, hb.outcome, hb.records, hb.listener⟩
  have hwp := wp_enforce (E := fun _ _ => False) (show (u.advanced 0 ev run).net.registry.killed =
    false from hb.killed) hb.shutdown
  have hcancelled : ∀ {w}, Cancelling args r.2 [] w ∧ w.run.ctx.cancelled = true →
      w.run.ctx.cancelled = true := fun h => h.2
  refine Protocol.wp_seq (wp_onNet_lift
    (A := fun w => Cancelling args r.2 [] w ∧ w.run.ctx.cancelled = true)
    (fun h hr => ⟨steady_cancelling _ _ _ h.1 hr, hr.cancelled h.2⟩)
    (fun h => ⟨{ h.1 with }, h.2⟩) hcancelled issues_enforce hwp ⟨hcan, ?_⟩) Iu'
    fun x w I hx => ?_
  · rw [Iu'.lifecycle.cancelled_eq]
    show run.ctx.cancellation.isSome = true
    rw [hrun]
    rfl
  · obtain ⟨henf, hcan, -⟩ := hx
    exact fun v hv Iv => ⟨henf.rely (hv.canceller rfl).net, steady_cancelling _ _ _ hcan hv⟩

/-- The kill is done, and the serve loop has ended if its shutdown returned. -/
def Killed (args : QuiesceArgs) (started : Bool) (w : World) : Prop :=
  w.net.registry.killed = true ∧
    (started = true → args.server = true → w.listener.serving = false)

theorem steady_killed (args : QuiesceArgs) (started : Bool) : Steady (Killed args started) :=
  fun h hr => ⟨((hr.canceller rfl).net.killed rfl).trans h.1,
    fun hs ha => hr.serving (h.2 hs ha)⟩

/-- The evidence of the linearization, complete where `durable`. -/
def Evident (args : QuiesceArgs) (t : CancellationTransition) (started durable : Bool)
    (w : World) : Prop :=
  (∃ rs, Cancelling args t rs w ∧ Plain rs ∧ (durable = true → Linearized t rs)) ∧
    Killed args started w

theorem steady_evident (args : QuiesceArgs) (t : CancellationTransition) (started durable : Bool) :
    Steady (Evident args t started durable) := by
  rintro w w' ⟨⟨rs, h, hrs⟩, hk⟩ hr
  exact ⟨⟨rs, steady_cancelling args t rs h hr, hrs⟩, steady_killed args started hk hr⟩

/-- `record_linearization`. -/
theorem wp_recordLinearization {started : Bool} (I : GatewayInv boot w)
    (h : Cancelling args t [] w) (ha : Announced w) (hk : Killed args started w) :
    (gatewayProtocol boot).wp 0 (recordLinearization t)
      (fun _ => Evident args t started true) (fun _ => Evident args t started false) w := by
  have hA : Steady fun w => Cancelling args t [] w ∧ Announced w ∧ Killed args started w :=
    fun h hr => ⟨steady_cancelling _ _ _ h.1 hr, steady_announced h.2.1 hr,
      steady_killed _ _ h.2.2 hr⟩
  have hB : Steady fun w => (∃ r : Written, r.ok = true ∧ r.entry = .cancelRequested t ∧
      Cancelling args t [r] w) ∧ Killed args started w := by
    rintro w w' ⟨⟨r, h1, h2, h3⟩, h4⟩ hr
    exact ⟨⟨r, h1, h2, steady_cancelling _ _ _ h3 hr⟩, steady_killed _ _ h4 hr⟩
  have hplain : ∀ {r : Written}, r.entry = .cancelRequested t → Plain [r] := by
    intro r hr x hx
    rw [List.mem_singleton.1 hx, hr]
    exact ⟨rfl, rfl, fun _ => nofun⟩
  refine Protocol.wp_seq (wp_cancelWrite hA hB (steady_evident args t started false)
    (fun w _ h => ?_) (fun w o audit h ho => ?_) (fun w o audit h ho => ?_) ⟨h, ha, hk⟩) I
    fun _ w I h => ?_
  · refine cancelWriteReq rfl (fun _ => nofun) (fun _ => h.2.1) ?_
    rw [h.1.records]
    exact fun x hx => nomatch hx
  · have hrec := h.1.record (e := .cancelRequested t) rfl o audit
    rw [appends_of_ok ho, ho] at hrec
    exact ⟨⟨⟨0, .cancelRequested t, _, true⟩, rfl, rfl, hrec⟩, h.2.2⟩
  · refine ⟨⟨_, h.1.record rfl o audit, fun x hx => ?_, nofun⟩, h.2.2⟩
    rw [List.nil_append] at hx
    split at hx
    · exact hplain rfl x hx
    · cases hx
  refine wp_cancelWrite hB (steady_evident args t started true)
    (steady_evident args t started false) (fun w _ h => ?_) (fun w o audit h ho => ?_)
    (fun w o audit h ho => ?_) h
  · obtain ⟨⟨r, -, hr, h⟩, -⟩ := h
    refine cancelWriteReq rfl (fun _ => nofun) nofun ?_
    rw [h.records]
    exact hplain hr
  · obtain ⟨⟨r, hok, hr, h⟩, hk⟩ := h
    have hrec := h.record (e := .cancelLinearized t) rfl o audit
    rw [appends_of_ok ho, ho] at hrec
    have hlin : ∀ row, Linearized t ([r] ++ [⟨0, .cancelLinearized t, row, true⟩]) := fun row =>
      ⟨r, ⟨0, .cancelLinearized t, row, true⟩, rfl, hok, rfl, hr, rfl⟩
    exact ⟨⟨_, hrec, (hlin _).plain, fun _ => hlin _⟩, hk⟩
  · obtain ⟨⟨r, -, hr, h⟩, hk⟩ := h
    refine ⟨⟨_, h.record rfl o audit, fun x hx => ?_, nofun⟩, hk⟩
    rcases List.mem_append.1 hx with hx | hx
    · exact hplain hr x hx
    · split at hx
      · rw [List.mem_singleton.1 hx]
        exact ⟨rfl, rfl, fun _ => nofun⟩
      · cases hx

/-- A step that only reads. -/
theorem wp_read {c : Cmd} {β : Type} {f : c.Resp → GProg β} {Q : β → World → Prop}
    {E : Exn → World → Prop} {A : World → Prop} (hA : Steady A)
    (hreq : ∀ w, GatewayReq 0 c w) (hsame : ∀ r w w', World.exec 0 c w r = some w' → w' = w)
    (h : A w) (hf : ∀ r w, GatewayInv boot w → A w → World.exec 0 c w r = some w →
      (gatewayProtocol boot).wp 0 (f r) Q E w) :
    (gatewayProtocol boot).wp 0 (issue c >>= f) Q E w := by
  refine Protocol.wp_perform fun u hu Iu => ⟨hreq u, fun r u' he => ?_⟩
  have hu' := hsame r u u' he
  rw [hu'] at he ⊢
  exact hf r u Iu (hA h hu) he

/-- `cancel_and_quiesce` from the drain on. -/
theorem wp_drain {started durable : Bool} {torn snapshot : List String}
    (h : Evident args t started durable w) :
    (gatewayProtocol boot).wp 0 (drain args t torn snapshot durable started)
      (fun b w => b = true ↔ w.SealedOk) (fun _ _ => False) w := by
  have hev : Steady (Evident args t started durable) := steady_evident args t started durable
  have hsame : ∀ {α : Type} [DecidableEq α] {r x : α} {w w' : World},
      Net.give r x w = some w' → w' = w := fun h => (Net.give_eq_some.1 h).2.symm
  refine wp_read hev (fun _ => trivial) (fun _ _ _ he => hsame he) h fun _ w I h _ => ?_
  refine wp_read hev (fun _ => trivial) (fun _ _ _ he => hsame he) h fun _ w I h _ => ?_
  refine Protocol.wp_seq (J := fun stopped w => Evident args t started durable w ∧
    ((stopped && started) = true → w.listener.serving = false)) ?_ I fun stopped w I h => ?_
  · unfold awaitListener
    split
    · rename_i hclosed
      refine Protocol.wp_perform (f := Prog.ret) fun u hu Iu => ⟨trivial, fun (r : Bool) u' he => ?_⟩
      obtain ⟨hr, rfl⟩ := Net.give_eq_some.1 he
      refine fun v hv Iv => ⟨hev (hev h hu) hv, fun hs => hv.serving (Iu.listener ?_)⟩
      rw [Bool.and_eq_true] at hs
      exact hr.symm.trans hs.1
    · rename_i hclosed
      refine fun v hv Iv => ⟨hev h hv, fun hs => ?_⟩
      rw [Bool.and_eq_true, Bool.not_eq_true'] at hs
      obtain ⟨⟨rs, hc, -⟩, -⟩ := hev h hv
      exact hc.listener.resolve_left (by rw [hs.1]; decide)
  · have hA : Steady fun w => Evident args t started durable w ∧
        ((stopped && started) = true → w.listener.serving = false) :=
      fun h hr => ⟨hev h.1 hr, fun hs => hr.serving (h.2 hs)⟩
    refine wp_read hA (fun _ => trivial) (fun _ _ _ he => hsame he) h fun _ w I h _ => ?_
    obtain ⟨⟨⟨rs, hc, hrs, hlin⟩, hk⟩, hserv⟩ := h
    exact wp_sample hc hrs hlin hk.1 hserv

/-- **`cancel_and_quiesce`.** -/
theorem wp_cancelAndQuiesce (I : GatewayInv boot w) (h : Before args w) :
    (gatewayProtocol boot).wp 0 (cancelAndQuiesce args)
      (fun b w => b = true ↔ w.SealedOk) (fun _ _ => False) w := by
  refine Protocol.wp_seq (wp_terminate h) I fun r w I h => ?_
  obtain ⟨t, torn, snapshot⟩ := r
  have hE : Steady fun w => Enforced w.net torn snapshot ∧ Cancelling args t [] w :=
    fun h hr => ⟨h.1.rely (hr.canceller rfl).net, steady_cancelling _ _ _ h.2 hr⟩
  refine Protocol.wp_seq (J := fun started w => (Enforced w.net torn snapshot ∧
      Cancelling args t [] w) ∧ (started = true → args.server = true → w.listener.serving = false))
    ?_ I fun started w I h => ?_
  · unfold stopListening
    split
    · refine Protocol.wp_perform fun u hu Iu => ⟨trivial, fun (r : Except Exn Unit) u' he => ?_⟩
      simp only [gatewayMachine, World.exec] at he
      cases r with
      | ok _ =>
        simp only at he
        split at he
        · cases he
        · rename_i hserv
          cases he
          rw [Bool.not_eq_true] at hserv
          exact fun v hv _ => ⟨hE (hE h hu) hv, fun _ _ => hv.serving hserv⟩
      | error e =>
        cases he
        exact fun v hv _ => ⟨hE (hE h hu) hv, fun hs => by cases hs⟩
    · rename_i hno
      exact fun v hv _ => ⟨hE h hv, fun _ ha => absurd ha hno⟩
  have hE' : Steady fun w => (Enforced w.net torn snapshot ∧ Cancelling args t [] w) ∧
      (started = true → args.server = true → w.listener.serving = false) :=
    fun h hr => ⟨hE h.1 hr, fun hs ha => hr.serving (h.2 hs ha)⟩
  refine Protocol.wp_perform fun u hu Iu => ?_
  obtain ⟨⟨henf, hcan⟩, hserv⟩ := hE' h hu
  have hreq : GatewayReq 0 (.net (.linearized torn snapshot)) u := ⟨⟨rfl, henf⟩, trivial⟩
  refine ⟨hreq, fun _ u' he => ?_⟩
  have Iu' := inv_exec (c := .net (.linearized torn snapshot)) (i := 0) Iu hreq he
  cases he
  have hk : Killed args started { u with net := u.net.push (.linearized torn snapshot) } :=
    ⟨Iu.net.killed_iff.2 ⟨snapshot, henf.killed⟩, hserv⟩
  have hcan' : Cancelling args t [] { u with net := u.net.push (.linearized torn snapshot) } :=
    { hcan with }
  refine Protocol.wp_seq (J := Evident args t started) (Protocol.wp_tryCatch (Protocol.wp_seq
    (Protocol.wp_mono (wp_recordLinearization Iu' hcan' ⟨torn, snapshot, by simp [Net.push]⟩ hk)
      (fun _ _ _ h => h) fun _ w _ h => ?_) Iu' fun _ w _ h => ?_) Iu') Iu' fun durable w I h => ?_
  · exact steady_ret (steady_evident args t started false) h fun _ h => h
  · exact steady_ret (steady_evident args t started true) h fun _ h => h
  exact wp_drain h

/-- **The canceller.** -/
theorem wp_canceller (I : GatewayInv boot w) (h : Before args w) :
    (gatewayProtocol boot).wp 0 (canceller args) (fun _ _ => True) (fun _ _ => True) w := by
  refine Protocol.wp_seq (Protocol.wp_mono (wp_cancelAndQuiesce I h) (fun _ _ _ h => h)
    fun _ _ _ h => h.elim) I fun b w I h => ?_
  refine Protocol.wp_perform fun u hu Iu => ⟨⟨rfl, h.trans (sealedOk_rely hu).symm⟩, ?_⟩
  exact fun _ _ _ _ _ _ => trivial

/-- The listener. -/
theorem wp_listener {i : Nat} :
    (gatewayProtocol boot).wp i listener (fun _ _ => True) (fun _ _ => True) w := by
  refine Protocol.wp_perform fun u hu Iu => ⟨trivial, fun _ u' he => ?_⟩
  cases he
  refine Protocol.wp_perform fun v hv Iv => ⟨hv.serving rfl, fun _ _ _ _ _ _ => trivial⟩

end Cancel

end Quiesce

end StrixPEP
