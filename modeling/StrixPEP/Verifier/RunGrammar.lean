import StrixPEP.Verifier.AttemptGrammar

/-!
# Run grammar of accepted histories

* `RunPhase w s` — the invariant that links the run state of the scan to the records read so
  far: one constructor per phase of a run, with the records that opened it;
* `phase_step` — every accepted record keeps it;
* `run_grammar` — an accepted history is a startup, active records, the cancellation request,
  a drain, its linearization, a drain and the three closing records, which report an idle run;
  no other accepted history extends it or is a prefix of it.
-/

namespace StrixPEP

/-- The decisions of an active run: those of attempts, and denials. -/
def Kind.active (k : Kind) : Bool := k.ofAttempt || decide (k = .blockedByPolicy)

namespace VerifyE10

/-- Only records of the decision. -/
def All (k : Kind) (w : List Record) : Prop := ∀ r ∈ w, r.kind? = some k

/-- Only records of an active run. -/
def Active (w : List Record) : Prop := ∀ r ∈ w, ∃ k, r.kind? = some k ∧ k.active = true

/-- Only records of an active run, and no `EFFECT_ATTEMPTED`. -/
def Draining (w : List Record) : Prop :=
  ∀ r ∈ w, ∃ k, r.kind? = some k ∧ k.active = true ∧ k ≠ .attempted

/-- The record reports no permit, no producer and a stopped listener. -/
structure Idle (r : Record) : Prop where
  permits : r.get? "effect_permits_remaining" = some (.int 0)
  producers : r.get? "audit_producers_remaining" = some (.int 0)
  listener : r.get? "listener_state" = some (.str "STOPPED")

/-- The decision sequence of a closed run. -/
structure RunHistory (w : List Record) : Prop where
  word : ∃ degraded startup xs request ys lin zs kill ack close,
    w = degraded ++ startup ++ xs ++ [request] ++ ys ++ [lin] ++ zs ++ [kill, ack, close] ∧
    All .startupDegraded degraded ∧ All .startup startup ∧ startup.length ≤ 1 ∧ Active xs ∧
    request.kind? = some .cancelRequested ∧ Draining ys ∧ lin.kind? = some .cancelLinearized ∧
    Draining zs ∧ kill.kind? = some .killSwitch ∧ ack.kind? = some .cancelAck ∧
    close.kind? = some .runClosed ∧ Idle kill ∧ Idle ack ∧ Idle close
  intent : ∃ r ∈ w, r.kind? = some .auth

/-! ## The phases of a run -/

/-- The records of the startup. -/
def Prologue (startupSeen : Bool) (w : List Record) : Prop :=
  ∃ degraded startup, w = degraded ++ startup ∧ All .startupDegraded degraded ∧
    All .startup startup ∧ startup.length = startupSeen.toNat

/-- The records before the cancellation request. -/
def Opening (w : List Record) : Prop :=
  ∃ b pro xs, w = pro ++ xs ∧ Prologue b pro ∧ Active xs

/-- The records up to the drain that follows the linearization. -/
structure Drain (w : List Record) (request lin : Record) : Prop where
  split : ∃ pre ys zs, w = pre ++ [request] ++ ys ++ [lin] ++ zs ∧ Opening pre ∧ Draining ys ∧
    Draining zs
  requestKind : request.kind? = some .cancelRequested
  linKind : lin.kind? = some .cancelLinearized
  bindSeq : Agree request "lifecycle_seq" lin "lifecycle_seq"
  epochs : ∃ e, lin.get? "cancelled_epoch" = some (.int e) ∧
    lin.get? "new_epoch" = some (.int (e + 1))

/-- What the kill record has been checked for. -/
structure Killed (s : Scan) (lin kill : Record) : Prop where
  kind : kill.kind? = some .killSwitch
  bindings : ∀ x ∈ killBindings kill lin, x = .ok false
  inflight : ∃ seq n, lin.get? "lifecycle_seq" = some (.int seq) ∧
    logicalInflight seq s.attempts = .ok n ∧
    lin.get? "inflight_at_linearization" = some (.int n)

/-- What the acknowledgement has been checked for. -/
structure Acknowledged (kill ack : Record) : Prop where
  kind : ack.kind? = some .cancelAck
  bindings : ∀ f ∈ dispositionFields, Agree ack f kill f
  valid : ackValid ack = .ok true

/-- The phases of a run. -/
inductive RunPhase : List Record → Scan → Prop where
  | startup {w : List Record} {s : Scan} (hpro : Prologue s.startupSeen w)
      (hrun : s.runState = .running) (hactive : s.activeSeen = false) (hatt : s.attempts = [])
      (hkill : s.kill = none) (hcancel : s.cancel = none) : RunPhase w s
  | failed {w : List Record} {s : Scan} (hrun : s.runState = .startupFailed)
      (hatt : s.attempts = []) : RunPhase w s
  | running {w : List Record} {s : Scan} (hopen : Opening w) (hrun : s.runState = .running)
      (hactive : s.activeSeen = true) (hkill : s.kill = none) (hcancel : s.cancel = none) :
      RunPhase w s
  | requested {pre y : List Record} {request : Record} {s : Scan} (hopen : Opening pre)
      (hreq : request.kind? = some .cancelRequested) (hys : Draining y)
      (hrun : s.runState = .cancelRequested) (hkill : s.kill = none) (hcancel : s.cancel = none)
      (hrequest : s.cancelRequest = some request) : RunPhase (pre ++ [request] ++ y) s
  | linearized {w : List Record} {request lin : Record} {s : Scan} (hdrain : Drain w request lin)
      (hrun : s.runState = .cancelLinearized) (hkill : s.kill = none)
      (hcancel : s.cancel = some lin) : RunPhase w s
  | killed {w : List Record} {request lin kill : Record} {s : Scan}
      (hdrain : Drain w request lin) (hrun : s.runState = .cancelLinearized)
      (hcancel : s.cancel = some lin) (hkill : s.kill = some kill) (hkilled : Killed s lin kill) :
      RunPhase (w ++ [kill]) s
  | acknowledged {w : List Record} {request lin kill ack : Record} {s : Scan}
      (hdrain : Drain w request lin) (hrun : s.runState = .acknowledged)
      (hcancel : s.cancel = some lin) (hkilled : Killed s lin kill) (hack : Acknowledged kill ack) :
      RunPhase (w ++ [kill, ack]) s
  | timedOut {w : List Record} {s : Scan} (hrun : s.runState = .drainTimeout) : RunPhase w s
  | closed {w : List Record} {request lin kill ack close : Record} {s : Scan}
      (hdrain : Drain w request lin) (hrun : s.runState = .closed) (hcancel : s.cancel = some lin)
      (hkilled : Killed s lin kill) (hack : Acknowledged kill ack)
      (hkind : close.kind? = some .runClosed)
      (hclose : ∀ x ∈ closureBindings close lin, x = .ok false) :
      RunPhase (w ++ [kill, ack, close]) s

theorem Active.append {w : List Record} (h : Active w) {r : Record} {k : Kind}
    (hk : r.kind? = some k) (ha : k.active = true) : Active (w ++ [r]) := by
  intro x hx
  rcases List.mem_append.1 hx with hx | hx
  · exact h x hx
  · cases List.mem_singleton.1 hx
    exact ⟨k, hk, ha⟩

theorem Draining.append {w : List Record} (h : Draining w) {r : Record} {k : Kind}
    (hk : r.kind? = some k) (ha : k.active = true) (hne : k ≠ .attempted) :
    Draining (w ++ [r]) := by
  intro x hx
  rcases List.mem_append.1 hx with hx | hx
  · exact h x hx
  · cases List.mem_singleton.1 hx
    exact ⟨k, hk, ha, hne⟩

theorem Draining.nil : Draining [] := fun _ h => by cases h

theorem Prologue.opening {b : Bool} {w : List Record} (h : Prologue b w) : Opening w :=
  ⟨b, w, [], by simp, h, fun _ h => by cases h⟩

theorem Opening.append {w : List Record} (h : Opening w) {r : Record} {k : Kind}
    (hk : r.kind? = some k) (ha : k.active = true) : Opening (w ++ [r]) := by
  obtain ⟨b, pro, xs, rfl, hpro, hxs⟩ := h
  exact ⟨b, pro, xs ++ [r], by simp, hpro, hxs.append hk ha⟩

theorem Drain.append {w : List Record} {request lin : Record} (h : Drain w request lin)
    {r : Record} {k : Kind} (hk : r.kind? = some k) (ha : k.active = true)
    (hne : k ≠ .attempted) : Drain (w ++ [r]) request lin := by
  obtain ⟨pre, ys, zs, rfl, hpre, hys, hzs⟩ := h.split
  exact { h with
    split := ⟨pre, ys, zs ++ [r], by simp, hpre, hys, hzs.append hk ha hne⟩ }

theorem Advance.active {cancel : Option Record} {late : Bool} {r : Record} {aid : String}
    {k : Kind} {o : Option Attempt} {a : Attempt} {own : List (Int × String)}
    (h : Advance cancel late r aid k o a own) : k.active = true := by
  simp [Kind.active, h.ofAttempt]

/-- A record of an active run, in the phases where one is accepted. -/
theorem phase_active {w : List Record} {s s' : Scan} {r : Record} {k : Kind} (I : RunPhase w s)
    (hk : r.kind? = some k) (ha : k.active = true)
    (hrun : s.runState = .running ∨
      k ≠ .attempted ∧ (s.runState = .cancelRequested ∨ s.runState = .cancelLinearized))
    (hkill : k ≠ .attempted → s.kill = none) (hrun' : s'.runState = s.runState)
    (hactive' : s'.activeSeen = true) (hkill' : s'.kill = s.kill)
    (hcancel' : s'.cancel = s.cancel) (hreq' : s'.cancelRequest = s.cancelRequest) :
    RunPhase (w ++ [r]) s' := by
  cases I with
  | startup hpro hr _ _ hn hc =>
    exact .running (hpro.opening.append hk ha) (hrun'.trans hr) hactive' (hkill'.trans hn)
      (hcancel'.trans hc)
  | running hopen hr _ hn hc =>
    exact .running (hopen.append hk ha) (hrun'.trans hr) hactive' (hkill'.trans hn)
      (hcancel'.trans hc)
  | requested hopen hreq hys hr hn hc hq =>
    rcases hrun with h | ⟨hne, -⟩
    · rw [hr] at h; cases h
    · rw [List.append_assoc]
      exact .requested hopen hreq (hys.append hk ha hne) (hrun'.trans hr) (hkill'.trans hn)
        (hcancel'.trans hc) (hreq'.trans hq)
  | linearized hdrain hr hn hc =>
    rcases hrun with h | ⟨hne, -⟩
    · rw [hr] at h; cases h
    · exact .linearized (hdrain.append hk ha hne) (hrun'.trans hr) (hkill'.trans hn)
        (hcancel'.trans hc)
  | killed _ hr _ hn _ =>
    rcases hrun with h | ⟨hne, -⟩
    · rw [hr] at h; cases h
    · rw [hkill hne] at hn; cases hn
  | failed hr => rw [hr] at hrun; simp at hrun
  | acknowledged _ hr => rw [hr] at hrun; simp at hrun
  | timedOut hr => rw [hr] at hrun; simp at hrun
  | closed _ hr => rw [hr] at hrun; simp at hrun

theorem phase_step {w : List Record} {s s' : Scan} {r : Record} (I : RunPhase w s)
    (h : Accepts s r s') : RunPhase (w ++ [r]) s' := by
  cases h with
  | startupDegraded hk hrun hstart hactive =>
    cases I with
    | startup hpro _ _ hatt hn hc =>
      obtain ⟨ds, st, rfl, hds, hst, hlen⟩ := hpro
      rw [hstart] at hlen
      have hnil : st = [] := List.length_eq_zero_iff.1 hlen
      subst hnil
      refine .startup ⟨ds ++ [r], [], by simp, ?_, hst, by simp [hstart]⟩ hrun hactive hatt hn hc
      intro x hx
      rcases List.mem_append.1 hx with hx | hx
      · exact hds x hx
      · cases List.mem_singleton.1 hx
        exact hk
    | running _ _ ha => rw [ha] at hactive; cases hactive
    | _ => simp_all
  | startupFailed hk hrun hstart hactive =>
    cases I with
    | startup _ _ _ hatt => exact .failed rfl hatt
    | running _ _ ha => rw [ha] at hactive; cases hactive
    | _ => simp_all
  | startup hk hrun hstart hactive =>
    cases I with
    | startup hpro _ _ hatt hn hc =>
      obtain ⟨ds, st, rfl, hds, hst, hlen⟩ := hpro
      rw [hstart] at hlen
      have hnil : st = [] := List.length_eq_zero_iff.1 hlen
      subst hnil
      refine .startup ⟨ds, [r], by simp, hds, ?_, rfl⟩ hrun hactive hatt hn hc
      intro x hx
      cases List.mem_singleton.1 hx
      exact hk
    | running _ _ ha => rw [ha] at hactive; cases hactive
    | _ => simp_all
  | attempt hk hrun hkill hstep hown =>
    exact phase_active I hk hstep.active hrun hkill rfl rfl rfl rfl rfl
  | blockedByPolicy hk hrun hkill =>
    refine phase_active I hk rfl ?_ (fun _ => hkill) rfl rfl rfl rfl rfl
    rcases hrun with h | h
    · exact Or.inl h
    · exact Or.inr ⟨by decide, h⟩
  | cancelRequested hk hrun =>
    have hopen : ∀ hn : s.kill = none, ∀ hc : s.cancel = none, Opening w →
        RunPhase (w ++ [r]) { s with
          activeSeen := true, cancelRequest := some r, runState := .cancelRequested } := by
      intro hn hc ho
      have := RunPhase.requested (y := []) (s := { s with
        activeSeen := true, cancelRequest := some r, runState := .cancelRequested })
        ho hk Draining.nil rfl hn hc rfl
      simpa using this
    cases I with
    | startup hpro _ _ _ hn hc => exact hopen hn hc hpro.opening
    | running ho _ _ hn hc => exact hopen hn hc ho
    | _ => simp_all
  | cancelLinearized hk hrun hreq hseq hcancelled hnew hbind hepoch hfresh hall =>
    cases I with
    | requested ho hrk hys hr hn hc hq =>
      rw [hq] at hreq
      cases hreq
      refine .linearized ⟨⟨_, _, [], by simp, ho, hys, Draining.nil⟩, hrk, hk, hbind,
        ⟨_, hcancelled, hnew⟩⟩ rfl hn rfl
    | _ => simp_all
  | killSwitch hk hrun hnew hterminal hallow hrelease hcounts hcancel hseq hn hinflight hbind =>
    cases I with
    | linearized hdrain hr _ hc =>
      rw [hc] at hcancel
      cases hcancel
      exact .killed hdrain hr hc rfl ⟨hk, hbind, _, _, hseq, hn, hinflight⟩
    | killed _ _ _ hks => rw [hks] at hnew; cases hnew
    | _ => simp_all
  | cancelAck hk hrun hkill hcounts hbind hvalid =>
    cases I with
    | linearized _ _ hn => rw [hn] at hkill; cases hkill
    | killed hdrain hr hc hks hkilled =>
      rw [hks] at hkill
      cases hkill
      rw [List.append_assoc]
      exact .acknowledged hdrain rfl hc ⟨hkilled.kind, hkilled.bindings, hkilled.inflight⟩
        ⟨hk, hbind, hvalid⟩
    | _ => simp_all
  | cancelDrainTimeout hk hrun hkill => exact .timedOut rfl
  | runClosed hk hrun hcancel hbind hcounts =>
    cases I with
    | acknowledged hdrain hr hc hkilled hack =>
      rw [hc] at hcancel
      cases hcancel
      rw [List.append_assoc]
      exact .closed hdrain rfl hc ⟨hkilled.kind, hkilled.bindings, hkilled.inflight⟩ hack hk hbind
    | _ => simp_all

theorem All.nil {k : Kind} : All k [] := fun _ h => by cases h

theorem accepted_phase {records : List Record} {s : Scan} (h : Accepted records s) :
    RunPhase records s :=
  scan_induct (W := fun _ => True)
    (.startup ⟨[], [], rfl, All.nil, All.nil, rfl⟩ rfl rfl rfl rfl rfl)
    (fun I _ h => phase_step I h) (fun _ _ => trivial) h.scanned

/-! ## Closed runs -/

/-- The records of an accepted history, with everything the scan checked of the closing ones. -/
structure ClosedRun (records : List Record) (s : Scan) (w : List Record)
    (request lin kill ack close : Record) : Prop where
  split : records = w ++ [kill, ack, close]
  drain : Drain w request lin
  cancel : s.cancel = some lin
  killed : Killed s lin kill
  ack : Acknowledged kill ack
  closeKind : close.kind? = some .runClosed
  close : ∀ x ∈ closureBindings close lin, x = .ok false

theorem accepted_closed {records : List Record} {s : Scan} (h : Accepted records s) :
    ∃ w request lin kill ack close, ClosedRun records s w request lin kill ack close := by
  have hend := h.ended
  cases accepted_phase h with
  | closed hdrain _ hc hkilled hack hkind hclose =>
    exact ⟨_, _, _, _, _, _, rfl, hdrain, hc, hkilled, hack, hkind, hclose⟩
  | failed _ hatt => exact absurd hatt h.nonempty
  | _ => simp_all

theorem Acknowledged.idle {kill ack : Record} (h : Acknowledged kill ack) :
    Idle kill ∧ Idle ack := by
  have hv := allOf_true.1 h.valid
  have hp := isValue_true.1 (hv (isValue ack "effect_permits_remaining" (.int 0)) (by simp))
  have hq := isValue_true.1 (hv (isValue ack "audit_producers_remaining" (.int 0)) (by simp))
  have hl := isValue_true.1 (hv (isValue ack "listener_state" (.str "STOPPED")) (by simp))
  -- the kill record agrees with the acknowledgement on every one of these fields
  have hk : ∀ f ∈ dispositionFields, ∀ v, ack.get? f = some v → kill.get? f = some v := by
    intro f hf v hv
    obtain ⟨v', h1, h2⟩ := h.bindings f hf
    rw [hv] at h1
    cases h1
    exact h2
  exact ⟨⟨hk _ (by decide) _ hp, hk _ (by decide) _ hq, hk _ (by decide) _ hl⟩, ⟨hp, hq, hl⟩⟩

theorem closure_idle {close lin : Record}
    (h : ∀ x ∈ closureBindings close lin, x = .ok false) : Idle close where
  permits := differFrom_false.1 (h _ (by simp [closureBindings]))
  producers := differFrom_false.1 (h _ (by simp [closureBindings]))
  listener := differFrom_false.1 (h _ (by simp [closureBindings]))

theorem accepted_history {records : List Record} {s : Scan} (h : Accepted records s) :
    RunHistory records := by
  obtain ⟨w, request, lin, kill, ack, close, hc⟩ := accepted_closed h
  obtain ⟨pre, ys, zs, rfl, ⟨b, pro, xs, rfl, ⟨ds, st, rfl, hds, hst, hlen⟩, hxs⟩, hys, hzs⟩ :=
    hc.drain.split
  have hone : st.length ≤ 1 := by
    rw [hlen]
    cases b <;> decide
  refine ⟨⟨ds, st, xs, request, ys, lin, zs, kill, ack, close, hc.split, hds, hst, hone, hxs,
    hc.drain.requestKind, hys, hc.drain.linKind, hzs, hc.killed.kind, hc.ack.kind, hc.closeKind,
    hc.ack.idle.1, hc.ack.idle.2, closure_idle hc.close⟩, ?_⟩
  obtain ⟨⟨aid, a⟩, hmem⟩ := List.exists_mem_of_ne_nil _ h.nonempty
  obtain ⟨b, hb⟩ : ∃ b, s.attempts.lookup aid = some b := by
    cases hl : s.attempts.lookup aid with
    | some b => exact ⟨b, rfl⟩
    | none => exact absurd (List.mem_map.2 ⟨_, hmem, rfl⟩) (Dict.lookup_eq_none_iff.1 hl)
  have hshape := (accepted_entries h).present aid b hb
  obtain ⟨tail, -, hw⟩ := hshape.word
  have hauth : b.auth ∈ ofAttempt aid records := by rw [hw]; simp
  exact ⟨b.auth, (List.mem_filter.1 hauth).1, hshape.kinds.auth⟩

/-- A closed run ends with its only `RUN_CLOSED`. -/
theorem RunHistory.last {w : List Record} (h : RunHistory w) :
    ∃ front close, w = front ++ [close] ∧ close.kind? = some .runClosed ∧
      ∀ r ∈ front, r.kind? ≠ some .runClosed := by
  obtain ⟨ds, st, xs, request, ys, lin, zs, kill, ack, close, rfl, hds, hst, -, hxs, hreq, hys,
    hlin, hzs, hkill, hack, hclose, -⟩ := h.word
  refine ⟨ds ++ st ++ xs ++ [request] ++ ys ++ [lin] ++ zs ++ [kill, ack], close, by simp, hclose,
    ?_⟩
  have hactive : ∀ k : Kind, k.active = true → k ≠ .runClosed := by
    intro k hk he
    subst he
    cases hk
  intro r hr heq
  simp only [List.mem_append, List.mem_cons, List.not_mem_nil, or_false] at hr
  rcases hr with ((((((hr | hr) | hr) | rfl) | hr) | rfl) | hr) | rfl | rfl
  · rw [hds r hr] at heq; cases heq
  · rw [hst r hr] at heq; cases heq
  · obtain ⟨k, hk, ha⟩ := hxs r hr
    rw [hk] at heq
    exact hactive k ha (Option.some.inj heq)
  · rw [hreq] at heq; cases heq
  · obtain ⟨k, hk, ha, -⟩ := hys r hr
    rw [hk] at heq
    exact hactive k ha (Option.some.inj heq)
  · rw [hlin] at heq; cases heq
  · obtain ⟨k, hk, ha, -⟩ := hzs r hr
    rw [hk] at heq
    exact hactive k ha (Option.some.inj heq)
  · rw [hkill] at heq; cases heq
  · rw [hack] at heq; cases heq

theorem RunHistory.prefix_eq {w w' : List Record} (h : RunHistory w) (h' : RunHistory w')
    (hp : w <+: w') : w = w' := by
  obtain ⟨front, close, rfl, hclose, -⟩ := h.last
  obtain ⟨front', close', rfl, -, hfront⟩ := h'.last
  obtain ⟨rest, hrest⟩ := hp
  rcases List.eq_nil_or_concat rest with rfl | ⟨rest', x, rfl⟩
  · simpa using hrest
  · -- the last record of `w` lies before the last one of `w'`
    have hinit : front ++ [close] ++ rest' = front' := by
      have := congrArg List.dropLast hrest
      simpa [← List.append_assoc] using this
    exact absurd hclose (hfront close (by rw [← hinit]; simp))

/-- **Run grammar and prefix-freeness.** An accepted history is a startup, active records, the
cancellation request, a drain, its linearization, a drain, and the kill, acknowledgement and
closure records, which report an idle run; no accepted history is a proper prefix or a proper
extension of it. -/
theorem run_grammar {records : List Record} {runId : String}
    (h : accepts records runId = true) :
    RunHistory records ∧
      ∀ other runId', accepts other runId' = true → other <+: records ∨ records <+: other →
        other = records := by
  obtain ⟨s, hacc⟩ := valid_accepted h
  refine ⟨accepted_history hacc, fun other runId' hother hp => ?_⟩
  obtain ⟨s', hacc'⟩ := valid_accepted hother
  rcases hp with hp | hp
  · exact (accepted_history hacc').prefix_eq (accepted_history hacc) hp
  · exact ((accepted_history hacc).prefix_eq (accepted_history hacc') hp).symm

theorem run_grammar_sample :
    accepts Sample.history "run-1" = true ∧ RunHistory Sample.history ∧
      ∀ other runId', accepts other runId' = true →
        other <+: Sample.history ∨ Sample.history <+: other → other = Sample.history :=
  ⟨Sample.history_accepted, run_grammar Sample.history_accepted⟩

end VerifyE10

end StrixPEP
