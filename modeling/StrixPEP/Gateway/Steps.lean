import StrixPEP.Gateway.Protocol

/-!
# Every step keeps the invariant

One lemma for each kind of step: operations of the permit authority (`inv_advance`), writes
(`inv_record`), the connections (`inv_net`), the producers; `inv_exec` puts them together.
-/

namespace StrixPEP

open Threads KillSwitch

section Inversion

variable {i : Nat} {w w' : World}

/-- The state after one operation of the permit authority. -/
def World.advanced (i : Nat) (w : World) (ev : Lifecycle.Event) (run : RunState) : World :=
  { w with
    run := run
    history := w.history.push ev
    flights := w.flights ++ Flight.ofEvent i ev }

theorem World.advance_eq {op : Lifecycle.Op} {ev : Lifecycle.Event}
    (h : w.advance i op = some (ev, w')) :
    ∃ run, Lifecycle.step w.run op = some (ev, run) ∧ w' = w.advanced i ev run := by
  unfold World.advance at h
  obtain ⟨⟨ev, run⟩, hs, heq⟩ := Option.map_eq_some_iff.1 h
  cases heq
  exact ⟨run, hs, rfl⟩

theorem exec_net {c : NetCmd} {r : c.Resp} (h : World.exec i (.net c) w r = some w') :
    ∃ n, Net.exec i c w.net r = some n ∧
      w' = { w with net := n, live := World.liveAfter w.live c r } := by
  obtain ⟨n, hn, rfl⟩ := Option.map_eq_some_iff.1 h
  exact ⟨n, hn, rfl⟩

theorem exec_write {e : Entry} {o : Outcome} (h : World.exec i (.write e) w o = some w') :
    ∃ audit, w.audit.write e.fields o = some audit ∧ w' = w.record i e o audit := by
  obtain ⟨audit, ha, rfl⟩ := Option.map_eq_some_iff.1 h
  exact ⟨audit, ha, rfl⟩

theorem exec_sealWith {e : Entry} {o : Outcome} (h : World.exec i (.sealWith e) w o = some w') :
    ∃ audit, w.audit.write e.fields o = some audit ∧
      w' = w.record i e o (if o.ok then { audit with sealed := true } else audit) := by
  obtain ⟨audit, ha, rfl⟩ := Option.map_eq_some_iff.1 h
  unfold AuditLog.sealWith at ha
  split at ha
  · cases ha
  · rename_i log hlog
    cases ha
    exact ⟨log, hlog, rfl⟩

theorem exec_authorize {a : String} {e : Nat} {r : Option Nat}
    (h : World.exec i (.authorize a e) w r = some w') :
    ∃ ev run, Lifecycle.step w.run (.authorize a e) = some (ev, run) ∧
      r = (w.run.ctx.authorize a e).1 ∧
      w' = { w.advanced i ev run with
        attempts := if r.isSome then w.attempts ++ [(a, i)] else w.attempts } := by
  obtain ⟨⟨ev, w₁⟩, hx, hg⟩ := Option.bind_eq_some_iff.1 h
  obtain ⟨run, hs, rfl⟩ := World.advance_eq hx
  obtain ⟨hr, rfl⟩ := Net.give_eq_some.1 hg
  exact ⟨ev, run, hs, hr, rfl⟩

theorem exec_issuePermit {a c gen bud : String} {e : Nat} {r : Option EffectPermit}
    (h : World.exec i (.issuePermit a e c gen bud) w r = some w') :
    ∃ ev run, Lifecycle.step w.run
        (.issuePermit a e (w.net.lifecycles c).terminal gen bud) = some (ev, run) ∧
      r = (w.run.issuePermit a e (w.net.lifecycles c).terminal gen bud).1 ∧
      w' = { w.advanced i ev run with
        holders := if r.isSome then w.holders ++ [i] else w.holders } := by
  obtain ⟨⟨ev, w₁⟩, hx, hg⟩ := Option.bind_eq_some_iff.1 h
  obtain ⟨run, hs, rfl⟩ := World.advance_eq hx
  obtain ⟨hr, rfl⟩ := Net.give_eq_some.1 hg
  exact ⟨ev, run, hs, hr, rfl⟩

theorem exec_bindDurableRelease {ref : Nat} {c : String} {r : Bool}
    (h : World.exec i (.bindDurableRelease ref c) w r = some w') :
    ∃ ev run st, Lifecycle.step w.run (.bindDurableRelease ref c) = some (ev, run) ∧
      w.run.bindDurableRelease ref c = some (r, st) ∧ w' = w.advanced i ev run := by
  obtain ⟨⟨b, st⟩, hy, hb⟩ := Option.bind_eq_some_iff.1 h
  obtain ⟨⟨ev, w₁⟩, hx, hg⟩ := Option.bind_eq_some_iff.1 hb
  obtain ⟨run, hs, rfl⟩ := World.advance_eq hx
  obtain ⟨rfl, rfl⟩ := Net.give_eq_some.1 hg
  exact ⟨ev, run, st, hs, hy, rfl⟩

theorem exec_releaseEnter {ref : Nat} {r : RunState.ReleaseEntry}
    (h : World.exec i (.releaseEnter ref) w r = some w') :
    ∃ ev run st, Lifecycle.step w.run (.release ref) = some (ev, run) ∧
      w.run.releaseEnter ref = some (r, st) ∧ w' = w.advanced i ev run := by
  obtain ⟨⟨b, st⟩, hy, hb⟩ := Option.bind_eq_some_iff.1 h
  obtain ⟨⟨ev, w₁⟩, hx, hg⟩ := Option.bind_eq_some_iff.1 hb
  obtain ⟨run, hs, rfl⟩ := World.advance_eq hx
  obtain ⟨rfl, rfl⟩ := Net.give_eq_some.1 hg
  exact ⟨ev, run, st, hs, hy, rfl⟩

theorem exec_releaseExit {ref : Nat} {ok : Bool}
    (h : World.exec i (.releaseExit ref ok) w (() : Unit) = some w') :
    ∃ ev run, Lifecycle.step w.run (.releaseWrite ref ok) = some (ev, run) ∧
      w' = w.advanced i ev run := by
  obtain ⟨⟨ev, w₁⟩, hx, rfl⟩ := Option.map_eq_some_iff.1 h
  obtain ⟨run, hs, rfl⟩ := World.advance_eq hx
  exact ⟨ev, run, hs, rfl⟩

theorem exec_abandonUndurable {ref : Nat}
    (h : World.exec i (.abandonUndurable ref) w (() : Unit) = some w') :
    ∃ ev run, Lifecycle.step w.run (.abandonUndurable ref) = some (ev, run) ∧
      w' = w.advanced i ev run := by
  obtain ⟨⟨ev, w₁⟩, hx, rfl⟩ := Option.map_eq_some_iff.1 h
  obtain ⟨run, hs, rfl⟩ := World.advance_eq hx
  exact ⟨ev, run, hs, rfl⟩

theorem exec_cancel {r : ℚ × CancellationTransition} (h : World.exec i .cancel w r = some w') :
    ∃ ev run, Lifecycle.step w.run (.cancel r.1) = some (ev, run) ∧
      r.2 = (w.run.ctx.cancel r.1).1 ∧ w' = w.advanced i ev run := by
  change ((w.advance i (.cancel r.1)).bind
    fun x => Net.give r.2 (w.run.ctx.cancel r.1).1 x.2) = some w' at h
  obtain ⟨⟨ev, w₁⟩, hx, hg⟩ := Option.bind_eq_some_iff.1 h
  obtain ⟨run, hs, rfl⟩ := World.advance_eq hx
  obtain ⟨hr, rfl⟩ := Net.give_eq_some.1 hg
  exact ⟨ev, run, hs, hr, rfl⟩

end Inversion

/-! ## The permit authority -/

section Advance

variable {boot : List Line} {i : Nat} {w : World} {op : Lifecycle.Op} {ev : Lifecycle.Event}
  {run : RunState}

theorem split_of_notMem {α : Type} {l seg pre post : List α} {x : α}
    (h : l ++ seg = pre ++ x :: post) (hx : x ∉ seg) : ∃ post', l = pre ++ x :: post' := by
  rcases List.append_eq_append_iff.1 h with ⟨rest, rfl, hrest⟩ | ⟨rest, rfl, hrest⟩
  · exact absurd (by rw [hrest]; simp) hx
  · cases rest with
    | nil =>
      rw [List.nil_append] at hrest
      exact absurd (by rw [← hrest]; simp) hx
    | cons y rest =>
      cases hrest
      exact ⟨rest, rfl⟩

theorem returned_notMem_ofEvent (i : Nat) (ev : Lifecycle.Event) (j : Nat) (a : String)
    (start : Nat) (g : Bool) : Flight.returned j a start g ∉ Flight.ofEvent i ev := by
  cases ev <;> simp [Flight.ofEvent]

/-- One operation, with the ghosts that go with it. -/
theorem inv_advance (I : GatewayInv boot w) (hs : Lifecycle.step w.run op = some (ev, run))
    {attempts : List (String × Nat)} {holders : List Nat}
    (hatt : attempts = w.attempts ++ ev.newAttempts.map fun a => (a, i))
    (hhold : holders = w.holders ++ ev.newPermits.map fun _ => i)
    (hown : ∀ p ∈ ev.newPermits, (p.attemptId, i) ∈ w.attempts) :
    GatewayInv boot { w.advanced i ev run with attempts := attempts, holders := holders } := by
  have he := Lifecycle.step_effect hs
  have hcan : w.run.ctx.cancelled = true → run.ctx.cancelled = true ∧
      run.ctx.inflight.Sublist w.run.ctx.inflight := fun hc => Lifecycle.step_cancelled hc hs
  have hsub : w.attempts ⊆ attempts := by rw [hatt]; exact List.subset_append_left _ _
  exact { I with
    lifecycle := Lifecycle.step_inv I.lifecycle hs
    flights := by
      show Flight.replay (w.flights ++ Flight.ofEvent i ev) = run.ctx.inflight
      rw [Flight.replay_append, Flight.foldl_ofEvent, I.flights, he.inflight]
    calls := by
      intro pre post j a start h
      obtain ⟨post', h'⟩ := split_of_notMem h (returned_notMem_ofEvent i ev j a start false)
      exact I.calls pre post' j a start h'
    attempts := by
      show attempts.map Prod.fst = run.ctx.authorizations.map Prod.fst
      rw [he.authorizations, ← I.attempts, hatt]
      simp [Function.comp_def]
    recorded := fun x hx a ha => List.map_subset _ hsub (I.recorded x hx a ha)
    holders := by
      show List.Forall₂ (fun p i => (p.attemptId, i) ∈ attempts) (w.history.push ev).permits holders
      rw [Lifecycle.History.push_permits, hhold]
      refine List.rel_append (I.holders.imp fun _ _ h => hsub h) ?_
      rw [List.forall₂_map_right_iff]
      exact List.forall₂_same.2 fun p hp => hsub (hown p hp)
    killed := fun hk => ⟨(hcan (I.killed hk).1).1, (I.killed hk).2⟩
    closed := by
      intro x hx hok hseq
      obtain ⟨⟨t, pre, k, a, hlog, hent, hev, htr⟩, hq, hseal⟩ := I.closed x hx hok hseq
      obtain ⟨hin, hprod, hserv, hkill, hc⟩ := hq
      obtain ⟨hc', hsubl⟩ := hcan hc
      refine ⟨⟨t, pre, k, a, hlog, hent, hev, he.cancellation_some htr⟩,
        ⟨?_, hprod, hserv, hkill, hc'⟩, hseal⟩
      rw [hin] at hsubl
      exact List.sublist_nil.1 hsubl }

/-- The operations that authorize nothing and issue nothing. -/
theorem inv_advance_quiet (I : GatewayInv boot w) (hs : Lifecycle.step w.run op = some (ev, run))
    (ha : ev.newAttempts = []) (hp : ev.newPermits = []) :
    GatewayInv boot (w.advanced i ev run) :=
  inv_advance I hs (show w.attempts = _ by simp [ha]) (show w.holders = _ by simp [hp])
    (by simp [hp])

end Advance

/-! ## Writes -/

section Record

variable {boot : List Line} {i : Nat} {w : World} {e : Entry} {o : Outcome} {audit : AuditLog}

theorem Entry.ack_not_timeout {e : Entry} (h : e.isAck = true) : e.isDrainTimeout = false := by
  cases e <;> simp_all [Entry.isAck, Entry.isDrainTimeout]

theorem World.mem_record {x : Written} (h : x ∈ (w.record i e o audit).log) :
    x ∈ w.log ∨ x = ⟨i, e, w.audit.persist e.fields o, o.ok⟩ := by
  unfold World.record at h
  by_cases ha : AuditLog.appends o = true
  · rw [if_pos ha] at h
    rcases List.mem_append.1 h with h | h
    · exact Or.inl h
    · exact Or.inr (List.mem_singleton.1 h)
  · rw [if_neg ha] at h
    exact Or.inl h

/-- A write, with what it does to the log object. -/
theorem inv_record (I : GatewayInv boot w) (hreq : WriteReq i w e)
    (hfile : (audit.file = w.audit.file ∧ audit.healthy = w.audit.healthy ∧
        AuditLog.appends o = false) ∨
      (w.audit.healthy = true ∧ (∀ s ∈ o.order, s ∈ w.audit.redaction) ∧ ∃ rest, audit.file =
        w.audit.file ++ (if AuditLog.appends o then
          [AuditLog.lineOf (w.audit.persist e.fields o)] else []) ++ rest ∧
        (∀ l ∈ rest, ∃ text, l = .torn text) ∧ (audit.healthy = true → rest = [])))
    (hredact : audit.redaction = w.audit.redaction)
    (hout : (∃ seq, e = .runClosed seq) → w.outcome = none)
    (hsealed : w.audit.sealed = true → audit = w.audit ∧ AuditLog.appends o = false)
    (hclosed : (∃ seq, e = .runClosed seq) → o.ok = true → AuditLog.appends o = true →
      Closed (w.record i e o audit) ⟨i, e, w.audit.persist e.fields o, o.ok⟩) :
    GatewayInv boot (w.record i e o audit) := by
  obtain ⟨hregular, -, -, hatt, hrace, hlin, hack, htime⟩ := hreq
  exact { I with
    recorded := by
      intro x hx a ha
      rcases World.mem_record hx with hx | rfl
      · exact I.recorded x hx a ha
      · exact List.mem_map.2 ⟨(a, i), hatt a ha, rfl⟩
    requested := by
      rintro ⟨x, hx, hxr⟩
      rcases World.mem_record hx with hx | rfl
      · exact I.requested ⟨x, hx, hxr⟩
      · exact hlin hxr
    order := by
      rcases I.order with hr | hpw
      · exact Or.inl (by simp [World.record, hr])
      · by_cases hatm : e.isAttempted = true
        · rcases hrace hatm with hr | hno
          · exact Or.inl (by simp [World.record, hr])
          · right
            unfold World.record
            dsimp only
            split
            · exact pairwise_push hpw fun x hx hxr => absurd ⟨x, hx, hxr⟩ hno
            · exact hpw
        · right
          unfold World.record
          dsimp only
          split
          · exact pairwise_push hpw fun x _ _ => by simpa using hatm
          · exact hpw
    exclusive := by
      by_cases ha : e.isAck = true
      · right
        intro x hx
        rcases World.mem_record hx with hx | rfl
        · exact hack ha x hx
        · exact Entry.ack_not_timeout ha
      · by_cases ht : e.isDrainTimeout = true
        · left
          intro x hx
          rcases World.mem_record hx with hx | rfl
          · exact htime ht x hx
          · simpa using ha
        · rcases I.exclusive with h | h
          · left
            intro x hx
            rcases World.mem_record hx with hx | rfl
            · exact h x hx
            · simpa using ha
          · right
            intro x hx
            rcases World.mem_record hx with hx | rfl
            · exact h x hx
            · simpa using ht
    regular := by
      intro x hx
      rcases World.mem_record hx with hx | rfl
      · exact I.regular x hx
      · exact hregular
    failed := by
      intro x hx
      rcases World.mem_record hx with hx | rfl
      · exact (I.failed x hx).imp id fun h => by simp [World.record, h]
      · cases hok : o.ok with
        | true => exact Or.inl rfl
        | false => exact Or.inr (by simp [World.record, hok])
    persisted := by
      intro x hx
      show ∃ (log : AuditLog) (o : Outcome), _ ∧ ∀ s ∈ o.order, s ∈ audit.redaction
      rw [hredact]
      by_cases ha : AuditLog.appends o = true
      · rcases World.mem_record hx with hx | rfl
        · exact I.persisted x hx
        · rcases hfile with ⟨-, -, hno⟩ | ⟨-, horder, -⟩
          · rw [ha] at hno
            cases hno
          · exact ⟨w.audit, o, rfl, horder⟩
      · unfold World.record at hx
        rw [if_neg ha] at hx
        exact I.persisted x hx
    file := by
      obtain ⟨rest, hold, htorn, hnil⟩ := I.file
      have hlog : ((w.record i e o audit).log.map fun x => AuditLog.lineOf x.record) =
          (w.log.map fun x => AuditLog.lineOf x.record) ++ (if AuditLog.appends o then
            [AuditLog.lineOf (w.audit.persist e.fields o)] else []) := by
        unfold World.record
        dsimp only
        split <;> simp
      rw [hlog]
      rcases hfile with ⟨hsame, hh, hno⟩ | ⟨hh, -, rest', hnew, htorn', hnil'⟩
      · refine ⟨rest, ?_, htorn, fun h => hnil (hh.symm.trans h)⟩
        show audit.file = _
        rw [hsame, hold, hno]
        simp
      · refine ⟨rest', ?_, htorn', hnil'⟩
        show audit.file = _
        rw [hnew, hold, hnil hh]
        simp
    outcome := by
      intro b hb
      rw [I.outcome b hb]
      have hne : ∀ seq, e ≠ .runClosed seq := by
        intro seq hseq
        have := hout ⟨seq, hseq⟩
        rw [show w.outcome = some b from hb] at this
        cases this
      constructor
      · rintro ⟨x, hx, hrest⟩
        refine ⟨x, ?_, hrest⟩
        unfold World.record
        dsimp only
        split
        · exact List.mem_append_left _ hx
        · exact hx
      · rintro ⟨x, hx, hok, seq, hseq⟩
        rcases World.mem_record hx with hx | rfl
        · exact ⟨x, hx, hok, seq, hseq⟩
        · exact absurd hseq (hne seq)
    closed := by
      intro x hx hok hseq
      rcases World.mem_record hx with hx' | rfl
      · have hcl := I.closed x hx' hok hseq
        obtain ⟨rfl, hno⟩ := hsealed hcl.2.2.1
        unfold World.record
        simp only [hno, Bool.false_eq_true, if_false]
        exact hcl
      · by_cases happ : AuditLog.appends o = true
        · exact hclosed hseq hok happ
        · -- the record is an old one that looks like the new one
          unfold World.record at hx
          rw [if_neg happ] at hx
          have hcl := I.closed _ hx hok hseq
          obtain ⟨rfl, hno⟩ := hsealed hcl.2.2.1
          unfold World.record
          simp only [hno, Bool.false_eq_true, if_false]
          exact hcl }

theorem inv_write (I : GatewayInv boot w) (hreq : WriteReq i w e) (hne : ∀ seq, e ≠ .runClosed seq)
    (hw : w.audit.write e.fields o = some audit) : GatewayInv boot (w.record i e o audit) := by
  obtain ⟨-, hredact, -⟩ := AuditLog.write_cases hw
  refine inv_record I hreq ?_ hredact (fun ⟨seq, hseq⟩ => absurd hseq (hne seq)) ?_
    fun ⟨seq, hseq⟩ => absurd hseq (hne seq)
  · rcases AuditLog.write_file hw with ⟨rfl, hno⟩ | ⟨hh, -, hrest⟩
    · exact Or.inl ⟨rfl, rfl, hno⟩
    · exact Or.inr ⟨hh, hrest⟩
  · intro hs
    obtain ⟨rfl, rfl⟩ := AuditLog.write_refused (Or.inl hs) hw
    exact ⟨rfl, rfl⟩

theorem inv_seal (I : GatewayInv boot w) {t : CancellationTransition} {pre : List Written}
    {k a : Written} (hlog : w.log = pre ++ [k, a]) (hev : Evidence t pre k a)
    (hcan : w.run.ctx.cancellation = some t) (hq : Quiescent w) (hout : w.outcome = none)
    (hw : w.audit.write (Entry.runClosed t.lifecycleSeq).fields o = some audit) :
    GatewayInv boot (w.record 0 (.runClosed t.lifecycleSeq) o
      (if o.ok then { audit with sealed := true } else audit)) := by
  obtain ⟨-, hredact, -, -, hok⟩ := AuditLog.write_cases hw
  have hh' : (if o.ok then { audit with sealed := true } else audit).healthy = audit.healthy := by
    split <;> rfl
  have hf' : (if o.ok then { audit with sealed := true } else audit).file = audit.file := by
    split <;> rfl
  have hr' : (if o.ok then { audit with sealed := true } else audit).redaction =
      audit.redaction := by
    split <;> rfl
  refine inv_record I (by simp [WriteReq, Entry.Regular, Entry.byCanceller, Entry.attempt?, Entry.isAttempted,
    Entry.isRequested, Entry.isAck, Entry.isDrainTimeout]) ?_ (hr'.trans hredact) (fun _ => hout) ?_ ?_
  · rw [hh', hf']
    rcases AuditLog.write_file hw with ⟨rfl, hno⟩ | ⟨hh, -, hrest⟩
    · exact Or.inl ⟨rfl, rfl, hno⟩
    · exact Or.inr ⟨hh, hrest⟩
  · intro hs
    obtain ⟨rfl, rfl⟩ := AuditLog.write_refused (Or.inl hs) hw
    exact ⟨rfl, rfl⟩
  · intro _ ho ha
    refine ⟨⟨t, pre, k, a, ?_, rfl, hev, hcan⟩, hq, ?_, ?_⟩
    · simp [World.record, ha, hlog]
    · simp [World.record, ho]
    · simpa [World.record, ho] using hok ho

end Record

/-! ## The connections -/

section Connections

variable {boot : List Line} {i : Nat} {w w' : World}

/-- What every step on the connections keeps. -/
theorem net_exec_keeps {n n' : Net} {c : NetCmd} {r : c.Resp} (h : Net.exec i c n r = some n') :
    n.events ⊆ n'.events ∧ (n.registry.killed = true → n'.registry.killed = true) ∧
      n'.registry.activeProducers = n.registry.activeProducers := by
  have hpush : ∀ (m : Net) (e : NetEvent), m.events = n.events → n.events ⊆ (m.push e).events := by
    intro m e hm
    simp [Net.push, hm]
  have hadd : ∀ d, (n.registry.add d).2.killed = n.registry.killed ∧
      (n.registry.add d).2.activeProducers = n.registry.activeProducers := by
    intro d
    unfold Registry.add
    split <;> exact ⟨rfl, rfl⟩
  cases c with
  | add d =>
    obtain ⟨-, rfl⟩ := Net.exec_add h
    exact ⟨hpush _ _ rfl, fun hk => (hadd d).1.trans hk, (hadd d).2⟩
  | remove d => cases h; exact ⟨List.Subset.refl _, id, rfl⟩
  | track d s => obtain ⟨-, rfl⟩ := Net.exec_track h; exact ⟨hpush _ _ rfl, id, rfl⟩
  | transfer d s t => obtain ⟨-, rfl⟩ := Net.exec_transfer h; exact ⟨hpush _ _ rfl, id, rfl⟩
  | isTerminal d => obtain ⟨-, rfl⟩ := Net.exec_isTerminal h; exact ⟨List.Subset.refl _, id, rfl⟩
  | beginTermination d =>
    obtain ⟨-, rfl⟩ := Net.exec_beginTermination h
    exact ⟨hpush _ _ rfl, id, rfl⟩
  | shutdown d s => obtain ⟨-, rfl⟩ := Net.exec_shutdown h; exact ⟨hpush _ _ rfl, id, rfl⟩
  | close s => cases h; exact ⟨List.Subset.refl _, id, rfl⟩
  | kill => obtain ⟨-, rfl⟩ := Net.exec_kill h; exact ⟨hpush _ _ rfl, fun _ => rfl, rfl⟩
  | answer d s ok => cases h; exact ⟨hpush _ _ rfl, id, rfl⟩
  | linearized t v => cases h; exact ⟨hpush _ _ rfl, id, rfl⟩

/-- The registered connections and the kill. -/
theorem net_exec_conns {n n' : Net} {c : NetCmd} {r : c.Resp} (hreq : NetReq i c n)
    (h : Net.exec i c n r = some n') :
    (n.registry.killed = true → n.registry.conns = [] → n'.registry.conns = []) ∧
      (n'.registry.killed = true → n.registry.killed = true ∨ c = .kill ∧ n'.registry.conns = []) ∧
      ∀ v, .killed v ∈ n'.events → .killed v ∈ n.events ∨ c = .kill ∧ n.registry.killed = false := by
  have hother : ∀ (m : Net) (e : NetEvent), m.registry = n.registry → m.events = n.events →
      (∀ v, e ≠ .killed v) →
      (n.registry.killed = true → n.registry.conns = [] → (m.push e).registry.conns = []) ∧
      ((m.push e).registry.killed = true →
        n.registry.killed = true ∨ c = .kill ∧ (m.push e).registry.conns = []) ∧
      ∀ v, .killed v ∈ (m.push e).events →
        .killed v ∈ n.events ∨ c = .kill ∧ n.registry.killed = false := by
    intro m e hr hev he
    refine ⟨fun _ hc => by simpa [Net.push, hr] using hc,
      fun hk => Or.inl (by simpa [Net.push, hr] using hk), fun v hv => Or.inl ?_⟩
    simp only [Net.push, hev, List.mem_append, List.mem_singleton] at hv
    exact hv.resolve_right fun hve => he v hve.symm
  cases c with
  | add d =>
    obtain ⟨-, rfl⟩ := Net.exec_add h
    unfold Registry.add
    split
    · rename_i hk
      exact ⟨fun _ hc => hc, fun _ => Or.inl hk, fun v hv => Or.inl (by simpa [Net.push] using hv)⟩
    · rename_i hk
      exact ⟨fun hk' => absurd hk' hk, fun hk' => Or.inl hk',
        fun v hv => Or.inl (by simpa [Net.push] using hv)⟩
  | remove d =>
    cases h
    exact ⟨fun _ hc => by simp [Registry.remove, hc], fun hk => Or.inl hk, fun v hv => Or.inl hv⟩
  | track d s => obtain ⟨-, rfl⟩ := Net.exec_track h; exact hother _ _ rfl rfl (by simp)
  | transfer d s t => obtain ⟨-, rfl⟩ := Net.exec_transfer h; exact hother _ _ rfl rfl (by simp)
  | isTerminal d =>
    obtain ⟨-, rfl⟩ := Net.exec_isTerminal h
    exact ⟨fun _ hc => hc, fun hk => Or.inl hk, fun v hv => Or.inl hv⟩
  | beginTermination d =>
    obtain ⟨-, rfl⟩ := Net.exec_beginTermination h
    exact hother _ _ rfl rfl (by simp)
  | shutdown d s => obtain ⟨-, rfl⟩ := Net.exec_shutdown h; exact hother _ _ rfl rfl (by simp)
  | close s =>
    cases h
    exact ⟨fun _ hc => hc, fun hk => Or.inl hk, fun v hv => Or.inl hv⟩
  | kill =>
    obtain ⟨-, rfl⟩ := Net.exec_kill h
    exact ⟨fun _ _ => rfl, fun _ => Or.inr ⟨rfl, rfl⟩, fun v _ => Or.inr ⟨rfl, hreq.2⟩⟩
  | answer d s ok => cases h; exact hother _ _ rfl rfl (by simp)
  | linearized t v => cases h; exact hother _ _ rfl rfl (by simp)

/-- The connections that were added are registered or in the snapshot. -/
theorem live_exec {n n' : Net} {c : NetCmd} {r : c.Resp} {live : List String}
    (h : Net.exec i c n r = some n')
    (hl : ∀ d ∈ live, d ∈ n.registry.conns ∨ ∃ v, .killed v ∈ n.events ∧ d ∈ v) :
    ∀ d ∈ World.liveAfter live c r,
      d ∈ n'.registry.conns ∨ ∃ v, .killed v ∈ n'.events ∧ d ∈ v := by
  have hkeep := (net_exec_keeps h).1
  have hsame : n'.registry.conns = n.registry.conns → ∀ d ∈ live,
      d ∈ n'.registry.conns ∨ ∃ v, .killed v ∈ n'.events ∧ d ∈ v := by
    intro hc d hd
    rcases hl d hd with h1 | ⟨v, h1, h2⟩
    · exact Or.inl (hc ▸ h1)
    · exact Or.inr ⟨v, hkeep h1, h2⟩
  cases c with
  | add d =>
    obtain ⟨rfl, rfl⟩ := Net.exec_add h
    have hconns : ∀ e ∈ n.registry.conns, e ∈ (n.registry.add d).2.conns := by
      intro e he
      unfold Registry.add
      split
      · exact he
      · dsimp only
        split
        · exact he
        · exact List.mem_append_left _ he
    have hnew : (n.registry.add d).1 = true → d ∈ (n.registry.add d).2.conns := by
      unfold Registry.add
      split
      · intro hf
        cases hf
      · intro _
        dsimp only
        split
        · assumption
        · simp
    intro e he
    have hcase : e ∈ live ∨ e = d ∧ (n.registry.add d).1 = true := by
      change e ∈ (if (n.registry.add d).1 then live ++ [d] else live) at he
      split at he
      · rename_i hok
        rcases List.mem_append.1 he with he | he
        · exact Or.inl he
        · exact Or.inr ⟨List.mem_singleton.1 he, hok⟩
      · exact Or.inl he
    rcases hcase with he | ⟨rfl, hok⟩
    · rcases hl e he with h1 | ⟨v, h1, h2⟩
      · exact Or.inl (hconns e h1)
      · exact Or.inr ⟨v, hkeep h1, h2⟩
    · exact Or.inl (hnew hok)
  | remove d =>
    cases h
    intro e he
    obtain ⟨he1, he2⟩ := List.mem_filter.1 he
    rcases hl e he1 with h1 | h1
    · exact Or.inl (List.mem_filter.2 ⟨h1, he2⟩)
    · exact Or.inr h1
  | kill =>
    obtain ⟨hr, rfl⟩ := Net.exec_kill h
    intro e he
    rcases hl e he with h1 | ⟨v, h1, h2⟩
    · exact Or.inr ⟨r, by simp [Net.push], by rw [hr]; exact h1⟩
    · exact Or.inr ⟨v, hkeep h1, h2⟩
  | track d s => obtain ⟨-, rfl⟩ := Net.exec_track h; exact hsame rfl
  | transfer d s t => obtain ⟨-, rfl⟩ := Net.exec_transfer h; exact hsame rfl
  | isTerminal d => obtain ⟨-, rfl⟩ := Net.exec_isTerminal h; exact hsame rfl
  | beginTermination d => obtain ⟨-, rfl⟩ := Net.exec_beginTermination h; exact hsame rfl
  | shutdown d s => obtain ⟨-, rfl⟩ := Net.exec_shutdown h; exact hsame rfl
  | close s => cases h; exact hsame rfl
  | answer d s ok => cases h; exact hsame rfl
  | linearized t v => cases h; exact hsame rfl

theorem inv_net (I : GatewayInv boot w) {c : NetCmd} {r : c.Resp} (hreq : GatewayReq i (.net c) w)
    {n : Net} (h : Net.exec i c w.net r = some n) :
    GatewayInv boot { w with net := n, live := World.liveAfter w.live c r } := by
  obtain ⟨hev, hkilled, hprod⟩ := net_exec_keeps h
  obtain ⟨hconns, hkill, hkills⟩ := net_exec_conns hreq.1 h
  exact { I with
    net := KillSwitch.inv_step I.net hreq.1 h
    producers := I.producers.trans hprod.symm
    killed := by
      intro hk
      rcases hkill hk with hk' | ⟨rfl, hnil⟩
      · exact ⟨(I.killed hk').1, hconns hk' (I.killed hk').2⟩
      · exact ⟨hreq.2, hnil⟩
    live := live_exec h I.live
    kills := by
      intro v v' hv hv'
      rcases hkills v hv with h1 | ⟨rfl, hno⟩
      · rcases hkills v' hv' with h2 | ⟨rfl, hno⟩
        · exact I.kills v v' h1 h2
        · have := I.net.killed_iff.2 ⟨v, h1⟩
          rw [hno] at this
          cases this
      · obtain ⟨-, rfl⟩ := Net.exec_kill h
        have hnone : ∀ u, .killed u ∉ w.net.events := by
          intro u hu
          have := I.net.killed_iff.2 ⟨u, hu⟩
          rw [hno] at this
          cases this
        have huniq : ∀ u, .killed u ∈ (Net.push { w.net with registry := w.net.registry.kill.2 }
            (.killed r)).events → u = r := by
          intro u hu
          rcases List.mem_append.1 hu with hu | hu
          · exact absurd hu (hnone u)
          · exact (NetEvent.killed.inj (List.mem_singleton.1 hu))
        rw [huniq v hv, huniq v' hv']
    requested := fun hq => by
      obtain ⟨t, v, htv⟩ := I.requested hq
      exact ⟨t, v, hev htv⟩
    closed := by
      intro x hx hok hseq
      obtain ⟨hrec, ⟨h1, h2, h3, h4, h5⟩, hs⟩ := I.closed x hx hok hseq
      exact ⟨hrec, ⟨h1, h2, h3, hkilled h4, h5⟩, hs⟩ }

/-- A change of the registry's counters. -/
theorem inv_registry (I : GatewayInv boot w) {g : Registry} {ps : List Nat}
    (hconns : g.conns = w.net.registry.conns) (hkilled : g.killed = w.net.registry.killed)
    (hlen : ps.length = g.activeProducers)
    (hnil : w.net.registry.killed = true → w.producers = [] → ps = []) :
    GatewayInv boot { w.setRegistry g with producers := ps } := by
  have hnet : NetInv { w.net with registry := g } :=
    { I.net with
      conns_nodup := by
        show g.conns.Nodup
        rw [hconns]
        exact I.net.conns_nodup
      killed_iff := by
        show g.killed = true ↔ _
        rw [hkilled]
        exact I.net.killed_iff
      enforced := fun t v h => { I.net.enforced t v h with } }
  exact { I with
    net := hnet
    producers := hlen
    killed := by
      show g.killed = true → _ ∧ g.conns = []
      rw [hkilled, hconns]
      exact I.killed
    live := by
      show ∀ c ∈ w.live, c ∈ g.conns ∨ _
      rw [hconns]
      exact I.live
    closed := by
      intro x hx hok hseq
      obtain ⟨hrec, ⟨h1, h2, h3, h4, h5⟩, hs⟩ := I.closed x hx hok hseq
      exact ⟨hrec, ⟨h1, hnil h4 h2, h3, hkilled.trans h4, h5⟩, hs⟩ }

/-- A mark in the traffic. -/
theorem inv_mark (I : GatewayInv boot w) {f : Flight} (hf : f.isMark = true)
    (hcall : ∀ j a start, f = .returned j a start false → Flight.Undone j a start w.flights) :
    GatewayInv boot { w with flights := w.flights ++ [f] } :=
  { I with
    flights := by
      show Flight.replay (w.flights ++ [f]) = _
      rw [← I.flights, Flight.replay_append]
      cases f <;> first | rfl | cases hf
    calls := by
      intro pre post j a start h
      rcases append_singleton_split h with ⟨post', h', -⟩ | ⟨rfl, he, -⟩
      · exact I.calls pre post' j a start h'
      · exact hcall j a start he.symm }

end Connections

/-! ## All steps -/

section All

variable {boot : List Line} {i : Nat} {w w' : World}

theorem authorize_event {a : String} {e : Nat} {ev : Lifecycle.Event} {run : RunState}
    (hs : Lifecycle.step w.run (.authorize a e) = some (ev, run)) :
    ev.newPermits = [] ∧
      ev.newAttempts = if (w.run.ctx.authorize a e).1.isSome then [a] else [] := by
  simp only [Lifecycle.step] at hs
  split at hs
  · rename_i s ctx heq
    cases hs
    simp [heq, Lifecycle.Event.newPermits, Lifecycle.Event.newAttempts]
  · rename_i ctx heq
    cases hs
    simp [heq, Lifecycle.Event.newPermits, Lifecycle.Event.newAttempts]

theorem issuePermit_event {a gen bud : String} {e : Nat} {term : Bool} {ev : Lifecycle.Event}
    {run : RunState} (hs : Lifecycle.step w.run (.issuePermit a e term gen bud) = some (ev, run)) :
    ev.newAttempts = [] ∧ ev.newPermits = (w.run.issuePermit a e term gen bud).1.toList ∧
      ∀ p ∈ ev.newPermits, p.attemptId = a := by
  have heff := Lifecycle.step_effect hs
  simp only [Lifecycle.step] at hs
  split at hs
  · rename_i p st heq
    cases hs
    obtain ⟨-, -, -, hop⟩ := heff.issued_attempt rfl
    cases hop
    simp [heq, Lifecycle.Event.newPermits, Lifecycle.Event.newAttempts]
  · rename_i st heq
    cases hs
    simp [heq, Lifecycle.Event.newPermits, Lifecycle.Event.newAttempts]

/-- The operations on a permit object and the cancellation announce nothing new. -/
theorem quiet_event {op : Lifecycle.Op} {ev : Lifecycle.Event} {run : RunState}
    (hop : op.ref?.isSome = true ∨ ∃ now, op = .cancel now)
    (hs : Lifecycle.step w.run op = some (ev, run)) : ev.newAttempts = [] ∧ ev.newPermits = [] := by
  cases Lifecycle.step_effect hs with
  | authorized a e => rcases hop with hop | ⟨now, hop⟩ <;> cases hop
  | permitted p => rcases hop with hop | ⟨now, hop⟩ <;> cases hop
  | released op ref c d =>
    cases (w.run.ctx.release c.permit.attemptId).1 <;> exact ⟨rfl, rfl⟩
  | _ => exact ⟨rfl, rfl⟩

/-- **Every step keeps the invariant.** -/
theorem inv_exec {c : Cmd} {r : c.Resp} (I : GatewayInv boot w) (hreq : GatewayReq i c w)
    (h : World.exec i c w r = some w') : GatewayInv boot w' := by
  cases c with
  | env q => cases h; exact { I with }
  | net c =>
    obtain ⟨n, hn, rfl⟩ := exec_net h
    exact inv_net I hreq hn
  | checkTerminal c => obtain ⟨-, rfl⟩ := Net.give_eq_some.1 h; exact { I with }
  | acquireSlot =>
    obtain ⟨-, rfl⟩ := Net.give_eq_some.1 h
    have hg : w.net.registry.acquire.2.conns = w.net.registry.conns ∧
        w.net.registry.acquire.2.killed = w.net.registry.killed ∧
        w.net.registry.acquire.2.activeProducers = w.net.registry.activeProducers := by
      unfold Registry.acquire
      split <;> exact ⟨rfl, rfl, rfl⟩
    exact inv_registry I hg.1 hg.2.1 (I.producers.trans hg.2.2.symm) fun _ hp => hp
  | releaseSlot =>
    cases h
    have hg : (w.net.registry.release w.maxConnections).conns = w.net.registry.conns ∧
        (w.net.registry.release w.maxConnections).killed = w.net.registry.killed ∧
        (w.net.registry.release w.maxConnections).activeProducers =
          w.net.registry.activeProducers := by
      unfold Registry.release
      split <;> exact ⟨rfl, rfl, rfl⟩
    exact inv_registry I hg.1 hg.2.1 (I.producers.trans hg.2.2.symm) fun _ hp => hp
  | beginProducer =>
    obtain ⟨rfl, rfl⟩ := Net.give_eq_some.1 h
    unfold Registry.beginProducer
    split
    · exact inv_registry I rfl rfl I.producers fun _ hp => hp
    · rename_i hk
      rw [not_or] at hk
      exact inv_registry I rfl rfl (by simp [I.producers]) fun hk' => absurd hk' hk.1
  | endProducer =>
    obtain ⟨rfl, rfl⟩ := Net.give_eq_some.1 h
    have hpos : 0 < w.net.registry.activeProducers := by
      rw [← I.producers]
      exact List.length_pos_of_mem hreq
    have hend : w.net.registry.endProducer =
        (true, { w.net.registry with activeProducers := w.net.registry.activeProducers - 1 }) := by
      unfold Registry.endProducer
      rw [if_neg (by omega)]
    rw [hend]
    refine inv_registry I rfl rfl ?_ fun _ hp => by simp [hp]
    rw [List.length_erase_of_mem hreq, I.producers]
  | newConnId =>
    simp only [World.exec] at h
    split at h
    · cases h
    · rename_i hnew
      cases h
      refine { I with conns := ?_ }
      rw [List.map_append, List.nodup_append]
      refine ⟨I.conns, List.nodup_singleton _, fun x hx y hy hxy => ?_⟩
      have hy' : y = r := List.mem_singleton.1 hy
      rw [hxy, hy'] at hx
      exact hnew hx
  | newAttemptId => cases h; exact I
  | epoch => obtain ⟨-, rfl⟩ := Net.give_eq_some.1 h; exact I
  | runId => obtain ⟨-, rfl⟩ := Net.give_eq_some.1 h; exact I
  | healthy => obtain ⟨-, rfl⟩ := Net.give_eq_some.1 h; exact I
  | addSecret s =>
    cases h
    unfold AuditLog.addSecret
    split
    · exact I
    · refine { I with persisted := fun x hx => ?_ }
      obtain ⟨log, o, hrec, horder⟩ := I.persisted x hx
      exact ⟨log, o, hrec, fun t ht => List.mem_append_left _ (horder t ht)⟩
  | authorize a e =>
    obtain ⟨ev, run, hs, rfl, rfl⟩ := exec_authorize h
    obtain ⟨hp, ha⟩ := authorize_event hs
    refine inv_advance I hs ?_ (show w.holders = _ by simp [hp]) (by simp [hp])
    rw [ha]
    split <;> simp
  | permitCalled a =>
    obtain ⟨-, rfl⟩ := Net.give_eq_some.1 h
    exact inv_mark I rfl (by simp)
  | permitReturned a start granted =>
    cases h
    refine inv_mark I rfl ?_
    rintro j b s ⟨⟩
    exact hreq
  | issuePermit a e c gen bud =>
    obtain ⟨ev, run, hs, rfl, rfl⟩ := exec_issuePermit h
    obtain ⟨ha, hp, hpa⟩ := issuePermit_event hs
    refine inv_advance I hs (show w.attempts = _ by simp [ha]) ?_ fun p hp' => ?_
    · rw [hp]
      cases (w.run.issuePermit a e (w.net.lifecycles c).terminal gen bud).1 <;> simp
    · rw [hpa p hp']
      exact hreq
  | bindDurableRelease ref c =>
    obtain ⟨ev, run, st, hs, -, rfl⟩ := exec_bindDurableRelease h
    obtain ⟨ha, hp⟩ := quiet_event (Or.inl rfl) hs
    exact inv_advance_quiet I hs ha hp
  | abandonUndurable ref =>
    obtain ⟨ev, run, hs, rfl⟩ := exec_abandonUndurable h
    obtain ⟨ha, hp⟩ := quiet_event (Or.inl rfl) hs
    exact inv_advance_quiet I hs ha hp
  | releaseEnter ref =>
    obtain ⟨ev, run, st, hs, -, rfl⟩ := exec_releaseEnter h
    obtain ⟨ha, hp⟩ := quiet_event (Or.inl rfl) hs
    exact inv_advance_quiet I hs ha hp
  | releaseExit ref ok =>
    obtain ⟨ev, run, hs, rfl⟩ := exec_releaseExit h
    obtain ⟨ha, hp⟩ := quiet_event (Or.inl rfl) hs
    exact inv_advance_quiet I hs ha hp
  | write e =>
    obtain ⟨audit, ha, rfl⟩ := exec_write h
    exact inv_write I hreq.1 hreq.2 ha
  | sealWith e =>
    obtain ⟨audit, ha, rfl⟩ := exec_sealWith h
    obtain ⟨rfl, hout, hq, t, pre, k, a, hlog, rfl, hev, hcan⟩ := hreq
    exact inv_seal I hlog hev hcan hq hout ha
  | connect a c pin => cases h; exact I
  | cancel =>
    obtain ⟨ev, run, hs, -, rfl⟩ := exec_cancel h
    obtain ⟨ha, hp⟩ := quiet_event (Or.inr ⟨_, rfl⟩) hs
    exact inv_advance_quiet I hs ha hp
  | inflightCount => obtain ⟨-, rfl⟩ := Net.give_eq_some.1 h; exact I
  | producerCount => obtain ⟨-, rfl⟩ := Net.give_eq_some.1 h; exact I
  | waitForDrain => obtain ⟨-, rfl⟩ := Net.give_eq_some.1 h; exact I
  | waitForProducerDrain => obtain ⟨-, rfl⟩ := Net.give_eq_some.1 h; exact I
  | stopListener =>
    simp only [World.exec] at h
    split at h
    · split at h
      · cases h
      · cases h
        exact I
    · cases h
      exact I
  | waitListener => obtain ⟨-, rfl⟩ := Net.give_eq_some.1 h; exact I
  | endServing =>
    cases h
    exact { I with
      listener := fun _ => rfl
      closed := by
        intro x hx hok hseq
        obtain ⟨hrec, ⟨h1, h2, h3, h4, h5⟩, hs⟩ := I.closed x hx hok hseq
        exact ⟨hrec, ⟨h1, h2, rfl, h4, h5⟩, hs⟩ }
  | setListenerClosed =>
    cases h
    exact { I with listener := fun _ => hreq }
  | quiesced b =>
    cases h
    refine { I with outcome := ?_ }
    rintro b' ⟨⟩
    exact hreq.2

end All

end StrixPEP
