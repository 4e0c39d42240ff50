import StrixPEP.Gateway.Steps

/-!
# What a step of another thread changes

`evolves_exec` — a step of thread `j` is within what any other thread expects (`Evolves`), and so
is an inert step of thread `i` itself: requests to the environment, work on its sockets, records
without an attempt.  `gatewayProtocol` is the protocol of the gateway's threads.
-/

namespace StrixPEP

open Threads KillSwitch

/-- The steps that change nothing a handler's own assertions are about. -/
def Inert : Cmd → Prop
  | .env _ => True
  | .net c =>
    match c with
    | .track _ _ | .transfer _ _ _ | .isTerminal _ | .beginTermination _ | .shutdown _ _
    | .close _ => True
    | _ => False
  | .write (.blocked rest) => (Entry.blocked rest).Regular
  | .acquireSlot | .releaseSlot | .newAttemptId | .epoch | .runId | .healthy | .addSecret _ => True
  | _ => False

section Owners

variable {boot : List Line} {w : World}

theorem mem_unique {l : List (String × Nat)} (hnd : (l.map Prod.fst).Nodup) {a : String} {i j : Nat}
    (hi : (a, i) ∈ l) (hj : (a, j) ∈ l) : i = j :=
  (Prod.mk.inj (List.inj_on_of_nodup_map hnd hi hj rfl)).2

theorem GatewayInv.attempts_nodup (I : GatewayInv boot w) : (w.attempts.map Prod.fst).Nodup := by
  rw [I.attempts]
  have h := I.lifecycle.auths_nodup
  rw [← I.lifecycle.auths_eq, List.map_map] at h
  exact h

theorem GatewayInv.owner (I : GatewayInv boot w) {a : String} {i j : Nat}
    (hi : (a, i) ∈ w.attempts) (hj : (a, j) ∈ w.attempts) : i = j :=
  mem_unique I.attempts_nodup hi hj

/-- The attempt of a permit object belongs to its holder. -/
theorem GatewayInv.holder_attempt (I : GatewayInv boot w) {ref j : Nat} {c : PermitCell}
    (hc : w.run.cells[ref]? = some c) (hj : w.holders[ref]? = some j) :
    (c.permit.attemptId, j) ∈ w.attempts := by
  have hp : w.history.permits[ref]? = some c.permit := by
    rw [← I.lifecycle.cells_eq, List.getElem?_map, hc]
    rfl
  obtain ⟨h1, h1'⟩ := List.getElem?_eq_some_iff.1 hp
  obtain ⟨h2, h2'⟩ := List.getElem?_eq_some_iff.1 hj
  have := (List.forall₂_iff_get.1 I.holders).2 ref h1 h2
  simpa [h1', h2'] using this

end Owners

section Interference

variable {boot : List Line} {i j : Nat} {w w' : World}

/-- A step of the permit authority by thread `j`. -/
theorem evolves_advance (I : GatewayInv boot w) {op : Lifecycle.Op} {ev : Lifecycle.Event}
    {run : RunState} (hs : Lifecycle.step w.run op = some (ev, run)) (hij : i ≠ j)
    {attempts : List (String × Nat)} {holders : List Nat}
    (hatt : attempts = w.attempts ++ ev.newAttempts.map fun a => (a, j))
    (hhold : w.holders <+: holders)
    (href : ∀ ref, op.ref? = some ref → w.holders[ref]? = some j)
    (hown : ∀ p ∈ ev.newPermits, (p.attemptId, j) ∈ w.attempts)
    (hcancel : (∃ now, op = .cancel now) → j = 0) :
    Evolves i w { w.advanced j ev run with attempts := attempts, holders := holders } := by
  have he := Lifecycle.step_effect hs
  have hcan : w.run.ctx.cancelled = true → run.ctx.cancelled = true ∧
      run.ctx.inflight.Sublist w.run.ctx.inflight := fun hc => Lifecycle.step_cancelled hc hs
  exact { Evolves.refl i w with
    attempts := by
      intro a
      show (a, i) ∈ attempts ↔ _
      rw [hatt, List.mem_append]
      refine ⟨fun h => h.resolve_right fun h => ?_, Or.inl⟩
      obtain ⟨b, -, hb⟩ := List.mem_map.1 h
      exact hij (Prod.mk.inj hb).2.symm
    permits := by
      show w.history.permits ⊆ (w.history.push ev).permits
      rw [Lifecycle.History.push_permits]
      exact List.subset_append_left _ _
    cells := by
      intro ref c hh hc
      refine ⟨?_, he.cells_other hc fun hop => ?_⟩
      · obtain ⟨more, rfl⟩ := hhold
        obtain ⟨hlt, -⟩ := List.getElem?_eq_some_iff.1 hh
        show (w.holders ++ more)[ref]? = some i
        rw [List.getElem?_append_left hlt]
        exact hh
      · have := href ref hop
        rw [hh] at this
        exact hij (Option.some.inj this)
    flights := by
      refine ⟨Flight.ofEvent j ev, rfl, fun f hf => ?_⟩
      cases hev : ev with
      | permitted p =>
        rw [hev] at hf
        cases List.mem_singleton.1 hf
        refine ⟨fun h => hij h.symm, fun a ha hfa => ?_⟩
        cases hfa
        exact hij (I.owner ha (hown p (by simp [hev, Lifecycle.Event.newPermits])))
      | released t =>
        rw [hev] at hf
        cases List.mem_singleton.1 hf
        refine ⟨fun h => hij h.symm, fun a ha hfa => ?_⟩
        cases hfa
        obtain ⟨ref, c, hop, hc, hta⟩ := he.released_attempt hev
        rw [hta] at ha
        exact hij (I.owner ha (I.holder_attempt hc (href ref hop)))
      | _ =>
        rw [hev] at hf
        cases hf
    cancelled := fun hc => (hcan hc).1
    canceller := by
      rintro rfl
      exact { CancellerRely.refl w with
        cancellation := by
          rcases he.cancellation with hc | hc
          · exact hc
          · exact absurd (hcancel hc).symm hij
        inflight := fun hc => (hcan hc).2 } }

/-- A step on one permit object, or the cancellation. -/
theorem evolves_advance_quiet (I : GatewayInv boot w) {op : Lifecycle.Op} {ev : Lifecycle.Event}
    {run : RunState} (hs : Lifecycle.step w.run op = some (ev, run)) (hij : i ≠ j)
    (hop : op.ref?.isSome = true ∨ ∃ now, op = .cancel now)
    (href : ∀ ref, op.ref? = some ref → w.holders[ref]? = some j)
    (hcancel : (∃ now, op = .cancel now) → j = 0) : Evolves i w (w.advanced j ev run) := by
  obtain ⟨ha, hp⟩ := quiet_event hop hs
  exact evolves_advance I hs hij (show w.attempts = _ by simp [ha]) (List.prefix_refl w.holders)
    href (by simp [hp]) hcancel

theorem entriesOf_record {e : Entry} {o : Outcome} {audit : AuditLog} {a : String}
    (h : e.attempt? ≠ some a ∨ o.ok = false) :
    (w.record j e o audit).entriesOf a = w.entriesOf a := by
  unfold World.entriesOf World.record
  dsimp only
  split
  · rcases h with h | h <;> simp [List.filter_append, h]
  · rfl

theorem requested_record {e : Entry} {o : Outcome} {audit : AuditLog}
    (h : (w.record j e o audit).Requested) :
    w.Requested ∨ e.isRequested = true ∧ AuditLog.appends o = true := by
  obtain ⟨x, hx, hxr⟩ := h
  unfold World.record at hx
  dsimp only at hx
  split at hx
  · rename_i ha
    rcases List.mem_append.1 hx with hx | hx
    · exact Or.inl ⟨x, hx, hxr⟩
    · cases List.mem_singleton.1 hx
      exact Or.inr ⟨hxr, ha⟩
  · exact Or.inl ⟨x, hx, hxr⟩

/-- A write of thread `j`. -/
theorem evolves_record (I : GatewayInv boot w) {e : Entry} {o : Outcome} {audit : AuditLog}
    (hatt : ∀ a, e.attempt? = some a → (a, j) ∈ w.attempts)
    (hij : i ≠ j ∨ (e.attempt? = none ∧ e.isAttempted = false ∧ i ≠ 0))
    (hcan : e.byCanceller = true → j = 0) (hprod : e.byCanceller = false → j ∈ w.producers) :
    Evolves i w (w.record j e o audit) := by
  exact { Evolves.refl i w with
    log := by
      unfold World.record
      dsimp only
      split
      · exact List.prefix_append _ _
      · exact List.prefix_refl _
    mine := by
      intro a ha
      refine entriesOf_record (Or.inl fun hea => ?_)
      rcases hij with hij | ⟨hnone, -⟩
      · exact hij (I.owner ha (hatt a hea))
      · rw [hnone] at hea
        cases hea
    poised := by
      intro hp
      refine ⟨?_, fun hno => ?_⟩
      · show i ∈ (if e.isAttempted then w.poised.filter (· ≠ j) else w.poised)
        split
        · rename_i ha
          rcases hij with hij | ⟨-, hna, -⟩
          · exact List.mem_filter.2 ⟨hp, by simpa using hij⟩
          · rw [ha] at hna
            cases hna
        · exact hp
      · by_cases hr : (w.record j e o audit).Requested
        · rcases requested_record hr with h | ⟨h1, h2⟩
          · exact absurd h hno
          · left
            have hne : w.poised.isEmpty = false := by
              rw [Bool.eq_false_iff]
              intro h
              rw [List.isEmpty_iff.1 h] at hp
              cases hp
            simp [World.record, h1, h2, hne]
        · exact Or.inr hr
    raced := fun hr => by simp [World.record, hr]
    lost := fun hl => by simp [World.record, hl]
    canceller := by
      rintro rfl
      have hj : j ≠ 0 := by
        rcases hij with hij | ⟨-, -, h⟩
        · exact fun h => hij h.symm
        · exact absurd rfl h
      have hby : e.byCanceller = false := by
        cases hb : e.byCanceller with
        | false => rfl
        | true => exact absurd (hcan hb) hj
      exact { CancellerRely.refl w with
        records := by
          unfold World.cancelRecords World.record
          dsimp only
          split <;> simp [hby]
        quiet := fun _ hnil => by
          have := hprod hby
          rw [hnil] at this
          cases this } }

/-- A change of the registry's counters by thread `j`. -/
theorem evolves_registry {g : Registry} {ps : List Nat}
    (hkilled : g.killed = w.net.registry.killed) (hmine : i ∈ w.producers → i ∈ ps)
    (hshrink : i = 0 → w.net.registry.killed = true → ps ⊆ w.producers) :
    Evolves i w { w.setRegistry g with producers := ps } :=
  { Evolves.refl i w with
    producer := hmine
    canceller := fun hi =>
      { CancellerRely.refl w with
        net := { NetRely.refl 0 w.net with killed := fun _ => hkilled }
        producers := hshrink hi } }

theorem mem_liveAfter {c : NetCmd} {r : c.Resp} {live : List String} {d : String} (hd : d ∈ live)
    (hr : c ≠ .remove d) : d ∈ World.liveAfter live c r := by
  cases c with
  | add e =>
    change d ∈ (if @id Bool r then live ++ [e] else live)
    split
    · exact List.mem_append_left _ hd
    · exact hd
  | remove e =>
    refine List.mem_filter.2 ⟨hd, ?_⟩
    have : d ≠ e := fun h => hr (by rw [h])
    simpa using this
  | _ => exact hd

/-- A step on the connections by thread `j`. -/
theorem evolves_net (I : GatewayInv boot w) {c : NetCmd} {r : c.Resp} {n : Net}
    (hreq : GatewayReq j (.net c) w) (h : Net.exec j c w.net r = some n)
    (hij : i ≠ j ∨ (Inert (.net c) ∧ i ≠ 0)) :
    Evolves i w { w with net := n, live := World.liveAfter w.live c r } :=
  { Evolves.refl i w with
    conns := by
      intro d hd
      refine ⟨hd, fun hl => mem_liveAfter hl ?_⟩
      rintro rfl
      rcases hij with hij | ⟨hin, -⟩
      · exact hij (mem_unique I.conns hd hreq.2.1)
      · exact hin
    canceller := by
      rintro rfl
      have hj : 0 ≠ j := by
        rcases hij with hij | ⟨-, hi⟩
        · exact hij
        · exact absurd rfl hi
      exact { CancellerRely.refl w with net := KillSwitch.rely_step hreq.1 h hj } }

/-- **Interference.** -/
theorem evolves_exec {c : Cmd} {r : c.Resp} (I : GatewayInv boot w) (hreq : GatewayReq j c w)
    (h : World.exec j c w r = some w') (hij : i ≠ j ∨ (Inert c ∧ i ≠ 0)) : Evolves i w w' := by
  cases c with
  | env q =>
    cases h
    exact { Evolves.refl i w with
      unguarded := fun hu => by simp [hu]
      canceller := fun _ => { CancellerRely.refl w with } }
  | net c =>
    obtain ⟨n, hn, rfl⟩ := exec_net h
    exact evolves_net I hreq hn hij
  | checkTerminal c =>
    obtain ⟨-, rfl⟩ := Net.give_eq_some.1 h
    exact { Evolves.refl i w with
      poised := fun hp => by
        refine ⟨?_, Or.inr⟩
        show i ∈ (if @id Bool r then w.poised else j :: w.poised)
        split
        · exact hp
        · exact List.mem_cons_of_mem _ hp
      canceller := fun _ => { CancellerRely.refl w with } }
  | acquireSlot =>
    obtain ⟨-, rfl⟩ := Net.give_eq_some.1 h
    have hk : w.net.registry.acquire.2.killed = w.net.registry.killed := by
      unfold Registry.acquire
      split <;> rfl
    exact evolves_registry hk (fun h => h) fun _ _ => List.Subset.refl w.producers
  | releaseSlot =>
    cases h
    have hk : (w.net.registry.release w.maxConnections).killed = w.net.registry.killed := by
      unfold Registry.release
      split <;> rfl
    exact evolves_registry hk (fun h => h) fun _ _ => List.Subset.refl w.producers
  | beginProducer =>
    obtain ⟨rfl, rfl⟩ := Net.give_eq_some.1 h
    unfold Registry.beginProducer
    split
    · exact evolves_registry rfl id fun _ _ => List.Subset.refl _
    · rename_i hk
      rw [not_or] at hk
      exact evolves_registry rfl (List.mem_cons_of_mem _) fun _ hk' => absurd hk' hk.1
  | endProducer =>
    obtain ⟨rfl, rfl⟩ := Net.give_eq_some.1 h
    have hne : i ≠ j := hij.resolve_right fun h => h.1
    refine evolves_registry ?_ (fun hp => (List.mem_erase_of_ne hne).2 hp) fun _ _ =>
      List.erase_subset
    unfold Registry.endProducer
    split <;> rfl
  | newConnId =>
    simp only [World.exec] at h
    split at h
    · cases h
    · cases h
      exact { Evolves.refl i w with
        conns := fun c hc => ⟨List.mem_append_left _ hc, id⟩
        canceller := fun _ => { CancellerRely.refl w with } }
  | newAttemptId => cases h; exact Evolves.refl i w
  | epoch => obtain ⟨-, rfl⟩ := Net.give_eq_some.1 h; exact Evolves.refl i w
  | runId => obtain ⟨-, rfl⟩ := Net.give_eq_some.1 h; exact Evolves.refl i w
  | healthy => obtain ⟨-, rfl⟩ := Net.give_eq_some.1 h; exact Evolves.refl i w
  | addSecret s =>
    cases h
    exact { Evolves.refl i w with canceller := fun _ => { CancellerRely.refl w with } }
  | authorize a e =>
    have hne : i ≠ j := hij.resolve_right fun h => h.1
    obtain ⟨ev, run, hs, rfl, rfl⟩ := exec_authorize h
    obtain ⟨hp, ha⟩ := authorize_event hs
    refine evolves_advance I hs hne ?_ (List.prefix_refl w.holders) (by simp [Lifecycle.Op.ref?])
      (by simp [hp]) (by simp)
    rw [ha]
    split <;> simp
  | permitCalled a =>
    have hne : i ≠ j := hij.resolve_right fun h => h.1
    obtain ⟨-, rfl⟩ := Net.give_eq_some.1 h
    exact { Evolves.refl i w with
      flights := ⟨[.called j a], rfl, fun f hf => by
        cases List.mem_singleton.1 hf
        exact ⟨fun h => hne h.symm, fun _ _ h => by cases h⟩⟩
      canceller := fun _ => { CancellerRely.refl w with } }
  | permitReturned a start granted =>
    have hne : i ≠ j := hij.resolve_right fun h => h.1
    cases h
    exact { Evolves.refl i w with
      flights := ⟨[.returned j a start granted], rfl, fun f hf => by
        cases List.mem_singleton.1 hf
        exact ⟨fun h => hne h.symm, fun _ _ h => by cases h⟩⟩
      canceller := fun _ => { CancellerRely.refl w with } }
  | issuePermit a e c gen bud =>
    have hne : i ≠ j := hij.resolve_right fun h => h.1
    obtain ⟨ev, run, hs, rfl, rfl⟩ := exec_issuePermit h
    obtain ⟨ha, hp, hpa⟩ := issuePermit_event hs
    refine evolves_advance I hs hne (show w.attempts = _ by simp [ha]) ?_
      (by simp [Lifecycle.Op.ref?]) (fun p hp' => ?_) (by simp)
    · split
      · exact List.prefix_append _ _
      · exact List.prefix_refl _
    · rw [hpa p hp']
      exact hreq
  | bindDurableRelease ref c =>
    have hne : i ≠ j := hij.resolve_right fun h => h.1
    obtain ⟨ev, run, st, hs, -, rfl⟩ := exec_bindDurableRelease h
    refine evolves_advance_quiet I hs hne (Or.inl rfl) ?_ (by simp)
    rintro ref' ⟨⟩
    exact hreq
  | abandonUndurable ref =>
    have hne : i ≠ j := hij.resolve_right fun h => h.1
    obtain ⟨ev, run, hs, rfl⟩ := exec_abandonUndurable h
    refine evolves_advance_quiet I hs hne (Or.inl rfl) ?_ (by simp)
    rintro ref' ⟨⟩
    exact hreq
  | releaseEnter ref =>
    have hne : i ≠ j := hij.resolve_right fun h => h.1
    obtain ⟨ev, run, st, hs, -, rfl⟩ := exec_releaseEnter h
    refine evolves_advance_quiet I hs hne (Or.inl rfl) ?_ (by simp)
    rintro ref' ⟨⟩
    exact hreq
  | releaseExit ref ok =>
    have hne : i ≠ j := hij.resolve_right fun h => h.1
    obtain ⟨ev, run, hs, rfl⟩ := exec_releaseExit h
    refine evolves_advance_quiet I hs hne (Or.inl rfl) ?_ (by simp)
    rintro ref' ⟨⟩
    exact hreq
  | write e =>
    obtain ⟨audit, -, rfl⟩ := exec_write h
    obtain ⟨⟨-, hprod, hcan, hatt, -⟩, -⟩ := hreq
    refine evolves_record I hatt ?_ hcan hprod
    rcases hij with hij | ⟨hin, hi⟩
    · exact Or.inl hij
    · cases e with
      | blocked rest => exact Or.inr ⟨rfl, rfl, hi⟩
      | _ => exact absurd hin id
  | sealWith e =>
    have hne : i ≠ j := hij.resolve_right fun h => h.1
    obtain ⟨audit, -, rfl⟩ := exec_sealWith h
    obtain ⟨rfl, -, -, t, pre, k, a, -, rfl, -⟩ := hreq
    exact evolves_record I (by simp [Entry.attempt?]) (Or.inl hne) (fun _ => rfl)
      (by simp [Entry.byCanceller])
  | connect a c pin => cases h; exact Evolves.refl i w
  | cancel =>
    have hne : i ≠ j := hij.resolve_right fun h => h.1
    obtain ⟨ev, run, hs, -, rfl⟩ := exec_cancel h
    exact evolves_advance_quiet I hs hne (Or.inr ⟨_, rfl⟩) (by simp [Lifecycle.Op.ref?])
      fun _ => hreq
  | inflightCount => obtain ⟨-, rfl⟩ := Net.give_eq_some.1 h; exact Evolves.refl i w
  | producerCount => obtain ⟨-, rfl⟩ := Net.give_eq_some.1 h; exact Evolves.refl i w
  | waitForDrain => obtain ⟨-, rfl⟩ := Net.give_eq_some.1 h; exact Evolves.refl i w
  | waitForProducerDrain => obtain ⟨-, rfl⟩ := Net.give_eq_some.1 h; exact Evolves.refl i w
  | stopListener =>
    simp only [World.exec] at h
    split at h
    · split at h
      · cases h
      · cases h
        exact Evolves.refl i w
    · cases h
      exact Evolves.refl i w
  | waitListener => obtain ⟨-, rfl⟩ := Net.give_eq_some.1 h; exact Evolves.refl i w
  | endServing =>
    cases h
    exact { Evolves.refl i w with
      serving := fun _ => rfl
      canceller := fun _ => { CancellerRely.refl w with } }
  | setListenerClosed =>
    cases h
    exact { Evolves.refl i w with canceller := fun _ => { CancellerRely.refl w with } }
  | quiesced b =>
    have hne : i ≠ j := hij.resolve_right fun h => h.1
    cases h
    obtain ⟨rfl, -⟩ := hreq
    exact { Evolves.refl i w with canceller := fun hi => absurd hi hne }

end Interference

/-- The protocol of the gateway's threads, on a file that held `boot`. -/
def gatewayProtocol (boot : List Line) : Protocol gatewayMachine where
  inv := GatewayInv boot
  req := GatewayReq
  rely := Evolves
  rely_refl := Evolves.refl
  rely_trans := Evolves.trans
  step_inv := inv_exec
  step_rely I hreq h hij := evolves_exec I hreq h (Or.inl hij)

end StrixPEP
