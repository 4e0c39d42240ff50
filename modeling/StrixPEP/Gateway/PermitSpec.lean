import StrixPEP.Gateway.HandlerState

/-!
# Specifications of `EffectGate` and `EffectPermit`

* `wp_commitIntent` — `commit_intent` either leaves the handler without an attempt or with exactly
  the intent on record;
* `wp_acquirePermit` — `acquire_permit` either leaves the attempt and the in-flight map as they
  were (`Flight.Undone`) or hands out a permit that is on record and bound to the connection;
* `wp_release` — after `release` the attempt is dealt with.
-/

namespace StrixPEP

open Threads KillSwitch GProg

/-! ## The traffic of one call -/

namespace Flight

/-- Traffic of other attempts keeps the entries of this one. -/
theorem mem_foldl_fly {a : String} {p : EffectPermit} {seg : List Flight}
    (h : ∀ f ∈ seg, f.attempt? ≠ some a) {l : List (String × EffectPermit)} (hm : (a, p) ∈ l) :
    (a, p) ∈ seg.foldl fly l := by
  induction seg generalizing l with
  | nil => exact hm
  | cons f seg ih =>
    rw [List.foldl_cons]
    refine ih (fun g hg => h g (List.mem_cons_of_mem _ hg)) ?_
    have hf := h f List.mem_cons_self
    cases f with
    | issued i q => exact List.mem_append_left _ hm
    | popped i b =>
      refine List.mem_filter.2 ⟨hm, ?_⟩
      have hne : b ≠ a := by simpa [attempt?] using hf
      simpa using hne.symm
    | called i b => exact hm
    | returned i b s g => exact hm

/-- A permit that is issued and taken back among foreign traffic leaves no trace. -/
theorem foldl_issue_pop {i : Nat} {a : String} {p : EffectPermit} (hp : p.attemptId = a)
    {seg : List Flight} (hmine : seg.filter (fun f => decide (f.tid = i)) = [.issued i p, .popped i a])
    (hother : ∀ f ∈ seg, f.tid ≠ i → f.attempt? ≠ some a) {l : List (String × EffectPermit)}
    (hl : ∀ e ∈ l, e.1 ≠ a) :
    seg.foldl fly l = (seg.filter fun f => decide (f.tid ≠ i)).foldl fly l := by
  obtain ⟨s₁, s₂, rfl, h₁, -, hrest⟩ := List.filter_eq_cons_iff.1 hmine
  obtain ⟨t₁, t₂, rfl, h₂, -, hnil⟩ := List.filter_eq_cons_iff.1 hrest
  rw [List.filter_eq_nil_iff] at hnil
  have hs₁ : ∀ f ∈ s₁, f.tid ≠ i := fun f hf => by simpa using h₁ f hf
  have ht₁ : ∀ f ∈ t₁, f.tid ≠ i := fun f hf => by simpa using h₂ f hf
  have ht₂ : ∀ f ∈ t₂, f.tid ≠ i := fun f hf => by simpa using hnil f hf
  have hkeep : ∀ s : List Flight, (∀ f ∈ s, f.tid ≠ i) →
      s.filter (fun f => decide (f.tid ≠ i)) = s := fun s hs =>
    List.filter_eq_self.2 fun f hf => decide_eq_true (hs f hf)
  have hl' : l.filter (fun e => e.1 ≠ a) = l := List.filter_eq_self.2 fun e he => by
    simpa using hl e he
  have hseg : (s₁ ++ .issued i p :: (t₁ ++ .popped i a :: t₂)).filter (fun f => decide (f.tid ≠ i)) =
      s₁ ++ (t₁ ++ t₂) := by
    simp only [List.filter_append, List.filter_cons, hkeep s₁ hs₁, hkeep t₁ ht₁, hkeep t₂ ht₂]
    simp [tid]
  have hs₁a : ∀ f ∈ s₁, f.attempt? ≠ some a := fun f hf =>
    hother f (List.mem_append_left _ hf) (hs₁ f hf)
  have ht₁a : ∀ f ∈ t₁, f.attempt? ≠ some a := fun f hf =>
    hother f (by simp [hf]) (ht₁ f hf)
  have hpop : (t₁.foldl fly (fly (s₁.foldl fly l) (.issued i p))).filter (fun e => e.1 ≠ a) =
      t₁.foldl fly (s₁.foldl fly l) := by
    rw [foldl_fly_filter ht₁a]
    congr 1
    show (s₁.foldl fly l ++ [(p.attemptId, p)]).filter _ = _
    rw [List.filter_append, foldl_fly_filter hs₁a, hl']
    simp [hp]
  rw [hseg]
  simp only [List.foldl_append, List.foldl_cons]
  show t₂.foldl fly ((t₁.foldl fly (fly (s₁.foldl fly l) (.issued i p))).filter fun e => e.1 ≠ a) = _
  rw [hpop]

end Flight

/-- Inside a call of `acquire_permit` that began after `start` entries, with the handler's own
traffic `mine`. -/
def InCall (i : Nat) (a : String) (start : Nat) (mine : List Flight) (w : World) : Prop :=
  ∃ before seg, w.flights = before ++ .called i a :: seg ∧ before.length = start ∧
    seg.filter (fun f => decide (f.tid = i)) = mine ∧
    (∀ f ∈ seg, f.tid ≠ i → f.attempt? ≠ some a) ∧
    (mine = [] ∨ ∀ e ∈ Flight.replay before, e.1 ≠ a)

section Call

variable {i : Nat} {a : String} {start : Nat} {mine : List Flight} {w w' : World}

theorem InCall.rely (h : InCall i a start mine w) (ha : (a, i) ∈ w.attempts)
    (hr : Evolves i w w') : InCall i a start mine w' := by
  obtain ⟨before, seg, hf, hlen, hmine, hother, hno⟩ := h
  obtain ⟨seg', hf', hseg'⟩ := hr.flights
  refine ⟨before, seg ++ seg', by rw [hf', hf]; simp, hlen, ?_, fun f hfm hfi => ?_, hno⟩
  · have hnil : seg'.filter (fun f => decide (f.tid = i)) = [] :=
      List.filter_eq_nil_iff.2 fun f hfm => by simpa using (hseg' f hfm).1
    rw [List.filter_append, hmine, hnil, List.append_nil]
  · rcases List.mem_append.1 hfm with hfm | hfm
    · exact hother f hfm hfi
    · exact (hseg' f hfm).2 a ha

theorem framed_inCall (i : Nat) (a : String) (start : Nat) (mine : List Flight) :
    Framed i a (InCall i a start mine) :=
  ⟨fun ha h hr => h.rely ha hr, fun _ _ _ h => h⟩

/-- The handler's own traffic. -/
theorem InCall.push (h : InCall i a start mine w) {f : Flight} (hf : f.tid = i)
    (hw : w'.flights = w.flights ++ [f])
    (hno : mine = [] → ∀ e ∈ Flight.replay w.flights, e.1 ≠ a) :
    InCall i a start (mine ++ [f]) w' := by
  obtain ⟨before, seg, hfl, hlen, hmine, hother, hno'⟩ := h
  refine ⟨before, seg ++ [f], by rw [hw, hfl]; simp, hlen, ?_, fun g hg hgi => ?_, Or.inr ?_⟩
  · simp [List.filter_append, hmine, hf]
  · rcases List.mem_append.1 hg with hg | hg
    · exact hother g hg hgi
    · rw [List.mem_singleton.1 hg] at hgi
      exact absurd hf hgi
  · rcases hno' with rfl | h
    · rintro ⟨b, p⟩ he rfl
      refine hno rfl (b, p) ?_ rfl
      rw [hfl, Flight.replay_append, List.foldl_cons]
      refine Flight.mem_foldl_fly (fun f hf => hother f hf fun hfi => ?_) he
      have : f ∈ seg.filter (fun f => decide (f.tid = i)) :=
        List.mem_filter.2 ⟨hf, decide_eq_true hfi⟩
      rw [hmine] at this
      cases this
    · exact h

theorem Flight.Undone.rely (h : Flight.Undone i a start w.flights) (hr : Evolves i w w') :
    Flight.Undone i a start w'.flights := by
  obtain ⟨before, seg, hf, hlen, hmark, hreplay⟩ := h
  obtain ⟨seg', hf', hseg'⟩ := hr.flights
  have hall : ∀ f ∈ seg', f.tid ≠ i := fun f hf => (hseg' f hf).1
  have hkeep : seg'.filter (fun f => decide (f.tid ≠ i)) = seg' :=
    List.filter_eq_self.2 fun f hf => decide_eq_true (hall f hf)
  refine ⟨before, seg ++ seg', by rw [hf', hf]; simp, hlen, fun f hfm hfi => ?_, ?_⟩
  · rcases List.mem_append.1 hfm with hfm | hfm
    · exact hmark f hfm hfi
    · exact absurd hfi (hall f hfm)
  · rw [hf', Flight.replay_append, hreplay, List.filter_append, hkeep, ← Flight.replay_append,
      List.append_assoc]

/-- A call that has done nothing. -/
theorem InCall.undone_nil (h : InCall i a start [] w) : Flight.Undone i a start w.flights := by
  obtain ⟨before, seg, hf, hlen, hmine, -, -⟩ := h
  rw [List.filter_eq_nil_iff] at hmine
  have hall : ∀ f ∈ seg, f.tid ≠ i := fun f hf => by simpa using hmine f hf
  refine ⟨before, seg, hf, hlen, fun f hf hfi => absurd hfi (hall f hf), ?_⟩
  have hkeep : seg.filter (fun f => decide (f.tid ≠ i)) = seg :=
    List.filter_eq_self.2 fun f hf => decide_eq_true (hall f hf)
  rw [hf, hkeep, Flight.replay_append, Flight.replay_append, List.foldl_cons]
  rfl

/-- A call that has taken its permit back. -/
theorem InCall.undone_pop {p : EffectPermit} (hp : p.attemptId = a)
    (h : InCall i a start [.issued i p, .popped i a] w) : Flight.Undone i a start w.flights := by
  obtain ⟨before, seg, hf, hlen, hmine, hother, hno⟩ := h
  have hl : ∀ e ∈ Flight.replay before, e.1 ≠ a := hno.resolve_left (by simp)
  refine ⟨before, seg, hf, hlen, fun f hf hfi => ?_, ?_⟩
  · have : f ∈ seg.filter (fun f => decide (f.tid = i)) :=
      List.mem_filter.2 ⟨hf, decide_eq_true hfi⟩
    rw [hmine] at this
    rcases List.mem_cons.1 this with rfl | h
    · rfl
    · rw [List.mem_singleton.1 h]
      rfl
  · rw [hf, Flight.replay_append, Flight.replay_append, List.foldl_cons]
    exact Flight.foldl_issue_pop hp hmine hother hl

end Call

/-! ## Steps of the permit authority by the handler -/

/-- A permit object whose release is bound to a connection. -/
def PermitCell.durable (p : EffectPermit) (c : String) : PermitCell :=
  ⟨p, false, false, none, false, some c⟩

/-- The object while its release is being recorded. -/
def PermitCell.releasing (p : EffectPermit) (t : ReleaseTransition) (c : String) : PermitCell :=
  ⟨p, true, true, some t, false, some c⟩

section Authority

variable {boot : List Line} {i : Nat} {c a : String} {es : List Entry}
  {grip : Option PermitCell} {w : World}

/-- `_release` of an unreleased permit object finds it in flight. -/
theorem release_cell {st : RunState} {h : Lifecycle.History} (I : Lifecycle.Inv st h) {ref : Nat}
    {cell : PermitCell} (hc : st.cells[ref]? = some cell) (hr : cell.released = false) :
    ∃ t ctx, st.ctx.release cell.permit.attemptId = (some t, ctx) ∧
      t.attemptId = cell.permit.attemptId := by
  have hl := I.lookup_cell (List.mem_of_getElem? hc) hr
  unfold RunContext.release
  rw [hl]
  exact ⟨_, _, rfl, rfl⟩

/-- An operation of the permit authority keeps the records; the permit object is as `h` says. -/
theorem Handling.advanced (H : Handling i c a es grip w) {grip' : Option PermitCell}
    {ev : Lifecycle.Event} {run : RunState}
    (h : ∀ cell ∈ grip', w.holders[cell.permit.ref]? = some i ∧
      run.cells[cell.permit.ref]? = some cell) :
    Handling i c a es grip' (w.advanced i ev run) :=
  { H with grip := h }

theorem Handling.setFlights (H : Handling i c a es grip w) (fs : List Flight) :
    Handling i c a es grip { w with flights := fs } :=
  { H with }

/-- The permit object is replaced. -/
theorem Handling.setCell {cell : PermitCell} (H : Handling i c a es (some cell) w)
    (cell' : PermitCell) (hp : cell'.permit = cell.permit) {ev : Lifecycle.Event} {run : RunState}
    (hrun : run.cells = w.run.cells.set cell.permit.ref cell') :
    Handling i c a es (some cell') (w.advanced i ev run) := by
  refine H.advanced ?_
  rintro _ ⟨⟩
  obtain ⟨hh, hc⟩ := H.grip cell rfl
  obtain ⟨hlt, -⟩ := List.getElem?_eq_some_iff.1 hc
  rw [hp, hrun, List.getElem?_set_self hlt]
  exact ⟨hh, rfl⟩

/-- An attempt is over. -/
theorem Handling.conclude (H : Handling i c a es grip w) (h : w.Spoilt ∨ Finished es) :
    Ready i c w := by
  refine ⟨H.producer, H.conn, H.live, ?_⟩
  rcases h with (h | h) | h
  · exact Or.inl h
  · exact Or.inr (Or.inl h)
  · rcases H.clean with h' | h' | h'
    · exact Or.inl h'
    · exact Or.inr (Or.inl h')
    · refine Or.inr (Or.inr fun b hb _ => ?_)
      by_cases hba : a = b
      · rw [← hba, H.entries]
        exact h
      · exact h' b hb (by simpa using hba)

/-- The environment has raised where nothing catches it. -/
theorem Handling.giveUp (H : Handling i c a es grip w) (h : w.unguarded = true) : Ready i c w :=
  H.conclude (Or.inl (Or.inr h))

theorem authorize_new {rc : RunContext} {e seq : Nat} (h : (rc.authorize a e).1 = some seq) :
    a ∉ rc.authorizations.map Prod.fst := by
  unfold RunContext.authorize at h
  split at h
  · cases h
  · rename_i hno
    rw [not_or, not_or] at hno
    exact hno.2.2

/-- `authorize`, by a handler that is ready. -/
theorem Ready.authorize (I : GatewayInv boot w) (h : Ready i c w) {e : Nat} {r : Option Nat}
    {w' : World} (he : World.exec i (.authorize a e) w r = some w') :
    (r = none → Ready i c w') ∧ (r.isSome = true → Handling i c a [] none w') := by
  obtain ⟨ev, run, -, hr, rfl⟩ := exec_authorize he
  refine ⟨fun hn => ?_, fun hs => ?_⟩
  · subst hn
    exact { h with }
  · obtain ⟨seq, hseq⟩ := Option.isSome_iff_exists.1 hs
    have hnew : a ∉ w.attempts.map Prod.fst := by
      rw [I.attempts]
      exact authorize_new (hr.symm.trans hseq)
    have hatt : (if r.isSome then w.attempts ++ [(a, i)] else w.attempts) =
        w.attempts ++ [(a, i)] := if_pos hs
    refine { h with clean := ?_, owner := ?_, entries := ?_, grip := by simp }
    · rcases h.clean with h' | h' | h'
      · exact Or.inl h'
      · exact Or.inr (Or.inl h')
      · refine Or.inr (Or.inr fun b hb hba => h' b ?_ (by simp))
        change (b, i) ∈ (if r.isSome then w.attempts ++ [(a, i)] else w.attempts) at hb
        rw [hatt] at hb
        refine (List.mem_append.1 hb).resolve_right fun hb => hba ?_
        cases List.mem_singleton.1 hb
        rfl
    · show (a, i) ∈ (if r.isSome then w.attempts ++ [(a, i)] else w.attempts)
      rw [hatt]
      simp
    · show w.entriesOf a = []
      unfold World.entriesOf
      rw [List.map_eq_nil_iff, List.filter_eq_nil_iff]
      intro x hx hxa
      rw [Bool.and_eq_true, decide_eq_true_eq] at hxa
      exact hnew (I.recorded x hx a hxa.2)

/-- **`commit_intent`.** -/
theorem wp_commitIntent (hi : i ≠ 0) (intent : Intent) (h : Ready i c w) :
    (gatewayProtocol boot).wp i (EffectGate.commitIntent [] intent)
      (fun gate w => gate = [(intent.attemptId, intent)] ∧
        ∃ seq, Handling i c intent.attemptId [.auth intent seq] none w)
      (fun _ => Ready i c) w := by
  have hready := kept_ready i c
  refine wp_inert_cmd hready hi trivial h fun (healthy : Bool) w I h => ?_
  cases healthy with
  | false => exact wp_fail hready h fun _ _ h => h
  | true =>
    refine Protocol.wp_perform fun t ht It => ⟨trivial, fun (r : Option Nat) t' he => ?_⟩
    have It' := inv_exec (c := .authorize _ _) (i := i) It trivial he
    obtain ⟨hnone, hsome⟩ := (hready.rely h ht).authorize It he
    cases r with
    | none => exact wp_fail hready (hnone rfl) fun _ _ h => h
    | some seq =>
      refine Protocol.wp_seq (Protocol.wp_tryCatch (Protocol.wp_mono
        (wp_auditWrite (hsome rfl) rfl trivial (by simp [Entry.isAttempted])) (fun _ _ _ H => H)
        fun _ u _ ⟨hl, H⟩ => ?_) It') It' fun _ u _ H => ?_
      · exact wp_fail hready (H.conclude (Or.inl (Or.inl hl))) fun _ _ h => h
      · exact wp_ret (kept_handling i c _ _ none) H fun _ _ H => ⟨rfl, seq, H⟩

/-- `issue_permit` hands out a new object. -/
theorem Handling.issued (I : GatewayInv boot w) (H : Handling i c a es none w) {e : Nat}
    {conn gen bud : String} {p : EffectPermit} {w' : World}
    (he : World.exec i (.issuePermit a e conn gen bud) w (some p) = some w') :
    Handling i c a es (some (PermitCell.new p)) w' ∧ p.attemptId = a ∧ p.epoch = e ∧
      ∀ start, InCall i a start [] w → InCall i a start [.issued i p] w' := by
  obtain ⟨ev, run, hs, hr, rfl⟩ := exec_issuePermit he
  have hev : ev = .permitted p := by
    obtain ⟨-, hnew, -⟩ := issuePermit_event hs
    rw [← hr] at hnew
    cases ev with
    | permitted q => rw [List.cons.inj hnew |>.1]
    | _ => cases hnew
  subst hev
  obtain ⟨hfresh, href, hcells, hop⟩ := (Lifecycle.step_effect hs).issued_attempt rfl
  obtain ⟨rfl, rfl, -, rfl, rfl⟩ := Lifecycle.Op.issuePermit.inj hop
  have hlen : w.holders.length = w.run.cells.length := by
    rw [← I.holders.length_eq, ← I.lifecycle.cells_eq, List.length_map]
  refine ⟨{ H with grip := ?_ }, rfl, rfl, fun start hcall => hcall.push rfl rfl fun _ e he hea => ?_⟩
  · rintro _ ⟨⟩
    show (w.holders ++ [i])[p.ref]? = some i ∧ run.cells[p.ref]? = some (PermitCell.new p)
    rw [hcells, href, ← hlen]
    refine ⟨by simp, ?_⟩
    rw [hlen]
    simp
  · rw [I.flights] at he
    obtain ⟨b, q⟩ := e
    obtain ⟨hq, hqa, -⟩ := I.lifecycle.mem_inflight.1 he
    apply hfresh
    rw [I.lifecycle.permitted_eq, ← hea, ← hqa]
    exact List.mem_map_of_mem hq

/-- `issue_permit` refuses. -/
theorem Handling.notIssued (H : Handling i c a es none w) {e : Nat} {conn gen bud : String}
    {w' : World} (he : World.exec i (.issuePermit a e conn gen bud) w none = some w') :
    Handling i c a es none w' ∧
      ∀ start, InCall i a start [] w → InCall i a start [] w' := by
  obtain ⟨ev, run, hs, hr, rfl⟩ := exec_issuePermit he
  have hev : Flight.ofEvent i ev = [] := by
    obtain ⟨-, hnew, -⟩ := issuePermit_event hs
    rw [← hr] at hnew
    generalize (w.net.lifecycles conn).terminal = terminal at hs
    cases Lifecycle.step_effect hs with
    | same => rfl
    | permitted => cases hnew
    | released op r e d he hop => rcases hop with hop | hop <;> cases hop
  refine ⟨{ H with grip := by simp }, fun start hcall => ?_⟩
  have hf : (w.advanced i ev run).flights = w.flights := by simp [World.advanced, hev]
  unfold InCall at hcall ⊢
  rw [← hf] at hcall
  exact hcall

/-- `bind_durable_release` of a new object succeeds. -/
theorem Handling.bound {p : EffectPermit} (H : Handling i c a es (some (PermitCell.new p)) w)
    {r : Bool} {w' : World} (he : World.exec i (.bindDurableRelease p.ref c) w r = some w') :
    r = true ∧
      Handling i c a es (some (PermitCell.durable p c)) w' := by
  obtain ⟨ev, run, st, hs, hb, rfl⟩ := exec_bindDurableRelease he
  obtain ⟨-, hc⟩ := H.grip _ rfl
  change w.run.cells[p.ref]? = some (PermitCell.new p) at hc
  simp only [Lifecycle.step, RunState.bindDurableRelease, hc, PermitCell.new] at hs hb
  cases hs
  cases hb
  exact ⟨rfl, H.setCell (PermitCell.durable p c) rfl rfl⟩

/-- `abandon_undurable` takes the permit back. -/
theorem Handling.abandoned (I : GatewayInv boot w) {p : EffectPermit} (hp : p.attemptId = a)
    (H : Handling i c a es (some (PermitCell.new p)) w) {w' : World}
    (he : World.exec i (.abandonUndurable p.ref) w (() : Unit) = some w') :
    Handling i c a es none w' ∧ ∀ start, InCall i a start [.issued i p] w →
      InCall i a start [.issued i p, .popped i a] w' := by
  obtain ⟨ev, run, hs, rfl⟩ := exec_abandonUndurable he
  obtain ⟨-, hc⟩ := H.grip _ rfl
  obtain ⟨t, ctx, hrel, hta⟩ := release_cell I.lifecycle hc rfl
  change w.run.cells[p.ref]? = some (PermitCell.new p) at hc
  change w.run.ctx.release p.attemptId = (some t, ctx) at hrel
  simp only [Lifecycle.step, RunState.abandonUndurable, hc, PermitCell.new, hrel] at hs
  cases hs
  have hta' : t.attemptId = a := hta.trans hp
  refine ⟨H.advanced (by simp), fun start hcall => ?_⟩
  refine hcall.push (f := .popped i a) rfl ?_ (by simp)
  show w.flights ++ [.popped i t.attemptId] = _
  rw [hta']

end Authority

/-! ## `acquire_permit` and `release` -/

section Permit

variable {boot : List Line} {i : Nat} {c a : String} {es : List Entry} {w : World}

/-- What `acquire_permit` returns. -/
def Acquired (i : Nat) (c a : String) (es : List Entry) (intent : Intent) (epoch : Nat)
    (gen bud : String) (r : Option EffectPermit) (w : World) : Prop :=
  match r with
  | none => Handling i c a es none w
  | some p =>
    Handling i c a (es ++ [.permit a c epoch p.lifecycleSeq gen bud])
      (some (PermitCell.durable p c)) w ∧
    p.attemptId = a ∧ p.epoch = epoch ∧ EffectGate.binds intent epoch c gen bud = true

theorem kept_inCall (i : Nat) (c a : String) (es : List Entry) (grip : Option PermitCell)
    (start : Nat) (mine : List Flight) :
    Kept i fun w => Handling i c a es grip w ∧ InCall i a start mine w where
  rely h hr := ⟨(kept_handling i c a es grip).rely h.1 hr, h.2.rely h.1.owner hr⟩
  producer h := h.1.producer

theorem wp_permitCall {gate : EffectGate} {intent : Intent} {epoch : Nat}
    {gen bud : String} {start : Nat} (hgate : gate.lookup a = some intent)
    (H : Handling i c a es none w) (hcall : InCall i a start [] w) :
    (gatewayProtocol boot).wp i (gate.permitCall a epoch c gen bud)
      (fun r w => Acquired i c a es intent epoch gen bud r w ∧
        (r = none → Flight.Undone i a start w.flights))
      (fun _ w => (w.lost = true ∧ Handling i c a es none w) ∧ Flight.Undone i a start w.flights) w := by
  have hnone : ∀ {w}, Handling i c a es none w → InCall i a start [] w →
      (gatewayProtocol boot).wp i (pure none : GProg (Option EffectPermit))
        (fun r w => Acquired i c a es intent epoch gen bud r w ∧
          (r = none → Flight.Undone i a start w.flights))
        (fun _ w => (w.lost = true ∧ Handling i c a es none w) ∧
          Flight.Undone i a start w.flights) w := fun H hcall =>
    wp_ret (kept_inCall i c a es none start []) ⟨H, hcall⟩ fun _ _ h => ⟨h.1, fun _ => h.2.undone_nil⟩
  unfold EffectGate.permitCall
  rw [hgate]
  dsimp only
  split
  · exact hnone H hcall
  rename_i hno
  have hbinds : EffectGate.binds intent epoch c gen bud = true := by simpa using hno
  refine Protocol.wp_perform fun t ht It => ?_
  obtain ⟨Ht, hct⟩ := (kept_inCall i c a es none start []).rely ⟨H, hcall⟩ ht
  refine ⟨Ht.owner, fun (r : Option EffectPermit) t' he => ?_⟩
  have It' := inv_exec (c := .issuePermit a epoch c gen bud) (i := i) It Ht.owner he
  cases r with
  | none =>
    obtain ⟨H', hcall'⟩ := Ht.notIssued he
    exact hnone H' (hcall' start hct)
  | some p =>
    obtain ⟨H', hpa, hpe, hcall'⟩ := Ht.issued It he
    refine Protocol.wp_seq (Protocol.wp_tryCatch (Protocol.wp_mono
      (wp_auditWrite_frame (framed_inCall i a start [.issued i p]) H' rfl trivial
        (by simp [Entry.isAttempted]) (hcall' start hct)) (fun _ _ _ h => h)
      fun _ u _ ⟨⟨hl, H⟩, hcall⟩ => ?_) It') It' fun _ u _ ⟨H, hcall⟩ => ?_
    · -- the permit is not on record: it is taken back
      refine Protocol.wp_perform fun v hv Iv => ?_
      obtain ⟨Hv, hcv⟩ := (kept_inCall i c a es _ start [.issued i p]).rely ⟨H, hcall⟩ hv
      refine ⟨(Hv.grip _ rfl).1, fun _ v' he' => ?_⟩
      obtain ⟨H'', hcall''⟩ := Hv.abandoned Iv hpa he'
      have hl' : v'.lost = true := by
        obtain ⟨ev, run, -, rfl⟩ := exec_abandonUndurable he'
        exact hv.lost hl
      intro x hx _
      exact ⟨⟨hx.lost hl', (kept_handling i c a es none).rely H'' hx⟩,
        ((hcall'' start hcv).rely H''.owner hx).undone_pop hpa⟩
    · refine Protocol.wp_perform fun v hv Iv => ?_
      have Hv := (kept_handling i c a _ _).rely H hv
      refine ⟨(Hv.grip _ rfl).1, fun (r : Bool) v' he' => ?_⟩
      obtain ⟨rfl, H''⟩ := Hv.bound he'
      exact wp_ret (kept_handling i c a _ _) H'' fun _ _ h => ⟨⟨h, hpa, hpe, hbinds⟩, by simp⟩

/-- **`acquire_permit`.** -/
theorem wp_acquirePermit {gate : EffectGate} {intent : Intent} {epoch : Nat}
    {gen bud : String} (hgate : gate.lookup a = some intent) (H : Handling i c a es none w) :
    (gatewayProtocol boot).wp i (gate.acquirePermit a epoch c gen bud)
      (Acquired i c a es intent epoch gen bud)
      (fun _ w => w.lost = true ∧ Handling i c a es none w) w := by
  refine Protocol.wp_perform fun t ht It => ⟨trivial, fun (start : Nat) t' he => ?_⟩
  have It' := inv_exec (c := .permitCalled a) (i := i) It trivial he
  have Ht := (kept_handling i c a es none).rely H ht
  obtain ⟨rfl, rfl⟩ := Net.give_eq_some.1 he
  have hcall : InCall i a t.flights.length []
      { t with flights := t.flights ++ [.called i a] } :=
    ⟨t.flights, [], rfl, rfl, rfl, by simp, Or.inl rfl⟩
  refine Protocol.wp_seq (Protocol.wp_tryCatch (Protocol.wp_mono
    (wp_permitCall hgate (Ht.setFlights _) hcall) (fun _ _ _ h => h) fun e u _ h => ?_) It') It'
    fun r u _ h => ?_
  · obtain ⟨⟨hl, H⟩, hundone⟩ := h
    refine Protocol.wp_perform fun v hv Iv => ⟨hundone.rely hv, fun _ v' he' => ?_⟩
    have Hv := (kept_handling i c a es none).rely H hv
    cases he'
    exact fun x hx _ =>
      ⟨hx.lost (hv.lost hl), (kept_handling i c a es none).rely (Hv.setFlights _) hx⟩
  · obtain ⟨hacq, hundone⟩ := h
    refine Protocol.wp_perform fun v hv Iv => ⟨?_, fun _ v' he' => ?_⟩
    · cases r with
      | none => exact (hundone rfl).rely hv
      | some p => trivial
    · cases he'
      intro x hx _
      cases r with
      | none =>
        have Hv := (kept_handling i c a es none).rely hacq hv
        exact (kept_handling i c a es none).rely (Hv.setFlights _) hx
      | some p =>
        obtain ⟨H, hrest⟩ := hacq
        have Hv := (kept_handling i c a _ _).rely H hv
        exact ⟨(kept_handling i c a _ _).rely (Hv.setFlights _) hx, hrest⟩

/-- The record of a release, and the end of `release`. -/
theorem wp_releaseWrite (I : GatewayInv boot w) {p : EffectPermit} {t : ReleaseTransition}
    (hp : p.attemptId = a) (h : Ended i c a (some (PermitCell.releasing p t c)) Concluded w) :
    (gatewayProtocol boot).wp i
      (do
        let ok ← Prog.tryCatch
          (do
            auditWrite (.released p.attemptId c p.epoch p.lifecycleSeq t.lifecycleSeq)
            return true)
          fun _ => return false
        let _ ← issue (.releaseExit p.ref ok)
        if ok then return () else fail .auditUnhealthy)
      (fun _ => Ready i c) (fun _ => Ready i c) w := by
  have hended := kept_ended i c a (some (PermitCell.releasing p t c)) Finished
  have hwrite : (gatewayProtocol boot).wp i
      (auditWrite (.released p.attemptId c p.epoch p.lifecycleSeq t.lifecycleSeq))
      (fun _ => Ended i c a (some (PermitCell.releasing p t c)) Finished)
      (fun _ => Ended i c a (some (PermitCell.releasing p t c)) Finished) w :=
    wp_auditWrite_ended h (congrArg some hp) trivial rfl fun es hes => Or.inr ⟨es, _, rfl, hes, rfl⟩
  refine Protocol.wp_seq (J := fun _ => Ended i c a (some (PermitCell.releasing p t c)) Finished)
    (Protocol.wp_tryCatch (Protocol.wp_seq (Protocol.wp_mono hwrite (fun _ _ _ h => h)
      fun _ u _ hu => ?_) I fun _ u _ hu => ?_) I) I fun ok u _ hu => ?_
  · exact wp_ret hended hu fun _ _ h => h
  · exact wp_ret hended hu fun _ _ h => h
  · refine Protocol.wp_perform fun v hv _ => ?_
    obtain ⟨es', Hv, hv'⟩ := hended.rely hu hv
    refine ⟨(Hv.grip _ rfl).1, fun _ v' he => ?_⟩
    obtain ⟨ev, run, -, rfl⟩ := exec_releaseExit he
    have hready : Ready i c (v.advanced i ev run) :=
      (show Handling i c a es' none _ from Hv.advanced (by simp)).conclude hv'
    cases ok with
    | true => exact wp_ret (kept_ready i c) hready fun _ _ h => h
    | false => exact wp_fail (kept_ready i c) hready fun _ _ h => h

/-- The first section of `release`. -/
theorem Handling.releasing (I : GatewayInv boot w) {p : EffectPermit}
    (H : Handling i c a es (some (PermitCell.durable p c)) w) {r : RunState.ReleaseEntry}
    {w' : World} (he : World.exec i (.releaseEnter p.ref) w r = some w') :
    ∃ t, r = .write t c ∧ Handling i c a es (some (PermitCell.releasing p t c)) w' ∧
      (w.Spoilt → w'.Spoilt) := by
  obtain ⟨ev, run, st, hs, hr, rfl⟩ := exec_releaseEnter he
  obtain ⟨-, hc⟩ := H.grip _ rfl
  obtain ⟨t, ctx, hrel, -⟩ := release_cell I.lifecycle hc rfl
  change w.run.cells[p.ref]? = some (PermitCell.durable p c) at hc
  change w.run.ctx.release p.attemptId = (some t, ctx) at hrel
  simp only [Lifecycle.step, RunState.releaseEnter, hc, PermitCell.durable, hrel] at hs hr
  cases hs
  cases hr
  exact ⟨t, rfl, H.setCell (PermitCell.releasing p t c) rfl rfl, id⟩

/-- **`release`** of a permit whose attempt has its outcome. -/
theorem wp_release {p : EffectPermit} (hp : p.attemptId = a)
    (h : Ended i c a (some (PermitCell.durable p c)) Concluded w) :
    (gatewayProtocol boot).wp i p.release (fun _ => Ready i c) (fun _ => Ready i c) w := by
  refine Protocol.wp_perform fun t ht It => ?_
  obtain ⟨es, H, hT⟩ := (kept_ended i c a _ Concluded).rely h ht
  have hh := (H.grip _ rfl).1
  refine ⟨hh, fun (r : RunState.ReleaseEntry) t' he => ?_⟩
  have It' := inv_exec (c := .releaseEnter p.ref) (i := i) It hh he
  obtain ⟨tr, rfl, H', hl⟩ := H.releasing It he
  exact wp_releaseWrite It' hp ⟨es, H', hT.imp hl id⟩

end Permit

end StrixPEP
