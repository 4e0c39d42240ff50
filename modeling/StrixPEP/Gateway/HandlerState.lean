import StrixPEP.Gateway.Interference

/-!
# What a handler knows between its steps

* `Ready` — a handler on its connection, with no attempt in progress;
* `Handling` — a handler in an attempt: exactly these records of it have been written, and the
  permit object, if there is one, is in this state;
* `Kept` — the assertions that survive the other threads and the handler's own inert steps;
  `wp_inert` is the rule for programs of inert steps.

The lemmas after that are the handler's own steps: a write for the attempt, a settlement, the
terminal check before `mark_attempted`.
-/

namespace StrixPEP

open Threads KillSwitch GProg

/-! ## The assertions -/

/-- A producer with nothing in progress. -/
def Idle (i : Nat) (w : World) : Prop := i ∈ w.producers ∧ w.Clean i none

/-- Between two attempts, on the connection `c`. -/
structure Ready (i : Nat) (c : String) (w : World) : Prop where
  producer : i ∈ w.producers
  conn : (c, i) ∈ w.conns
  live : c ∈ w.live
  clean : w.Clean i none

/-- In the attempt `a`, with the records `es` of it written. -/
structure Handling (i : Nat) (c a : String) (es : List Entry) (grip : Option PermitCell)
    (w : World) : Prop where
  producer : i ∈ w.producers
  conn : (c, i) ∈ w.conns
  live : c ∈ w.live
  clean : w.Clean i (some a)
  owner : (a, i) ∈ w.attempts
  entries : w.entriesOf a = es
  grip : ∀ cell ∈ grip, w.holders[cell.permit.ref]? = some i ∧
    w.run.cells[cell.permit.ref]? = some cell

/-- A write has failed, or the environment has raised where nothing catches it. -/
def World.Spoilt (w : World) : Prop := w.lost = true ∨ w.unguarded = true

/-- In the attempt `a`, with records as in `T`, unless the run is spoilt. -/
def Ended (i : Nat) (c a : String) (grip : Option PermitCell) (T : List Entry → Prop)
    (w : World) : Prop :=
  ∃ es, Handling i c a es grip w ∧ (w.Spoilt ∨ T es)

/-- The terminal check has passed and `EFFECT_ATTEMPTED` is not yet written. -/
def Poised (i : Nat) (w : World) : Prop := i ∈ w.poised ∧ (w.raced = true ∨ ¬ w.Requested)

/-- Kept by the other threads and by the handler's own inert steps. -/
structure Kept (i : Nat) (A : World → Prop) : Prop where
  rely : ∀ {w w' : World}, A w → Evolves i w w' → A w'
  producer : ∀ {w : World}, A w → i ∈ w.producers

section Kept

variable {i : Nat} {c a : String} {es : List Entry} {grip : Option PermitCell}
  {skip : Option String} {w w' : World}

theorem World.Spoilt.rely (h : w.Spoilt) (hr : Evolves i w w') : w'.Spoilt :=
  h.imp hr.lost hr.unguarded

theorem World.Clean.rely (h : w.Clean i skip) (hr : Evolves i w w') : w'.Clean i skip := by
  rcases h with h | h | h
  · exact Or.inl (hr.lost h)
  · exact Or.inr (Or.inl (hr.unguarded h))
  · refine Or.inr (Or.inr fun a ha hs => ?_)
    have ha' := (hr.attempts a).1 ha
    rw [hr.mine a ha']
    exact h a ha' hs

theorem Poised.rely (h : Poised i w) (hr : Evolves i w w') : Poised i w' := by
  obtain ⟨hp, hq⟩ := h
  obtain ⟨hp', hq'⟩ := hr.poised hp
  refine ⟨hp', ?_⟩
  rcases hq with hq | hq
  · exact Or.inl (hr.raced hq)
  · exact hq' hq

theorem kept_ready (i : Nat) (c : String) : Kept i (Ready i c) where
  rely h hr :=
    { producer := hr.producer h.producer
      conn := (hr.conns c h.conn).1
      live := (hr.conns c h.conn).2 h.live
      clean := h.clean.rely hr }
  producer h := h.producer

theorem kept_handling (i : Nat) (c a : String) (es : List Entry) (grip : Option PermitCell) :
    Kept i (Handling i c a es grip) where
  rely h hr :=
    { producer := hr.producer h.producer
      conn := (hr.conns c h.conn).1
      live := (hr.conns c h.conn).2 h.live
      clean := h.clean.rely hr
      owner := (hr.attempts a).2 h.owner
      entries := (hr.mine a h.owner).trans h.entries
      grip := fun cell hc => hr.cells _ cell (h.grip cell hc).1 (h.grip cell hc).2 }
  producer h := h.producer

theorem kept_ended (i : Nat) (c a : String) (grip : Option PermitCell) (T : List Entry → Prop) :
    Kept i (Ended i c a grip T) where
  rely h hr := by
    obtain ⟨es, hes, hT⟩ := h
    exact ⟨es, (kept_handling i c a es grip).rely hes hr, hT.imp (fun h => h.rely hr) id⟩
  producer h := by
    obtain ⟨es, hes, -⟩ := h
    exact hes.producer

theorem kept_idle (i : Nat) : Kept i (Idle i) where
  rely h hr := ⟨hr.producer h.1, h.2.rely hr⟩
  producer h := h.1

theorem Ready.idle (h : Ready i c w) : Idle i w := ⟨h.producer, h.clean⟩

end Kept

/-! ## Inert programs -/

section Inert

variable {boot : List Line} {i : Nat} {w w' : World} {A : World → Prop} {α β : Type}

theorem inert_req {c : Cmd} (hc : Inert c) (hi : i ≠ 0) (hp : i ∈ w.producers) :
    GatewayReq i c w := by
  cases c with
  | net d =>
    cases d with
    | shutdown d s => exact ⟨fun h => absurd h hi, trivial⟩
    | track d s => exact ⟨trivial, trivial⟩
    | transfer d s t => exact ⟨trivial, trivial⟩
    | isTerminal d => exact ⟨trivial, trivial⟩
    | beginTermination d => exact ⟨trivial, trivial⟩
    | close s => exact ⟨trivial, trivial⟩
    | _ => exact absurd hc id
  | write e =>
    cases e with
    | blocked rest =>
      refine ⟨⟨hc, fun _ => hp, ?_, ?_, ?_, ?_, ?_, ?_⟩, ?_⟩ <;>
        simp [Entry.byCanceller, Entry.attempt?, Entry.isAttempted, Entry.isRequested, Entry.isAck,
          Entry.isDrainTimeout]
    | _ => exact absurd hc id
  | env q => trivial
  | acquireSlot => trivial
  | releaseSlot => trivial
  | newAttemptId => trivial
  | epoch => trivial
  | runId => trivial
  | healthy => trivial
  | addSecret s => trivial
  | _ => exact absurd hc id

theorem wp_inert {p : GProg α} (hA : Kept i A) (hi : i ≠ 0) (hp : p.Issues Inert) (h : A w) :
    (gatewayProtocol boot).wp i p (fun _ => A) (fun _ => A) w := by
  refine Protocol.wp_issues hp (fun h hr _ => hA.rely h hr) (fun hc h I => ?_) h
  have hreq := inert_req hc hi (hA.producer h)
  exact ⟨hreq, fun r w' he => hA.rely h (evolves_exec I hreq he (Or.inr ⟨hc, hi⟩))⟩

/-- An inert program and what comes after it. -/
theorem wp_inert_seq {p : GProg α} {f : α → GProg β} {Q : β → World → Prop}
    {E : Exn → World → Prop} (hA : Kept i A) (hi : i ≠ 0) (hp : p.Issues Inert)
    (I : GatewayInv boot w) (h : A w) (hE : ∀ e w, A w → E e w)
    (hf : ∀ a w, GatewayInv boot w → A w → (gatewayProtocol boot).wp i (f a) Q E w) :
    (gatewayProtocol boot).wp i (p >>= f) Q E w :=
  Protocol.wp_seq (Protocol.wp_mono (wp_inert hA hi hp h) (fun _ _ _ h => h)
    fun e w _ h => hE e w h) I hf

/-- One inert step and what comes after it. -/
theorem wp_inert_cmd {c : Cmd} {f : c.Resp → GProg β} {Q : β → World → Prop}
    {E : Exn → World → Prop} (hA : Kept i A) (hi : i ≠ 0) (hc : Inert c) (h : A w)
    (hf : ∀ r w, GatewayInv boot w → A w → (gatewayProtocol boot).wp i (f r) Q E w) :
    (gatewayProtocol boot).wp i (issue c >>= f) Q E w := by
  refine Protocol.wp_perform fun t ht It => ?_
  have hAt := hA.rely h ht
  have hreq := inert_req hc hi (hA.producer hAt)
  refine ⟨hreq, fun r t' he => hf r t' (inv_exec It hreq he) ?_⟩
  exact hA.rely hAt (evolves_exec It hreq he (Or.inr ⟨hc, hi⟩))

/-- A program on the connections does not raise. -/
theorem wp_onNet {p : NetProg α} {E : Exn → World → Prop} (hA : Kept i A) (hi : i ≠ 0)
    (hp : (onNet p).Issues Inert) (h : A w) :
    (gatewayProtocol boot).wp i (onNet p) (fun _ => A) E w := by
  induction p generalizing w with
  | ret a => exact fun t ht _ => hA.rely h ht
  | raise e => exact nomatch e
  | cmd c k ih => exact wp_inert_cmd hA hi hp.1 h fun r w _ h => ih r (hp.2 r) h

/-- A request to the environment, with what its answer says about the run. -/
theorem wp_query {q : Query} {f : Except Exn q.Result → GProg β} {Q : β → World → Prop}
    {E : Exn → World → Prop} (hA : Kept i A) (hi : i ≠ 0) (h : A w)
    (hf : ∀ r w, GatewayInv boot w → A w → (q.unguarded r = true → w.unguarded = true) →
      (gatewayProtocol boot).wp i (f r) Q E w) :
    (gatewayProtocol boot).wp i (issue (.env q) >>= f) Q E w := by
  refine Protocol.wp_perform fun t ht It => ⟨trivial, fun r t' he => ?_⟩
  have hAt := hA.rely h ht
  have hev : Evolves i t t' := evolves_exec (c := .env q) (j := i) It trivial he (Or.inr ⟨trivial, hi⟩)
  refine hf r t' (inv_exec (c := .env q) (i := i) It trivial he) (hA.rely hAt hev) fun hu => ?_
  cases he
  show (t.unguarded || q.unguarded r) = true
  rw [hu, Bool.or_true]

/-- A request whose every failure is one that nothing catches. -/
theorem wp_unguarded {q : Query} {E : Exn → World → Prop} (hA : Kept i A) (hi : i ≠ 0) (h : A w)
    (hq : ∀ e, q.unguarded (.error e) = true)
    (hE : ∀ e w, A w → w.unguarded = true → E e w) :
    (gatewayProtocol boot).wp i (ask q) (fun _ => A) E w := by
  refine wp_query hA hi h fun (r : Except Exn q.Result) w _ h hu => ?_
  cases r with
  | ok _ => exact fun t ht _ => hA.rely h ht
  | error e => exact fun t ht _ => hE e t (hA.rely h ht) (ht.unguarded (hu (hq e)))

/-- The end of a program in an assertion that is kept. -/
theorem wp_ret {Q : α → World → Prop} {E : Exn → World → Prop} {a : α} (hA : Kept i A) (h : A w)
    (hQ : ∀ w, GatewayInv boot w → A w → Q a w) :
    (gatewayProtocol boot).wp i (pure a : GProg α) Q E w :=
  fun t ht It => hQ t It (hA.rely h ht)

theorem wp_fail {Q : α → World → Prop} {E : Exn → World → Prop} {e : Exn} (hA : Kept i A) (h : A w)
    (hE : ∀ w, GatewayInv boot w → A w → E e w) :
    (gatewayProtocol boot).wp i (fail e : GProg α) Q E w :=
  fun t ht It => hE t It (hA.rely h ht)

end Inert

/-- A `BLOCKED_BY_POLICY` record; when the write raises, the run has lost it. -/
theorem wp_blocked {boot : List Line} {i : Nat} {w : World} {A : World → Prop} (hA : Kept i A)
    (hi : i ≠ 0) {rest : Fields} (hrest : (Entry.blocked rest).Regular) (h : A w) :
    (gatewayProtocol boot).wp i (auditWrite (.blocked rest)) (fun _ => A)
      (fun _ w => A w ∧ w.lost = true) w := by
  refine Protocol.wp_perform fun t ht It => ?_
  have hAt := hA.rely h ht
  have hreq : GatewayReq i (.write (.blocked rest)) t := inert_req hrest hi (hA.producer hAt)
  refine ⟨hreq, fun (o : Outcome) t' he => ?_⟩
  have hA' : A t' := hA.rely hAt (evolves_exec It hreq he (Or.inr ⟨hrest, hi⟩))
  obtain ⟨audit, -, rfl⟩ := exec_write he
  have hlost : o.ok = false → (t.record i (.blocked rest) o audit).lost = true := fun hok => by
    simp [World.record, hok]
  cases o with
  | written ts order => exact fun u hu _ => hA.rely hA' hu
  | _ => exact fun u hu _ => ⟨hA.rely hA' hu, hu.lost (hlost rfl)⟩

section Programs

variable {α : Type}

theorem issues_ask {q : Query} : (ask q).Issues Inert := by
  refine Prog.issues_bind (Prog.issues_perform trivial) fun r => ?_
  cases r <;> trivial

theorem issues_respond : respond.Issues Inert :=
  Prog.issues_bind (Prog.issues_perform trivial) fun _ => trivial

theorem issues_auditWrite {rest : Fields} (h : (Entry.blocked rest).Regular) :
    (auditWrite (.blocked rest)).Issues Inert := by
  refine Prog.issues_bind (Prog.issues_perform h) fun (o : Outcome) => ?_
  cases o <;> trivial

/-- What a refusal says before the labels of its connection. -/
theorem regular_labels (s : ConnectionState) {head : Fields}
    (hkeys : ("decision" :: (head ++ Gateway.labels s).map Prod.fst).Nodup)
    (hhead : ∀ f ∈ head, f.2.plain = true) : (Entry.blocked (head ++ Gateway.labels s)).Regular := by
  refine ⟨hkeys, fun f hf => ?_⟩
  rcases List.mem_append.1 hf with hf | hf
  · exact hhead f hf
  · simp only [Gateway.labels, List.mem_cons, List.not_mem_nil, or_false] at hf
    rcases hf with rfl | rfl | rfl <;> rfl

theorem regular_deny (reason url method src : String) (s : Option ConnectionState) :
    (Entry.blocked ([("reason", Fields.str reason), ("url", Fields.str url), ("method", Fields.str method),
      ("src", Fields.str src)] ++ (s.map Gateway.labels).getD [])).Regular := by
  cases s with
  | none => exact ⟨by simp, by simp [Value.plain, Fields.str]⟩
  | some s => exact regular_labels s (by simp [Gateway.labels]) (by simp [Value.plain, Fields.str])

theorem regular_denyTls (s : ConnectionState) (reason url method : String) :
    (Entry.blocked ([("reason", Fields.str reason), ("url", Fields.str url), ("method", Fields.str method),
      ("tls", Fields.bool true)] ++ Gateway.labels s)).Regular :=
  regular_labels s (by simp [Gateway.labels]) (by simp [Value.plain, Fields.str, Fields.bool])

theorem issues_deny (reason url method src : String) (s : Option ConnectionState) :
    (Gateway.deny reason url method src s).Issues Inert :=
  Prog.issues_bind issues_respond fun _ => issues_auditWrite (regular_deny _ _ _ _ _)

theorem issues_denyTls (s : ConnectionState) (reason url method : String) :
    (Gateway.denyTls s reason url method).Issues Inert :=
  Prog.issues_bind issues_respond fun _ => issues_auditWrite (regular_denyTls _ _ _ _)

theorem issues_onNet {p : NetProg α} (hp : p.Issues fun c => Inert (.net c)) :
    (onNet p).Issues Inert := by
  induction p with
  | ret a => trivial
  | raise e => exact nomatch e
  | cmd c k ih => exact ⟨hp.1, fun r => ih r (hp.2 r)⟩

theorem issues_shutdownClose (c : String) (s : Nat) :
    (NetProg.shutdownClose c s).Issues fun c => Inert (.net c) :=
  ⟨trivial, fun _ => ⟨trivial, fun _ => trivial⟩⟩

theorem issues_trackOrReject (c : String) (s : Nat) :
    (onNet (NetProg.trackOrReject c s)).Issues Inert := by
  refine issues_onNet (Prog.issues_bind (Prog.issues_perform trivial) fun (r : Bool) => ?_)
  cases r
  · exact Prog.issues_bind (issues_shutdownClose c s) fun _ => trivial
  · trivial

theorem issues_transfer (c : String) (s t : Nat) :
    (onNet (NetProg.transfer c s t)).Issues Inert := by
  refine issues_onNet (Prog.issues_bind (Prog.issues_perform trivial) fun (r : Bool) => ?_)
  cases r
  · exact Prog.issues_bind (issues_shutdownClose c t) fun _ => trivial
  · trivial

theorem issues_shutdownRetained (c : String) (socks : List Nat) :
    (NetProg.shutdownRetained c socks).Issues fun c => Inert (.net c) := by
  induction socks with
  | nil => trivial
  | cons s socks ih =>
    exact Prog.issues_bind (issues_shutdownClose c s) fun _ => Prog.issues_bind ih fun _ => trivial

theorem issues_terminate (c : String) : (onNet (NetProg.terminate c)).Issues Inert :=
  issues_onNet (Prog.issues_bind (Prog.issues_perform trivial) fun r => issues_shutdownRetained c r)

end Programs

/-! ## The handler's own steps -/

section Own

variable {boot : List Line} {i : Nat} {c a : String} {es : List Entry} {grip : Option PermitCell}
  {T : List Entry → Prop} {w : World} {e : Entry} {o : Outcome} {audit : AuditLog}

/-- A record that carries an attempt is not one of the cancellation. -/
theorem Entry.of_attempt (ha : e.attempt? = some a) : e.byCanceller = false ∧
    e.isRequested = false ∧ e.isAck = false ∧ e.isDrainTimeout = false := by
  cases e <;> first | exact ⟨rfl, rfl, rfl, rfl⟩ | cases ha

theorem entriesOf_written (ha : e.attempt? = some a) (hok : o.ok = true) :
    (w.record i e o audit).entriesOf a = w.entriesOf a ++ [e] := by
  have happ : AuditLog.appends o = true := by
    cases o <;> first | rfl | cases hok
  unfold World.entriesOf World.record
  simp [happ, hok, ha, List.filter_append]

theorem clean_record (h : w.Clean i (some a)) (ha : e.attempt? = some a) :
    (w.record i e o audit).Clean i (some a) := by
  rcases h with h | h | h
  · exact Or.inl (by simp [World.record, h])
  · exact Or.inr (Or.inl h)
  · refine Or.inr (Or.inr fun b hb hs => ?_)
    rw [entriesOf_record (Or.inl (by rw [ha]; exact hs))]
    exact h b hb hs

theorem Handling.record_ok (H : Handling i c a es grip w) (ha : e.attempt? = some a)
    (hok : o.ok = true) (audit : AuditLog) : Handling i c a (es ++ [e]) grip (w.record i e o audit) :=
  { H with
    clean := clean_record H.clean ha
    entries := by rw [entriesOf_written ha hok, H.entries] }

theorem Handling.record_lost (H : Handling i c a es grip w) (ha : e.attempt? = some a)
    (hok : o.ok = false) (audit : AuditLog) :
    (w.record i e o audit).lost = true ∧ Handling i c a es grip (w.record i e o audit) := by
  refine ⟨by simp [World.record, hok], ?_⟩
  exact { H with
    clean := clean_record H.clean ha
    entries := by rw [entriesOf_record (Or.inr hok), H.entries] }

theorem Handling.writeReq (H : Handling i c a es grip w) (ha : e.attempt? = some a)
    (hreg : e.Regular) (hatt : e.isAttempted = true → Poised i w) : GatewayReq i (.write e) w := by
  have hown : ∀ b, e.attempt? = some b → (b, i) ∈ w.attempts := by
    intro b hb
    rw [ha, Option.some.injEq] at hb
    exact hb ▸ H.owner
  obtain ⟨hby, hreq, hack, htime⟩ := Entry.of_attempt ha
  refine ⟨⟨hreg, fun _ => H.producer, fun h => ?_, hown, fun h => (hatt h).2, fun h => ?_, fun h => ?_,
    fun h => ?_⟩, fun seq h => ?_⟩
  · rw [hby] at h
    cases h
  · rw [hreq] at h
    cases h
  · rw [hack] at h
    cases h
  · rw [htime] at h
    cases h
  · rw [h] at ha
    cases ha

theorem World.Spoilt.record (h : w.Spoilt) : (w.record i e o audit).Spoilt :=
  h.imp (fun h => by simp [World.record, h]) id

/-- What a write of the handler does not touch. -/
structure Framed (i : Nat) (a : String) (F : World → Prop) : Prop where
  rely : ∀ {w w' : World}, (a, i) ∈ w.attempts → F w → Evolves i w w' → F w'
  record : ∀ {w : World} (e : Entry) (o : Outcome) (audit : AuditLog), F w → F (w.record i e o audit)

/-- A record of the attempt is written, or the run has lost a write. -/
theorem wp_auditWrite_frame {F : World → Prop} (hF : Framed i a F) (H : Handling i c a es grip w)
    (ha : e.attempt? = some a) (hreg : e.Regular) (hatt : e.isAttempted = true → Poised i w)
    (hw : F w) :
    (gatewayProtocol boot).wp i (auditWrite e) (fun _ w => Handling i c a (es ++ [e]) grip w ∧ F w)
      (fun _ w => (w.lost = true ∧ Handling i c a es grip w) ∧ F w) w := by
  refine Protocol.wp_perform fun t ht It => ?_
  have Ht := (kept_handling i c a es grip).rely H ht
  have hFt := hF.rely H.owner hw ht
  refine ⟨Ht.writeReq ha hreg fun h => (hatt h).rely ht, fun (o : Outcome) t' he => ?_⟩
  obtain ⟨audit, -, rfl⟩ := exec_write he
  have hF' := hF.record e o audit hFt
  cases hok : o.ok with
  | true =>
    have H' := Ht.record_ok ha hok audit
    cases o with
    | written ts order =>
      exact fun u hu _ => ⟨(kept_handling i c a _ grip).rely H' hu, hF.rely H'.owner hF' hu⟩
    | _ => cases hok
  | false =>
    obtain ⟨hl, H'⟩ := Ht.record_lost ha hok audit
    cases o with
    | written ts order => cases hok
    | _ =>
      exact fun u hu _ =>
        ⟨⟨hu.lost hl, (kept_handling i c a es grip).rely H' hu⟩, hF.rely H'.owner hF' hu⟩

theorem wp_auditWrite (H : Handling i c a es grip w) (ha : e.attempt? = some a) (hreg : e.Regular)
    (hatt : e.isAttempted = true → Poised i w) :
    (gatewayProtocol boot).wp i (auditWrite e) (fun _ => Handling i c a (es ++ [e]) grip)
      (fun _ w => w.lost = true ∧ Handling i c a es grip w) w :=
  Protocol.wp_mono (wp_auditWrite_frame (F := fun _ => True) ⟨fun _ h _ => h, fun _ _ _ h => h⟩
    H ha hreg hatt trivial) (fun _ _ _ h => h.1) fun _ _ _ h => h.1

/-- A further record of the attempt. -/
theorem wp_auditWrite_ended {T' : List Entry → Prop} (h : Ended i c a grip T w)
    (ha : e.attempt? = some a) (hreg : e.Regular) (hna : e.isAttempted = false)
    (hT : ∀ es, T es → T' (es ++ [e])) :
    (gatewayProtocol boot).wp i (auditWrite e) (fun _ => Ended i c a grip T')
      (fun _ => Ended i c a grip T') w := by
  obtain ⟨es, H, h⟩ := h
  have hatt : e.isAttempted = true → Poised i w := fun h => absurd h (by rw [hna]; decide)
  rcases h with hl | h
  · exact Protocol.wp_mono (wp_auditWrite_frame (F := World.Spoilt)
      ⟨fun _ h hr => h.rely hr, fun _ _ _ h => h.record⟩ H ha hreg hatt hl)
      (fun _ u _ hu => ⟨_, hu.1, Or.inl hu.2⟩) fun _ u _ hu => ⟨_, hu.1.2, Or.inl hu.2⟩
  · exact Protocol.wp_mono (wp_auditWrite H ha hreg hatt) (fun _ u _ hu => ⟨_, hu, Or.inr (hT es h)⟩)
      fun _ u _ hu => ⟨_, hu.2, Or.inl (Or.inl hu.1)⟩

/-- A write whose failure is not passed on. -/
theorem wp_settle {T' : List Entry → Prop} {E : Exn → World → Prop} (I : GatewayInv boot w)
    (h : Ended i c a grip T w) (ha : e.attempt? = some a) (hreg : e.Regular)
    (hna : e.isAttempted = false) (hT : ∀ es, T es → T' (es ++ [e])) :
    (gatewayProtocol boot).wp i (Prog.tryCatch (auditWrite e) fun _ => return ())
      (fun _ => Ended i c a grip T') E w := by
  refine Protocol.wp_tryCatch (Protocol.wp_mono (wp_auditWrite_ended h ha hreg hna hT)
    (fun _ _ _ h => h) fun _ u _ h => ?_) I
  exact wp_ret (kept_ended i c a grip T') h fun _ _ h => h

/-- A connection that is not terminal while its handler is live has not been reached by the
cancellation, so nothing has been requested yet. -/
theorem GatewayInv.not_requested (I : GatewayInv boot w) (hl : c ∈ w.live)
    (ht : (w.net.lifecycles c).terminal = false) : ¬ w.Requested := by
  intro hr
  obtain ⟨t, v, hv⟩ := I.requested hr
  have henf := I.net.enforced t v hv
  have hkilled : w.net.registry.killed = true := I.net.killed_iff.2 ⟨v, henf.killed⟩
  rcases I.live c hl with h | ⟨v', hv', hc⟩
  · rw [(I.killed hkilled).2] at h
    cases h
  · rw [I.kills v' v hv' henf.killed] at hc
    have := (henf.victims c hc).1
    rw [ht] at this
    cases this

/-- `is_terminal()` before `mark_attempted`. -/
theorem wp_checkTerminal {β : Type} {f : Bool → GProg β} {Q : β → World → Prop}
    {E : Exn → World → Prop} (H : Handling i c a es grip w)
    (hf : ∀ r w, GatewayInv boot w → Handling i c a es grip w → (r = false → Poised i w) →
      (gatewayProtocol boot).wp i (f r) Q E w) :
    (gatewayProtocol boot).wp i (issue (.checkTerminal c) >>= f) Q E w := by
  refine Protocol.wp_perform fun t ht It => ⟨trivial, fun (r : Bool) t' he => ?_⟩
  have Ht := (kept_handling i c a es grip).rely H ht
  have It' := inv_exec (c := .checkTerminal c) (i := i) It trivial he
  obtain ⟨hr, rfl⟩ := Net.give_eq_some.1 he
  refine hf r _ It' { Ht with } fun hfalse => ⟨?_, Or.inr ?_⟩
  · show i ∈ (if r then t.poised else i :: t.poised)
    rw [hfalse]
    exact List.mem_cons_self
  · exact It.not_requested Ht.live (hr.symm.trans hfalse)

end Own

end StrixPEP
