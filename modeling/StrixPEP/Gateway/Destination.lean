import StrixPEP.Gateway.Consults

/-!
# The answers that lead to a connection

`plain.connect` stands at the end of `_connect_flow` and `_inside`, behind the slot, the three decisions
of the PDP (for the CONNECT, for the request inside the tunnel, and the recheck after the intent has been
committed) and the permit.  A CONNECT that is refused a slot leaves the connection of its client open,
and the client may ask again, for another target: `connectOf` is the CONNECT that got the slot.  Each
function below is followed from its start to that call.

Principal result: `connects_handle`.
-/

namespace StrixPEP

open Threads GProg Fields

/-- A decision that was returned. -/
def decided (phase : DecidePhase) (d : Decision) : Sigma Cmd.Resp :=
  ⟨.env (.decide phase), (.ok d : Except Exn Decision)⟩

/-- What `_read_head` has received. -/
def received (chunks : List Bytes × Option Exn) : Sigma Cmd.Resp :=
  ⟨.env .recvHead, (.ok chunks : Except Exn (List Bytes × Option Exn))⟩

theorem consultations_decided (phase : DecidePhase) (d : Decision) (tr : List (Sigma Cmd.Resp)) :
    consultations (decided phase d :: tr) = decided phase d :: consultations tr := consultations_call rfl

theorem consultations_received (chunks : List Bytes × Option Exn) (tr : List (Sigma Cmd.Resp)) :
    consultations (received chunks :: tr) = received chunks :: consultations tr := consultations_call rfl

/-- A permit that `issue_permit` has returned. -/
def issued (attemptId : String) (epoch : Nat) (connId policyGeneration budgetBinding : String)
    (permit : EffectPermit) : Sigma Cmd.Resp :=
  ⟨.issuePermit attemptId epoch connId policyGeneration budgetBinding, (some permit : Option EffectPermit)⟩

/-- A permit for the policy and the budget of a decision. -/
def IssuedFor (d : Decision) (x : Sigma Cmd.Resp) : Prop :=
  ∃ attemptId epoch connId permit, x = issued attemptId epoch connId d.policyGeneration d.budgetBinding permit

/-- `target.rpartition(":")`, `p.isdigit()` and `int(p)`. -/
def targetOf (target : String) : Option (String × Nat) :=
  match PyText.rpartition ':' target.toList with
  | none => none
  | some (host, p) =>
    if PyText.isDigits p then (PyText.toPort p).map fun port => (String.ofList host, port) else none

/-- A CONNECT with a well-formed target, with its host and its port. -/
def Request.slotted : Request → Option (ConnectRequest × String × Nat)
  | .connect r => (targetOf r.target).map fun found => (r, found.1, found.2)
  | _ => Option.none

/-- What `acquire_slot()` has returned. -/
def slot (granted : Bool) : Sigma Cmd.Resp := ⟨.acquireSlot, granted⟩

/-- The answer for a slot, if it is one. -/
def slotAnswer : Sigma Cmd.Resp → Option Bool
  | ⟨.acquireSlot, (granted : Bool)⟩ => some granted
  | _ => none

/-- The answers for a slot, in a run. -/
def slotAnswers (tr : List (Sigma Cmd.Resp)) : List Bool := tr.filterMap slotAnswer

/-- The CONNECT that got the slot: every CONNECT with a well-formed target asks for one, in their order,
until the first is granted. -/
def connectOf (rs : List Request) (tr : List (Sigma Cmd.Resp)) : Option (ConnectRequest × String × Nat) :=
  (rs.filterMap Request.slotted)[(slotAnswers tr).idxOf true]?

section Slots

variable {rs : List Request} {tr : List (Sigma Cmd.Resp)}

theorem slotted_some {req : Request} {found : ConnectRequest × String × Nat} (h : req.slotted = some found) :
    ∃ r host port, req = .connect r ∧ targetOf r.target = some (host, port) ∧ found = (r, host, port) := by
  cases req with
  | connect r =>
    obtain ⟨⟨host, port⟩, htarget, rfl⟩ := Option.map_eq_some_iff.1 h
    exact ⟨r, host, port, rfl, htarget, rfl⟩
  | _ => cases h

theorem slotAnswers_append (t₁ t₂ : List (Sigma Cmd.Resp)) :
    slotAnswers (t₁ ++ t₂) = slotAnswers t₁ ++ slotAnswers t₂ := List.filterMap_append

theorem slotAnswers_filter {keep : Sigma Cmd.Resp → Bool} (h : ∀ granted, keep (slot granted) = true) :
    slotAnswers (tr.filter keep) = slotAnswers tr := by
  unfold slotAnswers
  rw [List.filterMap_filter]
  refine List.filterMap_congr fun x _ => ?_
  split
  · rfl
  · rename_i hx
    obtain ⟨c, r⟩ := x
    cases c with
    | acquireSlot => exact absurd (h r) hx
    | _ => rfl

theorem slotAnswers_consultations : slotAnswers (consultations tr) = slotAnswers tr :=
  slotAnswers_filter fun _ => rfl

theorem connectOf_congr {t₁ t₂ : List (Sigma Cmd.Resp)} (h : slotAnswers t₁ = slotAnswers t₂) :
    connectOf rs t₁ = connectOf rs t₂ := by
  unfold connectOf
  rw [h]

/-- What is done with the slot does not change whose it is. -/
theorem connectOf_append {t₁ t₂ : List (Sigma Cmd.Resp)} (h : true ∈ slotAnswers t₁) :
    connectOf rs (t₁ ++ t₂) = connectOf rs t₁ := by
  unfold connectOf
  rw [slotAnswers_append, List.idxOf_append_of_mem h]

/-- It is one of the requests. -/
theorem mem_of_connectOf {found : ConnectRequest × String × Nat} (h : connectOf rs tr = some found) :
    ∃ req ∈ rs, req.slotted = some found :=
  List.mem_filterMap.1 (List.mem_of_getElem? h)

/-- A request that asks for no slot. -/
theorem connectOf_skip {req : Request} (h : req.slotted = none) :
    connectOf (req :: rs) tr = connectOf rs tr := by
  unfold connectOf
  rw [List.filterMap_cons_none h]

/-- A CONNECT that is refused a slot. -/
theorem connectOf_refused {req : Request} {found : ConnectRequest × String × Nat}
    (h : req.slotted = some found) {t₁ t₂ : List (Sigma Cmd.Resp)} (ht : slotAnswers t₁ = [false]) :
    connectOf (req :: rs) (t₁ ++ t₂) = connectOf rs t₂ := by
  unfold connectOf
  rw [List.filterMap_cons_some h, slotAnswers_append, ht, List.singleton_append,
    List.idxOf_cons_ne _ (by decide), List.getElem?_cons_succ]

/-- A CONNECT that gets the slot. -/
theorem connectOf_granted {req : Request} {found : ConnectRequest × String × Nat}
    (h : req.slotted = some found) {answers : List Bool} (ht : slotAnswers tr = true :: answers) :
    connectOf (req :: rs) tr = some found := by
  unfold connectOf
  rw [List.filterMap_cons_some h, ht, List.idxOf_cons_self, List.getElem?_cons_zero]

end Slots

/-- The request and the recheck agree with the connection that was admitted. -/
structure Agree (s : ConnectionState) (request recheck : Decision) (pin : Pin) : Prop where
  requested : request.allow = true
  rechecked : recheck.allow = true
  pinned : s.pin = some pin
  samePin : recheck.pin = s.pin
  sameProgram : recheck.programId = s.programId
  requestGeneration : request.policyGeneration = s.policyGeneration
  requestBinding : request.budgetBinding = s.budgetBinding
  recheckGeneration : recheck.policyGeneration = request.policyGeneration
  recheckBinding : recheck.budgetBinding = request.budgetBinding

namespace Gateway

open EffectGate

variable {tr : List (Sigma Cmd.Resp)} {a c : String} {q : Pin}

theorem aside_deny (reason url method src : String) (s : Option ConnectionState) :
    Aside (deny reason url method src s) :=
  aside_bind aside_respond fun _ => aside_auditWrite _

theorem aside_denyTls (s : ConnectionState) (reason url method : String) :
    Aside (denyTls s reason url method) :=
  aside_bind aside_respond fun _ => aside_auditWrite _

/-- An outcome, and what the client is told. -/
theorem aside_settleDeny (x : Exchange) {p : GProg Unit} (hp : Aside p) (reason : String) {α : Type}
    (v : α) : Aside (do p; x.deny reason; return v) :=
  aside_bind hp fun _ => aside_bind (aside_denyTls _ _ _ _) fun _ => aside_pure v

theorem aside_relay (x : Exchange) (permit : EffectPermit) (pin : Pin) : Aside (relay x permit pin) := by
  refine aside_bind (aside_issue rfl) fun streamed => ?_
  dsimp only
  split <;>
    exact aside_bind (aside_settlePermit _ _ _ _) fun _ => aside_auditWrite _

theorem aside_cleanUp (connId : String) : Aside (cleanUp connId) :=
  aside_bind (aside_onNet _) fun _ => aside_bind (aside_issue rfl) fun _ =>
    aside_bind (aside_issue rfl) fun _ => aside_pure ()

theorem aside_endProducer : Aside endProducer := by
  refine aside_bind (aside_issue rfl) fun (ok : Bool) => ?_
  cases ok
  · exact aside_fail _
  · exact aside_pure ()

/-! ## The permit -/

theorem aside_audited (attemptId connId policyGeneration budgetBinding : String) (epoch seq : Nat)
    (permit : EffectPermit) : Aside (do
      Prog.tryCatch (auditWrite (.permit attemptId connId epoch seq policyGeneration budgetBinding)) fun _ => do
        let _ ← issue (.abandonUndurable permit.ref)
        fail .auditUnhealthy
      let bound : Bool ← issue (.bindDurableRelease permit.ref connId)
      if bound then return some permit else fail .lifecycleError) := by
  refine aside_bind (aside_tryCatch (aside_auditWrite _) fun _ => ?_) fun _ => ?_
  · exact aside_bind (aside_issue rfl) fun _ => aside_fail _
  refine aside_bind (aside_issue rfl) fun (bound : Bool) => ?_
  cases bound
  · exact aside_fail _
  · exact aside_pure _

section

variable {gate : EffectGate} {attemptId connId policyGeneration budgetBinding : String} {epoch : Nat}

theorem permitCall_not_connects :
    ¬ (gate.permitCall attemptId epoch connId policyGeneration budgetBinding).Reaches tr (.connect a c q) := by
  intro h
  unfold permitCall at h
  split at h
  · exact absurd h Prog.reaches_pure
  split at h
  · exact absurd h Prog.reaches_pure
  rcases Prog.reaches_perform.1 h with ⟨-, he⟩ | ⟨(r : Option EffectPermit), t, -, hrest⟩
  · cases he
  cases r with
  | none => exact absurd hrest Prog.reaches_pure
  | some permit => exact absurd hrest (aside_audited _ _ _ _ _ _ permit).not_connects

/-- A permit was issued once. -/
theorem path_permitCall {permit : EffectPermit}
    (h : (gate.permitCall attemptId epoch connId policyGeneration budgetBinding).Path tr (.ok (some permit))) :
    ∃ p, consultations tr = [issued attemptId epoch connId policyGeneration budgetBinding p] := by
  unfold permitCall at h
  split at h
  · cases (Prog.path_pure.1 h).2
  split at h
  · cases (Prog.path_pure.1 h).2
  obtain ⟨(r : Option EffectPermit), t, rfl, hrest⟩ := Prog.path_perform.1 h
  cases r with
  | none => cases (Prog.path_pure.1 hrest).2
  | some p =>
    refine ⟨p, (consultations_call rfl).trans ?_⟩
    rw [(aside_audited _ _ _ _ _ _ p).path hrest]
    rfl

theorem acquirePermit_not_connects :
    ¬ (gate.acquirePermit attemptId epoch connId policyGeneration budgetBinding).Reaches tr (.connect a c q) := by
  intro h
  obtain ⟨_, t, h₁, -⟩ := (aside_issue rfl).connects h
  rcases Prog.reaches_bind.1 h₁ with h₂ | ⟨_, _, _, -, -, h₂⟩
  · refine permitCall_not_connects (Aside.connects_tryCatch (fun e => ?_) h₂)
    exact aside_bind (aside_issue rfl) fun _ => aside_fail e
  · exact absurd h₂ (aside_bind (aside_issue rfl) fun _ => aside_pure _).not_connects

theorem path_acquirePermit {permit : EffectPermit}
    (h : (gate.acquirePermit attemptId epoch connId policyGeneration budgetBinding).Path tr
      (.ok (some permit))) :
    ∃ p, consultations tr = [issued attemptId epoch connId policyGeneration budgetBinding p] := by
  obtain ⟨_, t, rfl, h₁⟩ := Prog.path_perform.1 h
  rcases Prog.path_bind.1 h₁ with ⟨e, -, he⟩ | ⟨p, t₁, t₂, rfl, hcall, h₂⟩
  · cases he
  obtain ⟨_, t₃, rfl, h₃⟩ := Prog.path_perform.1 h₂
  obtain ⟨rfl, hp⟩ := Prog.path_pure.1 h₃
  cases hp
  rcases Prog.path_tryCatch.1 hcall with ⟨p, hbody, hp⟩ | ⟨e, t₄, t₅, -, -, hcaught⟩
  · cases hp
    obtain ⟨p, hc⟩ := path_permitCall hbody
    refine ⟨p, (consultations_aside rfl).trans ?_⟩
    rw [consultations_append, hc]
    rfl
  · obtain ⟨_, t₆, rfl, h₆⟩ := Prog.path_perform.1 hcaught
    cases (Prog.path_raise.1 h₆).2

end

/-! ## With a permit -/

theorem connects_openUpstream {x : Exchange} {permit : EffectPermit} {pin : Pin} {plain : Nat}
    (h : (openUpstream x permit pin plain).Reaches tr (.connect a c q)) :
    q = pin ∧ consultations tr = [] := by
  have hcatch := Aside.connects_tryCatch (fun e => ?_) h
  · rcases Prog.reaches_perform.1 hcatch with ⟨rfl, he⟩ | ⟨(r : Except Exn Unit), t, rfl, hrest⟩
    · cases he
      exact ⟨rfl, rfl⟩
    · refine absurd hrest (Aside.not_connects ?_)
      cases r with
      | error e => exact aside_fail e
      | ok u =>
        refine aside_bind (aside_ask rfl) fun up => aside_bind (aside_onNet _) fun ok => ?_
        cases ok
        · exact aside_settleDeny x (aside_settlePermit _ _ _ _) _ false
        · exact aside_pure true
  · split
    · refine aside_bind (aside_settlePermit _ _ _ _) fun _ => ?_
      exact aside_settleDeny x (aside_auditWrite _) _ false
    · exact aside_settleDeny x (aside_settlePermit _ _ _ _) _ false
    · exact aside_settleDeny x (aside_settlePermit _ _ _ _) _ false

theorem connects_permitted {x : Exchange} {permit : EffectPermit} {pin : Pin} {plain : Nat}
    (h : (permitted x permit pin plain).Reaches tr (.connect a c q)) :
    q = pin ∧ consultations tr = [] := by
  obtain ⟨(terminal : Bool), t₁, h₁, hc₁⟩ := (aside_issue rfl).connects h
  cases terminal with
  | true =>
    refine absurd h₁ (Aside.not_connects ?_)
    exact aside_bind (aside_settlePermit _ _ _ _) fun _ => aside_denyTls _ _ _ _
  | false =>
    obtain ⟨marked, t₂, h₂, hc₂⟩ := Aside.connects (by
      refine aside_tryCatch (aside_bind (aside_markAttempted _ _ _) fun _ => aside_pure true) fun e => ?_
      split
      · exact aside_bind (aside_denyTls _ _ _ _) fun _ => aside_pure false
      · exact aside_fail e) h₁
    cases marked with
    | false => exact absurd h₂ Prog.reaches_pure
    | true =>
      rw [hc₁, hc₂]
      rcases Prog.reaches_bind.1 h₂ with h₃ | ⟨up, t₃, t₄, -, -, h₄⟩
      · exact connects_openUpstream h₃
      · refine absurd h₄ (Aside.not_connects ?_)
        cases up with
        | false => exact aside_pure ()
        | true =>
          refine aside_bind (aside_ask rfl) fun _ => ?_
          refine aside_bind (aside_issue rfl) fun (sent : Except Exn Unit) => ?_
          cases sent with
          | error e => exact aside_bind (aside_settlePermit _ _ _ _) fun _ => aside_denyTls _ _ _ _
          | ok u => exact aside_relay x permit pin

theorem connects_effect {x : Exchange} {gate : EffectGate} {current : Decision} {pin : Pin}
    (h : (effect x gate current pin).Reaches tr (.connect a c q)) : q = pin ∧
      ∃ permit, consultations tr = [permit] ∧ IssuedFor current permit := by
  have hrefuse : ∀ (p : GProg Unit) (reason : String), Aside p → Aside (do p; x.deny reason) :=
    fun p reason hp => aside_bind hp fun _ => aside_denyTls _ _ _ _
  obtain ⟨(created : Except Exn Nat), t₁, h₁, hc₁⟩ := (aside_issue rfl).connects h
  cases created with
  | error e => exact absurd h₁ (hrefuse _ _ (aside_settleAttempt _ _ _ _ _)).not_connects
  | ok plain =>
    obtain ⟨tracked, t₂, h₂, hc₂⟩ := (aside_onNet _).connects h₁
    cases tracked with
    | false => exact absurd h₂ (hrefuse _ _ (aside_settleAttempt _ _ _ _ _)).not_connects
    | true =>
      rw [hc₁, hc₂]
      rcases Prog.reaches_bind.1 h₂ with h₃ | ⟨acquired, t₃, t₄, rfl, hpath, h₄⟩
      · have hbody := Aside.connects_tryCatch (fun e => by
          split
          · exact aside_bind (aside_denyTls _ _ _ _) fun _ => aside_pure none
          · exact aside_fail e) h₃
        rcases Prog.reaches_bind.1 hbody with h₅ | ⟨_, _, _, -, -, h₅⟩
        · exact absurd h₅ acquirePermit_not_connects
        · exact absurd h₅ Prog.reaches_pure
      match acquired with
      | none => exact absurd h₄ Prog.reaches_pure
      | some none => exact absurd h₄ (hrefuse _ _ (aside_settleAttempt _ _ _ _ _)).not_connects
      | some (some permit) =>
        obtain ⟨hpin, hc₄⟩ := connects_permitted (Aside.connects_tryFinally permit.aside_release h₄)
        rw [consultations_append, hc₄, List.append_nil]
        refine ⟨hpin, ?_⟩
        rcases Prog.path_tryCatch.1 hpath with ⟨v, hbody, hv⟩ | ⟨e, t₅, t₆, -, -, hcaught⟩
        · cases hv
          rcases Prog.path_bind.1 hbody with ⟨e, -, he⟩ | ⟨p, t₅, t₆, rfl, hacquire, hret⟩
          · cases he
          obtain ⟨rfl, hp⟩ := Prog.path_pure.1 hret
          cases hp
          rw [List.append_nil]
          obtain ⟨p, hc⟩ := path_acquirePermit hacquire
          exact ⟨_, hc, _, _, _, p, rfl⟩
        · -- the handler ends without a permit
          split at hcaught
          · rcases Prog.path_bind.1 hcaught with ⟨e, -, he⟩ | ⟨_, _, _, -, -, hret⟩
            · cases he
            · cases (Prog.path_pure.1 hret).2
          · cases (Prog.path_raise.1 hcaught).2

/-! ## From the recheck back to the CONNECT -/

theorem connects_recheck {x : Exchange} {gate : EffectGate}
    (h : (recheck x gate).Reaches tr (.connect a c q)) :
    ∃ d permit, consultations tr = [decided .recheck d, permit] ∧ IssuedFor d permit ∧
      (x.decision.allow = true → x.decision.policyGeneration = x.state.policyGeneration →
        x.decision.budgetBinding = x.state.budgetBinding → Agree x.state x.decision d q) := by
  rcases Prog.reaches_perform.1 h with ⟨-, he⟩ | ⟨(answer : Except Exn Decision), t, rfl, h₁⟩
  · cases he
  cases answer with
  | error e =>
    refine absurd h₁ (Aside.not_connects ?_)
    exact aside_bind (aside_settleAttempt _ _ _ _ _) fun _ => aside_denyTls _ _ _ _
  | ok d =>
    dsimp only at h₁
    split at h₁
    · refine absurd h₁ (Aside.not_connects ?_)
      exact aside_bind (aside_settleAttempt _ _ _ _ _) fun _ => aside_denyTls _ _ _ _
    rename_i hsame
    simp only [not_or, not_not, Bool.not_eq_true] at hsame
    obtain ⟨hallow, hprogram, hpin, hgen, hbinding⟩ := hsame
    split at h₁
    · exact absurd h₁ Prog.reaches_raise
    · rename_i pin hstate
      obtain ⟨_, t₂, h₂, hc₂⟩ := (aside_ask rfl).connects h₁
      obtain ⟨rfl, permit, hc, hissued⟩ := connects_effect h₂
      refine ⟨d, permit, ?_, hissued, fun hreq hgen₁ hbind₁ => ⟨hreq, by simpa using hallow, hstate, hpin,
        hprogram, hgen₁, hbind₁, hgen, hbinding⟩⟩
      exact (consultations_decided _ _ _).trans (by rw [hc₂, hc])

theorem connects_committing {t : Tunnel} {head : Head} {d : Decision} (hallow : d.allow = true)
    (h : (committing t head d).Reaches tr (.connect a c q)) :
    ∃ d' permit, consultations tr = [decided .recheck d', permit] ∧ IssuedFor d' permit ∧
      Agree t.state d d' q := by
  obtain ⟨(epoch : Nat), t₁, h₁, hc₁⟩ := (aside_issue rfl).connects h
  obtain ⟨(uuid : String), t₂, h₂, hc₂⟩ := (aside_issue rfl).connects h₁
  dsimp only at h₂
  split at h₂
  · exact absurd h₂ (aside_denyTls _ _ _ _).not_connects
  rename_i hsame
  rw [not_or, not_not, not_not] at hsame
  obtain ⟨(runId : String), t₃, h₃, hc₃⟩ := (aside_issue rfl).connects h₂
  obtain ⟨committed, t₄, h₄, hc₄⟩ := Aside.connects (aside_tryCatch
    (aside_bind (aside_commitIntent _ _) fun gate => aside_pure _) fun e => by
      split
      · exact aside_bind (aside_denyTls _ _ _ _) fun _ => aside_pure none
      · exact aside_bind (aside_denyTls _ _ _ _) fun _ => aside_pure none
      · exact aside_fail e) h₃
  cases committed with
  | none => exact absurd h₄ Prog.reaches_pure
  | some gate =>
    obtain ⟨d', permit, hc, hissued, hagree⟩ := connects_recheck h₄
    rw [hc₁, hc₂, hc₃, hc₄]
    exact ⟨d', permit, hc, hissued, hagree hallow hsame.1 hsame.2⟩

theorem connects_allowed {t : Tunnel} {head : Head} {d : Decision} (hallow : d.allow = true)
    (h : (allowed t head d).Reaches tr (.connect a c q)) :
    ∃ d' permit, consultations tr = [decided .recheck d', permit] ∧ IssuedFor d' permit ∧
      Agree t.state d d' q := by
  unfold allowed at h
  split at h
  · obtain ⟨_, t₁, h₁, hc₁⟩ := (aside_issue rfl).connects h
    rw [hc₁]
    exact connects_committing hallow h₁
  · exact connects_committing hallow h

section

variable {canonicalHost : String → Option String}

theorem connects_request {t : Tunnel} {head : Head}
    (h : (request canonicalHost t head).Reaches tr (.connect a c q)) :
    ∃ d d' permit, consultations tr = [decided .request d, decided .recheck d', permit] ∧
      IssuedFor d' permit ∧ Agree t.state d d' q := by
  unfold request at h
  dsimp only at h
  split at h
  · exact absurd h (aside_denyTls _ _ _ _).not_connects
  rcases Prog.reaches_perform.1 h with ⟨-, he⟩ | ⟨(answer : Except Exn Decision), t₁, rfl, h₁⟩
  · cases he
  cases answer with
  | error e => exact absurd h₁ (aside_denyTls _ _ _ _).not_connects
  | ok d =>
    dsimp only at h₁
    split at h₁
    · exact absurd h₁ (aside_denyTls _ _ _ _).not_connects
    rename_i hallow
    obtain ⟨d', permit, hc, hissued, hagree⟩ := connects_allowed (by simpa using hallow) h₁
    exact ⟨d, d', permit, (consultations_decided _ _ _).trans (by rw [hc]), hissued, hagree⟩

theorem connects_inside {t : Tunnel} (h : (inside canonicalHost t).Reaches tr (.connect a c q)) :
    ∃ chunks head d d' permit, readHead [] chunks.1 = .head head ∧
      consultations tr = [received chunks, decided .request d, decided .recheck d', permit] ∧
      IssuedFor d' permit ∧ Agree t.state d d' q := by
  unfold inside at h
  split at h
  · exact absurd h (aside_denyTls _ _ _ _).not_connects
  rcases Prog.reaches_bind.1 h with h₁ | ⟨chunks, t₁, t₂, rfl, hpath, h₂⟩
  · rcases Prog.reaches_perform.1 h₁ with ⟨-, he⟩ | ⟨(r : Except Exn (List Bytes × Option Exn)), t₁, -, h₂⟩
    · cases he
    · cases r with
      | ok v => exact absurd h₂ Prog.reaches_pure
      | error e => exact absurd h₂ Prog.reaches_raise
  obtain ⟨(r : Except Exn (List Bytes × Option Exn)), t₃, rfl, hr⟩ := Prog.path_perform.1 hpath
  cases r with
  | error e => cases hr.2
  | ok v =>
    obtain ⟨rfl, hv⟩ := Prog.path_pure.1 hr
    cases hv
    split at h₂
    · rename_i head hread
      obtain ⟨d, d', permit, hc, hissued, hagree⟩ := connects_request h₂
      refine ⟨chunks, head, d, d', permit, hread, ?_, hissued, hagree⟩
      exact (consultations_received chunks t₂).trans (by rw [hc])
    · exact absurd h₂ Prog.reaches_raise
    · exact absurd h₂ (aside_auditWrite _).not_connects

theorem connects_handshake {s : ConnectionState} {r : ConnectRequest} {port : Nat}
    (h : (handshake canonicalHost s r port).Reaches tr (.connect a c q)) :
    ∃ chunks head d d' permit, readHead [] chunks.1 = .head head ∧
      consultations tr = [received chunks, decided .request d, decided .recheck d', permit] ∧
      IssuedFor d' permit ∧ Agree s d d' q := by
  obtain ⟨_, t₁, h₁, hc₁⟩ := (aside_onNet _).connects h
  obtain ⟨_, t₂, h₂, hc₂⟩ := (aside_ask rfl).connects h₁
  obtain ⟨(wrapped : Except Exn (Nat × Option String)), t₃, h₃, hc₃⟩ := (aside_issue rfl).connects h₂
  cases wrapped with
  | error e =>
    dsimp only at h₃
    split at h₃
    · exact absurd h₃ (aside_auditWrite _).not_connects
    · exact absurd h₃ Prog.reaches_raise
  | ok w =>
    obtain ⟨ok, t₄, h₄, hc₄⟩ := (aside_onNet _).connects h₃
    cases ok with
    | false => exact absurd h₄ Prog.reaches_pure
    | true =>
      rw [hc₁, hc₂, hc₃, hc₄]
      exact connects_inside h₄

/-- The state of a connection that was admitted. -/
def admittedState (s : ConnectionState) (host : String) (d : Decision) : ConnectionState :=
  { s with
    pin := d.pin
    canonical := canonicalHost host
    programId := d.programId
    policyGeneration := d.policyGeneration
    budgetBinding := d.budgetBinding }

/-- What a connection has asked when it connects. -/
structure Consulted (canonicalHost : String → Option String) (s : ConnectionState) (host : String)
    (asked : List (Sigma Cmd.Resp)) (pin : Pin) (admission request recheck : Decision)
    (chunks : List Bytes × Option Exn) (head : Head) : Prop where
  order : ∃ refusals permit, asked = (List.replicate refusals false ++ [true]).map slot ++
      [decided .admission admission, received chunks, decided .request request, decided .recheck recheck,
        permit] ∧
    IssuedFor recheck permit
  admitted : admission.allow = true
  read : readHead [] chunks.1 = .head head
  agree : Agree (@admittedState canonicalHost s host admission) request recheck pin

/-- A handler that connects has not done so before. -/
theorem Consulted.fresh {s : ConnectionState} {host : String} {asked : List (Sigma Cmd.Resp)} {pin : Pin}
    {d₁ d₂ d₃ : Decision} {chunks : List Bytes × Option Exn} {head : Head}
    (h : Consulted canonicalHost s host asked pin d₁ d₂ d₃ chunks head) :
    ∀ x ∈ asked, ∀ a c q, x.1 ≠ .connect a c q := by
  obtain ⟨refusals, permit, horder, attemptId, epoch, connId, p, rfl⟩ := h.order
  rw [horder]
  intro x hx a c q
  rcases List.mem_append.1 hx with hx | hx
  · obtain ⟨granted, -, rfl⟩ := List.mem_map.1 hx
    nofun
  · simp only [List.mem_cons, List.not_mem_nil, or_false] at hx
    rcases hx with rfl | rfl | rfl | rfl | rfl <;> nofun

/-- It has got a slot. -/
theorem Consulted.granted {s : ConnectionState} {host : String} {asked : List (Sigma Cmd.Resp)} {pin : Pin}
    {d₁ d₂ d₃ : Decision} {chunks : List Bytes × Option Exn} {head : Head}
    (h : Consulted canonicalHost s host asked pin d₁ d₂ d₃ chunks head) : true ∈ slotAnswers asked := by
  obtain ⟨refusals, permit, horder, -⟩ := h.order
  rw [horder]
  exact List.mem_filterMap.2 ⟨slot true, by simp, rfl⟩

/-- One more refusal before it. -/
theorem Consulted.refused {s : ConnectionState} {host : String} {asked : List (Sigma Cmd.Resp)} {pin : Pin}
    {d₁ d₂ d₃ : Decision} {chunks : List Bytes × Option Exn} {head : Head}
    (h : Consulted canonicalHost s host asked pin d₁ d₂ d₃ chunks head) :
    Consulted canonicalHost s host (slot false :: asked) pin d₁ d₂ d₃ chunks head := by
  obtain ⟨refusals, permit, horder, hissued⟩ := h.order
  exact { h with order := ⟨refusals + 1, permit, by rw [horder, List.replicate_succ]; rfl, hissued⟩ }

theorem connects_connectFlow {s : ConnectionState} {r : ConnectRequest} {host : String} {port : Nat}
    (h : (connectFlow canonicalHost s r host port).Reaches tr (.connect a c q)) :
    ∃ d₁ d₂ d₃ chunks head,
      Consulted canonicalHost s host (slot true :: consultations tr) q d₁ d₂ d₃ chunks head := by
  rcases Prog.reaches_perform.1 h with ⟨-, he⟩ | ⟨(answer : Except Exn Decision), t₁, rfl, h₁⟩
  · cases he
  cases answer with
  | error e => exact absurd h₁ (aside_deny _ _ _ _ _).not_connects
  | ok d =>
    dsimp only at h₁
    split at h₁
    · exact absurd h₁ (aside_deny _ _ _ _ _).not_connects
    rename_i hallow
    obtain ⟨(leaf : Except Exn Unit), t₂, h₂, hc₂⟩ := (aside_issue rfl).connects h₁
    cases leaf with
    | error e =>
      dsimp only at h₂
      split at h₂
      · exact absurd h₂ (aside_deny _ _ _ _ _).not_connects
      · exact absurd h₂ Prog.reaches_raise
    | ok u =>
      obtain ⟨_, t₃, h₃, hc₃⟩ := (aside_ask rfl).connects h₂
      obtain ⟨_, t₄, h₄, hc₄⟩ := (aside_ask rfl).connects h₃
      obtain ⟨(loaded : Except Exn Unit), t₅, h₅, hc₅⟩ := (aside_issue rfl).connects h₄
      cases loaded with
      | error e => exact absurd h₅ (aside_deny _ _ _ _ _).not_connects
      | ok v =>
        obtain ⟨chunks, head, d₂, d₃, permit, hread, hc, hissued, hagree⟩ := connects_handshake h₅
        refine ⟨d, d₂, d₃, chunks, head, ⟨0, permit, ?_, hissued⟩, by simpa using hallow, hread, hagree⟩
        have hasked : consultations (decided .admission d :: t₁) = [decided .admission d, received chunks,
            decided .request d₂, decided .recheck d₃, permit] := by
          rw [consultations_decided, hc₂, hc₃, hc₄, hc₅, hc]
        exact congrArg (slot true :: ·) hasked

/-! ## The handler -/

theorem connects_connection {r : ConnectRequest} {host : String} {port : Nat}
    (h : (connection canonicalHost r host port).Reaches tr (.connect a c q)) :
    ∃ s d₁ d₂ d₃ chunks head,
      Consulted canonicalHost s host (slot true :: consultations tr) q d₁ d₂ d₃ chunks head := by
  obtain ⟨(connId : String), t₁, h₁, hc₁⟩ := (aside_issue rfl).connects h
  have hbody := Aside.connects_tryFinally (aside_cleanUp connId) h₁
  have hflow := Aside.connects_tryCatch (fun e => aside_auditWrite _) hbody
  obtain ⟨(added : Bool), t₂, h₂, hc₂⟩ := (aside_issue rfl).connects hflow
  cases added with
  | false => exact absurd h₂ (aside_auditWrite _).not_connects
  | true =>
    rw [hc₁, hc₂]
    exact ⟨_, connects_connectFlow h₂⟩

theorem aside_denyEarly (reason url method src : String) : Aside (denyEarly reason url method src) :=
  aside_bind (aside_deny _ _ _ _ _) fun _ => aside_pure true

/-- A CONNECT whose target is not well-formed asks for no slot. -/
theorem aside_doConnect {r : ConnectRequest} (h : targetOf r.target = none) :
    Aside (doConnect canonicalHost r) := by
  unfold targetOf at h
  unfold doConnect
  dsimp only
  split
  · exact aside_denyEarly _ _ _ _
  rename_i host p hcut
  rw [hcut] at h
  split
  · exact aside_denyEarly _ _ _ _
  rename_i hdigits
  simp only [Bool.not_eq_true, Bool.not_eq_false'] at hdigits
  split
  · exact aside_fail _
  rename_i port hport
  simp [hdigits, hport] at h

/-- Another one asks for one at once. -/
theorem doConnect_slotted {r : ConnectRequest} {host : String} {port : Nat}
    (h : targetOf r.target = some (host, port)) :
    doConnect canonicalHost r = issue .acquireSlot >>= fun (acquired : Bool) =>
      if !acquired then denyEarly "CONCURRENCY_LIMIT_REACHED" s!"CONNECT {r.target}" "CONNECT" r.clientIp
      else do
        connection canonicalHost r host port
        return false := by
  unfold targetOf at h
  split at h
  · cases h
  rename_i host' p hcut
  split at h
  · rename_i hdigits
    cases hport : PyText.toPort p with
    | none =>
      rw [hport] at h
      cases h
    | some port' =>
      rw [hport] at h
      cases h
      unfold doConnect
      simp only [hcut, hdigits, hport]
      rfl
  · cases h

/-- `try` around a dispatch and `flush`, with what ends it caught. -/
theorem path_turn {p : GProg Bool} {t : List (Sigma Cmd.Resp)} {more : Bool}
    (h : (Prog.tryCatch
      (do
        let more ← p
        let _ ← ask .flush
        return more)
      fun e => if e.cls = .timeout then return false else fail e).Path t (.ok more)) (hmore : more = true) :
    ∃ t₁ t₂, t = t₁ ++ t₂ ∧ p.Path t₁ (.ok true) ∧ consultations t₂ = [] := by
  subst hmore
  rcases Prog.path_tryCatch.1 h with ⟨v, hv, hok⟩ | ⟨e, t₃, t₄, -, -, hcaught⟩
  · cases hok
    rcases Prog.path_bind.1 hv with ⟨e, -, he⟩ | ⟨v, t₁, t₂, rfl, hp, hflush⟩
    · cases he
    have haside : Aside (ask .flush >>= fun _ => (pure v : GProg Bool)) :=
      aside_bind (aside_ask rfl) fun _ => aside_pure v
    refine ⟨t₁, t₂, rfl, ?_, haside.path hflush⟩
    rcases Prog.path_bind.1 hflush with ⟨e, -, he⟩ | ⟨_, _, _, -, -, hret⟩
    · cases he
    · cases (Prog.path_pure.1 hret).2
      exact hp
  · split at hcaught
    · cases (Prog.path_pure.1 hcaught).2
    · cases (Prog.path_raise.1 hcaught).2

/-- Only `do_CONNECT` with a slot connects, and it is the last request of its client. -/
theorem connects_requests {rs : List Request}
    (h : (requests canonicalHost rs).Reaches tr (.connect a c q)) :
    ∃ r host port s d₁ d₂ d₃ chunks head, connectOf rs tr = some (r, host, port) ∧
      Consulted canonicalHost s host (consultations tr) q d₁ d₂ d₃ chunks head := by
  induction rs generalizing tr with
  | nil => exact absurd h Prog.reaches_pure
  | cons req rs ih =>
    have hcaught : ∀ e : Exn, Aside (if e.cls = .timeout then return false else fail e : GProg Bool) := by
      intro e
      split
      · exact aside_pure false
      · exact aside_fail e
    cases hslot : req.slotted with
    | none =>
      -- a request that asks for no slot asks nothing, and the loop goes on
      have hdispatch : Aside (dispatch canonicalHost req) := by
        cases req with
        | none failure =>
          cases failure with
          | none => exact aside_pure true
          | some e => exact aside_fail e
        | get path ip => exact aside_denyEarly _ _ _ _
        | other method path ip => exact aside_denyEarly _ _ _ _
        | connect r => exact aside_doConnect (Option.map_eq_none_iff.1 hslot)
      obtain ⟨more, t₁, h₁, hc₁⟩ := Aside.connects (aside_tryCatch
        (aside_bind hdispatch fun more => aside_bind (aside_ask rfl) fun _ => aside_pure more) hcaught) h
      cases more with
      | false => exact absurd h₁ Prog.reaches_pure
      | true =>
        have hsame : slotAnswers tr = slotAnswers t₁ := by
          rw [← slotAnswers_consultations, hc₁, slotAnswers_consultations]
        rw [connectOf_skip hslot, connectOf_congr hsame, hc₁]
        exact ih h₁
    | some found =>
      obtain ⟨r, host, port, rfl, htarget, rfl⟩ := slotted_some hslot
      have hdispatch : dispatch canonicalHost (.connect r) = _ := doConnect_slotted htarget
      rcases Prog.reaches_bind.1 h with h₁ | ⟨more, t₁, t₂, rfl, hpath, h₂⟩
      · have hbody := Aside.connects_tryCatch hcaught h₁
        rcases Prog.reaches_bind.1 hbody with h₃ | ⟨more, t₃, t₄, -, -, h₄⟩
        · rw [hdispatch] at h₃
          rcases Prog.reaches_perform.1 h₃ with ⟨-, he⟩ | ⟨(acquired : Bool), t, rfl, h₄⟩
          · cases he
          cases acquired with
          | false => exact absurd h₄ (aside_denyEarly _ _ _ _).not_connects
          | true =>
            rcases Prog.reaches_bind.1 h₄ with h₅ | ⟨_, _, _, -, -, h₆⟩
            · obtain ⟨s, d₁, d₂, d₃, chunks, head, hcons⟩ := connects_connection h₅
              refine ⟨r, host, port, s, d₁, d₂, d₃, chunks, head, ?_, ?_⟩
              · have hgranted : slotAnswers (⟨.acquireSlot, true⟩ :: t) = true :: slotAnswers t := rfl
                exact connectOf_granted hslot hgranted
              · have hasked : consultations (⟨.acquireSlot, true⟩ :: t) = slot true :: consultations t :=
                  consultations_call rfl
                rwa [hasked]
            · exact absurd h₆ Prog.reaches_pure
        · exact absurd h₄ (aside_bind (aside_ask rfl) fun _ => aside_pure more).not_connects
      · -- the loop goes on after a refusal only
        cases more with
        | false => exact absurd h₂ Prog.reaches_pure
        | true =>
          obtain ⟨t₃, t₄, rfl, hp, hflush⟩ := path_turn hpath rfl
          rw [hdispatch] at hp
          obtain ⟨(acquired : Bool), t, rfl, hrest⟩ := Prog.path_perform.1 hp
          cases acquired with
          | true =>
            rcases Prog.path_bind.1 hrest with ⟨e, -, he⟩ | ⟨_, _, _, -, -, hret⟩
            · cases he
            · cases (Prog.path_pure.1 hret).2
          | false =>
            have hasked : consultations (⟨.acquireSlot, false⟩ :: t ++ t₄) = [slot false] := by
              rw [consultations_append, hflush, List.append_nil]
              exact congrArg (slot false :: ·) ((aside_denyEarly _ _ _ _).path hrest)
            obtain ⟨r', host', port', s, d₁, d₂, d₃, chunks, head, hconnect, hcons⟩ := ih h₂
            refine ⟨r', host', port', s, d₁, d₂, d₃, chunks, head, ?_, ?_⟩
            · rw [connectOf_refused hslot, hconnect]
              rw [← slotAnswers_consultations, hasked]
              rfl
            · rw [consultations_append, hasked]
              exact hcons.refused

/-- **When a handler connects**, it has been refused a slot a number of times and has then got one, and
has asked for three decisions and one request, in this order and no others; all three allow, and they
agree on the pin, the program, the policy and the budget.  The host is that of the CONNECT that got the
slot. -/
theorem connects_handle {rs : List Request}
    (h : (handle canonicalHost rs).Reaches tr (.connect a c q)) :
    ∃ r host port s d₁ d₂ d₃ chunks head, connectOf rs tr = some (r, host, port) ∧
      Consulted canonicalHost s host (consultations tr) q d₁ d₂ d₃ chunks head := by
  obtain ⟨(ok : Bool), t₁, h₁, hc₁⟩ := (aside_issue rfl).connects h
  cases ok with
  | false => exact absurd h₁ Prog.reaches_pure
  | true =>
    have hsame : slotAnswers tr = slotAnswers t₁ := by
      rw [← slotAnswers_consultations, hc₁, slotAnswers_consultations]
    rw [connectOf_congr hsame, hc₁]
    exact connects_requests (Aside.connects_tryFinally aside_endProducer h₁)

end

end Gateway

end StrixPEP
