import StrixPEP.Verifier.Steps

/-!
# How the history check ends early

`Stops P c` says that every way in which the check `c` ends early, by returning a rejection or by
raising, satisfies `P`; one rule for each construction.

Principal result: `validateHistory_order` — a history in which no `EFFECT_ATTEMPTED` follows a
`CANCELLATION_REQUESTED` is not rejected with `POST_CANCELLATION_EFFECT`.
-/

namespace StrixPEP

namespace VerifyE10

/-- Every early end of the check satisfies `P`. -/
def Stops {α : Type} (P : Stop → Prop) (c : Check α) : Prop := ∀ e, c = .error e → P e

section

variable {α β : Type} {P : Stop → Prop} {s : Status} {d : String}

theorem stops_ok {a : α} : Stops P (.ok a : Check α) := fun _ h => by cases h

theorem stops_pure {a : α} : Stops P (pure a : Check α) := fun _ h => by cases h

theorem stops_error {e : Stop} (h : P e) : Stops P (.error e : Check α) := fun _ he => by
  cases he
  exact h

theorem stops_bind {x : Check α} {f : α → Check β} (hx : Stops P x)
    (hf : ∀ a, x = .ok a → Stops P (f a)) : Stops P (x >>= f) := by
  cases x with
  | error e => exact stops_error (hx e rfl)
  | ok a => exact hf a rfl

theorem stops_bind_iff {x : Check α} {f : α → Check β} :
    Stops P (x >>= f) ↔ Stops P x ∧ ∀ a, x = .ok a → Stops P (f a) := by
  refine ⟨fun h => ?_, fun h => stops_bind h.1 h.2⟩
  cases x with
  | error e =>
    refine ⟨stops_error (h e rfl), fun b hb => ?_⟩
    cases hb
  | ok a =>
    refine ⟨stops_ok, fun b hb => ?_⟩
    cases hb
    exact h

theorem stops_reject (h : P (.returned { status := s, detail := d })) :
    Stops P (reject s d : Check α) := stops_error h

theorem stops_rejectIf {bad : Bool} (h : bad = true → P (.returned { status := s, detail := d })) :
    Stops P (rejectIf bad s d) := by
  unfold rejectIf
  split
  · rename_i hb
    exact stops_reject (h hb)
  · exact stops_ok

theorem stops_eval {x : Except PyError α} (h : ∀ e, x = .error e → P (.raised e)) :
    Stops P (eval x) := by
  cases x with
  | ok a => exact stops_ok
  | error e => exact stops_error (h e rfl)

theorem stops_onlyIf {cond : Bool} {check : Check Unit} (h : cond = true → Stops P check) :
    Stops P (onlyIf cond check) := by
  unfold onlyIf
  split
  · rename_i hc
    exact h hc
  · exact stops_ok

end

/-! ## Effects after the cancellation -/

/-- The check does not end with `POST_CANCELLATION_EFFECT`. -/
def Orderly (e : Stop) : Prop := ∀ r, e = .returned r → r.status ≠ .postCancellationEffect

section

variable {α β : Type} {sc : Scan} {st : Status} {d : String} {r : Record} {aid : String}

@[simp] theorem orderly_raised (e : PyError) : Orderly (.raised e) := nofun

@[simp] theorem orderly_returned {r : Rejection} :
    Orderly (.returned r) ↔ r.status ≠ .postCancellationEffect :=
  ⟨fun h => h r rfl, fun h _ he => by cases he; exact h⟩

@[simp] theorem orderly_error {e : Stop} : Stops Orderly (.error e : Check α) ↔ Orderly e :=
  ⟨fun h => h e rfl, stops_error⟩

@[simp] theorem orderly_ok {a : α} : Stops Orderly (.ok a : Check α) := stops_ok

@[simp] theorem orderly_pure {a : α} : Stops Orderly (pure a : Check α) := stops_pure

@[simp] theorem orderly_bind {x : Check α} {f : α → Check β} :
    Stops Orderly (x >>= f) ↔ Stops Orderly x ∧ ∀ a, x = .ok a → Stops Orderly (f a) := stops_bind_iff

@[simp] theorem orderly_map {x : Check α} {f : α → β} :
    Stops Orderly (f <$> x) ↔ Stops Orderly x := by
  cases x with
  | error e => exact ⟨fun h => stops_error (h e rfl), fun h => stops_error (h e rfl)⟩
  | ok a => exact ⟨fun _ => stops_ok, fun _ => stops_ok⟩

@[simp] theorem orderly_reject :
    Stops Orderly (reject st d : Check α) ↔ st ≠ .postCancellationEffect := by
  simp [reject]

@[simp] theorem orderly_rejectIf {bad : Bool} :
    Stops Orderly (rejectIf bad st d) ↔ (bad = true → st ≠ .postCancellationEffect) := by
  unfold rejectIf
  cases bad <;> simp

@[simp] theorem orderly_eval {x : Except PyError α} : Stops Orderly (eval x) :=
  stops_eval fun e _ => orderly_raised e

theorem orderly_rejectAny {xs : List (Except PyError Bool)} (h : st ≠ .postCancellationEffect) :
    Stops Orderly (rejectAny xs st d) := by
  simp [rejectAny, h]

/-! ### The branches -/

theorem orderly_ownSequence {seq : Int} {owner : String} : Stops Orderly (ownSequence sc seq owner) := by
  unfold ownSequence
  split <;> simp

theorem orderly_countError : Stops Orderly (countError r) := by
  simp [countError]

theorem orderly_notBeforeCancel {cancel : Option Record} {seq : Int}
    (h : st ≠ .postCancellationEffect) : Stops Orderly (notBeforeCancel cancel seq r st d) := by
  unfold notBeforeCancel
  split
  · simp
  · exact orderly_rejectAny h

theorem orderly_checkPermitFields {auth : Record} {fields : List String} :
    Stops Orderly (checkPermitFields r auth aid fields) := by
  induction fields with
  | nil => simp [checkPermitFields]
  | cons f fields ih => simp [checkPermitFields, orderly_rejectAny, ih]

theorem orderly_checkLinearized {seq : Int} {attempts : List (String × Attempt)} :
    Stops Orderly (checkLinearized r seq attempts) := by
  induction attempts with
  | nil => simp [checkLinearized]
  | cons e attempts ih =>
    have hpermit : Stops Orderly (checkPermitBefore seq e.1 e.2.permit) := by
      unfold checkPermitBefore
      split <;> simp
    simp [checkLinearized, orderly_rejectAny, ih, hpermit]

theorem orderly_onAuth : Stops Orderly (onAuth sc r aid) := by
  simp [onAuth, orderly_ownSequence, orderly_notBeforeCancel]

theorem orderly_onPermit : Stops Orderly (onPermit sc r aid) := by
  unfold onPermit
  split <;> simp [orderly_ownSequence, orderly_notBeforeCancel, orderly_checkPermitFields]

/-- `EFFECT_ATTEMPTED` in a run that nobody has asked to cancel. -/
theorem orderly_onAttempted (h : sc.runState = .running) : Stops Orderly (onAttempted sc r aid) := by
  unfold onAttempted
  split
  · simp [h]
  · split <;> simp [h, orderly_rejectAny]

theorem orderly_onTerminal {k : Kind} : Stops Orderly (onTerminal sc k r aid) := by
  have hpermit : ∀ p, Stops Orderly (checkTerminalPermit p r aid) := by
    intro p
    unfold checkTerminalPermit
    split <;> simp
  unfold onTerminal
  split <;> simp [orderly_rejectAny, hpermit]

theorem orderly_onAllow : Stops Orderly (onAllow sc r aid) := by
  unfold onAllow
  split
  · simp
  · split <;> simp

theorem orderly_onReleased : Stops Orderly (onReleased sc r aid) := by
  unfold onReleased
  split
  · simp
  · split <;> simp [orderly_rejectAny, orderly_ownSequence]

theorem orderly_onLinearized : Stops Orderly (onLinearized sc r) := by
  unfold onLinearized
  split <;> simp [orderly_rejectAny, orderly_ownSequence, orderly_checkLinearized]

theorem orderly_onKillSwitch : Stops Orderly (onKillSwitch sc r) := by
  unfold onKillSwitch
  repeat' split
  all_goals simp [orderly_countError, orderly_rejectAny]

theorem orderly_onDisposition {k : Kind} : Stops Orderly (onDisposition sc k r) := by
  unfold onDisposition
  split
  · simp
  · split <;> simp [orderly_countError, orderly_rejectAny]

theorem orderly_onRunClosed : Stops Orderly (onRunClosed sc r) := by
  unfold onRunClosed
  split <;> simp [orderly_countError, orderly_rejectAny]

theorem orderly_onConnectionTerminated : Stops Orderly (onConnectionTerminated sc r aid) := by
  unfold onConnectionTerminated
  split
  · simp
  · split <;> simp [orderly_rejectAny]

theorem orderly_onActive {k : Kind} (h : k = .attempted → sc.runState = .running) :
    Stops Orderly (onActive sc k r) := by
  cases k with
  | auth => exact orderly_onAuth
  | permit => exact orderly_onPermit
  | attempted => exact orderly_onAttempted (h rfl)
  | completed | failed | unknown | cancelled => exact orderly_onTerminal
  | allow => exact orderly_onAllow
  | permitReleased => exact orderly_onReleased
  | cancelRequested => simp [onActive, onCancelRequested]
  | cancelLinearized => exact orderly_onLinearized
  | killSwitch => exact orderly_onKillSwitch
  | cancelAck | cancelDrainTimeout => exact orderly_onDisposition
  | runClosed => exact orderly_onRunClosed
  | connectionTerminated => exact orderly_onConnectionTerminated
  | blockedByPolicy => simp [onActive, onBlocked, orderly_rejectAny]
  | startup | startupDegraded | startupFailed => simp [onActive]

/-- The cancellation has been requested, and nothing has ended the run yet. -/
def RunState.cancelling (s : RunState) : Bool := decide (s = .cancelRequested ∨ s = .cancelLinearized)

theorem orderly_step {i : Nat} (h : r.kind? = some .attempted → sc.runState.cancelling = false) :
    Stops Orderly (step sc i r) := by
  unfold step
  split
  · simp
  rename_i k hk
  refine stops_bind (by simp [checkRunState]) fun _ hc => ?_
  split
  · simp [onStartupDegraded]
  · simp [onStartupFailed]
  · simp [onStartup]
  refine orderly_onActive fun hattempted => ?_
  subst hattempted
  have hnot := h hk
  simp only [checkRunState, bind_ok, rejectIf_ok] at hc
  obtain ⟨-, hopen, hend⟩ := hc
  simp only
  cases hs : sc.runState <;> simp_all [RunState.cancelling]

/-- What an accepted record does to the phase of the run. -/
theorem Accepts.cancelling {sc' : Scan} (h : Accepts sc r sc')
    (hc : sc'.runState.cancelling = true) :
    sc.runState.cancelling = true ∨ r.kind? = some .cancelRequested := by
  cases h with
  | startupDegraded hk hrun => exact Or.inl hc
  | startupFailed hk hrun => cases hc
  | startup hk hrun => exact Or.inl hc
  | attempt => exact Or.inl hc
  | cancelRequested hk => exact Or.inr hk
  | cancelLinearized hk hrun => exact Or.inl (by simp [hrun, RunState.cancelling])
  | killSwitch hk hrun => exact Or.inl hc
  | cancelAck => cases hc
  | cancelDrainTimeout => cases hc
  | runClosed => cases hc
  | blockedByPolicy => exact Or.inl hc

/-- No `EFFECT_ATTEMPTED` follows a `CANCELLATION_REQUESTED`. -/
def AttemptsFirst (records : List Record) : Prop :=
  records.Pairwise fun x y => x.kind? = some .cancelRequested → y.kind? ≠ some .attempted

theorem orderly_scan {i : Nat} {records : List Record} (h : AttemptsFirst records)
    (hs : sc.runState.cancelling = true → ∀ y ∈ records, y.kind? ≠ some .attempted) :
    Stops Orderly (scan sc i records) := by
  induction records generalizing sc i with
  | nil => exact stops_ok
  | cons x records ih =>
    unfold AttemptsFirst at h
    rw [List.pairwise_cons] at h
    refine stops_bind (orderly_step fun hk => ?_) fun sc' hstep => ih h.2 fun hc y hy => ?_
    · cases hc : sc.runState.cancelling with
      | false => rfl
      | true => exact absurd hk (hs hc x List.mem_cons_self)
    · rcases (step_accepts hstep).cancelling hc with hc | hk
      · exact hs hc y (List.mem_cons_of_mem _ hy)
      · exact h.1 y hy hk

theorem orderly_schemaError {i : Nat} : Stops Orderly (schemaError r i) := by
  have hdecision : Stops Orderly (checkDecision r i) := by
    unfold checkDecision
    split
    · split <;> simp
    all_goals simp
  have hfields : ∀ ok fields, Stops Orderly (checkFields r i ok fields) := by
    intro ok fields
    induction fields with
    | nil => simp [checkFields]
    | cons f fields ih => simp [checkFields, ih]
  have hts : Stops Orderly (finiteTs (r.get? "ts")) := by
    unfold finiteTs
    split
    · split <;> simp
    all_goals simp
  have honly : ∀ {cond check}, Stops Orderly check → Stops Orderly (onlyIf cond check) :=
    fun h => stops_onlyIf fun _ => h
  have hkeys : ∀ k, Stops Orderly (checkKeys k r i) := fun k => by simp [checkKeys]
  refine stops_bind hdecision fun k _ => stops_bind (hkeys k) fun _ _ => ?_
  refine stops_bind (by simp [checkMetadata, hts]) fun _ _ => ?_
  refine stops_bind (by simp [checkTypes, hfields]) fun _ _ => ?_
  refine stops_bind (honly (by simp [checkIntent])) fun _ _ => ?_
  refine stops_bind (honly (by simp [checkPositive])) fun _ _ => ?_
  refine stops_bind (honly (by simp [checkPositive])) fun _ _ => ?_
  refine stops_bind (honly (by simp [checkPositive])) fun _ _ => ?_
  refine stops_bind (honly (by simp [checkResponseHash])) fun _ _ => ?_
  refine stops_bind (honly (by simp [checkAllowHashes])) fun _ _ => ?_
  exact honly (by simp [checkReason])

theorem orderly_checkRecords {runId : String} {i : Nat} {records : List Record} :
    Stops Orderly (checkRecords runId i records) := by
  induction records generalizing i with
  | nil => exact stops_ok
  | cons x records ih => simp [checkRecords, orderly_schemaError, ih]

theorem orderly_conclude : Stops Orderly (conclude sc) := by
  unfold conclude
  repeat' split
  all_goals simp

/-- **A history whose effects come first is not rejected for an effect after the cancellation.** -/
theorem validateHistory_order {records : List Record} {runId : String} (h : AttemptsFirst records)
    {res : Rejection} (hv : validateHistory records runId = .ok (.rejected res)) :
    res.status ≠ .postCancellationEffect := by
  have hcheck : Stops Orderly (historyCheck records runId) := by
    unfold historyCheck
    refine stops_bind (by simp) fun _ _ => stops_bind (by simp) fun _ _ => ?_
    refine stops_bind orderly_checkRecords fun _ _ => ?_
    exact stops_bind (orderly_scan h fun hc => by cases hc) fun _ _ => orderly_conclude
  unfold validateHistory at hv
  split at hv
  · rename_i res' hok
    cases hv
    unfold historyCheck at hok
    simp only [bind_ok] at hok
    obtain ⟨-, -, -, -, -, -, sc, -, hend⟩ := hok
    unfold conclude at hend
    repeat' split at hend
    all_goals cases hend
  · rename_i res' herr
    cases hv
    exact hcheck _ herr _ rfl
  · cases hv

end

end VerifyE10

end StrixPEP
