import Mathlib.Data.List.TakeWhile
import StrixPEP.Lib.Dict
import StrixPEP.Lib.Except
import StrixPEP.Verifier.StepIff
import StrixPEP.Verifier.Stops

/-!
# Which records can make the history check raise

A branch of the scan reads fields that the schema of the record guarantees, and fields of records that
earlier branches have put aside.

* `Quiet` — the check ends without an exception;
* `Holds` — the records that the scan has put aside passed the schema of their decision;
* `holds_step` — every accepted record keeps it.

Principal result: `quiet_step` — of the branches, only the drain timeout can raise.
-/

namespace StrixPEP

namespace VerifyE10

open Except (Returns)

/-! ## Checks that do not raise -/

/-- The early end is a rejection. -/
def Quiet (e : Stop) : Prop := ∀ p, e ≠ .raised p

section

variable {α β : Type} {st : Status} {d : String} {r s : Record} {k k' : String}

theorem not_quiet_raised {e : PyError} : ¬ Quiet (.raised e) := fun h => h e rfl

@[simp] theorem quiet_returned {res : Rejection} : Quiet (.returned res) := by
  intro p h
  cases h

@[simp] theorem quiet_error {e : Stop} : Stops Quiet (.error e : Check α) ↔ Quiet e :=
  ⟨fun h => h e rfl, stops_error⟩

@[simp] theorem quiet_ok {a : α} : Stops Quiet (.ok a : Check α) := stops_ok

@[simp] theorem quiet_pure {a : α} : Stops Quiet (pure a : Check α) := stops_pure

@[simp] theorem quiet_bind {x : Check α} {f : α → Check β} :
    Stops Quiet (x >>= f) ↔ Stops Quiet x ∧ ∀ a, x = .ok a → Stops Quiet (f a) := stops_bind_iff

@[simp] theorem quiet_map {x : Check α} {f : α → β} : Stops Quiet (f <$> x) ↔ Stops Quiet x := by
  cases x with
  | error e => exact ⟨fun h => stops_error (h e rfl), fun h => stops_error (h e rfl)⟩
  | ok a => exact ⟨fun _ => stops_ok, fun _ => stops_ok⟩

@[simp] theorem quiet_reject : Stops Quiet (reject st d : Check α) := stops_reject quiet_returned

@[simp] theorem quiet_rejectIf {bad : Bool} : Stops Quiet (rejectIf bad st d) :=
  stops_rejectIf fun _ => quiet_returned

@[simp] theorem quiet_eval {x : Except PyError α} : Stops Quiet (eval x) ↔ Returns x := by
  cases x with
  | ok a => simp [eval]
  | error e => simp [eval, not_quiet_raised]

@[simp] theorem quiet_rejectAny {xs : List (Except PyError Bool)} :
    Stops Quiet (rejectAny xs st d) ↔ Returns (anyOf xs) := by
  simp [rejectAny]

theorem returns_anyOf {xs : List (Except PyError Bool)} (h : ∀ x ∈ xs, Returns x) :
    Returns (anyOf xs) := by
  induction xs with
  | nil => exact ⟨false, rfl⟩
  | cons x xs ih =>
    obtain ⟨b, rfl⟩ := h x List.mem_cons_self
    cases b with
    | true => exact ⟨true, rfl⟩
    | false => exact ih fun y hy => h y (List.mem_cons_of_mem _ hy)

theorem returns_allOf {xs : List (Except PyError Bool)} (h : ∀ x ∈ xs, Returns x) :
    Returns (allOf xs) := by
  induction xs with
  | nil => exact ⟨true, rfl⟩
  | cons x xs ih =>
    obtain ⟨b, rfl⟩ := h x List.mem_cons_self
    cases b with
    | true => exact ih fun y hy => h y (List.mem_cons_of_mem _ hy)
    | false => exact ⟨false, rfl⟩

/-! ### Fields -/

@[simp] theorem returns_item : Returns (r.item k) ↔ ∃ v, r.get? k = some v := by
  simp only [Returns, Record.item_ok]

@[simp] theorem returns_int : Returns (r.int k) ↔ ∃ n, r.get? k = some (.int n) := by
  simp only [Returns, Record.int_ok]

@[simp] theorem returns_str : Returns (r.str k) ↔ ∃ t, r.get? k = some (.str t) := by
  simp only [Returns, Record.str_ok]

@[simp] theorem returns_differ :
    Returns (differ r k s k') ↔ (∃ v, r.get? k = some v) ∧ ∃ v, s.get? k' = some v := by
  simp only [differ, Except.returns_bind, returns_item, Except.returns_pure, implies_true, and_true,
    and_congr_right_iff]
  rintro ⟨v, hv⟩
  simp [Record.item_ok, hv]

@[simp] theorem returns_differFrom {v : Json} :
    Returns (differFrom r k v) ↔ ∃ v, r.get? k = some v := by
  simp [differFrom]

@[simp] theorem returns_same :
    Returns (same r k s k') ↔ (∃ v, r.get? k = some v) ∧ ∃ v, s.get? k' = some v := by
  simp [same]

@[simp] theorem returns_isValue {v : Json} : Returns (isValue r k v) ↔ ∃ v, r.get? k = some v := by
  simp [isValue]

/-- A list of texts is read. -/
theorem returns_texts {v : Json} (h : r.get? k = some v) (hv : validTexts v = true) :
    Returns (r.texts k) := by
  cases v with
  | arr xs =>
    simp only [Record.texts, h]
    refine Except.returns_mapM fun x hx => ?_
    obtain ⟨t, rfl⟩ := Json.isStr_iff.1 (List.all_eq_true.1 hv x hx)
    exact ⟨t, rfl⟩
  | _ => cases hv

end

/-! ## What the scan holds -/

/-- The records of an entry passed the schema of their decision. -/
structure HoldsAttempt (a : Attempt) : Prop where
  auth : WellFormed .auth a.auth
  permit : ∀ p, a.permit = some p → WellFormed .permit p
  permitted : a.state = .permitted → a.permit.isSome = true
  terminal : ∀ t, a.terminal = some t → ∃ k, WellFormed k t
  release : ∀ t, a.release = some t → WellFormed .permitReleased t

/-- So did those of the run, and each is there where a branch indexes it. -/
structure Holds (s : Scan) : Prop where
  attempts : ∀ e ∈ s.attempts, HoldsAttempt e.2
  request : ∀ r, s.cancelRequest = some r → WellFormed .cancelRequested r
  requested : s.runState = .cancelRequested → s.cancelRequest.isSome = true
  cancel : ∀ r, s.cancel = some r → WellFormed .cancelLinearized r
  cancelled : s.runState = .cancelLinearized ∨ s.runState = .acknowledged → s.cancel.isSome = true
  kill : ∀ r, s.kill = some r → WellFormed .killSwitch r

theorem WellFormed.kind_eq {j k : Kind} {r : Record} (w : WellFormed j r) (h : r.kind? = some k) :
    j = k := Option.some.inj (w.decision.symm.trans h)

theorem Advance.holds {cancel : Option Record} {late : Bool} {r : Record} {aid : String} {k : Kind}
    {o : Option Attempt} {a : Attempt} {own : List (Int × String)}
    (h : Advance cancel late r aid k o a own) (w : WellFormed k r)
    (ho : ∀ x, o = some x → HoldsAttempt x) : HoldsAttempt a := by
  cases h with
  | auth _ _ =>
    exact ⟨w, fun _ h => (by cases h), fun h => (by cases h), fun _ h => (by cases h),
      fun _ h => (by cases h)⟩
  | permit _ _ _ _ _ _ _ =>
    have hx := ho _ rfl
    refine ⟨hx.auth, fun p hp => ?_, fun _ => rfl, hx.terminal, hx.release⟩
    cases hp
    exact w
  | attempted _ _ _ _ _ _ _ =>
    have hx := ho _ rfl
    exact ⟨hx.auth, hx.permit, fun hs => (by cases hs), hx.terminal, hx.release⟩
  | terminal _ _ _ _ _ _ =>
    have hx := ho _ rfl
    refine ⟨hx.auth, hx.permit, fun hs => (by cases hs), fun t ht => ?_, hx.release⟩
    cases ht
    exact ⟨_, w⟩
  | allow _ _ _ _ =>
    have hx := ho _ rfl
    exact ⟨hx.auth, hx.permit, hx.permitted, hx.terminal, hx.release⟩
  | released _ _ _ _ _ _ _ _ _ _ =>
    have hx := ho _ rfl
    refine ⟨hx.auth, hx.permit, hx.permitted, hx.terminal, fun t ht => ?_⟩
    cases ht
    exact w
  | connectionTerminated _ _ _ _ _ =>
    have hx := ho _ rfl
    exact ⟨hx.auth, hx.permit, hx.permitted, hx.terminal, hx.release⟩

theorem Holds.lookup {s : Scan} (h : Holds s) {aid : String} {a : Attempt}
    (ha : s.attempts.lookup aid = some a) : HoldsAttempt a := h.attempts _ (Dict.mem_of_lookup ha)

/-- **What an accepted record leaves behind passed its schema.** -/
theorem holds_step {s s' : Scan} {r : Record} (h : Holds s) (hw : ∃ k, WellFormed k r)
    (hstep : Accepts s r s') : Holds s' := by
  obtain ⟨k, w⟩ := hw
  cases hstep with
  | attempt hk hrun hkill hadv hown =>
    cases w.kind_eq hk
    refine ⟨fun e he => ?_, h.request, h.requested, h.cancel, h.cancelled, h.kill⟩
    rcases Dict.mem_of_mem_set he with rfl | he
    · exact hadv.holds w fun x hx => h.lookup hx
    · exact h.attempts e he
  | startupDegraded _ _ _ _ => exact h
  | startup _ _ _ _ => exact ⟨h.attempts, h.request, h.requested, h.cancel, h.cancelled, h.kill⟩
  | blockedByPolicy _ _ _ => exact ⟨h.attempts, h.request, h.requested, h.cancel, h.cancelled, h.kill⟩
  | startupFailed _ _ _ _ =>
    refine ⟨h.attempts, h.request, fun hs => (by cases hs), h.cancel, fun hs => ?_, h.kill⟩
    rcases hs with hs | hs <;> cases hs
  | cancelRequested hk _ =>
    cases w.kind_eq hk
    refine ⟨h.attempts, fun x hx => ?_, fun _ => rfl, h.cancel, fun hs => ?_, h.kill⟩
    · cases hx
      exact w
    · rcases hs with hs | hs <;> cases hs
  | cancelLinearized hk _ _ _ _ _ _ _ _ _ =>
    cases w.kind_eq hk
    refine ⟨h.attempts, h.request, fun hs => (by cases hs), fun x hx => ?_, fun _ => rfl, h.kill⟩
    cases hx
    exact w
  | killSwitch hk _ _ _ _ _ _ _ _ _ _ _ _ =>
    cases w.kind_eq hk
    refine ⟨h.attempts, h.request, h.requested, h.cancel, h.cancelled, fun x hx => ?_⟩
    cases hx
    exact w
  | cancelAck _ hrun _ _ _ _ =>
    exact ⟨h.attempts, h.request, fun hs => (by cases hs), h.cancel, fun _ => h.cancelled (Or.inl hrun),
      h.kill⟩
  | cancelDrainTimeout _ _ _ =>
    refine ⟨h.attempts, h.request, fun hs => (by cases hs), h.cancel, fun hs => ?_, h.kill⟩
    rcases hs with hs | hs <;> cases hs
  | runClosed _ _ _ _ _ =>
    refine ⟨h.attempts, h.request, fun hs => (by cases hs), h.cancel, fun hs => ?_, h.kill⟩
    rcases hs with hs | hs <;> cases hs

theorem scan_holds {records : List Record} {i : Nat} {s : Scan} (hw : ∀ r ∈ records, ∃ k, WellFormed k r)
    (h : scan .start i records = .ok s) : Holds s := by
  have hstart : Holds .start :=
    { attempts := fun e he => absurd he List.not_mem_nil
      request := fun _ h => by cases h
      requested := fun h => by cases h
      cancel := fun _ h => by cases h
      cancelled := fun h => by rcases h with h | h <;> cases h
      kill := fun _ h => by cases h }
  exact scan_induct (P := fun _ s => Holds s) (W := fun r => ∃ k, WellFormed k r) hstart
    (fun I w h => holds_step I w h) hw h

/-! ## The branches -/

theorem returns_afterColon {t : String} (h : ':' ∈ t.toList) : Returns (afterColon t) := by
  unfold afterColon
  cases hd : t.toList.dropWhile (· ≠ ':') with
  | nil =>
    rw [List.dropWhile_eq_nil_iff] at hd
    exact absurd rfl (of_decide_eq_true (hd _ h))
  | cons c rest => exact Except.returns_ok

/-- A field that is required and whose type has been checked is an integer. -/
theorem int_of_checked {k : Kind} {r : Record} {f : String}
    (hkeys : ∀ f ∈ (schemas k).1, ∃ v, r.get? f = some v) (hints : FieldsOk r validInt intFields)
    (hr : f ∈ (schemas k).1) (hi : f ∈ intFields) : ∃ n, r.get? f = some (.int n) := by
  obtain ⟨v, hv⟩ := hkeys f hr
  have hint := hints f hi v hv
  cases v with
  | int n => exact ⟨n, hv⟩
  | _ => cases hint

namespace WellFormed

variable {k : Kind} {r : Record} {f : String}

theorem int (w : WellFormed k r) (hr : f ∈ (schemas k).1) (hi : f ∈ intFields) :
    ∃ n, r.get? f = some (.int n) := int_of_checked w.required w.ints hr hi

theorem texts (w : WellFormed k r) (hr : f ∈ (schemas k).1) (hl : f ∈ listFields) :
    Returns (r.texts f) := by
  obtain ⟨v, hv⟩ := w.required f hr
  exact returns_texts hv (w.lists f hl v hv)

/-- The digest of an intent has a colon. -/
theorem intentDigest (w : WellFormed .auth r) :
    ∃ t, r.get? "request_intent_digest" = some (.str t) ∧ Returns (afterColon t) := by
  have hmem : "request_intent_digest" ∈ (schemas .auth).1 := by decide
  obtain ⟨t, ht⟩ := w.str hmem (by decide)
  obtain ⟨port, -, hbad⟩ := w.intent rfl
  have hdigest : digest t = true := by
    simp only [badIntent, Bool.or_eq_false_iff, Bool.not_eq_false', Record.textOr, ht, Json.toText] at hbad
    exact hbad.2
  unfold digest at hdigest
  split at hdigest
  · rename_i hprefix
    refine ⟨t, ht, returns_afterColon ?_⟩
    exact (List.isPrefixOf_iff_prefix.1 hprefix).subset (by decide)
  · cases hdigest

end WellFormed

section

variable {s : Scan} {r : Record} {aid : String} {seq : Int}

theorem quiet_ownSequence {owner : String} : Stops Quiet (ownSequence s seq owner) := by
  unfold ownSequence
  split
  · exact quiet_reject
  · exact quiet_ok

theorem quiet_countError {k : Kind} (w : WellFormed k r)
    (hi : "inflight_remaining" ∈ (schemas k).1) (hp : "effect_permits_remaining" ∈ (schemas k).1)
    (hq : "audit_producers_remaining" ∈ (schemas k).1) : Stops Quiet (countError r) := by
  simp [countError, w.int hi (by decide), w.int hp (by decide), w.int hq (by decide)]

theorem quiet_notBeforeCancel {cancel : Option Record} {st : Status} {d : String}
    (hc : ∀ c, cancel = some c → WellFormed .cancelLinearized c)
    (hr : ∃ v, r.get? "epoch" = some v) : Stops Quiet (notBeforeCancel cancel seq r st d) := by
  unfold notBeforeCancel
  split
  · exact quiet_ok
  · rename_i c
    have w := hc c rfl
    refine quiet_rejectAny.2 (returns_anyOf ?_)
    simp [hr, w.int (f := "lifecycle_seq") (by decide) (by decide), w.required "cancelled_epoch" (by decide)]

theorem quiet_checkPermitFields {auth : Record} {fields : List String}
    (hr : ∀ f ∈ fields, ∃ v, r.get? f = some v) (ha : ∀ f ∈ fields, ∃ v, auth.get? f = some v) :
    Stops Quiet (checkPermitFields r auth aid fields) := by
  induction fields with
  | nil => exact quiet_ok
  | cons f fields ih =>
    unfold checkPermitFields
    rw [quiet_bind, quiet_rejectAny]
    refine ⟨returns_anyOf ?_, fun _ _ => ih (fun g hg => hr g (List.mem_cons_of_mem _ hg))
      (fun g hg => ha g (List.mem_cons_of_mem _ hg))⟩
    simp [hr f List.mem_cons_self, ha f List.mem_cons_self]

theorem quiet_onAuth (h : Holds s) (w : WellFormed .auth r) : Stops Quiet (onAuth s r aid) := by
  unfold onAuth
  simp only [quiet_bind, quiet_rejectIf, quiet_eval, returns_int, quiet_ownSequence, quiet_pure,
    true_and, implies_true, and_true]
  intro _ _ _ _ _ _
  refine ⟨w.int (by decide) (by decide), fun n _ _ _ => ?_⟩
  refine quiet_notBeforeCancel (fun c hc => ?_) (w.required _ (by decide))
  split at hc
  · exact h.cancel c hc
  · cases hc

theorem quiet_onPermit (h : Holds s) (w : WellFormed .permit r) : Stops Quiet (onPermit s r aid) := by
  unfold onPermit
  rw [quiet_bind]
  refine ⟨quiet_rejectIf, fun _ _ => ?_⟩
  split
  · exact quiet_reject
  rename_i a ha
  have wa := (h.lookup ha).auth
  simp only [quiet_bind, quiet_rejectIf, quiet_eval, returns_int, quiet_ownSequence, quiet_pure,
    true_and, implies_true, and_true]
  intro _ _
  refine ⟨quiet_checkPermitFields (fun f hf => w.required f ?_) (fun f hf => wa.required f ?_), fun _ _ =>
    ⟨w.int (by decide) (by decide), fun _ _ => ⟨wa.int (by decide) (by decide), fun _ _ _ _ _ _ =>
      quiet_notBeforeCancel h.cancel (w.required _ (by decide))⟩⟩⟩
  · revert f
    decide
  · revert f
    decide

theorem quiet_onAttempted (h : Holds s) (w : WellFormed .attempted r) :
    Stops Quiet (onAttempted s r aid) := by
  unfold onAttempted
  rw [quiet_bind]
  refine ⟨quiet_rejectIf, fun _ _ => ?_⟩
  split
  · exact quiet_reject
  rename_i a ha
  have hx := h.lookup ha
  rw [quiet_bind]
  refine ⟨quiet_rejectIf, fun _ hs => ?_⟩
  rw [rejectIf_ok, decide_eq_false_iff_not, not_not] at hs
  obtain ⟨p, hp⟩ := Option.isSome_iff_exists.1 (hx.permitted hs)
  have wp := hx.permit p hp
  have wa := hx.auth
  rw [hp]
  simp only [quiet_bind, quiet_rejectAny, quiet_pure, implies_true, and_true]
  refine returns_anyOf ?_
  simp only [List.mem_cons, List.not_mem_nil, or_false, forall_eq_or_imp, forall_eq, returns_differ]
  refine ⟨⟨?_, ?_⟩, ⟨?_, ?_⟩, ⟨?_, ?_⟩, ⟨?_, ?_⟩, ⟨?_, ?_⟩⟩
  all_goals
    first
      | exact w.required _ (by decide)
      | exact wp.required _ (by decide)
      | exact wa.required _ (by decide)

theorem quiet_checkTerminalPermit {permit : Option Record}
    (hp : ∀ p, permit = some p → WellFormed .permit p) :
    Stops Quiet (checkTerminalPermit permit r aid) := by
  unfold checkTerminalPermit
  split
  · rename_i p
    simp only [quiet_bind, quiet_eval, returns_item, quiet_rejectIf, implies_true, and_true]
    exact (hp p rfl).required _ (by decide)
  · exact quiet_rejectIf

/-- Every terminal record names its connection and its epoch. -/
theorem terminal_schema {k : Kind} (hk : k.terminal = true) :
    "conn_id" ∈ (schemas k).1 ∧ "epoch" ∈ (schemas k).1 := by
  cases k <;> first | decide | cases hk

theorem quiet_onTerminal {k : Kind} (h : Holds s) (hk : k.terminal = true) (w : WellFormed k r) :
    Stops Quiet (onTerminal s k r aid) := by
  obtain ⟨hconn, hepoch⟩ := terminal_schema hk
  unfold onTerminal
  rw [quiet_bind]
  refine ⟨quiet_rejectIf, fun _ _ => ?_⟩
  split
  · exact quiet_reject
  rename_i a ha
  have hx := h.lookup ha
  simp only [quiet_bind, quiet_rejectIf, quiet_rejectAny, quiet_checkTerminalPermit hx.permit, quiet_pure,
    true_and, implies_true, and_true]
  intro _ _
  refine returns_anyOf ?_
  simp only [List.mem_cons, List.not_mem_nil, or_false, forall_eq_or_imp, forall_eq, returns_differ]
  exact ⟨⟨w.required _ hconn, hx.auth.required _ (by decide)⟩, w.required _ hepoch,
    hx.auth.required _ (by decide)⟩

theorem returns_urlBinds {auth : Record} {k : Kind} (w : WellFormed k r)
    (hurl : "url" ∈ (schemas k).1) (wa : WellFormed .auth auth) : Returns (urlBinds r auth) := by
  simp only [urlBinds, Except.returns_bind, returns_str, Except.returns_pure, implies_true, and_true]
  exact ⟨w.str hurl (by decide), fun _ _ => wa.str (by decide) (by decide)⟩

theorem returns_allowBinds {auth t : Record} {att : Option Record} (w : WellFormed .allow r)
    (wa : WellFormed .auth auth) (wt : WellFormed .completed t) :
    Returns (allowBinds r auth t att) := by
  obtain ⟨d, hd, hcolon⟩ := wa.intentDigest
  unfold allowBinds
  simp only [Except.returns_bind, returns_str, Record.str_ok, hd, Option.some.injEq, Json.str.injEq,
    forall_eq', exists_eq', true_and]
  refine ⟨hcolon, fun expected _ => returns_allOf ?_⟩
  simp only [List.mem_cons, List.not_mem_nil, or_false, forall_eq_or_imp, forall_eq, returns_same,
    returns_isValue, Except.returns_ok, Except.returns_bind, returns_item, Except.returns_pure, true_and,
    implies_true, and_true, returns_urlBinds w (by decide) wa]
  simp (disch := decide) only [w.required, wa.required, wt.required, and_self, implies_true]

theorem quiet_onAllow (h : Holds s) (w : WellFormed .allow r) : Stops Quiet (onAllow s r aid) := by
  unfold onAllow
  rw [quiet_bind]
  refine ⟨quiet_rejectIf, fun _ _ => ?_⟩
  split
  · exact quiet_reject
  rename_i a ha
  have hx := h.lookup ha
  split
  · exact quiet_reject
  rename_i t ht
  rw [quiet_bind]
  refine ⟨quiet_rejectIf, fun _ hend => ?_⟩
  rw [rejectIf_ok, Bool.not_eq_false', ended_iff] at hend
  obtain ⟨t', ht', hkind⟩ := hend
  cases ht.symm.trans ht'
  obtain ⟨k, wt⟩ := hx.terminal t ht
  cases wt.kind_eq hkind
  simp only [quiet_bind, quiet_rejectIf, quiet_eval, quiet_pure, true_and, implies_true, and_true]
  exact fun _ _ => returns_allowBinds w hx.auth wt

theorem quiet_onReleased (h : Holds s) (w : WellFormed .permitReleased r) :
    Stops Quiet (onReleased s r aid) := by
  unfold onReleased
  rw [quiet_bind]
  refine ⟨quiet_rejectIf, fun _ _ => ?_⟩
  split
  · exact quiet_reject
  rename_i a ha
  have hx := h.lookup ha
  split
  · exact quiet_reject
  rename_i p hp
  have wp := hx.permit p hp
  simp only [quiet_bind, quiet_rejectIf, quiet_rejectAny, quiet_eval, returns_int, quiet_ownSequence,
    quiet_pure, true_and, implies_true, and_true]
  intro _ _ _ _ _ _
  refine ⟨returns_anyOf ?_, fun _ _ => ⟨w.int (by decide) (by decide), fun _ _ =>
    wp.int (by decide) (by decide)⟩⟩
  simp only [List.mem_cons, List.not_mem_nil, or_false, forall_eq_or_imp, forall_eq, returns_differ]
  simp (disch := decide) only [w.required, wp.required, and_self]

theorem quiet_checkLinearized {attempts : List (String × Attempt)}
    (h : ∀ e ∈ attempts, HoldsAttempt e.2) (w : WellFormed .cancelLinearized r) :
    Stops Quiet (checkLinearized r seq attempts) := by
  induction attempts with
  | nil => exact quiet_ok
  | cons e attempts ih =>
    obtain ⟨id, a⟩ := e
    have hx := h _ List.mem_cons_self
    have hpermit : Stops Quiet (checkPermitBefore seq id a.permit) := by
      unfold checkPermitBefore
      split
      · exact quiet_ok
      · rename_i p hp
        simp only [quiet_bind, quiet_eval, returns_int, quiet_rejectIf, implies_true, and_true]
        exact (hx.permit p hp).int (by decide) (by decide)
    unfold checkLinearized
    simp only [quiet_bind, quiet_rejectAny, quiet_eval, returns_int, quiet_rejectIf, hpermit, true_and]
    refine ⟨returns_anyOf ?_, fun _ _ => ⟨hx.auth.int (by decide) (by decide), fun _ _ _ _ _ _ =>
      ih fun e he => h e (List.mem_cons_of_mem _ he)⟩⟩
    simp only [List.mem_singleton, forall_eq, returns_differ]
    exact ⟨hx.auth.required _ (by decide), w.required _ (by decide)⟩

theorem quiet_onLinearized (h : Holds s) (w : WellFormed .cancelLinearized r) :
    Stops Quiet (onLinearized s r) := by
  unfold onLinearized
  rw [quiet_bind]
  refine ⟨quiet_rejectIf, fun _ hs => ?_⟩
  rw [rejectIf_ok, decide_eq_false_iff_not, not_not] at hs
  obtain ⟨request, hreq⟩ := Option.isSome_iff_exists.1 (h.requested hs)
  have wreq := h.request request hreq
  rw [hreq]
  simp only [quiet_bind, quiet_rejectIf, quiet_rejectAny, quiet_eval, returns_int, quiet_ownSequence,
    quiet_checkLinearized h.attempts w, quiet_pure, true_and, implies_true, and_true]
  refine ⟨w.int (by decide) (by decide), fun _ _ => ⟨w.int (by decide) (by decide), fun _ _ =>
    ⟨w.int (by decide) (by decide), fun _ _ _ _ => returns_anyOf ?_⟩⟩⟩
  simp only [List.mem_cons, List.not_mem_nil, or_false, forall_eq_or_imp, forall_eq, returns_differ]
  simp (disch := decide) only [w.required, wreq.required, and_self]

/-- Permits that have all been released are counted. -/
theorem returns_logicalInflight {c : Int} {attempts : List (String × Attempt)}
    (h : ∀ e ∈ attempts, HoldsAttempt e.2)
    (hreleased : ∀ e ∈ attempts, e.2.permit.isSome = true → e.2.release.isSome = true) :
    Returns (logicalInflight c attempts) := by
  induction attempts with
  | nil => exact ⟨0, rfl⟩
  | cons e attempts ih =>
    obtain ⟨id, a⟩ := e
    have hx := h _ List.mem_cons_self
    have hhere : Returns (a.inflightAt c) := by
      unfold Attempt.inflightAt
      split
      · exact Except.returns_ok
      rename_i p hp
      obtain ⟨q, hq⟩ := Option.isSome_iff_exists.1 (hreleased _ List.mem_cons_self (by simp [hp]))
      have hq' : a.release = some q := hq
      rw [hq', Except.returns_bind, returns_int]
      refine ⟨(hx.permit p hp).int (by decide) (by decide), fun n _ => ?_⟩
      split
      · simp only [Except.returns_bind, returns_int, Except.returns_pure, implies_true, and_true]
        exact (hx.release q hq).int (by decide) (by decide)
      · exact Except.returns_pure
    unfold logicalInflight
    simp only [Except.returns_bind, Except.returns_pure, implies_true, and_true]
    exact ⟨hhere, fun _ _ => ih (fun e he => h e (List.mem_cons_of_mem _ he))
      (fun e he => hreleased e (List.mem_cons_of_mem _ he))⟩

theorem returns_killBindings {cancel : Record} (w : WellFormed .killSwitch r)
    (wc : WellFormed .cancelLinearized cancel) : ∀ x ∈ killBindings r cancel, Returns x := by
  have hterminated := w.texts (f := "terminated_conn_ids") (by decide) (by decide)
  have hregistered := w.texts (f := "registered_at_kill") (by decide) (by decide)
  simp only [killBindings, List.mem_cons, List.not_mem_nil, or_false, forall_eq_or_imp, forall_eq,
    returns_differ, returns_differFrom, Except.returns_bind, returns_int, Except.returns_pure, hterminated,
    hregistered, true_and, implies_true, and_true]
  simp (disch := decide) only [w.required, w.int, wc.required, and_self]

theorem quiet_onKillSwitch (h : Holds s) (w : WellFormed .killSwitch r) :
    Stops Quiet (onKillSwitch s r) := by
  unfold onKillSwitch
  rw [quiet_bind]
  refine ⟨quiet_rejectIf, fun _ hs => ?_⟩
  rw [rejectIf_ok, Bool.or_eq_false_iff, decide_eq_false_iff_not, not_not] at hs
  obtain ⟨cancel, hcancel⟩ := Option.isSome_iff_exists.1 (h.cancelled (Or.inl hs.1))
  have wc := h.cancel cancel hcancel
  split
  · exact quiet_error.2 quiet_returned
  split
  · exact quiet_error.2 quiet_returned
  split
  · exact quiet_error.2 quiet_returned
  rename_i hreleases
  rw [hcancel]
  have hreleased : ∀ e ∈ s.attempts, e.2.permit.isSome = true → e.2.release.isSome = true := by
    intro e he hp
    simp only [Scan.missingReleases, List.isEmpty_iff, List.map_eq_nil_iff, List.filter_eq_nil_iff,
      Bool.and_eq_true, not_and, Bool.not_eq_true', Bool.not_eq_false] at hreleases
    have hsome := hreleases e he hp
    cases hr : e.2.release with
    | none => simp [hr] at hsome
    | some q => rfl
  simp only [quiet_bind, quiet_rejectIf, quiet_rejectAny, quiet_eval, returns_int, quiet_pure, true_and,
    implies_true, and_true]
  refine ⟨quiet_countError w (by decide) (by decide) (by decide), fun _ _ =>
    ⟨wc.int (by decide) (by decide), fun _ _ => ⟨returns_logicalInflight h.attempts hreleased, fun _ _ =>
      ⟨wc.int (by decide) (by decide), fun _ _ _ _ => ⟨returns_anyOf (returns_killBindings w wc),
        fun _ _ => returns_anyOf ?_⟩⟩⟩⟩⟩
  simp only [List.mem_singleton, forall_eq, drainContradicts, Except.returns_bind, returns_differFrom]
  refine ⟨returns_allOf ?_, fun _ _ => w.required _ (by decide)⟩
  simp only [List.mem_cons, List.not_mem_nil, or_false, forall_eq_or_imp, forall_eq, returns_isValue]
  simp (disch := decide) only [w.required, and_self]

theorem quiet_onRunClosed (h : Holds s) (w : WellFormed .runClosed r) : Stops Quiet (onRunClosed s r) := by
  unfold onRunClosed
  rw [quiet_bind]
  refine ⟨quiet_rejectIf, fun _ hs => ?_⟩
  rw [rejectIf_ok, decide_eq_false_iff_not, not_not] at hs
  obtain ⟨cancel, hcancel⟩ := Option.isSome_iff_exists.1 (h.cancelled (Or.inr hs))
  have wc := h.cancel cancel hcancel
  rw [hcancel]
  simp only [quiet_bind, quiet_rejectAny, quiet_pure, implies_true, and_true]
  refine ⟨returns_anyOf ?_, fun _ _ => quiet_countError w (by decide) (by decide) (by decide)⟩
  simp only [closureBindings, List.mem_cons, List.not_mem_nil, or_false, forall_eq_or_imp, forall_eq,
    returns_differ, returns_differFrom]
  simp (disch := decide) only [w.required, wc.required, and_self]

theorem returns_terminationBindings {auth t : Record} (w : WellFormed .connectionTerminated r)
    (wa : WellFormed .auth auth) : ∀ x ∈ terminationBindings r auth t, Returns x := by
  simp only [terminationBindings, expectedPin, List.mem_cons, List.not_mem_nil, or_false,
    forall_eq_or_imp, forall_eq, returns_differ, returns_differFrom, Except.returns_bind, returns_item,
    Except.returns_pure, returns_urlBinds w (by decide) wa, implies_true, and_true]
  simp (disch := decide) only [w.required, wa.required, and_self, implies_true]

theorem quiet_onConnectionTerminated (h : Holds s) (w : WellFormed .connectionTerminated r) :
    Stops Quiet (onConnectionTerminated s r aid) := by
  unfold onConnectionTerminated
  rw [quiet_bind]
  refine ⟨quiet_rejectIf, fun _ _ => ?_⟩
  split
  · exact quiet_reject
  rename_i a ha
  have hx := h.lookup ha
  rw [quiet_bind]
  refine ⟨quiet_rejectIf, fun _ _ => ?_⟩
  split
  · exact quiet_reject
  rename_i t ht
  simp only [quiet_bind, quiet_rejectIf, quiet_rejectAny, quiet_pure, true_and, implies_true, and_true]
  exact fun _ _ _ _ => returns_anyOf (returns_terminationBindings w hx.auth)

theorem quiet_onBlocked (w : WellFormed .blockedByPolicy r) : Stops Quiet (onBlocked s r) := by
  have hpin : Returns (badPinFamily r) := by
    unfold badPinFamily
    cases hv : r.get? "pin" with
    | none => exact Except.returns_ok
    | some v =>
      have hvalid := w.pin "pin" (by decide) v hv
      unfold validPin at hvalid
      split at hvalid
      · exact Except.returns_ok
      · cases hvalid
  simp only [onBlocked, quiet_bind, quiet_rejectIf, quiet_rejectAny, quiet_pure, true_and, implies_true,
    and_true]
  refine fun _ _ => returns_anyOf ?_
  intro x hx
  rw [List.mem_singleton.1 hx]
  exact hpin

/-! ### The drain timeout -/

/-- A drain timeout that reaches its own checks has its `closure_blockers`. -/
def Blockers (s : Scan) (r : Record) : Prop :=
  r.kind? = some .cancelDrainTimeout → s.runState = .cancelLinearized →
    ∀ kill, s.kill = some kill → CountsAdd r → (∀ f ∈ dispositionFields, Agree r f kill f) →
      r.has "closure_blockers" = true

theorem countError_iff {u : Unit} : countError r = .ok u ↔ CountsAdd r :=
  ⟨countError_ok, countError_of⟩

/-- The checks that both dispositions share. -/
theorem returns_bindings {kill : Record} {k : Kind} (w : WellFormed k r)
    (hk : ∀ f ∈ dispositionFields, f ∈ (schemas k).1) (wk : WellFormed .killSwitch kill) :
    Returns (anyOf (dispositionFields.map fun f => differ r f kill f)) := by
  refine returns_anyOf fun x hx => ?_
  obtain ⟨f, hf, rfl⟩ := List.mem_map.1 hx
  rw [returns_differ]
  have hsub : ∀ f ∈ dispositionFields, f ∈ (schemas .killSwitch).1 := by decide
  exact ⟨w.required f (hk f hf), wk.required f (hsub f hf)⟩

theorem quiet_onAck (h : Holds s) (w : WellFormed .cancelAck r) :
    Stops Quiet (onDisposition s .cancelAck r) := by
  unfold onDisposition
  rw [quiet_bind]
  refine ⟨quiet_rejectIf, fun _ _ => ?_⟩
  split
  · exact quiet_reject
  rename_i kill hkill
  have hbind := returns_bindings w (by decide) (h.kill kill hkill)
  have hvalid : Returns (ackValid r) := by
    refine returns_allOf ?_
    simp only [List.mem_cons, List.not_mem_nil, or_false, forall_eq_or_imp, forall_eq, returns_isValue]
    simp (disch := decide) only [w.required, and_self]
  simp only [quiet_bind, quiet_rejectIf, quiet_rejectAny, quiet_eval, hbind, hvalid, quiet_pure, if_true,
    quiet_countError w (by decide) (by decide) (by decide), implies_true, and_true]

theorem returns_timeoutValid (w : WellFormed .cancelDrainTimeout r) :
    Returns (timeoutValid r) ↔ r.has "closure_blockers" = true := by
  unfold timeoutValid
  rw [Except.returns_bind, Record.has_iff]
  constructor
  · rintro ⟨⟨xs, hxs⟩, -⟩
    cases hv : r.get? "closure_blockers" with
    | none =>
      unfold Record.texts at hxs
      rw [hv] at hxs
      cases hxs
    | some v => exact ⟨v, rfl⟩
  · rintro ⟨v, hv⟩
    refine ⟨returns_texts hv (w.lists _ (by decide) v hv), fun blockers _ => returns_allOf ?_⟩
    simp only [List.mem_cons, List.not_mem_nil, or_false, forall_eq_or_imp, forall_eq, returns_isValue,
      Except.returns_ok, true_and]
    refine ⟨w.required _ (by decide), w.required _ (by decide), returns_anyOf ?_⟩
    simp only [List.mem_cons, List.not_mem_nil, or_false, forall_eq_or_imp, forall_eq,
      returns_differFrom, Except.returns_bind, returns_int, Except.returns_pure, implies_true, and_true]
    exact ⟨w.int (by decide) (by decide), w.required _ (by decide)⟩

theorem quiet_onTimeout (h : Holds s) (w : WellFormed .cancelDrainTimeout r) :
    Stops Quiet (onDisposition s .cancelDrainTimeout r) ↔ Blockers s r := by
  have hkind := w.decision
  unfold onDisposition Blockers
  rw [quiet_bind]
  simp only [quiet_rejectIf, true_and, rejectIf_ok, decide_eq_false_iff_not, not_not, hkind, forall_const]
  refine imp_congr_right fun _ => ?_
  cases hkill : s.kill with
  | none => simp
  | some kill =>
    have hbind := returns_bindings w (by decide) (h.kill kill hkill)
    simp only [quiet_bind, quiet_rejectIf, quiet_rejectAny, quiet_eval, hbind, quiet_pure, reduceCtorEq,
      if_false, quiet_countError w (by decide) (by decide) (by decide), returns_timeoutValid w, true_and,
      implies_true, and_true, rejectAny_ok, List.mem_map, forall_exists_index, and_imp,
      forall_apply_eq_imp_iff₂, differ_false, Option.some.injEq, forall_eq', countError_iff]
    exact ⟨fun hq hc hb => hq () hc () hb, fun hq _ hc _ hb => hq hc hb⟩

/-! ### One iteration -/

theorem quiet_onStartup (w : WellFormed .startup r) : Stops Quiet (onStartup s r) := by
  unfold onStartup
  simp only [quiet_bind, quiet_rejectIf, quiet_eval, returns_int, quiet_pure, true_and, implies_true,
    and_true]
  exact fun _ _ => w.int (by decide) (by decide)

theorem Holds.active (h : Holds s) : Holds { s with activeSeen := true } :=
  ⟨h.attempts, h.request, h.requested, h.cancel, h.cancelled, h.kill⟩

theorem quiet_onActive {k : Kind} (h : Holds s) (w : WellFormed k r) (hk : k ≠ .cancelDrainTimeout) :
    Stops Quiet (onActive { s with activeSeen := true } k r) := by
  cases k with
  | auth => exact quiet_onAuth h.active w
  | permit => exact quiet_onPermit h.active w
  | permitReleased => exact quiet_onReleased h.active w
  | attempted => exact quiet_onAttempted h.active w
  | completed => exact quiet_onTerminal h.active rfl w
  | failed => exact quiet_onTerminal h.active rfl w
  | unknown => exact quiet_onTerminal h.active rfl w
  | cancelled => exact quiet_onTerminal h.active rfl w
  | allow => exact quiet_onAllow h.active w
  | cancelRequested => simp [onActive, onCancelRequested]
  | cancelLinearized => exact quiet_onLinearized h.active w
  | cancelAck => exact quiet_onAck h.active w
  | cancelDrainTimeout => exact absurd rfl hk
  | runClosed => exact quiet_onRunClosed h.active w
  | killSwitch => exact quiet_onKillSwitch h.active w
  | blockedByPolicy => exact quiet_onBlocked w
  | connectionTerminated => exact quiet_onConnectionTerminated h.active w
  | startup => exact quiet_reject
  | startupDegraded => exact quiet_reject
  | startupFailed => exact quiet_reject

/-- **Of the branches, only the drain timeout can raise**, and only for want of its blockers. -/
theorem quiet_step {i : Nat} (h : Holds s) (hw : ∃ k, WellFormed k r) :
    Stops Quiet (step s i r) ↔ Blockers s r := by
  obtain ⟨k, w⟩ := hw
  have hrun : Stops Quiet (checkRunState s i k) := by simp [checkRunState]
  unfold step
  rw [w.decision]
  simp only [quiet_bind, hrun, true_and]
  by_cases hk : k = .cancelDrainTimeout
  · subst hk
    rw [show Blockers s r ↔ Blockers { s with activeSeen := true } r from Iff.rfl, ← quiet_onTimeout h.active w]
    constructor
    · intro hq
      by_cases hs : s.runState = .cancelLinearized
      · exact hq () (checkRunState_draining (Or.inr (Or.inr hs)))
      · refine (quiet_onTimeout h.active w).2 fun _ hs' => absurd hs' hs
    · exact fun hq _ _ => hq
  · refine iff_of_true (fun _ _ => ?_) fun hk' => absurd (w.kind_eq hk') hk
    cases k with
    | startup => exact quiet_onStartup w
    | startupDegraded => simp [onStartupDegraded]
    | startupFailed => simp [onStartupFailed]
    | _ => exact quiet_onActive h w hk

end

end VerifyE10

end StrixPEP
