import StrixPEP.Verifier.History

/-!
# What one accepted record does

`Advance` says what a record that carries an attempt id does to the attempt's entry, and
`Accepts` what any record does to the state of the scan: one constructor per branch, with every
guard the branch tests.  `step_accepts` is the only place where the branches are unfolded.
`scan_induct` lifts a step property to the whole scan, and `valid_iff` says what the verdict
`LOCAL_HISTORY_VALID` means in these terms.
-/

namespace StrixPEP

namespace VerifyE10

/-- A sequence number and an epoch that precede the recorded cancellation, if there is one. -/
def BeforeCancel (cancel : Option Record) (seq : Int) (r : Record) : Prop :=
  ∀ c, cancel = some c →
    (∃ n, c.get? "lifecycle_seq" = some (.int n) ∧ seq < n) ∧
      ∃ e, r.get? "epoch" = some e ∧ c.get? "cancelled_epoch" = some e

/-- The two records agree on two fields. -/
def Agree (r : Record) (k : String) (s : Record) (k' : String) : Prop :=
  ∃ v, r.get? k = some v ∧ s.get? k' = some v

/-- What a record of an attempt does to the attempt's entry, and the sequence number it takes. -/
inductive Advance (cancel : Option Record) (late : Bool) (r : Record) (aid : String) :
    Kind → Option Attempt → Attempt → List (Int × String) → Prop where
  | auth {seq : Int} (hseq : r.get? "lifecycle_seq" = some (.int seq))
      (hcancel : late = true → BeforeCancel cancel seq r) :
      Advance cancel late r aid .auth none
        { state := .authorized, auth := r, permit := none, attempted := none, terminal := none,
          allow := none, release := none, lateAuth := late, connectionTerminated := none }
        [(seq, s!"auth:{aid}")]
  | permit {a : Attempt} {seq authSeq : Int} (hstate : a.state = .authorized)
      (hlate : a.lateAuth = false) (hfields : ∀ f ∈ permitFields, Agree r f a.auth f)
      (hseq : r.get? "lifecycle_seq" = some (.int seq))
      (hauth : a.auth.get? "lifecycle_seq" = some (.int authSeq)) (hlt : authSeq < seq)
      (hcancel : BeforeCancel cancel seq r) :
      Advance cancel late r aid .permit (some a) { a with state := .permitted, permit := some r }
        [(seq, s!"permit:{aid}")]
  | attempted {a : Attempt} {p : Record} (hstate : a.state = .permitted) (hp : a.permit = some p)
      (hseq : Agree r "permit_seq" p "lifecycle_seq") (hconn : Agree r "conn_id" p "conn_id")
      (hepoch : Agree r "epoch" p "epoch") (hip : Agree r "pin_ip" a.auth "pin_ip")
      (hport : Agree r "pin_port" a.auth "pin_port") :
      Advance cancel late r aid .attempted (some a)
        { a with state := .attempted, attempted := some r } []
  | terminal {a : Attempt} {k : Kind} (hk : k.terminal = true)
      (hlegal : legalTerminal a.state k = true) (hconn : Agree r "conn_id" a.auth "conn_id")
      (hepoch : Agree r "epoch" a.auth "epoch")
      (hpermit : ∀ p, a.permit = some p → Agree r "permit_seq" p "lifecycle_seq")
      (hnone : a.permit = none → r.get? "permit_seq" = none) :
      Advance cancel late r aid k (some a)
        { a with state := .terminal k, terminal := some r } []
  | allow {a : Attempt} {t : Record} (ht : a.terminal = some t) (hend : t.kind? = some .completed)
      (hnew : a.allow = none) (hbinds : allowBinds r a.auth t a.attempted = .ok true) :
      Advance cancel late r aid .allow (some a) { a with allow := some r } []
  | released {a : Attempt} {p t : Record} {seq permitSeq : Int} (hp : a.permit = some p)
      (ht : a.terminal = some t) (hallow : t.kind? = some .completed → a.allow.isSome = true)
      (hnew : a.release = none) (hconn : Agree r "conn_id" p "conn_id")
      (hepoch : Agree r "epoch" p "epoch") (hbind : Agree r "permit_seq" p "lifecycle_seq")
      (hseq : r.get? "lifecycle_seq" = some (.int seq))
      (hpermit : p.get? "lifecycle_seq" = some (.int permitSeq)) (hlt : permitSeq < seq) :
      Advance cancel late r aid .permitReleased (some a) { a with release := some r }
        [(seq, s!"release:{aid}")]
  | connectionTerminated {a : Attempt} {t : Record} (ht : a.terminal = some t)
      (hend : t.kind? = some .unknown) (hatt : a.attempted.isSome = true)
      (hnew : a.connectionTerminated = none)
      (hbinds : ∀ x ∈ terminationBindings r a.auth t, x = .ok false) :
      Advance cancel late r aid .connectionTerminated (some a)
        { a with connectionTerminated := some r } []

/-- What `CANCELLATION_LINEARIZED` checks of an attempt. -/
structure BeforeLinearized (record : Record) (seq : Int) (a : Attempt) : Prop where
  epoch : Agree a.auth "epoch" record "cancelled_epoch"
  authSeq : ∃ n, a.auth.get? "lifecycle_seq" = some (.int n) ∧ n < seq
  permitSeq : ∀ p, a.permit = some p → ∃ n, p.get? "lifecycle_seq" = some (.int n) ∧ n < seq

/-- The counts of a record add up. -/
def CountsAdd (r : Record) : Prop :=
  ∃ i p q : Int, r.get? "inflight_remaining" = some (.int i) ∧
    r.get? "effect_permits_remaining" = some (.int p) ∧
    r.get? "audit_producers_remaining" = some (.int q) ∧ i = p + q

/-- What one accepted record does to the state of the scan. -/
inductive Accepts (s : Scan) (r : Record) : Scan → Prop where
  | startupDegraded (hk : r.kind? = some .startupDegraded) (hrun : s.runState = .running)
      (hstart : s.startupSeen = false) (hactive : s.activeSeen = false) : Accepts s r s
  | startupFailed (hk : r.kind? = some .startupFailed) (hrun : s.runState = .running)
      (hstart : s.startupSeen = false) (hactive : s.activeSeen = false) :
      Accepts s r { s with runState := .startupFailed }
  | startup (hk : r.kind? = some .startup) (hrun : s.runState = .running)
      (hstart : s.startupSeen = false) (hactive : s.activeSeen = false) :
      Accepts s r { s with startupSeen := true }
  | attempt {k : Kind} {a : Attempt} {own : List (Int × String)} (hk : r.kind? = some k)
      (hrun : s.runState = .running ∨
        k ≠ .attempted ∧ (s.runState = .cancelRequested ∨ s.runState = .cancelLinearized))
      (hkill : k ≠ .attempted → s.kill = none)
      (hstep : Advance s.cancel (decide (s.runState ≠ .running)) r (r.textOr "attempt_id") k
        (s.attempts.lookup (r.textOr "attempt_id")) a own)
      (hown : ∀ e ∈ own, s.sequences.lookup e.1 = none) :
      Accepts s r { s with
        activeSeen := true
        sequences := s.sequences ++ own
        attempts := Dict.set s.attempts (r.textOr "attempt_id") a }
  | cancelRequested (hk : r.kind? = some .cancelRequested) (hrun : s.runState = .running) :
      Accepts s r { s with
        activeSeen := true, cancelRequest := some r, runState := .cancelRequested }
  | cancelLinearized {request : Record} {seq epoch : Int} (hk : r.kind? = some .cancelLinearized)
      (hrun : s.runState = .cancelRequested) (hreq : s.cancelRequest = some request)
      (hseq : r.get? "lifecycle_seq" = some (.int seq))
      (hcancelled : r.get? "cancelled_epoch" = some (.int epoch))
      (hnew : r.get? "new_epoch" = some (.int (epoch + 1)))
      (hbind : Agree request "lifecycle_seq" r "lifecycle_seq")
      (hepoch : Agree request "cancellation_epoch" r "new_epoch")
      (hfresh : s.sequences.lookup seq = none)
      (hall : ∀ e ∈ s.attempts, BeforeLinearized r seq e.2) :
      Accepts s r { s with
        activeSeen := true
        sequences := s.sequences ++ [(seq, "cancellation")]
        cancel := some r
        runState := .cancelLinearized }
  | killSwitch {cancel : Record} {seq : Int} {n : Nat} (hk : r.kind? = some .killSwitch)
      (hrun : s.runState = .cancelLinearized) (hnew : s.kill = none)
      (hterminal : s.incompleteAttempts = []) (hallow : s.missingAllows = [])
      (hrelease : s.missingReleases = []) (hcounts : CountsAdd r) (hcancel : s.cancel = some cancel)
      (hseq : cancel.get? "lifecycle_seq" = some (.int seq))
      (hn : logicalInflight seq s.attempts = .ok n)
      (hinflight : cancel.get? "inflight_at_linearization" = some (.int n))
      (hbind : ∀ x ∈ killBindings r cancel, x = .ok false)
      (hdrain : drainContradicts r = .ok false) :
      Accepts s r { s with activeSeen := true, kill := some r }
  | cancelAck {kill : Record} (hk : r.kind? = some .cancelAck)
      (hrun : s.runState = .cancelLinearized) (hkill : s.kill = some kill) (hcounts : CountsAdd r)
      (hbind : ∀ f ∈ dispositionFields, Agree r f kill f) (hvalid : ackValid r = .ok true) :
      Accepts s r { s with
        activeSeen := true, runState := .acknowledged, disposition := some .cancelAck }
  | cancelDrainTimeout (hk : r.kind? = some .cancelDrainTimeout)
      (hrun : s.runState = .cancelLinearized) (hkill : s.kill.isSome = true) :
      Accepts s r { s with
        activeSeen := true, runState := .drainTimeout, disposition := some .cancelDrainTimeout }
  | runClosed {cancel : Record} (hk : r.kind? = some .runClosed) (hrun : s.runState = .acknowledged)
      (hcancel : s.cancel = some cancel) (hbind : ∀ x ∈ closureBindings r cancel, x = .ok false)
      (hcounts : CountsAdd r) :
      Accepts s r { s with activeSeen := true, closure := some r, runState := .closed }
  | blockedByPolicy (hk : r.kind? = some .blockedByPolicy)
      (hrun : s.runState = .running ∨ s.runState = .cancelRequested ∨
        s.runState = .cancelLinearized) (hkill : s.kill = none) :
      Accepts s r { s with activeSeen := true }

/-! ## The pieces of a branch -/

theorem same_true {r t : Record} {k k' : String} :
    same r k t k' = .ok true ↔ Agree r k t k' := by
  unfold same Agree
  rw [← differ_false]
  cases differ r k t k' <;> simp [bind, Except.bind, pure, Except.pure]

theorem isValue_true {r : Record} {k : String} {v : Json} :
    isValue r k v = .ok true ↔ r.get? k = some v := by
  unfold isValue
  rw [← differFrom_false]
  cases differFrom r k v <;> simp [bind, Except.bind, pure, Except.pure]

theorem ownSequence_ok {s : Scan} {seq : Int} {owner : String} {out : List (Int × String)}
    (h : ownSequence s seq owner = .ok out) :
    s.sequences.lookup seq = none ∧ out = s.sequences ++ [(seq, owner)] := by
  unfold ownSequence at h
  split at h
  · cases h
  · rename_i hn
    cases h
    exact ⟨hn, rfl⟩

theorem countError_ok {r : Record} {u : Unit} (h : countError r = .ok u) : CountsAdd r := by
  unfold countError at h
  simp only [bind_ok, eval_ok, rejectIf_ok, Record.int_ok, decide_eq_false_iff_not, not_not] at h
  obtain ⟨i, hi, p, hp, q, hq, heq⟩ := h
  exact ⟨i, p, q, hi, hp, hq, heq⟩

theorem ended_iff {a : Attempt} {k : Kind} :
    a.ended k = true ↔ ∃ t, a.terminal = some t ∧ t.kind? = some k := by
  unfold Attempt.ended
  cases ht : a.terminal with
  | none => simp
  | some t => simp [Record.kind?_eq_some]

theorem draining_iff {s : Scan} :
    s.draining = true ↔ (s.runState = .running ∨ s.runState = .cancelRequested ∨
      s.runState = .cancelLinearized) ∧ s.kill = none := by
  unfold Scan.draining
  simp [Option.isNone_iff_eq_none]

theorem pastStartup_iff {s : Scan} :
    s.pastStartup = false ↔
      s.runState = .running ∧ s.startupSeen = false ∧ s.activeSeen = false := by
  unfold Scan.pastStartup
  simp only [Bool.or_eq_false_iff, decide_eq_false_iff_not, not_not]
  tauto

theorem intLe_false {c : Record} {k : String} {n : Int} :
    (do pure (decide ((← c.int k) ≤ n)) : Except PyError Bool) = .ok false ↔
      ∃ m, c.get? k = some (.int m) ∧ n < m := by
  cases hc : c.int k with
  | error e =>
    simp only [bind, Except.bind, reduceCtorEq, false_iff]
    rintro ⟨m, hm, -⟩
    rw [Record.int_ok.2 hm] at hc
    cases hc
  | ok m =>
    rw [Record.int_ok] at hc
    simp [bind, Except.bind, pure, Except.pure, hc]

theorem notBeforeCancel_ok {cancel : Option Record} {seq : Int} {r : Record} {st : Status}
    {d : String} {u : Unit} (h : notBeforeCancel cancel seq r st d = .ok u) :
    BeforeCancel cancel seq r := by
  intro c hc
  subst hc
  unfold notBeforeCancel at h
  simp only [rejectAny_ok, List.mem_cons, List.not_mem_nil, or_false, forall_eq_or_imp,
    forall_eq, differ_false, intLe_false] at h
  exact h

theorem checkPermitFields_ok {r auth : Record} {aid : String} {fields : List String} {u : Unit}
    (h : checkPermitFields r auth aid fields = .ok u) : ∀ f ∈ fields, Agree r f auth f := by
  induction fields with
  | nil => simp
  | cons f fs ih =>
    unfold checkPermitFields at h
    simp only [bind_ok, rejectAny_ok, List.mem_singleton, forall_eq, differ_false] at h
    obtain ⟨-, hf, hfs⟩ := h
    intro g hg
    rcases List.mem_cons.1 hg with rfl | hg
    · exact hf
    · exact ih hfs g hg

theorem checkTerminalPermit_ok {permit : Option Record} {r : Record} {aid : String} {u : Unit}
    (h : checkTerminalPermit permit r aid = .ok u) :
    (∀ p, permit = some p → Agree r "permit_seq" p "lifecycle_seq") ∧
      (permit = none → r.get? "permit_seq" = none) := by
  unfold checkTerminalPermit at h
  cases permit with
  | none =>
    simp only [rejectIf_ok, Record.has] at h
    refine ⟨fun p hp => (by cases hp), fun _ => ?_⟩
    simpa using h
  | some p =>
    simp only [bind_ok, eval_ok, Record.item_ok, rejectIf_ok, decide_eq_false_iff_not,
      not_not] at h
    obtain ⟨v, hv, hr⟩ := h
    refine ⟨fun q hq => ?_, fun hn => (by cases hn)⟩
    cases hq
    exact ⟨v, hr, hv⟩

theorem checkPermitBefore_ok {seq : Int} {id : String} {permit : Option Record} {u : Unit}
    (h : checkPermitBefore seq id permit = .ok u) :
    ∀ p, permit = some p → ∃ n, p.get? "lifecycle_seq" = some (.int n) ∧ n < seq := by
  intro p hp
  subst hp
  simp only [checkPermitBefore, bind_ok, eval_ok, Record.int_ok, rejectIf_ok,
    decide_eq_false_iff_not, not_le] at h
  exact h

theorem checkLinearized_ok {r : Record} {seq : Int} {attempts : List (String × Attempt)} {u : Unit}
    (h : checkLinearized r seq attempts = .ok u) :
    ∀ e ∈ attempts, BeforeLinearized r seq e.2 := by
  induction attempts with
  | nil => simp
  | cons e rest ih =>
    obtain ⟨id, a⟩ := e
    unfold checkLinearized at h
    simp only [bind_ok, rejectAny_ok, List.mem_singleton, forall_eq, differ_false, eval_ok,
      Record.int_ok, rejectIf_ok, decide_eq_false_iff_not, not_le] at h
    obtain ⟨_, hepoch, n, hn, _, hlt, _, hpermit, hrest⟩ := h
    intro g hg
    rcases List.mem_cons.1 hg with rfl | hg
    · exact ⟨hepoch, ⟨n, hn, hlt⟩, checkPermitBefore_ok hpermit⟩
    · exact ih hrest g hg

/-! ## One lemma per branch -/

section Branches

variable {s s' : Scan} {r : Record}

theorem onAuth_accepts (hk : r.kind? = some .auth)
    (h : onAuth { s with activeSeen := true } r (r.textOr "attempt_id") = .ok s') :
    Accepts s r s' := by
  unfold onAuth at h
  simp only [bind_ok, pure_ok, rejectIf_ok, eval_ok, Record.int_ok, Bool.not_eq_false',
    Option.isSome_eq_false_iff, Option.isNone_iff_eq_none] at h
  obtain ⟨_, hdrain, _, hfresh, _, -, seq, hseq, out, hown, _, hcancel, rfl⟩ := h
  obtain ⟨hrun, hkill⟩ := draining_iff.1 hdrain
  obtain ⟨hnone, rfl⟩ := ownSequence_ok hown
  refine Accepts.attempt hk ?_ (fun _ => hkill) ?_ ?_
  · rcases hrun with hrun | hrun
    · exact Or.inl hrun
    · exact Or.inr ⟨by decide, hrun⟩
  · rw [show s.attempts.lookup (r.textOr "attempt_id") = none from hfresh]
    refine Advance.auth hseq fun hlate => ?_
    have := notBeforeCancel_ok hcancel
    rwa [if_pos hlate] at this
  · intro e he
    cases List.mem_singleton.1 he
    exact hnone

/-- The guard shared by the branches of an attempt's records. -/
theorem draining_run {k : Kind} (hne : k ≠ .attempted)
    (h : Scan.draining { s with activeSeen := true } = true) :
    (s.runState = .running ∨
      k ≠ .attempted ∧ (s.runState = .cancelRequested ∨ s.runState = .cancelLinearized)) ∧
      s.kill = none := by
  obtain ⟨hrun, hkill⟩ := draining_iff.1 h
  refine ⟨?_, hkill⟩
  rcases hrun with hrun | hrun
  · exact Or.inl hrun
  · exact Or.inr ⟨hne, hrun⟩

/-- A branch that takes no sequence number. -/
theorem accepts_plain {k : Kind} {a : Attempt} (hk : r.kind? = some k)
    (hrun : s.runState = .running ∨
      k ≠ .attempted ∧ (s.runState = .cancelRequested ∨ s.runState = .cancelLinearized))
    (hkill : k ≠ .attempted → s.kill = none)
    (hstep : Advance s.cancel (decide (s.runState ≠ .running)) r (r.textOr "attempt_id") k
      (s.attempts.lookup (r.textOr "attempt_id")) a []) :
    Accepts s r { s with
      activeSeen := true, attempts := Dict.set s.attempts (r.textOr "attempt_id") a } := by
  have := Accepts.attempt hk hrun hkill hstep (by simp)
  simpa using this

theorem onPermit_accepts (hk : r.kind? = some .permit)
    (h : onPermit { s with activeSeen := true } r (r.textOr "attempt_id") = .ok s') :
    Accepts s r s' := by
  unfold onPermit at h
  simp only [bind_ok, rejectIf_ok, Bool.not_eq_false'] at h
  obtain ⟨_, hdrain, h⟩ := h
  obtain ⟨hrun, hkill⟩ := draining_run (k := .permit) (by decide) hdrain
  split at h
  · cases h
  rename_i a ha
  simp only [bind_ok, pure_ok, rejectIf_ok, eval_ok, Record.int_ok, Bool.or_eq_false_iff,
    decide_eq_false_iff_not, not_not, not_le] at h
  obtain ⟨_, ⟨hstate, hlate⟩, _, hfields, seq, hseq, authSeq, hauth, _, hlt, out, hown, _,
    hcancel, rfl⟩ := h
  obtain ⟨hnone, rfl⟩ := ownSequence_ok hown
  refine Accepts.attempt hk hrun (fun _ => hkill) ?_ ?_
  · rw [show s.attempts.lookup (r.textOr "attempt_id") = some a from ha]
    exact Advance.permit hstate hlate (checkPermitFields_ok hfields) hseq hauth hlt
      (notBeforeCancel_ok hcancel)
  · intro e he
    cases List.mem_singleton.1 he
    exact hnone

theorem onAttempted_accepts (hk : r.kind? = some .attempted)
    (h : onAttempted { s with activeSeen := true } r (r.textOr "attempt_id") = .ok s') :
    Accepts s r s' := by
  unfold onAttempted at h
  simp only [bind_ok, rejectIf_ok, decide_eq_false_iff_not, not_not] at h
  obtain ⟨_, hrun, h⟩ := h
  split at h
  · cases h
  rename_i a ha
  simp only [bind_ok, rejectIf_ok, decide_eq_false_iff_not, not_not] at h
  obtain ⟨_, hstate, h⟩ := h
  split at h
  · cases h
  rename_i p hp
  simp only [bind_ok, pure_ok, rejectAny_ok, List.mem_cons, List.not_mem_nil, or_false,
    forall_eq_or_imp, forall_eq, differ_false] at h
  obtain ⟨_, ⟨hseq, hconn, hepoch, hip, hport⟩, rfl⟩ := h
  refine accepts_plain hk (Or.inl hrun) (fun hne => absurd rfl hne) ?_
  rw [show s.attempts.lookup (r.textOr "attempt_id") = some a from ha]
  exact Advance.attempted hstate hp hseq hconn hepoch hip hport

theorem onTerminal_accepts {k : Kind} (hk : r.kind? = some k) (ht : k.terminal = true)
    (h : onTerminal { s with activeSeen := true } k r (r.textOr "attempt_id") = .ok s') :
    Accepts s r s' := by
  unfold onTerminal at h
  simp only [bind_ok, rejectIf_ok, Bool.not_eq_false'] at h
  obtain ⟨_, hdrain, h⟩ := h
  have hne : k ≠ .attempted := by rintro rfl; cases ht
  obtain ⟨hrun, hkill⟩ := draining_run hne hdrain
  split at h
  · cases h
  rename_i a ha
  simp only [bind_ok, pure_ok, rejectIf_ok, rejectAny_ok, Bool.not_eq_false', List.mem_cons,
    List.not_mem_nil, or_false, forall_eq_or_imp, forall_eq, differ_false] at h
  obtain ⟨_, hlegal, _, ⟨hconn, hepoch⟩, _, hpermit, rfl⟩ := h
  obtain ⟨hsome, hnone⟩ := checkTerminalPermit_ok hpermit
  refine accepts_plain hk hrun (fun _ => hkill) ?_
  rw [show s.attempts.lookup (r.textOr "attempt_id") = some a from ha]
  exact Advance.terminal ht hlegal hconn hepoch hsome hnone

theorem onAllow_accepts (hk : r.kind? = some .allow)
    (h : onAllow { s with activeSeen := true } r (r.textOr "attempt_id") = .ok s') :
    Accepts s r s' := by
  unfold onAllow at h
  simp only [bind_ok, rejectIf_ok, Bool.not_eq_false'] at h
  obtain ⟨_, hdrain, h⟩ := h
  obtain ⟨hrun, hkill⟩ := draining_run (k := .allow) (by decide) hdrain
  split at h
  · cases h
  rename_i a ha
  split at h
  · cases h
  rename_i t ht
  simp only [bind_ok, pure_ok, rejectIf_ok, eval_ok, Bool.not_eq_false',
    Option.isSome_eq_false_iff, Option.isNone_iff_eq_none] at h
  obtain ⟨_, hend, _, hnew, valid, hbinds, _, rfl, rfl⟩ := h
  obtain ⟨t', ht', hkind⟩ := ended_iff.1 hend
  cases ht.symm.trans ht'
  refine accepts_plain hk hrun (fun _ => hkill) ?_
  rw [show s.attempts.lookup (r.textOr "attempt_id") = some a from ha]
  exact Advance.allow ht hkind hnew hbinds

theorem onReleased_accepts (hk : r.kind? = some .permitReleased)
    (h : onReleased { s with activeSeen := true } r (r.textOr "attempt_id") = .ok s') :
    Accepts s r s' := by
  unfold onReleased at h
  simp only [bind_ok, rejectIf_ok, Bool.not_eq_false'] at h
  obtain ⟨_, hdrain, h⟩ := h
  obtain ⟨hrun, hkill⟩ := draining_run (k := .permitReleased) (by decide) hdrain
  split at h
  · cases h
  rename_i a ha
  split at h
  · cases h
  rename_i p hp
  simp only [bind_ok, pure_ok, rejectIf_ok, rejectAny_ok, eval_ok, Record.int_ok, List.mem_cons,
    List.not_mem_nil, or_false, forall_eq_or_imp, forall_eq, differ_false,
    Option.isNone_eq_false_iff, Option.isSome_eq_false_iff, Option.isNone_iff_eq_none,
    decide_eq_false_iff_not, not_le] at h
  obtain ⟨_, hterm, _, hallow, _, hnew, _, ⟨hconn, hepoch, hbind⟩, seq, hseq, permitSeq, hpermit,
    _, hlt, out, hown, rfl⟩ := h
  obtain ⟨hnone, rfl⟩ := ownSequence_ok hown
  obtain ⟨t, ht⟩ := Option.isSome_iff_exists.1 hterm
  refine Accepts.attempt hk hrun (fun _ => hkill) ?_ ?_
  · rw [show s.attempts.lookup (r.textOr "attempt_id") = some a from ha]
    refine Advance.released hp ht ?_ hnew hconn hepoch hbind hseq hpermit hlt
    intro hkind
    have hend : a.ended .completed = true := ended_iff.2 ⟨t, ht, hkind⟩
    rw [hend] at hallow
    simpa [Option.isSome_iff_ne_none] using hallow
  · intro e he
    cases List.mem_singleton.1 he
    exact hnone

theorem onConnectionTerminated_accepts (hk : r.kind? = some .connectionTerminated)
    (h : onConnectionTerminated { s with activeSeen := true } r (r.textOr "attempt_id") = .ok s') :
    Accepts s r s' := by
  unfold onConnectionTerminated at h
  simp only [bind_ok, rejectIf_ok, Bool.not_eq_false'] at h
  obtain ⟨_, hdrain, h⟩ := h
  obtain ⟨hrun, hkill⟩ := draining_run (k := .connectionTerminated) (by decide) hdrain
  split at h
  · cases h
  rename_i a ha
  simp only [bind_ok, rejectIf_ok, Option.isNone_eq_false_iff] at h
  obtain ⟨_, hatt, h⟩ := h
  split at h
  · cases h
  rename_i t ht
  simp only [bind_ok, pure_ok, rejectIf_ok, rejectAny_ok, Bool.not_eq_false',
    Option.isSome_eq_false_iff, Option.isNone_iff_eq_none] at h
  obtain ⟨_, hend, _, hnew, _, hbinds, rfl⟩ := h
  obtain ⟨t', ht', hkind⟩ := ended_iff.1 hend
  cases ht.symm.trans ht'
  refine accepts_plain hk hrun (fun _ => hkill) ?_
  rw [show s.attempts.lookup (r.textOr "attempt_id") = some a from ha]
  exact Advance.connectionTerminated ht hkind hatt hnew hbinds

theorem onLinearized_accepts (hk : r.kind? = some .cancelLinearized)
    (h : onLinearized { s with activeSeen := true } r = .ok s') : Accepts s r s' := by
  unfold onLinearized at h
  simp only [bind_ok, rejectIf_ok, eval_ok, Record.int_ok, decide_eq_false_iff_not, not_not] at h
  obtain ⟨_, hrun, seq, hseq, new, hnew, epoch, hcancelled, _, hsucc, h⟩ := h
  subst hsucc
  split at h
  · cases h
  rename_i request hreq
  simp only [bind_ok, pure_ok, rejectAny_ok, List.mem_cons, List.not_mem_nil, or_false,
    forall_eq_or_imp, forall_eq, differ_false] at h
  obtain ⟨_, ⟨hbind, hepoch⟩, out, hown, _, hall, rfl⟩ := h
  obtain ⟨hnone, rfl⟩ := ownSequence_ok hown
  exact Accepts.cancelLinearized hk hrun hreq hseq hcancelled hnew hbind hepoch hnone
    (checkLinearized_ok hall)

theorem onKillSwitch_accepts (hk : r.kind? = some .killSwitch)
    (h : onKillSwitch { s with activeSeen := true } r = .ok s') : Accepts s r s' := by
  unfold onKillSwitch at h
  simp only [bind_ok, rejectIf_ok, Bool.or_eq_false_iff, decide_eq_false_iff_not, not_not,
    Option.isSome_eq_false_iff, Option.isNone_iff_eq_none] at h
  obtain ⟨_, ⟨hrun, hnew⟩, h⟩ := h
  split at h
  · cases h
  rename_i hterminal
  split at h
  · cases h
  rename_i hallow
  split at h
  · cases h
  rename_i hrelease
  simp only [bind_ok] at h
  obtain ⟨_, hcounts, h⟩ := h
  split at h
  · cases h
  rename_i cancel hcancel
  simp only [bind_ok, pure_ok, rejectIf_ok, rejectAny_ok, eval_ok, Record.int_ok,
    List.mem_singleton, forall_eq, decide_eq_false_iff_not, not_not] at h
  obtain ⟨seq, hseq, n, hn, _, hinflight, _, rfl, _, hbind, _, hdrain, rfl⟩ := h
  simp only [Bool.not_eq_true, Bool.not_eq_false', List.isEmpty_iff] at hterminal hallow hrelease
  exact Accepts.killSwitch hk hrun hnew hterminal hallow hrelease (countError_ok hcounts) hcancel
    hseq hn hinflight hbind hdrain

theorem onDisposition_accepts {k : Kind} (hk : r.kind? = some k)
    (hd : k = .cancelAck ∨ k = .cancelDrainTimeout)
    (h : onDisposition { s with activeSeen := true } k r = .ok s') : Accepts s r s' := by
  unfold onDisposition at h
  simp only [bind_ok, rejectIf_ok, decide_eq_false_iff_not, not_not] at h
  obtain ⟨_, hrun, h⟩ := h
  split at h
  · cases h
  rename_i kill hkill
  simp only [bind_ok, rejectAny_ok, List.mem_map, forall_exists_index, and_imp,
    forall_apply_eq_imp_iff₂, differ_false] at h
  obtain ⟨_, hcounts, _, hbind, h⟩ := h
  rcases hd with rfl | rfl
  · simp only [if_true, bind_ok, eval_ok, rejectIf_ok, pure_ok, Bool.not_eq_false'] at h
    obtain ⟨valid, hvalid, _, rfl, rfl⟩ := h
    exact Accepts.cancelAck hk hrun hkill (countError_ok hcounts) hbind hvalid
  · simp only [reduceCtorEq, if_false, bind_ok, eval_ok, rejectIf_ok, pure_ok] at h
    obtain ⟨_, -, _, -, rfl⟩ := h
    exact Accepts.cancelDrainTimeout hk hrun (Option.isSome_iff_exists.2 ⟨kill, hkill⟩)

theorem onRunClosed_accepts (hk : r.kind? = some .runClosed)
    (h : onRunClosed { s with activeSeen := true } r = .ok s') : Accepts s r s' := by
  unfold onRunClosed at h
  simp only [bind_ok, rejectIf_ok, decide_eq_false_iff_not, not_not] at h
  obtain ⟨_, hrun, h⟩ := h
  split at h
  · cases h
  rename_i cancel hcancel
  simp only [bind_ok, pure_ok, rejectAny_ok] at h
  obtain ⟨_, hbind, _, hcounts, rfl⟩ := h
  exact Accepts.runClosed hk hrun hcancel hbind (countError_ok hcounts)

theorem onBlocked_accepts (hk : r.kind? = some .blockedByPolicy)
    (h : onBlocked { s with activeSeen := true } r = .ok s') : Accepts s r s' := by
  unfold onBlocked at h
  simp only [bind_ok, pure_ok, rejectIf_ok, Bool.not_eq_false'] at h
  obtain ⟨_, hdrain, _, -, rfl⟩ := h
  obtain ⟨hrun, hkill⟩ := draining_iff.1 hdrain
  exact Accepts.blockedByPolicy hk hrun hkill

theorem onCancelRequested_accepts (hk : r.kind? = some .cancelRequested)
    (h : onCancelRequested { s with activeSeen := true } r = .ok s') : Accepts s r s' := by
  unfold onCancelRequested at h
  simp only [bind_ok, pure_ok, rejectIf_ok, decide_eq_false_iff_not, not_not] at h
  obtain ⟨_, hrun, rfl⟩ := h
  exact Accepts.cancelRequested hk hrun

theorem onActive_accepts {k : Kind} (hk : r.kind? = some k)
    (h : onActive { s with activeSeen := true } k r = .ok s') : Accepts s r s' := by
  cases k with
  | auth => exact onAuth_accepts hk h
  | permit => exact onPermit_accepts hk h
  | permitReleased => exact onReleased_accepts hk h
  | attempted => exact onAttempted_accepts hk h
  | completed => exact onTerminal_accepts hk rfl h
  | failed => exact onTerminal_accepts hk rfl h
  | unknown => exact onTerminal_accepts hk rfl h
  | cancelled => exact onTerminal_accepts hk rfl h
  | allow => exact onAllow_accepts hk h
  | cancelRequested => exact onCancelRequested_accepts hk h
  | cancelLinearized => exact onLinearized_accepts hk h
  | cancelAck => exact onDisposition_accepts hk (Or.inl rfl) h
  | cancelDrainTimeout => exact onDisposition_accepts hk (Or.inr rfl) h
  | runClosed => exact onRunClosed_accepts hk h
  | killSwitch => exact onKillSwitch_accepts hk h
  | blockedByPolicy => exact onBlocked_accepts hk h
  | connectionTerminated => exact onConnectionTerminated_accepts hk h
  | startup => cases h
  | startupDegraded => cases h
  | startupFailed => cases h

/-- **Inversion of one iteration of the loop.** -/
theorem step_accepts {i : Nat} (h : step s i r = .ok s') : Accepts s r s' := by
  unfold step at h
  split at h
  · cases h
  rename_i k hk
  simp only [bind_ok] at h
  obtain ⟨_, -, h⟩ := h
  split at h
  · unfold onStartupDegraded at h
    simp only [bind_ok, pure_ok, rejectIf_ok, pastStartup_iff] at h
    obtain ⟨_, ⟨hrun, hstart, hactive⟩, rfl⟩ := h
    exact Accepts.startupDegraded hk hrun hstart hactive
  · unfold onStartupFailed at h
    simp only [bind_ok, pure_ok, rejectIf_ok, pastStartup_iff] at h
    obtain ⟨_, ⟨hrun, hstart, hactive⟩, rfl⟩ := h
    exact Accepts.startupFailed hk hrun hstart hactive
  · unfold onStartup at h
    simp only [bind_ok, pure_ok, rejectIf_ok, eval_ok, pastStartup_iff] at h
    obtain ⟨_, ⟨hrun, hstart, hactive⟩, _, -, _, -, rfl⟩ := h
    rw [← hrun]
    exact Accepts.startup hk hrun hstart hactive
  · exact onActive_accepts hk h

end Branches

/-! ## The whole scan -/

/-- **A property of the records read so far that every accepted record keeps holds at the end
of the scan.** -/
theorem scan_induct {P : List Record → Scan → Prop} {W : Record → Prop} (h0 : P [] .start)
    (hstep : ∀ {seen s r s'}, P seen s → W r → Accepts s r s' → P (seen ++ [r]) s')
    {records : List Record} {i : Nat} {s : Scan} (hW : ∀ r ∈ records, W r)
    (h : scan .start i records = .ok s) : P records s := by
  suffices ∀ (rest seen : List Record) (s₀ s : Scan) (i : Nat), (∀ r ∈ rest, W r) → P seen s₀ →
      scan s₀ i rest = .ok s → P (seen ++ rest) s from this records [] .start s i hW h0 h
  intro rest
  induction rest with
  | nil =>
    intro seen s₀ s i _ hP h
    cases h
    simpa using hP
  | cons r rest ih =>
    intro seen s₀ s i hW hP h
    unfold scan at h
    simp only [bind_ok] at h
    obtain ⟨s₁, h1, h2⟩ := h
    have hP1 := hstep hP (hW r List.mem_cons_self) (step_accepts h1)
    have := ih (seen ++ [r]) s₁ s (i + 1) (fun g hg => hW g (List.mem_cons_of_mem _ hg)) hP1 h2
    simpa using this

theorem checkRecords_ok {runId : String} {i : Nat} {records : List Record} {u : Unit}
    (h : checkRecords runId i records = .ok u) :
    ∀ r ∈ records, r.get? "run_id" = some (.str runId) ∧ ∃ k, WellFormed k r := by
  induction records generalizing i with
  | nil => simp
  | cons r rest ih =>
    unfold checkRecords at h
    simp only [bind_ok, rejectIf_ok, decide_eq_false_iff_not, not_not] at h
    obtain ⟨_, hid, _, hschema, hrest⟩ := h
    intro g hg
    rcases List.mem_cons.1 hg with rfl | hg
    · exact ⟨hid, schemaError_ok.1 hschema⟩
    · exact ih hrest g hg

/-- What holds of the final state of an accepted history. -/
structure Accepted (records : List Record) (s : Scan) : Prop where
  schema : ∀ r ∈ records, ∃ k, WellFormed k r
  scanned : scan .start 1 records = .ok s
  nonempty : s.attempts ≠ []
  terminal : s.incompleteAttempts = []
  allows : s.missingAllows = []
  releases : s.missingReleases = []
  killed : s.cancel.isSome = true → s.kill.isSome = true
  ended : s.runState = .startupFailed ∨ s.runState = .closed

theorem conclude_ok {s : Scan} {res : Result} (h : conclude s = .ok res) :
    s.attempts ≠ [] ∧ s.incompleteAttempts = [] ∧ s.missingAllows = [] ∧ s.missingReleases = [] ∧
      (s.cancel.isSome = true → s.kill.isSome = true) ∧
      (s.runState = .startupFailed ∨ s.runState = .closed) := by
  unfold conclude at h
  split at h
  · cases h
  rename_i hne
  split at h
  · cases h
  rename_i hterm
  split at h
  · cases h
  rename_i hallow
  split at h
  · cases h
  rename_i hrel
  split at h
  · cases h
  rename_i hkill
  simp only [Bool.not_eq_true, Bool.not_eq_false', List.isEmpty_iff] at hne hterm hallow hrel
  refine ⟨hne, hterm, hallow, hrel, ?_, ?_⟩
  · intro hc
    rw [hc] at hkill
    simpa [Option.isSome_iff_ne_none] using hkill
  · cases hrun : s.runState with
    | startupFailed => exact Or.inl rfl
    | closed => exact Or.inr rfl
    | _ => simp only [hrun, reject, reduceCtorEq] at h

/-- **What `LOCAL_HISTORY_VALID` means for the scan.** -/
theorem valid_accepted {records : List Record} {runId : String}
    (h : accepts records runId = true) : ∃ s, Accepted records s := by
  unfold accepts validateHistory at h
  cases hres : historyCheck records runId with
  | error e => cases e <;> simp [hres] at h
  | ok res =>
    unfold historyCheck at hres
    simp only [bind_ok, rejectIf_ok] at hres
    obtain ⟨_, -, _, -, _, hrec, s, hscan, hend⟩ := hres
    obtain ⟨h1, h2, h3, h4, h5, h6⟩ := conclude_ok hend
    exact ⟨s, fun r hr => (checkRecords_ok hrec r hr).2, hscan, h1, h2, h3, h4, h5, h6⟩

end VerifyE10

end StrixPEP
