import StrixPEP.Verifier.Steps

/-!
# When a record is accepted

`step_accepts` says what an accepted record has done.  Here the converse: `Clean` holds the checks
that leave no trace in the state, and `step_iff` says that a record is accepted exactly if it
`Accepts` and is clean.  The index of the record only appears in the texts of rejections.
-/

namespace StrixPEP

namespace VerifyE10

/-- The checks of a record that its effect does not show. -/
structure Clean (s : Scan) (r : Record) : Prop where
  secret : r.kind? = some .auth → looksSecret r = false
  capacity : r.kind? = some .startup → ∃ n : Int, r.get? "max_connections" = some (.int n) ∧ 0 < n
  pin : r.kind? = some .blockedByPolicy → badPinFamily r = .ok false
  timeout : r.kind? = some .cancelDrainTimeout → CountsAdd r ∧ timeoutValid r = .ok true ∧
    ∀ kill, s.kill = some kill → ∀ f ∈ dispositionFields, Agree r f kill f

/-! ## The pieces of a branch pass -/

theorem ownSequence_of {s : Scan} {seq : Int} (h : s.sequences.lookup seq = none) (owner : String) :
    ownSequence s seq owner = .ok (s.sequences ++ [(seq, owner)]) := by
  unfold ownSequence
  rw [h]

theorem countError_of {r : Record} (h : CountsAdd r) : countError r = .ok () := by
  obtain ⟨i, p, q, hi, hp, hq, heq⟩ := h
  unfold countError
  simp only [bind_ok, eval_ok, rejectIf_ok, Record.int_ok, decide_eq_false_iff_not, not_not]
  exact ⟨i, hi, p, hp, q, hq, heq⟩

theorem notBeforeCancel_of {cancel : Option Record} {seq : Int} {r : Record}
    (h : BeforeCancel cancel seq r) (st : Status) (d : String) :
    notBeforeCancel cancel seq r st d = .ok () := by
  cases cancel with
  | none => rfl
  | some c =>
    unfold notBeforeCancel
    simp only [rejectAny_ok, List.mem_cons, List.not_mem_nil, or_false, forall_eq_or_imp,
      forall_eq, differ_false, intLe_false]
    exact h c rfl

theorem checkPermitFields_of {r auth : Record} {fields : List String}
    (h : ∀ f ∈ fields, Agree r f auth f) (aid : String) :
    checkPermitFields r auth aid fields = .ok () := by
  induction fields with
  | nil => rfl
  | cons f fs ih =>
    unfold checkPermitFields
    simp only [bind_ok, rejectAny_ok, List.mem_singleton, forall_eq, differ_false]
    exact ⟨(), h f List.mem_cons_self, ih fun g hg => h g (List.mem_cons_of_mem _ hg)⟩

theorem checkTerminalPermit_of {permit : Option Record} {r : Record}
    (hsome : ∀ p, permit = some p → Agree r "permit_seq" p "lifecycle_seq")
    (hnone : permit = none → r.get? "permit_seq" = none) (aid : String) :
    checkTerminalPermit permit r aid = .ok () := by
  unfold checkTerminalPermit
  cases permit with
  | none =>
    simp only [rejectIf_ok, Record.has]
    rw [hnone rfl]
    rfl
  | some p =>
    simp only [bind_ok, eval_ok, Record.item_ok, rejectIf_ok, decide_eq_false_iff_not, not_not]
    obtain ⟨v, hr, hp⟩ := hsome p rfl
    exact ⟨v, hp, hr⟩

theorem checkPermitBefore_of {seq : Int} {permit : Option Record}
    (h : ∀ p, permit = some p → ∃ n, p.get? "lifecycle_seq" = some (.int n) ∧ n < seq) (id : String) :
    checkPermitBefore seq id permit = .ok () := by
  cases permit with
  | none => rfl
  | some p =>
    simp only [checkPermitBefore, bind_ok, eval_ok, Record.int_ok, rejectIf_ok,
      decide_eq_false_iff_not, not_le]
    exact h p rfl

theorem checkLinearized_of {r : Record} {seq : Int} {attempts : List (String × Attempt)}
    (h : ∀ e ∈ attempts, BeforeLinearized r seq e.2) : checkLinearized r seq attempts = .ok () := by
  induction attempts with
  | nil => rfl
  | cons e rest ih =>
    obtain ⟨id, a⟩ := e
    unfold checkLinearized
    simp only [bind_ok, rejectAny_ok, List.mem_singleton, forall_eq, differ_false, eval_ok,
      Record.int_ok, rejectIf_ok, decide_eq_false_iff_not, not_le]
    obtain ⟨hepoch, ⟨n, hn, hlt⟩, hpermit⟩ := h _ List.mem_cons_self
    exact ⟨(), hepoch, n, hn, (), hlt, (), checkPermitBefore_of hpermit id,
      ih fun g hg => h g (List.mem_cons_of_mem _ hg)⟩

/-! ## One lemma per branch -/

section Branches

variable {s : Scan} {r : Record}

theorem draining_of {k : Kind} (hne : k ≠ .attempted)
    (hrun : s.runState = .running ∨
      k ≠ .attempted ∧ (s.runState = .cancelRequested ∨ s.runState = .cancelLinearized))
    (hkill : k ≠ .attempted → s.kill = none) :
    Scan.draining { s with activeSeen := true } = true :=
  draining_iff.2 ⟨hrun.imp_right And.right, hkill hne⟩

/-- **An attempt's record passes its branch.** -/
theorem onActive_advance {k : Kind} {a : Attempt} {own : List (Int × String)}
    (hrun : s.runState = .running ∨
      k ≠ .attempted ∧ (s.runState = .cancelRequested ∨ s.runState = .cancelLinearized))
    (hkill : k ≠ .attempted → s.kill = none)
    (hstep : Advance s.cancel (decide (s.runState ≠ .running)) r (r.textOr "attempt_id") k
      (s.attempts.lookup (r.textOr "attempt_id")) a own)
    (hown : ∀ e ∈ own, s.sequences.lookup e.1 = none) (hsecret : k = .auth → looksSecret r = false) :
    onActive { s with activeSeen := true } k r = .ok { s with
      activeSeen := true
      sequences := s.sequences ++ own
      attempts := Dict.set s.attempts (r.textOr "attempt_id") a } := by
  generalize hentry : s.attempts.lookup (r.textOr "attempt_id") = entry at hstep
  cases hstep with
  | auth hseq hcancel =>
    show onAuth _ r _ = _
    unfold onAuth
    simp only [bind_ok, pure_ok, rejectIf_ok, eval_ok, Record.int_ok, Bool.not_eq_false',
      Option.isSome_eq_false_iff, Option.isNone_iff_eq_none]
    refine ⟨(), draining_of (by decide) hrun hkill, (), hentry, (), hsecret rfl, _, hseq, _,
      ownSequence_of (hown _ List.mem_cons_self) _, (), notBeforeCancel_of ?_ _ _, rfl⟩
    split
    · rename_i hlate
      exact hcancel hlate
    · exact nofun
  | permit hstate hlate hfields hseq hauth hlt hcancel =>
    show onPermit _ r _ = _
    unfold onPermit
    simp only [bind_ok, pure_ok, rejectIf_ok, eval_ok, Record.int_ok, Bool.not_eq_false', hentry,
      Bool.or_eq_false_iff, decide_eq_false_iff_not, not_not, not_le]
    refine ⟨(), draining_of (by decide) hrun hkill, ?_⟩
    exact ⟨(), ⟨hstate, hlate⟩, (), checkPermitFields_of hfields _, _, hseq, _, hauth, (), hlt, _,
      ownSequence_of (hown _ List.mem_cons_self) _, (), notBeforeCancel_of hcancel _ _, rfl⟩
  | attempted hstate hp hseq hconn hepoch hip hport =>
    have hrunning : s.runState = .running := hrun.resolve_right fun h => h.1 rfl
    show onAttempted _ r _ = _
    unfold onAttempted
    simp only [bind_ok, pure_ok, rejectIf_ok, rejectAny_ok, decide_eq_false_iff_not, not_not, hentry,
      hp, List.mem_cons, List.not_mem_nil, or_false, forall_eq_or_imp, forall_eq, differ_false,
      List.append_nil]
    exact ⟨(), hrunning, (), hstate, (), ⟨hseq, hconn, hepoch, hip, hport⟩, trivial⟩
  | terminal hk hlegal hconn hepoch hpermit hnone =>
    have hne : k ≠ .attempted := by
      rintro rfl
      cases hk
    have hon : onActive { s with activeSeen := true } k r =
        onTerminal { s with activeSeen := true } k r (r.textOr "attempt_id") := by
      cases k <;> first | rfl | cases hk
    rw [hon]
    unfold onTerminal
    simp only [bind_ok, pure_ok, rejectIf_ok, rejectAny_ok, Bool.not_eq_false', hentry, List.mem_cons,
      List.not_mem_nil, or_false, forall_eq_or_imp, forall_eq, differ_false, List.append_nil]
    exact ⟨(), draining_of hne hrun hkill, (), hlegal, (), ⟨hconn, hepoch⟩, (),
      checkTerminalPermit_of hpermit hnone _, trivial⟩
  | @allow a t ht hend hnew hbinds =>
    show onAllow _ r _ = _
    unfold onAllow
    simp only [bind_ok, pure_ok, rejectIf_ok, eval_ok, Bool.not_eq_false', hentry, ht,
      Option.isSome_eq_false_iff, Option.isNone_iff_eq_none, List.append_nil]
    exact ⟨(), draining_of (by decide) hrun hkill, (), ended_iff.2 ⟨t, ht, hend⟩, (), hnew, true, hbinds,
      (), rfl, trivial⟩
  | @released a p t seq permitSeq hp ht hallow hnew hconn hepoch hbind hseq hpermit hlt =>
    show onReleased _ r _ = _
    unfold onReleased
    simp only [bind_ok, pure_ok, rejectIf_ok, rejectAny_ok, eval_ok, Record.int_ok, Bool.not_eq_false',
      hentry, hp, List.mem_cons, List.not_mem_nil, or_false, forall_eq_or_imp, forall_eq, differ_false,
      Option.isNone_eq_false_iff, Option.isSome_eq_false_iff, Option.isNone_iff_eq_none,
      decide_eq_false_iff_not, not_le]
    refine ⟨(), draining_of (by decide) hrun hkill, (), Option.isSome_iff_exists.2 ⟨t, ht⟩, (), ?_, (),
      hnew, (), ⟨hconn, hepoch, hbind⟩, seq, hseq, permitSeq, hpermit, (), hlt, _,
      ownSequence_of (hown _ List.mem_cons_self) _, rfl⟩
    cases hend : a.ended .completed with
    | false => rfl
    | true =>
      obtain ⟨t', ht', hkind⟩ := ended_iff.1 hend
      cases ht.symm.trans ht'
      obtain ⟨allow, ha⟩ := Option.isSome_iff_exists.1 (hallow hkind)
      rw [ha]
      rfl
  | @connectionTerminated a t ht hend hatt hnew hbinds =>
    show onConnectionTerminated _ r _ = _
    unfold onConnectionTerminated
    simp only [bind_ok, pure_ok, rejectIf_ok, rejectAny_ok, Bool.not_eq_false', hentry, ht,
      Option.isNone_eq_false_iff, Option.isSome_eq_false_iff, Option.isNone_iff_eq_none,
      List.append_nil]
    exact ⟨(), draining_of (by decide) hrun hkill, (), hatt, (), ended_iff.2 ⟨t, ht, hend⟩, (), hnew, (),
      hbinds, trivial⟩

/-- The run state lets the record through. -/
theorem checkRunState_of {i : Nat} {k : Kind}
    (h : s.runState = .running ∨ s.runState = .cancelRequested ∨ s.runState = .cancelLinearized ∨
      s.runState = .acknowledged ∧ k = .runClosed) : checkRunState s i k = .ok () := by
  unfold checkRunState
  simp only [bind_ok, rejectIf_ok]
  rcases h with h | h | h | ⟨h, rfl⟩
  all_goals
    rw [h]
    exact ⟨(), rfl, rfl⟩

theorem checkRunState_draining {i : Nat} {k : Kind}
    (h : s.runState = .running ∨ s.runState = .cancelRequested ∨ s.runState = .cancelLinearized) :
    checkRunState s i k = .ok () :=
  checkRunState_of (h.imp_right (Or.imp_right Or.inl))

theorem step_active {i : Nat} {k : Kind} (hk : r.kind? = some k)
    (hne : k ≠ .startupDegraded ∧ k ≠ .startupFailed ∧ k ≠ .startup)
    (hrun : checkRunState s i k = .ok ()) :
    step s i r = onActive { s with activeSeen := true } k r := by
  unfold step
  rw [hk]
  simp only
  rw [hrun]
  cases k <;> first | rfl | simp at hne

theorem Advance.notStartup {cancel : Option Record} {late : Bool} {aid : String} {k : Kind}
    {entry : Option Attempt} {a : Attempt} {own : List (Int × String)}
    (h : Advance cancel late r aid k entry a own) :
    k ≠ .startupDegraded ∧ k ≠ .startupFailed ∧ k ≠ .startup := by
  cases h with
  | terminal hterm _ _ _ _ _ =>
    refine ⟨?_, ?_, ?_⟩
    all_goals
      rintro rfl
      cases hterm
  | _ => decide

/-- **A clean record with an effect is accepted.** -/
theorem accepts_step {s' : Scan} (h : Accepts s r s') (hclean : Clean s r) (i : Nat) :
    step s i r = .ok s' := by
  cases h with
  | startupDegraded hk hrun hstart hactive =>
    unfold step
    rw [hk]
    simp only
    rw [checkRunState_draining (Or.inl hrun)]
    show onStartupDegraded s = _
    unfold onStartupDegraded
    simp only [bind_ok, pure_ok, rejectIf_ok, pastStartup_iff]
    exact ⟨(), ⟨hrun, hstart, hactive⟩, trivial⟩
  | startupFailed hk hrun hstart hactive =>
    unfold step
    rw [hk]
    simp only
    rw [checkRunState_draining (Or.inl hrun)]
    show onStartupFailed s = _
    unfold onStartupFailed
    simp only [bind_ok, pure_ok, rejectIf_ok, pastStartup_iff]
    exact ⟨(), ⟨hrun, hstart, hactive⟩, trivial⟩
  | startup hk hrun hstart hactive =>
    obtain ⟨n, hn, hpos⟩ := hclean.capacity hk
    unfold step
    rw [hk]
    simp only
    rw [checkRunState_draining (Or.inl hrun)]
    show onStartup s r = _
    unfold onStartup
    simp only [bind_ok, pure_ok, rejectIf_ok, eval_ok, pastStartup_iff, Record.int_ok,
      decide_eq_false_iff_not, not_le]
    exact ⟨(), ⟨hrun, hstart, hactive⟩, n, hn, (), hpos, by rw [hrun]⟩
  | @attempt k a own hk hrun hkill hstep hown =>
    rw [step_active hk hstep.notStartup (checkRunState_draining (hrun.imp_right And.right))]
    refine onActive_advance hrun hkill hstep hown ?_
    rintro rfl
    exact hclean.secret hk
  | cancelRequested hk hrun =>
    rw [step_active hk (by decide) (checkRunState_draining (Or.inl hrun))]
    show onCancelRequested _ r = _
    unfold onCancelRequested
    simp only [bind_ok, pure_ok, rejectIf_ok, decide_eq_false_iff_not, not_not]
    exact ⟨(), hrun, trivial⟩
  | cancelLinearized hk hrun hreq hseq hcancelled hnew hbind hepoch hfresh hall =>
    rw [step_active hk (by decide) (checkRunState_draining (Or.inr (Or.inl hrun)))]
    show onLinearized _ r = _
    unfold onLinearized
    simp only [bind_ok, pure_ok, rejectIf_ok, rejectAny_ok, eval_ok, Record.int_ok,
      decide_eq_false_iff_not, not_not, hreq, List.mem_cons, List.not_mem_nil, or_false,
      forall_eq_or_imp, forall_eq, differ_false]
    exact ⟨(), hrun, _, hseq, _, hnew, _, hcancelled, (), rfl, (), ⟨hbind, hepoch⟩, _,
      ownSequence_of hfresh _, (), checkLinearized_of hall, rfl⟩
  | killSwitch hk hrun hnew hterminal hallow hrelease hcounts hcancel hseq hn hinflight hbind hdrain =>
    rw [step_active hk (by decide) (checkRunState_draining (Or.inr (Or.inr hrun)))]
    show onKillSwitch _ r = _
    unfold onKillSwitch
    have h1 : Scan.incompleteAttempts { s with activeSeen := true } = [] := hterminal
    have h2 : Scan.missingAllows { s with activeSeen := true } = [] := hallow
    have h3 : Scan.missingReleases { s with activeSeen := true } = [] := hrelease
    rw [h1, h2, h3]
    simp only [bind_ok, pure_ok, rejectIf_ok, rejectAny_ok, eval_ok, Record.int_ok,
      Bool.or_eq_false_iff, decide_eq_false_iff_not, not_not, hcancel, Option.isSome_eq_false_iff,
      Option.isNone_iff_eq_none, List.isEmpty_nil, Bool.not_true, Bool.false_eq_true, if_false,
      List.mem_singleton, forall_eq]
    exact ⟨(), ⟨hrun, hnew⟩, (), countError_of hcounts, _, hseq, _, hn, _, hinflight, (), rfl, (), hbind,
      (), hdrain, trivial⟩
  | cancelAck hk hrun hkill hcounts hbind hvalid =>
    rw [step_active hk (by decide) (checkRunState_draining (Or.inr (Or.inr hrun)))]
    show onDisposition _ .cancelAck r = _
    unfold onDisposition
    simp only [bind_ok, pure_ok, rejectIf_ok, rejectAny_ok, eval_ok, decide_eq_false_iff_not, not_not,
      hkill, List.mem_map, forall_exists_index, and_imp, forall_apply_eq_imp_iff₂, differ_false,
      if_true, Bool.not_eq_false']
    exact ⟨(), hrun, (), countError_of hcounts, (), hbind, true, hvalid, (), rfl, trivial⟩
  | cancelDrainTimeout hk hrun hkill =>
    obtain ⟨kill, hkill⟩ := Option.isSome_iff_exists.1 hkill
    obtain ⟨hcounts, hvalid, hbind⟩ := hclean.timeout hk
    rw [step_active hk (by decide) (checkRunState_draining (Or.inr (Or.inr hrun)))]
    show onDisposition _ .cancelDrainTimeout r = _
    unfold onDisposition
    simp only [bind_ok, pure_ok, rejectIf_ok, rejectAny_ok, eval_ok, decide_eq_false_iff_not, not_not,
      hkill, List.mem_map, forall_exists_index, and_imp, forall_apply_eq_imp_iff₂, differ_false,
      reduceCtorEq, if_false, Bool.not_eq_false']
    exact ⟨(), hrun, (), countError_of hcounts, (), hbind kill hkill, true, hvalid, (), rfl, trivial⟩
  | runClosed hk hrun hcancel hbind hcounts =>
    rw [step_active hk (by decide) (checkRunState_of (Or.inr (Or.inr (Or.inr ⟨hrun, rfl⟩))))]
    show onRunClosed _ r = _
    unfold onRunClosed
    simp only [bind_ok, pure_ok, rejectIf_ok, rejectAny_ok, decide_eq_false_iff_not, not_not, hcancel]
    exact ⟨(), hrun, (), hbind, (), countError_of hcounts, trivial⟩
  | blockedByPolicy hk hrun hkill =>
    rw [step_active hk (by decide) (checkRunState_draining hrun)]
    show onBlocked _ r = _
    unfold onBlocked
    simp only [bind_ok, pure_ok, rejectIf_ok, rejectAny_ok, Bool.not_eq_false', List.mem_singleton,
      forall_eq]
    exact ⟨(), draining_iff.2 ⟨hrun, hkill⟩, (), hclean.pin hk, trivial⟩

/-- The branch that an accepted record took. -/
theorem step_branch {s' : Scan} {i : Nat} {k : Kind} (hk : r.kind? = some k) (h : step s i r = .ok s')
    (hne : k ≠ .startupDegraded ∧ k ≠ .startupFailed ∧ k ≠ .startup) :
    onActive { s with activeSeen := true } k r = .ok s' := by
  unfold step at h
  rw [hk] at h
  simp only [bind_ok] at h
  obtain ⟨_, -, h⟩ := h
  cases k <;> first | exact h | simp at hne

/-- An accepted record is clean. -/
theorem step_clean {s' : Scan} {i : Nat} (h : step s i r = .ok s') : Clean s r where
  secret hk := by
    have hauth := step_branch hk h (by decide)
    change onAuth _ r _ = _ at hauth
    unfold onAuth at hauth
    simp only [bind_ok, rejectIf_ok] at hauth
    obtain ⟨_, -, _, -, _, hsecret, -⟩ := hauth
    exact hsecret
  capacity hk := by
    unfold step at h
    rw [hk] at h
    simp only [bind_ok, onStartup, rejectIf_ok, eval_ok, Record.int_ok, decide_eq_false_iff_not,
      not_le] at h
    obtain ⟨_, -, _, -, n, hn, _, hpos, -⟩ := h
    exact ⟨n, hn, hpos⟩
  pin hk := by
    have hblocked := step_branch hk h (by decide)
    change onBlocked _ r = _ at hblocked
    unfold onBlocked at hblocked
    simp only [bind_ok, rejectAny_ok, List.mem_singleton, forall_eq] at hblocked
    obtain ⟨_, -, _, hpin, -⟩ := hblocked
    exact hpin
  timeout hk := by
    have htimeout := step_branch hk h (by decide)
    change onDisposition _ .cancelDrainTimeout r = _ at htimeout
    unfold onDisposition at htimeout
    simp only [bind_ok, rejectIf_ok] at htimeout
    obtain ⟨_, -, htimeout⟩ := htimeout
    split at htimeout
    · cases htimeout
    rename_i kill hkill
    simp only [bind_ok, rejectAny_ok, List.mem_map, forall_exists_index, and_imp,
      forall_apply_eq_imp_iff₂, differ_false, reduceCtorEq, if_false, eval_ok, rejectIf_ok,
      Bool.not_eq_false'] at htimeout
    obtain ⟨_, hcounts, _, hbind, valid, hvalid, _, rfl, -⟩ := htimeout
    refine ⟨countError_ok hcounts, hvalid, ?_⟩
    intro kill' hkill'
    cases hkill.symm.trans hkill'
    exact hbind

/-- **When a record is accepted, and with what effect.** -/
theorem step_iff {s' : Scan} {i : Nat} : step s i r = .ok s' ↔ Accepts s r s' ∧ Clean s r :=
  ⟨fun h => ⟨step_accepts h, step_clean h⟩, fun h => accepts_step h.1 h.2 i⟩

end Branches

/-! ## Whole histories -/

theorem checkRecords_of {runId : String} {records : List Record}
    (h : ∀ r ∈ records, r.get? "run_id" = some (.str runId) ∧ ∃ k, WellFormed k r) (i : Nat) :
    checkRecords runId i records = .ok () := by
  induction records generalizing i with
  | nil => rfl
  | cons r rest ih =>
    obtain ⟨hid, hw⟩ := h r List.mem_cons_self
    have hrest := ih (fun g hg => h g (List.mem_cons_of_mem _ hg)) (i + 1)
    unfold checkRecords
    simp only [bind_ok, rejectIf_ok, decide_eq_false_iff_not, not_not]
    exact ⟨(), hid, (), schemaError_ok.2 hw, hrest⟩

theorem conclude_of {records : List Record} {s : Scan} (h : Accepted records s) :
    conclude s = .ok (.localHistoryValid s.counts s.closure s.disposition) := by
  have hkill : (s.kill.isNone && s.cancel.isSome) = false := by
    cases hc : s.cancel.isSome with
    | false => exact Bool.and_false _
    | true => rw [← Option.not_isSome, h.killed hc]; rfl
  unfold conclude
  rw [if_neg (by simpa using h.nonempty), if_neg (by simp [h.terminal]), if_neg (by simp [h.allows]),
    if_neg (by simp [h.releases]), if_neg (by simp [hkill])]
  rcases h.ended with hrun | hrun <;> rw [hrun]

/-- **`LOCAL_HISTORY_VALID`.** -/
theorem accepts_iff {records : List Record} {runId : String} :
    accepts records runId = true ↔ runId ≠ "" ∧
      (∀ r ∈ records, r.get? "run_id" = some (.str runId)) ∧ ∃ s, Accepted records s := by
  constructor
  · intro h
    refine ⟨?_, ?_, valid_accepted h⟩
    all_goals
      unfold accepts validateHistory at h
      cases hres : historyCheck records runId with
      | error e => cases e <;> simp [hres] at h
      | ok res =>
        unfold historyCheck at hres
        simp only [bind_ok, rejectIf_ok] at hres
        obtain ⟨_, hid, _, -, _, hrec, -⟩ := hres
        first
          | exact fun r hr => (checkRecords_ok hrec r hr).1
          | simpa using hid
  · rintro ⟨hid, hruns, s, hacc⟩
    have hne : records ≠ [] := by
      rintro rfl
      have hscan := hacc.scanned
      cases hscan
      exact hacc.nonempty rfl
    have hcheck : historyCheck records runId =
        .ok (.localHistoryValid s.counts s.closure s.disposition) := by
      unfold historyCheck
      simp only [bind_ok, rejectIf_ok]
      refine ⟨(), by simpa using hid, (), by simpa using hne, (), ?_, s, hacc.scanned, conclude_of hacc⟩
      exact checkRecords_of (fun r hr => ⟨hruns r hr, hacc.schema r hr⟩) 1
    unfold accepts validateHistory
    rw [hcheck]

end VerifyE10

end StrixPEP
