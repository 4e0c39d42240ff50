import StrixPEP.Verifier.RunGrammar
import Mathlib.Data.Set.Card

/-!
# Sequence equations of accepted histories

* `Equations seen s` — the invariant: `sequences` holds exactly the numbers of the intents,
  permits, releases and the cancellation read so far, and every entry of `attempts` satisfies
  the order `A < P < R` and precedes the cancellation once that is known;
* `equations_step` — every accepted record keeps it, whichever of the intents, permits, releases
  and cancellation records comes first;
* `sequence_equations` — the global equations of an accepted history.
-/

namespace StrixPEP

namespace VerifyE10

/-- The integer of a field. -/
def intOf (r : Record) (field : String) : Option Int :=
  match r.get? field with
  | some (.int n) => some n
  | _ => none

theorem intOf_eq_some {r : Record} {f : String} {n : Int} :
    intOf r f = some n ↔ r.get? f = some (.int n) := by
  unfold intOf
  split
  · rename_i m hm
    rw [hm]
    simp
  · rename_i hn
    simp only [reduceCtorEq, false_iff]
    exact hn n

/-- The decisions that take a number of the lifecycle sequence. -/
def owning : List Kind := [.auth, .permit, .permitReleased, .cancelLinearized]

/-- The sequence number that a record takes. -/
def ownedSeq (r : Record) : Option Int :=
  match r.kind? with
  | some k => if k ∈ owning then intOf r "lifecycle_seq" else none
  | none => none

/-- A record of the attempt with this decision and sequence number. -/
def HasSeq (records : List Record) (k : Kind) (aid : String) (n : Int) : Prop :=
  ∃ r ∈ records, r.kind? = some k ∧ r.carries aid = true ∧
    r.get? "lifecycle_seq" = some (.int n)

/-- A record of the cancellation or of the closure carries the number `c`. -/
def CarriesCancellation (c : Int) (r : Record) : Prop :=
  (r.kind? = some .cancelRequested ∨ r.kind? = some .cancelLinearized ∨
    r.kind? = some .killSwitch ∨ r.kind? = some .cancelAck →
      r.get? "lifecycle_seq" = some (.int c)) ∧
  (r.kind? = some .runClosed → r.get? "closure_sequence" = some (.int c))

/-- The equations between the sequence numbers of a run with cancellation number `c`. -/
structure SequenceEquations (records : List Record) (lin : Record) (c : Int) : Prop where
  linearized : lin ∈ records ∧ lin.kind? = some .cancelLinearized
  owned : ∀ r ∈ records, ∀ k ∈ owning, r.kind? = some k → ∃ n, ownedSeq r = some n ∧ 0 < n
  distinct : (records.filterMap ownedSeq).Nodup
  auth_lt : ∀ aid a, HasSeq records .auth aid a → a < c
  permit_lt : ∀ aid a p, HasSeq records .auth aid a → HasSeq records .permit aid p →
    a < p ∧ p < c ∧ ∃ r, HasSeq records .permitReleased aid r
  permit_lt_release : ∀ aid p r, HasSeq records .permit aid p →
    HasSeq records .permitReleased aid r → p < r
  epochs : ∃ e, lin.get? "cancelled_epoch" = some (.int e) ∧
    lin.get? "new_epoch" = some (.int (e + 1)) ∧
    ∀ r ∈ records, r.kind? = some .auth ∨ r.kind? = some .permit →
      r.get? "epoch" = some (.int e)
  inflight : lin.get? "inflight_at_linearization" = some (.int
    (Set.ncard {aid | ∃ p r, HasSeq records .permit aid p ∧
      HasSeq records .permitReleased aid r ∧ p < c ∧ c < r}))
  cancellation : ∀ r ∈ records, CarriesCancellation c r

/-! ## The invariant -/

/-- The order of the numbers of one entry. -/
structure Ordered (a : Attempt) : Prop where
  auth : ∃ n, a.auth.get? "lifecycle_seq" = some (.int n)
  permit : ∀ p, a.permit = some p → ∃ n m, a.auth.get? "lifecycle_seq" = some (.int n) ∧
    p.get? "lifecycle_seq" = some (.int m) ∧ n < m ∧ Agree p "epoch" a.auth "epoch"
  release : ∀ r, a.release = some r → ∃ p n m, a.permit = some p ∧
    p.get? "lifecycle_seq" = some (.int n) ∧ r.get? "lifecycle_seq" = some (.int m) ∧ n < m

/-- The entry precedes the cancellation. -/
def BeforeRecorded (cancel : Option Record) (a : Attempt) : Prop :=
  ∀ c, cancel = some c → ∃ n, c.get? "lifecycle_seq" = some (.int n) ∧ BeforeLinearized c n a

structure Equations (seen : List Record) (s : Scan) : Prop where
  phase : RunPhase seen s
  owned : s.sequences.map Prod.fst = seen.filterMap ownedSeq
  distinct : (s.sequences.map Prod.fst).Nodup
  keys : (s.attempts.map Prod.fst).Nodup
  ordered : ∀ aid a, s.attempts.lookup aid = some a → Ordered a
  before : ∀ aid a, s.attempts.lookup aid = some a → BeforeRecorded s.cancel a

/-- Until the linearization is read, no cancellation is recorded. -/
theorem RunPhase.cancel_running {w : List Record} {s : Scan} (h : RunPhase w s)
    (hrun : s.runState = .running) : s.cancel = none := by
  cases h with
  | startup _ _ _ _ _ hc => exact hc
  | running _ _ _ _ hc => exact hc
  | _ => simp_all

/-- What one more record does to the numbers taken. -/
theorem owned_append {seen : List Record} {s : Scan} {r : Record} {own : List (Int × String)}
    (h : s.sequences.map Prod.fst = seen.filterMap ownedSeq)
    (hr : own.map Prod.fst = (ownedSeq r).toList) :
    (s.sequences ++ own).map Prod.fst = (seen ++ [r]).filterMap ownedSeq := by
  rw [List.map_append, h, hr, List.filterMap_append]
  cases hown : ownedSeq r <;> simp [hown]

theorem distinct_append {l own : List (Int × String)} (h : (l.map Prod.fst).Nodup)
    (hone : own.length ≤ 1) (hown : ∀ e ∈ own, l.lookup e.1 = none) :
    ((l ++ own).map Prod.fst).Nodup := by
  match own, hone with
  | [], _ => simpa using h
  | [e], _ =>
    rw [List.map_append, List.map_singleton, List.nodup_append]
    refine ⟨h, by simp, ?_⟩
    intro a ha b hb
    cases List.mem_singleton.1 hb
    rintro rfl
    exact Dict.lookup_eq_none_iff.1 (hown e (by simp)) ha

section Advance

variable {cancel : Option Record} {late : Bool} {r : Record} {aid : String} {k : Kind}
  {o : Option Attempt} {a : Attempt} {own : List (Int × String)}

theorem advance_owned (hk : r.kind? = some k) (h : Advance cancel late r aid k o a own) :
    own.map Prod.fst = (ownedSeq r).toList ∧ own.length ≤ 1 := by
  unfold ownedSeq
  rw [hk]
  cases h with
  | auth hseq => simp [owning, intOf_eq_some.2 hseq]
  | permit _ _ _ hseq => simp [owning, intOf_eq_some.2 hseq]
  | released _ _ _ _ _ _ _ hseq => simp [owning, intOf_eq_some.2 hseq]
  | terminal ht => cases k <;> simp_all [Kind.terminal, owning]
  | attempted => simp [owning]
  | allow => simp [owning]
  | connectionTerminated => simp [owning]

theorem advance_ordered (h : Advance cancel late r aid k o a own)
    (hphase : ∀ b, o = some b → Phase b) (hsome : ∀ b, o = some b → Ordered b) : Ordered a := by
  cases h with
  | auth hseq =>
    exact ⟨⟨_, hseq⟩, fun p hp => (by cases hp), fun x hx => (by cases hx)⟩
  | permit hstate hlate hfields hseq hauth hlt =>
    have hb := hphase _ rfl
    have hterm := (hb.authorized hstate).2.2
    refine ⟨(hsome _ rfl).auth, ?_, ?_⟩
    · rintro p ⟨⟩
      exact ⟨_, _, hauth, hseq, hlt, hfields "epoch" (by decide)⟩
    · intro x hx
      rw [(hb.pending hterm).2.1] at hx
      cases hx
  | released hp ht hallow hnew hconn hepoch hbind hseq hpermit hlt =>
    refine { hsome _ rfl with release := ?_ }
    rintro x ⟨⟩
    exact ⟨_, _, _, hp, hpermit, hseq, hlt⟩
  | attempted => exact { hsome _ rfl with }
  | terminal => exact { hsome _ rfl with }
  | allow => exact { hsome _ rfl with }
  | connectionTerminated => exact { hsome _ rfl with }

/-- Late records are compared with the cancellation, and early ones precede it in the log. -/
theorem advance_before (h : Advance cancel late r aid k o a own)
    (hearly : late = false → cancel = none) (hsome : ∀ b, o = some b → BeforeRecorded cancel b) :
    BeforeRecorded cancel a := by
  cases h with
  | auth hseq hcancel =>
    intro c hc
    have hlate : late = true := by
      cases late with
      | true => rfl
      | false => rw [hearly rfl] at hc; cases hc
    obtain ⟨⟨n, hn, hlt⟩, hepoch⟩ := hcancel hlate c hc
    exact ⟨n, hn, hepoch, ⟨_, hseq, hlt⟩, fun p hp => by cases hp⟩
  | permit hstate hlate hfields hseq hauth hlt hcancel =>
    intro c hc
    obtain ⟨⟨n, hn, hltn⟩, -⟩ := hcancel c hc
    obtain ⟨m, hm, hbefore⟩ := hsome _ rfl c hc
    rw [hn] at hm
    cases hm
    refine ⟨n, hn, hbefore.epoch, hbefore.authSeq, ?_⟩
    rintro p ⟨⟩
    exact ⟨_, hseq, hltn⟩
  | attempted => exact fun c hc => let ⟨n, hn, hb⟩ := hsome _ rfl c hc; ⟨n, hn, { hb with }⟩
  | terminal => exact fun c hc => let ⟨n, hn, hb⟩ := hsome _ rfl c hc; ⟨n, hn, { hb with }⟩
  | allow => exact fun c hc => let ⟨n, hn, hb⟩ := hsome _ rfl c hc; ⟨n, hn, { hb with }⟩
  | released => exact fun c hc => let ⟨n, hn, hb⟩ := hsome _ rfl c hc; ⟨n, hn, { hb with }⟩
  | connectionTerminated =>
    exact fun c hc => let ⟨n, hn, hb⟩ := hsome _ rfl c hc; ⟨n, hn, { hb with }⟩

end Advance

/-- A record that touches neither the entries nor the sequence numbers. -/
theorem Equations.other {seen : List Record} {s s' : Scan} {r : Record} {k : Kind}
    (I : Equations seen s) (hphase : RunPhase (seen ++ [r]) s') (hk : r.kind? = some k)
    (hown : k ∉ owning) (hseq : s'.sequences = s.sequences) (hatt : s'.attempts = s.attempts)
    (hcancel : s'.cancel = s.cancel) : Equations (seen ++ [r]) s' := by
  have hnone : ownedSeq r = none := by simp [ownedSeq, hk, hown]
  refine ⟨hphase, ?_, ?_, ?_, ?_, ?_⟩
  · rw [hseq, I.owned, List.filterMap_append]
    simp [hnone]
  · rw [hseq]; exact I.distinct
  · rw [hatt]; exact I.keys
  · rw [hatt]; exact I.ordered
  · rw [hatt, hcancel]; exact I.before

theorem equations_step {seen : List Record} {s s' : Scan} {r : Record}
    (I : Equations seen s ∧ Entries seen s) (w : ∃ k, WellFormed k r) (h : Accepts s r s') :
    Equations (seen ++ [r]) s' ∧ Entries (seen ++ [r]) s' := by
  obtain ⟨I, E⟩ := I
  refine ⟨?_, entries_step E w h⟩
  have hphase := phase_step I.phase h
  cases h with
  | attempt hk hrun hkill hstep hown =>
    obtain ⟨k₀, w⟩ := w
    cases w.decision.symm.trans hk
    obtain ⟨howned, hone⟩ := advance_owned hk hstep
    have hearly : decide (s.runState ≠ .running) = false → s.cancel = none := by
      intro hr
      exact I.phase.cancel_running (by simpa using hr)
    refine ⟨hphase, owned_append I.owned howned, distinct_append I.distinct hone hown, ?_, ?_, ?_⟩
    · cases hl : s.attempts.lookup (r.textOr "attempt_id") with
      | some b => rw [Dict.map_fst_set_of_lookup _ hl]; exact I.keys
      | none =>
        have hnot := Dict.lookup_eq_none_iff.1 hl
        rw [Dict.map_fst_set_of_notMem _ hnot, List.nodup_append]
        refine ⟨I.keys, by simp, ?_⟩
        intro x hx y hy
        cases List.mem_singleton.1 hy
        rintro rfl
        exact hnot hx
    · intro aid b hl
      by_cases he : aid = r.textOr "attempt_id"
      · subst he
        rw [Dict.lookup_set_self] at hl
        cases hl
        exact advance_ordered hstep (fun b hb => (E.present _ b hb).phase) (I.ordered _)
      · rw [Dict.lookup_set_ne _ _ he] at hl
        exact I.ordered aid b hl
    · intro aid b hl
      by_cases he : aid = r.textOr "attempt_id"
      · subst he
        rw [Dict.lookup_set_self] at hl
        cases hl
        exact advance_before hstep hearly (I.before _)
      · rw [Dict.lookup_set_ne _ _ he] at hl
        exact I.before aid b hl
  | cancelLinearized hk hrun hreq hseq hcancelled hnew hbind hepoch hfresh hall =>
    refine ⟨hphase, owned_append I.owned ?_, distinct_append I.distinct (by simp) ?_, I.keys,
      I.ordered, ?_⟩
    · simp [ownedSeq, hk, owning, intOf_eq_some.2 hseq]
    · intro e he
      cases List.mem_singleton.1 he
      exact hfresh
    · rintro aid a hl c ⟨⟩
      exact ⟨_, hseq, hall _ (Dict.mem_of_lookup hl)⟩
  | startupDegraded hk => exact I.other hphase hk (by decide) rfl rfl rfl
  | startupFailed hk => exact I.other hphase hk (by decide) rfl rfl rfl
  | startup hk => exact I.other hphase hk (by decide) rfl rfl rfl
  | cancelRequested hk => exact I.other hphase hk (by decide) rfl rfl rfl
  | killSwitch hk => exact I.other hphase hk (by decide) rfl rfl rfl
  | cancelAck hk => exact I.other hphase hk (by decide) rfl rfl rfl
  | cancelDrainTimeout hk => exact I.other hphase hk (by decide) rfl rfl rfl
  | runClosed hk => exact I.other hphase hk (by decide) rfl rfl rfl
  | blockedByPolicy hk => exact I.other hphase hk (by decide) rfl rfl rfl

theorem accepted_equations {records : List Record} {s : Scan} (h : Accepted records s) :
    Equations records s ∧ Entries records s :=
  scan_induct (P := fun seen s => Equations seen s ∧ Entries seen s)
    ⟨⟨.startup ⟨[], [], rfl, All.nil, All.nil, rfl⟩ rfl rfl rfl rfl rfl, rfl, List.nodup_nil,
      List.nodup_nil, fun _ _ h => (by cases h), fun _ _ h => (by cases h)⟩,
      ⟨fun _ _ => rfl, fun _ _ h => (by cases h)⟩⟩
    equations_step h.schema h.scanned

/-! ## The numbers of an attempt and its entry -/

section Numbers

variable {records : List Record} {s : Scan} {aid : String} {n : Int}

theorem hasSeq_entry {k : Kind} (E : Entries records s) (h : HasSeq records k aid n) :
    ∃ a r, s.attempts.lookup aid = some a ∧ Shape a (ofAttempt aid records) ∧
      r ∈ ofAttempt aid records ∧ r.kind? = some k ∧ r.get? "lifecycle_seq" = some (.int n) := by
  obtain ⟨r, hr, hk, hcarry, hn⟩ := h
  have hmem : r ∈ ofAttempt aid records := List.mem_filter.2 ⟨hr, hcarry⟩
  cases hl : s.attempts.lookup aid with
  | none => rw [E.absent aid hl] at hmem; cases hmem
  | some a => exact ⟨a, r, rfl, E.present aid a hl, hmem, hk, hn⟩

theorem hasSeq_auth (E : Entries records s) (h : HasSeq records .auth aid n) :
    ∃ a, s.attempts.lookup aid = some a ∧ a.auth.get? "lifecycle_seq" = some (.int n) := by
  obtain ⟨a, r, hl, hshape, hr, hk, hn⟩ := hasSeq_entry E h
  cases (hshape.field_of_kind hr).1 hk
  exact ⟨a, hl, hn⟩

theorem hasSeq_permit (E : Entries records s) (h : HasSeq records .permit aid n) :
    ∃ a p, s.attempts.lookup aid = some a ∧ a.permit = some p ∧
      p.get? "lifecycle_seq" = some (.int n) := by
  obtain ⟨a, r, hl, hshape, hr, hk, hn⟩ := hasSeq_entry E h
  exact ⟨a, r, hl, (hshape.field_of_kind hr).2.1 hk, hn⟩

theorem hasSeq_release (E : Entries records s) (h : HasSeq records .permitReleased aid n) :
    ∃ a r, s.attempts.lookup aid = some a ∧ a.release = some r ∧
      r.get? "lifecycle_seq" = some (.int n) := by
  obtain ⟨a, r, hl, hshape, hr, hk, hn⟩ := hasSeq_entry E h
  exact ⟨a, r, hl, (hshape.field_of_kind hr).2.2 hk, hn⟩

theorem hasSeq_of_permit (E : Entries records s) {a : Attempt} {p : Record}
    (hl : s.attempts.lookup aid = some a) (hp : a.permit = some p)
    (hn : p.get? "lifecycle_seq" = some (.int n)) : HasSeq records .permit aid n := by
  have hshape := E.present aid a hl
  obtain ⟨hr, hcarry⟩ := List.mem_filter.1 (hshape.permit_mem hp)
  exact ⟨p, hr, hshape.kinds.permit p hp, hcarry, hn⟩

theorem hasSeq_of_release (E : Entries records s) {a : Attempt} {r : Record}
    (hl : s.attempts.lookup aid = some a) (hx : a.release = some r)
    (hn : r.get? "lifecycle_seq" = some (.int n)) : HasSeq records .permitReleased aid n := by
  have hshape := E.present aid a hl
  have hmem : r ∈ ofAttempt aid records := by
    obtain ⟨tail, htail, hw⟩ := hshape.word
    rw [hw]
    rcases htail with rfl | ⟨rfl, -⟩ <;> simp [hx]
  obtain ⟨hr, hcarry⟩ := List.mem_filter.1 hmem
  exact ⟨r, hr, hshape.kinds.release r hx, hcarry, hn⟩

end Numbers

/-! ## The permits in flight at the linearization -/

/-- The attempt holds its permit at the number `c`. -/
def Straddles (a : Attempt) (c : Int) : Prop :=
  ∃ p r m n, a.permit = some p ∧ a.release = some r ∧ p.get? "lifecycle_seq" = some (.int m) ∧
    r.get? "lifecycle_seq" = some (.int n) ∧ m < c ∧ c < n

theorem inflightAt_ok {a : Attempt} {c : Int} {b : Bool} (h : a.inflightAt c = .ok b) :
    b = true ↔ Straddles a c := by
  unfold Attempt.inflightAt at h
  split at h
  · rename_i hp
    cases h
    simp [Straddles, hp]
  · rename_i p hp
    cases hm : p.int "lifecycle_seq" with
    | error e => rw [hm] at h; cases h
    | ok m =>
      simp only [hm, bind, Except.bind] at h
      rw [Record.int_ok] at hm
      split at h
      · rename_i hlt
        split at h
        · cases h
        · rename_i r hr
          cases hn : r.int "lifecycle_seq" with
          | error e => rw [hn] at h; cases h
          | ok n =>
            simp only [hn, pure, Except.pure] at h
            rw [Record.int_ok] at hn
            cases h
            simp [Straddles, hp, hr, hm, hn, hlt]
      · rename_i hge
        cases h
        simp only [Bool.false_eq_true, false_iff]
        rintro ⟨p', r', m', n', hp', -, hm', -, hlt, -⟩
        cases hp.symm.trans hp'
        rw [hm] at hm'
        cases hm'
        exact hge hlt

open Classical in
/-- `logical_inflight` counts the attempts that hold their permit at `c`. -/
theorem logicalInflight_ok {c : Int} {attempts : List (String × Attempt)} {n : Nat}
    (h : logicalInflight c attempts = .ok n) :
    n = (attempts.filter fun e => decide (Straddles e.2 c)).length := by
  induction attempts generalizing n with
  | nil =>
    cases h
    rfl
  | cons e rest ih =>
    obtain ⟨id, a⟩ := e
    unfold logicalInflight at h
    cases hb : a.inflightAt c with
    | error x => rw [hb] at h; cases h
    | ok b =>
      cases hm : logicalInflight c rest with
      | error x => simp only [hb, hm, bind, Except.bind] at h; cases h
      | ok m =>
        simp only [hb, hm, bind, Except.bind, pure, Except.pure, Except.ok.injEq] at h
        have hstr := inflightAt_ok hb
        rw [List.filter_cons]
        cases b with
        | true =>
          rw [if_pos (by simpa using hstr)]
          simp only [List.length_cons, ← ih hm, ← h, Bool.toNat_true]
          omega
        | false =>
          rw [if_neg (by simpa using hstr)]
          simp only [← ih hm, ← h, Bool.toNat_false]
          omega

/-- The attempts that hold their permit at `c`, counted through their entries. -/
theorem ncard_straddling {records : List Record} {s : Scan} {c : Int} {n : Nat}
    (I : Equations records s) (E : Entries records s) (h : logicalInflight c s.attempts = .ok n) :
    Set.ncard {aid | ∃ p r, HasSeq records .permit aid p ∧
      HasSeq records .permitReleased aid r ∧ p < c ∧ c < r} = n := by
  classical
  let held := s.attempts.filter fun e => decide (Straddles e.2 c)
  have hset : {aid | ∃ p r, HasSeq records .permit aid p ∧
      HasSeq records .permitReleased aid r ∧ p < c ∧ c < r} =
      ((held.map Prod.fst).toFinset : Set String) := by
    ext aid
    simp only [Set.mem_ofPred_eq, List.coe_toFinset, List.mem_map, held, List.mem_filter,
      decide_eq_true_eq]
    constructor
    · rintro ⟨m, k, hm, hk, hmc, hck⟩
      obtain ⟨a, p, hl, hp, hpm⟩ := hasSeq_permit E hm
      obtain ⟨a', r, hl', hr, hrk⟩ := hasSeq_release E hk
      rw [hl] at hl'
      cases hl'
      exact ⟨(aid, a), ⟨Dict.mem_of_lookup hl, p, r, m, k, hp, hr, hpm, hrk, hmc, hck⟩, rfl⟩
    · rintro ⟨⟨id, a⟩, ⟨hmem, p, r, m, k, hp, hr, hpm, hrk, hmc, hck⟩, rfl⟩
      have hl := Dict.lookup_of_mem I.keys hmem
      exact ⟨m, k, hasSeq_of_permit E hl hp hpm, hasSeq_of_release E hl hr hrk, hmc, hck⟩
  have hnodup : (held.map Prod.fst).Nodup := I.keys.sublist (List.filter_sublist.map _)
  rw [hset, Set.ncard_coe_finset, List.toFinset_card_of_nodup hnodup, List.length_map]
  exact (logicalInflight_ok h).symm

/-! ## The equations -/

theorem wellFormed_owned {k : Kind} {r : Record} (w : WellFormed k r) (hk : k ∈ owning) :
    ∃ n, ownedSeq r = some n ∧ 0 < n := by
  have hseq : k ∈ sequenced := by
    revert hk
    cases k <;> decide
  obtain ⟨n, hn, hpos⟩ := w.lifecycleSeq hseq
  exact ⟨n, by simp [ownedSeq, w.decision, hk, intOf_eq_some.2 hn], hpos⟩

/-- The records of the cancellation and the closure carry its number. -/
theorem closed_cancellation {records w : List Record} {s : Scan}
    {request lin kill ack close : Record} {c : Int}
    (h : ClosedRun records s w request lin kill ack close)
    (hc : lin.get? "lifecycle_seq" = some (.int c)) :
    ∀ r ∈ records, CarriesCancellation c r := by
  have hbind : ∀ x y f, Agree x f lin "lifecycle_seq" → y = x.get? f → y = some (.int c) := by
    rintro x y f ⟨v, h1, h2⟩ rfl
    rw [hc] at h2
    cases h2
    exact h1
  have hrequest := hbind request _ "lifecycle_seq" h.drain.bindSeq rfl
  have hkill := hbind kill _ "lifecycle_seq"
    (differ_false.1 (h.killed.bindings _ (by simp [killBindings]))) rfl
  have hack : ack.get? "lifecycle_seq" = some (.int c) := by
    obtain ⟨v, h1, h2⟩ := h.ack.bindings "lifecycle_seq" (by decide)
    rw [hkill] at h2
    cases h2
    exact h1
  have hclose := hbind close _ "closure_sequence"
    (differ_false.1 (h.close _ (by simp [closureBindings]))) rfl
  have hactive : ∀ (r : Record) (k : Kind), r.kind? = some k → k.active = true →
      CarriesCancellation c r := by
    intro r k hk ha
    unfold CarriesCancellation
    rw [hk]
    cases k <;> simp_all [Kind.active, Kind.ofAttempt]
  obtain ⟨pre, ys, zs, rfl, ⟨b, pro, xs, rfl, ⟨ds, st, rfl, hds, hst, -⟩, hxs⟩, hys, hzs⟩ :=
    h.drain.split
  intro r hr
  rw [h.split] at hr
  simp only [List.mem_append, List.mem_cons, List.not_mem_nil, or_false] at hr
  rcases hr with (((((((hr | hr) | hr) | rfl) | hr) | rfl) | hr)) | rfl | rfl | rfl
  · simp [CarriesCancellation, hds r hr]
  · simp [CarriesCancellation, hst r hr]
  · obtain ⟨k, hk, ha⟩ := hxs r hr
    exact hactive r k hk ha
  · simp [CarriesCancellation, h.drain.requestKind, hrequest]
  · obtain ⟨k, hk, ha, -⟩ := hys r hr
    exact hactive r k hk ha
  · simp [CarriesCancellation, h.drain.linKind, hc]
  · obtain ⟨k, hk, ha, -⟩ := hzs r hr
    exact hactive r k hk ha
  · simp [CarriesCancellation, h.killed.kind, hkill]
  · simp [CarriesCancellation, h.ack.kind, hack]
  · simp [CarriesCancellation, h.closeKind, hclose]

/-- **Sequence equations.** In an accepted history the numbers of intents, permits, releases and
the cancellation are positive and distinct, `A < P < R` and `A, P < C`, every intent and permit
belongs to the cancelled epoch, the linearization counts the permits with `P < C < R`, and the
cancellation and closure records carry `C` — in whatever order the records were appended. -/
theorem sequence_equations {records : List Record} {runId : String}
    (h : accepts records runId = true) :
    ∃ lin c, lin.get? "lifecycle_seq" = some (.int c) ∧ SequenceEquations records lin c := by
  obtain ⟨s, hacc⟩ := valid_accepted h
  obtain ⟨I, E⟩ := accepted_equations hacc
  obtain ⟨w, request, lin, kill, ack, close, hclosed⟩ := accepted_closed hacc
  obtain ⟨c, n, hc, hn, hinflight⟩ := hclosed.killed.inflight
  obtain ⟨e, hcancelled, hnew⟩ := hclosed.drain.epochs
  have hlin : lin ∈ records := by
    obtain ⟨pre, ys, zs, rfl, -⟩ := hclosed.drain.split
    rw [hclosed.split]
    simp
  have hbefore : ∀ aid a, s.attempts.lookup aid = some a → BeforeLinearized lin c a := by
    intro aid a ha
    obtain ⟨m, hm, hb⟩ := I.before aid a ha lin hclosed.cancel
    rw [hc] at hm
    cases hm
    exact hb
  refine ⟨lin, c, hc, ⟨hlin, hclosed.drain.linKind⟩, ?_, ?_, ?_, ?_, ?_, ⟨e, hcancelled, hnew, ?_⟩,
    ?_, closed_cancellation hclosed hc⟩
  · intro r hr k hk hrk
    obtain ⟨j, wf⟩ := hacc.schema r hr
    cases wf.decision.symm.trans hrk
    exact wellFormed_owned wf hk
  · rw [← I.owned]
    exact I.distinct
  · intro aid m hm
    obtain ⟨a, ha, ham⟩ := hasSeq_auth E hm
    obtain ⟨k, hk, hlt⟩ := (hbefore aid a ha).authSeq
    rw [ham] at hk
    cases hk
    exact hlt
  · intro aid m p hm hp
    obtain ⟨a, ha, ham⟩ := hasSeq_auth E hm
    obtain ⟨a', x, ha', hx, hxp⟩ := hasSeq_permit E hp
    rw [ha] at ha'
    cases ha'
    obtain ⟨m', p', hm', hp', hlt, -⟩ := (I.ordered aid a ha).permit x hx
    obtain ⟨p'', hp'', hltc⟩ := (hbefore aid a ha).permitSeq x hx
    rw [ham] at hm'
    rw [hxp] at hp' hp''
    cases hm'
    cases hp'
    cases hp''
    have hfin := accepted_finished hacc ha
    obtain ⟨y, hy⟩ := Option.isSome_iff_exists.1 (hfin.release (by simp [hx]))
    obtain ⟨-, -, k, -, -, hyk, -⟩ := (I.ordered aid a ha).release y hy
    exact ⟨hlt, hltc, k, hasSeq_of_release E ha hy hyk⟩
  · intro aid p r hp hr
    obtain ⟨a, x, ha, hx, hxp⟩ := hasSeq_permit E hp
    obtain ⟨a', y, ha', hy, hyr⟩ := hasSeq_release E hr
    rw [ha] at ha'
    cases ha'
    obtain ⟨x', p', r', hx', hp', hr', hlt⟩ := (I.ordered aid a ha).release y hy
    cases hx.symm.trans hx'
    rw [hxp] at hp'
    rw [hyr] at hr'
    cases hp'
    cases hr'
    exact hlt
  · intro r hr hk
    have hof : ∃ k, r.kind? = some k ∧ k.ofAttempt = true ∧ (k = .auth ∨ k = .permit) := by
      rcases hk with hk | hk
      · exact ⟨_, hk, rfl, Or.inl rfl⟩
      · exact ⟨_, hk, rfl, Or.inr rfl⟩
    obtain ⟨k, hk, hofk, hcase⟩ := hof
    obtain ⟨j, wf⟩ := hacc.schema r hr
    cases wf.decision.symm.trans hk
    have hid := wf.attemptId
    rw [hofk] at hid
    simp only [if_true] at hid
    have hmem : r ∈ ofAttempt (r.textOr "attempt_id") records :=
      List.mem_filter.2 ⟨hr, by simpa [Record.carries] using hid⟩
    cases hl : s.attempts.lookup (r.textOr "attempt_id") with
    | none => rw [E.absent _ hl] at hmem; cases hmem
    | some a =>
      have hshape := E.present _ a hl
      obtain ⟨v, hv, hve⟩ := (hbefore _ a hl).epoch
      rw [hcancelled] at hve
      cases hve
      rcases hcase with rfl | rfl
      · rw [(hshape.field_of_kind hmem).1 hk]
        exact hv
      · obtain ⟨_, _, _, _, _, u, hu, hu'⟩ :=
          (I.ordered _ a hl).permit r ((hshape.field_of_kind hmem).2.1 hk)
        rw [hv] at hu'
        cases hu'
        exact hu
  · rw [ncard_straddling I E hn]
    exact hinflight

theorem sequence_equations_sample :
    accepts Sample.history "run-1" = true ∧
      ∃ lin c, lin.get? "lifecycle_seq" = some (.int c) ∧
        SequenceEquations Sample.history lin c :=
  ⟨Sample.history_accepted, sequence_equations Sample.history_accepted⟩

end VerifyE10

end StrixPEP
