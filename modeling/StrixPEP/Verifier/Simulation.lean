import StrixPEP.Verifier.StepIff

/-!
# What acceptance does not depend on

`_validate_history` reads `prev` and `ts` only to check their form, and looks everything else up by
name: neither the chain metadata, nor the order of a record's keys, nor the order in which attempts
and sequence numbers were entered decides whether a history is accepted.

* `Core` — the records agree up to that;
* `Sim` — the states agree up to that;
* `accepts_sim` — related states accept related records and stay related.

Principal result: `scan_sim`.
-/

namespace StrixPEP

namespace VerifyE10

/-! ## Records -/

/-- The records agree on everything but `prev`, `ts` and the order of their keys. -/
structure Core (r r' : Record) : Prop where
  field : ∀ k, k ≠ "prev" → k ≠ "ts" → r.get? k = r'.get? k
  secret : looksSecret r = looksSecret r'

theorem Core.refl (r : Record) : Core r r := ⟨fun _ _ _ => rfl, rfl⟩

theorem Core.symm {r r' : Record} (h : Core r r') : Core r' r :=
  ⟨fun k h1 h2 => (h.field k h1 h2).symm, h.secret.symm⟩

section

variable {r r' : Record} (h : Core r r') {k : String} (hk : k ≠ "prev") (hk' : k ≠ "ts")

include h hk hk'

theorem Core.item : r.item k = r'.item k := by
  unfold Record.item
  rw [h.field k hk hk']

theorem Core.int : r.int k = r'.int k := by
  unfold Record.int
  rw [h.field k hk hk']

theorem Core.str : r.str k = r'.str k := by
  unfold Record.str
  rw [h.field k hk hk']

theorem Core.texts : r.texts k = r'.texts k := by
  unfold Record.texts
  rw [h.field k hk hk']

theorem Core.textOr : r.textOr k = r'.textOr k := by
  unfold Record.textOr
  rw [h.field k hk hk']

end

theorem Core.kind? {r r' : Record} (h : Core r r') : r.kind? = r'.kind? := by
  unfold Record.kind?
  rw [h.field "decision" (by decide) (by decide)]

theorem Core.agree {r r' t t' : Record} (h : Core r r') (ht : Core t t') {k k' : String}
    (ha : Agree r k t k') (hk : k ≠ "prev" ∧ k ≠ "ts" := by decide)
    (hk' : k' ≠ "prev" ∧ k' ≠ "ts" := by decide) : Agree r' k t' k' := by
  obtain ⟨v, h1, h2⟩ := ha
  rw [h.field k hk.1 hk.2] at h1
  rw [ht.field k' hk'.1 hk'.2] at h2
  exact ⟨v, h1, h2⟩

section

variable {r r' a a' t t' : Record} (hr : Core r r') (ha : Core a a') (ht : Core t t')

include hr

theorem Core.countsAdd (h : CountsAdd r) : CountsAdd r' := by
  obtain ⟨i, p, q, hi, hp, hq, heq⟩ := h
  rw [hr.field _ (by decide) (by decide)] at hi hp hq
  exact ⟨i, p, q, hi, hp, hq, heq⟩

theorem Core.drainContradicts : drainContradicts r = drainContradicts r' := by
  simp (disch := decide) only [VerifyE10.drainContradicts, isValue, differFrom, hr.item]

theorem Core.ackValid : ackValid r = ackValid r' := by
  simp (disch := decide) only [VerifyE10.ackValid, isValue, differFrom, hr.item]

theorem Core.timeoutValid : timeoutValid r = timeoutValid r' := by
  simp (disch := decide) only [VerifyE10.timeoutValid, isValue, differFrom, hr.item, hr.int, hr.texts]

theorem Core.badPinFamily : badPinFamily r = badPinFamily r' := by
  unfold VerifyE10.badPinFamily
  rw [hr.field "pin" (by decide) (by decide)]

include ha

theorem Core.killBindings : killBindings r a = killBindings r' a' := by
  simp (disch := decide) only [VerifyE10.killBindings, differ, differFrom, hr.item, hr.int, hr.texts,
    ha.item]

theorem Core.closureBindings : closureBindings r a = closureBindings r' a' := by
  simp (disch := decide) only [VerifyE10.closureBindings, differ, differFrom, hr.item, ha.item]

include ht

theorem Core.terminationBindings : terminationBindings r a t = terminationBindings r' a' t' := by
  simp (disch := decide) only [VerifyE10.terminationBindings, differ, differFrom, expectedPin, urlBinds,
    hr.item, hr.str, ha.item, ha.str, ht.field]

theorem Core.allowBinds {o o' : Option Record} (ho : o.isSome = o'.isSome) :
    allowBinds r a t o = allowBinds r' a' t' o' := by
  simp (disch := decide) only [VerifyE10.allowBinds, same, isValue, differ, differFrom, urlBinds,
    hr.item, hr.str, ha.item, ha.str, ht.item, ho]

end

/-! ## States -/

/-- Both records are missing, or they agree. -/
abbrev Match : Option Record → Option Record → Prop := Option.Rel Core

theorem Match.refl (o : Option Record) : Match o o := by
  cases o with
  | none => exact .none
  | some r => exact .some (Core.refl r)

theorem Match.isSome {o o' : Option Record} (h : Match o o') : o.isSome = o'.isSome := by
  cases h <;> rfl

theorem Match.of_some {o o' : Option Record} (h : Match o o') {r : Record} (hr : o = some r) :
    ∃ r', o' = some r' ∧ Core r r' := by
  subst hr
  cases h with
  | some hc => exact ⟨_, rfl, hc⟩

theorem Match.of_none {o o' : Option Record} (h : Match o o') (hn : o = none) : o' = none := by
  subst hn
  cases h
  rfl

theorem Match.symm {o o' : Option Record} (h : Match o o') : Match o' o := by
  cases h with
  | none => exact .none
  | some hc => exact .some hc.symm

/-- The entries agree. -/
structure AttemptSim (a a' : Attempt) : Prop where
  state : a.state = a'.state
  auth : Core a.auth a'.auth
  permit : Match a.permit a'.permit
  attempted : Match a.attempted a'.attempted
  terminal : Match a.terminal a'.terminal
  allow : Match a.allow a'.allow
  release : Match a.release a'.release
  lateAuth : a.lateAuth = a'.lateAuth
  connectionTerminated : Match a.connectionTerminated a'.connectionTerminated

theorem AttemptSim.refl (a : Attempt) : AttemptSim a a :=
  ⟨rfl, Core.refl _, Match.refl _, Match.refl _, Match.refl _, Match.refl _, Match.refl _, rfl,
    Match.refl _⟩

theorem AttemptSim.ended {a a' : Attempt} (h : AttemptSim a a') (k : Kind) : a.ended k = a'.ended k := by
  unfold Attempt.ended
  have ht := h.terminal
  cases hterm : a.terminal with
  | none => rw [ht.of_none hterm]
  | some t =>
    obtain ⟨t', ht', hc⟩ := ht.of_some hterm
    rw [ht']
    simp only
    rw [hc.field "decision" (by decide) (by decide)]

theorem AttemptSim.inflightAt {a a' : Attempt} (h : AttemptSim a a') (c : Int) :
    a.inflightAt c = a'.inflightAt c := by
  unfold Attempt.inflightAt
  cases hp : a.permit with
  | none => rw [h.permit.of_none hp]
  | some p =>
    obtain ⟨p', hp', hpc⟩ := h.permit.of_some hp
    rw [hp']
    simp only
    rw [hpc.int (by decide) (by decide)]
    cases hr : a.release with
    | none => rw [h.release.of_none hr]
    | some r =>
      obtain ⟨r', hr', hrc⟩ := h.release.of_some hr
      rw [hr']
      simp only
      rw [hrc.int (by decide) (by decide)]

theorem AttemptSim.beforeLinearized {a a' : Attempt} (h : AttemptSim a a') {r r' : Record}
    (hr : Core r r') {seq : Int} (hb : BeforeLinearized r seq a) : BeforeLinearized r' seq a' where
  epoch := h.auth.agree hr hb.epoch
  authSeq := by
    obtain ⟨n, hn, hlt⟩ := hb.authSeq
    rw [h.auth.field _ (by decide) (by decide)] at hn
    exact ⟨n, hn, hlt⟩
  permitSeq := by
    intro p' hp'
    obtain ⟨p, hp, hc⟩ := h.permit.symm.of_some hp'
    obtain ⟨n, hn, hlt⟩ := hb.permitSeq p hp
    rw [← hc.field _ (by decide) (by decide)] at hn
    exact ⟨n, hn, hlt⟩

theorem Core.beforeCancel {c c' : Option Record} (hc : Match c c') {r r' : Record} (hr : Core r r')
    {seq : Int} (h : BeforeCancel c seq r) : BeforeCancel c' seq r' := by
  intro d' hd'
  obtain ⟨d, hd, hcore⟩ := hc.symm.of_some hd'
  obtain ⟨⟨n, hn, hlt⟩, hepoch⟩ := h d hd
  rw [← hcore.field _ (by decide) (by decide)] at hn
  exact ⟨⟨n, hn, hlt⟩, hr.agree hcore.symm hepoch⟩

/-- **Related entries advance alike.** -/
theorem Advance.sim {c c' : Option Record} {late : Bool} {r r' : Record} {aid : String} {k : Kind}
    {e e' : Option Attempt} {a : Attempt} {own : List (Int × String)}
    (h : Advance c late r aid k e a own) (hr : Core r r') (he : Option.Rel AttemptSim e e')
    (hc : Match c c') : ∃ a', Advance c' late r' aid k e' a' own ∧ AttemptSim a a' := by
  have hget : ∀ {k : String} {v : Json}, k ≠ "prev" → k ≠ "ts" → r.get? k = some v →
      r'.get? k = some v := fun h1 h2 hv => (hr.field _ h1 h2).symm.trans hv
  have hsome : Match (some r) (some r') := .some hr
  cases h with
  | auth hseq hcancel =>
    cases he
    refine ⟨_, .auth (hget (by decide) (by decide) hseq) fun hl => hr.beforeCancel hc (hcancel hl), ?_⟩
    exact ⟨rfl, hr, .none, .none, .none, .none, .none, rfl, .none⟩
  | permit hstate hlate hfields hseq hauth hlt hcancel =>
    cases he with
    | some ha =>
      rw [ha.auth.field _ (by decide) (by decide)] at hauth
      refine ⟨_, .permit (ha.state ▸ hstate) (ha.lateAuth ▸ hlate) ?_ (hget (by decide) (by decide) hseq)
        hauth hlt (hr.beforeCancel hc hcancel), { ha with state := rfl, permit := hsome }⟩
      intro f hf
      have hplain : ∀ f ∈ permitFields, f ≠ "prev" ∧ f ≠ "ts" := by decide
      exact hr.agree ha.auth (hfields f hf) (hplain f hf) (hplain f hf)
  | attempted hstate hp hseq hconn hepoch hip hport =>
    cases he with
    | some ha =>
      obtain ⟨p', hp', hpc⟩ := ha.permit.of_some hp
      refine ⟨_, .attempted (ha.state ▸ hstate) hp' (hr.agree hpc hseq)
        (hr.agree hpc hconn) (hr.agree hpc hepoch) (hr.agree ha.auth hip)
        (hr.agree ha.auth hport), { ha with state := rfl, attempted := hsome }⟩
  | terminal hk hlegal hconn hepoch hpermit hnone =>
    cases he with
    | some ha =>
      refine ⟨_, .terminal hk (ha.state ▸ hlegal) (hr.agree ha.auth hconn)
        (hr.agree ha.auth hepoch) ?_ ?_, { ha with state := rfl, terminal := hsome }⟩
      · intro p' hp'
        obtain ⟨p, hp, hpc⟩ := ha.permit.symm.of_some hp'
        exact hr.agree hpc.symm (hpermit p hp)
      · intro hn
        rw [← hr.field _ (by decide) (by decide)]
        exact hnone (ha.permit.symm.of_none hn)
  | allow ht hend hnew hbinds =>
    cases he with
    | some ha =>
      obtain ⟨t', ht', htc⟩ := ha.terminal.of_some ht
      rw [htc.kind?] at hend
      rw [hr.allowBinds ha.auth htc ha.attempted.isSome] at hbinds
      exact ⟨_, .allow ht' hend (ha.allow.of_none hnew) hbinds, { ha with allow := hsome }⟩
  | released hp ht hallow hnew hconn hepoch hbind hseq hpermit hlt =>
    cases he with
    | some ha =>
      obtain ⟨p', hp', hpc⟩ := ha.permit.of_some hp
      obtain ⟨t', ht', htc⟩ := ha.terminal.of_some ht
      rw [hpc.field _ (by decide) (by decide)] at hpermit
      refine ⟨_, .released hp' ht' ?_ (ha.release.of_none hnew) (hr.agree hpc hconn)
        (hr.agree hpc hepoch) (hr.agree hpc hbind) (hget (by decide) (by decide) hseq)
        hpermit hlt, { ha with release := hsome }⟩
      intro hkind
      rw [← ha.allow.isSome]
      exact hallow (htc.kind?.trans hkind)
  | connectionTerminated ht hend hatt hnew hbinds =>
    cases he with
    | some ha =>
      obtain ⟨t', ht', htc⟩ := ha.terminal.of_some ht
      rw [htc.kind?] at hend
      rw [hr.terminationBindings ha.auth htc] at hbinds
      exact ⟨_, .connectionTerminated ht' hend (ha.attempted.isSome ▸ hatt)
        (ha.connectionTerminated.of_none hnew) hbinds, { ha with connectionTerminated := hsome }⟩

/-- The states agree. -/
structure Sim (s s' : Scan) : Prop where
  keys : (s.attempts.map Prod.fst).Nodup
  keys' : (s'.attempts.map Prod.fst).Nodup
  attempts : ∀ aid, Option.Rel AttemptSim (s.attempts.lookup aid) (s'.attempts.lookup aid)
  sequences : ∀ n, s.sequences.lookup n = none ↔ s'.sequences.lookup n = none
  runState : s.runState = s'.runState
  startupSeen : s.startupSeen = s'.startupSeen
  activeSeen : s.activeSeen = s'.activeSeen
  cancel : Match s.cancel s'.cancel
  cancelRequest : Match s.cancelRequest s'.cancelRequest
  kill : Match s.kill s'.kill

theorem Sim.mem {s s' : Scan} (h : Sim s s') {e : String × Attempt} (he : e ∈ s.attempts) :
    ∃ a', (e.1, a') ∈ s'.attempts ∧ AttemptSim e.2 a' := by
  have hrel := h.attempts e.1
  rw [Dict.lookup_of_mem h.keys he] at hrel
  generalize hl : s'.attempts.lookup e.1 = o at hrel
  cases hrel with
  | some ha => exact ⟨_, Dict.mem_of_lookup hl, ha⟩

theorem Option.Rel.attemptSymm {o o' : Option Attempt} (h : Option.Rel AttemptSim o o') :
    Option.Rel AttemptSim o' o := by
  cases h with
  | none => exact .none
  | some ha =>
    exact .some ⟨ha.state.symm, ha.auth.symm, ha.permit.symm, ha.attempted.symm, ha.terminal.symm,
      ha.allow.symm, ha.release.symm, ha.lateAuth.symm, ha.connectionTerminated.symm⟩

theorem Sim.symm {s s' : Scan} (h : Sim s s') : Sim s' s :=
  ⟨h.keys', h.keys, fun aid => Option.Rel.attemptSymm (h.attempts aid), fun n => (h.sequences n).symm,
    h.runState.symm, h.startupSeen.symm, h.activeSeen.symm, h.cancel.symm, h.cancelRequest.symm,
    h.kill.symm⟩

theorem Sim.refl {s : Scan} (h : (s.attempts.map Prod.fst).Nodup) : Sim s s := by
  refine ⟨h, h, ?_, fun _ => Iff.rfl, rfl, rfl, rfl, Match.refl _, Match.refl _, Match.refl _⟩
  intro aid
  cases s.attempts.lookup aid with
  | none => exact .none
  | some x => exact .some (AttemptSim.refl x)

/-- What no entry shows, no related entry shows. -/
theorem Sim.filter_nil {s s' : Scan} (h : Sim s s') {p : String × Attempt → Bool}
    (hp : ∀ {k a a'}, AttemptSim a a' → p (k, a) = p (k, a'))
    (hnil : (s.attempts.filter p).map Prod.fst = []) : (s'.attempts.filter p).map Prod.fst = [] := by
  rw [List.map_eq_nil_iff, List.filter_eq_nil_iff] at hnil ⊢
  intro e' he'
  obtain ⟨a, ha, hsim⟩ := h.symm.mem he'
  rw [show p e' = p (e'.1, a) from hp hsim]
  exact hnil _ ha

theorem Sim.incomplete {s s' : Scan} (h : Sim s s') (hn : s.incompleteAttempts = []) :
    s'.incompleteAttempts = [] := by
  refine h.filter_nil ?_ hn
  intro k a a' ha
  show a.terminal.isNone = a'.terminal.isNone
  rw [← Option.not_isSome, ← Option.not_isSome, ha.terminal.isSome]

theorem Sim.releases {s s' : Scan} (h : Sim s s') (hn : s.missingReleases = []) :
    s'.missingReleases = [] := by
  refine h.filter_nil ?_ hn
  intro k a a' ha
  show (a.permit.isSome && a.release.isNone) = (a'.permit.isSome && a'.release.isNone)
  rw [← Option.not_isSome, ← Option.not_isSome, ha.permit.isSome, ha.release.isSome]

theorem Sim.allows {s s' : Scan} (h : Sim s s') (hn : s.missingAllows = []) :
    s'.missingAllows = [] := by
  refine h.filter_nil ?_ hn
  intro k a a' ha
  show (a.ended .completed && a.allow.isNone) = (a'.ended .completed && a'.allow.isNone)
  rw [← Option.not_isSome, ← Option.not_isSome, ha.ended, ha.allow.isSome]

/-! ## The number in flight -/

theorem logicalInflight_iff {c : Int} {attempts : List (String × Attempt)} {n : Nat} :
    logicalInflight c attempts = .ok n ↔ (∀ e ∈ attempts, ∃ b, e.2.inflightAt c = .ok b) ∧
      n = (attempts.filter fun e => decide (e.2.inflightAt c = .ok true)).length := by
  induction attempts generalizing n with
  | nil =>
    simp only [logicalInflight, List.not_mem_nil, false_implies, implies_true, List.filter_nil,
      List.length_nil, true_and]
    exact ⟨fun h => (Except.ok.inj h).symm, fun h => by rw [h]⟩
  | cons e rest ih =>
    obtain ⟨id, a⟩ := e
    simp only [logicalInflight]
    cases ha : a.inflightAt c with
    | error err =>
      constructor
      · intro h
        cases h
      · rintro ⟨h, -⟩
        obtain ⟨b, hb⟩ := h _ List.mem_cons_self
        rw [ha] at hb
        cases hb
    | ok here =>
      have hcons : (∀ e ∈ (id, a) :: rest, ∃ b, e.2.inflightAt c = .ok b) ↔
          ∀ e ∈ rest, ∃ b, e.2.inflightAt c = .ok b := by
        rw [List.forall_mem_cons]
        exact and_iff_right ⟨here, ha⟩
      have hlen : (((id, a) :: rest).filter fun e => decide (e.2.inflightAt c = .ok true)).length =
          here.toNat + (rest.filter fun e => decide (e.2.inflightAt c = .ok true)).length := by
        rw [List.filter_cons]
        cases here with
        | true =>
          rw [if_pos (decide_eq_true ha), List.length_cons, Nat.add_comm]
          rfl
        | false =>
          have hne : ¬ a.inflightAt c = .ok true := by
            rw [ha]
            nofun
          rw [if_neg (by simpa using hne)]
          exact (Nat.zero_add _).symm
      rw [hcons, hlen]
      cases hrest : logicalInflight c rest with
      | error err =>
        constructor
        · intro h
          cases h
        · rintro ⟨hall, -⟩
          rw [ih.2 ⟨hall, rfl⟩] at hrest
          cases hrest
      | ok m =>
        obtain ⟨hall, rfl⟩ := ih.1 hrest
        constructor
        · intro h
          exact ⟨hall, (Except.ok.inj h).symm⟩
        · rintro ⟨-, rfl⟩
          rfl

theorem Sim.logicalInflight {s s' : Scan} (h : Sim s s') {c : Int} {n : Nat}
    (hn : logicalInflight c s.attempts = .ok n) : logicalInflight c s'.attempts = .ok n := by
  rw [logicalInflight_iff] at hn ⊢
  obtain ⟨hall, rfl⟩ := hn
  refine ⟨?_, ?_⟩
  · intro e' he'
    obtain ⟨a, ha, hsim⟩ := h.symm.mem he'
    obtain ⟨b, hb⟩ := hall _ ha
    rw [← hsim.inflightAt] at hb
    exact ⟨b, hb⟩
  · -- the same attempts are in flight
    have hmem : ∀ {t t' : Scan}, Sim t t' → ∀ {k},
        k ∈ (t.attempts.filter fun e => decide (e.2.inflightAt c = .ok true)).map Prod.fst →
        k ∈ (t'.attempts.filter fun e => decide (e.2.inflightAt c = .ok true)).map Prod.fst := by
      intro t t' ht k hk
      obtain ⟨e, he, rfl⟩ := List.mem_map.1 hk
      obtain ⟨hm, hflight⟩ := List.mem_filter.1 he
      obtain ⟨a', ha', hsim⟩ := ht.mem hm
      refine List.mem_map.2 ⟨(e.1, a'), List.mem_filter.2 ⟨ha', ?_⟩, rfl⟩
      rw [hsim.inflightAt] at hflight
      exact hflight
    have hperm := (List.perm_ext_iff_of_nodup
      ((List.filter_sublist.map Prod.fst).nodup h.keys)
      ((List.filter_sublist.map Prod.fst).nodup h.keys')).2
      fun k => ⟨hmem h, hmem h.symm⟩
    have hlen := hperm.length_eq
    rw [List.length_map, List.length_map] at hlen
    exact hlen

/-! ## Steps -/

theorem Sim.set {s s' : Scan} (h : Sim s s') {a a' : Attempt} (ha : AttemptSim a a') (aid : String)
    (own : List (Int × String)) :
    Sim
      { s with
        activeSeen := true
        sequences := s.sequences ++ own
        attempts := Dict.set s.attempts aid a }
      { s' with
        activeSeen := true
        sequences := s'.sequences ++ own
        attempts := Dict.set s'.attempts aid a' } where
  keys := Dict.nodup_set h.keys aid a
  keys' := Dict.nodup_set h.keys' aid a'
  attempts := by
    intro aid'
    by_cases he : aid' = aid
    · subst he
      show Option.Rel AttemptSim ((Dict.set s.attempts aid' a).lookup aid')
        ((Dict.set s'.attempts aid' a').lookup aid')
      rw [Dict.lookup_set_self, Dict.lookup_set_self]
      exact .some ha
    · show Option.Rel AttemptSim ((Dict.set s.attempts aid a).lookup aid')
        ((Dict.set s'.attempts aid a').lookup aid')
      rw [Dict.lookup_set_ne _ _ he, Dict.lookup_set_ne _ _ he]
      exact h.attempts aid'
  sequences := by
    intro n
    show (s.sequences ++ own).lookup n = none ↔ (s'.sequences ++ own).lookup n = none
    rw [List.lookup_append, List.lookup_append, Option.or_eq_none_iff, Option.or_eq_none_iff,
      h.sequences n]
  runState := h.runState
  startupSeen := h.startupSeen
  activeSeen := rfl
  cancel := h.cancel
  cancelRequest := h.cancelRequest
  kill := h.kill


theorem Clean.sim {s s' : Scan} {r r' : Record} (h : Clean s r) (hs : Sim s s') (hr : Core r r') :
    Clean s' r' where
  secret hk := by
    rw [← hr.secret]
    exact h.secret (hr.kind?.trans hk)
  capacity hk := by
    obtain ⟨n, hn, hpos⟩ := h.capacity (hr.kind?.trans hk)
    rw [hr.field _ (by decide) (by decide)] at hn
    exact ⟨n, hn, hpos⟩
  pin hk := by
    rw [← hr.badPinFamily]
    exact h.pin (hr.kind?.trans hk)
  timeout hk := by
    obtain ⟨hcounts, hvalid, hbind⟩ := h.timeout (hr.kind?.trans hk)
    refine ⟨hr.countsAdd hcounts, hr.timeoutValid ▸ hvalid, ?_⟩
    intro kill' hkill' f hf
    obtain ⟨kill, hkill, hc⟩ := hs.kill.symm.of_some hkill'
    have hplain : ∀ f ∈ dispositionFields, f ≠ "prev" ∧ f ≠ "ts" := by decide
    exact hr.agree hc.symm (hbind kill hkill f hf) (hplain f hf) (hplain f hf)

/-- **Related states accept related records and stay related.** -/
theorem accepts_sim {s s' t : Scan} {r r' : Record} (h : Accepts s r t) (hs : Sim s s')
    (hr : Core r r') : ∃ t', Accepts s' r' t' ∧ Sim t t' := by
  have hget : ∀ {k : String} {v : Json}, k ≠ "prev" → k ≠ "ts" → r.get? k = some v →
      r'.get? k = some v := fun h1 h2 hv => (hr.field _ h1 h2).symm.trans hv
  have hkind : ∀ {k}, r.kind? = some k → r'.kind? = some k := fun hk => hr.kind?.symm.trans hk
  have hstate : ∀ {x}, s.runState = x → s'.runState = x := fun hx => hs.runState.symm.trans hx
  have hmatch : Match (some r) (some r') := .some hr
  cases h with
  | startupDegraded hk hrun hstart hactive =>
    exact ⟨_, .startupDegraded (hkind hk) (hstate hrun) (hs.startupSeen.symm.trans hstart)
      (hs.activeSeen.symm.trans hactive), hs⟩
  | startupFailed hk hrun hstart hactive =>
    exact ⟨_, .startupFailed (hkind hk) (hstate hrun) (hs.startupSeen.symm.trans hstart)
      (hs.activeSeen.symm.trans hactive), { hs with runState := rfl }⟩
  | startup hk hrun hstart hactive =>
    exact ⟨_, .startup (hkind hk) (hstate hrun) (hs.startupSeen.symm.trans hstart)
      (hs.activeSeen.symm.trans hactive), { hs with startupSeen := rfl }⟩
  | attempt hk hrun hkill hstep hown =>
    rw [hr.textOr (by decide) (by decide)] at hstep ⊢
    rw [hs.runState] at hrun hstep
    obtain ⟨a', hstep', ha⟩ := hstep.sim hr (hs.attempts _) hs.cancel
    refine ⟨_, .attempt (hkind hk) hrun ?_ hstep' ?_, hs.set ha _ _⟩
    · intro hne
      exact hs.kill.of_none (hkill hne)
    · intro e he
      exact (hs.sequences e.1).1 (hown e he)
  | cancelRequested hk hrun =>
    exact ⟨_, .cancelRequested (hkind hk) (hstate hrun),
      { hs with activeSeen := rfl, cancelRequest := hmatch, runState := rfl }⟩
  | @cancelLinearized request seq epoch hk hrun hreq hseq hcancelled hnew hbind hepoch hfresh hall =>
    obtain ⟨request', hreq', hc⟩ := hs.cancelRequest.of_some hreq
    refine ⟨_, .cancelLinearized (hkind hk) (hstate hrun) hreq' (hget (by decide) (by decide) hseq)
      (hget (by decide) (by decide) hcancelled) (hget (by decide) (by decide) hnew) (hc.agree hr hbind)
      (hc.agree hr hepoch) ((hs.sequences _).1 hfresh) ?_,
      { hs with activeSeen := rfl, sequences := ?_, cancel := hmatch, runState := rfl }⟩
    · intro e' he'
      obtain ⟨a, ha, hsim⟩ := hs.symm.mem he'
      have hsim' := hs.attempts e'.1
      rw [Dict.lookup_of_mem hs.keys ha, Dict.lookup_of_mem hs.keys' he'] at hsim'
      cases hsim' with
      | some hsim => exact hsim.beforeLinearized hr (hall _ ha)
    · intro n
      show (s.sequences ++ [(seq, "cancellation")]).lookup n = none ↔
        (s'.sequences ++ [(seq, "cancellation")]).lookup n = none
      rw [List.lookup_append, List.lookup_append, Option.or_eq_none_iff, Option.or_eq_none_iff,
        hs.sequences n]
  | killSwitch hk hrun hnew hterminal hallow hrelease hcounts hcancel hseq hn hinflight hbind hdrain =>
    obtain ⟨cancel', hcancel', hc⟩ := hs.cancel.of_some hcancel
    rw [hc.field _ (by decide) (by decide)] at hseq hinflight
    rw [hr.killBindings hc] at hbind
    rw [hr.drainContradicts] at hdrain
    exact ⟨_, .killSwitch (hkind hk) (hstate hrun) (hs.kill.of_none hnew) (hs.incomplete hterminal)
      (hs.allows hallow) (hs.releases hrelease) (hr.countsAdd hcounts) hcancel' hseq
      (hs.logicalInflight hn) hinflight hbind hdrain, { hs with activeSeen := rfl, kill := hmatch }⟩
  | cancelAck hk hrun hkill hcounts hbind hvalid =>
    obtain ⟨kill', hkill', hc⟩ := hs.kill.of_some hkill
    rw [hr.ackValid] at hvalid
    refine ⟨_, .cancelAck (hkind hk) (hstate hrun) hkill' (hr.countsAdd hcounts) ?_ hvalid,
      { hs with activeSeen := rfl, runState := rfl }⟩
    intro f hf
    have hplain : ∀ f ∈ dispositionFields, f ≠ "prev" ∧ f ≠ "ts" := by decide
    exact hr.agree hc (hbind f hf) (hplain f hf) (hplain f hf)
  | cancelDrainTimeout hk hrun hkill =>
    exact ⟨_, .cancelDrainTimeout (hkind hk) (hstate hrun) (hs.kill.isSome ▸ hkill),
      { hs with activeSeen := rfl, runState := rfl }⟩
  | runClosed hk hrun hcancel hbind hcounts =>
    obtain ⟨cancel', hcancel', hc⟩ := hs.cancel.of_some hcancel
    rw [hr.closureBindings hc] at hbind
    exact ⟨_, .runClosed (hkind hk) (hstate hrun) hcancel' hbind (hr.countsAdd hcounts),
      { hs with activeSeen := rfl, runState := rfl }⟩
  | blockedByPolicy hk hrun hkill =>
    rw [hs.runState] at hrun
    exact ⟨_, .blockedByPolicy (hkind hk) hrun (hs.kill.of_none hkill),
      { hs with activeSeen := rfl }⟩

theorem step_sim {s s' t : Scan} {r r' : Record} {i : Nat} (h : step s i r = .ok t) (hs : Sim s s')
    (hr : Core r r') (j : Nat) : ∃ t', step s' j r' = .ok t' ∧ Sim t t' := by
  obtain ⟨hacc, hclean⟩ := step_iff.1 h
  obtain ⟨t', hacc', hsim⟩ := accepts_sim hacc hs hr
  exact ⟨t', step_iff.2 ⟨hacc', hclean.sim hs hr⟩, hsim⟩

/-- **Related states scan related records alike.** -/
theorem scan_sim {s s' t : Scan} {records records' : List Record} {i : Nat}
    (h : scan s i records = .ok t) (hs : Sim s s') (hr : List.Forall₂ Core records records') (j : Nat) :
    ∃ t', scan s' j records' = .ok t' ∧ Sim t t' := by
  induction hr generalizing s s' i j with
  | nil =>
    cases h
    exact ⟨s', rfl, hs⟩
  | @cons r r' records records' hr hrest ih =>
    simp only [scan, bind_ok] at h
    obtain ⟨u, hu, h⟩ := h
    obtain ⟨u', hu', hsim⟩ := step_sim hu hs hr j
    obtain ⟨t', ht', hsim'⟩ := ih h hsim (j + 1)
    refine ⟨t', ?_, hsim'⟩
    simp only [scan, bind_ok]
    exact ⟨u', hu', ht'⟩

/-! ## New chain metadata -/

/-- The records agree on everything but `prev`, `ts` and the order of their keys, and these two are
well formed in both or in neither. -/
structure Restamped (r r' : Record) : Prop extends Core r r' where
  prev : hex64 (r.textOr "prev") = true ↔ hex64 (r'.textOr "prev") = true
  ts : finiteTs (r.get? "ts") = .ok true ↔ finiteTs (r'.get? "ts") = .ok true

theorem Restamped.refl (r : Record) : Restamped r r := ⟨Core.refl r, Iff.rfl, Iff.rfl⟩

theorem Restamped.symm {r r' : Record} (h : Restamped r r') : Restamped r' r :=
  ⟨h.toCore.symm, h.prev.symm, h.ts.symm⟩

/-- The fields that no schema names. -/
theorem plain_schemas (k : Kind) : ("prev" ∉ (schemas k).1 ∧ "ts" ∉ (schemas k).1) ∧
    "prev" ∉ (schemas k).2 ∧ "ts" ∉ (schemas k).2 := by
  cases k <;> decide

theorem Core.fieldsOk {r r' : Record} (h : Core r r') {ok : Json → Bool} {fields : List String}
    (hf : FieldsOk r ok fields) (hplain : "prev" ∉ fields ∧ "ts" ∉ fields := by decide) :
    FieldsOk r' ok fields := by
  intro f hm v hv
  have h1 : f ≠ "prev" := fun he => hplain.1 (he ▸ hm)
  have h2 : f ≠ "ts" := fun he => hplain.2 (he ▸ hm)
  exact hf f hm v ((h.field f h1 h2).trans hv)

theorem Core.badIntent {r r' : Record} (h : Core r r') (port : Int) :
    badIntent r port = badIntent r' port := by
  have hnonempty : authNonempty.any (fun f => (r.textOr f).isEmpty) =
      authNonempty.any (fun f => (r'.textOr f).isEmpty) := by
    have hplain : ∀ f ∈ authNonempty, f ≠ "prev" ∧ f ≠ "ts" := by decide
    rw [Bool.eq_iff_iff, List.any_eq_true, List.any_eq_true]
    refine exists_congr fun f => and_congr_right fun hf => ?_
    rw [h.textOr (hplain f hf).1 (hplain f hf).2]
  unfold VerifyE10.badIntent
  rw [hnonempty, h.field "lifecycle_version" (by decide) (by decide),
    h.textOr (k := "pin_family") (by decide) (by decide),
    h.textOr (k := "request_intent_digest") (by decide) (by decide)]

/-- **The schema does not read the chain metadata beyond their form.** -/
theorem WellFormed.restamp {k : Kind} {r r' : Record} (w : WellFormed k r) (h : Restamped r r') :
    WellFormed k r' := by
  have hc := h.toCore
  have hget : ∀ {f : String} {v : Json}, f ≠ "prev" → f ≠ "ts" → r.get? f = some v →
      r'.get? f = some v := fun h1 h2 hv => (hc.field _ h1 h2).symm.trans hv
  have hpositive : ∀ {f : String}, f ≠ "prev" → f ≠ "ts" → PositiveField r f → PositiveField r' f := by
    rintro f h1 h2 ⟨n, hn, hpos⟩
    exact ⟨n, hget h1 h2 hn, hpos⟩
  obtain ⟨⟨hprev1, hts1⟩, hprev2, hts2⟩ := plain_schemas k
  refine
    { decision := hc.kind?.symm.trans w.decision
      required := ?_
      allowed := ?_
      runId := ?_
      ts := h.ts.1 w.ts
      prev := h.prev.1 w.prev
      strs := hc.fieldsOk w.strs
      sni := hc.fieldsOk w.sni
      ints := hc.fieldsOk w.ints
      bools := hc.fieldsOk w.bools
      lists := hc.fieldsOk w.lists
      pin := hc.fieldsOk w.pin
      intent := ?_
      lifecycleSeq := fun hk => hpositive (by decide) (by decide) (w.lifecycleSeq hk)
      permitSeq := fun hk => hpositive (by decide) (by decide) (w.permitSeq hk)
      permitSeq' := ?_
      responseHash := ?_
      allowHashes := ?_
      reason := ?_ }
  · intro f hf
    obtain ⟨v, hv⟩ := w.required f hf
    have h1 : f ≠ "prev" := fun he => hprev1 (he ▸ hf)
    have h2 : f ≠ "ts" := fun he => hts1 (he ▸ hf)
    exact ⟨v, hget h1 h2 hv⟩
  · intro f v hv
    by_cases hcommon : f ∈ common
    · exact Or.inl hcommon
    · have h1 : f ≠ "prev" := by rintro rfl; exact hcommon (by decide)
      have h2 : f ≠ "ts" := by rintro rfl; exact hcommon (by decide)
      exact w.allowed f v ((hc.field f h1 h2).trans hv)
  · obtain ⟨s, hs, hne⟩ := w.runId
    exact ⟨s, hget (by decide) (by decide) hs, hne⟩
  · intro hk
    obtain ⟨port, hport, hbad⟩ := w.intent hk
    rw [hc.badIntent] at hbad
    exact ⟨port, hget (by decide) (by decide) hport, hbad⟩
  · rintro ⟨hk, hhas⟩
    refine hpositive (by decide) (by decide) (w.permitSeq' ⟨hk, ?_⟩)
    obtain ⟨v, hv⟩ := Record.has_iff.1 hhas
    exact Record.has_iff.2 ⟨v, (hc.field _ (by decide) (by decide)).trans hv⟩
  · intro hk
    obtain ⟨s, hs, hhex⟩ := w.responseHash hk
    exact ⟨s, hget (by decide) (by decide) hs, hhex⟩
  · intro hk
    rw [← hc.field "request_hash_semantics" (by decide) (by decide),
      ← hc.textOr (k := "request_hash") (by decide) (by decide),
      ← hc.textOr (k := "response_hash") (by decide) (by decide)]
    exact w.allowHashes hk
  · intro hk
    rw [← hc.textOr (k := "reason") (by decide) (by decide)]
    exact w.reason hk

/-- What holds at the end of the scan does not depend on the order of the entries. -/
theorem Accepted.sim {records records' : List Record} {s s' : Scan} (h : Accepted records s)
    (hs : Sim s s') (hscan : scan .start 1 records' = .ok s')
    (hschema : ∀ r ∈ records', ∃ k, WellFormed k r) : Accepted records' s' where
  schema := hschema
  scanned := hscan
  nonempty := by
    intro hnil
    obtain ⟨e, he⟩ := List.exists_mem_of_ne_nil _ h.nonempty
    obtain ⟨a', ha', -⟩ := hs.mem he
    rw [hnil] at ha'
    cases ha'
  terminal := hs.incomplete h.terminal
  allows := hs.allows h.allows
  releases := hs.releases h.releases
  killed := by
    intro hc
    rw [← hs.cancel.isSome] at hc
    rw [← hs.kill.isSome]
    exact h.killed hc
  ended := by
    rw [← hs.runState]
    exact h.ended

theorem restamped_core {records records' : List Record} (h : List.Forall₂ Restamped records records') :
    List.Forall₂ Core records records' := h.imp fun _ _ h => h.toCore

theorem restamped_wellFormed {records records' : List Record}
    (h : List.Forall₂ Restamped records records') (hw : ∀ r ∈ records, ∃ k, WellFormed k r) :
    ∀ r ∈ records', ∃ k, WellFormed k r := by
  induction h with
  | nil => nofun
  | cons hr _ ih =>
    intro r hm
    rcases List.mem_cons.1 hm with rfl | hm
    · obtain ⟨k, w⟩ := hw _ List.mem_cons_self
      exact ⟨k, w.restamp hr⟩
    · exact ih (fun g hg => hw g (List.mem_cons_of_mem _ hg)) r hm

theorem restamped_runId {records records' : List Record} {runId : String}
    (h : List.Forall₂ Restamped records records')
    (hid : ∀ r ∈ records, r.get? "run_id" = some (.str runId)) :
    ∀ r ∈ records', r.get? "run_id" = some (.str runId) := by
  induction h with
  | nil => nofun
  | cons hr _ ih =>
    intro r hm
    rcases List.mem_cons.1 hm with rfl | hm
    · exact (hr.field _ (by decide) (by decide)).symm.trans (hid _ List.mem_cons_self)
    · exact ih (fun g hg => hid g (List.mem_cons_of_mem _ hg)) r hm

theorem restamped_symm {records records' : List Record} (h : List.Forall₂ Restamped records records') :
    List.Forall₂ Restamped records' records := h.flip.imp fun _ _ h => Restamped.symm h

/-- **Acceptance survives new chain metadata.** -/
theorem accepts_restamp {records records' : List Record} {runId : String}
    (h : List.Forall₂ Restamped records records') (hacc : accepts records runId = true) :
    accepts records' runId = true := by
  obtain ⟨hid, hruns, s, hs⟩ := accepts_iff.1 hacc
  obtain ⟨s', hscan, hsim⟩ := scan_sim hs.scanned (Sim.refl List.nodup_nil) (restamped_core h) 1
  exact accepts_iff.2 ⟨hid, restamped_runId h hruns, s', hs.sim hsim hscan (restamped_wellFormed h hs.schema)⟩

end VerifyE10

end StrixPEP
