import StrixPEP.Verifier.Steps

/-!
# Per-attempt grammar of accepted histories

* `Shape a w` — the invariant that links the entry of an attempt to the records read so far that
  carry its id: which fields of the entry are set, in which order their records were read, and
  what these records repeat from the intent and the permit;
* `advance_shape` — every record of the attempt keeps it;
* `attempt_grammar` — in an accepted history the records of an attempt form one of the words of
  the durable grammar and are bound to its intent and its permit.
-/

namespace StrixPEP

/-- The record carries the attempt id. -/
def Record.carries (aid : String) (r : Record) : Bool :=
  decide (r.get? "attempt_id" = some (.str aid))

namespace Kind

/-- The decisions whose records carry an attempt id. -/
def ofAttempt : Kind → Bool
  | auth | permit | permitReleased | attempted | completed | failed | unknown | cancelled | allow
  | connectionTerminated => true
  | _ => false

end Kind

namespace VerifyE10

/-- The words of the durable grammar of one attempt. -/
inductive AttemptWord : List Kind → Prop where
  | unpermitted {t : Kind} (ht : t = .failed ∨ t = .cancelled) : AttemptWord [.auth, t]
  | permitted {t : Kind} (ht : t = .failed ∨ t = .cancelled) :
      AttemptWord [.auth, .permit, t, .permitReleased]
  | completed :
      AttemptWord [.auth, .permit, .attempted, .completed, .allow, .permitReleased]
  | attempted {t : Kind} (ht : t = .failed ∨ t = .cancelled) :
      AttemptWord [.auth, .permit, .attempted, t, .permitReleased]
  | unknown {t : List Kind}
      (ht : t ∈ [[Kind.permitReleased], [.connectionTerminated, .permitReleased],
        [.permitReleased, .connectionTerminated]]) :
      AttemptWord ([.auth, .permit, .attempted, .unknown] ++ t)

/-- The records of one attempt: a word of the grammar, bound to the intent that opens it and to
its permit. -/
structure AttemptHistory (w : List Record) : Prop where
  word : ∃ ks, AttemptWord ks ∧ w.map Record.kind? = ks.map some
  intent : ∃ auth rest, w = auth :: rest ∧
    (∃ c, auth.get? "conn_id" = some c ∧ ∀ r ∈ w, r.get? "conn_id" = some c) ∧
    ∃ e, auth.get? "epoch" = some e ∧ ∀ r ∈ w, ∀ v, r.get? "epoch" = some v → v = e
  permit : ∀ r ∈ w, ∀ v, r.get? "permit_seq" = some v →
    ∃ p ∈ w, p.kind? = some .permit ∧ p.get? "lifecycle_seq" = some v
  unpermitted : (∀ p ∈ w, p.kind? ≠ some .permit) → ∀ r ∈ w, r.has "permit_seq" = false

/-! ## The entry of an attempt -/

/-- Which fields of an entry are set, by its state. -/
structure Phase (a : Attempt) : Prop where
  authorized : a.state = .authorized → a.permit = none ∧ a.attempted = none ∧ a.terminal = none
  permitted : a.state = .permitted → a.attempted = none ∧ a.terminal = none
  attempted : a.state = .attempted → a.attempted.isSome = true ∧ a.terminal = none
  settled : ∀ k, a.state = .terminal k → ∃ t, a.terminal = some t ∧ t.kind? = some k ∧
    k.terminal = true ∧ (a.attempted = none → k = .failed ∨ k = .cancelled)
  ofAttempted : a.attempted.isSome = true → a.permit.isSome = true
  ofAllow : a.allow.isSome = true → a.ended .completed = true
  ofRelease : a.release.isSome = true → a.permit.isSome = true ∧ a.terminal.isSome = true ∧
    (a.ended .completed = true → a.allow.isSome = true)
  ofTermination : a.connectionTerminated.isSome = true → a.ended .unknown = true

/-- The fields of an entry hold records of their decision. -/
structure Kinds (a : Attempt) : Prop where
  auth : a.auth.kind? = some .auth
  permit : ∀ p, a.permit = some p → p.kind? = some .permit
  attempted : ∀ t, a.attempted = some t → t.kind? = some .attempted
  allow : ∀ t, a.allow = some t → t.kind? = some .allow
  release : ∀ t, a.release = some t → t.kind? = some .permitReleased
  termination : ∀ t, a.connectionTerminated = some t → t.kind? = some .connectionTerminated

/-- What a record of the attempt repeats from the intent and the permit. -/
structure Bound (a : Attempt) (r : Record) : Prop where
  connId : ∃ c, a.auth.get? "conn_id" = some c ∧ r.get? "conn_id" = some c
  epoch : ∀ v, r.get? "epoch" = some v → a.auth.get? "epoch" = some v
  permit : ∀ v, r.get? "permit_seq" = some v →
    ∃ p, a.permit = some p ∧ p.get? "lifecycle_seq" = some v

/-- The records that follow the terminal one. -/
def Tail (a : Attempt) (tail : List Record) : Prop :=
  tail = a.allow.toList ++ a.release.toList ++ a.connectionTerminated.toList ∨
    tail = a.connectionTerminated.toList ++ a.release.toList ∧ a.allow = none

/-- The entry of an attempt and the records read so far that carry its id. -/
structure Shape (a : Attempt) (w : List Record) : Prop where
  word : ∃ tail, Tail a tail ∧
    w = a.auth :: (a.permit.toList ++ a.attempted.toList ++ a.terminal.toList ++ tail)
  phase : Phase a
  kinds : Kinds a
  bound : ∀ r ∈ w, Bound a r
  epoch : ∃ e, a.auth.get? "epoch" = some e

theorem Phase.pending {a : Attempt} (h : Phase a) (ht : a.terminal = none) :
    a.allow = none ∧ a.release = none ∧ a.connectionTerminated = none := by
  have hend : ∀ k, a.ended k ≠ true := by
    intro k hk
    obtain ⟨t, ht', -⟩ := ended_iff.1 hk
    rw [ht] at ht'
    cases ht'
  refine ⟨?_, ?_, ?_⟩
  · cases hx : a.allow with
    | none => rfl
    | some x => exact absurd (h.ofAllow (by simp [hx])) (hend _)
  · cases hx : a.release with
    | none => rfl
    | some x =>
      have := (h.ofRelease (by simp [hx])).2.1
      simp [ht] at this
  · cases hx : a.connectionTerminated with
    | none => rfl
    | some x => exact absurd (h.ofTermination (by simp [hx])) (hend _)

/-- The decision of the terminal record. -/
theorem Phase.outcome {a : Attempt} (h : Phase a) {t : Record} (ht : a.terminal = some t) :
    ∃ k, t.kind? = some k ∧ k.terminal = true ∧
      (a.attempted = none → k = .failed ∨ k = .cancelled) := by
  cases hs : a.state with
  | authorized => rw [(h.authorized hs).2.2] at ht; cases ht
  | permitted => rw [(h.permitted hs).2] at ht; cases ht
  | attempted => rw [(h.attempted hs).2] at ht; cases ht
  | terminal k =>
    obtain ⟨t', ht', hk⟩ := h.settled k hs
    cases ht.symm.trans ht'
    exact ⟨k, hk⟩

/-- Before the terminal record nothing follows. -/
theorem Shape.pending {a : Attempt} {w : List Record} (h : Shape a w) (ht : a.terminal = none) :
    w = a.auth :: (a.permit.toList ++ a.attempted.toList) := by
  obtain ⟨hallow, hrelease, hct⟩ := h.phase.pending ht
  obtain ⟨tail, htail, hw⟩ := h.word
  have : tail = [] := by
    rcases htail with rfl | ⟨rfl, -⟩ <;> simp [hallow, hrelease, hct]
  rw [hw, this, ht]
  simp

theorem ended_unique {a : Attempt} {j k : Kind} (hj : a.ended j = true) (hk : a.ended k = true) :
    j = k := by
  obtain ⟨t, ht, hkt⟩ := ended_iff.1 hj
  obtain ⟨t', ht', hkt'⟩ := ended_iff.1 hk
  rw [ht] at ht'
  cases ht'
  rw [hkt] at hkt'
  exact Option.some.inj hkt'

theorem Bound.mono {a b : Attempt} {r : Record} (h : Bound a r) (hauth : b.auth = a.auth)
    (hp : ∀ p, a.permit = some p → b.permit = some p) : Bound b r where
  connId := by rw [hauth]; exact h.connId
  epoch := by rw [hauth]; exact h.epoch
  permit := by
    intro v hv
    obtain ⟨p, hap, hps⟩ := h.permit v hv
    exact ⟨p, hp p hap, hps⟩

/-- A record whose decision has neither an epoch nor a permit sequence. -/
theorem Bound.plain {a : Attempt} {k : Kind} {r : Record} (w : WellFormed k r)
    (hconn : Agree r "conn_id" a.auth "conn_id") (he : "epoch" ∉ (schemas k).2)
    (hp : "permit_seq" ∉ (schemas k).2) : Bound a r where
  connId := by
    obtain ⟨c, h1, h2⟩ := hconn
    exact ⟨c, h2, h1⟩
  epoch := by
    intro v hv
    rw [w.absent (by decide) he] at hv
    cases hv
  permit := by
    intro v hv
    rw [w.absent (by decide) hp] at hv
    cases hv

/-- A record that repeats the permit's own binding. -/
theorem Bound.ofPermit {a : Attempt} {p r : Record} (hp : a.permit = some p) (h : Bound a p)
    (hconn : Agree r "conn_id" p "conn_id") (hepoch : Agree r "epoch" p "epoch")
    (hseq : Agree r "permit_seq" p "lifecycle_seq") : Bound a r where
  connId := by
    obtain ⟨c, hr, hpc⟩ := hconn
    obtain ⟨c', ha, hpc'⟩ := h.connId
    rw [hpc] at hpc'
    cases hpc'
    exact ⟨c, ha, hr⟩
  epoch := by
    intro v hv
    obtain ⟨e, hr, hpe⟩ := hepoch
    rw [hr] at hv
    cases hv
    exact h.epoch _ hpe
  permit := by
    intro v hv
    obtain ⟨n, hr, hpn⟩ := hseq
    rw [hr] at hv
    cases hv
    exact ⟨p, hp, hpn⟩

theorem Shape.permit_mem {a : Attempt} {w : List Record} (h : Shape a w) {p : Record}
    (hp : a.permit = some p) : p ∈ w := by
  obtain ⟨tail, -, hw⟩ := h.word
  rw [hw, hp]
  simp

/-- The bindings of the word after one more record. -/
theorem Shape.bound_append {a b : Attempt} {w : List Record} {r : Record} (h : Shape a w)
    (hauth : b.auth = a.auth) (hp : ∀ p, a.permit = some p → b.permit = some p)
    (hr : Bound b r) : ∀ x ∈ w ++ [r], Bound b x := by
  intro x hx
  rcases List.mem_append.1 hx with hx | hx
  · exact (h.bound x hx).mono hauth hp
  · cases List.mem_singleton.1 hx
    exact hr

section Advance

variable {cancel : Option Record} {late : Bool} {r : Record} {aid : String}

/-- `conn_id` of an `ALLOW` record. -/
theorem allowBinds_conn {r auth t : Record} {att : Option Record}
    (h : allowBinds r auth t att = .ok true) : Agree r "conn_id" auth "conn_id" := by
  unfold allowBinds at h
  cases hd : auth.str "request_intent_digest" with
  | error e => rw [hd] at h; cases h
  | ok d =>
    cases hq : afterColon d with
    | error e =>
      simp only [hd, hq, bind, Except.bind] at h
      cases h
    | ok q =>
      simp only [hd, hq, bind, Except.bind] at h
      have := (allOf_true.1 h) (same r "conn_id" auth "conn_id") (by simp)
      exact same_true.1 this

theorem shape_auth (w : WellFormed .auth r) :
    Shape
      { state := .authorized, auth := r, permit := none, attempted := none, terminal := none,
        allow := none, release := none, lateAuth := late, connectionTerminated := none } [r] where
  word := ⟨[], Or.inl rfl, rfl⟩
  phase := by constructor <;> simp
  kinds := by constructor <;> simp [w.decision]
  bound := by
    intro x hx
    cases List.mem_singleton.1 hx
    obtain ⟨c, hc⟩ := w.required "conn_id" (by decide)
    refine ⟨⟨c, hc, hc⟩, fun v hv => hv, fun v hv => ?_⟩
    rw [w.absent (by decide) (by decide)] at hv
    cases hv
  epoch := w.required "epoch" (by decide)

theorem shape_permit {a : Attempt} {w : List Record} (h : Shape a w) (wf : WellFormed .permit r)
    (hstate : a.state = .authorized) (hfields : ∀ f ∈ permitFields, Agree r f a.auth f) :
    Shape { a with state := .permitted, permit := some r } (w ++ [r]) := by
  obtain ⟨hp, hatt, hterm⟩ := h.phase.authorized hstate
  obtain ⟨hallow, hrelease, hct⟩ := h.phase.pending hterm
  have hw : w = [a.auth] := by rw [h.pending hterm, hp, hatt]; rfl
  refine ⟨⟨[], ?_, ?_⟩, ?_, ?_, ?_, h.epoch⟩
  · exact Or.inl (by simp [hallow, hrelease, hct])
  · simp [hw, hatt, hterm]
  · constructor <;> simp [hatt, hterm, hallow, hrelease, hct]
  · exact { h.kinds with permit := by rintro p ⟨⟩; exact wf.decision }
  · refine h.bound_append rfl (fun p hp' => by rw [hp] at hp'; cases hp') ?_
    obtain ⟨c, hrc, hac⟩ := hfields "conn_id" (by decide)
    obtain ⟨e, hre, hae⟩ := hfields "epoch" (by decide)
    refine ⟨⟨c, hac, hrc⟩, fun v hv => ?_, fun v hv => ?_⟩
    · rw [hre] at hv
      cases hv
      exact hae
    · rw [wf.absent (by decide) (by decide)] at hv
      cases hv

theorem shape_attempted {a : Attempt} {w : List Record} {p : Record} (h : Shape a w)
    (wf : WellFormed .attempted r) (hstate : a.state = .permitted) (hp : a.permit = some p)
    (hseq : Agree r "permit_seq" p "lifecycle_seq") (hconn : Agree r "conn_id" p "conn_id")
    (hepoch : Agree r "epoch" p "epoch") :
    Shape { a with state := .attempted, attempted := some r } (w ++ [r]) := by
  obtain ⟨hatt, hterm⟩ := h.phase.permitted hstate
  obtain ⟨hallow, hrelease, hct⟩ := h.phase.pending hterm
  have hw : w = [a.auth, p] := by rw [h.pending hterm, hp, hatt]; rfl
  refine ⟨⟨[], ?_, ?_⟩, ?_, ?_, ?_, h.epoch⟩
  · exact Or.inl (by simp [hallow, hrelease, hct])
  · simp [hw, hp, hterm]
  · constructor <;> simp [hp, hterm, hallow, hrelease, hct]
  · exact { h.kinds with attempted := by rintro p ⟨⟩; exact wf.decision }
  · have hbp := h.bound p (h.permit_mem hp)
    exact h.bound_append rfl (fun q hq => hq)
      ((hbp.ofPermit hp hconn hepoch hseq).mono rfl fun q hq => hq)

theorem shape_terminal {a : Attempt} {w : List Record} {k : Kind} (h : Shape a w)
    (wf : WellFormed k r) (hk : k.terminal = true) (hlegal : legalTerminal a.state k = true)
    (hconn : Agree r "conn_id" a.auth "conn_id") (hepoch : Agree r "epoch" a.auth "epoch")
    (hpermit : ∀ p, a.permit = some p → Agree r "permit_seq" p "lifecycle_seq")
    (hnone : a.permit = none → r.get? "permit_seq" = none) :
    Shape { a with state := .terminal k, terminal := some r } (w ++ [r]) := by
  -- a legal terminal record finds the attempt without one
  have hterm : a.terminal = none ∧ (a.attempted = none → k = .failed ∨ k = .cancelled) := by
    cases hs : a.state with
    | authorized =>
      obtain ⟨-, -, ht⟩ := h.phase.authorized hs
      exact ⟨ht, fun _ => by simpa [legalTerminal, hs] using hlegal⟩
    | permitted =>
      obtain ⟨-, ht⟩ := h.phase.permitted hs
      exact ⟨ht, fun _ => by simpa [legalTerminal, hs] using hlegal⟩
    | attempted =>
      obtain ⟨ha, ht⟩ := h.phase.attempted hs
      exact ⟨ht, fun hn => by simp [hn] at ha⟩
    | terminal j => simp [legalTerminal, hs] at hlegal
  obtain ⟨hterm, hlegal⟩ := hterm
  obtain ⟨hallow, hrelease, hct⟩ := h.phase.pending hterm
  refine ⟨⟨[], ?_, ?_⟩, ?_, ?_, ?_, h.epoch⟩
  · exact Or.inl (by simp [hallow, hrelease, hct])
  · simp [h.pending hterm]
  · refine ⟨?_, ?_, ?_, ?_, h.phase.ofAttempted, ?_, ?_, ?_⟩
    · simp
    · simp
    · simp
    · rintro j ⟨⟩
      exact ⟨r, rfl, wf.decision, hk, hlegal⟩
    · simp [hallow]
    · simp [hrelease]
    · simp [hct]
  · exact { h.kinds with }
  · refine h.bound_append rfl (fun q hq => hq) ⟨?_, ?_, ?_⟩
    · obtain ⟨c, h1, h2⟩ := hconn
      exact ⟨c, h2, h1⟩
    · intro v hv
      obtain ⟨e, h1, h2⟩ := hepoch
      rw [h1] at hv
      cases hv
      exact h2
    · intro v hv
      cases hp : a.permit with
      | none => rw [hnone hp] at hv; cases hv
      | some p =>
        obtain ⟨n, h1, h2⟩ := hpermit p hp
        rw [h1] at hv
        cases hv
        exact ⟨p, rfl, h2⟩

theorem shape_allow {a : Attempt} {w : List Record} {t : Record} (h : Shape a w)
    (wf : WellFormed .allow r) (ht : a.terminal = some t) (hend : t.kind? = some .completed)
    (hnew : a.allow = none) (hbinds : allowBinds r a.auth t a.attempted = .ok true) :
    Shape { a with allow := some r } (w ++ [r]) := by
  have hcomp : a.ended .completed = true := ended_iff.2 ⟨t, ht, hend⟩
  have hrelease : a.release = none := by
    cases hx : a.release with
    | none => rfl
    | some x =>
      have := (h.phase.ofRelease (by simp [hx])).2.2 hcomp
      simp [hnew] at this
  have hct : a.connectionTerminated = none := by
    cases hx : a.connectionTerminated with
    | none => rfl
    | some x => cases ended_unique hcomp (h.phase.ofTermination (by simp [hx]))
  obtain ⟨tail, htail, hw⟩ := h.word
  have htail : tail = [] := by
    rcases htail with rfl | ⟨rfl, -⟩ <;> simp [hnew, hrelease, hct]
  refine ⟨⟨[r], ?_, ?_⟩, ?_, ?_, ?_, h.epoch⟩
  · exact Or.inl (by simp [hrelease, hct])
  · simp [hw, htail]
  · exact { h.phase with
      ofAllow := fun _ => hcomp
      ofRelease := fun hx => ⟨(h.phase.ofRelease hx).1, (h.phase.ofRelease hx).2.1, fun _ => rfl⟩ }
  · exact { h.kinds with allow := by rintro p ⟨⟩; exact wf.decision }
  · exact h.bound_append rfl (fun q hq => hq)
      (Bound.plain wf (allowBinds_conn hbinds) (by decide) (by decide))

theorem shape_released {a : Attempt} {w : List Record} {p t : Record} (h : Shape a w)
    (wf : WellFormed .permitReleased r) (hp : a.permit = some p) (ht : a.terminal = some t)
    (hallow : t.kind? = some .completed → a.allow.isSome = true) (hnew : a.release = none)
    (hconn : Agree r "conn_id" p "conn_id") (hepoch : Agree r "epoch" p "epoch")
    (hbind : Agree r "permit_seq" p "lifecycle_seq") :
    Shape { a with release := some r } (w ++ [r]) := by
  obtain ⟨tail, htail, hw⟩ := h.word
  refine ⟨⟨tail ++ [r], ?_, ?_⟩, ?_, ?_, ?_, h.epoch⟩
  · -- a termination record read before goes with no `ALLOW`: it belongs to another outcome
    rcases htail with rfl | ⟨rfl, hnoallow⟩
    · cases hct : a.connectionTerminated with
      | none => exact Or.inl (by simp [hnew])
      | some x =>
        have hunknown := h.phase.ofTermination (by simp [hct])
        have hnoallow : a.allow = none := by
          cases hx : a.allow with
          | none => rfl
          | some y => cases ended_unique hunknown (h.phase.ofAllow (by simp [hx]))
        exact Or.inr ⟨by simp [hnew, hnoallow], hnoallow⟩
    · exact Or.inr ⟨by simp [hnew], hnoallow⟩
  · simp [hw]
  · exact { h.phase with
      ofRelease := by
        intro _
        refine ⟨by simp [hp], by simp [ht], fun hend => ?_⟩
        obtain ⟨t', ht', hk⟩ := ended_iff.1 hend
        cases ht.symm.trans ht'
        exact hallow hk }
  · exact { h.kinds with release := by rintro p ⟨⟩; exact wf.decision }
  · have hbp := h.bound p (h.permit_mem hp)
    exact h.bound_append rfl (fun q hq => hq)
      ((hbp.ofPermit hp hconn hepoch hbind).mono rfl fun q hq => hq)

theorem shape_terminated {a : Attempt} {w : List Record} {t : Record} (h : Shape a w)
    (wf : WellFormed .connectionTerminated r) (ht : a.terminal = some t)
    (hend : t.kind? = some .unknown) (hnew : a.connectionTerminated = none)
    (hbinds : ∀ x ∈ terminationBindings r a.auth t, x = .ok false) :
    Shape { a with connectionTerminated := some r } (w ++ [r]) := by
  have hunknown : a.ended .unknown = true := ended_iff.2 ⟨t, ht, hend⟩
  have hallow : a.allow = none := by
    cases hx : a.allow with
    | none => rfl
    | some y => cases ended_unique hunknown (h.phase.ofAllow (by simp [hx]))
  obtain ⟨tail, htail, hw⟩ := h.word
  refine ⟨⟨tail ++ [r], ?_, ?_⟩, ?_, ?_, ?_, h.epoch⟩
  · refine Or.inl ?_
    rcases htail with rfl | ⟨rfl, -⟩ <;> simp [hallow, hnew]
  · simp [hw]
  · exact { h.phase with ofTermination := fun _ => hunknown }
  · exact { h.kinds with termination := by rintro p ⟨⟩; exact wf.decision }
  · have hconn : Agree r "conn_id" a.auth "conn_id" :=
      differ_false.1 (hbinds _ (by simp [terminationBindings]))
    exact h.bound_append rfl (fun q hq => hq) (Bound.plain wf hconn (by decide) (by decide))

/-- **Every record of an attempt keeps the shape of its entry.** -/
theorem advance_shape {k : Kind} {o : Option Attempt} {a : Attempt} {own : List (Int × String)}
    {w : List Record} (wf : WellFormed k r) (hstep : Advance cancel late r aid k o a own)
    (hnone : o = none → w = []) (hsome : ∀ b, o = some b → Shape b w) : Shape a (w ++ [r]) := by
  cases hstep with
  | auth hseq hcancel =>
    rw [hnone rfl]
    exact shape_auth wf
  | permit hstate hlate hfields => exact shape_permit (hsome _ rfl) wf hstate hfields
  | attempted hstate hp hseq hconn hepoch =>
    exact shape_attempted (hsome _ rfl) wf hstate hp hseq hconn hepoch
  | terminal hk hlegal hconn hepoch hpermit hfree =>
    exact shape_terminal (hsome _ rfl) wf hk hlegal hconn hepoch hpermit hfree
  | allow ht hend hnew hbinds => exact shape_allow (hsome _ rfl) wf ht hend hnew hbinds
  | released hp ht hallow hnew hconn hepoch hbind =>
    exact shape_released (hsome _ rfl) wf hp ht hallow hnew hconn hepoch hbind
  | connectionTerminated ht hend hatt hnew hbinds =>
    exact shape_terminated (hsome _ rfl) wf ht hend hnew hbinds

end Advance

/-! ## The whole scan -/

/-- A record of an attempt names it; no other record does. -/
theorem WellFormed.attemptId {k : Kind} {r : Record} (w : WellFormed k r) :
    if k.ofAttempt then r.get? "attempt_id" = some (.str (r.textOr "attempt_id"))
    else r.get? "attempt_id" = none := by
  cases hk : k.ofAttempt with
  | true =>
    have hreq : "attempt_id" ∈ (schemas k).1 := by
      cases k <;> first | cases hk; done | decide
    obtain ⟨s, hs⟩ := w.str hreq (by decide)
    simp [Record.textOr, hs, Json.toText]
  | false =>
    have hall : "attempt_id" ∉ (schemas k).2 := by
      cases k <;> first | cases hk; done | decide
    simpa using w.absent (by decide) hall

theorem Advance.ofAttempt {cancel : Option Record} {late : Bool} {r : Record} {aid : String}
    {k : Kind} {o : Option Attempt} {a : Attempt} {own : List (Int × String)}
    (h : Advance cancel late r aid k o a own) : k.ofAttempt = true := by
  cases h with
  | terminal hk => revert hk; cases ‹Kind› <;> simp [Kind.terminal, Kind.ofAttempt]
  | _ => rfl

/-- The records read so far that carry the id. -/
def ofAttempt (aid : String) (seen : List Record) : List Record := seen.filter (Record.carries aid)

/-- Every entry has the shape of the records of its attempt, and an id without an entry has
none. -/
structure Entries (seen : List Record) (s : Scan) : Prop where
  absent : ∀ aid, s.attempts.lookup aid = none → ofAttempt aid seen = []
  present : ∀ aid a, s.attempts.lookup aid = some a → Shape a (ofAttempt aid seen)

theorem Entries.other {seen : List Record} {s s' : Scan} {r : Record} (I : Entries seen s)
    (hs : s'.attempts = s.attempts) (hr : ∀ aid, r.carries aid = false) :
    Entries (seen ++ [r]) s' := by
  have hof : ∀ aid, ofAttempt aid (seen ++ [r]) = ofAttempt aid seen := by
    intro aid
    simp [ofAttempt, List.filter_append, hr aid]
  refine ⟨fun aid h => ?_, fun aid a h => ?_⟩
  · rw [hof]
    exact I.absent aid (by rw [← hs]; exact h)
  · rw [hof]
    exact I.present aid a (by rw [← hs]; exact h)

/-- A record of no attempt carries no id. -/
theorem not_carries {r : Record} {k j : Kind} (w : WellFormed k r) (hj : r.kind? = some j)
    (hk : j.ofAttempt = false) : ∀ aid, r.carries aid = false := by
  intro aid
  have he : k = j := Option.some.inj (w.decision.symm.trans hj)
  subst he
  have := w.attemptId
  rw [hk] at this
  simp only [Bool.false_eq_true, if_false] at this
  simp [Record.carries, this]

theorem entries_step {seen : List Record} {s s' : Scan} {r : Record} (I : Entries seen s)
    (w : ∃ k, WellFormed k r) (h : Accepts s r s') : Entries (seen ++ [r]) s' := by
  obtain ⟨k₀, w⟩ := w
  cases h with
  | attempt hk hrun hkill hstep hown =>
    rename_i k a own
    cases w.decision.symm.trans hk
    have hid := w.attemptId
    rw [hstep.ofAttempt] at hid
    simp only [if_true] at hid
    have hcarry : ∀ aid, r.carries aid = true ↔ aid = r.textOr "attempt_id" := by
      intro aid
      simp only [Record.carries, hid, decide_eq_true_eq, Option.some.injEq, Json.str.injEq]
      exact eq_comm
    have hself : ofAttempt (r.textOr "attempt_id") (seen ++ [r]) =
        ofAttempt (r.textOr "attempt_id") seen ++ [r] := by
      simp [ofAttempt, List.filter_append, (hcarry _).2 rfl]
    have hother : ∀ aid, aid ≠ r.textOr "attempt_id" →
        ofAttempt aid (seen ++ [r]) = ofAttempt aid seen := by
      intro aid hne
      have : r.carries aid = false := by
        simpa using fun h => hne ((hcarry aid).1 h)
      simp [ofAttempt, List.filter_append, this]
    refine ⟨fun aid hl => ?_, fun aid b hl => ?_⟩
    · by_cases he : aid = r.textOr "attempt_id"
      · subst he
        rw [Dict.lookup_set_self] at hl
        cases hl
      · rw [Dict.lookup_set_ne _ _ he] at hl
        rw [hother aid he]
        exact I.absent aid hl
    · by_cases he : aid = r.textOr "attempt_id"
      · subst he
        rw [Dict.lookup_set_self] at hl
        cases hl
        rw [hself]
        exact advance_shape w hstep (I.absent _) (I.present _)
      · rw [Dict.lookup_set_ne _ _ he] at hl
        rw [hother aid he]
        exact I.present aid b hl
  | startupDegraded hk => exact I.other rfl (not_carries w hk rfl)
  | startupFailed hk => exact I.other rfl (not_carries w hk rfl)
  | startup hk => exact I.other rfl (not_carries w hk rfl)
  | cancelRequested hk => exact I.other rfl (not_carries w hk rfl)
  | cancelLinearized hk => exact I.other rfl (not_carries w hk rfl)
  | killSwitch hk => exact I.other rfl (not_carries w hk rfl)
  | cancelAck hk => exact I.other rfl (not_carries w hk rfl)
  | cancelDrainTimeout hk => exact I.other rfl (not_carries w hk rfl)
  | runClosed hk => exact I.other rfl (not_carries w hk rfl)
  | blockedByPolicy hk => exact I.other rfl (not_carries w hk rfl)

theorem accepted_entries {records : List Record} {s : Scan} (h : Accepted records s) :
    Entries records s :=
  scan_induct ⟨fun _ _ => rfl, fun _ _ h => by cases h⟩ entries_step h.schema h.scanned

/-! ## The grammar -/

/-- An entry with its terminal record, its required `ALLOW` and its release. -/
structure Finished (a : Attempt) : Prop where
  terminal : a.terminal.isSome = true
  allow : a.ended .completed = true → a.allow.isSome = true
  release : a.permit.isSome = true → a.release.isSome = true

theorem accepted_finished {records : List Record} {s : Scan} (h : Accepted records s)
    {aid : String} {a : Attempt} (ha : s.attempts.lookup aid = some a) : Finished a := by
  have hmem := Dict.mem_of_lookup ha
  have hterm := h.terminal
  have hallow := h.allows
  have hrel := h.releases
  unfold Scan.incompleteAttempts at hterm
  unfold Scan.missingAllows at hallow
  unfold Scan.missingReleases at hrel
  simp only [List.map_eq_nil_iff, List.filter_eq_nil_iff, Bool.and_eq_true, not_and,
    Bool.not_eq_true, Option.isNone_eq_false_iff] at hterm hallow hrel
  exact ⟨hterm _ hmem, hallow _ hmem, hrel _ hmem⟩

/-- The decisions of a finished attempt's records. -/
theorem Shape.kinds_word {a : Attempt} {w : List Record} (h : Shape a w) (f : Finished a) :
    ∃ ks, AttemptWord ks ∧ w.map Record.kind? = ks.map some := by
  obtain ⟨t, ht⟩ := Option.isSome_iff_exists.1 f.terminal
  obtain ⟨k, hkt, hterm, hfc⟩ := h.phase.outcome ht
  have hend : a.ended k = true := ended_iff.2 ⟨t, ht, hkt⟩
  have hallow : k ≠ .completed → a.allow = none := by
    intro hne
    cases hx : a.allow with
    | none => rfl
    | some x => exact absurd (ended_unique hend (h.phase.ofAllow (by simp [hx]))) hne
  have hct : k ≠ .unknown → a.connectionTerminated = none := by
    intro hne
    cases hx : a.connectionTerminated with
    | none => rfl
    | some x => exact absurd (ended_unique hend (h.phase.ofTermination (by simp [hx]))) hne
  obtain ⟨tail, htail, hw⟩ := h.word
  cases hp : a.permit with
  | none =>
    have hatt : a.attempted = none := by
      cases hx : a.attempted with
      | none => rfl
      | some x =>
        have := h.phase.ofAttempted (by simp [hx])
        simp [hp] at this
    have hrel : a.release = none := by
      cases hx : a.release with
      | none => rfl
      | some x =>
        have := (h.phase.ofRelease (by simp [hx])).1
        simp [hp] at this
    have hk := hfc hatt
    have ha := hallow (by rcases hk with rfl | rfl <;> decide)
    have hc := hct (by rcases hk with rfl | rfl <;> decide)
    have htl : tail = [] := by
      rcases htail with rfl | ⟨rfl, -⟩ <;> simp [ha, hrel, hc]
    refine ⟨[.auth, k], .unpermitted hk, ?_⟩
    simp [hw, hp, hatt, ht, htl, h.kinds.auth, hkt]
  | some p =>
    obtain ⟨x, hx⟩ := Option.isSome_iff_exists.1 (f.release (by simp [hp]))
    have hxk := h.kinds.release x hx
    have hpk := h.kinds.permit p hp
    cases hatt : a.attempted with
    | none =>
      have hk := hfc hatt
      have ha := hallow (by rcases hk with rfl | rfl <;> decide)
      have hc := hct (by rcases hk with rfl | rfl <;> decide)
      have htl : tail = [x] := by
        rcases htail with rfl | ⟨rfl, -⟩ <;> simp [ha, hx, hc]
      refine ⟨[.auth, .permit, k, .permitReleased], .permitted hk, ?_⟩
      simp [hw, hp, hatt, ht, htl, h.kinds.auth, hkt, hpk, hxk]
    | some y =>
      have hyk := h.kinds.attempted y hatt
      have hcases : (k = .failed ∨ k = .cancelled) ∨ k = .completed ∨ k = .unknown := by
        revert hterm
        cases k <;> simp [Kind.terminal]
      rcases hcases with hk | rfl | rfl
      · have ha := hallow (by rcases hk with rfl | rfl <;> decide)
        have hc := hct (by rcases hk with rfl | rfl <;> decide)
        have htl : tail = [x] := by
          rcases htail with rfl | ⟨rfl, -⟩ <;> simp [ha, hx, hc]
        refine ⟨[.auth, .permit, .attempted, k, .permitReleased], .attempted hk, ?_⟩
        simp [hw, hp, hatt, ht, htl, h.kinds.auth, hkt, hpk, hxk, hyk]
      · obtain ⟨z, hz⟩ := Option.isSome_iff_exists.1 (f.allow hend)
        have hc := hct (by decide)
        have hzk := h.kinds.allow z hz
        have htl : tail = [z, x] := by
          rcases htail with rfl | ⟨-, hn⟩
          · simp [hz, hx, hc]
          · rw [hn] at hz; cases hz
        refine ⟨_, .completed, ?_⟩
        simp [hw, hp, hatt, ht, htl, h.kinds.auth, hkt, hpk, hxk, hyk, hzk]
      · have ha := hallow (by decide)
        cases hc : a.connectionTerminated with
        | none =>
          have htl : tail = [x] := by
            rcases htail with rfl | ⟨rfl, -⟩ <;> simp [ha, hx, hc]
          refine ⟨_, .unknown (t := [.permitReleased]) (by decide), ?_⟩
          simp [hw, hp, hatt, ht, htl, h.kinds.auth, hkt, hpk, hxk, hyk]
        | some c =>
          have hck := h.kinds.termination c hc
          rcases htail with rfl | ⟨rfl, -⟩
          · refine ⟨_, .unknown (t := [.permitReleased, .connectionTerminated]) (by decide), ?_⟩
            simp [hw, hp, hatt, ht, ha, hx, hc, h.kinds.auth, hkt, hpk, hxk, hyk, hck]
          · refine ⟨_, .unknown (t := [.connectionTerminated, .permitReleased]) (by decide), ?_⟩
            simp [hw, hp, hatt, ht, hx, hc, h.kinds.auth, hkt, hpk, hxk, hyk, hck]

/-- Every record of the attempt is a field of its entry. -/
theorem Shape.mem_field {a : Attempt} {w : List Record} (h : Shape a w) {r : Record}
    (hr : r ∈ w) :
    r = a.auth ∨ a.permit = some r ∨ a.attempted = some r ∨ a.terminal = some r ∨
      a.allow = some r ∨ a.release = some r ∨ a.connectionTerminated = some r := by
  obtain ⟨tail, htail, rfl⟩ := h.word
  simp only [List.mem_cons, List.mem_append, Option.mem_toList] at hr
  rcases hr with hr | ((hr | hr) | hr) | hr
  · exact Or.inl hr
  · exact Or.inr (Or.inl hr)
  · exact Or.inr (Or.inr (Or.inl hr))
  · exact Or.inr (Or.inr (Or.inr (Or.inl hr)))
  · rcases htail with rfl | ⟨rfl, -⟩ <;>
      simp only [List.mem_append, Option.mem_toList] at hr <;> tauto

/-- The fields that hold the records of a decision. -/
theorem Shape.field_of_kind {a : Attempt} {w : List Record} (h : Shape a w) {r : Record}
    (hr : r ∈ w) :
    (r.kind? = some .auth → r = a.auth) ∧ (r.kind? = some .permit → a.permit = some r) ∧
      (r.kind? = some .permitReleased → a.release = some r) := by
  have hterm : ∀ t, a.terminal = some t → t.kind? ≠ some .auth ∧ t.kind? ≠ some .permit ∧
      t.kind? ≠ some .permitReleased := by
    intro t ht
    obtain ⟨k, hk, hkt, -⟩ := h.phase.outcome ht
    rw [hk]
    cases k <;> simp_all [Kind.terminal]
  have K := h.kinds
  rcases h.mem_field hr with rfl | hf | hf | hf | hf | hf | hf
  · simp [K.auth]
  · simp [K.permit r hf, hf]
  · simp [K.attempted r hf]
  · simp [hterm r hf]
  · simp [K.allow r hf]
  · simp [K.release r hf, hf]
  · simp [K.termination r hf]

/-- **Per-attempt grammar.** In a history that the verifier accepts, the records that carry an
attempt id form one word of the durable grammar, opened by the intent they are all bound to,
and name the sequence of its permit wherever they name one. -/
theorem attempt_grammar {records : List Record} {runId : String}
    (h : accepts records runId = true) {aid : String} (hocc : ∃ r ∈ records, r.carries aid = true) :
    AttemptHistory (records.filter (Record.carries aid)) := by
  obtain ⟨s, hacc⟩ := valid_accepted h
  have I := accepted_entries hacc
  cases ha : s.attempts.lookup aid with
  | none =>
    obtain ⟨r, hr, hcarry⟩ := hocc
    have hmem : r ∈ ofAttempt aid records := List.mem_filter.2 ⟨hr, hcarry⟩
    rw [I.absent aid ha] at hmem
    cases hmem
  | some a =>
    have hshape := I.present aid a ha
    change Shape a (records.filter (Record.carries aid)) at hshape
    have hpermit : ∀ r ∈ records.filter (Record.carries aid), ∀ v, r.get? "permit_seq" = some v →
        ∃ p ∈ records.filter (Record.carries aid), p.kind? = some .permit ∧
          p.get? "lifecycle_seq" = some v := by
      intro r hr v hv
      obtain ⟨p, hp, hpv⟩ := (hshape.bound r hr).permit v hv
      exact ⟨p, hshape.permit_mem hp, hshape.kinds.permit p hp, hpv⟩
    refine ⟨hshape.kinds_word (accepted_finished hacc ha), ?_, hpermit, ?_⟩
    · obtain ⟨tail, -, hw⟩ := hshape.word
      obtain ⟨e, he⟩ := hshape.epoch
      have hauth : a.auth ∈ records.filter (Record.carries aid) := by rw [hw]; simp
      obtain ⟨c, hc, -⟩ := (hshape.bound _ hauth).connId
      refine ⟨a.auth, _, hw, ⟨c, hc, fun r hr => ?_⟩, e, he, fun r hr v hv => ?_⟩
      · obtain ⟨c', hc', hrc⟩ := (hshape.bound r hr).connId
        rw [hc] at hc'
        cases hc'
        exact hrc
      · have := (hshape.bound r hr).epoch v hv
        rw [he] at this
        exact (Option.some.inj this).symm
    · intro hnone r hr
      cases hb : r.has "permit_seq" with
      | false => rfl
      | true =>
        obtain ⟨v, hv⟩ := Record.has_iff.1 hb
        obtain ⟨p, hp, hk, -⟩ := hpermit r hr v hv
        exact absurd hk (hnone p hp)

/-- The sample run meets the hypotheses: its attempt ends in `UNKNOWN`, is released after the
cancellation and is followed by its termination record. -/
theorem attempt_grammar_sample :
    accepts Sample.history "run-1" = true ∧
      (∃ r ∈ Sample.history, r.carries "attempt-1" = true) ∧
      AttemptHistory (Sample.history.filter (Record.carries "attempt-1")) := by
  have hocc : ∃ r ∈ Sample.history, r.carries "attempt-1" = true := by decide +kernel
  exact ⟨Sample.history_accepted, hocc, attempt_grammar Sample.history_accepted hocc⟩

end VerifyE10

end StrixPEP
