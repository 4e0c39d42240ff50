import StrixPEP.Verifier.RunGrammar
import StrixPEP.Verifier.Simulation

/-!
# Append order

Records of different attempts, and a cancellation record beside a record of the drain, may be
appended in either order: `swap_step` exchanges two accepted records, and `Verifier.Simulation`
carries the two states, which differ in the order of their entries only, through the rest of the
scan.

Principal result: `append_order`.
-/

namespace StrixPEP

/-- The decisions of the drain: every record of an attempt but its intent and its attempt, and
denials. -/
def Kind.drains (k : Kind) : Bool := k.active && decide (k ≠ .auth) && decide (k ≠ .attempted)

namespace VerifyE10

/-! ## The state before the pair -/

/-- What the exchange needs to know of the state. -/
structure Reached (s : Scan) : Prop where
  keys : (s.attempts.map Prod.fst).Nodup
  permit : ∀ e ∈ s.attempts, e.2.state = .authorized → e.2.permit = none
  cancel : s.runState = .running ∨ s.runState = .cancelRequested → s.cancel = none

theorem Advance.reached {cancel : Option Record} {late : Bool} {r : Record} {aid : String} {k : Kind}
    {e : Option Attempt} {a : Attempt} {own : List (Int × String)}
    (h : Advance cancel late r aid k e a own)
    (he : ∀ x, e = some x → x.state = .authorized → x.permit = none) :
    a.state = .authorized → a.permit = none := by
  cases h with
  | auth _ _ => exact fun _ => rfl
  | permit _ _ _ _ _ _ _ => nofun
  | attempted _ _ _ _ _ _ _ => nofun
  | terminal _ _ _ _ _ _ => nofun
  | @allow x _ _ _ _ _ => exact he x rfl
  | @released x _ _ _ _ _ _ _ _ _ _ _ _ _ _ => exact he x rfl
  | @connectionTerminated x _ _ _ _ _ _ => exact he x rfl

theorem reached_step {s s' : Scan} {r : Record} (h : Reached s) (hstep : Accepts s r s') :
    Reached s' := by
  cases hstep with
  | attempt hk hrun hkill hadv hown =>
    refine ⟨Dict.nodup_set h.keys _ _, ?_, h.cancel⟩
    intro e he
    have hlook := Dict.lookup_of_mem (Dict.nodup_set h.keys _ _) he
    by_cases hid : e.1 = r.textOr "attempt_id"
    · rw [hid, Dict.lookup_set_self] at hlook
      cases hlook
      refine hadv.reached ?_
      intro x hx
      exact h.permit _ (Dict.mem_of_lookup hx)
    · rw [Dict.lookup_set_ne _ _ hid] at hlook
      exact h.permit _ (Dict.mem_of_lookup hlook)
  | startupDegraded _ _ _ _ => exact h
  | startupFailed _ _ _ _ => exact ⟨h.keys, h.permit, fun hc => by rcases hc with hc | hc <;> cases hc⟩
  | startup _ _ _ _ => exact ⟨h.keys, h.permit, h.cancel⟩
  | cancelRequested _ hrun => exact ⟨h.keys, h.permit, fun _ => h.cancel (Or.inl hrun)⟩
  | cancelLinearized _ _ _ _ _ _ _ _ _ _ =>
    exact ⟨h.keys, h.permit, fun hc => by rcases hc with hc | hc <;> cases hc⟩
  | killSwitch _ _ _ _ _ _ _ _ _ _ _ _ _ => exact ⟨h.keys, h.permit, h.cancel⟩
  | cancelAck _ _ _ _ _ _ => exact ⟨h.keys, h.permit, fun hc => by rcases hc with hc | hc <;> cases hc⟩
  | cancelDrainTimeout _ _ _ =>
    exact ⟨h.keys, h.permit, fun hc => by rcases hc with hc | hc <;> cases hc⟩
  | runClosed _ _ _ _ _ => exact ⟨h.keys, h.permit, fun hc => by rcases hc with hc | hc <;> cases hc⟩
  | blockedByPolicy _ _ _ => exact ⟨h.keys, h.permit, h.cancel⟩

theorem scan_reached {records : List Record} {i : Nat} {s : Scan}
    (h : scan .start i records = .ok s) : Reached s := by
  have hstart : Reached .start :=
    { keys := List.nodup_nil
      permit := fun _ he => absurd he List.not_mem_nil
      cancel := fun _ => rfl }
  exact scan_induct (P := fun _ s => Reached s) (W := fun _ => True) hstart
    (fun I _ h => reached_step I h) (fun _ _ => trivial) h

/-! ## One record, seen from its neighbour -/

/-- The state after a record of an attempt. -/
def Scan.enter (s : Scan) (aid : String) (a : Attempt) (own : List (Int × String)) : Scan :=
  { s with
    activeSeen := true
    sequences := s.sequences ++ own
    attempts := Dict.set s.attempts aid a }

/-- A record of an attempt, as the pieces of its step. -/
theorem accepts_attempt {s s' : Scan} {r : Record} {k : Kind} (h : Accepts s r s')
    (hk : r.kind? = some k) (hof : k.ofAttempt = true) :
    ∃ a own,
      (s.runState = .running ∨
        k ≠ .attempted ∧ (s.runState = .cancelRequested ∨ s.runState = .cancelLinearized)) ∧
      (k ≠ .attempted → s.kill = none) ∧
      Advance s.cancel (decide (s.runState ≠ .running)) r (r.textOr "attempt_id") k
        (s.attempts.lookup (r.textOr "attempt_id")) a own ∧
      (∀ e ∈ own, s.sequences.lookup e.1 = none) ∧
      s' = s.enter (r.textOr "attempt_id") a own := by
  cases h with
  | attempt hk' hrun hkill hadv hown =>
    cases hk'.symm.trans hk
    exact ⟨_, _, hrun, hkill, hadv, hown, rfl⟩
  | startupDegraded hk' | startupFailed hk' | startup hk' | cancelRequested hk' | cancelLinearized hk'
  | killSwitch hk' | cancelAck hk' | cancelDrainTimeout hk' | runClosed hk' | blockedByPolicy hk' =>
    cases hk'.symm.trans hk
    cases hof

theorem lookup_append_none {sequences own : List (Int × String)} {n : Int} :
    (sequences ++ own).lookup n = none ↔ sequences.lookup n = none ∧ own.lookup n = none := by
  rw [List.lookup_append, Option.or_eq_none_iff]

/-- Own numbers that are new beside others are new without them, and the others beside them. -/
theorem fresh_exchange {sequences own own' : List (Int × String)}
    (h : ∀ e ∈ own, sequences.lookup e.1 = none)
    (h' : ∀ e ∈ own', (sequences ++ own).lookup e.1 = none) :
    (∀ e ∈ own', sequences.lookup e.1 = none) ∧
      ∀ e ∈ own, (sequences ++ own').lookup e.1 = none := by
  refine ⟨fun e he => (lookup_append_none.1 (h' e he)).1, ?_⟩
  intro e he
  refine lookup_append_none.2 ⟨h e he, ?_⟩
  rw [Dict.lookup_eq_none_iff]
  intro hm
  obtain ⟨e', he', heq⟩ := List.mem_map.1 hm
  have hnone := (lookup_append_none.1 (h' e' he')).2
  rw [Dict.lookup_eq_none_iff, heq] at hnone
  exact hnone (List.mem_map.2 ⟨e, he, rfl⟩)

/-- The order of the last numbers does not matter. -/
theorem lookup_exchange {sequences own own' : List (Int × String)} (n : Int) :
    (sequences ++ own ++ own').lookup n = none ↔ (sequences ++ own' ++ own).lookup n = none := by
  simp only [lookup_append_none]
  tauto

/-! ## Two attempts -/

/-- **Records of different attempts may be exchanged.** -/
theorem swap_attempts {s s₁ s₂ : Scan} {r r' : Record} {k k' : Kind} (hs : Reached s)
    (h : Accepts s r s₁) (h' : Accepts s₁ r' s₂) (hk : r.kind? = some k) (hk' : r'.kind? = some k')
    (hof : k.ofAttempt = true) (hof' : k'.ofAttempt = true)
    (hne : r.textOr "attempt_id" ≠ r'.textOr "attempt_id") :
    ∃ t₁ t₂, Accepts s r' t₁ ∧ Accepts t₁ r t₂ ∧ Sim s₂ t₂ := by
  obtain ⟨a, own, hrun, hkill, hadv, hown, rfl⟩ := accepts_attempt h hk hof
  obtain ⟨a', own', hrun', hkill', hadv', hown', rfl⟩ := accepts_attempt h' hk' hof'
  have hlook' : (s.enter (r.textOr "attempt_id") a own).attempts.lookup (r'.textOr "attempt_id") =
      s.attempts.lookup (r'.textOr "attempt_id") := Dict.lookup_set_ne _ _ (Ne.symm hne)
  have hlook : (s.enter (r'.textOr "attempt_id") a' own').attempts.lookup (r.textOr "attempt_id") =
      s.attempts.lookup (r.textOr "attempt_id") := Dict.lookup_set_ne _ _ hne
  rw [hlook'] at hadv'
  rw [← hlook] at hadv
  obtain ⟨hfresh', hfresh⟩ := fresh_exchange hown hown'
  have hfirst : Accepts s r' (s.enter (r'.textOr "attempt_id") a' own') :=
    .attempt hk' hrun' hkill' hadv' hfresh'
  refine ⟨_, (s.enter (r'.textOr "attempt_id") a' own').enter (r.textOr "attempt_id") a own, hfirst,
    .attempt hk hrun hkill hadv hfresh, ?_⟩
  · refine ⟨Dict.nodup_set (Dict.nodup_set hs.keys _ _) _ _,
      Dict.nodup_set (Dict.nodup_set hs.keys _ _) _ _, ?_, fun n => lookup_exchange n, rfl, rfl, rfl,
      Match.refl _, Match.refl _, Match.refl _⟩
    intro aid
    show Option.Rel AttemptSim ((Dict.set (Dict.set s.attempts _ a) _ a').lookup aid)
      ((Dict.set (Dict.set s.attempts _ a') _ a).lookup aid)
    by_cases h1 : aid = r.textOr "attempt_id"
    · rw [Dict.lookup_set_ne _ _ (h1 ▸ hne), h1, Dict.lookup_set_self, Dict.lookup_set_self]
      exact .some (AttemptSim.refl _)
    · rw [Dict.lookup_set_ne (Dict.set s.attempts _ a') _ h1]
      by_cases h2 : aid = r'.textOr "attempt_id"
      · rw [h2, Dict.lookup_set_self, Dict.lookup_set_self]
        exact .some (AttemptSim.refl _)
      · rw [Dict.lookup_set_ne _ _ h2, Dict.lookup_set_ne _ _ h2, Dict.lookup_set_ne _ _ h1]
        cases s.attempts.lookup aid with
        | none => exact .none
        | some x => exact .some (AttemptSim.refl x)

/-! ## A cancellation record and a record of the drain -/

/-- Only an intent depends on whether it is late, and only an intent and a permit on the
cancellation. -/
theorem Advance.retime {c c' : Option Record} {late late' : Bool} {r : Record} {aid : String} {k : Kind}
    {e : Option Attempt} {a : Attempt} {own : List (Int × String)}
    (h : Advance c late r aid k e a own) (hne : k ≠ .auth)
    (hpermit : k = .permit → ∀ seq, r.get? "lifecycle_seq" = some (.int seq) → BeforeCancel c' seq r) :
    Advance c' late' r aid k e a own := by
  cases h with
  | auth _ _ => exact absurd rfl hne
  | permit hstate hlate hfields hseq hauth hlt _ =>
    exact .permit hstate hlate hfields hseq hauth hlt (hpermit rfl _ hseq)
  | attempted hstate hp hseq hconn hepoch hip hport =>
    exact .attempted hstate hp hseq hconn hepoch hip hport
  | terminal hk hlegal hconn hepoch hp hnone => exact .terminal hk hlegal hconn hepoch hp hnone
  | allow ht hend hnew hbinds => exact .allow ht hend hnew hbinds
  | released hp ht hallow hnew hconn hepoch hbind hseq hp' hlt =>
    exact .released hp ht hallow hnew hconn hepoch hbind hseq hp' hlt
  | connectionTerminated ht hend hatt hnew hbinds =>
    exact .connectionTerminated ht hend hatt hnew hbinds

theorem Advance.beforeCancel {c : Option Record} {late : Bool} {r : Record} {aid : String}
    {e : Option Attempt} {a : Attempt} {own : List (Int × String)} {n : Int}
    (h : Advance c late r aid .permit e a own) (hn : r.get? "lifecycle_seq" = some (.int n)) :
    BeforeCancel c n r := by
  cases h with
  | permit _ _ _ hseq _ _ hcancel =>
    rw [hn] at hseq
    cases hseq
    exact hcancel
  | terminal hk _ _ _ _ _ => cases hk

/-- What a record of the drain does to its entry: the intent stays, and the permit, unless it is
the record itself. -/
theorem Advance.entry {c : Option Record} {late : Bool} {r : Record} {aid : String} {k : Kind}
    {e : Option Attempt} {a : Attempt} {own : List (Int × String)}
    (h : Advance c late r aid k e a own) (hne : k ≠ .auth) :
    ∃ x, e = some x ∧ a.auth = x.auth ∧
      (k ≠ .permit ∧ a.permit = x.permit ∨
        k = .permit ∧ a.permit = some r ∧ x.state = .authorized ∧ Agree r "epoch" x.auth "epoch" ∧
          ∃ n, r.get? "lifecycle_seq" = some (.int n)) := by
  cases h with
  | auth _ _ => exact absurd rfl hne
  | permit hstate hlate hfields hseq hauth hlt _ =>
    exact ⟨_, rfl, rfl, Or.inr ⟨rfl, rfl, hstate, hfields "epoch" (by decide), _, hseq⟩⟩
  | attempted _ _ _ _ _ _ _ => exact ⟨_, rfl, rfl, Or.inl ⟨by decide, rfl⟩⟩
  | terminal hk _ _ _ _ _ =>
    refine ⟨_, rfl, rfl, Or.inl ⟨?_, rfl⟩⟩
    rintro rfl
    cases hk
  | allow _ _ _ _ => exact ⟨_, rfl, rfl, Or.inl ⟨by decide, rfl⟩⟩
  | released _ _ _ _ _ _ _ _ _ _ => exact ⟨_, rfl, rfl, Or.inl ⟨by decide, rfl⟩⟩
  | connectionTerminated _ _ _ _ _ => exact ⟨_, rfl, rfl, Or.inl ⟨by decide, rfl⟩⟩

/-- The state after the request. -/
def Scan.request (s : Scan) (c : Record) : Scan :=
  { s with activeSeen := true, cancelRequest := some c, runState := .cancelRequested }

/-- The state after the linearization. -/
def Scan.linearize (s : Scan) (c : Record) (seq : Int) : Scan :=
  { s with
    activeSeen := true
    sequences := s.sequences ++ [(seq, "cancellation")]
    cancel := some c
    runState := .cancelLinearized }

/-- The state after a denial. -/
def Scan.block (s : Scan) : Scan := { s with activeSeen := true }

theorem accepts_request {s s' : Scan} {c : Record} (h : Accepts s c s')
    (hk : c.kind? = some .cancelRequested) : s.runState = .running ∧ s' = s.request c := by
  cases h with
  | cancelRequested _ hrun => exact ⟨hrun, rfl⟩
  | attempt hk' _ _ hadv _ =>
    cases hk'.symm.trans hk
    cases hadv.ofAttempt
  | _ => simp_all

theorem accepts_blocked {s s' : Scan} {r : Record} (h : Accepts s r s')
    (hk : r.kind? = some .blockedByPolicy) :
    (s.runState = .running ∨ s.runState = .cancelRequested ∨ s.runState = .cancelLinearized) ∧
      s.kill = none ∧ s' = s.block := by
  cases h with
  | blockedByPolicy _ hrun hkill => exact ⟨hrun, hkill, rfl⟩
  | attempt hk' _ _ hadv _ =>
    cases hk'.symm.trans hk
    cases hadv.ofAttempt
  | _ => simp_all

/-- What the linearization has checked. -/
structure Linearizes (s : Scan) (c : Record) (seq : Int) : Prop where
  runState : s.runState = .cancelRequested
  number : c.get? "lifecycle_seq" = some (.int seq)
  epochs : ∃ epoch : Int, c.get? "cancelled_epoch" = some (.int epoch) ∧
    c.get? "new_epoch" = some (.int (epoch + 1))
  request : ∃ request, s.cancelRequest = some request ∧ Agree request "lifecycle_seq" c "lifecycle_seq" ∧
    Agree request "cancellation_epoch" c "new_epoch"
  fresh : s.sequences.lookup seq = none
  attempts : ∀ e ∈ s.attempts, BeforeLinearized c seq e.2

theorem Linearizes.accepts {s : Scan} {c : Record} {seq : Int} (h : Linearizes s c seq)
    (hk : c.kind? = some .cancelLinearized) : Accepts s c (s.linearize c seq) := by
  obtain ⟨epoch, hcancelled, hnew⟩ := h.epochs
  obtain ⟨request, hreq, hbind, hepoch⟩ := h.request
  exact .cancelLinearized hk h.runState hreq h.number hcancelled hnew hbind hepoch h.fresh h.attempts

theorem accepts_linearized {s s' : Scan} {c : Record} (h : Accepts s c s')
    (hk : c.kind? = some .cancelLinearized) : ∃ seq, Linearizes s c seq ∧ s' = s.linearize c seq := by
  cases h with
  | cancelLinearized _ hrun hreq hseq hcancelled hnew hbind hepoch hfresh hall =>
    exact ⟨_, ⟨hrun, hseq, ⟨_, hcancelled, hnew⟩, ⟨_, hreq, hbind, hepoch⟩, hfresh, hall⟩, rfl⟩
  | attempt hk' _ _ hadv _ =>
    cases hk'.symm.trans hk
    cases hadv.ofAttempt
  | _ => simp_all

/-- Two records are accepted in the other order, with the same effect. -/
def Exchanges (s : Scan) (r r' : Record) (s₂ : Scan) : Prop :=
  ∃ t₁ t₂, Accepts s r' t₁ ∧ Accepts t₁ r t₂ ∧ Sim s₂ t₂

section

variable {s s₁ s₂ : Scan} {c r : Record} {k : Kind} (hs : Reached s) (hr : r.kind? = some k)
  (hof : k.ofAttempt = true) (hauth : k ≠ .auth)

include hs hr hof hauth

theorem swap_request_attempt (hc : c.kind? = some .cancelRequested) (h : Accepts s c s₁)
    (h' : Accepts s₁ r s₂) : Exchanges s c r s₂ := by
  obtain ⟨hrunning, rfl⟩ := accepts_request h hc
  obtain ⟨a, own, -, hkill, hadv, hown, rfl⟩ := accepts_attempt h' hr hof
  have hnone := hs.cancel (Or.inl hrunning)
  have hadv' : Advance s.cancel (decide (s.runState ≠ .running)) r (r.textOr "attempt_id") k
      (s.attempts.lookup (r.textOr "attempt_id")) a own := by
    refine hadv.retime hauth fun _ seq _ => ?_
    rw [hnone]
    nofun
  have hfirst : Accepts s r (s.enter (r.textOr "attempt_id") a own) :=
    .attempt hr (Or.inl hrunning) hkill hadv' hown
  exact ⟨_, _, hfirst, .cancelRequested hc hrunning, Sim.refl (Dict.nodup_set hs.keys _ _)⟩

theorem swap_attempt_request (hatt : k ≠ .attempted) (hc : c.kind? = some .cancelRequested)
    (h : Accepts s r s₁) (h' : Accepts s₁ c s₂) : Exchanges s r c s₂ := by
  obtain ⟨a, own, -, hkill, hadv, hown, rfl⟩ := accepts_attempt h hr hof
  obtain ⟨hrunning, rfl⟩ := accepts_request h' hc
  have hnone := hs.cancel (Or.inl hrunning)
  have hadv' : Advance (s.request c).cancel (decide ((s.request c).runState ≠ .running)) r
      (r.textOr "attempt_id") k ((s.request c).attempts.lookup (r.textOr "attempt_id")) a own := by
    refine hadv.retime hauth fun _ seq _ => ?_
    show BeforeCancel s.cancel seq r
    rw [hnone]
    nofun
  have hsecond : Accepts (s.request c) r ((s.request c).enter (r.textOr "attempt_id") a own) :=
    .attempt hr (Or.inr ⟨hatt, Or.inl rfl⟩) hkill hadv' hown
  exact ⟨_, _, .cancelRequested hc hrunning, hsecond, Sim.refl (Dict.nodup_set hs.keys _ _)⟩

omit hs hr hof in
/-- The entries after a record of the drain precede the cancellation exactly if those before it do,
and the record does where it is a permit. -/
theorem beforeLinearized_enter {cancel : Option Record} {late : Bool} {a : Attempt}
    {own : List (Int × String)} {seq : Int} (hs : Reached s)
    (hadv : Advance cancel late r (r.textOr "attempt_id") k
      (s.attempts.lookup (r.textOr "attempt_id")) a own)
    (hnum : c.get? "lifecycle_seq" = some (.int seq)) :
    (∀ e ∈ (s.enter (r.textOr "attempt_id") a own).attempts, BeforeLinearized c seq e.2) ↔
      (∀ e ∈ s.attempts, BeforeLinearized c seq e.2) ∧
        (k = .permit → ∀ n, r.get? "lifecycle_seq" = some (.int n) → BeforeCancel (some c) n r) := by
  obtain ⟨x, hx, hax, hpermit⟩ := hadv.entry hauth
  have hxmem := Dict.mem_of_lookup hx
  have hnodup := Dict.nodup_set hs.keys (r.textOr "attempt_id") a
  constructor
  · intro hall
    have hself := hall (r.textOr "attempt_id", a) (Dict.mem_of_lookup (Dict.lookup_set_self _ _ _))
    refine ⟨?_, ?_⟩
    · intro e he
      by_cases hid : e.1 = r.textOr "attempt_id"
      · have hex : e.2 = x := by
          have := Dict.lookup_of_mem hs.keys he
          rw [hid, hx] at this
          exact (Option.some.inj this).symm
        rw [hex]
        refine ⟨hax ▸ hself.epoch, hax ▸ hself.authSeq, ?_⟩
        intro p hp
        rcases hpermit with ⟨-, hsame⟩ | ⟨-, -, hstate, -⟩
        · exact hself.permitSeq p (hsame.trans hp)
        · -- an authorized attempt has no permit yet
          rw [hs.permit _ hxmem hstate] at hp
          cases hp
      · refine hall e (Dict.mem_of_lookup ?_)
        exact (Dict.lookup_set_ne _ _ hid).trans (Dict.lookup_of_mem hs.keys he)
    · intro hk n hn d hd
      cases hd
      rcases hpermit with ⟨hne, -⟩ | ⟨-, hnew, -, hepoch, -⟩
      · exact absurd hk hne
      · obtain ⟨m, hm, hlt⟩ := hself.permitSeq r hnew
        rw [hn] at hm
        cases hm
        refine ⟨⟨seq, hnum, hlt⟩, ?_⟩
        obtain ⟨v, hv, hv'⟩ := hepoch
        obtain ⟨w, hw, hw'⟩ := hself.epoch
        rw [hax, hv'] at hw
        cases hw
        exact ⟨v, hv, hw'⟩
  · rintro ⟨hall, hbefore⟩ e he
    have hlook := Dict.lookup_of_mem hnodup he
    by_cases hid : e.1 = r.textOr "attempt_id"
    · rw [hid, Dict.lookup_set_self] at hlook
      obtain rfl := Option.some.inj hlook
      have hold := hall _ hxmem
      refine ⟨hax ▸ hold.epoch, hax ▸ hold.authSeq, ?_⟩
      intro p hp
      rcases hpermit with ⟨-, hsame⟩ | ⟨hk, hnew, -, -, n, hn⟩
      · exact hold.permitSeq p (hsame.symm.trans hp)
      · rw [hnew] at hp
        cases hp
        obtain ⟨⟨m, hm, hlt⟩, -⟩ := hbefore hk n hn c rfl
        rw [hnum] at hm
        cases hm
        exact ⟨n, hn, hlt⟩
    · rw [Dict.lookup_set_ne _ _ hid] at hlook
      exact hall e (Dict.mem_of_lookup hlook)

theorem swap_linearized_attempt (hatt : k ≠ .attempted) (hc : c.kind? = some .cancelLinearized)
    (h : Accepts s c s₁) (h' : Accepts s₁ r s₂) : Exchanges s c r s₂ := by
  obtain ⟨seq, hlin, rfl⟩ := accepts_linearized h hc
  obtain ⟨a, own, -, hkill, hadv, hown, rfl⟩ := accepts_attempt h' hr hof
  have hnone := hs.cancel (Or.inr hlin.runState)
  have hadv' : Advance s.cancel (decide (s.runState ≠ .running)) r (r.textOr "attempt_id") k
      (s.attempts.lookup (r.textOr "attempt_id")) a own := by
    refine hadv.retime hauth fun _ seq _ => ?_
    rw [hnone]
    nofun
  have hseq : ∀ e ∈ [(seq, "cancellation")], s.sequences.lookup e.1 = none := by
    intro e he
    rw [List.mem_singleton.1 he]
    exact hlin.fresh
  obtain ⟨hfresh, hfresh'⟩ := fresh_exchange hseq hown
  have hfirst : Accepts s r (s.enter (r.textOr "attempt_id") a own) :=
    .attempt hr (Or.inr ⟨hatt, Or.inl hlin.runState⟩) hkill hadv' hfresh
  have hbefore : k = .permit → ∀ n, r.get? "lifecycle_seq" = some (.int n) →
      BeforeCancel (some c) n r := by
    rintro rfl n hn
    have hcancel : BeforeCancel (s.linearize c seq).cancel n r := hadv.beforeCancel hn
    exact hcancel
  have hsecond : Linearizes (s.enter (r.textOr "attempt_id") a own) c seq :=
    { hlin with
      fresh := hfresh' (seq, "cancellation") List.mem_cons_self
      attempts := (beforeLinearized_enter hauth hs hadv' hlin.number).2 ⟨hlin.attempts, hbefore⟩ }
  refine ⟨_, _, hfirst, hsecond.accepts hc, ?_⟩
  have hsim := Sim.refl (s := (s.linearize c seq).enter (r.textOr "attempt_id") a own)
    (Dict.nodup_set hs.keys _ _)
  exact { hsim with sequences := fun n => lookup_exchange n }

theorem swap_attempt_linearized (hatt : k ≠ .attempted) (hc : c.kind? = some .cancelLinearized)
    (h : Accepts s r s₁) (h' : Accepts s₁ c s₂) : Exchanges s r c s₂ := by
  obtain ⟨a, own, -, hkill, hadv, hown, rfl⟩ := accepts_attempt h hr hof
  obtain ⟨seq, hlin, rfl⟩ := accepts_linearized h' hc
  have hseq : ∀ e ∈ [(seq, "cancellation")], (s.sequences ++ own).lookup e.1 = none := by
    intro e he
    rw [List.mem_singleton.1 he]
    exact hlin.fresh
  obtain ⟨hfresh, hfresh'⟩ := fresh_exchange hown hseq
  obtain ⟨hall, hbefore⟩ := (beforeLinearized_enter hauth hs hadv hlin.number).1 hlin.attempts
  have hfirst : Linearizes s c seq :=
    { hlin with
      fresh := hfresh (seq, "cancellation") List.mem_cons_self
      attempts := hall }
  have hadv' : Advance (s.linearize c seq).cancel (decide ((s.linearize c seq).runState ≠ .running)) r
      (r.textOr "attempt_id") k ((s.linearize c seq).attempts.lookup (r.textOr "attempt_id")) a own :=
    hadv.retime hauth fun hk n hn => hbefore hk n hn
  have hsecond : Accepts (s.linearize c seq) r ((s.linearize c seq).enter (r.textOr "attempt_id") a own) :=
    .attempt hr (Or.inr ⟨hatt, Or.inr rfl⟩) hkill hadv' hfresh'
  refine ⟨_, _, hfirst.accepts hc, hsecond, ?_⟩
  have hsim := Sim.refl (s := (s.linearize c seq).enter (r.textOr "attempt_id") a own)
    (Dict.nodup_set hs.keys _ _)
  exact { hsim with sequences := fun n => lookup_exchange n }

end

section

variable {s s₁ s₂ : Scan} {c r : Record} (hs : Reached s) (hr : r.kind? = some .blockedByPolicy)
  (hc : c.kind? = some .cancelRequested ∨ c.kind? = some .cancelLinearized)

include hs hr hc

theorem swap_cancel_blocked (h : Accepts s c s₁) (h' : Accepts s₁ r s₂) : Exchanges s c r s₂ := by
  obtain ⟨-, hkill, rfl⟩ := accepts_blocked h' hr
  rcases hc with hc | hc
  · obtain ⟨hrun, rfl⟩ := accepts_request h hc
    have hfirst : Accepts s r s.block := .blockedByPolicy hr (Or.inl hrun) hkill
    exact ⟨_, _, hfirst, .cancelRequested hc hrun, Sim.refl hs.keys⟩
  · obtain ⟨seq, hlin, rfl⟩ := accepts_linearized h hc
    have hfirst : Accepts s r s.block := .blockedByPolicy hr (Or.inr (Or.inl hlin.runState)) hkill
    have hsecond : Linearizes s.block c seq := { hlin with }
    exact ⟨_, _, hfirst, hsecond.accepts hc, Sim.refl hs.keys⟩

theorem swap_blocked_cancel (h : Accepts s r s₁) (h' : Accepts s₁ c s₂) : Exchanges s r c s₂ := by
  obtain ⟨-, hkill, rfl⟩ := accepts_blocked h hr
  rcases hc with hc | hc
  · obtain ⟨hrun, rfl⟩ := accepts_request h' hc
    have hsecond : Accepts (s.request c) r (s.request c).block :=
      .blockedByPolicy hr (Or.inr (Or.inl rfl)) hkill
    exact ⟨_, _, .cancelRequested hc hrun, hsecond, Sim.refl hs.keys⟩
  · obtain ⟨seq, hlin, rfl⟩ := accepts_linearized h' hc
    have hfirst : Linearizes s c seq := { hlin with }
    have hsecond : Accepts (s.linearize c seq) r (s.linearize c seq).block :=
      .blockedByPolicy hr (Or.inr (Or.inr rfl)) hkill
    exact ⟨_, _, hfirst.accepts hc, hsecond, Sim.refl hs.keys⟩

end

/-! ## Exchangeable neighbours -/

/-- Neighbours whose order does not matter: records of two attempts, or a cancellation record and a
record of the drain. -/
inductive Exchangeable (r r' : Record) : Prop where
  | attempts {k k' : Kind} (hk : r.kind? = some k) (hk' : r'.kind? = some k')
      (hof : k.ofAttempt = true) (hof' : k'.ofAttempt = true)
      (hne : r.get? "attempt_id" ≠ r'.get? "attempt_id") : Exchangeable r r'
  | cancelFirst {k : Kind} (hc : r.kind? = some .cancelRequested ∨ r.kind? = some .cancelLinearized)
      (hk : r'.kind? = some k) (hd : k.drains = true) : Exchangeable r r'
  | cancelLast {k : Kind} (hk : r.kind? = some k) (hd : k.drains = true)
      (hc : r'.kind? = some .cancelRequested ∨ r'.kind? = some .cancelLinearized) : Exchangeable r r'

theorem Exchangeable.symm {r r' : Record} (h : Exchangeable r r') : Exchangeable r' r := by
  cases h with
  | attempts hk hk' hof hof' hne => exact .attempts hk' hk hof' hof (Ne.symm hne)
  | cancelFirst hc hk hd => exact .cancelLast hk hd hc
  | cancelLast hk hd hc => exact .cancelFirst hc hk hd

theorem drains_iff {k : Kind} : k.drains = true ↔
    k = .blockedByPolicy ∨ k.ofAttempt = true ∧ k ≠ .auth ∧ k ≠ .attempted := by
  cases k <;> decide

/-- No exchangeable record is a drain timeout. -/
theorem Exchangeable.notTimeout {r r' : Record} (h : Exchangeable r r') :
    r.kind? ≠ some .cancelDrainTimeout := by
  intro hk
  cases h with
  | attempts hk' _ hof _ _ =>
    cases hk.symm.trans hk'
    cases hof
  | cancelFirst hc _ _ =>
    rcases hc with hc | hc <;> cases hk.symm.trans hc
  | cancelLast hk' hd _ =>
    cases hk.symm.trans hk'
    cases hd

/-- But for a drain timeout, the checks that leave no trace do not read the state. -/
theorem Clean.anywhere {s : Scan} {r : Record} (h : Clean s r) (hk : r.kind? ≠ some .cancelDrainTimeout)
    (t : Scan) : Clean t r :=
  { h with timeout := fun ht => absurd ht hk }

theorem exchange {s s₁ s₂ : Scan} {r r' : Record} (hs : Reached s) (hx : Exchangeable r r')
    (hw : ∃ k, WellFormed k r) (hw' : ∃ k, WellFormed k r') (h : Accepts s r s₁)
    (h' : Accepts s₁ r' s₂) : Exchanges s r r' s₂ := by
  cases hx with
  | attempts hk hk' hof hof' hne =>
    obtain ⟨j, w⟩ := hw
    obtain ⟨j', w'⟩ := hw'
    cases w.decision.symm.trans hk
    cases w'.decision.symm.trans hk'
    refine swap_attempts hs h h' hk hk' hof hof' ?_
    intro he
    have hid := w.attemptId
    have hid' := w'.attemptId
    rw [if_pos hof] at hid
    rw [if_pos hof'] at hid'
    rw [hid, hid', he] at hne
    exact hne rfl
  | cancelFirst hc hk hd =>
    rcases drains_iff.1 hd with rfl | ⟨hof, hauth, hatt⟩
    · exact swap_cancel_blocked hs hk hc h h'
    · rcases hc with hc | hc
      · exact swap_request_attempt hs hk hof hauth hc h h'
      · exact swap_linearized_attempt hs hk hof hauth hatt hc h h'
  | cancelLast hk hd hc =>
    rcases drains_iff.1 hd with rfl | ⟨hof, hauth, hatt⟩
    · exact swap_blocked_cancel hs hk hc h h'
    · rcases hc with hc | hc
      · exact swap_attempt_request hs hk hof hauth hatt hc h h'
      · exact swap_attempt_linearized hs hk hof hauth hatt hc h h'

/-- **Exchangeable neighbours may be exchanged.** -/
theorem swap_step {s s₁ s₂ : Scan} {r r' : Record} {i j : Nat} (hs : Reached s)
    (hx : Exchangeable r r') (hw : ∃ k, WellFormed k r) (hw' : ∃ k, WellFormed k r')
    (h : step s i r = .ok s₁) (h' : step s₁ j r' = .ok s₂) :
    ∃ t₁ t₂, step s i r' = .ok t₁ ∧ step t₁ j r = .ok t₂ ∧ Sim s₂ t₂ := by
  obtain ⟨hacc, hclean⟩ := step_iff.1 h
  obtain ⟨hacc', hclean'⟩ := step_iff.1 h'
  obtain ⟨t₁, t₂, h1, h2, hsim⟩ := exchange hs hx hw hw' hacc hacc'
  exact ⟨t₁, t₂, step_iff.2 ⟨h1, hclean'.anywhere hx.symm.notTimeout s⟩,
    step_iff.2 ⟨h2, hclean.anywhere hx.notTimeout t₁⟩, hsim⟩

theorem scan_append {s t : Scan} {i : Nat} {xs ys : List Record} :
    scan s i (xs ++ ys) = .ok t ↔ ∃ u, scan s i xs = .ok u ∧ scan u (i + xs.length) ys = .ok t := by
  induction xs generalizing s i with
  | nil =>
    simp only [List.nil_append, List.length_nil, Nat.add_zero, scan]
    refine ⟨fun h => ⟨s, rfl, h⟩, ?_⟩
    rintro ⟨u, hu, h⟩
    cases hu
    exact h
  | cons x xs ih =>
    simp only [List.cons_append, scan, bind_ok, ih, List.length_cons]
    constructor
    · rintro ⟨a, ha, u, hu, h⟩
      exact ⟨u, ⟨a, ha, hu⟩, by rwa [Nat.add_assoc, Nat.add_comm 1] at h⟩
    · rintro ⟨u, ⟨a, ha, hu⟩, h⟩
      exact ⟨a, ha, u, hu, by rwa [Nat.add_assoc, Nat.add_comm 1]⟩

theorem swap_accepted {pre post : List Record} {r r' : Record} {s : Scan} (hx : Exchangeable r r')
    (h : Accepted (pre ++ r :: r' :: post) s) : ∃ t, Accepted (pre ++ r' :: r :: post) t := by
  have hr : r ∈ pre ++ r :: r' :: post := by simp
  have hr' : r' ∈ pre ++ r :: r' :: post := by simp
  obtain ⟨u, hpre, hrest⟩ := scan_append.1 h.scanned
  simp only [scan, bind_ok] at hrest
  obtain ⟨s₁, h1, s₂, h2, hpost⟩ := hrest
  obtain ⟨t₁, t₂, h1', h2', hsim⟩ :=
    swap_step (scan_reached hpre) hx (h.schema r hr) (h.schema r' hr') h1 h2
  have hcore : List.Forall₂ Core post post := List.forall₂_same.2 fun r _ => Core.refl r
  obtain ⟨t, hpost', hsim'⟩ := scan_sim hpost hsim hcore _
  refine ⟨t, h.sim hsim' (scan_append.2 ⟨u, hpre, ?_⟩) ?_⟩
  · simp only [scan, bind_ok]
    exact ⟨t₁, h1', t₂, h2', hpost'⟩
  · intro g hg
    refine h.schema g ?_
    simp only [List.mem_append, List.mem_cons] at hg ⊢
    tauto

theorem swap_accepts {pre post : List Record} {r r' : Record} {runId : String}
    (hx : Exchangeable r r') (h : accepts (pre ++ r :: r' :: post) runId = true) :
    accepts (pre ++ r' :: r :: post) runId = true := by
  obtain ⟨hid, hruns, s, hs⟩ := accepts_iff.1 h
  refine accepts_iff.2 ⟨hid, ?_, swap_accepted hx hs⟩
  intro g hg
  refine hruns g ?_
  simp only [List.mem_append, List.mem_cons] at hg ⊢
  tauto

theorem forall₂_swap {pre pre' post post' : List Record} {r r' q q' : Record}
    (hpre : List.Forall₂ Restamped pre pre') (hr : Restamped r q) (hr' : Restamped r' q')
    (hpost : List.Forall₂ Restamped post post') :
    List.Forall₂ Restamped (pre ++ r' :: r :: post) (pre' ++ q' :: q :: post') :=
  List.rel_append hpre (.cons hr' (.cons hr hpost))

/-- **Append order.** Exchanging two neighbours of different attempts, or a cancellation record and
a record of the drain, does not change whether a history is accepted, whatever well-formed chain
metadata the records get in their new places. -/
theorem append_order {pre pre' post post' : List Record} {r r' q q' : Record} (runId : String)
    (hx : Exchangeable r r') (hpre : List.Forall₂ Restamped pre pre') (hr : Restamped r q)
    (hr' : Restamped r' q') (hpost : List.Forall₂ Restamped post post') :
    accepts (pre ++ r :: r' :: post) runId = accepts (pre' ++ q' :: q :: post') runId := by
  have hstamp := forall₂_swap hpre hr hr' hpost
  rw [Bool.eq_iff_iff]
  constructor
  · intro h
    exact accepts_restamp hstamp (swap_accepts hx h)
  · intro h
    exact swap_accepts hx.symm (accepts_restamp (restamped_symm hstamp) h)

namespace Sample

/-- The outcome of the sample's attempt may precede the linearization of the cancellation. -/
def drained : List Record :=
  history.take 5 ++ history[6] :: history[5] :: history.drop 7

end Sample

theorem append_order_sample :
    Exchangeable Sample.history[5] Sample.history[6] ∧ accepts Sample.drained "run-1" = true := by
  have hx : Exchangeable Sample.history[5] Sample.history[6] :=
    .cancelFirst (Or.inr rfl) (k := .unknown) rfl rfl
  have hsame : ∀ w : List Record, List.Forall₂ Restamped w w :=
    fun w => List.forall₂_same.2 fun r _ => Restamped.refl r
  have hsplit : Sample.history.take 5 ++ Sample.history[5] :: Sample.history[6] ::
      Sample.history.drop 7 = Sample.history := by
    rw [← List.drop_eq_getElem_cons, ← List.drop_eq_getElem_cons, List.take_append_drop]
  have h := append_order "run-1" hx (hsame (Sample.history.take 5)) (Restamped.refl _)
    (Restamped.refl _) (hsame (Sample.history.drop 7))
  rw [hsplit, Sample.history_accepted] at h
  exact ⟨hx, h.symm⟩

end VerifyE10

end StrixPEP
