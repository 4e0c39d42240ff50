import StrixPEP.Lib.Trails
import StrixPEP.Gateway.Handler

/-!
# What a handler has asked when it connects

A handler asks for a slot, consults the PDP three times, reads one request from its client, asks for a
permit and connects once, in `do_CONNECT`, `_connect_flow`, `_inside` and what they call.

* `consultations` — these calls, in a run;
* `Aside` — the programs that make none of them.
-/

namespace StrixPEP

open Threads GProg Fields

/-- A request for a slot, a call of `pdp.decide`, `_read_head`, `issue_permit` or `plain.connect`. -/
def Cmd.consults : Cmd → Bool
  | .acquireSlot | .env (.decide _) | .env .recvHead | .issuePermit _ _ _ _ _ | .connect _ _ _ => true
  | _ => false

/-- The calls for a slot, of `pdp.decide`, `_read_head`, `issue_permit` and `plain.connect` with what they
returned. -/
def consultations (tr : List (Sigma Cmd.Resp)) : List (Sigma Cmd.Resp) := tr.filter fun x => x.1.consults

/-- A program that makes none of these calls. -/
def Aside {α : Type} (p : GProg α) : Prop := p.Issues fun c => c.consults = false

section Rules

variable {α β : Type} {p : GProg α} {tr : List (Sigma Cmd.Resp)} {out : Except Exn α}

@[simp] theorem consultations_nil : consultations [] = [] := rfl

theorem consultations_append (t₁ t₂ : List (Sigma Cmd.Resp)) :
    consultations (t₁ ++ t₂) = consultations t₁ ++ consultations t₂ := List.filter_append ..

theorem consultations_aside {c : Cmd} {r : c.Resp} (h : c.consults = false) :
    consultations (⟨c, r⟩ :: tr) = consultations tr := List.filter_cons_of_neg (by simp [h])

theorem consultations_call {c : Cmd} {r : c.Resp} (h : c.consults = true) :
    consultations (⟨c, r⟩ :: tr) = ⟨c, r⟩ :: consultations tr := List.filter_cons_of_pos h

theorem Aside.path (hp : Aside p) (h : p.Path tr out) : consultations tr = [] :=
  List.filter_eq_nil_iff.2 fun x hx => by simp [Prog.Issues.of_path hp h x hx]

theorem Aside.not_connects (hp : Aside p) {a c : String} {pin : Pin} :
    ¬ p.Reaches tr (.connect a c pin) := by
  intro h
  cases (Prog.Issues.of_reaches hp h).1

theorem aside_bind {f : α → GProg β} (hp : Aside p) (hf : ∀ a, Aside (f a)) : Aside (p >>= f) :=
  Prog.issues_bind hp hf

theorem aside_issue {c : Cmd} (h : c.consults = false) : Aside (issue c) := Prog.issues_perform h

theorem aside_pure (a : α) : Aside (pure a) := trivial

theorem aside_fail (e : Exn) : Aside (fail e : GProg α) := trivial

theorem aside_tryCatch {h : Exn → GProg α} (hp : Aside p) (hh : ∀ e, Aside (h e)) :
    Aside (p.tryCatch h) :=
  Prog.issues_tryCatch hp hh

theorem aside_ask {q : Query} (h : (Cmd.env q).consults = false) : Aside (ask q) := by
  refine aside_bind (aside_issue h) fun r => ?_
  cases r with
  | ok a => exact aside_pure a
  | error e => exact aside_fail e

theorem aside_respond : Aside respond := aside_bind (aside_issue rfl) fun _ => aside_pure ()

theorem aside_raised (o : Outcome) : Aside (raised o) := by
  cases o <;> trivial

theorem aside_auditWrite (e : Entry) : Aside (auditWrite e) := aside_bind (aside_issue rfl) aside_raised

theorem aside_onNet (p : NetProg α) : Aside (onNet p) := by
  induction p with
  | ret a => trivial
  | raise e => exact nomatch e
  | cmd c k ih => exact ⟨rfl, ih⟩

/-- After a part that makes none of the calls, the calls are those of the rest. -/
theorem Aside.connects {f : α → GProg β} {a c : String} {pin : Pin} (hp : Aside p)
    (h : (p >>= f).Reaches tr (.connect a c pin)) :
    ∃ v t, (f v).Reaches t (.connect a c pin) ∧ consultations tr = consultations t := by
  rcases Prog.reaches_bind.1 h with h | ⟨v, t₁, t₂, rfl, h₁, h₂⟩
  · exact absurd h hp.not_connects
  · refine ⟨v, t₂, h₂, ?_⟩
    rw [consultations_append, hp.path h₁, List.nil_append]

/-- `try` with a handler that makes none of the calls connects in its body. -/
theorem Aside.connects_tryCatch {h : Exn → GProg α} {a c : String} {pin : Pin} (hh : ∀ e, Aside (h e))
    (hr : (p.tryCatch h).Reaches tr (.connect a c pin)) : p.Reaches tr (.connect a c pin) := by
  rcases Prog.reaches_tryCatch.1 hr with hr | ⟨e, t₁, t₂, -, -, hr⟩
  · exact hr
  · exact absurd hr (hh e).not_connects

/-- So does `try` with such a `finally`. -/
theorem Aside.connects_tryFinally {q : GProg Unit} {a c : String} {pin : Pin} (hq : Aside q)
    (hr : (p.tryFinally q).Reaches tr (.connect a c pin)) : p.Reaches tr (.connect a c pin) := by
  rcases Prog.reaches_tryFinally hr with hr | ⟨body, t₁, t₂, -, -, hr⟩
  · exact hr
  · exact absurd hr hq.not_connects

end Rules

/-! ## What makes none of the calls -/

theorem EffectPermit.aside_release (permit : EffectPermit) : Aside permit.release := by
  refine aside_bind (aside_issue rfl) fun (entered : RunState.ReleaseEntry) => ?_
  cases entered with
  | again failed t =>
    cases failed
    · exact aside_pure ()
    · exact aside_fail _
  | silent t => exact aside_pure ()
  | write t c =>
    refine aside_bind (aside_tryCatch ?_ fun _ => aside_pure false) fun ok => ?_
    · exact aside_bind (aside_auditWrite _) fun _ => aside_pure true
    refine aside_bind (aside_issue rfl) fun _ => ?_
    cases ok
    · exact aside_fail _
    · exact aside_pure ()

namespace EffectGate

theorem aside_commitIntent (gate : EffectGate) (intent : Intent) : Aside (gate.commitIntent intent) := by
  refine aside_bind (aside_issue rfl) fun (healthy : Bool) => ?_
  cases healthy with
  | false => exact aside_fail _
  | true =>
    refine aside_bind (aside_issue rfl) fun (sequence : Option Nat) => ?_
    cases sequence with
    | none => exact aside_fail _
    | some seq =>
      exact aside_bind (aside_tryCatch (aside_auditWrite _) fun _ => aside_fail _) fun _ => aside_pure _

theorem aside_markAttempted (permit : EffectPermit) (c : String) (pin : Pin) :
    Aside (markAttempted permit c pin) :=
  aside_tryCatch (aside_auditWrite _) fun _ => aside_fail _

theorem aside_settleAttempt (gate : EffectGate) (a c : String) (o : Settlement) (extra : Fields) :
    Aside (gate.settleAttempt a c o extra) :=
  aside_tryCatch (aside_auditWrite _) fun _ => aside_pure ()

theorem aside_settlePermit (permit : EffectPermit) (c : String) (o : Settlement) (extra : Fields) :
    Aside (settlePermit permit c o extra) :=
  aside_tryCatch (aside_auditWrite _) fun _ => aside_pure ()

end EffectGate

/-! ## The canceller and the listener -/

/-- A step of the canceller or of the listener. -/
def Cmd.closes : Cmd → Bool
  | .net _ | .epoch | .healthy | .write _ | .sealWith _ | .cancel | .inflightCount | .producerCount
  | .waitForDrain | .waitForProducerDrain | .stopListener | .waitListener | .endServing
  | .setListenerClosed | .quiesced _ => true
  | _ => false

namespace Quiesce

/-- A program of such steps. -/
abbrev ClosingPath {α : Type} (p : GProg α) : Prop := p.Issues fun c => c.closes = true

theorem closing_write (e : Entry) : ClosingPath (auditWrite e) := by
  refine Prog.issues_bind (Prog.issues_perform rfl) fun (o : Outcome) => ?_
  cases o <;> trivial

theorem closing_onNet {α : Type} (p : NetProg α) : ClosingPath (onNet p) := by
  induction p with
  | ret a => trivial
  | raise e => exact nomatch e
  | cmd c k ih => exact ⟨rfl, ih⟩

theorem closing_close (t : CancellationTransition) (torn snapshot : List String) (durable : Bool)
    (bs : List String) (common : Common) : ClosingPath (close t torn snapshot durable bs common) := by
  refine Prog.issues_tryCatch ?_ fun _ => trivial
  split
  · trivial
  refine Prog.issues_bind (Prog.issues_perform rfl) fun (healthy : Bool) => ?_
  cases healthy with
  | false => trivial
  | true =>
    refine Prog.issues_bind (closing_write _) fun _ => ?_
    split
    · exact Prog.issues_bind (closing_write _) fun _ => trivial
    · refine Prog.issues_bind (closing_write _) fun _ => Prog.issues_bind ?_ fun _ => trivial
      refine Prog.issues_bind (Prog.issues_perform rfl) fun (o : Outcome) => ?_
      cases o <;> trivial

/-- The canceller issues these steps only. -/
theorem closing_canceller (args : QuiesceArgs) : ClosingPath (canceller args) := by
  have hstop : ClosingPath (stopListening args) := by
    unfold stopListening
    split
    · refine Prog.issues_bind (Prog.issues_perform rfl) fun (stopped : Except Exn Unit) => ?_
      cases stopped <;> trivial
    · trivial
  have hlisten : ClosingPath (awaitListener args) := by
    unfold awaitListener
    split
    · exact Prog.issues_bind (Prog.issues_perform rfl) fun _ => trivial
    · trivial
  refine Prog.issues_bind (Prog.issues_bind (Prog.issues_bind (Prog.issues_perform rfl) fun cancelled =>
    Prog.issues_bind (closing_onNet _) fun _ => trivial) fun found => ?_) fun _ =>
    Prog.issues_bind (Prog.issues_perform rfl) fun _ => trivial
  obtain ⟨t, torn, snapshot⟩ := found
  refine Prog.issues_bind hstop fun _ => Prog.issues_bind (Prog.issues_perform rfl) fun _ => ?_
  refine Prog.issues_bind (Prog.issues_tryCatch ?_ fun _ => trivial) fun durable => ?_
  · refine Prog.issues_bind ?_ fun _ => trivial
    exact Prog.issues_bind (closing_write _) fun _ => closing_write _
  · refine Prog.issues_bind (Prog.issues_perform rfl) fun _ => Prog.issues_bind (Prog.issues_perform rfl) fun _ => ?_
    refine Prog.issues_bind hlisten fun _ => Prog.issues_bind (Prog.issues_perform rfl) fun _ => ?_
    refine Prog.issues_bind (Prog.issues_perform rfl) fun _ => Prog.issues_bind (Prog.issues_perform rfl) fun _ => ?_
    exact Prog.issues_bind (Prog.issues_perform rfl) fun _ => closing_close _ _ _ _ _ _

/-- So does the listener. -/
theorem closing_listener : ClosingPath listener :=
  Prog.issues_bind (Prog.issues_perform rfl) fun _ => Prog.issues_bind (Prog.issues_perform rfl) fun _ => trivial

theorem consults_closes (c : Cmd) (h : c.closes = true) : c.consults = false := by
  cases c with
  | env q => cases h
  | acquireSlot => cases h
  | issuePermit a e c g b => cases h
  | connect a c p => cases h
  | _ => rfl

/-- The canceller makes none of the calls. -/
theorem aside_canceller (args : QuiesceArgs) : Aside (canceller args) :=
  (closing_canceller args).mono consults_closes

/-- Neither does the listener. -/
theorem aside_listener : Aside listener := closing_listener.mono consults_closes

end Quiesce

end StrixPEP
