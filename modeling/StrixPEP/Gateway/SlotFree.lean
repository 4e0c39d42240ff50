import StrixPEP.Lib.Paths
import StrixPEP.Gateway.Handler

/-!
# Where a connection is admitted

A slot is taken and given back, and a connection is named, in `do_CONNECT` alone: nothing that it
calls issues one of these steps (`connectFlow_keeps`).
-/

namespace StrixPEP

open Threads GProg Fields

/-- The steps of `do_CONNECT` itself. -/
def Cmd.admits : Cmd → Bool
  | .acquireSlot | .releaseSlot | .newConnId => true
  | _ => false

/-- A program that leaves the slots to its caller. -/
def Keeps {α : Type} (p : GProg α) : Prop := p.Issues fun c => c.admits = false

section Rules

variable {α β : Type} {p : GProg α}

theorem keeps_bind {f : α → GProg β} (hp : Keeps p) (hf : ∀ a, Keeps (f a)) : Keeps (p >>= f) :=
  Prog.issues_bind hp hf

theorem keeps_issue {c : Cmd} (h : c.admits = false) : Keeps (issue c) := Prog.issues_perform h

theorem keeps_pure (a : α) : Keeps (pure a) := trivial

theorem keeps_fail (e : Exn) : Keeps (fail e : GProg α) := trivial

theorem keeps_tryCatch {h : Exn → GProg α} (hp : Keeps p) (hh : ∀ e, Keeps (h e)) :
    Keeps (p.tryCatch h) :=
  Prog.issues_tryCatch hp hh

theorem keeps_ask (q : Query) : Keeps (ask q) := by
  refine keeps_bind (keeps_issue rfl) fun r => ?_
  cases r with
  | ok a => exact keeps_pure a
  | error e => exact keeps_fail e

theorem keeps_respond : Keeps respond := keeps_bind (keeps_issue rfl) fun _ => keeps_pure ()

theorem keeps_auditWrite (e : Entry) : Keeps (auditWrite e) := by
  refine keeps_bind (keeps_issue rfl) fun (o : Outcome) => ?_
  cases o <;> trivial

theorem keeps_onNet (p : NetProg α) : Keeps (onNet p) := by
  induction p with
  | ret a => trivial
  | raise e => exact nomatch e
  | cmd c k ih => exact ⟨rfl, ih⟩

end Rules

/-! ## The gate -/

theorem EffectPermit.release_keeps (permit : EffectPermit) : Keeps permit.release := by
  refine keeps_bind (keeps_issue rfl) fun (entered : RunState.ReleaseEntry) => ?_
  cases entered with
  | again failed t =>
    cases failed
    · exact keeps_pure ()
    · exact keeps_fail _
  | silent t => exact keeps_pure ()
  | write t c =>
    refine keeps_bind (keeps_tryCatch ?_ fun _ => keeps_pure false) fun ok => ?_
    · exact keeps_bind (keeps_auditWrite _) fun _ => keeps_pure true
    refine keeps_bind (keeps_issue rfl) fun _ => ?_
    cases ok
    · exact keeps_fail _
    · exact keeps_pure ()

namespace EffectGate

theorem commitIntent_keeps (gate : EffectGate) (intent : Intent) : Keeps (gate.commitIntent intent) := by
  refine keeps_bind (keeps_issue rfl) fun (healthy : Bool) => ?_
  cases healthy with
  | false => exact keeps_fail _
  | true =>
    refine keeps_bind (keeps_issue rfl) fun (sequence : Option Nat) => ?_
    cases sequence with
    | none => exact keeps_fail _
    | some seq =>
      exact keeps_bind (keeps_tryCatch (keeps_auditWrite _) fun _ => keeps_fail _) fun _ => keeps_pure _

theorem permitCall_keeps (gate : EffectGate) (a : String) (epoch : Nat) (c gen bud : String) :
    Keeps (gate.permitCall a epoch c gen bud) := by
  unfold permitCall
  split
  · exact keeps_pure none
  split
  · exact keeps_pure none
  refine keeps_bind (keeps_issue rfl) fun (issued : Option EffectPermit) => ?_
  cases issued with
  | none => exact keeps_pure none
  | some permit =>
    refine keeps_bind (keeps_tryCatch (keeps_auditWrite _) fun _ => ?_) fun _ => ?_
    · exact keeps_bind (keeps_issue rfl) fun _ => keeps_fail _
    refine keeps_bind (keeps_issue rfl) fun (bound : Bool) => ?_
    cases bound
    · exact keeps_fail _
    · exact keeps_pure _

theorem acquirePermit_keeps (gate : EffectGate) (a : String) (epoch : Nat) (c gen bud : String) :
    Keeps (gate.acquirePermit a epoch c gen bud) := by
  refine keeps_bind (keeps_issue rfl) fun (start : Nat) => ?_
  refine keeps_bind (keeps_tryCatch (gate.permitCall_keeps a epoch c gen bud) fun e => ?_) fun permit => ?_
  · exact keeps_bind (keeps_issue rfl) fun _ => keeps_fail e
  · exact keeps_bind (keeps_issue rfl) fun _ => keeps_pure permit

theorem markAttempted_keeps (permit : EffectPermit) (c : String) (pin : Pin) :
    Keeps (markAttempted permit c pin) :=
  keeps_tryCatch (keeps_auditWrite _) fun _ => keeps_fail _

theorem settleAttempt_keeps (gate : EffectGate) (a c : String) (o : Settlement) (extra : Fields) :
    Keeps (gate.settleAttempt a c o extra) :=
  keeps_tryCatch (keeps_auditWrite _) fun _ => keeps_pure ()

theorem settlePermit_keeps (permit : EffectPermit) (c : String) (o : Settlement) (extra : Fields) :
    Keeps (settlePermit permit c o extra) :=
  keeps_tryCatch (keeps_auditWrite _) fun _ => keeps_pure ()

end EffectGate

/-! ## The handler -/

namespace Gateway

open EffectGate

theorem deny_keeps (reason url method src : String) (s : Option ConnectionState) :
    Keeps (deny reason url method src s) :=
  keeps_bind keeps_respond fun _ => keeps_auditWrite _

theorem denyTls_keeps (s : ConnectionState) (reason url method : String) :
    Keeps (denyTls s reason url method) :=
  keeps_bind keeps_respond fun _ => keeps_auditWrite _

/-- An outcome, and what the client is told. -/
theorem settle_deny_keeps (x : Exchange) {p : GProg Unit} (hp : Keeps p) (reason : String) {α : Type}
    (a : α) : Keeps (do p; x.deny reason; return a) :=
  keeps_bind hp fun _ => keeps_bind (denyTls_keeps _ _ _ _) fun _ => keeps_pure a

theorem relay_keeps (x : Exchange) (permit : EffectPermit) (pin : Pin) : Keeps (relay x permit pin) := by
  refine keeps_bind (keeps_issue rfl) fun streamed => ?_
  dsimp only
  split <;>
    exact keeps_bind (settlePermit_keeps _ _ _ _) fun _ => keeps_auditWrite _

theorem openUpstream_keeps (x : Exchange) (permit : EffectPermit) (pin : Pin) (plain : Nat) :
    Keeps (openUpstream x permit pin plain) := by
  refine keeps_tryCatch ?_ fun e => ?_
  · refine keeps_bind (keeps_issue rfl) fun (connected : Except Exn Unit) => ?_
    cases connected with
    | error e => exact keeps_fail e
    | ok a =>
      refine keeps_bind (keeps_ask _) fun up => keeps_bind (keeps_onNet _) fun ok => ?_
      cases ok
      · exact settle_deny_keeps x (settlePermit_keeps _ _ _ _) _ false
      · exact keeps_pure true
  · split
    · refine keeps_bind (settlePermit_keeps _ _ _ _) fun _ => ?_
      exact settle_deny_keeps x (keeps_auditWrite _) _ false
    · exact settle_deny_keeps x (settlePermit_keeps _ _ _ _) _ false
    · exact settle_deny_keeps x (settlePermit_keeps _ _ _ _) _ false

theorem permitted_keeps (x : Exchange) (permit : EffectPermit) (pin : Pin) (plain : Nat) :
    Keeps (permitted x permit pin plain) := by
  refine keeps_bind (keeps_issue rfl) fun (terminal : Bool) => ?_
  cases terminal with
  | true => exact keeps_bind (settlePermit_keeps _ _ _ _) fun _ => denyTls_keeps _ _ _ _
  | false =>
    refine keeps_bind (keeps_tryCatch ?_ fun e => ?_) fun marked => ?_
    · exact keeps_bind (markAttempted_keeps _ _ _) fun _ => keeps_pure true
    · split
      · exact keeps_bind (denyTls_keeps _ _ _ _) fun _ => keeps_pure false
      · exact keeps_fail e
    cases marked with
    | false => exact keeps_pure ()
    | true =>
      refine keeps_bind (openUpstream_keeps x permit pin plain) fun up => ?_
      cases up with
      | false => exact keeps_pure ()
      | true =>
        refine keeps_bind (keeps_ask _) fun _ => ?_
        refine keeps_bind (keeps_issue rfl) fun (sent : Except Exn Unit) => ?_
        cases sent with
        | error e => exact keeps_bind (settlePermit_keeps _ _ _ _) fun _ => denyTls_keeps _ _ _ _
        | ok a => exact relay_keeps x permit pin

theorem effect_keeps (x : Exchange) (gate : EffectGate) (current : Decision) (pin : Pin) :
    Keeps (effect x gate current pin) := by
  refine keeps_bind (keeps_issue rfl) fun (created : Except Exn Nat) => ?_
  cases created with
  | error e => exact keeps_bind (settleAttempt_keeps _ _ _ _ _) fun _ => denyTls_keeps _ _ _ _
  | ok plain =>
    refine keeps_bind (keeps_onNet _) fun tracked => ?_
    cases tracked with
    | false => exact keeps_bind (settleAttempt_keeps _ _ _ _ _) fun _ => denyTls_keeps _ _ _ _
    | true =>
      refine keeps_bind (keeps_tryCatch ?_ fun e => ?_) fun acquired => ?_
      · exact keeps_bind (acquirePermit_keeps _ _ _ _ _ _) fun permit => keeps_pure _
      · split
        · exact keeps_bind (denyTls_keeps _ _ _ _) fun _ => keeps_pure none
        · exact keeps_fail e
      match acquired with
      | none => exact keeps_pure ()
      | some none => exact keeps_bind (settleAttempt_keeps _ _ _ _ _) fun _ => denyTls_keeps _ _ _ _
      | some (some permit) =>
        exact Prog.issues_tryFinally (permitted_keeps x permit pin plain) permit.release_keeps

theorem recheck_keeps (x : Exchange) (gate : EffectGate) : Keeps (recheck x gate) := by
  refine keeps_bind (keeps_issue rfl) fun (decided : Except Exn Decision) => ?_
  cases decided with
  | error e => exact keeps_bind (settleAttempt_keeps _ _ _ _ _) fun _ => denyTls_keeps _ _ _ _
  | ok current =>
    dsimp only
    split
    · exact keeps_bind (settleAttempt_keeps _ _ _ _ _) fun _ => denyTls_keeps _ _ _ _
    split
    · exact keeps_fail _
    · exact keeps_bind (keeps_ask _) fun _ => effect_keeps x gate current _

theorem committing_keeps (t : Tunnel) (head : Head) (d : Decision) : Keeps (committing t head d) := by
  refine keeps_bind (keeps_issue rfl) fun (epoch : Nat) => ?_
  refine keeps_bind (keeps_issue rfl) fun (uuid : String) => ?_
  dsimp only
  split
  · exact denyTls_keeps _ _ _ _
  refine keeps_bind (keeps_issue rfl) fun (runId : String) => ?_
  refine keeps_bind (keeps_tryCatch ?_ fun e => ?_) fun committed => ?_
  · exact keeps_bind (commitIntent_keeps _ _) fun gate => keeps_pure _
  · split
    · exact keeps_bind (denyTls_keeps _ _ _ _) fun _ => keeps_pure none
    · exact keeps_bind (denyTls_keeps _ _ _ _) fun _ => keeps_pure none
    · exact keeps_fail e
  cases committed with
  | none => exact keeps_pure ()
  | some gate => exact recheck_keeps _ gate

theorem allowed_keeps (t : Tunnel) (head : Head) (d : Decision) : Keeps (allowed t head d) := by
  unfold allowed
  split
  · exact keeps_bind (keeps_issue rfl) fun _ => committing_keeps t head d
  · exact committing_keeps t head d

variable (canonicalHost : String → Option String)

theorem request_keeps (t : Tunnel) (head : Head) : Keeps (request canonicalHost t head) := by
  unfold request
  dsimp only
  split
  · exact denyTls_keeps _ _ _ _
  refine keeps_bind (keeps_issue rfl) fun (decided : Except Exn Decision) => ?_
  cases decided with
  | error e => exact denyTls_keeps _ _ _ _
  | ok d =>
    dsimp only
    split
    · exact denyTls_keeps _ _ _ _
    · exact allowed_keeps t head d

theorem inside_keeps (t : Tunnel) : Keeps (inside canonicalHost t) := by
  unfold inside
  split
  · exact denyTls_keeps _ _ _ _
  refine keeps_bind (keeps_ask _) fun received => ?_
  split
  · exact request_keeps canonicalHost t _
  · exact keeps_fail _
  · exact keeps_auditWrite _

theorem handshake_keeps (s : ConnectionState) (r : ConnectRequest) (port : Nat) :
    Keeps (handshake canonicalHost s r port) := by
  refine keeps_bind (keeps_onNet _) fun _ => keeps_bind (keeps_ask _) fun _ => ?_
  refine keeps_bind (keeps_issue rfl) fun (wrapped : Except Exn (Nat × Option String)) => ?_
  cases wrapped with
  | error e =>
    dsimp only
    split
    · exact keeps_auditWrite _
    · exact keeps_fail e
  | ok w =>
    refine keeps_bind (keeps_onNet _) fun ok => ?_
    cases ok
    · exact keeps_pure ()
    · exact inside_keeps canonicalHost _

/-- `_connect_flow` leaves the slots alone. -/
theorem connectFlow_keeps (s : ConnectionState) (r : ConnectRequest) (host : String) (port : Nat) :
    Keeps (connectFlow canonicalHost s r host port) := by
  refine keeps_bind (keeps_issue rfl) fun (decided : Except Exn Decision) => ?_
  cases decided with
  | error e => exact deny_keeps _ _ _ _ _
  | ok d =>
    dsimp only
    split
    · exact deny_keeps _ _ _ _ _
    refine keeps_bind (keeps_issue rfl) fun (leaf : Except Exn Unit) => ?_
    cases leaf with
    | error e =>
      dsimp only
      split
      · exact deny_keeps _ _ _ _ _
      · exact keeps_fail e
    | ok a =>
      refine keeps_bind (keeps_ask _) fun _ => keeps_bind (keeps_ask _) fun _ => ?_
      refine keeps_bind (keeps_issue rfl) fun (loaded : Except Exn Unit) => ?_
      cases loaded with
      | error e => exact deny_keeps _ _ _ _ _
      | ok b => exact handshake_keeps canonicalHost _ r port

end Gateway

end StrixPEP
