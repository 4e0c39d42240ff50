import StrixPEP.Pdp.Ceiling
import StrixPEP.Service.AuthorizedDestination

/-!
# How often the gateway connects

A connection is charged in its CONNECT decision and made much later, in another function; between the
two other handlers reserve, connect and fail.

* `Accounted` — what a recorded run keeps: the counters are what was charged, no cap is passed, and the
  reservations on the desk are those on record;
* `charges_of_connects` — what a handler that has connected has reserved.

Principal result: `egress_ceiling`, the connections that are made for a program or an asset are at most as
many as its cap.
-/

namespace StrixPEP.Service

open Threads Pdp

variable {P : Platform}

/-! ## Reservations on record -/

/-- The specs of a reservation that succeeded. -/
def grantedStep : Sigma (Act.Resp P) → List Specs
  | ⟨.pdp (.reserve specs), (.ok none : Except PyError (Option String))⟩ => [specs]
  | _ => []

/-- A policy that is read is one that the provider returns. -/
def Provided (provides : Json → Bool) (x : Sigma (Act.Resp P)) : Prop :=
  ∀ policy, x = ⟨.pdp .policy, (.ok policy : Except String Json)⟩ → provides policy = true

/-- What a recorded run keeps. -/
structure Accounted (provides : Json → Bool) (b : Budgets)
    (s : (World × Desk) × List (Nat × Sigma (Act.Resp P))) : Prop where
  balanced : Balanced b s.1.2
  capped : Capped s.1.2
  grants : s.1.2.grants = s.2.flatMap fun e => grantedStep e.2
  policies : ∀ e ∈ s.2, Provided provides e.2

section

variable {provides : Json → Bool} {b : Budgets}

/-- A step of the PDP reserves what its record says. -/
theorem grants_exec {i : Nat} {q : Pdp.Query} {s s' : Desk} {r : Pdp.Answer P.floats q}
    (h : (Pdp.machine P provides).exec i q s r = some s') :
    s'.grants = s.grants ++ grantedStep (⟨.pdp q, r⟩ : Sigma (Act.Resp P)) := by
  cases q with
  | reserve specs =>
    obtain ⟨budgets, -, rfl⟩ := exec_reserve h
    rw [grants_note]
    show s.grants ++ granted (.reserved specs r) = _
    by_cases hok : r = .ok none
    · subst hok
      rfl
    · rw [granted_refused hok]
      unfold grantedStep
      split
      · rename_i he
        cases he
        exact absurd rfl hok
      · rfl
  | _ =>
    rcases exec_budgets h with ⟨-, hg⟩ | ⟨specs, hq, -⟩
    · exact hg.trans (List.append_nil _).symm
    · cases hq

theorem accounted_step {i : Nat} {c : Act} {s s' : (World × Desk) × List (Nat × Sigma (Act.Resp P))}
    {r : Act.Resp P c} (hs : Accounted provides b s)
    (h : (machine P provides).recorded.exec i c s r = some s') : Accounted provides b s' := by
  obtain ⟨t, ht, rfl⟩ := Option.map_eq_some_iff.1 h
  have hpolicies : Provided provides (⟨c, r⟩ : Sigma (Act.Resp P)) →
      ∀ e ∈ s.2 ++ [(i, (⟨c, r⟩ : Sigma (Act.Resp P)))], Provided provides e.2 := by
    intro hp e he
    rcases List.mem_append.1 he with he | he
    · exact hs.policies e he
    · obtain rfl := List.mem_singleton.1 he
      exact hp
  cases c with
  | gateway c =>
    obtain ⟨w, -, rfl⟩ := Option.map_eq_some_iff.1 ht
    refine ⟨hs.balanced, hs.capped, ?_, hpolicies fun policy hx => ?_⟩
    · rw [List.flatMap_append, List.flatMap_singleton]
      exact hs.grants.trans (List.append_nil _).symm
    · cases congrArg Sigma.fst hx
  | pdp q =>
    obtain ⟨d, hd, rfl⟩ := Option.map_eq_some_iff.1 ht
    refine ⟨exec_balanced hd hs.balanced, exec_capped hd hs.balanced hs.capped, ?_, hpolicies ?_⟩
    · rw [List.flatMap_append, List.flatMap_singleton, ← hs.grants]
      exact grants_exec hd
    · intro policy hx
      cases hx
      by_contra hcontra
      have hnone : Desk.exec P provides i .policy s.1.2 (.ok policy) = none := if_neg hcontra
      cases hnone.symm.trans hd

/-- **Every recorded run is accounted for.** -/
theorem accounted_reach {cfg cfg' : Config Exn Act (Act.Resp P) ((World × Desk) × List (Nat × Sigma (Act.Resp P)))}
    (hs : Accounted provides b cfg.state) (h : Reach (machine P provides).recorded cfg cfg') :
    Accounted provides b cfg'.state := by
  induction h with
  | refl => exact hs
  | tail _ hstep ih =>
    cases hstep with
    | mk _ he => exact accounted_step ih he

/-- The reservations of a part of the record are within the caps. -/
theorem Accounted.within {s : (World × Desk) × List (Nat × Sigma (Act.Resp P))}
    (hs : Accounted provides b s) (key : String) (cap : Int) :
    (s.2.flatMap fun e => grantedStep e.2).countP (fun specs => (key, Json.int cap) ∈ specs) ≤ cap.toNat := by
  rw [← hs.grants]
  exact hs.capped key cap

end

/-! ## Connections and their reservations -/

/-- The CONNECT for which a handler has got its slot satisfies the condition. -/
def asksFor (steps : List (Nat × Sigma (Act.Resp P))) (clients : Nat → List Request)
    (who : ConnectRequest → Bool) (i : Nat) : Bool :=
  (connectOf (clients (i - 2)) (Run.gateway (Traces.own steps i))).any fun found => who found.1

/-- How often `plain.connect` was called for such a CONNECT. -/
def egress (steps : List (Nat × Sigma (Act.Resp P))) (clients : Nat → List Request)
    (who : ConnectRequest → Bool) : Nat :=
  steps.countP fun e => asksFor steps clients who e.1 && e.2.1.isConnect

/-- A handler connects once at most, and only if it has reserved under the policy. -/
theorem charges_of_connects {rs : List Request} {tr : Run P} {q : SProg P Unit}
    (h : (handler P rs).Trail tr q) {policy : Json}
    (hpolicy : ∀ x ∈ tr, Provided (only policy) x) :
    tr.countP (fun x => x.1.isConnect) = 0 ∨
      tr.countP (fun x => x.1.isConnect) = 1 ∧ ∃ r host port pid program specs,
        connectOf rs tr.gateway = some (r, host, port) ∧ programForSource r.clientIp policy = .ok (some (pid, program)) ∧
        reservation pid program r.asset = .ok specs ∧ specs ∈ tr.flatMap grantedStep := by
  by_cases hnone : ∀ x ∈ tr, x.1.isConnect = false
  · exact .inl (List.countP_eq_zero.2 fun x hx => by simp [hnone x hx])
  right
  obtain ⟨x, hx, hconn⟩ : ∃ x ∈ tr, x.1.isConnect = true := by
    simpa using hnone
  obtain ⟨t₁, t₂, rfl⟩ := List.append_of_mem hx
  -- the first connection has its warrant, and there is no second one
  have hfresh : ∀ s₁ (y : Sigma (Act.Resp P)) s₂, t₁ ++ x :: t₂ = s₁ ++ y :: s₂ → y.1.isConnect = true →
      (∀ z ∈ s₁, z.1.isConnect = false) ∧ ∃ r host port,
        (∀ later, connectOf rs (Run.gateway s₁ ++ later) = some (r, host, port)) ∧ ∃ pin, ∃ W : Warrant P r host port pin, Run.pdp s₁ = W.steps := by
    intro s₁ y s₂ hsplit hy
    rw [hsplit] at h
    have hreach := h.reaches
    obtain ⟨a, c, pin, hact⟩ := Act.isConnect_iff.1 hy
    rw [hact] at hreach
    obtain ⟨_, _, _, _, _, _, _, _, _, _, -, -, -, -, -, -, hfresh⟩ := handler_connects hreach
    obtain ⟨r, host, port, -, hlater, W, hW, -⟩ := warranted hreach
    exact ⟨hfresh, r, host, port, hlater, pin, W, hW⟩
  obtain ⟨hbefore, r, host, port, hlater, pin, W, hW⟩ := hfresh t₁ x t₂ rfl hconn
  have hconnect := hlater (Run.gateway (x :: t₂))
  rw [← Run.gateway_append] at hconnect
  have hafter : ∀ z ∈ t₂, z.1.isConnect = false := by
    intro z hz
    obtain ⟨u₁, u₂, rfl⟩ := List.append_of_mem hz
    cases hzc : z.1.isConnect with
    | false => rfl
    | true =>
      have hall := (hfresh (t₁ ++ x :: u₁) z u₂ (by simp) hzc).1
      rw [hall x (by simp)] at hconn
      cases hconn
  refine ⟨?_, r, host, port, W.admission.pid, W.admission.program, W.admission.specs, hconnect, ?_, ?_, ?_⟩
  · rw [List.countP_append, List.countP_cons, List.countP_eq_zero.2 fun z hz => by simp [hbefore z hz],
      List.countP_eq_zero.2 fun z hz => by simp [hafter z hz], if_pos hconn]
  · obtain ⟨res, hsteps⟩ := W.steps_eq
    have hread : (⟨.policy, (.ok W.admission.policy : Except String Json)⟩ : Sigma (Answer P.floats)) ∈ W.steps := by
      rw [hsteps]
      exact List.mem_cons_self
    rw [← hW] at hread
    obtain ⟨y, hy, hread⟩ := List.mem_filterMap.1 hread
    have hyeq : y = ⟨.pdp .policy, (.ok W.admission.policy : Except String Json)⟩ := by
      obtain ⟨act, ry⟩ := y
      cases act with
      | gateway c => cases hread
      | pdp q =>
        cases hread
        rfl
    have hsame := only_iff.1 (hpolicy y (List.mem_append_left _ hy) _ hyeq)
    rw [← hsame]
    exact W.admission.identified
  · obtain ⟨res, -, -, hspecs⟩ := W.admission.resolved rfl
    exact hspecs
  · obtain ⟨res, hsteps⟩ := W.steps_eq
    have hreserve : (⟨.reserve W.admission.specs, (.ok none : Except PyError (Option String))⟩ :
        Sigma (Answer P.floats)) ∈ W.steps := by
      rw [hsteps]
      simp
    rw [← hW] at hreserve
    obtain ⟨y, hy, hreserve⟩ := List.mem_filterMap.1 hreserve
    refine List.mem_flatMap.2 ⟨y, List.mem_append_left _ hy, ?_⟩
    obtain ⟨act, ry⟩ := y
    cases act with
    | gateway c => cases hreserve
    | pdp q =>
      cases hreserve
      exact List.mem_singleton.2 rfl

theorem undeciding_connects {p : GProg Unit} (hp : Aside p) {tr : Run P} {q : SProg P Unit}
    (h : (undeciding P p).Trail tr q) : tr.countP (fun x => x.1.isConnect) = 0 := by
  refine List.countP_eq_zero.2 fun x hx hconn => ?_
  obtain ⟨t₁, t₂, rfl⟩ := List.append_of_mem hx
  have hreach := h.reaches
  obtain ⟨a, c, pin, hact⟩ := Act.isConnect_iff.1 hconn
  rw [hact] at hreach
  exact undeciding_quiet hp hreach

/-- The connections of a thread are at most as many as its reservations under the cap. -/
theorem connects_le_grants {args : QuiesceArgs} {clients : Nat → List Request} {i : Nat} {tr : Run P}
    {q : SProg P Unit} (h : (pool P args clients i).Trail tr q) {policy : Json}
    (hpolicy : ∀ x ∈ tr, Provided (only policy) x) {who : ConnectRequest → Bool} {key : String} {cap : Int}
    (hwho : ∀ r pid program specs, who r = true →
      programForSource r.clientIp policy = .ok (some (pid, program)) →
      reservation pid program r.asset = .ok specs → (key, Json.int cap) ∈ specs)
    (hasks : (connectOf (clients (i - 2)) tr.gateway).any (fun found => who found.1) = true) :
    tr.countP (fun x => x.1.isConnect) ≤
      (tr.flatMap grantedStep).countP fun specs => (key, Json.int cap) ∈ specs := by
  match i with
  | 0 => rw [undeciding_connects (Quiesce.aside_canceller args) h]; exact Nat.zero_le _
  | 1 => rw [undeciding_connects Quiesce.aside_listener h]; exact Nat.zero_le _
  | j + 2 =>
    rcases charges_of_connects h hpolicy with hzero | ⟨hone, r, host, port, pid, program, specs, hconnect, hid,
      hspecs, hmem⟩
    · rw [hzero]
      exact Nat.zero_le _
    · rw [hone]
      have hr : who r = true := by
        rw [show connectOf (clients (j + 2 - 2)) tr.gateway = some (r, host, port) from hconnect] at hasks
        exact hasks
      exact List.countP_pos_iff.2 ⟨specs, hmem, by simpa using hwho r pid program specs hr hid hspecs⟩

/-- The connections that charge a cap do not pass it. -/
theorem egress_capped {policy : Json} {args : QuiesceArgs} {clients : Nat → List Request}
    {b : Budgets} {w : World}
    {cfg : Config Exn Act (Act.Resp P) ((World × Desk) × List (Nat × Sigma (Act.Resp P)))}
    (h : Reach (machine P (only policy)).recorded ⟨((w, ⟨b, []⟩), []), pool P args clients⟩ cfg)
    {who : ConnectRequest → Bool} (key : String) {cap : Int}
    (hwho : ∀ r pid program specs, who r = true →
      programForSource r.clientIp policy = .ok (some (pid, program)) →
      reservation pid program r.asset = .ok specs → (key, Json.int cap) ∈ specs) :
    egress cfg.state.2 clients who ≤ cap.toNat := by
  have hstart : Accounted (P := P) (only policy) b ((w, ⟨b, []⟩), []) :=
    ⟨fun key => (Nat.add_zero _).symm, fun key cap => Nat.zero_le _, rfl, fun e he => absurd he List.not_mem_nil⟩
  have hacc := accounted_reach hstart h
  refine le_trans ?_ (hacc.within key cap)
  have hthread : ∀ i, asksFor cfg.state.2 clients who i = true →
      (Traces.own cfg.state.2 i).countP (fun x => x.1.isConnect) ≤
        ((Traces.own cfg.state.2 i).flatMap grantedStep).countP fun specs => (key, Json.int cap) ∈ specs :=
    fun i hi => connects_le_grants (trail_of_reach h rfl i)
      (fun x hx => hacc.policies _ (Traces.mem_of_mem_own hx)) hwho hi
  exact Traces.countP_authors_le hthread

/-- The source of the client belongs to the program. -/
def inProgram (policy : Json) (pid : String) (r : ConnectRequest) : Bool :=
  match programForSource r.clientIp policy with
  | .ok (some (id, _)) => id == pid
  | _ => false

theorem inProgram_iff {policy program : Json} {pid id : String} {r : ConnectRequest}
    (h : programForSource r.clientIp policy = .ok (some (id, program))) :
    inProgram policy pid r = true ↔ id = pid := by
  unfold inProgram
  rw [h]
  exact beq_iff_eq

/-- **Egress ceiling.**  Under one policy, in every interleaving of any number of handlers, the canceller
and the listener, `plain.connect` is called for the CONNECTs of a program at most as often as its cap
says, and for those that name an asset of it at most as often as the cap of the asset, if they have
one.  A client may be refused a slot and ask again, for another target or asset; what counts is the
CONNECT that got the slot. -/
theorem egress_ceiling {policy : Json} {args : QuiesceArgs} {clients : Nat → List Request} {b : Budgets}
    {w : World} {cfg : Config Exn Act (Act.Resp P) ((World × Desk) × List (Nat × Sigma (Act.Resp P)))}
    (h : Reach (machine P (only policy)).recorded ⟨((w, ⟨b, []⟩), []), pool P args clients⟩ cfg) {pid : String}
    {program : Json} (hprogram : programOf policy (.str pid) = .ok (some (pid, program))) :
    (∀ cap : Int, program.get "max_requests" = .ok (.int cap) →
      egress cfg.state.2 clients (inProgram policy pid) ≤ cap.toNat) ∧
    ∀ asset (cap : Int), asset ≠ "" →
      (program.field "asset_max_requests" (.obj []) >>= fun caps => caps.get asset) = .ok (.int cap) →
      egress cfg.state.2 clients (fun r => inProgram policy pid r && r.asset == asset) ≤ cap.toNat := by
  constructor
  · intro cap hcap
    refine egress_capped h pid fun r id program' specs hr hid hspecs => ?_
    obtain rfl := (inProgram_iff hid).1 hr
    cases hprogram.symm.trans (programForSource_ok hid)
    exact reservation_cap hspecs hcap
  · intro asset cap hasset hcap
    refine egress_capped h s!"{pid}/{asset}" fun r id program' specs hr hid hspecs => ?_
    rw [Bool.and_eq_true, beq_iff_eq] at hr
    obtain rfl := (inProgram_iff hid).1 hr.1
    cases hprogram.symm.trans (programForSource_ok hid)
    exact reservation_asset (hr.2 ▸ hspecs) hasset hcap

/-- Under the open policy with a cap of one the first handler has connected, and that is the ceiling. -/
theorem egress_ceiling_open : ∃ cfg,
    Reach (machine asciiPlatform (only (openPolicy "lab" (.int 1)))).recorded OpenRun.start cfg ∧
      egress cfg.state.2 OpenRun.clients (inProgram (openPolicy "lab" (.int 1)) "lab") = 1 ∧
      egress cfg.state.2 OpenRun.clients (inProgram (openPolicy "lab" (.int 1)) "lab") ≤ (1 : Int).toNat := by
  have hrun : (OpenRun.run (only (openPolicy "lab" (.int 1))) (.int 1) (List.replicate 41 2)).any
      (fun cfg => egress cfg.state.2 OpenRun.clients (inProgram (openPolicy "lab" (.int 1)) "lab") == 1) =
        true := by
    decide +kernel
  rw [Option.any_eq_true] at hrun
  obtain ⟨cfg, hrun, hone⟩ := hrun
  have hreach := schedule_reach hrun
  refine ⟨cfg, hreach, beq_iff_eq.1 hone, ?_⟩
  exact (egress_ceiling hreach (programForSource_ok (open_source "lab" (.int 1)))).1 1 rfl

end StrixPEP.Service
