import StrixPEP.Lib.Linking
import StrixPEP.Gateway.Destination
import StrixPEP.Pdp.DecidePaths
import StrixPEP.Pdp.Desk

/-!
# The gateway with its PDP

A handler calls `pdp.decide` in its own thread, so that its decisions and the steps of the other
handlers interleave on the state of both: the world of the gateway and the desk of the PDP.

* `Act` — the atomic steps of both;
* `arguments` — what the three calls of `pdp.decide` are given;
* `handler` — `Gateway.handle` with `PDP.decide` in the place of every such call;
* `machine`, `pool` — all of it over the shared state.

Principal result: `handler_connects`, what a handler that connects has done, in the gateway and in the
PDP.
-/

namespace StrixPEP

open Threads

/-! ## From one side to the other -/

/-- `type(exc).__name__`. -/
def PyError.className : PyError → String
  | .keyError _ => "KeyError"
  | .typeError => "TypeError"
  | .indexError => "IndexError"
  | .overflowError => "OverflowError"
  | .attributeError => "AttributeError"
  | .recursionError => "RecursionError"
  | .valueError _ => "ValueError"

/-- What an exception of the PDP is to its caller. -/
def PyError.exn (e : PyError) : Exn := ⟨.other, e.className, ""⟩

/-- `canonical_host`. -/
def Platform.canonicalHost (P : Platform) (authority : String) : Option String :=
  (StrixPEP.canonicalHost P.tables P.idna authority.toList).map String.ofList

/-- A secret as a text; the policy may hold any value. -/
def Json.secretText : Json → Option String
  | .str s => some s
  | v => if v.truthy then some v.display else none

/-- What a handler reads of a decision. -/
def Decision.ofPdp (d : Pdp.Decision) : Decision where
  allow := d.allow
  reason := d.reason
  pin := d.pin
  secret := d.secret.secretText
  programId := d.programId
  detail := some d.detail

namespace Service

/-- The atomic steps. -/
inductive Act where
  | gateway (c : Cmd)
  | pdp (q : Pdp.Query)

/-- What each returns. -/
def Act.Resp (P : Platform) : Act → Type
  | .gateway c => c.Resp
  | .pdp q => Pdp.Answer P.floats q

/-- What a call of `decide` is to a handler. -/
def answered : Except Pdp.Halt Pdp.Decision → Except Exn Decision
  | .ok d => .ok (.ofPdp d)
  | .error (.denied d) => .ok (.ofPdp d.decision)
  | .error (.raised e) => .error e.exn

/-- The steps of a run. -/
abbrev Run (P : Platform) := List (Sigma (Act.Resp P))

section

variable (P : Platform)

/-- A program of a thread. -/
abbrev SProg (α : Type) := Prog Exn Act (Act.Resp P) α

/-- A part of the PDP in the thread of its caller. -/
def inThread {α : Type} : Pdp.Deciding P α → SProg P (Except Pdp.Halt α)
  | .ret a => .ret (.ok a)
  | .raise e => .ret (.error e)
  | .cmd q k => .cmd (.pdp q) fun r => inThread (k r)

/-- A step of a handler, with the arguments that it gives to `pdp.decide`. -/
def act (calls : List (Sigma Cmd.Resp) → DecidePhase → Pdp.Call) (done : List (Sigma Cmd.Resp)) :
    (c : Cmd) → SProg P c.Resp
  | .env (.decide phase) =>
    Prog.bind (inThread P (Pdp.decide P (calls done phase))) fun o => .ret (answered o)
  | c => Prog.perform (R := Act.Resp P) (.gateway c)

/-- The CONNECT decision of a run. -/
def admission : Sigma Cmd.Resp → Option Decision
  | ⟨.env (.decide .admission), (.ok d : Except Exn Decision)⟩ => some d
  | _ => none

/-- The request of a run. -/
def headRead : Sigma Cmd.Resp → Option Head
  | ⟨.env .recvHead, (.ok chunks : Except Exn (List Bytes × Option Exn))⟩ =>
    match readHead [] chunks.1 with
    | .head head => some head
    | _ => none
  | _ => none

/-- The arguments of the CONNECT decision. -/
def connectCall (r : ConnectRequest) (host : String) (port : Nat) : Pdp.Call where
  srcIp := r.clientIp
  authority := host
  port := port
  method := "CONNECT"
  session := r.session
  asset := r.asset
  credId := r.cred
  pin := none

/-- The arguments of the two decisions inside the tunnel. -/
def tunnelCall (r : ConnectRequest) (host : String) (port : Nat) (method : String) (pin : Option Pin) :
    Pdp.Call :=
  { connectCall r host port with
    authority := (P.canonicalHost host).getD ""
    method := method
    pin := pin }

/-- The arguments of `pdp.decide`, after what the handler has done: `state.pin` is the pin of the CONNECT
decision, `method` the one that was read. -/
def arguments (r : ConnectRequest) (host : String) (port : Nat) (done : List (Sigma Cmd.Resp)) :
    DecidePhase → Pdp.Call
  | .admission => connectCall r host port
  | .request | .recheck =>
    tunnelCall P r host port (((done.findSome? headRead).map (·.method)).getD "")
      ((done.findSome? admission).bind (·.pin))

/-- The arguments, for the requests of a client: those of the CONNECT that got the slot. -/
def calls (rs : List Request) (done : List (Sigma Cmd.Resp)) (phase : DecidePhase) : Pdp.Call :=
  match connectOf rs done with
  | some (r, host, port) => arguments P r host port done phase
  | none => ⟨"", "", 0, "", "", "", "", none⟩

/-- `Gateway.handle`, with the decisions in its thread. -/
def handler (rs : List Request) : SProg P Unit :=
  Prog.link (act P (calls P rs)) [] (Gateway.handle P.canonicalHost rs)

/-- The threads that do not decide. -/
def undeciding (p : GProg Unit) : SProg P Unit := Prog.link (act P (calls P [])) [] p

/-- The threads of a run: the canceller, the listener and the handlers. -/
def pool (args : QuiesceArgs) (clients : Nat → List Request) : Nat → SProg P Unit
  | 0 => undeciding P (Quiesce.canceller args)
  | 1 => undeciding P Quiesce.listener
  | i + 2 => handler P (clients i)

/-- One step of a thread, on the world of the gateway or the desk of the PDP. -/
def exec (provides : Json → Bool) (i : Nat) :
    (c : Act) → World × Pdp.Desk → Act.Resp P c → Option (World × Pdp.Desk)
  | .gateway c, s, r => (World.exec i c s.1 r).map fun w => (w, s.2)
  | .pdp q, s, r => (Pdp.Desk.exec P provides i q s.2 r).map fun d => (s.1, d)

/-- The gateway with its PDP as a machine. -/
def machine (provides : Json → Bool) : Machine Act (Act.Resp P) (World × Pdp.Desk) := ⟨exec P provides⟩

end

/-! ## What a thread has done -/

/-- A step of the PDP as a step of the thread. -/
def pdpStep {P : Platform} (x : Sigma (Pdp.Answer P.floats)) : Sigma (Act.Resp P) := ⟨.pdp x.1, x.2⟩

/-- The step of the PDP, if it is one. -/
def pdpStep? {P : Platform} : Sigma (Act.Resp P) → Option (Sigma (Pdp.Answer P.floats))
  | ⟨.pdp q, r⟩ => some ⟨q, r⟩
  | ⟨.gateway _, _⟩ => none

/-- The steps of the PDP. -/
def Run.pdp {P : Platform} (tr : Run P) : Pdp.Steps P := tr.filterMap pdpStep?

/-- The step of the gateway, if it is one. -/
def gatewayStep? {P : Platform} : Sigma (Act.Resp P) → Option (Sigma Cmd.Resp)
  | ⟨.gateway c, r⟩ => some ⟨c, r⟩
  | ⟨.pdp _, _⟩ => none

/-- The steps of the gateway. -/
def Run.gateway {P : Platform} (tr : Run P) : List (Sigma Cmd.Resp) := tr.filterMap gatewayStep?

/-- `plain.connect`. -/
def Act.isConnect : Act → Bool
  | .gateway (.connect _ _ _) => true
  | _ => false

theorem Act.isConnect_iff {c : Act} : c.isConnect = true ↔ ∃ a conn pin, c = .gateway (.connect a conn pin) := by
  constructor
  · intro h
    unfold Act.isConnect at h
    split at h
    · exact ⟨_, _, _, rfl⟩
    · cases h
  · rintro ⟨a, conn, pin, rfl⟩
    rfl

/-- A call of `pdp.decide`. -/
def decides : Cmd → Bool
  | .env (.decide _) => true
  | _ => false

section

variable {P : Platform} {calls : List (Sigma Cmd.Resp) → DecidePhase → Pdp.Call}
  {done : List (Sigma Cmd.Resp)}

theorem Run.pdp_append (t₁ t₂ : Run P) : (t₁ ++ t₂).pdp = t₁.pdp ++ t₂.pdp := List.filterMap_append

theorem Run.pdp_map (q : Pdp.Steps P) : Run.pdp (q.map pdpStep) = q := by
  induction q with
  | nil => rfl
  | cons x q ih =>
    show x :: Run.pdp (q.map pdpStep) = x :: q
    rw [ih]

theorem Run.gateway_append (t₁ t₂ : Run P) : (t₁ ++ t₂).gateway = t₁.gateway ++ t₂.gateway :=
  List.filterMap_append

theorem Run.gateway_map (q : Pdp.Steps P) : Run.gateway (q.map pdpStep) = [] := by
  induction q with
  | nil => rfl
  | cons x q ih => exact ih

/-- In the thread of its caller the PDP does the same. -/
theorem path_inThread {α : Type} {p : Pdp.Deciding P α} {tr : Run P}
    {out : Except Exn (Except Pdp.Halt α)} :
    (inThread P p).Path tr out ↔ ∃ q o, tr = q.map pdpStep ∧ p.Path q o ∧ out = .ok o := by
  induction p generalizing tr with
  | ret a =>
    constructor
    · rintro ⟨rfl, rfl⟩
      exact ⟨[], .ok a, rfl, ⟨rfl, rfl⟩, rfl⟩
    · rintro ⟨q, o, rfl, ⟨rfl, rfl⟩, rfl⟩
      exact ⟨rfl, rfl⟩
  | raise e =>
    constructor
    · rintro ⟨rfl, rfl⟩
      exact ⟨[], .error e, rfl, ⟨rfl, rfl⟩, rfl⟩
    · rintro ⟨q, o, rfl, ⟨rfl, rfl⟩, rfl⟩
      exact ⟨rfl, rfl⟩
  | cmd c k ih =>
    constructor
    · rintro ⟨r, tr', rfl, hrest⟩
      obtain ⟨q, o, rfl, hpath, rfl⟩ := (ih r).1 hrest
      exact ⟨⟨c, r⟩ :: q, o, rfl, ⟨r, q, rfl, hpath⟩, rfl⟩
    · rintro ⟨_, o, rfl, ⟨r, q, rfl, hpath⟩, rfl⟩
      exact ⟨r, q.map pdpStep, rfl, (ih r).2 ⟨q, o, rfl, hpath, rfl⟩⟩

theorem inThread_issues {α : Type} (p : Pdp.Deciding P α) :
    (inThread P p).Issues fun c => ∃ q, c = .pdp q := by
  induction p with
  | ret a => trivial
  | raise e => trivial
  | cmd c k ih => exact ⟨⟨c, rfl⟩, ih⟩

theorem act_other {c : Cmd} (h : decides c = false) :
    act P calls done c = Prog.perform (R := Act.Resp P) (.gateway c) := by
  cases c with
  | env query =>
    cases query with
    | decide phase => cases h
    | _ => rfl
  | _ => rfl

/-- A call of `pdp.decide` is a call of `PDP.decide`. -/
theorem path_decideAct {phase : DecidePhase} {tr : Run P} {res : Except Exn Decision}
    (h : (act P calls done (.env (.decide phase))).Path tr (.ok res)) :
    ∃ q o, tr = q.map pdpStep ∧ (Pdp.decide P (calls done phase)).Path q o ∧ res = answered o := by
  change (inThread P (Pdp.decide P (calls done phase)) >>=
    fun o => (.ret (answered o) : SProg P (Except Exn Decision))).Path tr (.ok res) at h
  rcases Prog.path_bind.1 h with ⟨e, -, he⟩ | ⟨o, t₁, t₂, rfl, h₁, h₂⟩
  · cases he
  · obtain ⟨q, o', rfl, hpath, ho⟩ := path_inThread.1 h₁
    obtain ⟨rfl, hres⟩ := Prog.path_ret.1 h₂
    cases ho
    cases hres
    exact ⟨q, o, by rw [List.append_nil], hpath, rfl⟩

/-- Another step is itself. -/
theorem path_otherAct {c : Cmd} {tr : Run P} {r : c.Resp} (h : decides c = false)
    (hpath : (act P calls done c).Path tr (.ok r)) : tr = [⟨.gateway c, r⟩] := by
  rw [act_other h] at hpath
  obtain ⟨r', tr', rfl, rfl, hr⟩ := hpath
  cases hr
  rfl

/-- What a handler does in one step is in the PDP, or the step itself. -/
theorem reaches_act {c : Cmd} {tr : Run P} {d : Cmd} (h : (act P calls done c).Reaches tr (.gateway d)) :
    tr = [] ∧ c = d := by
  cases hc : decides c with
  | false =>
    rw [act_other hc] at h
    rcases h with ⟨rfl, hd⟩ | ⟨_, _, -, hend⟩
    · cases hd
      exact ⟨rfl, rfl⟩
    · exact absurd hend Prog.reaches_ret
  | true =>
    unfold decides at hc
    split at hc
    · rename_i phase
      change (inThread P (Pdp.decide P (calls done phase)) >>=
        fun o => (.ret (answered o) : SProg P (Except Exn Decision))).Reaches tr (.gateway d) at h
      rcases Prog.reaches_bind.1 h with h | ⟨o, _, _, -, -, hend⟩
      · obtain ⟨⟨q, hq⟩, -⟩ := Prog.Issues.of_reaches (inThread_issues _) h
        cases hq
      · exact absurd hend Prog.reaches_ret
    · cases hc

/-! ## The decisions of a run -/

/-- The calls of the PDP return what a run has been told. -/
def Asked (calls : List (Sigma Cmd.Resp) → DecidePhase → Pdp.Call) :
    List (Sigma Cmd.Resp) → List (Sigma Cmd.Resp) → Pdp.Steps P → Prop
  | _, [], q => q = []
  | done, ⟨.env (.decide phase), (res : Except Exn Decision)⟩ :: tr, q =>
    ∃ q₁ q₂ o, q = q₁ ++ q₂ ∧ (Pdp.decide P (calls done phase)).Path q₁ o ∧ res = answered o ∧
      Asked calls (done ++ [⟨.env (.decide phase), res⟩]) tr q₂
  | done, x :: tr, q => Asked calls (done ++ [x]) tr q

theorem asked_decided {phase : DecidePhase} {d : Decision} {tr : List (Sigma Cmd.Resp)} {q : Pdp.Steps P} :
    Asked calls done (decided phase d :: tr) q ↔ ∃ q₁ q₂ o, q = q₁ ++ q₂ ∧
      (Pdp.decide P (calls done phase)).Path q₁ o ∧ .ok d = answered o ∧
      Asked calls (done ++ [decided phase d]) tr q₂ := Iff.rfl

theorem asked_received {chunks : List Bytes × Option Exn} {tr : List (Sigma Cmd.Resp)} {q : Pdp.Steps P} :
    Asked calls done (received chunks :: tr) q ↔ Asked calls (done ++ [received chunks]) tr q := Iff.rfl

theorem asked_other {c : Cmd} {r : c.Resp} {tr : List (Sigma Cmd.Resp)} {q : Pdp.Steps P}
    (h : decides c = false) : Asked calls done (⟨c, r⟩ :: tr) q ↔ Asked calls (done ++ [⟨c, r⟩]) tr q := by
  cases c with
  | env query =>
    cases query with
    | decide phase => cases h
    | _ => exact Iff.rfl
  | _ => exact Iff.rfl

/-- A linked run asks what its program has been told, and nothing else. -/
theorem linked_asked (hcalls : ∀ done phase, calls done phase = calls (consultations done) phase)
    {tr : List (Sigma Cmd.Resp)} {steps : Run P} (h : Prog.Linked (act P calls) done tr steps) :
    Asked calls (consultations done) (consultations tr) steps.pdp := by
  induction tr generalizing done steps with
  | nil =>
    obtain rfl : steps = [] := h
    rfl
  | cons x tr ih =>
    obtain ⟨c, r⟩ := x
    obtain ⟨t, rest, rfl, hpath, hrest⟩ := h
    have hlater := ih hrest
    rw [consultations_append] at hlater
    cases hc : decides c with
    | true =>
      unfold decides at hc
      split at hc
      · obtain ⟨q, o, rfl, hdecide, hres⟩ := path_decideAct hpath
        refine ⟨q, Run.pdp rest, o, ?_, by rwa [← hcalls], hres, hlater⟩
        rw [Run.pdp_append, Run.pdp_map]
      · cases hc
    | false =>
      have ht := path_otherAct hc hpath
      rw [ht, Run.pdp_append]
      cases hcons : c.consults with
      | false =>
        rw [consultations_aside hcons] at hlater ⊢
        rw [consultations_nil, List.append_nil] at hlater
        exact hlater
      | true =>
        rw [consultations_call hcons] at hlater ⊢
        exact (asked_other hc).2 hlater

/-- After the last call that consults, the PDP is asked nothing. -/
theorem linked_last (hcalls : ∀ done phase, calls done phase = calls (consultations done) phase)
    {tr asked : List (Sigma Cmd.Resp)} {x : Sigma Cmd.Resp} {steps : Run P} (hx : decides x.1 = false)
    (h : Prog.Linked (act P calls) done tr steps) (hasked : consultations tr = asked ++ [x]) :
    ∃ before after, steps = before ++ ⟨.gateway x.1, x.2⟩ :: after ∧ Run.pdp after = [] := by
  obtain ⟨t₁, t₂, rfl, -, hlast⟩ := List.filter_eq_append_iff.1 hasked
  obtain ⟨t₃, t₄, rfl, -, -, hnone⟩ := List.filter_eq_cons_iff.1 hlast
  obtain ⟨s₁, s₂, rfl, -, h₂⟩ := Prog.linked_append.1 h
  obtain ⟨s₃, s₄, rfl, -, t, after, rfl, hpath, hafter⟩ := Prog.linked_append.1 h₂
  obtain rfl := path_otherAct hx hpath
  refine ⟨s₁ ++ s₃, after, (List.append_assoc ..).symm, ?_⟩
  have hrest := linked_asked hcalls hafter
  change consultations t₄ = [] at hnone
  rwa [hnone] at hrest

/-- Refusals of a slot ask nothing of the PDP. -/
theorem asked_slots {answers : List Bool} {tr : List (Sigma Cmd.Resp)} {q : Pdp.Steps P} :
    Asked calls done (answers.map slot ++ tr) q ↔ Asked calls (done ++ answers.map slot) tr q := by
  induction answers generalizing done with
  | nil => rw [List.map_nil, List.nil_append, List.append_nil]
  | cons granted answers ih =>
    rw [List.map_cons, List.cons_append]
    refine (asked_other rfl).trans (ih.trans ?_)
    rw [List.append_assoc]
    exact Iff.rfl

/-- What a linked run has done in the gateway is what its program has done, less the decisions. -/
theorem linked_gateway {tr : List (Sigma Cmd.Resp)} {steps : Run P}
    (h : Prog.Linked (act P calls) done tr steps) : steps.gateway = tr.filter fun x => !decides x.1 := by
  induction tr generalizing done steps with
  | nil =>
    obtain rfl : steps = [] := h
    rfl
  | cons x tr ih =>
    obtain ⟨d, r⟩ := x
    obtain ⟨t, rest, rfl, hpath, hrest⟩ := h
    rw [Run.gateway_append, ih hrest]
    cases hd : decides d with
    | true =>
      unfold decides at hd
      split at hd
      · obtain ⟨q, o, rfl, -⟩ := path_decideAct hpath
        rw [Run.gateway_map]
        rfl
      · cases hd
    | false =>
      rw [path_otherAct hd hpath, List.filter_cons_of_pos (by simp [hd])]
      rfl

theorem Run.mem_gateway {steps : Run P} {c : Cmd} {r : c.Resp}
    (h : (⟨.gateway c, r⟩ : Sigma (Act.Resp P)) ∈ steps) : ⟨c, r⟩ ∈ steps.gateway :=
  List.mem_filterMap.2 ⟨_, h, rfl⟩

theorem findSome?_filter {α β : Type} {f : α → Option β} {keep : α → Bool}
    (hf : ∀ x, keep x = false → f x = none) (xs : List α) : (xs.filter keep).findSome? f = xs.findSome? f := by
  induction xs with
  | nil => rfl
  | cons x xs ih =>
    cases hk : keep x with
    | false => rw [List.filter_cons_of_neg (by simp [hk]), ih, List.findSome?_cons, hf x hk]
    | true => rw [List.filter_cons_of_pos hk, List.findSome?_cons, List.findSome?_cons, ih]

theorem headRead_none {x : Sigma Cmd.Resp} (h : ∀ r, x ≠ ⟨.env .recvHead, r⟩) : headRead x = none := by
  unfold headRead
  split
  · exact absurd rfl (h _)
  · rfl

/-- The arguments depend on the decisions and the request alone. -/
theorem calls_consultations (rs : List Request) (done : List (Sigma Cmd.Resp)) (phase : DecidePhase) :
    Service.calls P rs done phase = Service.calls P rs (consultations done) phase := by
  have hadmission : (consultations done).findSome? admission = done.findSome? admission := by
    refine findSome?_filter (fun x hx => ?_) done
    unfold admission
    split
    · cases hx
    · rfl
  have hhead : (consultations done).findSome? headRead = done.findSome? headRead := by
    refine findSome?_filter (fun x hx => headRead_none ?_) done
    rintro r rfl
    cases hx
  unfold Service.calls
  rw [connectOf_congr (@slotAnswers_consultations done)]
  split
  · unfold arguments
    rw [hadmission, hhead]
  · rfl

/-- **A handler that connects**: its program does so with the decisions that the PDP has returned in its
thread, for the CONNECT that got the slot, all of them before its permit was issued, and it has not
connected before.  What it does later does not change whose slot it is. -/
theorem handler_connects {rs : List Request} {tr : Run P} {a c : String} {pin : Pin}
    (h : (handler P rs).Reaches tr (.gateway (.connect a c pin))) :
    ∃ r host port s d₁ d₂ d₃ chunks head asked, connectOf rs asked = some (r, host, port) ∧
      (∀ later, connectOf rs (tr.gateway ++ later) = some (r, host, port)) ∧
      Gateway.Consulted P.canonicalHost s host asked pin d₁ d₂ d₃ chunks head ∧
      Asked (Service.calls P rs) [] asked tr.pdp ∧ tr.gateway.findSome? headRead = asked.findSome? headRead ∧
      (∃ before permit after, tr = before ++ ⟨.gateway permit.1, permit.2⟩ :: after ∧ Run.pdp after = [] ∧
        IssuedFor d₃ permit) ∧
      ∀ x ∈ tr, x.1.isConnect = false := by
  obtain ⟨done, d, s₁, s₂, rfl, hreach, hlinked, hlast⟩ := Prog.reaches_link.1 h
  obtain ⟨rfl, rfl⟩ := reaches_act hlast
  obtain ⟨r, host, port, s, d₁, d₂, d₃, chunks, head, hconnect, hcons⟩ := Gateway.connects_handle hreach
  have hasked : slotAnswers (consultations done) = slotAnswers done := slotAnswers_consultations
  have hsteps : slotAnswers (Run.gateway s₁) = slotAnswers done := by
    rw [linked_gateway hlinked]
    exact slotAnswers_filter fun _ => rfl
  have hcalls := calls_consultations (P := P) rs
  rw [List.append_nil]
  refine ⟨r, host, port, s, d₁, d₂, d₃, chunks, head, consultations done, ?_, fun later => ?_, hcons, ?_, ?_, ?_,
    ?_⟩
  · rw [connectOf_congr hasked, hconnect]
  · rw [connectOf_append, connectOf_congr hsteps, hconnect]
    rw [hsteps, ← hasked]
    exact hcons.granted
  · exact linked_asked hcalls hlinked
  · rw [linked_gateway hlinked]
    refine (findSome?_filter (fun x hx => headRead_none ?_) done).trans
      (findSome?_filter (fun x hx => headRead_none ?_) done).symm
    all_goals
      rintro r rfl
      cases hx
  · obtain ⟨refusals, permit, horder, hissued⟩ := hcons.order
    have hother : decides permit.1 = false := by
      obtain ⟨_, _, _, _, rfl⟩ := hissued
      rfl
    rw [List.append_cons, List.append_cons, List.append_cons, List.append_cons] at horder
    obtain ⟨before, after, hsplit, hafter⟩ := linked_last hcalls hother hlinked horder
    exact ⟨before, permit, after, hsplit, hafter, hissued⟩
  · rintro ⟨act, r'⟩ hmem
    cases hact : act.isConnect with
    | false => rfl
    | true =>
      obtain ⟨a', c', pin', rfl⟩ := Act.isConnect_iff.1 hact
      have hdone : ⟨.connect a' c' pin', r'⟩ ∈ done := by
        have hmem := Run.mem_gateway hmem
        rw [linked_gateway hlinked] at hmem
        exact (List.mem_filter.1 hmem).1
      exact absurd rfl (hcons.fresh _ (List.mem_filter.2 ⟨hdone, rfl⟩) _ _ _)

end

end Service

end StrixPEP
