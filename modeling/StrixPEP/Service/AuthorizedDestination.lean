import StrixPEP.Gateway.Runs
import StrixPEP.Pdp.OpenPolicy
import StrixPEP.Pdp.Pinned
import StrixPEP.Service.Linked

/-!
# Where the gateway connects to

* `Warrant` — the three decisions behind a connection, with their grounds; what they must agree on is
  part of it;
* `Authorizes` — a policy lets a source reach an address;
* `warranted` — a handler that connects has a warrant, and its steps in the PDP are those of the
  warrant.

Principal results: `connect_authorized`, for one handler whatever it is told, and
`authorized_destination`, among any other threads.
-/

namespace StrixPEP.Service

open Threads Pdp

variable {P : Platform}

/-! ## What a policy authorizes -/

/-- The program may be used to reach the address. -/
structure Reachable (P : Platform) (program : Json) (pin : Pin) : Prop where
  listed : unauthorized program pin.ip = .ok false
  family : ∃ families, allowedFamilies program = .ok families ∧ pin.family.text ∈ families
  classified : ∃ exempt, (program.field "private_ip_exemptions" (.arr []) >>= Json.textSet) = .ok exempt ∧
    (classify pin.ip.toList (exempt.map String.toList)).ok = true
  port : ∃ ports, program.field "allowed_ports" (.arr []) = .ok ports ∧
    ports.hasPort P.floats pin.port = .ok true

/-- The policy lets the source reach the address with the method, in this program. -/
def Authorizes (P : Platform) (policy : Json) (srcIp method pid : String) (pin : Pin) : Prop :=
  ∃ program, programForSource srcIp policy = .ok (some (pid, program)) ∧ Reachable P program pin ∧
    Pdp.Permitted P program method

theorem admitTarget_ok {pid : String} {program : Json} {host : IpAddress.Text} {port : Nat}
    {exempt : List IpAddress.Text} (h : admitTarget P pid program host port = .ok exempt) :
    (∃ listed, (program.field "private_ip_exemptions" (.arr []) >>= Json.textSet) = .ok listed ∧
        exempt = listed.map String.toList) ∧
      ∃ ports, program.field "allowed_ports" (.arr []) = .ok ports ∧
        ports.hasPort P.floats port = .ok true := by
  unfold admitTarget at h
  simp only [Except.bind_eq_ok, raising_ok, denyIf_ok, Except.ok.injEq] at h
  obtain ⟨listed, hlisted, literal, -, _, -, allow, -, denied, -, inScope, -, _, -, ports, hports, open_, hopen,
    _, hclosed, rfl⟩ := h
  refine ⟨⟨listed, Except.bind_eq_ok.2 hlisted, rfl⟩, ports, hports, ?_⟩
  rw [hopen]
  simpa using hclosed

/-- A decision with a pin authorizes it. -/
theorem Grounds.authorizes {call : Pdp.Call} (g : Grounds P call) {pin : Pin} (hpin : call.pin = some pin)
    (hport : pin.port = call.port) : g.pin = pin ∧ Authorizes P g.policy call.srcIp call.method g.pid pin := by
  obtain ⟨hpinned, -, -⟩ := g.pinned pin hpin
  obtain ⟨hsame, hfamily, hclass, hlisted⟩ := pinnedDestination_ok.1 hpinned
  obtain ⟨⟨listed, hexempt, he⟩, ports, hports, hopen⟩ := admitTarget_ok g.admitted
  refine ⟨hsame, g.program, g.identified, ⟨hlisted, ⟨g.families, g.familyList, hfamily⟩, ?_, ?_⟩,
    admitMethod_ok.1 g.permitted⟩
  · exact ⟨listed, hexempt, he ▸ hclass⟩
  · rw [hport]
    exact ⟨ports, hports, hopen⟩

/-! ## The decisions behind a connection -/

/-- The three decisions behind a connection. -/
structure Warrant (P : Platform) (r : ConnectRequest) (host : String) (port : Nat) (pin : Pin) where
  method : String
  admission : Grounds P (connectCall r host port)
  request : Grounds P (tunnelCall P r host port method (some pin))
  recheck : Grounds P (tunnelCall P r host port method (some pin))
  pinned : admission.pin = pin
  requestPid : request.pid = admission.pid
  recheckPid : recheck.pid = admission.pid
  requestGeneration : request.generation = admission.generation
  recheckGeneration : recheck.generation = admission.generation

/-- `resolver.resolve(...)`. -/
def resolves : Pdp.Query → Bool
  | .resolve _ => true
  | _ => false

/-- `budgets.reserve(...)`. -/
def reserves : Pdp.Query → Bool
  | .reserve _ => true
  | _ => false

/-- Two decisions for one program, under one policy generation and one budget. -/
structure SameBinding (d d' : Pdp.Decision) : Prop where
  program : d.programId = d'.programId
  generation : (Decision.ofPdp d).policyGeneration = (Decision.ofPdp d').policyGeneration
  budget : (Decision.ofPdp d).budgetBinding = (Decision.ofPdp d').budgetBinding

/-- The same program and generation, for one asset: the same binding. -/
theorem sameBinding_of {call call' : Pdp.Call} {g : Grounds P call} {g' : Grounds P call'}
    (hasset : call.asset = call'.asset) (hpid : g.pid = g'.pid) (hgen : g.generation = g'.generation) :
    SameBinding g.decision g'.decision := by
  have hbudget : budgetBinding g.pid call.asset = budgetBinding g'.pid call'.asset := by rw [hpid, hasset]
  exact ⟨congrArg some hpid, hgen, hbudget⟩

namespace Warrant

variable {r : ConnectRequest} {host : String} {port : Nat} {pin : Pin}

/-- What a connection has asked of the PDP. -/
def steps (W : Warrant P r host port pin) : Steps P := W.admission.steps ++ W.request.steps ++ W.recheck.steps

/-- The address was resolved for the CONNECT, on its port. -/
theorem port_eq (W : Warrant P r host port pin) : pin.port = port := by
  obtain ⟨res, -, hres, -⟩ := W.admission.resolved rfl
  obtain ⟨-, -, -, -, -, -, hport⟩ := resolvedDestination_ok.1 hres
  exact W.pinned ▸ hport

/-- The last policy that was read authorizes the destination. -/
theorem authorizes (W : Warrant P r host port pin) :
    Authorizes P W.recheck.policy r.clientIp W.method W.admission.pid pin := by
  have h := (Grounds.authorizes W.recheck rfl W.port_eq).2
  rwa [W.recheckPid] at h

/-- The resolver and the budgets are asked once in the CONNECT decision. -/
theorem asks_admission (W : Warrant P r host port pin) :
    W.admission.steps.countP (fun x => resolves x.1) = 1 ∧
      W.admission.steps.countP (fun x => reserves x.1) = 1 := by
  obtain ⟨res, hsteps⟩ := W.admission.steps_unpinned rfl
  rw [hsteps]
  exact ⟨rfl, rfl⟩

/-- In the others they are not. -/
theorem asks_tunnel (W : Warrant P r host port pin) : ∀ x ∈ W.request.steps ++ W.recheck.steps,
    resolves x.1 = false ∧ reserves x.1 = false := by
  rw [W.request.steps_pinned rfl, W.recheck.steps_pinned rfl]
  intro x hx
  simp only [List.cons_append, List.nil_append, List.mem_cons, List.not_mem_nil, or_false] at hx
  rcases hx with rfl | rfl | rfl | rfl | rfl | rfl <;> exact ⟨rfl, rfl⟩

/-- The resolver and the budgets are asked in the CONNECT decision, and in no other. -/
theorem steps_eq (W : Warrant P r host port pin) : ∃ res, W.steps =
    [⟨.policy, (.ok W.admission.policy : Except String Json)⟩, ⟨.killed, false⟩, ⟨.now, W.admission.now⟩,
      ⟨.resolve (String.ofList W.admission.host), (.ok res : Except String Resolution)⟩,
      ⟨.reserve W.admission.specs, (.ok none : Except PyError (Option String))⟩,
      ⟨.policy, (.ok W.request.policy : Except String Json)⟩, ⟨.killed, false⟩, ⟨.now, W.request.now⟩,
      ⟨.policy, (.ok W.recheck.policy : Except String Json)⟩, ⟨.killed, false⟩, ⟨.now, W.recheck.now⟩] := by
  obtain ⟨res, hsteps⟩ := W.admission.steps_unpinned rfl
  refine ⟨res, ?_⟩
  unfold steps
  rw [hsteps, W.request.steps_pinned rfl, W.recheck.steps_pinned rfl]
  rfl

end Warrant

/-! ## A handler that connects -/

/-- What a handler takes for an allowing decision is one. -/
theorem answered_allow {o : Except Halt Pdp.Decision} {d : StrixPEP.Decision} (h : .ok d = answered o)
    (hallow : d.allow = true) : ∃ D, o = .ok D ∧ d = .ofPdp D := by
  cases o with
  | ok D =>
    cases h
    exact ⟨D, rfl, rfl⟩
  | error e =>
    cases e with
    | denied e =>
      cases h
      cases hallow
    | raised e => cases h

/-- An allowing decision has grounds. -/
theorem grounds_of_asked {call : Pdp.Call} {q : Steps P} {o : Except Halt Pdp.Decision} {d : StrixPEP.Decision}
    (hpath : (Pdp.decide P call).Path q o) (h : .ok d = answered o) (hallow : d.allow = true) :
    ∃ g : Grounds P call, d = .ofPdp g.decision ∧ q = g.steps := by
  obtain ⟨D, rfl, rfl⟩ := answered_allow h hallow
  obtain ⟨g, rfl, hq⟩ := path_decide.1 ⟨hpath, hallow⟩
  exact ⟨g, rfl, hq⟩

theorem budgetBinding_inj {p q : String} (asset : String) (h : budgetBinding p asset = budgetBinding q asset) :
    p = q := by
  have hlists := congrArg String.toList h
  simp only [budgetBinding, toString, String.toList_append] at hlists
  exact String.toList_injective (by simpa using hlists)

/-- **A handler that connects has a warrant** for the request that it has read, and its steps in the PDP are
those of the warrant, all of them before its permit was issued. -/
theorem warranted {rs : List Request} {tr : Run P} {a c : String} {pin : Pin}
    (h : (handler P rs).Reaches tr (.gateway (.connect a c pin))) :
    ∃ r host port head, (∀ later, connectOf rs (tr.gateway ++ later) = some (r, host, port)) ∧
      ∃ W : Warrant P r host port pin, tr.pdp = W.steps ∧ tr.gateway.findSome? headRead = some head ∧
        W.method = head.method ∧ ∃ before permit after, tr = before ++ ⟨.gateway permit.1, permit.2⟩ :: after ∧
          Run.pdp after = [] ∧ IssuedFor (.ofPdp W.recheck.decision) permit := by
  obtain ⟨r, host, port, s, d₁, d₂, d₃, chunks, head, asked, hconnect, hlater, hcons, hasked, hhead,
    hpermit, -⟩ := handler_connects h
  refine ⟨r, host, port, head, hlater, ?_⟩
  obtain ⟨⟨refusals, permit, horder, hissued⟩, hadmitted, hread, hagree⟩ := hcons
  subst horder
  generalize hslots : (List.replicate refusals false ++ [true]).map slot = slots at hconnect hasked hhead
  have hgranted : true ∈ slotAnswers slots := by
    rw [← hslots]
    exact List.mem_filterMap.2 ⟨slot true, by simp, rfl⟩
  rw [connectOf_append hgranted] at hconnect
  have hcalls : ∀ tr phase, Service.calls P rs (slots ++ tr) phase =
      arguments P r host port (slots ++ tr) phase := by
    intro tr phase
    unfold Service.calls
    rw [connectOf_append hgranted, hconnect]
  have hskip : ∀ {α : Type} (f : Sigma Cmd.Resp → Option α) (tr : List (Sigma Cmd.Resp)),
      (∀ granted, f (slot granted) = none) → (slots ++ tr).findSome? f = tr.findSome? f := by
    intro α f tr hf
    rw [List.findSome?_append, List.findSome?_eq_none_iff.2 fun x hx => ?_, Option.none_or]
    rw [← hslots] at hx
    obtain ⟨granted, -, rfl⟩ := List.mem_map.1 hx
    exact hf granted
  rw [← hslots, asked_slots, hslots, List.nil_append] at hasked
  obtain ⟨q₁, rest₁, o₁, hq, hpath₁, hres₁, hasked⟩ := asked_decided.1 hasked
  obtain ⟨q₂, rest₂, o₂, rfl, hpath₂, hres₂, hasked⟩ := asked_decided.1 (asked_received.1 hasked)
  obtain ⟨q₃, rest₃, o₃, rfl, hpath₃, hres₃, hend⟩ := asked_decided.1 hasked
  obtain ⟨_, _, _, _, rfl⟩ := hissued
  obtain rfl : rest₃ = [] := (asked_other rfl).1 hend
  have hcall₁ := hcalls [] .admission
  rw [List.append_nil] at hcall₁
  rw [hcall₁] at hpath₁
  change (Pdp.decide P (connectCall r host port)).Path q₁ o₁ at hpath₁
  obtain ⟨g₁, rfl, rfl⟩ := grounds_of_asked hpath₁ hres₁ hadmitted
  have hpin : g₁.pin = pin := Option.some.inj hagree.pinned
  have hreceived : headRead (received chunks) = some head := by
    unfold headRead received
    simp [hread]
  have hpass : headRead (decided .admission (.ofPdp g₁.decision)) = none := rfl
  -- inside the tunnel the calls carry the pin of the first decision and the method of the request
  have htunnel : ∀ tr phase, phase ≠ .admission → Service.calls P rs
      (slots ++ decided .admission (.ofPdp g₁.decision) :: received chunks :: tr) phase =
        tunnelCall P r host port head.method (some pin) := by
    intro tr phase hphase
    have hadm : (slots ++ decided .admission (.ofPdp g₁.decision) :: received chunks :: tr).findSome? admission =
        some (.ofPdp g₁.decision) := hskip _ _ fun _ => rfl
    have hread : (slots ++ decided .admission (.ofPdp g₁.decision) :: received chunks :: tr).findSome? headRead =
        some head := by
      rw [hskip _ _ fun _ => rfl, List.findSome?_cons, hpass, List.findSome?_cons, hreceived]
    rw [hcalls]
    cases phase with
    | admission => exact absurd rfl hphase
    | request | recheck =>
      unfold arguments
      rw [hadm, hread, ← hpin]
      rfl
  simp only [List.append_assoc, List.cons_append, List.nil_append] at hpath₂ hpath₃
  rw [htunnel [] .request nofun] at hpath₂
  rw [htunnel [decided .request d₂] .recheck nofun] at hpath₃
  obtain ⟨g₂, rfl, rfl⟩ := grounds_of_asked hpath₂ hres₂ hagree.requested
  obtain ⟨g₃, rfl, rfl⟩ := grounds_of_asked hpath₃ hres₃ hagree.rechecked
  have hbind₂ : g₂.pid = g₁.pid := budgetBinding_inj r.asset hagree.requestBinding
  have hgen₂ : g₂.generation = g₁.generation := hagree.requestGeneration
  have hgen₃ : g₃.generation = g₂.generation := hagree.recheckGeneration
  have hpid₃ : g₃.pid = g₁.pid := Option.some.inj hagree.sameProgram
  refine ⟨⟨head.method, g₁, g₂, g₃, hpin, hbind₂, hpid₃, hgen₂, hgen₃.trans hgen₂⟩, ?_, ?_, rfl, hpermit⟩
  · rw [hq, List.append_nil]
    exact (List.append_assoc ..).symm
  · rw [hhead, hskip _ _ fun _ => rfl, List.findSome?_cons, hpass, List.findSome?_cons, hreceived]

/-- **A handler connects where its decisions say**, whatever its client sends, whatever policies it reads and
whatever the resolver and the clock answer: it has made three calls of `decide` that allow, all before its
permit was issued; the first has asked the resolver and the budgets, once each, and returned the pin; the
last has read a policy that authorizes it; and the three agree in program, generation and budget. -/
theorem connect_authorized {rs : List Request} {tr : Run P} {a c : String} {pin : Pin}
    (h : (handler P rs).Reaches tr (.gateway (.connect a c pin))) :
    ∃ r host port head before permit after,
      connectOf rs tr.gateway = some (r, host, port) ∧ tr.gateway.findSome? headRead = some head ∧
      tr = before ++ ⟨.gateway permit.1, permit.2⟩ :: after ∧ Run.pdp after = [] ∧
      ∃ d₁ d₂ d₃ q₁ q₂ q₃, Run.pdp before = q₁ ++ q₂ ++ q₃ ∧
        Allows P (connectCall r host port) q₁ d₁ ∧
        Allows P (tunnelCall P r host port head.method d₁.pin) q₂ d₂ ∧
        Allows P (tunnelCall P r host port head.method d₁.pin) q₃ d₃ ∧
        d₁.pin = some pin ∧ IssuedFor (.ofPdp d₃) permit ∧
        q₁.countP (fun x => resolves x.1) = 1 ∧ q₁.countP (fun x => reserves x.1) = 1 ∧
        (∀ x ∈ q₂ ++ q₃, resolves x.1 = false ∧ reserves x.1 = false) ∧
        (∃ policy pid, q₃.head? = some ⟨.policy, (.ok policy : Except String Json)⟩ ∧ d₃.programId = some pid ∧
          Authorizes P policy r.clientIp head.method pid pin) ∧
        SameBinding d₂ d₁ ∧ SameBinding d₃ d₂ := by
  obtain ⟨r, host, port, head, hlater, W, hsteps, hhead, hmethod, before, permit, after, hsplit, hafter,
    hissued⟩ := warranted h
  have hconnect := hlater []
  rw [List.append_nil] at hconnect
  have hbefore : Run.pdp before = W.steps := by
    have hpdp : Run.pdp (⟨.gateway permit.1, permit.2⟩ :: after) = Run.pdp after := rfl
    rw [← hsteps, hsplit, Run.pdp_append, hpdp, hafter, List.append_nil]
  have hpin : W.admission.decision.pin = some pin := congrArg some W.pinned
  refine ⟨r, host, port, head, before, permit, after, hconnect, hhead, hsplit, hafter, W.admission.decision,
    W.request.decision, W.recheck.decision, _, _, _, hbefore, W.admission.allows, ?_, ?_, hpin, hissued,
    W.asks_admission.1, W.asks_admission.2, W.asks_tunnel, ?_, ?_, ?_⟩
  · rw [hpin, ← hmethod]
    exact W.request.allows
  · rw [hpin, ← hmethod]
    exact W.recheck.allows
  · rw [← hmethod, W.recheck.steps_pinned rfl]
    exact ⟨_, _, rfl, congrArg some W.recheckPid, W.authorizes⟩
  · exact sameBinding_of rfl W.requestPid W.requestGeneration
  · exact sameBinding_of rfl (W.recheckPid.trans W.requestPid.symm)
      (W.recheckGeneration.trans W.requestGeneration.symm)

/-- The other threads do not connect. -/
theorem undeciding_quiet {p : GProg Unit} (hp : Aside p) {tr : Run P} {a c : String} {pin : Pin} :
    ¬ (undeciding P p).Reaches tr (.gateway (.connect a c pin)) := by
  intro h
  obtain ⟨done, d, s₁, s₂, rfl, hreach, -, hlast⟩ := Prog.reaches_link.1 h
  obtain ⟨-, rfl⟩ := reaches_act hlast
  exact hp.not_connects hreach

/-- Only handlers connect. -/
theorem pool_connects {args : QuiesceArgs} {clients : Nat → List Request} {i : Nat} {tr : Run P}
    {a c : String} {pin : Pin} (h : (pool P args clients i).Reaches tr (.gateway (.connect a c pin))) :
    ∃ j, i = j + 2 ∧ (handler P (clients j)).Reaches tr (.gateway (.connect a c pin)) := by
  match i with
  | 0 => exact absurd h (undeciding_quiet (Quiesce.aside_canceller args))
  | 1 => exact absurd h (undeciding_quiet Quiesce.aside_listener)
  | j + 2 => exact ⟨j, rfl, h⟩

/-- **Authorized destination.**  Whatever the clients send, whatever policies are read and whatever the
resolver and the clock answer, a thread that is about to call `plain.connect` has made three decisions
that allow, and has asked the resolver and the budgets once, in the first of them: it connects to the pin
of that decision, which the last policy that it read authorizes; program, policy generation and budget
are the same in all three. -/
theorem authorized_destination {provides : Json → Bool} {args : QuiesceArgs} {clients : Nat → List Request}
    {start : World × Desk} {cfg : Config Exn Act (Act.Resp P) ((World × Desk) × List (Nat × Sigma (Act.Resp P)))}
    (h : Reach (machine P provides).recorded ⟨(start, []), pool P args clients⟩ cfg) {i : Nat} {a c : String}
    {pin : Pin} {k} (hnext : cfg.pool i = .cmd (.gateway (.connect a c pin)) k) :
    ∃ j r host port head, i = j + 2 ∧
      connectOf (clients j) (Run.gateway (Traces.own cfg.state.2 i)) = some (r, host, port) ∧
      (Run.gateway (Traces.own cfg.state.2 i)).findSome? headRead = some head ∧
      ∃ W : Warrant P r host port pin, Run.pdp (Traces.own cfg.state.2 i) = W.steps ∧ W.method = head.method ∧
        W.admission.steps.countP (fun x => resolves x.1) = 1 ∧
        W.admission.steps.countP (fun x => reserves x.1) = 1 ∧
        (∀ x ∈ W.request.steps ++ W.recheck.steps, resolves x.1 = false ∧ reserves x.1 = false) ∧
        Authorizes P W.recheck.policy r.clientIp W.method W.admission.pid pin ∧ pin.port = port := by
  have htrail := trail_of_reach h rfl i
  rw [hnext] at htrail
  have hreach : (pool P args clients i).Reaches (Traces.own cfg.state.2 i) (.gateway (.connect a c pin)) :=
    htrail.reaches_next
  obtain ⟨j, rfl, hreach⟩ := pool_connects hreach
  obtain ⟨r, host, port, head, hlater, W, hsteps, hhead, hmethod, -⟩ := warranted hreach
  have hconnect := hlater []
  rw [List.append_nil] at hconnect
  exact ⟨j, r, host, port, head, rfl, hconnect, hhead, W, hsteps, hmethod, W.asks_admission.1,
    W.asks_admission.2, W.asks_tunnel, W.authorizes, W.port_eq⟩

/-! ## A run -/

namespace OpenRun

/-- A configuration with the record of its steps. -/
abbrev Recorded := Config Exn Act (Act.Resp asciiPlatform)
  ((World × Desk) × List (Nat × Sigma (Act.Resp asciiPlatform)))

/-- `CONNECT / HTTP/1.1`, `Host: 8.8.8.8`. -/
def head : Bytes :=
  [67, 79, 78, 78, 69, 67, 84, 32, 47, 32, 72, 84, 84, 80, 47, 49, 46, 49, 13, 10, 72, 111, 115, 116, 58, 32, 56,
    46, 56, 46, 56, 46, 56, 13, 10, 13, 10]

/-- Every request to the environment goes through. -/
def fair : (q : StrixPEP.Query) → Except Exn q.Result
  | .recvHead => .ok ([head], none)
  | q => Replay.fair q

/-- The gateway answers as in its own runs, the PDP under the open policy with this cap. -/
def reply (cap : Json) (i : Nat) :
    (c : Act) → (World × Desk) × List (Nat × Sigma (Act.Resp asciiPlatform)) → Option (Act.Resp asciiPlatform c)
  | .gateway c, s => Replay.reply fair Replay.accept i c s.1.1
  | .pdp q, s => some ((openEnv asciiPlatform "lab" cap).answer asciiPlatform i q s.1.2).1

/-- Clients that connect to the open address. -/
def clients (_ : Nat) : List Request := [.connect ⟨"8.8.8.8:443", 0, "10.0.0.1", "", "", "", "", ""⟩]

def start : Recorded :=
  ⟨((World.fresh 8 Replay.boot.audit Replay.boot.listener, ⟨[], []⟩), []),
    pool asciiPlatform ⟨false, false⟩ clients⟩

/-- The threads of the list take one step each. -/
def run (provides : Json → Bool) (cap : Json) (is : List Nat) : Option Recorded :=
  schedule (machine asciiPlatform provides).recorded (reply cap) is start

/-- The next step of thread `2` is `plain.connect`. -/
def connecting (cfg : Recorded) : Bool :=
  match cfg.pool 2 with
  | .cmd (.gateway (.connect _ _ _)) _ => true
  | _ => false

end OpenRun

/-- Forty steps of its thread bring a handler to its connection. -/
theorem OpenRun.connects : ∃ cfg a c pin k,
    Reach (machine asciiPlatform fun _ => true).recorded OpenRun.start cfg ∧
      cfg.pool 2 = .cmd (.gateway (.connect a c pin)) k := by
  have hrun : (OpenRun.run (fun _ => true) .null (List.replicate 40 2)).any OpenRun.connecting = true := by
    decide +kernel
  rw [Option.any_eq_true] at hrun
  obtain ⟨cfg, hrun, hconnecting⟩ := hrun
  unfold OpenRun.connecting at hconnecting
  split at hconnecting
  · rename_i a c pin k hnext
    exact ⟨cfg, a, c, pin, k, schedule_reach hrun, hnext⟩
  · cases hconnecting

/-- The client of the run is the one that connects. -/
theorem OpenRun.client {tr : List (Sigma Cmd.Resp)} {r : ConnectRequest} {host : String} {port i : Nat}
    (h : connectOf (OpenRun.clients i) tr = some (r, host, port)) : r.clientIp = "10.0.0.1" := by
  obtain ⟨req, hreq, hslotted⟩ := mem_of_connectOf h
  obtain ⟨_, _, _, hr, -, hfound⟩ := slotted_some hslotted
  cases (List.mem_singleton.1 hreq).symm.trans hr
  cases hfound
  rfl

theorem connect_authorized_open : ∃ (tr : Run asciiPlatform) (a c : String) (pin : Pin),
    (handler asciiPlatform (OpenRun.clients 0)).Reaches tr (.gateway (.connect a c pin)) ∧
      ∃ policy method pid, Authorizes asciiPlatform policy "10.0.0.1" method pid pin := by
  obtain ⟨cfg, a, c, pin, k, hreach, hnext⟩ := OpenRun.connects
  have htrail := trail_of_reach hreach rfl 2
  rw [hnext] at htrail
  have hconnects : (handler asciiPlatform (OpenRun.clients 0)).Reaches (Traces.own cfg.state.2 2)
      (.gateway (.connect a c pin)) := htrail.reaches_next
  obtain ⟨r, host, port, head, _, _, _, hconnect, -, -, -, _, _, _, _, _, _, -, -, -, -, -, -, -, -, -,
    ⟨policy, pid, -, -, hauth⟩, -⟩ := connect_authorized hconnects
  rw [OpenRun.client hconnect] at hauth
  exact ⟨_, a, c, pin, hconnects, policy, head.method, pid, hauth⟩

theorem authorized_destination_open : ∃ cfg a c pin k,
    Reach (machine asciiPlatform fun _ => true).recorded OpenRun.start cfg ∧
      cfg.pool 2 = .cmd (.gateway (.connect a c pin)) k ∧
      ∃ policy method pid, Authorizes asciiPlatform policy "10.0.0.1" method pid pin := by
  obtain ⟨cfg, a, c, pin, k, hreach, hnext⟩ := OpenRun.connects
  obtain ⟨j, r, host, port, _, -, hconnect, -, W, -, -, -, -, -, hauth, -⟩ :=
    authorized_destination hreach hnext
  rw [OpenRun.client hconnect] at hauth
  exact ⟨cfg, a, c, pin, k, hreach, hnext, _, _, _, hauth⟩

end StrixPEP.Service
