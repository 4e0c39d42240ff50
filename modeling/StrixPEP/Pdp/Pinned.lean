import StrixPEP.Pdp.OpenPolicy

/-!
# A decision with the pin of an earlier one

The gateway decides twice for a connection: once for `CONNECT`, which resolves, and again for the
request inside the tunnel, with the pin of the first decision and the canonical host as authority.

* `Permitted` — what the program says of a method;
* `Grounds.again` — the grounds of the first decision are grounds of the second.

Principal result: `pinned_agrees`.
-/

namespace StrixPEP.Pdp

open IpAddress (Text)
open Threads

/-- `allow_connect` for `CONNECT`, otherwise `method.upper() in allowed_methods`. -/
def Permitted (P : Platform) (program : Json) (method : String) : Prop :=
  if P.upper method = "CONNECT" then ∃ v, program.get "allow_connect" = .ok v ∧ v.truthy = true
  else
    ∃ methods, program.field "allowed_methods" (.arr []) = .ok methods ∧
      methods.hasText (P.upper method) = .ok true

/-- The method is permitted for the program of the source. -/
def PermittedFrom (P : Platform) (policy : Json) (srcIp method : String) : Prop :=
  ∃ pid program, programForSource srcIp policy = .ok (some (pid, program)) ∧ Permitted P program method

variable {P : Platform}

/-! ## The checks in which the two paths differ -/

theorem admitMethod_ok {pid method : String} {program : Json} {u : Unit} :
    admitMethod P pid program method = .ok u ↔ Permitted P program method := by
  unfold admitMethod Permitted
  split
  · simp only [Except.bind_eq_ok, raising_ok, denyIf_ok, Bool.not_eq_false']
  · simp only [Except.bind_eq_ok, raising_ok, denyIf_ok, Bool.not_eq_false']
    refine exists_congr fun methods => and_congr_right fun _ => ?_
    constructor
    · rintro ⟨listed, hlisted, rfl⟩
      exact hlisted
    · intro h
      exact ⟨true, h, rfl⟩

theorem pinnedDestination_ok {pid : String} {program : Json} {exemptions : List Text}
    {families : List String} {given pin : Pin} :
    pinnedDestination pid program exemptions families given = .ok pin ↔
      pin = given ∧ given.family.text ∈ families ∧ (classify given.ip.toList exemptions).ok = true ∧
        unauthorized program given.ip = .ok false := by
  unfold pinnedDestination
  simp only [Except.bind_eq_ok, raising_ok, denyIf_ok, decide_eq_false_iff_not, not_not,
    Bool.not_eq_false', Except.ok.injEq, exists_and_left, exists_const]
  constructor
  · rintro ⟨hfamily, hclass, bad, hbad, rfl, rfl⟩
    exact ⟨rfl, hfamily, hclass, hbad⟩
  · rintro ⟨rfl, hfamily, hclass, hbad⟩
    exact ⟨hfamily, hclass, false, hbad, rfl, rfl⟩

/-- The chosen address is one of the answers, in an allowed family. -/
theorem chooseAddress_ok {pid : String} {families : List String} {res : Resolution} {family : Family}
    {ip : String} (h : chooseAddress pid families res = .ok (family, ip)) :
    family.text ∈ families ∧ (family, ip) ∈ res.answers := by
  unfold chooseAddress at h
  unfold Resolution.answers
  split at h
  · exact absurd h refuse_ok
  rename_i hv6
  split at h
  · rename_i ip' rest hres
    cases h
    rw [hres] at hv6 ⊢
    refine ⟨?_, by simp⟩
    by_contra hcontra
    exact hv6 ⟨List.cons_ne_nil _ _, hcontra⟩
  · rename_i ip' rest hres
    split at h
    · exact absurd h refuse_ok
    · rename_i hv4
      cases h
      refine ⟨not_not.1 hv4, ?_⟩
      rw [hres]
      simp
  · exact absurd h refuse_ok

/-- What the resolving path accepts, the pinned path accepts. -/
theorem pinned_of_resolved {pid : String} {program : Json} {exemptions : List Text}
    {families : List String} {port : Nat} {pin : Pin} {res : Resolution}
    (h : resolvedDestination pid program exemptions families port (.ok res) = .ok (pin, res)) :
    pinnedDestination pid program exemptions families pin = .ok pin := by
  obtain ⟨-, -, -, hanswers, hchosen, hauth, -⟩ := resolvedDestination_ok.1 h
  obtain ⟨hfamily, hmem⟩ := chooseAddress_ok hchosen
  have hclass : (classify pin.ip.toList exemptions).ok = true := hanswers (pin.family, pin.ip) hmem
  exact pinnedDestination_ok.2 ⟨rfl, hfamily, hclass, hauth⟩

/-! ## The second decision -/

/-- The second call. -/
def Call.again (call : Call) (host : Text) (method : String) (pin : Pin) : Call :=
  { call with authority := String.ofList host, method := method, pin := some pin }

/-- The grounds of the second decision. -/
def Grounds.again {call : Call} (g : Grounds P call) (hnone : call.pin = none)
    (hfix : canonicalHost P.tables P.idna g.host = some g.host) {method : String}
    (hm : Permitted P g.program method) : Grounds P (call.again g.host method g.pin) where
  policy := g.policy
  pid := g.pid
  program := g.program
  record := g.record
  expires := g.expires
  now := g.now
  host := g.host
  exemptions := g.exemptions
  families := g.families
  pin := g.pin
  resolution := none
  secret := g.secret
  specs := []
  generation := g.generation
  identified := g.identified
  authorized := g.authorized
  unexpired := g.unexpired
  canonical := by
    change canonicalHost P.tables P.idna (String.ofList g.host).toList = _
    rw [String.toList_ofList, hfix]
  admitted := g.admitted
  permitted := admitMethod_ok.2 hm
  familyList := g.familyList
  pinned := by
    intro given hgiven
    obtain rfl := Option.some.inj hgiven
    obtain ⟨res, -, hpin, -⟩ := g.resolved hnone
    exact ⟨pinned_of_resolved hpin, rfl, rfl⟩
  resolved := nofun
  credential := g.credential
  generated := g.generated

/-- What a call alone has seen of its world. -/
theorem Grounds.Seen.world {env : Env P.floats} {i : Nat} {call : Call} {g : Grounds P call} {s s' : Desk}
    (h : g.Seen (env.answer P i) s s') :
    env.policy = .ok g.policy ∧ env.killed = false ∧ env.now = g.now := by
  obtain ⟨s₁, s₂, s₃, hpolicy, hkilled, hnow, -⟩ := h
  exact ⟨(Prod.mk.inj hpolicy).1, (Prod.mk.inj hkilled).1, (Prod.mk.inj hnow).1⟩

/-- **A second decision with the pin of the first.** In a world with the same policy, kill file and
clock, and any resolver, it allows exactly if the method is permitted; then it returns the same pin,
program, secret and detail, asks no resolver and reserves nothing. -/
theorem pinned_agrees {env env' : Env P.floats} (hpolicy : env'.policy = env.policy)
    (hkilled : env'.killed = env.killed) (hnow : env'.now = env.now) {i j : Nat} {call : Call}
    (hnone : call.pin = none) {host : Text}
    (hhost : canonicalHost P.tables P.idna call.authority.toList = some host)
    (hfix : canonicalHost P.tables P.idna host = some host) {s s' : Desk} {d : Decision}
    (hrun : Prog.runWith (env.answer P i) (decide P call) s = (.ok d, s')) (hallow : d.allow = true)
    {pin : Pin} (hpin : d.pin = some pin) (method : String) (t : Desk) :
    ((∃ d' t', Prog.runWith (env'.answer P j) (decide P (call.again host method pin)) t = (.ok d', t') ∧
        d'.allow = true) ↔
      ∃ policy, env.policy = .ok policy ∧ PermittedFrom P policy call.srcIp method) ∧
    ∀ d' t', Prog.runWith (env'.answer P j) (decide P (call.again host method pin)) t = (.ok d', t') →
      d'.allow = true →
      d'.pin = some pin ∧ d'.programId = d.programId ∧ d'.secret = d.secret ∧ d'.detail = d.detail ∧ t' = t := by
  obtain ⟨g, rfl, hseen⟩ := allows_iff.1 ⟨hrun, hallow⟩
  obtain ⟨hread, halive, hclock⟩ := hseen.world
  cases hhost.symm.trans g.canonical
  cases hpin
  -- the method decides, since nothing else differs between the two calls
  have hsecond : ∀ hm : Permitted P g.program method,
      Prog.runWith (env'.answer P j) (decide P (call.again g.host method g.pin)) t =
        (.ok (g.again hnone hfix hm).decision, t) := by
    intro hm
    refine (allows_iff.2 ⟨g.again hnone hfix hm, rfl, t, t, t, ?_, ?_, ?_, Or.inl ⟨g.pin, rfl, rfl⟩⟩).1
    · exact Prod.ext (hpolicy.trans hread) rfl
    · exact Prod.ext (hkilled.trans halive) rfl
    · exact Prod.ext (hnow.trans hclock) rfl
  have hpermitted : ∀ d' t', Prog.runWith (env'.answer P j) (decide P (call.again g.host method g.pin)) t =
      (.ok d', t') → d'.allow = true → Permitted P g.program method := by
    intro d' t' hrun' hallow'
    obtain ⟨g', rfl, hseen'⟩ := allows_iff.1 ⟨hrun', hallow'⟩
    have hsame : g'.policy = g.policy :=
      Except.ok.inj ((hseen'.world.1.symm.trans hpolicy).trans hread)
    have hid : programForSource call.srcIp g.policy = .ok (some (g'.pid, g'.program)) :=
      hsame ▸ g'.identified
    have hprog := hid.symm.trans g.identified
    simp only [Except.ok.injEq, Option.some.injEq, Prod.mk.injEq] at hprog
    rw [← hprog.2]
    exact admitMethod_ok.1 g'.permitted
  refine ⟨⟨?_, ?_⟩, ?_⟩
  · rintro ⟨d', t', hrun', hallow'⟩
    exact ⟨g.policy, hread, g.pid, g.program, g.identified, hpermitted d' t' hrun' hallow'⟩
  · rintro ⟨policy, hp, pid, program, hid, hm⟩
    cases hread.symm.trans hp
    cases g.identified.symm.trans hid
    exact ⟨_, _, hsecond hm, rfl⟩
  · intro d' t' hrun' hallow'
    have hm := hpermitted d' t' hrun' hallow'
    obtain ⟨hd, rfl⟩ := Prod.mk.inj ((hsecond hm).symm.trans hrun')
    cases hd
    exact ⟨rfl, rfl, rfl, rfl, rfl⟩

/-- Under an open policy the second `CONNECT` of a connection is allowed. -/
theorem pinned_agrees_open :
    ∃ d t, Prog.runWith ((openEnv asciiPlatform "lab" .null).answer asciiPlatform 0)
        (decide asciiPlatform ((openCall "").again openAddress.toList "CONNECT" openPin)) ⟨[], []⟩ =
          (.ok d, t) ∧ d.allow = true := by
  have hrun := open_decides (P := asciiPlatform) (i := 0) (s := ⟨[], []⟩) (open_uncapped [] "lab" "")
  exact (pinned_agrees rfl rfl rfl rfl open_canonical open_canonical hrun rfl rfl "CONNECT" ⟨[], []⟩).1.2
    ⟨_, rfl, "lab", _, open_source "lab" .null, admitMethod_ok.1 (open_permitted "lab" .null)⟩

end StrixPEP.Pdp
