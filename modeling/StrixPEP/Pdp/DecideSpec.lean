import StrixPEP.Pdp.Decide

/-!
# What an allowing decision has established

* `Grounds` — everything that an allowing call of `decide` computes, with every check passed;
* `Grounds.decision` — the decision that it returns;
* `Grounds.Seen` — the answers that it got, in the order in which it asked.

Principal results: `decide_allows` and `allows_iff`, a call allows exactly if it has grounds.
-/

namespace StrixPEP.Pdp

open IpAddress (Text)
open Threads Threads.Prog

variable {P : Platform} {S : Type}

/-- What an allowing call has found. -/
structure Grounds (P : Platform) (call : Call) where
  policy : Json
  pid : String
  program : Json
  record : Json
  expires : P.floats.Value
  now : P.floats.Value
  host : Text
  exemptions : List Text
  families : List String
  pin : Pin
  resolution : Option Resolution
  secret : Json
  specs : Specs
  generation : String
  identified : programForSource call.srcIp policy = .ok (some (pid, program))
  authorized : authorization P pid program = .ok (record, expires)
  unexpired : P.floats.le expires now = false
  canonical : canonicalHost P.tables P.idna call.authority.toList = some host
  admitted : admitTarget P pid program host call.port = .ok exemptions
  permitted : admitMethod P pid program call.method = .ok ()
  familyList : allowedFamilies program = .ok families
  pinned : ∀ given, call.pin = some given →
    pinnedDestination pid program exemptions families given = .ok pin ∧ resolution = none ∧ specs = []
  resolved : call.pin = none → ∃ res, resolution = some res ∧
    resolvedDestination pid program exemptions families call.port (.ok res) = .ok (pin, res) ∧
    reservation pid program call.asset = .ok specs
  credential : credentialSecret call policy pid host = .ok secret
  generated : policyGeneration policy record = .ok generation

namespace Grounds

variable {call : Call}

/-- The decision of a call with these grounds. -/
def decision (g : Grounds P call) : Decision where
  allow := true
  reason := "ALLOW"
  pin := some g.pin
  secret := g.secret
  programId := some g.pid
  resolution := g.resolution
  detail := [("canonical_host", .str (String.ofList g.host)), ("policy_generation", .str g.generation),
    ("budget_binding", .str (budgetBinding g.pid call.asset))]

/-- The last answers: nothing is asked for a connection that has its pin. -/
def Connected (answer : (q : Query) → S → Answer P.floats q × S) (g : Grounds P call) (s s' : S) : Prop :=
  (∃ given, call.pin = some given ∧ s' = s) ∨
    (call.pin = none ∧ ∃ res t, g.resolution = some res ∧
      answer (.resolve (String.ofList g.host)) s = (.ok res, t) ∧ answer (.reserve g.specs) t = (.ok none, s'))

/-- The answers, from the state before the call to the one after it. -/
def Seen (answer : (q : Query) → S → Answer P.floats q × S) (g : Grounds P call) (s s' : S) : Prop :=
  ∃ s₁ s₂ s₃, answer .policy s = (.ok g.policy, s₁) ∧ answer .killed s₁ = (false, s₂) ∧
    answer .now s₂ = (g.now, s₃) ∧ g.Connected answer s₃ s'

end Grounds

section

variable {answer : (q : Query) → S → Answer P.floats q × S} {call : Call} {s s' : S}

/-! ## The parts of the program -/

theorem check_ok {α : Type} {c : Check α} {a : α} :
    runWith answer (check P c) s = (.ok a, s') ↔ c = .ok a ∧ s' = s := by
  unfold check
  rw [runWith_ofExcept, Prod.mk.injEq]
  exact and_congr_right fun _ => eq_comm

theorem readPolicy_ok {policy : Json} :
    runWith answer (readPolicy P) s = (.ok policy, s') ↔ answer .policy s = (.ok policy, s') := by
  unfold readPolicy
  rw [runWith_bind_ok]
  constructor
  · rintro ⟨read, t, hask, h⟩
    obtain ⟨hread, rfl⟩ := Prod.mk.inj hask
    obtain rfl := Except.ok.inj hread
    split at h
    · rename_i read' hok
      obtain ⟨hp, rfl⟩ := Prod.mk.inj h
      cases hp
      exact Prod.ext hok rfl
    · cases (Prod.mk.inj h).1
  · intro h
    refine ⟨(answer .policy s).1, s', ?_, ?_⟩
    · unfold ask
      rw [runWith_perform, h]
    · rw [h]
      rfl

theorem killSwitch_ok {u : Unit} :
    runWith answer (killSwitch P) s = (.ok u, s') ↔ answer .killed s = (false, s') := by
  unfold killSwitch
  rw [runWith_bind_ok]
  constructor
  · rintro ⟨killed, t, hask, h⟩
    obtain ⟨hread, rfl⟩ := Prod.mk.inj hask
    obtain rfl := Except.ok.inj hread
    split at h
    · cases (Prod.mk.inj h).1
    · rename_i hk
      obtain ⟨-, rfl⟩ := Prod.mk.inj h
      exact Prod.ext hk rfl
  · intro h
    refine ⟨false, s', ?_, rfl⟩
    unfold ask
    rw [runWith_perform, h]

theorem authorize_ok {pid : String} {program record : Json} :
    runWith answer (authorize P pid program) s = (.ok record, s') ↔
      ∃ expires now, authorization P pid program = .ok (record, expires) ∧
        answer .now s = (now, s') ∧ P.floats.le expires now = false := by
  unfold authorize
  simp only [runWith_bind_ok, check_ok]
  constructor
  · rintro ⟨⟨found, expires⟩, t, ⟨hauth, rfl⟩, now, t', hask, u, t'', ⟨hlive, rfl⟩, h⟩
    obtain ⟨hr, rfl⟩ := Prod.mk.inj h
    cases hr
    obtain ⟨hnow, rfl⟩ := Prod.mk.inj hask
    obtain rfl := Except.ok.inj hnow
    exact ⟨expires, _, hauth, rfl, denyIf_ok.1 hlive⟩
  · rintro ⟨expires, now, hauth, hnow, hlive⟩
    refine ⟨(record, expires), s, ⟨hauth, rfl⟩, now, s', ?_, (), s', ⟨denyIf_ok.2 hlive, rfl⟩, rfl⟩
    unfold ask
    rw [runWith_perform, hnow]

theorem refuse_ok {α : Type} {pid reason : String} {res : Resolution} {a : α} :
    ¬ refuse pid res reason = .ok a := by
  unfold refuse
  nofun

theorem denied_of_deny {α : Type} {pid reason : String} {a : α} : ¬ deny pid reason = .ok a := by
  unfold deny
  nofun

/-- When what the resolver returned gives a pin. -/
theorem resolvedDestination_ok {pid : String} {program : Json} {exemptions : List Text}
    {families : List String} {port : Nat} {found : Except String Resolution} {pin : Pin} {res : Resolution} :
    resolvedDestination pid program exemptions families port found = .ok (pin, res) ↔
      found = .ok res ∧ res.error.getD "" = "" ∧ res.empty = false ∧
        (∀ a ∈ res.answers, (classify a.2.toList exemptions).ok = true) ∧
        chooseAddress pid families res = .ok (pin.family, pin.ip) ∧
        unauthorized program pin.ip = .ok false ∧ pin.port = port := by
  unfold resolvedDestination
  cases found with
  | error name =>
    constructor
    · intro h
      exact absurd h denied_of_deny
    · rintro ⟨h, -⟩
      cases h
  | ok res' =>
    dsimp only
    constructor
    · intro h
      split at h
      · exact absurd h refuse_ok
      rename_i hanswered
      rw [not_or, not_not, Bool.not_eq_true] at hanswered
      split at h
      · exact absurd h refuse_ok
      rename_i hfind
      obtain ⟨⟨family, ip⟩, hchosen, h⟩ := Except.bind_eq_ok.1 h
      obtain ⟨bad, hbad, h⟩ := Except.bind_eq_ok.1 h
      split at h
      · exact absurd h refuse_ok
      rename_i hgood
      cases h
      rw [Bool.not_eq_true] at hgood
      subst hgood
      refine ⟨rfl, hanswered.1, hanswered.2, ?_, hchosen, raising_ok.1 hbad, rfl⟩
      intro a ha
      simpa using List.find?_eq_none.1 hfind a ha
    · rintro ⟨he, herror, hempty, hanswers, hchosen, hauth, rfl⟩
      cases he
      have hfind : (res.answers.find? fun a => !(classify a.2.toList exemptions).ok) = none := by
        rw [List.find?_eq_none]
        intro a ha
        rw [hanswers a ha]
        simp
      rw [if_neg (by simp [herror, hempty]), hfind]
      refine Except.bind_eq_ok.2 ⟨_, hchosen, Except.bind_eq_ok.2 ⟨false, raising_ok.2 hauth, ?_⟩⟩
      rfl

theorem withinBudgets_ok {pid asset : String} {found : Except PyError (Option String)} {u : Unit} :
    withinBudgets pid asset found = .ok u ↔ found = .ok none := by
  unfold withinBudgets
  rw [Except.bind_eq_ok]
  constructor
  · rintro ⟨exceeded, hfound, h⟩
    rw [raising_ok] at hfound
    split at h
    · exact hfound
    · cases h
  · intro h
    exact ⟨none, raising_ok.2 h, rfl⟩

theorem destination_ok {pid : String} {program : Json} {exemptions : List Text} {families : List String}
    {host : Text} {pin : Pin} {resolution : Option Resolution} :
    runWith answer (destination P call pid program exemptions families host) s =
        (.ok (pin, resolution), s') ↔
      (∃ given, call.pin = some given ∧ resolution = none ∧ s' = s ∧
        pinnedDestination pid program exemptions families given = .ok pin) ∨
      (call.pin = none ∧ ∃ res, resolution = some res ∧
        answer (.resolve (String.ofList host)) s = (.ok res, s') ∧
        resolvedDestination pid program exemptions families call.port (.ok res) = .ok (pin, res)) := by
  unfold destination
  split
  · rename_i given hgiven
    simp only [runWith_bind_ok, check_ok]
    constructor
    · rintro ⟨pin', t, ⟨hpin, rfl⟩, h⟩
      obtain ⟨hp, rfl⟩ := Prod.mk.inj h
      cases hp
      exact Or.inl ⟨given, hgiven, rfl, rfl, hpin⟩
    · rintro (⟨given', hg, rfl, rfl, hpin⟩ | ⟨hnone, -⟩)
      · cases hgiven.symm.trans hg
        exact ⟨pin, _, ⟨hpin, rfl⟩, rfl⟩
      · cases hgiven.symm.trans hnone
  · rename_i hgiven
    simp only [runWith_bind_ok, check_ok]
    constructor
    · rintro ⟨found, t, hask, ⟨pin', res⟩, t', ⟨hpin, rfl⟩, h⟩
      obtain ⟨hfound, rfl⟩ := Prod.mk.inj hask
      obtain rfl := Except.ok.inj hfound
      obtain ⟨hp, rfl⟩ := Prod.mk.inj h
      cases hp
      have hres := (resolvedDestination_ok.1 hpin).1
      exact Or.inr ⟨hgiven, res, rfl, Prod.ext hres rfl, hres ▸ hpin⟩
    · rintro (⟨given', hg, -⟩ | ⟨-, res, rfl, hask, hpin⟩)
      · cases hgiven.symm.trans hg
      · refine ⟨.ok res, s', ?_, (pin, res), s', ⟨hpin, rfl⟩, rfl⟩
        unfold ask
        rw [runWith_perform, hask]

theorem charge_ok {pid : String} {program : Json} {u : Unit} :
    runWith answer (chargeConnection P call pid program) s = (.ok u, s') ↔
      (∃ given, call.pin = some given ∧ s' = s) ∨
      (call.pin = none ∧ ∃ specs, reservation pid program call.asset = .ok specs ∧
        answer (.reserve specs) s = (.ok none, s')) := by
  unfold chargeConnection
  split
  · rename_i given hgiven
    constructor
    · intro h
      exact Or.inl ⟨given, hgiven, (Prod.mk.inj h).2.symm⟩
    · rintro (⟨given', hg, rfl⟩ | ⟨hnone, -⟩)
      · rfl
      · cases hgiven.symm.trans hnone
  · rename_i hgiven
    simp only [runWith_bind_ok, check_ok]
    constructor
    · rintro ⟨specs, t, ⟨hspecs, rfl⟩, found, t', hask, hwithin, rfl⟩
      obtain ⟨hfound, rfl⟩ := Prod.mk.inj hask
      obtain rfl := Except.ok.inj hfound
      exact Or.inr ⟨hgiven, specs, hspecs, Prod.ext (withinBudgets_ok.1 hwithin) rfl⟩
    · rintro (⟨given', hg, -⟩ | ⟨-, specs, hspecs, hask⟩)
      · cases hgiven.symm.trans hg
      · refine ⟨specs, s, ⟨hspecs, rfl⟩, .ok none, s', ?_, withinBudgets_ok.2 rfl, rfl⟩
        unfold ask
        rw [runWith_perform, hask]

theorem identify_ok {srcIp pid : String} {policy program : Json} :
    identify srcIp policy = .ok (pid, program) ↔
      programForSource srcIp policy = .ok (some (pid, program)) := by
  unfold identify
  rw [Except.bind_eq_ok]
  constructor
  · rintro ⟨found, hfound, h⟩
    split at h
    · cases h
    · cases h
      exact raising_ok.1 hfound
  · intro h
    exact ⟨_, raising_ok.2 h, rfl⟩

theorem canonicalTarget_ok {pid authority : String} {host : Text} :
    canonicalTarget P pid authority = .ok host ↔
      canonicalHost P.tables P.idna authority.toList = some host := by
  unfold canonicalTarget
  split
  · rename_i h
    rw [h]
    constructor <;> nofun
  · rename_i host' h
    rw [h, Except.ok.injEq, Option.some.injEq]

theorem approval_ok {policy record secret : Json} {pid asset : String} {host : Text} {pin : Pin}
    {resolution : Option Resolution} {d : Decision} :
    approval policy record pid asset host secret pin resolution = .ok d ↔
      ∃ generation, policyGeneration policy record = .ok generation ∧
        d = ⟨true, "ALLOW", some pin, secret, some pid, resolution,
          [("canonical_host", .str (String.ofList host)), ("policy_generation", .str generation),
            ("budget_binding", .str (budgetBinding pid asset))]⟩ := by
  unfold approval
  simp only [Except.bind_eq_ok, raising_ok, Except.ok.injEq]
  exact exists_congr fun generation => and_congr_right fun _ => eq_comm

/-! ## The whole call -/

/-- What `decide_body` returns has grounds, and every call with grounds returns. -/
theorem decideBody_ok {d : Decision} :
    runWith answer (decideBody P call) s = (.ok d, s') ↔
      ∃ g : Grounds P call, d = g.decision ∧ g.Seen answer s s' := by
  unfold decideBody
  constructor
  · intro h
    obtain ⟨policy, s₁, hpolicy, h1⟩ := runWith_bind_ok.1 h
    obtain ⟨_, s₂, hkilled, h2⟩ := runWith_bind_ok.1 h1
    obtain ⟨⟨pid, program⟩, t₃, hidRun, h3⟩ := runWith_bind_ok.1 h2
    obtain ⟨hid, rfl⟩ := check_ok.1 hidRun
    obtain ⟨record, s₃, hauthRun, h4⟩ := runWith_bind_ok.1 h3
    obtain ⟨expires, now, hauth, hnow, hlive⟩ := authorize_ok.1 hauthRun
    obtain ⟨host, t₄, hhostRun, h5⟩ := runWith_bind_ok.1 h4
    obtain ⟨hhost, rfl⟩ := check_ok.1 hhostRun
    obtain ⟨exemptions, t₅, hadmRun, h6⟩ := runWith_bind_ok.1 h5
    obtain ⟨hadm, rfl⟩ := check_ok.1 hadmRun
    obtain ⟨_, t₆, hmethodRun, h7⟩ := runWith_bind_ok.1 h6
    obtain ⟨hmethod, rfl⟩ := check_ok.1 hmethodRun
    obtain ⟨families, t₇, hfamiliesRun, h8⟩ := runWith_bind_ok.1 h7
    obtain ⟨hfamilies, rfl⟩ := check_ok.1 hfamiliesRun
    obtain ⟨⟨pin, resolution⟩, s₄, hdest, h9⟩ := runWith_bind_ok.1 h8
    obtain ⟨secret, t₈, hcredRun, h10⟩ := runWith_bind_ok.1 h9
    obtain ⟨hcred, rfl⟩ := check_ok.1 hcredRun
    obtain ⟨_, s₅, hcharge, h11⟩ := runWith_bind_ok.1 h10
    obtain ⟨happroval, rfl⟩ := check_ok.1 h11
    obtain ⟨generation, hgen, rfl⟩ := approval_ok.1 happroval
    have hreads := readPolicy_ok.1 hpolicy
    have halive := killSwitch_ok.1 hkilled
    rcases destination_ok.1 hdest with ⟨given, hgiven, rfl, rfl, hpin⟩ | ⟨hnone, res, rfl, hask, hpin⟩
    · rcases charge_ok.1 hcharge with ⟨given', hgiven', rfl⟩ | ⟨hnone, -⟩
      · refine ⟨⟨policy, pid, program, record, expires, now, host, exemptions, families, pin, none, secret,
          [], generation, identify_ok.1 hid, hauth, hlive, canonicalTarget_ok.1 hhost, hadm, hmethod,
          hfamilies, ?_, ?_, hcred, hgen⟩, rfl, s₁, _, _, hreads, halive, hnow, Or.inl ⟨given, hgiven, rfl⟩⟩
        · intro given'' hg
          cases hgiven.symm.trans hg
          exact ⟨hpin, rfl, rfl⟩
        · intro hnone
          cases hgiven.symm.trans hnone
      · cases hgiven.symm.trans hnone
    · rcases charge_ok.1 hcharge with ⟨given', hgiven', -⟩ | ⟨-, specs, hspecs, hreserve⟩
      · cases hgiven'.symm.trans hnone
      · refine ⟨⟨policy, pid, program, record, expires, now, host, exemptions, families, pin, some res, secret,
          specs, generation, identify_ok.1 hid, hauth, hlive, canonicalTarget_ok.1 hhost, hadm, hmethod,
          hfamilies, ?_, ?_, hcred, hgen⟩, rfl, s₁, _, _, hreads, halive, hnow,
          Or.inr ⟨hnone, res, _, rfl, hask, hreserve⟩⟩
        · intro given hg
          cases hg.symm.trans hnone
        · intro _
          exact ⟨res, rfl, hpin, hspecs⟩
  · rintro ⟨g, rfl, s₁, s₂, s₃, hpolicy, hkilled, hnow, hconn⟩
    refine runWith_bind_ok.2 ⟨g.policy, s₁, readPolicy_ok.2 hpolicy, ?_⟩
    refine runWith_bind_ok.2 ⟨(), s₂, killSwitch_ok.2 hkilled, ?_⟩
    refine runWith_bind_ok.2 ⟨(g.pid, g.program), s₂, check_ok.2 ⟨identify_ok.2 g.identified, rfl⟩, ?_⟩
    refine runWith_bind_ok.2 ⟨g.record, s₃,
      authorize_ok.2 ⟨g.expires, g.now, g.authorized, hnow, g.unexpired⟩, ?_⟩
    refine runWith_bind_ok.2 ⟨g.host, s₃, check_ok.2 ⟨canonicalTarget_ok.2 g.canonical, rfl⟩, ?_⟩
    refine runWith_bind_ok.2 ⟨g.exemptions, s₃, check_ok.2 ⟨g.admitted, rfl⟩, ?_⟩
    refine runWith_bind_ok.2 ⟨(), s₃, check_ok.2 ⟨g.permitted, rfl⟩, ?_⟩
    refine runWith_bind_ok.2 ⟨g.families, s₃, check_ok.2 ⟨g.familyList, rfl⟩, ?_⟩
    have happroval : approval g.policy g.record g.pid call.asset g.host g.secret g.pin g.resolution =
        .ok g.decision := approval_ok.2 ⟨g.generation, g.generated, rfl⟩
    rcases hconn with ⟨given, hgiven, rfl⟩ | ⟨hnone, res, t, hres, hask, hreserve⟩
    · obtain ⟨hpin, hres, -⟩ := g.pinned given hgiven
      refine runWith_bind_ok.2 ⟨(g.pin, g.resolution), s',
        destination_ok.2 (Or.inl ⟨given, hgiven, hres, rfl, hpin⟩), ?_⟩
      refine runWith_bind_ok.2 ⟨g.secret, s', check_ok.2 ⟨g.credential, rfl⟩, ?_⟩
      refine runWith_bind_ok.2 ⟨(), s', charge_ok.2 (Or.inl ⟨given, hgiven, rfl⟩), ?_⟩
      exact check_ok.2 ⟨happroval, rfl⟩
    · obtain ⟨res', hres', hpin, hspecs⟩ := g.resolved hnone
      cases hres.symm.trans hres'
      refine runWith_bind_ok.2 ⟨(g.pin, g.resolution), t,
        destination_ok.2 (Or.inr ⟨hnone, res, hres, hask, hpin⟩), ?_⟩
      refine runWith_bind_ok.2 ⟨g.secret, t, check_ok.2 ⟨g.credential, rfl⟩, ?_⟩
      refine runWith_bind_ok.2 ⟨(), s', charge_ok.2 (Or.inr ⟨hnone, g.specs, hspecs, hreserve⟩), ?_⟩
      exact check_ok.2 ⟨happroval, rfl⟩

/-- **A call allows exactly if it has grounds.** -/
theorem allows_iff {d : Decision} :
    (runWith answer (decide P call) s = (.ok d, s') ∧ d.allow = true) ↔
      ∃ g : Grounds P call, d = g.decision ∧ g.Seen answer s s' := by
  unfold decide
  rw [runWith_tryCatch]
  constructor
  · rintro ⟨h, hallow⟩
    split at h
    · rename_i d' t hbody
      cases h
      exact decideBody_ok.1 hbody
    · rename_i e t hbody
      split at h
      · cases h
        cases hallow
      · cases h
  · rintro ⟨g, rfl, hseen⟩
    rw [decideBody_ok.2 ⟨g, rfl, hseen⟩]
    exact ⟨rfl, rfl⟩

end

end StrixPEP.Pdp
