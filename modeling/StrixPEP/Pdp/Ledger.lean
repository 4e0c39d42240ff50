import StrixPEP.Pdp.Desk

/-!
# What concurrent decisions charge

* `Due` — what a call that allows without a pin has reserved;
* `Keeps` — what a protocol of the threads must give for an assertion to hold around `decide`;
* `wp_decide` — then a call that denies, raises or has a pin keeps the assertion, and one that allows
  without a pin has made its reservation.

Principal results: `wp_serve`, the same for the calls of a thread, and `reach_balanced`: in every
interleaving the counters are what was charged.
-/

namespace StrixPEP.Pdp

open Threads

/-- The queries that leave the budgets alone. -/
def Query.Quiet : Query → Prop
  | .policy | .killed | .now | .resolve _ => True
  | .reserve _ | .returned _ _ => False

section

variable (P : Platform) (provides : Json → Bool)

/-- The reservation that goes with a decision for the program. -/
def Due (call : Call) (pid : String) (specs : Specs) : Prop :=
  ∃ policy program, provides policy = true ∧
    programForSource call.srcIp policy = .ok (some (pid, program)) ∧
    reservation pid program call.asset = .ok specs

/-- An assertion `A` that a thread has around its calls; `B` holds once a call has reserved. -/
structure Keeps (G : Protocol (machine P provides)) (i : Nat) (call : Call) (A : Desk → Prop)
    (B : String → Specs → Desk → Prop) : Prop where
  stable : ∀ {s t}, A s → G.rely i s t → G.inv t → A t
  due : ∀ {pid specs s t}, B pid specs s → G.rely i s t → G.inv t → B pid specs t
  quiet : ∀ {q s}, q.Quiet → A s → G.inv s →
    G.req i q s ∧ ∀ r s', (machine P provides).exec i q s r = some s' → A s'
  reserve : ∀ {pid specs s}, Due provides call pid specs → A s → G.inv s →
    G.req i (.reserve specs) s ∧ ∀ (r : Except PyError (Option String)) s',
      (machine P provides).exec i (.reserve specs) s r = some s' →
      (r = .ok none → B pid specs s') ∧ (r ≠ .ok none → A s')

/-- What holds after a call. -/
def After (call : Call) (A : Desk → Prop) (B : String → Specs → Desk → Prop) (d : Decision) (s : Desk) : Prop :=
  (d.allow = true ∧ call.pin = none → ∃ pid specs, d.programId = some pid ∧ Due provides call pid specs ∧
    B pid specs s) ∧ (¬ (d.allow = true ∧ call.pin = none) → A s)

end

variable {P : Platform} {provides : Json → Bool} {G : Protocol (machine P provides)} {i : Nat} {call : Call}
  {A : Desk → Prop} {B : String → Specs → Desk → Prop} {s : Desk}

/-! ## The parts of `decide` -/

theorem programForSource_obj {srcIp pid : String} {policy program : Json}
    (h : programForSource srcIp policy = .ok (some (pid, program))) : ∃ kvs, policy = .obj kvs := by
  unfold programForSource at h
  split at h
  · cases h
  obtain ⟨networks, hnetworks, -⟩ := Except.bind_eq_ok.1 h
  obtain ⟨found, hfound, -⟩ := Json.field_ok.1 hnetworks
  obtain ⟨kvs, rfl, -⟩ := Json.get_ok.1 hfound
  exact ⟨kvs, rfl⟩

theorem authorization_obj {pid : String} {program record : Json} {expires : P.floats.Value}
    (h : authorization P pid program = .ok (record, expires)) : ∃ kvs, record = .obj kvs := by
  unfold authorization at h
  obtain ⟨rec, -, h1⟩ := Except.bind_eq_ok.1 h
  obtain ⟨_, -, h2⟩ := Except.bind_eq_ok.1 h1
  obtain ⟨status, hstatus, h3⟩ := Except.bind_eq_ok.1 h2
  obtain ⟨_, -, h4⟩ := Except.bind_eq_ok.1 h3
  obtain ⟨expiresAt, -, h5⟩ := Except.bind_eq_ok.1 h4
  split at h5
  · cases h5
    obtain ⟨kvs, rfl, -⟩ := Json.get_ok.1 (raising_ok.1 hstatus)
    exact ⟨kvs, rfl⟩
  · exact absurd h5 denied_of_deny
  · exact absurd h5 denied_of_deny
  · cases h5

/-- Nothing is left to fail after the reservation. -/
theorem approval_total {policy record secret : Json} {pid asset : String} {host : IpAddress.Text} {pin : Pin}
    {resolution : Option Resolution} (hpolicy : ∃ kvs, policy = .obj kvs) (hrecord : ∃ kvs, record = .obj kvs) :
    ∃ d, approval policy record pid asset host secret pin resolution = .ok d := by
  obtain ⟨kvs, rfl⟩ := hpolicy
  obtain ⟨fields, rfl⟩ := hrecord
  have hgen : ∃ generation, policyGeneration (.obj kvs) (.obj fields) = .ok generation := by
    unfold policyGeneration
    simp only [Json.get, Json.getOr, Except.bind_eq_ok, Except.ok.injEq, exists_eq_left']
    split
    · exact ⟨_, rfl⟩
    · exact ⟨_, rfl⟩
  obtain ⟨generation, hgen⟩ := hgen
  exact ⟨_, approval_ok.2 ⟨generation, hgen, rfl⟩⟩

namespace Keeps

theorem wp_check (hk : Keeps P provides G i call A B) {α β : Type} {c : Check α} {f : α → Deciding P β}
    {Q : β → Desk → Prop} (hA : A s) (h : ∀ a, c = .ok a → G.wp i (f a) Q (fun _ => A) s) :
    G.wp i (check P c >>= f) Q (fun _ => A) s :=
  Protocol.wp_ofExcept h fun _ _ _ ht hi => hk.stable hA ht hi

theorem wp_ask (hk : Keeps P provides G i call A B) {q : Query} (hq : q.Quiet) (hA : A s) {β : Type}
    {f : Answer P.floats q → Deciding P β} {Q : β → Desk → Prop}
    (h : ∀ r t, A t → G.inv t → (∃ s₁, (machine P provides).exec i q s₁ r = some t) →
      G.wp i (f r) Q (fun _ => A) t) :
    G.wp i (ask P q >>= f) Q (fun _ => A) s := by
  refine Protocol.wp_perform fun t ht hi => ?_
  obtain ⟨hreq, hkeep⟩ := hk.quiet hq (hk.stable hA ht hi) hi
  exact ⟨hreq, fun r t' he => h r t' (hkeep r t' he) (G.step_inv hi hreq he) ⟨t, he⟩⟩

theorem wp_readPolicy (hk : Keeps P provides G i call A B) (hA : A s) :
    G.wp i (readPolicy P) (fun policy t => provides policy = true ∧ A t) (fun _ => A) s := by
  refine hk.wp_ask (q := .policy) trivial hA fun (r : Except String Json) t ht _ hexec => ?_
  obtain ⟨s₁, hexec⟩ := hexec
  cases r with
  | ok policy =>
    have hp : provides policy = true := by
      by_contra hcontra
      have hnone : (machine P provides).exec i .policy s₁ (.ok policy) = none := if_neg hcontra
      rw [hnone] at hexec
      cases hexec
    exact fun u hu hi => ⟨hp, hk.stable ht hu hi⟩
  | error name => exact fun u hu hi => hk.stable ht hu hi

theorem wp_killSwitch (hk : Keeps P provides G i call A B) (hA : A s) :
    G.wp i (killSwitch P) (fun _ => A) (fun _ => A) s := by
  refine hk.wp_ask (q := .killed) trivial hA fun (r : Bool) t ht _ _ => ?_
  cases r with
  | false => exact fun u hu hi => hk.stable ht hu hi
  | true => exact fun u hu hi => hk.stable ht hu hi

theorem wp_authorize (hk : Keeps P provides G i call A B) (hA : A s) {pid : String} {program : Json} :
    G.wp i (authorize P pid program)
      (fun record t => (∃ kvs, record = .obj kvs) ∧ A t) (fun _ => A) s := by
  refine hk.wp_check hA fun found hfound => ?_
  obtain ⟨record, expires⟩ := found
  refine hk.wp_ask (q := .now) trivial hA fun now t ht _ _ => hk.wp_check ht fun _ _ => ?_
  exact fun u hu hi => ⟨authorization_obj hfound, hk.stable ht hu hi⟩

theorem wp_destination (hk : Keeps P provides G i call A B) (hA : A s) {pid : String} {program : Json}
    {exemptions : List IpAddress.Text} {families : List String} {host : IpAddress.Text} :
    G.wp i (destination P call pid program exemptions families host) (fun _ => A) (fun _ => A) s := by
  unfold destination
  split
  · refine hk.wp_check hA fun pin _ => ?_
    exact fun u hu hi => hk.stable hA hu hi
  · refine hk.wp_ask (q := .resolve _) trivial hA fun answer t ht _ _ => hk.wp_check ht fun found _ => ?_
    exact fun u hu hi => hk.stable ht hu hi

theorem wp_charge (hk : Keeps P provides G i call A B) (hA : A s) {policy program : Json} {pid : String}
    (hp : provides policy = true)
    (hid : programForSource call.srcIp policy = .ok (some (pid, program))) :
    G.wp i (chargeConnection P call pid program)
      (fun _ t => (call.pin = none → ∃ specs, Due provides call pid specs ∧ B pid specs t) ∧
        (call.pin ≠ none → A t)) (fun _ => A) s := by
  unfold chargeConnection
  split
  · rename_i given hgiven
    intro u hu hi
    refine ⟨fun hnone => ?_, fun _ => hk.stable hA hu hi⟩
    rw [hgiven] at hnone
    cases hnone
  · rename_i hnone
    refine hk.wp_check hA fun specs hspecs => ?_
    have hdue : Due provides call pid specs := ⟨policy, program, hp, hid, hspecs⟩
    refine Protocol.wp_perform fun t ht hi => ?_
    obtain ⟨hreq, hkeep⟩ := hk.reserve hdue (hk.stable hA ht hi) hi
    refine ⟨hreq, fun (r : Except PyError (Option String)) t' he => ?_⟩
    obtain ⟨hgranted, hrefused⟩ := hkeep r t' he
    by_cases hr : r = .ok none
    · rw [hr, check, (withinBudgets_ok (u := ())).2 rfl]
      exact fun u hu hi => ⟨fun _ => ⟨specs, hdue, hk.due (hgranted hr) hu hi⟩, fun h => absurd hnone h⟩
    · cases hw : withinBudgets pid call.asset r with
      | ok u => exact absurd (withinBudgets_ok.1 hw) hr
      | error e =>
        rw [check]
        exact fun u hu hi => hk.stable (hrefused hr) hu hi

/-! ## `decide` -/

theorem wp_decideBody (hk : Keeps P provides G i call A B) (hA : A s) (hinv : G.inv s) :
    G.wp i (decideBody P call) (fun d => After provides call A B d) (fun _ => A) s := by
  unfold decideBody
  refine Protocol.wp_seq (hk.wp_readPolicy hA) hinv fun policy s₁ hi₁ ⟨hp, hA₁⟩ => ?_
  refine Protocol.wp_seq (hk.wp_killSwitch hA₁) hi₁ fun _ s₂ hi₂ hA₂ => ?_
  refine hk.wp_check hA₂ fun found hid => ?_
  obtain ⟨pid, program⟩ := found
  rw [identify_ok] at hid
  refine Protocol.wp_seq (hk.wp_authorize hA₂) hi₂ fun record s₃ hi₃ ⟨hrecord, hA₃⟩ => ?_
  refine hk.wp_check hA₃ fun host _ => hk.wp_check hA₃ fun exemptions _ => ?_
  refine hk.wp_check hA₃ fun _ _ => hk.wp_check hA₃ fun families _ => ?_
  refine Protocol.wp_seq (hk.wp_destination hA₃) hi₃ fun found s₄ hi₄ hA₄ => ?_
  obtain ⟨pin, resolution⟩ := found
  refine hk.wp_check hA₄ fun secret _ => ?_
  refine Protocol.wp_seq (hk.wp_charge hA₄ hp hid) hi₄ fun _ s₅ hi₅ ⟨hcharged, hkept⟩ => ?_
  have happroval : ∃ d, approval policy record pid call.asset host secret pin resolution = .ok d :=
    approval_total (programForSource_obj hid) hrecord
  obtain ⟨d, hd⟩ := happroval
  rw [check, hd]
  obtain ⟨generation, -, rfl⟩ := approval_ok.1 hd
  intro u hu hi
  constructor
  · rintro ⟨-, hnone⟩
    obtain ⟨specs, hdue, hB⟩ := hcharged hnone
    exact ⟨pid, specs, rfl, hdue, hk.due hB hu hi⟩
  · intro hnot
    exact hk.stable (hkept fun hnone => hnot ⟨rfl, hnone⟩) hu hi

/-- **A call** that denies, raises or has a pin keeps the assertion; one that allows without a pin has
made its reservation. -/
theorem wp_decide (hk : Keeps P provides G i call A B) (hA : A s) (hinv : G.inv s) :
    G.wp i (decide P call) (fun d => After provides call A B d) (fun _ => A) s := by
  unfold decide
  refine Protocol.wp_tryCatch ?_ hinv
  refine Protocol.wp_mono (hk.wp_decideBody hA hinv) (fun _ _ _ h => h) fun e t hi ht => ?_
  cases e with
  | raised e => exact fun u hu hi => hk.stable ht hu hi
  | denied d =>
    intro u hu hi
    refine ⟨?_, fun _ => hk.stable ht hu hi⟩
    rintro ⟨hallow, -⟩
    cases hallow

end Keeps

/-! ## The calls of a thread -/

/-- **The calls of a thread** keep the assertion, if handing out the decisions does. -/
theorem wp_serve {B : Call → String → Specs → Desk → Prop} {calls : List Call}
    (hk : ∀ call ∈ calls, Keeps P provides G i call A (B call))
    (hreturn : ∀ call ∈ calls, ∀ d s, After provides call A (B call) d s → G.inv s →
      G.req i (.returned call d) s ∧
        ∀ r s', (machine P provides).exec i (.returned call d) s r = some s' → A s')
    (hstable : ∀ {s t}, A s → G.rely i s t → G.inv t → A t) (hA : A s) (hinv : G.inv s) :
    G.wp i (serve P calls) (fun _ => A) (fun _ => A) s := by
  induction calls generalizing s with
  | nil => exact fun u hu hi => hstable hA hu hi
  | cons call calls ih =>
    have hcall := hk call List.mem_cons_self
    have hone : G.wp i (do
        let d ← decide P call
        handOver P call d) (fun _ => A) (fun _ => A) s := by
      refine Protocol.wp_seq (hcall.wp_decide hA hinv) hinv fun d t _ hafter => ?_
      intro u hu hiu
      have hafter' : After provides call A (B call) d u := by
        refine ⟨fun hallow => ?_, fun hnot => hcall.stable (hafter.2 hnot) hu hiu⟩
        obtain ⟨pid, specs, hpid, hdue, hB⟩ := hafter.1 hallow
        exact ⟨pid, specs, hpid, hdue, hcall.due hB hu hiu⟩
      obtain ⟨hreq, hkeep⟩ := hreturn call List.mem_cons_self d u hafter' hiu
      refine ⟨hreq, fun r u' he => ?_⟩
      exact fun v hv hiv => hstable (hkeep r u' he) hv hiv
    refine Protocol.wp_seq (Protocol.wp_tryCatch (Protocol.wp_mono hone (fun _ _ _ h => h) ?_) hinv) hinv ?_
    · exact fun _ t _ ht u hu hi => hstable ht hu hi
    · intro _ t hi ht
      exact ih (fun c hc => hk c (List.mem_cons_of_mem _ hc))
        (fun c hc => hreturn c (List.mem_cons_of_mem _ hc)) ht hi

/-! ## The counters -/

/-- The specs of a reservation that succeeded. -/
def granted : Event → List Specs
  | .reserved specs (.ok none) => [specs]
  | _ => []

/-- The reservations that succeeded. -/
def Desk.grants (s : Desk) : List Specs := s.log.flatMap fun e => granted e.2

/-- The keys that were charged. -/
def Desk.charged (s : Desk) : List String := s.grants.flatMap fun specs => specs.map Prod.fst

theorem grants_note (s : Desk) (i : Nat) (e : Event) : (s.note i e).grants = s.grants ++ granted e := by
  simp [Desk.grants, Desk.note, List.flatMap_append]

theorem granted_refused {specs : Specs} {answer : Except PyError (Option String)} (h : answer ≠ .ok none) :
    granted (.reserved specs answer) = [] := by
  unfold granted
  split
  · rename_i he
    cases he
    exact absurd rfl h
  · rfl

/-- What a step does to the counters and the reservations. -/
theorem exec_budgets {q : Query} {s s' : Desk} {r : Answer P.floats q}
    (h : (machine P provides).exec i q s r = some s') :
    (s'.budgets = s.budgets ∧ s'.grants = s.grants) ∨
      ∃ specs, q = .reserve specs ∧ s.budgets.reserve P.floats specs = (.ok none, s'.budgets) ∧
        s'.grants = s.grants ++ [specs] := by
  rcases exec_cases h with rfl | ⟨host, rfl, rfl⟩ | ⟨call, d, rfl, rfl⟩ | ⟨specs, answer, b, rfl, hreserve, rfl⟩
  · exact Or.inl ⟨rfl, rfl⟩
  · exact Or.inl ⟨rfl, (grants_note s i _).trans (List.append_nil _)⟩
  · exact Or.inl ⟨rfl, (grants_note s i _).trans (List.append_nil _)⟩
  · by_cases hok : answer = .ok none
    · subst hok
      exact Or.inr ⟨specs, rfl, hreserve, grants_note (Desk.mk b s.log) i _⟩
    · refine Or.inl ⟨Budgets.reserve_some hreserve hok, ?_⟩
      rw [grants_note, granted_refused hok, List.append_nil]
      rfl

/-- The counters are what was charged. -/
def Balanced (b : Budgets) (s : Desk) : Prop :=
  ∀ key, s.budgets.count key = b.count key + s.charged.count key

/-- How many of the reservations were made under this cap. -/
def Desk.takers (s : Desk) (key : String) (cap : Int) : Nat :=
  s.grants.countP fun specs => (key, Json.int cap) ∈ specs

/-- No cap is passed. -/
def Capped (s : Desk) : Prop := ∀ key cap, s.takers key cap ≤ cap.toNat

theorem exec_balanced {b : Budgets} {q : Query} {s s' : Desk} {r : Answer P.floats q}
    (h : (machine P provides).exec i q s r = some s') (hb : Balanced b s) : Balanced b s' := by
  intro key
  have hkey := hb key
  rcases exec_budgets h with ⟨hbudgets, hgrants⟩ | ⟨specs, -, hreserve, hgrants⟩
  · unfold Desk.charged at hkey ⊢
    rw [hbudgets, hgrants, hkey]
  · obtain ⟨hcharge, -⟩ := Budgets.reserve_none hreserve
    unfold Desk.charged at hkey ⊢
    rw [hcharge, Budgets.count_charge, hkey, hgrants, List.flatMap_append, List.count_append,
      List.flatMap_singleton]
    omega

/-- Every reservation under a cap has charged its key. -/
theorem takers_le (s : Desk) (key : String) (cap : Int) : s.takers key cap ≤ s.charged.count key := by
  unfold Desk.takers Desk.charged
  induction s.grants with
  | nil => exact Nat.le_refl 0
  | cons specs grants ih =>
    rw [List.countP_cons, List.flatMap_cons, List.count_append]
    split
    · rename_i hmem
      have hkey : key ∈ specs.map Prod.fst :=
        List.mem_map.2 ⟨(key, .int cap), by simpa using hmem, rfl⟩
      have hpos := List.count_pos_iff.2 hkey
      omega
    · omega

theorem exec_capped {b : Budgets} {q : Query} {s s' : Desk} {r : Answer P.floats q}
    (h : (machine P provides).exec i q s r = some s') (hb : Balanced b s) (hc : Capped s) : Capped s' := by
  intro key cap
  have hcap := hc key cap
  rcases exec_budgets h with ⟨-, hgrants⟩ | ⟨specs, -, hreserve, hgrants⟩
  · unfold Desk.takers at hcap ⊢
    rwa [hgrants]
  · obtain ⟨-, hbelow⟩ := Budgets.reserve_none hreserve
    have hle := takers_le s key cap
    have hkey := hb key
    unfold Desk.takers at hcap hle ⊢
    rw [hgrants, List.countP_append, List.countP_singleton]
    split
    · rename_i hmem
      have hfree := Budgets.reached_int (hbelow key (.int cap) (by simpa using hmem) (by nofun))
      omega
    · omega

/-- **The counters are what was charged, and no cap is passed**, in every interleaving of any threads. -/
theorem reach_balanced {b : Budgets} {cfg cfg' : Config Halt Query (Answer P.floats) Desk}
    (hb : Balanced b cfg.state) (hc : Capped cfg.state) (h : Reach (machine P provides) cfg cfg') :
    Balanced b cfg'.state ∧ Capped cfg'.state := by
  induction h with
  | refl => exact ⟨hb, hc⟩
  | tail _ hstep ih =>
    cases hstep with
    | mk _ he => exact ⟨exec_balanced he ih.1, exec_capped he ih.1 ih.2⟩

end StrixPEP.Pdp
