import StrixPEP.Pdp.Ledger
import StrixPEP.Pdp.OpenPolicy

/-!
# The ceiling of a budget

Under a fixed policy, any number of threads decide at the same time.

* `due` — what a decision that was handed over has reserved, by the policy;
* `Settled`, `InFlight` — a thread's reservations are those of its decisions, or one more;
* `Desk.allowed` — how many decisions were handed over that allow without a pin.

Principal result: `budget_ceiling`.
-/

namespace StrixPEP.Pdp

open Threads

/-- The reservation of a call that allows. -/
def dueSpecs (policy : Json) (call : Call) : Option Specs :=
  match programForSource call.srcIp policy with
  | .ok (some (pid, program)) => (reservation pid program call.asset).toOption
  | _ => none

/-- An allowing decision without a pin. -/
def Charging (call : Call) (d : Decision) : Prop := d.allow = true ∧ call.pin = none

instance (call : Call) (d : Decision) : Decidable (Charging call d) :=
  inferInstanceAs (Decidable (d.allow = true ∧ call.pin = none))

/-- What a decision that was handed over has reserved. -/
def due (policy : Json) : Event → List Specs
  | .decided call d => if Charging call d then (dueSpecs policy call).toList else []
  | _ => []

namespace Desk

/-- The reservations of a thread that succeeded. -/
def made (s : Desk) (i : Nat) : List Specs := (s.own i).flatMap granted

/-- The reservations that the decisions of a thread account for. -/
def owed (policy : Json) (s : Desk) (i : Nat) : List Specs := (s.own i).flatMap (due policy)

/-- The decisions handed over that allow without a pin, and satisfy the condition. -/
def allowed (s : Desk) (p : Call → Decision → Bool) : Nat :=
  s.log.countP fun
    | (_, .decided call d) => Charging call d && p call d
    | _ => false

end Desk

/-- The thread has reserved what its decisions account for. -/
def Settled (policy : Json) (i : Nat) (s : Desk) : Prop := s.made i = s.owed policy i

/-- It has reserved for one more. -/
def InFlight (policy : Json) (i : Nat) (s : Desk) (specs : Specs) : Prop :=
  s.made i = s.owed policy i ++ [specs]

/-- A decision names the program that it charges. -/
def Named (policy : Json) : Event → Prop
  | .decided call d => Charging call d → ∃ pid program specs, d.programId = some pid ∧
      programForSource call.srcIp policy = .ok (some (pid, program)) ∧
      reservation pid program call.asset = .ok specs
  | _ => True

/-! ## The protocol -/

section

variable {policy : Json}

theorem made_note_self (s : Desk) (i : Nat) (e : Event) : (s.note i e).made i = s.made i ++ granted e := by
  unfold Desk.made
  rw [Desk.own_note_self, List.flatMap_append, List.flatMap_singleton]

theorem owed_note_self (s : Desk) (i : Nat) (e : Event) :
    (s.note i e).owed policy i = s.owed policy i ++ due policy e := by
  unfold Desk.owed
  rw [Desk.own_note_self, List.flatMap_append, List.flatMap_singleton]

theorem note_other (policy : Json) {s : Desk} {i j : Nat} (e : Event) (h : i ≠ j) :
    (s.note i e).made j = s.made j ∧ (s.note i e).owed policy j = s.owed policy j := by
  unfold Desk.made Desk.owed
  rw [Desk.own_note_ne s e h]
  exact ⟨rfl, rfl⟩

theorem note_quiet (policy : Json) {s : Desk} {i : Nat} {e : Event} (hg : granted e = []) (hd : due policy e = []) (j : Nat) :
    (s.note i e).made j = s.made j ∧ (s.note i e).owed policy j = s.owed policy j := by
  by_cases h : i = j
  · subst h
    rw [made_note_self, owed_note_self, hg, hd, List.append_nil, List.append_nil]
    exact ⟨rfl, rfl⟩
  · exact note_other policy e h

/-- The invariant of the ledger. -/
structure Booked (policy : Json) (s : Desk) : Prop where
  threads : ∀ i, Settled policy i s ∨ ∃ specs, InFlight policy i s specs
  named : ∀ e ∈ s.log, Named policy e.2

theorem Booked.note {s : Desk} {i : Nat} {e : Event} (h : Booked policy s)
    (hself : Settled policy i (s.note i e) ∨ ∃ specs, InFlight policy i (s.note i e) specs)
    (hnamed : Named policy e) : Booked policy (s.note i e) where
  threads := by
    intro j
    by_cases hj : i = j
    · exact hj ▸ hself
    · obtain ⟨hmade, howed⟩ := note_other policy (s := s) e hj
      unfold Settled InFlight
      rw [hmade, howed]
      exact h.threads j
  named := by
    intro e' he'
    rcases List.mem_append.1 he' with he' | he'
    · exact h.named e' he'
    · rw [List.mem_singleton.1 he']
      exact hnamed

theorem Booked.quiet {s : Desk} {i : Nat} {e : Event} (h : Booked policy s) (hg : granted e = [])
    (hd : due policy e = []) (hnamed : Named policy e) : Booked policy (s.note i e) := by
  refine h.note ?_ hnamed
  obtain ⟨hmade, howed⟩ := note_quiet policy (s := s) (i := i) hg hd i
  unfold Settled InFlight
  rw [hmade, howed]
  exact h.threads i

end

variable (P : Platform) (policy : Json)

/-- Every thread is settled or has one reservation in flight. -/
def ledger : Protocol (machine P (only policy)) where
  inv := Booked policy
  req i q s :=
    match q with
    | .reserve _ => Settled policy i s
    | .returned call d =>
      s.made i = s.owed policy i ++ due policy (.decided call d) ∧ Named policy (.decided call d)
    | _ => True
  rely i s t := t.own i = s.own i
  rely_refl _ _ := rfl
  rely_trans h h' := h'.trans h
  step_inv := by
    intro i q s r s' hinv hreq he
    rcases exec_cases he with rfl | ⟨host, rfl, rfl⟩ | ⟨call, d, rfl, rfl⟩ | ⟨specs, answer, b, rfl, -, rfl⟩
    · exact hinv
    · exact hinv.quiet rfl rfl trivial
    · obtain ⟨hmade, hnamed⟩ := hreq
      refine hinv.note (Or.inl ?_) hnamed
      unfold Settled
      rw [made_note_self, owed_note_self, ← hmade]
      exact List.append_nil _
    · have hbooked : Booked policy (Desk.mk b s.log) := ⟨hinv.threads, hinv.named⟩
      by_cases hok : answer = .ok none
      · subst hok
        refine hbooked.note (Or.inr ⟨specs, ?_⟩) trivial
        unfold InFlight
        rw [made_note_self, owed_note_self]
        show s.made i ++ [specs] = s.owed policy i ++ [] ++ [specs]
        rw [List.append_nil, hreq]
      · exact hbooked.quiet (granted_refused hok) rfl trivial
  step_rely := by
    intro i j q s r s' hinv hreq he hne
    rcases exec_cases he with rfl | ⟨host, rfl, rfl⟩ | ⟨call, d, rfl, rfl⟩ | ⟨specs, answer, b, rfl, -, rfl⟩
    · rfl
    · exact Desk.own_note_ne s _ (Ne.symm hne)
    · exact Desk.own_note_ne s _ (Ne.symm hne)
    · exact Desk.own_note_ne (Desk.mk b s.log) _ (Ne.symm hne)

variable {P policy}

theorem Settled.rely {i : Nat} {s t : Desk} (h : Settled policy i s) (ht : t.own i = s.own i) :
    Settled policy i t := by
  unfold Settled Desk.made Desk.owed at h ⊢
  rw [ht, h]

theorem InFlight.rely {i : Nat} {s t : Desk} {specs : Specs} (h : InFlight policy i s specs)
    (ht : t.own i = s.own i) : InFlight policy i t specs := by
  unfold InFlight Desk.made Desk.owed at h ⊢
  rw [ht, h]

/-- Around `decide` a thread is settled; once it has reserved it is in flight. -/
theorem keeps_ledger {i : Nat} {call : Call} :
    Keeps P (only policy) (ledger P policy) i call (Settled policy i)
      (fun _ specs s => InFlight policy i s specs) where
  stable h hr _ := h.rely hr
  due h hr _ := h.rely hr
  quiet := by
    intro q s hq hs _
    refine ⟨?_, fun r s' he => ?_⟩
    · cases q with
      | reserve specs => cases hq
      | returned call d => cases hq
      | _ => trivial
    · rcases exec_cases he with rfl | ⟨host, rfl, rfl⟩ | ⟨call, d, rfl, rfl⟩ | ⟨specs, answer, b, rfl, -, rfl⟩
      · exact hs
      · obtain ⟨hmade, howed⟩ := note_quiet policy (s := s) (i := i) (e := .resolved host) rfl rfl i
        unfold Settled
        rw [hmade, howed]
        exact hs
      · cases hq
      · cases hq
  reserve := by
    intro pid specs s hdue hs _
    refine ⟨hs, fun r s' he => ?_⟩
    obtain ⟨b, -, rfl⟩ := exec_reserve he
    constructor
    · rintro rfl
      unfold InFlight
      rw [made_note_self, owed_note_self]
      show s.made i ++ [specs] = s.owed policy i ++ [] ++ [specs]
      rw [List.append_nil, hs]
    · intro hr
      have hnone : granted (.reserved specs r) = [] := granted_refused hr
      obtain ⟨hmade, howed⟩ := note_quiet policy (s := Desk.mk b s.log) (i := i) hnone rfl i
      unfold Settled
      rw [hmade, howed]
      exact hs

/-! ## The decisions and their reservations -/

theorem programOf_ok {policy pid program : Json} {id : String}
    (h : programOf policy pid = .ok (some (id, program))) : pid = .str id := by
  unfold programOf at h
  obtain ⟨programs, -, h⟩ := Except.bind_eq_ok.1 h
  split at h
  · split at h
    · cases h
    · cases h
    · cases h
      rfl
  · split at h <;> cases h
  · cases h

theorem programIn_ok {policy program : Json} {src : IpAddress.Address} {id : String} {networks : Record}
    (h : programIn policy src networks = .ok (some (id, program))) :
    programOf policy (.str id) = .ok (some (id, program)) := by
  induction networks with
  | nil => cases h
  | cons entry networks ih =>
    obtain ⟨cidr, pid⟩ := entry
    unfold programIn at h
    split at h
    · exact ih h
    · split at h
      · obtain rfl := programOf_ok h
        exact h
      · exact ih h

/-- The program of a source is the one that the policy has under the id. -/
theorem programForSource_ok {srcIp id : String} {policy program : Json}
    (h : programForSource srcIp policy = .ok (some (id, program))) :
    programOf policy (.str id) = .ok (some (id, program)) := by
  unfold programForSource at h
  split at h
  · cases h
  obtain ⟨networks, -, h⟩ := Except.bind_eq_ok.1 h
  split at h
  · exact programIn_ok h
  · cases h

theorem dueSpecs_of_due {call : Call} {pid : String} {specs : Specs}
    (h : Due (only policy) call pid specs) :
    dueSpecs policy call = some specs ∧ ∃ program,
      programForSource call.srcIp policy = .ok (some (pid, program)) ∧
      reservation pid program call.asset = .ok specs := by
  obtain ⟨policy', program, hpolicy, hid, hspecs⟩ := h
  obtain rfl := only_iff.1 hpolicy
  refine ⟨?_, program, hid, hspecs⟩
  unfold dueSpecs
  rw [hid]
  simp [hspecs, Except.toOption]

/-- The result of a call is handed over with its reservation on the books. -/
theorem handed_over {i : Nat} {call : Call} {d : Decision} {s : Desk}
    (h : After (only policy) call (Settled policy i) (fun _ specs s => InFlight policy i s specs) d s) :
    s.made i = s.owed policy i ++ due policy (.decided call d) ∧ Named policy (.decided call d) := by
  by_cases hc : Charging call d
  · obtain ⟨pid, specs, hpid, hdue, hflight⟩ := h.1 hc
    obtain ⟨hspecs, program, hid, hres⟩ := dueSpecs_of_due hdue
    refine ⟨?_, fun _ => ⟨pid, program, specs, hpid, hid, hres⟩⟩
    rw [due, if_pos hc, hspecs]
    exact hflight
  · refine ⟨?_, fun hc' => absurd hc' hc⟩
    rw [due, if_neg hc, List.append_nil]
    exact h.2 hc

/-- Decisions are at most as many as their reservations. -/
theorem allowed_le {s : Desk} {p : Call → Decision → Bool} {kind : Specs → Bool}
    (h : ∀ i call d, (i, Event.decided call d) ∈ s.log → Charging call d → p call d = true →
      ∃ specs, dueSpecs policy call = some specs ∧ kind specs = true) :
    s.allowed p ≤ (s.log.flatMap fun e => due policy e.2).countP kind := by
  unfold Desk.allowed
  generalize s.log = log at h
  induction log with
  | nil => exact Nat.le_refl 0
  | cons entry log ih =>
    have hrest := ih fun i call d hmem => h i call d (List.mem_cons_of_mem _ hmem)
    rw [List.countP_cons, List.flatMap_cons, List.countP_append]
    obtain ⟨i, e⟩ := entry
    cases e with
    | resolved host => simpa [due] using hrest
    | reserved specs answer => simpa [due] using hrest
    | decided call d =>
      by_cases hc : Charging call d ∧ p call d = true
      · obtain ⟨specs, hspecs, hkind⟩ := h i call d List.mem_cons_self hc.1 hc.2
        have hone : (due policy (.decided call d)).countP kind = 1 := by
          rw [due, if_pos hc.1, hspecs]
          simp [hkind]
        rw [hone, if_pos (by simpa using hc)]
        omega
      · rw [if_neg (by simpa using hc)]
        omega

theorem owed_le_made {s : Desk} (hb : Booked policy s) (kind : Specs → Bool) :
    (s.log.flatMap fun e => due policy e.2).countP kind ≤ s.grants.countP kind := by
  refine Traces.countP_le_of_own fun i => ?_
  change (s.owed policy i).countP kind ≤ (s.made i).countP kind
  rcases hb.threads i with h | ⟨specs, h⟩
  · rw [h]
  · rw [h, List.countP_append]
    omega

theorem reservation_cap {pid asset : String} {program cap : Json} {specs : Specs}
    (h : reservation pid program asset = .ok specs) (hcap : program.get "max_requests" = .ok cap) :
    (pid, cap) ∈ specs := by
  unfold reservation at h
  obtain ⟨cap', hcap', h1⟩ := Except.bind_eq_ok.1 h
  cases hcap.symm.trans (raising_ok.1 hcap')
  split at h1
  · cases h1
    exact List.mem_cons_self
  · obtain ⟨assetCap, -, h2⟩ := Except.bind_eq_ok.1 h1
    cases h2
    exact List.mem_cons_self

theorem reservation_asset {pid asset : String} {program cap : Json} {specs : Specs}
    (h : reservation pid program asset = .ok specs) (hasset : asset ≠ "")
    (hcap : (program.field "asset_max_requests" (.obj []) >>= fun caps => caps.get asset) = .ok cap) :
    (s!"{pid}/{asset}", cap) ∈ specs := by
  unfold reservation at h
  obtain ⟨cap', -, h1⟩ := Except.bind_eq_ok.1 h
  split at h1
  · rename_i hnone
    unfold assetKey at hnone
    rw [if_neg hasset] at hnone
    cases hnone
  · rename_i akey hakey
    unfold assetKey at hakey
    rw [if_neg hasset] at hakey
    cases hakey
    obtain ⟨assetCap, hasset', h2⟩ := Except.bind_eq_ok.1 h1
    cases hcap.symm.trans (raising_ok.1 hasset')
    cases h2
    exact List.mem_cons_of_mem _ List.mem_cons_self

/-- Decisions whose reservations are made under a cap do not pass it. -/
theorem allowed_capped {s : Desk} (hb : Booked policy s) (hcapped : Capped s) {p : Call → Decision → Bool}
    {key : String} {cap : Int}
    (h : ∀ call d pid program specs, p call d = true → d.programId = some pid →
      programOf policy (.str pid) = .ok (some (pid, program)) →
      reservation pid program call.asset = .ok specs → (key, Json.int cap) ∈ specs) :
    s.allowed p ≤ cap.toNat := by
  have hle : s.allowed p ≤ (s.log.flatMap fun e => due policy e.2).countP
      fun specs => (key, Json.int cap) ∈ specs := by
    refine allowed_le fun i call d hmem hc hp => ?_
    obtain ⟨pid, program, specs, hpid, hid, hspecs⟩ := hb.named _ hmem hc
    refine ⟨specs, ?_, by simpa using h call d pid program specs hp hpid (programForSource_ok hid) hspecs⟩
    unfold dueSpecs
    rw [hid]
    simp [hspecs, Except.toOption]
  exact (hle.trans (owed_le_made hb _)).trans (hcapped key cap)

/-! ## A call alone -/

/-- A call that does not charge leaves the budgets as they are. -/
theorem keeps_alone (P : Platform) (provides : Json → Bool) (i : Nat) (call : Call) (b : Budgets) :
    Keeps P provides (Protocol.alone (machine P provides) i) i call (fun s => s.budgets = b)
      (fun _ _ _ => True) where
  stable := by
    rintro s t hs hr -
    rw [hr rfl, hs]
  due _ _ _ := trivial
  quiet := by
    rintro q s hq rfl -
    refine ⟨rfl, fun r s' he => ?_⟩
    rcases exec_budgets he with ⟨hb, -⟩ | ⟨specs, rfl, -, -⟩
    · exact hb
    · cases hq
  reserve := by
    rintro pid specs s - rfl -
    refine ⟨rfl, fun r s' he => ⟨fun _ => trivial, fun hr => ?_⟩⟩
    obtain ⟨b', hreserve, rfl⟩ := exec_reserve he
    exact Budgets.reserve_some hreserve hr

theorem decide_keeps {env : Env P.floats} {i : Nat} {call : Call} {s s' : Desk} {d : Decision}
    (hrun : Prog.runWith (env.answer P i) (decide P call) s = (.ok d, s')) (hc : ¬ Charging call d) :
    s'.budgets = s.budgets := by
  have hexec : ∀ q s, (machine P fun _ => true).exec i q s (env.answer P i q s).1 =
      some (env.answer P i q s).2 := exec_answer fun _ _ => rfl
  have hwp := (keeps_alone P (fun _ => true) i call s.budgets).wp_decide (s := s) rfl trivial
  exact ((Protocol.runWith_of_wp hexec hwp).1 d s' hrun).2 hc

/-! ## The ceiling -/

/-- **The ceiling of a budget.** Under one policy, in every interleaving of any number of threads:
* the decisions that allow without a pin are, for a program with a cap, at most as many as the cap,
  and, for an asset with a cap, at most as many as that cap;
* the counters are what was charged;
* what a thread has charged is what its decisions that allow without a pin account for, and at most one
  reservation in flight; so no other decision charges anything;
* a call alone that denies or has a pin leaves the budgets as they are. -/
theorem budget_ceiling {policy : Json} {b : Budgets} {calls : Nat → List Call}
    {cfg : Config Halt Query (Answer P.floats) Desk}
    (h : Reach (machine P (only policy)) ⟨⟨b, []⟩, fun i => serve P (calls i)⟩ cfg) :
    (∀ pid program (cap : Int), programOf policy (.str pid) = .ok (some (pid, program)) →
      program.get "max_requests" = .ok (.int cap) →
      cfg.state.allowed (fun _ d => d.programId = some pid) ≤ cap.toNat) ∧
    (∀ pid program asset (cap : Int), programOf policy (.str pid) = .ok (some (pid, program)) → asset ≠ "" →
      (program.field "asset_max_requests" (.obj []) >>= fun caps => caps.get asset) = .ok (.int cap) →
      cfg.state.allowed (fun call d => d.programId = some pid ∧ call.asset = asset) ≤ cap.toNat) ∧
    (∀ key, cfg.state.budgets.count key = b.count key + cfg.state.charged.count key) ∧
    (∀ i, (Settled policy i cfg.state ∨ ∃ specs, InFlight policy i cfg.state specs) ∧
      (cfg.pool i = .ret () → Settled policy i cfg.state)) ∧
    ∀ (env : Env P.floats) (i : Nat) (call : Call) (s s' : Desk) (d : Decision),
      Prog.runWith (env.answer P i) (decide P call) s = (.ok d, s') → ¬ Charging call d →
      s'.budgets = s.budgets := by
  have hinv : (ledger P policy).inv ⟨b, []⟩ := ⟨fun i => Or.inl rfl, fun e he => by cases he⟩
  have hwp : ∀ i, (ledger P policy).wp i (serve P (calls i)) (fun _ => Settled policy i)
      (fun _ => Settled policy i) ⟨b, []⟩ := by
    intro i
    refine wp_serve (fun call _ => keeps_ledger) ?_ (fun hs hr _ => hs.rely hr) rfl hinv
    intro call _ d s hafter _
    obtain ⟨hmade, hnamed⟩ := handed_over hafter
    refine ⟨⟨hmade, hnamed⟩, fun r s' he => ?_⟩
    cases he
    unfold Settled
    rw [made_note_self, owed_note_self, ← hmade]
    exact List.append_nil _
  have hbooked : Booked policy cfg.state := (Protocol.sound hinv hwp h).1
  have hended := fun i => (Protocol.sound_ended hinv hwp h i).1
  obtain ⟨hbalanced, hcapped⟩ := reach_balanced (fun key => (Nat.add_zero _).symm) (fun key cap => Nat.zero_le _) h
  refine ⟨?_, ?_, hbalanced, fun i => ⟨hbooked.threads i, hended i⟩, fun env i call s s' d => decide_keeps⟩
  · intro pid program cap hprogram hcap
    have htaken : ∀ (call : Call) (d : Decision) (pid' : String) (program' : Json) (specs : Specs),
        (d.programId = some pid : Bool) = true → d.programId = some pid' →
        programOf policy (.str pid') = .ok (some (pid', program')) →
        reservation pid' program' call.asset = .ok specs → (pid, Json.int cap) ∈ specs := by
      intro call d pid' program' specs hp hpid hprogram' hspecs
      rw [decide_eq_true_eq] at hp
      obtain rfl : pid' = pid := Option.some.inj (hpid.symm.trans hp)
      cases hprogram.symm.trans hprogram'
      exact reservation_cap hspecs hcap
    exact allowed_capped hbooked hcapped htaken
  · intro pid program asset cap hprogram hasset hcap
    have htaken : ∀ (call : Call) (d : Decision) (pid' : String) (program' : Json) (specs : Specs),
        (d.programId = some pid ∧ call.asset = asset : Bool) = true → d.programId = some pid' →
        programOf policy (.str pid') = .ok (some (pid', program')) →
        reservation pid' program' call.asset = .ok specs → (s!"{pid}/{asset}", Json.int cap) ∈ specs := by
      intro call d pid' program' specs hp hpid hprogram' hspecs
      rw [decide_eq_true_eq] at hp
      obtain ⟨hsame, rfl⟩ := hp
      obtain rfl : pid' = pid := Option.some.inj (hpid.symm.trans hsame)
      cases hprogram.symm.trans hprogram'
      exact reservation_asset hspecs hasset hcap
    exact allowed_capped hbooked hcapped htaken

/-- One call under the open policy with a cap of one: the ceiling is reached. -/
theorem budget_ceiling_open :
    ∃ cfg, Reach (machine asciiPlatform (only (openPolicy "lab" (.int 1))))
        ⟨⟨[], []⟩, fun i => serve asciiPlatform (if i = 0 then [openCall ""] else [])⟩ cfg ∧
      cfg.state.allowed (fun _ d => d.programId = some "lab") = 1 ∧
      cfg.state.allowed (fun _ d => d.programId = some "lab") ≤ (1 : Int).toNat := by
  obtain ⟨pool, hreach⟩ := open_reach (P := asciiPlatform) (b := []) (only_iff.2 rfl)
    (show Budgets.exceeded asciiPlatform.floats [] (openSpecs "lab" "" (.int 1)) = .ok none from rfl)
  refine ⟨_, hreach, rfl, ?_⟩
  exact (budget_ceiling hreach).1 "lab" (openProgram "lab" (.int 1)) 1 (programForSource_ok (open_source "lab" (.int 1))) rfl

end StrixPEP.Pdp
