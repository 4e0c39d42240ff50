import StrixPEP.Lib.Paths
import StrixPEP.Lib.Traces

/-!
# What a thread has done so far

A path is a run to the end; these are the runs up to a point.

* `Trail` — the program has done this and has come to that; `trail_of_reach`, a machine that records
  its steps (`Machine.recorded`) records a trail of every thread.
* `Reaches` — the program has done this and issues the command next; one rule for each construction
  (`reaches_bind`, `reaches_tryCatch`, `reaches_tryFinally`, `reaches_perform`), as for paths.
* `replay` — the responses of a path, given out again: what is known of a program run alone is known
  of its paths (`runWith_replay`).
-/

namespace Threads

namespace Prog

variable {ε C : Type} {R : C → Type} {α β : Type}

/-- The program has done this and has come to `q`. -/
def Trail : Prog ε C R α → List (Sigma R) → Prog ε C R α → Prop
  | p, [], q => p = q
  | cmd c k, x :: tr, q => ∃ r, x = ⟨c, r⟩ ∧ Trail (k r) tr q
  | ret _, _ :: _, _ => False
  | raise _, _ :: _, _ => False

/-- The program has done this and issues the command next. -/
def Reaches : Prog ε C R α → List (Sigma R) → C → Prop
  | ret _, _, _ => False
  | raise _, _, _ => False
  | cmd c k, tr, d => (tr = [] ∧ c = d) ∨ ∃ r tr', tr = ⟨c, r⟩ :: tr' ∧ Reaches (k r) tr' d

section Rules

variable {p : Prog ε C R α} {f : α → Prog ε C R β} {h : ε → Prog ε C R α} {tr : List (Sigma R)} {d : C}

@[simp] theorem reaches_ret {a : α} : ¬ (ret a : Prog ε C R α).Reaches tr d := id

@[simp] theorem reaches_pure {a : α} : ¬ (pure a : Prog ε C R α).Reaches tr d := id

@[simp] theorem reaches_raise {e : ε} : ¬ (raise e : Prog ε C R α).Reaches tr d := id

@[simp] theorem trail_nil {q : Prog ε C R α} : p.Trail [] q ↔ p = q := by
  cases p <;> exact Iff.rfl

/-- A sequence issues a command in its first part, or when that has returned. -/
theorem reaches_bind : (p >>= f).Reaches tr d ↔
    p.Reaches tr d ∨ ∃ a t₁ t₂, tr = t₁ ++ t₂ ∧ p.Path t₁ (.ok a) ∧ (f a).Reaches t₂ d := by
  change (p.bind f).Reaches tr d ↔ _
  induction p generalizing tr with
  | ret a =>
    constructor
    · exact fun hf => .inr ⟨a, [], tr, rfl, ⟨rfl, rfl⟩, hf⟩
    · rintro (hp | ⟨a', t₁, t₂, rfl, ⟨rfl, ha⟩, hf⟩)
      · exact hp.elim
      · cases ha
        exact hf
  | raise e =>
    constructor
    · intro h
      exact h.elim
    · rintro (hp | ⟨a', t₁, t₂, -, ⟨-, ha⟩, -⟩)
      · exact hp.elim
      · cases ha
  | cmd c k ih =>
    constructor
    · rintro (hnow | ⟨r, tr', rfl, hp⟩)
      · exact .inl (.inl hnow)
      · rcases (ih r).1 hp with hp | ⟨a, t₁, t₂, rfl, h₁, h₂⟩
        · exact .inl (.inr ⟨r, tr', rfl, hp⟩)
        · exact .inr ⟨a, ⟨c, r⟩ :: t₁, t₂, rfl, ⟨r, t₁, rfl, h₁⟩, h₂⟩
    · rintro ((hnow | ⟨r, tr', rfl, hp⟩) | ⟨a, -, t₂, rfl, ⟨r, t₁, rfl, h₁⟩, h₂⟩)
      · exact .inl hnow
      · exact .inr ⟨r, tr', rfl, (ih r).2 (.inl hp)⟩
      · exact .inr ⟨r, t₁ ++ t₂, rfl, (ih r).2 (.inr ⟨a, t₁, t₂, rfl, h₁, h₂⟩)⟩

/-- One command and what comes after it. -/
theorem reaches_perform {c : C} {f : R c → Prog ε C R β} :
    (perform c >>= f).Reaches tr d ↔
      (tr = [] ∧ c = d) ∨ ∃ r tr', tr = ⟨c, r⟩ :: tr' ∧ (f r).Reaches tr' d := Iff.rfl

/-- `try` issues a command in its body, or in the handler of what the body raises. -/
theorem reaches_tryCatch : (p.tryCatch h).Reaches tr d ↔
    p.Reaches tr d ∨ ∃ e t₁ t₂, tr = t₁ ++ t₂ ∧ p.Path t₁ (.error e) ∧ (h e).Reaches t₂ d := by
  induction p generalizing tr with
  | ret a =>
    constructor
    · intro h
      exact h.elim
    · rintro (hp | ⟨e, t₁, t₂, -, ⟨-, he⟩, -⟩)
      · exact hp.elim
      · cases he
  | raise e =>
    constructor
    · exact fun hh => .inr ⟨e, [], tr, rfl, ⟨rfl, rfl⟩, hh⟩
    · rintro (hp | ⟨e', t₁, t₂, rfl, ⟨rfl, he⟩, hh⟩)
      · exact hp.elim
      · cases he
        exact hh
  | cmd c k ih =>
    constructor
    · rintro (hnow | ⟨r, tr', rfl, hp⟩)
      · exact .inl (.inl hnow)
      · rcases (ih r).1 hp with hp | ⟨e, t₁, t₂, rfl, h₁, h₂⟩
        · exact .inl (.inr ⟨r, tr', rfl, hp⟩)
        · exact .inr ⟨e, ⟨c, r⟩ :: t₁, t₂, rfl, ⟨r, t₁, rfl, h₁⟩, h₂⟩
    · rintro ((hnow | ⟨r, tr', rfl, hp⟩) | ⟨e, -, t₂, rfl, ⟨r, t₁, rfl, h₁⟩, h₂⟩)
      · exact .inl hnow
      · exact .inr ⟨r, tr', rfl, (ih r).2 (.inl hp)⟩
      · exact .inr ⟨r, t₁ ++ t₂, rfl, (ih r).2 (.inr ⟨e, t₁, t₂, rfl, h₁, h₂⟩)⟩

/-- `finally` issues a command in the body, or when the body has ended. -/
theorem reaches_tryFinally {q : Prog ε C R Unit} (hr : (p.tryFinally q).Reaches tr d) :
    p.Reaches tr d ∨ ∃ body t₁ t₂, tr = t₁ ++ t₂ ∧ p.Path t₁ body ∧ q.Reaches t₂ d := by
  change (tryCatch p (fun e => q >>= fun _ => raise e) >>= fun a => q >>= fun _ => ret a).Reaches tr d at hr
  rcases reaches_bind.1 hr with hp | ⟨a, t₁, t₂, rfl, ha, hq⟩
  · rcases reaches_tryCatch.1 hp with hp | ⟨e, t₁, t₂, rfl, h₁, hq⟩
    · exact .inl hp
    · rcases reaches_bind.1 hq with hq | ⟨_, _, _, -, -, hend⟩
      · exact .inr ⟨.error e, t₁, t₂, rfl, h₁, hq⟩
      · exact absurd hend reaches_raise
  · rcases reaches_bind.1 hq with hq | ⟨_, _, _, -, -, hend⟩
    · rcases path_tryCatch.1 ha with ⟨a', hp, -⟩ | ⟨e, t₃, t₄, -, -, hraise⟩
      · exact .inr ⟨.ok a', t₁, t₂, rfl, hp, hq⟩
      · rcases path_bind.1 hraise with ⟨_, -, he⟩ | ⟨_, _, _, -, -, he⟩
        · cases he
        · cases (path_raise.1 he).2
    · exact absurd hend reaches_ret

theorem Issues.mono {T T' : C → Prop} (hp : p.Issues T) (hT : ∀ c, T c → T' c) : p.Issues T' := by
  induction p with
  | ret a => trivial
  | raise e => trivial
  | cmd c k ih => exact ⟨hT c hp.1, fun r => ih r (hp.2 r)⟩

/-- What every command satisfies, the next one and those before it satisfy. -/
theorem Issues.of_reaches {T : C → Prop} (hp : p.Issues T) (hr : p.Reaches tr d) :
    T d ∧ ∀ x ∈ tr, T x.1 := by
  induction p generalizing tr with
  | ret a => exact hr.elim
  | raise e => exact hr.elim
  | cmd c k ih =>
    rcases hr with ⟨rfl, rfl⟩ | ⟨r, tr', rfl, hr⟩
    · exact ⟨hp.1, fun x hx => absurd hx List.not_mem_nil⟩
    · obtain ⟨hd, htr⟩ := ih r (hp.2 r) hr
      refine ⟨hd, fun x hx => ?_⟩
      rcases List.mem_cons.1 hx with rfl | hx
      · exact hp.1
      · exact htr x hx

/-- What the program issues next is reached. -/
theorem Trail.reaches_next {c : C} {k : R c → Prog ε C R α} (ht : p.Trail tr (cmd c k)) : p.Reaches tr c := by
  induction tr generalizing p with
  | nil =>
    obtain rfl := trail_nil.1 ht
    exact .inl ⟨rfl, rfl⟩
  | cons x tr ih =>
    cases p with
    | ret a => exact ht.elim
    | raise e => exact ht.elim
    | cmd c' k' =>
      obtain ⟨r, rfl, ht⟩ := ht
      exact .inr ⟨r, tr, rfl, ih ht⟩

/-- What a trail has issued was reached. -/
theorem Trail.reaches {t₁ t₂ : List (Sigma R)} {x : Sigma R} {q : Prog ε C R α}
    (ht : p.Trail (t₁ ++ x :: t₂) q) : p.Reaches t₁ x.1 := by
  induction t₁ generalizing p with
  | nil =>
    cases p with
    | ret a => exact ht.elim
    | raise e => exact ht.elim
    | cmd c k =>
      obtain ⟨r, rfl, -⟩ := ht
      exact .inl ⟨rfl, rfl⟩
  | cons y t₁ ih =>
    cases p with
    | ret a => exact ht.elim
    | raise e => exact ht.elim
    | cmd c k =>
      obtain ⟨r, rfl, ht⟩ := ht
      exact .inr ⟨r, t₁, rfl, ih ht⟩

theorem Trail.snoc {c : C} {k : R c → Prog ε C R α} {r : R c} (ht : p.Trail tr (cmd c k)) :
    p.Trail (tr ++ [⟨c, r⟩]) (k r) := by
  induction tr generalizing p with
  | nil =>
    obtain rfl := trail_nil.1 ht
    exact ⟨r, rfl, trail_nil.2 rfl⟩
  | cons x tr ih =>
    cases p with
    | ret a => exact ht.elim
    | raise e => exact ht.elim
    | cmd c' k' =>
      obtain ⟨r', rfl, ht⟩ := ht
      exact ⟨r', rfl, ih ht⟩

end Rules

/-! ## Replaying a path -/

section Replay

variable [DecidableEq C] [∀ c, Inhabited (R c)]

/-- The next response of a path, if it is one to this command. -/
def replay (c : C) : Option (List (Sigma R)) → R c × Option (List (Sigma R))
  | some (⟨d, r⟩ :: tr) => if h : d = c then (h ▸ r, some tr) else (default, none)
  | some [] => (default, none)
  | none => (default, none)

/-- What has been replayed to the end was the path. -/
theorem replay_some {c : C} {s : Option (List (Sigma R))} {r : R c} {tr : List (Sigma R)} :
    replay c s = (r, some tr) ↔ s = some (⟨c, r⟩ :: tr) := by
  constructor
  · intro h
    unfold replay at h
    split at h
    · split at h
      · rename_i hd
        subst hd
        obtain ⟨rfl, ht⟩ := Prod.mk.inj h
        cases ht
        rfl
      · cases (Prod.mk.inj h).2
    · cases (Prod.mk.inj h).2
    · cases (Prod.mk.inj h).2
  · rintro rfl
    simp [replay]

theorem replay_none {c : C} : replay c (none : Option (List (Sigma R))) = (default, none) := rfl

theorem runWith_replay_none {p : Prog ε C R α} : (runWith replay p none).2 = none := by
  induction p with
  | ret a => rfl
  | raise e => rfl
  | cmd c k ih =>
    unfold runWith
    rw [replay_none]
    exact ih default

/-- **A path is a run alone**: with its responses given out again, the program ends as the path does and
leaves none. -/
theorem runWith_replay {p : Prog ε C R α} {tr : List (Sigma R)} {out : Except ε α} :
    runWith replay p (some tr) = (out, some []) ↔ p.Path tr out := by
  induction p generalizing tr with
  | ret a =>
    simp only [runWith_ret, path_ret, Prod.mk.injEq, Option.some.injEq]
    exact ⟨fun h => ⟨h.2, h.1.symm⟩, fun h => ⟨h.2.symm, h.1⟩⟩
  | raise e =>
    simp only [runWith_raise, path_raise, Prod.mk.injEq, Option.some.injEq]
    exact ⟨fun h => ⟨h.2, h.1.symm⟩, fun h => ⟨h.2.symm, h.1⟩⟩
  | cmd c k ih =>
    constructor
    · intro h
      unfold runWith at h
      generalize hreplay : replay c (some tr) = answered at h
      obtain ⟨r, s⟩ := answered
      cases s with
      | none =>
        have hnone : (runWith replay (k r) none).2 = some [] := congrArg Prod.snd h
        rw [runWith_replay_none] at hnone
        cases hnone
      | some tr' =>
        obtain rfl := Option.some.inj (replay_some.1 hreplay)
        exact ⟨r, tr', rfl, (ih r).1 h⟩
    · rintro ⟨r, tr', rfl, h⟩
      unfold runWith
      rw [replay_some.2 rfl]
      exact (ih r).2 h

end Replay

end Prog

/-! ## Recorded runs -/

/-- The machine with a record of its steps. -/
def Machine.recorded {C : Type} {R : C → Type} {S : Type} (M : Machine C R S) :
    Machine C R (S × List (Nat × Sigma R)) :=
  ⟨fun i c s r => (M.exec i c s.1 r).map fun t => (t, s.2 ++ [(i, ⟨c, r⟩)])⟩

/-- **What a thread has done so far** is on record, whatever the others did. -/
theorem trail_of_reach {ε C : Type} {R : C → Type} {S : Type} {M : Machine C R S}
    {cfg cfg' : Config ε C R (S × List (Nat × Sigma R))} (h : Reach M.recorded cfg cfg')
    (hstart : cfg.state.2 = []) (i : Nat) :
    (cfg.pool i).Trail (Traces.own cfg'.state.2 i) (cfg'.pool i) := by
  induction h with
  | refl =>
    rw [hstart]
    exact Prog.trail_nil.2 rfl
  | tail _ hstep ih =>
    cases hstep with
    | @mk j c k r s hp he =>
      obtain ⟨t, -, rfl⟩ := Option.map_eq_some_iff.1 he
      by_cases hj : j = i
      · subst hj
        rw [hp] at ih
        simpa using ih.snoc
      · simpa [Traces.own_append_ne _ _ hj, Function.update_of_ne (Ne.symm hj)] using ih

end Threads
