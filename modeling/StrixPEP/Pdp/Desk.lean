import StrixPEP.Lib.Traces
import StrixPEP.Pdp.DecideSpec

/-!
# Decisions over shared budgets

* `Desk` — what concurrent calls share: the budgets, and a log of what happened, by thread;
* `machine` — the steps of the calls.  The policy provider returns what `provides` admits, or raises;
  the kill file, the clock and the resolver answer anything; `Budgets.reserve` is one atomic step;
* `Env` — a world that stands still, in which a call runs alone.

Principal result: `alone_reach`, what a thread does alone is one of the interleavings.
-/

namespace StrixPEP.Pdp

open Threads

/-- What happened. -/
inductive Event where
  | resolved (host : String)
  | reserved (specs : Specs) (answer : Except PyError (Option String))
  | decided (call : Call) (d : Decision)

/-- What concurrent calls share. -/
structure Desk where
  budgets : Budgets
  log : List (Nat × Event)

namespace Desk

/-- What a thread did. -/
def own (s : Desk) (i : Nat) : List Event := Traces.own s.log i

def note (s : Desk) (i : Nat) (e : Event) : Desk := { s with log := s.log ++ [(i, e)] }

@[simp] theorem own_note_self (s : Desk) (i : Nat) (e : Event) : (s.note i e).own i = s.own i ++ [e] :=
  Traces.own_append_self s.log i e

theorem own_note_ne (s : Desk) {i j : Nat} (e : Event) (h : j ≠ i) : (s.note j e).own i = s.own i :=
  Traces.own_append_ne s.log e h

end Desk

section

variable (P : Platform)

/-- One step of a thread. -/
def Desk.exec (provides : Json → Bool) (i : Nat) :
    (q : Query) → Desk → Answer P.floats q → Option Desk
  | .policy, s, .ok policy => if provides policy then some s else none
  | .policy, s, .error _ => some s
  | .killed, s, _ => some s
  | .now, s, _ => some s
  | .resolve host, s, _ => some (s.note i (.resolved host))
  | .reserve specs, s, (answer : Except PyError (Option String)) =>
    if answer = (s.budgets.reserve P.floats specs).1 then
      some ((Desk.mk (s.budgets.reserve P.floats specs).2 s.log).note i (.reserved specs answer))
    else none
  | .returned call d, s, _ => some (s.note i (.decided call d))

/-- The steps of concurrent calls. -/
def machine (provides : Json → Bool) : Machine Query (Answer P.floats) Desk := ⟨Desk.exec P provides⟩

/-- A provider that returns one policy. -/
def only (policy : Json) (read : Json) : Bool := read == policy

theorem only_iff {policy read : Json} : only policy read = true ↔ read = policy := beq_iff_eq

/-- A world that stands still. -/
structure Env (floats : Floats) where
  policy : Except String Json
  killed : Bool
  now : floats.Value
  resolve : String → Except String Resolution

/-- What a thread gets in it. -/
def Env.answer (env : Env P.floats) (i : Nat) : (q : Query) → Desk → Answer P.floats q × Desk
  | .policy, s => (env.policy, s)
  | .killed, s => (env.killed, s)
  | .now, s => (env.now, s)
  | .resolve host, s => (env.resolve host, s.note i (.resolved host))
  | .reserve specs, s =>
    ((s.budgets.reserve P.floats specs).1,
      (Desk.mk (s.budgets.reserve P.floats specs).2 s.log).note i
        (.reserved specs (s.budgets.reserve P.floats specs).1))
  | .returned call d, s => ((), s.note i (.decided call d))

end

variable {P : Platform}

/-- Everything that a step can do. -/
theorem exec_cases {provides : Json → Bool} {i : Nat} {q : Query} {s s' : Desk} {r : Answer P.floats q}
    (h : (machine P provides).exec i q s r = some s') :
    s' = s ∨ (∃ host, q = .resolve host ∧ s' = s.note i (.resolved host)) ∨
      (∃ call d, q = .returned call d ∧ s' = s.note i (.decided call d)) ∨
      ∃ specs answer b, q = .reserve specs ∧ s.budgets.reserve P.floats specs = (answer, b) ∧
        s' = (Desk.mk b s.log).note i (.reserved specs answer) := by
  change Desk.exec P provides i q s r = some s' at h
  cases q with
  | policy =>
    cases r with
    | ok policy =>
      simp only [Desk.exec] at h
      split at h
      · exact Or.inl (Option.some.inj h).symm
      · cases h
    | error name => exact Or.inl (Option.some.inj h).symm
  | killed => exact Or.inl (Option.some.inj h).symm
  | now => exact Or.inl (Option.some.inj h).symm
  | resolve host => exact Or.inr (Or.inl ⟨host, rfl, (Option.some.inj h).symm⟩)
  | returned call d => exact Or.inr (Or.inr (Or.inl ⟨call, d, rfl, (Option.some.inj h).symm⟩))
  | reserve specs =>
    simp only [Desk.exec] at h
    split at h
    · rename_i hr
      refine Or.inr (Or.inr (Or.inr ⟨specs, r, _, rfl, Prod.ext hr.symm rfl, (Option.some.inj h).symm⟩))
    · cases h

/-- A reservation is answered by the budgets. -/
theorem exec_reserve {provides : Json → Bool} {i : Nat} {specs : Specs} {s s' : Desk}
    {r : Except PyError (Option String)} (h : (machine P provides).exec i (.reserve specs) s r = some s') :
    ∃ b, s.budgets.reserve P.floats specs = (r, b) ∧ s' = (Desk.mk b s.log).note i (.reserved specs r) := by
  change Desk.exec P provides i (.reserve specs) s r = some s' at h
  simp only [Desk.exec] at h
  split at h
  · rename_i hr
    exact ⟨_, Prod.ext hr.symm rfl, (Option.some.inj h).symm⟩
  · cases h

theorem exec_answer {provides : Json → Bool} {env : Env P.floats} {i : Nat}
    (hpolicy : ∀ policy, env.policy = .ok policy → provides policy = true) (q : Query) (s : Desk) :
    (machine P provides).exec i q s (env.answer P i q s).1 = some (env.answer P i q s).2 := by
  cases q with
  | policy =>
    change Desk.exec P provides i .policy s env.policy = some s
    cases h : env.policy with
    | ok policy => exact if_pos (hpolicy policy h)
    | error name => rfl
  | killed => rfl
  | now => rfl
  | resolve host => rfl
  | reserve specs => exact if_pos rfl
  | returned call d => rfl

/-- **What a thread does alone** in a world that stands still is one of the interleavings. -/
theorem alone_reach {provides : Json → Bool} {env : Env P.floats} {i : Nat}
    (hpolicy : ∀ policy, env.policy = .ok policy → provides policy = true)
    (cfg : Config Halt Query (Answer P.floats) Desk) :
    Reach (machine P provides) cfg
      ⟨(Prog.runWith (env.answer P i) (cfg.pool i) cfg.state).2,
        Function.update cfg.pool i
          (Prog.ofExcept (Prog.runWith (env.answer P i) (cfg.pool i) cfg.state).1)⟩ :=
  reach_runWith (exec_answer hpolicy) cfg

end StrixPEP.Pdp
