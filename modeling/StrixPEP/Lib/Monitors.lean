import StrixPEP.Lib.Trails

/-!
# What a thread keeps to, whatever it is told

A monitor follows the steps of one thread: a state, where each response leads, and the commands that
the state permits.  The responses are arbitrary, so what a program keeps to alone (`Follows`) it keeps to
among any other threads (`follows_of_reach`).

`Follows` is the weakest precondition of a machine with one thread, so its rules are those of
`Protocol.wp`.
-/

namespace Threads

/-- A monitor of a thread. -/
structure Monitor (C : Type) (R : C → Type) (σ : Type) where
  permits : σ → C → Prop
  next : σ → (c : C) → R c → σ

namespace Monitor

variable {C : Type} {R : C → Type} {σ : Type} (mon : Monitor C R σ)

/-- The state after some steps. -/
def run (s : σ) (tr : List (Sigma R)) : σ := tr.foldl (fun s x => mon.next s x.1 x.2) s

@[simp] theorem run_nil (s : σ) : mon.run s [] = s := rfl

@[simp] theorem run_cons (s : σ) (x : Sigma R) (tr : List (Sigma R)) :
    mon.run s (x :: tr) = mon.run (mon.next s x.1 x.2) tr := rfl

theorem run_append (s : σ) (t₁ t₂ : List (Sigma R)) :
    mon.run s (t₁ ++ t₂) = mon.run (mon.run s t₁) t₂ := List.foldl_append

/-- The machine of one thread that gets every response. -/
def machine : Machine C R σ := ⟨fun _ c s r => some (mon.next s c r)⟩

/-- The thread issues what is permitted. -/
def protocol : Protocol mon.machine where
  inv _ := True
  req j c s := j = 0 ∧ mon.permits s c
  rely j s t := j = 0 → t = s
  rely_refl _ _ _ := rfl
  rely_trans h h' hj := (h' hj).trans (h hj)
  step_inv _ _ _ := trivial
  step_rely _ hj _ hne hi := absurd (hi.trans hj.1.symm) hne

end Monitor

namespace Prog

variable {ε C : Type} {R : C → Type} {σ α β : Type} {mon : Monitor C R σ}

/-- Whatever it is told, the program issues what is permitted, and ends in a state with `Q`, or with `E`
where it raises. -/
abbrev Follows (mon : Monitor C R σ) (p : Prog ε C R α) (Q : α → σ → Prop) (E : ε → σ → Prop) (s : σ) :
    Prop := mon.protocol.wp 0 p Q E s

variable {p : Prog ε C R α} {Q : α → σ → Prop} {E : ε → σ → Prop} {s : σ}

theorem follows_ret {a : α} : (ret a : Prog ε C R α).Follows mon Q E s ↔ Q a s := by
  constructor
  · intro h
    exact h s (mon.protocol.rely_refl 0 s) trivial
  · intro h t ht _
    obtain rfl := ht rfl
    exact h

theorem follows_raise {e : ε} : (raise e : Prog ε C R α).Follows mon Q E s ↔ E e s := by
  constructor
  · intro h
    exact h s (mon.protocol.rely_refl 0 s) trivial
  · intro h t ht _
    obtain rfl := ht rfl
    exact h

/-- A program that has ended. -/
theorem follows_ended {x : Except ε α} {A : σ → Prop}
    (h : (ofExcept x).Follows mon (fun _ => A) (fun _ => A) s) : A s := by
  cases x with
  | ok a => exact (follows_ret (Q := fun _ => A)).1 h
  | error e => exact (follows_raise (E := fun _ => A)).1 h

theorem follows_cmd {c : C} {k : R c → Prog ε C R α} : (cmd c k).Follows mon Q E s ↔
    mon.permits s c ∧ ∀ r, (k r).Follows mon Q E (mon.next s c r) := by
  constructor
  · intro h
    obtain ⟨hreq, hk⟩ := h s (mon.protocol.rely_refl 0 s) trivial
    exact ⟨hreq.2, fun r => hk r _ rfl⟩
  · rintro ⟨hperm, hk⟩ t ht -
    obtain rfl := ht rfl
    refine ⟨⟨rfl, hperm⟩, fun r t' he => ?_⟩
    cases he
    exact hk r

/-- One command. -/
theorem follows_perform {c : C} {f : R c → Prog ε C R β} {Q : β → σ → Prop} (hperm : mon.permits s c)
    (h : ∀ r, (f r).Follows mon Q E (mon.next s c r)) : (perform c >>= f).Follows mon Q E s :=
  follows_cmd.2 ⟨hperm, h⟩

/-- Sequencing. -/
theorem follows_seq {f : α → Prog ε C R β} {J : α → σ → Prop} {Q : β → σ → Prop}
    (hp : p.Follows mon J E s) (hf : ∀ a t, J a t → (f a).Follows mon Q E t) :
    (p >>= f).Follows mon Q E s :=
  Protocol.wp_seq hp trivial fun a t _ => hf a t

/-- What is permitted throughout. -/
theorem follows_issues {T : C → Prop} {A : σ → Prop} (hp : p.Issues T)
    (hstep : ∀ {c s}, T c → A s → mon.permits s c ∧ ∀ r, A (mon.next s c r)) (h : A s) :
    p.Follows mon (fun _ => A) (fun _ => A) s := by
  refine Protocol.wp_issues hp (fun hs hrely _ => ?_) (fun hc hs _ => ?_) h
  · rw [hrely rfl]
    exact hs
  · refine ⟨⟨rfl, (hstep hc hs).1⟩, fun r s' he => ?_⟩
    cases he
    exact (hstep hc hs).2 r

/-- What is left of a program keeps to what the program keeps to. -/
theorem Follows.trail {q : Prog ε C R α} {tr : List (Sigma R)} (h : p.Follows mon Q E s) (ht : p.Trail tr q) :
    q.Follows mon Q E (mon.run s tr) := by
  induction tr generalizing p s with
  | nil =>
    obtain rfl := trail_nil.1 ht
    exact h
  | cons x tr ih =>
    cases p with
    | ret a => exact ht.elim
    | raise e => exact ht.elim
    | cmd c k =>
      obtain ⟨r, rfl, ht⟩ := ht
      exact ih ((follows_cmd.1 h).2 r) ht

end Prog

/-- **What a program keeps to alone** it keeps to in every interleaving. -/
theorem follows_of_reach {ε C : Type} {R : C → Type} {S σ : Type} {M : Machine C R S} {mon : Monitor C R σ}
    {cfg cfg' : Config ε C R (S × List (Nat × Sigma R))} (h : Reach M.recorded cfg cfg')
    (hstart : cfg.state.2 = []) {i : Nat} {Q : Unit → σ → Prop} {E : ε → σ → Prop} {s : σ}
    (hp : (cfg.pool i).Follows mon Q E s) :
    (cfg'.pool i).Follows mon Q E (mon.run s (Traces.own cfg'.state.2 i)) :=
  hp.trail (trail_of_reach h hstart i)

/-- A recorded run is a run. -/
theorem reach_of_recorded {ε C : Type} {R : C → Type} {S : Type} {M : Machine C R S}
    {cfg cfg' : Config ε C R (S × List (Nat × Sigma R))} (h : Reach M.recorded cfg cfg') :
    Reach M ⟨cfg.state.1, cfg.pool⟩ ⟨cfg'.state.1, cfg'.pool⟩ := by
  induction h with
  | refl => exact Relation.ReflTransGen.refl
  | tail _ hstep ih =>
    cases hstep with
    | @mk i c k r s hp he =>
      obtain ⟨t, ht, rfl⟩ := Option.map_eq_some_iff.1 he
      exact ih.tail (Step.mk hp ht)

end Threads
