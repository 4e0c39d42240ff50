import Mathlib.Logic.Relation
import Mathlib.Logic.Function.Basic

/-!
# Threads over shared state

* `Prog` — a thread's program: it returns, raises, or issues a command and continues with the
  response.  Exceptions are built in (`tryCatch`, `tryFinally`).
* `Machine` — the shared state: `exec i c s r` is the state after thread `i` issues `c` in `s` and
  gets the response `r`, if it can get it.  All nondeterminism is in the response.
* `Step`, `Reach` — interleavings of a pool of threads; `schedule` runs a list of thread ids with
  responses picked by a function.
* `Protocol` — what the threads agree on: an invariant, what a thread must establish before each
  command (`req`), and what it may expect of the others between its own commands (`rely`).
* `Prog.Issues` — a condition on every command of a program.
* `Prog.runWith` — a program run alone, which is one of the interleavings (`reach_runWith`) and keeps
  what a weakest precondition promises (`Protocol.runWith_of_wp`).
* `wp` — the weakest precondition of a program under interference, with one rule per
  construction; `Protocol.sound` — the pool keeps the invariant, every command is issued with its
  requirement met, and every thread that has ended meets its postcondition.
-/

namespace Threads

/-- The program of a thread. -/
inductive Prog (ε C : Type) (R : C → Type) (α : Type) : Type where
  | ret (a : α)
  | raise (e : ε)
  | cmd (c : C) (k : R c → Prog ε C R α)

namespace Prog

variable {ε C : Type} {R : C → Type} {α β : Type}

def bind : Prog ε C R α → (α → Prog ε C R β) → Prog ε C R β
  | ret a, f => f a
  | raise e, _ => raise e
  | cmd c k, f => cmd c fun r => bind (k r) f

instance : Monad (Prog ε C R) where
  pure := ret
  bind := bind

/-- Issue one command. -/
def perform (c : C) : Prog ε C R (R c) := cmd c ret

/-- `try: p except e: h`. -/
def tryCatch : Prog ε C R α → (ε → Prog ε C R α) → Prog ε C R α
  | ret a, _ => ret a
  | raise e, h => h e
  | cmd c k, h => cmd c fun r => tryCatch (k r) h

/-- `try: p finally: f`. -/
def tryFinally (p : Prog ε C R α) (f : Prog ε C R Unit) : Prog ε C R α :=
  bind (tryCatch p fun e => bind f fun _ => raise e) fun a => bind f fun _ => ret a

/-- Run the commands of a program by programs over another set of commands. -/
def interpret {C' : Type} {R' : C' → Type} (f : (c : C) → Prog ε C' R' (R c)) :
    Prog ε C R α → Prog ε C' R' α
  | ret a => ret a
  | raise e => raise e
  | cmd c k => bind (f c) fun r => interpret f (k r)

/-- A computation without commands. -/
def ofExcept : Except ε α → Prog ε C R α
  | .ok a => ret a
  | .error e => raise e

/-- Run a program alone: `answer` is the response to a command and the state after it. -/
def runWith {S : Type} (answer : (c : C) → S → R c × S) : Prog ε C R α → S → Except ε α × S
  | ret a, s => (.ok a, s)
  | raise e, s => (.error e, s)
  | cmd c k, s => runWith answer (k (answer c s).1) (answer c s).2

/-- Every command that the program can issue satisfies `T`. -/
def Issues (T : C → Prop) : Prog ε C R α → Prop
  | ret _ => True
  | raise _ => True
  | cmd c k => T c ∧ ∀ r, Issues T (k r)

section Issues

variable {T : C → Prop} {p : Prog ε C R α}

theorem issues_bind {f : α → Prog ε C R β} (hp : p.Issues T) (hf : ∀ a, (f a).Issues T) :
    (p >>= f).Issues T := by
  change (p.bind f).Issues T
  induction p with
  | ret a => exact hf a
  | raise e => trivial
  | cmd c k ih => exact ⟨hp.1, fun r => ih r (hp.2 r)⟩

theorem issues_perform {c : C} (h : T c) : (perform c : Prog ε C R (R c)).Issues T :=
  ⟨h, fun _ => trivial⟩

theorem issues_tryCatch {h : ε → Prog ε C R α} (hp : p.Issues T) (hh : ∀ e, (h e).Issues T) :
    (p.tryCatch h).Issues T := by
  induction p with
  | ret a => trivial
  | raise e => exact hh e
  | cmd c k ih => exact ⟨hp.1, fun r => ih r (hp.2 r)⟩

end Issues

section RunWith

variable {S : Type} {answer : (c : C) → S → R c × S} {s : S}

@[simp] theorem runWith_ret (a : α) :
    runWith answer (ret a : Prog ε C R α) s = (.ok a, s) := rfl

@[simp] theorem runWith_raise (e : ε) :
    runWith answer (raise e : Prog ε C R α) s = (.error e, s) := rfl

@[simp] theorem runWith_ofExcept (x : Except ε α) :
    runWith answer (ofExcept x : Prog ε C R α) s = (x, s) := by
  cases x <;> rfl

@[simp] theorem runWith_perform (c : C) :
    runWith answer (perform c : Prog ε C R (R c)) s = (.ok (answer c s).1, (answer c s).2) := rfl

theorem runWith_bind (p : Prog ε C R α) (f : α → Prog ε C R β) :
    runWith answer (p >>= f) s =
      match runWith answer p s with
      | (.ok a, t) => runWith answer (f a) t
      | (.error e, t) => (.error e, t) := by
  change runWith answer (p.bind f) s = _
  induction p generalizing s with
  | ret a => rfl
  | raise e => rfl
  | cmd c k ih => exact ih _

/-- A sequence returns if both parts do. -/
theorem runWith_bind_ok {p : Prog ε C R α} {f : α → Prog ε C R β} {b : β} {s' : S} :
    runWith answer (p >>= f) s = (.ok b, s') ↔
      ∃ a t, runWith answer p s = (.ok a, t) ∧ runWith answer (f a) t = (.ok b, s') := by
  rw [runWith_bind]
  split
  · rename_i a t hp
    constructor
    · intro h
      exact ⟨a, t, hp, h⟩
    · rintro ⟨a', t', hp', h⟩
      obtain ⟨ha, rfl⟩ := Prod.mk.inj (hp.symm.trans hp')
      cases ha
      exact h
  · rename_i e t hp
    constructor
    · intro h
      cases (Prod.mk.inj h).1
    · rintro ⟨a', t', hp', -⟩
      cases (Prod.mk.inj (hp.symm.trans hp')).1

theorem runWith_tryCatch (p : Prog ε C R α) (h : ε → Prog ε C R α) :
    runWith answer (p.tryCatch h) s =
      match runWith answer p s with
      | (.ok a, t) => (.ok a, t)
      | (.error e, t) => runWith answer (h e) t := by
  induction p generalizing s with
  | ret a => rfl
  | raise e => rfl
  | cmd c k ih => exact ih _

end RunWith

end Prog

/-- The shared state and its commands. -/
structure Machine (C : Type) (R : C → Type) (S : Type) where
  exec : Nat → (c : C) → S → R c → Option S

section Semantics

variable {ε C : Type} {R : C → Type} {S : Type}

/-- A state and the threads' programs. -/
structure Config (ε C : Type) (R : C → Type) (S : Type) where
  state : S
  pool : Nat → Prog ε C R Unit

/-- One command of one thread. -/
inductive Step (M : Machine C R S) : Config ε C R S → Config ε C R S → Prop where
  | mk {cfg : Config ε C R S} {i : Nat} {c : C} {k : R c → Prog ε C R Unit} {r : R c} {s : S}
      (hp : cfg.pool i = .cmd c k) (he : M.exec i c cfg.state r = some s) :
      Step M cfg ⟨s, Function.update cfg.pool i (k r)⟩

/-- Every interleaving. -/
def Reach (M : Machine C R S) : Config ε C R S → Config ε C R S → Prop :=
  Relation.ReflTransGen (Step M)

/-- Let each thread of the list issue one command, with the response that `pick` gives. -/
def schedule (M : Machine C R S) (pick : Nat → (c : C) → S → Option (R c)) :
    List Nat → Config ε C R S → Option (Config ε C R S)
  | [], cfg => some cfg
  | i :: is, cfg =>
    match cfg.pool i with
    | .ret _ | .raise _ => none
    | .cmd c k =>
      match pick i c cfg.state with
      | none => none
      | some r =>
        match M.exec i c cfg.state r with
        | none => none
        | some s => schedule M pick is ⟨s, Function.update cfg.pool i (k r)⟩

theorem schedule_reach {M : Machine C R S} {pick : Nat → (c : C) → S → Option (R c)}
    {is : List Nat} {cfg cfg' : Config ε C R S} (h : schedule M pick is cfg = some cfg') :
    Reach M cfg cfg' := by
  induction is generalizing cfg with
  | nil =>
    cases h
    exact Relation.ReflTransGen.refl
  | cons i is ih =>
    unfold schedule at h
    split at h
    · cases h
    · cases h
    rename_i c k hp
    split at h
    · cases h
    rename_i r hr
    split at h
    · cases h
    rename_i s hs
    exact Relation.ReflTransGen.head (Step.mk hp hs) (ih h)

/-- What a thread does alone is an interleaving. -/
theorem reach_runWith {M : Machine C R S} {i : Nat} {answer : (c : C) → S → R c × S}
    (hexec : ∀ c s, M.exec i c s (answer c s).1 = some (answer c s).2) (cfg : Config ε C R S) :
    Reach M cfg ⟨(Prog.runWith answer (cfg.pool i) cfg.state).2,
      Function.update cfg.pool i (Prog.ofExcept (Prog.runWith answer (cfg.pool i) cfg.state).1)⟩ := by
  obtain ⟨s, pool⟩ := cfg
  generalize hp : pool i = p
  induction p generalizing s pool with
  | ret a =>
    have hsame : Function.update pool i (.ret a) = pool := by rw [← hp, Function.update_eq_self]
    simp only [hp, Prog.runWith_ret, Prog.ofExcept, hsame]
    exact Relation.ReflTransGen.refl
  | raise e =>
    have hsame : Function.update pool i (.raise e) = pool := by rw [← hp, Function.update_eq_self]
    simp only [hp, Prog.runWith_raise, Prog.ofExcept, hsame]
    exact Relation.ReflTransGen.refl
  | cmd c k ih =>
    have hrest := ih (answer c s).1 (answer c s).2 (Function.update pool i (k (answer c s).1))
      (by rw [Function.update_self])
    simp only [Function.update_self, Function.update_idem] at hrest
    simp only [hp, Prog.runWith]
    exact Relation.ReflTransGen.head (Step.mk hp (hexec c s)) hrest

end Semantics

/-! ## Rely and guarantee -/

/-- What the threads of a machine agree on. -/
structure Protocol {C : Type} {R : C → Type} {S : Type} (M : Machine C R S) where
  inv : S → Prop
  /-- What thread `i` establishes before it issues the command. -/
  req : Nat → C → S → Prop
  /-- What the other threads may do between two commands of thread `i`. -/
  rely : Nat → S → S → Prop
  rely_refl : ∀ i s, rely i s s
  rely_trans : ∀ {i s t u}, rely i s t → rely i t u → rely i s u
  step_inv : ∀ {i c s r s'}, inv s → req i c s → M.exec i c s r = some s' → inv s'
  step_rely : ∀ {i j c s r s'}, inv s → req j c s → M.exec j c s r = some s' → i ≠ j →
    rely i s s'

namespace Protocol

variable {ε C : Type} {R : C → Type} {S : Type} {M : Machine C R S} (P : Protocol M) (i : Nat)
  {α β : Type}

/-- The weakest precondition of a program of thread `i`: the other threads may act before every
command and before the end. -/
def wp : Prog ε C R α → (α → S → Prop) → (ε → S → Prop) → S → Prop
  | .ret a, Q, _, s => ∀ t, P.rely i s t → P.inv t → Q a t
  | .raise e, _, E, s => ∀ t, P.rely i s t → P.inv t → E e t
  | .cmd c k, Q, E, s => ∀ t, P.rely i s t → P.inv t →
      P.req i c t ∧ ∀ r t', M.exec i c t r = some t' → wp (k r) Q E t'

variable {P i} {Q Q' : α → S → Prop} {E E' : ε → S → Prop} {s t : S}

theorem wp_rely {p : Prog ε C R α} (h : P.wp i p Q E s) (hr : P.rely i s t) : P.wp i p Q E t := by
  cases p with
  | ret a => exact fun u hu hi => h u (P.rely_trans hr hu) hi
  | raise e => exact fun u hu hi => h u (P.rely_trans hr hu) hi
  | cmd c k => exact fun u hu hi => h u (P.rely_trans hr hu) hi

theorem wp_mono {p : Prog ε C R α} (h : P.wp i p Q E s) (hQ : ∀ a t, P.inv t → Q a t → Q' a t)
    (hE : ∀ e t, P.inv t → E e t → E' e t) : P.wp i p Q' E' s := by
  induction p generalizing s with
  | ret a => exact fun t ht hi => hQ a t hi (h t ht hi)
  | raise e => exact fun t ht hi => hE e t hi (h t ht hi)
  | cmd c k ih =>
    intro t ht hi
    obtain ⟨hreq, hk⟩ := h t ht hi
    exact ⟨hreq, fun r t' he => ih r (hk r t' he)⟩

theorem wp_bind {p : Prog ε C R α} {f : α → Prog ε C R β} {Q : β → S → Prop}
    (h : P.wp i p (fun a => P.wp i (f a) Q E) E s) (hinv : P.inv s) :
    P.wp i (p >>= f) Q E s := by
  change P.wp i (p.bind f) Q E s
  induction p generalizing s with
  | ret a => exact h s (P.rely_refl i s) hinv
  | raise e => exact h
  | cmd c k ih =>
    intro t ht hi
    obtain ⟨hreq, hk⟩ := h t ht hi
    exact ⟨hreq, fun r t' he => ih r (hk r t' he) (P.step_inv hi hreq he)⟩

/-- Sequencing through an intermediate condition. -/
theorem wp_seq {p : Prog ε C R α} {f : α → Prog ε C R β} {J : α → S → Prop} {Q : β → S → Prop}
    (h : P.wp i p J E s) (hinv : P.inv s) (hf : ∀ a t, P.inv t → J a t → P.wp i (f a) Q E t) :
    P.wp i (p >>= f) Q E s :=
  wp_bind (wp_mono h hf fun _ _ _ he => he) hinv

/-- One command. -/
theorem wp_perform {c : C} {f : R c → Prog ε C R β} {Q : β → S → Prop}
    (h : ∀ t, P.rely i s t → P.inv t →
      P.req i c t ∧ ∀ r t', M.exec i c t r = some t' → P.wp i (f r) Q E t') :
    P.wp i (Prog.perform c >>= f) Q E s := h

theorem wp_ofExcept {x : Except ε α} {f : α → Prog ε C R β} {Q : β → S → Prop}
    (hok : ∀ a, x = .ok a → P.wp i (f a) Q E s)
    (herr : ∀ e, x = .error e → ∀ t, P.rely i s t → P.inv t → E e t) :
    P.wp i (Prog.ofExcept x >>= f) Q E s := by
  cases x with
  | ok a => exact hok a rfl
  | error e => exact herr e rfl

theorem wp_tryCatch {p : Prog ε C R α} {h : ε → Prog ε C R α}
    (hp : P.wp i p Q (fun e => P.wp i (h e) Q E) s) (hinv : P.inv s) :
    P.wp i (p.tryCatch h) Q E s := by
  induction p generalizing s with
  | ret a => exact hp
  | raise e => exact hp s (P.rely_refl i s) hinv
  | cmd c k ih =>
    intro t ht hi
    obtain ⟨hreq, hk⟩ := hp t ht hi
    exact ⟨hreq, fun r t' he => ih r (hk r t' he) (P.step_inv hi hreq he)⟩

/-- The postconditions may be taken after any further interference. -/
theorem wp_settle {p : Prog ε C R α} (h : P.wp i p Q E s) :
    P.wp i p (fun a t => ∀ u, P.rely i t u → P.inv u → Q a u)
      (fun e t => ∀ u, P.rely i t u → P.inv u → E e u) s := by
  induction p generalizing s with
  | ret a => exact fun t ht _ u hu hi => h u (P.rely_trans ht hu) hi
  | raise e => exact fun t ht _ u hu hi => h u (P.rely_trans ht hu) hi
  | cmd c k ih =>
    intro t ht hi
    obtain ⟨hreq, hk⟩ := h t ht hi
    exact ⟨hreq, fun r t' he => ih r (hk r t' he)⟩

theorem wp_tryFinally {p : Prog ε C R α} {f : Prog ε C R Unit}
    (hp : P.wp i p (fun a => P.wp i f (fun _ => Q a) E) (fun e => P.wp i f (fun _ => E e) E) s)
    (hinv : P.inv s) : P.wp i (p.tryFinally f) Q E s := by
  have hret : ∀ a t, P.inv t → P.wp i f (fun _ => Q a) E t →
      P.wp i (f >>= fun _ => (Prog.ret a : Prog ε C R α)) Q E t := by
    intro a t ht h
    refine wp_bind (wp_mono (wp_settle h) (fun _ _ _ h => h) fun e u hu h => ?_) ht
    exact h u (P.rely_refl i u) hu
  have hraise : ∀ e t, P.inv t → P.wp i f (fun _ => E e) E t →
      P.wp i (f >>= fun _ => (Prog.raise e : Prog ε C R α))
        (fun a => P.wp i (f >>= fun _ => Prog.ret a) Q E) E t := by
    intro e t ht h
    refine wp_bind (wp_mono (wp_settle h) (fun _ _ _ h => h) fun e u hu h => ?_) ht
    exact h u (P.rely_refl i u) hu
  exact wp_bind (wp_tryCatch (wp_mono hp hret hraise) hinv) hinv

/-- A program keeps an assertion that the others keep and that its own commands keep. -/
theorem wp_issues {T : C → Prop} {A : S → Prop} {p : Prog ε C R α} (hp : p.Issues T)
    (hrely : ∀ {s t}, A s → P.rely i s t → P.inv t → A t)
    (hstep : ∀ {c s}, T c → A s → P.inv s →
      P.req i c s ∧ ∀ r s', M.exec i c s r = some s' → A s') (h : A s) :
    P.wp i p (fun _ => A) (fun _ => A) s := by
  induction p generalizing s with
  | ret a => exact fun t ht hi => hrely h ht hi
  | raise e => exact fun t ht hi => hrely h ht hi
  | cmd c k ih =>
    intro t ht hi
    obtain ⟨hreq, hk⟩ := hstep hp.1 (hrely h ht hi) hi
    exact ⟨hreq, fun r t' he => ih r (hp.2 r) (hk r t' he)⟩

/-- **Soundness.** From a state with the invariant in which every thread's program meets its
precondition, every interleaving keeps both. -/
theorem sound {Q : Nat → Unit → S → Prop} {E : Nat → ε → S → Prop} {cfg cfg' : Config ε C R S}
    (hinv : P.inv cfg.state) (hwp : ∀ i, P.wp i (cfg.pool i) (Q i) (E i) cfg.state)
    (h : Reach M cfg cfg') :
    P.inv cfg'.state ∧ ∀ i, P.wp i (cfg'.pool i) (Q i) (E i) cfg'.state := by
  induction h with
  | refl => exact ⟨hinv, hwp⟩
  | tail _ hstep ih =>
    obtain ⟨hinv, hwp⟩ := ih
    cases hstep with
    | @mk i c k r s hp he =>
      have hi := hwp i
      rw [hp] at hi
      obtain ⟨hreq, hk⟩ := hi _ (P.rely_refl i _) hinv
      refine ⟨P.step_inv hinv hreq he, fun j => ?_⟩
      by_cases hj : j = i
      · subst hj
        simpa using hk r s he
      · simpa [Function.update_of_ne hj] using wp_rely (hwp j) (P.step_rely hinv hreq he hj)

/-- Every command is issued with its requirement met. -/
theorem sound_req {Q : Nat → Unit → S → Prop} {E : Nat → ε → S → Prop} {cfg cfg' : Config ε C R S}
    (hinv : P.inv cfg.state) (hwp : ∀ i, P.wp i (cfg.pool i) (Q i) (E i) cfg.state)
    (h : Reach M cfg cfg') {i : Nat} {c : C} {k : R c → Prog ε C R Unit}
    (hp : cfg'.pool i = .cmd c k) : P.req i c cfg'.state := by
  obtain ⟨hinv', hwp'⟩ := sound hinv hwp h
  have hi := hwp' i
  rw [hp] at hi
  exact (hi _ (P.rely_refl i _) hinv').1

/-- Every thread that has ended meets its postcondition. -/
theorem sound_ended {Q : Nat → Unit → S → Prop} {E : Nat → ε → S → Prop}
    {cfg cfg' : Config ε C R S} (hinv : P.inv cfg.state)
    (hwp : ∀ i, P.wp i (cfg.pool i) (Q i) (E i) cfg.state) (h : Reach M cfg cfg') (i : Nat) :
    (cfg'.pool i = .ret () → Q i () cfg'.state) ∧
      ∀ e, cfg'.pool i = .raise e → E i e cfg'.state := by
  obtain ⟨hinv', hwp'⟩ := sound hinv hwp h
  have hi := hwp' i
  constructor
  · intro hp
    rw [hp] at hi
    exact hi _ (P.rely_refl i _) hinv'
  · intro e hp
    rw [hp] at hi
    exact hi _ (P.rely_refl i _) hinv'

/-- What every rely gives, every interleaving gives. -/
theorem sound_mono {Q : Nat → Unit → S → Prop} {E : Nat → ε → S → Prop} {G : S → S → Prop}
    {cfg cfg' : Config ε C R S} (hrefl : ∀ s, G s s) (htrans : ∀ {s t u}, G s t → G t u → G s u)
    (hG : ∀ i s t, P.rely i s t → G s t) (hinv : P.inv cfg.state)
    (hwp : ∀ i, P.wp i (cfg.pool i) (Q i) (E i) cfg.state) (h : Reach M cfg cfg') :
    G cfg.state cfg'.state := by
  induction h with
  | refl => exact hrefl _
  | tail hreach hstep ih =>
    obtain ⟨hinv', hwp'⟩ := sound hinv hwp hreach
    cases hstep with
    | @mk i c k r s hp he =>
      have hi := hwp' i
      rw [hp] at hi
      have hreq := (hi _ (P.rely_refl i _) hinv').1
      exact htrans ih (hG (i + 1) _ _ (P.step_rely hinv' hreq he (Nat.succ_ne_self i)))

/-! ## One thread alone -/

/-- Only one thread acts. -/
def alone (M : Machine C R S) (i : Nat) : Protocol M where
  inv _ := True
  req j _ _ := j = i
  rely j s t := j = i → t = s
  rely_refl _ _ _ := rfl
  rely_trans h h' hj := (h' hj).trans (h hj)
  step_inv _ _ _ := trivial
  step_rely _ hj _ hne hi := absurd (hi.trans hj.symm) hne

/-- What a weakest precondition promises, a program run alone keeps. -/
theorem runWith_of_wp {answer : (c : C) → S → R c × S}
    (hexec : ∀ c s, M.exec i c s (answer c s).1 = some (answer c s).2) {p : Prog ε C R α}
    {Q : α → S → Prop} {E : ε → S → Prop} {s : S} (h : (alone M i).wp i p Q E s) :
    (∀ a t, p.runWith answer s = (.ok a, t) → Q a t) ∧
      ∀ e t, p.runWith answer s = (.error e, t) → E e t := by
  induction p generalizing s with
  | ret a =>
    refine ⟨fun a' t hrun => ?_, nofun⟩
    obtain ⟨ha, rfl⟩ := Prod.mk.inj hrun
    cases ha
    exact h s ((alone M i).rely_refl i s) trivial
  | raise e =>
    refine ⟨nofun, fun e' t hrun => ?_⟩
    obtain ⟨he, rfl⟩ := Prod.mk.inj hrun
    cases he
    exact h s ((alone M i).rely_refl i s) trivial
  | cmd c k ih => exact ih _ ((h s ((alone M i).rely_refl i s) trivial).2 _ _ (hexec c s))

end Protocol

end Threads
