import Mathlib.Logic.Basic

/-!
# Computations that raise

When a computation in `Except` returns: `bind_eq_ok` peels the first step off, `mapError_eq_ok`
looks through a change of the exceptions; `Always` is what a computation ensures of its result, and
`Returns` says that there is one.  `Everywhere` is about the turns of a loop over a list.
-/

namespace Except

variable {ε ε' α β : Type}

theorem bind_eq_ok {x : Except ε α} {f : α → Except ε β} {b : β} :
    (x >>= f) = .ok b ↔ ∃ a, x = .ok a ∧ f a = .ok b := by
  cases x with
  | error e =>
    constructor
    · intro h
      cases h
    · rintro ⟨a, h, -⟩
      cases h
  | ok a =>
    constructor
    · intro h
      exact ⟨a, rfl, h⟩
    · rintro ⟨_, h, hf⟩
      cases h
      exact hf

theorem mapError_eq_ok {x : Except ε α} {f : ε → ε'} {a : α} :
    x.mapError f = .ok a ↔ x = .ok a := by
  cases x with
  | error e =>
    constructor
    · intro h
      cases h
    · intro h
      cases h
  | ok b =>
    change Except.ok b = .ok a ↔ _
    rw [Except.ok.injEq, Except.ok.injEq]

/-- Whatever the computation returns has the property. -/
def Always (P : α → Prop) (x : Except ε α) : Prop := ∀ a, x = .ok a → P a

theorem always_ok {P : α → Prop} {a : α} (h : P a) : Always P (.ok a : Except ε α) := by
  intro b hb
  rwa [← Except.ok.inj hb]

theorem always_bind {P : β → Prop} {x : Except ε α} {f : α → Except ε β} (h : ∀ a, Always P (f a)) :
    Always P (x >>= f) := by
  intro b hb
  obtain ⟨a, -, ha⟩ := bind_eq_ok.1 hb
  exact h a b ha

/-- The computation returns. -/
def Returns (x : Except ε α) : Prop := ∃ a, x = .ok a

@[simp] theorem returns_ok {a : α} : Returns (.ok a : Except ε α) := ⟨a, rfl⟩

@[simp] theorem returns_pure {a : α} : Returns (pure a : Except ε α) := ⟨a, rfl⟩

@[simp] theorem not_returns_error {e : ε} : ¬ Returns (.error e : Except ε α) := by
  rintro ⟨a, h⟩
  cases h

@[simp] theorem returns_bind {x : Except ε α} {f : α → Except ε β} :
    Returns (x >>= f) ↔ Returns x ∧ ∀ a, x = .ok a → Returns (f a) := by
  constructor
  · rintro ⟨b, h⟩
    obtain ⟨a, ha, hb⟩ := bind_eq_ok.1 h
    refine ⟨⟨a, ha⟩, fun a' ha' => ?_⟩
    rw [ha] at ha'
    cases ha'
    exact ⟨b, hb⟩
  · rintro ⟨⟨a, ha⟩, h⟩
    obtain ⟨b, hb⟩ := h a ha
    exact ⟨b, bind_eq_ok.2 ⟨a, ha, hb⟩⟩

@[simp] theorem returns_map {x : Except ε α} {f : α → β} : Returns (f <$> x) ↔ Returns x := by
  cases x with
  | ok a => exact ⟨fun _ => ⟨a, rfl⟩, fun _ => ⟨f a, rfl⟩⟩
  | error e => exact ⟨fun h => absurd h not_returns_error, fun h => absurd h not_returns_error⟩

theorem returns_mapM {f : α → Except ε β} {xs : List α} (h : ∀ x ∈ xs, Returns (f x)) :
    Returns (xs.mapM f) := by
  induction xs with
  | nil => exact ⟨[], rfl⟩
  | cons x xs ih =>
    rw [List.mapM_cons]
    have hrest := ih fun y hy => h y (List.mem_cons_of_mem _ hy)
    simp only [returns_bind, returns_pure, implies_true, and_true]
    exact ⟨h x List.mem_cons_self, fun _ _ => hrest⟩

end Except

/-! ## The turns of a loop -/

namespace Turns

variable {α : Type}

/-- `P` holds of every element of the list, and of what precedes it. -/
def Everywhere (P : List α → α → Prop) (xs : List α) : Prop :=
  ∀ pre x post, xs = pre ++ x :: post → P pre x

theorem everywhere_nil {P : List α → α → Prop} : Everywhere P [] := by
  intro pre x post h
  cases pre <;> cases h

/-- The first turn, and the turns that follow it. -/
theorem everywhere_cons {P : List α → α → Prop} {a : α} {xs : List α} :
    Everywhere P (a :: xs) ↔ P [] a ∧ Everywhere (fun pre x => P (a :: pre) x) xs := by
  constructor
  · intro h
    refine ⟨h [] a xs rfl, fun pre x post he => ?_⟩
    exact h (a :: pre) x post (by rw [he, List.cons_append])
  · rintro ⟨hfirst, hrest⟩ pre x post h
    cases pre with
    | nil =>
      cases h
      exact hfirst
    | cons b pre =>
      rw [List.cons_append, List.cons.injEq] at h
      obtain ⟨rfl, h⟩ := h
      exact hrest pre x post h

theorem everywhere_congr {P Q : List α → α → Prop} {xs : List α}
    (h : ∀ pre x post, xs = pre ++ x :: post → (P pre x ↔ Q pre x)) :
    Everywhere P xs ↔ Everywhere Q xs :=
  ⟨fun hp pre x post he => (h pre x post he).1 (hp pre x post he),
    fun hq pre x post he => (h pre x post he).2 (hq pre x post he)⟩

end Turns
