import StrixPEP.Lib.Bounded

/-!
# Splitting by a machine

A text is split by a machine that reads it: `step` is what it does with an element, and `brk` says at which
elements, in which states, a part ends.

Principal results: `parts_append` and `parts_eq_append`, the parts of a text are those before a break and
those behind it.
-/

namespace Splitting

variable {σ α : Type} (step : σ → α → σ) (brk : σ → α → Bool)

/-- The state behind a text. -/
def run (s : σ) (t : List α) : σ := t.foldl step s

/-- One more element of the first part. -/
def extend (x : α) : List (List α) → List (List α)
  | [] => [[x]]
  | p :: ps => (x :: p) :: ps

def parts (s : σ) : List α → List (List α)
  | [] => [[]]
  | x :: t => if brk s x then [] :: parts (step s x) t else extend x (parts (step s x) t)

variable {step brk}

theorem run_append (s : σ) (p q : List α) : run step s (p ++ q) = run step (run step s p) q :=
  List.foldl_append

theorem extend_ne_nil (x : α) (ps : List (List α)) : extend x ps ≠ [] := by
  cases ps <;> exact List.cons_ne_nil _ _

theorem parts_ne_nil (s : σ) (t : List α) : parts step brk s t ≠ [] := by
  cases t with
  | nil => exact List.cons_ne_nil _ _
  | cons x t =>
    unfold parts
    split
    · exact List.cons_ne_nil _ _
    · exact extend_ne_nil x _

theorem extend_append {x : α} {ps qs : List (List α)} (h : ps ≠ []) :
    extend x (ps ++ qs) = extend x ps ++ qs := by
  cases ps with
  | nil => exact absurd rfl h
  | cons p ps => rfl

/-- The parts before a break and those behind it. -/
theorem parts_append {s : σ} {p q : List α} {x : α} (h : brk (run step s p) x = true) :
    parts step brk s (p ++ x :: q) = parts step brk s p ++ parts step brk (step (run step s p) x) q := by
  induction p generalizing s with
  | nil =>
    have hx : brk s x = true := h
    rw [List.nil_append, parts, parts, if_pos hx]
    rfl
  | cons y p ih =>
    have hrest := ih (s := step s y) h
    rw [List.cons_append, parts, hrest, parts]
    split
    · rfl
    · exact extend_append (parts_ne_nil _ _)

/-- A text without a break is its only part. -/
theorem parts_singleton {s : σ} {t u : List α} (h : parts step brk s t = [u]) : t = u := by
  induction t generalizing s u with
  | nil => exact (List.cons.inj h).1
  | cons x t ih =>
    unfold parts at h
    split at h
    · exact absurd (List.cons.inj h).2 (parts_ne_nil _ _)
    · cases hrest : parts step brk (step s x) t with
      | nil => exact absurd hrest (parts_ne_nil _ _)
      | cons p ps =>
        rw [hrest, extend, List.cons.injEq] at h
        obtain ⟨rfl, rfl⟩ := h
        rw [ih hrest]

/-- **Where the parts are cut, the text has a break.** -/
theorem parts_eq_append {s : σ} {t : List α} {xs ys : List (List α)} (hx : xs ≠ []) (hy : ys ≠ [])
    (h : parts step brk s t = xs ++ ys) : ∃ p x q, t = p ++ x :: q ∧ brk (run step s p) x = true ∧
      parts step brk s p = xs ∧ parts step brk (step (run step s p) x) q = ys := by
  induction t generalizing s xs with
  | nil =>
    have hlen := congrArg List.length h
    have h1 := List.length_pos_of_ne_nil hx
    have h2 := List.length_pos_of_ne_nil hy
    simp only [parts, List.length_singleton, List.length_append] at hlen
    omega
  | cons x t ih =>
    obtain ⟨u, us, rfl⟩ := List.exists_cons_of_ne_nil hx
    unfold parts at h
    split at h
    · rename_i hb
      obtain ⟨rfl, hrest⟩ := List.cons.inj h
      cases us with
      | nil => exact ⟨[], x, t, rfl, hb, rfl, hrest⟩
      | cons v us =>
        obtain ⟨p, y, q, rfl, hby, hp, hq⟩ := ih (List.cons_ne_nil v us) hrest
        refine ⟨x :: p, y, q, rfl, hby, ?_, hq⟩
        rw [parts, if_pos hb, hp]
    · rename_i hb
      cases hrest : parts step brk (step s x) t with
      | nil => exact absurd hrest (parts_ne_nil _ _)
      | cons w ws =>
        rw [hrest, extend, List.cons_append, List.cons.injEq] at h
        obtain ⟨rfl, rfl⟩ := h
        obtain ⟨p, y, q, rfl, hby, hp, hq⟩ := ih (List.cons_ne_nil w us) hrest
        refine ⟨x :: p, y, q, rfl, hby, ?_, hq⟩
        rw [parts, if_neg hb, hp]
        rfl

end Splitting
