import StrixPEP.Lib.Trails

/-!
# Linking a program with another

The commands of a program are calls; `link` puts the programs that answer them in their place.  What
answers a call may depend on what the program has done before it.

* `link` — the linked program;
* `Linked` — a run of it, beside the run of the program that it is of.

Principal result: `reaches_link`, whatever the linked program comes to do, it does within one call, and
the calls before that have returned what the program has been told.
-/

namespace Threads.Prog

variable {ε C C' : Type} {R : C → Type} {R' : C' → Type} {α : Type}

/-- Put programs over other commands in the place of the commands. -/
def link (f : List (Sigma R) → (c : C) → Prog ε C' R' (R c)) :
    List (Sigma R) → Prog ε C R α → Prog ε C' R' α
  | _, ret a => ret a
  | _, raise e => raise e
  | done, cmd c k => f done c >>= fun r => link f (done ++ [⟨c, r⟩]) (k r)

/-- After `done`, the calls are answered by these steps. -/
def Linked (f : List (Sigma R) → (c : C) → Prog ε C' R' (R c)) :
    List (Sigma R) → List (Sigma R) → List (Sigma R') → Prop
  | _, [], steps => steps = []
  | done, x :: tr, steps => ∃ t rest, steps = t ++ rest ∧ (f done x.1).Path t (.ok x.2) ∧
      Linked f (done ++ [x]) tr rest

variable {f : List (Sigma R) → (c : C) → Prog ε C' R' (R c)} {done : List (Sigma R)}

/-- A run in two parts. -/
theorem linked_append {t₁ t₂ : List (Sigma R)} {steps : List (Sigma R')} :
    Linked f done (t₁ ++ t₂) steps ↔
      ∃ s₁ s₂, steps = s₁ ++ s₂ ∧ Linked f done t₁ s₁ ∧ Linked f (done ++ t₁) t₂ s₂ := by
  induction t₁ generalizing done steps with
  | nil =>
    rw [List.nil_append, List.append_nil]
    constructor
    · exact fun h => ⟨[], steps, rfl, rfl, h⟩
    · rintro ⟨_, s₂, rfl, rfl, h⟩
      exact h
  | cons x t₁ ih =>
    constructor
    · rintro ⟨t, rest, rfl, hpath, hrest⟩
      obtain ⟨s₁, s₂, rfl, h₁, h₂⟩ := ih.1 hrest
      refine ⟨t ++ s₁, s₂, (List.append_assoc ..).symm, ⟨t, s₁, rfl, hpath, h₁⟩, ?_⟩
      rwa [List.append_assoc] at h₂
    · rintro ⟨_, s₂, rfl, ⟨t, s₁, rfl, hpath, h₁⟩, h₂⟩
      refine ⟨t, s₁ ++ s₂, List.append_assoc .., hpath, ih.2 ⟨s₁, s₂, rfl, h₁, ?_⟩⟩
      rwa [List.append_assoc]

/-- **What a linked program comes to do** is part of the answer to one call. -/
theorem reaches_link {p : Prog ε C R α} {steps : List (Sigma R')} {d : C'} :
    (link f done p).Reaches steps d ↔ ∃ tr c s₁ s₂, steps = s₁ ++ s₂ ∧ p.Reaches tr c ∧
      Linked f done tr s₁ ∧ (f (done ++ tr) c).Reaches s₂ d := by
  induction p generalizing done steps with
  | ret a =>
    constructor
    · intro h
      exact absurd h reaches_ret
    · rintro ⟨tr, c, s₁, s₂, -, h, -⟩
      exact absurd h reaches_ret
  | raise e =>
    constructor
    · intro h
      exact absurd h reaches_raise
    · rintro ⟨tr, c, s₁, s₂, -, h, -⟩
      exact absurd h reaches_raise
  | cmd c k ih =>
    constructor
    · intro h
      rcases reaches_bind.1 h with hnow | ⟨r, t₁, t₂, rfl, hpath, hlater⟩
      · exact ⟨[], c, [], steps, rfl, .inl ⟨rfl, rfl⟩, rfl, by rwa [List.append_nil]⟩
      · obtain ⟨tr, c', s₁, s₂, rfl, hreach, hlinked, hd⟩ := (ih r).1 hlater
        refine ⟨⟨c, r⟩ :: tr, c', t₁ ++ s₁, s₂, by rw [List.append_assoc], .inr ⟨r, tr, rfl, hreach⟩, ?_, ?_⟩
        · exact ⟨t₁, s₁, rfl, hpath, hlinked⟩
        · rwa [List.append_cons]
    · rintro ⟨tr, c', s₁, s₂, rfl, ⟨rfl, rfl⟩ | ⟨r, tr', rfl, hreach⟩, hlinked, hd⟩
      · obtain rfl : s₁ = [] := hlinked
        rw [List.append_nil] at hd
        exact reaches_bind.2 (.inl hd)
      · obtain ⟨t, rest, rfl, hpath, hlinked⟩ := hlinked
        rw [List.append_cons] at hd
        have hlater := (ih r).2 ⟨tr', c', rest, s₂, rfl, hreach, hlinked, hd⟩
        exact reaches_bind.2 (.inr ⟨r, t, rest ++ s₂, by rw [List.append_assoc], hpath, hlater⟩)

end Threads.Prog
