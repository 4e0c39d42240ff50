import Mathlib.Data.List.Induction

/-!
# Hash chains

Items that name the hash of the one before them, over any hash function.  `Chain link hash p xs`
says that the first item names `p` and each further one its predecessor; `tail hash p xs` is the
hash of the last item.

Principal result: `commit` — two chains with the same start, length and tail are equal, as far as
the hash separates the items at the same place.
-/

namespace HashChain

variable {α δ : Type} (link : α → Option δ) (hash : α → δ)

def Chain : δ → List α → Prop
  | _, [] => True
  | p, x :: xs => link x = some p ∧ Chain (hash x) xs

def tail : δ → List α → δ
  | p, [] => p
  | _, x :: xs => tail (hash x) xs

variable {link hash}

theorem tail_append (p : δ) (xs ys : List α) :
    tail hash p (xs ++ ys) = tail hash (tail hash p xs) ys := by
  induction xs generalizing p with
  | nil => rfl
  | cons x xs ih => exact ih (hash x)

theorem chain_append {p : δ} {xs ys : List α} :
    Chain link hash p (xs ++ ys) ↔
      Chain link hash p xs ∧ Chain link hash (tail hash p xs) ys := by
  induction xs generalizing p with
  | nil => exact ⟨fun h => ⟨trivial, h⟩, fun h => h.2⟩
  | cons x xs ih =>
    constructor
    · rintro ⟨hx, hxs⟩
      exact ⟨⟨hx, (ih.1 hxs).1⟩, (ih.1 hxs).2⟩
    · rintro ⟨⟨hx, hxs⟩, hys⟩
      exact ⟨hx, ih.2 ⟨hxs, hys⟩⟩

/-- **A chain is determined by its start, its length and its tail.** -/
theorem commit {p : δ} {xs ys : List α} (hx : Chain link hash p xs) (hy : Chain link hash p ys)
    (hlen : xs.length = ys.length) (htail : tail hash p xs = tail hash p ys)
    (hfree : ∀ e ∈ xs.zip ys, hash e.1 = hash e.2 → e.1 = e.2) : xs = ys := by
  induction xs using List.reverseRecOn generalizing ys with
  | nil => exact (List.length_eq_zero_iff.1 hlen.symm).symm
  | append_singleton xs x ih =>
    rcases List.eq_nil_or_concat ys with rfl | ⟨ys, y, rfl⟩
    · simp at hlen
    · rw [List.concat_eq_append] at *
      have hlen' : xs.length = ys.length := by simpa using hlen
      rw [List.zip_append hlen'] at hfree
      rw [tail_append, tail_append] at htail
      have hxy : x = y := hfree (x, y) (List.mem_append_right _ (by simp)) htail
      subst hxy
      rw [chain_append] at hx hy
      have hlink : tail hash p xs = tail hash p ys := by
        have h1 := hx.2.1
        rw [hy.2.1] at h1
        exact (Option.some.inj h1).symm
      rw [ih hx.1 hy.1 hlen' hlink fun e he => hfree e (List.mem_append_left _ he)]

end HashChain
