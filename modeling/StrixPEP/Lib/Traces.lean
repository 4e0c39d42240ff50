import Mathlib.Algebra.BigOperators.Group.Finset.Basic
import Mathlib.Algebra.BigOperators.Group.Finset.Piecewise
import Mathlib.Algebra.Order.BigOperators.Group.Finset
import Mathlib.Data.List.Flatten

/-!
# Logs of several parties

A log in which every entry has its author, and the part of one author (`own`).

Principal results: `countP_le_of_own`, what is at most as frequent for every author is at most as
frequent in the whole log; `countP_authors_le`, so is what some authors write.
-/

namespace Traces

variable {α β : Type}

/-- What one author wrote. -/
def own (log : List (Nat × α)) (i : Nat) : List α :=
  log.filterMap fun e => if e.1 = i then some e.2 else none

theorem own_cons (log : List (Nat × α)) (j : Nat) (a : α) (i : Nat) :
    own ((j, a) :: log) i = if j = i then a :: own log i else own log i := by
  unfold own
  rw [List.filterMap_cons]
  by_cases h : j = i
  · simp [h]
  · simp [h]

@[simp] theorem own_append_self (log : List (Nat × α)) (i : Nat) (a : α) :
    own (log ++ [(i, a)]) i = own log i ++ [a] := by
  simp [own]

theorem own_append_ne (log : List (Nat × α)) {i j : Nat} (a : α) (h : j ≠ i) :
    own (log ++ [(j, a)]) i = own log i := by
  simp [own, h]

theorem mem_of_mem_own {log : List (Nat × α)} {i : Nat} {a : α} (h : a ∈ own log i) : (i, a) ∈ log := by
  obtain ⟨⟨j, b⟩, hmem, he⟩ := List.mem_filterMap.1 h
  simp only at he
  split at he
  · rename_i hj
    cases he
    exact hj ▸ hmem
  · cases he

/-- The whole log is counted author by author. -/
theorem countP_eq_sum (f : α → List β) (p : β → Bool) {log : List (Nat × α)} {authors : Finset Nat}
    (h : ∀ e ∈ log, e.1 ∈ authors) :
    (log.flatMap fun e => f e.2).countP p = ∑ i ∈ authors, ((own log i).flatMap f).countP p := by
  induction log with
  | nil => simp [own]
  | cons e log ih =>
    obtain ⟨j, a⟩ := e
    have hj : j ∈ authors := h _ List.mem_cons_self
    have hstep : ∀ i ∈ authors, ((own ((j, a) :: log) i).flatMap f).countP p =
        (if i = j then (f a).countP p else 0) + ((own log i).flatMap f).countP p := by
      intro i _
      rw [own_cons]
      by_cases hi : j = i
      · rw [if_pos hi, if_pos hi.symm, List.flatMap_cons, List.countP_append]
      · rw [if_neg hi, if_neg fun hi' => hi hi'.symm, Nat.zero_add]
    rw [List.flatMap_cons, List.countP_append, ih fun e he => h e (List.mem_cons_of_mem _ he),
      Finset.sum_congr rfl hstep, Finset.sum_add_distrib, Finset.sum_ite_eq', if_pos hj]

/-- **What is at most as frequent for every author** is at most as frequent in the whole log. -/
theorem countP_le_of_own {f g : α → List β} {p : β → Bool} {log : List (Nat × α)}
    (h : ∀ i, ((own log i).flatMap f).countP p ≤ ((own log i).flatMap g).countP p) :
    (log.flatMap fun e => f e.2).countP p ≤ (log.flatMap fun e => g e.2).countP p := by
  have hmem : ∀ e ∈ log, e.1 ∈ (log.map Prod.fst).toFinset :=
    fun e he => List.mem_toFinset.2 (List.mem_map.2 ⟨e, he, rfl⟩)
  rw [countP_eq_sum f p hmem, countP_eq_sum g p hmem]
  exact Finset.sum_le_sum fun i _ => h i

theorem own_filter (log : List (Nat × α)) (authors : Nat → Bool) (i : Nat) :
    own (log.filter fun e => authors e.1) i = if authors i then own log i else [] := by
  induction log with
  | nil => cases authors i <;> rfl
  | cons e log ih =>
    obtain ⟨j, a⟩ := e
    rw [own_cons]
    by_cases hj : j = i
    · subst hj
      cases h : authors j
      · rw [List.filter_cons_of_neg (by simp [h]), ih, h]
        rfl
      · rw [List.filter_cons_of_pos (by simpa using h), own_cons, ih, h]
        simp
    · cases h : authors j
      · rw [List.filter_cons_of_neg (by simp [h]), ih, if_neg hj]
      · rw [List.filter_cons_of_pos (by simpa using h), own_cons, ih, if_neg hj, if_neg hj]

/-- **What some authors write** is at most as frequent as another thing, if it is for each of them. -/
theorem countP_authors_le {c : α → Bool} {g : α → List β} {p : β → Bool} {authors : Nat → Bool}
    {log : List (Nat × α)}
    (h : ∀ i, authors i = true → (own log i).countP c ≤ ((own log i).flatMap g).countP p) :
    log.countP (fun e => authors e.1 && c e.2) ≤ (log.flatMap fun e => g e.2).countP p := by
  have hcount : ∀ xs : List α, (xs.flatMap fun x => [c x]).countP id = xs.countP c := by
    intro xs
    induction xs with
    | nil => rfl
    | cons x xs ih => rw [List.flatMap_cons, List.countP_append, ih]; simp [List.countP_cons, Nat.add_comm]
  have hmap : ∀ xs : List α, (xs.flatMap fun x => (g x).map p).countP id = (xs.flatMap g).countP p := by
    intro xs
    induction xs with
    | nil => rfl
    | cons x xs ih =>
      rw [List.flatMap_cons, List.countP_append, ih, List.flatMap_cons, List.countP_append, List.countP_map]
      rfl
  have hpairs : ∀ (f : α → List Bool) (xs : List (Nat × α)),
      xs.flatMap (fun e => f e.2) = (xs.map Prod.snd).flatMap f := by
    intro f xs
    rw [List.flatMap_map]
  have hle : ((log.filter fun e => authors e.1).flatMap fun e => [c e.2]).countP id ≤
      ((log.filter fun e => authors e.1).flatMap fun e => (g e.2).map p).countP id :=
    countP_le_of_own (f := fun x => [c x]) (g := fun x => (g x).map p) fun i => by
      rw [own_filter]
      cases hi : authors i with
      | false => exact Nat.le_refl 0
      | true =>
        rw [if_pos rfl, hcount, hmap]
        exact h i hi
  rw [hpairs fun x => [c x], hcount, hpairs fun x => (g x).map p, hmap] at hle
  have hleft : log.countP (fun e => authors e.1 && c e.2) =
      ((log.filter fun e => authors e.1).map Prod.snd).countP c := by
    rw [List.countP_map, List.countP_filter]
    exact List.countP_congr fun e _ => by simp [and_comm]
  have hright : List.Sublist (((log.filter fun e => authors e.1).map Prod.snd).flatMap g)
      (log.flatMap fun e => g e.2) := by
    rw [List.flatMap_map]
    exact List.Sublist.flatMap List.filter_sublist _
  rw [hleft]
  exact hle.trans hright.countP_le

end Traces
