import Mathlib.Data.List.Nodup
import StrixPEP.Lib.Bounded

/-!
# Insertion-ordered dictionaries

A dictionary is an association list read with `List.lookup`.  `set d k v` assigns to `k` in
place if the key is present and appends it otherwise, so iteration follows insertion order.
-/

namespace Dict

variable {κ α : Type} [DecidableEq κ]

/-- `d[k] = v`. -/
def set : List (κ × α) → κ → α → List (κ × α)
  | [], k, v => [(k, v)]
  | (k', v') :: d, k, v => if k' = k then (k, v) :: d else (k', v') :: set d k v

theorem lookup_set_self (d : List (κ × α)) (k : κ) (v : α) : (set d k v).lookup k = some v := by
  induction d with
  | nil => simp [set]
  | cons e d ih =>
    obtain ⟨k', v'⟩ := e
    unfold set
    split
    · simp
    · rename_i h
      have hb : (k == k') = false := by simpa using fun e : k = k' => h e.symm
      simp [List.lookup_cons, hb, ih]

theorem lookup_set_ne (d : List (κ × α)) {k j : κ} (v : α) (hne : j ≠ k) :
    (set d k v).lookup j = d.lookup j := by
  induction d with
  | nil =>
    have hb : (j == k) = false := by simpa using hne
    simp [set, List.lookup_cons, hb]
  | cons e d ih =>
    obtain ⟨k', v'⟩ := e
    unfold set
    split
    · rename_i h
      have hb : (j == k) = false := by simpa using hne
      subst h
      simp [List.lookup_cons, hb]
    · simp only [List.lookup_cons, ih]

theorem lookup_map {β : Type} (f : α → β) (d : List (κ × α)) (k : κ) :
    (d.map fun e => (e.1, f e.2)).lookup k = (d.lookup k).map f := by
  induction d with
  | nil => rfl
  | cons e d ih =>
    rw [List.map_cons, List.lookup_cons, List.lookup_cons, ih]
    split <;> rfl

theorem lookup_eq_none_iff {d : List (κ × α)} {k : κ} : d.lookup k = none ↔ k ∉ d.map Prod.fst := by
  induction d with
  | nil => simp
  | cons e d ih =>
    obtain ⟨k', v'⟩ := e
    by_cases h : k = k'
    · subst h; simp
    · have hb : (k == k') = false := by simpa using h
      simp [List.lookup_cons, hb, ih, h]

theorem mem_of_lookup {d : List (κ × α)} {k : κ} {v : α} (h : d.lookup k = some v) :
    (k, v) ∈ d := by
  induction d with
  | nil => simp at h
  | cons e d ih =>
    obtain ⟨k', v'⟩ := e
    by_cases hk : k = k'
    · subst hk
      simp only [List.lookup_cons, beq_self_eq_true, Option.some.injEq] at h
      subst h
      exact List.mem_cons_self
    · have hb : (k == k') = false := by simpa using hk
      simp only [List.lookup_cons, hb] at h
      exact List.mem_cons_of_mem _ (ih h)

theorem lookup_of_mem {d : List (κ × α)} {k : κ} {v : α} (hd : (d.map Prod.fst).Nodup)
    (h : (k, v) ∈ d) : d.lookup k = some v := by
  induction d with
  | nil => cases h
  | cons e d ih =>
    obtain ⟨k', v'⟩ := e
    simp only [List.map_cons, List.nodup_cons] at hd
    rcases List.mem_cons.1 h with he | ht
    · cases he; simp
    · have hk : k ≠ k' := by
        intro e
        subst e
        exact hd.1 (List.mem_map.2 ⟨(k, v), ht, rfl⟩)
      have hb : (k == k') = false := by simpa using hk
      simp only [List.lookup_cons, hb]
      exact ih hd.2 ht

theorem set_of_notMem {d : List (κ × α)} {k : κ} (v : α) (h : k ∉ d.map Prod.fst) :
    set d k v = d ++ [(k, v)] := by
  induction d with
  | nil => rfl
  | cons e d ih =>
    obtain ⟨k', v'⟩ := e
    rw [List.map_cons, List.mem_cons, not_or] at h
    rw [set, if_neg (fun he => h.1 he.symm), ih h.2, List.cons_append]

theorem map_fst_set_of_mem {d : List (κ × α)} {k : κ} (v : α) (h : k ∈ d.map Prod.fst) :
    (set d k v).map Prod.fst = d.map Prod.fst := by
  induction d with
  | nil => cases h
  | cons e d ih =>
    obtain ⟨k', v'⟩ := e
    unfold set
    split
    · rename_i hk; simp [hk]
    · rename_i hk
      simp only [List.map_cons, List.mem_cons] at h
      rcases h with h | h
      · exact absurd h.symm hk
      · simp [ih h]

theorem map_fst_set_of_notMem {d : List (κ × α)} {k : κ} (v : α) (h : k ∉ d.map Prod.fst) :
    (set d k v).map Prod.fst = d.map Prod.fst ++ [k] := by
  induction d with
  | nil => simp [set]
  | cons e d ih =>
    obtain ⟨k', v'⟩ := e
    simp only [List.map_cons, List.mem_cons, not_or] at h
    unfold set
    rw [if_neg fun e => h.1 e.symm]
    simp [ih h.2]

theorem map_fst_set_of_lookup {d : List (κ × α)} {k : κ} {w : α} (v : α)
    (h : d.lookup k = some w) : (set d k v).map Prod.fst = d.map Prod.fst :=
  map_fst_set_of_mem v (List.mem_map.2 ⟨(k, w), mem_of_lookup h, rfl⟩)

/-- A filter on the keys keeps the values of the keys that it keeps. -/
theorem lookup_filter {d : List (κ × α)} {p : κ → Bool} {k : κ} (hk : p k = true) :
    (d.filter fun e => p e.1).lookup k = d.lookup k := by
  induction d with
  | nil => rfl
  | cons e d ih =>
    obtain ⟨j, w⟩ := e
    rw [List.filter_cons]
    by_cases hj : j = k
    · subst hj
      rw [if_pos hk, List.lookup_cons, List.lookup_cons, beq_self_eq_true]
    · have hne : (k == j) = false := beq_false_of_ne (Ne.symm hj)
      split
      · rw [List.lookup_cons, List.lookup_cons, hne, ih]
      · rw [List.lookup_cons, hne, ih]

theorem nodup_set {d : List (κ × α)} (h : (d.map Prod.fst).Nodup) (k : κ) (v : α) :
    ((set d k v).map Prod.fst).Nodup := by
  by_cases hk : k ∈ d.map Prod.fst
  · rw [map_fst_set_of_mem v hk]
    exact h
  · rw [map_fst_set_of_notMem v hk]
    exact List.nodup_append.2 ⟨h, List.nodup_singleton k, by
      intro a ha b hb
      rw [List.mem_singleton.1 hb]
      rintro rfl
      exact hk ha⟩

/-- An assignment adds at most one entry. -/
theorem mem_of_mem_set {d : List (κ × α)} {k : κ} {v : α} {e : κ × α} (h : e ∈ set d k v) :
    e = (k, v) ∨ e ∈ d := by
  induction d with
  | nil => exact Or.inl (List.mem_singleton.1 h)
  | cons x d ih =>
    obtain ⟨k', v'⟩ := x
    unfold set at h
    split at h
    · exact (List.mem_cons.1 h).imp_right (List.mem_cons_of_mem _)
    · rcases List.mem_cons.1 h with rfl | h
      · exact Or.inr List.mem_cons_self
      · exact (ih h).imp_right (List.mem_cons_of_mem _)

/-- The entries after an assignment: the new one, and those of the other keys. -/
theorem mem_set {d : List (κ × α)} (h : (d.map Prod.fst).Nodup) {k : κ} {v : α} {e : κ × α} :
    e ∈ set d k v ↔ e = (k, v) ∨ e ∈ d ∧ e.1 ≠ k := by
  induction d with
  | nil => simp [set]
  | cons x d ih =>
    obtain ⟨k', v'⟩ := x
    rw [List.map_cons, List.nodup_cons] at h
    unfold set
    split
    · rename_i hk
      subst hk
      have hrest : ∀ e ∈ d, e.1 ≠ k' := fun e he hx => h.1 (List.mem_map.2 ⟨e, he, hx⟩)
      rw [List.mem_cons, List.mem_cons]
      constructor
      · rintro (rfl | he)
        · exact Or.inl rfl
        · exact Or.inr ⟨Or.inr he, hrest e he⟩
      · rintro (rfl | ⟨rfl | he, hne⟩)
        · exact Or.inl rfl
        · exact absurd rfl hne
        · exact Or.inr he
    · rename_i hk
      rw [List.mem_cons, List.mem_cons, ih h.2]
      constructor
      · rintro (rfl | rfl | ⟨he, hne⟩)
        · exact Or.inr ⟨Or.inl rfl, hk⟩
        · exact Or.inl rfl
        · exact Or.inr ⟨Or.inr he, hne⟩
      · rintro (rfl | ⟨rfl | he, hne⟩)
        · exact Or.inr (Or.inl rfl)
        · exact Or.inl rfl
        · exact Or.inr (Or.inr ⟨he, hne⟩)

end Dict
