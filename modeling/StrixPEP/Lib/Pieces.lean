import StrixPEP.Lib.Trim

/-!
# Pieces of a text

A text is split at its breaks, and the parts are trimmed; the parts that are not blank are its records.
`space` says what is trimmed and `brk` what ends a part.  Every break is white space.

Principal results: `pieces_trim` — the white space around a text does not matter; `pieces_of_break` — a
break inside a trimmed text makes more than one piece of it.
-/

namespace Pieces

variable {α : Type} {space brk : α → Bool}

open Trim (trim)

/-- The trimmed parts that are not blank. -/
def records (space : α → Bool) (lines : List (List α)) : List (List α) :=
  (lines.map (trim space)).filter fun l => !l.isEmpty

/-- The records between breaks. -/
def pieces (space brk : α → Bool) (b : List α) : List (List α) := records space (b.splitOnP brk)

/-! ## Records -/

theorem records_append (xs ys : List (List α)) :
    records space (xs ++ ys) = records space xs ++ records space ys := by
  simp [records]

theorem records_cons (l : List α) (ls : List (List α)) :
    records space (l :: ls) = records space [l] ++ records space ls := records_append [l] ls

theorem records_singleton (l : List α) :
    records space [l] = if trim space l = [] then [] else [trim space l] := by
  unfold records
  split
  · rename_i h
    simp [h]
  · rename_i h
    simp [h]

theorem mem_records {l : List α} {ls : List (List α)} :
    l ∈ records space ls ↔ l ≠ [] ∧ ∃ m ∈ ls, trim space m = l := by
  unfold records
  rw [List.mem_filter, List.mem_map]
  simp [and_comm]

/-! ## Pieces -/

theorem pieces_free {a : List α} (h : ∀ b ∈ a, brk b = false) : pieces space brk a = records space [a] := by
  rw [pieces, List.splitOnP_eq_singleton h]

theorem pieces_append (a c : List α) {b : α} (h : brk b = true) :
    pieces space brk (a ++ b :: c) = pieces space brk a ++ pieces space brk c := by
  rw [pieces, List.splitOnP_append_cons a c h, records_append]
  rfl

/-- A text has a first break, or none. -/
theorem break_cases (brk : α → Bool) (b : List α) :
    (∀ x ∈ b, brk x = false) ∨ ∃ a x c, b = a ++ x :: c ∧ brk x = true ∧ ∀ y ∈ a, brk y = false := by
  induction b with
  | nil => exact Or.inl nofun
  | cons y b ih =>
    cases hy : brk y with
    | true => exact Or.inr ⟨[], y, b, rfl, hy, nofun⟩
    | false =>
      rcases ih with h | ⟨a, x, c, rfl, hx, ha⟩
      · left
        intro x hx
        rcases List.mem_cons.1 hx with rfl | hx
        · exact hy
        · exact h x hx
      · refine Or.inr ⟨y :: a, x, c, rfl, hx, ?_⟩
        intro z hz
        rcases List.mem_cons.1 hz with rfl | hz
        · exact hy
        · exact ha z hz

/-- Induction over the parts of a text. -/
theorem break_induct (brk : α → Bool) {P : List α → Prop} (hfree : ∀ a, (∀ x ∈ a, brk x = false) → P a)
    (hbreak : ∀ a x c, brk x = true → (∀ y ∈ a, brk y = false) → P c → P (a ++ x :: c))
    (b : List α) : P b := by
  induction hn : b.length using Nat.strong_induction_on generalizing b with
  | _ n ih =>
    rcases break_cases brk b with h | ⟨a, x, c, rfl, hx, ha⟩
    · exact hfree b h
    · refine hbreak a x c hx ha (ih c.length ?_ c rfl)
      rw [← hn, List.length_append, List.length_cons]
      omega

theorem mem_of_mem_pieces {b p : List α} (h : p ∈ pieces space brk b) {c : α} (hc : c ∈ p) : c ∈ b := by
  induction b using break_induct brk with
  | hfree a ha =>
    rw [pieces_free ha, mem_records] at h
    obtain ⟨-, m, hm, rfl⟩ := h
    rw [← List.mem_singleton.1 hm]
    exact Trim.mem_of_mem_trim hc
  | hbreak a x rest hx ha ih =>
    rw [pieces_append _ _ hx, List.mem_append] at h
    rcases h with h | h
    · rw [pieces_free ha, mem_records] at h
      obtain ⟨-, m, hm, rfl⟩ := h
      rw [List.mem_singleton.1 hm] at hc
      exact List.mem_append_left _ (Trim.mem_of_mem_trim hc)
    · exact List.mem_append_right _ (List.mem_cons_of_mem _ (ih h))

theorem pieces_concat_space (b : List α) {c : α} (hc : space c = true) :
    pieces space brk (b ++ [c]) = pieces space brk b := by
  induction b using break_induct brk with
  | hfree a ha =>
    cases hb : brk c with
    | true =>
      rw [pieces_append a [] hb]
      simp [pieces, records, trim]
    | false =>
      have hfree : ∀ x ∈ a ++ [c], brk x = false := by
        intro x hx
        rcases List.mem_append.1 hx with hx | hx
        · exact ha x hx
        · rw [List.mem_singleton.1 hx]
          exact hb
      rw [pieces_free hfree, pieces_free ha, records_singleton, records_singleton,
        Trim.trim_append (by simpa using hc)]
  | hbreak a x rest hx ha ih =>
    rw [List.append_assoc, List.cons_append, pieces_append _ _ hx, pieces_append _ _ hx, ih]

theorem pieces_append_space (b : List α) {s : List α} (hs : ∀ c ∈ s, space c = true) :
    pieces space brk (b ++ s) = pieces space brk b := by
  induction s generalizing b with
  | nil => rw [List.append_nil]
  | cons c s ih =>
    rw [← List.singleton_append, ← List.append_assoc,
      ih (b ++ [c]) fun x hx => hs x (List.mem_cons_of_mem _ hx),
      pieces_concat_space b (hs c List.mem_cons_self)]

theorem pieces_cons_space (b : List α) {c : α} (hc : space c = true) :
    pieces space brk (c :: b) = pieces space brk b := by
  cases hb : brk c with
  | true =>
    rw [← List.nil_append (c :: b), pieces_append [] b hb]
    simp [pieces, records, trim]
  | false =>
    rcases break_cases brk b with h | ⟨a, x, rest, rfl, hx, ha⟩
    · have hfree : ∀ x ∈ c :: b, brk x = false := by
        intro x hx
        rcases List.mem_cons.1 hx with rfl | hx
        · exact hb
        · exact h x hx
      rw [pieces_free hfree, pieces_free h, records_singleton, records_singleton, Trim.trim_cons hc]
    · have hfree : ∀ y ∈ c :: a, brk y = false := by
        intro y hy
        rcases List.mem_cons.1 hy with rfl | hy
        · exact hb
        · exact ha y hy
      rw [← List.cons_append, pieces_append _ _ hx, pieces_append _ _ hx, pieces_free hfree,
        pieces_free ha, records_singleton, records_singleton, Trim.trim_cons hc]

theorem pieces_space_append (b : List α) {s : List α} (hs : ∀ c ∈ s, space c = true) :
    pieces space brk (s ++ b) = pieces space brk b := by
  induction s with
  | nil => rfl
  | cons c s ih =>
    rw [List.cons_append, pieces_cons_space _ (hs c List.mem_cons_self)]
    exact ih fun y hy => hs y (List.mem_cons_of_mem _ hy)

/-- **The white space around a text does not matter.** -/
theorem pieces_trim (b : List α) : pieces space brk (trim space b) = pieces space brk b := by
  obtain ⟨a, c, hb, ha, hc⟩ := Trim.trim_decompose (p := space) b
  conv_rhs => rw [hb, pieces_append_space _ hc, pieces_space_append _ ha]

section

variable (hspace : ∀ c, brk c = true → space c = true)

include hspace

/-- A text with something else than white space has a piece. -/
theorem pieces_ne_nil {b : List α} {c : α} (hc : c ∈ b) (hs : space c = false) : pieces space brk b ≠ [] := by
  induction b using break_induct brk with
  | hfree a ha =>
    rw [pieces_free ha, records_singleton, if_neg]
    · simp
    · rw [Trim.trim_eq_nil_iff]
      intro h
      rw [h c hc] at hs
      cases hs
  | hbreak a x rest hx ha ih =>
    rw [pieces_append _ _ hx]
    intro h
    obtain ⟨h1, h2⟩ := List.append_eq_nil_iff.1 h
    rcases List.mem_append.1 hc with hc | hc
    · rw [pieces_free ha, records_singleton] at h1
      split at h1
      · rename_i hnil
        rw [Trim.trim_eq_nil_iff.1 hnil c hc] at hs
        cases hs
      · cases h1
    · rcases List.mem_cons.1 hc with rfl | hc
      · -- a break is white space
        rw [hspace _ hx] at hs
        cases hs
      · exact ih hc h2

/-- **A break inside a trimmed text cuts it**: the first piece is the beginning of the text, and another
piece comes from the rest. -/
theorem pieces_of_break {l : List α} (h : ∃ c ∈ trim space l, brk c = true) :
    ∃ a t q, trim space l = a ++ t ∧ a ∈ pieces space brk l ∧ q ∈ pieces space brk l ∧ ∀ c ∈ q, c ∈ t := by
  obtain ⟨z, hz, hzb⟩ := h
  obtain ⟨x, b, y, hl, hb, hfree⟩ : ∃ x b y, trim space l = x ++ b :: y ∧ brk b = true ∧
      ∀ c ∈ x, brk c = false := by
    rcases break_cases brk (trim space l) with hnone | hsome
    · rw [hnone z hz] at hzb
      cases hzb
    · exact hsome
  have hpieces : pieces space brk l = records space [x] ++ pieces space brk y := by
    rw [← pieces_trim, hl, pieces_append x y hb, pieces_free hfree]
  -- the first element of the text is no white space, so it belongs to `x`
  obtain ⟨c, x', rfl⟩ : ∃ c x', x = c :: x' := by
    cases x with
    | nil =>
      have hhead := Trim.trim_head (p := space) (l := l) (c := b) (by rw [hl]; rfl)
      rw [hspace b hb] at hhead
      cases hhead
    | cons c x' => exact ⟨c, x', rfl⟩
  have hc : space c = false := Trim.trim_head (l := l) (by rw [hl]; rfl)
  have hne : trim space (c :: x') ≠ [] := by
    rw [Ne, Trim.trim_eq_nil_iff]
    intro hall
    rw [hall c List.mem_cons_self] at hc
    cases hc
  obtain ⟨e, he⟩ : ∃ e, c :: x' = trim space (c :: x') ++ e := by
    obtain ⟨a, e, hab, ha, -⟩ := Trim.trim_decompose (p := space) (c :: x')
    cases a with
    | nil => exact ⟨e, hab⟩
    | cons d a =>
      have hd : c = d := (List.cons.inj hab).1
      rw [hd, ha d List.mem_cons_self] at hc
      cases hc
  -- the last element of the text is no white space, so `y` has a piece
  obtain ⟨q, hq⟩ : ∃ q, q ∈ pieces space brk y := by
    have hlast : ∃ d, (b :: y).getLast? = some d := by
      rw [← Option.isSome_iff_exists]
      simp
    obtain ⟨d, hd⟩ := hlast
    have hd' : space d = false := by
      refine Trim.trim_last (l := l) ?_
      rw [hl, List.getLast?_append_of_ne_nil _ (List.cons_ne_nil _ _), hd]
    have hmem : d ∈ y := by
      rcases List.mem_cons.1 (List.mem_of_getLast? hd) with rfl | hm
      · rw [hspace d hb] at hd'
        cases hd'
      · exact hm
    exact List.exists_mem_of_ne_nil _ (pieces_ne_nil hspace hmem hd')
  refine ⟨trim space (c :: x'), e ++ b :: y, q, ?_, ?_, ?_, ?_⟩
  · rw [← List.append_assoc, ← he, hl]
  · rw [hpieces, records_singleton, if_neg hne]
    exact List.mem_append_left _ List.mem_cons_self
  · rw [hpieces]
    exact List.mem_append_right _ hq
  · intro d hd
    exact List.mem_append_right _ (List.mem_cons_of_mem _ (mem_of_mem_pieces hq hd))

end

end Pieces
