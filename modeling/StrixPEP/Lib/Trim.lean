import StrixPEP.Lib.Bounded
import Mathlib.Data.List.TakeWhile
import Mathlib.Data.List.DropRight

/-!
# Trimming

`trim p l` drops the elements with the property from both ends of the list, `List.rdropWhile p l`
from its end only.
-/

namespace Trim

variable {α : Type} {p : α → Bool}

def trim (p : α → Bool) (l : List α) : List α := ((l.dropWhile p).reverse.dropWhile p).reverse

theorem trim_decompose (l : List α) :
    ∃ a b, l = a ++ trim p l ++ b ∧ (∀ c ∈ a, p c = true) ∧ ∀ c ∈ b, p c = true := by
  refine ⟨l.takeWhile p, ((l.dropWhile p).reverse.takeWhile p).reverse, ?_, ?_, ?_⟩
  · unfold trim
    rw [List.append_assoc, ← List.reverse_append, List.takeWhile_append_dropWhile, List.reverse_reverse,
      List.takeWhile_append_dropWhile]
  · exact fun c hc => List.mem_takeWhile_imp hc
  · exact fun c hc => List.mem_takeWhile_imp (List.mem_reverse.1 hc)

theorem trim_eq_nil_iff {l : List α} : trim p l = [] ↔ ∀ c ∈ l, p c = true := by
  constructor
  · intro h
    obtain ⟨a, b, hl, ha, hb⟩ := trim_decompose (p := p) l
    rw [h, List.append_nil] at hl
    rw [hl]
    intro c hc
    exact (List.mem_append.1 hc).elim (ha c) (hb c)
  · intro h
    have hd : l.dropWhile p = [] := List.dropWhile_eq_nil_iff.2 h
    simp [trim, hd]

/-- A trimmed list begins and ends with an element without the property. -/
theorem trim_head {l : List α} {c : α} (h : (trim p l).head? = some c) : p c = false := by
  obtain ⟨d, hd⟩ : ∃ d, l.dropWhile p = trim p l ++ d := by
    refine ⟨((l.dropWhile p).reverse.takeWhile p).reverse, ?_⟩
    unfold trim
    rw [← List.reverse_append, List.takeWhile_append_dropWhile, List.reverse_reverse]
  have hh := List.head?_dropWhile_not p l
  rw [hd, List.head?_append, h] at hh
  simpa using hh

theorem trim_last {l : List α} {c : α} (h : (trim p l).getLast? = some c) : p c = false := by
  unfold trim at h
  rw [List.getLast?_reverse] at h
  have hh := List.head?_dropWhile_not p (l.dropWhile p).reverse
  rw [h] at hh
  simpa using hh

theorem trim_append {a b : List α} (h : ∀ c ∈ b, p c = true) : trim p (a ++ b) = trim p a := by
  unfold trim
  by_cases ha : ∀ c ∈ a, p c = true
  · have h1 : (a ++ b).dropWhile p = [] := by
      rw [List.dropWhile_eq_nil_iff]
      intro c hc
      exact (List.mem_append.1 hc).elim (ha c) (h c)
    have h2 : a.dropWhile p = [] := List.dropWhile_eq_nil_iff.2 ha
    rw [h1, h2]
  · have h1 : (a ++ b).dropWhile p = a.dropWhile p ++ b := by
      rw [List.dropWhile_append, if_neg]
      rw [List.isEmpty_iff, List.dropWhile_eq_nil_iff]
      exact ha
    rw [h1, List.reverse_append, List.dropWhile_append_of_pos]
    exact fun c hc => h c (List.mem_reverse.1 hc)

theorem trim_cons {c : α} {l : List α} (h : p c = true) : trim p (c :: l) = trim p l := by
  simp [trim, h]

/-- A list that begins and ends with elements without the property stays. -/
theorem trim_eq_self {l : List α} (hh : ∀ c, l.head? = some c → p c = false)
    (hl : ∀ c, l.getLast? = some c → p c = false) : trim p l = l := by
  have hlead : l.dropWhile p = l := by
    cases hs : l with
    | nil => rfl
    | cons c m =>
      have hc : p c = false := hh c (by rw [hs]; rfl)
      simp [hc]
  have htrail : l.reverse.dropWhile p = l.reverse := by
    cases hs : l.reverse with
    | nil => rfl
    | cons c m =>
      have hc : p c = false := by
        refine hl c ?_
        rw [← List.head?_reverse, hs]
        rfl
      simp [hc]
  rw [trim, hlead, htrail, List.reverse_reverse]

theorem trim_eq_self_iff {l : List α} : trim p l = l ↔
    (∀ c, l.head? = some c → p c = false) ∧ ∀ c, l.getLast? = some c → p c = false := by
  constructor
  · intro h
    rw [← h]
    exact ⟨fun _ => trim_head, fun _ => trim_last⟩
  · rintro ⟨hh, hl⟩
    exact trim_eq_self hh hl

theorem trim_idem (l : List α) : trim p (trim p l) = trim p l :=
  trim_eq_self (fun _ => trim_head) fun _ => trim_last

theorem mem_of_mem_trim {l : List α} {c : α} (h : c ∈ trim p l) : c ∈ l := by
  obtain ⟨a, b, hl, -, -⟩ := trim_decompose (p := p) l
  rw [hl]
  exact List.mem_append_left _ (List.mem_append_right _ h)

/-! ## The end only -/

theorem rdropWhile_last {l : List α} {c : α} (h : (l.rdropWhile p).getLast? = some c) : p c = false := by
  unfold List.rdropWhile at h
  rw [List.getLast?_reverse] at h
  have hh := List.head?_dropWhile_not p l.reverse
  rw [h] at hh
  simpa using hh

theorem rdropWhile_eq_self {l : List α} (h : ∀ c, l.getLast? = some c → p c = false) :
    l.rdropWhile p = l := by
  rw [List.rdropWhile_eq_self_iff]
  intro hne hp
  rw [h _ (List.getLast?_eq_some_getLast hne)] at hp
  cases hp

theorem rdropWhile_cons (c : α) (l : List α) : (c :: l).rdropWhile p =
    if l.rdropWhile p = [] then if p c = true then [] else [c] else c :: l.rdropWhile p := by
  unfold List.rdropWhile
  rw [List.reverse_cons, List.dropWhile_append]
  simp only [List.isEmpty_iff, List.reverse_eq_nil_iff]
  split
  · rw [List.dropWhile_cons]
    split <;> rfl
  · rw [List.reverse_append]
    rfl

theorem mem_of_mem_rdropWhile {l : List α} {c : α} (h : c ∈ l.rdropWhile p) : c ∈ l :=
  (List.rdropWhile_prefix p l).mem h

end Trim
