import StrixPEP.Lib.Pieces

/-!
# Lines of byte strings

* `Lines.fileLines` — the lines of a binary file: each ends with a line feed, the last one may not;
* `Lines.splitLines` — `bytes.splitlines()`: a line ends with a line feed, a carriage return or both;
* `Lines.strip` — `bytes.strip()`;
* `Lines.records` — the stripped lines that are not blank.

Principal result: `records_splitLines` — where no line of the file has a carriage return inside, both
ways to split give the same records.
-/

namespace Lines

/-- ASCII white space. -/
def isSpace (b : UInt8) : Bool := b = 32 || (9 ≤ b && b ≤ 13)

def strip (line : List UInt8) : List UInt8 :=
  ((line.dropWhile isSpace).reverse.dropWhile isSpace).reverse

/-- The lines of a file, without their line feeds. -/
def fileLines (b : List UInt8) : List (List UInt8) :=
  let parts := b.splitOn 10
  if parts.getLast? = some [] then parts.dropLast else parts

/-- A character that ends a line. -/
def isBreak (b : UInt8) : Bool := b = 10 || b = 13

/-- A carriage return and a line feed end one line. -/
def unify : List UInt8 → List UInt8
  | [] => []
  | 13 :: 10 :: rest => 10 :: unify rest
  | b :: rest => b :: unify rest

def splitLines (b : List UInt8) : List (List UInt8) :=
  let parts := (unify b).splitOnP isBreak
  if parts.getLast? = some [] then parts.dropLast else parts

/-- The stripped lines that are not blank. -/
def records (lines : List (List UInt8)) : List (List UInt8) :=
  (lines.map strip).filter fun l => !l.isEmpty

/-! ## Stripping -/

theorem isSpace_of_isBreak {c : UInt8} (h : isBreak c = true) : isSpace c = true := by
  unfold isBreak at h
  rw [Bool.or_eq_true, decide_eq_true_eq, decide_eq_true_eq] at h
  rcases h with rfl | rfl <;> decide

theorem strip_decompose (l : List UInt8) :
    ∃ a b, l = a ++ strip l ++ b ∧ (∀ c ∈ a, isSpace c = true) ∧ ∀ c ∈ b, isSpace c = true :=
  Trim.trim_decompose l

theorem strip_eq_nil_iff {l : List UInt8} : strip l = [] ↔ ∀ c ∈ l, isSpace c = true :=
  Trim.trim_eq_nil_iff

theorem strip_head {l : List UInt8} {c : UInt8} (h : (strip l).head? = some c) : isSpace c = false :=
  Trim.trim_head h

theorem strip_last {l : List UInt8} {c : UInt8} (h : (strip l).getLast? = some c) :
    isSpace c = false := Trim.trim_last h

theorem strip_cons_space {c : UInt8} {l : List UInt8} (h : isSpace c = true) :
    strip (c :: l) = strip l := Trim.trim_cons h

theorem strip_eq_self {l : List UInt8} (hh : ∀ c, l.head? = some c → isSpace c = false)
    (hl : ∀ c, l.getLast? = some c → isSpace c = false) : strip l = l := Trim.trim_eq_self hh hl

theorem strip_idem (l : List UInt8) : strip (strip l) = strip l := Trim.trim_idem l

theorem mem_of_mem_strip {l : List UInt8} {c : UInt8} (h : c ∈ strip l) : c ∈ l :=
  Trim.mem_of_mem_trim h

/-! ## Records -/

theorem records_append (xs ys : List (List UInt8)) : records (xs ++ ys) = records xs ++ records ys :=
  Pieces.records_append xs ys

theorem records_cons (l : List UInt8) (ls : List (List UInt8)) :
    records (l :: ls) = records [l] ++ records ls := records_append [l] ls

theorem records_singleton (l : List UInt8) :
    records [l] = if strip l = [] then [] else [strip l] := Pieces.records_singleton l

theorem mem_records {l : List UInt8} {ls : List (List UInt8)} :
    l ∈ records ls ↔ l ≠ [] ∧ ∃ m ∈ ls, strip m = l := Pieces.mem_records

theorem records_eq_map {ls : List (List UInt8)} (h : ∀ l ∈ ls, strip l ≠ []) :
    records ls = ls.map strip := by
  unfold records
  rw [List.filter_eq_self]
  intro l hl
  obtain ⟨m, hm, rfl⟩ := List.mem_map.1 hl
  simpa using h m hm

/-- A last blank line does not count. -/
theorem records_dropLast (parts : List (List UInt8)) :
    records (if parts.getLast? = some [] then parts.dropLast else parts) = records parts := by
  split
  · rename_i h
    obtain ⟨init, rfl⟩ := List.getLast?_eq_some_iff.1 h
    rw [List.dropLast_concat, records_append, records_singleton]
    simp [strip]
  · rfl

/-- The records between line breaks. -/
def pieces (b : List UInt8) : List (List UInt8) := records (b.splitOnP isBreak)

theorem pieces_free {a : List UInt8} (h : ∀ b ∈ a, isBreak b = false) : pieces a = records [a] :=
  Pieces.pieces_free h

theorem pieces_append (a c : List UInt8) {b : UInt8} (h : isBreak b = true) :
    pieces (a ++ b :: c) = pieces a ++ pieces c := Pieces.pieces_append a c h

/-- The white space around a text does not matter. -/
theorem pieces_strip (b : List UInt8) : pieces (strip b) = pieces b := Pieces.pieces_trim b

/-! ## Both ways to split -/

theorem splitOnP_unify (b : List UInt8) : ∃ h t t', (unify b).splitOnP isBreak = h :: t ∧
    b.splitOnP isBreak = h :: t' ∧ records t = records t' := by
  induction b using unify.induct with
  | case1 => exact ⟨[], [], [], rfl, rfl, rfl⟩
  | case2 rest ih =>
    obtain ⟨h, t, t', h1, h2, h3⟩ := ih
    refine ⟨[], h :: t, [] :: h :: t', ?_, ?_, ?_⟩
    · rw [unify, List.splitOnP_cons_eq_if_modifyHead, if_pos (by decide), h1]
    · rw [List.splitOnP_cons_eq_if_modifyHead, if_pos (by decide),
        List.splitOnP_cons_eq_if_modifyHead, if_pos (by decide), h2]
    · rw [records_cons h t, records_cons [] (h :: t'), records_cons h t', h3]
      simp [records_singleton, strip]
  | case3 x rest hne ih =>
    obtain ⟨h, t, t', h1, h2, h3⟩ := ih
    have hu : unify (x :: rest) = x :: unify rest := by
      rw [unify]
      exact hne
    rw [hu, List.splitOnP_cons_eq_if_modifyHead, List.splitOnP_cons_eq_if_modifyHead, h1, h2]
    split
    · exact ⟨[], h :: t, h :: t', rfl, rfl, by rw [records_cons h t, records_cons h t', h3]⟩
    · exact ⟨x :: h, t, t', rfl, rfl, h3⟩

theorem records_splitLines_eq (b : List UInt8) : records (splitLines b) = pieces b := by
  obtain ⟨h, t, t', h1, h2, h3⟩ := splitOnP_unify b
  unfold splitLines pieces
  rw [records_dropLast, h1, h2, records_cons h t, records_cons h t', h3]

theorem records_fileLines_eq (b : List UInt8) :
    records (fileLines b) = records (b.splitOn 10) := records_dropLast _

/-- Induction over the line feeds of a text. -/
theorem feed_induct {P : List UInt8 → Prop} (hlast : ∀ a, (10 : UInt8) ∉ a → P a)
    (hfeed : ∀ a c, (10 : UInt8) ∉ a → P c → P (a ++ 10 :: c)) (b : List UInt8) : P b := by
  induction hn : b.length using Nat.strong_induction_on generalizing b with
  | _ n ih =>
    by_cases hb : (10 : UInt8) ∈ b
    · obtain ⟨a, c, rfl, ha⟩ := List.eq_append_cons_of_mem hb
      refine hfeed a c ha (ih c.length ?_ c rfl)
      rw [← hn, List.length_append, List.length_cons]
      omega
    · exact hlast b hb

theorem notMem_of_mem_splitOn {b l : List UInt8} (h : l ∈ b.splitOn 10) : (10 : UInt8) ∉ l := by
  induction b using feed_induct with
  | hlast a ha =>
    rw [List.splitOn_eq_singleton ha] at h
    rwa [List.mem_singleton.1 h]
  | hfeed a c ha ih =>
    rw [List.splitOn_append_cons_self_of_not_mem ha] at h
    rcases List.mem_cons.1 h with rfl | h
    · exact ha
    · exact ih h

theorem mem_of_mem_splitOn {b l : List UInt8} {c : UInt8} (h : l ∈ b.splitOn 10) (hc : c ∈ l) :
    c ∈ b := by
  induction b using feed_induct with
  | hlast a ha =>
    rw [List.splitOn_eq_singleton ha] at h
    rwa [← List.mem_singleton.1 h]
  | hfeed a d ha ih =>
    rw [List.splitOn_append_cons_self_of_not_mem ha] at h
    rcases List.mem_cons.1 h with rfl | h
    · exact List.mem_append_left _ hc
    · exact List.mem_append_right _ (List.mem_cons_of_mem _ (ih h))

theorem length_fileLines_le (b : List UInt8) : (fileLines b).length ≤ b.length + 1 := by
  have hsplit : (b.splitOn 10).length ≤ b.length + 1 := by
    induction b using feed_induct with
    | hlast a ha =>
      rw [List.splitOn_eq_singleton ha, List.length_singleton]
      omega
    | hfeed a c ha ih =>
      rw [List.splitOn_append_cons_self_of_not_mem ha, List.length_cons, List.length_append,
        List.length_cons]
      omega
  unfold fileLines
  simp only
  split
  · rw [List.length_dropLast]
    omega
  · exact hsplit

/-- The pieces of a text are those of its lines. -/
theorem pieces_eq_flatMap (b : List UInt8) : pieces b = (b.splitOn 10).flatMap pieces := by
  induction b using feed_induct with
  | hlast a ha =>
    rw [List.splitOn_eq_singleton ha]
    simp
  | hfeed a c ha ih =>
    rw [pieces_append a c (by decide), List.splitOn_append_cons_self_of_not_mem ha,
      List.flatMap_cons, ← ih]

/-- A line without a carriage return inside is its only piece. -/
theorem pieces_line {l : List UInt8} (h10 : (10 : UInt8) ∉ l) (h13 : (13 : UInt8) ∉ strip l) :
    pieces l = records [l] := by
  have hfree : ∀ x ∈ strip l, isBreak x = false := by
    intro x hx
    unfold isBreak
    rw [Bool.or_eq_false_iff, decide_eq_false_iff_not, decide_eq_false_iff_not]
    refine ⟨?_, ?_⟩
    · rintro rfl
      exact h10 (mem_of_mem_strip hx)
    · rintro rfl
      exact h13 hx
  rw [← pieces_strip, pieces_free hfree, records_singleton, records_singleton, strip_idem]

/-- **Without carriage returns inside the lines, both ways to split give the same records.** -/
theorem records_splitLines {b : List UInt8} (h : ∀ l ∈ b.splitOn 10, (13 : UInt8) ∉ strip l) :
    records (splitLines b) = records (fileLines b) := by
  rw [records_splitLines_eq, records_fileLines_eq, pieces_eq_flatMap]
  have hall : ∀ l ∈ b.splitOn 10, pieces l = records [l] := by
    intro l hl
    exact pieces_line (notMem_of_mem_splitOn hl) (h l hl)
  generalize b.splitOn 10 = ls at hall
  induction ls with
  | nil => rfl
  | cons l ls ih =>
    rw [List.flatMap_cons, hall l List.mem_cons_self, records_cons l ls,
      ih fun m hm => hall m (List.mem_cons_of_mem _ hm)]

/-- A carriage return inside a line cuts it: the first piece is the line's beginning, and another
piece comes from the rest. -/
theorem pieces_of_return {l : List UInt8} (h13 : (13 : UInt8) ∈ strip l) :
    ∃ a t q, strip l = a ++ t ∧ a ∈ pieces l ∧ q ∈ pieces l ∧ ∀ c ∈ q, c ∈ t :=
  Pieces.pieces_of_break (fun _ => isSpace_of_isBreak) ⟨13, h13, rfl⟩

/-- A character before the text belongs to its first line. -/
theorem fileLines_cons {c : UInt8} {b l : List UInt8} {ls : List (List UInt8)} (hc : c ≠ 10)
    (h : fileLines b = l :: ls) : fileLines (c :: b) = (c :: l) :: ls := by
  unfold fileLines at h ⊢
  have hsplit : (c :: b).splitOn 10 = (b.splitOn 10).modifyHead (c :: ·) := by
    rw [List.splitOn, List.splitOnP_cons_eq_if_modifyHead, if_neg (by simpa using hc)]
    rfl
  rw [hsplit]
  simp only at h ⊢
  cases hp : b.splitOn 10 with
  | nil =>
    rw [hp] at h
    simp at h
  | cons p ps =>
    rw [hp] at h
    cases ps with
    | nil =>
      rw [List.modifyHead_cons]
      split at h
      · cases h
      · cases h
        rw [if_neg (by simp)]
    | cons q qs =>
      rw [List.getLast?_cons_cons] at h
      rw [List.modifyHead_cons, List.getLast?_cons_cons]
      split at h
      · rename_i hlast
        rw [List.dropLast_cons_cons, List.cons.injEq] at h
        rw [if_pos hlast, List.dropLast_cons_cons, h.1, h.2]
      · rename_i hlast
        rw [List.cons.injEq] at h
        rw [if_neg hlast, h.1, h.2]

end Lines
