import StrixPEP.Evidence.Pp18

/-!
# The IPv4 regression (E6 of `pep/audit_gate_evidence.py`)

* `allProven`, `e6` — what E6 asks of the artifact that the sandbox wrote, and of the log;
* `Strict` — the shape that E1 and E2 ask of the other artifacts;
* `Refused`, `Consistent` — E6 refuses the artifact by itself; its rows and its counters agree.

Principal result: `e6_strict_iff`.
-/

namespace StrixPEP

namespace Evidence

namespace Regression

/-- What is read of numbers. -/
structure Comparisons where
  /-- `v == w`. -/
  equals : Json → Json → Bool
  /-- `x > 0`, of the `float` with the text. -/
  floatPositive : String → Bool

variable (C : Comparisons)

/-- `v > 0`. -/
def positive : Json → Except PyError Bool
  | .int n => .ok (decide (0 < n))
  | .bool b => .ok b
  | .float r _ => .ok (C.floatPositive r)
  | .null | .str _ | .arr _ | .obj _ => .error .typeError

/-- `all(r.get("pass") for r in rows)`. -/
def rowsPass : List Json → Except PyError Bool
  | [] => .ok true
  | r :: rows =>
    match r.get "pass" with
    | .error x => .error x
    | .ok p => if p.truthy then rowsPass rows else .ok false

/-- `v4_all_proven`, from the artifact. -/
def allProven (v4 : Record) : Except PyError Bool :=
  let rows := (got v4 "results").orElse (.arr [])
  if !C.equals (got v4 "passed") (got v4 "total") then .ok false
  else
    match positive C ((Record.get? v4 "total").getD (.int 0)) with
    | .error x => .error x
    | .ok false => .ok false
    | .ok true =>
      match rows.elements with
      | .error x => .error x
      | .ok rows => rowsPass rows

/-- `e6_ok`. -/
def e6 (v4 : Record) (pp18Hit : List String) : Except PyError Bool :=
  (allProven C v4).map fun proven => proven && !pp18Hit.isEmpty

/-- E6 passes, on the log. -/
def Passes (R : Json.Reader) (v4 : Record) (log : List UInt8) (runId : String) : Prop :=
  ∃ records bad c, loadAudit R log = .ok (records, bad) ∧
    AuditGate.checks (records.map Prod.fst) runId = .ok c ∧ e6 C v4 c.pp18Hit = .ok true

/-- A PP18 connection of the run is terminated. -/
def Evidenced (R : Json.Reader) (log : List UInt8) (runId : String) : Prop :=
  ∃ records bad es killed, loadAudit R log = .ok (records, bad) ∧
    scopedRecs (records.map Prod.fst) runId = .ok es ∧ AuditGate.killed es = .ok killed ∧
    ∃ e ∈ Pp18.owners es, connOf e ∈ killed

/-- The results are a list of `total` rows, `total` is positive, `passed` is `total`, and every row passed. -/
structure Strict (v4 : Record) : Prop where
  rows : ∃ rows, got v4 "results" = .arr rows ∧ C.equals (.int rows.length) (got v4 "total") = true ∧
    ∀ r ∈ rows, r.get "pass" = .ok (.bool true)
  positive : positive C (got v4 "total") = .ok true
  passed : C.equals (got v4 "passed") (got v4 "total") = true

/-- The rows that E6 goes through; `none` where they cannot be gone through. -/
def rowsOf (v4 : Record) : Option (List Json) := ((got v4 "results").orElse (.arr [])).elements.toOption

/-- What E6 itself refuses: other counters, no positive number of rows, or a row that did not pass. -/
def Refused (v4 : Record) : Prop :=
  C.equals (got v4 "passed") (got v4 "total") = false ∨ positive C (got v4 "total") ≠ .ok true ∨
    ∀ rows ∈ rowsOf v4, ∃ r ∈ rows, ∀ p, r.get "pass" = .ok p → p.truthy = false

/-- The results are a list as long as `total` says, and what stands for a pass is the boolean. -/
def Consistent (v4 : Record) : Prop :=
  ∃ rows, got v4 "results" = .arr rows ∧ C.equals (.int rows.length) (got v4 "total") = true ∧
    ∀ r ∈ rows, ∀ p, r.get "pass" = .ok p → p.truthy = true → p = .bool true

variable {C}

theorem rowsPass_iff {rows : List Json} : rowsPass rows = .ok true ↔
    ∀ r ∈ rows, ∃ p, r.get "pass" = .ok p ∧ p.truthy = true := by
  induction rows with
  | nil => simp [rowsPass]
  | cons r rows ih =>
    rw [List.forall_mem_cons, ← ih, rowsPass]
    cases hp : r.get "pass" with
    | error x => simp
    | ok p =>
      simp only [Except.ok.injEq, exists_eq_left']
      split
      · rename_i ht
        simp [ht]
      · rename_i ht
        simp [ht]

/-- A missing `total` is not positive. -/
theorem positive_total {v4 : Record} :
    positive C ((Record.get? v4 "total").getD (.int 0)) = .ok true ↔ positive C (got v4 "total") = .ok true := by
  unfold got
  cases Record.get? v4 "total" with
  | some v => exact Iff.rfl
  | none => simp [positive]

theorem allProven_iff {v4 : Record} : allProven C v4 = .ok true ↔
    C.equals (got v4 "passed") (got v4 "total") = true ∧ positive C (got v4 "total") = .ok true ∧
      ∃ rows ∈ rowsOf v4, ∀ r ∈ rows, ∃ p, r.get "pass" = .ok p ∧ p.truthy = true := by
  rw [← positive_total]
  unfold allProven rowsOf
  cases C.equals (got v4 "passed") (got v4 "total") with
  | false => simp
  | true =>
    simp only [Bool.not_true, Bool.false_eq_true, if_false, true_and]
    cases positive C ((Record.get? v4 "total").getD (.int 0)) with
    | error x => simp
    | ok b =>
      cases b with
      | false => simp
      | true =>
        simp only [true_and]
        cases ((got v4 "results").orElse (.arr [])).elements with
        | error x => simp [Except.toOption]
        | ok rows => simp [Except.toOption, rowsPass_iff]

/-- **When E6 takes the artifact**: exactly when it does not refuse it by itself. -/
theorem allProven_iff_not_refused {v4 : Record} : allProven C v4 = .ok true ↔ ¬ Refused C v4 := by
  rw [allProven_iff]
  unfold Refused
  rw [not_or, not_or, Bool.not_eq_false, not_not]
  refine and_congr_right fun _ => and_congr_right fun _ => ?_
  push Not
  constructor
  · rintro ⟨rows, hrows, hall⟩
    refine ⟨rows, hrows, fun r hr => ?_⟩
    obtain ⟨p, hp, ht⟩ := hall r hr
    exact ⟨p, hp, by simp [ht]⟩
  · rintro ⟨rows, hrows, hall⟩
    refine ⟨rows, hrows, fun r hr => ?_⟩
    obtain ⟨p, hp, ht⟩ := hall r hr
    exact ⟨p, hp, by simpa using ht⟩

/-- E6 passes for an artifact that it takes and a log with evidence. -/
theorem passes_iff {R : Json.Reader} {v4 : Record} {log : List UInt8} {runId : String} :
    Passes C R v4 log runId ↔ ¬ Refused C v4 ∧ Evidenced R log runId := by
  have he6 : ∀ hit, e6 C v4 hit = .ok true ↔ allProven C v4 = .ok true ∧ hit ≠ [] := by
    intro hit
    unfold e6
    cases allProven C v4 with
    | error x => simp [Except.map]
    | ok b => cases b <;> simp [Except.map]
  unfold Passes Evidenced
  rw [← allProven_iff_not_refused]
  constructor
  · rintro ⟨records, bad, c, hload, hc, hpass⟩
    obtain ⟨hproven, hhit⟩ := (he6 _).1 hpass
    obtain ⟨es, killed, hes, hk, he⟩ := Pp18.pp18Hit_iff.1 ⟨c, hc, hhit⟩
    exact ⟨hproven, records, bad, es, killed, hload, hes, hk, he⟩
  · rintro ⟨hproven, records, bad, es, killed, hload, hes, hk, he⟩
    obtain ⟨c, hc, hhit⟩ := Pp18.pp18Hit_iff.2 ⟨es, killed, hes, hk, he⟩
    exact ⟨records, bad, c, hload, hc, (he6 _).2 ⟨hproven, hhit⟩⟩

/-- An artifact that E6 takes has the strict shape exactly if its rows and its counters agree. -/
theorem strict_iff {v4 : Record} (h : ¬ Refused C v4) : Strict C v4 ↔ Consistent C v4 := by
  obtain ⟨hpassed, hpositive, rows, hrows, hall⟩ := allProven_iff.1 (allProven_iff_not_refused.2 h)
  constructor
  · rintro ⟨⟨rows', hresults, hlen, hpass⟩, -, -⟩
    refine ⟨rows', hresults, hlen, fun r hr p hp _ => ?_⟩
    rw [hpass r hr] at hp
    exact (Except.ok.inj hp).symm
  · rintro ⟨rows', hresults, hlen, hbool⟩
    have hsame : rows = rows' := by
      unfold rowsOf at hrows
      rw [hresults] at hrows
      have helements : (Json.orElse (.arr rows') (.arr [])).elements = .ok rows' := by
        unfold Json.orElse
        split
        · rfl
        · rename_i hempty
          simp only [Json.truthy, Bool.not_eq_true', Bool.not_eq_false, List.isEmpty_iff] at hempty
          rw [hempty]
          rfl
      rw [helements] at hrows
      exact (Option.some.inj hrows).symm
    subst hsame
    refine ⟨⟨rows, hresults, hlen, fun r hr => ?_⟩, hpositive, hpassed⟩
    obtain ⟨p, hp, ht⟩ := hall r hr
    rw [hp, hbool r hr p hp ht]

/-- **When E6 is not vacuous.**  E6 passes only for an artifact of the strict shape, exactly if the log has no
PP18 evidence, E6 refuses the artifact by itself, or the rows and the counters of the artifact agree. -/
theorem e6_strict_iff (C : Comparisons) (R : Json.Reader) (v4 : Record) (log : List UInt8) (runId : String) :
    (Passes C R v4 log runId → Strict C v4) ↔
      (¬ Evidenced R log runId ∨ Refused C v4 ∨ Consistent C v4) := by
  rw [passes_iff]
  constructor
  · intro h
    by_cases he : Evidenced R log runId
    · by_cases hr : Refused C v4
      · exact Or.inr (Or.inl hr)
      · exact Or.inr (Or.inr ((strict_iff hr).1 (h ⟨hr, he⟩)))
    · exact Or.inl he
  · rintro (h | h | h) ⟨hr, he⟩
    · exact absurd he h
    · exact absurd h hr
    · exact (strict_iff hr).2 h

/-- Equality of values without floats. -/
def plainComparisons : Comparisons := ⟨fun v w => decide (v = w), fun _ => false⟩

/-- An artifact that claims five rows and has none. -/
def emptyArtifact : Record := [("results", .arr []), ("passed", .int 5), ("total", .int 5)]

/-- E6 passes for an artifact without a single row. -/
theorem e6_vacuous :
    Passes plainComparisons LayerB.sampleReader emptyArtifact (Pp18.sampleLog ", \"test_nonce\": \"n\"") "r" ∧
      ¬ Strict plainComparisons emptyArtifact := by
  refine ⟨⟨((Pp18.sampleRecords [("test_nonce", .str "n")]).map Json.obj).zip
    (Lines.records (Lines.fileLines (Pp18.sampleLog ", \"test_nonce\": \"n\""))), 0,
    ⟨false, [], false, false, ["c"]⟩, ?_, ?_, by decide⟩, ?_⟩
  · decide +kernel
  · decide +kernel
  · rintro ⟨⟨rows, hresults, hlen, -⟩, -, -⟩
    cases hresults
    exact absurd hlen (by decide)

end Regression

end Evidence

end StrixPEP
