import StrixPEP.Verifier.Quiet
import StrixPEP.Verifier.RoundTrip

/-!
# When the verifier returns

`verify` reads bytes that anybody may have written.  Most of its accesses are guarded by an earlier
check; the others are the conditions of `OrderlyInputs`, in the order in which `verify` meets them.

* `quiet_schemaError`, `validateHistory_returns` — when `_schema_error` and `_validate_history` return;
* `loadLoop_returns` — when the log is read;
* `checkAnchor_returns` — when the checks of the anchor return.

Principal result: `verify_returns_iff`.
-/

namespace StrixPEP

namespace VerifyE10

open Except (Returns)

/-! ## The schema -/

/-- `decision in SCHEMAS` can be asked: the value is hashable. -/
def Hashable (v : Option Json) : Prop := ∀ x, v = some x → (orderClass x).isSome = true

/-- `math.isfinite(ts)` returns, where it is called. -/
def InRange (v : Option Json) : Prop :=
  ∀ n, v = some (.int n) → -floatOverflow < n ∧ n < floatOverflow

/-- The record has the fields of its decision, and no others. -/
def Complete (r : Record) : Prop :=
  ∃ k, r.kind? = some k ∧ (∀ f ∈ (schemas k).1, ∃ v, r.get? f = some v) ∧
    ∀ f v, r.get? f = some v → f ∈ common ∨ f ∈ (schemas k).2

section

variable {r : Record} {i : Nat}

theorem quiet_checkDecision : Stops Quiet (checkDecision r i) ↔ Hashable (r.get? "decision") := by
  unfold checkDecision Hashable
  cases hd : r.get? "decision" with
  | none => simp
  | some v =>
    cases v with
    | str t =>
      simp only [orderClass, Option.some.injEq, forall_eq', Option.isSome_some, iff_true]
      split <;> simp
    | arr xs => simp [orderClass, not_quiet_raised]
    | obj kvs => simp [orderClass, not_quiet_raised]
    | _ => simp [orderClass]

theorem quiet_finiteTs {v : Option Json} : Stops Quiet (finiteTs v) ↔ InRange v := by
  unfold finiteTs InRange
  split
  · rename_i n
    simp only [Option.some.injEq, Json.int.injEq, forall_eq']
    split
    · rename_i h
      simp only [quiet_error, not_quiet_raised, false_iff]
      omega
    · rename_i h
      simp only [quiet_ok, true_iff]
      omega
  · simp
  · rename_i hint _
    simp only [quiet_ok, true_iff]
    exact fun n hn => absurd hn (hint n)

theorem quiet_checkFields {ok : Json → Bool} {fields : List String} :
    Stops Quiet (checkFields r i ok fields) := by
  induction fields with
  | nil => exact quiet_ok
  | cons f fields ih => simp [checkFields, ih]

theorem quiet_onlyIf {cond : Bool} {check : Check Unit} (h : cond = true → Stops Quiet check) :
    Stops Quiet (onlyIf cond check) := stops_onlyIf h

/-- The checks of single decisions read fields that are there, with their types. -/
theorem quiet_ofKind {k : Kind} (hkeys : ∀ f ∈ (schemas k).1, ∃ v, r.get? f = some v)
    (hints : FieldsOk r validInt intFields) (hstrs : FieldsOk r Json.isStr stringFields) :
    Stops Quiet (do
      onlyIf (decide (k = .auth)) (checkIntent r i)
      onlyIf (decide (k ∈ sequenced)) (checkPositive "lifecycle_seq" r i)
      onlyIf (decide (k ∈ [Kind.attempted, .completed, .unknown])) (checkPositive "permit_seq" r i)
      onlyIf (decide (k ∈ [Kind.failed, .cancelled]) && r.has "permit_seq")
        (checkPositive "permit_seq" r i)
      onlyIf (decide (k = .completed)) (checkResponseHash r i)
      onlyIf (decide (k = .allow)) (checkAllowHashes r i)
      onlyIf (decide (k ∈ reasoned)) (checkReason r i)) := by
  have hint : ∀ {f}, f ∈ (schemas k).1 → f ∈ intFields → ∃ n, r.get? f = some (.int n) :=
    fun hr hi => int_of_checked hkeys hints hr hi
  have hpositive : ∀ {f}, f ∈ intFields → (∃ v, r.get? f = some v) →
      Stops Quiet (checkPositive f r i) := by
    rintro f hi ⟨v, hv⟩
    have hvalid := hints f hi v hv
    cases v with
    | int n => simp [checkPositive, hv]
    | _ => cases hvalid
  refine quiet_bind.2 ⟨quiet_onlyIf fun hk => ?_, fun _ _ => ?_⟩
  · rw [decide_eq_true_eq] at hk
    subst hk
    simp [checkIntent, hint (f := "pin_port") (by decide) (by decide)]
  refine quiet_bind.2 ⟨quiet_onlyIf fun hk => hpositive (by decide) (hkeys _ ?_), fun _ _ => ?_⟩
  · revert hk
    cases k <;> decide
  refine quiet_bind.2 ⟨quiet_onlyIf fun hk => hpositive (by decide) (hkeys _ ?_), fun _ _ => ?_⟩
  · revert hk
    cases k <;> decide
  refine quiet_bind.2 ⟨quiet_onlyIf fun hk => hpositive (by decide) ?_, fun _ _ => ?_⟩
  · rw [Bool.and_eq_true] at hk
    exact Record.has_iff.1 hk.2
  refine quiet_bind.2 ⟨quiet_onlyIf fun hk => ?_, fun _ _ => ?_⟩
  · rw [decide_eq_true_eq] at hk
    subst hk
    obtain ⟨v, hv⟩ := hkeys "response_hash" (by decide)
    obtain ⟨t, rfl⟩ := Json.isStr_iff.1 (hstrs _ (by decide) v hv)
    simp [checkResponseHash, hv]
  refine quiet_bind.2 ⟨quiet_onlyIf fun _ => quiet_rejectIf, fun _ _ => ?_⟩
  exact quiet_onlyIf fun _ => quiet_rejectIf

/-- **When `_schema_error` returns**, for a record with a run id. -/
theorem quiet_schemaError (hid : ∃ t, r.get? "run_id" = some (.str t) ∧ t ≠ "") :
    Stops Quiet (schemaError r i) ↔
      Hashable (r.get? "decision") ∧ (Complete r → InRange (r.get? "ts")) := by
  have hmeta : Stops Quiet (checkMetadata r i) ↔ InRange (r.get? "ts") := by
    obtain ⟨t, ht, hne⟩ := hid
    have hpass : rejectIf t.isEmpty .malformedRecordSchema s!"line {i} invalid chain metadata" =
        .ok () := by rw [rejectIf_ok]; simpa using hne
    simp only [checkMetadata, ht, hpass, quiet_bind, quiet_ok, quiet_rejectIf, quiet_finiteTs,
      true_and, implies_true, and_true, forall_const]
  unfold schemaError
  rw [quiet_bind, quiet_checkDecision]
  refine and_congr_right fun _ => ?_
  constructor
  · rintro h ⟨k, hk, hkeys⟩
    have hrest := (quiet_bind.1 (h k (checkDecision_ok.2 hk))).2 () (checkKeys_ok.2 hkeys)
    exact hmeta.1 (quiet_bind.1 hrest).1
  · intro hts k hk
    refine quiet_bind.2 ⟨by simp [checkKeys], fun _ hkeys => ?_⟩
    rw [checkKeys_ok] at hkeys
    refine quiet_bind.2 ⟨hmeta.2 (hts ⟨k, checkDecision_ok.1 hk, hkeys⟩), fun _ _ => ?_⟩
    refine quiet_bind.2 ⟨by simp [checkTypes, quiet_checkFields], fun _ htypes => ?_⟩
    obtain ⟨hstrs, -, hints, -, -, -⟩ := checkTypes_ok.1 htypes
    exact quiet_ofKind hkeys.1 hints hstrs

end

/-! ## The two loops -/

open Turns (Everywhere)

/-- The records that the first loop lets through. -/
def InRun (runId : String) (records : List Record) : Prop :=
  ∀ r ∈ records, r.get? "run_id" = some (.str runId) ∧ ∃ k, WellFormed k r

/-- What the first record that is not let through must not do. -/
def Tested (runId : String) (pre : List Record) (r : Record) : Prop :=
  InRun runId pre → r.get? "run_id" = some (.str runId) →
    Hashable (r.get? "decision") ∧ (Complete r → InRange (r.get? "ts"))

theorem inRun_cons {runId : String} {r : Record} {records : List Record} :
    InRun runId (r :: records) ↔
      (r.get? "run_id" = some (.str runId) ∧ ∃ k, WellFormed k r) ∧ InRun runId records := by
  simp only [InRun, List.mem_cons, forall_eq_or_imp]

theorem quiet_checkRecords {runId : String} (hne : runId ≠ "") {i : Nat} {records : List Record} :
    Stops Quiet (checkRecords runId i records) ↔ Everywhere (Tested runId) records := by
  induction records generalizing i with
  | nil => exact iff_of_true quiet_ok Turns.everywhere_nil
  | cons r records ih =>
    rw [Turns.everywhere_cons]
    have hfirst : Tested runId [] r ↔
        (r.get? "run_id" = some (.str runId) → Stops Quiet (schemaError r i)) := by
      unfold Tested
      constructor
      · exact fun h hid => (quiet_schemaError ⟨runId, hid, hne⟩).2 (h (by simp [InRun]) hid)
      · exact fun h _ hid => (quiet_schemaError ⟨runId, hid, hne⟩).1 (h hid)
    have hrest : (Everywhere fun pre x => Tested runId (r :: pre) x) records ↔
        (r.get? "run_id" = some (.str runId) → (∃ k, WellFormed k r) →
          Everywhere (Tested runId) records) := by
      constructor
      · exact fun h hid hw pre x post he hin =>
          h pre x post he (inRun_cons.2 ⟨⟨hid, hw⟩, hin⟩)
      · intro h pre x post he hin
        obtain ⟨⟨hid, hw⟩, hin⟩ := inRun_cons.1 hin
        exact h hid hw pre x post he hin
    rw [hfirst, hrest]
    unfold checkRecords
    simp only [quiet_bind, quiet_rejectIf, rejectIf_ok, decide_eq_false_iff_not, not_not, true_and,
      forall_const, ih]
    exact ⟨fun h => ⟨fun hid => (h hid).1, fun hid hw => (h hid).2 () (schemaError_ok.2 hw)⟩,
      fun h hid => ⟨h.1 hid, fun _ hw => h.2 hid (schemaError_ok.1 hw)⟩⟩

/-- A loop raises where one of its turns does. -/
theorem quiet_scan {s : Scan} {i : Nat} {records : List Record} :
    Stops Quiet (scan s i records) ↔
      Everywhere (fun pre r => ∀ t, scan s i pre = .ok t → Stops Quiet (step t (i + pre.length) r))
        records := by
  induction records generalizing s i with
  | nil => exact iff_of_true quiet_ok Turns.everywhere_nil
  | cons r records ih =>
    rw [Turns.everywhere_cons]
    have hindex : ∀ pre : List Record, i + (r :: pre).length = i + 1 + pre.length := by
      intro pre
      rw [List.length_cons]
      omega
    unfold scan
    rw [quiet_bind]
    refine and_congr (by simp) ?_
    constructor
    · intro h pre x post he t ht
      rw [bind_ok] at ht
      obtain ⟨s', hs', ht⟩ := ht
      rw [hindex]
      exact ih.1 (h s' hs') pre x post he t ht
    · intro h s' hs'
      refine ih.2 fun pre x post he t ht => ?_
      rw [← hindex]
      exact h pre x post he t (bind_ok.2 ⟨s', hs', ht⟩)

/-- The drain timeouts that the scan comes to have their blockers. -/
def Unblocked (pre : List Record) (r : Record) : Prop := ∀ s, scan .start 1 pre = .ok s → Blockers s r

theorem quiet_scan_start {records : List Record} (hw : ∀ r ∈ records, ∃ k, WellFormed k r) :
    Stops Quiet (scan .start 1 records) ↔ Everywhere Unblocked records := by
  rw [quiet_scan]
  refine Turns.everywhere_congr fun pre r post he => ?_
  subst he
  refine forall_congr' fun s => imp_congr_right fun hs => ?_
  refine quiet_step (scan_holds (fun x hx => hw x ?_) hs) (hw r ?_)
  · exact List.mem_append_left _ hx
  · exact List.mem_append_right _ List.mem_cons_self

theorem quiet_conclude {s : Scan} : Stops Quiet (conclude s) := by
  unfold conclude
  repeat' split
  all_goals simp

/-- What `_validate_history` needs of the records. -/
structure OrderlyHistory (records : List Record) (runId : String) : Prop where
  tested : runId ≠ "" → Everywhere (Tested runId) records
  unblocked : runId ≠ "" → InRun runId records → Everywhere Unblocked records

theorem checkRecords_iff {runId : String} {i : Nat} {records : List Record} {u : Unit} :
    checkRecords runId i records = .ok u ↔ InRun runId records :=
  ⟨fun h => checkRecords_ok h, fun h => checkRecords_of h i⟩

/-- **When `_validate_history` returns.** -/
theorem validateHistory_returns {records : List Record} {runId : String} :
    Returns (validateHistory records runId) ↔ OrderlyHistory records runId := by
  have hquiet : Returns (validateHistory records runId) ↔ Stops Quiet (historyCheck records runId) := by
    unfold validateHistory
    cases hc : historyCheck records runId with
    | ok res => simp
    | error e =>
      cases e with
      | returned res => simp
      | raised p => simp [not_quiet_raised]
  rw [hquiet]
  unfold historyCheck
  simp only [quiet_bind, quiet_rejectIf, rejectIf_ok, true_and, forall_const, checkRecords_iff,
    quiet_conclude, implies_true, and_true]
  constructor
  · intro h
    have hrun := fun (hne : runId ≠ "") (hrec : records ≠ []) =>
      h (by simpa using hne) (by simpa using hrec)
    refine ⟨fun hne => ?_, fun hne hin => ?_⟩
    · rcases eq_or_ne records [] with rfl | hrec
      · exact Turns.everywhere_nil
      · exact (quiet_checkRecords hne).1 (hrun hne hrec).1
    · rcases eq_or_ne records [] with rfl | hrec
      · exact Turns.everywhere_nil
      · exact (quiet_scan_start fun x hx => (hin x hx).2).1 ((hrun hne hrec).2 hin)
  · intro h hne _
    have hne' : runId ≠ "" := by simpa using hne
    exact ⟨(quiet_checkRecords hne').2 (h.tested hne'), fun hin =>
      (quiet_scan_start fun x hx => (hin x hx).2).2 (h.unblocked hne' hin)⟩

/-! ## The log -/

/-- The lines before the one at hand are the beginning of a log. -/
def LinkedThrough (R : Json.Reader) (prev : String) (pre : List (List UInt8)) : Prop :=
  (∀ l ∈ pre, Lines.strip l ≠ []) ∧ Linked R prev (pre.map Lines.strip)

/-- A line that a reader comes to is not nested too deeply. -/
def Shallow (R : Json.Reader) (prev : String) (pre : List (List UInt8)) (raw : List UInt8) : Prop :=
  LinkedThrough R prev pre → Json.loads R (Lines.strip raw) ≠ .error .recursionError

theorem linkedThrough_cons {R : Json.Reader} {prev : String} {raw : List UInt8} {pre : List (List UInt8)} :
    LinkedThrough R prev (raw :: pre) ↔ Lines.strip raw ≠ [] ∧ linkOf R (Lines.strip raw) = some prev ∧
      LinkedThrough R (Sha256.hexdigest (Lines.strip raw)) pre := by
  unfold LinkedThrough
  rw [List.forall_mem_cons]
  exact ⟨fun h => ⟨h.1.1, h.2.1, h.1.2, h.2.2⟩, fun h => ⟨⟨h.1, h.2.2.1⟩, h.2.1, h.2.2.2⟩⟩

/-- Behind a line that ends the chain nothing is asked. -/
theorem everywhere_shallow_of {R : Json.Reader} {prev : String} {raw : List UInt8}
    {lines : List (List UInt8)}
    (h : Lines.strip raw = [] ∨ linkOf R (Lines.strip raw) ≠ some prev) :
    Everywhere (fun pre x => Shallow R prev (raw :: pre) x) lines := by
  intro pre x post _ hlinked
  obtain ⟨hblank, hlink, -⟩ := linkedThrough_cons.1 hlinked
  rcases h with h | h
  · exact absurd h hblank
  · exact absurd hlink h

theorem loadLoop_returns {R : Json.Reader} {lineNo : Nat} {prev : String} {lines : List (List UInt8)} :
    Returns (loadLoop R lineNo prev lines) ↔ Everywhere (Shallow R prev) lines := by
  induction lines generalizing lineNo prev with
  | nil => exact iff_of_true Except.returns_ok Turns.everywhere_nil
  | cons raw lines ih =>
    rw [Turns.everywhere_cons]
    have hfirst : Shallow R prev [] raw ↔ Json.loads R (Lines.strip raw) ≠ .error .recursionError :=
      ⟨fun h => h ⟨fun _ hl => absurd hl List.not_mem_nil, trivial⟩, fun h _ => h⟩
    rw [hfirst]
    simp only [loadLoop]
    by_cases hblank : Lines.strip raw = []
    · rw [if_pos hblank, hblank, loads_nil]
      exact iff_of_true Except.returns_ok ⟨by simp, everywhere_shallow_of (Or.inl hblank)⟩
    rw [if_neg hblank]
    cases hload : Json.loads R (Lines.strip raw) with
    | error fault =>
      cases fault with
      | valueError =>
        refine iff_of_true Except.returns_ok ⟨by simp, everywhere_shallow_of (Or.inr ?_)⟩
        simp [linkOf, hload]
      | recursionError => simp
    | ok v =>
      have hout : linkOf R (Lines.strip raw) ≠ some prev →
          (Json.loads R (Lines.strip raw) ≠ .error .recursionError ∧
            Everywhere (fun pre x => Shallow R prev (raw :: pre) x) lines) := fun hlink =>
        ⟨by rw [hload]; simp, everywhere_shallow_of (Or.inr hlink)⟩
      rw [hload] at hout
      cases v with
      | obj record =>
        by_cases hprev : Record.get? record "prev" = some (.str prev)
        · have hlink : linkOf R (Lines.strip raw) = some prev := linkOf_eq_some.2 ⟨record, hload, hprev⟩
          have hrest : Everywhere (fun pre x => Shallow R prev (raw :: pre) x) lines ↔
              Everywhere (Shallow R (Sha256.hexdigest (Lines.strip raw))) lines := by
            refine Turns.everywhere_congr fun pre x post _ => ?_
            simp only [Shallow, linkedThrough_cons, hlink, true_and]
            exact ⟨fun h hc => h ⟨hblank, hc⟩, fun h hc => h hc.2⟩
          simp only
          rw [if_pos hprev, hrest, ← @ih (lineNo + 1)]
          simp only [ne_eq, reduceCtorEq, not_false_eq_true, true_and]
          cases loadLoop R (lineNo + 1) (Sha256.hexdigest (Lines.strip raw)) lines with
          | ok res => cases res <;> simp
          | error e => simp
        · simp only
          rw [if_neg hprev]
          refine iff_of_true Except.returns_ok (hout fun hlink => ?_)
          obtain ⟨record', hrec, hp⟩ := linkOf_eq_some.1 hlink
          rw [hload] at hrec
          cases hrec
          exact hprev hp
      | _ =>
        refine iff_of_true Except.returns_ok (hout fun hlink => ?_)
        obtain ⟨record', hrec, -⟩ := linkOf_eq_some.1 hlink
        rw [hload] at hrec
        cases hrec

/-- The log is read, and these are its records. -/
structure Loaded (R : Json.Reader) (b : List UInt8) (records : List Record) : Prop where
  chained : LinkedThrough R AuditLog.genesis (Lines.fileLines b)
  records : List.Forall₂ (IsRecord R) ((Lines.fileLines b).map Lines.strip) records

theorem loaded_iff {R : Json.Reader} {b : List UInt8} {records : List Record} :
    loadLoop R 1 AuditLog.genesis (Lines.fileLines b) = .ok (.ok records) ↔ Loaded R b records := by
  constructor
  · intro h
    obtain ⟨hblank, hlink, hrec⟩ := loadLoop_ok h
    exact ⟨⟨hblank, hlink⟩, hrec⟩
  · rintro ⟨⟨hblank, hlink⟩, hrec⟩
    have hlink' := hlink
    rw [← Lines.records_eq_map hblank] at hlink'
    obtain ⟨records', h⟩ := loadLoop_linked 1 hblank hlink'
    obtain ⟨-, -, hrec'⟩ := loadLoop_ok h
    have hunique : Relator.RightUnique (IsRecord R) := by
      intro l r r' hr hr'
      unfold IsRecord at hr hr'
      rw [hr] at hr'
      cases hr'
      rfl
    rw [h, hunique.forall₂ hrec' hrec]

/-! ## The anchor -/

/-- The fields of the anchor can be told from the mandatory ones, and those that are too many can be
sorted. -/
def Sortable (v : Json) : Prop :=
  ∃ fields, fieldSet v = .ok fields ∧
    comparable (fields.filter fun x => x ∉ mandatory.map Json.str) = true

/-- The fields of the anchor are the mandatory ones. -/
def ExactFields (v : Json) : Prop :=
  ∃ fields, fieldSet v = .ok fields ∧ (∀ f ∈ mandatory, Json.str f ∈ fields) ∧
    ∀ x ∈ fields, x ∈ mandatory.map Json.str

/-- The anchor has the schema, the role and the algorithm that `verify` knows. -/
structure Supported (anchor : Record) : Prop where
  schema : anchor.get? "schema" = some (.str E10Anchor.anchorSchema)
  role : anchor.get? "authority_role" = some (.str E10Anchor.authorityRole)
  algorithm : anchor.get? "mac_algorithm" = some (.str E10Anchor.macAlgorithm)

/-- The tag is the one that the key gives. -/
def Authentic (key : List UInt8) (anchor : Record) : Prop :=
  ∃ tag, anchor.get? "authentication_tag" = some tag ∧
    tag.toText = Sha256.hmacHexdigest key (E10Anchor.canonicalPayload anchor)

/-- What the anchor must be like, for a key that is long enough. -/
structure OrderlyAnchor (I : Interp) (args : Args) (audit key : List UInt8) (v : Json) : Prop where
  sortable : Sortable v
  /-- A list of all the mandatory names passes the comparison, but has no fields. -/
  dict : ExactFields v → ∃ anchor : Record, v = .obj anchor
  /-- `hmac.compare_digest` takes ASCII texts only. -/
  tag : ∀ anchor : Record, v = .obj anchor → ExactFields v → Supported anchor →
    ∀ tag, anchor.get? "authentication_tag" = some tag → strAscii I tag = true
  /-- A carriage return inside a line is a line break to `audit_facts` alone. -/
  lines : ∀ anchor : Record, v = .obj anchor → ExactFields v → Supported anchor → Authentic key anchor →
    anchor.get? "authority_key_id" = some (.str args.expectedAuthorityKeyId) →
    ∀ l ∈ audit.splitOn 10, (13 : UInt8) ∉ Lines.strip l

theorem checkAnchorFields_returns {I : Interp} {v : Json} :
    Returns (checkAnchorFields I v) ↔ Sortable v := by
  unfold checkAnchorFields Sortable
  cases hf : fieldSet v with
  | error e => simp
  | ok fields =>
    simp only [Except.ok.injEq, exists_eq_left']
    split
    · rename_i h
      rw [h.2]
      exact iff_of_true Except.returns_ok rfl
    · split
      · rename_i h
        exact iff_of_true Except.returns_ok h
      · rename_i h
        exact iff_of_false Except.not_returns_error h

theorem checkAnchorFields_none {I : Interp} {v : Json} :
    checkAnchorFields I v = .ok none ↔ ExactFields v := by
  unfold checkAnchorFields ExactFields
  cases hf : fieldSet v with
  | error e => simp
  | ok fields =>
    have hfields : (mandatory.filter (fun f => Json.str f ∉ fields) = [] ∧
        fields.filter (fun x => x ∉ mandatory.map Json.str) = []) ↔
        (∀ f ∈ mandatory, Json.str f ∈ fields) ∧ ∀ x ∈ fields, x ∈ mandatory.map Json.str := by
      simp only [List.filter_eq_nil_iff, decide_eq_true_eq, not_not]
    simp only [Except.ok.injEq, exists_eq_left', ← hfields]
    split
    · rename_i h
      exact iff_of_true rfl h
    · rename_i h
      refine iff_of_false (fun he => ?_) h
      split at he <;> cases he

/-- `audit_facts` on a log that `_load_and_verify` has read. -/
theorem auditFacts_returns {R : Json.Reader} {b : List UInt8} {records : List Record}
    (h : Loaded R b records) :
    Returns (E10Anchor.auditFacts R b) ↔ ∀ l ∈ b.splitOn 10, (13 : UInt8) ∉ Lines.strip l := by
  have hlink := h.chained.2
  have hrec := h.records
  rw [← Lines.records_eq_map h.chained.1] at hlink hrec
  constructor
  · rintro ⟨facts, hfacts⟩
    exact no_return_inside hlink (E10Anchor.auditFacts_ok hfacts).1
  · intro h13
    rw [← Lines.records_splitLines h13] at hlink hrec
    unfold E10Anchor.auditFacts
    rw [E10Anchor.factsLoop_linked hlink hrec]
    exact Except.returns_ok

theorem compareFields_returns {I : Interp} {anchor : Record}
    {fields : List (String × Json × VerifyStatus)}
    (h : ∀ e ∈ fields, ∃ v, anchor.get? e.1 = some v) : Returns (compareFields I anchor fields) := by
  induction fields with
  | nil => exact Except.returns_ok
  | cons e fields ih =>
    obtain ⟨field, expected, status⟩ := e
    obtain ⟨v, hv⟩ := h _ List.mem_cons_self
    simp only [compareFields, Record.item_ok.2 hv]
    split
    · exact ih fun e he => h e (List.mem_cons_of_mem _ he)
    · exact Except.returns_ok

/-- An anchor with the mandatory fields has each of them. -/
theorem ExactFields.get? {anchor : Record} (h : ExactFields (.obj anchor)) {f : String}
    (hf : f ∈ mandatory) : ∃ v, anchor.get? f = some v := by
  obtain ⟨fields, hfields, hall, -⟩ := h
  cases hfields
  have hmem := hall f hf
  rw [List.mem_map] at hmem
  obtain ⟨e, he, hname⟩ := hmem
  rw [Json.str.injEq] at hname
  exact Record.mem_keys_iff.1 (List.mem_map.2 ⟨e, he, hname⟩)

/-- The closing record of a valid history, as `verify` uses it. -/
theorem bindFacts_returns {I : Interp} {args : Args} {audit : List UInt8} {records : List Record}
    {anchor close : Record} {counts : Counts} {seq : Int} (hload : Loaded I.toReader audit records)
    (hfields : ExactFields (.obj anchor)) (hclose : ClosedBy records args.runId close seq) :
    Returns (bindFacts I args audit anchor counts (some close)) ↔
      ∀ l ∈ audit.splitOn 10, (13 : UInt8) ∉ Lines.strip l := by
  rw [← auditFacts_returns hload]
  unfold bindFacts
  simp only [Except.returns_bind, presentClosure, Except.returns_ok, returns_item, hclose.sequence,
    hclose.state, Option.some.injEq, exists_eq', Except.ok.injEq, forall_eq', true_and, Record.item_ok]
  refine and_iff_left_of_imp fun _ facts _ => ⟨compareFields_returns ?_, fun res _ => ?_⟩
  · intro e he
    have hsub : ∀ f ∈ (comparisons args facts (.int seq) (.str "CLOSED")).map Prod.fst, f ∈ mandatory := by
      simp [comparisons, mandatory]
    exact hfields.get? (hsub _ (List.mem_map_of_mem he))
  · cases res with
    | some v => exact Except.returns_pure
    | none =>
      cases args.nonCertifyingFixture
      · exact Except.returns_pure
      · exact Except.returns_pure

theorem returns_supported {anchor : Record} (h : ExactFields (.obj anchor)) :
    ∃ b, anyOf [differFrom anchor "schema" (.str E10Anchor.anchorSchema),
      differFrom anchor "authority_role" (.str E10Anchor.authorityRole),
      differFrom anchor "mac_algorithm" (.str E10Anchor.macAlgorithm)] = .ok b := by
  refine returns_anyOf ?_
  simp only [List.mem_cons, List.not_mem_nil, or_false, forall_eq_or_imp, forall_eq, returns_differFrom]
  exact ⟨h.get? (by decide), h.get? (by decide), h.get? (by decide)⟩

theorem supported_iff {anchor : Record} :
    anyOf [differFrom anchor "schema" (.str E10Anchor.anchorSchema),
      differFrom anchor "authority_role" (.str E10Anchor.authorityRole),
      differFrom anchor "mac_algorithm" (.str E10Anchor.macAlgorithm)] = .ok false ↔
      Supported anchor := by
  rw [anyOf_false]
  simp only [List.mem_cons, List.not_mem_nil, or_false, forall_eq_or_imp, forall_eq, differFrom_false]
  exact ⟨fun h => ⟨h.1, h.2.1, h.2.2⟩, fun h => ⟨h.schema, h.role, h.algorithm⟩⟩

theorem compareDigest_returns {I : Interp} {tag : Json} {expected : String} :
    Returns (compareDigest I tag expected) ↔ strAscii I tag = true := by
  unfold compareDigest
  split
  · rename_i h
    exact iff_of_true Except.returns_ok h
  · rename_i h
    exact iff_of_false Except.not_returns_error h

section

variable {I : Interp} {args : Args} {audit key : List UInt8} {records : List Record} {close : Record}
  {counts : Counts} {seq : Int}

/-- The checks of an anchor that has its fields. -/
theorem checkAnchor_dict {anchor : Record} (hload : Loaded I.toReader audit records)
    (hclose : ClosedBy records args.runId close seq) (hlong : 32 ≤ key.length)
    (hfields : ExactFields (.obj anchor)) :
    Returns (checkAnchor I args audit (.obj anchor) key counts (some close)) ↔
      (Supported anchor →
        (∀ tag, anchor.get? "authentication_tag" = some tag → strAscii I tag = true) ∧
        (Authentic key anchor →
          anchor.get? "authority_key_id" = some (.str args.expectedAuthorityKeyId) →
          ∀ l ∈ audit.splitOn 10, (13 : UInt8) ∉ Lines.strip l)) := by
  obtain ⟨tag, htag⟩ := hfields.get? (f := "authentication_tag") (by decide)
  obtain ⟨keyId, hkeyId⟩ := hfields.get? (f := "authority_key_id") (by decide)
  obtain ⟨b, hb⟩ := returns_supported hfields
  unfold checkAnchor
  rw [if_neg (Nat.not_lt.2 hlong), checkAnchorFields_none.2 hfields]
  simp only [Except.returns_bind, Except.returns_ok, Except.ok.injEq, forall_eq', true_and, anchorRecord, hb]
  cases b with
  | true =>
    refine iff_of_true Except.returns_pure fun hs => ?_
    rw [supported_iff.2 hs] at hb
    cases hb
  | false =>
    rw [forall_prop_of_true (supported_iff.1 hb)]
    simp only [Bool.false_eq_true, if_false, Except.returns_bind, returns_item, Record.item_ok, htag,
      Option.some.injEq, exists_eq', forall_eq', true_and, compareDigest_returns]
    refine and_congr_right fun hascii => ?_
    have hauthentic : Authentic key anchor ↔
        tag.toText = Sha256.hmacHexdigest key (E10Anchor.canonicalPayload anchor) := by
      simp only [Authentic, htag, Option.some.injEq, exists_eq_left']
    have hselected : differFrom anchor "authority_key_id" (.str args.expectedAuthorityKeyId) =
        .ok (decide (keyId ≠ .str args.expectedAuthorityKeyId)) := by
      simp only [differFrom, Record.item_ok.2 hkeyId, bind, Except.bind, pure, Except.pure]
    have hbind : Returns (bindFacts I args audit anchor counts (some close)) ↔ _ :=
      bindFacts_returns hload hfields hclose
    rw [hauthentic, hkeyId, Option.some.injEq, ← hbind]
    simp only [compareDigest, hascii, if_true, Except.ok.injEq, forall_eq', hselected]
    by_cases htext : tag.toText = Sha256.hmacHexdigest key (E10Anchor.canonicalPayload anchor)
    · by_cases hid : keyId = .str args.expectedAuthorityKeyId
      · simp [htext, hid]
      · simp [htext, hid]
    · simp [htext]

/-- **When the checks of the anchor return**, behind a valid history. -/
theorem checkAnchor_returns {v : Json} (hload : Loaded I.toReader audit records)
    (hclose : ClosedBy records args.runId close seq) :
    Returns (checkAnchor I args audit v key counts (some close)) ↔
      (32 ≤ key.length → OrderlyAnchor I args audit key v) := by
  by_cases hlong : 32 ≤ key.length
  swap
  · refine iff_of_true ?_ fun h => absurd h hlong
    unfold checkAnchor
    rw [if_pos (Nat.lt_of_not_le hlong)]
    exact Except.returns_pure
  rw [forall_prop_of_true hlong]
  by_cases hfields : ExactFields v
  swap
  · -- only the comparison of the fields is made
    have hnone : checkAnchorFields I v ≠ .ok none := fun h => hfields (checkAnchorFields_none.1 h)
    have hother : OrderlyAnchor I args audit key v ↔ Sortable v :=
      ⟨fun h => h.sortable, fun h => ⟨h, fun he => absurd he hfields, fun _ _ he => absurd he hfields,
        fun _ _ he => absurd he hfields⟩⟩
    rw [hother, ← checkAnchorFields_returns (I := I)]
    unfold checkAnchor
    rw [if_neg (Nat.not_lt.2 hlong), Except.returns_bind]
    refine and_iff_left_of_imp fun _ a ha => ?_
    cases a with
    | none => exact absurd ha hnone
    | some verdict => exact Except.returns_pure
  have hsort : Sortable v := (checkAnchorFields_returns (I := I)).1 ⟨none, checkAnchorFields_none.2 hfields⟩
  by_cases hobj : ∃ anchor : Record, v = .obj anchor
  · obtain ⟨anchor, rfl⟩ := hobj
    rw [checkAnchor_dict hload hclose hlong hfields]
    constructor
    · intro h
      refine ⟨hsort, fun _ => ⟨anchor, rfl⟩, ?_, ?_⟩
      · rintro _ ⟨⟩ _ hs
        exact (h hs).1
      · rintro _ ⟨⟩ _ hs
        exact (h hs).2
    · exact fun h hs => ⟨h.tag anchor rfl hfields hs, h.lines anchor rfl hfields hs⟩
  · -- a list of the names has no values
    refine iff_of_false (fun h => ?_) fun h => hobj (h.dict hfields)
    unfold checkAnchor at h
    rw [if_neg (Nat.not_lt.2 hlong), checkAnchorFields_none.2 hfields] at h
    simp only [Except.returns_bind, Except.returns_ok, Except.ok.injEq, forall_eq', true_and] at h
    obtain ⟨⟨anchor, ha⟩, -⟩ := h
    cases v with
    | obj record => exact hobj ⟨record, rfl⟩
    | _ => cases ha

end

/-! ## The verifier -/

/-- Every argument that `verify` insists on is given. -/
structure Given (args : Args) : Prop where
  commit : E10Anchor.commit args.expectedSourceCommit = true
  keyId : args.expectedAuthorityKeyId ≠ ""
  anchorPath : args.anchorPath ≠ ""
  keyPath : args.trustedKeyPath ≠ ""

/-- What the anchor's and the key's files must be like. -/
structure OrderlyFiles (I : Interp) (args : Args) (files : Files) (audit : List UInt8) : Prop where
  nesting : ∀ b, files.anchor = .content b → Json.loads I.toReader b ≠ .error .recursionError
  keyPath : ∀ b v, files.anchor = .content b → Json.loads I.toReader b = .ok v →
    files.key ≠ .valueError
  anchor : ∀ b v key, files.anchor = .content b → Json.loads I.toReader b = .ok v →
    files.key = .content key → 32 ≤ key.length → OrderlyAnchor I args audit key v

theorem certify_returns {I : Interp} {args : Args} {files : Files} {audit : List UInt8}
    {records : List Record} {close : Record} {counts : Counts} {seq : Int}
    (hload : Loaded I.toReader audit records) (hclose : ClosedBy records args.runId close seq) :
    Returns (certify I args files audit counts (some close)) ↔
      (Given args → OrderlyFiles I args files audit) := by
  unfold certify
  split
  · rename_i h
    refine iff_of_true Except.returns_pure fun hg => ?_
    rw [commit_nonempty hg.commit, hg.commit] at h
    cases h
  rename_i hcommit
  split
  · rename_i h
    exact iff_of_true Except.returns_pure fun hg => absurd (by simpa using h) hg.keyId
  rename_i hkeyId
  split
  · rename_i h
    exact iff_of_true Except.returns_pure fun hg => absurd (by simpa using h) hg.anchorPath
  rename_i hanchorPath
  split
  · rename_i h
    exact iff_of_true Except.returns_pure fun hg => absurd (by simpa using h) hg.keyPath
  rename_i hkeyPath
  have hgiven : Given args := by
    simp only [Bool.or_eq_true, Bool.not_eq_true', not_or, Bool.not_eq_false] at hcommit
    exact ⟨hcommit.2, by simpa using hkeyId, by simpa using hanchorPath, by simpa using hkeyPath⟩
  rw [forall_prop_of_true hgiven, Except.returns_bind]
  cases hanchor : files.anchor with
  | osError name =>
    refine iff_of_true ⟨Except.returns_ok, fun a ha => ?_⟩ ⟨?_, ?_, ?_⟩
    · cases ha
      exact Except.returns_pure
    all_goals simp [hanchor]
  | valueError =>
    refine iff_of_true ⟨Except.returns_ok, fun a ha => ?_⟩ ⟨?_, ?_, ?_⟩
    · cases ha
      exact Except.returns_pure
    all_goals simp [hanchor]
  | content b =>
    cases hv : Json.loads I.toReader b with
    | error fault =>
      cases fault with
      | valueError =>
        refine iff_of_true ⟨by simp [loadAnchor, hv], fun a ha => ?_⟩ ⟨?_, ?_, ?_⟩
        · simp only [loadAnchor, hv, Except.ok.injEq] at ha
          subst ha
          exact Except.returns_pure
        · simp [hanchor, hv]
        · intro b' v' hb hv'
          cases hanchor.symm.trans hb
          cases hv.symm.trans hv'
        · intro b' v' key hb hv'
          cases hanchor.symm.trans hb
          cases hv.symm.trans hv'
      | recursionError =>
        exact iff_of_false (fun h => by simp [loadAnchor, hv] at h) fun h => h.nesting b hanchor hv
    | ok v =>
      have hloaded : loadAnchor I (.content b) = .ok (.ok v) := by simp [loadAnchor, hv]
      simp only [hloaded, Except.returns_ok, Except.ok.injEq, forall_eq', true_and, Except.returns_bind]
      cases hkey : files.key with
      | osError name =>
        refine iff_of_true ⟨Except.returns_ok, fun a ha => ?_⟩ ⟨?_, ?_, ?_⟩
        · cases ha
          exact Except.returns_pure
        all_goals simp [hanchor, hv, hkey]
      | valueError =>
        exact iff_of_false (fun h => absurd h.1 Except.not_returns_error) fun h =>
          h.keyPath b v hanchor hv hkey
      | content key =>
        simp only [loadKey, Except.returns_ok, Except.ok.injEq, forall_eq', true_and]
        rw [checkAnchor_returns hload hclose]
        constructor
        · intro h
          refine ⟨by simp [hanchor, hv], by simp [hkey], fun b' v' key' hb hv' hk => ?_⟩
          cases hanchor.symm.trans hb
          cases hv.symm.trans hv'
          cases hkey.symm.trans hk
          exact h
        · exact fun h => h.anchor b v key hanchor hv hkey

/-- **What `verify` needs of its inputs**, in the order in which it reads them. -/
structure OrderlyInputs (I : Interp) (args : Args) (files : Files) : Prop where
  /-- The audit path is a path. -/
  path : files.audit ≠ .valueError
  nesting : ∀ b, files.audit = .content b →
    Everywhere (Shallow I.toReader AuditLog.genesis) (Lines.fileLines b)
  history : ∀ b records, files.audit = .content b → Loaded I.toReader b records →
    OrderlyHistory records args.runId
  anchored : ∀ b records, files.audit = .content b → Loaded I.toReader b records →
    accepts records args.runId = true → Given args → OrderlyFiles I args files b

theorem accepts_valid {records : List Record} {runId : String} (h : accepts records runId = true) :
    ∃ counts closure disposition,
      validateHistory records runId = .ok (.localHistoryValid counts closure disposition) := by
  unfold accepts at h
  split at h
  · rename_i counts closure disposition hv
    exact ⟨counts, closure, disposition, hv⟩
  · cases h

/-- **`verify` returns exactly on orderly inputs**: of all its accesses, these are the unguarded ones. -/
theorem verify_returns_iff {I : Interp} {args : Args} {files : Files} :
    Returns (verify I args files) ↔ OrderlyInputs I args files := by
  unfold verify
  rw [Except.returns_bind]
  cases haudit : files.audit with
  | osError name =>
    refine iff_of_true ⟨Except.returns_ok, fun a ha => ?_⟩ ⟨?_, ?_, ?_, ?_⟩
    · cases ha
      exact Except.returns_pure
    all_goals simp [haudit]
  | valueError =>
    exact iff_of_false (fun h => absurd h.1 Except.not_returns_error) fun h => h.path haudit
  | content b =>
    have hreader : Returns (loadAndVerify I.toReader (.content b)) ↔
        Everywhere (Shallow I.toReader AuditLog.genesis) (Lines.fileLines b) := loadLoop_returns
    rw [hreader]
    constructor
    · rintro ⟨hnesting, hrest⟩
      refine ⟨by simp [haudit], ?_, ?_, ?_⟩
      · intro b' hb
        cases haudit.symm.trans hb
        exact hnesting
      · intro b' records hb hload
        cases haudit.symm.trans hb
        have hhistory := hrest _ (loaded_iff.2 hload)
        simp only [Except.returns_bind] at hhistory
        exact validateHistory_returns.1 hhistory.1
      · intro b' records hb hload hacc hgiven
        cases haudit.symm.trans hb
        have hhistory := hrest _ (loaded_iff.2 hload)
        simp only [Except.returns_bind] at hhistory
        obtain ⟨counts, closure, disposition, hvalid⟩ := accepts_valid hacc
        obtain ⟨-, close, seq, rfl, hclose⟩ := valid_closed hvalid
        exact (certify_returns hload hclose).1 (hhistory.2 _ hvalid) hgiven
    · intro h
      refine ⟨h.nesting b haudit, fun a ha => ?_⟩
      cases a with
      | error detail => exact Except.returns_pure
      | ok records =>
        have hload := loaded_iff.1 ha
        simp only [Except.returns_bind]
        refine ⟨validateHistory_returns.2 (h.history b records haudit hload), fun res hres => ?_⟩
        cases res with
        | rejected r => exact Except.returns_pure
        | localHistoryValid counts closure disposition =>
          obtain ⟨-, close, seq, rfl, hclose⟩ := valid_closed hres
          refine (certify_returns hload hclose).2 (h.anchored b records haudit hload ?_)
          unfold accepts
          rw [hres]

/-- A list as the decision of the only record: `decision not in SCHEMAS` raises. -/
example : validateHistory [[("run_id", .str "run-1"), ("decision", .arr [])]] "run-1" =
    .error .typeError := by decide

end VerifyE10

end StrixPEP
