import StrixPEP.Evidence.LayerB

/-!
# The PP18 verifier (`pep/verify_pp18.py`)

* `verify` — the result of the row;
* `verify_proven` — when its status is `PROVEN`;
* `Correlated` — the records of the row belong to one test.

Principal result: `auditor_strict_iff`, where the auditor finds PP18 evidence the verifier proves the row,
exactly for the logs whose terminated PP18 connections are correlated.
-/

namespace StrixPEP

namespace Evidence

namespace Pp18

open LayerB (kills killedBy)

/-- The dict that `verify` returns, less its `row`. -/
structure Result where
  status : String
  detail : String
  deriving DecidableEq, Repr

/-- `ROW`. -/
def row : String := "PP18"

/-- `owners`. -/
def owners (es : List Record) : List Record := es.filter fun e => labelled e [row] && connected e

/-- `nonces`. -/
def nonces (es : List Record) : List String := ((owners es).map fun e => textOf e "test_nonce").dedup

/-- `sorted(set)`, as it is shown. -/
def showSorted (texts : List String) : String := Json.reprTexts (texts.insertionSort (· ≤ ·))

/-- `verify` from the records of the run on. -/
def result (es : List Record) (runId : String) : Except PyError Result :=
  if owners es = [] then .ok ⟨"NO_MATCHING_CONNECTION", s!"no record with row_id={row} in run {runId}"⟩
  else if "" ∈ nonces es ∨ nonces es = [] then
    .ok ⟨"NO_TEST_CORRELATION", s!"row_id={row} record carries no test_nonce"⟩
  else if 1 < (nonces es).length then
    .ok ⟨"NO_TEST_CORRELATION", s!"conflicting nonces for {row}: {showSorted (nonces es)}"⟩
  else if kills es = [] then .ok ⟨"NO_KILL_RECORD", "no KILL_SWITCH in this run"⟩
  else
    match killedBy (kills es) with
    | .error x => .error x
    | .ok killed =>
      if killed = [] then .ok ⟨"KILL_RECORD_LISTS_NO_CONNECTIONS", s!"kill_records={(kills es).length}"⟩
      else
        let conns := ((owners es).map connOf).dedup
        let hit := conns.filter (· ∈ killed)
        match hit.insertionSort (· ≤ ·) with
        | [] =>
          let some4 := Json.reprTexts ((killed.dedup.insertionSort (· ≤ ·)).take 4)
          .ok ⟨"TERMINATED_A_DIFFERENT_CONNECTION", s!"pp18_conns={showSorted conns} killed={some4}"⟩
        | conn :: _ =>
          let killedSet := killed.dedup.length
          let nonce := match (owners es).getLast? with
            | none => ""
            | some e => (got e "test_nonce").display
          .ok ⟨"PROVEN", s!"run_id={runId} conn_id={conn} killed_set={killedSet} nonce={nonce}"⟩

/-- `verify`, on the content of the audit log. -/
def verify (R : Json.Reader) (log : List UInt8) (runId : String) : Except PyError Result :=
  match loadStrict R log with
  | .error x => .error x
  | .ok (recs, bad) =>
    if bad ≠ 0 then .ok ⟨"AUDIT_UNREADABLE_OR_TRUNCATED", s!"malformed_lines={bad}"⟩
    else if runId = "" then .ok ⟨"NO_RUN_ID", "control plane issued no run_id"⟩
    else
      match scopedRecs recs runId with
      | .error x => .error x
      | .ok es =>
        if es = [] then .ok ⟨"NO_RECORDS_FOR_RUN", s!"run_id={runId} absent from audit"⟩
        else result es runId

/-- The verifier proves the row. -/
def Proves (R : Json.Reader) (log : List UInt8) (runId : String) : Prop :=
  ∃ r, verify R log runId = .ok r ∧ r.status = "PROVEN"

/-- The records of the row carry one nonce, the same in all. -/
def OneNonce (es : List Record) : Prop := ∃ n, n ≠ "" ∧ ∀ e ∈ owners es, textOf e "test_nonce" = n

/-! ## When the row is proven -/

theorem oneNonce_iff {es : List Record} (h : owners es ≠ []) :
    OneNonce es ↔ ¬ ("" ∈ nonces es ∨ nonces es = []) ∧ ¬ 1 < (nonces es).length := by
  have hmem : ∀ n, n ∈ nonces es ↔ ∃ e ∈ owners es, textOf e "test_nonce" = n := by
    intro n
    unfold nonces
    rw [List.mem_dedup, List.mem_map]
  obtain ⟨e, he⟩ := List.exists_mem_of_ne_nil _ h
  have hfirst : textOf e "test_nonce" ∈ nonces es := (hmem _).2 ⟨e, he, rfl⟩
  constructor
  · rintro ⟨n, hn, hall⟩
    have hsame : ∀ m ∈ nonces es, m = n := by
      intro m hm
      obtain ⟨e', he', rfl⟩ := (hmem m).1 hm
      exact hall e' he'
    refine ⟨?_, ?_⟩
    · rintro (hempty | hnil)
      · exact hn (hsame "" hempty).symm
      · rw [hnil] at hfirst
        cases hfirst
    · intro hlen
      have hnodup : (nonces es).Nodup := List.nodup_dedup _
      match hx : nonces es with
      | [] => rw [hx] at hlen; simp at hlen
      | [_] => rw [hx] at hlen; simp at hlen
      | a :: b :: rest =>
        rw [hx] at hnodup hsame
        have ha := hsame a (by simp)
        have hb := hsame b (by simp)
        rw [ha, hb] at hnodup
        simp at hnodup
  · rintro ⟨hempty, hlen⟩
    rw [not_or] at hempty
    match hx : nonces es with
    | [] => exact absurd hx hempty.2
    | [n] =>
      refine ⟨n, ?_, fun e' he' => ?_⟩
      · rintro rfl
        exact hempty.1 (by rw [hx]; simp)
      · have := (hmem _).2 ⟨e', he', rfl⟩
        rw [hx] at this
        exact List.mem_singleton.1 this
    | a :: b :: rest => rw [hx] at hlen; simp at hlen

theorem result_proven {es : List Record} {runId : String} :
    (∃ r, result es runId = .ok r ∧ r.status = "PROVEN") ↔
      OneNonce es ∧ ∃ killed, AuditGate.killed es = .ok killed ∧ ∃ e ∈ owners es, connOf e ∈ killed := by
  have hrefused : ∀ {status detail : String} {Q : Prop}, status ≠ "PROVEN" → ¬ Q →
      ((∃ r, (Except.ok ⟨status, detail⟩ : Except PyError Result) = .ok r ∧ r.status = "PROVEN") ↔ Q) := by
    intro status detail Q hs hq
    refine iff_of_false ?_ hq
    rintro ⟨r, hr, h⟩
    cases hr
    exact hs h
  unfold result
  split
  · rename_i hnil
    refine hrefused (by decide) ?_
    rintro ⟨-, killed, -, e, he, -⟩
    rw [hnil] at he
    cases he
  rename_i howners
  split
  · rename_i h
    exact hrefused (by decide) fun hx => ((oneNonce_iff howners).1 hx.1).1 h
  rename_i h1
  split
  · rename_i h
    exact hrefused (by decide) fun hx => ((oneNonce_iff howners).1 hx.1).2 h
  rename_i h2
  have hone := (oneNonce_iff howners).2 ⟨h1, h2⟩
  rw [LayerB.killedBy_kills]
  split
  · rename_i hkills
    refine hrefused (by decide) ?_
    rintro ⟨-, killed, hk, e, -, hmem⟩
    exact LayerB.kills_ne_nil hk (List.ne_nil_of_mem hmem) hkills
  rename_i hkills
  cases hk : AuditGate.killed es with
  | error x => simp
  | ok killed =>
    simp only
    split
    · rename_i hnil
      refine hrefused (by decide) ?_
      rintro ⟨-, killed', hk', e, -, hmem⟩
      cases hk'
      rw [hnil] at hmem
      cases hmem
    · have hhit : ∀ c, c ∈ ((((owners es).map connOf).dedup.filter (· ∈ killed)).insertionSort (· ≤ ·)) ↔
          (∃ e ∈ owners es, connOf e = c) ∧ c ∈ killed := by
        intro c
        rw [List.mem_insertionSort, List.mem_filter, List.mem_dedup, List.mem_map, decide_eq_true_eq]
      split
      · rename_i hnil
        refine hrefused (by decide) ?_
        rintro ⟨-, killed', hk', e, he, hmem⟩
        cases hk'
        have := (hhit (connOf e)).2 ⟨⟨e, he, rfl⟩, hmem⟩
        rw [hnil] at this
        cases this
      · rename_i conn rest hsome
        refine iff_of_true ⟨_, rfl, rfl⟩ ⟨hone, killed, rfl, ?_⟩
        have hconn : conn ∈ (((owners es).map connOf).dedup.filter (· ∈ killed)).insertionSort (· ≤ ·) := by
          rw [hsome]
          exact List.mem_cons_self
        obtain ⟨⟨e, he, rfl⟩, hmem⟩ := (hhit conn).1 hconn
        exact ⟨e, he, hmem⟩

/-- **When the verifier proves the row.** -/
theorem verify_proven {R : Json.Reader} {log : List UInt8} {recs : List Json} {runId : String}
    (hload : loadStrict R log = .ok (recs, 0)) :
    Proves R log runId ↔ runId ≠ "" ∧ ∃ es killed, scopedRecs recs runId = .ok es ∧
      AuditGate.killed es = .ok killed ∧ OneNonce es ∧ ∃ e ∈ owners es, connOf e ∈ killed := by
  unfold Proves verify
  rw [hload]
  simp only [ne_eq, not_true, if_false]
  split
  · rename_i h
    refine iff_of_false ?_ fun hx => hx.1 h
    rintro ⟨r, hr, hs⟩
    cases hr
    exact absurd hs (by decide)
  rename_i hrun
  cases hscoped : scopedRecs recs runId with
  | error x => simp
  | ok es =>
    simp only
    split
    · rename_i hnil
      refine iff_of_false ?_ ?_
      · rintro ⟨r, hr, hs⟩
        cases hr
        exact absurd hs (by simp)
      · rintro ⟨-, es', killed, h, -, -, e, he, -⟩
        cases h
        rw [hnil] at he
        cases he
    · rw [result_proven]
      constructor
      · rintro ⟨hone, killed, hk, he⟩
        exact ⟨hrun, es, killed, rfl, hk, hone, he⟩
      · rintro ⟨-, es', killed, h, hk, hone, he⟩
        cases h
        exact ⟨hone, killed, hk, he⟩

/-! ## The auditor -/

/-- If a PP18 connection of the run is terminated, then the run has an id, and the records of the row
carry one nonce. -/
def Correlated (recs : List Json) (runId : String) : Prop :=
  ∀ es killed, scopedRecs recs runId = .ok es → AuditGate.killed es = .ok killed →
    (∃ e ∈ owners es, connOf e ∈ killed) → runId ≠ "" ∧ OneNonce es

/-- When the auditor finds PP18 evidence. -/
theorem pp18Hit_iff {recs : List Json} {runId : String} :
    (∃ c, AuditGate.checks recs runId = .ok c ∧ c.pp18Hit ≠ []) ↔
      ∃ es killed, scopedRecs recs runId = .ok es ∧ AuditGate.killed es = .ok killed ∧
        ∃ e ∈ owners es, connOf e ∈ killed := by
  unfold AuditGate.checks
  cases scopedRecs recs runId with
  | error x => simp
  | ok es =>
    simp only
    cases hk : AuditGate.killed es with
    | error x =>
      refine iff_of_false ?_ ?_
      · rintro ⟨c, hc, -⟩
        cases hc
      · rintro ⟨es', killed, hes, hk', -⟩
        cases hes
        rw [hk] at hk'
        cases hk'
    | ok killed =>
      constructor
      · rintro ⟨c, hc, hne⟩
        cases hc
        obtain ⟨conn, hconn⟩ := List.exists_mem_of_ne_nil _ hne
        rw [List.mem_filter, decide_eq_true_eq, List.mem_map] at hconn
        obtain ⟨⟨e, he, rfl⟩, hmem⟩ := hconn
        exact ⟨es, killed, rfl, hk, e, he, hmem⟩
      · rintro ⟨es', killed', hes, hk', e, he, hmem⟩
        cases hes
        rw [hk] at hk'
        cases hk'
        refine ⟨_, rfl, List.ne_nil_of_mem (a := connOf e) ?_⟩
        rw [List.mem_filter, decide_eq_true_eq, List.mem_map]
        exact ⟨⟨e, he, rfl⟩, hmem⟩

/-- **When the auditor is at least as strict as the verifier**: on a log without malformed lines, exactly if
the terminated PP18 connections are correlated. -/
theorem auditor_strict_iff {R : Json.Reader} {log : List UInt8} {records : List (Json × List UInt8)}
    {records' : List Json} (h : WellFormed R log records records') (runId : String) :
    ((∃ c, AuditGate.checks (records.map Prod.fst) runId = .ok c ∧ c.pp18Hit ≠ []) → Proves R log runId) ↔
      Correlated (records.map Prod.fst) runId := by
  have hscoped : scopedRecs records' runId = scopedRecs (records.map Prod.fst) runId := by
    unfold scopedRecs
    rw [readers_agree h]
  rw [verify_proven h.text, hscoped, pp18Hit_iff]
  constructor
  · intro himp es killed hes hk he
    obtain ⟨hrun, es', killed', hes', -, hone, -⟩ := himp ⟨es, killed, hes, hk, he⟩
    rw [hes] at hes'
    cases hes'
    exact ⟨hrun, hone⟩
  · rintro hcor ⟨es, killed, hes, hk, he⟩
    obtain ⟨hrun, hone⟩ := hcor es killed hes hk he
    exact ⟨hrun, es, killed, hes, hk, hone, he⟩

/-- A log with a terminated PP18 connection; `nonce` is the text of a further field. -/
def sampleLog (nonce : String) : List UInt8 :=
  ("\x7b\"run_id\": \"r\", \"row_id\": \"PP18\", \"conn_id\": \"c\"" ++ nonce ++ "\x7d\n" ++
    "\x7b\"run_id\": \"r\", \"decision\": \"KILL_SWITCH\", \"terminated_conn_ids\": [\"c\"]\x7d\n").toUTF8.toList

def sampleRecords (nonce : Record) : List Record :=
  [[("run_id", .str "r"), ("row_id", .str "PP18"), ("conn_id", .str "c")] ++ nonce,
    [("run_id", .str "r"), ("decision", .str "KILL_SWITCH"), ("terminated_conn_ids", .arr [.str "c"])]]

/-- `auditor_strict_iff` at the log with a nonce. -/
theorem auditor_strict_iff_nonce :
    Correlated ((sampleRecords [("test_nonce", .str "n")]).map Json.obj) "r" := by
  have h : WellFormed LayerB.sampleReader (sampleLog ", \"test_nonce\": \"n\"")
      (((sampleRecords [("test_nonce", .str "n")]).map Json.obj).zip
        (Lines.records (Lines.fileLines (sampleLog ", \"test_nonce\": \"n\""))))
      ((sampleRecords [("test_nonce", .str "n")]).map Json.obj) := ⟨by decide +kernel, by decide +kernel⟩
  have hproven : verify LayerB.sampleReader (sampleLog ", \"test_nonce\": \"n\"") "r" =
      .ok ⟨"PROVEN", "run_id=r conn_id=c killed_set=1 nonce=n"⟩ := by decide +kernel
  have hrecords : (((sampleRecords [("test_nonce", .str "n")]).map Json.obj).zip
      (Lines.records (Lines.fileLines (sampleLog ", \"test_nonce\": \"n\"")))).map Prod.fst =
      (sampleRecords [("test_nonce", .str "n")]).map Json.obj := by decide +kernel
  have hcor := (auditor_strict_iff h "r").1 fun _ => ⟨_, hproven, rfl⟩
  rwa [hrecords] at hcor

/-- Without a nonce the auditor finds the evidence, and the verifier refuses it. -/
theorem auditor_not_strict :
    AuditGate.checks ((sampleRecords []).map Json.obj) "r" = .ok ⟨false, [], false, false, ["c"]⟩ ∧
      loadAudit LayerB.sampleReader (sampleLog "") = .ok (((sampleRecords []).map Json.obj).zip
        (Lines.records (Lines.fileLines (sampleLog ""))), 0) ∧
      verify LayerB.sampleReader (sampleLog "") "r" =
        .ok ⟨"NO_TEST_CORRELATION", "row_id=PP18 record carries no test_nonce"⟩ := by
  decide +kernel

end Pp18

end Evidence

end StrixPEP
