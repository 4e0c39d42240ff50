import StrixPEP.Evidence.AuditGate
import StrixPEP.Pdp.OpenPolicy

/-!
# The Layer B verifier (`evaluate` of `pep/verify_layerb_audit.py`)

* `evaluate` — the results of the rows B8 and B9;
* `b8_proven`, `b9_proven` — when their status is `PROVEN`.

Principal result: `verifier_agrees`, the verifier proves both rows exactly where E3 passes, the kill
intersection of E4 is not empty and its `b8_valid` holds.
-/

namespace StrixPEP

namespace Evidence

namespace LayerB

/-- A result; what is missing in the dict reads as `None`. -/
structure RowResult where
  status : String
  detail : String
  connId : Json
  nonce : Json
  pinIp : Json
  deriving DecidableEq, Repr

/-- `{"status": status, "detail": detail}`. -/
def plain (status detail : String) : RowResult := ⟨status, detail, .null, .null, .null⟩

/-- `[f for f in REQUIRED_ALLOW_FIELDS if not rec.get(f)]`. -/
def missing (r : Record) : List String := requiredAllowFields.filter fun f => !(got r f).truthy

/-- The status of B8, of its last record. -/
def b8Status (r : Record) : String :=
  let family := got r "pin_family"
  let pin := got r "pin_ip"
  if family ≠ .str "ipv6" then s!"PIN_FAMILY_NOT_V6:{family.display}"
  else if missing r ≠ [] then "MISSING:" ++ ",".intercalate (missing r)
  else if !isV6 pin then s!"PIN_NOT_V6:{pin.display}"
  else if textOf r "test_nonce" = "" then "NO_TEST_CORRELATION"
  else "PROVEN"

/-- `allows`. -/
def allows (es : List Record) : List Record := es.filter fun e => decided e "ALLOW" && labelled e b8Rows

/-- `b8` and `b8_nonce`. -/
def b8 (es : List Record) (runId : String) : RowResult × Option String :=
  match (allows es).getLast? with
  | none => (plain "NO_MATCHING_RECORD" s!"no ALLOW with row_id in ('B3', 'B5') for run {runId}", none)
  | some r =>
    let row := (got r "row_id").display
    let conn := (got r "conn_id").display
    let pin := (got r "pin_ip").display
    let host := (got r "canonical_host").display
    let sni := (got r "sni").display
    (⟨b8Status r, s!"run_id={runId} row_id={row} conn_id={conn} pin={pin} host={host} sni={sni}",
      got r "conn_id", .str (textOf r "test_nonce"), got r "pin_ip"⟩, some (textOf r "test_nonce"))

/-- `owners`. -/
def owners (es : List Record) : List Record := es.filter fun e => labelled e [b9Row] && connected e

/-- `kills`. -/
def kills (es : List Record) : List Record := es.filter fun e => decided e "KILL_SWITCH"

/-- The loop that collects `killed`. -/
def killedBy : List Record → Except PyError (List String)
  | [] => .ok []
  | k :: ks => joined (terminated k) (killedBy ks)

/-- `partial is not None and partial <= 0`. -/
def noStream (floats : Floats) (partialBytes : Json) : Except PyError Bool :=
  match partialBytes with
  | .null => .ok false
  | .int n => .ok (decide (n ≤ 0))
  | .bool b => .ok (!b)
  | .float r _ => .ok (floats.atMost r 0)
  | .str _ | .arr _ | .obj _ => .error .typeError

/-- The last nonce of the owners. -/
def b9Nonce (es : List Record) : String :=
  match (owners es).getLast? with
  | none => ""
  | some e => textOf e "test_nonce"

/-- The status of B9, where there are owners and terminated connections. -/
def b9Status (floats : Floats) (nonce : String) (b8Nonce : Option String) (hit : List String)
    (partialBytes : Json) : Except PyError String :=
  if nonce = "" then .ok "NO_TEST_CORRELATION"
  else if hit = [] then .ok "TERMINATED_A_DIFFERENT_CONNECTION"
  else
    match b8Nonce with
    | some n =>
      if n ≠ nonce then .ok s!"NONCE_MISMATCH:{n}!={nonce}"
      else (noStream floats partialBytes).map fun dry => if dry then "NO_LIVE_STREAM_BEFORE_KILL" else "PROVEN"
    | none =>
      (noStream floats partialBytes).map fun dry => if dry then "NO_LIVE_STREAM_BEFORE_KILL" else "PROVEN"

/-- `b9`. -/
def b9 (floats : Floats) (es : List Record) (runId : String) (b8Nonce : Option String) (killed : List String)
    (partialBytes : Json) : Except PyError RowResult :=
  if owners es = [] then
    .ok (plain "NO_MATCHING_CONNECTION" s!"no record with row_id={b9Row} in run {runId}")
  else if kills es = [] then .ok (plain "NO_KILL_RECORD" "no KILL_SWITCH in this run")
  else if killed = [] then
    .ok (plain "KILL_RECORD_LISTS_NO_CONNECTIONS" s!"kill_records={(kills es).length}")
  else
    let hit := ((owners es).map connOf).filter (· ∈ killed)
    match b9Status floats (b9Nonce es) b8Nonce hit partialBytes with
    | .error x => .error x
    | .ok status =>
      let first : Json :=
        match hit.insertionSort (· ≤ ·) with
        | [] => .null
        | c :: _ => .str c
      let killedSet := killed.dedup.length
      let nonce := b9Nonce es
      .ok ⟨status, s!"run_id={runId} conn_id={first.display} killed_set={killedSet} nonce={nonce} client_partial_bytes={partialBytes.display}",
        first, .str nonce, .null⟩

/-- `evaluate` from the records of the run on. -/
def results (floats : Floats) (es : List Record) (runId : String) (clientInfo : Json) :
    Except PyError (RowResult × RowResult) :=
  match killedBy (kills es) with
  | .error x => .error x
  | .ok killed =>
    match clientInfo.get "partial_bytes" with
    | .error x => .error x
    | .ok partialBytes =>
      match b9 floats es runId (b8 es runId).2 killed partialBytes with
      | .error x => .error x
      | .ok row => .ok ((b8 es runId).1, row)

/-- `evaluate`, on the content of the audit log. -/
def evaluate (R : Json.Reader) (floats : Floats) (log : List UInt8) (runId : String) (clientInfo : Json) :
    Except PyError (RowResult × RowResult) :=
  match loadStrict R log with
  | .error x => .error x
  | .ok (recs, bad) =>
    if bad ≠ 0 then
      let err := plain "AUDIT_UNREADABLE_OR_TRUNCATED" s!"malformed_lines={bad}"
      .ok (err, err)
    else if runId = "" then
      let err := plain "NO_RUN_ID" "control plane issued no run_id"
      .ok (err, err)
    else
      match scopedRecs recs runId with
      | .error x => .error x
      | .ok es =>
        if es = [] then
          let err := plain "NO_RECORDS_FOR_RUN" s!"run_id={runId} absent"
          .ok (err, err)
        else
          results floats es runId clientInfo

/-! ## When a row is proven -/

theorem append_ne_proven {p : String} (h : ¬ p.toList <+: "PROVEN".toList) (t : String) : p ++ t ≠ "PROVEN" := by
  intro he
  refine h ⟨t.toList, ?_⟩
  rw [← String.toList_append, he]

theorem b8Status_proven {r : Record} : b8Status r = "PROVEN" ↔
    got r "pin_family" = .str "ipv6" ∧ missing r = [] ∧ isV6 (got r "pin_ip") = true ∧
      textOf r "test_nonce" ≠ "" := by
  unfold b8Status
  simp only
  split
  · rename_i h
    refine iff_of_false ?_ fun hx => h hx.1
    exact append_ne_proven (p := "PIN_FAMILY_NOT_V6:") (by decide) _
  rename_i h1
  rw [Decidable.not_not] at h1
  split
  · rename_i h
    exact iff_of_false (append_ne_proven (by decide) _) fun hx => h hx.2.1
  rename_i h2
  rw [Decidable.not_not] at h2
  split
  · rename_i h
    refine iff_of_false ?_ fun hx => ?_
    · exact append_ne_proven (p := "PIN_NOT_V6:") (by decide) _
    · rw [hx.2.2.1] at h
      cases h
  rename_i h3
  rw [Bool.not_eq_true, Bool.not_eq_false'] at h3
  split
  · rename_i h
    exact iff_of_false (by decide) fun hx => hx.2.2.2 h
  · rename_i h4
    exact iff_of_true rfl ⟨h1, h2, h3, h4⟩

theorem missing_eq_nil {r : Record} :
    missing r = [] ↔ (requiredAllowFields.all fun f => (got r f).truthy) = true := by
  unfold missing
  rw [List.filter_eq_nil_iff, List.all_eq_true]
  simp

/-- **The verifier proves B8 exactly for a valid record with a nonce.** -/
theorem b8_proven {es : List Record} {runId : String} : (b8 es runId).1.status = "PROVEN" ↔
    AuditGate.b8Valid es = true ∧ AuditGate.lastNonce (AuditGate.b8Recs es) ≠ "" := by
  unfold b8 AuditGate.b8Valid AuditGate.lastNonce
  change _ ↔ (match (allows es).getLast? with
    | none => false
    | some r => decide (got r "pin_family" = .str "ipv6") && isV6 (got r "pin_ip") &&
      requiredAllowFields.all fun f => (got r f).truthy) = true ∧
    (match (allows es).getLast? with
      | none => ""
      | some e => textOf e "test_nonce") ≠ ""
  cases (allows es).getLast? with
  | none => exact iff_of_false (by simp [plain]) (by simp)
  | some r =>
    simp only
    rw [b8Status_proven, missing_eq_nil, Bool.and_eq_true, Bool.and_eq_true, decide_eq_true_eq]
    constructor
    · rintro ⟨h1, h2, h3, h4⟩
      exact ⟨⟨⟨h1, h3⟩, h2⟩, h4⟩
    · rintro ⟨⟨⟨h1, h3⟩, h2⟩, h4⟩
      exact ⟨h1, h2, h3, h4⟩

theorem lastNonce_ne {recs : List Record} (h : AuditGate.lastNonce recs ≠ "") : recs ≠ [] := by
  rintro rfl
  exact h rfl

/-- The nonce of B8 is that of its last record. -/
theorem b8_nonce {es : List Record} {runId n : String} : n ∈ (b8 es runId).2 ↔
    AuditGate.b8Recs es ≠ [] ∧ n = AuditGate.lastNonce (AuditGate.b8Recs es) := by
  unfold b8 AuditGate.lastNonce
  change _ ↔ allows es ≠ [] ∧ n = (match (allows es).getLast? with
    | none => ""
    | some e => textOf e "test_nonce")
  cases hlast : (allows es).getLast? with
  | none =>
    rw [List.getLast?_eq_none_iff] at hlast
    exact iff_of_false nofun fun hx => hx.1 hlast
  | some r =>
    have hne : allows es ≠ [] := by
      rintro hnil
      rw [hnil] at hlast
      cases hlast
    simp [hne, eq_comm]

theorem b9Nonce_eq (es : List Record) : b9Nonce es = AuditGate.lastNonce (AuditGate.b9Recs es) := rfl

/-- Both collect the same terminated connections. -/
theorem killedBy_kills (es : List Record) : killedBy (kills es) = AuditGate.killed es := by
  induction es with
  | nil => rfl
  | cons e es ih =>
    unfold kills at ih ⊢
    unfold AuditGate.killed
    rw [List.filter_cons]
    split
    · rw [killedBy, ih]
    · exact ih

theorem b9Status_proven {floats : Floats} {nonce : String} {b8Nonce : Option String} {hit : List String}
    {p : Json} : b9Status floats nonce b8Nonce hit p = .ok "PROVEN" ↔
      nonce ≠ "" ∧ hit ≠ [] ∧ (∀ n ∈ b8Nonce, n = nonce) ∧ noStream floats p = .ok false := by
  have hstream : (noStream floats p).map (fun dry => if dry then "NO_LIVE_STREAM_BEFORE_KILL" else "PROVEN") =
      .ok "PROVEN" ↔ noStream floats p = .ok false := by
    cases noStream floats p with
    | error e => simp [Except.map]
    | ok dry => cases dry <;> simp [Except.map]
  unfold b9Status
  split
  · rename_i h
    exact iff_of_false (by simp) fun hx => hx.1 h
  rename_i h1
  split
  · rename_i h
    exact iff_of_false (by simp) fun hx => hx.2.1 h
  rename_i h2
  split
  · rename_i n
    split
    · rename_i h
      refine iff_of_false ?_ fun hx => h (hx.2.2.1 n rfl)
      have htext : s!"NONCE_MISMATCH:{n}!={nonce}" = "NONCE_MISMATCH:" ++ (n ++ ("!=" ++ nonce)) := by
        rw [← String.append_assoc, ← String.append_assoc]
        rfl
      intro he
      exact append_ne_proven (by decide) _ (htext.symm.trans (Except.ok.inj he))
    · rename_i h
      rw [Decidable.not_not] at h
      rw [hstream]
      exact ⟨fun hs => ⟨h1, h2, fun m hm => by rw [← Option.mem_some_iff.1 hm, h], hs⟩, fun hx => hx.2.2.2⟩
  · rw [hstream]
    exact ⟨fun hs => ⟨h1, h2, nofun, hs⟩, fun hx => hx.2.2.2⟩

/-- **When the verifier proves B9.** -/
theorem b9_proven {floats : Floats} {es : List Record} {runId : String} {b8Nonce : Option String}
    {killed : List String} {p : Json} :
    (∃ row, b9 floats es runId b8Nonce killed p = .ok row ∧ row.status = "PROVEN") ↔
      kills es ≠ [] ∧ ((owners es).map connOf).filter (· ∈ killed) ≠ [] ∧ b9Nonce es ≠ "" ∧
        (∀ n ∈ b8Nonce, n = b9Nonce es) ∧ noStream floats p = .ok false := by
  unfold b9
  split
  · rename_i h
    refine iff_of_false ?_ ?_
    · rintro ⟨row, hrow, hs⟩
      cases hrow
      exact absurd hs (by simp [plain])
    · rintro ⟨-, hhit, -⟩
      rw [h] at hhit
      exact hhit rfl
  split
  · rename_i h
    refine iff_of_false ?_ fun hx => hx.1 h
    rintro ⟨row, hrow, hs⟩
    cases hrow
    exact absurd hs (by simp [plain])
  rename_i hkills
  split
  · rename_i h
    refine iff_of_false ?_ ?_
    · rintro ⟨row, hrow, hs⟩
      cases hrow
      exact absurd hs (by simp [plain])
    · rintro ⟨-, hhit, -⟩
      rw [h] at hhit
      exact hhit (List.filter_eq_nil_iff.2 (by simp))
  simp only
  cases hstatus : b9Status floats (b9Nonce es) b8Nonce (((owners es).map connOf).filter (· ∈ killed)) p with
  | error x =>
    refine iff_of_false ?_ ?_
    · rintro ⟨row, hrow, -⟩
      cases hrow
    · rintro ⟨-, h1, h2, h3, h4⟩
      rw [b9Status_proven.2 ⟨h2, h1, h3, h4⟩] at hstatus
      cases hstatus
  | ok status =>
    constructor
    · rintro ⟨row, hrow, hs⟩
      cases hrow
      obtain ⟨h1, h2, h3, h4⟩ := b9Status_proven.1 (hstatus.trans (congrArg Except.ok hs))
      exact ⟨hkills, h2, h1, h3, h4⟩
    · rintro ⟨-, h1, h2, h3, h4⟩
      rw [b9Status_proven.2 ⟨h2, h1, h3, h4⟩] at hstatus
      refine ⟨_, rfl, (Except.ok.inj hstatus).symm⟩

/-! ## The verifier and the auditor -/

/-- The verifier proves both rows. -/
def Proves (R : Json.Reader) (floats : Floats) (log : List UInt8) (runId : String) (clientInfo : Json) : Prop :=
  ∃ r8 r9, evaluate R floats log runId clientInfo = .ok (r8, r9) ∧ r8.status = "PROVEN" ∧ r9.status = "PROVEN"

theorem results_ok {floats : Floats} {es : List Record} {runId : String} {clientInfo : Json}
    {r8 r9 : RowResult} : results floats es runId clientInfo = .ok (r8, r9) ↔
      ∃ killed p, AuditGate.killed es = .ok killed ∧ clientInfo.get "partial_bytes" = .ok p ∧
        r8 = (b8 es runId).1 ∧ b9 floats es runId (b8 es runId).2 killed p = .ok r9 := by
  unfold results
  rw [killedBy_kills]
  cases AuditGate.killed es with
  | error x => simp
  | ok killed =>
    cases clientInfo.get "partial_bytes" with
    | error x => simp
    | ok p =>
      cases hrow : b9 floats es runId (b8 es runId).2 killed p with
      | error x => simp [hrow]
      | ok row => simp [hrow, eq_comm]

/-- What `evaluate` goes through before it proves a row. -/
theorem proves_iff {R : Json.Reader} {floats : Floats} {log : List UInt8} {runId : String} {clientInfo : Json}
    {recs : List Json} (hload : loadStrict R log = .ok (recs, 0)) (hrun : runId ≠ "") :
    Proves R floats log runId clientInfo ↔ ∃ es killed p, scopedRecs recs runId = .ok es ∧ es ≠ [] ∧
      AuditGate.killed es = .ok killed ∧ clientInfo.get "partial_bytes" = .ok p ∧
      (b8 es runId).1.status = "PROVEN" ∧
      ∃ row, b9 floats es runId (b8 es runId).2 killed p = .ok row ∧ row.status = "PROVEN" := by
  unfold Proves evaluate
  rw [hload]
  simp only [ne_eq, not_true, if_false, hrun]
  cases hscoped : scopedRecs recs runId with
  | error x =>
    refine iff_of_false ?_ ?_
    · rintro ⟨r8, r9, h, -⟩
      cases h
    · rintro ⟨es, killed, p, h, -⟩
      cases h
  | ok es =>
    simp only
    split
    · rename_i hnil
      refine iff_of_false ?_ ?_
      · rintro ⟨r8, r9, h, h8, -⟩
        cases h
        exact absurd h8 (by simp [plain])
      · rintro ⟨es', killed, p, h, hne, -⟩
        cases h
        exact hne hnil
    · rename_i hne
      constructor
      · rintro ⟨r8, r9, h, h8, h9⟩
        obtain ⟨killed, p, hk, hp, rfl, hrow⟩ := results_ok.1 h
        exact ⟨es, killed, p, rfl, hne, hk, hp, h8, r9, hrow, h9⟩
      · rintro ⟨es', killed, p, h, -, hk, hp, h8, row, hrow, h9⟩
        cases h
        exact ⟨_, row, results_ok.2 ⟨killed, p, hk, hp, rfl, hrow⟩, h8, h9⟩

theorem e3_iff {es : List Record} : AuditGate.e3 es = true ↔
    AuditGate.b8Recs es ≠ [] ∧ AuditGate.b9Recs es ≠ [] ∧ AuditGate.lastNonce (AuditGate.b8Recs es) ≠ "" ∧
      AuditGate.lastNonce (AuditGate.b9Recs es) ≠ "" ∧
      AuditGate.lastNonce (AuditGate.b8Recs es) = AuditGate.lastNonce (AuditGate.b9Recs es) := by
  unfold AuditGate.e3
  simp only [Bool.or_eq_true, List.isEmpty_iff]
  split
  · rename_i h
    exact iff_of_false Bool.false_ne_true fun hx => h.elim hx.1 hx.2.1
  rename_i h1
  rw [not_or] at h1
  split
  · rename_i h
    exact iff_of_false Bool.false_ne_true fun hx => h.elim hx.2.2.1 hx.2.2.2.1
  rename_i h2
  rw [not_or] at h2
  split
  · rename_i h
    exact iff_of_false Bool.false_ne_true fun hx => h hx.2.2.2.2
  · rename_i h3
    exact iff_of_true rfl ⟨h1.1, h1.2, h2.1, h2.2, Decidable.not_not.1 h3⟩

/-- A terminated connection comes from a kill record. -/
theorem kills_ne_nil {es : List Record} {killed : List String} (h : AuditGate.killed es = .ok killed)
    (hne : killed ≠ []) : kills es ≠ [] := by
  intro hnil
  rw [← killedBy_kills, hnil] at h
  cases h
  exact hne rfl

/-- **The verifier and the auditor agree**: on a log without malformed lines, both rows are proven exactly
where E3 passes, the kill intersection is not empty and the record of B8 is valid. -/
theorem verifier_agrees {R : Json.Reader} {log : List UInt8} {records : List (Json × List UInt8)}
    {records' : List Json} (h : WellFormed R log records records') (floats : Floats) {runId : String}
    (hrun : runId ≠ "") :
    (Proves R floats log runId (.obj []) ↔
      ∃ c, AuditGate.checks (records.map Prod.fst) runId = .ok c ∧ c.e3 = true ∧ c.hit ≠ [] ∧ c.b8Valid = true) ∧
    ((∃ c, AuditGate.checks (records.map Prod.fst) runId = .ok c ∧ c.e3 = true ∧ c.e4 = true) →
      Proves R floats log runId (.obj [])) := by
  have hscoped : scopedRecs records' runId = scopedRecs (records.map Prod.fst) runId := by
    unfold scopedRecs
    rw [readers_agree h]
  have hproves : Proves R floats log runId (.obj []) ↔
      ∃ c, AuditGate.checks (records.map Prod.fst) runId = .ok c ∧ c.e3 = true ∧ c.hit ≠ [] ∧ c.b8Valid = true := by
    rw [proves_iff h.text hrun, hscoped]
    unfold AuditGate.checks
    constructor
    · rintro ⟨es, killed, p, hes, hne, hk, hp, h8, hrow⟩
      cases hp
      obtain ⟨hvalid, hn8⟩ := b8_proven.1 h8
      obtain ⟨-, hhit, hn9, hsame, -⟩ := b9_proven.1 hrow
      rw [hes]
      simp only [hk]
      have hb8 := lastNonce_ne hn8
      rw [b9Nonce_eq] at hn9 hsame
      exact ⟨_, rfl, e3_iff.2 ⟨hb8, lastNonce_ne hn9, hn8, hn9, hsame _ (b8_nonce.2 ⟨hb8, rfl⟩)⟩, hhit, hvalid⟩
    · rintro ⟨c, hc, h3, hhit, hvalid⟩
      cases hes : scopedRecs (records.map Prod.fst) runId with
      | error x => rw [hes] at hc; cases hc
      | ok es =>
        rw [hes] at hc
        simp only at hc
        cases hk : AuditGate.killed es with
        | error x => rw [hk] at hc; cases hc
        | ok killed =>
          rw [hk] at hc
          cases hc
          obtain ⟨hb8, -, hn8, hn9, hsame⟩ := e3_iff.1 h3
          have hne : es ≠ [] := by
            rintro rfl
            exact hb8 rfl
          have hkilled : killed ≠ [] := by
            rintro rfl
            exact hhit (List.filter_eq_nil_iff.2 (by simp))
          refine ⟨es, killed, .null, rfl, hne, hk, rfl, b8_proven.2 ⟨hvalid, hn8⟩, b9_proven.2 ?_⟩
          exact ⟨kills_ne_nil hk hkilled, hhit, hn9, fun n hn => (b8_nonce.1 hn).2.trans hsame, rfl⟩
  refine ⟨hproves, ?_⟩
  rintro ⟨c, hc, h3, h4⟩
  refine hproves.2 ⟨c, hc, h3, ?_⟩
  unfold AuditGate.checks at hc
  split at hc
  · cases hc
  · split at hc
    · cases hc
    · cases hc
      simp only [Bool.and_eq_true, Bool.not_eq_true', List.isEmpty_eq_false_iff] at h4
      exact h4.1

/-- Shallow texts only. -/
def sampleReader : Json.Reader := ⟨8, fun _ => ("0.0", true)⟩

/-- A log with an allowed IPv6 flow and a terminated connection. -/
def sampleLog : List UInt8 :=
  ("\x7b\"run_id\": \"r\", \"decision\": \"ALLOW\", \"row_id\": \"B3\", \"pin_family\": \"ipv6\", " ++
    "\"pin_ip\": \"2001:db8::1\", \"canonical_host\": \"h\", \"sni\": \"h\", \"request_hash\": \"a\", " ++
    "\"response_hash\": \"b\", \"test_nonce\": \"n\"\x7d\n" ++
    "\x7b\"run_id\": \"r\", \"row_id\": \"B6\", \"conn_id\": \"c\", \"test_nonce\": \"n\"\x7d\n" ++
    "\x7b\"run_id\": \"r\", \"decision\": \"KILL_SWITCH\", \"terminated_conn_ids\": [\"c\"]\x7d\n").toUTF8.toList

def sampleRecords : List Record :=
  [[("run_id", .str "r"), ("decision", .str "ALLOW"), ("row_id", .str "B3"), ("pin_family", .str "ipv6"),
      ("pin_ip", .str "2001:db8::1"), ("canonical_host", .str "h"), ("sni", .str "h"),
      ("request_hash", .str "a"), ("response_hash", .str "b"), ("test_nonce", .str "n")],
    [("run_id", .str "r"), ("row_id", .str "B6"), ("conn_id", .str "c"), ("test_nonce", .str "n")],
    [("run_id", .str "r"), ("decision", .str "KILL_SWITCH"), ("terminated_conn_ids", .arr [.str "c"])]]

theorem sample_wellFormed : WellFormed sampleReader sampleLog
    ((sampleRecords.map Json.obj).zip (Lines.records (Lines.fileLines sampleLog))) (sampleRecords.map Json.obj) where
  bytes := by decide +kernel
  text := by decide +kernel

/-- `verifier_agrees` at the log with a terminated connection. -/
theorem verifier_agrees_sample : Proves sampleReader Pdp.asciiPlatform.floats sampleLog "r" (.obj []) := by
  have hrun : "r" ≠ "" := by decide
  refine (verifier_agrees sample_wellFormed Pdp.asciiPlatform.floats hrun).1.2 ?_
  refine ⟨⟨true, ["c"], true, false, []⟩, ?_, rfl, by decide, rfl⟩
  decide +kernel

end LayerB

end Evidence

end StrixPEP
