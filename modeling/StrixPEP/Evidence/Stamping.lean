import StrixPEP.Evidence.Printing

/-!
# The artifact of Layer B on its way to the auditor

The sandbox writes the artifact; `stamp_artifacts.py` stamps the copy, and `verify_layerb_audit.py`
replaces its rows B8 and B9 by what `evaluate` finds in the audit log.

* `stamp` — `stamp` of `pep/stamp_artifacts.py`;
* `rewrite`, `verify` — the rewrite in `main` of `pep/verify_layerb_audit.py`, with what it prints before,
  and `main` on the content of its files;
* `final` — the artifact that the auditor reads; where `main` raises, it is the stamped one.

Principal result: `non_interfering_iff`, the sandbox has no influence on the rows B8 and B9 exactly where
its rows can be read, neither the log nor the client's report makes `evaluate` raise, and `stdout` can
encode what `main` prints of them.
-/

namespace StrixPEP

namespace Evidence

namespace Stamping

open LayerB

/-! ## The two programs -/

/-- `prior not in (None, "")`. -/
def populated (prior : Json) : Bool := !(decide (prior = .null) || decide (prior = .str ""))

/-- `stamp`. -/
def stamp (data : Record) (runId : String) : Record :=
  let prior := got data "run_id"
  let data := if populated prior then Dict.set data "run_id_conflict" (.str prior.display) else data
  Dict.set (Dict.set data "run_id" (.str runId)) "run_id_source" (.str "control-plane")

/-- `data.get("rows", [])`, as it is iterated over. -/
def rowsOf (data : Record) : Except PyError (List Json) := ((Record.get? data "rows").getD (.arr [])).elements

/-- `[r for r in rows if r.get("id") not in ("B8", "B9")]`. -/
def keptRows : List Json → Except PyError (List Json)
  | [] => .ok []
  | r :: rs =>
    match r.get "id", keptRows rs with
    | .error e, _ => .error e
    | _, .error e => .error e
    | .ok id, .ok kept => .ok (if id = .str "B8" ∨ id = .str "B9" then kept else r :: kept)

/-- The row of a result. -/
def verdictRow (id desc : String) (res : RowResult) : Json :=
  .obj [("layer", .str "B"), ("id", .str id), ("desc", .str desc), ("expect", .str "PROVEN"),
    ("got", .str res.status), ("status", .str res.status), ("pass", .bool (decide (res.status = "PROVEN"))),
    ("detail", .str res.detail), ("conn_id", res.connId), ("nonce", res.nonce)]

/-- The rows that are appended. -/
def verdicts (b8 b9 : RowResult) : List Json := (reported b8 b9).map fun x => verdictRow x.1 x.2.1 x.2.2

/-- The lines that are printed between them. -/
def lines (b8 b9 : RowResult) : List String := (reported b8 b9).flatMap fun x => printed x.1 x.2.1 x.2.2

/-- `r.get("status") == "PROVEN"`. -/
def isProven (r : Json) : Bool := r.get "status" = .ok (.str "PROVEN")

/-- The rewrite of the artifact; a line that cannot be encoded ends `main` before it. -/
def rewrite (out : Stdout) (data : Record) (runId : String) (b8 b9 : RowResult) : Except PyError Record :=
  match rowsOf data with
  | .error e => .error e
  | .ok rs =>
    match keptRows rs with
    | .error e => .error e
    | .ok kept =>
      if !(lines b8 b9).all out.writes then .error (.valueError "UnicodeEncodeError") else
      let rows := kept ++ verdicts b8 b9
      let data := Dict.set data "rows" (.arr rows)
      let prior := got data "run_id"
      let alreadyBound := got data "run_id_source" = .str "control-plane" ∧ prior.display = runId
      let data :=
        if populated prior ∧ ¬ alreadyBound then Dict.set data "run_id_conflict" (.str prior.display) else data
      let data := Dict.set data "run_id" (.str runId)
      let data := Dict.set data "run_id_source" (.str "control-plane")
      let data := Dict.set data "passed" (.int (rows.countP isProven))
      .ok (Dict.set data "total" (.int rows.length))

/-- What the control plane knows of a run: the content of the audit log, the run id and the client's report. -/
structure HostEvidence where
  log : List UInt8
  runId : String
  clientInfo : Json

section

variable (R : Json.Reader) (floats : Floats) (out : Stdout)

/-- `main` of the verifier, on the content of its files. -/
def verify (e : HostEvidence) (data : Record) : Except PyError Record :=
  match evaluate R floats e.log e.runId e.clientInfo with
  | .error x => .error x
  | .ok (b8, b9) => rewrite out data e.runId b8 b9

/-- The artifact that the auditor reads. -/
def final (e : HostEvidence) (data : Record) : Record :=
  match verify R floats out e (stamp data e.runId) with
  | .ok rewritten => rewritten
  | .error _ => stamp data e.runId

end

/-! ## What is owed -/

/-- A JSON object as `json.load` returns it. -/
structure Artifact where
  record : Record
  /-- The text of a float is not empty. -/
  floats : ∀ key r finite, Record.get? record key = some (.float r finite) → r ≠ ""

/-- A row B8 or B9. -/
def isVerdict : Json → Bool
  | .obj kvs => decide (got kvs "id" = .str "B8" ∨ got kvs "id" = .str "B9")
  | _ => false

/-- The rows B8 and B9 of an artifact. -/
def verdictRows (data : Record) : List Json :=
  match Record.get? data "rows" with
  | some (.arr rs) => rs.filter isVerdict
  | _ => []

/-- What the control plane writes itself. -/
def rewritten : List String := ["rows", "passed", "total", "run_id_source"]

/-- Two artifacts that differ in rows B8 and B9, `passed`, `total` and `run_id_source` at most. -/
structure Alike (a a' : Record) : Prop where
  rest : ∀ key, key ∉ rewritten → Record.get? a key = Record.get? a' key
  rows : (Record.get? a "rows").getD (.arr []) = (Record.get? a' "rows").getD (.arr []) ∨
    ∃ rs rs', (Record.get? a "rows").getD (.arr []) = .arr rs ∧ (Record.get? a' "rows").getD (.arr []) = .arr rs' ∧
      rs.filter (fun r => !isVerdict r) = rs'.filter fun r => !isVerdict r

/-- The sandbox has no influence on the rows that the host derives. -/
structure NonInterfering (R : Json.Reader) (floats : Floats) (out : Stdout) (e : HostEvidence) (a : Artifact) : Prop where
  verdicts : ∃ b8 b9, evaluate R floats e.log e.runId e.clientInfo = .ok (b8, b9) ∧
    verdictRows (final R floats out e a.record) = verdicts b8 b9
  alike : ∀ a' : Artifact, Alike a.record a'.record →
    ∀ key, Record.get? (final R floats out e a.record) key = Record.get? (final R floats out e a'.record) key
  bound : AuditGate.bound (final R floats out e a.record) e.runId = true →
    got a.record "run_id" = .null ∨ got a.record "run_id" = .str ""
  client : ∀ b8 b9 c8 c9, evaluate R floats e.log e.runId (.obj []) = .ok (b8, b9) → b9.status ≠ "PROVEN" →
    evaluate R floats e.log e.runId e.clientInfo = .ok (c8, c9) → c9.status ≠ "PROVEN"

/-! ## The condition -/

/-- The rows can be read: there are none, or they are a list of objects; or nothing is iterated over. -/
def ReadableRows (a : Record) : Prop :=
  match Record.get? a "rows" with
  | none => True
  | some (.arr rs) => ∀ r ∈ rs, r.isObj = true
  | some (.str s) => s = ""
  | some (.obj kvs) => kvs = []
  | some _ => False

/-- `value or []` can be iterated over. -/
def iterable (v : Json) : Bool :=
  !v.truthy ||
    match v with
    | .arr _ | .str _ | .obj _ => true
    | _ => false

/-- The value can be compared with a number. -/
def comparable : Json → Bool
  | .str _ | .arr _ | .obj _ => false
  | _ => true

/-- The connection of row B6 was terminated, and its nonce is that of the IPv6 flow, if there is one. -/
def OwnKill (es : List Record) : Prop :=
  (∃ ks, AuditGate.killed es = .ok ks ∧ ((owners es).map connOf).filter (· ∈ ks) ≠ []) ∧
    b9Nonce es ≠ "" ∧ (AuditGate.b8Recs es ≠ [] → AuditGate.lastNonce (AuditGate.b8Recs es) = b9Nonce es)

/-- The log can be read.  If it has no malformed lines and there is a run id, then its records are objects;
and if the run has records, then its kill records list what they terminated, the client's report is an
object, and where the number of bytes is asked for, it can be compared with zero. -/
def Answerable (R : Json.Reader) (e : HostEvidence) : Prop :=
  ∃ recs bad, loadStrict R e.log = .ok (recs, bad) ∧
    (bad = 0 → e.runId ≠ "" → ∃ es, scopedRecs recs e.runId = .ok es ∧
      (es ≠ [] → (∀ k ∈ kills es, iterable (got k "terminated_conn_ids") = true) ∧
        ∃ kvs, e.clientInfo = .obj kvs ∧ (comparable (got kvs "partial_bytes") = true ∨ ¬ OwnKill es)))

/-- `stdout` can encode what is printed.  If the log has no malformed lines and there is a run id, that is
the run id; and if the run has records, then also what B8 shows of its record, and what B9 shows of the
terminated connection, the nonces and the client's report. -/
def Encodable (out : Stdout) (R : Json.Reader) (e : HostEvidence) : Prop :=
  ∀ recs, loadStrict R e.log = .ok (recs, 0) → e.runId ≠ "" → ∀ es, scopedRecs recs e.runId = .ok es →
    out.writes e.runId = true ∧
      (es ≠ [] → (∀ t ∈ b8Shown es, out.writes t = true) ∧
        ∀ killed kvs, AuditGate.killed es = .ok killed → e.clientInfo = .obj kvs →
          ∀ t ∈ b9Shown es killed (got kvs "partial_bytes"), out.writes t = true)

/-! ## When `evaluate` returns -/

section Evaluate

variable {floats : Floats} {es : List Record} {runId : String}

theorem elements_ok {v : Json} : (∃ cs, (v.orElse (.arr [])).elements = .ok cs) ↔ iterable v = true := by
  unfold iterable
  cases ht : v.truthy with
  | false =>
    rw [Json.orElse_of_not ht]
    exact iff_of_true ⟨[], rfl⟩ rfl
  | true =>
    rw [Json.orElse_of_truthy ht]
    cases v <;> simp [Json.elements]

theorem terminated_ok {e : Record} : (∃ cs, terminated e = .ok cs) ↔
    iterable (got e "terminated_conn_ids") = true := by
  rw [← elements_ok]
  unfold terminated
  cases ((got e "terminated_conn_ids").orElse (.arr [])).elements <;> simp [Except.map]

theorem joined_ok {x y : Except PyError (List String)} : (∃ ks, joined x y = .ok ks) ↔
    (∃ cs, x = .ok cs) ∧ ∃ ds, y = .ok ds := by
  cases x <;> cases y <;> simp [joined]

/-- The terminated connections are collected if every kill record lists them. -/
theorem killed_ok : (∃ ks, AuditGate.killed es = .ok ks) ↔
    ∀ k ∈ kills es, iterable (got k "terminated_conn_ids") = true := by
  induction es with
  | nil => simp [AuditGate.killed, kills]
  | cons e es ih =>
    unfold AuditGate.killed
    unfold kills at ih ⊢
    rw [List.filter_cons]
    split
    · rw [joined_ok, ih, terminated_ok, List.forall_mem_cons]
    · exact ih

theorem noStream_ok {p : Json} : (∃ dry, noStream floats p = .ok dry) ↔ comparable p = true := by
  cases p <;> simp [noStream, comparable]

theorem b9Status_ok {nonce : String} {b8Nonce : Option String} {hit : List String} {p : Json} :
    (∃ status, b9Status floats nonce b8Nonce hit p = .ok status) ↔
      comparable p = true ∨ ¬ (nonce ≠ "" ∧ hit ≠ [] ∧ ∀ n ∈ b8Nonce, n = nonce) := by
  have hstream : (∃ status, (noStream floats p).map (fun dry =>
      if dry then "NO_LIVE_STREAM_BEFORE_KILL" else "PROVEN") = .ok status) ↔ comparable p = true := by
    rw [← @noStream_ok floats]
    cases noStream floats p <;> simp [Except.map]
  unfold b9Status
  split
  · rename_i h
    exact iff_of_true ⟨_, rfl⟩ (.inr fun hx => hx.1 h)
  rename_i h1
  split
  · rename_i h
    exact iff_of_true ⟨_, rfl⟩ (.inr fun hx => hx.2.1 h)
  rename_i h2
  split
  · rename_i n
    split
    · rename_i h
      exact iff_of_true ⟨_, rfl⟩ (.inr fun hx => h (hx.2.2 n rfl))
    · rename_i h
      rw [Decidable.not_not] at h
      rw [hstream]
      exact ⟨.inl, fun hx => hx.resolve_right fun hn =>
        hn ⟨h1, h2, fun m hm => by rw [← Option.mem_some_iff.1 hm, h]⟩⟩
  · rw [hstream]
    exact ⟨.inl, fun hx => hx.resolve_right fun hn => hn ⟨h1, h2, nofun⟩⟩

theorem b9_ok {b8Nonce : Option String} {ks : List String} {p : Json} :
    (∃ row, b9 floats es runId b8Nonce ks p = .ok row) ↔
      comparable p = true ∨ ¬ (kills es ≠ [] ∧ ((owners es).map connOf).filter (· ∈ ks) ≠ [] ∧
        b9Nonce es ≠ "" ∧ ∀ n ∈ b8Nonce, n = b9Nonce es) := by
  unfold b9
  split
  · rename_i h
    refine iff_of_true ⟨_, rfl⟩ (.inr fun hx => hx.2.1 ?_)
    rw [h]
    rfl
  split
  · rename_i h
    exact iff_of_true ⟨_, rfl⟩ (.inr fun hx => hx.1 h)
  rename_i hkills
  split
  · rename_i h
    refine iff_of_true ⟨_, rfl⟩ (.inr fun hx => hx.2.1 ?_)
    rw [h]
    exact List.filter_eq_nil_iff.2 (by simp)
  simp only
  have hstatus := @b9Status_ok floats (b9Nonce es) b8Nonce (((owners es).map connOf).filter (· ∈ ks)) p
  cases hs : b9Status floats (b9Nonce es) b8Nonce (((owners es).map connOf).filter (· ∈ ks)) p with
  | error x =>
    rw [hs] at hstatus
    refine iff_of_false (by simp) fun hx => ?_
    have hno : ¬ ∃ status, (Except.error x : Except PyError String) = .ok status := by simp
    refine hno (hstatus.2 (hx.imp_right fun hn hall => hn ⟨hkills, hall.2.1, hall.1, hall.2.2⟩))
  | ok status =>
    rw [hs] at hstatus
    refine iff_of_true ⟨_, rfl⟩ ((hstatus.1 ⟨_, rfl⟩).imp_right fun hn hall => ?_)
    exact hn ⟨hall.2.2.1, hall.2.1, hall.2.2.2⟩

/-- `evaluate` returns from the records of the run. -/
theorem results_returns {clientInfo : Json} : (∃ r, results floats es runId clientInfo = .ok r) ↔
    (∀ k ∈ kills es, iterable (got k "terminated_conn_ids") = true) ∧
      ∃ kvs, clientInfo = .obj kvs ∧ (comparable (got kvs "partial_bytes") = true ∨ ¬ OwnKill es) := by
  have hnonce : (∀ n ∈ (b8 es runId).2, n = b9Nonce es) ↔
      (AuditGate.b8Recs es ≠ [] → AuditGate.lastNonce (AuditGate.b8Recs es) = b9Nonce es) := by
    constructor
    · exact fun h hne => h _ (b8_nonce.2 ⟨hne, rfl⟩)
    · intro h n hn
      obtain ⟨hne, rfl⟩ := b8_nonce.1 hn
      exact h hne
  rw [← killed_ok]
  constructor
  · rintro ⟨⟨r8, r9⟩, h⟩
    obtain ⟨ks, p, hk, hp, -, hrow⟩ := results_ok.1 h
    obtain ⟨kvs, rfl, hpart⟩ := Json.get_ok.1 hp
    refine ⟨⟨ks, hk⟩, kvs, rfl, ?_⟩
    have hb9 := b9_ok.1 ⟨r9, hrow⟩
    rw [← hpart] at hb9
    refine hb9.imp_right fun hn hown => hn ?_
    obtain ⟨⟨ks', hk', hhit⟩, h1, h2⟩ := hown
    cases hk.symm.trans hk'
    refine ⟨kills_ne_nil hk ?_, hhit, h1, hnonce.2 h2⟩
    rintro rfl
    exact hhit (List.filter_eq_nil_iff.2 (by simp))
  · rintro ⟨⟨ks, hk⟩, kvs, rfl, hc⟩
    have hrow : ∃ row, b9 floats es runId (b8 es runId).2 ks (got kvs "partial_bytes") = .ok row := by
      refine b9_ok.2 (hc.imp_right fun hn hall => hn ?_)
      exact ⟨⟨ks, hk, hall.2.1⟩, hall.2.2.1, hnonce.1 hall.2.2.2⟩
    obtain ⟨row, hrow⟩ := hrow
    exact ⟨_, results_ok.2 ⟨ks, _, hk, rfl, rfl, hrow⟩⟩

/-- **When `evaluate` returns.** -/
theorem evaluate_returns {R : Json.Reader} {e : HostEvidence} :
    (∃ b8 b9, evaluate R floats e.log e.runId e.clientInfo = .ok (b8, b9)) ↔ Answerable R e := by
  unfold evaluate Answerable
  cases hload : loadStrict R e.log with
  | error x => simp
  | ok loaded =>
    obtain ⟨recs, bad⟩ := loaded
    simp only [Except.ok.injEq, Prod.mk.injEq, ↓existsAndEq, true_and]
    by_cases hbad : bad = 0
    · by_cases hrun : e.runId = ""
      · simp [hbad, hrun]
      · simp only [hbad, hrun, ne_eq, not_true, not_false_eq_true, if_false, forall_const]
        cases hscoped : scopedRecs recs e.runId with
        | error x => simp
        | ok es =>
          simp only [Except.ok.injEq, exists_eq_left']
          by_cases hnil : es = []
          · simp [hnil]
          · simp only [hnil, if_false, not_false_eq_true, forall_const]
            rw [← @results_returns floats _ e.runId]
            exact ⟨fun ⟨b8, b9, h⟩ => ⟨_, h⟩, fun ⟨r, h⟩ => ⟨r.1, r.2, h⟩⟩
    · simp [hbad]

end Evaluate

/-! ## What is printed -/

section Lines

variable {R : Json.Reader} {floats : Floats} {out : Stdout} {e : HostEvidence}

theorem lines_all {b8 b9 : RowResult} : (lines b8 b9).all out.writes = true ↔
    (printed "B8" "audit proves enforcement for the IPv6 flow (run_id-scoped)" b8).all out.writes = true ∧
      (printed "B9" "kill switch terminated THE connection that armed it (conn_id)" b9).all out.writes =
        true := by
  unfold lines reported
  simp only [List.flatMap_cons, List.flatMap_nil, List.append_nil, List.all_append, Bool.and_eq_true]

/-- A result without a record. -/
theorem lines_plain {status detail : String} (hs : out.writes status = true) :
    (lines (plain status detail) (plain status detail)).all out.writes = true ↔ out.writes detail = true := by
  rw [lines_all, writes_printed (Stdout.writes_ascii (by decide)) (Stdout.writes_ascii (by decide)),
    writes_printed (Stdout.writes_ascii (by decide)) (Stdout.writes_ascii (by decide))]
  simp [plain, hs]

/-- **The lines can be printed** exactly where `stdout` can encode what they show. -/
theorem lines_iff {b8 b9 : RowResult} (h : evaluate R floats e.log e.runId e.clientInfo = .ok (b8, b9)) :
    (lines b8 b9).all out.writes = true ↔ Encodable out R e := by
  unfold evaluate at h
  unfold Encodable
  split at h
  · cases h
  rename_i recs bad hload
  rw [hload]
  split at h
  · rename_i hbad
    cases h
    have hcount : out.writes (toString bad) = true := Stdout.writes_nat _
    refine iff_of_true ((lines_plain (Stdout.writes_ascii (by decide))).2 ?_) fun recs' hrecs => ?_
    · show out.writes ("malformed_lines=" ++ toString bad) = true
      rw [Stdout.writes_append, hcount, Stdout.writes_ascii (by decide)]
      rfl
    · cases hrecs
      exact absurd rfl hbad
  rename_i hbad
  rw [Decidable.not_not] at hbad
  subst hbad
  split at h
  · rename_i hrun
    cases h
    exact iff_of_true ((lines_plain (Stdout.writes_ascii (by decide))).2 (Stdout.writes_ascii (by decide)))
      fun _ _ hne => absurd hrun hne
  rename_i hrun
  split at h
  · cases h
  rename_i es hes
  -- the records of the run are these
  have hrecs : (∀ recs', Except.ok (recs, 0) = (Except.ok (recs', 0) : Except PyError (List Json × Nat)) →
      e.runId ≠ "" → ∀ es', scopedRecs recs' e.runId = .ok es' → out.writes e.runId = true ∧
        (es' ≠ [] → (∀ t ∈ b8Shown es', out.writes t = true) ∧
          ∀ killed kvs, AuditGate.killed es' = .ok killed → e.clientInfo = .obj kvs →
            ∀ t ∈ b9Shown es' killed (got kvs "partial_bytes"), out.writes t = true)) ↔
      (out.writes e.runId = true ∧ (es ≠ [] → (∀ t ∈ b8Shown es, out.writes t = true) ∧
        ∀ killed kvs, AuditGate.killed es = .ok killed → e.clientInfo = .obj kvs →
          ∀ t ∈ b9Shown es killed (got kvs "partial_bytes"), out.writes t = true)) := by
    constructor
    · exact fun hall => hall recs rfl hrun es hes
    · rintro hone recs' heq - es' hes'
      cases heq
      cases hes.symm.trans hes'
      exact hone
  rw [hrecs]
  split at h
  · rename_i hnil
    cases h
    rw [lines_plain (Stdout.writes_ascii (by decide))]
    simp [hnil, toString, @Stdout.writes_ascii out "run_id=" (by decide),
      @Stdout.writes_ascii out " absent" (by decide)]
  · rename_i hne
    obtain ⟨killed, p, hk, hp, rfl, hrow⟩ := results_ok.1 h
    obtain ⟨kvs, hclient, rfl⟩ := Json.get_ok.1 hp
    rw [lines_all, writes_b8 (Stdout.writes_ascii (by decide)) (Stdout.writes_ascii (by decide)),
      and_assoc]
    refine and_congr_right fun hid => ?_
    rw [writes_b9 (Stdout.writes_ascii (by decide)) (Stdout.writes_ascii (by decide)) hid hrow]
    constructor
    · rintro ⟨h8, h9⟩ -
      refine ⟨h8, fun killed' kvs' hk' hclient' => ?_⟩
      cases hk.symm.trans hk'
      cases hclient.symm.trans hclient'
      exact h9
    · exact fun hall => ⟨(hall hne).1, (hall hne).2 killed kvs hk hclient⟩

end Lines

/-! ## Reading the rows -/

section Rows

variable {a : Record} {rs kept : List Json}

theorem keptRows_ok : keptRows rs = .ok kept ↔
    (∀ r ∈ rs, r.isObj = true) ∧ kept = rs.filter fun r => !isVerdict r := by
  induction rs generalizing kept with
  | nil =>
    constructor
    · intro h
      cases h
      exact ⟨nofun, rfl⟩
    · rintro ⟨-, rfl⟩
      rfl
  | cons r rs ih =>
    unfold keptRows
    cases r with
    | obj kvs =>
      rw [List.forall_mem_cons, List.filter_cons]
      change (match Except.ok (got kvs "id"), keptRows rs with
        | .error e, _ => .error e
        | _, .error e => .error e
        | .ok id, .ok kept => .ok (if id = .str "B8" ∨ id = .str "B9" then kept else .obj kvs :: kept)) =
          Except.ok kept ↔ _
      cases hk : keptRows rs with
      | error x =>
        refine iff_of_false nofun ?_
        rintro ⟨⟨-, hall⟩, -⟩
        rw [ih.2 ⟨hall, rfl⟩] at hk
        cases hk
      | ok kept' =>
        obtain ⟨hall, rfl⟩ := ih.1 hk
        have hverdict : isVerdict (.obj kvs) = decide (got kvs "id" = .str "B8" ∨ got kvs "id" = .str "B9") := rfl
        simp only [Except.ok.injEq]
        by_cases hid : got kvs "id" = .str "B8" ∨ got kvs "id" = .str "B9"
        · rw [if_pos hid, hverdict, decide_eq_true hid]
          exact ⟨fun h => ⟨⟨rfl, hall⟩, h.symm⟩, fun h => h.2.symm⟩
        · rw [if_neg hid, hverdict, decide_eq_false hid]
          exact ⟨fun h => ⟨⟨rfl, hall⟩, h.symm⟩, fun h => h.2.symm⟩
    | _ => exact iff_of_false (by simp [Json.get]) fun h => nomatch h.1 _ List.mem_cons_self

/-- What the rewrite keeps. -/
def keeps (a : Record) (kept : List Json) : Prop := ∃ rs, rowsOf a = .ok rs ∧ keptRows rs = .ok kept

theorem readable_iff : (∃ kept, keeps a kept) ↔ ReadableRows a := by
  have hstrings : ∀ rs : List Json, (∀ r ∈ rs, r.isObj = false) → (∀ r ∈ rs, r.isObj = true) → rs = [] := by
    intro rs hno hyes
    cases rs with
    | nil => rfl
    | cons r rs => exact absurd (hyes r List.mem_cons_self) (by rw [hno r List.mem_cons_self]; decide)
  unfold keeps ReadableRows rowsOf
  simp only [keptRows_ok]
  cases Record.get? a "rows" with
  | none => exact iff_of_true ⟨[], [], rfl, nofun, rfl⟩ trivial
  | some v =>
    cases v with
    | arr rs => simp [Json.elements]
    | str s =>
      simp only [Option.getD_some, Json.elements, Except.ok.injEq]
      constructor
      · rintro ⟨kept, rs, rfl, hobj, -⟩
        refine String.toList_injective (List.map_eq_nil_iff.1 (hstrings _ (fun r hr => ?_) hobj))
        obtain ⟨c, -, rfl⟩ := List.mem_map.1 hr
        rfl
      · rintro rfl
        exact ⟨[], [], rfl, nofun, rfl⟩
    | obj kvs =>
      simp only [Option.getD_some, Json.elements, Except.ok.injEq]
      constructor
      · rintro ⟨kept, rs, rfl, hobj, -⟩
        refine List.map_eq_nil_iff.1 (hstrings _ (fun r hr => ?_) hobj)
        obtain ⟨kv, -, rfl⟩ := List.mem_map.1 hr
        rfl
      · rintro rfl
        exact ⟨[], [], rfl, nofun, rfl⟩
    | _ => exact iff_of_false (by simp [Json.elements]) id

/-- Every row B8 or B9 is an object. -/
theorem isObj_iff : (∀ r ∈ rs, r.isObj = true) ↔ ∀ r ∈ rs.filter fun r => !isVerdict r, r.isObj = true := by
  refine ⟨fun h r hr => h r (List.mem_filter.1 hr).1, fun h r hr => ?_⟩
  cases hv : isVerdict r with
  | false => exact h r (List.mem_filter.2 ⟨hr, by rw [hv]; rfl⟩)
  | true =>
    cases r with
    | obj kvs => rfl
    | _ => cases hv

/-- Artifacts that differ in their rows B8 and B9 keep the same rows. -/
theorem Alike.keeps {a' : Record} (h : Alike a a') : keeps a kept ↔ keeps a' kept := by
  unfold Stamping.keeps rowsOf
  rcases h.rows with heq | ⟨rs, rs', hrs, hrs', hfilter⟩
  · rw [heq]
  · rw [hrs, hrs']
    simp only [Json.elements, Except.ok.injEq, exists_eq_left', keptRows_ok]
    rw [isObj_iff, @isObj_iff rs', hfilter]

end Rows

/-! ## The artifact after each program -/

section Programs

variable {out : Stdout} {a : Record} {runId : String} {key : String}

theorem get?_set_self (a : Record) (key : String) (v : Json) : Record.get? (Dict.set a key v) key = some v :=
  Dict.lookup_set_self a key v

theorem get?_set_ne (a : Record) {key key' : String} (v : Json) (h : key' ≠ key) :
    Record.get? (Dict.set a key v) key' = Record.get? a key' :=
  Dict.lookup_set_ne a v h

theorem stamp_source : Record.get? (stamp a runId) "run_id_source" = some (.str "control-plane") :=
  get?_set_self _ _ _

theorem stamp_runId : Record.get? (stamp a runId) "run_id" = some (.str runId) := by
  unfold stamp
  rw [get?_set_ne _ _ (by decide), get?_set_self]

theorem stamp_conflict : Record.get? (stamp a runId) "run_id_conflict" =
    if populated (got a "run_id") then some (.str (got a "run_id").display)
    else Record.get? a "run_id_conflict" := by
  unfold stamp
  rw [get?_set_ne _ _ (by decide), get?_set_ne _ _ (by decide)]
  split
  · rw [get?_set_self]
  · rfl

/-- The stamp leaves the rest alone. -/
theorem stamp_other (h : key ∉ ["run_id", "run_id_source", "run_id_conflict"]) :
    Record.get? (stamp a runId) key = Record.get? a key := by
  simp only [List.mem_cons, List.not_mem_nil, or_false, not_or] at h
  unfold stamp
  rw [get?_set_ne _ _ h.2.1, get?_set_ne _ _ h.1]
  split
  · rw [get?_set_ne _ _ h.2.2]
  · rfl

/-- A stamped artifact is rewritten if its rows can be read and the lines are printed; its own stamp is no
conflict. -/
theorem rewrite_stamped {kept : List Json} (hk : keeps a kept) {b8 b9 : RowResult}
    (hlines : (lines b8 b9).all out.writes = true) :
    ∃ d, rewrite out (stamp a runId) runId b8 b9 = .ok d ∧
      Record.get? d "rows" = some (.arr (kept ++ verdicts b8 b9)) ∧
      Record.get? d "passed" = some (.int ((kept ++ verdicts b8 b9).countP isProven)) ∧
      Record.get? d "total" = some (.int (kept ++ verdicts b8 b9).length) ∧
      ∀ key ∉ ["rows", "passed", "total"], Record.get? d key = Record.get? (stamp a runId) key := by
  obtain ⟨rs, hrs, hkept⟩ := hk
  have hrows : rowsOf (stamp a runId) = .ok rs := by
    unfold rowsOf at hrs ⊢
    rw [stamp_other (by decide)]
    exact hrs
  have hbound : got (Dict.set (stamp a runId) "rows" (.arr (kept ++ verdicts b8 b9))) "run_id_source" =
      .str "control-plane" ∧
      (got (Dict.set (stamp a runId) "rows" (.arr (kept ++ verdicts b8 b9))) "run_id").display = runId := by
    unfold got
    rw [get?_set_ne _ _ (by decide), get?_set_ne _ _ (by decide), stamp_source, stamp_runId]
    exact ⟨rfl, rfl⟩
  unfold rewrite
  rw [hrows]
  dsimp only
  rw [hkept]
  dsimp only
  rw [hlines, if_neg (by decide), if_neg fun h => h.2 hbound]
  refine ⟨_, rfl, ?_, ?_, get?_set_self _ _ _, fun key hkey => ?_⟩
  · rw [get?_set_ne _ _ (by decide), get?_set_ne _ _ (by decide), get?_set_ne _ _ (by decide),
      get?_set_ne _ _ (by decide), get?_set_self]
  · rw [get?_set_ne _ _ (by decide), get?_set_self]
  · simp only [List.mem_cons, List.not_mem_nil, or_false, not_or] at hkey
    rw [get?_set_ne _ _ hkey.2.2, get?_set_ne _ _ hkey.2.1]
    by_cases hsource : key = "run_id_source"
    · rw [hsource, get?_set_self, stamp_source]
    rw [get?_set_ne _ _ hsource]
    by_cases hrun : key = "run_id"
    · rw [hrun, get?_set_self, stamp_runId]
    · rw [get?_set_ne _ _ hrun, get?_set_ne _ _ hkey.1]

/-- An artifact whose rows cannot be read, or whose lines cannot be printed, is not rewritten. -/
theorem rewrite_raises {b8 b9 : RowResult} (h : ¬ (ReadableRows a ∧ (lines b8 b9).all out.writes = true)) :
    ∃ x, rewrite out (stamp a runId) runId b8 b9 = .error x := by
  have hrows : rowsOf (stamp a runId) = rowsOf a := by
    unfold rowsOf
    rw [stamp_other (by decide)]
  rw [← readable_iff] at h
  unfold rewrite
  rw [hrows]
  cases hrs : rowsOf a with
  | error x => exact ⟨x, rfl⟩
  | ok rs =>
    cases hk : keptRows rs with
    | error x => exact ⟨x, by simp [hk]⟩
    | ok kept =>
      have hlines : (lines b8 b9).all out.writes = false := by
        rw [← Bool.not_eq_true]
        exact fun hl => h ⟨⟨kept, rs, hrs, hk⟩, hl⟩
      exact ⟨_, by simp [hk, hlines]; rfl⟩

end Programs

/-! ## Non-interference -/

section Final

variable {R : Json.Reader} {floats : Floats} {out : Stdout} {e : HostEvidence}

/-- Where `main` returns. -/
theorem final_rewritten {a : Record} {kept : List Json} (hk : keeps a kept) {b8 b9 : RowResult}
    (hres : evaluate R floats e.log e.runId e.clientInfo = .ok (b8, b9))
    (hlines : (lines b8 b9).all out.writes = true) :
    Record.get? (final R floats out e a) "rows" = some (.arr (kept ++ verdicts b8 b9)) ∧
      Record.get? (final R floats out e a) "passed" = some (.int ((kept ++ verdicts b8 b9).countP isProven)) ∧
      Record.get? (final R floats out e a) "total" = some (.int (kept ++ verdicts b8 b9).length) ∧
      ∀ key ∉ ["rows", "passed", "total"],
        Record.get? (final R floats out e a) key = Record.get? (stamp a e.runId) key := by
  obtain ⟨d, hd, hrest⟩ := @rewrite_stamped out _ e.runId _ hk b8 b9 hlines
  have hfinal : final R floats out e a = d := by
    unfold final verify
    rw [hres]
    dsimp only
    rw [hd]
  rw [hfinal]
  exact hrest

/-- Where it raises. -/
theorem final_stamped {a : Record} {b8 b9 : RowResult}
    (h : ¬ (ReadableRows a ∧ (lines b8 b9).all out.writes = true))
    (hres : evaluate R floats e.log e.runId e.clientInfo = .ok (b8, b9)) :
    final R floats out e a = stamp a e.runId := by
  obtain ⟨x, hx⟩ := @rewrite_raises out _ e.runId b8 b9 h
  unfold final verify
  rw [hres]
  dsimp only
  rw [hx]

/-- The rewrite leaves what the stamp wrote about the sandbox's own run id. -/
theorem final_conflict {a : Record} : Record.get? (final R floats out e a) "run_id_conflict" =
    Record.get? (stamp a e.runId) "run_id_conflict" := by
  unfold final
  cases hv : verify R floats out e (stamp a e.runId) with
  | error x => rfl
  | ok d =>
    dsimp only
    unfold verify at hv
    split at hv
    · cases hv
    · rename_i b8 b9 hres
      by_cases hread : ReadableRows a ∧ (lines b8 b9).all out.writes = true
      · obtain ⟨kept, hk⟩ := readable_iff.2 hread.1
        obtain ⟨d', hd', -, -, -, hrest⟩ := @rewrite_stamped out _ e.runId _ hk b8 b9 hread.2
        rw [hd'] at hv
        cases hv
        exact hrest _ (by decide)
      · obtain ⟨x, hx⟩ := @rewrite_raises out _ e.runId b8 b9 hread
        rw [hx] at hv
        cases hv

/-- The text of a populated value is not empty. -/
theorem display_ne {v : Json} (hfloat : ∀ r finite, v = .float r finite → r ≠ "") (h : populated v = true) :
    v.display ≠ "" := by
  unfold populated at h
  simp only [Bool.not_eq_true', Bool.or_eq_false_iff, decide_eq_false_iff_not] at h
  have hopen : ∀ (p t : String), p ≠ "" → p ++ t ≠ "" := fun p t hp he => hp (String.append_eq_empty_iff.1 he).1
  cases v with
  | null => exact absurd rfl h.1
  | bool b => cases b <;> exact fun he => absurd he (by decide)
  | int n =>
    cases n with
    | ofNat n => exact Nat.repr_ne_empty
    | negSucc n => exact hopen "-" _ (by decide)
  | float r finite =>
    change (if finite then r else if r = "NaN" then "nan" else if r = "Infinity" then "inf" else "-inf") ≠ ""
    split
    · exact hfloat r finite rfl
    · split
      · decide
      · split <;> decide
  | str s => exact fun he => h.2 (congrArg Json.str he)
  | arr vs =>
    change "[" ++ _ ++ "]" ≠ ""
    rw [String.append_assoc]
    exact hopen _ _ (by decide)
  | obj kvs =>
    change "\x7b" ++ _ ++ "\x7d" ≠ ""
    rw [String.append_assoc]
    exact hopen _ _ (by decide)

/-- **E8 takes an artifact as bound only if the sandbox left the run id empty.** -/
theorem bound_unlabelled {a : Artifact} (h : AuditGate.bound (final R floats out e a.record) e.runId = true) :
    got a.record "run_id" = .null ∨ got a.record "run_id" = .str "" := by
  by_contra hne
  have hpop : populated (got a.record "run_id") = true := by
    rw [not_or] at hne
    simp [populated, hne]
  have hconflict : got (final R floats out e a.record) "run_id_conflict" =
      .str (got a.record "run_id").display := by
    unfold got
    rw [final_conflict, stamp_conflict, if_pos hpop]
    rfl
  have htext : (got a.record "run_id").display ≠ "" := by
    refine display_ne (fun r finite hv => ?_) hpop
    unfold got at hv
    cases hget : Record.get? a.record "run_id" with
    | none =>
      rw [hget] at hv
      cases hv
    | some v =>
      rw [hget] at hv
      exact a.floats "run_id" r finite (hget.trans (congrArg some hv))
  unfold AuditGate.bound AuditGate.problems at h
  rw [hconflict] at h
  simp [Json.truthy, htext] at h

/-- **No report of the client proves B9** where it is not proven without one. -/
theorem client_powerless {b8 b9 c8 c9 : RowResult}
    (h : evaluate R floats e.log e.runId (.obj []) = .ok (b8, b9)) (hb9 : b9.status ≠ "PROVEN")
    (hc : evaluate R floats e.log e.runId e.clientInfo = .ok (c8, c9)) : c9.status ≠ "PROVEN" := by
  unfold evaluate at h hc
  split at hc
  · cases hc
  rename_i recs bad hload
  rw [hload] at h
  dsimp only at h
  split at hc
  · cases hc
    simp [plain]
  rename_i hbad
  rw [if_neg hbad] at h
  split at hc
  · cases hc
    simp [plain]
  rename_i hrun
  rw [if_neg hrun] at h
  split at hc
  · cases hc
  rename_i es hes
  rw [hes] at h
  dsimp only at h
  split at hc
  · cases hc
    simp [plain]
  rename_i hne
  rw [if_neg hne] at h
  obtain ⟨ks, p, hk, hp, -, hrow⟩ := results_ok.1 hc
  obtain ⟨ks', p', hk', hp', -, hrow'⟩ := results_ok.1 h
  cases hk.symm.trans hk'
  cases hp'
  intro hproven
  -- without a report nothing is compared, and B9 would be proven as well
  obtain ⟨h1, h2, h3, h4, -⟩ := b9_proven.1 ⟨c9, hrow, hproven⟩
  obtain ⟨row, hrow'', hstatus⟩ := b9_proven.2 ⟨h1, h2, h3, h4, (rfl : noStream floats .null = .ok false)⟩
  cases hrow'.symm.trans hrow''
  exact hb9 hstatus

theorem verdicts_verdict {b8 b9 : RowResult} : (verdicts b8 b9).filter isVerdict = verdicts b8 b9 := rfl

/-- The same object with another value of `passed`. -/
def repassed (a : Artifact) : Artifact where
  record := Dict.set a.record "passed" (if Record.get? a.record "passed" = some .null then .bool true else .null)
  floats key r finite h := by
    by_cases hkey : key = "passed"
    · rw [hkey, get?_set_self] at h
      split at h <;> cases h
    · rw [get?_set_ne _ _ hkey] at h
      exact a.floats key r finite h

theorem repassed_alike (a : Artifact) : Alike a.record (repassed a).record where
  rest key hkey := by
    have hne : key ≠ "passed" := by
      rintro rfl
      exact hkey (by decide)
    exact (get?_set_ne _ _ hne).symm
  rows := by
    unfold repassed
    rw [get?_set_ne _ _ (by decide)]
    exact .inl rfl

/-- Where `main` raises, the count that the sandbox wrote stays. -/
theorem stamped_differs {a : Artifact} {b8 b9 : RowResult}
    (h : ¬ (ReadableRows a.record ∧ (lines b8 b9).all out.writes = true))
    (hres : evaluate R floats e.log e.runId e.clientInfo = .ok (b8, b9)) :
    Record.get? (final R floats out e a.record) "passed" ≠
      Record.get? (final R floats out e (repassed a).record) "passed" := by
  have h' : ¬ (ReadableRows (repassed a).record ∧ (lines b8 b9).all out.writes = true) := by
    rw [← readable_iff] at h ⊢
    rintro ⟨⟨kept, hk⟩, hlines⟩
    exact h ⟨⟨kept, (repassed_alike a).keeps.2 hk⟩, hlines⟩
  rw [final_stamped h hres, final_stamped h' hres, stamp_other (by decide), stamp_other (by decide)]
  unfold repassed
  rw [get?_set_self]
  split
  · rename_i heq
    rw [heq]
    decide
  · rename_i hne
    exact hne

/-- Artifacts that differ in nothing that the sandbox may say end up the same. -/
theorem final_alike {a a' : Record} (h : Alike a a') {kept : List Json} (hk : keeps a kept) {b8 b9 : RowResult}
    (hres : evaluate R floats e.log e.runId e.clientInfo = .ok (b8, b9))
    (hlines : (lines b8 b9).all out.writes = true) (key : String) :
    Record.get? (final R floats out e a) key = Record.get? (final R floats out e a') key := by
  obtain ⟨hrows, hpassed, htotal, hrest⟩ := @final_rewritten R floats out e _ _ hk _ _ hres hlines
  obtain ⟨hrows', hpassed', htotal', hrest'⟩ :=
    @final_rewritten R floats out _ _ _ (h.keeps.1 hk) _ _ hres hlines
  by_cases h1 : key = "rows"
  · rw [h1, hrows, hrows']
  by_cases h2 : key = "passed"
  · rw [h2, hpassed, hpassed']
  by_cases h3 : key = "total"
  · rw [h3, htotal, htotal']
  rw [hrest key (by simp [h1, h2, h3]), hrest' key (by simp [h1, h2, h3])]
  by_cases h4 : key = "run_id_source"
  · rw [h4, stamp_source, stamp_source]
  by_cases h5 : key = "run_id"
  · rw [h5, stamp_runId, stamp_runId]
  have hsame : ∀ key', key' ∉ rewritten → Record.get? a key' = Record.get? a' key' := h.rest
  by_cases h6 : key = "run_id_conflict"
  · have hgot : got a "run_id" = got a' "run_id" := by
      unfold got
      rw [hsame "run_id" (by decide)]
    rw [h6, stamp_conflict, stamp_conflict, hgot, hsame "run_id_conflict" (by decide)]
  · rw [stamp_other (by simp [h4, h5, h6]), stamp_other (by simp [h4, h5, h6])]
    exact hsame key (by simp [rewritten, h1, h2, h3, h4])

end Final

/-- A forged artifact: a row that is no object, and the sandbox's own rows B8 and B9. -/
def forged : Artifact where
  record := [("rows", .arr [.int 0, .obj [("id", .str "B8"), ("status", .str "PROVEN")],
    .obj [("id", .str "B9"), ("status", .str "PROVEN")]]), ("run_id", .null)]
  floats key r finite h := by
    simp only [Record.get?, List.lookup_cons, List.lookup_nil] at h
    split at h
    · cases h
    · split at h <;> cases h

/-- The codec of UTF-8. -/
def utf8 : Stdout := ⟨fun _ => true, fun _ _ => rfl⟩

end Stamping

end Evidence

end StrixPEP
