import StrixPEP.Evidence.Loaders
import StrixPEP.Pdp.Values
import StrixPEP.Verifier.Anchor

/-!
# The evidence auditor (`pep/audit_gate_evidence.py`)

The checks that the auditor derives from the raw audit log, and the binding of an artifact:

* `scopedRecs` — the records of the run;
* `Checks`, `checks` — what E3, E4 and E6 find in them;
* `chain`, `e7` — the integrity of the log;
* `bound` — E8, for one artifact.

A set of texts is a list that is only asked for its members.  The texts that the checks print are left out.
-/

namespace StrixPEP

namespace Evidence

/-! ## Reading a record -/

/-- `record.get(key)`. -/
def got (e : Record) (key : String) : Json := (Record.get? e key).getD .null

/-- `str(record.get(key, ""))`. -/
def textOf (e : Record) (key : String) : String := ((Record.get? e key).getD (.str "")).display

/-- `record.get("decision") == decision`. -/
def decided (e : Record) (decision : String) : Bool := got e "decision" = .str decision

/-- `str(record.get("row_id", "")) in rows`. -/
def labelled (e : Record) (rows : List String) : Bool := textOf e "row_id" ∈ rows

/-- `record.get("conn_id")`, as a condition. -/
def connected (e : Record) : Bool := (got e "conn_id").truthy

/-- `str(record["conn_id"])`, where there is one. -/
def connOf (e : Record) : String := (got e "conn_id").display

/-- `B8_ROWS`. -/
def b8Rows : List String := ["B3", "B5"]

/-- `B9_ROW`. -/
def b9Row : String := "B6"

/-- `REQUIRED_ALLOW_FIELDS`. -/
def requiredAllowFields : List String :=
  ["pin_family", "pin_ip", "canonical_host", "sni", "request_hash", "response_hash"]

/-- `is_v6`. -/
def isV6 (addr : Json) : Bool :=
  match IpAddress.parse addr.display.toList with
  | some (.v6 _ _) => true
  | _ => false

/-- `[e for e in recs if str(e.get("run_id", "")) == run_id]`. -/
def scopedRecs (recs : List Json) (runId : String) : Except PyError (List Record) :=
  (dicts recs).map fun es => es.filter fun e => textOf e "run_id" = runId

/-- `{str(c) for c in (record.get("terminated_conn_ids") or [])}`. -/
def terminated (e : Record) : Except PyError (List String) :=
  (((got e "terminated_conn_ids").orElse (.arr [])).elements).map fun cs => cs.map Json.display

/-- What one record adds to the collected texts. -/
def joined : Except PyError (List String) → Except PyError (List String) → Except PyError (List String)
  | .ok cs, .ok ds => .ok (cs ++ ds)
  | .error x, _ => .error x
  | _, .error x => .error x

/-! ## The checks of the log -/

namespace AuditGate

/-- `b8_recs`. -/
def b8Recs (es : List Record) : List Record := es.filter fun e => decided e "ALLOW" && labelled e b8Rows

/-- `b9_recs`. -/
def b9Recs (es : List Record) : List Record := es.filter fun e => labelled e [b9Row] && connected e

/-- `str(recs[-1].get("test_nonce", "")) if recs else ""`. -/
def lastNonce (recs : List Record) : String :=
  match recs.getLast? with
  | none => ""
  | some e => textOf e "test_nonce"

/-- E3. -/
def e3 (es : List Record) : Bool :=
  if (b8Recs es).isEmpty || (b9Recs es).isEmpty then false
  else if lastNonce (b8Recs es) = "" ∨ lastNonce (b9Recs es) = "" then false
  else if lastNonce (b8Recs es) ≠ lastNonce (b9Recs es) then false
  else true

/-- The loop that collects `killed`. -/
def killed : List Record → Except PyError (List String)
  | [] => .ok []
  | e :: es =>
    if decided e "KILL_SWITCH" then joined (terminated e) (killed es) else killed es

/-- `b8_valid`. -/
def b8Valid (es : List Record) : Bool :=
  match (b8Recs es).getLast? with
  | none => false
  | some r =>
    decide (got r "pin_family" = .str "ipv6") && isV6 (got r "pin_ip") &&
      requiredAllowFields.all fun f => (got r f).truthy

/-- `b4_sni` and `b4_host`: the denials of the row with this reason. -/
def b4Denials (es : List Record) (reason : String) : List Record :=
  es.filter fun e => decided e "BLOCKED_BY_POLICY" && labelled e ["B4"] && connected e &&
    reason.toList.isPrefixOf (textOf e "reason").toList

/-- `b4_denials_ok`. -/
def b4DenialsOk (es : List Record) : Bool :=
  let sni := b4Denials es "SNI_MISMATCH:"
  let host := b4Denials es "HOST_HEADER_MISMATCH:"
  let n8 := lastNonce (b8Recs es)
  !sni.isEmpty && !host.isEmpty && (decide (n8 ≠ "") && (sni ++ host).all fun e => textOf e "test_nonce" = n8)

/-- `pp18_owners`. -/
def pp18Owners (es : List Record) : List Record := es.filter fun e => labelled e ["PP18"] && connected e

/-- What the checks find. -/
structure Checks where
  e3 : Bool
  /-- `hit`. -/
  hit : List String
  b8Valid : Bool
  e4 : Bool
  pp18Hit : List String
  deriving DecidableEq, Repr

/-- E3, E4 and the part of E6 that is derived from the log. -/
def checks (recs : List Json) (runId : String) : Except PyError Checks :=
  match scopedRecs recs runId with
  | .error x => .error x
  | .ok es =>
    match killed es with
    | .error x => .error x
    | .ok ks =>
      let hit := ((b9Recs es).map connOf).filter (· ∈ ks)
      .ok ⟨e3 es, hit, b8Valid es, !hit.isEmpty && b8Valid es && b4DenialsOk es,
        ((pp18Owners es).map connOf).filter (· ∈ ks)⟩

/-- `chain_ok`: the loop of E7. -/
def chain (prev : String) : List (Json × List UInt8) → Except PyError Bool
  | [] => .ok true
  | (v, raw) :: records =>
    match v.get "prev" with
    | .error x => .error x
    | .ok p => if p = .str prev then chain (Sha256.hexdigest raw) records else .ok false

/-- E7. -/
def e7 (records : List (Json × List UInt8)) (bad : Nat) (runId : String) : Except PyError Bool :=
  match scopedRecs (records.map Prod.fst) runId with
  | .error x => .error x
  | .ok es =>
    match chain AuditLog.genesis records with
    | .error x => .error x
    | .ok ok => .ok (ok && decide (bad = 0) && !es.isEmpty && !es.any fun e => decided e "STARTUP_DEGRADED")

/-- `problems` of E8. -/
def problems (artifact : Record) (runId : String) : List String :=
  let id := got artifact "run_id"
  let source := got artifact "run_id_source"
  let conflict := got artifact "run_id_conflict"
  (if id.display = runId then [] else [s!"run_id={id.shown}"]) ++
    (if source = .str "control-plane" then [] else [s!"source={source.shown}"]) ++
    (if conflict.truthy then [s!"self_labelled={conflict.shown}"] else [])

/-- E8 takes the artifact as bound. -/
def bound (artifact : Record) (runId : String) : Bool := (problems artifact runId).isEmpty

end AuditGate

end Evidence

end StrixPEP
