import StrixPEP.Gateway.Runs
import StrixPEP.Verifier.Stops

/-!
# What the verifier finds in the file of a run

* `fileRecords` — the records of a file;
* `attempted_before_requested` — as long as no handler stands between its terminal check and its
  `EFFECT_ATTEMPTED` when `CANCELLATION_REQUESTED` is appended, no effect is recorded after the
  request, and the verifier does not reject the file for one;
* `sealed_iff_closed` — `cancel_and_quiesce` reports a seal exactly where the file ends in a
  `RUN_CLOSED` record, as long as no `RUN_CLOSED` line is complete when its write fails.
-/

namespace StrixPEP

open Threads VerifyE10

/-! ## The records of a file -/

/-- The record of a line. -/
def Line.record? : Line → Option Record
  | .parsed _ (.obj record) => some record
  | _ => none

/-- The records of a file, in order. -/
def fileRecords (file : List Line) : List Record := file.filterMap Line.record?

namespace AuditLog

variable {log : AuditLog} {e : Entry} {o : Outcome}

/-- Redaction cannot make a decision that the verifier knows. -/
theorem persist_kind {k : Kind} (h : (log.persist e.fields o).kind? = some k) :
    e.decision = k.text := by
  rw [Record.kind?_eq_some, persist_decision, Option.some.injEq, Json.str.injEq] at h
  exact redact_eq (by cases k <;> decide) h

end AuditLog

theorem Entry.decision_attempted {e : Entry} (h : e.decision = Kind.attempted.text) :
    e.isAttempted = true := by
  cases e with
  | attempted => rfl
  | settled o => cases o <;> simp [decision, Settlement.text, Kind.text] at h
  | _ => simp [decision, Kind.text] at h

theorem Entry.decision_requested {e : Entry} (h : e.decision = Kind.cancelRequested.text) :
    e.isRequested = true := by
  cases e with
  | cancelRequested => rfl
  | settled o => cases o <;> simp [decision, Settlement.text, Kind.text] at h
  | _ => simp [decision, Kind.text] at h

/-! ## Effects and the request of the cancellation -/

section

variable {B : Boot} {cfg : Config Exn Cmd Cmd.Resp World}

/-- The records of the file are those it held and those of the run. -/
theorem Boot.Reachable.fileRecords (h : B.Reachable cfg) :
    fileRecords cfg.state.audit.file =
      StrixPEP.fileRecords B.audit.file ++ cfg.state.log.map (·.record) := by
  obtain ⟨rest, hf, htorn, -⟩ := h.inv.file
  have hrest : rest.filterMap Line.record? = [] := by
    rw [List.filterMap_eq_nil_iff]
    intro l hl
    obtain ⟨text, rfl⟩ := htorn l hl
    rfl
  have hlog : (cfg.state.log.map fun x => AuditLog.lineOf x.record).filterMap Line.record? =
      cfg.state.log.map (·.record) := by
    rw [List.filterMap_map]
    exact congrFun List.filterMap_eq_map cfg.state.log
  rw [hf, StrixPEP.fileRecords, List.filterMap_append, List.filterMap_append, hrest, hlog,
    List.append_nil]
  rfl

theorem Boot.Reachable.kind (h : B.Reachable cfg) {x : Written} (hx : x ∈ cfg.state.log) {k : Kind}
    (hk : x.record.kind? = some k) : x.entry.decision = k.text := by
  obtain ⟨log, o, hrec, -⟩ := h.inv.persisted x hx
  rw [hrec] at hk
  exact AuditLog.persist_kind hk

/-- **Attempts come before the request.** In a run in which no handler is between its terminal check
and its `EFFECT_ATTEMPTED` when `CANCELLATION_REQUESTED` is appended, no `EFFECT_ATTEMPTED` is
appended after it, and the verifier never rejects the file with `POST_CANCELLATION_EFFECT`. -/
theorem attempted_before_requested (h : B.Reachable cfg) (hraced : cfg.state.raced = false)
    (hboot : ∀ r ∈ fileRecords B.audit.file, r.kind? ≠ some .cancelRequested) :
    (cfg.state.log.Pairwise fun x y => x.entry.isRequested = true → y.entry.isAttempted = false) ∧
    ∀ runId res, validateHistory (fileRecords cfg.state.audit.file) runId = .ok (.rejected res) →
      res.status ≠ .postCancellationEffect := by
  have horder := h.inv.order.resolve_left (by rw [hraced]; decide)
  refine ⟨horder, fun runId res hv => validateHistory_order ?_ hv⟩
  rw [h.fileRecords]
  unfold AttemptsFirst
  rw [List.pairwise_append]
  refine ⟨?_, ?_, fun r hr y _ hk => absurd hk (hboot r hr)⟩
  · exact List.pairwise_of_forall_mem_list fun r hr y _ hk => absurd hk (hboot r hr)
  · rw [List.pairwise_map]
    refine horder.imp_of_mem fun {x y} hx hy hxy hk hatt => ?_
    have hreq := Entry.decision_requested (h.kind hx hk)
    rw [Entry.decision_attempted (h.kind hy hatt)] at hxy
    exact absurd (hxy hreq) (by decide)

theorem attempted_before_requested_replay : ∃ cfg, Replay.boot.Reachable cfg ∧
    (∃ x ∈ cfg.state.log, x.entry.isAttempted = true) ∧
    (∃ x ∈ cfg.state.log, x.entry.isRequested = true) ∧
    cfg.state.log.Pairwise fun x y => x.entry.isRequested = true → y.entry.isAttempted = false := by
  obtain ⟨cfg, hr, hp⟩ := Replay.reachable Replay.fair Replay.accept
    (List.replicate 32 2 ++ List.replicate 11 0)
    (p := fun cfg => !cfg.state.raced && cfg.state.log.any (·.entry.isAttempted) &&
      cfg.state.log.any (·.entry.isRequested)) (by decide +kernel)
  simp only [Bool.and_eq_true, Bool.not_eq_true', List.any_eq_true] at hp
  exact ⟨cfg, hr, hp.1.2, hp.2, (attempted_before_requested hr hp.1.1 nofun).1⟩

/-- The handler passes its terminal check, the canceller appends its request, the handler appends its
attempt; the run is then drained and sealed. -/
theorem attempted_after_requested : ∃ cfg, Replay.boot.Reachable cfg ∧
    cfg.state.outcome = some true ∧
    cfg.state.log.map (·.entry.decision) =
      ["AUTH_COMMITTED", "PERMIT_GRANTED", "CANCELLATION_REQUESTED", "EFFECT_ATTEMPTED",
        "EFFECT_OUTCOME_UNKNOWN", "BLOCKED_BY_POLICY", "PERMIT_RELEASED", "CANCELLATION_LINEARIZED",
        "KILL_SWITCH", "CANCELLATION_ACK", "RUN_CLOSED"] ∧
    ¬ cfg.state.log.Pairwise fun x y => x.entry.isRequested = true → y.entry.isAttempted = false := by
  obtain ⟨cfg, hr, hp⟩ := Replay.reachable Replay.fair Replay.accept
    (List.replicate 31 2 ++ List.replicate 11 0 ++ List.replicate 23 2 ++ List.replicate 12 0)
    (p := fun cfg => decide (cfg.state.outcome = some true ∧
      cfg.state.log.map (·.entry.decision) =
        ["AUTH_COMMITTED", "PERMIT_GRANTED", "CANCELLATION_REQUESTED", "EFFECT_ATTEMPTED",
          "EFFECT_OUTCOME_UNKNOWN", "BLOCKED_BY_POLICY", "PERMIT_RELEASED",
          "CANCELLATION_LINEARIZED", "KILL_SWITCH", "CANCELLATION_ACK", "RUN_CLOSED"]) &&
      decide (¬ cfg.state.log.Pairwise fun (x y : Written) =>
        x.entry.isRequested = true → y.entry.isAttempted = false)) (by decide +kernel)
  rw [Bool.and_eq_true, decide_eq_true_eq, decide_eq_true_eq] at hp
  exact ⟨cfg, hr, hp.1.1, hp.1.2, hp.2⟩

end

/-! ## The seal and the last line -/

/-- A complete `RUN_CLOSED` record. -/
def Line.Closes (l : Line) : Prop :=
  ∃ record, l.record? = some record ∧ record.get? "decision" = some (.str "RUN_CLOSED")

section

variable {B : Boot} {cfg : Config Exn Cmd Cmd.Resp World}

/-- A `RUN_CLOSED` line of the file is a write of the run. -/
theorem Boot.Reachable.closes (h : B.Reachable cfg) (hboot : ∀ l ∈ B.audit.file, ¬ l.Closes)
    {l : Line} (hl : l ∈ cfg.state.audit.file) (hc : l.Closes) :
    ∃ x ∈ cfg.state.log, ∃ seq, x.entry = .runClosed seq := by
  obtain ⟨rest, hf, htorn, -⟩ := h.inv.file
  obtain ⟨record, hrec, hd⟩ := hc
  rw [hf, List.mem_append, List.mem_append] at hl
  rcases hl with (hl | hl) | hl
  · exact absurd ⟨record, hrec, hd⟩ (hboot l hl)
  · obtain ⟨x, hx, rfl⟩ := List.mem_map.1 hl
    cases hrec
    obtain ⟨log, o, hper, -⟩ := h.inv.persisted x hx
    rw [hper] at hd
    exact ⟨x, hx, AuditLog.persist_runClosed hd⟩
  · obtain ⟨text, rfl⟩ := htorn l hl
    cases hrec

/-- **The reported seal is the last line.** `cancel_and_quiesce` reports a seal exactly where the
file ends in a complete `RUN_CLOSED` record, and without a seal there is none in the file, in every
run on a file without one in which no write of `RUN_CLOSED` fails with its line complete and no
secret occurs in the text `RUN_CLOSED`. -/
theorem sealed_iff_closed (h : B.Reachable cfg) {b : Bool} (hb : cfg.state.outcome = some b)
    (hboot : ∀ l ∈ B.audit.file, ¬ l.Closes)
    (hsecrets : ∀ s ∈ cfg.state.audit.redaction, s = "" ∨ ¬ s.toList <:+: "RUN_CLOSED".toList)
    (hfail : ∀ x ∈ cfg.state.log, (∃ seq, x.entry = .runClosed seq) → x.ok = true) :
    (b = true ↔ ∃ l, cfg.state.audit.file.getLast? = some l ∧ l.Closes) ∧
    (b = false → ∀ l ∈ cfg.state.audit.file, ¬ l.Closes) := by
  have I := h.inv
  have hout := I.outcome b hb
  have hclosed : ∀ l ∈ cfg.state.audit.file, l.Closes → b = true := by
    intro l hl hc
    obtain ⟨x, hx, hseq⟩ := h.closes hboot hl hc
    exact hout.2 ⟨x, hx, hfail x hx hseq, hseq⟩
  refine ⟨⟨fun hbt => ?_, fun ⟨l, hl, hc⟩ => hclosed l (List.mem_of_getLast? hl) hc⟩,
    fun hbf l hl hc => ?_⟩
  · obtain ⟨x, hx, hok, hseq⟩ := hout.1 hbt
    obtain ⟨⟨t, pre, k, a, hlog, -⟩, -, -, hhealthy⟩ := I.closed x hx hok hseq
    obtain ⟨rest, hf, -, hrest⟩ := I.file
    obtain ⟨log, o, hper, horder⟩ := I.persisted x hx
    refine ⟨AuditLog.lineOf x.record, ?_, x.record, rfl, ?_⟩
    · rw [hf, hrest hhealthy, hlog]
      simp
    · obtain ⟨seq, he⟩ := hseq
      rw [hper, AuditLog.persist_decision, he]
      exact congrArg (some ∘ Json.str) (redact_absent fun s hs => hsecrets s (horder s hs))
  · rw [hclosed l hl hc] at hbf
    cases hbf

theorem sealed_iff_closed_replay : ∃ cfg, Replay.boot.Reachable cfg ∧
    cfg.state.outcome = some true ∧
    ∃ l, cfg.state.audit.file.getLast? = some l ∧ l.Closes := by
  obtain ⟨cfg, hr, hp⟩ := Replay.reachable Replay.fair Replay.accept (List.replicate 16 0)
    (p := fun cfg => decide (cfg.state.outcome = some true ∧ cfg.state.audit.redaction = [] ∧
      ∀ x ∈ cfg.state.log, x.ok = true)) (by decide +kernel)
  rw [decide_eq_true_eq] at hp
  obtain ⟨hout, hred, hok⟩ := hp
  refine ⟨cfg, hr, hout, (sealed_iff_closed hr hout nofun ?_ fun x hx _ => hok x hx).1.1 rfl⟩
  rw [hred]
  exact nofun

/-- Every write succeeds but the closure's: its line is complete and `os.fsync` fails. -/
def Replay.unsynced (e : Entry) (order : List String) : Outcome :=
  match e with
  | .runClosed _ => .ioFailed "OSError" "1.5" order .whole
  | _ => .written "1.5" order

/-- The call reports no seal, and the file ends in a complete `RUN_CLOSED` record. -/
theorem unsealed_closed : ∃ cfg, Replay.boot.Reachable cfg ∧ cfg.state.outcome = some false ∧
    ∃ l, cfg.state.audit.file.getLast? = some l ∧ l.Closes := by
  obtain ⟨cfg, hr, hp⟩ := Replay.reachable Replay.fair Replay.unsynced (List.replicate 16 0)
    (p := fun cfg => decide (cfg.state.outcome = some false ∧
      (cfg.state.audit.file.getLast?.bind Line.record?).bind (fun r => Record.get? r "decision") =
        some (.str "RUN_CLOSED"))) (by decide +kernel)
  rw [decide_eq_true_eq] at hp
  obtain ⟨hout, hlast⟩ := hp
  obtain ⟨r, hr', hd⟩ := Option.bind_eq_some_iff.1 hlast
  obtain ⟨l, hl, hrec⟩ := Option.bind_eq_some_iff.1 hr'
  exact ⟨cfg, hr, hout, l, hl, r, hrec, hd⟩

end

end StrixPEP
