import StrixPEP.Verifier.AnchorBinding
import StrixPEP.Verifier.RunGrammar
import StrixPEP.Audit.Recovery

/-!
# Issuing an anchor and verifying it

`build_anchor` and `verify` compute the facts of the log and the payload of the tag each on its own.
On a log that `AuditLog` wrote and whose history is valid they agree, and the anchor survives
`write_anchor` and `json.load`.

Principal result: `anchor_round_trip` — the anchor is issued, it verifies, and it does not verify
for another run id, commit or key id, nor with a changed field.
-/

namespace StrixPEP

namespace E10Anchor

/-- The content of the file of `write_anchor`. -/
def writeAnchor (anchor : Record) : List UInt8 := (Json.dumps (.obj anchor)).toUTF8.toList ++ [10]

/-- The payload does not depend on the order of the fields. -/
theorem canonicalPayload_readBack {anchor : Record} (hn : (anchor.map Prod.fst).Nodup) :
    canonicalPayload (readBack anchor) = canonicalPayload anchor := by
  let p : String × Json → Bool := fun e => decide (e.1 ≠ "authentication_tag")
  have hfilter : (Json.canonFields anchor).filter p = Json.canonFields (anchor.filter p) := by
    rw [Json.canonFields_eq, Json.canonFields_eq, List.filter_map]
    rfl
  have hperm : ((readBack anchor).filter p).Perm (Json.canonFields (anchor.filter p)) := by
    rw [← hfilter]
    exact (Json.sortEntries_perm _).filter p
  have hn' : (((readBack anchor).filter p).map Prod.fst).Nodup := by
    refine ((List.filter_sublist).map Prod.fst).nodup ?_
    exact Json.canon_nodup hn
  have hcanon : Json.dumps (.obj (Json.canonFields (anchor.filter p))) =
      Json.dumps (.obj (anchor.filter p)) := by
    rw [← Json.dumps_canon (.obj (anchor.filter p)), Json.canon]
    refine (Json.dumps_perm ?_ (Json.sortEntries_perm _).symm)
    rw [← hfilter]
    refine ((List.filter_sublist).map Prod.fst).nodup ?_
    rw [Json.canonFields_eq, List.map_map]
    exact hn
  show (Json.dumps (.obj ((readBack anchor).filter p))).toUTF8.toList = _
  rw [Json.dumps_perm hn' hperm, hcanon]
  rfl

/-- The loop of `audit_facts` on a chain. -/
theorem factsLoop_linked {R : Json.Reader} {lineNo count : Nat} {tail : String}
    {last : Option Record} {lines : List (List UInt8)} {records : List Record}
    (h : Linked R tail (Lines.records lines))
    (hrec : List.Forall₂ (VerifyE10.IsRecord R) (Lines.records lines) records) :
    factsLoop R lineNo count tail last lines =
      .ok (count + records.length, chainTail tail (Lines.records lines), records.getLast?.or last) := by
  induction lines generalizing lineNo count tail last records with
  | nil =>
    cases hrec
    rfl
  | cons raw lines ih =>
    rw [Lines.records_cons, Lines.records_singleton] at h hrec ⊢
    simp only [factsLoop]
    by_cases hblank : Lines.strip raw = []
    · rw [if_pos hblank, List.nil_append] at h hrec
      rw [if_pos hblank, if_pos hblank, List.nil_append]
      exact ih h hrec
    · rw [if_neg hblank, List.singleton_append] at h hrec
      rw [if_neg hblank, if_neg hblank, List.singleton_append]
      cases hrec with
      | @cons _ record _ records hr hrest =>
        obtain ⟨record', hr', hprev⟩ := linkOf_eq_some.1 h.1
        unfold VerifyE10.IsRecord at hr
        rw [hr] at hr'
        cases hr'
        rw [hr]
        simp only
        rw [if_pos hprev, ih h.2 hrest, List.length_cons]
        congr 2
        · omega
        · congr 1
          cases records with
          | nil => rfl
          | cons x xs =>
            rw [List.getLast?_cons_cons]
            cases hl : (x :: xs).getLast? with
            | none => simp at hl
            | some y => rfl

/-- `audit_facts` on a file that `_load_and_verify` reads and that has no carriage return. -/
theorem auditFacts_loaded {R : Json.Reader} {file : List UInt8} {records : List Record}
    (h : VerifyE10.loadLoop R 1 AuditLog.genesis (Lines.fileLines file) = .ok (.ok records))
    (h13 : (13 : UInt8) ∉ file) :
    auditFacts R file = .ok ⟨records.length, file.length,
      chainTail AuditLog.genesis (Lines.records (Lines.fileLines file)), records.getLast?⟩ := by
  obtain ⟨hblank, hlink, hrec⟩ := VerifyE10.loadLoop_ok h
  have hsame : Lines.records (Lines.splitLines file) = Lines.records (Lines.fileLines file) := by
    refine Lines.records_splitLines ?_
    intro l hl hm
    exact h13 (Lines.mem_of_mem_splitOn hl (Lines.mem_of_mem_strip hm))
  rw [← Lines.records_eq_map hblank] at hlink hrec
  unfold auditFacts
  rw [← hsame] at hlink hrec
  rw [factsLoop_linked hlink hrec, hsame]
  simp

end E10Anchor

namespace VerifyE10

/-! ## The closing record -/

/-- What a valid history says of its last record. -/
structure ClosedBy (records : List Record) (runId : String) (closure : Record) (seq : Int) : Prop where
  last : records.getLast? = some closure
  decision : closure.get? "decision" = some (.str "RUN_CLOSED")
  runId : closure.get? "run_id" = some (.str runId)
  schema : closure.get? "closure_schema" = some (.str E10Anchor.runCloseSchema)
  state : closure.get? "closure_state" = some (.str "CLOSED")
  sequence : closure.get? "closure_sequence" = some (.int seq)

/-- The closure of the scan is the last record. -/
theorem scan_closure {records : List Record} {s : Scan} (h : Accepted records s) :
    s.runState = .closed → s.closure.isSome = true ∧ s.closure = records.getLast? := by
  refine scan_induct (P := fun seen s =>
    s.runState = .closed → s.closure.isSome = true ∧ s.closure = seen.getLast?)
    (W := fun _ => True) nofun ?_ (fun _ _ => trivial) h.scanned
  intro seen s r s' _ _ hstep
  cases hstep with
  | runClosed _ _ _ _ _ => exact fun _ => ⟨rfl, by rw [List.getLast?_concat]⟩
  | attempt _ hrun _ _ _ =>
    intro hc
    rcases hrun with hrun | ⟨-, hrun | hrun⟩
    all_goals
      rw [hc] at hrun
      cases hrun
  | blockedByPolicy _ hrun _ =>
    intro hc
    rcases hrun with hrun | hrun | hrun
    all_goals
      rw [hc] at hrun
      cases hrun
  | startupDegraded _ hrun _ _ =>
    intro hc
    rw [hc] at hrun
    cases hrun
  | startup _ hrun _ _ =>
    intro hc
    rw [hc] at hrun
    cases hrun
  | killSwitch _ hrun _ _ _ _ _ _ _ _ _ _ _ =>
    intro hc
    rw [hc] at hrun
    cases hrun
  | startupFailed _ _ _ _ => nofun
  | cancelRequested _ _ => nofun
  | cancelLinearized _ _ _ _ _ _ _ _ _ _ => nofun
  | cancelAck _ _ _ _ _ _ => nofun
  | cancelDrainTimeout _ _ _ => nofun

theorem accepted_runState {records : List Record} {s : Scan} (h : Accepted records s) :
    s.runState = .closed := by
  rcases h.ended with hrun | hrun
  · cases accepted_phase h with
    | failed _ hatt => exact absurd hatt h.nonempty
    | _ => simp_all
  · exact hrun

/-- The scan behind a valid history. -/
theorem valid_scan {records : List Record} {runId : String} {counts : Counts}
    {closure : Option Record} {disposition : Option Kind}
    (h : validateHistory records runId = .ok (.localHistoryValid counts closure disposition)) :
    runId ≠ "" ∧ (∀ r ∈ records, r.get? "run_id" = some (.str runId)) ∧
      ∃ s, Accepted records s ∧ closure = s.closure := by
  have hcheck : historyCheck records runId = .ok (.localHistoryValid counts closure disposition) := by
    unfold validateHistory at h
    split at h
    · rename_i r hr
      cases h
      exact hr
    · cases h
    · cases h
  unfold historyCheck at hcheck
  simp only [bind_ok, rejectIf_ok] at hcheck
  obtain ⟨_, hid, _, -, _, hrec, s, hscan, hend⟩ := hcheck
  obtain ⟨h1, h2, h3, h4, h5, h6⟩ := conclude_ok hend
  have hacc : Accepted records s :=
    ⟨fun r hr => (checkRecords_ok hrec r hr).2, hscan, h1, h2, h3, h4, h5, h6⟩
  refine ⟨?_, fun r hr => (checkRecords_ok hrec r hr).1, s, hacc, ?_⟩
  · rintro rfl
    cases hid
  · unfold conclude at hend
    rw [h2, h3, h4, accepted_runState hacc] at hend
    split at hend
    · cases hend
    simp only [List.isEmpty_nil, Bool.not_true, Bool.false_eq_true, if_false] at hend
    split at hend
    · cases hend
    · cases hend
      rfl

/-- **A valid history is closed by its last record.** -/
theorem valid_closed {records : List Record} {runId : String} {counts : Counts}
    {closure : Option Record} {disposition : Option Kind}
    (h : validateHistory records runId = .ok (.localHistoryValid counts closure disposition)) :
    runId ≠ "" ∧ ∃ close seq, closure = some close ∧ ClosedBy records runId close seq := by
  obtain ⟨hne, hids, s, hacc, rfl⟩ := valid_scan h
  refine ⟨hne, ?_⟩
  obtain ⟨w, request, lin, kill, ack, close, hclosed⟩ := accepted_closed hacc
  have hlast : records.getLast? = some close := by
    rw [hclosed.split]
    simp
  have hmem := List.mem_of_getLast? hlast
  have hbind := hclosed.close
  obtain ⟨v, hseq, -⟩ := differ_false.1
    (hbind (differ close "closure_sequence" lin "lifecycle_seq") (by simp [closureBindings]))
  obtain ⟨k, hwf⟩ := hacc.schema close hmem
  obtain ⟨seq, rfl⟩ : ∃ n, v = .int n := by
    have := hwf.ints "closure_sequence" (by decide) v hseq
    cases v with
    | int n => exact ⟨n, rfl⟩
    | _ => cases this
  refine ⟨close, seq, ?_, hlast, ?_, hids close hmem, ?_, ?_, hseq⟩
  · rw [(scan_closure hacc (accepted_runState hacc)).2, hlast]
  · exact Record.kind?_eq_some.1 hclosed.closeKind
  · exact differFrom_false.1 (hbind _ (by simp [closureBindings]))
  · exact differFrom_false.1 (hbind _ (by simp [closureBindings]))

/-! ## From the pieces to `PROVEN` -/

/-- Every check of `verify` passes. -/
structure Passes (I : Interp) (args : Args) (files : Files) (audit : List UInt8) (anchor : Record)
    (key : List UInt8) (closure : Record) (facts : E10Anchor.Facts) (seq state : Json) : Prop where
  commit : E10Anchor.commit args.expectedSourceCommit = true
  keyIdGiven : args.expectedAuthorityKeyId ≠ ""
  anchorPath : args.anchorPath ≠ ""
  keyPath : args.trustedKeyPath ≠ ""
  certifying : args.nonCertifyingFixture = false
  auditFile : files.audit = .content audit
  keyFile : files.key = .content key
  anchorFile : loadAnchor I files.anchor = .ok (.ok (.obj anchor))
  keyLength : 32 ≤ key.length
  load : ∃ records counts disposition,
    loadLoop I.toReader 1 AuditLog.genesis (Lines.fileLines audit) = .ok (.ok records) ∧
      validateHistory records args.runId =
        .ok (.localHistoryValid counts (some closure) disposition)
  fields : checkAnchorFields I (.obj anchor) = .ok none
  schema : anchor.get? "schema" = some (.str E10Anchor.anchorSchema)
  role : anchor.get? "authority_role" = some (.str E10Anchor.authorityRole)
  algorithm : anchor.get? "mac_algorithm" = some (.str E10Anchor.macAlgorithm)
  tag : ∃ tag, anchor.get? "authentication_tag" = some tag ∧
    compareDigest I tag (Sha256.hmacHexdigest key (E10Anchor.canonicalPayload anchor)) = .ok true
  keyId : anchor.get? "authority_key_id" = some (.str args.expectedAuthorityKeyId)
  factsEq : E10Anchor.auditFacts I.toReader audit = .ok facts
  closureSequence : closure.get? "closure_sequence" = some seq
  closureState : closure.get? "closure_state" = some state
  compare : compareFields I anchor (comparisons args facts seq state) = .ok none

/-- The result of a call that certifies. -/
def provenResult (counts : Counts) : Verdict :=
  .result .proven "state machines and authenticated closed range match" (some counts)
    (some "E10_ANCHORED_LOCAL_VERIFICATION_PASS")

theorem commit_nonempty {s : String} (h : E10Anchor.commit s = true) : s.isEmpty = false := by
  cases hs : s.isEmpty with
  | false => rfl
  | true =>
    rw [String.isEmpty_iff] at hs
    rw [hs] at h
    revert h
    decide

theorem Passes.proves {I : Interp} {args : Args} {files : Files} {audit : List UInt8}
    {anchor : Record} {key : List UInt8} {closure : Record} {facts : E10Anchor.Facts}
    {seq state : Json} (h : Passes I args files audit anchor key closure facts seq state) :
    Proves I args files := by
  obtain ⟨records, counts, disposition, hload, hhist⟩ := h.load
  obtain ⟨tag, htag, hdigest⟩ := h.tag
  have hbind : bindFacts I args audit anchor counts (some closure) = .ok (provenResult counts) := by
    unfold bindFacts
    refine Except.bind_eq_ok.2 ⟨facts, h.factsEq, Except.bind_eq_ok.2 ⟨closure, rfl, ?_⟩⟩
    refine Except.bind_eq_ok.2 ⟨seq, Record.item_ok.2 h.closureSequence, ?_⟩
    refine Except.bind_eq_ok.2 ⟨state, Record.item_ok.2 h.closureState, ?_⟩
    refine Except.bind_eq_ok.2 ⟨none, h.compare, ?_⟩
    simp only [h.certifying]
    rfl
  have hanchor : checkAnchor I args audit (.obj anchor) key counts (some closure) = .ok (provenResult counts) := by
    unfold checkAnchor
    rw [if_neg (Nat.not_lt.2 h.keyLength)]
    refine Except.bind_eq_ok.2 ⟨none, h.fields, Except.bind_eq_ok.2 ⟨anchor, rfl, ?_⟩⟩
    refine Except.bind_eq_ok.2 ⟨false, anyOf_false.2 ?_, ?_⟩
    · intro x hx
      simp only [List.mem_cons, List.not_mem_nil, or_false] at hx
      rcases hx with rfl | rfl | rfl
      · exact differFrom_false.2 h.schema
      · exact differFrom_false.2 h.role
      · exact differFrom_false.2 h.algorithm
    · refine Except.bind_eq_ok.2 ⟨tag, Record.item_ok.2 htag, Except.bind_eq_ok.2 ⟨true, hdigest, ?_⟩⟩
      exact Except.bind_eq_ok.2 ⟨false, differFrom_false.2 h.keyId, hbind⟩
  have hcertify : certify I args files audit counts (some closure) = .ok (provenResult counts) := by
    unfold certify
    have hkey : args.expectedAuthorityKeyId.isEmpty = false := by
      simpa [String.isEmpty_iff] using h.keyIdGiven
    have hpath : args.anchorPath.isEmpty = false := by
      simpa [String.isEmpty_iff] using h.anchorPath
    have hkpath : args.trustedKeyPath.isEmpty = false := by
      simpa [String.isEmpty_iff] using h.keyPath
    rw [commit_nonempty h.commit, h.commit, hkey, hpath, hkpath]
    refine Except.bind_eq_ok.2 ⟨_, h.anchorFile, ?_⟩
    rw [h.keyFile]
    exact Except.bind_eq_ok.2 ⟨_, rfl, hanchor⟩
  have hverify : verify I args files = .ok (provenResult counts) := by
    unfold verify
    rw [h.auditFile]
    exact Except.bind_eq_ok.2 ⟨_, hload, Except.bind_eq_ok.2 ⟨_, hhist, hcertify⟩⟩
  exact ⟨_, _, _, hverify⟩

/-! ## A log of `AuditLog` -/

theorem return_notMem_lineBytes {R : Json.Reader} {r : Record} (h : Writable R r) :
    (13 : UInt8) ∉ lineBytes r := by
  intro hm
  have := (lineBytes_spec h).1 _ hm
  revert this
  decide

theorem return_notMem_render {R : Json.Reader} {records : List Record}
    (hw : ∀ r ∈ records, Writable R r) : (13 : UInt8) ∉ render records := by
  intro hm
  obtain ⟨r, hr, hb⟩ := List.mem_flatMap.1 hm
  rcases List.mem_append.1 hb with hb | hb
  · exact return_notMem_lineBytes (hw r hr) hb
  · exact absurd (List.mem_singleton.1 hb) (by decide)

theorem loaded_eq {R : Json.Reader} {written records : List Record}
    (hw : ∀ r ∈ written, Writable R r) {file : List UInt8} (h : AuditFile.Holds file written)
    (hrec : List.Forall₂ (IsRecord R) ((Lines.fileLines file).map Lines.strip) records) :
    records = written.map readBack := by
  rw [h] at hrec
  clear h
  induction written generalizing records with
  | nil =>
    cases hrec
    rfl
  | cons r written ih =>
    cases hrec with
    | cons hr hrest =>
      have hwr := hw r List.mem_cons_self
      unfold IsRecord at hr
      rw [strip_lineBytes hwr, loads_lineBytes hwr] at hr
      cases hr
      rw [List.map_cons, ih (fun x hx => hw x (List.mem_cons_of_mem _ hx)) hrest]

/-- A log of a run that `_load_and_verify` reads: its records are written records, read back. -/
theorem run_loaded {R : Json.Reader} {runId : String} {cs : List Call} {es : List Ending} {t : Sink}
    (hcs : ∀ c ∈ cs, c.Readable R) (hrun : (Sink.fresh runId).run cs = some (es, t))
    {records : List Record}
    (hload : loadLoop R 1 AuditLog.genesis (Lines.fileLines t.bytes) = .ok (.ok records)) :
    ∃ written : List Record, (∀ r ∈ written, Writable R r) ∧ records = written.map readBack ∧
      (13 : UInt8) ∉ t.bytes := by
  obtain ⟨-, hlink, hrec⟩ := loadLoop_ok hload
  obtain ⟨pre, seg, horigin, hfile, hseg⟩ := cut_cases hrun List.prefix_rfl
  rw [hfile] at hlink hrec ⊢
  have hw : ∀ r ∈ pre, Writable R r := fun r hr => (horigin r hr).writable hcs
  rcases hseg with rfl | ⟨r, hr, hne, hpre⟩
  · rw [List.append_nil] at hrec ⊢
    exact ⟨pre, hw, loaded_eq hw (AuditFile.holds_render hw) hrec, return_notMem_render hw⟩
  have hrw := hr.writable hcs
  by_cases hwhole : seg = lineBytes r
  · rw [hwhole] at hrec ⊢
    have hw' := writable_concat hw hrw
    refine ⟨pre ++ [r], hw', loaded_eq hw' (AuditFile.holds_unterminated hw hrw) hrec, ?_⟩
    rw [List.mem_append, not_or]
    exact ⟨return_notMem_render hw, return_notMem_lineBytes hrw⟩
  · -- a cut line is no record
    rw [AuditFile.fileLines_torn hw hrw hpre hne, List.map_append] at hlink
    obtain ⟨record, hload⟩ :=
      isRecord_of_linked hlink (List.mem_append_right _ (List.mem_singleton.2 rfl))
    unfold IsRecord at hload
    rw [AuditFile.loads_strip_cut hrw hpre hne hwhole] at hload
    cases hload

/-! ## The anchor -/

end VerifyE10

namespace E10Anchor

/-- The anchor with its tag. -/
def signedAnchor (facts : Facts) (close : Record) (runId sourceCommit : String) (key : List UInt8)
    (keyId issuedAt : String) : Record :=
  let anchor := unsignedAnchor facts close runId sourceCommit keyId issuedAt
  anchor ++ [("authentication_tag", .str (Sha256.hmacHexdigest key (canonicalPayload anchor)))]

/-- `issued_at or time.strftime(...)`. -/
def issuedTime (issuedAt : Option String) (now : String) : String :=
  match issuedAt with
  | some t => if t.isEmpty then now else t
  | none => now

section

variable {facts : Facts} {close : Record} {runId sourceCommit keyId issued : String}
  {key : List UInt8}

theorem signedAnchor_keys : (signedAnchor facts close runId sourceCommit key keyId issued).map Prod.fst =
    VerifyE10.mandatory := rfl

theorem signedAnchor_nodup :
    ((signedAnchor facts close runId sourceCommit key keyId issued).map Prod.fst).Nodup := by
  rw [signedAnchor_keys]
  decide

/-- The payload of the tag is that of the whole anchor. -/
theorem canonicalPayload_signed :
    canonicalPayload (signedAnchor facts close runId sourceCommit key keyId issued) =
      canonicalPayload (unsignedAnchor facts close runId sourceCommit keyId issued) := by
  unfold canonicalPayload signedAnchor
  rw [List.filter_append]
  simp

end

/-- `build_anchor` on a closed log. -/
theorem buildAnchor_closed {R : Json.Reader} {file : List UInt8} {facts : Facts}
    {records : List Record} {close : Record} {seq : Int} {runId sourceCommit keyId now : String}
    {key : List UInt8} {issuedAt : Option String} (hfacts : auditFacts R file = .ok facts)
    (hlast : facts.lastRecord = records.getLast?) (hclosed : VerifyE10.ClosedBy records runId close seq)
    (hne : runId ≠ "") (hcommit : commit sourceCommit = true) (hkey : 32 ≤ key.length)
    (hid : keyId ≠ "") :
    buildAnchor R file runId sourceCommit key keyId issuedAt now =
      .ok (signedAnchor facts close runId sourceCommit key keyId (issuedTime issuedAt now)) := by
  have hrun : runId.isEmpty = false := by simpa [String.isEmpty_iff] using hne
  have hid' : keyId.isEmpty = false := by simpa [String.isEmpty_iff] using hid
  have hclose : facts.lastRecord.getD [] = close := by rw [hlast, hclosed.last, Option.getD_some]
  unfold buildAnchor
  rw [hrun, hcommit, hid', hfacts]
  simp only [Bool.false_eq_true, if_false, Bool.not_true, Nat.not_lt.2 hkey, hclose]
  rw [hclosed.decision, hclosed.runId, hclosed.schema]
  simp only [ne_eq, not_true_eq_false, if_false]
  rfl

theorem proper_int {R : Json.Reader} {n : Nat} (h : n < 10 ^ 20) : Json.Proper R (.int n) := by
  rw [Json.Proper, Int.natAbs_natCast]
  have := (Nat.length_toDigits_le_iff (b := 10) (n := n) (k := 20) (by decide) (by decide)).2 h
  unfold Json.maxDigits
  omega

/-- A text or a number. -/
def Flat : Json → Prop
  | .str _ | .int _ => True
  | _ => False

theorem Flat.canon_eq {v w : Json} (h : Flat v) (he : Json.canon w = v) : w = v := by
  cases w with
  | arr xs =>
    rw [Json.canon] at he
    rw [← he] at h
    exact h.elim
  | obj kvs =>
    rw [Json.canon] at he
    rw [← he] at h
    exact h.elim
  | _ => exact he

theorem Flat.nesting {v : Json} (h : Flat v) : Json.nesting v = 0 := by
  cases v with
  | str s => rfl
  | int n => rfl
  | _ => exact h.elim

section

variable {R : Json.Reader} {facts : Facts} {close : Record} {seq : Int}
  {runId sourceCommit keyId issued : String} {key : List UInt8}
  (hseq : close.get? "closure_sequence" = some (.int seq))
  (hstate : close.get? "closure_state" = some (.str "CLOSED"))

include hseq hstate

/-- The values of an anchor. -/
theorem mem_signedAnchor {e : String × Json}
    (he : e ∈ signedAnchor facts close runId sourceCommit key keyId issued) :
    (∃ s, e.2 = .str s) ∨ e.2 = .int facts.recordCount ∨ e.2 = .int facts.byteLength ∨
      e.2 = .int seq := by
  unfold signedAnchor unsignedAnchor at he
  rw [hseq, hstate] at he
  simp only [List.cons_append, List.nil_append, List.mem_cons, List.not_mem_nil, or_false,
    Option.getD_some] at he
  rcases he with rfl | rfl | rfl | rfl | rfl | rfl | rfl | rfl | rfl | rfl | rfl | rfl | rfl
  case inr.inr.inr.inr.inr.inr.inl => exact Or.inr (Or.inl rfl)
  case inr.inr.inr.inr.inr.inr.inr.inl => exact Or.inr (Or.inr (Or.inl rfl))
  case inr.inr.inr.inr.inr.inr.inr.inr.inr.inl => exact Or.inr (Or.inr (Or.inr rfl))
  all_goals exact Or.inl ⟨_, rfl⟩

theorem flat_signedAnchor {e : String × Json}
    (he : e ∈ signedAnchor facts close runId sourceCommit key keyId issued) : Flat e.2 := by
  rcases mem_signedAnchor hseq hstate he with ⟨s, h⟩ | h | h | h
  all_goals
    rw [h]
    trivial

/-- The anchor can be written and read back. -/
theorem signedAnchor_writable (hproper : Json.Proper R (.int seq))
    (hcount : facts.recordCount < 10 ^ 20) (hlength : facts.byteLength < 10 ^ 20)
    (hdepth : 1 ≤ R.depth) :
    Writable R (signedAnchor facts close runId sourceCommit key keyId issued) := by
  refine ⟨?_, ?_⟩
  · rw [Json.Proper, Json.properFields_iff]
    refine ⟨?_, signedAnchor_nodup⟩
    intro e he
    rcases mem_signedAnchor hseq hstate he with ⟨s, h⟩ | h | h | h
    · rw [h]
      trivial
    · rw [h]
      exact proper_int hcount
    · rw [h]
      exact proper_int hlength
    · rw [h]
      exact hproper
  · have hflat : Json.nestingFields (signedAnchor facts close runId sourceCommit key keyId issued) ≤ 0 := by
      rw [Json.nestingFields_le]
      intro e he
      rw [(flat_signedAnchor hseq hstate he).nesting]
    rw [Json.nesting]
    omega

end

end E10Anchor

namespace VerifyE10

/-- The fields of an anchor in any order. -/
theorem checkAnchorFields_of_perm {I : Interp} {anchor : Record}
    (h : (anchor.map Prod.fst).Perm mandatory) : checkAnchorFields I (.obj anchor) = .ok none := by
  have hmem : ∀ f, Json.str f ∈ anchor.map (fun e => Json.str e.1) ↔ f ∈ mandatory := by
    intro f
    rw [← h.mem_iff]
    constructor
    · intro hf
      obtain ⟨e, he, hf⟩ := List.mem_map.1 hf
      exact List.mem_map.2 ⟨e, he, Json.str.inj hf⟩
    · intro hf
      obtain ⟨e, he, rfl⟩ := List.mem_map.1 hf
      exact List.mem_map.2 ⟨e, he, rfl⟩
  have hmissing : mandatory.filter (fun f => Json.str f ∉ anchor.map fun e => Json.str e.1) = [] := by
    rw [List.filter_eq_nil_iff]
    intro f hf
    rw [decide_eq_true_eq, not_not]
    exact (hmem f).2 hf
  have hextra : (anchor.map fun e => Json.str e.1).filter (fun v => v ∉ mandatory.map Json.str) = [] := by
    rw [List.filter_eq_nil_iff]
    intro v hv
    obtain ⟨e, he, rfl⟩ := List.mem_map.1 hv
    rw [decide_eq_true_eq, not_not]
    exact List.mem_map_of_mem ((hmem e.1).1 (List.mem_map.2 ⟨e, he, rfl⟩))
  unfold checkAnchorFields fieldSet
  simp only
  rw [if_pos ⟨hmissing, hextra⟩]

theorem compareFields_of {I : Interp} {anchor : Record}
    {fields : List (String × Json × VerifyStatus)}
    (h : ∀ e ∈ fields, ∃ v, anchor.get? e.1 = some v ∧ equalsValue I v e.2.1 = true) :
    compareFields I anchor fields = .ok none := by
  induction fields with
  | nil => rfl
  | cons e fields ih =>
    obtain ⟨field, expected, status⟩ := e
    obtain ⟨v, hv, heq⟩ := h _ List.mem_cons_self
    simp only [compareFields]
    rw [Record.item_ok.2 hv]
    simp only
    rw [if_pos heq]
    exact ih fun e he => h e (List.mem_cons_of_mem _ he)

/-- A hexadecimal digest is compared as it is. -/
theorem compareDigest_hex {I : Interp} {tag expected : String} (h : ∀ c ∈ tag.toList, Sha256.IsHex c) :
    compareDigest I (.str tag) expected = .ok (decide (tag = expected)) := by
  have hascii : strAscii I (.str tag) = true := by
    show (tag.toList.all fun c => decide (c.toNat < 128)) = true
    rw [List.all_eq_true]
    intro c hc
    have := h c hc
    unfold Sha256.IsHex at this
    exact decide_eq_true (by omega)
  unfold compareDigest
  rw [if_pos hascii]
  rfl

/-- An honest log: written by `AuditLog`, read by `_load_and_verify`, with a valid history. -/
structure HonestLog (R : Json.Reader) (runId : String) (file : List UInt8) (records : List Record)
    (counts : Counts) (close : Record) (seq : Int) (disposition : Option Kind) : Prop where
  load : loadLoop R 1 AuditLog.genesis (Lines.fileLines file) = .ok (.ok records)
  history : validateHistory records runId = .ok (.localHistoryValid counts (some close) disposition)
  named : runId ≠ ""
  closed : ClosedBy records runId close seq
  sequence : Json.Proper R (.int seq)
  depth : 1 ≤ R.depth
  noReturn : (13 : UInt8) ∉ file
  count : records.length < 10 ^ 20
  size : file.length < 10 ^ 20

theorem Writable_int {R : Json.Reader} {r : Record} (h : Writable R r) {k : String} {n : Int}
    (hk : Record.get? (readBack r) k = some (.int n)) : Json.Proper R (.int n) := by
  rw [get?_readBack h.nodup, Option.map_eq_some_iff] at hk
  obtain ⟨v, hv, he⟩ := hk
  obtain rfl : v = .int n := E10Anchor.Flat.canon_eq trivial he
  have hp := h.1
  rw [Json.Proper, Json.properFields_iff] at hp
  exact hp.1 _ (Dict.mem_of_lookup hv)

/-- **The log of a run is honest.** -/
theorem honestLog {R : Json.Reader} {logId : String} {cs : List Call} {es : List Ending} {t : Sink}
    (hcs : ∀ c ∈ cs, c.Readable R) (hrun : (Sink.fresh logId).run cs = some (es, t))
    (hsize : t.bytes.length < 2 ^ 63) {records : List Record}
    (hload : loadAndVerify R (.content t.bytes) = .ok (.ok records)) {runId : String}
    (hvalid : accepts records runId = true) :
    ∃ counts close seq disposition,
      HonestLog R runId t.bytes records counts close seq disposition := by
  obtain ⟨counts, closure, disposition, hhist⟩ : ∃ counts closure disposition,
      validateHistory records runId = .ok (.localHistoryValid counts closure disposition) := by
    unfold accepts at hvalid
    split at hvalid
    · rename_i counts closure disposition h
      exact ⟨counts, closure, disposition, h⟩
    · cases hvalid
  obtain ⟨hne, close, seq, rfl, hclosed⟩ := valid_closed hhist
  obtain ⟨written, hw, hrec, h13⟩ := run_loaded hcs hrun hload
  obtain ⟨w, hwmem, hclose⟩ : ∃ w ∈ written, readBack w = close := by
    have hlast := hclosed.last
    rw [hrec, List.getLast?_map, Option.map_eq_some_iff] at hlast
    obtain ⟨w, hw, he⟩ := hlast
    exact ⟨w, List.mem_of_getLast? hw, he⟩
  have hseq := hclosed.sequence
  rw [← hclose] at hseq
  refine ⟨counts, close, seq, disposition, hload, hhist, hne, hclosed,
    Writable_int (hw w hwmem) hseq, ?_, h13, ?_, ?_⟩
  · have := (hw w hwmem).2
    rw [Json.nesting] at this
    omega
  · obtain ⟨-, -, hall⟩ := loadLoop_ok hload
    have hlen := hall.length_eq
    rw [List.length_map] at hlen
    have := Lines.length_fileLines_le t.bytes
    omega
  · omega

/-- The files of a call: the log, the anchor as `write_anchor` writes it, and the key. -/
def filesOf (file : List UInt8) (anchor : Record) (key : List UInt8) : Files :=
  ⟨.content file, .content (E10Anchor.writeAnchor anchor), .content key⟩

theorem loads_writeAnchor {R : Json.Reader} {anchor : Record} (h : Writable R anchor) :
    Json.loads R (E10Anchor.writeAnchor anchor) = .ok (.obj (readBack anchor)) :=
  Json.loads_dumps_feed h.1 h.2

theorem get?_readBack_flat {R : Json.Reader} {r : Record} (h : Writable R r) {k : String} {v : Json}
    (hv : Record.get? r k = some v) (hflat : E10Anchor.Flat v) :
    Record.get? (readBack r) k = some v := by
  rw [get?_readBack h.nodup, hv, Option.map_some]
  cases v with
  | str s => rfl
  | int n => rfl
  | _ => exact hflat.elim

section

variable {I : Interp} {args : Args} {file : List UInt8} {records : List Record} {counts : Counts}
  {close : Record} {seq : Int} {disposition : Option Kind} {key : List UInt8} {issued : String}
  {facts : E10Anchor.Facts} {anchor : Record}
  (h : HonestLog I.toReader args.runId file records counts close seq disposition)
  (hfacts : E10Anchor.auditFacts I.toReader file = .ok facts)
  (ha : anchor = E10Anchor.signedAnchor facts close args.runId args.expectedSourceCommit key
    args.expectedAuthorityKeyId issued)
  (hw : Writable I.toReader anchor)

include h ha hw

/-- The comparisons with the anchor pass. -/
theorem HonestLog.compare :
    compareFields I (readBack anchor) (comparisons args facts (.int seq) (.str "CLOSED")) =
      .ok none := by
  have hseq : Record.get? anchor "closure_sequence" = some (.int seq) := by
    rw [ha, ← h.closed.sequence]
    show some ((Record.get? close "closure_sequence").getD .null) = _
    rw [h.closed.sequence, Option.getD_some]
  have hstate : Record.get? anchor "closure_state" = some (.str "CLOSED") := by
    rw [ha, ← h.closed.state]
    show some ((Record.get? close "closure_state").getD .null) = _
    rw [h.closed.state, Option.getD_some]
  have hint : ∀ n : Int, equalsValue I (.int n) (.int n) = true := fun n => decide_eq_true rfl
  have hstr : ∀ s : String, equalsValue I (.str s) (.str s) = true := fun s => decide_eq_true rfl
  refine compareFields_of ?_
  intro e he
  simp only [comparisons, List.mem_cons, List.not_mem_nil, or_false] at he
  rcases he with rfl | rfl | rfl | rfl | rfl | rfl | rfl
  · exact ⟨_, get?_readBack_flat hw (v := .str args.runId) (by rw [ha]; rfl) trivial, hstr _⟩
  · exact ⟨_, get?_readBack_flat hw (v := .str args.expectedSourceCommit) (by rw [ha]; rfl) trivial,
      hstr _⟩
  · exact ⟨_, get?_readBack_flat hw (v := .int facts.recordCount) (by rw [ha]; rfl) trivial, hint _⟩
  · exact ⟨_, get?_readBack_flat hw (v := .int facts.byteLength) (by rw [ha]; rfl) trivial, hint _⟩
  · exact ⟨_, get?_readBack_flat hw (v := .str facts.finalChainHash) (by rw [ha]; rfl) trivial,
      hstr _⟩
  · exact ⟨_, get?_readBack_flat hw hseq trivial, hint _⟩
  · exact ⟨_, get?_readBack_flat hw hstate trivial, hstr _⟩

include hfacts

/-- **Issue and verify.** -/
theorem HonestLog.proves (hcommit : E10Anchor.commit args.expectedSourceCommit = true)
    (hid : args.expectedAuthorityKeyId ≠ "") (hapath : args.anchorPath ≠ "")
    (hkpath : args.trustedKeyPath ≠ "") (hcert : args.nonCertifyingFixture = false)
    (hkey : 32 ≤ key.length) : Proves I args (filesOf file anchor key) := by
  have hget : ∀ {k s : String}, Record.get? anchor k = some (.str s) →
      Record.get? (readBack anchor) k = some (.str s) := fun hv => (get?_readBack_str hw).2 hv
  have hpayload := E10Anchor.canonicalPayload_readBack hw.nodup
  have hperm : ((readBack anchor).map Prod.fst).Perm mandatory := by
    have hkeys : (Json.canonFields anchor).map Prod.fst = mandatory := by
      rw [Json.canonFields_eq, List.map_map, ← E10Anchor.signedAnchor_keys, ← ha]
      rfl
    rw [← hkeys]
    exact (Json.sortEntries_perm _).map Prod.fst
  have htag : Record.get? anchor "authentication_tag" =
      some (.str (Sha256.hmacHexdigest key (E10Anchor.canonicalPayload (readBack anchor)))) := by
    rw [hpayload, ha, E10Anchor.canonicalPayload_signed]
    rfl
  have hpasses : Passes I args (filesOf file anchor key) file (readBack anchor) key close facts
      (.int seq) (.str "CLOSED") :=
    { commit := hcommit
      keyIdGiven := hid
      anchorPath := hapath
      keyPath := hkpath
      certifying := hcert
      auditFile := rfl
      keyFile := rfl
      anchorFile := by
        show loadAnchor I (.content (E10Anchor.writeAnchor anchor)) = _
        unfold loadAnchor
        simp only
        rw [loads_writeAnchor hw]
      keyLength := hkey
      load := ⟨records, counts, disposition, h.load, h.history⟩
      fields := checkAnchorFields_of_perm hperm
      schema := hget (by rw [ha]; rfl)
      role := hget (by rw [ha]; rfl)
      algorithm := hget (by rw [ha]; rfl)
      tag := by
        refine ⟨_, hget htag, ?_⟩
        rw [compareDigest_hex fun c hc => Sha256.hmacHexdigest_isHex hc, decide_eq_true rfl]
      keyId := hget (by rw [ha]; rfl)
      factsEq := hfacts
      closureSequence := h.closed.sequence
      closureState := h.closed.state
      compare := h.compare ha hw }
  exact hpasses.proves

end

/-! ## What an anchor does not verify for -/

/-- Where the tags of two payloads under the key agree, the payloads do. -/
def TagSeparates (key p q : List UInt8) : Prop :=
  Sha256.hmacHexdigest key p = Sha256.hmacHexdigest key q → p = q

section

variable {I : Interp} {args : Args} {file : List UInt8} {key : List UInt8} {anchor : Record}
  (hw : Writable I.toReader anchor) (h : Proves I args (filesOf file anchor key))

include hw h

/-- What the anchor of a proven call says. -/
theorem proves_anchor :
    Record.get? anchor "run_id" = some (.str args.runId) ∧
      Record.get? anchor "source_commit" = some (.str args.expectedSourceCommit) ∧
      Record.get? anchor "authority_key_id" = some (.str args.expectedAuthorityKeyId) ∧
      ∀ s, Record.get? anchor "authentication_tag" = some (.str s) →
        (∀ c ∈ s.toList, Sha256.IsHex c) →
        s = Sha256.hmacHexdigest key (E10Anchor.canonicalPayload anchor) := by
  obtain ⟨p⟩ := h.proven
  have hanchor : p.anchor = readBack anchor := by
    have hbytes : E10Anchor.writeAnchor anchor = p.anchorBytes := Opened.content.inj p.anchorFile
    have hv := p.anchorValue
    rw [← hbytes, loads_writeAnchor hw] at hv
    exact (Json.obj.inj (Except.ok.inj hv)).symm
  have hkey : key = p.key := Opened.content.inj p.keyFile
  have hstr : ∀ {k s : String}, (∃ v, p.anchor.get? k = some v ∧ equalsValue I v (.str s) = true) →
      Record.get? anchor k = some (.str s) := by
    rintro k s ⟨v, hv, he⟩
    simp only [equalsValue, decide_eq_true_eq] at he
    rw [he, hanchor] at hv
    exact (get?_readBack_str hw).1 hv
  refine ⟨?_, ?_, ?_, ?_⟩
  · exact hstr (compareFields_none p.compare (e := ("run_id", .str args.runId, .anchorRunIdMismatch))
      (by simp [comparisons]))
  · exact hstr (compareFields_none p.compare
      (e := ("source_commit", .str args.expectedSourceCommit, .anchorSourceCommitMismatch))
      (by simp [comparisons]))
  · have hid := p.keyId
    rw [hanchor] at hid
    exact (get?_readBack_str hw).1 hid
  · intro s hs hhex
    obtain ⟨tag, htag, hdigest⟩ := p.tag
    rw [hanchor, (get?_readBack_str hw).2 hs] at htag
    cases htag
    rw [compareDigest_hex hhex, ← hkey, hanchor, E10Anchor.canonicalPayload_readBack hw.nodup] at hdigest
    exact of_decide_eq_true (Except.ok.inj hdigest)

end

/-- The payload determines the fields that it covers. -/
theorem canonicalPayload_get? {R : Json.Reader} {a b : Record} (ha : Writable R a) (hb : Writable R b)
    (h : E10Anchor.canonicalPayload a = E10Anchor.canonicalPayload b) {k : String}
    (hk : k ≠ "authentication_tag") :
    (Record.get? a k).map Json.canon = (Record.get? b k).map Json.canon := by
  let p : String × Json → Bool := fun e => decide (e.1 ≠ "authentication_tag")
  have hcovered : ∀ {r : Record}, Writable R r → Json.Proper R (.obj (r.filter p)) := by
    intro r hr
    have hp := hr.1
    rw [Json.Proper, Json.properFields_iff] at hp ⊢
    refine ⟨fun e he => hp.1 e (List.mem_filter.1 he).1, ?_⟩
    exact (List.filter_sublist.map Prod.fst).nodup hp.2
  have hget : ∀ {r : Record}, Writable R r →
      Record.get? (readBack (r.filter p)) k = (Record.get? r k).map Json.canon := by
    intro r hr
    have hp := hcovered hr
    rw [Json.Proper] at hp
    rw [get?_readBack hp.2]
    refine congrArg (Option.map Json.canon) ?_
    exact Dict.lookup_filter (p := fun k => decide (k ≠ "authentication_tag")) (decide_eq_true hk)
  have hcanon := Json.dumps_injective (hcovered ha) (hcovered hb) (Json.toUTF8_toList_injective h)
  rw [Json.canon, Json.canon] at hcanon
  rw [← hget ha, ← hget hb]
  exact congrArg (fun r => Record.get? r k) (Json.obj.inj hcanon)

/-- The anchor of a log with a valid history is issued, can be written, and verifies. -/
theorem issue_proves {I : Interp} {logId : String} {cs : List Call} {es : List Ending} {t : Sink}
    (hcs : ∀ c ∈ cs, c.Readable I.toReader) (hrun : (Sink.fresh logId).run cs = some (es, t))
    (hsize : t.bytes.length < 2 ^ 63) {records : List Record}
    (hload : loadAndVerify I.toReader (.content t.bytes) = .ok (.ok records)) {args : Args}
    (hvalid : accepts records args.runId = true)
    (hcommit : E10Anchor.commit args.expectedSourceCommit = true)
    (hid : args.expectedAuthorityKeyId ≠ "") (hapath : args.anchorPath ≠ "")
    (hkpath : args.trustedKeyPath ≠ "") (hcert : args.nonCertifyingFixture = false)
    {key : List UInt8} (hkey : 32 ≤ key.length) (issuedAt : Option String) (now : String) :
    ∃ facts close seq anchor, anchor = E10Anchor.signedAnchor facts close args.runId
        args.expectedSourceCommit key args.expectedAuthorityKeyId (E10Anchor.issuedTime issuedAt now) ∧
      close.get? "closure_sequence" = some (.int seq) ∧
      close.get? "closure_state" = some (.str "CLOSED") ∧
      E10Anchor.buildAnchor I.toReader t.bytes args.runId args.expectedSourceCommit key
        args.expectedAuthorityKeyId issuedAt now = .ok anchor ∧
      Writable I.toReader anchor ∧ Proves I args (filesOf t.bytes anchor key) := by
  obtain ⟨counts, close, seq, disposition, h⟩ := honestLog hcs hrun hsize hload hvalid
  have hfacts := E10Anchor.auditFacts_loaded h.load h.noReturn
  generalize hf : E10Anchor.Facts.mk records.length t.bytes.length _ records.getLast? = facts at hfacts
  have hlast : facts.lastRecord = records.getLast? := by rw [← hf]
  have hw : Writable I.toReader (E10Anchor.signedAnchor facts close args.runId
      args.expectedSourceCommit key args.expectedAuthorityKeyId
      (E10Anchor.issuedTime issuedAt now)) := by
    refine E10Anchor.signedAnchor_writable h.closed.sequence h.closed.state h.sequence ?_ ?_ h.depth
    · rw [← hf]
      exact h.count
    · rw [← hf]
      exact h.size
  exact ⟨facts, close, seq, _, rfl, h.closed.sequence, h.closed.state,
    E10Anchor.buildAnchor_closed hfacts hlast h.closed h.named hcommit hkey hid, hw,
    h.proves hfacts rfl hw hcommit hid hapath hkpath hcert hkey⟩

/-- **Anchor issue and verification.**  For every log of a run of `AuditLog` with a valid history,
`build_anchor` succeeds and `verify` returns `PROVEN` for what `write_anchor` writes; it does not for
another run id, commit or key id, nor for the anchor with another value in a field that its tag
covers. -/
theorem anchor_round_trip {I : Interp} {logId : String} {cs : List Call} {es : List Ending} {t : Sink}
    (hcs : ∀ c ∈ cs, c.Readable I.toReader) (hrun : (Sink.fresh logId).run cs = some (es, t))
    (hsize : t.bytes.length < 2 ^ 63) {records : List Record}
    (hload : loadAndVerify I.toReader (.content t.bytes) = .ok (.ok records)) {args : Args}
    (hvalid : accepts records args.runId = true)
    (hcommit : E10Anchor.commit args.expectedSourceCommit = true)
    (hid : args.expectedAuthorityKeyId ≠ "") (hapath : args.anchorPath ≠ "")
    (hkpath : args.trustedKeyPath ≠ "") (hcert : args.nonCertifyingFixture = false)
    {key : List UInt8} (hkey : 32 ≤ key.length) (issuedAt : Option String) (now : String) :
    ∃ anchor, E10Anchor.buildAnchor I.toReader t.bytes args.runId args.expectedSourceCommit key
        args.expectedAuthorityKeyId issuedAt now = .ok anchor ∧
      Proves I args (filesOf t.bytes anchor key) ∧
      (∀ runId, runId ≠ args.runId →
        ¬ Proves I { args with runId := runId } (filesOf t.bytes anchor key)) ∧
      (∀ commit, commit ≠ args.expectedSourceCommit →
        ¬ Proves I { args with expectedSourceCommit := commit } (filesOf t.bytes anchor key)) ∧
      (∀ keyId, keyId ≠ args.expectedAuthorityKeyId →
        ¬ Proves I { args with expectedAuthorityKeyId := keyId } (filesOf t.bytes anchor key)) ∧
      ∀ field value value', field ≠ "authentication_tag" → anchor.get? field = some value →
        value' ≠ value → Writable I.toReader (Dict.set anchor field value') →
        TagSeparates key (E10Anchor.canonicalPayload anchor)
          (E10Anchor.canonicalPayload (Dict.set anchor field value')) →
        ¬ Proves I args (filesOf t.bytes (Dict.set anchor field value') key) := by
  obtain ⟨facts, close, seq, _, rfl, hseq, hstate, hbuild, hw, hproves⟩ :=
    issue_proves hcs hrun hsize hload hvalid hcommit hid hapath hkpath hcert hkey issuedAt now
  refine ⟨_, hbuild, hproves, ?_, ?_, ?_, ?_⟩
  · intro runId hne hp
    have hfield := (proves_anchor hw hp).1
    exact hne (Json.str.inj (Option.some.inj hfield)).symm
  · intro commit hne hp
    have hfield := (proves_anchor hw hp).2.1
    exact hne (Json.str.inj (Option.some.inj hfield)).symm
  · intro keyId hne hp
    have hfield := (proves_anchor hw hp).2.2.1
    exact hne (Json.str.inj (Option.some.inj hfield)).symm
  · intro field value value' hcovered hvalue hne hw' hsep hp
    have htag := (proves_anchor hw' hp).2.2.2 _
      ((Dict.lookup_set_ne _ _ (Ne.symm hcovered)).trans rfl) fun c hc => Sha256.hmacHexdigest_isHex hc
    rw [← E10Anchor.canonicalPayload_signed] at htag
    have hfields := canonicalPayload_get? hw hw' (hsep htag) hcovered
    unfold Record.get? at hfields hvalue
    rw [hvalue, Dict.lookup_set_self, Option.map_some, Option.map_some] at hfields
    have hflat := E10Anchor.flat_signedAnchor hseq hstate (Dict.mem_of_lookup hvalue)
    have hcanon : Json.canon value = value := by
      cases value with
      | str s => rfl
      | int n => rfl
      | _ => exact hflat.elim
    rw [hcanon] at hfields
    exact hne (hflat.canon_eq (Option.some.inj hfields).symm)

end VerifyE10

end StrixPEP
