import StrixPEP.Lib.Except
import StrixPEP.Verifier.Verify

/-!
# One anchor, one sequence of records

`_load_and_verify` reads the lines of the file, `audit_facts` its `splitlines()`; both walk the hash
chain.  `Proven` says what a call of `verify` that returns `PROVEN` has established.

Principal results: `no_return_inside` (both readers saw the same records) and `anchor_binding`.
-/

namespace StrixPEP

namespace VerifyE10

/-! ## The readers -/

/-- A line that is a dict. -/
def IsRecord (R : Json.Reader) (line : List UInt8) (record : Record) : Prop :=
  Json.loads R line = .ok (.obj record)

theorem loadLoop_ok {R : Json.Reader} {lineNo : Nat} {prev : String} {lines : List (List UInt8)}
    {records : List Record} (h : loadLoop R lineNo prev lines = .ok (.ok records)) :
    (∀ l ∈ lines, Lines.strip l ≠ []) ∧ Linked R prev (lines.map Lines.strip) ∧
      List.Forall₂ (IsRecord R) (lines.map Lines.strip) records := by
  induction lines generalizing lineNo prev records with
  | nil =>
    cases h
    exact ⟨nofun, trivial, List.Forall₂.nil⟩
  | cons raw lines ih =>
    simp only [loadLoop] at h
    split at h
    · cases h
    rename_i hblank
    split at h
    · cases h
    · cases h
    · rename_i record hrec
      split at h
      · rename_i hprev
        split at h
        · rename_i rest hrest
          cases h
          obtain ⟨h1, h2, h3⟩ := ih hrest
          refine ⟨?_, ⟨linkOf_eq_some.2 ⟨record, hrec, hprev⟩, h2⟩, List.Forall₂.cons hrec h3⟩
          intro l hl
          rcases List.mem_cons.1 hl with rfl | hl
          · exact hblank
          · exact h1 l hl
        · rename_i hne
          exact absurd h (hne records)
      · cases h
    · cases h

/-- A chain without blank lines is read. -/
theorem loadLoop_linked {R : Json.Reader} {lines : List (List UInt8)} (lineNo : Nat) {prev : String}
    (hblank : ∀ l ∈ lines, Lines.strip l ≠ [])
    (h : Linked R prev (Lines.records lines)) :
    ∃ records, loadLoop R lineNo prev lines = .ok (.ok records) := by
  induction lines generalizing lineNo prev with
  | nil => exact ⟨_, rfl⟩
  | cons raw lines ih =>
    rw [Lines.records_cons, Lines.records_singleton, if_neg (hblank raw List.mem_cons_self),
      List.singleton_append] at h
    obtain ⟨record, hr, hp⟩ := linkOf_eq_some.1 h.1
    obtain ⟨records, hrest⟩ := ih (lineNo + 1) (fun l hl => hblank l (List.mem_cons_of_mem _ hl)) h.2
    refine ⟨record :: records, ?_⟩
    simp only [loadLoop]
    rw [if_neg (hblank raw List.mem_cons_self), hr]
    simp only
    rw [if_pos hp, hrest]

theorem isRecord_of_linked {R : Json.Reader} {prev : String} {lines : List (List UInt8)}
    (h : Linked R prev lines) {l : List UInt8} (hl : l ∈ lines) : ∃ record, IsRecord R l record := by
  induction lines generalizing prev with
  | nil => cases hl
  | cons x lines ih =>
    rcases List.mem_cons.1 hl with rfl | hl
    · obtain ⟨record, hr, -⟩ := linkOf_eq_some.1 h.1
      exact ⟨record, hr⟩
    · exact ih h.2 hl

/-- **Both readers saw the same records**: no line that they both accept has a carriage return
inside. -/
theorem no_return_inside {R : Json.Reader} {b : List UInt8}
    (hload : Linked R AuditLog.genesis (Lines.records (Lines.fileLines b)))
    (hfacts : Linked R AuditLog.genesis (Lines.records (Lines.splitLines b))) :
    ∀ l ∈ b.splitOn 10, (13 : UInt8) ∉ Lines.strip l := by
  intro l hl h13
  obtain ⟨a, t, q, hat, ha, hq, hqt⟩ := Lines.pieces_of_return h13
  have hpiece : ∀ {p}, p ∈ Lines.pieces l → ∃ record, IsRecord R p record := by
    intro p hp
    refine isRecord_of_linked hfacts ?_
    rw [Lines.records_splitLines_eq, Lines.pieces_eq_flatMap]
    exact List.mem_flatMap.2 ⟨l, hl, hp⟩
  obtain ⟨ra, hra⟩ := hpiece ha
  obtain ⟨rq, hrq⟩ := hpiece hq
  have hline : ∃ record, IsRecord R (Lines.strip l) record := by
    refine isRecord_of_linked hload ?_
    rw [Lines.records_fileLines_eq, Lines.mem_records]
    refine ⟨fun he => ?_, l, hl, rfl⟩
    rw [he] at h13
    cases h13
  obtain ⟨rl, hrl⟩ := hline
  have hbrace : (0x7B : UInt8) ∈ q := Json.brace_mem_of_loads hrq rfl
  unfold IsRecord at hrl
  rw [hat] at hrl
  exact Json.loads_append hra rfl hrl (hqt _ hbrace)

/-! ## What `PROVEN` says -/

/-- What a call of `verify` that returns `PROVEN` has established. -/
structure Proven (I : Interp) (args : Args) (files : Files) where
  audit : List UInt8
  anchor : Record
  key : List UInt8
  anchorBytes : List UInt8
  records : List Record
  counts : Counts
  closure : Record
  disposition : Option Kind
  facts : E10Anchor.Facts
  closureSequence : Json
  closureState : Json
  auditFile : files.audit = .content audit
  anchorFile : files.anchor = .content anchorBytes
  keyFile : files.key = .content key
  load : loadLoop I.toReader 1 AuditLog.genesis (Lines.fileLines audit) = .ok (.ok records)
  history : validateHistory records args.runId =
    .ok (.localHistoryValid counts (some closure) disposition)
  anchorValue : Json.loads I.toReader anchorBytes = .ok (.obj anchor)
  anchorFields : checkAnchorFields I (.obj anchor) = .ok none
  tag : ∃ tag, anchor.get? "authentication_tag" = some tag ∧
    compareDigest I tag (Sha256.hmacHexdigest key (E10Anchor.canonicalPayload anchor)) = .ok true
  keyId : anchor.get? "authority_key_id" = some (.str args.expectedAuthorityKeyId)
  factsEq : E10Anchor.auditFacts I.toReader audit = .ok facts
  sequence : closure.get? "closure_sequence" = some closureSequence
  state : closure.get? "closure_state" = some closureState
  compare : compareFields I anchor (comparisons args facts closureSequence closureState) = .ok none

/-- A mismatch has another status than `PROVEN`. -/
theorem compareFields_ne_proven {I : Interp} {anchor : Record}
    {fields : List (String × Json × VerifyStatus)} {v : Verdict}
    (hfields : ∀ e ∈ fields, e.2.2 ≠ .proven) (h : compareFields I anchor fields = .ok (some v))
    (d : String) (c : Option Counts) (rd : Option String) : v ≠ .result .proven d c rd := by
  induction fields with
  | nil => cases h
  | cons e fields ih =>
    obtain ⟨field, expected, status⟩ := e
    simp only [compareFields] at h
    split at h
    · cases h
    split at h
    · exact ih (fun e he => hfields e (List.mem_cons_of_mem _ he)) h
    · cases h
      intro hv
      cases hv
      exact hfields _ List.mem_cons_self rfl

theorem bindFacts_proven {I : Interp} {args : Args} {audit : List UInt8} {anchor : Record}
    {counts : Counts} {closure : Option Record} {d : String} {c : Option Counts}
    {rd : Option String}
    (h : bindFacts I args audit anchor counts closure = .ok (.result .proven d c rd)) :
    ∃ facts close seq state, E10Anchor.auditFacts I.toReader audit = .ok facts ∧
      closure = some close ∧ close.get? "closure_sequence" = some seq ∧
      close.get? "closure_state" = some state ∧
      compareFields I anchor (comparisons args facts seq state) = .ok none := by
  unfold bindFacts at h
  obtain ⟨facts, hf, h⟩ := Except.bind_eq_ok.1 h
  obtain ⟨close, hc, h⟩ := Except.bind_eq_ok.1 h
  obtain ⟨seq, hs, h⟩ := Except.bind_eq_ok.1 h
  obtain ⟨state, ht, h⟩ := Except.bind_eq_ok.1 h
  obtain ⟨verdict, hv, h⟩ := Except.bind_eq_ok.1 h
  refine ⟨facts, close, seq, state, hf, ?_, Record.item_ok.1 hs, Record.item_ok.1 ht, ?_⟩
  · cases closure with
    | none => cases hc
    | some r => cases hc; rfl
  · cases verdict with
    | none => exact hv
    | some v =>
      cases h
      exact absurd rfl (compareFields_ne_proven (by simp [comparisons]) hv _ _ _)

theorem checkAnchorFields_ne_proven {I : Interp} {anchor : Json} {v : Verdict}
    (h : checkAnchorFields I anchor = .ok (some v)) (d : String) (c : Option Counts)
    (rd : Option String) : v ≠ .result .proven d c rd := by
  unfold checkAnchorFields at h
  split at h
  · cases h
  simp only at h
  split at h
  · cases h
  split at h
  · cases h
    exact nofun
  · cases h

theorem checkAnchor_proven {I : Interp} {args : Args} {audit : List UInt8} {anchor : Json}
    {key : List UInt8} {counts : Counts} {closure : Option Record} {d : String} {c : Option Counts}
    {rd : Option String}
    (h : checkAnchor I args audit anchor key counts closure = .ok (.result .proven d c rd)) :
    ∃ record, anchor = .obj record ∧ checkAnchorFields I anchor = .ok none ∧
      (∃ tag, Record.get? record "authentication_tag" = some tag ∧
        compareDigest I tag (Sha256.hmacHexdigest key (E10Anchor.canonicalPayload record)) =
          .ok true) ∧
      Record.get? record "authority_key_id" = some (.str args.expectedAuthorityKeyId) ∧
      bindFacts I args audit record counts closure = .ok (.result .proven d c rd) := by
  unfold checkAnchor at h
  split at h
  · cases h
  obtain ⟨verdict, hv, h⟩ := Except.bind_eq_ok.1 h
  cases verdict with
  | some v =>
    cases h
    exact absurd rfl (checkAnchorFields_ne_proven hv _ _ _)
  | none =>
    obtain ⟨record, hr, h⟩ := Except.bind_eq_ok.1 h
    have hobj : anchor = .obj record := by
      cases anchor with
      | obj kvs => cases hr; rfl
      | null => cases hr
      | bool b => cases hr
      | int n => cases hr
      | float r f => cases hr
      | str s => cases hr
      | arr xs => cases hr
    obtain ⟨bad, hbad, h⟩ := Except.bind_eq_ok.1 h
    cases bad with
    | true => cases h
    | false =>
      obtain ⟨tag, ht, h⟩ := Except.bind_eq_ok.1 h
      obtain ⟨same, hsame, h⟩ := Except.bind_eq_ok.1 h
      cases same with
      | false => cases h
      | true =>
        obtain ⟨wrong, hwrong, h⟩ := Except.bind_eq_ok.1 h
        cases wrong with
        | true => cases h
        | false =>
          exact ⟨record, hobj, hv, ⟨tag, Record.item_ok.1 ht, hsame⟩, differFrom_false.1 hwrong, h⟩

theorem certify_proven {I : Interp} {args : Args} {files : Files} {audit : List UInt8}
    {counts : Counts} {closure : Option Record} {d : String} {c : Option Counts}
    {rd : Option String}
    (h : certify I args files audit counts closure = .ok (.result .proven d c rd)) :
    ∃ anchorBytes anchor key, files.anchor = .content anchorBytes ∧
      Json.loads I.toReader anchorBytes = .ok anchor ∧ files.key = .content key ∧
      checkAnchor I args audit anchor key counts closure = .ok (.result .proven d c rd) := by
  unfold certify at h
  split at h
  · cases h
  split at h
  · cases h
  split at h
  · cases h
  split at h
  · cases h
  obtain ⟨anchor, ha, h⟩ := Except.bind_eq_ok.1 h
  cases anchor with
  | error v =>
    exfalso
    cases h
    unfold loadAnchor at ha
    split at ha
    · split at ha <;> cases ha
    · cases ha
    · cases ha
  | ok anchor =>
    obtain ⟨key, hk, h⟩ := Except.bind_eq_ok.1 h
    cases key with
    | error v =>
      exfalso
      cases h
      unfold loadKey at hk
      split at hk <;> cases hk
    | ok key =>
      unfold loadAnchor at ha
      split at ha
      · rename_i b hb
        split at ha
        · rename_i v hv
          cases ha
          unfold loadKey at hk
          split at hk
          · rename_i b' hb'
            cases hk
            exact ⟨b, _, _, hb, hv, hb', h⟩
          · cases hk
          · cases hk
        · cases ha
        · cases ha
      · cases ha
      · cases ha

theorem Proves.proven {I : Interp} {args : Args} {files : Files} (h : Proves I args files) :
    Nonempty (Proven I args files) := by
  obtain ⟨d, c, rd, h⟩ := h
  unfold verify at h
  obtain ⟨loaded, hload, h⟩ := Except.bind_eq_ok.1 h
  cases loaded with
  | error detail => cases h
  | ok records =>
    obtain ⟨result, hhist, h⟩ := Except.bind_eq_ok.1 h
    cases result with
    | rejected r => cases h
    | localHistoryValid counts closure disposition =>
      cases haudit : files.audit with
      | osError name => rw [haudit] at hload; cases hload
      | valueError => rw [haudit] at hload; cases hload
      | content audit =>
        simp only [haudit] at h
        obtain ⟨anchorBytes, anchor, key, h1, h2, h3, h⟩ := certify_proven h
        obtain ⟨record, rfl, h4, h5, h6, h⟩ := checkAnchor_proven h
        obtain ⟨facts, close, seq, state, h7, rfl, h8, h9, h10⟩ := bindFacts_proven h
        rw [haudit] at hload
        exact ⟨⟨audit, record, key, anchorBytes, records, counts, close, disposition, facts, seq,
          state, haudit, h1, h3, hload, hhist, h2, h4, h5, h6, h7, h8, h9, h10⟩⟩

/-! ## The binding -/

theorem compareFields_none {I : Interp} {anchor : Record}
    {fields : List (String × Json × VerifyStatus)} (h : compareFields I anchor fields = .ok none)
    {e : String × Json × VerifyStatus} (he : e ∈ fields) :
    ∃ v, anchor.get? e.1 = some v ∧ equalsValue I v e.2.1 = true := by
  induction fields with
  | nil => cases he
  | cons x fields ih =>
    obtain ⟨field, expected, status⟩ := x
    simp only [compareFields] at h
    split at h
    · cases h
    rename_i v hv
    split at h
    · rename_i heq
      rcases List.mem_cons.1 he with rfl | he
      · exact ⟨v, Record.item_ok.1 hv, heq⟩
      · exact ih h he
    · cases h

theorem equalsInt_unique {I : Interp} {v : Json} {m n : Int} (hm : equalsInt I v m = true)
    (hn : equalsInt I v n = true) : m = n := by
  unfold equalsInt at hm hn
  cases v with
  | int k =>
    simp only [decide_eq_true_eq] at hm hn
    exact hm.symm.trans hn
  | bool b =>
    simp only [decide_eq_true_eq] at hm hn
    exact hm.symm.trans hn
  | float r f =>
    simp only [decide_eq_true_eq] at hm hn
    rw [hm] at hn
    exact Option.some.inj hn
  | null => cases hm
  | str s => cases hm
  | arr xs => cases hm
  | obj kvs => cases hm

/-- The records of a proven file, as both readers see them. -/
theorem Proven.same_records {I : Interp} {args : Args} {files : Files} (p : Proven I args files) :
    Lines.records (Lines.splitLines p.audit) = Lines.records (Lines.fileLines p.audit) := by
  refine Lines.records_splitLines (no_return_inside ?_ (E10Anchor.auditFacts_ok p.factsEq).1)
  obtain ⟨hblank, hlink, -⟩ := loadLoop_ok p.load
  rwa [Lines.records_eq_map hblank]

theorem Proven.recordCount {I : Interp} {args : Args} {files : Files} (p : Proven I args files) :
    ∃ v, p.anchor.get? "record_count" = some v ∧ equalsInt I v p.facts.recordCount = true :=
  compareFields_none p.compare
    (e := ("record_count", .int p.facts.recordCount, .anchorRecordCountMismatch))
    (by simp [comparisons])

theorem Proven.finalChainHash {I : Interp} {args : Args} {files : Files}
    (p : Proven I args files) :
    p.anchor.get? "final_chain_hash" = some (.str p.facts.finalChainHash) := by
  obtain ⟨v, hv, he⟩ := compareFields_none p.compare
    (e := ("final_chain_hash", .str p.facts.finalChainHash, .anchorTailHashMismatch))
    (by simp [comparisons])
  simp only [equalsValue, decide_eq_true_eq] at he
  rw [hv, he]

/-- **Anchor binding.**  Two files that are proven under one anchor hold the same records, as far
as SHA-256 separates the lines at the same place. -/
theorem anchor_binding {I : Interp} {args : Args} {audit audit' : List UInt8} {anchor key : Opened}
    (hfree : ∀ e ∈ (Lines.records (Lines.fileLines audit)).zip (Lines.records (Lines.fileLines audit')),
      Sha256.hexdigest e.1 = Sha256.hexdigest e.2 → e.1 = e.2)
    (h : Proves I args ⟨.content audit, anchor, key⟩)
    (h' : Proves I args ⟨.content audit', anchor, key⟩) :
    Lines.records (Lines.fileLines audit) = Lines.records (Lines.fileLines audit') := by
  obtain ⟨p⟩ := h.proven
  obtain ⟨p'⟩ := h'.proven
  have haudit : audit = p.audit := Opened.content.inj p.auditFile
  have haudit' : audit' = p'.audit := Opened.content.inj p'.auditFile
  have hanchor : p.anchor = p'.anchor := by
    have hbytes : p.anchorBytes = p'.anchorBytes :=
      Opened.content.inj (p.anchorFile.symm.trans p'.anchorFile)
    have hv := p.anchorValue
    rw [hbytes, p'.anchorValue] at hv
    exact (Json.obj.inj (Except.ok.inj hv)).symm
  obtain ⟨hlink, hcount, -, htail⟩ := E10Anchor.auditFacts_ok p.factsEq
  obtain ⟨hlink', hcount', -, htail'⟩ := E10Anchor.auditFacts_ok p'.factsEq
  have hn : p.facts.recordCount = p'.facts.recordCount := by
    obtain ⟨v, hv, he⟩ := p.recordCount
    obtain ⟨v', hv', he'⟩ := p'.recordCount
    rw [hanchor, hv'] at hv
    cases hv
    exact Int.ofNat.inj (equalsInt_unique he he')
  have ht : p.facts.finalChainHash = p'.facts.finalChainHash := by
    have hv := p.finalChainHash
    rw [hanchor, p'.finalChainHash] at hv
    exact (Json.str.inj (Option.some.inj hv)).symm
  rw [p.same_records] at hlink hcount htail
  rw [p'.same_records] at hlink' hcount' htail'
  rw [haudit, haudit'] at hfree ⊢
  refine HashChain.commit hlink hlink' ?_ ?_ hfree
  · rw [← hcount, ← hcount', hn]
  · exact htail.symm.trans (ht.trans htail')

end VerifyE10

end StrixPEP
