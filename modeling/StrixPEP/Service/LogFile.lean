import StrixPEP.Audit.Refinement
import StrixPEP.Gateway.Certification
import StrixPEP.Verifier.RoundTrip

/-!
# The file of a run, and its readers

The gateway appends records one by one from many threads; a restart (`AuditLog.__init__`) and the
verifier (`_load_and_verify`) read the file that this leaves.  A `write` whose `os.close` fails has
left its line and keeps the old hash, so that the record after it names the wrong predecessor.

* `fileBytes` — the bytes of a file of lines;
* `World.Consistent` — the chain of a run, up to its last record;
* `consistent_exec`, `consistent_reach` — every step keeps it, and so does every interleaving;
* `Entry.fields_flat`, `writable_persist` — a record of the gateway is read back if its numbers are;
* `log_read_back` — both readers find every record of the run, in the order of the appends.
-/

namespace StrixPEP

open Threads VerifyE10

/-! ## The file -/

/-- What a line leaves in the file; a cut line has no line feed. -/
def Line.bytes : Line → List UInt8
  | .parsed text _ => text.toUTF8.toList ++ [10]
  | .torn text => text.toUTF8.toList

/-- The content of the file. -/
def fileBytes (file : List Line) : List UInt8 := file.flatMap Line.bytes

theorem fileBytes_lineOf (records : List Record) : fileBytes (records.map AuditLog.lineOf) = render records := by
  unfold fileBytes render
  rw [List.flatMap_map]
  rfl

namespace AuditLog

variable {log log' : AuditLog} {fields : Fields} {o : Outcome}

theorem prevOf_persist : prevOf (log.persist fields o) = some log.prev :=
  prevOf_recordOf log.runId log.prev fields o.ts o.order

/-- Only a call that returns moves on in the chain. -/
theorem write_prev (h : log.write fields o = some log') :
    log'.prev = if o.ok then recordHash (log.persist fields o) else log.prev := by
  unfold write at h
  split at h
  · split at h
    · rename_i ho
      cases h
      subst ho
      rfl
    · cases h
  · cases o with
    | refused => cases h
    | openFailed name =>
      cases h
      rfl
    | written ts order =>
      simp only at h
      split at h
      · cases h
        rfl
      · cases h
    | ioFailed name ts order residue =>
      simp only at h
      split at h
      · cases residue <;> cases h <;> rfl
      · cases h
    | closeFailed name ts order =>
      simp only at h
      split at h
      · cases h
        rfl
      · cases h

end AuditLog

/-! ## The chain of a run -/

/-- The records of the run. -/
def World.records (w : World) : List Record := w.log.map (·.record)

/-- As long as nothing has been appended after a record whose call raised, the records are chained;
where no call has raised after its append, the log is at their end. -/
structure World.Consistent (w : World) : Prop where
  chained : (∀ x ∈ w.log.dropLast, x.ok = true) → Chained AuditLog.genesis w.records
  tail : (∀ x ∈ w.log, x.ok = true) → w.audit.prev = HashChain.tail recordHash AuditLog.genesis w.records

namespace World

variable {w w' : World} {i : Nat}

theorem Consistent.of_eq (h : w.Consistent) (hlog : w'.log = w.log) (hprev : w'.audit.prev = w.audit.prev) :
    w'.Consistent := by
  have hrecords : w'.records = w.records := by
    unfold records
    rw [hlog]
  constructor
  · rw [hlog, hrecords]
    exact h.chained
  · rw [hlog, hrecords, hprev]
    exact h.tail

/-- A call of `write` keeps the chain. -/
theorem Consistent.record (h : w.Consistent) {e : Entry} {o : Outcome} {audit audit' : AuditLog}
    (hw : w.audit.write e.fields o = some audit) (hprev : audit'.prev = audit.prev) :
    (w.record i e o audit').Consistent := by
  have hmoved : audit'.prev = if o.ok then recordHash (w.audit.persist e.fields o) else w.audit.prev :=
    hprev.trans (AuditLog.write_prev hw)
  by_cases happ : AuditLog.appends o = true
  · have hlog : (w.record i e o audit').log = w.log ++ [⟨i, e, w.audit.persist e.fields o, o.ok⟩] := by
      simp [World.record, happ]
    have hrecords : (w.record i e o audit').records = w.records ++ [w.audit.persist e.fields o] := by
      unfold records
      rw [hlog, List.map_append, List.map_singleton]
    have hwhole : (∀ x ∈ w.log, x.ok = true) →
        w.audit.prev = HashChain.tail recordHash AuditLog.genesis w.records := h.tail
    constructor
    · intro hok
      rw [hlog, List.dropLast_concat] at hok
      rw [hrecords]
      refine HashChain.chain_append.2 ⟨h.chained fun x hx => hok x (List.dropLast_subset _ hx), ?_, trivial⟩
      rw [AuditLog.prevOf_persist, hwhole hok]
    · intro hok
      rw [hlog] at hok
      have hlast : o.ok = true := hok _ (List.mem_append_right _ (List.mem_singleton.2 rfl))
      rw [hrecords, HashChain.tail_append]
      show audit'.prev = _
      rw [hmoved, if_pos hlast]
      rfl
  · rw [Bool.not_eq_true] at happ
    have hraised : o.ok = false := by
      cases o with
      | written ts order => cases happ
      | _ => rfl
    refine h.of_eq ?_ ?_
    · simp [World.record, happ]
    · show audit'.prev = w.audit.prev
      rw [hmoved, hraised]
      rfl

theorem advance_log {op : Lifecycle.Op} {x : Lifecycle.Event × World} (h : w.advance i op = some x) :
    x.2.log = w.log ∧ x.2.audit = w.audit := by
  obtain ⟨r, -, rfl⟩ := Option.map_eq_some_iff.1 h
  exact ⟨rfl, rfl⟩

/-- **Every step keeps the chain.** -/
theorem consistent_exec {c : Cmd} {r : c.Resp} (h : w.Consistent) (he : World.exec i c w r = some w') :
    w'.Consistent := by
  have hsame : ∀ {w'' : World}, w''.log = w.log ∧ w''.audit.prev = w.audit.prev → w''.Consistent :=
    fun hs => h.of_eq hs.1 hs.2
  have hadvance : ∀ {op : Lifecycle.Op} {x : Lifecycle.Event × World}, w.advance i op = some x →
      x.2.log = w.log ∧ x.2.audit.prev = w.audit.prev := fun hx =>
    ⟨(advance_log hx).1, congrArg AuditLog.prev (advance_log hx).2⟩
  cases c with
  | write e =>
    obtain ⟨audit, hwrite, rfl⟩ := exec_write he
    exact h.record hwrite rfl
  | sealWith e =>
    obtain ⟨audit, hwrite, rfl⟩ := exec_sealWith he
    refine h.record hwrite ?_
    split <;> rfl
  | addSecret s =>
    cases he
    refine hsame ⟨rfl, ?_⟩
    show (w.audit.addSecret s).prev = w.audit.prev
    unfold AuditLog.addSecret
    split <;> rfl
  | net n =>
    obtain ⟨n', -, rfl⟩ := exec_net he
    exact hsame ⟨rfl, rfl⟩
  | cancel =>
    obtain ⟨ev, run, -, -, rfl⟩ := exec_cancel he
    exact hsame ⟨rfl, rfl⟩
  | authorize a e | issuePermit a e c gen bud =>
    obtain ⟨x, hx, hgive⟩ := Option.bind_eq_some_iff.1 he
    obtain ⟨-, rfl⟩ := Net.give_eq_some.1 hgive
    exact hsame (hadvance hx)
  | bindDurableRelease ref c | releaseEnter ref =>
    obtain ⟨y, -, hy⟩ := Option.bind_eq_some_iff.1 he
    obtain ⟨x, hx, hgive⟩ := Option.bind_eq_some_iff.1 hy
    obtain ⟨-, rfl⟩ := Net.give_eq_some.1 hgive
    exact hsame (hadvance hx)
  | abandonUndurable ref | releaseExit ref ok =>
    obtain ⟨x, hx, rfl⟩ := Option.map_eq_some_iff.1 he
    exact hsame (hadvance hx)
  | newConnId =>
    simp only [World.exec] at he
    split at he
    · cases he
    · cases he
      exact hsame ⟨rfl, rfl⟩
  | stopListener =>
    simp only [World.exec] at he
    split at he
    · split at he
      · cases he
      · cases he
        exact h
    · cases he
      exact h
  | checkTerminal c | acquireSlot | beginProducer | endProducer | epoch | runId | healthy | permitCalled a
  | inflightCount | producerCount | waitForDrain | waitForProducerDrain | waitListener =>
    obtain ⟨-, rfl⟩ := Net.give_eq_some.1 he
    exact hsame ⟨rfl, rfl⟩
  | env q | releaseSlot | newAttemptId | permitReturned a start granted | connect a c pin | endServing
  | setListenerClosed | quiesced b =>
    cases he
    exact hsame ⟨rfl, rfl⟩

end World

section

variable {B : Boot} {cfg : Config Exn Cmd Cmd.Resp World}

/-- And so does every interleaving. -/
theorem Boot.consistent_reach (h : B.Reachable cfg) (hstart : B.audit.prev = AuditLog.genesis) :
    cfg.state.Consistent := by
  induction h with
  | refl => exact ⟨fun _ => trivial, fun _ => hstart⟩
  | tail _ hstep ih =>
    cases hstep with
    | mk hp he => exact World.consistent_exec ih he

/-- As long as the log accepts entries, the file holds the records of the run. -/
theorem Boot.Reachable.file_eq (h : B.Reachable cfg) (hempty : B.audit.file = [])
    (hhealthy : cfg.state.audit.healthy = true) :
    cfg.state.audit.file = cfg.state.records.map AuditLog.lineOf := by
  obtain ⟨rest, hfile, -, hrest⟩ := h.inv.file
  rw [hrest hhealthy, hempty, List.append_nil, List.nil_append] at hfile
  rw [hfile, World.records, List.map_map]
  rfl

end

/-! ## The records can be read -/

/-- Not a list and not a dict. -/
def Json.isScalar : Json → Bool
  | .arr _ | .obj _ => false
  | _ => true

/-- A list's elements; any other value alone. -/
def Json.parts : Json → List Json
  | .arr xs => xs
  | v => [v]

def Json.isNumber : Json → Bool
  | .int _ | .float _ _ => true
  | _ => false

/-- The numbers of the record are read back as they were written: an integer has no more digits than
`int` takes, and the reader knows the text of a float. -/
def Numbered (R : Json.Reader) (r : Record) : Prop :=
  ∀ f ∈ r, ∀ v ∈ f.2.parts, v.isNumber = true → Json.Proper R v

/-- Scalars and lists of scalars are read back if their numbers are. -/
theorem Json.proper_of_numbers {R : Json.Reader} {v : Json} (hflat : ∀ x ∈ v.parts, x.isScalar = true)
    (hn : ∀ x ∈ v.parts, x.isNumber = true → Json.Proper R x) :
    Json.Proper R v ∧ Json.nesting v ≤ 1 := by
  have hscalar : ∀ x ∈ v.parts, Json.Proper R x ∧ Json.nesting x = 0 := by
    intro x hx
    have hnum := hn x hx
    cases x with
    | null | bool b | str s => exact ⟨trivial, rfl⟩
    | int n | float r f => exact ⟨hnum rfl, rfl⟩
    | arr xs | obj kvs => cases hflat _ hx
  cases v with
  | arr xs =>
    refine ⟨?_, ?_⟩
    · rw [Json.Proper, Json.properList_iff]
      exact fun x hx => (hscalar x hx).1
    · have hdeep : Json.nestingList xs ≤ 0 := by
        rw [Json.nestingList_le]
        exact fun x hx => (hscalar x hx).2.le
      rw [Json.nesting]
      omega
  | obj kvs => cases hflat _ (List.mem_singleton.2 rfl)
  | _ =>
    have h := hscalar _ (List.mem_singleton.2 rfl)
    exact ⟨h.1, h.2.le.trans (Nat.zero_le 1)⟩

/-- What is left of a value in the record is a scalar or a list of scalars. -/
def Value.Flat (v : Value) : Prop := ∀ order, ∀ x ∈ (v.scrubbed order).parts, x.isScalar = true

theorem Json.flat_scalar {v : Json} (h : v.isScalar = true) : ∀ x ∈ v.parts, x.isScalar = true := by
  intro x hx
  cases v with
  | arr xs | obj kvs => cases h
  | _ => rw [List.mem_singleton.1 hx, h]

theorem Value.flat_of_plain {v : Value} (h : v.plain = true) : v.Flat := by
  intro order
  cases v with
  | json j =>
    cases j with
    | arr xs | obj kvs => cases h
    | _ => exact Json.flat_scalar rfl
  | tuple xs =>
    intro x hx
    have hp := List.all_eq_true.1 h x hx
    cases x with
    | arr ys | obj kvs => cases hp
    | _ => rfl

theorem Value.flat_texts (texts : List String) : (Value.json (Json.ofTexts texts)).Flat := by
  intro order x hx
  have hscrub : ∀ ts : List String, scrubList order (ts.map Json.str) =
      ts.map fun t => Json.str (redact order t) := by
    intro ts
    induction ts with
    | nil => rfl
    | cons t ts ih => rw [List.map_cons, scrubList, ih]; rfl
  have hx : x ∈ texts.map fun t => Json.str (redact order t) := by
    rw [← hscrub]
    exact hx
  obtain ⟨t, -, rfl⟩ := List.mem_map.1 hx
  rfl

theorem Value.flat_optStr (o : Option String) : (Fields.optStr o).Flat := by
  cases o <;> exact Value.flat_of_plain rfl

theorem Fields.mem_update {fields extra : Fields} {f : String × Value} (h : f ∈ update fields extra) :
    f ∈ fields ∨ f ∈ extra := by
  induction extra generalizing fields with
  | nil => exact Or.inl h
  | cons g extra ih =>
    rcases ih h with h | h
    · exact (Dict.mem_of_mem_set h).elim (fun h => Or.inr (h ▸ List.mem_cons_self)) Or.inl
    · exact Or.inr (List.mem_cons_of_mem _ h)

theorem Fields.nodup_update {fields extra : Fields} (h : (fields.map Prod.fst).Nodup) :
    ((update fields extra).map Prod.fst).Nodup := by
  induction extra generalizing fields with
  | nil => exact h
  | cons g extra ih => exact ih (Dict.nodup_set h _ _)

theorem Entry.settled_fields {o : Settlement} {a c : String} {permitSeq epoch : Option Nat} {extra : Fields}
    (h : (Entry.settled o a c permitSeq epoch extra).Regular) :
    ((Entry.settled o a c permitSeq epoch extra).fields.map Prod.fst).Nodup ∧
      ∀ f ∈ (Entry.settled o a c permitSeq epoch extra).fields, f.2.Flat := by
  have hbase : ∀ f ∈ [("attempt_id", Fields.str a), ("conn_id", Fields.str c)] ++
      (permitSeq.map fun s => ("permit_seq", Fields.int s)).toList ++
      (epoch.map fun e => ("epoch", Fields.int e)).toList, f.1 ≠ "decision" ∧ f.2.plain = true := by
    cases permitSeq <;> cases epoch <;> simp [Fields.str, Fields.int, Value.plain]
  have hrest : ∀ f ∈ (Entry.settled o a c permitSeq epoch extra).rest,
      f.1 ≠ "decision" ∧ f.2.plain = true := by
    intro f hf
    rcases Fields.mem_update hf with hf | hf
    · exact hbase f hf
    · obtain ⟨hkey, hplain⟩ := h f hf
      refine ⟨?_, hplain⟩
      intro heq
      rw [heq] at hkey
      exact absurd hkey (by decide)
  refine ⟨List.nodup_cons.2 ⟨?_, Fields.nodup_update ?_⟩, ?_⟩
  · intro hmem
    obtain ⟨f, hf, hkey⟩ := List.mem_map.1 hmem
    exact (hrest f hf).1 hkey
  · cases permitSeq <;> cases epoch <;> simp
  · rw [Entry.fields, List.forall_mem_cons]
    exact ⟨Value.flat_of_plain rfl, fun f hf => Value.flat_of_plain (hrest f hf).2⟩

/-- **Every dict that the gateway hands to `write` has each key once, and holds no dicts and no lists of
lists.** -/
theorem Entry.fields_flat {e : Entry} (h : e.Regular) :
    (e.fields.map Prod.fst).Nodup ∧ ∀ f ∈ e.fields, f.2.Flat := by
  cases e with
  | settled o a c permitSeq epoch extra => exact settled_fields h
  | blocked rest =>
    refine ⟨h.1, ?_⟩
    rw [Entry.fields, List.forall_mem_cons]
    exact ⟨Value.flat_of_plain rfl, fun f hf => Value.flat_of_plain (h.2 f hf)⟩
  | auth i seq =>
    refine ⟨by simp [Entry.fields, Entry.rest], ?_⟩
    cases hpin : i.pin with
    | none | some p =>
      simp only [Entry.fields, Entry.rest, hpin, List.forall_mem_cons]
      and_intros
      all_goals first | exact Value.flat_of_plain rfl | exact Value.flat_optStr _ |
        exact List.forall_mem_nil _
  | attempted a c epoch permitSeq pin =>
    refine ⟨by simp [Entry.fields, Entry.rest, Fields.update, Dict.set], ?_⟩
    simp only [Entry.fields, Entry.rest, Fields.update, List.forall_mem_cons]
    refine ⟨Value.flat_of_plain rfl, fun f hf => Value.flat_of_plain ?_⟩
    revert f
    simp [Dict.set, Fields.str, Fields.int, Value.plain]
  | _ =>
    refine ⟨by simp [Entry.fields, Entry.rest, Common.fields], ?_⟩
    simp only [Entry.fields, Entry.rest, Common.fields, List.cons_append, List.nil_append,
      List.forall_mem_cons]
    and_intros
    all_goals first | exact Value.flat_of_plain rfl | exact Value.flat_optStr _ |
      exact Value.flat_texts _ | exact List.forall_mem_nil _

/-- So its record can be written and read back, if its numbers can. -/
theorem AuditLog.writable_persist {R : Json.Reader} {log : AuditLog} {e : Entry} {o : Outcome}
    (h : e.Regular) (hdepth : 2 ≤ R.depth) (hn : Numbered R (log.persist e.fields o)) :
    Writable R (log.persist e.fields o) := by
  obtain ⟨hkeys, hflat⟩ := Entry.fields_flat h
  have hvalue : ∀ f ∈ log.persist e.fields o, ∀ x ∈ f.2.parts, x.isScalar = true := by
    intro f hf
    rcases Dict.mem_of_mem_set hf with rfl | hf
    · exact Json.flat_scalar rfl
    rcases Dict.mem_of_mem_set hf with rfl | hf
    · exact Json.flat_scalar rfl
    rcases Dict.mem_of_mem_set hf with rfl | hf
    · exact Json.flat_scalar rfl
    obtain ⟨g, hg, rfl⟩ := List.mem_map.1 hf
    exact hflat g hg o.order
  have hread : ∀ f ∈ log.persist e.fields o, Json.Proper R f.2 ∧ Json.nesting f.2 ≤ 1 :=
    fun f hf => Json.proper_of_numbers (hvalue f hf) (hn f hf)
  refine ⟨?_, ?_⟩
  · rw [Json.Proper, Json.properFields_iff]
    refine ⟨fun f hf => (hread f hf).1, ?_⟩
    unfold AuditLog.persist
    refine Dict.nodup_set (Dict.nodup_set (Dict.nodup_set ?_ _ _) _ _) _ _
    rw [List.map_map]
    exact hkeys
  · have hfields : Json.nestingFields (log.persist e.fields o) ≤ 1 :=
      Json.nestingFields_le.2 fun f hf => (hread f hf).2
    rw [Json.nesting]
    omega

section

variable {B : Boot} {cfg : Config Exn Cmd Cmd.Resp World}

/-- Records that can be written and are chained are read back. -/
theorem load_render {R : Json.Reader} {records : List Record} (hw : ∀ r ∈ records, Writable R r)
    (hchained : Chained AuditLog.genesis records) :
    loadAndVerify R (.content (render records)) = .ok (.ok (records.map readBack)) := by
  have hholds := AuditFile.holds_render hw
  have hblank : ∀ l ∈ Lines.fileLines (render records), Lines.strip l ≠ [] := by
    rw [hholds]
    intro l hl
    obtain ⟨r, hr, rfl⟩ := List.mem_map.1 hl
    rw [strip_lineBytes (hw r hr)]
    exact lineBytes_ne_nil (hw r hr)
  have hlink : Linked R AuditLog.genesis (Lines.records (Lines.fileLines (render records))) := by
    rw [hholds, records_lineBytes hw]
    exact (linked_map hw).2 hchained
  obtain ⟨read, hload⟩ := loadLoop_linked 1 hblank hlink
  rw [← loaded_eq hw hholds (loadLoop_ok hload).2.2]
  exact hload

/-- The decision survives the reading. -/
theorem kind_readBack {R : Json.Reader} {r : Record} (hw : Writable R r) {k : Kind}
    (hk : (readBack r).kind? = some k) : r.kind? = some k := by
  rw [Record.kind?_eq_some] at hk ⊢
  exact (get?_readBack_str hw).1 hk

/-- Every record of a run can be written and read back, if its numbers can. -/
theorem Boot.Reachable.writable {R : Json.Reader} (h : B.Reachable cfg) (hdepth : 2 ≤ R.depth)
    (hn : ∀ x ∈ cfg.state.log, Numbered R x.record) : ∀ x ∈ cfg.state.log, Writable R x.record := by
  intro x hx
  obtain ⟨log, o, hrec, -⟩ := h.inv.persisted x hx
  have hnumbers := hn x hx
  rw [hrec] at hnumbers ⊢
  exact AuditLog.writable_persist (h.inv.regular x hx) hdepth hnumbers

/-- **The readers of the file find the run.**  In every interleaving that began with a new file, as
long as the log accepts entries and nothing has been appended behind a record whose call raised,
`_load_and_verify` reads from the bytes of the file exactly the records of the run, in the order of the
appends, and a restart accepts the file; where no call raised, it goes on from the hash at which the run
stands.  The verifier never reports an effect after the cancellation for the bytes of a run that did not
race. -/
theorem log_read_back {R : Json.Reader} (h : B.Reachable cfg) (hstart : B.audit.prev = AuditLog.genesis)
    (hempty : B.audit.file = []) (hhealthy : cfg.state.audit.healthy = true)
    (hlast : ∀ x ∈ cfg.state.log.dropLast, x.ok = true) (hdepth : 2 ≤ R.depth)
    (hn : ∀ x ∈ cfg.state.log, Numbered R x.record) :
    loadAndVerify R (.content (fileBytes cfg.state.audit.file)) =
        .ok (.ok (cfg.state.log.map fun x => readBack x.record)) ∧
      (∀ runId redaction durable, ∃ log,
        AuditLog.reopen runId redaction cfg.state.audit.file durable = some log ∧ log.healthy = durable ∧
          log.file = cfg.state.audit.file ∧
          ((∀ x ∈ cfg.state.log, x.ok = true) → log.prev = cfg.state.audit.prev)) ∧
      (cfg.state.raced = false → ∀ runId res,
        validateHistory (cfg.state.log.map fun x => readBack x.record) runId = .ok (.rejected res) →
          res.status ≠ .postCancellationEffect) := by
  have hw := h.writable hdepth hn
  have hfile := h.file_eq hempty hhealthy
  have hconsistent := B.consistent_reach h hstart
  have hchained := hconsistent.chained hlast
  have hwritable : ∀ r ∈ cfg.state.records, Writable R r := by
    intro r hr
    obtain ⟨x, hx, rfl⟩ := List.mem_map.1 hr
    exact hw x hx
  refine ⟨?_, fun runId redaction durable => ?_, fun hraced runId res hres => ?_⟩
  · rw [hfile, fileBytes_lineOf, load_render hwritable hchained, World.records, List.map_map]
    rfl
  · have hopen := AuditLog.reopen_chained hchained runId redaction durable
    rw [← hfile] at hopen
    exact ⟨_, hopen, rfl, rfl, fun hok => (hconsistent.tail hok).symm⟩
  · refine validateHistory_order ?_ hres
    have horder := h.inv.order.resolve_left (by rw [hraced]; decide)
    unfold AttemptsFirst
    rw [List.pairwise_map]
    refine horder.imp_of_mem fun {x y} hx hy hxy hreq hatt => ?_
    have hrequested := Entry.decision_requested (h.kind hx (kind_readBack (hw x hx) hreq))
    have hattempted := Entry.decision_attempted (h.kind hy (kind_readBack (hw y hy) hatt))
    have hno := hxy hrequested
    rw [hattempted] at hno
    cases hno

end

/-! ## A run to its end -/

/-- An integer of at most 4300 digits, or the time of the replay. -/
def Replay.numeral : Json → Bool
  | .int n => decide ((Nat.toDigits 10 n.natAbs).length ≤ Json.maxDigits)
  | .float text finite => decide (text = "1.5" ∧ finite = true)
  | _ => true

theorem Replay.numbered {r : Record} (h : ∀ f ∈ r, ∀ v ∈ f.2.parts, Replay.numeral v = true) :
    Numbered Sink.Demo.reader r := by
  intro f hf v hv hnum
  have hv := h f hf v hv
  cases v with
  | int n =>
    rw [Json.Proper]
    exact of_decide_eq_true hv
  | float text finite =>
    obtain ⟨rfl, rfl⟩ := of_decide_eq_true hv
    rw [Json.Proper]
    exact ⟨by decide, by decide⟩
  | _ => cases hnum

/-- The decisions of an attempt that is answered, and of the cancellation after it. -/
def Replay.decisions : List String :=
  ["AUTH_COMMITTED", "PERMIT_GRANTED", "EFFECT_ATTEMPTED", "EFFECT_COMPLETED", "ALLOW",
    "PERMIT_RELEASED", "CANCELLATION_REQUESTED", "CANCELLATION_LINEARIZED", "KILL_SWITCH",
    "CANCELLATION_ACK", "RUN_CLOSED"]

/-- The log is open, and complete. -/
def Replay.ended (cfg : Config Exn Cmd Cmd.Resp World) : Bool :=
  cfg.state.audit.healthy && decide (cfg.state.log.map (·.entry.decision) = Replay.decisions) &&
    cfg.state.log.all fun x => x.ok && x.record.all fun f => f.2.parts.all Replay.numeral

/-- A handler and then the canceller: both readers find their records. -/
theorem log_read_back_ended : ∃ cfg, Replay.boot.Reachable cfg ∧
    cfg.state.log.map (·.entry.decision) = Replay.decisions ∧
    loadAndVerify Sink.Demo.reader (.content (fileBytes cfg.state.audit.file)) =
      .ok (.ok (cfg.state.log.map fun x => readBack x.record)) := by
  obtain ⟨cfg, hr, hp⟩ := Replay.reachable Replay.fair Replay.accept
    (List.replicate 56 2 ++ List.replicate 16 0) (p := Replay.ended) (by decide +kernel)
  unfold Replay.ended at hp
  rw [Bool.and_eq_true, Bool.and_eq_true, decide_eq_true_eq, List.all_eq_true] at hp
  obtain ⟨⟨hhealthy, hdecisions⟩, hall⟩ := hp
  have hentry : ∀ x ∈ cfg.state.log, x.ok = true ∧ Numbered Sink.Demo.reader x.record := by
    intro x hx
    have hx' := hall x hx
    rw [Bool.and_eq_true, List.all_eq_true] at hx'
    exact ⟨hx'.1, Replay.numbered fun f hf v hv => List.all_eq_true.1 (hx'.2 f hf) v hv⟩
  refine ⟨cfg, hr, hdecisions, (log_read_back hr rfl rfl hhealthy ?_ (by decide) ?_).1⟩
  · exact fun x hx => (hentry x (List.dropLast_subset _ hx)).1
  · exact fun x hx => (hentry x hx).2

end StrixPEP
