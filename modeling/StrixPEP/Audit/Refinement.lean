import StrixPEP.Audit.Recovery

/-!
# The log of records and the log of bytes

The gateway's runs have an `AuditLog` whose calls end in an `Outcome`; on the storage a call goes
through `os.open`, `os.write`, `os.fsync` and `os.close`, and a restart reads the bytes that are left.
Here the first is what the second does, except after a restart on a file that ends with a record
without its line feed: there the next record goes into the same line.

* `Image` — the bytes of a file of lines;
* `Mirrors` — the sink is in the state of the log, and its file in that of the log's file;
* `Mirrors.call`, `Mirrors.reopen` — a call on the storage is a call of the log with the same ending,
  and a restart on the bytes is a restart on the lines;
* `sink_refines` — every life of the sink is a life of the log, whatever the storage does.
-/

namespace StrixPEP

/-! ## Files of lines -/

theorem render_concat (records : List Record) (r : Record) :
    render (records ++ [r]) = render records ++ (lineBytes r ++ [10]) := by
  unfold render
  rw [List.flatMap_append, List.flatMap_singleton]

/-- The beginning of a line is a text. -/
theorem cut_text {R : Json.Reader} {r : Record} (h : Writable R r) {seg : List UInt8}
    (hseg : seg <+: lineBytes r) : ∃ text : String, text.toUTF8.toList = seg := by
  have hprint := Json.dumps_printable h.1 (Nat.le_refl _)
  have hbytes : lineBytes r = (Json.dumps (.obj r)).toList.map Json.asciiByte := Json.toUTF8_ascii hprint
  rw [hbytes] at hseg
  obtain ⟨rest, hrest⟩ := hseg
  obtain ⟨s, t, hst, rfl, -⟩ := List.map_eq_append_iff.1 hrest.symm
  have hs : Json.Printable (String.ofList s).toList := by
    rw [String.toList_ofList]
    intro c hc
    refine hprint c ?_
    rw [hst]
    exact List.mem_append_left _ hc
  refine ⟨String.ofList s, ?_⟩
  rw [Json.toUTF8_ascii hs, String.toList_ofList]

/-- The bytes of a file of lines.  Where the last line lacks its line feed, or is cut, the sink
takes nothing more. -/
inductive Image (R : Json.Reader) (frozen : Prop) (file : List Line) (bytes : List UInt8) : Prop
  | whole (records : List Record) (hw : ∀ r ∈ records, Writable R r)
      (hfile : file = records.map AuditLog.lineOf) (hbytes : bytes = render records)
  | unfed (records : List Record) (r : Record) (hw : ∀ x ∈ records, Writable R x) (hr : Writable R r)
      (hfile : file = (records ++ [r]).map AuditLog.lineOf) (hbytes : bytes = render records ++ lineBytes r)
      (hf : frozen)
  | cut (records : List Record) (r : Record) (text : String) (hw : ∀ x ∈ records, Writable R x)
      (hr : Writable R r) (hseg : text.toUTF8.toList <+: lineBytes r) (hne : text.toUTF8.toList ≠ [])
      (hcut : text.toUTF8.toList ≠ lineBytes r) (hfile : file = records.map AuditLog.lineOf ++ [.torn text])
      (hbytes : bytes = render records ++ text.toUTF8.toList) (hf : frozen)

/-- A file that still grows consists of whole lines. -/
theorem Image.grows {R : Json.Reader} {frozen : Prop} {file : List Line} {bytes : List UInt8}
    (h : Image R frozen file bytes) (hf : ¬ frozen) :
    ∃ records, (∀ r ∈ records, Writable R r) ∧ file = records.map AuditLog.lineOf ∧ bytes = render records := by
  cases h with
  | whole records hw hfile hbytes => exact ⟨records, hw, hfile, hbytes⟩
  | unfed _ _ _ _ _ _ hfrozen => exact absurd hfrozen hf
  | cut _ _ _ _ _ _ _ _ _ _ hfrozen => exact absurd hfrozen hf

/-- A whole line more. -/
theorem Image.append {R : Json.Reader} {frozen : Prop} {file : List Line} {bytes : List UInt8}
    {records : List Record} {r : Record} (hw : ∀ x ∈ records, Writable R x) (hr : Writable R r)
    (hfile : file = records.map AuditLog.lineOf) (hbytes : bytes = render records) :
    Image R frozen (file ++ [AuditLog.lineOf r]) (bytes ++ (lineBytes r ++ [10])) := by
  refine .whole (records ++ [r]) (writable_concat hw hr) ?_ ?_
  · rw [hfile, List.map_append, List.map_singleton]
  · rw [hbytes, render_concat]

/-- What happens in the life of a log. -/
inductive LogStep where
  | call (c : Call)
  /-- `add_secret`. -/
  | secret (s : String)
  /-- `__init__` on the file that is there. -/
  | restart (runId : String) (redaction : List String) (durable : Bool)
  deriving Repr

namespace AuditLog

/-! ## The log of records -/

variable {a : AuditLog} {c : Call} {records : List Record} {prev : String}

theorem prevOf_eq_some {r : Record} : prevOf r = some prev ↔ r.get? "prev" = some (.str prev) := by
  unfold prevOf
  split
  · rename_i p hp
    rw [hp, Option.some.injEq, Option.some.injEq, Json.str.injEq]
  · rename_i hno
    exact ⟨nofun, fun h => absurd h (hno prev)⟩

/-- `verify` goes on behind a chain. -/
theorem verify_append (h : Chained prev records) (rest : List Line) :
    verify prev (records.map lineOf ++ rest) = verify (HashChain.tail recordHash prev records) rest := by
  induction records generalizing prev with
  | nil => rfl
  | cons r records ih =>
    rw [List.map_cons, List.cons_append, lineOf, verify, if_pos (prevOf_eq_some.1 h.1)]
    exact ih h.2

/-- `verify` accepts a chain. -/
theorem verify_chained (h : Chained prev records) : verify prev (records.map lineOf) = some true := by
  rw [← List.append_nil (records.map lineOf), verify_append h, verify]

/-- And it rejects records that are not chained. -/
theorem verify_broken (h : ¬ Chained prev records) (rest : List Line) :
    verify prev (records.map lineOf ++ rest) = some false := by
  induction records generalizing prev with
  | nil => exact absurd trivial h
  | cons r records ih =>
    rw [List.map_cons, List.cons_append, lineOf, verify]
    split
    · rename_i hprev
      exact ih fun hrest => h ⟨prevOf_eq_some.2 hprev, hrest⟩
    · rfl

/-- The hash that a reopened log goes on from. -/
theorem recoverTail_lineOf (records : List Record) : recoverTail (records.map lineOf) =
    (HashChain.tail recordHash genesis records, AuditFile.closes records) := by
  rcases List.eq_nil_or_concat records with rfl | ⟨records, r, rfl⟩
  · rfl
  · rw [List.concat_eq_append, HashChain.tail_append, List.map_append]
    unfold recoverTail AuditFile.closes
    rw [List.map_singleton, List.getLast?_concat, List.getLast?_concat]
    rfl

/-- A restart goes on from a chain. -/
theorem reopen_chained (h : Chained genesis records) (runId : String) (redaction : List String)
    (durable : Bool) : reopen runId redaction (records.map lineOf) durable =
      some ⟨runId, redaction, durable, AuditFile.closes records, HashChain.tail recordHash genesis records,
        records.map lineOf⟩ := by
  unfold reopen
  rw [verify_chained h, recoverTail_lineOf]

/-- After a restart on a broken chain the log takes nothing. -/
theorem reopen_broken (h : ¬ Chained genesis records) (runId : String) (redaction : List String)
    (durable : Bool) : reopen runId redaction (records.map lineOf) durable =
      some ⟨runId, redaction, false, false, genesis, records.map lineOf⟩ := by
  have hverify := verify_broken h []
  rw [List.append_nil] at hverify
  unfold reopen
  rw [hverify]

/-- Nor does it after a restart on a line that is cut. -/
theorem reopen_torn (records : List Record) (text : String) (runId : String) (redaction : List String)
    (durable : Bool) : reopen runId redaction (records.map lineOf ++ [.torn text]) durable =
      some ⟨runId, redaction, false, false, genesis, records.map lineOf ++ [.torn text]⟩ := by
  have hverify : verify genesis (records.map lineOf ++ [.torn text]) = some false := by
    by_cases h : Chained genesis records
    · rw [verify_append h, verify]
    · exact verify_broken h _
  unfold reopen
  rw [hverify]

/-- One call of the log. -/
def call (a : AuditLog) (c : Call) (o : Outcome) : Option AuditLog :=
  if c.final then a.sealWith c.fields o else a.write c.fields o

/-- A call that raises does not seal. -/
theorem call_raised {o : Outcome} (ho : o.ok = false) : a.call c o = a.write c.fields o := by
  unfold call sealWith
  split
  · cases a.write c.fields o with
    | none => rfl
    | some a' => simp [ho]
  · rfl

theorem write_open (hs : a.sealed = false) (hh : a.healthy = true) (horder : c.order.Perm a.redaction) :
    a.write c.fields (.written c.ts c.order) =
      some { a.append (lineOf (a.persist c.fields (.written c.ts c.order))) with
        prev := lineHash (Json.dumps (.obj (a.persist c.fields (.written c.ts c.order)))) } := by
  unfold write
  rw [if_neg (by simp [hs, hh])]
  simp only
  rw [if_pos horder]

theorem write_failed (hs : a.sealed = false) (hh : a.healthy = true) (horder : c.order.Perm a.redaction)
    (name : String) :
    a.write c.fields (.ioFailed name c.ts c.order .nothing) = some { a with healthy := false } ∧
      (∀ text, a.write c.fields (.ioFailed name c.ts c.order (.torn text)) =
        some { a.append (.torn text) with healthy := false }) ∧
      a.write c.fields (.ioFailed name c.ts c.order .whole) =
        some { a.append (lineOf (a.persist c.fields (.ioFailed name c.ts c.order .whole))) with
          healthy := false } := by
  have hopen : ¬ (a.sealed = true ∨ ¬ a.healthy = true) := by simp [hs, hh]
  refine ⟨?_, fun text => ?_, ?_⟩
  all_goals
    unfold write
    rw [if_neg hopen]
    simp only
    rw [if_pos horder]

theorem write_unclosed (hs : a.sealed = false) (hh : a.healthy = true) (horder : c.order.Perm a.redaction)
    (name : String) : a.write c.fields (.closeFailed name c.ts c.order) =
      some (a.append (lineOf (a.persist c.fields (.closeFailed name c.ts c.order)))) := by
  unfold write
  rw [if_neg (by simp [hs, hh])]
  simp only
  rw [if_pos horder]

/-- A call can raise before the storage is touched. -/
theorem call_early : ∃ o, o.ok = false ∧ a.call c o = some a := by
  by_cases hopen : a.sealed = true ∨ ¬ a.healthy = true
  · refine ⟨.refused, rfl, ?_⟩
    rw [call_raised rfl, write, if_pos hopen, if_pos rfl]
  · refine ⟨.openFailed "", rfl, ?_⟩
    rw [call_raised rfl, write, if_neg hopen]

theorem call_redaction {a' : AuditLog} {o : Outcome} (h : a.call c o = some a') :
    a'.redaction = a.redaction := by
  unfold call at h
  split at h
  · unfold sealWith at h
    split at h
    · cases h
    · rename_i log hlog
      cases h
      split <;> exact (write_cases hlog).2.1
  · exact (write_cases h).2.1

/-- The lives of the log, with how each call ends. -/
inductive Lives : AuditLog → List LogStep → List Ending → AuditLog → Prop where
  | done {a : AuditLog} : Lives a [] [] a
  | call {a a' b : AuditLog} {c : Call} {o : Outcome} {e : Ending} {steps : List LogStep} {es : List Ending}
      (hcall : a.call c o = some a') (hend : e = .returned ↔ o.ok = true) (hrest : Lives a' steps es b) :
      Lives a (.call c :: steps) (e :: es) b
  | secret {a b : AuditLog} {s : String} {steps : List LogStep} {es : List Ending}
      (hrest : Lives (a.addSecret s) steps es b) : Lives a (.secret s :: steps) es b
  | restart {a a' b : AuditLog} {runId : String} {redaction : List String} {durable : Bool}
      {steps : List LogStep} {es : List Ending} (hopen : reopen runId redaction a.file durable = some a')
      (hrest : Lives a' steps es b) : Lives a (.restart runId redaction durable :: steps) es b

end AuditLog

/-! ## One step -/

/-- The sink is in the state of the log, and its file in that of the log's file. -/
structure Mirrors (R : Json.Reader) (a : AuditLog) (s : Sink) : Prop where
  runId : s.runId = a.runId
  healthy : s.healthy = a.healthy
  sealed : s.sealed = a.sealed
  prev : s.prev = a.prev
  image : Image R s.Frozen a.file s.bytes

namespace Mirrors

variable {R : Json.Reader} {a : AuditLog} {s s' : Sink} {c : Call}

theorem fresh (R : Json.Reader) (runId : String) :
    Mirrors R ⟨runId, [], true, false, AuditLog.genesis, []⟩ (Sink.fresh runId) :=
  ⟨rfl, rfl, rfl, rfl, .whole [] nofun rfl rfl⟩

theorem addSecret (h : Mirrors R a s) (secret : String) : Mirrors R (a.addSecret secret) s := by
  unfold AuditLog.addSecret
  split
  · exact h
  · exact ⟨h.runId, h.healthy, h.sealed, h.prev, h.image⟩

theorem persist (h : Mirrors R a s) {o : Outcome} (hts : o.ts = c.ts) (horder : o.order = c.order) :
    a.persist c.fields o = s.record c := by
  unfold AuditLog.persist Sink.record recordOf
  rw [hts, horder, h.runId, h.prev]

/-- The log is open where the sink is, and then the file consists of whole lines. -/
theorem opened (h : Mirrors R a s) (hs : s.sealed = false) (hh : s.healthy = true) :
    a.sealed = false ∧ a.healthy = true ∧ ∃ records, (∀ r ∈ records, Writable R r) ∧
      a.file = records.map AuditLog.lineOf ∧ s.bytes = render records := by
  refine ⟨h.sealed ▸ hs, h.healthy ▸ hh, h.image.grows ?_⟩
  rintro (hs' | hh')
  · rw [hs] at hs'
    cases hs'
  · rw [hh] at hh'
    cases hh'

/-- A call that returns. -/
theorem returned (h : Mirrors R a s) (hs : s.sealed = false) (hh : s.healthy = true)
    (horder : c.order.Perm a.redaction) (hr : Writable R (s.record c)) :
    ∃ a', a.call c (.written c.ts c.order) = some a' ∧ Mirrors R a'
      { s with
        sealed := c.final
        prev := Sha256.hexdigest (lineBytes (s.record c))
        bytes := s.bytes ++ (lineBytes (s.record c) ++ [10]) } := by
  obtain ⟨hs', hh', records, hw, hfile, hbytes⟩ := h.opened hs hh
  have hrecord : a.persist c.fields (.written c.ts c.order) = s.record c := h.persist rfl rfl
  have hwrite := AuditLog.write_open hs' hh' horder
  rw [hrecord] at hwrite
  refine ⟨{ a.append (AuditLog.lineOf (s.record c)) with
    prev := AuditLog.lineHash (Json.dumps (.obj (s.record c))), sealed := c.final }, ?_, ?_⟩
  · unfold AuditLog.call AuditLog.sealWith
    rw [hwrite]
    cases hfinal : c.final with
    | true => rfl
    | false =>
      rw [if_neg (by decide), ← hs']
      rfl
  · exact ⟨h.runId, h.healthy, rfl, rfl, .append hw hr hfile hbytes⟩

/-- A call whose `os.close` raises. -/
theorem unclosed (h : Mirrors R a s) (hs : s.sealed = false) (hh : s.healthy = true)
    (horder : c.order.Perm a.redaction) (hr : Writable R (s.record c)) :
    ∃ a', a.write c.fields (.closeFailed "" c.ts c.order) = some a' ∧
      Mirrors R a' { s with bytes := s.bytes ++ (lineBytes (s.record c) ++ [10]) } := by
  obtain ⟨hs', hh', records, hw, hfile, hbytes⟩ := h.opened hs hh
  have hrecord : a.persist c.fields (.closeFailed "" c.ts c.order) = s.record c := h.persist rfl rfl
  have hwrite := AuditLog.write_unclosed hs' hh' horder ""
  rw [hrecord] at hwrite
  exact ⟨_, hwrite, h.runId, h.healthy, h.sealed, h.prev, .append hw hr hfile hbytes⟩

/-- A call that raises in a write or the `fsync`: what has reached the file decides the residue. -/
theorem latched (h : Mirrors R a s) (hs : s.sealed = false) (hh : s.healthy = true)
    (horder : c.order.Perm a.redaction) (hr : Writable R (s.record c)) {w : List UInt8}
    (hw : w <+: lineBytes (s.record c) ++ [10]) :
    ∃ residue a', a.write c.fields (.ioFailed "" c.ts c.order residue) = some a' ∧
      Mirrors R a' { s with healthy := false, bytes := s.bytes ++ w } := by
  obtain ⟨hs', hh', records, hrecords, hfile, hbytes⟩ := h.opened hs hh
  have hrecord : a.persist c.fields (.ioFailed "" c.ts c.order .whole) = s.record c := h.persist rfl rfl
  obtain ⟨hnothing, htorn, hwritten⟩ := AuditLog.write_failed hs' hh' horder ""
  rcases List.prefix_concat_iff.1 hw with rfl | hcut
  · -- the whole line
    refine ⟨.whole, _, hwritten, h.runId, rfl, h.sealed, h.prev, ?_⟩
    rw [hrecord]
    exact .append hrecords hr hfile hbytes
  by_cases hwhole : w = lineBytes (s.record c)
  · -- all but its line feed
    refine ⟨.whole, _, hwritten, h.runId, rfl, h.sealed, h.prev, ?_⟩
    rw [hrecord]
    refine .unfed records (s.record c) hrecords hr ?_ ?_ (Or.inr rfl)
    · rw [List.map_append, List.map_singleton, ← hfile]
      rfl
    · rw [hbytes, hwhole]
  by_cases hnil : w = []
  · -- nothing
    refine ⟨.nothing, _, hnothing, h.runId, rfl, h.sealed, h.prev, .whole records hrecords hfile ?_⟩
    rw [hnil, List.append_nil, hbytes]
  · -- a part of it
    obtain ⟨text, rfl⟩ := cut_text hr hcut
    refine ⟨.torn text, _, htorn text, h.runId, rfl, h.sealed, h.prev, ?_⟩
    refine .cut records (s.record c) text hrecords hr hcut hnil hwhole ?_ ?_ (Or.inr rfl)
    · rw [← hfile]
      rfl
    · rw [hbytes]

/-- **A call on the storage is a call of the log.** -/
theorem call {e : Ending} (h : Mirrors R a s) (hc : s.call c = some (e, s')) (hread : c.Readable R)
    (horder : c.order.Perm a.redaction) :
    ∃ o a', a.call c o = some a' ∧ (e = .returned ↔ o.ok = true) ∧ Mirrors R a' s' := by
  have hwritable : s' ≠ s ∨ e = .returned → Writable R (s.record c) := by
    intro hne
    have horigin : Sink.Origin [c] (s.record c) := Sink.origin_record hc hne
    refine horigin.writable fun d hd => ?_
    rw [List.mem_singleton.1 hd]
    exact hread
  cases Sink.call_effect hc with
  | refused _ | early _ =>
    obtain ⟨o, ho, hcall⟩ := @AuditLog.call_early a c
    exact ⟨o, a, hcall, ⟨nofun, fun hok => absurd (ho.symm.trans hok) nofun⟩, h⟩
  | returned hs hh =>
    obtain ⟨a', hcall, hmirrors⟩ := h.returned hs hh horder (hwritable (Or.inr rfl))
    exact ⟨_, a', hcall, ⟨fun _ => rfl, fun _ => rfl⟩, hmirrors⟩
  | unclosed hs hh _ =>
    have hne : { s with bytes := s.bytes ++ (lineBytes (s.record c) ++ [10]) } ≠ s := by
      intro hsame
      have hlen := congrArg List.length (congrArg Sink.bytes hsame)
      rw [List.length_append, List.length_append, List.length_singleton] at hlen
      omega
    obtain ⟨a', hwrite, hmirrors⟩ := h.unclosed hs hh horder (hwritable (Or.inl hne))
    exact ⟨_, a', (AuditLog.call_raised rfl).trans hwrite, ⟨nofun, nofun⟩, hmirrors⟩
  | latched w hs hh hw =>
    have hne : { s with healthy := false, bytes := s.bytes ++ w } ≠ s := by
      intro hsame
      have hfalse := congrArg Sink.healthy hsame
      rw [hh] at hfalse
      cases hfalse
    obtain ⟨residue, a', hwrite, hmirrors⟩ := h.latched hs hh horder (hwritable (Or.inl hne)) hw
    exact ⟨_, a', (AuditLog.call_raised rfl).trans hwrite, ⟨nofun, nofun⟩, hmirrors⟩

/-- **A restart on the bytes is a restart on the lines.** -/
theorem reopen (h : Mirrors R a s) (runId : String) (redaction : List String) {durable : Bool}
    (hfed : durable = true → ¬ Unterminated R s.bytes) :
    ∃ b t, AuditLog.reopen runId redaction a.file durable = some b ∧ b.redaction = redaction ∧
      Sink.reopen R runId s.bytes durable = .ok t ∧ Mirrors R b t := by
  cases h.image with
  | whole records hw hfile hbytes =>
    obtain ⟨hchain, hopen⟩ | ⟨hbroken, hopen⟩ := (AuditFile.holds_render hw).reopen hw runId durable
    · rw [hfile, hbytes, AuditLog.reopen_chained hchain, hopen]
      exact ⟨_, _, rfl, rfl, rfl, rfl, rfl, rfl, rfl, .whole records hw rfl rfl⟩
    · rw [hfile, hbytes, AuditLog.reopen_broken hbroken, hopen]
      exact ⟨_, _, rfl, rfl, rfl, rfl, rfl, rfl, rfl, .whole records hw rfl rfl⟩
  | unfed records r hw hr hfile hbytes _ =>
    have hall := writable_concat hw hr
    obtain ⟨hchain, hopen⟩ | ⟨hbroken, hopen⟩ :=
      (AuditFile.holds_unterminated hw hr).reopen hall runId durable
    · have hfrozen : AuditFile.closes (records ++ [r]) = true ∨ durable = false := by
        cases durable with
        | false => exact Or.inr rfl
        | true =>
          left
          have hno := hfed rfl
          rw [hbytes, unterminated_iff hw hr] at hno
          rw [← Bool.not_eq_false]
          exact fun hcloses => hno ⟨hchain, hcloses⟩
      rw [hfile, hbytes, AuditLog.reopen_chained hchain, hopen]
      exact ⟨_, _, rfl, rfl, rfl, rfl, rfl, rfl, rfl, .unfed records r hw hr rfl rfl hfrozen⟩
    · rw [hfile, hbytes, AuditLog.reopen_broken hbroken, hopen]
      exact ⟨_, _, rfl, rfl, rfl, rfl, rfl, rfl, rfl, .unfed records r hw hr rfl rfl (Or.inr rfl)⟩
  | cut records r text hw hr hseg hne hcut hfile hbytes _ =>
    have hopen := AuditFile.reopen_torn hw hr hseg hne hcut runId durable
    rw [hfile, hbytes, AuditLog.reopen_torn, hopen]
    exact ⟨_, _, rfl, rfl, rfl, rfl, rfl, rfl, rfl,
      .cut records r text hw hr hseg hne hcut rfl rfl (Or.inr rfl)⟩

end Mirrors

/-! ## Whole lives -/

namespace Sink

/-- The steps on the storage; the secrets are in the calls. -/
def life (R : Json.Reader) (s : Sink) : List LogStep → Option (List Ending × Sink)
  | [] => some ([], s)
  | .call c :: steps =>
    match s.call c with
    | none => none
    | some (e, s') => (life R s' steps).map fun x => (e :: x.1, x.2)
  | .secret _ :: steps => life R s steps
  | .restart runId _ durable :: steps =>
    match Sink.reopen R runId s.bytes durable with
    | .error _ => none
    | .ok s' => life R s' steps

/-- Each call goes through the secrets that are known then, in any order, and writes what can be
read; and the sink is not reopened on a last record without its line feed, unless it closes the run
or the directory cannot be synced. -/
def Admits (R : Json.Reader) : List String → Sink → List LogStep → Prop
  | _, _, [] => True
  | redaction, s, .call c :: steps =>
    c.Readable R ∧ c.order.Perm redaction ∧ ∀ e s', s.call c = some (e, s') → Admits R redaction s' steps
  | redaction, s, .secret x :: steps =>
    Admits R (if x = "" ∨ x ∈ redaction then redaction else redaction ++ [x]) s steps
  | _, s, .restart runId redaction durable :: steps =>
    (durable = true → ¬ Unterminated R s.bytes) ∧
      ∀ s', Sink.reopen R runId s.bytes durable = .ok s' → Admits R redaction s' steps

end Sink

theorem AuditLog.addSecret_redaction (a : AuditLog) (x : String) : (a.addSecret x).redaction =
    if x = "" ∨ x ∈ a.redaction then a.redaction else a.redaction ++ [x] := by
  unfold AuditLog.addSecret
  split <;> rfl

/-- **The storage refines the log.**  Whatever the storage does in the calls, whichever secrets are
added between them and however often the log is opened again, the calls end as in a life of the log
of records, and the sink is left in the state of that log, with its lines in the file. -/
theorem sink_refines {R : Json.Reader} {a : AuditLog} {s t : Sink} {steps : List LogStep} {es : List Ending}
    (h : Mirrors R a s) (hadmits : s.Admits R a.redaction steps) (hlife : s.life R steps = some (es, t)) :
    ∃ b, a.Lives steps es b ∧ Mirrors R b t := by
  induction steps generalizing a s es with
  | nil =>
    cases hlife
    exact ⟨a, .done, h⟩
  | cons step steps ih =>
    cases step with
    | call c =>
      obtain ⟨hread, horder, hrest⟩ := hadmits
      unfold Sink.life at hlife
      split at hlife
      · cases hlife
      rename_i e s' hcall
      obtain ⟨⟨es', t'⟩, hlife', hes⟩ := Option.map_eq_some_iff.1 hlife
      cases hes
      obtain ⟨o, a', hlog, hend, hmirrors⟩ := h.call hcall hread horder
      have hadmits' : s'.Admits R a'.redaction steps := by
        rw [AuditLog.call_redaction hlog]
        exact hrest e s' hcall
      obtain ⟨b, hlives, hb⟩ := ih hmirrors hadmits' hlife'
      exact ⟨b, .call hlog hend hlives, hb⟩
    | secret x =>
      have hadmits' : s.Admits R (a.addSecret x).redaction steps := by
        rw [AuditLog.addSecret_redaction]
        exact hadmits
      obtain ⟨b, hlives, hb⟩ := ih (h.addSecret x) hadmits' hlife
      exact ⟨b, .secret hlives, hb⟩
    | restart runId redaction durable =>
      obtain ⟨hfed, hrest⟩ := hadmits
      obtain ⟨a', s', hlog, hredaction, hopen, hmirrors⟩ := h.reopen runId redaction hfed
      unfold Sink.life at hlife
      rw [hopen] at hlife
      have hadmits' : s'.Admits R a'.redaction steps := by
        rw [hredaction]
        exact hrest s' hopen
      obtain ⟨b, hlives, hb⟩ := ih hmirrors hadmits' hlife
      exact ⟨b, .restart hlog hlives, hb⟩

/-- A restart on an empty file, a call whose `os.open` fails, and one that returns. -/
theorem sink_refines_demo : ∃ b,
    AuditLog.Lives ⟨"run-1", [], true, false, AuditLog.genesis, []⟩
        [.restart "run-1" [] true, .call Sink.Demo.unopened, .call Sink.Demo.plain] [.raised, .returned] b ∧
      Mirrors Sink.Demo.reader b Sink.Demo.logged := by
  have hopen : Sink.reopen Sink.Demo.reader "run-1" [] true = .ok Sink.Demo.log := rfl
  have hlife : (Sink.fresh "run-1").life Sink.Demo.reader
      [.restart "run-1" [] true, .call Sink.Demo.unopened, .call Sink.Demo.plain] =
        some ([.raised, .returned], Sink.Demo.logged) := by
    simp only [Sink.life, show (Sink.fresh "run-1").bytes = [] from rfl, hopen, Sink.Demo.call_unopened,
      Sink.Demo.call_plain, Option.map_some]
  have hunopened : Sink.Demo.unopened.Readable Sink.Demo.reader := Sink.Demo.plain_readable
  refine sink_refines (Mirrors.fresh Sink.Demo.reader "run-1") ⟨fun _ => ?_, fun s' hs' => ?_⟩ hlife
  · rintro ⟨-, record, hload, -⟩
    rw [show lastLine (Sink.fresh "run-1").bytes = [] from rfl, loads_nil] at hload
    cases hload
  · cases hs'
    refine ⟨hunopened, List.Perm.refl [], fun e s' hcall => ⟨Sink.Demo.plain_readable, List.Perm.refl [], ?_⟩⟩
    exact fun _ _ _ => trivial

end StrixPEP
