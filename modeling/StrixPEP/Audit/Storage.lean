import StrixPEP.Json.Bytes
import StrixPEP.Lib.HashChain

/-!
# The audit log on its storage

`Sink` is an `AuditLog` with the bytes of its file; a call goes through the steps of `write`: the
text of the record, `os.open`, the loop of `os.write`, `os.fsync` and `os.close`, each of which may
fail.  Calls of any threads are serialised by the lock, so a run is a list of calls.

* `writeAll` — `_write_all`, with what each `os.write` does;
* `Sink.write`, `Sink.sealWith` — one call, with how it ends;
* `run` — the calls in lock order.

Principal results: `run_bytes` (the file holds the lines of the calls that returned, in order and
chained, and at most one more piece) and `failure_latched`.
-/

namespace StrixPEP

/-- What one `os.write` does. -/
inductive WriteResult where
  | wrote (n : Nat)
  | raised
  deriving DecidableEq, Repr

/-- `_write_all`: the bytes that reach the file, and whether the call returns; `none` where the
results are not those of a call. -/
def writeAll : List WriteResult → List UInt8 → Option (List UInt8 × Bool)
  | [], [] => some ([], true)
  | _ :: _, [] => none
  | [], _ :: _ => none
  | .raised :: rest, _ :: _ => if rest = [] then some ([], false) else none
  | .wrote n :: rest, b :: data =>
    if (b :: data).length < n then none
    else if n = 0 then if rest = [] then some ([], false) else none
    else
      match writeAll rest ((b :: data).drop n) with
      | none => none
      | some (w, ok) => some ((b :: data).take n ++ w, ok)

/-- The record of `write`. -/
def recordOf (runId prev : String) (fields : Fields) (ts : String) (order : List String) : Record :=
  let rec_ := fields.map fun e => (e.1, e.2.scrubbed order)
  Dict.set (Dict.set (Dict.set rec_ "ts" (.float ts true)) "run_id" (.str runId)) "prev" (.str prev)

/-- The line of a record. -/
def lineBytes (record : Record) : List UInt8 := (Json.dumps (.obj record)).toUTF8.toList

/-- One call, with what the clock, the set of secrets and the storage do in it. -/
structure Call where
  fields : Fields
  /-- `seal_with` instead of `write`. -/
  final : Bool
  ts : String
  order : List String
  serializes : Bool
  opens : Bool
  writes : List WriteResult
  syncs : Bool
  closes : Bool
  deriving DecidableEq, Repr

structure Sink where
  runId : String
  healthy : Bool
  sealed : Bool
  prev : String
  bytes : List UInt8
  deriving DecidableEq, Repr

/-- How a call ends: it returns, it is refused because the log is sealed or unhealthy, or it
raises for another reason. -/
inductive Ending where
  | returned
  | refused
  | raised
  deriving DecidableEq, Repr

namespace Sink

/-- The record that a call writes. -/
def record (s : Sink) (c : Call) : Record := recordOf s.runId s.prev c.fields c.ts c.order

/-- `write`. -/
def write (s : Sink) (c : Call) : Option (Ending × Sink) :=
  if s.sealed then some (.refused, s)
  else if !s.healthy then some (.refused, s)
  else if !c.serializes then some (.raised, s)
  else if !c.opens then some (.raised, s)
  else
    let line := lineBytes (s.record c)
    match writeAll c.writes (line ++ [10]) with
    | none => none
    | some (w, ok) =>
      let s' := { s with bytes := s.bytes ++ w }
      if ok && c.syncs then
        if c.closes then some (.returned, { s' with prev := Sha256.hexdigest line })
        else some (.raised, s')
      else some (.raised, { s' with healthy := false })

/-- `seal_with`. -/
def sealWith (s : Sink) (c : Call) : Option (Ending × Sink) :=
  if c.fields.lookup "decision" ≠ some (.json (.str "RUN_CLOSED")) then some (.raised, s)
  else if s.sealed then some (.refused, s)
  else
    match s.write c with
    | some (.returned, s') => some (.returned, { s' with sealed := true })
    | r => r

def call (s : Sink) (c : Call) : Option (Ending × Sink) :=
  if c.final then s.sealWith c else s.write c

/-- The calls in lock order, with how each ends. -/
def run (s : Sink) : List Call → Option (List Ending × Sink)
  | [] => some ([], s)
  | c :: cs =>
    match s.call c with
    | none => none
    | some (e, s') =>
      match run s' cs with
      | none => none
      | some (es, t) => some (e :: es, t)

end Sink

/-! ## `_write_all` -/

/-- What reaches the file is a beginning of the data, and all of it if the call returns. -/
theorem writeAll_spec {results : List WriteResult} {data w : List UInt8} {ok : Bool}
    (h : writeAll results data = some (w, ok)) : w <+: data ∧ (ok = true → w = data) := by
  induction results generalizing data w with
  | nil =>
    cases data with
    | nil =>
      cases h
      exact ⟨List.prefix_rfl, fun _ => rfl⟩
    | cons b data => cases h
  | cons r results ih =>
    cases data with
    | nil => cases h
    | cons b data =>
      cases r with
      | raised =>
        simp only [writeAll] at h
        split at h
        · cases h
          exact ⟨List.nil_prefix, fun h => by cases h⟩
        · cases h
      | wrote n =>
        simp only [writeAll] at h
        split at h
        · cases h
        split at h
        · split at h
          · cases h
            exact ⟨List.nil_prefix, fun h => by cases h⟩
          · cases h
        split at h
        · cases h
        rename_i w' ok' hrec
        cases h
        obtain ⟨⟨t, ht⟩, hall⟩ := ih hrec
        refine ⟨⟨t, ?_⟩, ?_⟩
        · rw [List.append_assoc, ht, List.take_append_drop]
        · intro hok
          rw [hall hok, List.take_append_drop]

/-! ## One call -/

/-- What a call can do to a log. -/
inductive Sink.Effect (s : Sink) (c : Call) : Ending → Sink → Prop
  /-- The line is written; `seal_with` seals. -/
  | returned (hs : s.sealed = false) (hh : s.healthy = true) :
      Effect s c .returned
        { s with
          sealed := c.final
          prev := Sha256.hexdigest (lineBytes (s.record c))
          bytes := s.bytes ++ (lineBytes (s.record c) ++ [10]) }
  | refused (hs : s.sealed = true ∨ s.healthy = false) : Effect s c .refused s
  /-- It raises before the storage is touched. -/
  | early (hc : c.serializes = false ∨ c.opens = false ∨
      c.final = true ∧ c.fields.lookup "decision" ≠ some (.json (.str "RUN_CLOSED"))) :
      Effect s c .raised s
  /-- It raises in a write or the `fsync`. -/
  | latched (w : List UInt8) (hs : s.sealed = false) (hh : s.healthy = true)
      (hw : w <+: lineBytes (s.record c) ++ [10]) :
      Effect s c .raised { s with healthy := false, bytes := s.bytes ++ w }
  /-- It raises in the `close`. -/
  | unclosed (hs : s.sealed = false) (hh : s.healthy = true) (hc : c.closes = false) :
      Effect s c .raised { s with bytes := s.bytes ++ (lineBytes (s.record c) ++ [10]) }

namespace Sink

theorem write_effect {s s' : Sink} {c : Call} {e : Ending} (h : s.write c = some (e, s')) :
    e = .returned ∧ Effect s { c with final := false } .returned s' ∨
      e ≠ .returned ∧ Effect s c e s' := by
  unfold write at h
  split at h
  · rename_i hs
    cases h
    exact Or.inr ⟨nofun, .refused (Or.inl hs)⟩
  rename_i hs
  rw [Bool.not_eq_true] at hs
  split at h
  · rename_i hh
    cases h
    exact Or.inr ⟨nofun, .refused (Or.inr (by simpa using hh))⟩
  rename_i hh
  have hh' : s.healthy = true := by simpa using hh
  split at h
  · rename_i hc
    cases h
    exact Or.inr ⟨nofun, .early (Or.inl (by simpa using hc))⟩
  split at h
  · rename_i hc
    cases h
    exact Or.inr ⟨nofun, .early (Or.inr (Or.inl (by simpa using hc)))⟩
  simp only at h
  split at h
  · cases h
  rename_i w ok hw
  obtain ⟨hpre, hall⟩ := writeAll_spec hw
  split at h
  · rename_i hok
    have hw' : w = lineBytes (s.record c) ++ [10] := hall (Bool.and_eq_true_iff.1 hok).1
    split at h
    · cases h
      left
      refine ⟨rfl, ?_⟩
      have := Effect.returned (c := { c with final := false }) hs hh'
      rw [hw', ← hs]
      simpa [hs, record] using this
    · rename_i hc
      cases h
      right
      refine ⟨nofun, ?_⟩
      rw [hw']
      exact .unclosed hs hh' (by simpa using hc)
  · cases h
    exact Or.inr ⟨nofun, .latched w hs hh' hpre⟩

/-- **Everything a call can do.** -/
theorem call_effect {s s' : Sink} {c : Call} {e : Ending} (h : s.call c = some (e, s')) :
    Effect s c e s' := by
  unfold call at h
  split at h
  · rename_i hseal
    unfold sealWith at h
    split at h
    · rename_i hd
      cases h
      exact .early (Or.inr (Or.inr ⟨hseal, hd⟩))
    split at h
    · rename_i hs
      cases h
      exact .refused (Or.inl hs)
    split at h
    · rename_i s'' hw
      cases h
      obtain ⟨-, heff⟩ | ⟨hne, -⟩ := write_effect hw
      · cases heff with
        | returned hs hh =>
          have := Effect.returned (c := c) hs hh
          simpa [hseal, record] using this
      · exact absurd rfl hne
    · rename_i hne
      obtain ⟨rfl, -⟩ | ⟨-, heff⟩ := write_effect h
      · exact absurd h (hne s')
      · exact heff
  · rename_i hseal
    obtain ⟨rfl, heff⟩ | ⟨-, heff⟩ := write_effect h
    · cases heff with
      | returned hs hh =>
        have := Effect.returned (c := c) hs hh
        rw [Bool.not_eq_true] at hseal
        simpa [hseal, record] using this
    · exact heff

/-! ## Runs -/

/-- The records of the calls that returned, in lock order. -/
def returned (s : Sink) : List Call → List Record
  | [] => []
  | c :: cs =>
    match s.call c with
    | none => []
    | some (.returned, s') => s.record c :: returned s' cs
    | some (_, s') => returned s' cs

end Sink

/-- Records as lines of a file. -/
def render (records : List Record) : List UInt8 := records.flatMap fun r => lineBytes r ++ [10]

/-- The hash that a record names. -/
def prevOf (r : Record) : Option String :=
  match r.get? "prev" with
  | some (.str prev) => some prev
  | _ => none

def recordHash (r : Record) : String := Sha256.hexdigest (lineBytes r)

/-- Each record names the one before it. -/
def Chained : String → List Record → Prop := HashChain.Chain prevOf recordHash

theorem prevOf_recordOf (runId prev : String) (fields : Fields) (ts : String)
    (order : List String) : prevOf (recordOf runId prev fields ts order) = some prev := by
  have h : Record.get? (recordOf runId prev fields ts order) "prev" = some (.str prev) :=
    Dict.lookup_set_self _ _ _
  unfold prevOf
  rw [h]

namespace Sink

/-- A log that is sealed or unhealthy takes nothing more. -/
def Frozen (s : Sink) : Prop := s.sealed = true ∨ s.healthy = false

theorem Frozen.call {s s' : Sink} {c : Call} {e : Ending} (hs : s.Frozen)
    (h : s.call c = some (e, s')) : s' = s ∧ e ≠ .returned := by
  cases call_effect h with
  | returned hs' hh =>
    rcases hs with hs | hs
    · rw [hs] at hs'
      cases hs'
    · rw [hs] at hh
      cases hh
  | refused _ => exact ⟨rfl, nofun⟩
  | early _ => exact ⟨rfl, nofun⟩
  | latched w hs' hh _ =>
    rcases hs with hs | hs
    · rw [hs] at hs'
      cases hs'
    · rw [hs] at hh
      cases hh
  | unclosed hs' hh _ =>
    rcases hs with hs | hs
    · rw [hs] at hs'
      cases hs'
    · rw [hs] at hh
      cases hh

theorem run_cons {s t : Sink} {c : Call} {cs : List Call} {es : List Ending}
    (h : s.run (c :: cs) = some (es, t)) :
    ∃ e s' es', s.call c = some (e, s') ∧ s'.run cs = some (es', t) ∧ es = e :: es' ∧
      s.returned (c :: cs) =
        (if e = .returned then [s.record c] else []) ++ s'.returned cs := by
  simp only [run] at h
  split at h
  · cases h
  rename_i e s' hc
  split at h
  · cases h
  rename_i es' t' hrun
  cases h
  refine ⟨e, s', es', hc, hrun, rfl, ?_⟩
  cases e with
  | returned => simp [returned, hc]
  | refused => simp [returned, hc]
  | raised => simp [returned, hc]

theorem Frozen.run {s t : Sink} {cs : List Call} {es : List Ending} (hs : s.Frozen)
    (h : s.run cs = some (es, t)) : t = s ∧ Ending.returned ∉ es ∧ s.returned cs = [] := by
  induction cs generalizing es with
  | nil =>
    cases h
    exact ⟨rfl, List.not_mem_nil, rfl⟩
  | cons c cs ih =>
    obtain ⟨e, s', es', hc, hrun, rfl, hret⟩ := run_cons h
    obtain ⟨rfl, he⟩ := hs.call hc
    obtain ⟨h1, h2, h3⟩ := ih hrun
    refine ⟨h1, ?_, ?_⟩
    · rw [List.mem_cons, not_or]
      exact ⟨fun hr => he hr.symm, h2⟩
    · rw [hret, if_neg he, h3, List.nil_append]

/-- What is left of a call that raised: a beginning of its line. -/
def Residue (s : Sink) (prev : String) (cs : List Call) (rest : List UInt8) : Prop :=
  ∃ c ∈ cs, rest <+: lineBytes (recordOf s.runId prev c.fields c.ts c.order) ++ [10]

theorem call_runId {s s' : Sink} {c : Call} {e : Ending} (h : s.call c = some (e, s')) :
    s'.runId = s.runId := by
  cases call_effect h <;> rfl

/-- **The file after any run**: the lines of the calls that returned, in lock order and chained, and
at most a beginning of one more line. -/
theorem run_bytes {s t : Sink} {cs : List Call} {es : List Ending}
    (hclose : ∀ c ∈ cs, c.closes = true) (h : s.run cs = some (es, t)) :
    Chained s.prev (s.returned cs) ∧
      ∃ rest, t.bytes = s.bytes ++ render (s.returned cs) ++ rest ∧
        (rest = [] ∨ t.healthy = false ∧
          s.Residue (HashChain.tail recordHash s.prev (s.returned cs)) cs rest) := by
  induction cs generalizing s es with
  | nil =>
    cases h
    exact ⟨trivial, [], by simp [returned, render], Or.inl rfl⟩
  | cons c cs ih =>
    obtain ⟨e, s', es', hc, hrun, rfl, hret⟩ := run_cons h
    have hid := call_runId hc
    obtain ⟨hchain, rest, hbytes, hrest⟩ := ih (fun d hd => hclose d (List.mem_cons_of_mem _ hd)) hrun
    have hres : ∀ {p rest}, s'.Residue p cs rest → s.Residue p (c :: cs) rest := by
      rintro p rest ⟨d, hd, hp⟩
      rw [hid] at hp
      exact ⟨d, List.mem_cons_of_mem _ hd, hp⟩
    rw [hret]
    cases call_effect hc with
    | returned hs hh =>
      rw [if_pos rfl, List.singleton_append]
      refine ⟨⟨prevOf_recordOf _ _ _ _ _, hchain⟩, rest, ?_, ?_⟩
      · rw [hbytes]
        simp [render]
      · exact hrest.imp_right fun ⟨h1, h2⟩ => ⟨h1, hres h2⟩
    | refused hs =>
      rw [if_neg nofun, List.nil_append]
      exact ⟨hchain, rest, hbytes, hrest.imp_right fun ⟨h1, h2⟩ => ⟨h1, hres h2⟩⟩
    | early hc =>
      rw [if_neg nofun, List.nil_append]
      exact ⟨hchain, rest, hbytes, hrest.imp_right fun ⟨h1, h2⟩ => ⟨h1, hres h2⟩⟩
    | latched w hs hh hw =>
      -- from here on the log is frozen
      obtain ⟨rfl, -, hnone⟩ := Frozen.run (Or.inr rfl) hrun
      rw [if_neg nofun, List.nil_append, hnone]
      refine ⟨trivial, w, ?_, Or.inr ⟨rfl, c, List.mem_cons_self, hw⟩⟩
      simp [render]
    | unclosed hs hh hcl =>
      rw [hclose c List.mem_cons_self] at hcl
      cases hcl

/-- Once a call has raised, the log is unhealthy and no later call returns. -/
def Latched (es : List Ending) (t : Sink) : Prop :=
  ∀ pre post, es = pre ++ .raised :: post → t.healthy = false ∧ Ending.returned ∉ post

/-- No record is lost silently in a run. -/
structure NoSilentLoss (s : Sink) (cs : List Call) (es : List Ending) (t : Sink) : Prop where
  file : ∃ rest, t.bytes = s.bytes ++ render (s.returned cs) ++ rest ∧
    (rest = [] ∨ s.Residue (HashChain.tail recordHash s.prev (s.returned cs)) cs rest)
  chain : Chained s.prev (s.returned cs)
  latch : Latched es t

end Sink

/-- The call does not fail before its first `os.write`. -/
def Call.ReachesStorage (c : Call) : Prop :=
  c.serializes = true ∧ c.opens = true ∧
    (c.final = true → c.fields.lookup "decision" = some (.json (.str "RUN_CLOSED")))

namespace Sink

theorem run_latched {s t : Sink} {cs : List Call} {es : List Ending}
    (hclose : ∀ c ∈ cs, c.closes = true) (hreach : ∀ c ∈ cs, c.ReachesStorage)
    (h : s.run cs = some (es, t)) : Latched es t := by
  induction cs generalizing s es with
  | nil =>
    cases h
    intro pre post he
    simp at he
  | cons c cs ih =>
    obtain ⟨e, s', es', hc, hrun, rfl, -⟩ := run_cons h
    have htail : Latched es' t := ih (fun d hd => hclose d (List.mem_cons_of_mem _ hd))
      (fun d hd => hreach d (List.mem_cons_of_mem _ hd)) hrun
    intro pre post he
    cases pre with
    | cons x pre => exact htail pre post (List.cons.inj he).2
    | nil =>
      obtain ⟨rfl, rfl⟩ := List.cons.inj he
      obtain ⟨h1, h2, h3⟩ := hreach c List.mem_cons_self
      cases call_effect hc with
      | early hearly =>
        rcases hearly with hc | hc | ⟨hc, hd⟩
        · rw [h1] at hc
          cases hc
        · rw [h2] at hc
          cases hc
        · exact absurd (h3 hc) hd
      | latched w hs hh hw =>
        obtain ⟨rfl, hnot, -⟩ := Frozen.run (Or.inr rfl) hrun
        exact ⟨rfl, hnot⟩
      | unclosed hs hh hcl =>
        rw [hclose c List.mem_cons_self] at hcl
        cases hcl

/-- **Audit failure latch.**  In every run whose calls do not fail before their first `os.write`, no
record is lost silently. -/
theorem failure_latched {s t : Sink} {cs : List Call} {es : List Ending}
    (hclose : ∀ c ∈ cs, c.closes = true) (hreach : ∀ c ∈ cs, c.ReachesStorage)
    (h : s.run cs = some (es, t)) : s.NoSilentLoss cs es t := by
  obtain ⟨hchain, rest, hbytes, hrest⟩ := run_bytes hclose h
  exact ⟨⟨rest, hbytes, hrest.imp_right And.right⟩, hchain, run_latched hclose hreach h⟩

theorem writeAll_whole {data : List UInt8} (h : data ≠ []) :
    writeAll [.wrote data.length] data = some (data, true) := by
  cases data with
  | nil => exact absurd rfl h
  | cons b data => simp [writeAll]

namespace Demo

def fields : Fields := [("decision", .json (.str "ALLOW"))]

/-- A new log. -/
def log : Sink := ⟨"run-1", true, false, AuditLog.genesis, []⟩

def line : List UInt8 := lineBytes (recordOf "run-1" AuditLog.genesis fields "1.5" []) ++ [10]

/-- A call whose `os.open` fails. -/
def unopened : Call :=
  { fields := fields, final := false, ts := "1.5", order := [], serializes := true, opens := false,
    writes := [], syncs := true, closes := true }

/-- A call that returns. -/
def plain : Call :=
  { unopened with opens := true, writes := [.wrote line.length] }

def logged : Sink :=
  { log with prev := Sha256.hexdigest (lineBytes (log.record plain)), bytes := line }

theorem call_plain : log.call plain = some (.returned, logged) := by
  have hw : writeAll plain.writes (lineBytes (log.record plain) ++ [10]) =
      some (lineBytes (log.record plain) ++ [10], true) :=
    writeAll_whole (List.append_ne_nil_of_right_ne_nil _ (List.cons_ne_nil _ _))
  simp only [call, write, hw]
  rfl

theorem call_unopened : log.call unopened = some (.raised, log) := rfl

end Demo

theorem failure_latched_demo : Demo.log.run [Demo.plain] = some ([.returned], Demo.logged) ∧
    Demo.log.NoSilentLoss [Demo.plain] [.returned] Demo.logged := by
  have hrun : Demo.log.run [Demo.plain] = some ([.returned], Demo.logged) := by
    simp only [run, Demo.call_plain]
  refine ⟨hrun, failure_latched ?_ ?_ hrun⟩
  · intro c hc
    rw [List.mem_singleton.1 hc]
    rfl
  · intro c hc
    rw [List.mem_singleton.1 hc]
    exact ⟨rfl, rfl, nofun⟩

/-- After an `os.open` that fails, the next call goes on as if nothing had happened. -/
theorem open_failure_forgotten :
    Demo.log.run [Demo.unopened, Demo.plain] = some ([.raised, .returned], Demo.logged) ∧
      (∀ c ∈ [Demo.unopened, Demo.plain], c.closes = true) ∧
      ¬ Demo.log.NoSilentLoss [Demo.unopened, Demo.plain] [.raised, .returned] Demo.logged := by
  refine ⟨?_, ?_, ?_⟩
  · simp only [run, Demo.call_unopened, Demo.call_plain]
  · intro c hc
    rcases List.mem_cons.1 hc with rfl | hc
    · rfl
    · rw [List.mem_singleton.1 hc]
      rfl
  · intro h
    exact (h.latch [] [.returned] rfl).2 List.mem_cons_self

end Sink

end StrixPEP
