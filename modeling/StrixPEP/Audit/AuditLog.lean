import StrixPEP.Json
import StrixPEP.Lib.Dict
import StrixPEP.Lib.Sha256

/-!
# The audit log (`pep/audit.py`)

* `Value`, `Fields` — what a writer hands to `write`: a dict whose values are JSON values or
  tuples.  `_scrub` goes into texts, lists and dicts and leaves a tuple alone.
* `dumps` — `json.dumps(rec, sort_keys=True, separators=(",", ":"))`.
* `Line` — a line of the file, with the value it parses to.
* `AuditLog.write`, `AuditLog.sealWith` — one call, with its outcome: the storage may refuse the
  open, fail in the write or the `fsync` (which latches the sink unhealthy) or fail in the close
  (which does not).
* `AuditLog.reopen` — the constructor on an existing file.

The redaction set is a list; a call goes through it in any order.  `time.time()` is given by its
`repr`.  Blank lines are skipped by every reader and no writer makes one: they have no `Line`.

Principal results: `redact_cases` (a scrubbed text is unchanged or shows the mark),
`write_refused` and `reopen_sealed`.
-/

namespace StrixPEP

/-! ## Values and their text -/

inductive Value where
  | json (v : Json)
  | tuple (xs : List Json)
  deriving DecidableEq, Repr

/-- A `dict` handed to `write`. -/
abbrev Fields := List (String × Value)

namespace Fields

def str (s : String) : Value := .json (.str s)

def int (n : Int) : Value := .json (.int n)

def bool (b : Bool) : Value := .json (.bool b)

/-- `None` or a text. -/
def optStr : Option String → Value
  | none => .json .null
  | some s => str s

/-- `fields.update(extra)`. -/
def update (fields extra : Fields) : Fields := extra.foldl (fun d e => Dict.set d e.1 e.2) fields

end Fields

namespace Json

/-- Four hexadecimal digits. -/
def hex4 (n : Nat) : List Char :=
  [Sha256.hexDigit (n / 4096 % 16), Sha256.hexDigit (n / 256 % 16), Sha256.hexDigit (n / 16 % 16),
    Sha256.hexDigit (n % 16)]

/-- A character inside a JSON text, with `ensure_ascii`. -/
def escapeChar (c : Char) : List Char :=
  let n := c.toNat
  if c = '"' then ['\\', '"']
  else if c = '\\' then ['\\', '\\']
  else if c = '\n' then ['\\', 'n']
  else if c = '\r' then ['\\', 'r']
  else if c = '\t' then ['\\', 't']
  else if n = 8 then ['\\', 'b']
  else if n = 12 then ['\\', 'f']
  else if 32 ≤ n ∧ n ≤ 126 then [c]
  else if n < 65536 then ['\\', 'u'] ++ hex4 n
  else
    ['\\', 'u'] ++ hex4 (0xD800 + (n - 65536) / 1024) ++
      ['\\', 'u'] ++ hex4 (0xDC00 + (n - 65536) % 1024)

def quote (s : String) : String :=
  String.ofList ('"' :: s.toList.flatMap escapeChar ++ ['"'])

def sortFields (kvs : List (String × String)) : List (String × String) :=
  kvs.mergeSort fun e f => decide (e.1 ≤ f.1)

mutual

/-- `json.dumps(value, sort_keys=True, separators=(",", ":"))`. -/
def dumps : Json → String
  | .null => "null"
  | .bool true => "true"
  | .bool false => "false"
  | .int n => toString n
  | .float r _ => r
  | .str s => quote s
  | .arr xs => "[" ++ String.intercalate "," (dumpsList xs) ++ "]"
  | .obj kvs =>
    "\x7b" ++ String.intercalate ","
      ((sortFields (dumpsFields kvs)).map fun e => quote e.1 ++ ":" ++ e.2) ++ "\x7d"

def dumpsList : List Json → List String
  | [] => []
  | x :: xs => dumps x :: dumpsList xs

def dumpsFields : List (String × Json) → List (String × String)
  | [] => []
  | (k, v) :: kvs => (k, dumps v) :: dumpsFields kvs

end

end Json

/-! ## Redaction -/

/-- `«REDACTED»`. -/
def redactionMark : List Char := "«REDACTED»".toList

/-- `text.replace(secret, "«REDACTED»")` for a secret that is not empty; the first argument counts
the characters of a match that are still to be skipped. -/
def replaceFrom (secret : List Char) : Nat → List Char → List Char
  | _, [] => []
  | k + 1, _ :: text => replaceFrom secret k text
  | 0, c :: text =>
    if secret.isPrefixOf (c :: text) then
      redactionMark ++ replaceFrom secret (secret.length - 1) text
    else c :: replaceFrom secret 0 text

/-- One iteration of the loop over the redaction set. -/
def redactOne (secret : String) (text : List Char) : List Char :=
  if secret.toList.isEmpty then text else replaceFrom secret.toList 0 text

/-- `_scrub` of a text; `order` is the order in which the set is gone through. -/
def redact (order : List String) (text : String) : String :=
  String.ofList (order.foldl (fun out s => redactOne s out) text.toList)

mutual

/-- `_scrub`. -/
def scrub (order : List String) : Json → Json
  | .str s => .str (redact order s)
  | .arr xs => .arr (scrubList order xs)
  | .obj kvs => .obj (scrubFields order kvs)
  | .null => .null
  | .bool b => .bool b
  | .int n => .int n
  | .float r f => .float r f

def scrubList (order : List String) : List Json → List Json
  | [] => []
  | x :: xs => scrub order x :: scrubList order xs

def scrubFields (order : List String) : List (String × Json) → List (String × Json)
  | [] => []
  | (k, v) :: kvs => (k, scrub order v) :: scrubFields order kvs

end

/-- A field of the scrubbed dict, as `json.dumps` shows it. -/
def Value.scrubbed (order : List String) : Value → Json
  | .json v => scrub order v
  | .tuple xs => .arr xs

theorem replaceFrom_cases (secret : List Char) (text : List Char) :
    replaceFrom secret 0 text = text ∨ '«' ∈ replaceFrom secret 0 text := by
  induction text with
  | nil => exact Or.inl rfl
  | cons c text ih =>
    unfold replaceFrom
    split
    · exact Or.inr (List.mem_append_left _ (by decide))
    · rcases ih with ih | ih
      · exact Or.inl (by rw [ih])
      · exact Or.inr (List.mem_cons_of_mem _ ih)

theorem redactOne_cases (secret : String) (text : List Char) :
    redactOne secret text = text ∨ '«' ∈ redactOne secret text := by
  unfold redactOne
  split
  · exact Or.inl rfl
  · exact replaceFrom_cases _ _

theorem redact_cases (order : List String) (text : String) :
    redact order text = text ∨ '«' ∈ (redact order text).toList := by
  have hfold : ∀ out : List Char, order.foldl (fun out s => redactOne s out) out = out ∨
      '«' ∈ order.foldl (fun out s => redactOne s out) out := by
    induction order with
    | nil => exact fun _ => Or.inl rfl
    | cons s order ih =>
      intro out
      rw [List.foldl_cons]
      rcases ih (redactOne s out) with h | h
      · rw [h]
        exact redactOne_cases s out
      · exact Or.inr h
  unfold redact
  rw [String.toList_ofList]
  rcases hfold text.toList with h | h
  · exact Or.inl (by rw [h, String.ofList_toList])
  · exact Or.inr h

/-- A text that a secret does not occur in stays. -/
theorem replaceFrom_absent {secret text : List Char} (h : ¬ secret <:+: text) :
    replaceFrom secret 0 text = text := by
  induction text with
  | nil => rfl
  | cons c text ih =>
    unfold replaceFrom
    have hp : secret.isPrefixOf (c :: text) = false := by
      rw [← Bool.not_eq_true, List.isPrefixOf_iff_prefix]
      exact fun hp => h hp.isInfix
    rw [hp, ih fun hi => h (hi.trans (List.suffix_cons c text).isInfix)]
    rfl

theorem redact_absent {order : List String} {text : String}
    (h : ∀ s ∈ order, s = "" ∨ ¬ s.toList <:+: text.toList) : redact order text = text := by
  have hone : ∀ s ∈ order, redactOne s text.toList = text.toList := by
    intro s hs
    unfold redactOne
    split
    · rfl
    · rename_i hne
      refine replaceFrom_absent ((h s hs).resolve_left fun he => hne ?_)
      rw [he]
      rfl
  have hfold : order.foldl (fun out s => redactOne s out) text.toList = text.toList := by
    clear h
    induction order with
    | nil => rfl
    | cons s order ih =>
      rw [List.foldl_cons, hone s List.mem_cons_self]
      exact ih fun s hs => hone s (List.mem_cons_of_mem _ hs)
  unfold redact
  rw [hfold, String.ofList_toList]

/-- Redaction makes no text without the mark. -/
theorem redact_eq {order : List String} {text plain : String} (hplain : '«' ∉ plain.toList)
    (h : redact order text = plain) : text = plain := by
  rcases redact_cases order text with h' | h'
  · exact h'.symm.trans h
  · rw [h] at h'
    exact absurd h' hplain

/-! ## The log -/

/-- A line of the file. -/
inductive Line where
  | parsed (text : String) (value : Json)
  /-- `json.loads` raises `ValueError`. -/
  | torn (text : String)
  deriving DecidableEq, Repr

/-- The object whose methods are below; `redaction` is `_redact`. -/
structure AuditLog where
  runId : String
  redaction : List String
  healthy : Bool
  sealed : Bool
  prev : String
  file : List Line
  deriving DecidableEq, Repr

/-- What the storage leaves of a line whose write or `fsync` failed. -/
inductive Residue where
  | nothing
  | torn (text : String)
  | whole
  deriving DecidableEq, Repr

/-- How a call of `write` ends; every case but `written` raises, and `name` is then the class of
the exception. -/
inductive Outcome where
  | written (ts : String) (order : List String)
  /-- Sealed, or latched unhealthy. -/
  | refused
  | openFailed (name : String)
  | ioFailed (name ts : String) (order : List String) (residue : Residue)
  | closeFailed (name ts : String) (order : List String)
  deriving DecidableEq, Repr

def Outcome.ok : Outcome → Bool
  | .written _ _ => true
  | _ => false

/-- The order in which a call goes through the redaction set. -/
def Outcome.order : Outcome → List String
  | .written _ order | .ioFailed _ _ order _ | .closeFailed _ _ order => order
  | .refused | .openFailed _ => []

def Outcome.ts : Outcome → String
  | .written ts _ | .ioFailed _ ts _ _ | .closeFailed _ ts _ => ts
  | .refused | .openFailed _ => ""

namespace AuditLog

def genesis : String := String.ofList (List.replicate 64 '0')

def lineHash (text : String) : String := Sha256.hexdigest text.toUTF8.toList

/-- `rec` of `write`. -/
def persist (log : AuditLog) (fields : Fields) (o : Outcome) : Record :=
  let rec_ := fields.map fun e => (e.1, e.2.scrubbed o.order)
  Dict.set (Dict.set (Dict.set rec_ "ts" (.float o.ts true)) "run_id" (.str log.runId))
    "prev" (.str log.prev)

/-- `line` of `write`. -/
def lineOf (record : Record) : Line := .parsed (Json.dumps (.obj record)) (.obj record)

def append (log : AuditLog) (line : Line) : AuditLog := { log with file := log.file ++ [line] }

/-- `write`, with the outcome `o`; `none` where the call cannot end so. -/
def write (log : AuditLog) (fields : Fields) (o : Outcome) : Option AuditLog :=
  if log.sealed ∨ ¬ log.healthy then
    if o = .refused then some log else none
  else
    let record := log.persist fields o
    match o with
    | .refused => none
    | .openFailed _ => some log
    | .written _ order =>
      if order.Perm log.redaction then
        some { log.append (lineOf record) with prev := lineHash (Json.dumps (.obj record)) }
      else none
    | .ioFailed _ _ order residue =>
      if order.Perm log.redaction then
        match residue with
        | .nothing => some { log with healthy := false }
        | .torn text => some { log.append (.torn text) with healthy := false }
        | .whole => some { log.append (lineOf record) with healthy := false }
      else none
    | .closeFailed _ _ order =>
      if order.Perm log.redaction then some (log.append (lineOf record)) else none

/-- `seal_with`, for an entry whose decision is `RUN_CLOSED`. -/
def sealWith (log : AuditLog) (fields : Fields) (o : Outcome) : Option AuditLog :=
  match log.write fields o with
  | none => none
  | some log' => some (if o.ok then { log' with sealed := true } else log')

/-- `add_secret`. -/
def addSecret (log : AuditLog) (secret : String) : AuditLog :=
  if secret = "" ∨ secret ∈ log.redaction then log
  else { log with redaction := log.redaction ++ [secret] }

/-- Does the call leave the whole line in the file? -/
def appends : Outcome → Bool
  | .written _ _ | .ioFailed _ _ _ .whole | .closeFailed _ _ _ => true
  | _ => false

/-- `verify`, from a line whose `prev` has to be the first argument; `none` where it raises. -/
def verify : String → List Line → Option Bool
  | _, [] => some true
  | _, .torn _ :: _ => some false
  | prev, .parsed text (.obj record) :: rest =>
    if Record.get? record "prev" = some (.str prev) then verify (lineHash text) rest else some false
  | _, .parsed _ _ :: _ => none

/-- `_recover_tail`, of a file that `verify` found intact: the hash of the last line, and whether
the log is sealed. -/
def recoverTail (file : List Line) : String × Bool :=
  match file.getLast? with
  | some (.parsed text (.obj record)) =>
    (lineHash text, decide (Record.get? record "decision" = some (.str "RUN_CLOSED")))
  | some (.parsed text _) | some (.torn text) => (lineHash text, false)
  | none => (genesis, false)

/-- `__init__` on a file; `durable` is whether the file and its directory could be synced.  `none`
where the constructor raises. -/
def reopen (runId : String) (redaction : List String) (file : List Line) (durable : Bool) :
    Option AuditLog :=
  match verify genesis file with
  | none => none
  | some false => some ⟨runId, redaction, false, false, genesis, file⟩
  | some true =>
    let (prev, sealed) := recoverTail file
    some ⟨runId, redaction, durable, sealed, prev, file⟩

/-- A sealed or unhealthy log accepts nothing. -/
theorem write_refused {log : AuditLog} (h : log.sealed = true ∨ log.healthy = false)
    {fields : Fields} {o : Outcome} {log' : AuditLog} (hw : log.write fields o = some log') :
    o = .refused ∧ log' = log := by
  have hcond : log.sealed = true ∨ ¬ log.healthy = true := by
    rcases h with h | h
    · exact Or.inl h
    · exact Or.inr (by simp [h])
  unfold write at hw
  rw [if_pos hcond] at hw
  split at hw
  · rename_i ho
    cases hw
    exact ⟨ho, rfl⟩
  · cases hw

/-- A log opened on a file whose last line is the closure is sealed or unhealthy. -/
theorem reopen_sealed {runId : String} {redaction : List String} {file : List Line}
    {record : Record} {text : String} {durable : Bool} {log : AuditLog}
    (hd : record.get? "decision" = some (.str "RUN_CLOSED"))
    (h : reopen runId redaction (file ++ [.parsed text (.obj record)]) durable = some log) :
    log.sealed = true ∨ log.healthy = false := by
  unfold reopen at h
  split at h
  · cases h
  · cases h
    exact Or.inr rfl
  · cases h
    left
    simp [hd]

/-- What a call does to the log. -/
theorem write_cases {log log' : AuditLog} {fields : Fields} {o : Outcome}
    (h : log.write fields o = some log') :
    log'.runId = log.runId ∧ log'.redaction = log.redaction ∧ log'.sealed = log.sealed ∧
    (log'.healthy = true → log.healthy = true) ∧
    (o.ok = true → log'.healthy = true) := by
  unfold write at h
  split at h
  · rename_i hc
    split at h
    · rename_i ho
      cases h
      subst ho
      simp [Outcome.ok]
    · cases h
  · rename_i hc
    rw [not_or, not_not, Bool.not_eq_true] at hc
    cases o with
    | refused => cases h
    | openFailed name => cases h; simp [Outcome.ok]
    | written ts order =>
      simp only at h
      split at h <;> cases h
      simp [append, hc, Outcome.ok]
    | ioFailed name ts order residue =>
      simp only at h
      split at h
      · cases residue <;> cases h <;> simp [append, hc, Outcome.ok]
      · cases h
    | closeFailed name ts order =>
      simp only at h
      split at h <;> cases h
      simp [append, hc, Outcome.ok]

/-- What a call adds to the file: its line if it stays, and what else the storage leaves. -/
theorem write_file {log log' : AuditLog} {fields : Fields} {o : Outcome}
    (h : log.write fields o = some log') :
    (log' = log ∧ appends o = false) ∨
    (log.healthy = true ∧ log.sealed = false ∧ (∀ s ∈ o.order, s ∈ log.redaction) ∧
      ∃ rest, log'.file =
        log.file ++ (if appends o then [lineOf (log.persist fields o)] else []) ++ rest ∧
        (∀ l ∈ rest, ∃ text, l = .torn text) ∧ (log'.healthy = true → rest = [])) := by
  unfold write at h
  split at h
  · split at h
    · rename_i ho
      cases h
      exact Or.inl ⟨rfl, by rw [ho]; rfl⟩
    · cases h
  · rename_i hc
    rw [not_or, not_not, Bool.not_eq_true] at hc
    cases o with
    | refused => cases h
    | openFailed name =>
      cases h
      exact Or.inl ⟨rfl, rfl⟩
    | written ts order =>
      simp only at h
      split at h
      · rename_i hperm
        cases h
        refine Or.inr ⟨hc.2, hc.1, fun s hs => hperm.mem_iff.1 hs, [], ?_, by simp, by simp⟩
        simp [append, appends]
      · cases h
    | ioFailed name ts order residue =>
      simp only at h
      split at h
      · rename_i hperm
        refine Or.inr ⟨hc.2, hc.1, fun s hs => hperm.mem_iff.1 hs, ?_⟩
        cases residue with
        | nothing =>
          cases h
          exact ⟨[], by simp [appends], by simp, by simp⟩
        | torn text =>
          cases h
          exact ⟨[.torn text], by simp [append, appends], by simp, by simp⟩
        | whole =>
          cases h
          exact ⟨[], by simp [append, appends], by simp, by simp⟩
      · cases h
    | closeFailed name ts order =>
      simp only at h
      split at h
      · rename_i hperm
        cases h
        refine Or.inr ⟨hc.2, hc.1, fun s hs => hperm.mem_iff.1 hs, [], ?_, by simp, by simp⟩
        simp [append, appends]
      · cases h

end AuditLog

end StrixPEP
