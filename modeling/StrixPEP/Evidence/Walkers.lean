import StrixPEP.Audit.Recovery
import StrixPEP.Evidence.AuditGate
import StrixPEP.Verifier.AnchorBinding

/-!
# The copies of the chain walk

Four functions walk the hash chain of a log: `AuditLog.verify`, `audit_facts`, `load_audit` with the
loop of E7, and `_load_and_verify`.

* `walk` — what they are for: the number of records and the final hash of a chain;
* `verified`, `anchored`, `audited` — the copies, with the variables they end with;
* `Agree` — none of them raises and all say the same.

Principal result: `walkers_agree_iff` — they agree exactly on the logs whose lines, as far as a walk
comes, are dicts or malformed, and whose chains have no carriage return inside a line.
-/

namespace StrixPEP

namespace Evidence

namespace Walkers

/-- What a walk of an intact chain ends with. -/
structure Walked where
  count : Nat
  final : String
  deriving DecidableEq, Repr

/-- The walk of a chain; `none` where it is broken. -/
def walk (R : Json.Reader) (n : Nat) (prev : String) : List (List UInt8) → Option Walked
  | [] => some ⟨n, prev⟩
  | line :: lines =>
    if linkOf R line = some prev then walk R (n + 1) (Sha256.hexdigest line) lines else none

/-! ## The copies -/

/-- The loop of `AuditLog.verify` with its variables `n` and `prev` at the end; `none` where it
returns `False`. -/
def verifyVars (R : Json.Reader) (n : Nat) (prev : String) :
    List (List UInt8) → Except PyError (Option Walked)
  | [] => .ok (some ⟨n, prev⟩)
  | raw :: lines =>
    let line := Lines.strip raw
    if line = [] then verifyVars R n prev lines
    else
      match Json.loads R line with
      | .error .valueError => .ok none
      | .error .recursionError => .error .recursionError
      | .ok (.obj record) =>
        if Record.get? record "prev" = some (.str prev) then
          verifyVars R (n + 1) (Sha256.hexdigest line) lines
        else .ok none
      | .ok _ => .error .attributeError

/-- `AuditLog.verify`. -/
def verified (R : Json.Reader) (file : List UInt8) : Except PyError (Option Walked) :=
  verifyVars R 0 AuditLog.genesis (Lines.fileLines file)

/-- A `ValueError` is the rejection of the file. -/
def rejected {α : Type} (f : α → Walked) : Except PyError α → Except PyError (Option Walked)
  | .ok a => .ok (some (f a))
  | .error (.valueError _) => .ok none
  | .error e => .error e

/-- `audit_facts`. -/
def anchored (R : Json.Reader) (file : List UInt8) : Except PyError (Option Walked) :=
  rejected (fun facts => ⟨facts.recordCount, facts.finalChainHash⟩) (E10Anchor.auditFacts R file)

/-- The loop of E7 with its variable `prev` at the end; `none` where `chain_ok` is false. -/
def e7Prev (prev : String) : List (Json × List UInt8) → Except PyError (Option String)
  | [] => .ok (some prev)
  | (v, raw) :: records =>
    match v.get "prev" with
    | .error x => .error x
    | .ok p => if p = .str prev then e7Prev (Sha256.hexdigest raw) records else .ok none

/-- `load_audit` and the loop of E7: intact means `chain_ok and bad == 0`. -/
def audited (R : Json.Reader) (file : List UInt8) : Except PyError (Option Walked) :=
  match loadAudit R file with
  | .error x => .error x
  | .ok (records, bad) =>
    match e7Prev AuditLog.genesis records with
    | .error x => .error x
    | .ok none => .ok none
    | .ok (some final) => if bad = 0 then .ok (some ⟨records.length, final⟩) else .ok none

/-- `_load_and_verify` gives the verdict, and the records of `load_audit`. -/
structure Loads (R : Json.Reader) (file : List UInt8) (w : Option Walked)
    (loaded : Except String (List Record)) : Prop where
  verdict : (∃ records, loaded = .ok records) ↔ w.isSome = true
  records : ∀ records, loaded = .ok records →
    ∃ pairs, loadAudit R file = .ok (pairs, 0) ∧ pairs.map Prod.fst = records.map Json.obj

/-- The walkers return and agree: in the verdict, the number of records and the final hash, and
where no line is blank `_load_and_verify` agrees too. -/
def Agree (R : Json.Reader) (file : List UInt8) : Prop :=
  ∃ w, verified R file = .ok w ∧ anchored R file = .ok w ∧ audited R file = .ok w ∧
    ((∀ l ∈ Lines.fileLines file, Lines.strip l ≠ []) →
      ∃ loaded, VerifyE10.loadAndVerify R (.content file) = .ok loaded ∧ Loads R file w loaded)

/-! ## The variables are those of the functions -/

theorem verifyLoop_vars {R : Json.Reader} {i n : Nat} {prev : String} {lines : List (List UInt8)}
    {w : Option Walked} (h : verifyVars R n prev lines = .ok w) :
    ∃ detail, AuditFile.verifyLoop R i n prev lines = .ok (w.isSome, detail) ∧
      ∀ x, w = some x → detail = s!"{x.count} records, chain intact" := by
  induction lines generalizing i n prev with
  | nil =>
    cases h
    exact ⟨_, rfl, fun x hx => by cases hx; rfl⟩
  | cons raw lines ih =>
    simp only [verifyVars] at h
    simp only [AuditFile.verifyLoop]
    split at h
    · rename_i hblank
      rw [if_pos hblank]
      exact ih h
    rename_i hblank
    rw [if_neg hblank]
    cases hload : Json.loads R (Lines.strip raw) with
    | error e =>
      rw [hload] at h
      cases e with
      | valueError =>
        cases h
        exact ⟨_, rfl, fun x hx => by cases hx⟩
      | recursionError => cases h
    | ok v =>
      rw [hload] at h
      cases v with
      | obj record =>
        simp only at h ⊢
        split at h
        · rename_i hp
          rw [if_pos hp]
          exact ih h
        · rename_i hp
          cases h
          rw [if_neg hp]
          exact ⟨_, rfl, fun x hx => by cases hx⟩
      | null => cases h
      | bool b => cases h
      | int n => cases h
      | float r f => cases h
      | str s => cases h
      | arr xs => cases h

/-- `AuditLog.verify` returns the verdict and prints the count. -/
theorem verify_verified {R : Json.Reader} {file : List UInt8} {w : Option Walked}
    (h : verified R file = .ok w) :
    ∃ detail, AuditFile.verify R file = .ok (w.isSome, detail) ∧
      ∀ x, w = some x → detail = s!"{x.count} records, chain intact" :=
  verifyLoop_vars h

/-- `chain_ok` is whether the loop of E7 comes to its end. -/
theorem chain_e7Prev (prev : String) (records : List (Json × List UInt8)) :
    AuditGate.chain prev records = (e7Prev prev records).map Option.isSome := by
  induction records generalizing prev with
  | nil => rfl
  | cons r records ih =>
    obtain ⟨v, raw⟩ := r
    unfold AuditGate.chain e7Prev
    cases v.get "prev" with
    | error x => rfl
    | ok p =>
      simp only
      split
      · exact ih _
      · rfl

/-! ## The walk -/

/-- A line on which no walk raises: malformed, or a dict. -/
def Reads (R : Json.Reader) (line : List UInt8) : Prop :=
  Json.loads R line = .error .valueError ∨ ∃ record, Json.loads R line = .ok (.obj record)

/-- The line after every chained beginning is one on which no walk raises. -/
def Calm (R : Json.Reader) (prev : String) (lines : List (List UInt8)) : Prop :=
  ∀ pre line post, lines = pre ++ line :: post → Linked R prev pre → Reads R line

section

variable {R : Json.Reader} {n : Nat} {prev : String} {line : List UInt8} {lines : List (List UInt8)}

theorem calm_cons : Calm R prev (line :: lines) ↔
    Reads R line ∧ (linkOf R line = some prev → Calm R (Sha256.hexdigest line) lines) := by
  constructor
  · intro h
    refine ⟨h [] line lines rfl trivial, fun hlink pre l post he hpre => ?_⟩
    exact h (line :: pre) l post (by rw [he, List.cons_append]) ⟨hlink, hpre⟩
  · rintro ⟨hreads, hrest⟩ pre l post he hpre
    cases pre with
    | nil =>
      cases he
      exact hreads
    | cons x pre =>
      rw [List.cons_append, List.cons.injEq] at he
      obtain ⟨rfl, he⟩ := he
      exact hrest hpre.1 pre l post he hpre.2

theorem walk_eq_some {w : Walked} : walk R n prev lines = some w ↔
    Linked R prev lines ∧ w = ⟨n + lines.length, chainTail prev lines⟩ := by
  induction lines generalizing n prev with
  | nil => exact ⟨fun h => ⟨trivial, (Option.some.inj h).symm⟩, fun h => by rw [h.2]; rfl⟩
  | cons line lines ih =>
    unfold walk
    have hlen : n + 1 + lines.length = n + (line :: lines).length := by
      rw [List.length_cons]
      omega
    split
    · rename_i hlink
      rw [ih, hlen]
      exact ⟨fun h => ⟨⟨hlink, h.1⟩, h.2⟩, fun h => ⟨h.1.2, h.2⟩⟩
    · rename_i hlink
      exact ⟨nofun, fun h => absurd h.1.1 hlink⟩

theorem walk_isSome : (walk R n prev lines).isSome = true ↔ Linked R prev lines := by
  rw [Option.isSome_iff_exists]
  exact ⟨fun ⟨w, hw⟩ => (walk_eq_some.1 hw).1, fun h => ⟨_, walk_eq_some.2 ⟨h, rfl⟩⟩⟩

theorem walk_eq_none : walk R n prev lines = none ↔ ¬Linked R prev lines := by
  rw [← walk_isSome (n := n), Option.not_isSome_iff_eq_none]

/-! A line ends a walk, is the next record of it, or raises. -/

theorem calm_ends (n : Nat) (lines : List (List UInt8)) (hreads : Reads R line)
    (hlink : linkOf R line ≠ some prev) :
    Calm R prev (line :: lines) ∧ walk R n prev (line :: lines) = none :=
  ⟨calm_cons.2 ⟨hreads, fun h => absurd h hlink⟩, if_neg hlink⟩

theorem calm_goes (n : Nat) (lines : List (List UInt8)) (hlink : linkOf R line = some prev) :
    (Calm R prev (line :: lines) ↔ Calm R (Sha256.hexdigest line) lines) ∧
      walk R n prev (line :: lines) = walk R (n + 1) (Sha256.hexdigest line) lines := by
  obtain ⟨record, hr, -⟩ := linkOf_eq_some.1 hlink
  refine ⟨?_, if_pos hlink⟩
  rw [calm_cons]
  exact ⟨fun h => h.2 hlink, fun h => ⟨.inr ⟨record, hr⟩, fun _ => h⟩⟩

/-- A copy that stops at a line without raising has walked it. -/
theorem ends_iff {w : Option Walked} (n : Nat) (lines : List (List UInt8)) (hreads : Reads R line)
    (hlink : linkOf R line ≠ some prev) :
    (Except.ok none : Except PyError (Option Walked)) = .ok w ↔
      Calm R prev (line :: lines) ∧ w = walk R n prev (line :: lines) := by
  obtain ⟨hcalm, hwalk⟩ := calm_ends n lines hreads hlink
  rw [hwalk, Except.ok.injEq]
  exact ⟨fun h => ⟨hcalm, h.symm⟩, fun h => h.2.symm⟩

/-- A copy that raises at a line has not. -/
theorem raises_iff {w v : Option Walked} (e : PyError) (hreads : ¬Reads R line) :
    (Except.error e : Except PyError (Option Walked)) = .ok w ↔
      Calm R prev (line :: lines) ∧ w = v :=
  ⟨nofun, fun h => absurd (calm_cons.1 h.1).1 hreads⟩

theorem calm_nil : Calm R prev [] := by
  intro pre line post he
  exact absurd he (by simp)

theorem linkOf_malformed (h : Json.loads R line = .error .valueError) :
    linkOf R line ≠ some prev := by
  unfold linkOf
  rw [h]
  exact nofun

theorem linkOf_obj {record : Record} (h : Json.loads R line = .ok (.obj record)) :
    linkOf R line = some prev ↔ Record.get? record "prev" = some (.str prev) := by
  rw [linkOf_eq_some]
  constructor
  · rintro ⟨r, hr, hp⟩
    rw [h] at hr
    cases hr
    exact hp
  · exact fun hp => ⟨record, h, hp⟩

theorem not_reads_deep (h : Json.loads R line = .error .recursionError) : ¬Reads R line := by
  rintro (he | ⟨record, hr⟩)
  · rw [h] at he
    cases he
  · rw [h] at hr
    cases hr

theorem not_reads_value {v : Json} (h : Json.loads R line = .ok v) (hv : ∀ record, v ≠ .obj record) :
    ¬Reads R line := by
  rintro (he | ⟨record, hr⟩)
  · rw [h] at he
    cases he
  · rw [h] at hr
    exact hv record (Except.ok.inj hr)

end

/-! ## The copies walk -/

section

variable {R : Json.Reader} {n : Nat} {prev : String} {lines : List (List UInt8)} {w : Option Walked}

theorem verifyVars_ok : verifyVars R n prev lines = .ok w ↔
    Calm R prev (Lines.records lines) ∧ w = walk R n prev (Lines.records lines) := by
  induction lines generalizing n prev with
  | nil => exact ⟨fun h => ⟨calm_nil, (Except.ok.inj h).symm⟩, fun h => by rw [h.2]; rfl⟩
  | cons raw lines ih =>
    rw [Lines.records_cons, Lines.records_singleton]
    simp only [verifyVars]
    split
    · rw [List.nil_append]
      exact ih
    rw [List.singleton_append]
    split
    · rename_i he
      exact ends_iff n _ (.inl he) (linkOf_malformed he)
    · rename_i he
      exact raises_iff _ (not_reads_deep he)
    · rename_i record hr
      split
      · rename_i hp
        obtain ⟨hcalm, hwalk⟩ := calm_goes n (Lines.records lines) ((linkOf_obj hr).2 hp)
        rw [hcalm, hwalk]
        exact ih
      · rename_i hp
        exact ends_iff n _ (.inr ⟨record, hr⟩) fun hlink => hp ((linkOf_obj hr).1 hlink)
    · rename_i v hne hv
      exact raises_iff _ (not_reads_value hv hne)

theorem factsLoop_walk (lineNo n : Nat) (prev : String) (last : Option Record)
    (lines : List (List UInt8)) :
    rejected (fun x => ⟨x.1, x.2.1⟩) (E10Anchor.factsLoop R lineNo n prev last lines) = .ok w ↔
      Calm R prev (Lines.records lines) ∧ w = walk R n prev (Lines.records lines) := by
  induction lines generalizing lineNo n prev last with
  | nil => exact ⟨fun h => ⟨calm_nil, (Except.ok.inj h).symm⟩, fun h => by rw [h.2]; rfl⟩
  | cons raw lines ih =>
    rw [Lines.records_cons, Lines.records_singleton]
    simp only [E10Anchor.factsLoop]
    split
    · rw [List.nil_append]
      exact ih _ _ _ _
    rw [List.singleton_append]
    split
    · rename_i he
      exact ends_iff n _ (.inl he) (linkOf_malformed he)
    · rename_i he
      exact raises_iff _ (not_reads_deep he)
    · rename_i record hr
      split
      · rename_i hp
        obtain ⟨hcalm, hwalk⟩ := calm_goes n (Lines.records lines) ((linkOf_obj hr).2 hp)
        rw [hcalm, hwalk]
        exact ih _ _ _ _
      · rename_i hp
        exact ends_iff n _ (.inr ⟨record, hr⟩) fun hlink => hp ((linkOf_obj hr).1 hlink)
    · rename_i v hne hv
      exact raises_iff _ (not_reads_value hv hne)

theorem get_prev {record : Record} : (Record.get? record "prev").getD .null = .str prev ↔
    Record.get? record "prev" = some (.str prev) := by
  cases Record.get? record "prev" with
  | none => exact ⟨nofun, nofun⟩
  | some v => exact ⟨fun h => congrArg some h, fun h => Option.some.inj h⟩

theorem e7Prev_ok (n : Nat) (prev : String) {records : List (Json × List UInt8)}
    (final : Option String)
    (hparse : ∀ r ∈ records, Json.loads R r.2 = .ok r.1) : e7Prev prev records = .ok final ↔
      Calm R prev (records.map Prod.snd) ∧
        final = (walk R n prev (records.map Prod.snd)).map Walked.final := by
  induction records generalizing n prev with
  | nil => exact ⟨fun h => ⟨calm_nil, (Except.ok.inj h).symm⟩, fun h => by rw [h.2]; rfl⟩
  | cons r records ih =>
    obtain ⟨v, raw⟩ := r
    have hv : Json.loads R raw = .ok v := hparse _ List.mem_cons_self
    have hrest : ∀ r ∈ records, Json.loads R r.2 = .ok r.1 := fun r hr =>
      hparse r (List.mem_cons_of_mem _ hr)
    rw [List.map_cons]
    unfold e7Prev
    split
    · rename_i x hx
      have hne : ∀ record, v ≠ .obj record := by
        rintro record rfl
        cases hx
      exact ⟨nofun, fun h => absurd (calm_cons.1 h.1).1 (not_reads_value hv hne)⟩
    rename_i p hp
    cases v with
    | obj record =>
      cases hp
      split
      · rename_i hp
        obtain ⟨hcalm, hwalk⟩ := calm_goes n (records.map Prod.snd)
          ((linkOf_obj hv).2 (get_prev.1 hp))
        rw [hcalm, hwalk]
        exact ih (n + 1) _ hrest
      · rename_i hp
        obtain ⟨hcalm, hwalk⟩ := calm_ends n (records.map Prod.snd) (.inr ⟨record, hv⟩)
          fun hlink => hp (get_prev.2 ((linkOf_obj hv).1 hlink))
        rw [hwalk]
        exact ⟨fun h => ⟨hcalm, (Except.ok.inj h).symm⟩, fun h => by rw [h.2]; rfl⟩
    | null => cases hp
    | bool b => cases hp
    | int n => cases hp
    | float r f => cases hp
    | str s => cases hp
    | arr xs => cases hp

end

/-! ## The reader of the auditor -/

/-- The line parses. -/
def parses (R : Json.Reader) (line : List UInt8) : Bool := (Json.loads R line).toOption.isSome

/-- No line nests too deep for the parser. -/
def Shallow (R : Json.Reader) (lines : List (List UInt8)) : Prop :=
  ∀ line ∈ lines, Json.loads R line ≠ .error .recursionError

theorem loadLines_ok {R : Json.Reader} {lines : List (List UInt8)}
    {records : List (Json × List UInt8)} {bad : Nat}
    (h : loadLines (Json.loads R) lines = .ok (records, bad)) :
    Shallow R lines ∧ records.map Prod.snd = lines.filter (parses R) ∧
      (∀ r ∈ records, Json.loads R r.2 = .ok r.1) ∧
      (bad = 0 ↔ ∀ line ∈ lines, Json.loads R line ≠ .error .valueError) := by
  induction lines generalizing records bad with
  | nil =>
    cases h
    exact ⟨nofun, rfl, nofun, fun _ => nofun, fun _ => rfl⟩
  | cons line lines ih =>
    unfold loadLines at h
    split at h
    · cases h
    · cases h
    · rename_i v records' bad' hv hrest
      cases h
      obtain ⟨h1, h2, h3, h4⟩ := ih hrest
      have hparses : parses R line = true := by
        unfold parses
        rw [hv]
        rfl
      refine ⟨?_, ?_, ?_, ?_⟩
      · intro l hl
        rcases List.mem_cons.1 hl with rfl | hl
        · rw [hv]
          exact nofun
        · exact h1 l hl
      · rw [List.map_cons, h2, List.filter_cons, if_pos hparses]
      · intro r hr
        rcases List.mem_cons.1 hr with rfl | hr
        · exact hv
        · exact h3 r hr
      · rw [h4, List.forall_mem_cons]
        exact ⟨fun h => ⟨by rw [hv]; exact nofun, h⟩, And.right⟩
    · rename_i records' bad' hv hrest
      cases h
      obtain ⟨h1, h2, h3, -⟩ := ih hrest
      have hparses : ¬parses R line = true := by
        unfold parses
        rw [hv]
        exact Bool.false_ne_true
      refine ⟨?_, ?_, h3, ?_⟩
      · intro l hl
        rcases List.mem_cons.1 hl with rfl | hl
        · rw [hv]
          exact nofun
        · exact h1 l hl
      · rw [h2, List.filter_cons, if_neg hparses]
      · exact ⟨nofun, fun hall => absurd hv (hall line List.mem_cons_self)⟩

theorem loadLines_shallow {R : Json.Reader} {lines : List (List UInt8)} (h : Shallow R lines) :
    ∃ records bad, loadLines (Json.loads R) lines = .ok (records, bad) := by
  induction lines with
  | nil => exact ⟨[], 0, rfl⟩
  | cons line lines ih =>
    obtain ⟨records, bad, hrest⟩ := ih fun l hl => h l (List.mem_cons_of_mem _ hl)
    unfold loadLines
    rw [hrest]
    cases hv : Json.loads R line with
    | ok v => exact ⟨_, _, rfl⟩
    | error e =>
      cases e with
      | valueError => exact ⟨_, _, rfl⟩
      | recursionError => exact absurd hv (h line List.mem_cons_self)

theorem parses_of_shallow {R : Json.Reader} {lines : List (List UInt8)} (hshallow : Shallow R lines)
    {line : List UInt8} (hl : line ∈ lines) :
    parses R line = true ↔ Json.loads R line ≠ .error .valueError := by
  unfold parses
  cases hv : Json.loads R line with
  | ok v => exact ⟨fun _ => nofun, fun _ => rfl⟩
  | error e =>
    cases e with
    | valueError => exact ⟨nofun, fun h => absurd rfl h⟩
    | recursionError => exact absurd hv (hshallow line hl)

/-- Every line of a chain parses. -/
theorem filter_of_linked {R : Json.Reader} {prev : String} {lines : List (List UInt8)}
    (h : Linked R prev lines) : lines.filter (parses R) = lines := by
  rw [List.filter_eq_self]
  intro line hl
  obtain ⟨record, hr⟩ := VerifyE10.isRecord_of_linked h hl
  unfold parses
  rw [hr]
  rfl

section

variable {R : Json.Reader} {file : List UInt8} {w : Option Walked}

theorem verified_ok : verified R file = .ok w ↔
    Calm R AuditLog.genesis (Lines.records (Lines.fileLines file)) ∧
      w = walk R 0 AuditLog.genesis (Lines.records (Lines.fileLines file)) := verifyVars_ok

theorem anchored_ok : anchored R file = .ok w ↔
    Calm R AuditLog.genesis (Lines.records (Lines.splitLines file)) ∧
      w = walk R 0 AuditLog.genesis (Lines.records (Lines.splitLines file)) := by
  rw [← factsLoop_walk 1 0 AuditLog.genesis none]
  unfold anchored E10Anchor.auditFacts
  cases E10Anchor.factsLoop R 1 0 AuditLog.genesis none (Lines.splitLines file) with
  | error e => cases e <;> exact Iff.rfl
  | ok x => exact Iff.rfl

theorem audited_ok : audited R file = .ok w ↔
    Shallow R (Lines.records (Lines.fileLines file)) ∧
      Calm R AuditLog.genesis ((Lines.records (Lines.fileLines file)).filter (parses R)) ∧
      w = walk R 0 AuditLog.genesis (Lines.records (Lines.fileLines file)) := by
  unfold audited loadAudit
  generalize Lines.records (Lines.fileLines file) = lines
  cases hload : loadLines (Json.loads R) lines with
  | error e =>
    refine ⟨nofun, fun h => ?_⟩
    obtain ⟨records, bad, hok⟩ := loadLines_shallow h.1
    rw [hload] at hok
    cases hok
  | ok x =>
    obtain ⟨records, bad⟩ := x
    obtain ⟨hshallow, hsnd, hparse, hbad⟩ := loadLines_ok hload
    have he7 := fun final => e7Prev_ok 0 AuditLog.genesis final hparse
    rw [hsnd] at he7
    simp only
    cases hloop : e7Prev AuditLog.genesis records with
    | error e =>
      refine ⟨nofun, fun h => ?_⟩
      have := (he7 _).2 ⟨h.2.1, rfl⟩
      rw [hloop] at this
      cases this
    | ok final =>
      obtain ⟨hcalm, hfinal⟩ := (he7 final).1 hloop
      cases final with
      | none =>
        have hnone : walk R 0 AuditLog.genesis lines = none := by
          rw [walk_eq_none]
          intro hlink
          rw [filter_of_linked hlink, (walk_eq_some (n := 0)).2 ⟨hlink, rfl⟩] at hfinal
          cases hfinal
        rw [hnone]
        exact ⟨fun h => ⟨hshallow, hcalm, (Except.ok.inj h).symm⟩, fun h => by rw [h.2.2]⟩
      | some final =>
        by_cases hzero : bad = 0
        · have hall : lines.filter (parses R) = lines := by
            rw [List.filter_eq_self]
            intro line hl
            exact (parses_of_shallow hshallow hl).2 (hbad.1 hzero line hl)
          have hlen : records.length = lines.length := by
            rw [← List.length_map Prod.snd, hsnd, hall]
          rw [hall] at hfinal
          obtain ⟨x, hx, hxf⟩ := Option.map_eq_some_iff.1 hfinal.symm
          obtain ⟨hlink, rfl⟩ := walk_eq_some.1 hx
          simp only [hzero, if_true]
          rw [hx, hlen, ← hxf, Nat.zero_add]
          exact ⟨fun h => ⟨hshallow, hcalm, (Except.ok.inj h).symm⟩, fun h => by rw [h.2.2]⟩
        · have hnone : walk R 0 AuditLog.genesis lines = none := by
            rw [walk_eq_none]
            intro hlink
            refine hzero (hbad.2 fun line hl => ?_)
            refine (parses_of_shallow hshallow hl).1 ?_
            rw [← filter_of_linked hlink] at hl
            exact (List.mem_filter.1 hl).2
          simp only [hzero, if_false]
          rw [hnone]
          exact ⟨fun h => ⟨hshallow, hcalm, (Except.ok.inj h).symm⟩, fun h => by rw [h.2.2]⟩

end

/-! ## `_load_and_verify` -/

section

variable {R : Json.Reader} {lines : List (List UInt8)}

theorem loadLoop_shallow (lineNo : Nat) (prev : String) (h : Shallow R (Lines.records lines)) :
    ∃ loaded, VerifyE10.loadLoop R lineNo prev lines = .ok loaded := by
  induction lines generalizing lineNo prev with
  | nil => exact ⟨_, rfl⟩
  | cons raw lines ih =>
    rw [Lines.records_cons, Lines.records_singleton] at h
    simp only [VerifyE10.loadLoop]
    split
    · exact ⟨_, rfl⟩
    rename_i hblank
    rw [if_neg hblank, List.singleton_append] at h
    split
    · exact ⟨_, rfl⟩
    · rename_i he
      exact absurd he (h _ List.mem_cons_self)
    · split
      · obtain ⟨loaded, hrest⟩ := ih (lineNo + 1) (Sha256.hexdigest (Lines.strip raw)) fun l hl =>
          h l (List.mem_cons_of_mem _ hl)
        rw [hrest]
        cases loaded with
        | error t => exact ⟨_, rfl⟩
        | ok records => exact ⟨_, rfl⟩
      · exact ⟨_, rfl⟩
    · exact ⟨_, rfl⟩

end

theorem records_eq_pairs {R : Json.Reader} {lines : List (List UInt8)} {records : List Record}
    {pairs : List (Json × List UInt8)} (h : List.Forall₂ (VerifyE10.IsRecord R) lines records)
    (hsnd : pairs.map Prod.snd = lines) (hparse : ∀ r ∈ pairs, Json.loads R r.2 = .ok r.1) :
    pairs.map Prod.fst = records.map Json.obj := by
  induction h generalizing pairs with
  | nil => rw [List.map_eq_nil_iff.1 hsnd]; rfl
  | @cons line record lines records hr hrest ih =>
    cases pairs with
    | nil => cases hsnd
    | cons r pairs =>
      rw [List.map_cons, List.cons.injEq] at hsnd
      obtain ⟨rfl, hsnd⟩ := hsnd
      have hv := hparse r List.mem_cons_self
      unfold VerifyE10.IsRecord at hr
      rw [hr] at hv
      rw [List.map_cons, List.map_cons, ← Except.ok.inj hv,
        ih hsnd fun r hr => hparse r (List.mem_cons_of_mem _ hr)]

/-- Where no line is blank or nests too deep, `_load_and_verify` gives the verdict and the records of
the walk. -/
theorem loads_walk {R : Json.Reader} {file : List UInt8}
    (hshallow : Shallow R (Lines.records (Lines.fileLines file)))
    (hblank : ∀ l ∈ Lines.fileLines file, Lines.strip l ≠ []) :
    ∃ loaded, VerifyE10.loadAndVerify R (.content file) = .ok loaded ∧
      Loads R file (walk R 0 AuditLog.genesis (Lines.records (Lines.fileLines file))) loaded := by
  obtain ⟨loaded, hload⟩ := loadLoop_shallow 1 AuditLog.genesis hshallow
  refine ⟨loaded, hload, ?_, ?_⟩
  · rw [walk_isSome]
    constructor
    · rintro ⟨records, rfl⟩
      rw [Lines.records_eq_map hblank]
      exact (VerifyE10.loadLoop_ok hload).2.1
    · intro hlink
      obtain ⟨records, hok⟩ := VerifyE10.loadLoop_linked 1 hblank hlink
      rw [hload] at hok
      exact ⟨records, Except.ok.inj hok⟩
  · rintro records rfl
    obtain ⟨-, hlink, hrec⟩ := VerifyE10.loadLoop_ok hload
    rw [← Lines.records_eq_map hblank] at hlink hrec
    obtain ⟨pairs, bad, hpairs⟩ := loadLines_shallow hshallow
    obtain ⟨-, hsnd, hparse, hbad⟩ := loadLines_ok hpairs
    rw [filter_of_linked hlink] at hsnd
    have hzero : bad = 0 := by
      refine hbad.2 fun line hl => ?_
      refine (parses_of_shallow hshallow hl).1 ?_
      rw [← filter_of_linked hlink] at hl
      exact (List.mem_filter.1 hl).2
    subst hzero
    exact ⟨pairs, hpairs, records_eq_pairs hrec hsnd hparse⟩

/-! ## Where the copies agree -/

/-- The logs on which no copy raises and both ways to split lines show the same chain. -/
structure Walkable (R : Json.Reader) (file : List UInt8) : Prop where
  /-- No line nests too deep: the auditor parses them all. -/
  shallow : Shallow R (Lines.records (Lines.fileLines file))
  /-- The lines that parse are dicts, as far as they are chained. -/
  lines : Calm R AuditLog.genesis ((Lines.records (Lines.fileLines file)).filter (parses R))
  /-- So are the lines of `splitlines()`. -/
  pieces : Calm R AuditLog.genesis (Lines.records (Lines.splitLines file))
  /-- A chain has no carriage return inside a line. -/
  returns : Linked R AuditLog.genesis (Lines.records (Lines.fileLines file)) ∨
      Linked R AuditLog.genesis (Lines.records (Lines.splitLines file)) →
    ∀ l ∈ file.splitOn 10, (13 : UInt8) ∉ Lines.strip l

/-- The auditor skips malformed lines, so it sees more lines than the others. -/
theorem calm_of_filter {R : Json.Reader} {prev : String} {lines : List (List UInt8)}
    (hshallow : Shallow R lines) (h : Calm R prev (lines.filter (parses R))) :
    Calm R prev lines := by
  rintro pre line post rfl hpre
  by_cases hline : parses R line = true
  · refine h pre line (post.filter (parses R)) ?_ hpre
    rw [List.filter_append, filter_of_linked hpre, List.filter_cons, if_pos hline]
  · have hmem : line ∈ pre ++ line :: post := by simp
    rw [parses_of_shallow hshallow hmem, not_not] at hline
    exact .inl hline

/-- **The chain walkers agree exactly on the walkable logs.** -/
theorem walkers_agree_iff (R : Json.Reader) (file : List UInt8) :
    Agree R file ↔ Walkable R file := by
  constructor
  · rintro ⟨w, hverify, hfacts, haudit, -⟩
    obtain ⟨-, hw⟩ := verified_ok.1 hverify
    obtain ⟨hpieces, hw'⟩ := anchored_ok.1 hfacts
    obtain ⟨hshallow, hlines, -⟩ := audited_ok.1 haudit
    refine ⟨hshallow, hlines, hpieces, fun hlink => ?_⟩
    have hsame : Linked R AuditLog.genesis (Lines.records (Lines.fileLines file)) ↔
        Linked R AuditLog.genesis (Lines.records (Lines.splitLines file)) := by
      rw [← walk_isSome (n := 0), ← hw, hw', walk_isSome]
    rcases hlink with hlink | hlink
    · exact VerifyE10.no_return_inside hlink (hsame.1 hlink)
    · exact VerifyE10.no_return_inside (hsame.2 hlink) hlink
  · rintro ⟨hshallow, hlines, hpieces, hreturns⟩
    have hsame : walk R 0 AuditLog.genesis (Lines.records (Lines.fileLines file)) =
        walk R 0 AuditLog.genesis (Lines.records (Lines.splitLines file)) := by
      by_cases hlink : Linked R AuditLog.genesis (Lines.records (Lines.fileLines file)) ∨
          Linked R AuditLog.genesis (Lines.records (Lines.splitLines file))
      · rw [Lines.records_splitLines (hreturns hlink)]
      · rw [not_or] at hlink
        rw [walk_eq_none.2 hlink.1, walk_eq_none.2 hlink.2]
    refine ⟨walk R 0 AuditLog.genesis (Lines.records (Lines.fileLines file)), ?_, ?_, ?_, ?_⟩
    · exact verified_ok.2 ⟨calm_of_filter hshallow hlines, rfl⟩
    · exact anchored_ok.2 ⟨hpieces, hsame⟩
    · exact audited_ok.2 ⟨hshallow, hlines, rfl⟩
    · exact loads_walk hshallow

/-- A line that is a number. -/
def numberLine : List UInt8 := [0x31, 10]

/-- `rec.get` of a number raises in three walkers; `_load_and_verify` asks whether it is a dict. -/
theorem number_line_raises :
    AuditFile.verify Sink.Demo.reader numberLine = .error .attributeError ∧
      E10Anchor.auditFacts Sink.Demo.reader numberLine = .error .attributeError ∧
      VerifyE10.loadAndVerify Sink.Demo.reader (.content numberLine) =
        .ok (.error "line 1: record is not an object") ∧
      ¬∀ file, Agree Sink.Demo.reader file := by
  have hverify : verified Sink.Demo.reader numberLine = .error .attributeError := by decide +kernel
  refine ⟨by decide +kernel, by decide +kernel, by decide +kernel, fun h => ?_⟩
  obtain ⟨w, hw, -⟩ := h numberLine
  rw [hverify] at hw
  cases hw

end Walkers

end Evidence

end StrixPEP
