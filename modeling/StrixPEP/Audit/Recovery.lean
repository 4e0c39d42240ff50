import StrixPEP.Audit.Storage
import StrixPEP.Verifier.Anchor

/-!
# Opening an audit log after a crash

* `AuditFile.verify`, `AuditFile.recoverTail` — the methods on the bytes of the file;
* `Sink.reopen` — `__init__` on an existing file;
* `Recovers` — what opening a file is for: either the log refuses everything, or it can be written
  on as if nothing had happened.

Principal result: `recovery_iff` — a log cut at any byte is recovered exactly if it does not end
with a whole record without its newline.
-/

namespace StrixPEP

/-! ## What a written record reads as -/

/-- `json.dumps` can write the record, and `json.loads` read it. -/
def Writable (R : Json.Reader) (r : Record) : Prop :=
  Json.Proper R (.obj r) ∧ Json.nesting (.obj r) ≤ R.depth

/-- The record as it is read back. -/
def readBack (r : Record) : Record := Json.sortEntries (Json.canonFields r)

theorem loads_lineBytes {R : Json.Reader} {r : Record} (h : Writable R r) :
    Json.loads R (lineBytes r) = .ok (.obj (readBack r)) := Json.loads_dumps h.1 h.2

theorem get?_readBack {r : Record} (hn : (r.map Prod.fst).Nodup) (k : String) :
    Record.get? (readBack r) k = (Record.get? r k).map Json.canon := by
  have hn' := Json.canon_nodup hn
  have hmem : ∀ v, (k, v) ∈ readBack r ↔ ∃ w, (k, w) ∈ r ∧ v = Json.canon w := by
    intro v
    rw [readBack, (Json.sortEntries_perm _).mem_iff, Json.canonFields_eq, List.mem_map]
    constructor
    · rintro ⟨⟨k', w⟩, hw, he⟩
      cases he
      exact ⟨w, hw, rfl⟩
    · rintro ⟨w, hw, rfl⟩
      exact ⟨(k, w), hw, rfl⟩
  unfold Record.get?
  cases hk : r.lookup k with
  | some w =>
    exact Dict.lookup_of_mem hn' ((hmem _).2 ⟨w, Dict.mem_of_lookup hk, rfl⟩)
  | none =>
    cases hk' : List.lookup k (readBack r) with
    | none => rfl
    | some v =>
      obtain ⟨w, hw, -⟩ := (hmem v).1 (Dict.mem_of_lookup hk')
      rw [Dict.lookup_of_mem hn hw] at hk
      cases hk

theorem Writable.nodup {R : Json.Reader} {r : Record} (h : Writable R r) :
    (r.map Prod.fst).Nodup := by
  have := h.1
  rw [Json.Proper] at this
  exact this.2

theorem get?_readBack_str {R : Json.Reader} {r : Record} (h : Writable R r) {k s : String} :
    Record.get? (readBack r) k = some (.str s) ↔ Record.get? r k = some (.str s) := by
  rw [get?_readBack h.nodup]
  cases Record.get? r k with
  | none => exact ⟨nofun, nofun⟩
  | some v => cases v <;> simp [Json.canon]

theorem linkOf_lineBytes {R : Json.Reader} {r : Record} (h : Writable R r) :
    linkOf R (lineBytes r) = prevOf r := by
  cases hp : prevOf r with
  | some prev =>
    refine linkOf_eq_some.2 ⟨_, loads_lineBytes h, (get?_readBack_str h).2 ?_⟩
    unfold prevOf at hp
    split at hp
    · rename_i p hr
      cases hp
      exact hr
    · cases hp
  | none =>
    cases hl : linkOf R (lineBytes r) with
    | none => rfl
    | some prev =>
      obtain ⟨record, hr, hprev⟩ := linkOf_eq_some.1 hl
      rw [loads_lineBytes h] at hr
      cases hr
      rw [get?_readBack_str h] at hprev
      unfold prevOf at hp
      rw [hprev] at hp
      cases hp

theorem linked_map {R : Json.Reader} {prev : String} {records : List Record}
    (h : ∀ r ∈ records, Writable R r) :
    Linked R prev (records.map lineBytes) ↔ Chained prev records := by
  induction records generalizing prev with
  | nil => exact Iff.rfl
  | cons r records ih =>
    have hr := linkOf_lineBytes (h r List.mem_cons_self)
    have ih' : Linked R (recordHash r) (records.map lineBytes) ↔ Chained (recordHash r) records :=
      ih fun x hx => h x (List.mem_cons_of_mem _ hx)
    show (linkOf R (lineBytes r) = some prev ∧ Linked R (recordHash r) (records.map lineBytes)) ↔ _
    rw [hr, ih']
    rfl

/-- The bytes of a line: printable, and from bracket to bracket. -/
theorem lineBytes_spec {R : Json.Reader} {r : Record} (h : Writable R r) :
    (∀ b ∈ lineBytes r, 32 ≤ b.toNat) ∧ ∃ m, lineBytes r = 0x7B :: (m ++ [0x7D]) := by
  have hprint := Json.dumps_printable h.1 (Nat.le_refl _)
  have hbytes : lineBytes r = (Json.dumps (.obj r)).toList.map Json.asciiByte :=
    Json.toUTF8_ascii hprint
  refine ⟨?_, ?_⟩
  · intro b hb
    rw [hbytes] at hb
    obtain ⟨c, hc, rfl⟩ := List.mem_map.1 hb
    have := hprint c hc
    rw [Json.asciiByte_toNat (by omega)]
    omega
  · rw [hbytes, Json.dumps_obj, List.map_cons, List.map_append]
    exact ⟨_, rfl⟩

theorem strip_lineBytes {R : Json.Reader} {r : Record} (h : Writable R r) :
    Lines.strip (lineBytes r) = lineBytes r := by
  obtain ⟨-, m, hm⟩ := lineBytes_spec h
  rw [hm]
  refine Lines.strip_eq_self ?_ ?_
  · intro c hc
    cases hc
    decide
  · intro c hc
    rw [← List.cons_append, List.getLast?_concat] at hc
    cases hc
    decide

theorem feed_notMem_lineBytes {R : Json.Reader} {r : Record} (h : Writable R r) :
    (10 : UInt8) ∉ lineBytes r := by
  intro hm
  have := (lineBytes_spec h).1 _ hm
  revert this
  decide

theorem lineBytes_ne_nil {R : Json.Reader} {r : Record} (h : Writable R r) : lineBytes r ≠ [] := by
  obtain ⟨-, m, hm⟩ := lineBytes_spec h
  rw [hm]
  exact List.cons_ne_nil _ _

/-- The lines of rendered records and of what follows them. -/
theorem splitOn_render {R : Json.Reader} {records : List Record}
    (h : ∀ r ∈ records, Writable R r) (rest : List UInt8) :
    (render records ++ rest).splitOn 10 = records.map lineBytes ++ rest.splitOn 10 := by
  induction records with
  | nil => rfl
  | cons r records ih =>
    have hr := feed_notMem_lineBytes (h r List.mem_cons_self)
    have hcons : render (r :: records) ++ rest = lineBytes r ++ 10 :: (render records ++ rest) := by
      simp [render]
    rw [hcons, List.splitOn_append_cons_self_of_not_mem hr,
      ih fun x hx => h x (List.mem_cons_of_mem _ hx), List.map_cons, List.cons_append]

theorem records_lineBytes {R : Json.Reader} {records : List Record}
    (h : ∀ r ∈ records, Writable R r) : Lines.records (records.map lineBytes) = records.map lineBytes := by
  induction records with
  | nil => rfl
  | cons r records ih =>
    have hr := h r List.mem_cons_self
    rw [List.map_cons, Lines.records_cons, ih fun x hx => h x (List.mem_cons_of_mem _ hx),
      Lines.records_singleton, strip_lineBytes hr, if_neg (lineBytes_ne_nil hr)]
    rfl

/-- The records of a file that begins with rendered records. -/
theorem records_render {R : Json.Reader} {records : List Record}
    (h : ∀ r ∈ records, Writable R r) (rest : List UInt8) :
    Lines.records (Lines.fileLines (render records ++ rest)) =
      records.map lineBytes ++ Lines.records (rest.splitOn 10) := by
  rw [Lines.records_fileLines_eq, splitOn_render h, Lines.records_append, records_lineBytes h]

/-! ## The methods -/

namespace AuditFile

/-- The loop of `verify`: is the chain intact, and the detail. -/
def verifyLoop (R : Json.Reader) (i n : Nat) (prev : String) :
    List (List UInt8) → Except PyError (Bool × String)
  | [] => .ok (true, s!"{n} records, chain intact")
  | raw :: lines =>
    let line := Lines.strip raw
    if line = [] then verifyLoop R (i + 1) n prev lines
    else
      match Json.loads R line with
      | .error .valueError => .ok (false, s!"line {i}: unparseable")
      | .error .recursionError => .error .recursionError
      | .ok (.obj record) =>
        if Record.get? record "prev" = some (.str prev) then
          verifyLoop R (i + 1) (n + 1) (Sha256.hexdigest line) lines
        else
          .ok (false, s!"line {i}: chain break (expected prev={String.ofList (prev.toList.take 12)}…)")
      | .ok _ => .error .attributeError

/-- `verify`. -/
def verify (R : Json.Reader) (file : List UInt8) : Except PyError (Bool × String) :=
  verifyLoop R 1 0 AuditLog.genesis (Lines.fileLines file)

/-- The loop of `_recover_tail`: the last line that parses. -/
def recoverLoop (R : Json.Reader) (last : Option (List UInt8 × Json)) :
    List (List UInt8) → Except PyError (Option (List UInt8 × Json))
  | [] => .ok last
  | raw :: lines =>
    let line := Lines.strip raw
    if line = [] then recoverLoop R last lines
    else
      match Json.loads R line with
      | .error .valueError => recoverLoop R last lines
      | .error .recursionError => .error .recursionError
      | .ok v => recoverLoop R (some (line, v)) lines

/-- `_recover_tail`: the hash of the last line, and whether it seals the log. -/
def recoverTail (R : Json.Reader) (file : List UInt8) : Except PyError (String × Bool) :=
  match recoverLoop R none (Lines.fileLines file) with
  | .error e => .error e
  | .ok none => .ok (AuditLog.genesis, false)
  | .ok (some (line, .obj record)) =>
    .ok (Sha256.hexdigest line, decide (Record.get? record "decision" = some (.str "RUN_CLOSED")))
  | .ok (some _) => .error .attributeError

/-- The values of the lines that parse. -/
def parsed (R : Json.Reader) (file : List UInt8) : List Json :=
  (Lines.records (Lines.fileLines file)).filterMap fun line => (Json.loads R line).toOption

end AuditFile

/-- `__init__` on an existing file; `durable` is whether its directory could be synced. -/
def Sink.reopen (R : Json.Reader) (runId : String) (file : List UInt8) (durable : Bool) :
    Except PyError Sink :=
  match AuditFile.verify R file with
  | .error e => .error e
  | .ok (false, _) => .ok ⟨runId, false, false, AuditLog.genesis, file⟩
  | .ok (true, _) =>
    match AuditFile.recoverTail R file with
    | .error e => .error e
    | .ok (prev, sealed) => .ok ⟨runId, durable, sealed, prev, file⟩

namespace AuditFile

/-- The file is intact. -/
def Intact (R : Json.Reader) (file : List UInt8) : Prop := ∃ detail, verify R file = .ok (true, detail)

theorem verifyLoop_true {R : Json.Reader} {i n : Nat} {prev : String} {lines : List (List UInt8)} :
    (∃ detail, verifyLoop R i n prev lines = .ok (true, detail)) ↔
      Linked R prev (Lines.records lines) := by
  induction lines generalizing i n prev with
  | nil => exact ⟨fun _ => trivial, fun _ => ⟨_, rfl⟩⟩
  | cons raw lines ih =>
    rw [Lines.records_cons, Lines.records_singleton]
    simp only [verifyLoop]
    split
    · rw [List.nil_append]
      exact ih
    · rename_i hblank
      rw [List.singleton_append]
      show _ ↔ linkOf R (Lines.strip raw) = some prev ∧
        Linked R (Sha256.hexdigest (Lines.strip raw)) (Lines.records lines)
      rw [linkOf_eq_some]
      split
      · rename_i he
        rw [he]
        simp
      · rename_i he
        rw [he]
        simp
      · rename_i record hr
        rw [hr]
        split
        · rename_i hp
          rw [ih]
          constructor
          · intro h
            exact ⟨⟨record, rfl, hp⟩, h⟩
          · exact And.right
        · rename_i hp
          constructor
          · rintro ⟨d, hd⟩
            cases hd
          · rintro ⟨⟨record', hr', hp'⟩, -⟩
            cases hr'
            exact absurd hp' hp
      · rename_i v hne hv
        rw [hv]
        constructor
        · rintro ⟨d, hd⟩
          cases hd
        · rintro ⟨⟨record', hr', -⟩, -⟩
          exact absurd (Except.ok.inj hr') (hne record')

/-- **The chain is intact.** -/
theorem intact_iff {R : Json.Reader} {file : List UInt8} :
    Intact R file ↔ Linked R AuditLog.genesis (Lines.records (Lines.fileLines file)) :=
  verifyLoop_true

/-! ## Files of written records -/

/-- The lines of the file are those of the records. -/
def Holds (file : List UInt8) (records : List Record) : Prop :=
  Lines.fileLines file = records.map lineBytes

section

variable {R : Json.Reader} {records : List Record} (hw : ∀ r ∈ records, Writable R r)

include hw

theorem holds_render : Holds (render records) records := by
  have hsplit := splitOn_render hw []
  rw [List.append_nil] at hsplit
  unfold Holds Lines.fileLines
  simp only
  rw [hsplit]
  simp

theorem holds_unterminated {r : Record} (hr : Writable R r) :
    Holds (render records ++ lineBytes r) (records ++ [r]) := by
  unfold Holds Lines.fileLines
  simp only
  rw [splitOn_render hw, List.splitOn_eq_singleton (feed_notMem_lineBytes hr), if_neg]
  · rw [List.map_append]
    rfl
  · rw [List.getLast?_concat]
    exact fun he => lineBytes_ne_nil hr (Option.some.inj he)

theorem Holds.intact_iff {file : List UInt8} (h : Holds file records) :
    Intact R file ↔ Chained AuditLog.genesis records := by
  rw [AuditFile.intact_iff, h, records_lineBytes hw, linked_map hw]

theorem Holds.parsed {file : List UInt8} (h : Holds file records) :
    parsed R file = records.map fun r => .obj (readBack r) := by
  unfold AuditFile.parsed
  rw [h, records_lineBytes hw]
  clear h
  induction records with
  | nil => rfl
  | cons r records ih =>
    rw [List.map_cons, List.map_cons, List.filterMap_cons, loads_lineBytes (hw r List.mem_cons_self)]
    exact congrArg _ (ih fun x hx => hw x (List.mem_cons_of_mem _ hx))

theorem recoverLoop_lines (last : Option (List UInt8 × Json)) :
    recoverLoop R last (records.map lineBytes) =
      .ok ((records.getLast?.map fun r => (lineBytes r, .obj (readBack r))).or last) := by
  induction records generalizing last with
  | nil => rfl
  | cons r records ih =>
    have hr := hw r List.mem_cons_self
    rw [List.map_cons]
    simp only [recoverLoop]
    rw [strip_lineBytes hr, if_neg (lineBytes_ne_nil hr), loads_lineBytes hr]
    simp only
    rw [ih fun x hx => hw x (List.mem_cons_of_mem _ hx)]
    cases records with
    | nil => rfl
    | cons x xs =>
      rw [List.getLast?_cons_cons]
      cases hl : (x :: xs).getLast? with
      | none => simp at hl
      | some y => rfl

end

theorem tail_getLast (prev : String) (records : List Record) :
    HashChain.tail recordHash prev records = (records.getLast?.map recordHash).getD prev := by
  induction records generalizing prev with
  | nil => rfl
  | cons r records ih =>
    show HashChain.tail recordHash (recordHash r) records = _
    rw [ih]
    cases records with
    | nil => rfl
    | cons x xs =>
      rw [List.getLast?_cons_cons]
      cases hl : (x :: xs).getLast? with
      | none => simp at hl
      | some y => rfl

/-- The last record closes the run. -/
def closes (records : List Record) : Bool :=
  match records.getLast? with
  | some r => decide (Record.get? r "decision" = some (.str "RUN_CLOSED"))
  | none => false

theorem Holds.recoverTail {R : Json.Reader} {records : List Record}
    (hw : ∀ r ∈ records, Writable R r) {file : List UInt8} (h : Holds file records) :
    recoverTail R file = .ok (HashChain.tail recordHash AuditLog.genesis records, closes records) := by
  unfold AuditFile.recoverTail closes
  rw [h, recoverLoop_lines hw, tail_getLast]
  cases hl : records.getLast? with
  | none => rfl
  | some r =>
    have hr := hw r (List.mem_of_getLast? hl)
    show Except.ok (recordHash r, decide (Record.get? (readBack r) "decision" = _)) = _
    simp only [Option.map_some, Option.getD_some]
    rw [decide_eq_decide.2 (get?_readBack_str hr)]

/-- A line that does not parse makes the file broken. -/
theorem verifyLoop_torn {R : Json.Reader} {i n : Nat} {prev : String} {records : List Record}
    (hw : ∀ r ∈ records, Writable R r) {line : List UInt8} (hblank : Lines.strip line ≠ [])
    (htorn : Json.loads R (Lines.strip line) = .error .valueError) :
    ∃ detail, verifyLoop R i n prev (records.map lineBytes ++ [line]) = .ok (false, detail) := by
  induction records generalizing i n prev with
  | nil =>
    simp only [List.map_nil, List.nil_append, verifyLoop]
    rw [if_neg hblank, htorn]
    exact ⟨_, rfl⟩
  | cons r records ih =>
    have hr := hw r List.mem_cons_self
    simp only [List.map_cons, List.cons_append, verifyLoop]
    rw [strip_lineBytes hr, if_neg (lineBytes_ne_nil hr), loads_lineBytes hr]
    simp only
    split
    · exact ih fun x hx => hw x (List.mem_cons_of_mem _ hx)
    · exact ⟨_, rfl⟩

end AuditFile

/-! ## Cut files -/

/-- A prefix of rendered records is some of them and a beginning of the next line. -/
theorem prefix_render {records : List Record} {p : List UInt8} (h : p <+: render records) :
    ∃ pre post seg, records = pre ++ post ∧ p = render pre ++ seg ∧
      (seg = [] ∨ ∃ r post', post = r :: post' ∧ seg ≠ [] ∧ seg <+: lineBytes r) := by
  induction records generalizing p with
  | nil =>
    refine ⟨[], [], [], rfl, ?_, Or.inl rfl⟩
    exact List.prefix_nil.1 h
  | cons r records ih =>
    have hcons : render (r :: records) = (lineBytes r ++ [10]) ++ render records := rfl
    rw [hcons] at h
    by_cases hlen : p.length ≤ (lineBytes r).length
    · have hp : p <+: lineBytes r := by
        rw [List.append_assoc] at h
        exact List.prefix_of_prefix_length_le h (List.prefix_append _ _) hlen
      refine ⟨[], r :: records, p, rfl, rfl, ?_⟩
      by_cases hnil : p = []
      · exact Or.inl hnil
      · exact Or.inr ⟨r, records, rfl, hnil, hp⟩
    · have hfull : lineBytes r ++ [10] <+: p := by
        refine List.prefix_of_prefix_length_le (List.prefix_append _ _) h ?_
        rw [List.length_append, List.length_singleton]
        omega
      obtain ⟨q, rfl⟩ := hfull
      obtain ⟨pre, post, seg, hrec, hq, hseg⟩ := ih ((List.prefix_append_right_inj _).1 h)
      refine ⟨r :: pre, post, seg, by rw [hrec]; rfl, ?_, hseg⟩
      rw [hq, ← List.append_assoc]
      rfl

/-- A line that is cut does not parse. -/
theorem loads_cut {R : Json.Reader} {r : Record} (h : Writable R r) {seg : List UInt8}
    (hseg : seg <+: lineBytes r) (hne : seg ≠ lineBytes r) :
    Json.loads R seg = .error .valueError := by
  have hprint := Json.dumps_printable h.1 (Nat.le_refl _)
  have hbytes : lineBytes r = (Json.dumps (.obj r)).toList.map Json.asciiByte :=
    Json.toUTF8_ascii hprint
  have htext := Json.loadsText_dumps h.1 h.2
  have hlast : (Json.dumps (.obj r)).toList.getLast? = some '\x7d' := by
    rw [Json.dumps_obj, ← List.cons_append, List.getLast?_concat]
  generalize (Json.dumps (.obj r)).toList = text at hprint hbytes htext hlast
  rw [hbytes] at hseg hne
  obtain ⟨rest, hrest⟩ := hseg
  obtain ⟨s, t, rfl, rfl, rfl⟩ := List.map_eq_append_iff.1 hrest.symm
  have ht : t ≠ [] := by
    rintro rfl
    rw [List.append_nil] at hne
    exact hne rfl
  rw [Json.loads_printable fun c hc => hprint c (List.mem_append_left _ hc)]
  refine Json.loadsText_cut htext rfl ?_
  -- what is cut off ends with the closing bracket
  intro hwhite
  rw [List.getLast?_append_of_ne_nil _ ht] at hlast
  have hmem := List.mem_of_getLast? hlast
  unfold Json.skip at hwhite
  rw [List.dropWhile_eq_nil_iff] at hwhite
  exact absurd (hwhite _ hmem) (by decide)

theorem strip_seg {R : Json.Reader} {r : Record} (h : Writable R r) {seg : List UInt8}
    (hseg : seg <+: lineBytes r) (hne : seg ≠ []) :
    Lines.strip seg ≠ [] ∧ Lines.strip seg <+: seg := by
  obtain ⟨-, m, hm⟩ := lineBytes_spec h
  obtain ⟨b, seg', rfl⟩ := List.exists_cons_of_ne_nil hne
  rw [hm, List.cons_prefix_cons] at hseg
  obtain ⟨rfl, -⟩ := hseg
  refine ⟨?_, ?_⟩
  · rw [Ne, Lines.strip_eq_nil_iff]
    intro hall
    exact absurd (hall _ List.mem_cons_self) (by decide)
  · obtain ⟨pre, post, hdec, hpre, -⟩ := Lines.strip_decompose (0x7B :: seg')
    cases pre with
    | nil => exact ⟨post, by rw [← List.nil_append (Lines.strip _)]; exact hdec.symm⟩
    | cons x pre =>
      rw [List.append_assoc, List.cons_append] at hdec
      obtain ⟨rfl, -⟩ := List.cons.inj hdec
      exact absurd (hpre _ List.mem_cons_self) (by decide)

/-! ## The records of a run -/

/-- What `json.dumps` writes in the call, `json.loads` can read. -/
def Call.Readable (R : Json.Reader) (c : Call) : Prop :=
  c.serializes = true → ∀ runId prev, Writable R (recordOf runId prev c.fields c.ts c.order)

namespace Sink

/-- A new log. -/
def fresh (runId : String) : Sink := ⟨runId, true, false, AuditLog.genesis, []⟩

/-- A record that one of the calls made. -/
def Origin (cs : List Call) (r : Record) : Prop :=
  ∃ c ∈ cs, c.serializes = true ∧ ∃ runId prev, r = recordOf runId prev c.fields c.ts c.order

theorem Origin.cons {cs : List Call} {r : Record} (h : Origin cs r) (c : Call) : Origin (c :: cs) r := by
  obtain ⟨d, hd, hr⟩ := h
  exact ⟨d, List.mem_cons_of_mem _ hd, hr⟩

theorem Origin.writable {R : Json.Reader} {cs : List Call} {r : Record} (h : Origin cs r)
    (hcs : ∀ c ∈ cs, c.Readable R) : Writable R r := by
  obtain ⟨c, hc, hser, runId, prev, rfl⟩ := h
  exact hcs c hc hser runId prev

theorem write_serializes {s s' : Sink} {c : Call} {e : Ending} (h : s.write c = some (e, s')) :
    c.serializes = true ∨ s' = s ∧ e ≠ .returned := by
  unfold write at h
  split at h
  · cases h
    exact Or.inr ⟨rfl, nofun⟩
  split at h
  · cases h
    exact Or.inr ⟨rfl, nofun⟩
  split at h
  · cases h
    exact Or.inr ⟨rfl, nofun⟩
  · rename_i hser
    left
    simpa using hser

/-- Only a call whose record is serialized changes the log. -/
theorem call_serializes {s s' : Sink} {c : Call} {e : Ending} (h : s.call c = some (e, s')) :
    c.serializes = true ∨ s' = s ∧ e ≠ .returned := by
  unfold call at h
  split at h
  · unfold sealWith at h
    split at h
    · cases h
      exact Or.inr ⟨rfl, nofun⟩
    split at h
    · cases h
      exact Or.inr ⟨rfl, nofun⟩
    split at h
    · rename_i s'' hw
      cases h
      obtain hser | ⟨-, hne⟩ := write_serializes hw
      · exact Or.inl hser
      · exact absurd rfl hne
    · exact write_serializes h
  · exact write_serializes h

theorem origin_record {s s' : Sink} {c : Call} {cs : List Call} {e : Ending}
    (h : s.call c = some (e, s')) (hne : s' ≠ s ∨ e = .returned) : Origin (c :: cs) (s.record c) := by
  obtain hser | ⟨hs, he⟩ := call_serializes h
  · exact ⟨c, List.mem_cons_self, hser, s.runId, s.prev, rfl⟩
  · rcases hne with hne | hne
    · exact absurd hs hne
    · exact absurd hne he

/-- **The file after any run** is a beginning of the lines of records that its calls made. -/
theorem run_render {s t : Sink} {cs : List Call} {es : List Ending} (h : s.run cs = some (es, t)) :
    ∃ records w, (∀ r ∈ records, Origin cs r) ∧ t.bytes = s.bytes ++ w ∧ w <+: render records := by
  induction cs generalizing s es with
  | nil =>
    cases h
    exact ⟨[], [], nofun, (List.append_nil _).symm, List.prefix_rfl⟩
  | cons c cs ih =>
    obtain ⟨e, s', es', hc, hrun, rfl, -⟩ := run_cons h
    obtain ⟨records, w, hrec, hbytes, hw⟩ := ih hrun
    have hsame : s' = s → ∃ records w, (∀ r ∈ records, Origin (c :: cs) r) ∧
        t.bytes = s.bytes ++ w ∧ w <+: render records := by
      rintro rfl
      exact ⟨records, w, fun r hr => (hrec r hr).cons c, hbytes, hw⟩
    by_cases hs : s' = s
    · exact hsame hs
    have horigin : Origin (c :: cs) (s.record c) := origin_record hc (Or.inl hs)
    have hall : ∀ r ∈ s.record c :: records, Origin (c :: cs) r := by
      intro r hr
      rcases List.mem_cons.1 hr with rfl | hr
      · exact horigin
      · exact (hrec r hr).cons c
    have hcons : ∀ {u}, s'.bytes = s.bytes ++ u → u = lineBytes (s.record c) ++ [10] →
        t.bytes = s.bytes ++ (u ++ w) ∧ u ++ w <+: render (s.record c :: records) := by
      rintro u hu rfl
      refine ⟨by rw [hbytes, hu, List.append_assoc], ?_⟩
      exact (List.prefix_append_right_inj _).2 hw
    cases call_effect hc with
    | returned _ _ => exact ⟨_, _, hall, hcons rfl rfl⟩
    | unclosed _ _ _ => exact ⟨_, _, hall, hcons rfl rfl⟩
    | refused _ => exact absurd rfl hs
    | early _ => exact absurd rfl hs
    | latched u _ _ hu =>
      obtain ⟨rfl, -, -⟩ := Frozen.run (Or.inr rfl) hrun
      refine ⟨[s.record c], u, ?_, rfl, ?_⟩
      · intro r hr
        rw [List.mem_singleton.1 hr]
        exact horigin
      · simpa [render] using hu

/-- The file after a run all of whose calls return. -/
theorem run_all_returned {s t : Sink} {cs : List Call} {es : List Ending}
    (h : s.run cs = some (es, t)) (hall : ∀ e ∈ es, e = .returned) :
    t.bytes = s.bytes ++ render (s.returned cs) ∧ Chained s.prev (s.returned cs) ∧
      (∀ r ∈ s.returned cs, Origin cs r) ∧ (s.returned cs).length = cs.length := by
  induction cs generalizing s es with
  | nil =>
    cases h
    exact ⟨(List.append_nil _).symm, trivial, nofun, rfl⟩
  | cons c cs ih =>
    obtain ⟨e, s', es', hc, hrun, rfl, hret⟩ := run_cons h
    obtain rfl : e = .returned := hall e List.mem_cons_self
    obtain ⟨hbytes, hchain, horigin, hlen⟩ := ih hrun fun e he => hall e (List.mem_cons_of_mem _ he)
    have hfirst : Origin (c :: cs) (s.record c) := origin_record hc (Or.inr rfl)
    rw [hret, if_pos rfl, List.singleton_append]
    cases call_effect hc with
    | returned hs hh =>
      refine ⟨?_, ⟨prevOf_recordOf _ _ _ _ _, hchain⟩, ?_, ?_⟩
      · rw [hbytes]
        simp [render]
      · intro r hr
        rcases List.mem_cons.1 hr with rfl | hr
        · exact hfirst
        · exact (horigin r hr).cons c
      · rw [List.length_cons, List.length_cons, hlen]

end Sink

/-! ## Opening a cut file -/

/-- What stands after the last line feed. -/
def lastLine (file : List UInt8) : List UInt8 := (file.splitOn 10).getLastD []

/-- The log refuses every write and the file is as it was. -/
def Sink.Refuses (s : Sink) (file : List UInt8) : Prop :=
  s.healthy = false ∧ s.bytes = file ∧ ∀ c, s.write c = some (.refused, s)

/-- After any calls that return, the chain is intact and the file holds what it held and the new
records. -/
def Sink.Continues (R : Json.Reader) (s : Sink) (file : List UInt8) : Prop :=
  s.healthy = true ∧ ∀ cs es t, (∀ c ∈ cs, c.Readable R) → s.run cs = some (es, t) →
    (∀ e ∈ es, e = .returned) →
      AuditFile.Intact R t.bytes ∧ AuditFile.parsed R t.bytes =
        AuditFile.parsed R file ++ (s.returned cs).map fun r => .obj (readBack r)

/-- Opening the file either refuses or continues it. -/
def Recovers (R : Json.Reader) (runId : String) (file : List UInt8) (durable : Bool) : Prop :=
  ∃ s, Sink.reopen R runId file durable = .ok s ∧ (s.Refuses file ∨ s.Continues R file)

/-- The file is intact and ends with a record without its line feed, which is not `RUN_CLOSED`. -/
def Unterminated (R : Json.Reader) (file : List UInt8) : Prop :=
  AuditFile.Intact R file ∧ ∃ record, Json.loads R (lastLine file) = .ok (.obj record) ∧
    Record.get? record "decision" ≠ some (.str "RUN_CLOSED")

theorem Sink.refuses_of_unhealthy {s : Sink} {file : List UInt8} (hs : s.healthy = false)
    (hb : s.bytes = file) : s.Refuses file := by
  refine ⟨hs, hb, ?_⟩
  intro c
  unfold Sink.write
  split
  · rfl
  · rw [if_pos (by rw [hs]; rfl)]

theorem lastLine_render {R : Json.Reader} {records : List Record}
    (hw : ∀ r ∈ records, Writable R r) {seg : List UInt8} (hseg : (10 : UInt8) ∉ seg) :
    lastLine (render records ++ seg) = seg := by
  unfold lastLine
  rw [splitOn_render hw, List.splitOn_eq_singleton hseg, List.getLastD_concat]

theorem loads_nil (R : Json.Reader) : Json.loads R [] = .error .valueError := by
  have h := Json.loads_printable (R := R) (s := []) nofun
  rw [List.map_nil] at h
  rw [h]
  unfold Json.loadsText
  rw [show Json.skip [] = [] from rfl, (Json.value_extends R R.depth).empty]

namespace AuditFile

theorem verifyLoop_lines {R : Json.Reader} {i n : Nat} {prev : String} {records : List Record}
    (hw : ∀ r ∈ records, Writable R r) :
    ∃ intact detail, verifyLoop R i n prev (records.map lineBytes) = .ok (intact, detail) := by
  induction records generalizing i n prev with
  | nil => exact ⟨_, _, rfl⟩
  | cons r records ih =>
    have hr := hw r List.mem_cons_self
    simp only [List.map_cons, verifyLoop]
    rw [strip_lineBytes hr, if_neg (lineBytes_ne_nil hr), loads_lineBytes hr]
    simp only
    split
    · exact ih fun x hx => hw x (List.mem_cons_of_mem _ hx)
    · exact ⟨_, _, rfl⟩

/-- Opening a file of whole records. -/
theorem Holds.reopen {R : Json.Reader} {records : List Record} (hw : ∀ r ∈ records, Writable R r)
    {file : List UInt8} (h : Holds file records) (runId : String) (durable : Bool) :
    Chained AuditLog.genesis records ∧ Sink.reopen R runId file durable =
        .ok ⟨runId, durable, closes records, HashChain.tail recordHash AuditLog.genesis records, file⟩ ∨
      ¬ Chained AuditLog.genesis records ∧
        Sink.reopen R runId file durable = .ok ⟨runId, false, false, AuditLog.genesis, file⟩ := by
  have hloop : ∃ intact detail,
      verifyLoop R 1 0 AuditLog.genesis (records.map lineBytes) = .ok (intact, detail) :=
    verifyLoop_lines hw
  rw [← h] at hloop
  obtain ⟨intact, detail, hv⟩ := hloop
  have hv' : verify R file = .ok (intact, detail) := hv
  rw [← h.intact_iff hw]
  unfold Sink.reopen Intact
  rw [hv']
  cases intact with
  | true =>
    left
    refine ⟨⟨detail, rfl⟩, ?_⟩
    simp only
    rw [h.recoverTail hw]
  | false =>
    right
    refine ⟨?_, rfl⟩
    rintro ⟨d, hd⟩
    cases hd

/-- The lines of a file whose last line is cut. -/
theorem fileLines_torn {R : Json.Reader} {records : List Record} (hw : ∀ r ∈ records, Writable R r)
    {r : Record} (hr : Writable R r) {seg : List UInt8} (hseg : seg <+: lineBytes r)
    (hne : seg ≠ []) : Lines.fileLines (render records ++ seg) = records.map lineBytes ++ [seg] := by
  have h10 : (10 : UInt8) ∉ seg := fun h => feed_notMem_lineBytes hr (hseg.subset h)
  unfold Lines.fileLines
  simp only
  rw [splitOn_render hw, List.splitOn_eq_singleton h10, if_neg]
  rw [List.getLast?_concat]
  exact fun he => hne (Option.some.inj he)

/-- A line that is cut does not parse, stripped or not. -/
theorem loads_strip_cut {R : Json.Reader} {r : Record} (hr : Writable R r) {seg : List UInt8}
    (hseg : seg <+: lineBytes r) (hne : seg ≠ []) (hcut : seg ≠ lineBytes r) :
    Json.loads R (Lines.strip seg) = .error .valueError := by
  obtain ⟨-, hstrip⟩ := strip_seg hr hseg hne
  refine loads_cut hr (hstrip.trans hseg) fun he => hcut ?_
  -- stripping a cut line does not make it whole
  have hle := hstrip.length_le
  rw [he] at hle
  exact hseg.eq_of_length_le hle

/-- Opening a file whose last line is cut. -/
theorem reopen_torn {R : Json.Reader} {records : List Record} (hw : ∀ r ∈ records, Writable R r)
    {r : Record} (hr : Writable R r) {seg : List UInt8} (hseg : seg <+: lineBytes r)
    (hne : seg ≠ []) (hcut : seg ≠ lineBytes r) (runId : String) (durable : Bool) :
    Sink.reopen R runId (render records ++ seg) durable =
      .ok ⟨runId, false, false, AuditLog.genesis, render records ++ seg⟩ := by
  have hloop : ∃ detail,
      verifyLoop R 1 0 AuditLog.genesis (records.map lineBytes ++ [seg]) = .ok (false, detail) :=
    verifyLoop_torn hw (strip_seg hr hseg hne).1 (loads_strip_cut hr hseg hne hcut)
  obtain ⟨detail, hd⟩ := hloop
  unfold Sink.reopen verify
  rw [fileLines_torn hw hr hseg hne, hd]

end AuditFile

namespace Sink

/-- Where the file ends at the end of a line, writing goes on. -/
theorem continues_render {R : Json.Reader} {records : List Record} (hw : ∀ r ∈ records, Writable R r)
    (hchain : Chained AuditLog.genesis records) (runId : String) (sealed : Bool) :
    Continues R ⟨runId, true, sealed, HashChain.tail recordHash AuditLog.genesis records, render records⟩
      (render records) := by
  refine ⟨rfl, ?_⟩
  intro cs es t hcs hrun hall
  obtain ⟨hbytes, hchain', horigin, -⟩ := run_all_returned hrun hall
  generalize returned _ cs = new at hbytes hchain' horigin ⊢
  have hw' : ∀ r ∈ records ++ new, Writable R r := by
    intro r hr
    rcases List.mem_append.1 hr with hr | hr
    · exact hw r hr
    · exact (horigin r hr).writable hcs
  have hrender : t.bytes = render (records ++ new) := by
    rw [hbytes]
    exact List.flatMap_append.symm
  have hholds := AuditFile.holds_render hw'
  rw [← hrender] at hholds
  refine ⟨(hholds.intact_iff hw').2 (HashChain.chain_append.2 ⟨hchain, hchain'⟩), ?_⟩
  rw [hholds.parsed hw', (AuditFile.holds_render hw).parsed hw, List.map_append]

/-- A sealed log stays as it is. -/
theorem continues_sealed {R : Json.Reader} {s : Sink} (hh : s.healthy = true) (hs : s.sealed = true)
    (hintact : AuditFile.Intact R s.bytes) : s.Continues R s.bytes := by
  refine ⟨hh, ?_⟩
  intro cs es t _ hrun hall
  obtain ⟨rfl, hnot, hnone⟩ := Frozen.run (Or.inl hs) hrun
  rw [hnone, List.map_nil, List.append_nil]
  exact ⟨hintact, rfl⟩

/-- The call as a `write` that the storage completes. -/
def completed (s : Sink) (c : Call) : Call :=
  { c with
    final := false
    opens := true
    writes := [.wrote (lineBytes (s.record c) ++ [10]).length]
    syncs := true
    closes := true }

theorem call_completed {s : Sink} (hs : s.sealed = false) (hh : s.healthy = true) {c : Call}
    (hc : c.serializes = true) :
    s.call (s.completed c) = some (.returned,
      { s with
        bytes := s.bytes ++ (lineBytes (s.record c) ++ [10])
        prev := Sha256.hexdigest (lineBytes (s.record c)) }) := by
  have hwrites : writeAll (s.completed c).writes (lineBytes (s.record (s.completed c)) ++ [10]) =
      some (lineBytes (s.record c) ++ [10], true) :=
    writeAll_whole (List.append_ne_nil_of_right_ne_nil _ (List.cons_ne_nil _ _))
  simp only [call, write, hs, hh, hwrites]
  rw [show (s.completed c).serializes = true from hc]
  rfl

/-- Two records in one line break the chain. -/
theorem not_intact_shared {R : Json.Reader} {records : List Record} {r r' : Record}
    (hw : ∀ x ∈ records, Writable R x) (hr : Writable R r) (hr' : Writable R r') :
    ¬ AuditFile.Intact R (render records ++ lineBytes r ++ (lineBytes r' ++ [10])) := by
  rw [AuditFile.intact_iff]
  have h10 : (10 : UInt8) ∉ lineBytes r ++ lineBytes r' := by
    rw [List.mem_append, not_or]
    exact ⟨feed_notMem_lineBytes hr, feed_notMem_lineBytes hr'⟩
  have hsplit : render records ++ lineBytes r ++ (lineBytes r' ++ [10]) =
      render records ++ ((lineBytes r ++ lineBytes r') ++ 10 :: []) := by
    simp only [List.append_assoc]
  have hstrip : Lines.strip (lineBytes r ++ lineBytes r') = lineBytes r ++ lineBytes r' := by
    obtain ⟨-, m, hm⟩ := lineBytes_spec hr
    obtain ⟨-, m', hm'⟩ := lineBytes_spec hr'
    refine Lines.strip_eq_self ?_ ?_
    · intro b hb
      rw [hm] at hb
      cases hb
      decide
    · intro b hb
      rw [hm', ← List.cons_append, ← List.append_assoc, List.getLast?_concat] at hb
      cases hb
      decide
  rw [hsplit, records_render hw, List.splitOn_append_cons_self_of_not_mem h10, Lines.records_cons,
    Lines.records_singleton, hstrip, if_neg (List.append_ne_nil_of_left_ne_nil (lineBytes_ne_nil hr) _)]
  intro hlinked
  obtain ⟨-, hlink, -⟩ := HashChain.chain_append.1 hlinked
  obtain ⟨record, hload, -⟩ := linkOf_eq_some.1 hlink
  refine Json.loads_append (loads_lineBytes hr) rfl hload ?_
  obtain ⟨-, m', hm'⟩ := lineBytes_spec hr'
  rw [hm']
  exact List.mem_cons_self

/-- Where the last line has no line feed, the next record is written into it. -/
theorem not_continues {R : Json.Reader} {s : Sink} {records : List Record} {r : Record}
    (hw : ∀ x ∈ records, Writable R x) (hr : Writable R r)
    (hbytes : s.bytes = render records ++ lineBytes r) (hsealed : s.sealed = false) {c : Call}
    (hc : c.Readable R) (hser : c.serializes = true) (file : List UInt8) : ¬ s.Continues R file := by
  rintro ⟨hhealthy, h⟩
  have hcall := call_completed hsealed hhealthy hser
  have hrun : s.run [s.completed c] = some ([.returned],
      { s with
        bytes := s.bytes ++ (lineBytes (s.record c) ++ [10])
        prev := Sha256.hexdigest (lineBytes (s.record c)) }) := by
    simp only [run, hcall]
  obtain ⟨hintact, -⟩ := h [s.completed c] _ _
    (fun d hd => by rw [List.mem_singleton.1 hd]; exact fun _ => hc hser) hrun
    (fun e he => List.mem_singleton.1 he)
  rw [hbytes] at hintact
  exact not_intact_shared hw hr (hc hser s.runId s.prev) hintact

end Sink

/-- A cut file of a run. -/
theorem cut_cases {runId : String} {cs : List Call} {es : List Ending} {t : Sink}
    (hrun : (Sink.fresh runId).run cs = some (es, t)) {file : List UInt8} (hcut : file <+: t.bytes) :
    ∃ pre seg, (∀ r ∈ pre, Sink.Origin cs r) ∧ file = render pre ++ seg ∧
      (seg = [] ∨ ∃ r, Sink.Origin cs r ∧ seg ≠ [] ∧ seg <+: lineBytes r) := by
  obtain ⟨records, w, horigin, hbytes, hw⟩ := Sink.run_render hrun
  rw [show (Sink.fresh runId).bytes = [] from rfl, List.nil_append] at hbytes
  rw [hbytes] at hcut
  obtain ⟨pre, post, seg, rfl, hfile, hseg⟩ := prefix_render (hcut.trans hw)
  refine ⟨pre, seg, fun r hr => horigin r (List.mem_append_left _ hr), hfile, ?_⟩
  refine hseg.imp_right ?_
  rintro ⟨r, post', rfl, hne, hpre⟩
  exact ⟨r, horigin r (List.mem_append_right _ List.mem_cons_self), hne, hpre⟩

section

variable {R : Json.Reader} {pre : List Record} (hw : ∀ x ∈ pre, Writable R x)

include hw

/-- A file that ends at the end of a line is recovered. -/
theorem recovers_render (runId : String) (durable : Bool) :
    Recovers R runId (render pre) durable ∧ ¬ Unterminated R (render pre) := by
  refine ⟨?_, ?_⟩
  · obtain ⟨hchain, hopen⟩ | ⟨-, hopen⟩ := (AuditFile.holds_render hw).reopen hw runId durable
    · refine ⟨_, hopen, ?_⟩
      cases durable with
      | true => exact Or.inr (Sink.continues_render hw hchain _ _)
      | false => exact Or.inl (Sink.refuses_of_unhealthy rfl rfl)
    · exact ⟨_, hopen, Or.inl (Sink.refuses_of_unhealthy rfl rfl)⟩
  · rintro ⟨-, record, hload, -⟩
    have hlast : lastLine (render pre ++ []) = [] := lastLine_render hw List.not_mem_nil
    rw [List.append_nil] at hlast
    rw [hlast, loads_nil] at hload
    cases hload

/-- A file whose last line is cut is refused. -/
theorem recovers_torn {r : Record} (hr : Writable R r) {seg : List UInt8} (hseg : seg <+: lineBytes r)
    (hne : seg ≠ []) (hcut : seg ≠ lineBytes r) (runId : String) (durable : Bool) :
    Recovers R runId (render pre ++ seg) durable ∧ ¬ Unterminated R (render pre ++ seg) := by
  have hopen := AuditFile.reopen_torn hw hr hseg hne hcut runId durable
  refine ⟨⟨_, hopen, Or.inl (Sink.refuses_of_unhealthy rfl rfl)⟩, ?_⟩
  rintro ⟨-, record, hload, -⟩
  have h10 : (10 : UInt8) ∉ seg := fun h => feed_notMem_lineBytes hr (hseg.subset h)
  rw [lastLine_render hw h10, loads_cut hr hseg hcut] at hload
  cases hload

omit hw in
theorem writable_concat (hw : ∀ x ∈ pre, Writable R x) {r : Record} (hr : Writable R r) :
    ∀ x ∈ pre ++ [r], Writable R x := by
  intro x hx
  rcases List.mem_append.1 hx with hx | hx
  · exact hw x hx
  · rw [List.mem_singleton.1 hx]
    exact hr

theorem unterminated_iff {r : Record} (hr : Writable R r) :
    Unterminated R (render pre ++ lineBytes r) ↔
      Chained AuditLog.genesis (pre ++ [r]) ∧ AuditFile.closes (pre ++ [r]) = false := by
  unfold Unterminated AuditFile.closes
  rw [(AuditFile.holds_unterminated hw hr).intact_iff (writable_concat hw hr),
    lastLine_render hw (feed_notMem_lineBytes hr), loads_lineBytes hr, List.getLast?_concat]
  simp only [decide_eq_false_iff_not]
  rw [← not_congr (get?_readBack_str hr)]
  constructor
  · rintro ⟨hchain, record, hrec, hd⟩
    cases hrec
    exact ⟨hchain, hd⟩
  · rintro ⟨hchain, hd⟩
    exact ⟨hchain, _, rfl, hd⟩

/-- A file whose last record is whole, but without its line feed. -/
theorem recovers_whole_iff {r : Record} (hr : Writable R r) {c : Call} (hc : c.Readable R)
    (hser : c.serializes = true) (runId : String) (durable : Bool) :
    Recovers R runId (render pre ++ lineBytes r) durable ↔
      ¬ (durable = true ∧ Unterminated R (render pre ++ lineBytes r)) := by
  have hholds := AuditFile.holds_unterminated hw hr
  have hw' := writable_concat hw hr
  rw [unterminated_iff hw hr]
  obtain ⟨hchain, hopen⟩ | ⟨hbroken, hopen⟩ := hholds.reopen hw' runId durable
  · cases durable with
    | false =>
      refine iff_of_true ⟨_, hopen, Or.inl (Sink.refuses_of_unhealthy rfl rfl)⟩ ?_
      rintro ⟨hd, -⟩
      cases hd
    | true =>
      cases hclosed : AuditFile.closes (pre ++ [r]) with
      | true =>
        rw [hclosed] at hopen
        refine iff_of_true ⟨_, hopen, Or.inr ?_⟩ ?_
        · exact Sink.continues_sealed rfl rfl ((hholds.intact_iff hw').2 hchain)
        · rintro ⟨-, -, hd⟩
          cases hd
      | false =>
        rw [hclosed] at hopen
        refine iff_of_false ?_ fun h => h ⟨rfl, hchain, rfl⟩
        rintro ⟨s, hs, hrec⟩
        rw [hopen] at hs
        cases hs
        rcases hrec with ⟨hh, -⟩ | hcont
        · cases hh
        · exact Sink.not_continues hw hr rfl rfl hc hser _ hcont
  · exact iff_of_true ⟨_, hopen, Or.inl (Sink.refuses_of_unhealthy rfl rfl)⟩ fun h => hbroken h.2.1

end

/-- **Crash and reopen.**  Whatever a run of calls has written, and at whatever byte it is cut: the
file is recovered exactly if it does not end with a whole record without its line feed. -/
theorem recovery_iff {R : Json.Reader} {runId : String} {cs : List Call} {es : List Ending} {t : Sink}
    (hcs : ∀ c ∈ cs, c.Readable R) (hrun : (Sink.fresh runId).run cs = some (es, t))
    {file : List UInt8} (hcut : file <+: t.bytes) (runId' : String) (durable : Bool) :
    Recovers R runId' file durable ↔ ¬ (durable = true ∧ Unterminated R file) := by
  obtain ⟨pre, seg, horigin, rfl, hseg⟩ := cut_cases hrun hcut
  have hw : ∀ r ∈ pre, Writable R r := fun r hr => (horigin r hr).writable hcs
  rcases hseg with rfl | ⟨r, hr, hne, hpre⟩
  · rw [List.append_nil]
    obtain ⟨hrec, hnot⟩ := recovers_render hw runId' durable
    exact iff_of_true hrec fun h => hnot h.2
  have hrw := hr.writable hcs
  by_cases hwhole : seg = lineBytes r
  · rw [hwhole]
    obtain ⟨c, hc, hser, -⟩ := hr
    exact recovers_whole_iff hw hrw (hcs c hc) hser runId' durable
  · obtain ⟨hrec, hnot⟩ := recovers_torn hw hrw hpre hne hwhole runId' durable
    exact iff_of_true hrec fun h => hnot h.2

namespace Sink.Demo

def reader : Json.Reader := ⟨10, fun token => (token, true)⟩

theorem plain_readable : plain.Readable reader := by
  intro _ runId prev
  have hrec : recordOf runId prev plain.fields plain.ts plain.order =
      [("decision", .str "ALLOW"), ("ts", .float "1.5" true), ("run_id", .str runId),
        ("prev", .str prev)] := rfl
  rw [hrec]
  refine ⟨?_, ?_⟩
  · simp only [Json.Proper, Json.ProperFields]
    refine ⟨⟨trivial, ⟨by decide, by decide⟩, trivial, trivial, trivial⟩, ?_⟩
    show ["decision", "ts", "run_id", "prev"].Nodup
    decide
  · simp only [Json.nesting, Json.nestingFields]
    decide

/-- The line of the call, cut before its line feed. -/
def unfed : List UInt8 := lineBytes (log.record plain)

theorem run_plain : (fresh "run-1").run [plain] = some ([.returned], logged) := by
  simp only [run, show fresh "run-1" = log from rfl, call_plain]

theorem unfed_cut : unfed <+: logged.bytes := ⟨[10], rfl⟩

end Sink.Demo

theorem recovery_iff_demo :
    Recovers Sink.Demo.reader "run-1" Sink.Demo.unfed true ↔
      ¬ (true = true ∧ Unterminated Sink.Demo.reader Sink.Demo.unfed) := by
  have hcs : ∀ c ∈ [Sink.Demo.plain], c.Readable Sink.Demo.reader := by
    intro c hc
    rw [List.mem_singleton.1 hc]
    exact Sink.Demo.plain_readable
  exact recovery_iff hcs Sink.Demo.run_plain Sink.Demo.unfed_cut "run-1" true

/-- A file cut right before its last line feed is opened as healthy, and its next record is written
into the same line. -/
theorem unfed_not_recovered :
    (∀ c ∈ [Sink.Demo.plain], c.Readable Sink.Demo.reader) ∧
      (Sink.fresh "run-1").run [Sink.Demo.plain] = some ([.returned], Sink.Demo.logged) ∧
      Sink.Demo.unfed <+: Sink.Demo.logged.bytes ∧
      ¬ Recovers Sink.Demo.reader "run-1" Sink.Demo.unfed true := by
  have hread := Sink.Demo.plain_readable
  refine ⟨?_, Sink.Demo.run_plain, Sink.Demo.unfed_cut, ?_⟩
  · intro c hc
    rw [List.mem_singleton.1 hc]
    exact hread
  · have hr := hread rfl "run-1" AuditLog.genesis
    have hnone : ∀ x ∈ ([] : List Record), Writable Sink.Demo.reader x := nofun
    have h := recovers_whole_iff hnone hr hread rfl "run-1" true
    refine fun hrec => h.1 hrec ⟨rfl, (unterminated_iff hnone hr).2 ⟨?_, by decide⟩⟩
    exact ⟨prevOf_recordOf _ _ _ _ _, trivial⟩

end StrixPEP
