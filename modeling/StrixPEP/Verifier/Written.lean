import StrixPEP.Verifier.RoundTrip
import StrixPEP.Verifier.Simulation

/-!
# Writing a history

The fields of a history, handed to `AuditLog.write` one after the other over a storage that does not
fail, become a log with the same history and new chain metadata.

* `entry` — the fields of a record that a caller hands to `write`;
* `writingCalls`, `writtenRecords` — the calls, and the records that they write.

Principal result: `written_accepted` — what the verifier accepts, the writer can write.
-/

namespace StrixPEP

namespace VerifyE10

/-! ## Simple records -/

/-- A text, a truth value or a number of few digits. -/
def scalarValue : Json → Bool
  | .null | .bool _ | .str _ => true
  | .int n => decide (n.natAbs < 10 ^ 18)
  | .float _ _ | .arr _ | .obj _ => false

/-- A scalar or a list of them. -/
def simpleValue : Json → Bool
  | .arr xs => xs.all scalarValue
  | v => scalarValue v

/-- The fields that `write` adds. -/
def stamps : List String := ["ts", "run_id", "prev"]

/-- The fields that a caller hands to `write`. -/
def entry (r : Record) : Record := r.filter fun e => e.1 ∉ stamps

/-- A record that can be written again: the keys differ, the values of the entry are simple, and no
key names a secret. -/
structure SimpleRecord (r : Record) : Prop where
  nodup : (r.map Prod.fst).Nodup
  values : ∀ e ∈ entry r, simpleValue e.2 = true
  open_ : walk (.obj r) = false

instance (r : Record) : Decidable (SimpleRecord r) :=
  decidable_of_iff ((r.map Prod.fst).Nodup ∧ (∀ e ∈ entry r, simpleValue e.2 = true) ∧
    walk (.obj r) = false) ⟨fun h => ⟨h.1, h.2.1, h.2.2⟩, fun h => ⟨h.nodup, h.values, h.open_⟩⟩

theorem redact_nil (s : String) : redact [] s = s := String.ofList_toList

theorem scrubList_eq (order : List String) (xs : List Json) :
    scrubList order xs = xs.map (scrub order) := by
  induction xs with
  | nil => rfl
  | cons x xs ih => rw [scrubList, ih, List.map_cons]

theorem walkList_eq_false {xs : List Json} : walkList xs = false ↔ ∀ x ∈ xs, walk x = false := by
  induction xs with
  | nil => simp [walkList]
  | cons x xs ih => rw [walkList, Bool.or_eq_false_iff, ih, List.forall_mem_cons]

theorem walkFields_eq_false {kvs : List (String × Json)} :
    walkFields kvs = false ↔ ∀ e ∈ kvs, walk e.2 = false := by
  induction kvs with
  | nil => simp [walkFields]
  | cons e kvs ih => rw [walkFields, Bool.or_eq_false_iff, ih, List.forall_mem_cons]

theorem walk_obj_eq_false {kvs : List (String × Json)} : walk (.obj kvs) = false ↔
    ∀ e ∈ kvs, lowerAscii e.1 ∉ forbiddenKeys ∧ walk e.2 = false := by
  rw [walk, Bool.or_eq_false_iff, walkFields_eq_false, List.any_eq_false]
  simp only [decide_eq_true_eq]
  exact ⟨fun h e he => ⟨h.1 e he, h.2 e he⟩, fun h => ⟨fun e he => (h e he).1, fun e he => (h e he).2⟩⟩

section

variable {v : Json}

theorem scrub_scalar (h : scalarValue v = true) : scrub [] v = v := by
  cases v with
  | str s => rw [scrub, redact_nil]
  | arr xs => cases h
  | obj kvs => cases h
  | _ => rfl

theorem canon_scalar (h : scalarValue v = true) : Json.canon v = v := by
  cases v with
  | arr xs => cases h
  | obj kvs => cases h
  | _ => rfl

theorem walk_scalar (h : scalarValue v = true) : walk v = false := by
  cases v with
  | arr xs => cases h
  | obj kvs => cases h
  | _ => rfl

theorem nesting_scalar (h : scalarValue v = true) : Json.nesting v = 0 := by
  cases v with
  | arr xs => cases h
  | obj kvs => cases h
  | _ => rfl

theorem proper_scalar {R : Json.Reader} (h : scalarValue v = true) : Json.Proper R v := by
  cases v with
  | int n =>
    rw [Json.Proper]
    have hn : n.natAbs < 10 ^ 18 := of_decide_eq_true h
    have := (Nat.length_toDigits_le_iff (b := 10) (n := n.natAbs) (k := 18) (by decide) (by decide)).2 hn
    unfold Json.maxDigits
    omega
  | float r f => cases h
  | arr xs => cases h
  | obj kvs => cases h
  | _ => trivial

/-- Either a scalar, or a list of them. -/
theorem simple_cases (h : simpleValue v = true) :
    scalarValue v = true ∨ ∃ xs, v = .arr xs ∧ ∀ x ∈ xs, scalarValue x = true := by
  cases v with
  | arr xs => exact .inr ⟨xs, rfl, List.all_eq_true.1 h⟩
  | _ => exact .inl h

theorem scrub_simple (h : simpleValue v = true) : scrub [] v = v := by
  rcases simple_cases h with h | ⟨xs, rfl, hxs⟩
  · exact scrub_scalar h
  · rw [scrub, scrubList_eq, List.map_congr_left fun x hx => scrub_scalar (hxs x hx), List.map_id']

theorem canon_simple (h : simpleValue v = true) : Json.canon v = v := by
  rcases simple_cases h with h | ⟨xs, rfl, hxs⟩
  · exact canon_scalar h
  · rw [Json.canon, Json.canonList_eq, List.map_congr_left fun x hx => canon_scalar (hxs x hx), List.map_id']

theorem walk_simple (h : simpleValue v = true) : walk v = false := by
  rcases simple_cases h with h | ⟨xs, rfl, hxs⟩
  · exact walk_scalar h
  · exact walkList_eq_false.2 fun x hx => walk_scalar (hxs x hx)

theorem nesting_simple (h : simpleValue v = true) : Json.nesting v ≤ 1 := by
  rcases simple_cases h with h | ⟨xs, rfl, hxs⟩
  · rw [nesting_scalar h]
    exact Nat.zero_le 1
  · rw [Json.nesting, Nat.add_le_add_iff_right, Json.nestingList_le]
    exact fun x hx => Nat.le_of_eq (nesting_scalar (hxs x hx))

theorem proper_simple {R : Json.Reader} (h : simpleValue v = true) : Json.Proper R v := by
  rcases simple_cases h with h | ⟨xs, rfl, hxs⟩
  · exact proper_scalar h
  · rw [Json.Proper, Json.properList_iff]
    exact fun x hx => proper_scalar (hxs x hx)

end

/-! ## One record -/

/-- What a caller hands to `write`. -/
def handed (r : Record) : Fields := (entry r).map fun e => (e.1, .json e.2)

/-- The record that `write` makes of it at the time `1.5`. -/
def rewritten (runId prev : String) (r : Record) : Record := recordOf runId prev (handed r) "1.5" []

section

variable {R : Json.Reader} {runId prev : String} {r : Record}

theorem scrubbed_handed (h : ∀ e ∈ entry r, simpleValue e.2 = true) :
    ((handed r).map fun e => (e.1, e.2.scrubbed [])) = entry r := by
  unfold handed
  rw [List.map_map]
  refine (List.map_congr_left fun e he => ?_).trans (List.map_id _)
  show (e.1, scrub [] e.2) = e
  rw [scrub_simple (h e he)]

theorem rewritten_eq (h : ∀ e ∈ entry r, simpleValue e.2 = true) :
    rewritten runId prev r = Dict.set (Dict.set (Dict.set (entry r) "ts" (.float "1.5" true))
      "run_id" (.str runId)) "prev" (.str prev) := by
  unfold rewritten recordOf
  rw [scrubbed_handed h]

theorem entry_nodup (h : SimpleRecord r) : ((entry r).map Prod.fst).Nodup :=
  (List.filter_sublist.map Prod.fst).nodup h.nodup

theorem rewritten_nodup (h : SimpleRecord r) : ((rewritten runId prev r).map Prod.fst).Nodup := by
  rw [rewritten_eq h.values]
  exact Dict.nodup_set (Dict.nodup_set (Dict.nodup_set (entry_nodup h) _ _) _ _) _ _

theorem mem_rewritten (h : SimpleRecord r) {e : String × Json} (he : e ∈ rewritten runId prev r) :
    e = ("prev", .str prev) ∨ e = ("run_id", .str runId) ∨ e = ("ts", .float "1.5" true) ∨
      e ∈ entry r := by
  have h1 := Dict.nodup_set (entry_nodup h) "ts" (Json.float "1.5" true)
  have h2 := Dict.nodup_set h1 "run_id" (Json.str runId)
  rw [rewritten_eq h.values, Dict.mem_set h2, Dict.mem_set h1, Dict.mem_set (entry_nodup h)] at he
  rcases he with he | ⟨he | ⟨he | ⟨he, -⟩, -⟩, -⟩
  · exact .inl he
  · exact .inr (.inl he)
  · exact .inr (.inr (.inl he))
  · exact .inr (.inr (.inr he))

theorem rewritten_writable (hfloat : Json.Proper R (.float "1.5" true)) (hdepth : 2 ≤ R.depth)
    (h : SimpleRecord r) : Writable R (rewritten runId prev r) := by
  refine ⟨?_, ?_⟩
  · rw [Json.Proper, Json.properFields_iff]
    refine ⟨fun e he => ?_, rewritten_nodup h⟩
    rcases mem_rewritten h he with rfl | rfl | rfl | he
    · trivial
    · trivial
    · exact hfloat
    · exact proper_simple (h.values e he)
  · rw [Json.nesting]
    refine Nat.le_trans (Nat.add_le_add_right (Json.nestingFields_le.2 fun e he => ?_) 1) hdepth
    rcases mem_rewritten h he with rfl | rfl | rfl | he
    · exact Nat.zero_le 1
    · exact Nat.zero_le 1
    · exact Nat.zero_le 1
    · exact nesting_simple (h.values e he)

/-- The fields that `write` does not add stay. -/
theorem get?_rewritten (h : SimpleRecord r) {k : String} (hk : k ∉ stamps) :
    Record.get? (readBack (rewritten runId prev r)) k = Record.get? r k := by
  have hne : k ≠ "ts" ∧ k ≠ "run_id" ∧ k ≠ "prev" := by
    simpa [stamps] using hk
  rw [get?_readBack (rewritten_nodup h), rewritten_eq h.values]
  unfold Record.get?
  rw [Dict.lookup_set_ne _ _ hne.2.2, Dict.lookup_set_ne _ _ hne.2.1, Dict.lookup_set_ne _ _ hne.1]
  have hentry : (entry r).lookup k = r.lookup k :=
    Dict.lookup_filter (p := fun j => decide (j ∉ stamps)) (decide_eq_true hk)
  rw [hentry]
  cases hv : r.lookup k with
  | none => rfl
  | some v =>
    rw [← hentry] at hv
    rw [Option.map_some, canon_simple (h.values _ (Dict.mem_of_lookup hv))]

theorem walk_rewritten (h : SimpleRecord r) : walk (.obj (readBack (rewritten runId prev r))) = false := by
  have hopen := walk_obj_eq_false.1 h.open_
  rw [walk_obj_eq_false]
  intro e he
  have hmem := (Json.sortEntries_perm _).mem_iff.1 he
  rw [Json.canonFields_eq] at hmem
  obtain ⟨x, hx, rfl⟩ := List.mem_map.1 hmem
  rcases mem_rewritten h hx with rfl | rfl | rfl | hx
  · exact ⟨(by decide : lowerAscii "prev" ∉ forbiddenKeys), rfl⟩
  · exact ⟨(by decide : lowerAscii "run_id" ∉ forbiddenKeys), rfl⟩
  · exact ⟨(by decide : lowerAscii "ts" ∉ forbiddenKeys), rfl⟩
  · have hv := h.values x hx
    refine ⟨(hopen x (List.mem_filter.1 hx).1).1, ?_⟩
    show walk (Json.canon x.2) = false
    rw [canon_simple hv, walk_simple hv]

/-- The verifier sees the same record with new chain metadata. -/
theorem restamped_rewritten (h : SimpleRecord r) (hid : r.get? "run_id" = some (.str runId))
    (hprev : hex64 (r.textOr "prev") = true) (hts : finiteTs (r.get? "ts") = .ok true)
    (hnew : hex64 prev = true) : Restamped r (readBack (rewritten runId prev r)) := by
  have hget : ∀ k v, (rewritten runId prev r).lookup k = some v →
      Record.get? (readBack (rewritten runId prev r)) k = some (Json.canon v) := by
    intro k v hv
    rw [get?_readBack (rewritten_nodup h)]
    unfold Record.get?
    rw [hv, Option.map_some]
  have hrun : (rewritten runId prev r).lookup "run_id" = some (.str runId) := by
    rw [rewritten_eq h.values, Dict.lookup_set_ne _ _ (by decide), Dict.lookup_set_self]
  have htime : (rewritten runId prev r).lookup "ts" = some (.float "1.5" true) := by
    rw [rewritten_eq h.values, Dict.lookup_set_ne _ _ (by decide), Dict.lookup_set_ne _ _ (by decide),
      Dict.lookup_set_self]
  have hlink : (rewritten runId prev r).lookup "prev" = some (.str prev) := by
    rw [rewritten_eq h.values, Dict.lookup_set_self]
  have hfield : ∀ k, k ≠ "prev" → k ≠ "ts" →
      r.get? k = Record.get? (readBack (rewritten runId prev r)) k := by
    intro k h1 h2
    by_cases hk : k = "run_id"
    · rw [hk, hid, hget _ _ hrun]
      rfl
    · exact (get?_rewritten h (by simp [stamps, h1, h2, hk])).symm
  have hcredential : r.textOr "credential_ref" =
      Record.textOr (readBack (rewritten runId prev r)) "credential_ref" := by
    unfold Record.textOr
    rw [hfield _ (by decide) (by decide)]
  refine ⟨⟨hfield, ?_⟩, ?_, ?_⟩
  · unfold looksSecret
    rw [h.open_, walk_rewritten h, hcredential]
  · refine iff_of_true hprev ?_
    unfold Record.textOr
    rw [hget _ _ hlink]
    exact hnew
  · refine iff_of_true hts ?_
    rw [hget _ _ htime]
    rfl

end

/-! ## A log of them -/

/-- The records that are written, the first one after `prev`. -/
def writtenRecords (runId : String) : String → List Record → List Record
  | _, [] => []
  | prev, r :: rs =>
    let record := rewritten runId prev r
    record :: writtenRecords runId (recordHash record) rs

/-- The calls, over a storage that does not fail. -/
def writingCalls (runId : String) : String → List Record → List Call
  | _, [] => []
  | prev, r :: rs =>
    let record := rewritten runId prev r
    ⟨handed r, false, "1.5", [], true, true, [.wrote (lineBytes record ++ [10]).length], true, true⟩ ::
      writingCalls runId (recordHash record) rs

section

variable {R : Json.Reader} {runId : String} {rs : List Record}

/-- Every call returns. -/
theorem run_writing (prev : String) (file : List UInt8) :
    (Sink.mk runId true false prev file).run (writingCalls runId prev rs) =
      some (rs.map fun _ => .returned, ⟨runId, true, false,
        HashChain.tail recordHash prev (writtenRecords runId prev rs),
        file ++ render (writtenRecords runId prev rs)⟩) := by
  induction rs generalizing prev file with
  | nil => simp [writingCalls, writtenRecords, Sink.run, render, HashChain.tail]
  | cons r rs ih =>
    have hdata : lineBytes (rewritten runId prev r) ++ [10] ≠ [] :=
      List.append_ne_nil_of_right_ne_nil _ (List.cons_ne_nil _ _)
    have hcall : (Sink.mk runId true false prev file).call ⟨handed r, false, "1.5", [], true, true,
        [.wrote (lineBytes (rewritten runId prev r) ++ [10]).length], true, true⟩ =
        some (.returned, ⟨runId, true, false, recordHash (rewritten runId prev r),
          file ++ (lineBytes (rewritten runId prev r) ++ [10])⟩) := by
      have hwrite : writeAll [.wrote (lineBytes (rewritten runId prev r) ++ [10]).length]
          (lineBytes (recordOf runId prev (handed r) "1.5" []) ++ [10]) =
          some (lineBytes (rewritten runId prev r) ++ [10], true) := Sink.writeAll_whole hdata
      simp only [Sink.call, Sink.write, Sink.record, hwrite]
      rfl
    have hrender : file ++ render (writtenRecords runId prev (r :: rs)) =
        (file ++ (lineBytes (rewritten runId prev r) ++ [10])) ++
          render (writtenRecords runId (recordHash (rewritten runId prev r)) rs) := by
      simp [writtenRecords, render]
    rw [hrender]
    simp only [writingCalls, Sink.run, hcall, ih]
    rfl

theorem writtenRecords_chained (prev : String) : Chained prev (writtenRecords runId prev rs) := by
  induction rs generalizing prev with
  | nil => trivial
  | cons r rs ih => exact ⟨prevOf_recordOf _ _ _ _ _, ih _⟩

theorem writtenRecords_writable (hfloat : Json.Proper R (.float "1.5" true)) (hdepth : 2 ≤ R.depth)
    (h : ∀ r ∈ rs, SimpleRecord r) (prev : String) :
    ∀ r ∈ writtenRecords runId prev rs, Writable R r := by
  induction rs generalizing prev with
  | nil => exact fun r hr => by cases hr
  | cons r rs ih =>
    intro x hx
    rcases List.mem_cons.1 hx with rfl | hx
    · exact rewritten_writable hfloat hdepth (h r List.mem_cons_self)
    · exact ih (fun y hy => h y (List.mem_cons_of_mem _ hy)) _ x hx

theorem writingCalls_readable (hfloat : Json.Proper R (.float "1.5" true)) (hdepth : 2 ≤ R.depth)
    (h : ∀ r ∈ rs, SimpleRecord r) (prev : String) :
    ∀ c ∈ writingCalls runId prev rs, c.Readable R := by
  induction rs generalizing prev with
  | nil => exact fun r hr => by cases hr
  | cons r rs ih =>
    intro c hc
    rcases List.mem_cons.1 hc with rfl | hc
    · intro _ runId' prev'
      exact rewritten_writable hfloat hdepth (h r List.mem_cons_self)
    · exact ih (fun y hy => h y (List.mem_cons_of_mem _ hy)) _ c hc

/-- `_load_and_verify` reads the records back. -/
theorem load_written (hfloat : Json.Proper R (.float "1.5" true)) (hdepth : 2 ≤ R.depth)
    (h : ∀ r ∈ rs, SimpleRecord r) :
    loadAndVerify R (.content (render (writtenRecords runId AuditLog.genesis rs))) =
      .ok (.ok ((writtenRecords runId AuditLog.genesis rs).map readBack)) := by
  have hw := @writtenRecords_writable R runId rs hfloat hdepth h AuditLog.genesis
  have hholds := AuditFile.holds_render hw
  have hstrip : ∀ l ∈ Lines.fileLines (render (writtenRecords runId AuditLog.genesis rs)),
      Lines.strip l ≠ [] := by
    rw [hholds]
    intro l hl
    obtain ⟨r, hr, rfl⟩ := List.mem_map.1 hl
    rw [strip_lineBytes (hw r hr)]
    exact lineBytes_ne_nil (hw r hr)
  have hlink : Linked R AuditLog.genesis
      (Lines.records (Lines.fileLines (render (writtenRecords runId AuditLog.genesis rs)))) := by
    rw [hholds, records_lineBytes hw]
    exact (linked_map hw).2 (writtenRecords_chained _)
  obtain ⟨records, hload⟩ := loadLoop_linked 1 hstrip hlink
  rw [← loaded_eq hw hholds (loadLoop_ok hload).2.2]
  exact hload

/-- A record hash is a digest. -/
theorem hex64_recordHash (r : Record) : hex64 (recordHash r) = true := by
  unfold hex64 recordHash
  rw [Sha256.hexdigest_length, Bool.and_eq_true, List.all_eq_true]
  refine ⟨rfl, fun c hc => ?_⟩
  have hhex := Sha256.hexdigest_isHex hc
  unfold Sha256.IsHex at hhex
  unfold isHexChar
  simpa [Bool.or_eq_true, Bool.and_eq_true] using hhex

theorem restamped_written (hsimple : ∀ r ∈ rs, SimpleRecord r)
    (hid : ∀ r ∈ rs, r.get? "run_id" = some (.str runId))
    (hform : ∀ r ∈ rs, hex64 (r.textOr "prev") = true ∧ finiteTs (r.get? "ts") = .ok true)
    {prev : String} (hprev : hex64 prev = true) :
    List.Forall₂ Restamped rs ((writtenRecords runId prev rs).map readBack) := by
  induction rs generalizing prev with
  | nil => exact List.Forall₂.nil
  | cons r rs ih =>
    have hr : r ∈ r :: rs := List.mem_cons_self
    refine List.Forall₂.cons (restamped_rewritten (hsimple r hr) (hid r hr) (hform r hr).1
      (hform r hr).2 hprev) ?_
    exact ih (fun x hx => hsimple x (List.mem_cons_of_mem _ hx))
      (fun x hx => hid x (List.mem_cons_of_mem _ hx))
      (fun x hx => hform x (List.mem_cons_of_mem _ hx)) (hex64_recordHash _)

/-! ## The size of the log -/

/-- A bound on the characters of a field and what stands around it. -/
def fieldSize (e : String × Json) : Nat :=
  (Json.quote e.1).toList.length + (Json.dumps e.2).toList.length + 2

/-- A bound on the characters of a record. -/
def recordSize (r : Record) : Nat := (r.map fieldSize).sum + 2

theorem length_intercalate_le (xs : List (List Char)) :
    ([','].intercalate xs).length ≤ (xs.map fun x => x.length + 1).sum := by
  induction xs with
  | nil => exact Nat.zero_le _
  | cons x xs ih =>
    cases xs with
    | nil =>
      rw [List.intercalate_singleton, List.map_cons, List.sum_cons]
      omega
    | cons y ys =>
      rw [List.intercalate_cons_cons, List.map_cons, List.sum_cons, List.length_append, List.length_append,
        List.length_singleton]
      omega

theorem length_lineBytes_le {r : Record} (h : Writable R r) : (lineBytes r).length ≤ recordSize r := by
  have hprint := Json.dumps_printable h.1 (Nat.le_refl _)
  have hlen : (lineBytes r).length = (Json.dumps (.obj r)).toList.length := by
    unfold lineBytes
    rw [Json.toUTF8_ascii hprint, List.length_map]
  have hperm : ((Json.sortEntries r).map fieldSize).sum = (r.map fieldSize).sum :=
    ((Json.sortEntries_perm r).map fieldSize).sum_nat
  have hjoin := length_intercalate_le ((Json.sortEntries r).map fun e =>
    (Json.quote e.1).toList ++ ':' :: (Json.dumps e.2).toList)
  have hsizes : (((Json.sortEntries r).map fun e =>
      (Json.quote e.1).toList ++ ':' :: (Json.dumps e.2).toList).map fun x => x.length + 1) =
      (Json.sortEntries r).map fieldSize := by
    rw [List.map_map]
    refine List.map_congr_left fun e _ => ?_
    simp only [Function.comp_apply, List.length_append, List.length_cons, fieldSize]
    omega
  rw [hsizes, hperm] at hjoin
  rw [hlen, Json.dumps_obj, List.length_cons, List.length_append, List.length_singleton]
  unfold recordSize
  omega

/-- The hexadecimal digits of a digest are written as they are. -/
theorem length_quote_hex {s : String} (h : hex64 s = true) : (Json.quote s).toList.length = 66 := by
  unfold hex64 at h
  rw [Bool.and_eq_true, beq_iff_eq, List.all_eq_true] at h
  have hchar : ∀ n : Fin 128, isHexChar (Char.ofNat n) = true →
      (Json.escapeChar (Char.ofNat n)).length = 1 := by decide
  have hone : ∀ c ∈ s.toList, (Json.escapeChar c).length = 1 := by
    intro c hc
    have hhex := h.2 c hc
    have hlt : c.toNat < 128 := by
      unfold isHexChar at hhex
      simp only [Bool.or_eq_true, Bool.and_eq_true, decide_eq_true_eq] at hhex
      omega
    have := hchar ⟨c.toNat, hlt⟩
    simp only [Char.ofNat_toNat] at this
    exact this hhex
  have hflat : (s.toList.flatMap Json.escapeChar).length = s.toList.length := by
    rw [List.length_flatMap, List.map_congr_left hone]
    simp
  rw [← List.append_nil (Json.quote s).toList, Json.quote_toList, List.length_cons, List.length_append,
    hflat, h.1]
  rfl

/-- The stamps of a record take a bounded number of characters. -/
theorem recordSize_rewritten {r : Record} {prev : String} (h : SimpleRecord r) (hprev : hex64 prev = true) :
    recordSize (rewritten runId prev r) =
      recordSize (entry r) + (Json.quote runId).toList.length + 93 := by
  have hentry : ∀ k ∈ stamps, k ∉ (entry r).map Prod.fst := by
    intro k hk hm
    obtain ⟨e, he, rfl⟩ := List.mem_map.1 hm
    exact of_decide_eq_true (List.mem_filter.1 he).2 hk
  have hset : rewritten runId prev r =
      entry r ++ [("ts", .float "1.5" true), ("run_id", .str runId), ("prev", .str prev)] := by
    have h1 : "ts" ∉ (entry r).map Prod.fst := hentry _ (by decide)
    have h2 : "run_id" ∉ (entry r).map Prod.fst := hentry _ (by decide)
    have h3 : "prev" ∉ (entry r).map Prod.fst := hentry _ (by decide)
    have h2' : "run_id" ∉ (entry r ++ [("ts", Json.float "1.5" true)]).map Prod.fst := by
      simpa using h2
    have h3' : "prev" ∉ (entry r ++ [("ts", Json.float "1.5" true)] ++
        [("run_id", Json.str runId)]).map Prod.fst := by
      simpa using h3
    rw [rewritten_eq h.values, Dict.set_of_notMem _ h1, Dict.set_of_notMem _ h2',
      Dict.set_of_notMem _ h3', List.append_assoc, List.append_assoc]
    rfl
  have hts : fieldSize ("ts", .float "1.5" true) = 9 := by decide +kernel
  have hrun : fieldSize ("run_id", .str runId) = (Json.quote runId).toList.length + 10 := by
    show (Json.quote "run_id").toList.length + (Json.quote runId).toList.length + 2 = _
    have : (Json.quote "run_id").toList.length = 8 := by decide +kernel
    omega
  have hlink : fieldSize ("prev", .str prev) = 74 := by
    show (Json.quote "prev").toList.length + (Json.quote prev).toList.length + 2 = _
    have : (Json.quote "prev").toList.length = 6 := by decide +kernel
    rw [length_quote_hex hprev]
    omega
  unfold recordSize
  rw [hset, List.map_append, List.sum_append]
  simp only [List.map_cons, List.map_nil, List.sum_cons, List.sum_nil, hts, hrun, hlink]
  omega

theorem length_written_le (hfloat : Json.Proper R (.float "1.5" true)) (hdepth : 2 ≤ R.depth)
    (h : ∀ r ∈ rs, SimpleRecord r) {prev : String} (hprev : hex64 prev = true) :
    (render (writtenRecords runId prev rs)).length ≤
      (rs.map fun r => recordSize (entry r) + (Json.quote runId).toList.length + 94).sum := by
  induction rs generalizing prev with
  | nil => exact Nat.zero_le _
  | cons r rs ih =>
    have hr := h r List.mem_cons_self
    have hline := length_lineBytes_le (@rewritten_writable R runId prev r hfloat hdepth hr)
    rw [recordSize_rewritten hr hprev] at hline
    have hrest := ih (fun x hx => h x (List.mem_cons_of_mem _ hx))
      (hex64_recordHash (rewritten runId prev r))
    have hcons : render (writtenRecords runId prev (r :: rs)) = lineBytes (rewritten runId prev r) ++
        10 :: render (writtenRecords runId (recordHash (rewritten runId prev r)) rs) := by
      simp [writtenRecords, render]
    rw [hcons, List.length_append, List.length_cons, List.map_cons, List.sum_cons]
    omega

/-- The written history is accepted. -/
theorem written_accepts (hsimple : ∀ r ∈ rs, SimpleRecord r) (hacc : accepts rs runId = true) :
    accepts ((writtenRecords runId AuditLog.genesis rs).map readBack) runId = true := by
  obtain ⟨-, hruns, s, hs⟩ := accepts_iff.1 hacc
  refine accepts_restamp (restamped_written hsimple hruns (fun r hr => ?_) (by decide)) hacc
  obtain ⟨k, hwf⟩ := hs.schema r hr
  exact ⟨hwf.prev, hwf.ts⟩

/-- **What the verifier accepts, the writer can write.**  An accepted history of simple records,
handed to a new log over a storage that does not fail, becomes a log with an accepted history. -/
theorem written_accepted (hfloat : Json.Proper R (.float "1.5" true)) (hdepth : 2 ≤ R.depth)
    (hsimple : ∀ r ∈ rs, SimpleRecord r) (hacc : accepts rs runId = true) :
    ∃ es t, (Sink.fresh runId).run (writingCalls runId AuditLog.genesis rs) = some (es, t) ∧
      t.bytes = render (writtenRecords runId AuditLog.genesis rs) ∧
      loadAndVerify R (.content t.bytes) =
        .ok (.ok ((writtenRecords runId AuditLog.genesis rs).map readBack)) ∧
      accepts ((writtenRecords runId AuditLog.genesis rs).map readBack) runId = true :=
  ⟨_, _, run_writing AuditLog.genesis [], rfl, load_written hfloat hdepth hsimple,
    written_accepts hsimple hacc⟩

end

/-! ## The sample run as a log -/

namespace Sample

theorem history_simple : ∀ r ∈ history, SimpleRecord r := by decide +kernel

/-- A reader of floats that takes the token. -/
def interp : Interp where
  toReader := Sink.Demo.reader
  printable := fun _ => true
  floatInt := fun _ => none
  errorName := fun _ => "JSONDecodeError"
  showSorted := fun _ => ""

theorem interp_float : Json.Proper interp.toReader (.float "1.5" true) := by
  rw [Json.Proper]
  exact ⟨by decide, by decide⟩

def args : Args :=
  ⟨"run-1", "anchor.json", "anchor.key", "0123456789abcdef0123456789abcdef01234567", "key-1", false⟩

def key : List UInt8 := List.replicate 32 7

/-- The log of the run. -/
def log : List UInt8 := render (writtenRecords "run-1" AuditLog.genesis history)

theorem log_size : log.length < 2 ^ 63 := by
  refine Nat.lt_of_le_of_lt (length_written_le interp_float (by decide) history_simple (by decide)) ?_
  decide +kernel

end Sample

/-- The log of the run is issued an anchor; under another run id it does not verify. -/
theorem anchor_round_trip_sample : ∃ es t,
    (Sink.fresh "run-1").run (writingCalls "run-1" AuditLog.genesis Sample.history) = some (es, t) ∧
      ∃ anchor, E10Anchor.buildAnchor Sample.interp.toReader t.bytes "run-1"
          "0123456789abcdef0123456789abcdef01234567" Sample.key "key-1" none "now" = .ok anchor ∧
        Proves Sample.interp Sample.args (filesOf t.bytes anchor Sample.key) ∧
        ¬ Proves Sample.interp { Sample.args with runId := "run-2" }
          (filesOf t.bytes anchor Sample.key) := by
  obtain ⟨es, t, hrun, hbytes, hload, hacc⟩ := written_accepted Sample.interp_float (by decide)
    Sample.history_simple Sample.history_accepted
  have hsize : t.bytes.length < 2 ^ 63 := by
    rw [hbytes]
    exact Sample.log_size
  have hcs := @writingCalls_readable Sample.interp.toReader "run-1" _ Sample.interp_float (by decide)
    Sample.history_simple AuditLog.genesis
  obtain ⟨anchor, hbuild, hproves, hrunId, -⟩ := @anchor_round_trip Sample.interp "run-1" _ es t hcs
    hrun hsize _ hload Sample.args hacc (by decide) (by decide) (by decide) (by decide) rfl Sample.key
    (by decide) none "now"
  exact ⟨es, t, hrun, anchor, hbuild, hproves, hrunId "run-2" (by decide)⟩

/-! ## The same records with other white space -/

theorem loadLoop_congr {R : Json.Reader} {lines lines' : List (List UInt8)}
    (h : lines'.map Lines.strip = lines.map Lines.strip) (lineNo : Nat) (prev : String) :
    loadLoop R lineNo prev lines' = loadLoop R lineNo prev lines := by
  induction lines generalizing lines' lineNo prev with
  | nil => rw [List.map_eq_nil_iff.1 h]
  | cons raw lines ih =>
    cases lines' with
    | nil => cases h
    | cons raw' lines' =>
      rw [List.map_cons, List.map_cons, List.cons.injEq] at h
      unfold loadLoop
      simp only [h.1, ih h.2]

section

variable {R : Json.Reader} {runId : String} {file file' : List UInt8} {records : List Record}
  {counts : Counts} {close : Record} {seq : Int} {disposition : Option Kind}
  (h : HonestLog R runId file records counts close seq disposition)
  (hstrip : (Lines.fileLines file').map Lines.strip = (Lines.fileLines file).map Lines.strip)
  (h13 : (13 : UInt8) ∉ file') (hlen : file'.length = file.length)

include h hstrip h13 hlen

/-- White space around the lines does not matter, as long as it is as much. -/
theorem HonestLog.congr : HonestLog R runId file' records counts close seq disposition :=
  { h with
    load := (loadLoop_congr hstrip 1 AuditLog.genesis).trans h.load
    noReturn := h13
    size := by
      rw [hlen]
      exact h.size }

theorem HonestLog.facts_congr : E10Anchor.auditFacts R file' = E10Anchor.auditFacts R file := by
  have h' := h.congr hstrip h13 hlen
  rw [E10Anchor.auditFacts_loaded h'.load h13, E10Anchor.auditFacts_loaded h.load h.noReturn, hlen]
  unfold Lines.records
  rw [hstrip]

end

namespace Sample

/-- A blank in front, and no line feed at the end. -/
def shifted : List UInt8 := 32 :: log.dropLast

/-- The records of the log. -/
def written : List Record := writtenRecords "run-1" AuditLog.genesis history

theorem written_writable : ∀ r ∈ written, Writable interp.toReader r :=
  writtenRecords_writable interp_float (by decide) history_simple AuditLog.genesis

/-- The lines of both files, but for white space. -/
theorem shifted_lines :
    (Lines.fileLines shifted).map Lines.strip = (Lines.fileLines log).map Lines.strip ∧
      (13 : UInt8) ∉ shifted ∧ shifted.length = log.length := by
  have hne : written ≠ [] := List.cons_ne_nil _ _
  obtain ⟨init, last, hsplit⟩ : ∃ init last, written = init ++ [last] :=
    ⟨_, _, (List.dropLast_append_getLast hne).symm⟩
  have hw := written_writable
  rw [hsplit] at hw
  have hinit : ∀ r ∈ init, Writable interp.toReader r := fun r hr => hw r (List.mem_append_left _ hr)
  have hlast : Writable interp.toReader last := hw last (List.mem_append_right _ (List.mem_singleton.2 rfl))
  have hlog : log = render init ++ lineBytes last ++ [10] := by
    show render written = _
    rw [hsplit]
    simp [render]
  have hdrop : log.dropLast = render init ++ lineBytes last := by
    rw [hlog, List.dropLast_concat]
  have hlines : Lines.fileLines log = (init ++ [last]).map lineBytes := by
    have := AuditFile.holds_render hw
    rw [← hsplit] at this ⊢
    exact this
  have hcut : Lines.fileLines log.dropLast = (init ++ [last]).map lineBytes := by
    rw [hdrop]
    exact AuditFile.holds_unterminated hinit hlast
  refine ⟨?_, ?_, ?_⟩
  · cases hl : (init ++ [last]).map lineBytes with
    | nil => simp at hl
    | cons l ls =>
      rw [hl] at hcut hlines
      rw [hlines, shifted, Lines.fileLines_cons (by decide) hcut, List.map_cons, List.map_cons,
        Lines.strip_cons_space (by decide)]
  · intro hm
    have h13 := return_notMem_render hw
    rw [← hsplit] at h13
    rcases List.mem_cons.1 hm with h | hm
    · cases h
    · exact h13 (List.dropLast_subset _ hm)
  · rw [shifted, List.length_cons, hdrop, hlog]
    simp only [List.length_append, List.length_singleton]

theorem shifted_ne : shifted ≠ log := by
  intro h
  have hw := written_writable
  have hhead : log.head? = some 0x7B := by
    obtain ⟨-, m, hm⟩ := lineBytes_spec (hw _ List.mem_cons_self)
    show (render (_ :: _)).head? = _
    unfold render
    rw [List.flatMap_cons, hm]
    rfl
  rw [← h] at hhead
  cases hhead

end Sample

/-- The log, and a file with the same records that begins with a blank, are proven under one anchor. -/
theorem anchor_binding_sample : ∃ anchor key, Sample.shifted ≠ Sample.log ∧
    Proves Sample.interp Sample.args ⟨.content Sample.log, anchor, key⟩ ∧
    Proves Sample.interp Sample.args ⟨.content Sample.shifted, anchor, key⟩ ∧
    Lines.records (Lines.fileLines Sample.log) = Lines.records (Lines.fileLines Sample.shifted) := by
  obtain ⟨es, t, hrun, hbytes, hload, hacc⟩ := written_accepted Sample.interp_float (by decide)
    Sample.history_simple Sample.history_accepted
  generalize List.map readBack _ = records at hload hacc
  have hlog : t.bytes = Sample.log := hbytes
  have hsize : t.bytes.length < 2 ^ 63 := by
    rw [hlog]
    exact Sample.log_size
  have hcs := @writingCalls_readable Sample.interp.toReader "run-1" _ Sample.interp_float (by decide)
    Sample.history_simple AuditLog.genesis
  obtain ⟨counts, close, seq, disposition, h⟩ := honestLog hcs hrun hsize hload hacc
  rw [hlog] at h
  obtain ⟨hstrip, h13, hlen⟩ := Sample.shifted_lines
  have h' := h.congr hstrip h13 hlen
  have hfacts := E10Anchor.auditFacts_loaded h.load h.noReturn
  have hfacts' := (h.facts_congr hstrip h13 hlen).trans hfacts
  generalize hf : E10Anchor.Facts.mk records.length Sample.log.length _ records.getLast? = facts
    at hfacts hfacts'
  have hw : Writable Sample.interp.toReader (E10Anchor.signedAnchor facts close Sample.args.runId
      Sample.args.expectedSourceCommit Sample.key Sample.args.expectedAuthorityKeyId "now") := by
    refine E10Anchor.signedAnchor_writable h.closed.sequence h.closed.state h.sequence ?_ ?_ h.depth
    · rw [← hf]
      exact h.count
    · rw [← hf]
      exact h.size
  have hp : Proves Sample.interp Sample.args (filesOf Sample.log _ Sample.key) :=
    h.proves hfacts rfl hw (by decide) (by decide) (by decide) (by decide) rfl (by decide)
  have hp' : Proves Sample.interp Sample.args (filesOf Sample.shifted _ Sample.key) :=
    h'.proves hfacts' rfl hw (by decide) (by decide) (by decide) (by decide) rfl (by decide)
  refine ⟨_, _, Sample.shifted_ne, hp, hp', anchor_binding (fun e he hhash => ?_) hp hp'⟩
  have hsame : Lines.records (Lines.fileLines Sample.shifted) =
      Lines.records (Lines.fileLines Sample.log) := by
    unfold Lines.records
    rw [hstrip]
  rw [hsame, ← List.map_id (Lines.records _), List.zip_map'] at he
  obtain ⟨x, -, rfl⟩ := List.mem_map.1 he
  rfl

end VerifyE10

end StrixPEP
