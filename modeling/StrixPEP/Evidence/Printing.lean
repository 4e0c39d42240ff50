import StrixPEP.Evidence.LayerB
import StrixPEP.Json.Bytes

/-!
# What the Layer B verifier prints

`main` of `pep/verify_layerb_audit.py` prints two lines for each result before it rewrites the artifact.
They hold texts of the log and of the client's report, and `print` raises on a character that `stdout`
cannot encode.

* `Stdout` — the codec of `stdout`;
* `reported`, `printed` — what `main` goes through, and the lines;
* `b8Shown`, `b9Shown` — the texts of the log and of the report in these lines.

Principal results: `writes_b8` and `writes_b9`, the lines are written exactly where these texts can be
encoded.
-/

namespace StrixPEP

namespace Evidence

namespace LayerB

/-! ## The codec -/

/-- The codec of `stdout`, by the characters that it encodes; those of ASCII are among them.  A lone
surrogate of a Python text reads as U+FFFD here. -/
structure Stdout where
  encodes : Char → Bool
  ascii : ∀ c : Char, c.toNat < 128 → encodes c = true

namespace Stdout

/-- `print(text, flush=True)` returns. -/
def writes (out : Stdout) (text : String) : Bool := text.toList.all out.encodes

variable {out : Stdout} {s t : String}

@[simp] theorem writes_append : out.writes (s ++ t) = (out.writes s && out.writes t) := by
  unfold writes
  rw [String.toList_append, List.all_append]

theorem writes_ascii (h : s.toList.all (fun c => decide (c.toNat < 128)) = true) : out.writes s = true := by
  unfold writes
  rw [List.all_eq_true] at h ⊢
  exact fun c hc => out.ascii c (of_decide_eq_true (h c hc))

theorem writes_nat (n : Nat) : out.writes (toString n) = true := by
  refine writes_ascii ?_
  rw [List.all_eq_true]
  intro c hc
  obtain ⟨d, hd, rfl⟩ := IpAddress.mem_toDigits (n := n) (by decide : 1 < 10) (by simpa using hc)
  interval_cases d <;> decide

end Stdout

/-! ## The lines -/

/-- `f"{text:width}"`. -/
def padded (width : Nat) (text : String) : String :=
  text ++ String.ofList (List.replicate (width - text.length) ' ')

/-- The tuples that `main` goes through. -/
def reported (b8 b9 : RowResult) : List (String × String × RowResult) :=
  [("B8", "audit proves enforcement for the IPv6 flow (run_id-scoped)", b8),
    ("B9", "kill switch terminated THE connection that armed it (conn_id)", b9)]

/-- The lines that are printed for a row. -/
def printed (id desc : String) (res : RowResult) : List String :=
  let verdict := if res.status = "PROVEN" then "PASS" else "FAIL"
  [s!"  {verdict}  {padded 6 id} {padded 56 desc} expect=PROVEN      got={res.status}",
    s!"           {res.detail}"]

/-! ## The texts in them -/

/-- What the lines of B8 show of the log. -/
def b8Shown (es : List Record) : List String :=
  match (allows es).getLast? with
  | none => []
  | some r =>
    let family := if got r "pin_family" = .str "ipv6" then [] else ["pin_family"]
    (["row_id", "conn_id", "pin_ip", "canonical_host", "sni"] ++ family).map fun f => (got r f).display

/-- What the lines of B9 show of the log and of the client's report. -/
def b9Shown (es : List Record) (killed : List String) (partialBytes : Json) : List String :=
  let hit := ((owners es).map connOf).filter (· ∈ killed)
  if owners es = [] ∨ kills es = [] ∨ killed = [] then []
  else
    b9Nonce es :: partialBytes.display :: ((hit.insertionSort (· ≤ ·)).take 1 ++
      if b9Nonce es ≠ "" ∧ hit ≠ [] ∧ AuditGate.b8Recs es ≠ [] then
        [AuditGate.lastNonce (AuditGate.b8Recs es)]
      else [])

variable {out : Stdout} {floats : Floats} {es : List Record} {runId : String}

/-- The lines of a row are written exactly where its status and its detail can be encoded. -/
theorem writes_printed {id desc : String} (hid : out.writes id = true) (hdesc : out.writes desc = true)
    (res : RowResult) : (printed id desc res).all out.writes = true ↔
      out.writes res.status = true ∧ out.writes res.detail = true := by
  have hpad : ∀ width text, out.writes (padded width text) = out.writes text := by
    intro width text
    have hspaces : out.writes (String.ofList (List.replicate (width - text.length) ' ')) = true := by
      refine Stdout.writes_ascii ?_
      rw [List.all_eq_true]
      intro c hc
      rw [String.toList_ofList] at hc
      rw [List.eq_of_mem_replicate hc]
      decide
    unfold padded
    rw [Stdout.writes_append, hspaces, Bool.and_true]
  have hverdict : out.writes (if res.status = "PROVEN" then "PASS" else "FAIL") = true := by
    split <;> exact Stdout.writes_ascii (by decide)
  have hlits : out.writes "  " = true ∧ out.writes " " = true ∧ out.writes " expect=PROVEN      got=" = true ∧
      out.writes "           " = true := by
    refine ⟨?_, ?_, ?_, ?_⟩ <;> exact Stdout.writes_ascii (by decide)
  obtain ⟨h1, h2, h3, h4⟩ := hlits
  unfold printed
  simp [toString, hpad, hid, hdesc, hverdict, h1, h2, h3, h4]

theorem writes_intercalate {xs : List String} (h : ∀ x ∈ xs, out.writes x = true) :
    out.writes (",".intercalate xs) = true := by
  induction xs with
  | nil => exact Stdout.writes_ascii (by decide)
  | cons x xs ih =>
    have hx := h x List.mem_cons_self
    cases xs with
    | nil =>
      rw [String.intercalate_singleton]
      exact hx
    | cons y ys =>
      have hcomma : out.writes "," = true := Stdout.writes_ascii (by decide)
      rw [String.intercalate_cons_cons, Stdout.writes_append, Stdout.writes_append, hx, hcomma,
        ih fun z hz => h z (List.mem_cons_of_mem _ hz)]
      rfl

/-- The names of missing fields are ASCII. -/
theorem writes_missing (r : Record) : out.writes (",".intercalate (missing r)) = true := by
  have hfields : ∀ x ∈ requiredAllowFields, (x.toList.all fun c => decide (c.toNat < 128)) = true := by
    decide
  exact writes_intercalate fun x hx => Stdout.writes_ascii (hfields x (List.mem_filter.1 hx).1)

/-- The status of B8 holds the family, if it is another one, and perhaps the address. -/
theorem writes_b8Status {r : Record} (hpin : out.writes (got r "pin_ip").display = true) :
    out.writes (b8Status r) = true ↔
      (got r "pin_family" = .str "ipv6" ∨ out.writes (got r "pin_family").display = true) := by
  have hlits : out.writes "PIN_FAMILY_NOT_V6:" = true ∧ out.writes "MISSING:" = true ∧
      out.writes "PIN_NOT_V6:" = true ∧ out.writes "NO_TEST_CORRELATION" = true ∧
      out.writes "PROVEN" = true := by
    refine ⟨?_, ?_, ?_, ?_, ?_⟩ <;> exact Stdout.writes_ascii (by decide)
  obtain ⟨h1, h2, h3, h4, h5⟩ := hlits
  unfold b8Status
  by_cases hfamily : got r "pin_family" = .str "ipv6"
  · simp only [hfamily, ne_eq, not_true, if_false, true_or, iff_true]
    split
    · rw [Stdout.writes_append, h2, writes_missing, Bool.and_self]
    split
    · simp [toString, h3, hpin]
    split
    · exact h4
    · exact h5
  · simp [hfamily, toString, h1]

/-- **The lines of B8.** -/
theorem writes_b8 {id desc : String} (hid : out.writes id = true) (hdesc : out.writes desc = true) :
    (printed id desc (b8 es runId).1).all out.writes = true ↔
      out.writes runId = true ∧ ∀ t ∈ b8Shown es, out.writes t = true := by
  rw [writes_printed hid hdesc]
  unfold b8 b8Shown
  cases (allows es).getLast? with
  | none =>
    have hlits : out.writes "NO_MATCHING_RECORD" = true ∧
        out.writes "no ALLOW with row_id in ('B3', 'B5') for run " = true := by
      refine ⟨?_, ?_⟩ <;> exact Stdout.writes_ascii (by decide)
    simp [plain, toString, hlits]
  | some r =>
    have hlits : out.writes "run_id=" = true ∧ out.writes " row_id=" = true ∧
        out.writes " conn_id=" = true ∧ out.writes " pin=" = true ∧ out.writes " host=" = true ∧
        out.writes " sni=" = true := by
      refine ⟨?_, ?_, ?_, ?_, ?_, ?_⟩ <;> exact Stdout.writes_ascii (by decide)
    obtain ⟨h1, h2, h3, h4, h5, h6⟩ := hlits
    have hstatus := @writes_b8Status out r
    have hfields : (∀ t ∈ (["row_id", "conn_id", "pin_ip", "canonical_host", "sni"] ++
        if got r "pin_family" = .str "ipv6" then [] else ["pin_family"]).map fun f => (got r f).display,
          out.writes t = true) ↔
        (out.writes (got r "row_id").display = true ∧ out.writes (got r "conn_id").display = true ∧
          out.writes (got r "pin_ip").display = true ∧ out.writes (got r "canonical_host").display = true ∧
          out.writes (got r "sni").display = true) ∧
          (got r "pin_family" = .str "ipv6" ∨ out.writes (got r "pin_family").display = true) := by
      by_cases hfamily : got r "pin_family" = .str "ipv6"
      · simp [hfamily]
      · simp [hfamily, and_assoc]
    dsimp only
    rw [hfields]
    simp only [toString, Stdout.writes_append, h1, h2, h3, h4, h5, h6, Bool.and_eq_true, true_and, and_true]
    constructor
    · rintro ⟨hs, ⟨⟨⟨⟨hrun, hrow⟩, hconn⟩, hpin⟩, hhost⟩, hsni⟩
      exact ⟨hrun, ⟨hrow, hconn, hpin, hhost, hsni⟩, (hstatus hpin).1 hs⟩
    · rintro ⟨hrun, ⟨hrow, hconn, hpin, hhost, hsni⟩, hfamily⟩
      exact ⟨(hstatus hpin).2 hfamily, ⟨⟨⟨⟨hrun, hrow⟩, hconn⟩, hpin⟩, hhost⟩, hsni⟩

/-- The status of B9 holds the nonces where they differ. -/
theorem writes_b9Status {nonce : String} {b8Nonce : Option String} {hit : List String} {p : Json}
    {status : String} (h : b9Status floats nonce b8Nonce hit p = .ok status)
    (hnonce : out.writes nonce = true) :
    out.writes status = true ↔ (nonce ≠ "" ∧ hit ≠ [] → ∀ n ∈ b8Nonce, out.writes n = true) := by
  have hlits : out.writes "NO_TEST_CORRELATION" = true ∧
      out.writes "TERMINATED_A_DIFFERENT_CONNECTION" = true ∧ out.writes "NONCE_MISMATCH:" = true ∧
      out.writes "!=" = true ∧ out.writes "NO_LIVE_STREAM_BEFORE_KILL" = true ∧
      out.writes "PROVEN" = true := by
    refine ⟨?_, ?_, ?_, ?_, ?_, ?_⟩ <;> exact Stdout.writes_ascii (by decide)
  obtain ⟨h1, h2, h3, h4, h5, h6⟩ := hlits
  have hstream : ∀ {s : String}, (noStream floats p).map (fun dry =>
      if dry then "NO_LIVE_STREAM_BEFORE_KILL" else "PROVEN") = .ok s → out.writes s = true := by
    intro s hs
    cases hdry : noStream floats p with
    | error x =>
      rw [hdry] at hs
      cases hs
    | ok dry =>
      rw [hdry] at hs
      cases hs
      cases dry
      · exact h6
      · exact h5
  unfold b9Status at h
  split at h
  · rename_i hempty
    cases h
    exact iff_of_true h1 fun hx => absurd hempty hx.1
  rename_i hne
  split at h
  · rename_i hhit
    cases h
    exact iff_of_true h2 fun hx => absurd hhit hx.2
  rename_i hhit
  have hreach : nonce ≠ "" ∧ hit ≠ [] := ⟨hne, hhit⟩
  split at h
  · rename_i n
    split at h
    · cases h
      simp [toString, h3, h4, hnonce, hreach]
    · rename_i hsame
      rw [Decidable.not_not] at hsame
      refine iff_of_true (hstream h) fun _ m hm => ?_
      rw [← Option.mem_some_iff.1 hm, hsame]
      exact hnonce
  · refine iff_of_true (hstream h) fun _ n hn => ?_
    cases hn

/-- **The lines of B9.** -/
theorem writes_b9 {id desc : String} (hid : out.writes id = true) (hdesc : out.writes desc = true)
    (hrun : out.writes runId = true) {killed : List String} {p : Json} {row : RowResult}
    (h : b9 floats es runId (b8 es runId).2 killed p = .ok row) :
    (printed id desc row).all out.writes = true ↔ ∀ t ∈ b9Shown es killed p, out.writes t = true := by
  rw [writes_printed hid hdesc]
  unfold b9 at h
  unfold b9Shown
  split at h
  · rename_i howners
    cases h
    have hlits : out.writes "NO_MATCHING_CONNECTION" = true ∧ out.writes "no record with row_id=" = true ∧
        out.writes b9Row = true ∧ out.writes " in run " = true := by
      refine ⟨?_, ?_, ?_, ?_⟩ <;> exact Stdout.writes_ascii (by decide)
    simp [plain, toString, howners, hrun, hlits]
  rename_i howners
  split at h
  · rename_i hkills
    cases h
    have hlits : out.writes "NO_KILL_RECORD" = true ∧ out.writes "no KILL_SWITCH in this run" = true := by
      refine ⟨?_, ?_⟩ <;> exact Stdout.writes_ascii (by decide)
    simp [plain, hkills, hlits]
  rename_i hkills
  split at h
  · rename_i hkilled
    cases h
    have hlits : out.writes "KILL_RECORD_LISTS_NO_CONNECTIONS" = true ∧ out.writes "kill_records=" = true := by
      refine ⟨?_, ?_⟩ <;> exact Stdout.writes_ascii (by decide)
    have hcount : out.writes (toString (kills es).length) = true := Stdout.writes_nat _
    rw [if_pos (Or.inr (Or.inr hkilled))]
    refine iff_of_true ⟨hlits.1, ?_⟩ (List.forall_mem_nil _)
    show out.writes ("kill_records=" ++ toString (kills es).length) = true
    rw [Stdout.writes_append, hlits.2, hcount]
    rfl
  rename_i hkilled
  rw [if_neg (by simp [howners, hkills, hkilled])]
  dsimp only at h
  split at h
  · cases h
  rename_i status hstatus
  cases h
  have hlits : out.writes "run_id=" = true ∧ out.writes " conn_id=" = true ∧
      out.writes " killed_set=" = true ∧ out.writes " nonce=" = true ∧
      out.writes " client_partial_bytes=" = true ∧ out.writes "None" = true := by
    refine ⟨?_, ?_, ?_, ?_, ?_, ?_⟩ <;> exact Stdout.writes_ascii (by decide)
  obtain ⟨h1, h2, h3, h4, h5, h6⟩ := hlits
  have hcount : out.writes (toString killed.dedup.length) = true := Stdout.writes_nat _
  generalize ((owners es).map connOf).filter (· ∈ killed) = hit at hstatus ⊢
  -- the texts beside the nonces
  have hmismatch : (∀ t ∈ (if b9Nonce es ≠ "" ∧ hit ≠ [] ∧ AuditGate.b8Recs es ≠ [] then
      [AuditGate.lastNonce (AuditGate.b8Recs es)] else []), out.writes t = true) ↔
      (b9Nonce es ≠ "" ∧ hit ≠ [] → ∀ n ∈ (b8 es runId).2, out.writes n = true) := by
    constructor
    · intro ht hreach n hn
      obtain ⟨hb8, rfl⟩ := b8_nonce.1 hn
      exact ht _ (by rw [if_pos ⟨hreach.1, hreach.2, hb8⟩]; exact List.mem_singleton_self _)
    · intro hn t ht
      split at ht
      · rename_i hreach
        rw [List.mem_singleton.1 ht]
        exact hn ⟨hreach.1, hreach.2.1⟩ _ (b8_nonce.2 ⟨hreach.2.2, rfl⟩)
      · cases ht
  have hdetail : ∀ first : Json,
      out.writes s!"run_id={runId} conn_id={first.display} killed_set={killed.dedup.length} nonce={b9Nonce es} client_partial_bytes={p.display}" = true ↔
        out.writes first.display = true ∧ out.writes (b9Nonce es) = true ∧ out.writes p.display = true := by
    intro first
    simp [toString, hrun, h1, h2, h3, h4, h5] at hcount ⊢
    simp [hcount, and_assoc]
  rw [hdetail, List.forall_mem_cons, List.forall_mem_cons, List.forall_mem_append, hmismatch]
  have hshown : ∀ first : Json, (out.writes first.display = true ↔
      ∀ t ∈ (hit.insertionSort (· ≤ ·)).take 1, out.writes t = true) →
      ((out.writes status = true ∧ out.writes first.display = true ∧ out.writes (b9Nonce es) = true ∧
        out.writes p.display = true) ↔
      out.writes (b9Nonce es) = true ∧ out.writes p.display = true ∧
        (∀ t ∈ (hit.insertionSort (· ≤ ·)).take 1, out.writes t = true) ∧
        (b9Nonce es ≠ "" ∧ hit ≠ [] → ∀ n ∈ (b8 es runId).2, out.writes n = true)) := by
    intro first hfirst
    constructor
    · rintro ⟨hs, hf, hn, hp⟩
      exact ⟨hn, hp, hfirst.1 hf, (writes_b9Status hstatus hn).1 hs⟩
    · rintro ⟨hn, hp, hf, hm⟩
      exact ⟨(writes_b9Status hstatus hn).2 hm, hfirst.2 hf, hn, hp⟩
  refine hshown _ ?_
  cases hit.insertionSort (· ≤ ·) with
  | nil => exact iff_of_true h6 (List.forall_mem_nil _)
  | cons c cs => exact (List.forall_mem_singleton (p := fun t => out.writes t = true)).symm

end LayerB

end Evidence

end StrixPEP
