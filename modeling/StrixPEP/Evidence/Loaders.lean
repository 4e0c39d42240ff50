import StrixPEP.Json.Encoding
import StrixPEP.Lib.Lines
import StrixPEP.Pdp.Addressing
import StrixPEP.Verifier.Schema

/-!
# The two readers of an audit log

* `loadAudit` — `load_audit` of `pep/audit_gate_evidence.py`, on the bytes of the file;
* `loadStrict` — `load_strict` of `pep/verify_layerb_audit.py` and of `pep/verify_pp18.py`, which open
  the file as text.

Both skip blank lines.  A text file is read as UTF-8; a line of it ends with a line feed, a carriage
return or both, and where it is both the empty line between them is skipped like any blank line.

Principal result: `readers_agree` — a log without malformed lines for either reader has the same records
for both, or a record that is no object for both.
-/

namespace StrixPEP

namespace Evidence

/-- The loop of both readers: the records with their lines, and the number of malformed lines. -/
def loadLines {α : Type} (parse : α → Except Json.Fault Json) : List α → Except PyError (List (Json × α) × Nat)
  | [] => .ok ([], 0)
  | line :: lines =>
    match parse line, loadLines parse lines with
    | .error .recursionError, _ => .error .recursionError
    | _, .error e => .error e
    | .ok v, .ok (records, bad) => .ok ((v, line) :: records, bad)
    | .error .valueError, .ok (records, bad) => .ok (records, bad + 1)

/-- `load_audit`, on the content of the file. -/
def loadAudit (R : Json.Reader) (log : List UInt8) : Except PyError (List (Json × List UInt8) × Nat) :=
  loadLines (Json.loads R) (Lines.records (Lines.fileLines log))

/-- The content of a text file. -/
def readText (log : List UInt8) : Option (List Char) :=
  (Json.utf8 log).bind fun ns => if ∀ n ∈ ns, n.isValidChar then some (ns.map Json.codeChar) else none

def isLineEnd (c : Char) : Bool := c = '\n' || c = '\r'

/-- `load_strict`, on the content of the file. -/
def loadStrict (R : Json.Reader) (log : List UInt8) : Except PyError (List Json × Nat) :=
  match readText log with
  | none => .error (.valueError "UnicodeDecodeError")
  | some text =>
    match loadLines (Json.loadsText R) (Pieces.pieces isWhite isLineEnd text) with
    | .error e => .error e
    | .ok (records, bad) => .ok (records.map Prod.fst, bad)

/-- The records as dicts; a `get` of anything else raises. -/
def dicts : List Json → Except PyError (List Record)
  | [] => .ok []
  | .obj record :: vs =>
    match dicts vs with
    | .ok records => .ok (record :: records)
    | .error e => .error e
  | _ :: _ => .error .attributeError

/-- No line is malformed for either reader. -/
structure WellFormed (R : Json.Reader) (log : List UInt8) (records : List (Json × List UInt8))
    (records' : List Json) : Prop where
  bytes : loadAudit R log = .ok (records, 0)
  text : loadStrict R log = .ok (records', 0)

/-! ## The loop -/

section

variable {α : Type} {parse : α → Except Json.Fault Json}

/-- Without malformed lines every line is a record. -/
theorem loadLines_clean {lines : List α} {records : List (Json × α)} :
    loadLines parse lines = .ok (records, 0) ↔
      records.map Prod.snd = lines ∧ ∀ r ∈ records, parse r.2 = .ok r.1 := by
  induction lines generalizing records with
  | nil =>
    constructor
    · intro h
      cases h
      exact ⟨rfl, nofun⟩
    · rintro ⟨h, -⟩
      rw [List.map_eq_nil_iff.1 h]
      rfl
  | cons line lines ih =>
    constructor
    · intro h
      unfold loadLines at h
      split at h
      · cases h
      · cases h
      · rename_i v records' bad hv hrest
        cases h
        obtain ⟨h1, h2⟩ := ih.1 hrest
        refine ⟨by rw [List.map_cons, h1], fun r hr => ?_⟩
        rcases List.mem_cons.1 hr with rfl | hr
        · exact hv
        · exact h2 r hr
      · cases h
    · rintro ⟨h, hparse⟩
      cases records with
      | nil => cases h
      | cons r records =>
        rw [List.map_cons, List.cons.injEq] at h
        obtain ⟨rfl, hlines⟩ := h
        have hrest := ih.2 ⟨hlines, fun s hs => hparse s (List.mem_cons_of_mem _ hs)⟩
        unfold loadLines
        rw [hparse r List.mem_cons_self, hrest]

theorem loadLines_append {xs ys : List α} {records : List (Json × α)} :
    loadLines parse (xs ++ ys) = .ok (records, 0) ↔ ∃ rs ss, records = rs ++ ss ∧
      loadLines parse xs = .ok (rs, 0) ∧ loadLines parse ys = .ok (ss, 0) := by
  simp only [loadLines_clean]
  constructor
  · rintro ⟨h, hparse⟩
    obtain ⟨rs, ss, rfl, h1, h2⟩ := List.map_eq_append_iff.1 h
    exact ⟨rs, ss, rfl, ⟨h1, fun r hr => hparse r (List.mem_append_left _ hr)⟩,
      h2, fun r hr => hparse r (List.mem_append_right _ hr)⟩
  · rintro ⟨rs, ss, rfl, ⟨h1, p1⟩, h2, p2⟩
    refine ⟨by rw [List.map_append, h1, h2], fun r hr => ?_⟩
    rcases List.mem_append.1 hr with hr | hr
    · exact p1 r hr
    · exact p2 r hr

end

theorem dicts_append (xs ys : List Json) : dicts (xs ++ ys) =
    match dicts xs with
    | .error e => .error e
    | .ok rs => (dicts ys).map (rs ++ ·) := by
  induction xs with
  | nil =>
    rw [List.nil_append]
    cases h : dicts ys with
    | error e => simp [dicts, Except.map]
    | ok rs => simp [dicts, Except.map]
  | cons v xs ih =>
    cases v with
    | obj record =>
      rw [List.cons_append]
      simp only [dicts]
      rw [ih]
      cases dicts xs with
      | error e => rfl
      | ok rs => cases dicts ys <;> rfl
    | _ => rfl

theorem dicts_of_not_obj {vs : List Json} (h : ∃ v ∈ vs, v.isObj = false) :
    dicts vs = .error .attributeError := by
  induction vs with
  | nil =>
    obtain ⟨v, hv, -⟩ := h
    cases hv
  | cons v vs ih =>
    cases v with
    | obj record =>
      obtain ⟨w, hw, hn⟩ := h
      rcases List.mem_cons.1 hw with rfl | hw
      · cases hn
      · unfold dicts
        rw [ih ⟨w, hw, hn⟩]
    | _ => rfl

/-! ## What a JSON text begins with -/

/-- The characters that a value begins with. -/
def starts (c : Char) : Bool :=
  c = '"' || c = '[' || c = '\x7b' || c = '-' || c.isDigit || decide (c ∈ "ntfNI".toList)

theorem value_starts {R : Json.Reader} {d : Nat} {c : Char} {s r : List Char} {v : Json}
    (h : Json.value R d (c :: s) = .ok (v, r)) : starts c = true := by
  have hscalar : Json.scalar R (c :: s) = .ok (v, r) → starts c = true := by
    intro hx
    unfold Json.scalar at hx
    split at hx
    · rename_i x hw
      obtain ⟨e, he, hs, -⟩ := Json.word_cases hw
      simp only [Json.words, List.mem_cons, List.not_mem_nil, or_false] at he
      rcases he with rfl | rfl | rfl | rfl | rfl | rfl
      all_goals
        obtain ⟨rfl, -⟩ := List.cons.inj hs
        decide
    · split at hx
      · rename_i x hn
        unfold starts
        unfold Json.number at hn
        simp only at hn
        split at hn
        · rename_i hc
          simp [hc]
        · unfold Json.unsigned at hn
          split at hn
          · cases hn
          · rename_i ds t hi
            unfold Json.scanInt at hi
            simp only at hi
            split at hi
            · rename_i hc
              rw [hc]
              decide
            · split at hi
              · rename_i hd
                simp [hd]
              · cases hi
      · cases hx
  have hopen : ∀ {inner : Char → Json.Parser Json}, Json.valueWith R inner (c :: s) = .ok (v, r) →
      starts c = true := by
    intro inner hx
    unfold Json.valueWith at hx
    simp only at hx
    split at hx
    · rename_i hc
      simp [starts, hc]
    · split at hx
      · rename_i hc
        rcases hc with hc | hc <;> simp [starts, hc]
      · exact hscalar hx
  cases d with
  | zero => exact hopen h
  | succ d => exact hopen h

theorem loadsText_value {R : Json.Reader} {c : Char} {s : List Char} {v : Json}
    (h : Json.loadsText R (c :: s) = .ok v) (hc : Json.isWhite c = false) :
    ∃ r, Json.value R R.depth (c :: s) = .ok (v, r) := by
  have hskip : Json.skip (c :: s) = c :: s := List.dropWhile_cons_of_neg (by simp [hc])
  unfold Json.loadsText at h
  rw [hskip] at h
  split at h
  · cases h
  · rename_i w r hval
    split at h
    · cases h
      exact ⟨r, hval⟩
    · cases h

theorem loadsText_starts {R : Json.Reader} {c : Char} {s : List Char} {v : Json}
    (h : Json.loadsText R (c :: s) = .ok v) (hc : Json.isWhite c = false) : starts c = true := by
  obtain ⟨r, hval⟩ := loadsText_value h hc
  exact value_starts hval

theorem starts_plain {c : Char} (h : starts c = true) :
    isWhite c = false ∧ c.toNat ≠ 0 ∧ c.toNat ≠ 0xFEFF := by
  have hbound : 33 ≤ c.toNat ∧ c.toNat < 127 := by
    unfold starts at h
    simp only [Bool.or_eq_true, decide_eq_true_eq] at h
    rcases h with ((((rfl | rfl) | rfl) | rfl) | hd) | hm
    · decide
    · decide
    · decide
    · decide
    · unfold Char.isDigit at hd
      rw [Bool.and_eq_true, decide_eq_true_eq, decide_eq_true_eq] at hd
      have h1 : 48 ≤ c.toNat := hd.1
      have h2 : c.toNat ≤ 57 := hd.2
      omega
    · have hall : ∀ d ∈ "ntfNI".toList, 33 ≤ d.toNat ∧ d.toNat < 127 := by decide
      exact hall c hm
  refine ⟨?_, by omega, by omega⟩
  unfold isWhite
  simp only [Bool.or_eq_false_iff, decide_eq_false_iff_not, List.mem_cons, List.not_mem_nil, or_false]
  omega

/-! ## Texts and their bytes -/

theorem utf8_ascii {a : List UInt8} (h : ∀ c ∈ a, c < 0x80) : Json.utf8 a = some (a.map UInt8.toNat) := by
  induction a with
  | nil => rfl
  | cons c a ih =>
    rw [Json.utf8.eq_def]
    simp only
    rw [if_pos (h c List.mem_cons_self), ih fun d hd => h d (List.mem_cons_of_mem _ hd)]
    rfl

/-- A text is cut before an ASCII byte. -/
theorem utf8_split {b : List UInt8} {ns : List Nat} (h : Json.utf8 b = some ns) :
    ∀ x y, b = x ++ y → (∀ c, y.head? = some c → c < 0x80) →
      ∃ nx ny, Json.utf8 x = some nx ∧ Json.utf8 y = some ny ∧ ns = nx ++ ny := by
  have hstep : ∀ (n : Nat) (ms : List Nat) (pre rest : List UInt8),
      (∀ t, Json.utf8 (pre ++ t) = Json.push n (Json.utf8 t)) → pre ≠ [] →
      ((∃ b, pre = [b] ∧ b < 0x80 ∧ n = b.toNat) ∨ (∀ x ∈ pre, 0x80 ≤ x) ∧ 0x80 ≤ n) →
      (Json.utf8 rest = some ms ∧ ∀ x y, rest = x ++ y → (∀ c, y.head? = some c → c < 0x80) →
        ∃ nx ny, Json.utf8 x = some nx ∧ Json.utf8 y = some ny ∧ ms = nx ++ ny) →
      Json.utf8 (pre ++ rest) = some (n :: ms) ∧
        ∀ x y, pre ++ rest = x ++ y → (∀ c, y.head? = some c → c < 0x80) →
          ∃ nx ny, Json.utf8 x = some nx ∧ Json.utf8 y = some ny ∧ n :: ms = nx ++ ny := by
    intro n ms pre rest heq hpre hkind hih
    obtain ⟨hrest, ih⟩ := hih
    have hall : Json.utf8 (pre ++ rest) = some (n :: ms) := by
      rw [heq, hrest]
      rfl
    refine ⟨hall, fun x y hxy hy => ?_⟩
    rcases List.append_eq_append_iff.1 hxy with ⟨w, rfl, hr⟩ | ⟨w, hp, rfl⟩
    · obtain ⟨nx, ny, h1, h2, h3⟩ := ih w y hr hy
      refine ⟨n :: nx, ny, ?_, h2, by rw [h3, List.cons_append]⟩
      rw [heq, h1]
      rfl
    · cases w with
      | nil =>
        rw [List.append_nil] at hp
        refine ⟨[n], ms, ?_, by simpa using hrest, rfl⟩
        have := heq []
        rw [List.append_nil] at this
        rw [← hp, this]
        rfl
      | cons c w =>
        have hc : c < 0x80 := hy c rfl
        have hx : x = [] := by
          rcases hkind with ⟨b, hb, -, -⟩ | ⟨hhigh, -⟩
          · rw [hb] at hp
            cases x with
            | nil => rfl
            | cons d x =>
              have := congrArg List.length hp
              simp at this
          · have hmem : c ∈ pre := by
              rw [hp]
              simp
            exact absurd (hhigh c hmem) (UInt8.not_le.2 hc)
        subst hx
        rw [List.nil_append] at hp
        refine ⟨[], n :: ms, rfl, ?_, rfl⟩
        rw [← hp]
        exact hall
  refine (Json.utf8_induct (P := fun b ns => Json.utf8 b = some ns ∧ ∀ x y, b = x ++ y →
    (∀ c, y.head? = some c → c < 0x80) →
      ∃ nx ny, Json.utf8 x = some nx ∧ Json.utf8 y = some ny ∧ ns = nx ++ ny) ⟨rfl, ?_⟩ hstep h).2
  intro x y hxy _
  obtain ⟨rfl, rfl⟩ := List.append_eq_nil_iff.1 hxy.symm
  exact ⟨[], [], rfl, rfl, rfl⟩

theorem space_byte {c : UInt8} (h : Lines.isSpace c = true) :
    c < 0x80 ∧ isWhite (Json.codeChar c.toNat) = true := by
  have hall : ∀ n : Fin 256, Lines.isSpace (UInt8.ofNat n) = true →
      UInt8.ofNat n < 0x80 ∧ isWhite (Json.codeChar (UInt8.ofNat n).toNat) = true := by decide +kernel
  have := hall ⟨c.toNat, c.toNat_lt⟩
  simp only [UInt8.ofNat_toNat] at this
  exact this h

/-- The text of a line has the pieces of the stripped line's text. -/
theorem pieces_text {l : List UInt8} {ms : List Nat} (h : Json.utf8 l = some ms) :
    ∃ ns, Json.utf8 (Lines.strip l) = some ns ∧ (∀ n ∈ ns, n ∈ ms) ∧
      Pieces.pieces isWhite isLineEnd (ms.map Json.codeChar) =
        Pieces.pieces isWhite isLineEnd (ns.map Json.codeChar) := by
  obtain ⟨a, z, hl, ha, hz⟩ := Lines.strip_decompose l
  have hasc : ∀ {t : List UInt8}, (∀ c ∈ t, Lines.isSpace c = true) → Json.utf8 t = some (t.map UInt8.toNat) :=
    fun ht => utf8_ascii fun c hc => (space_byte (ht c hc)).1
  have hwhite : ∀ {t : List UInt8}, (∀ c ∈ t, Lines.isSpace c = true) →
      ∀ c ∈ (t.map UInt8.toNat).map Json.codeChar, isWhite c = true := by
    intro t ht c hc
    obtain ⟨n, hn, rfl⟩ := List.mem_map.1 hc
    obtain ⟨d, hd, rfl⟩ := List.mem_map.1 hn
    exact (space_byte (ht d hd)).2
  have hz' : ∀ c, z.head? = some c → c < 0x80 :=
    fun c hc => (space_byte (hz c (List.mem_of_head? hc))).1
  obtain ⟨nx, ny, hx, hy, rfl⟩ := utf8_split h (a ++ Lines.strip l) z hl hz'
  rw [Json.utf8_append (hasc ha)] at hx
  obtain ⟨ns, hns, rfl⟩ := Option.map_eq_some_iff.1 hx
  rw [hasc hz] at hy
  cases hy
  refine ⟨ns, hns, fun n hn => ?_, ?_⟩
  · exact List.mem_append_left _ (List.mem_append_right _ hn)
  · rw [List.map_append, List.map_append, Pieces.pieces_append_space _ (hwhite hz),
      Pieces.pieces_space_append _ (hwhite ha)]

/-- The first byte of a UTF-8 text. -/
theorem utf8_lead {b : UInt8} {s : List UInt8} {n : Nat} {ms : List Nat} (h : Json.utf8 (b :: s) = some (n :: ms)) :
    b < 0x80 ∧ n = b.toNat ∧ Json.utf8 s = some ms ∨
      0xC2 ≤ b ∧ b ≤ 0xF4 ∧ ∃ c t, s = c :: t ∧ Json.isTail c = true := by
  rw [Json.utf8.eq_def] at h
  simp only at h
  split at h
  · rename_i hb
    obtain ⟨ms', hms, he⟩ := Json.push_eq_some.1 h
    rw [List.cons.injEq] at he
    exact Or.inl ⟨hb, he.1, he.2 ▸ hms⟩
  right
  split at h
  · cases h
  rename_i c t
  split at h
  · rename_i h2
    split at h
    · rename_i hc
      exact ⟨h2.1, UInt8.le_trans h2.2 (by decide), c, t, rfl, hc⟩
    · cases h
  split at h
  · cases h
  split at h
  · rename_i h3
    split at h
    · rename_i hc
      exact ⟨UInt8.le_trans (by decide) h3.1, UInt8.le_trans h3.2 (by decide), c, _, rfl, hc.1⟩
    · cases h
  split at h
  · cases h
  split at h
  · rename_i h4
    exact ⟨UInt8.le_trans (by decide) h4.1, h4.2.1, c, _, rfl, h4.2.2.1⟩
  · cases h

/-- What `json.loads` takes a UTF-8 text for: the text itself, or, where a NUL follows the first
character, a text of wider units that begins with the same character. -/
theorem decode_text {b : List UInt8} {n : Nat} {ms : List Nat} (h : Json.utf8 b = some (n :: ms)) (h0 : n ≠ 0)
    (hmark : n ≠ 0xFEFF) :
    Json.decode b = some ((n :: ms).map Json.codeChar) ∨
      (∃ ks, ms = 0 :: ks) ∧ ∀ s, Json.decode b = some s → ∃ t, s = Json.codeChar n :: t := by
  cases b with
  | nil => cases h
  | cons b0 b =>
    have hlead := utf8_lead h
    have hfirst : b0 ≠ 0 ∧ b0 ≠ 0xFF ∧ b0 ≠ 0xFE := by
      refine ⟨?_, ?_, ?_⟩
      · rintro rfl
        rcases hlead with ⟨-, hn, -⟩ | ⟨hlow, -⟩
        · exact h0 hn
        · exact absurd hlow (by decide)
      · rintro rfl
        rcases hlead with ⟨hlow, -⟩ | ⟨-, hhigh, -⟩
        · exact absurd hlow (by decide)
        · exact absurd hhigh (by decide)
      · rintro rfl
        rcases hlead with ⟨hlow, -⟩ | ⟨-, hhigh, -⟩
        · exact absurd hlow (by decide)
        · exact absurd hhigh (by decide)
    have hmarks : [0x00, 0x00, 0xFE, 0xFF].isPrefixOf (b0 :: b) = false ∧
        [0xFF, 0xFE, 0x00, 0x00].isPrefixOf (b0 :: b) = false ∧ [0xFE, 0xFF].isPrefixOf (b0 :: b) = false ∧
        [0xFF, 0xFE].isPrefixOf (b0 :: b) = false := by
      simp [List.isPrefixOf, hfirst.1.symm, hfirst.2.1.symm, hfirst.2.2.symm]
    have hbom : [0xEF, 0xBB, 0xBF].isPrefixOf (b0 :: b) = false := by
      by_contra hp
      rw [Bool.not_eq_false, List.isPrefixOf_iff_prefix] at hp
      obtain ⟨t, ht⟩ := hp
      rw [← ht] at h
      have hvalue : Json.utf8 ([0xEF, 0xBB, 0xBF] ++ t) = Json.push 0xFEFF (Json.utf8 t) := by
        rw [List.cons_append, List.cons_append, List.cons_append, List.nil_append, Json.utf8.eq_def]
        rfl
      rw [hvalue] at h
      obtain ⟨ks, -, he⟩ := Json.push_eq_some.1 h
      exact hmark (List.cons.inj he).1
    by_cases hsecond : ∃ t, b = 0 :: t
    · right
      obtain ⟨t, rfl⟩ := hsecond
      have hsmall : b0 < 0x80 ∧ n = b0.toNat ∧ Json.utf8 (0 :: t) = some ms := by
        rcases hlead with hsmall | ⟨-, -, c, u, hc, htail⟩
        · exact hsmall
        · obtain ⟨rfl, -⟩ := List.cons.inj hc
          exact absurd htail (by decide)
      obtain ⟨hb0, rfl, hrest⟩ := hsmall
      refine ⟨?_, fun s hs => ?_⟩
      · rw [Json.utf8.eq_def] at hrest
        obtain ⟨ks, -, he⟩ := Json.push_eq_some.1 hrest
        exact ⟨ks, he⟩
      · obtain ⟨ns, hns, rfl⟩ := Json.decode_eq_some.1 hs
        have hhigh : Json.isHigh b0.toNat = false := by
          unfold Json.isHigh
          rw [decide_eq_false_iff_not]
          have := b0.toNat_lt
          omega
        have hunits : ∀ u us, (Json.units false (b0 :: 0 :: u)).map Json.joinUnits = some us →
            ∃ vs, us = b0.toNat :: vs := by
          intro u us hu
          obtain ⟨vs, hvs, rfl⟩ := Option.map_eq_some_iff.1 hu
          rw [Json.units] at hvs
          obtain ⟨ws, -, rfl⟩ := Json.push_eq_some.1 hvs
          have hunit : (if false = true then b0.toNat * 256 + (0 : UInt8).toNat
              else (0 : UInt8).toNat * 256 + b0.toNat) = b0.toNat := by simp
          rw [hunit]
          cases ws with
          | nil => exact ⟨[], rfl⟩
          | cons w ws =>
            refine ⟨Json.joinUnits (w :: ws), ?_⟩
            rw [Json.joinUnits, hhigh, Bool.false_and, if_neg Bool.false_ne_true]
        have hquads : ∀ u us, Json.utf32 false (b0 :: 0 :: 0 :: 0 :: u) = some us →
            ∃ vs, us = b0.toNat :: vs := by
          intro u us hu
          rw [Json.utf32] at hu
          have hquad : Json.quad false b0 0 0 0 = b0.toNat := by simp [Json.quad]
          rw [hquad] at hu
          split at hu
          · obtain ⟨vs, -, rfl⟩ := Json.push_eq_some.1 hu
            exact ⟨vs, rfl⟩
          · cases hu
        have hgoal : ∃ vs, ns = b0.toNat :: vs := by
          unfold Json.detectEncoding at hns
          simp only [hmarks, hbom, Bool.false_eq_true, if_false] at hns
          split at hns
          · rename_i c0 c1 c2 c3 u hu
            simp only [List.cons.injEq] at hu
            obtain ⟨rfl, rfl, rfl⟩ := hu
            simp only [if_neg hfirst.1, if_true] at hns
            split at hns
            · rename_i hz
              rw [hz.1, hz.2] at hns
              exact hquads u ns hns
            · exact hunits _ ns hns
          · rename_i c0 c1 hu
            simp only [List.cons.injEq] at hu
            obtain ⟨rfl, rfl, rfl⟩ := hu
            simp only [if_neg hfirst.1, if_true] at hns
            exact hunits [] ns hns
          · change Json.utf8 (b0 :: 0 :: t) = some ns at hns
            rw [h] at hns
            cases hns
            exact ⟨ms, rfl⟩
        obtain ⟨vs, rfl⟩ := hgoal
        exact ⟨vs.map Json.codeChar, rfl⟩
    · left
      have hdetect : Json.detectEncoding (b0 :: b) = (.utf8, 0) := by
        have hnz : ∀ {c t}, b = c :: t → c ≠ 0 := fun hb hc => hsecond ⟨_, hc ▸ hb⟩
        unfold Json.detectEncoding
        simp only [hmarks, hbom, Bool.false_eq_true, if_false]
        split
        · rename_i c0 c1 c2 c3 u hu
          rw [List.cons.injEq] at hu
          obtain ⟨rfl, hb⟩ := hu
          rw [if_neg hfirst.1, if_neg (hnz hb)]
        · rename_i c0 c1 hu
          rw [List.cons.injEq] at hu
          obtain ⟨rfl, hb⟩ := hu
          rw [if_neg hfirst.1, if_neg (hnz hb)]
        · rfl
      rw [Json.decode_eq_some]
      refine ⟨n :: ms, ?_, rfl⟩
      rw [hdetect]
      exact h

/-! ## One line -/

theorem white_of_lineEnd (c : Char) (h : isLineEnd c = true) : isWhite c = true := by
  unfold isLineEnd at h
  rw [Bool.or_eq_true, decide_eq_true_eq, decide_eq_true_eq] at h
  rcases h with rfl | rfl <;> decide

theorem white_of_json {c : Char} (h : Json.isWhite c = true) : isWhite c = true := by
  unfold Json.isWhite at h
  simp only [Bool.or_eq_true, decide_eq_true_eq] at h
  rcases h with ((rfl | rfl) | rfl) | rfl <;> decide

/-- A text that does not begin with white space, trimmed. -/
theorem trim_cons_plain {c : Char} {s : List Char} (hc : isWhite c = false) :
    ∃ p t, Trim.trim isWhite (c :: s) = c :: p ∧ s = p ++ t ∧ ∀ d ∈ t, isWhite d = true := by
  obtain ⟨a, t, hs, ha, ht⟩ := Trim.trim_decompose (p := isWhite) (c :: s)
  have hnil : a = [] := by
    cases a with
    | nil => rfl
    | cons d a =>
      obtain ⟨rfl, -⟩ := List.cons.inj hs
      rw [ha c List.mem_cons_self] at hc
      cases hc
  subst hnil
  rw [List.nil_append] at hs
  cases htrim : Trim.trim isWhite (c :: s) with
  | nil =>
    rw [Trim.trim_eq_nil_iff.1 htrim c List.mem_cons_self] at hc
    cases hc
  | cons d p =>
    rw [htrim, List.cons_append, List.cons.injEq] at hs
    exact ⟨p, t, by rw [hs.1], hs.2, ht⟩

/-- The first piece of a text that does not begin with white space. -/
theorem first_piece {c : Char} {s : List Char} (hc : isWhite c = false) :
    ∃ p t, s = p ++ t ∧ (c :: p) ∈ Pieces.pieces isWhite isLineEnd (c :: s) ∧
      ∀ d u, s = d :: u → isWhite d = false → ∃ q, p = d :: q := by
  have hhead : ∀ {p t u : List Char} {d : Char}, p ++ t = d :: u → (∀ x ∈ t, isWhite x = true) →
      isWhite d = false → ∃ q, p = d :: q := by
    intro p t u d hpt ht hd
    cases p with
    | nil =>
      rw [List.nil_append] at hpt
      rw [ht d (by rw [hpt]; exact List.mem_cons_self)] at hd
      cases hd
    | cons e p => exact ⟨p, by rw [(List.cons.inj hpt).1]⟩
  rcases Pieces.break_cases isLineEnd (c :: s) with hfree | ⟨a, x, rest, ha, hx, hfree⟩
  · obtain ⟨p, t, htrim, rfl, ht⟩ := trim_cons_plain (s := s) hc
    refine ⟨p, t, rfl, ?_, fun d u hd hplain => hhead hd ht hplain⟩
    rw [Pieces.pieces_free hfree, Pieces.records_singleton, htrim, if_neg (List.cons_ne_nil _ _)]
    exact List.mem_singleton.2 rfl
  · cases a with
    | nil =>
      obtain ⟨rfl, -⟩ := List.cons.inj ha
      rw [white_of_lineEnd c hx] at hc
      cases hc
    | cons e a =>
      rw [List.cons_append, List.cons.injEq] at ha
      obtain ⟨rfl, rfl⟩ := ha
      obtain ⟨p, t, htrim, rfl, ht⟩ := trim_cons_plain (s := a) hc
      refine ⟨p, t ++ x :: rest, by rw [List.append_assoc], ?_, fun d u hd hplain => ?_⟩
      · rw [← List.cons_append, Pieces.pieces_append _ _ hx, Pieces.pieces_free hfree, Pieces.records_singleton,
          htrim, if_neg (List.cons_ne_nil _ _)]
        exact List.mem_append_left _ (List.mem_singleton.2 rfl)
      · cases hpt : p ++ t with
        | nil =>
          rw [hpt, List.nil_append] at hd
          obtain ⟨rfl, -⟩ := List.cons.inj hd
          rw [white_of_lineEnd x hx] at hplain
          cases hplain
        | cons e w =>
          rw [hpt, List.cons_append, List.cons.injEq] at hd
          exact hhead (hpt.trans (by rw [hd.1])) ht hplain

theorem codeChar_valid {n : Nat} (h : n.isValidChar) : (Json.codeChar n).toNat = n := by
  unfold Json.codeChar
  rw [if_pos h]
  unfold Char.ofNat
  rw [dif_pos h]
  rfl

/-- An ASCII character at the end of a text is its last byte. -/
theorem utf8_last {b : List UInt8} {ns : List Nat} (h : Json.utf8 b = some ns) :
    (ns = [] → b = []) ∧ ∀ m, ns.getLast? = some m → m < 128 → ∃ c, b.getLast? = some c ∧ c.toNat = m := by
  refine Json.utf8_induct (P := fun b ns => (ns = [] → b = []) ∧ ∀ m, ns.getLast? = some m → m < 128 →
    ∃ c, b.getLast? = some c ∧ c.toNat = m) ⟨fun _ => rfl, nofun⟩ ?_ h
  rintro n ms pre rest - hpre hkind ⟨hnil, ih⟩
  refine ⟨nofun, fun m hm hlt => ?_⟩
  cases ms with
  | nil =>
    rw [hnil rfl, List.append_nil]
    rw [List.getLast?_singleton, Option.some.injEq] at hm
    rcases hkind with ⟨b, rfl, -, hn⟩ | ⟨-, hn⟩
    · exact ⟨b, rfl, hn.symm.trans hm⟩
    · omega
  | cons k ms =>
    rw [List.getLast?_cons_cons] at hm
    obtain ⟨c, hc, hcm⟩ := ih m hm hlt
    have hne : rest ≠ [] := by
      rintro rfl
      cases hc
    exact ⟨c, by rw [List.getLast?_append_of_ne_nil _ hne]; exact hc, hcm⟩

/-- An ASCII character at the head of a text is its first byte. -/
theorem utf8_first {b : List UInt8} {n : Nat} {ns : List Nat} (h : Json.utf8 b = some (n :: ns)) (hn : n < 128) :
    ∃ c, b.head? = some c ∧ c.toNat = n := by
  cases b with
  | nil => cases h
  | cons c b =>
    obtain ⟨k, ms, pre, rest, hb, -, he, -, -, hkind⟩ := Json.utf8_cons h
    obtain ⟨rfl, rfl⟩ := List.cons.inj he
    rcases hkind with ⟨rfl, -, hk⟩ | ⟨-, hk⟩
    · exact ⟨c, rfl, hk.symm⟩
    · omega

/-- The white space of JSON is white space of bytes. -/
theorem json_white_code {n : Nat} (h : Json.isWhite (Json.codeChar n) = true) :
    n < 128 ∧ ∀ c : UInt8, c.toNat = n → Lines.isSpace c = true := by
  unfold Json.isWhite at h
  simp only [Bool.or_eq_true, decide_eq_true_eq] at h
  have hcode : ∀ {d : Char}, Json.codeChar n = d → d.toNat < 128 → n = d.toNat :=
    fun hd hlt => Json.codeChar_of_toNat (by rw [hd]) (by omega)
  have hspace : ∀ {k : Nat}, k ∈ [32, 9, 10, 13] → ∀ c : UInt8, c.toNat = k → Lines.isSpace c = true := by
    intro k hk c hc
    have hall : ∀ k ∈ [32, 9, 10, 13], Lines.isSpace (UInt8.ofNat k) = true := by decide
    have := hall k hk
    rwa [← hc, UInt8.ofNat_toNat] at this
  rcases h with ((h | h) | h) | h
  · exact hcode h (by decide) ▸ ⟨by decide, hspace (by decide)⟩
  · exact hcode h (by decide) ▸ ⟨by decide, hspace (by decide)⟩
  · exact hcode h (by decide) ▸ ⟨by decide, hspace (by decide)⟩
  · exact hcode h (by decide) ▸ ⟨by decide, hspace (by decide)⟩

theorem plain_json {c : Char} (h : isWhite c = false) : Json.isWhite c = false := by
  cases hj : Json.isWhite c with
  | false => rfl
  | true =>
    rw [white_of_json hj] at h
    cases h

/-- A stripped line that is an object is its own only piece. -/
theorem object_line {R : Json.Reader} {b : List UInt8} {n : Nat} {ns : List Nat}
    (hns : Json.utf8 b = some (n :: ns)) (hlast : ∀ c, b.getLast? = some c → Lines.isSpace c = false) {v : Json}
    (hv : Json.loadsText R ((n :: ns).map Json.codeChar) = .ok v) (hobj : v.isObj = true)
    (hplain : isWhite (Json.codeChar n) = false)
    (hread : ∀ p ∈ Pieces.pieces isWhite isLineEnd ((n :: ns).map Json.codeChar),
      ∃ w, Json.loadsText R p = .ok w) :
    Pieces.pieces isWhite isLineEnd ((n :: ns).map Json.codeChar) = [(n :: ns).map Json.codeChar] := by
  have hchars : Trim.trim isWhite ((n :: ns).map Json.codeChar) = (n :: ns).map Json.codeChar := by
    refine Trim.trim_eq_self ?_ ?_
    · intro c hc
      cases hc
      exact hplain
    · intro c hc
      have hdelim := Json.loadsText_last hv hobj hc
      rw [List.getLast?_map] at hc
      obtain ⟨m, hm, rfl⟩ := Option.map_eq_some_iff.1 hc
      cases hw : Json.isWhite (Json.codeChar m) with
      | true =>
        obtain ⟨d, hd, hdm⟩ := (utf8_last hns).2 m hm (json_white_code hw).1
        have := hlast d hd
        rw [(json_white_code hw).2 d hdm] at this
        cases this
      | false =>
        unfold Json.isDelimiter at hdelim
        rw [hw, Bool.false_or, Bool.or_eq_true, Bool.or_eq_true, decide_eq_true_eq, decide_eq_true_eq,
          decide_eq_true_eq] at hdelim
        rcases hdelim with (hx | hx) | hx <;> rw [hx] <;> decide
  have hfree : ∀ c ∈ (n :: ns).map Json.codeChar, isLineEnd c = false := by
    intro c hc
    by_contra hx
    rw [Bool.not_eq_false] at hx
    -- a line end inside cuts the object, and its first part is malformed
    obtain ⟨a, t, q, hat, ha, hq, hqt⟩ := Pieces.pieces_of_break white_of_lineEnd
      ⟨c, by rw [hchars]; exact hc, hx⟩
    rw [hchars] at hat
    have hskip : Json.skip t ≠ [] := by
      obtain ⟨hqne, m, -, hm⟩ := Pieces.mem_records.1 hq
      cases q with
      | nil => exact absurd rfl hqne
      | cons d q =>
        have hd : isWhite d = false := Trim.trim_head (l := m) (by rw [hm]; rfl)
        intro hnil
        have := Json.skip_eq_nil_iff.1 hnil d (hqt d List.mem_cons_self)
        rw [plain_json hd] at this
        cases this
    obtain ⟨w, hw⟩ := hread a ha
    have hv' : Json.loadsText R (a ++ t) = .ok v := by
      rw [← hat]
      exact hv
    rw [Json.loadsText_cut hv' hobj hskip] at hw
    cases hw
  rw [Pieces.pieces_free hfree, Pieces.records_singleton, hchars, if_neg (by simp)]

/-- **Both readers find the same in a line.** -/
theorem line_agrees {R : Json.Reader} {l : List UInt8} {ms : List Nat} (hl : Json.utf8 l = some ms)
    (hvalid : ∀ n ∈ ms, n.isValidChar) {v : Json} (hne : Lines.strip l ≠ [])
    (hv : Json.loads R (Lines.strip l) = .ok v) {records : List (Json × List Char)}
    (hr : loadLines (Json.loadsText R) (Pieces.pieces isWhite isLineEnd (ms.map Json.codeChar)) =
      .ok (records, 0)) :
    dicts (records.map Prod.fst) = dicts [v] := by
  obtain ⟨ns, hns, hsub, hpieces⟩ := pieces_text hl
  rw [hpieces] at hr
  obtain ⟨hlines, hparse⟩ := loadLines_clean.1 hr
  cases ns with
  | nil => exact absurd ((utf8_last hns).1 rfl) hne
  | cons n ns =>
    have hn : (Json.codeChar n).toNat = n := codeChar_valid (hvalid n (hsub n List.mem_cons_self))
    have hread : ∀ p ∈ Pieces.pieces isWhite isLineEnd ((n :: ns).map Json.codeChar),
        ∃ w, (w, p) ∈ records ∧ Json.loadsText R p = .ok w := by
      intro p hp
      rw [← hlines] at hp
      obtain ⟨⟨w, q⟩, hm, rfl⟩ := List.mem_map.1 hp
      exact ⟨w, hm, hparse _ hm⟩
    -- where the text does not begin with white space, its first piece is a record
    have hfirst : isWhite (Json.codeChar n) = false → ∃ p t w, ns.map Json.codeChar = p ++ t ∧
        (w, Json.codeChar n :: p) ∈ records ∧ Json.loadsText R (Json.codeChar n :: p) = .ok w ∧
        ∀ d u, ns.map Json.codeChar = d :: u → isWhite d = false → ∃ q, p = d :: q := by
      intro hplain
      obtain ⟨p, t, hpt, hmem, hsecond⟩ := first_piece (s := ns.map Json.codeChar) hplain
      obtain ⟨w, hw, hload⟩ := hread _ hmem
      exact ⟨p, t, w, hpt, hw, hload, hsecond⟩
    have hbegin : isWhite (Json.codeChar n) = false → n ≠ 0 ∧ n ≠ 0xFEFF := by
      intro hplain
      obtain ⟨p, t, w, -, -, hload, -⟩ := hfirst hplain
      have := (starts_plain (loadsText_starts hload (plain_json hplain))).2
      rwa [hn] at this
    have h0 : n ≠ 0 := by
      rintro rfl
      exact (hbegin (by decide)).1 rfl
    have hmark : n ≠ 0xFEFF := by
      rintro rfl
      exact (hbegin (by decide)).2 rfl
    have hjson : Json.isWhite (Json.codeChar n) = false := by
      by_contra hw
      rw [Bool.not_eq_false] at hw
      obtain ⟨c, hc, hcn⟩ := utf8_first hns (json_white_code hw).1
      have := Lines.strip_head hc
      rw [(json_white_code hw).2 c hcn] at this
      cases this
    unfold Json.loads at hv
    rcases decode_text hns h0 hmark with hdecode | ⟨⟨ks, rfl⟩, hdecode⟩
    · rw [hdecode] at hv
      change Json.loadsText R (Json.codeChar n :: ns.map Json.codeChar) = .ok v at hv
      have hplain := (starts_plain (loadsText_starts hv hjson)).1
      obtain ⟨p, t, w, hpt, hw, hload, -⟩ := hfirst hplain
      cases hobj : v.isObj with
      | true =>
        have hone : records.map Prod.snd = [(n :: ns).map Json.codeChar] := by
          rw [hlines]
          refine object_line hns (fun c => Lines.strip_last) hv hobj hplain fun p hp => ?_
          obtain ⟨w', -, hw'⟩ := hread p hp
          exact ⟨w', hw'⟩
        obtain ⟨r, rfl, hrs⟩ := List.map_eq_singleton_iff.1 hone
        have hr' := hparse r List.mem_cons_self
        rw [hrs] at hr'
        have hsame : r.1 = v := Except.ok.inj (hr'.symm.trans hv)
        rw [List.map_cons, List.map_nil, hsame]
      | false =>
        have hwobj : w.isObj = false := by
          by_contra hx
          rw [Bool.not_eq_false] at hx
          have happend := Json.loadsText_append t hload hx
          rw [List.cons_append, ← hpt, hv] at happend
          split at happend
          · cases happend
            rw [hx] at hobj
            cases hobj
          · cases happend
        rw [dicts_of_not_obj ⟨v, List.mem_singleton.2 rfl, hobj⟩]
        exact dicts_of_not_obj ⟨w, List.mem_map.2 ⟨_, hw, rfl⟩, hwobj⟩
    · cases hs : Json.decode (Lines.strip l) with
      | none => rw [hs] at hv; cases hv
      | some s =>
        obtain ⟨u, rfl⟩ := hdecode s hs
        rw [hs] at hv
        have hplain := (starts_plain (loadsText_starts hv hjson)).1
        obtain ⟨p, t, w, hpt, hw, hload, hsecond⟩ := hfirst hplain
        obtain ⟨q, rfl⟩ := hsecond (Json.codeChar 0) (ks.map Json.codeChar) rfl (by decide)
        have hwobj : w.isObj = false := by
          by_contra hx
          rw [Bool.not_eq_false] at hx
          obtain ⟨c, d, z, hcd, -, hd, -⟩ := Json.loadsText_head hload hx
          obtain ⟨-, htail⟩ := List.cons.inj hcd
          obtain ⟨rfl, -⟩ := List.cons.inj htail
          exact absurd hd (by decide)
        have hobj : v.isObj = false := by
          by_contra hx
          rw [Bool.not_eq_false] at hx
          obtain ⟨r, hval⟩ := loadsText_value hv hjson
          obtain ⟨z, hz⟩ := Json.value_obj_head hval hx
          obtain ⟨r', hval'⟩ := loadsText_value hload hjson
          rw [(List.cons.inj hz).1] at hval'
          rw [Json.value_brace hval'] at hwobj
          cases hwobj
        rw [dicts_of_not_obj ⟨v, List.mem_singleton.2 rfl, hobj⟩]
        exact dicts_of_not_obj ⟨w, List.mem_map.2 ⟨_, hw, rfl⟩, hwobj⟩

/-! ## The log -/

theorem one_line {R : Json.Reader} {l : List UInt8} {ms : List Nat} (hl : Json.utf8 l = some ms)
    (hvalid : ∀ n ∈ ms, n.isValidChar) {rs : List (Json × List UInt8)} {qs : List (Json × List Char)}
    (hr : loadLines (Json.loads R) (Lines.records [l]) = .ok (rs, 0))
    (hq : loadLines (Json.loadsText R) (Pieces.pieces isWhite isLineEnd (ms.map Json.codeChar)) = .ok (qs, 0)) :
    dicts (qs.map Prod.fst) = dicts (rs.map Prod.fst) := by
  rw [Lines.records_singleton] at hr
  split at hr
  · rename_i hblank
    cases hr
    obtain ⟨ns, hns, -, hpieces⟩ := pieces_text hl
    rw [hblank] at hns
    cases hns
    rw [hpieces] at hq
    cases hq
    rfl
  · rename_i hne
    obtain ⟨hlines, hparse⟩ := loadLines_clean.1 hr
    obtain ⟨r, rfl, hrs⟩ := List.map_eq_singleton_iff.1 hlines
    have hv := hparse r List.mem_cons_self
    rw [hrs] at hv
    exact line_agrees hl hvalid hne hv hq

theorem lines_agree {R : Json.Reader} (log : List UInt8) :
    ∀ {ns : List Nat} {rs : List (Json × List UInt8)} {qs : List (Json × List Char)},
      Json.utf8 log = some ns → (∀ n ∈ ns, n.isValidChar) →
      loadLines (Json.loads R) (Lines.records (log.splitOn 10)) = .ok (rs, 0) →
      loadLines (Json.loadsText R) (Pieces.pieces isWhite isLineEnd (ns.map Json.codeChar)) = .ok (qs, 0) →
      dicts (qs.map Prod.fst) = dicts (rs.map Prod.fst) := by
  induction log using Lines.feed_induct with
  | hlast a ha =>
    intro ns rs qs hns hvalid hr hq
    rw [List.splitOn_eq_singleton ha] at hr
    exact one_line hns hvalid hr hq
  | hfeed a c ha ih =>
    intro ns rs qs hns hvalid hr hq
    rw [List.splitOn_append_cons_self_of_not_mem ha, Lines.records_cons, loadLines_append] at hr
    obtain ⟨r1, r2, rfl, hr1, hr2⟩ := hr
    obtain ⟨n1, n2, h1, h2, rfl⟩ := utf8_split hns a (10 :: c) rfl (by rintro x hx; cases hx; decide)
    obtain ⟨n3, h3, rfl⟩ : ∃ n3, Json.utf8 c = some n3 ∧ n2 = 10 :: n3 := by
      rw [Json.utf8.eq_def] at h2
      exact Json.push_eq_some.1 h2
    rw [List.map_append, List.map_cons, Pieces.pieces_append _ _ (by decide), loadLines_append] at hq
    obtain ⟨q1, q2, rfl, hq1, hq2⟩ := hq
    rw [List.map_append, List.map_append, dicts_append, dicts_append,
      one_line h1 (fun n hn => hvalid n (List.mem_append_left _ hn)) hr1 hq1,
      ih h3 (fun n hn => hvalid n (List.mem_append_right _ (List.mem_cons_of_mem _ hn))) hr2 hq2]

/-- **Both readers find the same in a log without malformed lines.** -/
theorem readers_agree {R : Json.Reader} {log : List UInt8} {records : List (Json × List UInt8)}
    {records' : List Json} (h : WellFormed R log records records') :
    dicts records' = dicts (records.map Prod.fst) := by
  obtain ⟨hbytes, htext⟩ := h
  unfold loadAudit at hbytes
  unfold loadStrict readText at htext
  rw [Lines.records_fileLines_eq] at hbytes
  cases hns : Json.utf8 log with
  | none => rw [hns] at htext; cases htext
  | some ns =>
    rw [hns, Option.bind_some] at htext
    split at htext
    · cases htext
    · rename_i text hread
      split at hread
      · rename_i hvalid
        cases hread
        split at htext
        · cases htext
        · rename_i qs bad hqs
          cases htext
          exact lines_agree log hns hvalid hbytes hqs
      · cases hread

end Evidence

end StrixPEP
