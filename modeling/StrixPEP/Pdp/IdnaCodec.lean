import StrixPEP.Pdp.Addressing

/-!
# What the `idna` codec makes of a name that is not ASCII

The codec works label by label: it prepares the label (nameprep), writes a label that is ASCII then as
it stands and any other one in Punycode after `xn--`.  The tables of nameprep and the base-36 digits
of Punycode are the parameter `IdnaTables`.

* `spell` — `encode("idna")`, as the text that it is in ASCII;
* `Unfit` — what in the prepared labels `canonical_host` would not leave alone.

Principal results: `Spelling.mem`, `Spelling.head`, `Spelling.last`.
-/

namespace StrixPEP

open IpAddress (Text Address)

/-- `digits` of the Punycode codec. -/
def punycodeDigits : Text := "abcdefghijklmnopqrstuvwxyz0123456789".toList

/-- What the codec rests on. -/
structure IdnaTables where
  nameprep : Text → Option Text
  /-- What Punycode writes for the characters that are not ASCII. -/
  deltas : Text → Text
  deltas_digit : ∀ {t c}, c ∈ deltas t → c ∈ punycodeDigits
  deltas_ne_nil : ∀ {t}, ¬ Ascii t → deltas t ≠ []

section

variable (codec : IdnaTables)

/-- `dots`, the full stops of a domain name. -/
def isStop (c : Char) : Bool := decide (c.toNat ∈ [0x2E, 0x3002, 0xFF0E, 0xFF61])

/-- The labels of a name; a full stop at the end leaves an empty one. -/
def labelsOf (t : Text) : List Text := t.splitOnP isStop

/-- `encode("punycode")`. -/
def punycode (t : Text) : Text :=
  let base := t.filter fun c => c.toNat < 128
  (if base = [] then [] else base ++ ['-']) ++ codec.deltas t

/-- A label as `ToASCII` looks at it: one that is ASCII is not prepared. -/
def ready (label : Text) : Option Text := if Ascii label then some label else codec.nameprep label

/-- `ToASCII`. -/
def toAscii (label : Text) : Option Text :=
  (ready codec label).bind fun t =>
    let ace := "xn--".toList
    if Ascii t then (if 0 < t.length ∧ t.length < 64 then some t else none)
    else if ace <+: t then none
    else if (ace ++ punycode codec t).length < 64 then some (ace ++ punycode codec t)
    else none

/-- `encode("idna")` of a text that is not ASCII. -/
def spell (t : Text) : Option Text :=
  let labels := labelsOf t
  if labels.getLast? = some [] then
    (labels.dropLast.mapM (toAscii codec)).map fun ls => List.intercalate ['.'] ls ++ ['.']
  else (labels.mapM (toAscii codec)).map (List.intercalate ['.'])

/-- The codec spells what is not ASCII label by label. -/
def SpellsNames (idna : Text → Option Bytes) : Prop :=
  ∀ t, ¬ Ascii t → idna t = (spell codec t).map fun name => name.map Json.asciiByte

/-- What stands in a prepared label that is written as it is, at the front or at the end of the
name, or what the labels are together. -/
inductive Unfit (t : Text) : Prop
  /-- a full stop at the end, of any kind -/
  | stop : (labelsOf t).getLast? = some [] → Unfit t
  /-- a capital letter, a slash, a space or a backslash -/
  | sign {label l c} : label ∈ labelsOf t → ready codec label = some l → c ∈ l →
      c.isUpper = true ∨ c = '/' ∨ c = ' ' ∨ c = '\\' → Unfit t
  /-- white space at the front -/
  | front {label l c} : (labelsOf t).head? = some label → ready codec label = some l → Ascii l →
      l.head? = some c → isWhite c = true → Unfit t
  /-- white space or a full stop at the end -/
  | back {label l c} : (labelsOf t).getLast? = some label → ready codec label = some l → Ascii l →
      l.getLast? = some c → isWhite c = true ∨ c = '.' → Unfit t
  /-- brackets around the name -/
  | brackets {first last l m} : (labelsOf t).head? = some first → (labelsOf t).getLast? = some last →
      ready codec first = some l → ready codec last = some m → Ascii l → Ascii m →
      l.head? = some '[' → m.getLast? = some ']' → Unfit t
  /-- a colon, where the name is not the text of an address -/
  | colon {label l name} : label ∈ labelsOf t → ready codec label = some l → ':' ∈ l →
      spell codec t = some name → (∀ a : Address, a.text ≠ name) → Unfit t
  /-- nothing but digits and full stops, where the name is not the text of an IPv4 address -/
  | digits {ls} : (labelsOf t).mapM (ready codec) = some ls →
      (∀ l ∈ ls, ∀ c ∈ l, c.isDigit = true ∨ c = '.') →
      (∀ ip, IpAddress.text4 ip ≠ List.intercalate ['.'] ls) → Unfit t

end

variable {codec : IdnaTables}

/-! ## A label -/

/-- What is written for a prepared label. -/
def Writes (codec : IdnaTables) (l r : Text) : Prop :=
  if Ascii l then r = l else r = "xn--".toList ++ punycode codec l

theorem toAscii_some {label r : Text} (h : toAscii codec label = some r) :
    r ≠ [] ∧ ∃ l, ready codec label = some l ∧ Writes codec l r := by
  obtain ⟨l, hl, hr⟩ := Option.bind_eq_some_iff.1 h
  simp only at hr
  split at hr
  · rename_i hascii
    split at hr
    · rename_i hlen
      obtain rfl := Option.some.inj hr
      exact ⟨List.ne_nil_of_length_pos hlen.1, l, hl, by rw [Writes, if_pos hascii]⟩
    · cases hr
  · rename_i hascii
    split at hr
    · cases hr
    split at hr
    · obtain rfl := Option.some.inj hr
      exact ⟨by simp, l, hl, by rw [Writes, if_neg hascii]⟩
    · cases hr

/-- A character that Punycode does not write of its own. -/
def Own (c : Char) : Prop := c.toNat < 128 ∧ c ≠ '-' ∧ c ∉ punycodeDigits

instance (c : Char) : Decidable (Own c) :=
  inferInstanceAs (Decidable (c.toNat < 128 ∧ c ≠ '-' ∧ c ∉ punycodeDigits))

theorem isUpper_eq (c : Char) : c.isUpper = decide (c.val ≥ 'A'.val ∧ c.val ≤ 'Z'.val) := rfl

theorem isDigit_bound {c : Char} (h : c.isDigit = true) : c.toNat < 128 := by
  simp only [Char.isDigit, Bool.and_eq_true, decide_eq_true_eq] at h
  have h2 : c.toNat ≤ 57 := h.2
  omega

theorem own_of_isUpper {c : Char} (h : c.isUpper = true) : Own c ∧ c ≠ '.' := by
  have hrange : 65 ≤ c.toNat ∧ c.toNat ≤ 90 := by
    rw [isUpper_eq, decide_eq_true_eq] at h
    exact h
  have hdigits : ∀ d ∈ punycodeDigits, d.toNat < 65 ∨ 90 < d.toNat := by decide
  refine ⟨⟨by omega, ?_, fun hc => ?_⟩, ?_⟩
  · rintro rfl
    exact absurd hrange (by decide)
  · have := hdigits c hc
    omega
  · rintro rfl
    exact absurd hrange (by decide)

/-- The characters that `canonical_host` has no place for, besides white space at the ends. -/
theorem own_of_sign {c : Char} (h : c.isUpper = true ∨ c = '/' ∨ c = ' ' ∨ c = '\\') : Own c ∧ c ≠ '.' := by
  rcases h with h | rfl | rfl | rfl
  · exact own_of_isUpper h
  all_goals decide

theorem own_of_isWhite {c : Char} (h : isWhite c = true) (hc : c.toNat < 128) : Own c := by
  have hdigits : ∀ d ∈ punycodeDigits, isWhite d = false := by decide
  refine ⟨hc, ?_, fun hm => ?_⟩
  · rintro rfl
    cases h
  · rw [hdigits c hm] at h
    cases h

theorem mem_punycode {t : Text} {c : Char} (hc : Own c) : c ∈ punycode codec t ↔ c ∈ t := by
  obtain ⟨hascii, hsep, hdigit⟩ := hc
  have hdeltas : c ∉ codec.deltas t := fun h => hdigit (codec.deltas_digit h)
  have hbase : c ∈ (t.filter fun c => c.toNat < 128) ↔ c ∈ t := by
    rw [List.mem_filter]
    simp [hascii]
  unfold punycode
  simp only [List.mem_append, hdeltas, or_false]
  split
  · rename_i hnil
    rw [hnil] at hbase
    exact hbase
  · rw [List.mem_append, List.mem_singleton, hbase]
    simp [hsep]

theorem Writes.mem {l r : Text} (h : Writes codec l r) {c : Char} (hc : Own c) : c ∈ r ↔ c ∈ l := by
  unfold Writes at h
  split at h
  · rw [h]
  · have hace : c ∉ "xn--".toList := by
      have hown : ∀ d ∈ "xn--".toList, ¬ Own d := by decide
      exact fun hm => hown c hm hc
    rw [h, List.mem_append, mem_punycode hc, or_iff_right hace]

theorem Writes.head {l r : Text} (h : Writes codec l r) {c : Char} (hc : c ≠ 'x') :
    r.head? = some c ↔ Ascii l ∧ l.head? = some c := by
  unfold Writes at h
  split at h
  · rename_i hascii
    rw [h]
    exact (and_iff_right hascii).symm
  · rename_i hascii
    rw [h]
    constructor
    · intro hh
      exact absurd (Option.some.inj hh).symm hc
    · exact fun hh => absurd hh.1 hascii

theorem Writes.last {l r : Text} (h : Writes codec l r) {c : Char} (hc : Own c) :
    r.getLast? = some c ↔ Ascii l ∧ l.getLast? = some c := by
  unfold Writes at h
  split at h
  · rename_i hascii
    rw [h]
    exact (and_iff_right hascii).symm
  · rename_i hascii
    constructor
    · intro hh
      have hne := codec.deltas_ne_nil hascii
      rw [h, punycode, ← List.append_assoc, List.getLast?_append_of_ne_nil _ hne] at hh
      exact absurd (codec.deltas_digit (List.mem_of_getLast? hh)) hc.2.2
    · exact fun hh => absurd hh.1 hascii

/-! ## A name -/

theorem mapM_eq_some_iff {α β : Type} {f : α → Option β} {xs : List α} {ys : List β} :
    xs.mapM f = some ys ↔ xs.map f = ys.map some := by
  induction xs generalizing ys with
  | nil =>
    rw [List.mapM_nil, List.map_nil]
    exact Option.some_inj.trans ⟨fun h => by rw [← h]; rfl, fun h => (List.map_eq_nil_iff.1 h.symm).symm⟩
  | cons x xs ih =>
    rw [List.mapM_cons, List.map_cons]
    constructor
    · intro h
      obtain ⟨y, hy, h⟩ := Option.bind_eq_some_iff.1 h
      obtain ⟨zs, hzs, h⟩ := Option.bind_eq_some_iff.1 h
      obtain rfl := Option.some.inj h
      rw [List.map_cons, hy, ih.1 hzs]
    · intro h
      cases ys with
      | nil => cases h
      | cons y ys =>
        obtain ⟨hy, hrest⟩ := List.cons.inj h
        rw [hy, ih.2 hrest]
        rfl

/-- The labels of a name and what is written for them. -/
structure Spelling (codec : IdnaTables) (t name : Text) (rs : List Text) : Prop where
  labels : (labelsOf t).map (toAscii codec) = rs.map some
  name : name = List.intercalate ['.'] rs

theorem spell_some {t name : Text} (h : spell codec t = some name)
    (hstop : (labelsOf t).getLast? ≠ some []) : ∃ rs, Spelling codec t name rs := by
  unfold spell at h
  simp only [if_neg hstop] at h
  obtain ⟨rs, hrs, rfl⟩ := Option.map_eq_some_iff.1 h
  exact ⟨rs, mapM_eq_some_iff.1 hrs, rfl⟩

theorem spell_stop {t name : Text} (h : spell codec t = some name)
    (hstop : (labelsOf t).getLast? = some []) : name.getLast? = some '.' := by
  unfold spell at h
  simp only [if_pos hstop] at h
  obtain ⟨rs, -, rfl⟩ := Option.map_eq_some_iff.1 h
  simp

theorem Writes.ascii {l r : Text} (h : Writes codec l r) : Ascii r := by
  unfold Writes at h
  split at h
  · rename_i hascii
    rw [h]
    exact hascii
  · have hdigit : ∀ c ∈ punycodeDigits, c.toNat < 128 := by decide
    have hace : ∀ c ∈ "xn--".toList, c.toNat < 128 := by decide
    rw [h]
    intro c hc
    rcases List.mem_append.1 hc with hc | hc
    · exact hace c hc
    rcases List.mem_append.1 hc with hc | hc
    · split at hc
      · cases hc
      rcases List.mem_append.1 hc with hc | hc
      · simpa using (List.mem_filter.1 hc).2
      · rw [List.mem_singleton.1 hc]
        decide
    · exact hdigit c (codec.deltas_digit hc)

theorem ascii_join {labels rs : List Text} (h : labels.map (toAscii codec) = rs.map some) :
    Ascii (List.intercalate ['.'] rs) := by
  intro c hc
  rcases IpAddress.mem_intercalate hc with rfl | ⟨r, hr, hm⟩
  · decide
  · have hmem : some r ∈ rs.map some := List.mem_map_of_mem hr
    rw [← h] at hmem
    obtain ⟨label, -, hw⟩ := List.mem_map.1 hmem
    obtain ⟨-, l, -, hw⟩ := toAscii_some hw
    exact hw.ascii c hm

/-- What the codec answers is ASCII. -/
theorem spell_ascii {t name : Text} (h : spell codec t = some name) : Ascii name := by
  unfold spell at h
  simp only at h
  split at h
  all_goals
    obtain ⟨rs, hrs, rfl⟩ := Option.map_eq_some_iff.1 h
    have hascii := ascii_join (mapM_eq_some_iff.1 hrs)
  · intro c hc
    rcases List.mem_append.1 hc with hc | hc
    · exact hascii c hc
    · rw [List.mem_singleton.1 hc]
      decide
  · exact hascii

theorem head?_join {r : Text} {rs : List Text} (hr : r ≠ []) :
    (List.intercalate ['.'] (r :: rs)).head? = r.head? := by
  cases rs with
  | nil => simp
  | cons s rs => rw [List.intercalate_cons_cons, List.append_assoc, List.head?_append_of_ne_nil _ hr]

theorem getLast?_join {r : Text} {rs : List Text} (hr : r ≠ []) :
    (List.intercalate ['.'] (rs ++ [r])).getLast? = r.getLast? := by
  induction rs with
  | nil => simp
  | cons s rs ih =>
    have hne : List.intercalate ['.'] (rs ++ [r]) ≠ [] := by
      intro hnil
      rw [hnil, List.getLast?_nil] at ih
      exact hr (List.getLast?_eq_none_iff.1 ih.symm)
    cases hrs : rs ++ [r] with
    | nil => simp at hrs
    | cons u us =>
      rw [List.cons_append, hrs, List.intercalate_cons_cons, List.getLast?_append_of_ne_nil _ (by
        rw [← hrs]; exact hne), ← hrs, ih]

theorem mem_join {c : Char} (hc : c ≠ '.') {rs : List Text} :
    c ∈ List.intercalate ['.'] rs ↔ ∃ r ∈ rs, c ∈ r := by
  constructor
  · intro h
    exact (IpAddress.mem_intercalate h).resolve_left hc
  · rintro ⟨r, hr, hm⟩
    obtain ⟨pre, post, rfl⟩ := List.append_of_mem hr
    induction pre with
    | nil =>
      cases post with
      | nil => simpa using hm
      | cons s post =>
        rw [List.nil_append, List.intercalate_cons_cons]
        simp [hm]
    | cons s pre ih =>
      have hin := ih (by simp)
      cases hrest : pre ++ r :: post with
      | nil => simp at hrest
      | cons u us =>
        rw [List.cons_append, hrest, List.intercalate_cons_cons, ← hrest]
        simp [hin]

theorem Spelling.written {t name : Text} {rs : List Text} (h : Spelling codec t name rs) {r : Text}
    (hr : r ∈ rs) : ∃ label ∈ labelsOf t, toAscii codec label = some r := by
  have hmem : some r ∈ rs.map some := List.mem_map_of_mem hr
  rw [← h.labels] at hmem
  exact List.mem_map.1 hmem

theorem Spelling.writes {t name : Text} {rs : List Text} (h : Spelling codec t name rs) {label : Text}
    (hl : label ∈ labelsOf t) : ∃ r ∈ rs, toAscii codec label = some r := by
  have hmem : toAscii codec label ∈ (labelsOf t).map (toAscii codec) := List.mem_map_of_mem hl
  rw [h.labels] at hmem
  obtain ⟨r, hr, hw⟩ := List.mem_map.1 hmem
  exact ⟨r, hr, hw.symm⟩

/-- The first label, and what is written for it. -/
theorem Spelling.first {t name : Text} {rs : List Text} (h : Spelling codec t name rs) :
    ∃ label r, (labelsOf t).head? = some label ∧ toAscii codec label = some r ∧
      name.head? = r.head? := by
  have hlabels := h.labels
  cases hls : labelsOf t with
  | nil => exact absurd hls (List.splitOnP_ne_nil _ _)
  | cons label labels =>
    rw [hls] at hlabels
    cases rs with
    | nil => cases hlabels
    | cons r rs =>
      obtain ⟨hw, -⟩ := List.cons.inj hlabels
      exact ⟨label, r, rfl, hw, by rw [h.name, head?_join (toAscii_some hw).1]⟩

theorem Spelling.ne_nil {t name : Text} {rs : List Text} (h : Spelling codec t name rs) : name ≠ [] := by
  obtain ⟨label, r, -, hw, hhead⟩ := h.first
  intro hname
  rw [hname, List.head?_nil] at hhead
  exact (toAscii_some hw).1 (List.head?_eq_none_iff.1 hhead.symm)

/-- **A character that Punycode does not have of its own is in the name exactly if it is in a prepared
label.** -/
theorem Spelling.mem {t name : Text} {rs : List Text} (h : Spelling codec t name rs) {c : Char}
    (hc : Own c) (hdot : c ≠ '.') :
    c ∈ name ↔ ∃ label ∈ labelsOf t, ∃ l, ready codec label = some l ∧ c ∈ l := by
  rw [h.name, mem_join hdot]
  constructor
  · rintro ⟨r, hr, hm⟩
    obtain ⟨label, hlabel, hw⟩ := h.written hr
    obtain ⟨-, l, hl, hw⟩ := toAscii_some hw
    exact ⟨label, hlabel, l, hl, (hw.mem hc).1 hm⟩
  · rintro ⟨label, hlabel, l, hl, hm⟩
    obtain ⟨r, hr, hw⟩ := h.writes hlabel
    obtain ⟨-, l', hl', hw⟩ := toAscii_some hw
    cases hl.symm.trans hl'
    exact ⟨r, hr, (hw.mem hc).2 hm⟩

/-- **The name begins with what the first prepared label begins with, where that is ASCII.** -/
theorem Spelling.head {t name : Text} {rs : List Text} (h : Spelling codec t name rs) {c : Char}
    (hc : c ≠ 'x') : name.head? = some c ↔
      ∃ label l, (labelsOf t).head? = some label ∧ ready codec label = some l ∧ Ascii l ∧
        l.head? = some c := by
  obtain ⟨label, r, hlabel, hw, hhead⟩ := h.first
  obtain ⟨-, l, hl, hw⟩ := toAscii_some hw
  rw [hhead, hw.head hc]
  constructor
  · exact fun hh => ⟨label, l, hlabel, hl, hh⟩
  · rintro ⟨label', l', hlabel', hl', hh⟩
    cases hlabel.symm.trans hlabel'
    cases hl.symm.trans hl'
    exact hh

/-- **The name ends with what the last prepared label ends with, where that is ASCII.** -/
theorem Spelling.last {t name : Text} {rs : List Text} (h : Spelling codec t name rs) {c : Char}
    (hc : Own c) : name.getLast? = some c ↔
      ∃ label l, (labelsOf t).getLast? = some label ∧ ready codec label = some l ∧ Ascii l ∧
        l.getLast? = some c := by
  obtain ⟨labels, label, hls⟩ : ∃ labels label, labelsOf t = labels ++ [label] :=
    ⟨_, _, (List.dropLast_append_getLast (List.splitOnP_ne_nil _ _)).symm⟩
  have hlabels := h.labels
  rw [hls, List.map_append] at hlabels
  obtain ⟨rs, rest, rfl, -, hrest⟩ := List.map_eq_append_iff.1 hlabels.symm
  obtain ⟨r, rfl, hw⟩ := List.map_eq_singleton_iff.1 hrest
  obtain ⟨hne, l, hl, hw⟩ := toAscii_some hw.symm
  rw [h.name, getLast?_join hne, hw.last hc, hls, List.getLast?_concat]
  constructor
  · exact fun hh => ⟨label, l, rfl, hl, hh⟩
  · rintro ⟨label', l', hlabel', hl', hh⟩
    cases hlabel'
    cases hl.symm.trans hl'
    exact hh

/-- Labels that are all ASCII when they are prepared are written as they are. -/
theorem Spelling.of_ascii {t name : Text} {rs : List Text} (h : Spelling codec t name rs)
    (hascii : ∀ label ∈ labelsOf t, ∀ l, ready codec label = some l → Ascii l) :
    (labelsOf t).mapM (ready codec) = some rs := by
  rw [mapM_eq_some_iff, ← h.labels]
  refine List.map_congr_left fun label hlabel => ?_
  obtain ⟨r, -, hr⟩ := h.writes hlabel
  obtain ⟨-, l, hl, hw⟩ := toAscii_some hr
  rw [hr, hl]
  rw [Writes, if_pos (hascii label hlabel l hl)] at hw
  rw [hw]

/-- Labels of digits and full stops are the name as they are. -/
theorem Spelling.eq_of_digits {t name : Text} {rs ls : List Text} (h : Spelling codec t name rs)
    (hls : (labelsOf t).mapM (ready codec) = some ls)
    (hdigits : ∀ l ∈ ls, ∀ c ∈ l, c.isDigit = true ∨ c = '.') : name = List.intercalate ['.'] ls := by
  have hmap := mapM_eq_some_iff.1 hls
  have hready : ∀ label ∈ labelsOf t, ∀ l, ready codec label = some l → l ∈ ls := by
    intro label hlabel l hl
    have hmem : some l ∈ (labelsOf t).map (ready codec) := List.mem_map.2 ⟨label, hlabel, hl⟩
    rw [hmap] at hmem
    obtain ⟨l', hl', heq⟩ := List.mem_map.1 hmem
    rwa [← Option.some.inj heq]
  have hrs := h.of_ascii fun label hlabel l hl c hc => by
    rcases hdigits l (hready label hlabel l hl) c hc with hd | rfl
    · exact isDigit_bound hd
    · decide
  cases hls.symm.trans hrs
  exact h.name

/-- A name of digits and full stops is made of the prepared labels. -/
theorem Spelling.digits_of_name {t name : Text} {rs : List Text} (h : Spelling codec t name rs)
    (hdigits : ∀ c ∈ name, c.isDigit = true ∨ c = '.') :
    (labelsOf t).mapM (ready codec) = some rs ∧ ∀ r ∈ rs, ∀ c ∈ r, c.isDigit = true ∨ c = '.' := by
  have hchars : ∀ r ∈ rs, ∀ c ∈ r, c.isDigit = true ∨ c = '.' := by
    intro r hr c hc
    by_cases hdot : c = '.'
    · exact Or.inr hdot
    · exact hdigits c (by rw [h.name, mem_join hdot]; exact ⟨r, hr, hc⟩)
  refine ⟨h.of_ascii fun label hlabel l hl => ?_, hchars⟩
  obtain ⟨r, hr, hw⟩ := h.writes hlabel
  obtain ⟨-, l', hl', hw⟩ := toAscii_some hw
  cases hl.symm.trans hl'
  by_contra hla
  rw [Writes, if_neg hla] at hw
  exact absurd (hchars r hr 'x' (by rw [hw]; exact List.mem_cons_self)) (by decide)

end StrixPEP
