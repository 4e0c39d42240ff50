import StrixPEP.Pdp.IdnaCodec

/-!
# Canonical hosts

The gateway feeds the host that `canonical_host` returned back into it.  It comes back unchanged
exactly if nothing stands in the input that one pass of stripping, lower-casing and taking out of
brackets only uncovers.

* `Canonical` — a fixed point of `canonical_host` in its final spelling;
* `Hidden` — what one pass uncovers in a text that the codec does not spell;
* `OnePass` — the condition on the input;
* `canonical_iff` — the spelling of a fixed point.

Principal result: `canonical_host_iff`.
-/

namespace StrixPEP

open IpAddress (Text Address)

section

variable (tables : CharTables) (idna : Text → Option Bytes)

/-- The name comes back unchanged, and it is spelled as the comparisons expect. -/
structure Canonical (h : Text) : Prop where
  fixed : canonicalHost tables idna h = some h
  lower : tables.lower h = h
  stripped : strip h = h
  bare : ¬ Enclosed h
  undotted : h.getLast? ≠ some '.'
  slash : '/' ∉ h
  space : ' ' ∉ h
  backslash : '\\' ∉ h

/-- A text in the final spelling: an address as `str` writes it, or a name. -/
structure Spelled (h : Text) : Prop where
  nonempty : h ≠ []
  lower : tables.lower h = h
  stripped : strip h = h
  bare : ¬ Enclosed h
  undotted : h.getLast? ≠ some '.'
  slash : '/' ∉ h
  space : ' ' ∉ h
  backslash : '\\' ∉ h
  address : ':' ∈ h → ∃ a, IpAddress.parse h = some a ∧ a.text = h
  quad : ':' ∉ h → Numeric tables h → ∃ ip, IpAddress.parse4 h = some ip

/-- The text is taken for a name, and the codec has to spell it. -/
def Foreign (h : Text) : Prop := ':' ∉ h ∧ ¬ Numeric tables h ∧ ¬ Ascii h

/-- What the outer brackets of a text enclose; the text itself where it has none. -/
def Inside (s t : Text) : Prop := if Enclosed s then s = '[' :: (t ++ [']']) else t = s

/-- What one pass leaves in a text: inside its outer brackets stand other brackets or white space, at
most final full stops after them. -/
inductive Hidden (s : Text) : Prop
  | brackets {mid dots : Text} : Inside s ('[' :: (mid ++ ']' :: dots)) → (∀ d ∈ dots, d = '.') → Hidden s
  | front {w : Char} {rest : Text} : Inside s (w :: rest) → isWhite w = true → Hidden s
  | back {w : Char} {rest dots : Text} : Inside s (rest ++ w :: dots) → isWhite w = true →
      (∀ d ∈ dots, d = '.') → Hidden s

/-- One pass over the input is enough.  An address or a name in ASCII, stripped and in lower case,
hides nothing; in any other name the codec finds nothing that it writes unfit. -/
structure OnePass (codec : IdnaTables) (raw : Text) : Prop where
  plain : ':' ∈ tables.lower (strip raw) ∨ Ascii (tables.lower (strip raw)) →
    ¬ Hidden (tables.lower (strip raw))
  foreign : ':' ∉ tables.lower (strip raw) → ¬ Ascii (tables.lower (strip raw)) →
    ¬ Unfit codec (prepare tables raw)

end

variable {tables : CharTables} {idna : Text → Option Bytes}

/-! ## One pass -/

theorem mem_unbracket {t : Text} {c : Char} (h : c ∈ if Enclosed t then t.tail.dropLast else t) :
    c ∈ t := by
  split at h
  · exact List.mem_of_mem_tail (List.mem_of_mem_dropLast h)
  · exact h

/-- Every character of a prepared text is in lower case. -/
theorem lowered_prepare {raw : Text} {c : Char} (h : c ∈ prepare tables raw) : tables.lowered c = true :=
  tables.lowered_of_mem (mem_unbracket (Trim.mem_of_mem_rdropWhile h))

theorem undotted_prepare (raw : Text) : (prepare tables raw).getLast? ≠ some '.' := by
  intro h
  have := Trim.rdropWhile_last h
  simp at this

/-- A text on which a pass has nothing to do. -/
theorem prepare_eq_self {h : Text} (hlower : tables.lower h = h) (hstrip : strip h = h)
    (hbare : ¬ Enclosed h) (hdot : h.getLast? ≠ some '.') : prepare tables h = h := by
  unfold prepare
  rw [hstrip, hlower]
  simp only [if_neg hbare]
  refine Trim.rdropWhile_eq_self fun c hc => ?_
  rw [decide_eq_false_iff_not]
  rintro rfl
  exact hdot hc

/-- What `canonical_host` does with a text on which a pass has nothing to do. -/
theorem canonicalHost_eq {raw h : Text} (hp : prepare tables raw = h) (hraw : raw ≠ []) (hne : h ≠ [])
    (hslash : '/' ∉ h) (hspace : ' ' ∉ h) (hback : '\\' ∉ h) :
    canonicalHost tables idna raw =
      if ':' ∈ h then (IpAddress.parse h).map Address.text
      else if Numeric tables h then dottedQuad tables h
      else hostName idna h := by
  unfold canonicalHost
  rw [if_neg hraw]
  simp only [hp]
  rw [if_neg]
  simp [hne, hslash, hspace, hback]

/-- What is left to say of an input that `canonical_host` does not refuse at once. -/
theorem canonicalHost_some {raw h : Text} (hx : canonicalHost tables idna raw = some h) :
    raw ≠ [] ∧ prepare tables raw ≠ [] ∧ '/' ∉ prepare tables raw ∧ ' ' ∉ prepare tables raw ∧
      '\\' ∉ prepare tables raw := by
  unfold canonicalHost at hx
  split at hx
  · cases hx
  rename_i hraw
  simp only at hx
  split at hx
  · cases hx
  rename_i hp
  simp only [not_or] at hp
  exact ⟨hraw, hp⟩

/-! ## Dotted quads -/

theorem numeric_of_parse4 {h : Text} {ip : BitVec 32} (hp : IpAddress.parse4 h = some ip) :
    Numeric tables h := by
  intro c hc
  rcases IpAddress.parse4_chars hp hc with rfl | hd
  · exact Or.inr rfl
  · exact Or.inl (by rw [tables.isDigit_ascii c (isDigit_bound hd), hd])

/-- A dotted quad is spelled in one way. -/
theorem dottedQuad_some {h q : Text} (hx : dottedQuad tables h = some q) :
    q = h ∧ ∃ ip, IpAddress.parse4 h = some ip := by
  unfold dottedQuad at hx
  simp only at hx
  split at hx
  · split at hx
    · cases hx
    · obtain ⟨ip, hip, rfl⟩ := Option.map_eq_some_iff.1 hx
      exact ⟨IpAddress.text4_parse4 hip, ip, hip⟩
  · cases hx

/-- Every IPv4 address is a dotted quad in its final spelling. -/
theorem dottedQuad_of_parse4 {h : Text} {ip : BitVec 32} (hp : IpAddress.parse4 h = some ip) :
    dottedQuad tables h = some h := by
  obtain ⟨hlen, hparts⟩ := IpAddress.parse4_parts hp
  have hform : ∀ p ∈ h.splitOn '.', p ≠ [] ∧ ∀ c ∈ p, tables.isDigit c = true := by
    intro p hm
    obtain ⟨n, hn⟩ := hparts p hm
    obtain ⟨hne, hdigits, -⟩ := IpAddress.octet_form hn
    refine ⟨hne, fun c hc => ?_⟩
    rw [tables.isDigit_ascii c (isDigit_bound (hdigits c hc)), hdigits c hc]
  have hzero : ¬ ∃ p ∈ h.splitOn '.', 1 < p.length ∧ p.head? = some '0' := by
    rintro ⟨p, hm, hlead⟩
    obtain ⟨n, hn⟩ := hparts p hm
    exact (IpAddress.octet_form hn).2.2 hlead
  unfold dottedQuad
  simp only
  rw [if_pos ⟨hlen, hform⟩, if_neg hzero, hp, Option.map_some, IpAddress.text4_parse4 hp]

/-! ## Names -/

theorem latin1_asciiByte {t : Text} (h : Ascii t) : latin1 (t.map Json.asciiByte) = t := by
  unfold latin1
  rw [List.map_map]
  refine (List.map_congr_left fun c hc => ?_).trans (List.map_id t)
  show Char.ofNat (Json.asciiByte c).toNat = c
  rw [Json.asciiByte_toNat (h c hc), Char.ofNat_toNat]

theorem decodeAscii_asciiByte {t : Text} (h : Ascii t) : decodeAscii (t.map Json.asciiByte) = some t := by
  unfold decodeAscii
  rw [if_pos, latin1_asciiByte h]
  intro x hx
  obtain ⟨c, hc, rfl⟩ := List.mem_map.1 hx
  rw [Json.asciiByte_toNat (h c hc)]
  exact h c hc

/-- The codec and its fallback leave every ASCII name alone. -/
theorem hostName_ascii (hkeep : KeepsNames idna) (hrefuse : RefusesNames idna) {h : Text}
    (ha : Ascii h) : hostName idna h = some h := by
  unfold hostName
  by_cases hg : GoodLabels h
  · rw [hkeep h ha hg, Option.bind_some, decodeAscii_asciiByte ha]
  · rw [hrefuse h ha hg, Option.bind_none, if_pos ha]

theorem hostName_foreign {h name : Text} (ha : ¬ Ascii h) (hx : hostName idna h = some name) :
    (idna h).bind decodeAscii = some name := by
  unfold hostName at hx
  split at hx
  · rename_i n hn
    cases hx
    exact hn
  · rw [if_neg ha] at hx
    cases hx

/-! ## Fixed points -/

/-- **A text that the codec does not have to spell is a fixed point exactly if it is in its final
spelling.** -/
theorem canonical_iff (hkeep : KeepsNames idna) (hrefuse : RefusesNames idna) {h : Text}
    (hf : ¬ Foreign tables h) : Canonical tables idna h ↔ Spelled tables h := by
  constructor
  · intro hc
    obtain ⟨hraw, -⟩ := canonicalHost_some hc.fixed
    have hfix := hc.fixed
    rw [canonicalHost_eq (prepare_eq_self hc.lower hc.stripped hc.bare hc.undotted) hraw hraw hc.slash
      hc.space hc.backslash] at hfix
    refine ⟨hraw, hc.lower, hc.stripped, hc.bare, hc.undotted, hc.slash, hc.space, hc.backslash, ?_, ?_⟩
    · intro hcolon
      rw [if_pos hcolon] at hfix
      exact Option.map_eq_some_iff.1 hfix
    · intro hcolon hnum
      rw [if_neg hcolon, if_pos hnum] at hfix
      exact (dottedQuad_some hfix).2
  · intro hs
    refine ⟨?_, hs.lower, hs.stripped, hs.bare, hs.undotted, hs.slash, hs.space, hs.backslash⟩
    rw [canonicalHost_eq (prepare_eq_self hs.lower hs.stripped hs.bare hs.undotted) hs.nonempty
      hs.nonempty hs.slash hs.space hs.backslash]
    split
    · rename_i hcolon
      obtain ⟨a, ha, htext⟩ := hs.address hcolon
      rw [ha, Option.map_some, htext]
    · rename_i hcolon
      split
      · rename_i hnum
        obtain ⟨ip, hip⟩ := hs.quad hcolon hnum
        exact dottedQuad_of_parse4 hip
      · rename_i hnum
        have ha : Ascii h := by
          by_contra ha
          exact hf ⟨hcolon, hnum, ha⟩
        exact hostName_ascii hkeep hrefuse ha

/-! ## Addresses -/

theorem digitChar_plain {d : Nat} (h : d < 16) : isWhite d.digitChar = false ∧ d.digitChar ≠ '[' ∧
    d.digitChar ≠ ' ' ∧ d.digitChar ≠ '\\' ∧ d.digitChar.toNat < 128 ∧ d.digitChar.isUpper = false := by
  have hall : ∀ d : Fin 16, isWhite d.val.digitChar = false ∧ d.val.digitChar ≠ '[' ∧
      d.val.digitChar ≠ ' ' ∧ d.val.digitChar ≠ '\\' ∧ d.val.digitChar.toNat < 128 ∧
      d.val.digitChar.isUpper = false := by decide
  exact hall ⟨d, h⟩

/-- A character of the body of an IPv6 text. -/
theorem body_plain {c : Char} (h : c = ':' ∨ c = '.' ∨ IpAddress.isHexDigit c = true) :
    isWhite c = false ∧ c ≠ '[' := by
  have hrange : 46 ≤ c.toNat ∧ c.toNat ≤ 102 ∧ c.toNat ≠ 91 := by
    rcases h with rfl | rfl | h
    · decide
    · decide
    · simp only [IpAddress.isHexDigit, Char.isDigit, Bool.or_eq_true, Bool.and_eq_true,
        decide_eq_true_eq] at h
      have hle : ∀ a b : Char, a ≤ b ↔ a.toNat ≤ b.toNat := fun _ _ => Iff.rfl
      rcases h with (⟨h1, h2⟩ | h) | h
      · have h1 : 48 ≤ c.toNat := h1
        have h2 : c.toNat ≤ 57 := h2
        omega
      · have h1 : 97 ≤ c.toNat := h.1
        have h2 : c.toNat ≤ 102 := h.2
        omega
      · have h1 : 65 ≤ c.toNat := h.1
        have h2 : c.toNat ≤ 70 := h.2
        omega
  refine ⟨?_, ?_⟩
  · unfold isWhite
    simp only [Bool.or_eq_false_iff, decide_eq_false_iff_not, List.mem_cons, List.not_mem_nil,
      or_false]
    omega
  · rintro rfl
    exact hrange.2.2 rfl

/-- White space around a text whose front is plain can only follow its end. -/
theorem strip_front {front rest : Text} (hne : front ≠ []) (hplain : ∀ c ∈ front, isWhite c = false) :
    strip (front ++ rest) = front ++ rest ↔ ∀ c, rest.getLast? = some c → isWhite c = false := by
  unfold strip
  rw [Trim.trim_eq_self_iff]
  constructor
  · rintro ⟨-, hlast⟩ c hc
    exact hlast c (by rw [List.getLast?_append, hc]; rfl)
  · intro hrest
    refine ⟨?_, ?_⟩
    · intro c hc
      rw [List.head?_append_of_ne_nil _ hne] at hc
      exact hplain c (List.mem_of_head? hc)
    · intro c hc
      rw [List.getLast?_append] at hc
      cases hr : rest.getLast? with
      | some d =>
        rw [hr] at hc
        cases hc
        exact hrest c hr
      | none =>
        rw [hr, Option.none_or] at hc
        exact hplain c (List.mem_of_getLast? hc)

theorem bare_front {front rest : Text} (hne : front ≠ []) (hplain : ∀ c ∈ front, c ≠ '[') :
    ¬ Enclosed (front ++ rest) := by
  rintro ⟨hhead, -⟩
  rw [List.head?_append_of_ne_nil _ hne] at hhead
  exact hplain _ (List.mem_of_head? hhead) rfl

theorem parse_of_colon {t : Text} {a : Address} (hcolon : ':' ∈ t) (ha : IpAddress.parse t = some a) :
    ∃ ip scope, a = .v6 ip scope := by
  unfold IpAddress.parse at ha
  rw [IpAddress.parse4_of_colon hcolon] at ha
  simp only at ha
  split at ha
  · cases ha
  split at ha
  · cases ha
  · obtain ⟨ip, -, rfl⟩ := Option.map_eq_some_iff.1 ha
    exact ⟨ip, _, rfl⟩

theorem text_v6 (ip : BitVec 128) (scope : Option IpAddress.Scope) : (Address.v6 ip scope).text =
    IpAddress.text6 ip ++ (scope.elim [] fun s => '%' :: s.1) := by
  cases scope with
  | none => exact (List.append_nil _).symm
  | some s => rfl

/-- **The text of an address that was read from a prepared text is in its final spelling exactly if
no white space follows its scope.** -/
theorem address_spelled {raw : Text} {a : Address} (hcolon : ':' ∈ prepare tables raw)
    (hslash : '/' ∉ prepare tables raw) (hspace : ' ' ∉ prepare tables raw)
    (hback : '\\' ∉ prepare tables raw) (ha : IpAddress.parse (prepare tables raw) = some a) :
    ':' ∈ a.text ∧ (Spelled tables a.text ↔
      strip (prepare tables raw) = prepare tables raw ∧ ¬ Enclosed (prepare tables raw)) := by
  obtain ⟨ip, scope, rfl⟩ := parse_of_colon hcolon ha
  obtain ⟨body, hbody, hp⟩ := IpAddress.parse_v6 ha
  have hlowered : ∀ c ∈ prepare tables raw, tables.lowered c = true := fun c => lowered_prepare
  have hundot : (prepare tables raw).getLast? ≠ some '.' := undotted_prepare raw
  have htext := text_v6 ip scope
  have hparse := IpAddress.parse_text (.v6 ip scope)
  rw [htext] at hparse ⊢
  generalize prepare tables raw = p at *
  generalize (scope.elim [] fun s => '%' :: s.1) = rest at *
  subst hp
  have hne : body ≠ [] := by
    rintro rfl
    rw [IpAddress.parse6_nil] at hbody
    cases hbody
  have hne' : IpAddress.text6 ip ≠ [] := List.ne_nil_of_mem (IpAddress.colon_mem_text6 ip)
  have hplain : ∀ c ∈ body, isWhite c = false ∧ c ≠ '[' :=
    fun c hc => body_plain (IpAddress.parse6_chars hbody hc)
  have hplain' : ∀ c ∈ IpAddress.text6 ip, isWhite c = false ∧ c ≠ '[' := by
    intro c hc
    rcases IpAddress.mem_text6 hc with rfl | ⟨d, hd, rfl⟩
    · exact body_plain (Or.inl rfl)
    · exact body_plain (Or.inr (Or.inr (IpAddress.digitChar_hex hd).1))
  have hfree : ∀ c ∈ IpAddress.text6 ip, c ≠ '.' ∧ c ≠ '/' ∧ c ≠ ' ' ∧ c ≠ '\\' ∧
      tables.lowered c = true := by
    intro c hc
    rcases IpAddress.mem_text6 hc with rfl | ⟨d, hd, rfl⟩
    · refine ⟨by decide, by decide, by decide, by decide, ?_⟩
      rw [tables.lowered_ascii _ (by decide)]
      rfl
    · obtain ⟨-, -, hsp, hbs, hlt, hup⟩ := digitChar_plain hd
      obtain ⟨-, -, hdot, -, hsl⟩ := IpAddress.digitChar_hex hd
      refine ⟨hdot, hsl, hsp, hbs, ?_⟩
      rw [tables.lowered_ascii _ hlt, hup]
      rfl
  have hiff : strip (body ++ rest) = body ++ rest ↔ ∀ c, rest.getLast? = some c → isWhite c = false :=
    strip_front hne fun c hc => (hplain c hc).1
  have hiff' : strip (IpAddress.text6 ip ++ rest) = IpAddress.text6 ip ++ rest ↔
      ∀ c, rest.getLast? = some c → isWhite c = false := strip_front hne' fun c hc => (hplain' c hc).1
  refine ⟨List.mem_append_left _ (IpAddress.colon_mem_text6 ip), ?_⟩
  constructor
  · intro hs
    exact ⟨hiff.2 (hiff'.1 hs.stripped), bare_front hne fun c hc => (hplain c hc).2⟩
  · rintro ⟨hstrip, -⟩
    have hrest : ∀ c ∈ rest, c ∈ body ++ rest := fun c hc => List.mem_append_right _ hc
    refine
      { nonempty := List.append_ne_nil_of_left_ne_nil hne' _
        lower := tables.lower_of_lowered ?_
        stripped := hiff'.2 (hiff.1 hstrip)
        bare := bare_front hne' fun c hc => (hplain' c hc).2
        undotted := ?_
        slash := ?_
        space := ?_
        backslash := ?_
        address := fun _ => ⟨_, hparse, htext⟩
        quad := fun h => absurd (List.mem_append_left _ (IpAddress.colon_mem_text6 ip)) h }
    · intro c hc
      rcases List.mem_append.1 hc with hc | hc
      · exact (hfree c hc).2.2.2.2
      · exact hlowered c (hrest c hc)
    · intro hlast
      rw [List.getLast?_append] at hlast hundot
      cases hr : rest.getLast? with
      | some d =>
        rw [hr] at hlast hundot
        exact hundot hlast
      | none =>
        rw [hr, Option.none_or] at hlast
        exact (hfree _ (List.mem_of_getLast? hlast)).1 rfl
    · intro hc
      rcases List.mem_append.1 hc with hc | hc
      · exact (hfree _ hc).2.1 rfl
      · exact hslash (hrest _ hc)
    · intro hc
      rcases List.mem_append.1 hc with hc | hc
      · exact (hfree _ hc).2.2.1 rfl
      · exact hspace (hrest _ hc)
    · intro hc
      rcases List.mem_append.1 hc with hc | hc
      · exact (hfree _ hc).2.2.2.1 rfl
      · exact hback (hrest _ hc)

/-! ## The condition -/

/-- A prepared name or dotted quad is in its final spelling exactly if nothing is left around it. -/
theorem prepared_spelled {raw : Text} (hne : prepare tables raw ≠ []) (hslash : '/' ∉ prepare tables raw)
    (hspace : ' ' ∉ prepare tables raw) (hback : '\\' ∉ prepare tables raw)
    (hcolon : ':' ∉ prepare tables raw)
    (hquad : Numeric tables (prepare tables raw) → ∃ ip, IpAddress.parse4 (prepare tables raw) = some ip) :
    Spelled tables (prepare tables raw) ↔
      strip (prepare tables raw) = prepare tables raw ∧ ¬ Enclosed (prepare tables raw) := by
  constructor
  · intro hs
    exact ⟨hs.stripped, hs.bare⟩
  · rintro ⟨hstrip, hbare⟩
    exact
      { nonempty := hne
        lower := tables.lower_of_lowered fun c => lowered_prepare
        stripped := hstrip
        bare := hbare
        undotted := undotted_prepare raw
        slash := hslash
        space := hspace
        backslash := hback
        address := fun h => absurd h hcolon
        quad := fun _ => hquad }

/-! ## What one pass uncovers -/

/-- What `prepare` looks at, and the full stops that it drops. -/
theorem inside_prepare (raw : Text) : ∃ t dots, Inside (tables.lower (strip raw)) t ∧
    t = prepare tables raw ++ dots ∧ ∀ d ∈ dots, d = '.' := by
  unfold prepare
  simp only
  generalize tables.lower (strip raw) = s
  refine ⟨if Enclosed s then s.tail.dropLast else s, _, ?_,
    (List.rdropWhile_append_rtakeWhile (p := fun c => decide (c = '.'))).symm, fun d hd => ?_⟩
  · unfold Inside
    split
    · rename_i hs
      obtain ⟨u, rfl⟩ := List.head?_eq_some_iff.1 hs.1
      cases u with
      | nil => exact absurd hs.2 (by decide)
      | cons c u =>
        have hlast : (c :: u).getLast (List.cons_ne_nil c u) = ']' := by
          have h := hs.2
          rw [List.getLast?_cons_cons, List.getLast?_eq_some_getLast (List.cons_ne_nil c u)] at h
          exact Option.some.inj h
        rw [List.tail_cons, ← hlast, List.dropLast_append_getLast]
    · rfl
  · simpa using List.mem_rtakeWhile_imp hd

theorem Inside.unique {s t u : Text} (ht : Inside s t) (hu : Inside s u) : t = u := by
  unfold Inside at ht hu
  split at ht
  · rw [if_pos (by assumption), ht] at hu
    exact List.append_cancel_right (List.cons.inj hu).2
  · rw [if_neg (by assumption)] at hu
    rw [ht, hu]

theorem mem_prepare {raw : Text} {c : Char} (hc : c ≠ '[' ∧ c ≠ ']' ∧ c ≠ '.') :
    c ∈ prepare tables raw ↔ c ∈ tables.lower (strip raw) := by
  obtain ⟨t, dots, ht, hsplit, hdots⟩ := @inside_prepare tables raw
  have hmem : c ∈ prepare tables raw ↔ c ∈ t := by
    rw [hsplit, List.mem_append, or_iff_left]
    exact fun h => hc.2.2 (hdots c h)
  unfold Inside at ht
  split at ht
  · rw [hmem, ht]
    simp [hc.1, hc.2.1]
  · rw [hmem, ht]

theorem ascii_prepare (raw : Text) :
    Ascii (prepare tables raw) ↔ Ascii (tables.lower (strip raw)) := by
  constructor
  · intro h c hc
    by_cases hsign : c ≠ '[' ∧ c ≠ ']' ∧ c ≠ '.'
    · exact h c ((mem_prepare hsign).2 hc)
    · have hsign : c = '[' ∨ c = ']' ∨ c = '.' := by tauto
      rcases hsign with rfl | rfl | rfl <;> decide
  · exact fun h c hc => h c (mem_unbracket (Trim.mem_of_mem_rdropWhile hc))

/-- Full stops after a text that does not end in one are what `rstrip` drops. -/
theorem prepare_unique {p q dots dots' : Text} (h : p ++ dots = q ++ dots') (hp : p.getLast? ≠ some '.')
    (hq : q.getLast? ≠ some '.') (hdots : ∀ d ∈ dots, d = '.') (hdots' : ∀ d ∈ dots', d = '.') :
    p = q := by
  have hdrop : ∀ {r ds : Text}, r.getLast? ≠ some '.' → (∀ d ∈ ds, d = '.') → rstripDots (r ++ ds) = r := by
    intro r ds hr hds
    have hrev : (r ++ ds).reverse.dropWhile (fun c => decide (c = '.')) = r.reverse := by
      rw [List.reverse_append, List.dropWhile_append_of_pos (by simpa using hds), ← List.reverse_inj,
        List.reverse_reverse]
      exact Trim.rdropWhile_eq_self fun c hc => by
        rw [decide_eq_false_iff_not]
        rintro rfl
        exact hr hc
    rw [rstripDots, List.rdropWhile, hrev, List.reverse_reverse]
  rw [← hdrop hp hdots, h, hdrop hq hdots']

/-- **One pass leaves white space or brackets around a text exactly if the text hides them.** -/
theorem not_hidden_iff {raw : Text} (hne : prepare tables raw ≠ []) :
    ¬ Hidden (tables.lower (strip raw)) ↔
      strip (prepare tables raw) = prepare tables raw ∧ ¬ Enclosed (prepare tables raw) := by
  obtain ⟨t, dots, ht, hsplit, hdots⟩ := @inside_prepare tables raw
  have hundot := @undotted_prepare tables raw
  generalize prepare tables raw = p at *
  unfold strip
  rw [Trim.trim_eq_self_iff]
  constructor
  · intro hh
    refine ⟨⟨fun c hc => ?_, fun c hc => ?_⟩, fun hp => hh ?_⟩
    · by_contra hw
      obtain ⟨rest, rfl⟩ := List.head?_eq_some_iff.1 hc
      exact hh (.front (hsplit ▸ ht) (by simpa using hw))
    · by_contra hw
      obtain ⟨rest, rfl⟩ := List.getLast?_eq_some_iff.1 hc
      rw [List.append_assoc] at hsplit
      exact hh (.back (hsplit ▸ ht) (by simpa using hw) hdots)
    · obtain ⟨rest, rfl⟩ := List.head?_eq_some_iff.1 hp.1
      obtain ⟨mid, hmid⟩ := List.getLast?_eq_some_iff.1 hp.2
      cases mid with
      | nil => cases hmid
      | cons c mid =>
        obtain ⟨-, rfl⟩ := List.cons.inj hmid
        have hshape : t = '[' :: (mid ++ ']' :: dots) := by
          rw [hsplit, List.cons_append, List.append_eq, List.append_assoc, List.singleton_append]
        exact .brackets (hshape ▸ ht) hdots
  · rintro ⟨⟨hfront, hback⟩, hbare⟩ hh
    cases hh with
    | brackets hin hds =>
      rename_i mid ds
      have heq : p ++ dots = ('[' :: (mid ++ [']'])) ++ ds := by
        rw [← hsplit, ht.unique hin]
        simp
      have hp := prepare_unique heq hundot (by simp [List.getLast?_cons]) hdots hds
      exact hbare (by rw [hp]; exact ⟨rfl, by simp [List.getLast?_cons]⟩)
    | front hin hw =>
      rename_i w rest
      have hhead : (p ++ dots).head? = some w := by rw [← hsplit, ht.unique hin]; rfl
      rw [List.head?_append_of_ne_nil _ hne] at hhead
      rw [hfront w hhead] at hw
      cases hw
    | back hin hw hds =>
      rename_i w rest ds
      have heq : p ++ dots = (rest ++ [w]) ++ ds := by
        rw [← hsplit, ht.unique hin]
        simp
      have hdot : w ≠ '.' := by
        rintro rfl
        cases hw
      have hp := prepare_unique heq hundot (by simpa using hdot) hdots hds
      rw [hback w (by rw [hp]; simp)] at hw
      cases hw

/-! ## What the codec writes -/

/-- A name in its final spelling comes from labels in which nothing is unfit. -/
theorem Spelled.fit {codec : IdnaTables} {t name : Text} (hs : Spelled tables name)
    (h : spell codec t = some name) : ¬ Unfit codec t := by
  have hascii := spell_ascii h
  have hstrip := Trim.trim_eq_self_iff.1 hs.stripped
  intro hu
  by_cases hstop : (labelsOf t).getLast? = some []
  · exact hs.undotted (spell_stop h hstop)
  obtain ⟨rs, hsp⟩ := spell_some h hstop
  cases hu with
  | stop hend => exact hstop hend
  | @sign label l c hlabel hl hc hbad =>
    obtain ⟨hown, hdot⟩ := own_of_sign hbad
    have hmem : c ∈ name := (hsp.mem hown hdot).2 ⟨label, hlabel, l, hl, hc⟩
    rcases hbad with hup | rfl | rfl | rfl
    · rw [← hs.lower] at hmem
      have hlow := tables.lowered_of_mem hmem
      rw [tables.lowered_ascii c hown.1, hup] at hlow
      cases hlow
    · exact hs.slash hmem
    · exact hs.space hmem
    · exact hs.backslash hmem
  | @front label l c hlabel hl hla hc hw =>
    have hx : c ≠ 'x' := by
      rintro rfl
      cases hw
    rw [hstrip.1 c ((hsp.head hx).2 ⟨label, l, hlabel, hl, hla, hc⟩)] at hw
    cases hw
  | @back label l c hlabel hl hla hc hw =>
    rcases hw with hw | rfl
    · have hown := own_of_isWhite hw (hla c (List.mem_of_getLast? hc))
      rw [hstrip.2 c ((hsp.last hown).2 ⟨label, l, hlabel, hl, hla, hc⟩)] at hw
      cases hw
    · exact hs.undotted ((hsp.last (by decide)).2 ⟨label, l, hlabel, hl, hla, hc⟩)
  | brackets hfirst hlast hl hm hla hma hopen hclose =>
    exact hs.bare ⟨(hsp.head (by decide)).2 ⟨_, _, hfirst, hl, hla, hopen⟩,
      (hsp.last (by decide)).2 ⟨_, _, hlast, hm, hma, hclose⟩⟩
  | colon hlabel hl hc hname htext =>
    cases h.symm.trans hname
    obtain ⟨a, -, ha⟩ := hs.address ((hsp.mem (by decide) (by decide)).2 ⟨_, hlabel, _, hl, hc⟩)
    exact htext a ha
  | @digits ls hls hdigits htext =>
    have hname := hsp.eq_of_digits hls hdigits
    have hchars : ∀ c ∈ name, c.isDigit = true ∨ c = '.' := by
      intro c hc
      rw [hname] at hc
      rcases IpAddress.mem_intercalate hc with rfl | ⟨l, hl, hm⟩
      · exact Or.inr rfl
      · exact hdigits l hl c hm
    have hcolon : ':' ∉ name := fun hc => absurd (hchars _ hc) (by decide)
    obtain ⟨ip, hip⟩ := hs.quad hcolon fun c hc => by
      rw [tables.isDigit_ascii c (hascii c hc)]
      exact hchars c hc
    exact htext ip (by rw [← hname]; exact IpAddress.text4_parse4 hip)

/-- Labels in which nothing is unfit make a name in its final spelling. -/
theorem spelled_of_fit {codec : IdnaTables} {t name : Text} (h : spell codec t = some name)
    (hn : ¬ Unfit codec t) : Spelled tables name := by
  have hascii := spell_ascii h
  obtain ⟨rs, hsp⟩ := spell_some h fun hstop => hn (.stop hstop)
  have hfree : ∀ {c}, c.isUpper = true ∨ c = '/' ∨ c = ' ' ∨ c = '\\' → c ∉ name := by
    intro c hbad hmem
    obtain ⟨hown, hdot⟩ := own_of_sign hbad
    obtain ⟨label, hlabel, l, hl, hc⟩ := (hsp.mem hown hdot).1 hmem
    exact hn (.sign hlabel hl hc hbad)
  refine
    { nonempty := hsp.ne_nil
      lower := tables.lower_of_lowered fun c hc => ?_
      stripped := Trim.trim_eq_self_iff.2 ⟨fun c hc => ?_, fun c hc => ?_⟩
      bare := fun hb => ?_
      undotted := fun hdot => ?_
      slash := hfree (by decide)
      space := hfree (by decide)
      backslash := hfree (by decide)
      address := fun hcolon => ?_
      quad := fun _ hnum => ?_ }
  · rw [tables.lowered_ascii c (hascii c hc)]
    by_contra hup
    exact hfree (Or.inl (by simpa using hup)) hc
  · by_contra hw
    rw [Bool.not_eq_false] at hw
    have hx : c ≠ 'x' := by
      rintro rfl
      cases hw
    obtain ⟨label, l, hlabel, hl, hla, hh⟩ := (hsp.head hx).1 hc
    exact hn (.front hlabel hl hla hh hw)
  · by_contra hw
    rw [Bool.not_eq_false] at hw
    have hown := own_of_isWhite hw (hascii c (List.mem_of_getLast? hc))
    obtain ⟨label, l, hlabel, hl, hla, hh⟩ := (hsp.last hown).1 hc
    exact hn (.back hlabel hl hla hh (Or.inl hw))
  · obtain ⟨first, l, hfirst, hl, hla, hopen⟩ := (hsp.head (by decide)).1 hb.1
    obtain ⟨last, m, hlast, hm, hma, hclose⟩ := (hsp.last (by decide)).1 hb.2
    exact hn (.brackets hfirst hlast hl hm hla hma hopen hclose)
  · obtain ⟨label, l, hlabel, hl, hla, hh⟩ := (hsp.last (by decide)).1 hdot
    exact hn (.back hlabel hl hla hh (Or.inr rfl))
  · obtain ⟨label, hlabel, l, hl, hc⟩ := (hsp.mem (by decide) (by decide)).1 hcolon
    by_contra htext
    refine hn (.colon hlabel hl hc h fun a ha => htext ⟨a, ?_, ha⟩)
    rw [← ha, IpAddress.parse_text]
  · obtain ⟨hrs, hchars⟩ := hsp.digits_of_name fun c hc => by
      have hd := hnum c hc
      rwa [tables.isDigit_ascii c (hascii c hc)] at hd
    by_contra htext
    refine hn (.digits hrs hchars fun ip hip => htext ⟨ip, ?_⟩)
    rw [hsp.name, ← hip, IpAddress.parse4_text4]

/-- **What the codec makes of a name is in its final spelling exactly if nothing in the labels is
unfit.** -/
theorem spelled_iff {codec : IdnaTables} {t name : Text} (h : spell codec t = some name) :
    Spelled tables name ↔ ¬ Unfit codec t :=
  ⟨fun hs => hs.fit h, spelled_of_fit h⟩

/-- The name that the codec answers is the one that it spells. -/
theorem spell_of_idna {codec : IdnaTables} (hspells : SpellsNames codec idna) {t name : Text}
    (ha : ¬ Ascii t) (h : (idna t).bind decodeAscii = some name) : spell codec t = some name := by
  rw [hspells t ha] at h
  cases hs : spell codec t with
  | none => rw [hs] at h; cases h
  | some spelled =>
    rw [hs, Option.map_some, Option.bind_some, decodeAscii_asciiByte (spell_ascii hs)] at h
    exact h

theorem onePass_plain {codec : IdnaTables} {raw : Text} (hne : prepare tables raw ≠ [])
    (hplain : ':' ∈ tables.lower (strip raw) ∨ Ascii (tables.lower (strip raw))) :
    OnePass tables codec raw ↔
      strip (prepare tables raw) = prepare tables raw ∧ ¬ Enclosed (prepare tables raw) := by
  rw [← not_hidden_iff hne]
  refine ⟨fun h => h.plain hplain, fun h => ⟨fun _ => h, fun hcolon ha => ?_⟩⟩
  exact absurd hplain (not_or_intro hcolon ha)

/-- **When `canonical_host` is a retraction.** What it returns comes back unchanged, in its final
spelling, exactly if one pass over the input is enough. -/
theorem canonical_host_iff {codec : IdnaTables} (hkeep : KeepsNames idna) (hrefuse : RefusesNames idna)
    (hspells : SpellsNames codec idna) {raw h : Text} (hx : canonicalHost tables idna raw = some h) :
    Canonical tables idna h ↔ OnePass tables codec raw := by
  obtain ⟨hraw, hne, hslash, hspace, hback⟩ := canonicalHost_some hx
  rw [canonicalHost_eq rfl hraw hne hslash hspace hback] at hx
  split at hx
  · rename_i hcolon
    obtain ⟨a, ha, rfl⟩ := Option.map_eq_some_iff.1 hx
    obtain ⟨hcolon', hspelled⟩ := address_spelled hcolon hslash hspace hback ha
    rw [canonical_iff hkeep hrefuse fun hf => hf.1 hcolon', hspelled,
      onePass_plain hne (Or.inl ((mem_prepare (by decide)).1 hcolon))]
  rename_i hcolon
  split at hx
  · rename_i hnum
    obtain ⟨rfl, ip, hip⟩ := dottedQuad_some hx
    have hascii : Ascii (prepare tables raw) := fun c hc =>
      (IpAddress.parse4_chars hip hc).elim (fun h => by rw [h]; decide) isDigit_bound
    rw [canonical_iff hkeep hrefuse fun hf => hf.2.1 hnum,
      onePass_plain hne (Or.inr ((ascii_prepare raw).1 hascii)),
      prepared_spelled hne hslash hspace hback hcolon fun _ => ⟨ip, hip⟩]
  rename_i hnum
  by_cases ha : Ascii (prepare tables raw)
  · rw [hostName_ascii hkeep hrefuse ha] at hx
    cases hx
    rw [canonical_iff hkeep hrefuse fun hf => hf.2.2 ha,
      onePass_plain hne (Or.inr ((ascii_prepare raw).1 ha)),
      prepared_spelled hne hslash hspace hback hcolon fun h => absurd h hnum]
  · have hname := spell_of_idna hspells ha (hostName_foreign ha hx)
    have hcolon' : ':' ∉ tables.lower (strip raw) := fun h => hcolon ((mem_prepare (by decide)).2 h)
    have ha' : ¬ Ascii (tables.lower (strip raw)) := fun h => ha ((ascii_prepare raw).2 h)
    rw [canonical_iff hkeep hrefuse fun hf => hf.2.2 (spell_ascii hname), spelled_iff hname]
    exact ⟨fun hu => ⟨fun hplain => absurd hplain (not_or_intro hcolon' ha'), fun _ _ => hu⟩,
      fun hone => hone.foreign hcolon' ha'⟩

/-! ## A character database and a codec for ASCII -/

theorem isLower_eq (c : Char) : c.isLower = (decide (c.val ≥ 'a'.val) && decide (c.val ≤ 'z'.val)) := rfl

theorem isAlpha_eq (c : Char) : c.isAlpha = (c.isUpper || c.isLower) := rfl

theorem isUpper_toLower (c : Char) : c.toLower.isUpper = false := by
  unfold Char.toLower
  split
  · rename_i h
    have h1 : 65 ≤ c.val.toNat := h.1
    have h2 : c.val.toNat ≤ 90 := h.2
    simp only [isUpper_eq, decide_eq_false_iff_not]
    rintro ⟨-, hle⟩
    rw [UInt32.le_iff_toNat_le, UInt32.toNat_add] at hle
    have hle : (c.val.toNat + 32) % 2 ^ 32 ≤ 90 := hle
    omega
  · rename_i h
    simpa [isUpper_eq] using h

theorem toLower_of_lowered {c : Char} (h : c.isUpper = false) : c.toLower = c := by
  unfold Char.toLower
  rw [dif_neg]
  simpa [isUpper_eq] using h

theorem isAlpha_toLower {c : Char} (h : c.isUpper = true) : c.toLower.isAlpha = true := by
  simp only [isUpper_eq, decide_eq_true_eq] at h
  have h1 : 65 ≤ c.val.toNat := h.1
  have h2 : c.val.toNat ≤ 90 := h.2
  have hlow : c.toLower.isLower = true := by
    unfold Char.toLower
    rw [dif_pos h]
    simp only [isLower_eq, Bool.and_eq_true, decide_eq_true_eq, ge_iff_le,
      UInt32.le_iff_toNat_le, UInt32.toNat_add]
    show 97 ≤ (c.val.toNat + 32) % 2 ^ 32 ∧ (c.val.toNat + 32) % 2 ^ 32 ≤ 122
    omega
  rw [isAlpha_eq, hlow, Bool.or_true]

/-- The character database, on ASCII texts. -/
def asciiTables : CharTables where
  lower t := t.map Char.toLower
  lowered c := !c.isUpper
  isDigit := Char.isDigit
  lower_ascii _ _ := rfl
  lowered_of_mem := by
    intro t c h
    obtain ⟨d, -, rfl⟩ := List.mem_map.1 h
    rw [isUpper_toLower]
    rfl
  lower_of_lowered := by
    intro t h
    refine (List.map_congr_left fun c hc => ?_).trans (List.map_id t)
    exact toLower_of_lowered (by simpa using h c hc)
  lower_ne_nil := fun h => by simpa using h
  lower_cons := by
    intro c t _ halpha
    have hup : c.isUpper = false := by
      simp only [isAlpha_eq, Bool.or_eq_false_iff] at halpha
      exact halpha.1
    rw [List.map_cons, toLower_of_lowered hup]
  of_lower_cons := by
    intro c t l _ halpha h
    cases t with
    | nil => cases h
    | cons d u =>
      obtain ⟨hd, -⟩ := List.cons.inj h
      have hup : d.isUpper = false := by
        by_contra hup
        rw [Bool.not_eq_false] at hup
        rw [← hd, isAlpha_toLower hup] at halpha
        cases halpha
      rw [toLower_of_lowered hup] at hd
      exact ⟨u, by rw [hd]⟩
  lowered_ascii _ _ := rfl
  isDigit_ascii _ _ := rfl

/-- The codec, on ASCII names. -/
def asciiIdna (t : Text) : Option Bytes :=
  if Ascii t ∧ GoodLabels t then some (t.map Json.asciiByte) else none

theorem asciiIdna_keeps : KeepsNames asciiIdna := fun _ ha hg => if_pos ⟨ha, hg⟩

theorem asciiIdna_refuses : RefusesNames asciiIdna := fun _ _ hg => if_neg fun h => hg h.2

/-- A host in two pairs of brackets loses one of them. -/
theorem brackets_not_canonical :
    canonicalHost asciiTables asciiIdna "[[host]]".toList = some "[host]".toList ∧
      canonicalHost asciiTables asciiIdna "[host]".toList = some "host".toList ∧
      ¬ ∀ raw h, canonicalHost asciiTables asciiIdna raw = some h →
        Canonical asciiTables asciiIdna h := by
  have hx : canonicalHost asciiTables asciiIdna "[[host]]".toList = some "[host]".toList := by
    decide +kernel
  refine ⟨hx, by decide +kernel, fun h => ?_⟩
  exact (h _ _ hx).bare (by decide)

/-- A codec that spells its labels as the tables say. -/
def labelIdna (codec : IdnaTables) (t : Text) : Option Bytes :=
  if Ascii t then asciiIdna t else (spell codec t).map fun name => name.map Json.asciiByte

theorem labelIdna_keeps (codec : IdnaTables) : KeepsNames (labelIdna codec) := by
  intro t ha hg
  rw [labelIdna, if_pos ha, asciiIdna_keeps t ha hg]

theorem labelIdna_refuses (codec : IdnaTables) : RefusesNames (labelIdna codec) := by
  intro t ha hg
  rw [labelIdna, if_pos ha, asciiIdna_refuses t ha hg]

theorem labelIdna_spells (codec : IdnaTables) : SpellsNames codec (labelIdna codec) :=
  fun _ ha => if_neg ha

/-- The codec for the label `é` and no other one that is not ASCII. -/
def acuteCodec : IdnaTables where
  nameprep t := if t = ['é'] then some t else none
  deltas _ := "9ca".toList
  deltas_digit := by
    have hall : ∀ c ∈ "9ca".toList, c ∈ punycodeDigits := by decide
    intro _ c hc
    exact hall c hc
  deltas_ne_nil _ := by decide

theorem acute_fit : ¬ Unfit acuteCodec ['é'] := by
  have hlabels : labelsOf ['é'] = [['é']] := by decide
  have hready : ∀ {label l}, label ∈ labelsOf ['é'] → ready acuteCodec label = some l → l = ['é'] := by
    intro label l hlabel hl
    rw [hlabels, List.mem_singleton] at hlabel
    rw [hlabel] at hl
    exact (Option.some.inj hl).symm
  have hforeign : ¬ Ascii ['é'] := by decide
  intro hu
  cases hu with
  | stop hend => exact absurd hend (by decide)
  | sign hlabel hl hc hbad =>
    rw [hready hlabel hl, List.mem_singleton] at hc
    rw [hc] at hbad
    exact absurd hbad (by decide)
  | front hlabel hl hla => exact hforeign (hready (List.mem_of_head? hlabel) hl ▸ hla)
  | back hlabel hl hla => exact hforeign (hready (List.mem_of_getLast? hlabel) hl ▸ hla)
  | brackets hfirst _ hl _ hla => exact hforeign (hready (List.mem_of_head? hfirst) hl ▸ hla)
  | colon hlabel hl hc =>
    rw [hready hlabel hl] at hc
    exact absurd hc (by decide)
  | digits hls hdigits =>
    rw [hlabels] at hls
    cases hls
    exact absurd (hdigits _ List.mem_cons_self _ List.mem_cons_self) (by decide)

theorem canonical_host_iff_demo :
    (canonicalHost asciiTables (labelIdna acuteCodec) "[2001:DB8:0::1]".toList =
        some "2001:db8::1".toList ∧
      Canonical asciiTables (labelIdna acuteCodec) "2001:db8::1".toList) ∧
    canonicalHost asciiTables (labelIdna acuteCodec) "é".toList = some "xn--9ca".toList ∧
      Canonical asciiTables (labelIdna acuteCodec) "xn--9ca".toList := by
  have hx : canonicalHost asciiTables (labelIdna acuteCodec) "[2001:DB8:0::1]".toList =
      some "2001:db8::1".toList := by
    decide +kernel
  have hy : canonicalHost asciiTables (labelIdna acuteCodec) "é".toList = some "xn--9ca".toList := by
    decide +kernel
  refine ⟨⟨hx, (canonical_host_iff (labelIdna_keeps _) (labelIdna_refuses _) (labelIdna_spells _) hx).2 ?_⟩,
    hy, (canonical_host_iff (labelIdna_keeps _) (labelIdna_refuses _) (labelIdna_spells _) hy).2 ?_⟩
  · have hne : prepare asciiTables "[2001:DB8:0::1]".toList ≠ [] := by decide +kernel
    exact (onePass_plain hne (Or.inl (by decide +kernel))).2 (by decide +kernel)
  · exact ⟨fun hplain => absurd hplain (by decide +kernel), fun _ _ => acute_fit⟩

end StrixPEP
