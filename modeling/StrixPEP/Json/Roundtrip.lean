import StrixPEP.Json.Encoding
import StrixPEP.Audit.AuditLog

/-!
# Reading back what `json.dumps` wrote

* `Proper` — a Python value: dicts with distinct keys, floats given by a text that reads back as
  itself, integers short enough to be read, and no deeper nested than a reader goes;
* `canon` — the value with the keys of its dicts in order, as `sort_keys` writes them;
* `loadsText_dumps` — reading the text of a proper dict gives it back, up to the order of its keys;
* `dumps_injective` — the text determines the value.
-/

namespace StrixPEP

namespace Json

/-! ## Numbers -/

theorem takeWhile_delimited {p : Char → Bool} {t : List Char}
    (ht : ∀ c u, t = c :: u → p c = false) (s : List Char) :
    (s ++ t).takeWhile p = s.takeWhile p ∧ (s ++ t).dropWhile p = s.dropWhile p ++ t := by
  induction s with
  | nil =>
    cases t with
    | nil => exact ⟨rfl, rfl⟩
    | cons c u =>
      have hc := ht c u rfl
      simp [hc]
  | cons c s ih =>
    rw [List.cons_append, List.takeWhile_cons, List.takeWhile_cons, List.dropWhile_cons,
      List.dropWhile_cons]
    cases hc : p c with
    | false => simp
    | true => simp [ih.1, ih.2]

section

variable {t : List Char} (ht : Delimited t)

include ht

theorem digits_delimited (s : List Char) :
    (s ++ t).takeWhile Char.isDigit = s.takeWhile Char.isDigit ∧
      (s ++ t).dropWhile Char.isDigit = s.dropWhile Char.isDigit ++ t :=
  takeWhile_delimited (fun _ _ h => (ht.head h).1) s

theorem scanFrac_delimited (s : List Char) :
    scanFrac (s ++ t) = ((scanFrac s).1, (scanFrac s).2 ++ t) := by
  cases s with
  | nil =>
    obtain ⟨c, u, rfl, hc⟩ := id ht
    have hdot : c ≠ '.' := (ht.head rfl).2.1
    simp [scanFrac, hdot]
  | cons c s =>
    obtain ⟨h1, h2⟩ := digits_delimited ht s
    simp only [List.cons_append, scanFrac, h1, h2]
    split <;> rfl

theorem scanSign_delimited (s : List Char) :
    scanSign (s ++ t) = ((scanSign s).1, (scanSign s).2 ++ t) := by
  cases s with
  | nil =>
    obtain ⟨c, u, rfl, hc⟩ := ht
    have hsign : ¬ (c = '+' ∨ c = '-') := by
      rintro (rfl | rfl) <;> revert hc <;> decide
    simp [scanSign, hsign]
  | cons c s =>
    simp only [List.cons_append, scanSign]
    split <;> rfl

theorem scanExp_delimited (s : List Char) :
    scanExp (s ++ t) = ((scanExp s).1, (scanExp s).2 ++ t) := by
  cases s with
  | nil =>
    obtain ⟨c, u, rfl, hc⟩ := id ht
    have he := (ht.head rfl).2.2
    simp [scanExp, he.1, he.2]
  | cons c s =>
    obtain ⟨h1, h2⟩ := digits_delimited ht (scanSign s).2
    simp only [List.cons_append, scanExp, scanSign_delimited ht s, h1, h2]
    split <;> rfl

theorem scanInt_delimited {s ds r : List Char} (h : scanInt s = some (ds, r)) :
    scanInt (s ++ t) = some (ds, r ++ t) := by
  cases s with
  | nil => cases h
  | cons c s =>
    obtain ⟨h1, h2⟩ := digits_delimited ht s
    simp only [List.cons_append, scanInt, h1, h2] at h ⊢
    split at h
    · rename_i hc
      cases h
      rw [if_pos hc]
    split at h
    · rename_i hc hd
      cases h
      rw [if_neg hc, if_pos hd]
    · cases h

theorem unsigned_delimited {R : Reader} {negative : Bool} {s r : List Char} {v : Json}
    (h : unsigned R negative s = some (v, r)) :
    unsigned R negative (s ++ t) = some (v, r ++ t) := by
  unfold unsigned at h ⊢
  cases hi : scanInt s with
  | none => rw [hi] at h; cases h
  | some x =>
    obtain ⟨ds, u⟩ := x
    rw [hi] at h
    rw [scanInt_delimited ht hi]
    simp only [scanFrac_delimited ht u, scanExp_delimited ht (scanFrac u).2] at h ⊢
    split at h
    · rename_i hc
      rw [if_pos hc]
      split at h
      · rename_i hl
        cases h
        rw [if_pos hl]
      · cases h
    · rename_i hc
      cases h
      rw [if_neg hc]

theorem scalar_delimited {R : Reader} {s r : List Char} {v : Json} (h : scalar R s = .ok (v, r)) :
    scalar R (s ++ t) = .ok (v, r ++ t) := by
  unfold scalar at h ⊢
  cases hw : word s with
  | some x =>
    rw [hw] at h
    cases h
    obtain ⟨e, he, rfl, rfl⟩ := word_cases hw
    rw [List.append_assoc, word_append he]
  | none =>
    rw [hw] at h
    cases hn : number R s with
    | none => rw [hn] at h; cases h
    | some x =>
      rw [hn] at h
      cases h
      have hn' : number R (s ++ t) = some (v, r ++ t) := by
        cases s with
        | nil => cases hn
        | cons c s =>
          simp only [List.cons_append, number] at hn ⊢
          split at hn
          · rename_i hc
            rw [if_pos hc]
            exact unsigned_delimited ht hn
          · rename_i hc
            rw [if_neg hc]
            exact unsigned_delimited ht hn
      rw [word_of_number hn', hn']

end

/-- A character that a number or a word can begin with. -/
def isScalarHead (c : Char) : Bool :=
  c.isDigit || c = '-' || c = 'n' || c = 't' || c = 'f' || c = 'N' || c = 'I'

theorem scalar_head {R : Reader} {s : List Char} {x : Json × List Char} (h : scalar R s = .ok x) :
    ∃ c u, s = c :: u ∧ isScalarHead c = true := by
  unfold scalar at h
  cases hw : word s with
  | some y =>
    obtain ⟨v, r⟩ := y
    obtain ⟨e, he, rfl, -⟩ := word_cases hw
    simp only [words, List.mem_cons, List.not_mem_nil, or_false] at he
    rcases he with rfl | rfl | rfl | rfl | rfl | rfl <;> exact ⟨_, _, rfl, rfl⟩
  | none =>
    rw [hw] at h
    cases hn : number R s with
    | none => rw [hn] at h; cases h
    | some y =>
      cases s with
      | nil => cases hn
      | cons c s =>
        refine ⟨c, s, rfl, ?_⟩
        simp only [number] at hn
        split at hn
        · rename_i hc
          rw [hc]
          rfl
        · obtain ⟨d, u, hd, hdig⟩ := unsigned_head hn
          cases hd
          simp [isScalarHead, hdig]

/-! ## Integers -/

theorem toDigits_head {n : Nat} {ds : List Char} (h : Nat.toDigits 10 n = '0' :: ds) : n = 0 := by
  induction n using Nat.strong_induction_on generalizing ds with
  | _ n ih =>
    by_cases hn : n < 10
    · rw [Nat.toDigits_of_lt_base hn] at h
      have hd : n.digitChar = '0' := (List.cons.inj h).1
      interval_cases n <;> first | rfl | (revert hd; decide)
    · rw [Nat.toDigits_of_base_le (by decide) (by omega)] at h
      cases hq : Nat.toDigits 10 (n / 10) with
      | nil => exact absurd hq Nat.toDigits_ne_nil
      | cons c cs =>
        rw [hq, List.cons_append] at h
        rw [(List.cons.inj h).1] at hq
        have := ih (n / 10) (by omega) hq
        omega

theorem unsigned_toDigits (R : Reader) (negative : Bool) {n : Nat}
    (hn : (Nat.toDigits 10 n).length ≤ maxDigits) :
    unsigned R negative (Nat.toDigits 10 n) = some (.int (signed negative n), []) := by
  have hdig : ∀ c ∈ Nat.toDigits 10 n, c.isDigit = true := fun c hc =>
    Nat.isDigit_of_mem_toDigits (by decide) (by decide) hc
  have hint : scanInt (Nat.toDigits 10 n) = some (Nat.toDigits 10 n, []) := by
    cases hds : Nat.toDigits 10 n with
    | nil => exact absurd hds Nat.toDigits_ne_nil
    | cons c cs =>
      rw [hds] at hdig
      simp only [scanInt]
      split
      · rename_i hc
        rw [hc] at hds
        have h0 := toDigits_head hds
        rw [h0, Nat.toDigits_zero] at hds
        rw [hc, (List.cons.inj hds).2]
      · have hall : ∀ x ∈ cs, x.isDigit = true := fun x hx => hdig x (List.mem_cons_of_mem _ hx)
        rw [if_pos (hdig c List.mem_cons_self), List.takeWhile_eq_self_iff.2 hall,
          List.dropWhile_eq_nil_iff.2 hall]
  unfold unsigned
  rw [hint]
  simp only [scanFrac, scanExp]
  rw [if_pos ⟨trivial, trivial⟩, if_pos hn, Nat.ofDigitChars_ten_toDigits]

theorem scalar_toString (R : Reader) {n : Int}
    (hn : (Nat.toDigits 10 n.natAbs).length ≤ maxDigits) :
    scalar R (toString n).toList = .ok (.int n, []) := by
  have hnum : number R (toString n).toList = some (.int n, []) := by
    cases n with
    | ofNat m =>
      have htext : (toString (Int.ofNat m)).toList = Nat.toDigits 10 m := by
        show (Nat.repr m).toList = _
        exact Nat.toList_repr
      rw [htext]
      have hu := unsigned_toDigits R false (n := m) hn
      cases hds : Nat.toDigits 10 m with
      | nil => exact absurd hds Nat.toDigits_ne_nil
      | cons c cs =>
        have hc : c ≠ '-' := by
          rintro rfl
          have hmem : '-' ∈ Nat.toDigits 10 m := by
            rw [hds]
            exact List.mem_cons_self
          exact absurd (Nat.isDigit_of_mem_toDigits (by decide) (by decide) hmem) (by decide)
        rw [hds] at hu
        simp only [number]
        rw [if_neg hc, hu]
        rfl
    | negSucc m =>
      have htext : (toString (Int.negSucc m)).toList = '-' :: Nat.toDigits 10 (m + 1) := by
        show ("-" ++ Nat.repr (m + 1)).toList = _
        rw [String.toList_append, Nat.toList_repr]
        rfl
      rw [htext]
      simp only [number, if_true]
      rw [unsigned_toDigits R true (n := m + 1) hn]
      rfl
  unfold scalar
  rw [word_of_number hnum, hnum]

/-! ## Strings -/

theorem hexVal_hexDigit {k : Nat} (h : k < 16) : hexVal (Sha256.hexDigit k) = some k := by
  interval_cases k <;> decide

theorem hex4_value {n : Nat} (h : n < 65536) :
    16 * (16 * (16 * (16 * 0 + n / 4096 % 16) + n / 256 % 16) + n / 16 % 16) + n % 16 = n := by
  omega

theorem stringBody_hex4 {n : Nat} (h : n < 65536) (r : List Char) :
    stringBody (.hex 0 3) (hex4 n ++ r) =
      if isHigh n then stringBody (.high n) r else emit (codeChar n) (stringBody .plain r) := by
  have h1 := hexVal_hexDigit (k := n / 4096 % 16) (Nat.mod_lt _ (by decide))
  have h2 := hexVal_hexDigit (k := n / 256 % 16) (Nat.mod_lt _ (by decide))
  have h3 := hexVal_hexDigit (k := n / 16 % 16) (Nat.mod_lt _ (by decide))
  have h4 := hexVal_hexDigit (k := n % 16) (Nat.mod_lt _ (by decide))
  simp only [hex4, List.cons_append, List.nil_append, stringBody, h1, h2, h3, h4, hex4_value h]

theorem stringBody_highHex4 {k n : Nat} (h : n < 65536) (hl : isLow n = true) (r : List Char) :
    stringBody (.highHex k 0 3) (hex4 n ++ r) =
      emit (codeChar (joinPair k n)) (stringBody .plain r) := by
  have h1 := hexVal_hexDigit (k := n / 4096 % 16) (Nat.mod_lt _ (by decide))
  have h2 := hexVal_hexDigit (k := n / 256 % 16) (Nat.mod_lt _ (by decide))
  have h3 := hexVal_hexDigit (k := n / 16 % 16) (Nat.mod_lt _ (by decide))
  have h4 := hexVal_hexDigit (k := n % 16) (Nat.mod_lt _ (by decide))
  simp only [hex4, List.cons_append, List.nil_append, stringBody, h1, h2, h3, h4, hex4_value h, hl,
    if_true]

theorem codeChar_eq (c : Char) : codeChar c.toNat = c := by
  unfold codeChar
  rw [if_pos (show c.toNat.isValidChar from c.valid), Char.ofNat_toNat]

/-- The escape of a character reads as the character. -/
theorem stringBody_escapeChar (c : Char) (r : List Char) :
    stringBody .plain (escapeChar c ++ r) = emit c (stringBody .plain r) := by
  unfold escapeChar
  simp only
  split
  · rename_i hc
    rw [hc]
    rfl
  split
  · rename_i hc
    rw [hc]
    rfl
  split
  · rename_i hc
    rw [hc]
    rfl
  split
  · rename_i hc
    rw [hc]
    rfl
  split
  · rename_i hc
    rw [hc]
    rfl
  split
  · rename_i hc
    have : c = Char.ofNat 8 := by rw [← hc, Char.ofNat_toNat]
    rw [this]
    rfl
  split
  · rename_i hc
    have : c = Char.ofNat 12 := by rw [← hc, Char.ofNat_toNat]
    rw [this]
    rfl
  rename_i hq hb _ _ _ _ _
  split
  · rename_i hn
    rw [List.singleton_append]
    simp only [stringBody]
    rw [if_neg hq, if_neg hb, if_neg (by omega)]
  have hvalid : ¬ isHigh c.toNat = true := by
    have := c.valid
    unfold isHigh
    rw [decide_eq_true_eq]
    simp only [UInt32.isValidChar, Nat.isValidChar] at this
    show ¬ (0xD800 ≤ c.val.toNat ∧ c.val.toNat ≤ 0xDBFF)
    omega
  split
  · rename_i hn
    have : stringBody .plain (['\\', 'u'] ++ hex4 c.toNat ++ r) =
        stringBody (.hex 0 3) (hex4 c.toNat ++ r) := rfl
    rw [this, stringBody_hex4 hn, if_neg hvalid, codeChar_eq]
  · rename_i hn
    have hmax : c.toNat < 0x110000 := by
      have := c.valid
      simp only [UInt32.isValidChar, Nat.isValidChar] at this
      show c.val.toNat < 0x110000
      omega
    have hstart : ∀ a b : List Char,
        stringBody .plain (['\\', 'u'] ++ a ++ ['\\', 'u'] ++ b ++ r) =
          stringBody (.hex 0 3) (a ++ ('\\' :: 'u' :: (b ++ r))) := by
      intro a b
      simp [stringBody]
    rw [hstart, stringBody_hex4 (by omega), if_pos (by unfold isHigh; rw [decide_eq_true_eq]; omega)]
    have hsecond : ∀ (k : Nat) (b : List Char),
        stringBody (.high k) ('\\' :: 'u' :: b) = stringBody (.highHex k 0 3) b := fun _ _ => rfl
    rw [hsecond, stringBody_highHex4 (by omega) (by unfold isLow; rw [decide_eq_true_eq]; omega)]
    have hjoin : joinPair (0xD800 + (c.toNat - 65536) / 1024) (0xDC00 + (c.toNat - 65536) % 1024) =
        c.toNat := by
      unfold joinPair
      omega
    rw [hjoin, codeChar_eq]

theorem stringBody_quote (cs : List Char) (r : List Char) :
    stringBody .plain (cs.flatMap escapeChar ++ '"' :: r) = some (cs, r) := by
  induction cs with
  | nil => rfl
  | cons c cs ih =>
    rw [List.flatMap_cons, List.append_assoc, stringBody_escapeChar, ih]
    rfl

theorem quote_toList (s : String) (r : List Char) :
    (quote s).toList ++ r = '"' :: (s.toList.flatMap escapeChar ++ '"' :: r) := by
  simp [quote]

/-! ## Sequences -/

/-- A text reads as a value, whatever delimiter follows. -/
structure Reads {α : Type} (item : Parser α) (s : List Char) (v : α) : Prop where
  head : ∃ c u, s = c :: u ∧ isWhite c = false
  reads : ∀ t, Delimited t → item (s ++ t) = .ok (v, t)

theorem Reads.skip {α : Type} {item : Parser α} {s : List Char} {v : α} (h : Reads item s v)
    (t : List Char) : skip (s ++ t) = s ++ t := by
  obtain ⟨c, u, rfl, hc⟩ := h.head
  exact List.dropWhile_cons_of_neg (by simp [hc])

theorem skip_of_head {c : Char} (h : isWhite c = false) (t : List Char) :
    Json.skip (c :: t) = c :: t := List.dropWhile_cons_of_neg (by simp [h])

theorem sequence_join {α : Type} {item : Parser α} {close : Char} (hclose : close ∈ [']', '\x7d'])
    {xs : List (List Char × α)} (h : ∀ x ∈ xs, Reads item x.1 x.2) (hne : xs ≠ []) (t : List Char)
    {n : Nat} (hn : xs.length ≤ n) :
    sequence item close n ([','].intercalate (xs.map Prod.fst) ++ close :: t) =
      .ok (xs.map Prod.snd, t) := by
  have hwhite : isWhite close = false ∧ isDelimiter close = true ∧ close ≠ ',' := by
    simp only [List.mem_cons, List.not_mem_nil, or_false] at hclose
    rcases hclose with rfl | rfl <;> decide
  induction xs generalizing n with
  | nil => exact absurd rfl hne
  | cons x xs ih =>
    obtain ⟨n, rfl⟩ : ∃ k, n = k + 1 := ⟨n - 1, by simp at hn; omega⟩
    have hx := h x List.mem_cons_self
    cases xs with
    | nil =>
      simp only [List.map_cons, List.map_nil, List.intercalate_singleton, sequence]
      rw [hx.reads _ ⟨close, t, rfl, hwhite.2.1⟩]
      simp only [skip_of_head hwhite.1, if_true]
    | cons y ys =>
      have hy := h y (List.mem_cons_of_mem _ List.mem_cons_self)
      have hrec := ih (fun z hz => h z (List.mem_cons_of_mem _ hz)) (List.cons_ne_nil _ _)
        (n := n) (by simp only [List.length_cons] at hn ⊢; omega)
      simp only [List.map_cons, List.intercalate_cons_cons, sequence, List.append_assoc,
        List.cons_append] at hrec ⊢
      rw [hx.reads _ ⟨',', _, rfl, rfl⟩]
      simp only [skip_of_head (c := ',') rfl]
      rw [if_neg (fun e => hwhite.2.2 e.symm), if_pos trivial, List.nil_append]
      have hskip : Json.skip ([','].intercalate (y.1 :: List.map Prod.fst ys) ++ close :: t) =
          [','].intercalate (y.1 :: List.map Prod.fst ys) ++ close :: t := by
        obtain ⟨c, u, hcu, hc⟩ := hy.head
        rw [hcu]
        cases ys with
        | nil => exact skip_of_head hc _
        | cons z zs => exact skip_of_head hc _
      rw [hskip, hrec]

theorem length_le_intercalate {xs : List (List Char)} (h : ∀ x ∈ xs, x ≠ []) :
    xs.length ≤ ([','].intercalate xs).length := by
  induction xs with
  | nil => exact Nat.zero_le _
  | cons x xs ih =>
    have hx : 0 < x.length := List.length_pos_iff.2 (h x List.mem_cons_self)
    cases xs with
    | nil =>
      rw [List.intercalate_singleton]
      exact hx
    | cons y ys =>
      have := ih fun z hz => h z (List.mem_cons_of_mem _ hz)
      rw [List.intercalate_cons_cons]
      simp only [List.length_cons, List.length_append, List.length_nil] at this ⊢
      omega

/-- Texts between brackets. -/
theorem bracketed_join {α : Type} {item : Parser α} {close : Char} (hclose : close ∈ [']', '\x7d'])
    {xs : List (List Char × α)} (h : ∀ x ∈ xs, Reads item x.1 x.2)
    (hhead : ∀ x ∈ xs, x.1.head? ≠ some close) (t : List Char) :
    bracketed item close ([','].intercalate (xs.map Prod.fst) ++ close :: t) =
      .ok (xs.map Prod.snd, t) := by
  have hwhite : isWhite close = false := by
    simp only [List.mem_cons, List.not_mem_nil, or_false] at hclose
    rcases hclose with rfl | rfl <;> decide
  cases xs with
  | nil =>
    simp only [List.map_nil, List.intercalate_nil, List.nil_append, bracketed,
      skip_of_head hwhite, if_true]
  | cons x xs =>
    obtain ⟨c, u, hcu, hc⟩ := (h x List.mem_cons_self).head
    have hne : c ≠ close := by
      intro he
      refine hhead x List.mem_cons_self ?_
      rw [hcu, he]
      rfl
    have htext : ∃ w, [','].intercalate ((x :: xs).map Prod.fst) ++ close :: t = c :: w := by
      rw [List.map_cons, hcu]
      cases xs with
      | nil => exact ⟨_, rfl⟩
      | cons y ys => exact ⟨_, rfl⟩
    have hlen : (x :: xs).length ≤ ([','].intercalate ((x :: xs).map Prod.fst) ++ close :: t).length := by
      have := @length_le_intercalate ((x :: xs).map Prod.fst) (by
        intro y hy
        obtain ⟨z, hz, rfl⟩ := List.mem_map.1 hy
        obtain ⟨d, v, hd, -⟩ := (h z hz).head
        rw [hd]
        exact List.cons_ne_nil _ _)
      rw [List.length_map] at this
      rw [List.length_append]
      omega
    have hseq := sequence_join hclose h (List.cons_ne_nil _ _) t hlen
    obtain ⟨w, hw⟩ := htext
    rw [hw] at hseq ⊢
    simp only [bracketed, skip_of_head hc]
    rw [if_neg hne]
    exact hseq

/-! ## Values -/

mutual

/-- A Python value that can be written and read back. -/
def Proper (R : Reader) : Json → Prop
  | .null | .bool _ | .str _ => True
  | .int n => (Nat.toDigits 10 n.natAbs).length ≤ maxDigits
  | .float r f => scalar R r.toList = .ok (.float r f, []) ∧
      ∀ c ∈ r.toList, 32 < c.toNat ∧ c.toNat < 127
  | .arr xs => ProperList R xs
  | .obj kvs => ProperFields R kvs ∧ (kvs.map Prod.fst).Nodup

def ProperList (R : Reader) : List Json → Prop
  | [] => True
  | x :: xs => Proper R x ∧ ProperList R xs

def ProperFields (R : Reader) : List (String × Json) → Prop
  | [] => True
  | e :: kvs => Proper R e.2 ∧ ProperFields R kvs

end

mutual

/-- How deep lists and dicts are nested. -/
def nesting : Json → Nat
  | .arr xs => nestingList xs + 1
  | .obj kvs => nestingFields kvs + 1
  | .null | .bool _ | .int _ | .float _ _ | .str _ => 0

def nestingList : List Json → Nat
  | [] => 0
  | x :: xs => max (nesting x) (nestingList xs)

def nestingFields : List (String × Json) → Nat
  | [] => 0
  | e :: kvs => max (nesting e.2) (nestingFields kvs)

end

/-- Entries in the order of their keys. -/
def sortEntries (kvs : List (String × Json)) : List (String × Json) :=
  kvs.mergeSort fun e f => decide (e.1 ≤ f.1)

mutual

/-- The value with the keys of its dicts in order. -/
def canon : Json → Json
  | .arr xs => .arr (canonList xs)
  | .obj kvs => .obj (sortEntries (canonFields kvs))
  | .null => .null
  | .bool b => .bool b
  | .int n => .int n
  | .float r f => .float r f
  | .str s => .str s

def canonList : List Json → List Json
  | [] => []
  | x :: xs => canon x :: canonList xs

def canonFields : List (String × Json) → List (String × Json)
  | [] => []
  | e :: kvs => (e.1, canon e.2) :: canonFields kvs

end

theorem canonFields_eq (kvs : List (String × Json)) :
    canonFields kvs = kvs.map fun e => (e.1, canon e.2) := by
  induction kvs with
  | nil => rfl
  | cons e kvs ih => rw [canonFields, ih, List.map_cons]

theorem canonList_eq (xs : List Json) : canonList xs = xs.map canon := by
  induction xs with
  | nil => rfl
  | cons x xs ih => rw [canonList, ih, List.map_cons]

theorem dumpsFields_eq (kvs : List (String × Json)) :
    dumpsFields kvs = kvs.map fun e => (e.1, dumps e.2) := by
  induction kvs with
  | nil => rfl
  | cons e kvs ih =>
    obtain ⟨k, v⟩ := e
    rw [dumpsFields, ih, List.map_cons]

theorem dumpsList_eq (xs : List Json) : dumpsList xs = xs.map dumps := by
  induction xs with
  | nil => rfl
  | cons x xs ih => rw [dumpsList, ih, List.map_cons]

theorem properFields_iff {R : Reader} {kvs : List (String × Json)} :
    ProperFields R kvs ↔ ∀ e ∈ kvs, Proper R e.2 := by
  induction kvs with
  | nil => simp [ProperFields]
  | cons e kvs ih => simp [ProperFields, ih]

theorem properList_iff {R : Reader} {xs : List Json} :
    ProperList R xs ↔ ∀ x ∈ xs, Proper R x := by
  induction xs with
  | nil => simp [ProperList]
  | cons x xs ih => simp [ProperList, ih]

theorem nestingFields_le {kvs : List (String × Json)} {d : Nat} :
    nestingFields kvs ≤ d ↔ ∀ e ∈ kvs, nesting e.2 ≤ d := by
  induction kvs with
  | nil => simp [nestingFields]
  | cons e kvs ih => simp [nestingFields, ih]

theorem nestingList_le {xs : List Json} {d : Nat} :
    nestingList xs ≤ d ↔ ∀ x ∈ xs, nesting x ≤ d := by
  induction xs with
  | nil => simp [nestingList]
  | cons x xs ih => simp [nestingList, ih]

theorem sortEntries_perm (kvs : List (String × Json)) : (sortEntries kvs).Perm kvs :=
  List.mergeSort_perm _ _

/-- Sorting does not look at the values. -/
theorem sortEntries_map {β : Type} (f : String × Json → String × β) (hf : ∀ e, (f e).1 = e.1)
    (kvs : List (String × Json)) :
    (sortEntries kvs).map f = (kvs.map f).mergeSort fun e g => decide (e.1 ≤ g.1) := by
  refine List.map_mergeSort ?_
  intro a _ b _
  rw [hf, hf]

/-- The text of a dict, entry by entry. -/
theorem dumps_obj (kvs : List (String × Json)) :
    (dumps (.obj kvs)).toList =
      '\x7b' :: ([','].intercalate ((sortEntries kvs).map fun e =>
        (quote e.1).toList ++ ':' :: (dumps e.2).toList) ++ ['\x7d']) := by
  have hsort : sortFields (dumpsFields kvs) = (sortEntries kvs).map fun e => (e.1, dumps e.2) := by
    rw [dumpsFields_eq, sortEntries_map (fun e => (e.1, dumps e.2)) fun _ => rfl]
    rfl
  rw [dumps, hsort]
  simp [String.toList_append, String.toList_intercalate, Function.comp_def]

theorem dumps_arr (xs : List Json) :
    (dumps (.arr xs)).toList =
      '[' :: ([','].intercalate (xs.map fun x => (dumps x).toList) ++ [']']) := by
  rw [dumps, dumpsList_eq]
  simp [String.toList_append, String.toList_intercalate, Function.comp_def]

theorem ofPairs_eq {kvs : List (String × Json)} (h : (kvs.map Prod.fst).Nodup) :
    ofPairs kvs = .obj kvs := by
  have hfold : ∀ pre : List (String × Json), ((pre ++ kvs).map Prod.fst).Nodup →
      kvs.foldl (fun d e => Dict.set d e.1 e.2) pre = pre ++ kvs := by
    clear h
    induction kvs with
    | nil => intro pre _; simp
    | cons e kvs ih =>
      intro pre hpre
      have hmem : e.1 ∉ pre.map Prod.fst := by
        rw [List.map_append, List.map_cons] at hpre
        exact fun hm => (List.nodup_append.1 hpre).2.2 _ hm _ List.mem_cons_self rfl
      rw [List.foldl_cons, Dict.set_of_notMem _ hmem]
      have := ih (pre ++ [e]) (by simpa using hpre)
      simpa using this
  unfold ofPairs
  rw [hfold [] h, List.nil_append]

theorem scalar_toList_word {R : Reader} {e : List Char × Json} (he : e ∈ words) :
    scalar R e.1 = .ok (e.2, []) := by
  have := word_append he []
  rw [List.append_nil] at this
  unfold scalar
  rw [this]

/-- The text of a value that is no list, dict or string. -/
theorem scalar_dumps {R : Reader} {v : Json} (hp : Proper R v)
    (hv : match v with | .arr _ | .obj _ | .str _ => False | _ => True) :
    scalar R (dumps v).toList = .ok (canon v, []) := by
  cases v with
  | null => exact scalar_toList_word (e := ("null".toList, .null)) (by simp [words])
  | bool b =>
    cases b with
    | true => exact scalar_toList_word (e := ("true".toList, .bool true)) (by simp [words])
    | false => exact scalar_toList_word (e := ("false".toList, .bool false)) (by simp [words])
  | int n =>
    rw [dumps, canon]
    rw [Proper] at hp
    exact scalar_toString R hp
  | float r f =>
    rw [dumps, canon]
    rw [Proper] at hp
    exact hp.1
  | str s => exact hv.elim
  | arr xs => exact hv.elim
  | obj kvs => exact hv.elim

theorem isScalarHead_spec {c : Char} (h : isScalarHead c = true) :
    isWhite c = false ∧ c ≠ ']' ∧ c ≠ '\x7d' ∧ c ≠ '"' ∧ ¬ (c = '[' ∨ c = '\x7b') := by
  refine ⟨?_, ?_, ?_, ?_, ?_⟩
  · rw [← Bool.not_eq_true]
    intro hw
    unfold isWhite at hw
    simp only [Bool.or_eq_true, decide_eq_true_eq] at hw
    rcases hw with ((hw | hw) | hw) | hw <;> subst hw <;> revert h <;> decide
  · rintro rfl
    revert h
    decide
  · rintro rfl
    revert h
    decide
  · rintro rfl
    revert h
    decide
  · rintro (rfl | rfl) <;> revert h <;> decide

theorem dumps_head {R : Reader} {v : Json} (hp : Proper R v) :
    ∃ c u, (dumps v).toList = c :: u ∧ isWhite c = false ∧ c ≠ ']' ∧ c ≠ '\x7d' := by
  have hscalar : (match v with | .arr _ | .obj _ | .str _ => False | _ => True) →
      ∃ c u, (dumps v).toList = c :: u ∧ isWhite c = false ∧ c ≠ ']' ∧ c ≠ '\x7d' := by
    intro hv
    obtain ⟨c, u, hcu, hc⟩ := scalar_head (scalar_dumps hp hv)
    obtain ⟨h1, h2, h3, -, -⟩ := isScalarHead_spec hc
    exact ⟨c, u, hcu, h1, h2, h3⟩
  cases v with
  | null => exact hscalar trivial
  | bool b => exact hscalar trivial
  | int n => exact hscalar trivial
  | float r f => exact hscalar trivial
  | str s =>
    refine ⟨'"', s.toList.flatMap escapeChar ++ ['"'], ?_, by decide, by decide, by decide⟩
    rw [dumps, ← List.append_nil (quote s).toList, quote_toList]
  | arr xs => exact ⟨_, _, dumps_arr xs, by decide, by decide, by decide⟩
  | obj kvs => exact ⟨_, _, dumps_obj kvs, by decide, by decide, by decide⟩

/-- A parser reads back every proper value of a list. -/
theorem member_reads {p : Parser Json} {k : String} {s : List Char} {v : Json} (h : Reads p s v) :
    Reads (member p) ((quote k).toList ++ ':' :: s) (k, v) := by
  refine ⟨⟨'"', _, quote_toList k _, by decide⟩, ?_⟩
  intro t ht
  rw [List.append_assoc, quote_toList]
  have hcolon : skip (':' :: s ++ t) = ':' :: (s ++ t) := skip_of_head rfl _
  rw [member_eq (stringBody_quote _ _) hcolon, h.skip, h.reads t ht]
  simp [Except.map]

theorem reads_scalar {R : Reader} {inner : Char → Parser Json} {v : Json} (hp : Proper R v)
    (hv : match v with | .arr _ | .obj _ | .str _ => False | _ => True) :
    Reads (valueWith R inner) (dumps v).toList (canon v) := by
  have hs := scalar_dumps hp hv
  obtain ⟨c, u, hcu, hc⟩ := scalar_head hs
  obtain ⟨h1, -, -, h4, h5⟩ := isScalarHead_spec hc
  refine ⟨⟨c, u, hcu, h1⟩, ?_⟩
  intro t ht
  have hext := scalar_delimited ht hs
  rw [hcu, List.cons_append] at hext ⊢
  simp only [valueWith]
  rw [if_neg h4, if_neg h5, hext, List.nil_append]

theorem reads_str {R : Reader} {inner : Char → Parser Json} (s : String) :
    Reads (valueWith R inner) (dumps (.str s)).toList (.str s) := by
  rw [dumps]
  refine ⟨⟨'"', s.toList.flatMap escapeChar ++ ['"'], ?_, by decide⟩, ?_⟩
  · rw [← List.append_nil (quote s).toList, quote_toList]
  · intro t _
    rw [quote_toList]
    simp only [valueWith, if_true, stringBody_quote, String.ofList_toList]

theorem canon_nodup {kvs : List (String × Json)} (h : (kvs.map Prod.fst).Nodup) :
    ((sortEntries (canonFields kvs)).map Prod.fst).Nodup := by
  have hkeys : (canonFields kvs).map Prod.fst = kvs.map Prod.fst := by
    rw [canonFields_eq, List.map_map]
    rfl
  exact (((sortEntries_perm _).map Prod.fst).nodup_iff).2 (hkeys ▸ h)

/-- Reading back a dict, whatever follows. -/
theorem value_obj {R : Reader} {d : Nat} {kvs : List (String × Json)}
    (h : ∀ e ∈ kvs, Reads (value R d) (dumps e.2).toList (canon e.2))
    (hnodup : (kvs.map Prod.fst).Nodup) (t : List Char) :
    value R (d + 1) ((dumps (.obj kvs)).toList ++ t) = .ok (canon (.obj kvs), t) := by
  have hmem : ∀ e ∈ sortEntries kvs, e ∈ kvs := fun e he => (sortEntries_perm kvs).mem_iff.1 he
  let f : String × Json → List Char × (String × Json) := fun e =>
    ((quote e.1).toList ++ ':' :: (dumps e.2).toList, (e.1, canon e.2))
  have hread : ∀ x ∈ (sortEntries kvs).map f, Reads (member (value R d)) x.1 x.2 := by
    intro x hx
    obtain ⟨e, he, rfl⟩ := List.mem_map.1 hx
    exact member_reads (h e (hmem e he))
  have hhead : ∀ x ∈ (sortEntries kvs).map f, x.1.head? ≠ some '\x7d' := by
    intro x hx
    obtain ⟨e, -, rfl⟩ := List.mem_map.1 hx
    simp only [f, quote_toList, List.head?_cons]
    decide
  have hjoin := bracketed_join (show '\x7d' ∈ [']', '\x7d'] by decide) hread hhead t
  have hcanon : (sortEntries kvs).map (fun e => (e.1, canon e.2)) =
      sortEntries (canonFields kvs) := by
    rw [sortEntries_map (fun e => (e.1, canon e.2)) fun _ => rfl, canonFields_eq]
    rfl
  rw [List.map_map, List.map_map] at hjoin
  rw [dumps_obj, List.cons_append, List.append_assoc]
  simp only [value, valueWith, container, Function.comp_def, f] at hjoin ⊢
  rw [if_neg (by decide), if_pos (Or.inr trivial), if_neg (by decide)]
  rw [show ['\x7d'] ++ t = '\x7d' :: t from rfl, hjoin, hcanon]
  simp only
  rw [ofPairs_eq (canon_nodup hnodup), canon]

/-- **Reading back a value.** -/
theorem value_dumps {R : Reader} {d : Nat} {v : Json} (hp : Proper R v) (hd : nesting v ≤ d) :
    Reads (value R d) (dumps v).toList (canon v) := by
  induction d generalizing v with
  | zero =>
    cases v with
    | null => exact reads_scalar hp trivial
    | bool b => exact reads_scalar hp trivial
    | int n => exact reads_scalar hp trivial
    | float r f => exact reads_scalar hp trivial
    | str s => exact reads_str s
    | arr xs => exact absurd hd (by simp [nesting])
    | obj kvs => exact absurd hd (by simp [nesting])
  | succ d ih =>
    cases v with
    | null => exact reads_scalar hp trivial
    | bool b => exact reads_scalar hp trivial
    | int n => exact reads_scalar hp trivial
    | float r f => exact reads_scalar hp trivial
    | str s => exact reads_str s
    | arr xs =>
      rw [Proper, properList_iff] at hp
      rw [nesting, Nat.add_le_add_iff_right, nestingList_le] at hd
      refine ⟨⟨'[', _, dumps_arr xs, by decide⟩, ?_⟩
      intro t _
      have hread : ∀ x ∈ xs.map fun x => ((dumps x).toList, canon x), Reads (value R d) x.1 x.2 := by
        intro x hx
        obtain ⟨y, hy, rfl⟩ := List.mem_map.1 hx
        exact ih (hp y hy) (hd y hy)
      have hhead : ∀ x ∈ xs.map fun x => ((dumps x).toList, canon x), x.1.head? ≠ some ']' := by
        intro x hx
        obtain ⟨y, hy, rfl⟩ := List.mem_map.1 hx
        obtain ⟨c, u, hcu, -, hc, -⟩ := dumps_head (hp y hy)
        simp only [hcu, List.head?_cons]
        exact fun he => hc (Option.some.inj he)
      have hjoin := bracketed_join (show ']' ∈ [']', '\x7d'] by decide) hread hhead t
      rw [List.map_map, List.map_map] at hjoin
      rw [dumps_arr, List.cons_append, List.append_assoc]
      simp only [value, valueWith, container, Function.comp_def] at hjoin ⊢
      rw [if_neg (by decide), if_pos (Or.inl trivial), if_pos trivial]
      rw [show [']'] ++ t = ']' :: t from rfl, hjoin, canon, canonList_eq]
    | obj kvs =>
      rw [Proper, properFields_iff] at hp
      rw [nesting, Nat.add_le_add_iff_right, nestingFields_le] at hd
      refine ⟨⟨'\x7b', _, dumps_obj kvs, by decide⟩, fun t _ => ?_⟩
      exact value_obj (fun e he => ih (hp.1 e he) (hd e he)) hp.2 t

/-- **Reading back the text of a dict.** -/
theorem loadsText_dumps {R : Reader} {kvs : List (String × Json)} (hp : Proper R (.obj kvs))
    (hd : nesting (.obj kvs) ≤ R.depth) :
    loadsText R (dumps (.obj kvs)).toList = .ok (canon (.obj kvs)) := by
  rw [Proper, properFields_iff] at hp
  obtain ⟨d, hR⟩ : ∃ d, R.depth = d + 1 := ⟨R.depth - 1, by rw [nesting] at hd; omega⟩
  rw [nesting, hR, Nat.add_le_add_iff_right, nestingFields_le] at hd
  have hval := value_obj (fun e he => value_dumps (hp.1 e he) (hd e he)) hp.2 []
  rw [List.append_nil] at hval
  have hskip : skip (dumps (.obj kvs)).toList = (dumps (.obj kvs)).toList := by
    rw [dumps_obj]
    exact skip_of_head (by decide) _
  unfold loadsText
  rw [hskip, hR, hval]
  rfl

/-! ## The order of the keys -/

theorem sortEntries_sorted (kvs : List (String × Json)) :
    (sortEntries kvs).Pairwise fun e f => e.1 ≤ f.1 := by
  refine (List.pairwise_mergeSort ?_ ?_ kvs).imp of_decide_eq_true
  · intro a b c hab hbc
    exact decide_eq_true (String.le_trans (of_decide_eq_true hab) (of_decide_eq_true hbc))
  · intro a b
    rw [Bool.or_eq_true, decide_eq_true_eq, decide_eq_true_eq]
    exact String.le_total _ _

/-- Sorting forgets the order that dicts had. -/
theorem sortEntries_eq_of_perm {kvs kvs' : List (String × Json)} (hn : (kvs.map Prod.fst).Nodup)
    (h : kvs.Perm kvs') : sortEntries kvs = sortEntries kvs' := by
  have hperm : (sortEntries kvs).Perm (sortEntries kvs') :=
    ((sortEntries_perm kvs).trans h).trans (sortEntries_perm kvs').symm
  refine hperm.eq_of_pairwise ?_ (sortEntries_sorted kvs) (sortEntries_sorted kvs')
  intro a b ha hb hab hba
  have ha' : a ∈ kvs := (sortEntries_perm kvs).mem_iff.1 ha
  have hb' : b ∈ kvs := h.mem_iff.2 ((sortEntries_perm kvs').mem_iff.1 hb)
  exact List.inj_on_of_nodup_map hn ha' hb' (String.le_antisymm hab hba)

theorem dumps_perm {kvs kvs' : List (String × Json)} (hn : (kvs.map Prod.fst).Nodup)
    (h : kvs.Perm kvs') : dumps (.obj kvs) = dumps (.obj kvs') := by
  refine String.toList_injective ?_
  rw [dumps_obj, dumps_obj, sortEntries_eq_of_perm hn h]

/-- The canonical value has the same text. -/
theorem dumps_canon (v : Json) : dumps (canon v) = dumps v := by
  induction hd : nesting v using Nat.strong_induction_on generalizing v with
  | _ d ih =>
    cases v with
    | null => rfl
    | bool b => rfl
    | int n => rfl
    | float r f => rfl
    | str s => rfl
    | arr xs =>
      have hlt : ∀ x ∈ xs, nesting x < d := by
        intro x hx
        have := nestingList_le.1 (Nat.le_refl (nestingList xs)) x hx
        rw [nesting] at hd
        omega
      refine String.toList_injective ?_
      rw [canon, canonList_eq, dumps_arr, dumps_arr, List.map_map]
      congr 3
      refine List.map_congr_left fun x hx => ?_
      exact congrArg String.toList (ih _ (hlt x hx) x rfl)
    | obj kvs =>
      have hlt : ∀ e ∈ kvs, nesting e.2 < d := by
        intro e he
        have := nestingFields_le.1 (Nat.le_refl (nestingFields kvs)) e he
        rw [nesting] at hd
        omega
      have hsort : sortEntries (canonFields kvs) =
          (sortEntries kvs).map fun e => (e.1, canon e.2) := by
        rw [canonFields_eq, sortEntries_map (fun e => (e.1, canon e.2)) fun _ => rfl]
        rfl
      have hidem : sortEntries (sortEntries (canonFields kvs)) = sortEntries (canonFields kvs) :=
        List.mergeSort_of_pairwise ((sortEntries_sorted _).imp fun h => decide_eq_true h)
      refine String.toList_injective ?_
      rw [canon, dumps_obj, dumps_obj, hidem, hsort, List.map_map]
      congr 3
      refine List.map_congr_left fun e he => ?_
      have he' := (sortEntries_perm kvs).mem_iff.1 he
      show (quote e.1).toList ++ ':' :: (dumps (canon e.2)).toList = _
      rw [ih _ (hlt e he') e.2 rfl]

/-- **The text determines the value.** -/
theorem dumps_injective {R : Reader} {v w : Json} (hv : Proper R v) (hw : Proper R w)
    (h : dumps v = dumps w) : canon v = canon w := by
  have hdelim : Delimited [','] := ⟨',', [], rfl, rfl⟩
  have h1 := (value_dumps (d := max (nesting v) (nesting w)) hv (Nat.le_max_left _ _)).reads _ hdelim
  have h2 := (value_dumps (d := max (nesting v) (nesting w)) hw (Nat.le_max_right _ _)).reads _ hdelim
  rw [h, h2] at h1
  exact (congrArg Prod.fst (Except.ok.inj h1)).symm

end Json

end StrixPEP
