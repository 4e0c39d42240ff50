import StrixPEP.Json.Roundtrip

/-!
# The bytes of a `json.dumps` text

`json.dumps` writes printable ASCII, so its bytes decode to its characters whatever encoding
`json.loads` guesses for other texts.

Principal result: `loads_dumps` — reading the bytes of a proper dict gives it back.
-/

namespace StrixPEP

namespace Json

theorem toList_loop (b : ByteArray) (i : Nat) (r : List UInt8) :
    ByteArray.toList.loop b i r = r.reverse ++ b.data.toList.drop i := by
  induction hn : b.size - i generalizing i r with
  | zero =>
    rw [ByteArray.toList.loop, if_neg (by omega), List.drop_eq_nil_of_le (by simp; omega),
      List.append_nil]
  | succ n ih =>
    have hi : i < b.data.toList.length := by simp; omega
    rw [ByteArray.toList.loop, if_pos (by omega), ih _ _ (by omega), List.reverse_cons,
      List.append_assoc, List.drop_eq_getElem_cons hi, List.singleton_append]
    congr 1
    rw [List.cons.injEq]
    refine ⟨?_, rfl⟩
    show b.data[i]! = _
    rw [getElem!_pos b.data i (by simpa using hi)]
    simp

theorem toUTF8_toList (s : String) :
    s.toUTF8.toList = s.toList.flatMap String.utf8EncodeChar := by
  obtain ⟨l, rfl⟩ : ∃ l, s = String.ofList l := ⟨s.toList, String.ofList_toList.symm⟩
  rw [ByteArray.toList, toList_loop, List.reverse_nil, List.nil_append, List.drop_zero,
    String.toUTF8_eq_toByteArray, String.toByteArray_ofList, String.toList_ofList, List.utf8Encode,
    List.toList_data_toByteArray]

theorem toUTF8_toList_injective {s t : String} (h : s.toUTF8.toList = t.toUTF8.toList) : s = t := by
  rw [ByteArray.toList, ByteArray.toList, toList_loop, toList_loop] at h
  simp only [List.reverse_nil, List.nil_append, List.drop_zero] at h
  exact String.toByteArray_inj.1 (ByteArray.ext (Array.toList_inj.1 h))

/-- Printable ASCII characters. -/
def Printable (s : List Char) : Prop := ∀ c ∈ s, 32 ≤ c.toNat ∧ c.toNat < 127

theorem Printable.append {s t : List Char} (hs : Printable s) (ht : Printable t) :
    Printable (s ++ t) := by
  intro c hc
  rcases List.mem_append.1 hc with hc | hc
  · exact hs c hc
  · exact ht c hc

theorem Printable.cons {c : Char} {s : List Char} (hc : 32 ≤ c.toNat ∧ c.toNat < 127)
    (hs : Printable s) : Printable (c :: s) := by
  intro d hd
  rcases List.mem_cons.1 hd with rfl | hd
  · exact hc
  · exact hs d hd

theorem Printable.intercalate {xs : List (List Char)} (h : ∀ x ∈ xs, Printable x) :
    Printable ([','].intercalate xs) := by
  induction xs with
  | nil => exact fun c hc => by cases hc
  | cons x xs ih =>
    have hx := h x List.mem_cons_self
    cases xs with
    | nil =>
      rw [List.intercalate_singleton]
      exact hx
    | cons y ys =>
      rw [List.intercalate_cons_cons]
      refine (hx.append ?_).append (ih fun z hz => h z (List.mem_cons_of_mem _ hz))
      exact Printable.cons (by decide) fun c hc => by cases hc

/-- The byte of an ASCII character. -/
def asciiByte (c : Char) : UInt8 := UInt8.ofNat c.toNat

theorem utf8EncodeChar_ascii {c : Char} (h : c.toNat < 128) :
    String.utf8EncodeChar c = [asciiByte c] := by
  have hsize : c.utf8Size = 1 := by
    rw [Char.utf8Size_eq_one_iff, UInt32.le_iff_toNat_le]
    exact Nat.le_of_lt_succ h
  rw [String.utf8EncodeChar_eq_singleton hsize]
  rfl

theorem toUTF8_ascii {s : String} (h : Printable s.toList) :
    s.toUTF8.toList = s.toList.map asciiByte := by
  rw [toUTF8_toList]
  generalize s.toList = cs at h
  induction cs with
  | nil => rfl
  | cons c cs ih =>
    have hc := h c List.mem_cons_self
    rw [List.flatMap_cons, utf8EncodeChar_ascii (by omega),
      ih fun d hd => h d (List.mem_cons_of_mem _ hd), List.map_cons, List.singleton_append]

theorem asciiByte_toNat {c : Char} (h : c.toNat < 128) : (asciiByte c).toNat = c.toNat :=
  UInt8.toNat_ofNat_of_lt' (Nat.lt_trans h (by decide))

theorem utf8_map_asciiByte {s : List Char} (h : Printable s) :
    utf8 (s.map asciiByte) = some (s.map Char.toNat) := by
  induction s with
  | nil => rfl
  | cons c s ih =>
    have hc := h c List.mem_cons_self
    have hb := asciiByte_toNat (c := c) (by omega)
    have hlt : asciiByte c < 0x80 := by
      rw [UInt8.lt_iff_toNat_lt, hb]
      show c.toNat < 128
      omega
    rw [List.map_cons, List.map_cons, utf8.eq_def]
    simp only
    rw [if_pos hlt, ih fun d hd => h d (List.mem_cons_of_mem _ hd), hb]
    rfl

theorem detectEncoding_printable {s : List Char} (h : Printable s) :
    detectEncoding (s.map asciiByte) = (.utf8, 0) := by
  have hbyte : ∀ {c : Char}, 32 ≤ c.toNat ∧ c.toNat < 127 → 0 < asciiByte c ∧ asciiByte c < 128 := by
    intro c hc
    have hb := asciiByte_toNat (c := c) (by omega)
    rw [UInt8.lt_iff_toNat_lt, UInt8.lt_iff_toNat_lt, hb]
    show 0 < c.toNat ∧ c.toNat < 128
    omega
  match s, h with
  | [], _ => rfl
  | [c], _ => simp [detectEncoding, List.isPrefixOf]
  | c :: d :: s, h =>
    exact detectEncoding_ascii (s.map asciiByte) (hbyte (h c List.mem_cons_self))
      (hbyte (h d (List.mem_cons_of_mem _ List.mem_cons_self)))

/-- The bytes of printable characters decode to the text. -/
theorem decode_printable {s : List Char} (h : Printable s) : decode (s.map asciiByte) = some s := by
  refine decode_eq_some.2 ⟨s.map Char.toNat, ?_, ?_⟩
  · rw [detectEncoding_printable h]
    exact utf8_map_asciiByte h
  · rw [List.map_map]
    have hid : codeChar ∘ Char.toNat = id := by
      funext c
      exact codeChar_eq c
    rw [hid, List.map_id]

theorem loads_printable {R : Reader} {s : List Char} (h : Printable s) :
    loads R (s.map asciiByte) = loadsText R s := by
  unfold loads
  rw [decode_printable h]

theorem escapeChar_printable (c : Char) : Printable (escapeChar c) := by
  have hhex : ∀ n, Printable (hex4 n) := by
    intro n d hd
    unfold hex4 at hd
    have hdig : ∀ k, 32 ≤ (Sha256.hexDigit (k % 16)).toNat ∧ (Sha256.hexDigit (k % 16)).toNat < 127 := by
      intro k
      have := Sha256.isHex_hexDigit (n := k % 16) (Nat.mod_lt _ (by decide))
      unfold Sha256.IsHex at this
      omega
    simp only [List.mem_cons, List.not_mem_nil, or_false] at hd
    rcases hd with rfl | rfl | rfl | rfl
    · exact hdig _
    · exact hdig _
    · exact hdig _
    · exact hdig _
  have hu : Printable ['\\', 'u'] := by
    intro d hd
    simp only [List.mem_cons, List.not_mem_nil, or_false] at hd
    rcases hd with rfl | rfl <;> decide
  have hpair : ∀ d : Char, 32 ≤ d.toNat ∧ d.toNat < 127 → Printable ['\\', d] := by
    intro d hd
    exact Printable.cons (by decide) (Printable.cons hd fun e he => by cases he)
  unfold escapeChar
  simp only
  split
  · exact hpair _ (by decide)
  split
  · exact hpair _ (by decide)
  split
  · exact hpair _ (by decide)
  split
  · exact hpair _ (by decide)
  split
  · exact hpair _ (by decide)
  split
  · exact hpair _ (by decide)
  split
  · exact hpair _ (by decide)
  split
  · rename_i hn
    exact Printable.cons (by omega) fun e he => by cases he
  split
  · exact hu.append (hhex _)
  · exact ((hu.append (hhex _)).append hu).append (hhex _)

theorem quote_printable (s : String) : Printable (quote s).toList := by
  rw [← List.append_nil (quote s).toList, quote_toList]
  refine Printable.cons (by decide) (Printable.append ?_ (Printable.cons (by decide) fun e he => by cases he))
  intro c hc
  obtain ⟨d, -, hd⟩ := List.mem_flatMap.1 hc
  exact escapeChar_printable d c hd

theorem toString_printable (n : Int) : Printable (toString n).toList := by
  have hdigits : ∀ m, Printable (Nat.toDigits 10 m) := by
    intro m c hc
    have hd : c.isDigit = true := Nat.isDigit_of_mem_toDigits (by decide) (by decide) hc
    unfold Char.isDigit at hd
    rw [Bool.and_eq_true, decide_eq_true_eq, decide_eq_true_eq] at hd
    have h1 : 48 ≤ c.toNat := hd.1
    have h2 : c.toNat ≤ 57 := hd.2
    omega
  cases n with
  | ofNat m =>
    show Printable (Nat.repr m).toList
    rw [Nat.toList_repr]
    exact hdigits m
  | negSucc m =>
    show Printable ("-" ++ Nat.repr (m + 1)).toList
    rw [String.toList_append, Nat.toList_repr]
    exact Printable.append (Printable.cons (by decide) fun e he => by cases he) (hdigits _)

theorem dumps_printable {R : Reader} {d : Nat} {v : Json} (hp : Proper R v) (hd : nesting v ≤ d) :
    Printable (dumps v).toList := by
  have hword : ∀ {e : List Char × Json}, e ∈ words → Printable e.1 := by
    intro e he
    simp only [words, List.mem_cons, List.not_mem_nil, or_false] at he
    unfold Printable
    rcases he with rfl | rfl | rfl | rfl | rfl | rfl <;> decide
  have hend : ∀ c : Char, 32 ≤ c.toNat ∧ c.toNat < 127 → Printable [c] := by
    intro c hc
    exact Printable.cons hc fun e he => by cases he
  induction d generalizing v with
  | zero =>
    cases v with
    | null => exact hword (e := ("null".toList, .null)) (by simp [words])
    | bool b =>
      cases b with
      | true => exact hword (e := ("true".toList, .bool true)) (by simp [words])
      | false => exact hword (e := ("false".toList, .bool false)) (by simp [words])
    | int n => exact toString_printable n
    | float r f =>
      rw [Proper] at hp
      intro c hc
      have := hp.2 c hc
      omega
    | str s => exact quote_printable s
    | arr xs => exact absurd hd (by simp [nesting])
    | obj kvs => exact absurd hd (by simp [nesting])
  | succ d ih =>
    cases v with
    | null => exact ih hp (Nat.zero_le _)
    | bool b => exact ih hp (Nat.zero_le _)
    | int n => exact ih hp (Nat.zero_le _)
    | float r f => exact ih hp (Nat.zero_le _)
    | str s => exact ih hp (Nat.zero_le _)
    | arr xs =>
      rw [Proper, properList_iff] at hp
      rw [nesting, Nat.add_le_add_iff_right, nestingList_le] at hd
      rw [dumps_arr]
      refine Printable.cons (by decide) (Printable.append ?_ (hend _ (by decide)))
      refine Printable.intercalate fun x hx => ?_
      obtain ⟨y, hy, rfl⟩ := List.mem_map.1 hx
      exact ih (hp y hy) (hd y hy)
    | obj kvs =>
      rw [Proper, properFields_iff] at hp
      rw [nesting, Nat.add_le_add_iff_right, nestingFields_le] at hd
      rw [dumps_obj]
      refine Printable.cons (by decide) (Printable.append ?_ (hend _ (by decide)))
      refine Printable.intercalate fun x hx => ?_
      obtain ⟨e, he, rfl⟩ := List.mem_map.1 hx
      have hmem := (sortEntries_perm kvs).mem_iff.1 he
      exact (quote_printable e.1).append (Printable.cons (by decide) (ih (hp.1 e hmem) (hd e hmem)))

/-- **Reading back the bytes of a dict.** -/
theorem loads_dumps {R : Reader} {kvs : List (String × Json)} (hp : Proper R (.obj kvs))
    (hd : nesting (.obj kvs) ≤ R.depth) :
    loads R (dumps (.obj kvs)).toUTF8.toList = .ok (canon (.obj kvs)) := by
  have hprint := dumps_printable hp hd
  rw [toUTF8_ascii hprint, loads_printable hprint]
  exact loadsText_dumps hp hd

/-- A line feed may follow the text. -/
theorem loads_dumps_feed {R : Reader} {kvs : List (String × Json)} (hp : Proper R (.obj kvs))
    (hd : nesting (.obj kvs) ≤ R.depth) :
    loads R ((dumps (.obj kvs)).toUTF8.toList ++ [10]) = .ok (canon (.obj kvs)) := by
  have hprint := dumps_printable hp hd
  have htext := loadsText_dumps hp hd
  have hdec := decode_append (decode_printable hprint) htext rfl [10]
  rw [detectEncoding_printable hprint] at hdec
  unfold loads
  rw [toUTF8_ascii hprint, hdec]
  show loadsText R ((dumps (.obj kvs)).toList ++ ['\n']) = _
  rw [loadsText_append _ htext rfl, if_pos (by decide)]

end Json

end StrixPEP
