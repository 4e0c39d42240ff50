import StrixPEP.Json.Extend

/-!
# The bytes of a JSON text

* `decode_append` — the text of two byte strings, where the first is an object;
* `loads_append` — only white space may follow the bytes of an object;
* `brace_mem` — the bytes of an object hold an opening bracket.
-/

namespace StrixPEP

namespace Json

/-! ## What a parser leaves is the end of its text -/

theorem skip_suffix (s : List Char) : skip s <:+ s := List.dropWhile_suffix _

theorem stringBody_suffix {m : Mode} {s x r : List Char} (h : stringBody m s = some (x, r)) :
    r <:+ s := by
  induction s generalizing m x with
  | nil => cases m <;> cases h
  | cons c s ih =>
    have hcons : ∀ {m : Mode} {x : List Char}, stringBody m s = some (x, r) → r <:+ c :: s :=
      fun h => (ih h).trans (List.suffix_cons c s)
    have hemit : ∀ {d : Char} {m : Mode} {x : List Char},
        emit d (stringBody m s) = some (x, r) → r <:+ c :: s := by
      intro d m x hd
      obtain ⟨y, hy, -⟩ := emit_eq_some.1 hd
      exact hcons hy
    have hemit2 : ∀ {d e : Char} {x : List Char},
        emit d (emit e (stringBody .plain s)) = some (x, r) → r <:+ c :: s := by
      intro d e x hd
      obtain ⟨y, hy, -⟩ := emit_eq_some.1 hd
      exact hemit hy
    cases m with
    | plain =>
      simp only [stringBody] at h
      split at h
      · cases h
        exact List.suffix_cons c r
      split at h
      · exact hcons h
      split at h
      · cases h
      · exact hemit h
    | escape =>
      simp only [stringBody] at h
      split at h
      · exact hcons h
      split at h
      · exact hemit h
      · cases h
    | hex acc left =>
      simp only [stringBody] at h
      split at h
      · cases h
      cases left with
      | succ left => exact hcons h
      | zero =>
        simp only at h
        split at h
        · exact hcons h
        · exact hemit h
    | high n =>
      simp only [stringBody] at h
      split at h
      · cases h
        exact List.suffix_cons c r
      split at h
      · exact hcons h
      split at h
      · cases h
      · exact hemit2 h
    | highEscape n =>
      simp only [stringBody] at h
      split at h
      · exact hcons h
      split at h
      · exact hemit2 h
      · cases h
    | highHex n acc left =>
      simp only [stringBody] at h
      split at h
      · cases h
      cases left with
      | succ left => exact hcons h
      | zero =>
        simp only at h
        split at h
        · exact hemit h
        split at h
        · exact hemit h
        · exact hemit2 h

theorem unsigned_suffix {R : Reader} {negative : Bool} {s r : List Char} {v : Json}
    (h : unsigned R negative s = some (v, r)) : r <:+ s := by
  have hint : ∀ {s ds t : List Char}, scanInt s = some (ds, t) → t <:+ s := by
    intro s ds t hs
    cases s with
    | nil => cases hs
    | cons c s =>
      simp only [scanInt] at hs
      split at hs
      · cases hs
        exact List.suffix_cons _ _
      split at hs
      · cases hs
        exact (List.dropWhile_suffix _).trans (List.suffix_cons _ _)
      · cases hs
  have hfrac : ∀ s : List Char, (scanFrac s).2 <:+ s := by
    intro s
    unfold scanFrac
    split
    · exact List.suffix_rfl
    split
    · exact (List.dropWhile_suffix _).trans (List.suffix_cons _ _)
    · exact List.suffix_rfl
  have hsign : ∀ s : List Char, (scanSign s).2 <:+ s := by
    intro s
    unfold scanSign
    split
    · exact List.suffix_rfl
    split
    · exact List.suffix_cons _ _
    · exact List.suffix_rfl
  have hexp : ∀ s : List Char, (scanExp s).2 <:+ s := by
    intro s
    unfold scanExp
    split
    · exact List.suffix_rfl
    simp only
    split
    · exact ((List.dropWhile_suffix _).trans (hsign _)).trans (List.suffix_cons _ _)
    · exact List.suffix_rfl
  unfold unsigned at h
  split at h
  · cases h
  rename_i ds t hi
  have hr : (scanExp (scanFrac t).2).2 = r := by
    simp only at h
    split at h
    · split at h
      · exact congrArg Prod.snd (Option.some.inj h)
      · cases h
    · exact congrArg Prod.snd (Option.some.inj h)
  rw [← hr]
  exact ((hexp _).trans (hfrac t)).trans (hint hi)

theorem scalar_suffix {R : Reader} {s r : List Char} {v : Json} (h : scalar R s = .ok (v, r)) :
    r <:+ s := by
  unfold scalar at h
  split at h
  · rename_i x hw
    cases h
    obtain ⟨e, -, rfl, -⟩ := word_cases hw
    exact List.suffix_append _ _
  split at h
  · rename_i x hn
    cases h
    cases s with
    | nil => cases hn
    | cons c s =>
      simp only [number] at hn
      split at hn
      · exact (unsigned_suffix hn).trans (List.suffix_cons _ _)
      · exact unsigned_suffix hn
  · cases h

/-- What is left of the text is its end. -/
def Leaves {α : Type} (p : Parser α) : Prop := ∀ {s v r}, p s = .ok (v, r) → r <:+ s

theorem sequence_close {α : Type} {item : Parser α} (hi : Leaves item) {close : Char} {n : Nat}
    {s r : List Char} {vs : List α} (h : sequence item close n s = .ok (vs, r)) :
    close :: r <:+ s := by
  induction n generalizing s vs with
  | zero => cases h
  | succ n ih =>
    simp only [sequence] at h
    split at h
    · cases h
    rename_i v u hv
    have hu : u <:+ s := hi hv
    split at h
    · cases h
    rename_i c w hw
    have hw' : c :: w <:+ s := by
      rw [← hw]
      exact (skip_suffix u).trans hu
    split at h
    · rename_i hc
      cases h
      rwa [← hc]
    split at h
    · split at h
      · cases h
      rename_i vs' x hrec
      cases h
      exact (((ih hrec).trans (skip_suffix w)).trans (List.suffix_cons c w)).trans hw'
    · cases h

theorem bracketed_close {α : Type} {item : Parser α} (hi : Leaves item) {close : Char}
    {s r : List Char} {vs : List α} (h : bracketed item close s = .ok (vs, r)) :
    close :: r <:+ s := by
  unfold bracketed at h
  split at h
  · cases h
  rename_i c w hw
  have hs : c :: w <:+ s := by
    rw [← hw]
    exact skip_suffix s
  split at h
  · rename_i hc
    cases h
    rwa [← hc]
  · exact (sequence_close hi h).trans hs

theorem member_leaves {p : Parser Json} (hp : Leaves p) : Leaves (member p) := by
  intro s v r h
  unfold member at h
  split at h
  · cases h
  rename_i c s
  split at h
  · split at h
    · cases h
    rename_i key u hb
    split at h
    · cases h
    rename_i d w hw
    have hd : d :: w <:+ c :: s := by
      rw [← hw]
      exact ((skip_suffix u).trans (stringBody_suffix hb)).trans (List.suffix_cons c s)
    split at h
    · split at h
      · cases h
      rename_i x y hx
      cases h
      exact (((hp hx).trans (skip_suffix w)).trans (List.suffix_cons d w)).trans hd
    · cases h
  · cases h

/-- The end of a list or a dict is its bracket. -/
theorem container_close {p : Parser Json} (hp : Leaves p) {c : Char} {s r : List Char} {v : Json}
    (h : container p c s = .ok (v, r)) : ∃ close ∈ [']', '\x7d'], close :: r <:+ s := by
  unfold container at h
  split at h
  · split at h
    · cases h
    rename_i vs u hb
    cases h
    exact ⟨']', by decide, bracketed_close hp hb⟩
  · split at h
    · cases h
    rename_i kvs u hb
    cases h
    exact ⟨'\x7d', by decide, bracketed_close (member_leaves hp) hb⟩

theorem valueWith_leaves {R : Reader} {inner : Char → Parser Json} (hi : ∀ c, Leaves (inner c)) :
    Leaves (valueWith R inner) := by
  intro s v r h
  unfold valueWith at h
  split at h
  · cases h
  rename_i c t
  split at h
  · split at h
    · rename_i x u hb
      cases h
      exact (stringBody_suffix hb).trans (List.suffix_cons c t)
    · cases h
  split at h
  · exact (hi c h).trans (List.suffix_cons c t)
  · exact scalar_suffix h

theorem value_leaves (R : Reader) (d : Nat) : Leaves (value R d) := by
  induction d with
  | zero => exact valueWith_leaves fun _ _ _ _ h => by cases h
  | succ d ih =>
    refine valueWith_leaves fun c s v r h => ?_
    obtain ⟨close, -, hc⟩ := container_close ih h
    exact (List.suffix_cons close r).trans hc

/-- The last character of an object that is not white is its bracket. -/
theorem loadsText_last {R : Reader} {s : List Char} {v : Json} {c : Char}
    (h : loadsText R s = .ok v) (hv : v.isObj = true) (hc : s.getLast? = some c) :
    isDelimiter c = true := by
  obtain ⟨t, r, hs, hval, hr⟩ := loadsText_obj h hv
  have hclose : ∃ close ∈ [']', '\x7d'], close :: r <:+ t := by
    rw [hs] at hval
    cases hd : R.depth with
    | zero => rw [hd] at hval; cases hval
    | succ d =>
      rw [hd] at hval
      simp only [value, valueWith] at hval
      rw [if_neg (by decide), if_pos (Or.inr trivial)] at hval
      exact container_close (value_leaves R d) hval
  obtain ⟨close, hcl, u, hu⟩ := hclose
  have hlast : (close :: r).getLast? = some c := by
    obtain ⟨w, hw⟩ := skip_suffix s
    rw [hs, ← hu] at hw
    rw [← hw] at hc
    have hne : close :: r ≠ [] := List.cons_ne_nil _ _
    rwa [List.getLast?_append_of_ne_nil _ (List.cons_ne_nil _ _),
      List.getLast?_cons_of_ne_nil (List.append_ne_nil_of_right_ne_nil _ hne),
      List.getLast?_append_of_ne_nil _ hne] at hc
  have hmem : c ∈ close :: r := List.mem_of_getLast? hlast
  rcases List.mem_cons.1 hmem with rfl | hmem
  · simp only [List.mem_cons, List.not_mem_nil, or_false] at hcl
    rcases hcl with rfl | rfl <;> rfl
  · unfold isDelimiter
    rw [skip_eq_nil_iff.1 hr c hmem]
    rfl

/-! ## Decoders -/

theorem push_eq_some {n : Nat} {o : Option (List Nat)} {ns : List Nat} :
    push n o = some ns ↔ ∃ ms, o = some ms ∧ ns = n :: ms := by
  unfold push
  rw [Option.map_eq_some_iff]
  exact ⟨fun ⟨ms, h, e⟩ => ⟨ms, h, e.symm⟩, fun ⟨ms, h, e⟩ => ⟨ms, h, e.symm⟩⟩

theorem isTail_le {c : UInt8} (h : isTail c = true) : 0x80 ≤ c := by
  unfold isTail at h
  rw [decide_eq_true_eq] at h
  exact h.1

/-- What UTF-8 reads first: an ASCII byte, or a longer sequence with bytes above it. -/
theorem utf8_cons {b : UInt8} {s : List UInt8} {ns : List Nat} (h : utf8 (b :: s) = some ns) :
    ∃ n ms pre rest, b :: s = pre ++ rest ∧ pre ≠ [] ∧ ns = n :: ms ∧ utf8 rest = some ms ∧
      (∀ t, utf8 (pre ++ t) = push n (utf8 t)) ∧
      (pre = [b] ∧ b < 0x80 ∧ n = b.toNat ∨ (∀ x ∈ pre, 0x80 ≤ x) ∧ 0x80 ≤ n) := by
  rw [utf8.eq_def] at h
  simp only at h
  split at h
  · rename_i hb
    obtain ⟨ms, hms, rfl⟩ := push_eq_some.1 h
    refine ⟨_, ms, [b], s, rfl, List.cons_ne_nil _ _, rfl, hms, ?_, Or.inl ⟨rfl, hb, rfl⟩⟩
    intro t
    rw [List.singleton_append, utf8.eq_def (b :: t)]
    exact if_pos hb
  rename_i hb
  have hb' : 0x80 ≤ b := UInt8.not_lt.1 hb
  split at h
  · cases h
  rename_i c s
  split at h
  · rename_i h2
    split at h
    · rename_i hc
      obtain ⟨ms, hms, rfl⟩ := push_eq_some.1 h
      refine ⟨_, ms, [b, c], s, rfl, List.cons_ne_nil _ _, rfl, hms, ?_, Or.inr ⟨?_, ?_⟩⟩
      · intro t
        rw [utf8.eq_def ([b, c] ++ t)]
        simp only [List.cons_append, List.nil_append]
        rw [if_neg hb, if_pos h2, if_pos hc]
      · simp [hb', isTail_le hc]
      · have h1 : 0xC2 ≤ b.toNat := UInt8.le_iff_toNat_le.1 h2.1
        omega
    · cases h
  rename_i h2
  split at h
  · cases h
  rename_i d s
  split at h
  · rename_i h3
    split at h
    · rename_i hn
      obtain ⟨ms, hms, rfl⟩ := push_eq_some.1 h
      refine ⟨_, ms, [b, c, d], s, rfl, List.cons_ne_nil _ _, rfl, hms, ?_, Or.inr ⟨?_, ?_⟩⟩
      · intro t
        rw [utf8.eq_def ([b, c, d] ++ t)]
        simp only [List.cons_append, List.nil_append]
        rw [if_neg hb, if_neg h2, if_pos h3, if_pos hn]
      · simp [hb', isTail_le hn.1, isTail_le hn.2.1]
      · omega
    · cases h
  rename_i h3
  split at h
  · cases h
  rename_i e s
  split at h
  · rename_i hn
    obtain ⟨ms, hms, rfl⟩ := push_eq_some.1 h
    refine ⟨_, ms, [b, c, d, e], s, rfl, List.cons_ne_nil _ _, rfl, hms, ?_, Or.inr ⟨?_, ?_⟩⟩
    · intro t
      rw [utf8.eq_def ([b, c, d, e] ++ t)]
      simp only [List.cons_append, List.nil_append]
      rw [if_neg hb, if_neg h2, if_neg h3, if_pos hn]
    · simp [hb', isTail_le hn.2.2.1, isTail_le hn.2.2.2.1, isTail_le hn.2.2.2.2.1]
    · omega
  · cases h
/-- Induction over the code points of a UTF-8 text. -/
theorem utf8_induct {P : List UInt8 → List Nat → Prop} (hnil : P [] [])
    (hcons : ∀ n ms pre rest, (∀ t, utf8 (pre ++ t) = push n (utf8 t)) → pre ≠ [] →
      ((∃ b, pre = [b] ∧ b < 0x80 ∧ n = b.toNat) ∨ (∀ x ∈ pre, 0x80 ≤ x) ∧ 0x80 ≤ n) →
      P rest ms → P (pre ++ rest) (n :: ms))
    {b : List UInt8} {ns : List Nat} (h : utf8 b = some ns) : P b ns := by
  induction hk : b.length using Nat.strong_induction_on generalizing b ns with
  | _ k ih =>
    cases b with
    | nil =>
      cases h
      exact hnil
    | cons b s =>
      obtain ⟨n, ms, pre, rest, hb, hpre, rfl, hrest, heq, hkind⟩ := utf8_cons h
      rw [hb]
      refine hcons n ms pre rest heq hpre ?_ (ih rest.length ?_ hrest rfl)
      · rcases hkind with ⟨h1, h2, h3⟩ | hkind
        · exact Or.inl ⟨b, h1, h2, h3⟩
        · exact Or.inr hkind
      · have hpos : 0 < pre.length := List.length_pos_iff.2 hpre
        rw [← hk, hb, List.length_append]
        omega

theorem utf8_append {a : List UInt8} {ns : List Nat} (h : utf8 a = some ns) (t : List UInt8) :
    utf8 (a ++ t) = (utf8 t).map (ns ++ ·) := by
  refine utf8_induct (P := fun a ns => utf8 (a ++ t) = (utf8 t).map (ns ++ ·)) ?_ ?_ h
  · cases ht : utf8 t <;> simp [ht]
  · intro n ms pre rest heq _ _ ih
    rw [List.append_assoc, heq, ih]
    unfold push
    rw [Option.map_map]
    rfl

theorem utf8_length {b : List UInt8} {ns : List Nat} (h : utf8 b = some ns) :
    ns.length ≤ b.length := by
  refine utf8_induct (P := fun b ns => ns.length ≤ b.length) (Nat.le_refl _) ?_ h
  intro n ms pre rest _ hpre _ ih
  have hpos : 0 < pre.length := List.length_pos_iff.2 hpre
  rw [List.length_cons, List.length_append]
  omega

theorem utf8_mem_brace {b : List UInt8} {ns : List Nat} (h : utf8 b = some ns) :
    (0x7B : UInt8) ∈ b ↔ 0x7B ∈ ns := by
  refine utf8_induct (P := fun b ns => (0x7B : UInt8) ∈ b ↔ 0x7B ∈ ns) (by simp) ?_ h
  intro n ms pre rest _ _ hkind ih
  rw [List.mem_append, List.mem_cons, ih]
  refine or_congr ?_ Iff.rfl
  rcases hkind with ⟨b, rfl, -, rfl⟩ | ⟨hpre, hn⟩
  · rw [List.mem_singleton, ← UInt8.toNat_inj]
    rfl
  · constructor
    · intro hm
      exact absurd (hpre _ hm) (by decide)
    · intro he
      omega

theorem units_append {big : Bool} {a : List UInt8} {us : List Nat} (h : units big a = some us)
    (t : List UInt8) : units big (a ++ t) = (units big t).map (us ++ ·) := by
  induction a using units.induct generalizing us with
  | case1 =>
    cases h
    cases ht : units big t <;> simp [ht]
  | case2 => cases h
  | case3 x y s ih =>
    rw [units] at h
    obtain ⟨ms, hms, rfl⟩ := push_eq_some.1 h
    rw [List.cons_append, List.cons_append, units, ih hms]
    unfold push
    rw [Option.map_map]
    rfl

theorem units_length {big : Bool} {b : List UInt8} {us : List Nat} (h : units big b = some us) :
    2 * us.length = b.length := by
  induction b using units.induct generalizing us with
  | case1 => cases h; rfl
  | case2 => cases h
  | case3 x y s ih =>
    rw [units] at h
    obtain ⟨ms, hms, rfl⟩ := push_eq_some.1 h
    have := ih hms
    simp only [List.length_cons]
    omega

theorem units_brace {big : Bool} {b : List UInt8} {us : List Nat} (h : units big b = some us) :
    (0x7B ∈ us → (0x7B : UInt8) ∈ b) ∧
      ((0x7B : UInt8) ∈ b → ∃ u ∈ us, u % 256 = 0x7B ∨ u / 256 = 0x7B) := by
  induction b using units.induct generalizing us with
  | case1 => cases h; simp
  | case2 => cases h
  | case3 x y s ih =>
    rw [units] at h
    obtain ⟨ms, hms, rfl⟩ := push_eq_some.1 h
    obtain ⟨ih1, ih2⟩ := ih hms
    have hx := x.toNat_lt
    have hy := y.toNat_lt
    refine ⟨?_, ?_⟩
    · intro hm
      rcases List.mem_cons.1 hm with hm | hm
      · cases big with
        | true =>
          have : y = 0x7B := UInt8.toNat_inj.1 (by simp at hm; show y.toNat = 123; omega)
          simp [this]
        | false =>
          have : x = 0x7B := UInt8.toNat_inj.1 (by simp at hm; show x.toNat = 123; omega)
          simp [this]
      · exact List.mem_cons_of_mem _ (List.mem_cons_of_mem _ (ih1 hm))
    · intro hm
      rcases List.mem_cons.1 hm with hm | hm
      · have hv : x.toNat = 123 := by rw [← hm]; rfl
        refine ⟨_, List.mem_cons_self, ?_⟩
        cases big with
        | true => right; simp; omega
        | false => left; simp; omega
      rcases List.mem_cons.1 hm with hm | hm
      · have hv : y.toNat = 123 := by rw [← hm]; rfl
        refine ⟨_, List.mem_cons_self, ?_⟩
        cases big with
        | true => left; simp; omega
        | false => right; simp; omega
      · obtain ⟨u, hu, hb⟩ := ih2 hm
        exact ⟨u, List.mem_cons_of_mem _ hu, hb⟩

theorem joinPair_large (h l : Nat) : 0x10000 ≤ joinPair h l := by
  unfold joinPair
  omega

theorem joinUnits_append {us : List Nat} (vs : List Nat)
    (h : ∀ u, (joinUnits us).getLast? = some u → isHigh u = false) :
    joinUnits (us ++ vs) = joinUnits us ++ joinUnits vs := by
  induction us using joinUnits.induct with
  | case1 => rfl
  | case2 u =>
    have hu : isHigh u = false := h u rfl
    cases vs with
    | nil => rfl
    | cons v vs => simp [joinUnits, hu]
  | case3 u v us hp ih =>
    rw [List.cons_append, List.cons_append, joinUnits, if_pos hp, joinUnits, if_pos hp, ih,
      List.cons_append]
    intro w hw
    refine h w ?_
    rw [joinUnits, if_pos hp]
    cases hj : joinUnits us with
    | nil => rw [hj] at hw; cases hw
    | cons x xs => rw [hj] at hw; rw [List.getLast?_cons_cons]; exact hw
  | case4 u v us hp ih =>
    rw [List.cons_append, List.cons_append, joinUnits, if_neg hp, joinUnits, if_neg hp,
      ← List.cons_append, ih, List.cons_append]
    intro w hw
    refine h w ?_
    rw [joinUnits, if_neg hp]
    cases hj : joinUnits (v :: us) with
    | nil => rw [hj] at hw; cases hw
    | cons x xs => rw [hj] at hw; rw [List.getLast?_cons_cons]; exact hw

theorem mem_of_mem_joinUnits {us : List Nat} {n : Nat} (h : n ∈ joinUnits us) (hn : n < 0x10000) :
    n ∈ us := by
  induction us using joinUnits.induct with
  | case1 => exact h
  | case2 u => exact h
  | case3 u v us hp ih =>
    rw [joinUnits, if_pos hp] at h
    rcases List.mem_cons.1 h with h | h
    · have := joinPair_large u v
      omega
    · exact List.mem_cons_of_mem _ (List.mem_cons_of_mem _ (ih h))
  | case4 u v us hp ih =>
    rw [joinUnits, if_neg hp] at h
    rcases List.mem_cons.1 h with h | h
    · exact h ▸ List.mem_cons_self
    · exact List.mem_cons_of_mem _ (ih h)

theorem joinUnits_small {us : List Nat} (h : ∀ n ∈ joinUnits us, n < 0x10000) :
    joinUnits us = us := by
  induction us using joinUnits.induct with
  | case1 => rfl
  | case2 u => rfl
  | case3 u v us hp ih =>
    rw [joinUnits, if_pos hp] at h
    have := h _ List.mem_cons_self
    have := joinPair_large u v
    omega
  | case4 u v us hp ih =>
    rw [joinUnits, if_neg hp] at h ⊢
    rw [ih fun n hn => h n (List.mem_cons_of_mem _ hn)]

theorem joinUnits_length (us : List Nat) : (joinUnits us).length ≤ us.length := by
  induction us using joinUnits.induct with
  | case1 => rfl
  | case2 u => rfl
  | case3 u v us hp ih =>
    rw [joinUnits, if_pos hp]
    simp only [List.length_cons]
    omega
  | case4 u v us hp ih =>
    rw [joinUnits, if_neg hp]
    simp only [List.length_cons] at ih ⊢
    omega

/-- Induction over the code points of a UTF-32 text. -/
theorem utf32_induct {big : Bool} {P : List UInt8 → List Nat → Prop} (hnil : P [] [])
    (hcons : ∀ a b c d s ms, quad big a b c d ≤ 0x10FFFF → P s ms →
      P (a :: b :: c :: d :: s) (quad big a b c d :: ms))
    {b : List UInt8} {ns : List Nat} (h : utf32 big b = some ns) : P b ns := by
  match b, h with
  | [], h =>
    cases h
    exact hnil
  | [_], h => cases h
  | [_, _], h => cases h
  | [_, _, _], h => cases h
  | a :: b :: c :: d :: s, h =>
    rw [utf32] at h
    split at h
    · rename_i hq
      obtain ⟨ms, hms, rfl⟩ := push_eq_some.1 h
      exact hcons a b c d s ms hq (utf32_induct hnil hcons hms)
    · cases h

theorem utf32_append {big : Bool} {a : List UInt8} {ns : List Nat} (h : utf32 big a = some ns)
    (t : List UInt8) : utf32 big (a ++ t) = (utf32 big t).map (ns ++ ·) := by
  refine utf32_induct (P := fun a ns => utf32 big (a ++ t) = (utf32 big t).map (ns ++ ·)) ?_ ?_ h
  · cases ht : utf32 big t <;> simp [ht]
  · intro a b c d s ms hq ih
    simp only [List.cons_append]
    rw [utf32, if_pos hq, ih]
    unfold push
    rw [Option.map_map]
    rfl

theorem utf32_length {big : Bool} {b : List UInt8} {ns : List Nat} (h : utf32 big b = some ns) :
    4 * ns.length = b.length := by
  refine utf32_induct (P := fun b ns => 4 * ns.length = b.length) rfl ?_ h
  intro a b c d s ms _ ih
  simp only [List.length_cons]
  omega

theorem utf32_brace {big : Bool} {b : List UInt8} {ns : List Nat} (h : utf32 big b = some ns) :
    (0x7B ∈ ns → (0x7B : UInt8) ∈ b) ∧
      ((0x7B : UInt8) ∈ b → ∃ n ∈ ns, n % 256 = 0x7B ∨ 0x7B00 ≤ n) := by
  refine utf32_induct (P := fun b ns => (0x7B ∈ ns → (0x7B : UInt8) ∈ b) ∧
    ((0x7B : UInt8) ∈ b → ∃ n ∈ ns, n % 256 = 0x7B ∨ 0x7B00 ≤ n)) (by simp) ?_ h
  intro a b c d s ms _ ih
  obtain ⟨ih1, ih2⟩ := ih
  have ha := a.toNat_lt
  have hb := b.toNat_lt
  have hc := c.toNat_lt
  have hd := d.toNat_lt
  have hval : ∀ {x : UInt8}, (0x7B : UInt8) = x → x.toNat = 123 := by
    intro x hx
    rw [← hx]
    rfl
  refine ⟨?_, ?_⟩
  · intro hm
    rcases List.mem_cons.1 hm with hm | hm
    · unfold quad at hm
      split at hm
      · have : d = 0x7B := UInt8.toNat_inj.1 (show d.toNat = 123 by omega)
        simp [this]
      · have : a = 0x7B := UInt8.toNat_inj.1 (show a.toNat = 123 by omega)
        simp [this]
    · have := ih1 hm
      simp [this]
  · intro hm
    simp only [List.mem_cons] at hm
    rcases hm with hm | hm | hm | hm | hm
    · refine ⟨_, List.mem_cons_self, ?_⟩
      have := hval hm
      unfold quad
      split <;> omega
    · refine ⟨_, List.mem_cons_self, ?_⟩
      have := hval hm
      unfold quad
      split <;> omega
    · refine ⟨_, List.mem_cons_self, ?_⟩
      have := hval hm
      unfold quad
      split <;> omega
    · refine ⟨_, List.mem_cons_self, ?_⟩
      have := hval hm
      unfold quad
      split <;> omega
    · obtain ⟨n, hn, hk⟩ := ih2 hm
      exact ⟨n, List.mem_cons_of_mem _ hn, hk⟩

/-! ## Code points -/

theorem codePoints_append {e : Encoding} {a : List UInt8} {ns : List Nat}
    (h : codePoints e a = some ns) (hlast : ∀ n, ns.getLast? = some n → isHigh n = false)
    (t : List UInt8) : codePoints e (a ++ t) = (codePoints e t).map (ns ++ ·) := by
  cases e with
  | utf8 => exact utf8_append h t
  | utf32 big => exact utf32_append h t
  | utf16 big =>
    simp only [codePoints] at h ⊢
    obtain ⟨us, hus, rfl⟩ := Option.map_eq_some_iff.1 h
    rw [units_append hus, Option.map_map, Option.map_map]
    congr 1
    funext vs
    exact joinUnits_append vs hlast

/-- A code point takes a byte, or two, or four. -/
theorem codePoints_length {e : Encoding} {b : List UInt8} {ns : List Nat}
    (h : codePoints e b = some ns) :
    ns.length ≤ b.length ∧ (e ≠ .utf8 → 2 * ns.length ≤ b.length) := by
  cases e with
  | utf8 => exact ⟨utf8_length h, fun hne => absurd rfl hne⟩
  | utf32 big =>
    have := utf32_length h
    refine ⟨?_, fun _ => ?_⟩ <;> omega
  | utf16 big =>
    simp only [codePoints] at h
    obtain ⟨us, hus, rfl⟩ := Option.map_eq_some_iff.1 h
    have := units_length hus
    have := joinUnits_length us
    refine ⟨?_, fun _ => ?_⟩ <;> omega

theorem brace_mem_codePoints {e : Encoding} {b : List UInt8} {ns : List Nat}
    (h : codePoints e b = some ns) (hm : 0x7B ∈ ns) : (0x7B : UInt8) ∈ b := by
  cases e with
  | utf8 => exact (utf8_mem_brace h).2 hm
  | utf32 big => exact (utf32_brace h).1 hm
  | utf16 big =>
    simp only [codePoints] at h
    obtain ⟨us, hus, rfl⟩ := Option.map_eq_some_iff.1 h
    exact (units_brace hus).1 (mem_of_mem_joinUnits hm (by decide))

/-- The code points of white space. -/
def whiteCodes : List Nat := [32, 9, 10, 13]

/-- White space has no bracket among its bytes. -/
theorem brace_notMem_codePoints {e : Encoding} {b : List UInt8} {ns : List Nat}
    (h : codePoints e b = some ns) (hw : ∀ n ∈ ns, n ∈ whiteCodes) : (0x7B : UInt8) ∉ b := by
  have hsmall : ∀ n ∈ ns, n ≤ 32 := by
    intro n hn
    have hmem := hw n hn
    simp only [whiteCodes, List.mem_cons, List.not_mem_nil, or_false] at hmem
    omega
  intro hb
  cases e with
  | utf8 =>
    have := hsmall _ ((utf8_mem_brace h).1 hb)
    omega
  | utf32 big =>
    obtain ⟨n, hn, hk⟩ := (utf32_brace h).2 hb
    have := hsmall n hn
    omega
  | utf16 big =>
    simp only [codePoints] at h
    obtain ⟨us, hus, rfl⟩ := Option.map_eq_some_iff.1 h
    obtain ⟨u, hu, hk⟩ := (units_brace hus).2 hb
    have hid : joinUnits us = us := joinUnits_small fun n hn => by
      have := hsmall n hn
      omega
    have := hsmall u (by rw [hid]; exact hu)
    omega

theorem codeChar_toNat {n : Nat} : (codeChar n).toNat = n ∨ codeChar n = Char.ofNat 0xFFFD := by
  unfold codeChar
  split
  · rename_i h
    left
    rw [Char.ofNat, dif_pos h]
    rfl
  · exact Or.inr rfl

theorem codeChar_of_toNat {n : Nat} {k : Nat} (h : (codeChar n).toNat = k) (hk : k < 0xFFFD) :
    n = k := by
  rcases codeChar_toNat (n := n) with h' | h'
  · exact h'.symm.trans h
  · rw [h'] at h
    have : (Char.ofNat 0xFFFD).toNat = 0xFFFD := by decide
    omega

/-! ## The head of an object -/

/-- After its bracket, an object has another bracket or a key. -/
theorem loadsText_second {R : Reader} {s : List Char} {v : Json} (h : loadsText R s = .ok v)
    (hv : v.isObj = true) :
    ∃ t c u, skip s = '\x7b' :: t ∧ skip t = c :: u ∧ (c = '"' ∨ c = '\x7d') := by
  obtain ⟨t, r, hs, hval, -⟩ := loadsText_obj h hv
  rw [hs] at hval
  cases hd : R.depth with
  | zero => rw [hd] at hval; cases hval
  | succ d =>
    rw [hd] at hval
    simp only [value, valueWith, container] at hval
    rw [if_neg (by decide), if_pos (Or.inr trivial), if_neg (by decide)] at hval
    unfold bracketed at hval
    cases ht : skip t with
    | nil => rw [ht] at hval; cases hval
    | cons c u =>
      refine ⟨t, c, u, hs, ht, ?_⟩
      rw [ht] at hval
      simp only at hval
      by_cases hc : c = '\x7d'
      · exact Or.inr hc
      · rw [if_neg hc] at hval
        left
        by_contra hq
        simp only [List.length_cons, sequence, member] at hval
        rw [if_neg hq] at hval
        cases hval

/-- The first two characters of an object are ASCII, and neither is NUL. -/
theorem loadsText_head {R : Reader} {s : List Char} {v : Json} (h : loadsText R s = .ok v)
    (hv : v.isObj = true) :
    ∃ c d u, s = c :: d :: u ∧ (0 < c.toNat ∧ c.toNat < 128) ∧ 0 < d.toNat ∧ d.toNat < 128 := by
  have hwhite : ∀ {c : Char}, isWhite c = true → 0 < c.toNat ∧ c.toNat < 128 := by
    intro c hc
    unfold isWhite at hc
    simp only [Bool.or_eq_true, decide_eq_true_eq] at hc
    rcases hc with ((hc | hc) | hc) | hc <;> subst hc <;> decide
  have hskip : ∀ {s t : List Char} {c : Char}, skip s = c :: t →
      s = c :: t ∨ ∃ w s', s = w :: s' ∧ isWhite w = true ∧ skip s' = c :: t := by
    intro s t c hs
    cases s with
    | nil => cases hs
    | cons w s =>
      cases hw : isWhite w with
      | true =>
        refine Or.inr ⟨w, s, rfl, hw, ?_⟩
        rw [← hs]
        exact (List.dropWhile_cons_of_pos hw).symm
      | false =>
        rw [← hs]
        exact Or.inl (List.dropWhile_cons_of_neg (by simp [hw])).symm
  obtain ⟨t, c, u, hs, ht, hc⟩ := loadsText_second h hv
  have hcode : 0 < c.toNat ∧ c.toNat < 128 := by
    rcases hc with rfl | rfl <;> decide
  have hbrace : 0 < '\x7b'.toNat ∧ '\x7b'.toNat < 128 := by decide
  rcases hskip hs with rfl | ⟨w, s', rfl, hw, hs'⟩
  · rcases hskip ht with rfl | ⟨x, t', rfl, hx, -⟩
    · exact ⟨_, _, _, rfl, hbrace, hcode⟩
    · exact ⟨_, _, _, rfl, hbrace, hwhite hx⟩
  · rcases hskip hs' with rfl | ⟨x, t', rfl, hx, -⟩
    · exact ⟨_, _, _, rfl, hwhite hw, hbrace⟩
    · exact ⟨_, _, _, rfl, hwhite hw, hwhite hx⟩

/-! ## Detection -/

theorem detectEncoding_append {b : List UInt8} (h : 4 ≤ b.length) (t : List UInt8) :
    detectEncoding (b ++ t) = detectEncoding b := by
  match b, h with
  | b0 :: b1 :: b2 :: b3 :: b, _ => simp [detectEncoding, List.isPrefixOf]

theorem detectEncoding_ascii {b c : UInt8} (t : List UInt8) (hb : 0 < b ∧ b < 128)
    (hc : 0 < c ∧ c < 128) : detectEncoding (b :: c :: t) = (.utf8, 0) := by
  have hne : ∀ {x y : UInt8}, 0 < x ∧ x < 128 → (y = 0 ∨ 128 ≤ y) → y ≠ x := by
    intro x y hx hy he
    subst he
    rcases hy with rfl | hy
    · exact absurd hx.1 (by decide)
    · exact absurd hx.2 (UInt8.not_lt.2 hy)
  have h0 := hne (y := 0) hb (by decide)
  have h1 := hne (y := 0xFF) hb (by decide)
  have h2 := hne (y := 0xFE) hb (by decide)
  have h3 := hne (y := 0xEF) hb (by decide)
  have h4 := hne (y := 0) hc (by decide)
  unfold detectEncoding
  match t with
  | [] => simp [List.isPrefixOf, h1, h2, h0.symm, h4.symm]
  | [_] => simp [List.isPrefixOf, h1, h2, h3]
  | _ :: _ :: _ => simp [List.isPrefixOf, h0, h1, h2, h3, h0.symm, h4.symm]

theorem detectEncoding_cases (b : List UInt8) : detectEncoding b = (.utf8, 0) ∨
    (detectEncoding b).1 ≠ .utf8 ∨ 3 ≤ b.length ∧ detectEncoding b = (.utf8, 3) := by
  by_cases hmark : [0xEF, 0xBB, 0xBF].isPrefixOf b = true
  · have hlen : 3 ≤ b.length := (List.isPrefixOf_iff_prefix.1 hmark).length_le
    unfold detectEncoding
    rw [if_pos hmark]
    repeat' split
    all_goals first
      | exact Or.inr (Or.inl (by decide))
      | exact Or.inr (Or.inr ⟨hlen, rfl⟩)
  · unfold detectEncoding
    rw [if_neg hmark]
    repeat' split
    all_goals first
      | exact Or.inl rfl
      | exact Or.inr (Or.inl (by decide))

/-- A text of two characters in less than four bytes is UTF-8. -/
theorem detectEncoding_short {b : List UInt8} {ns : List Nat} (hb : b.length < 4)
    (h : codePoints (detectEncoding b).1 (b.drop (detectEncoding b).2) = some ns)
    (hn : 2 ≤ ns.length) : detectEncoding b = (.utf8, 0) := by
  obtain ⟨h1, h2⟩ := codePoints_length h
  rw [List.length_drop] at h1 h2
  rcases detectEncoding_cases b with he | he | ⟨-, he⟩
  · exact he
  · have := h2 he
    omega
  · rw [he] at h1
    simp only at h1
    omega

theorem decode_eq_some {b : List UInt8} {s : List Char} : decode b = some s ↔
    ∃ ns, codePoints (detectEncoding b).1 (b.drop (detectEncoding b).2) = some ns ∧
      s = ns.map codeChar := by
  unfold decode
  rw [Option.map_eq_some_iff]
  exact ⟨fun ⟨ns, h, e⟩ => ⟨ns, h, e.symm⟩, fun ⟨ns, h, e⟩ => ⟨ns, h, e.symm⟩⟩

/-- The first two bytes of a UTF-8 text that begins with two ASCII characters. -/
theorem utf8_head {b : List UInt8} {n m : Nat} {ns : List Nat} (h : utf8 b = some (n :: m :: ns))
    (hn : n < 128) (hm : m < 128) :
    ∃ x y t, b = x :: y :: t ∧ x.toNat = n ∧ y.toNat = m := by
  have hfirst : ∀ {b : List UInt8} {n : Nat} {ns : List Nat}, utf8 b = some (n :: ns) → n < 128 →
      ∃ x t, b = x :: t ∧ x.toNat = n ∧ utf8 t = some ns := by
    intro b n ns h hn
    cases b with
    | nil => cases h
    | cons x s =>
      obtain ⟨k, ms, pre, rest, hb, -, he, hrest, -, hkind⟩ := utf8_cons h
      cases he
      rcases hkind with ⟨rfl, -, hk⟩ | ⟨-, hk⟩
      · cases hb
        exact ⟨x, _, rfl, hk.symm, hrest⟩
      · omega
  obtain ⟨x, t, rfl, hx, ht⟩ := hfirst h hn
  obtain ⟨y, u, rfl, hy, -⟩ := hfirst ht hm
  exact ⟨x, y, u, rfl, hx, hy⟩

/-- The encoding of an object does not depend on what follows. -/
theorem detectEncoding_obj {R : Reader} {b : List UInt8} {s : List Char} {v : Json}
    (hs : decode b = some s) (h : loadsText R s = .ok v) (hv : v.isObj = true) (t : List UInt8) :
    detectEncoding (b ++ t) = detectEncoding b ∧ (detectEncoding b).2 ≤ b.length := by
  obtain ⟨ns, hns, rfl⟩ := decode_eq_some.1 hs
  obtain ⟨c, d, u, hcd, hc, hd⟩ := loadsText_head h hv
  match ns, hcd with
  | n :: m :: ns, hcd =>
    simp only [List.map_cons, List.cons.injEq] at hcd
    have hn : n = c.toNat := codeChar_of_toNat (by rw [hcd.1]) (by omega)
    have hm : m = d.toNat := codeChar_of_toNat (by rw [hcd.2.1]) (by omega)
    by_cases hlen : b.length < 4
    · have he := detectEncoding_short hlen hns (by simp)
      rw [he] at hns
      obtain ⟨x, y, w, rfl, hx, hy⟩ := utf8_head hns (by omega) (by omega)
      have hx' : 0 < x ∧ x < 128 := by
        rw [UInt8.lt_iff_toNat_lt, UInt8.lt_iff_toNat_lt, hx, hn]
        exact hc
      have hy' : 0 < y ∧ y < 128 := by
        rw [UInt8.lt_iff_toNat_lt, UInt8.lt_iff_toNat_lt, hy, hm]
        exact hd
      rw [he]
      refine ⟨?_, Nat.zero_le _⟩
      rw [List.cons_append, List.cons_append]
      exact detectEncoding_ascii _ hx' hy'
    · refine ⟨detectEncoding_append (by omega) t, ?_⟩
      have hmark : (detectEncoding b).2 ≤ 4 := by
        unfold detectEncoding
        repeat' split
        all_goals decide
      omega

/-- **The text of two byte strings, where the first is an object.** -/
theorem decode_append {R : Reader} {b : List UInt8} {s : List Char} {v : Json}
    (hs : decode b = some s) (h : loadsText R s = .ok v) (hv : v.isObj = true) (t : List UInt8) :
    decode (b ++ t) =
      (codePoints (detectEncoding b).1 t).map fun ns => s ++ ns.map codeChar := by
  obtain ⟨he, hlen⟩ := detectEncoding_obj hs h hv t
  obtain ⟨ns, hns, rfl⟩ := decode_eq_some.1 hs
  have hlast : ∀ n, ns.getLast? = some n → isHigh n = false := by
    intro n hn
    have hc := loadsText_last h hv (c := codeChar n) (by rw [List.getLast?_map, hn]; rfl)
    by_contra hh
    have hinvalid : codeChar n = Char.ofNat 0xFFFD := by
      unfold codeChar
      rw [if_neg]
      unfold isHigh at hh
      simp only [Bool.not_eq_false, decide_eq_true_eq] at hh
      unfold Nat.isValidChar
      omega
    rw [hinvalid] at hc
    revert hc
    decide
  unfold decode
  rw [he, List.drop_append_of_le_length hlen, codePoints_append hns hlast, Option.map_map]
  congr 1
  funext ms
  simp

/-- Where the first bytes are an object, the whole is one only if the rest is white space. -/
theorem loads_append {R : Reader} {b t : List UInt8} {v w : Json} (h : loads R b = .ok v)
    (hv : v.isObj = true) (hw : loads R (b ++ t) = .ok w) : (0x7B : UInt8) ∉ t := by
  unfold loads at h hw
  cases hs : decode b with
  | none => rw [hs] at h; cases h
  | some s =>
    rw [hs] at h
    simp only at h
    rw [decode_append hs h hv] at hw
    cases ht : codePoints (detectEncoding b).1 t with
    | none => rw [ht] at hw; cases hw
    | some ns =>
      rw [ht] at hw
      simp only [Option.map_some] at hw
      rw [loadsText_append _ h hv] at hw
      split at hw
      · rename_i hwhite
        rw [skip_eq_nil_iff] at hwhite
        refine brace_notMem_codePoints ht fun n hn => ?_
        have hc := hwhite (codeChar n) (List.mem_map_of_mem hn)
        unfold isWhite at hc
        simp only [Bool.or_eq_true, decide_eq_true_eq] at hc
        have hcode : ∀ {c : Char}, codeChar n = c → c.toNat < 128 → n = c.toNat := by
          intro c hc hlt
          exact codeChar_of_toNat (by rw [hc]) (by omega)
        unfold whiteCodes
        rcases hc with ((hc | hc) | hc) | hc
        · rw [hcode hc (by decide)]; decide
        · rw [hcode hc (by decide)]; decide
        · rw [hcode hc (by decide)]; decide
        · rw [hcode hc (by decide)]; decide
      · cases hw

/-- The bytes of an object hold an opening bracket. -/
theorem brace_mem_of_loads {R : Reader} {b : List UInt8} {v : Json} (h : loads R b = .ok v)
    (hv : v.isObj = true) : (0x7B : UInt8) ∈ b := by
  unfold loads at h
  cases hs : decode b with
  | none => rw [hs] at h; cases h
  | some s =>
    rw [hs] at h
    simp only at h
    obtain ⟨ns, hns, rfl⟩ := decode_eq_some.1 hs
    obtain ⟨t, r, hskip, -, -⟩ := loadsText_obj h hv
    have hmem : '\x7b' ∈ ns.map codeChar := by
      refine (skip_suffix _).subset ?_
      rw [hskip]
      exact List.mem_cons_self
    obtain ⟨n, hn, hc⟩ := List.mem_map.1 hmem
    have hn' : n = 0x7B := codeChar_of_toNat (by rw [hc]; rfl) (by decide)
    exact List.mem_of_mem_drop (brace_mem_codePoints hns (hn' ▸ hn))

end Json

end StrixPEP
