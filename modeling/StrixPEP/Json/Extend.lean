import StrixPEP.Json.Text
import Mathlib.Data.List.TakeWhile

/-!
# What follows a JSON value does not change it

A parser that has read an object reads the same object whatever text follows, and a text that is
nested too deep stays so.  Hence an object is no proper prefix of an object (`loads_append`), and
the prefixes of the text of an object are refused (`loads_prefix`).

* `Extends` — a parser reads the same where a delimiter follows;
* `ExtendsAll` — a parser reads the same whatever follows.
-/

namespace StrixPEP

namespace Json

/-! ## White space and words -/

theorem skip_append {s t : List Char} (h : skip s ≠ []) : skip (s ++ t) = skip s ++ t := by
  unfold skip at h ⊢
  rw [List.dropWhile_append, if_neg]
  rwa [List.isEmpty_iff]

theorem skip_append_nil {s t : List Char} (h : skip s = []) : skip (s ++ t) = skip t := by
  unfold skip at h ⊢
  rw [List.dropWhile_append, if_pos]
  rwa [List.isEmpty_iff]

theorem skip_eq_nil_iff {s : List Char} : skip s = [] ↔ ∀ c ∈ s, isWhite c = true :=
  List.dropWhile_eq_nil_iff

theorem takeWhile_append {p : Char → Bool} {s t : List Char} (h : s.dropWhile p ≠ []) :
    (s ++ t).takeWhile p = s.takeWhile p ∧ (s ++ t).dropWhile p = s.dropWhile p ++ t := by
  induction s with
  | nil => exact absurd rfl h
  | cons c s ih =>
    rw [List.cons_append, List.takeWhile_cons, List.takeWhile_cons, List.dropWhile_cons,
      List.dropWhile_cons]
    cases hc : p c with
    | false => simp
    | true =>
      rw [List.dropWhile_cons, hc] at h
      obtain ⟨h1, h2⟩ := ih h
      simp [h1, h2]

/-- A character that ends a number or a word. -/
def isDelimiter (c : Char) : Bool := isWhite c || c = ',' || c = ']' || c = '\x7d'

/-- The text goes on with such a character. -/
def Delimited (r : List Char) : Prop := ∃ c t, r = c :: t ∧ isDelimiter c = true

theorem Delimited.ne_nil {r : List Char} (h : Delimited r) : r ≠ [] := by
  obtain ⟨c, t, rfl, -⟩ := h
  exact List.cons_ne_nil _ _

/-- A parser that reads the same whatever follows, where a delimiter does. -/
structure Extends {α : Type} (p : Parser α) : Prop where
  empty : p [] = .error .valueError
  extend : ∀ {s v r} t, p s = .ok (v, r) → Delimited r → p (s ++ t) = .ok (v, r ++ t)
  deep : ∀ {s} t, p s = .error .recursionError → p (s ++ t) = .error .recursionError

/-- A parser that reads the same whatever follows. -/
structure ExtendsAll {α : Type} (p : Parser α) : Prop where
  extend : ∀ {s v r} t, p s = .ok (v, r) → p (s ++ t) = .ok (v, r ++ t)
  deep : ∀ {s} t, p s = .error .recursionError → p (s ++ t) = .error .recursionError

theorem emit_eq_some {c : Char} {o : Option (List Char × List Char)} {x r : List Char} :
    emit c o = some (x, r) ↔ ∃ y, o = some (y, r) ∧ x = c :: y := by
  unfold emit
  rw [Option.map_eq_some_iff]
  constructor
  · rintro ⟨⟨y, r'⟩, ho, he⟩
    cases he
    exact ⟨y, ho, rfl⟩
  · rintro ⟨y, ho, rfl⟩
    exact ⟨(y, r), ho, rfl⟩

theorem stringBody_extend {m : Mode} {s x r : List Char} (t : List Char)
    (h : stringBody m s = some (x, r)) : stringBody m (s ++ t) = some (x, r ++ t) := by
  induction s generalizing m x with
  | nil => cases m <;> cases h
  | cons c s ih =>
    have hemit : ∀ {d : Char} {m : Mode} {x : List Char}, emit d (stringBody m s) = some (x, r) →
        emit d (stringBody m (s ++ t)) = some (x, r ++ t) := by
      intro d m x hd
      obtain ⟨y, hy, rfl⟩ := emit_eq_some.1 hd
      exact emit_eq_some.2 ⟨y, ih hy, rfl⟩
    have hemit2 : ∀ {d e : Char} {x : List Char},
        emit d (emit e (stringBody .plain s)) = some (x, r) →
        emit d (emit e (stringBody .plain (s ++ t))) = some (x, r ++ t) := by
      intro d e x hd
      obtain ⟨y, hy, rfl⟩ := emit_eq_some.1 hd
      exact emit_eq_some.2 ⟨y, hemit hy, rfl⟩
    rw [List.cons_append]
    cases m with
    | plain =>
      simp only [stringBody] at h ⊢
      split at h
      · rename_i hq
        cases h
        rw [if_pos hq]
      rename_i hq
      rw [if_neg hq]
      split at h
      · rename_i he
        rw [if_pos he]
        exact ih h
      rename_i he
      rw [if_neg he]
      split at h
      · cases h
      rename_i hn
      rw [if_neg hn]
      exact hemit h
    | escape =>
      simp only [stringBody] at h ⊢
      split at h
      · rename_i hu
        rw [if_pos hu]
        exact ih h
      rename_i hu
      rw [if_neg hu]
      cases hd : unescape c with
      | none => rw [hd] at h; cases h
      | some d => rw [hd] at h; exact hemit h
    | hex acc left =>
      simp only [stringBody] at h ⊢
      cases hv : hexVal c with
      | none => rw [hv] at h; cases h
      | some d =>
        rw [hv] at h
        cases left with
        | succ left => exact ih h
        | zero =>
          simp only at h ⊢
          split at h
          · rename_i hh
            rw [if_pos hh]
            exact ih h
          · rename_i hh
            rw [if_neg hh]
            exact hemit h
    | high n =>
      simp only [stringBody] at h ⊢
      split at h
      · rename_i hq
        cases h
        rw [if_pos hq]
      rename_i hq
      rw [if_neg hq]
      split at h
      · rename_i he
        rw [if_pos he]
        exact ih h
      rename_i he
      rw [if_neg he]
      split at h
      · cases h
      rename_i hn
      rw [if_neg hn]
      exact hemit2 h
    | highEscape n =>
      simp only [stringBody] at h ⊢
      split at h
      · rename_i hu
        rw [if_pos hu]
        exact ih h
      rename_i hu
      rw [if_neg hu]
      cases hd : unescape c with
      | none => rw [hd] at h; cases h
      | some d => rw [hd] at h; exact hemit2 h
    | highHex n acc left =>
      simp only [stringBody] at h ⊢
      cases hv : hexVal c with
      | none => rw [hv] at h; cases h
      | some d =>
        rw [hv] at h
        cases left with
        | succ left => exact ih h
        | zero =>
          simp only at h ⊢
          split at h
          · rename_i hl
            rw [if_pos hl]
            exact hemit h
          rename_i hl
          rw [if_neg hl]
          split at h
          · rename_i hh
            rw [if_pos hh]
            exact hemit h
          · rename_i hh
            rw [if_neg hh]
            exact hemit2 h

theorem scanInt_extend {s ds r : List Char} (t : List Char) (h : scanInt s = some (ds, r))
    (hr : r ≠ []) : scanInt (s ++ t) = some (ds, r ++ t) := by
  cases s with
  | nil => cases h
  | cons c s =>
    rw [List.cons_append]
    simp only [scanInt] at h ⊢
    split at h
    · rename_i hc
      cases h
      rw [if_pos hc]
    split at h
    · rename_i h0 hd
      cases h
      obtain ⟨h1, h2⟩ := takeWhile_append (t := t) hr
      rw [if_neg h0, if_pos hd, h1, h2]
    · cases h

theorem scanFrac_extend {s : List Char} (t : List Char) (hr : (scanFrac s).2 ≠ [])
    (hdot : ∀ u, (scanFrac s).2 ≠ '.' :: u) :
    scanFrac (s ++ t) = ((scanFrac s).1, (scanFrac s).2 ++ t) := by
  cases s with
  | nil => exact absurd rfl hr
  | cons c s =>
    rw [List.cons_append]
    simp only [scanFrac] at hr hdot ⊢
    split at hr
    · rename_i hc
      obtain ⟨h1, h2⟩ := takeWhile_append (t := t) hr
      rw [if_pos hc, if_pos (by rw [h1]; exact hc), h1, h2]
    · rename_i hc
      rw [if_neg hc] at hdot
      have hc' : c ≠ '.' := by
        rintro rfl
        exact hdot s rfl
      simp [hc']

theorem scanSign_extend {s : List Char} (t : List Char) (hr : (scanSign s).2 ≠ []) :
    scanSign (s ++ t) = ((scanSign s).1, (scanSign s).2 ++ t) := by
  cases s with
  | nil => exact absurd rfl hr
  | cons c s =>
    rw [List.cons_append]
    simp only [scanSign]
    split <;> rfl

theorem scanExp_extend {s : List Char} (t : List Char) (hr : (scanExp s).2 ≠ [])
    (he : ∀ c u, (scanExp s).2 = c :: u → c ≠ 'e' ∧ c ≠ 'E') :
    scanExp (s ++ t) = ((scanExp s).1, (scanExp s).2 ++ t) := by
  cases s with
  | nil => exact absurd rfl hr
  | cons c s =>
    rw [List.cons_append]
    simp only [scanExp] at hr he ⊢
    split at hr
    · rename_i hc
      have hsign : (scanSign s).2 ≠ [] := by
        intro hnil
        rw [hnil] at hr
        exact hr rfl
      obtain ⟨h1, h2⟩ := takeWhile_append (t := t) hr
      rw [scanSign_extend t hsign]
      simp only
      rw [if_pos hc, if_pos (by rw [h1]; exact hc), h1, h2]
    · rename_i hc
      rw [if_neg hc] at he
      obtain ⟨h1, h2⟩ := he c s rfl
      simp [h1, h2]

theorem Delimited.head {r : List Char} (h : Delimited r) {c : Char} {u : List Char}
    (hr : r = c :: u) : c.isDigit = false ∧ c ≠ '.' ∧ c ≠ 'e' ∧ c ≠ 'E' := by
  obtain ⟨d, t, rfl, hd⟩ := h
  cases hr
  unfold isDelimiter isWhite at hd
  simp only [Bool.or_eq_true, decide_eq_true_eq] at hd
  rcases hd with (((((hd | hd) | hd) | hd) | hd) | hd) | hd <;> subst hd <;> decide

theorem unsigned_extend {R : Reader} {negative : Bool} {s r : List Char} {v : Json}
    (t : List Char) (h : unsigned R negative s = some (v, r)) (hr : Delimited r) :
    unsigned R negative (s ++ t) = some (v, r ++ t) := by
  unfold unsigned at h ⊢
  cases hi : scanInt s with
  | none => rw [hi] at h; cases h
  | some p =>
    obtain ⟨ds, u⟩ := p
    rw [hi] at h
    simp only at h
    have hrest : (scanExp (scanFrac u).2).2 = r := by
      split at h
      · split at h
        · exact congrArg Prod.snd (Option.some.inj h)
        · cases h
      · exact congrArg Prod.snd (Option.some.inj h)
    have hfrac : (scanFrac u).2 ≠ [] := by
      intro hnil
      rw [hnil] at hrest
      exact hr.ne_nil hrest.symm
    have hint : u ≠ [] := by
      rintro rfl
      exact hfrac rfl
    have hexp : scanExp ((scanFrac u).2 ++ t) = ((scanExp (scanFrac u).2).1, r ++ t) := by
      rw [scanExp_extend t, hrest]
      · rw [hrest]
        exact hr.ne_nil
      · intro c w hw
        exact (hr.head (hrest.symm.trans hw)).2.2
    have hdot : ∀ w, (scanFrac u).2 ≠ '.' :: w := by
      intro w hw
      rw [hw] at hrest
      exact (hr.head (u := w) (hrest.symm.trans rfl)).2.1 rfl
    rw [scanInt_extend t hi hint]
    simp only
    rw [scanFrac_extend t hfrac hdot]
    simp only
    rw [hexp]
    simp only
    split at h
    · rename_i hc
      rw [if_pos hc]
      split at h
      · rename_i hl
        rw [if_pos hl]
        cases h
        rfl
      · cases h
    · rename_i hc
      rw [if_neg hc]
      cases h
      rfl

theorem number_extend {R : Reader} {s r : List Char} {v : Json} (t : List Char)
    (h : number R s = some (v, r)) (hr : Delimited r) : number R (s ++ t) = some (v, r ++ t) := by
  cases s with
  | nil => cases h
  | cons c s =>
    rw [List.cons_append]
    simp only [number] at h ⊢
    split at h
    · rename_i hc
      rw [if_pos hc]
      exact unsigned_extend t h hr
    · rename_i hc
      rw [if_neg hc]
      exact unsigned_extend t h hr

theorem word_append {e : List Char × Json} (he : e ∈ words) (x : List Char) :
    word (e.1 ++ x) = some (e.2, x) := by
  simp only [words, List.mem_cons, List.not_mem_nil, or_false] at he
  rcases he with rfl | rfl | rfl | rfl | rfl | rfl <;> rfl

theorem word_cases {s r : List Char} {v : Json} (h : word s = some (v, r)) :
    ∃ e ∈ words, s = e.1 ++ r ∧ v = e.2 := by
  unfold word at h
  obtain ⟨e, he, h⟩ := List.exists_of_findSome?_eq_some h
  refine ⟨e, he, ?_⟩
  split at h
  · rename_i hp
    cases h
    exact ⟨(List.prefix_iff_eq_append.1 (List.isPrefixOf_iff_prefix.1 hp)).symm, rfl⟩
  · cases h

/-- The head of an unsigned number is a digit. -/
theorem unsigned_head {R : Reader} {negative : Bool} {s : List Char} {x : Json × List Char}
    (h : unsigned R negative s = some x) : ∃ c t, s = c :: t ∧ c.isDigit = true := by
  cases s with
  | nil => cases h
  | cons c s =>
    refine ⟨c, s, rfl, ?_⟩
    unfold unsigned at h
    cases hi : scanInt (c :: s) with
    | none => rw [hi] at h; cases h
    | some p =>
      simp only [scanInt] at hi
      split at hi
      · rename_i hc
        rw [hc]
        rfl
      split at hi
      · assumption
      · cases hi

/-- No number is a word. -/
theorem word_of_number {R : Reader} {s : List Char} {x : Json × List Char}
    (h : number R s = some x) : word s = none := by
  have hdigit : ∀ {c : Char} {t : List Char}, c.isDigit = true → word (c :: t) = none := by
    intro c t hc
    rw [← Option.not_isSome_iff_eq_none]
    intro hs
    obtain ⟨⟨v, r⟩, hw⟩ := Option.isSome_iff_exists.1 hs
    obtain ⟨e, he, hs, -⟩ := word_cases hw
    simp only [words, List.mem_cons, List.not_mem_nil, or_false] at he
    rcases he with rfl | rfl | rfl | rfl | rfl | rfl <;> cases hs <;> cases hc
  cases s with
  | nil => cases h
  | cons c s =>
    simp only [number] at h
    split at h
    · rename_i hc
      obtain ⟨d, t, rfl, hd⟩ := unsigned_head h
      subst hc
      rw [← Option.not_isSome_iff_eq_none]
      intro hs
      obtain ⟨⟨v, r⟩, hw⟩ := Option.isSome_iff_exists.1 hs
      obtain ⟨e, he, hs, -⟩ := word_cases hw
      simp only [words, List.mem_cons, List.not_mem_nil, or_false] at he
      rcases he with rfl | rfl | rfl | rfl | rfl | rfl <;> cases hs
      cases hd
    · obtain ⟨d, t, hs, hd⟩ := unsigned_head h
      cases hs
      exact hdigit hd

theorem scalar_extend {R : Reader} {s r : List Char} {v : Json} (t : List Char)
    (h : scalar R s = .ok (v, r)) (hr : Delimited r) : scalar R (s ++ t) = .ok (v, r ++ t) := by
  unfold scalar at h ⊢
  cases hw : word s with
  | some x =>
    rw [hw] at h
    cases h
    obtain ⟨e, he, rfl, rfl⟩ := word_cases hw
    rw [List.append_assoc, word_append he]
  | none =>
    rw [hw] at h
    cases hn : number R s with
    | none => rw [hn] at h; cases h
    | some x =>
      rw [hn] at h
      cases h
      have hn' := number_extend t hn hr
      rw [word_of_number hn', hn']

/-- What a closing bracket or a comma stands behind is delimited. -/
theorem delimited_of_skip {r t : List Char} {c : Char} (h : skip r = c :: t)
    (hc : isDelimiter c = true) : Delimited r := by
  cases r with
  | nil => cases h
  | cons d r =>
    cases hd : isWhite d with
    | true => exact ⟨d, r, rfl, by unfold isDelimiter; rw [hd]; rfl⟩
    | false =>
      have hs : skip (d :: r) = d :: r := List.dropWhile_cons_of_neg (by simp [hd])
      rw [hs] at h
      exact ⟨c, t, h, hc⟩

theorem sequence_nil {α : Type} {item : Parser α} {close : Char} (hi : Extends item) (n : Nat) :
    sequence item close n [] = .error .valueError := by
  cases n with
  | zero => rfl
  | succ n => simp only [sequence, hi.empty]

theorem sequence_extend {α : Type} {item : Parser α} {close : Char} (hi : Extends item)
    (hc : isDelimiter close = true) {n : Nat} {s r : List Char} {vs : List α}
    (h : sequence item close n s = .ok (vs, r)) (t : List Char) {m : Nat} (hm : n ≤ m) :
    sequence item close m (s ++ t) = .ok (vs, r ++ t) := by
  induction n generalizing s vs m with
  | zero => cases h
  | succ n ih =>
    obtain ⟨m, rfl⟩ : ∃ k, m = k + 1 := ⟨m - 1, by omega⟩
    simp only [sequence] at h ⊢
    cases hv : item s with
    | error e => rw [hv] at h; cases h
    | ok p =>
      obtain ⟨v, u⟩ := p
      rw [hv] at h
      simp only at h
      cases hu : skip u with
      | nil => rw [hu] at h; cases h
      | cons c w =>
        rw [hu] at h
        simp only at h
        have hskip : skip (u ++ t) = c :: (w ++ t) := by
          rw [skip_append (by rw [hu]; exact List.cons_ne_nil _ _), hu, List.cons_append]
        split at h
        · rename_i hcl
          cases h
          rw [hi.extend t hv (delimited_of_skip hu (hcl ▸ hc))]
          simp only [hskip]
          rw [if_pos hcl]
        split at h
        · rename_i hcl hco
          rw [hi.extend t hv (delimited_of_skip hu (by rw [hco]; rfl))]
          simp only [hskip]
          rw [if_neg hcl, if_pos hco]
          cases hrec : sequence item close n (skip w) with
          | error e => rw [hrec] at h; cases h
          | ok q =>
            rw [hrec] at h
            cases h
            have hne : skip w ≠ [] := by
              intro hnil
              rw [hnil, sequence_nil hi n] at hrec
              cases hrec
            rw [skip_append hne, ih hrec (by omega)]
        · cases h

theorem sequence_deep {α : Type} {item : Parser α} {close : Char} (hi : Extends item)
    {n : Nat} {s : List Char} (h : sequence item close n s = .error .recursionError)
    (t : List Char) {m : Nat} (hm : n ≤ m) :
    sequence item close m (s ++ t) = .error .recursionError := by
  induction n generalizing s m with
  | zero => cases h
  | succ n ih =>
    obtain ⟨m, rfl⟩ : ∃ k, m = k + 1 := ⟨m - 1, by omega⟩
    simp only [sequence] at h ⊢
    cases hv : item s with
    | error e =>
      rw [hv] at h
      cases h
      rw [hi.deep t hv]
    | ok p =>
      obtain ⟨v, u⟩ := p
      rw [hv] at h
      simp only at h
      cases hu : skip u with
      | nil => rw [hu] at h; cases h
      | cons c w =>
        rw [hu] at h
        simp only at h
        split at h
        · cases h
        split at h
        · rename_i hcl hco
          rw [hi.extend t hv (delimited_of_skip hu (by rw [hco]; rfl))]
          simp only
          rw [skip_append (by rw [hu]; exact List.cons_ne_nil _ _), hu]
          simp only [List.cons_append]
          rw [if_neg hcl, if_pos hco]
          cases hrec : sequence item close n (skip w) with
          | ok q => rw [hrec] at h; cases h
          | error e =>
            rw [hrec] at h
            cases h
            have hne : skip w ≠ [] := by
              intro hnil
              rw [hnil, sequence_nil hi n] at hrec
              cases hrec
            rw [skip_append hne, ih hrec (by omega)]
        · cases h

theorem bracketed_extend {α : Type} {item : Parser α} {close : Char} (hi : Extends item)
    (hc : isDelimiter close = true) : ExtendsAll (bracketed item close) := by
  refine ⟨?_, ?_⟩
  · intro s v r t h
    unfold bracketed at h ⊢
    cases hs : skip s with
    | nil => rw [hs] at h; cases h
    | cons c u =>
      rw [hs] at h
      simp only at h
      rw [skip_append (by rw [hs]; exact List.cons_ne_nil _ _), hs]
      simp only [List.cons_append]
      split at h
      · rename_i hcl
        cases h
        rw [if_pos hcl]
      · rename_i hcl
        rw [if_neg hcl]
        refine sequence_extend hi hc h t ?_
        rw [← List.cons_append, List.length_append]
        omega
  · intro s t h
    unfold bracketed at h ⊢
    cases hs : skip s with
    | nil => rw [hs] at h; cases h
    | cons c u =>
      rw [hs] at h
      simp only at h
      rw [skip_append (by rw [hs]; exact List.cons_ne_nil _ _), hs]
      simp only [List.cons_append]
      split at h
      · cases h
      · rename_i hcl
        rw [if_neg hcl]
        refine sequence_deep hi h t ?_
        rw [← List.cons_append, List.length_append]
        omega

/-- What `member` reads: a quote, the key, a colon and the value. -/
theorem member_cases {p : Parser Json} (hp : Extends p) {s : List Char}
    (h : member p s ≠ .error .valueError) :
    ∃ u key r w, s = '"' :: u ∧ stringBody .plain u = some (key, r) ∧ skip r = ':' :: w ∧
      skip w ≠ [] := by
  cases s with
  | nil => exact absurd rfl h
  | cons c u =>
    simp only [member] at h
    split at h
    · rename_i hq
      cases hb : stringBody .plain u with
      | none => rw [hb] at h; exact absurd rfl h
      | some x =>
        obtain ⟨key, r⟩ := x
        rw [hb] at h
        simp only at h
        cases hr : skip r with
        | nil => rw [hr] at h; exact absurd rfl h
        | cons d w =>
          rw [hr] at h
          simp only at h
          split at h
          · rename_i hd
            refine ⟨u, key, r, w, by rw [hq], hb, by rw [hr, hd], ?_⟩
            intro hnil
            rw [hnil, hp.empty] at h
            exact absurd rfl h
          · exact absurd rfl h
    · exact absurd rfl h

/-- `member` once it has read the key and the colon. -/
theorem member_eq {p : Parser Json} {u key r w : List Char}
    (hb : stringBody .plain u = some (key, r)) (hr : skip r = ':' :: w) :
    member p ('"' :: u) = (p (skip w)).map fun x => ((String.ofList key, x.1), x.2) := by
  simp only [member, if_true, hb, hr]
  cases p (skip w) <;> rfl

theorem member_append {p : Parser Json} (hp : Extends p) {s : List Char} (t : List Char)
    (h : member p s ≠ .error .valueError) :
    ∃ key w, skip w ≠ [] ∧
      member p s = (p (skip w)).map (fun x => ((String.ofList key, x.1), x.2)) ∧
      member p (s ++ t) = (p (skip w ++ t)).map fun x => ((String.ofList key, x.1), x.2) := by
  obtain ⟨u, key, r, w, rfl, hb, hr, hw⟩ := member_cases hp h
  refine ⟨key, w, hw, member_eq hb hr, ?_⟩
  have hr' : skip (r ++ t) = ':' :: (w ++ t) := by
    rw [skip_append (by rw [hr]; exact List.cons_ne_nil _ _), hr, List.cons_append]
  rw [List.cons_append, member_eq (stringBody_extend t hb) hr', skip_append hw]

theorem member_extends {p : Parser Json} (hp : Extends p) : Extends (member p) := by
  refine ⟨rfl, ?_, ?_⟩
  · intro s v r t h hr
    obtain ⟨k, w, hw, h1, h2⟩ := member_append hp t (by rw [h]; exact nofun)
    rw [h1] at h
    rw [h2]
    cases hv : p (skip w) with
    | error e => rw [hv] at h; cases h
    | ok x =>
      rw [hv] at h
      cases h
      rw [hp.extend t hv hr]
      rfl
  · intro s t h
    obtain ⟨k, w, hw, h1, h2⟩ := member_append hp t (by rw [h]; exact nofun)
    rw [h1] at h
    rw [h2]
    cases hv : p (skip w) with
    | ok x => rw [hv] at h; cases h
    | error e =>
      rw [hv] at h
      cases h
      rw [hp.deep t hv]
      rfl

theorem container_extend {p : Parser Json} (hp : Extends p) (c : Char) :
    ExtendsAll (container p c) := by
  have ha : ExtendsAll (bracketed p ']') := bracketed_extend hp rfl
  have ho : ExtendsAll (bracketed (member p) '\x7d') := bracketed_extend (member_extends hp) rfl
  refine ⟨?_, ?_⟩
  · intro s v r t h
    unfold container at h ⊢
    split at h
    · rename_i hc
      rw [if_pos hc]
      cases hb : bracketed p ']' s with
      | error e => rw [hb] at h; cases h
      | ok x =>
        rw [hb] at h
        cases h
        rw [ha.extend t hb]
    · rename_i hc
      rw [if_neg hc]
      cases hb : bracketed (member p) '\x7d' s with
      | error e => rw [hb] at h; cases h
      | ok x =>
        rw [hb] at h
        cases h
        rw [ho.extend t hb]
  · intro s t h
    unfold container at h ⊢
    split at h
    · rename_i hc
      rw [if_pos hc]
      cases hb : bracketed p ']' s with
      | ok x => rw [hb] at h; cases h
      | error e =>
        rw [hb] at h
        cases h
        rw [ha.deep t hb]
    · rename_i hc
      rw [if_neg hc]
      cases hb : bracketed (member p) '\x7d' s with
      | ok x => rw [hb] at h; cases h
      | error e =>
        rw [hb] at h
        cases h
        rw [ho.deep t hb]

theorem scalar_ne_deep (R : Reader) (s : List Char) : scalar R s ≠ .error .recursionError := by
  intro h
  unfold scalar at h
  split at h
  · cases h
  split at h
  · cases h
  · cases h

theorem valueWith_extends {R : Reader} {inner : Char → Parser Json}
    (hi : ∀ c, ExtendsAll (inner c)) : Extends (valueWith R inner) := by
  refine ⟨rfl, ?_, ?_⟩
  · intro s v r t h hr
    cases s with
    | nil => cases h
    | cons c s =>
      rw [List.cons_append]
      simp only [valueWith] at h ⊢
      split at h
      · rename_i hq
        rw [if_pos hq]
        cases hb : stringBody .plain s with
        | none => rw [hb] at h; cases h
        | some x =>
          rw [hb] at h
          cases h
          rw [stringBody_extend t hb]
      rename_i hq
      rw [if_neg hq]
      split at h
      · rename_i hc
        rw [if_pos hc]
        exact (hi c).extend t h
      · rename_i hc
        rw [if_neg hc]
        exact scalar_extend t h hr
  · intro s t h
    cases s with
    | nil => cases h
    | cons c s =>
      rw [List.cons_append]
      simp only [valueWith] at h ⊢
      split at h
      · split at h <;> cases h
      rename_i hq
      rw [if_neg hq]
      split at h
      · rename_i hc
        rw [if_pos hc]
        exact (hi c).deep t h
      · exact absurd h (scalar_ne_deep R _)

theorem value_extends (R : Reader) (d : Nat) : Extends (value R d) := by
  induction d with
  | zero => exact valueWith_extends fun _ => ⟨nofun, fun _ _ => rfl⟩
  | succ d ih => exact valueWith_extends fun c => container_extend ih c

/-- The value is a dict. -/
def isObj : Json → Bool
  | .obj _ => true
  | _ => false

theorem scalar_not_obj {R : Reader} {s r : List Char} {v : Json} (h : scalar R s = .ok (v, r)) :
    v.isObj = false := by
  unfold scalar at h
  cases hw : word s with
  | some x =>
    rw [hw] at h
    cases h
    obtain ⟨e, he, -, rfl⟩ := word_cases hw
    simp only [words, List.mem_cons, List.not_mem_nil, or_false] at he
    rcases he with rfl | rfl | rfl | rfl | rfl | rfl <;> rfl
  | none =>
    rw [hw] at h
    have hun : ∀ {negative s x}, unsigned R negative s = some x → x.1.isObj = false := by
      intro negative s x hx
      unfold unsigned at hx
      split at hx
      · cases hx
      simp only at hx
      split at hx
      · split at hx
        · cases hx; rfl
        · cases hx
      · cases hx; rfl
    cases hn : number R s with
    | none => rw [hn] at h; cases h
    | some x =>
      rw [hn] at h
      cases h
      cases s with
      | nil => cases hn
      | cons c s =>
        simp only [number] at hn
        split at hn
        · exact hun hn
        · exact hun hn

/-- **An object ends where its text ends, whatever follows.** -/
theorem value_extend {R : Reader} {d : Nat} {s r : List Char} {v : Json} (t : List Char)
    (h : value R d s = .ok (v, r)) (hv : v.isObj = true) :
    value R d (s ++ t) = .ok (v, r ++ t) := by
  cases s with
  | nil => cases d <;> cases h
  | cons c s =>
    cases d with
    | zero =>
      rw [List.cons_append]
      simp only [value, valueWith] at h ⊢
      split at h
      · split at h
        · cases h; cases hv
        · cases h
      split at h
      · cases h
      · rw [scalar_not_obj h] at hv
        cases hv
    | succ d =>
      rw [List.cons_append]
      simp only [value, valueWith] at h ⊢
      split at h
      · split at h
        · cases h; cases hv
        · cases h
      rename_i hq
      rw [if_neg hq]
      split at h
      · rename_i hc
        rw [if_pos hc]
        exact (container_extend (value_extends R d) c).extend t h
      · rw [scalar_not_obj h] at hv
        cases hv

/-! ## Texts -/

/-- An opened bracket makes a list or a dict. -/
theorem value_brace {R : Reader} {d : Nat} {s r : List Char} {v : Json}
    (h : value R d ('\x7b' :: s) = .ok (v, r)) : v.isObj = true := by
  cases d with
  | zero => cases h
  | succ d =>
    simp only [value, valueWith, container] at h
    rw [if_neg (by decide), if_pos (Or.inr trivial), if_neg (by decide)] at h
    split at h
    · cases h
    · cases h
      rfl

/-- An object begins with its bracket. -/
theorem value_obj_head {R : Reader} {d : Nat} {s r : List Char} {v : Json}
    (h : value R d s = .ok (v, r)) (hv : v.isObj = true) : ∃ t, s = '\x7b' :: t := by
  cases s with
  | nil => cases d <;> cases h
  | cons c s =>
    have hcontainer : ∀ {p : Parser Json} {c : Char} {s r : List Char} {v : Json},
        container p c s = .ok (v, r) → v.isObj = true → c ≠ '[' := by
      intro p c s r v h hv hc
      subst hc
      simp only [container, if_true] at h
      split at h
      · cases h
      · cases h
        cases hv
    cases d with
    | zero =>
      simp only [value, valueWith] at h
      split at h
      · split at h
        · cases h; cases hv
        · cases h
      split at h
      · cases h
      · rw [scalar_not_obj h] at hv
        cases hv
    | succ d =>
      simp only [value, valueWith] at h
      split at h
      · split at h
        · cases h; cases hv
        · cases h
      split at h
      · rename_i hc
        refine ⟨s, ?_⟩
        rw [hc.resolve_left (hcontainer h hv)]
      · rw [scalar_not_obj h] at hv
        cases hv

theorem loadsText_obj {R : Reader} {s : List Char} {v : Json} (h : loadsText R s = .ok v)
    (hv : v.isObj = true) :
    ∃ t r, skip s = '\x7b' :: t ∧ value R R.depth (skip s) = .ok (v, r) ∧ skip r = [] := by
  unfold loadsText at h
  cases hval : value R R.depth (skip s) with
  | error e => rw [hval] at h; cases h
  | ok x =>
    obtain ⟨w, r⟩ := x
    rw [hval] at h
    simp only at h
    split at h
    · rename_i hr
      cases h
      obtain ⟨t, ht⟩ := value_obj_head hval hv
      exact ⟨t, r, ht, rfl, hr⟩
    · cases h

/-- **Only white space may follow an object.** -/
theorem loadsText_append {R : Reader} {s : List Char} {v : Json} (t : List Char)
    (h : loadsText R s = .ok v) (hv : v.isObj = true) :
    loadsText R (s ++ t) = if skip t = [] then .ok v else .error .valueError := by
  obtain ⟨u, r, hs, hval, hr⟩ := loadsText_obj h hv
  unfold loadsText
  rw [skip_append (by rw [hs]; exact List.cons_ne_nil _ _), value_extend t hval hv]
  simp only
  rw [skip_append_nil hr]

/-- **The text of an object is refused when it is cut.** -/
theorem loadsText_cut {R : Reader} {s t : List Char} {v : Json} (h : loadsText R (s ++ t) = .ok v)
    (hv : v.isObj = true) (ht : skip t ≠ []) : loadsText R s = .error .valueError := by
  obtain ⟨u, r, hst, hval, hr⟩ := loadsText_obj h hv
  by_cases hs : skip s = []
  · simp only [loadsText, hs, (value_extends R R.depth).empty]
  · rw [skip_append hs] at hst hval
    obtain ⟨c, w, hcw⟩ := List.exists_cons_of_ne_nil hs
    have hc : c = '\x7b' := by
      rw [hcw, List.cons_append] at hst
      exact (List.cons.inj hst).1
    cases hl : loadsText R s with
    | ok x =>
      have hx : x.isObj = true := by
        unfold loadsText at hl
        rw [hcw, hc] at hl
        split at hl
        · cases hl
        rename_i y z hy
        split at hl
        · cases hl
          exact value_brace hy
        · cases hl
      rw [loadsText_append t hl hx, if_neg ht] at h
      cases h
    | error e =>
      cases e with
      | valueError => rfl
      | recursionError =>
        exfalso
        unfold loadsText at hl
        split at hl
        · rename_i e he
          cases hl
          rw [(value_extends R R.depth).deep t he] at hval
          cases hval
        · split at hl <;> cases hl

end Json

end StrixPEP
