import StrixPEP.Pdp.Canonical

/-!
# Scope lists

`inScope` is `PDP._in_scope`.  It reads a pattern by its own normal form (`patternForm`), not by
`canonical_host`, and takes everything that ends in the suffix of a wildcard for a subdomain.

* `Covers` — what a pattern is meant to cover;
* `Overread`, `Underread` — how the text of a pattern and a host come to disagree: the code reads what
  the pattern does not cover, or not what it covers;
* `Sound` — the lists do what they are meant to do for this host.

Principal results: `overread_iff` and `underread_iff` for one pattern, `in_scope_iff` for the lists.
-/

namespace StrixPEP

open IpAddress (Text)

section

variable (tables : CharTables) (idna : Text → Option Bytes)

/-! ## `_in_scope` -/

/-- `pat.strip().lower().rstrip(".")`. -/
def patternForm (pat : Text) : Text := rstripDots (tables.lower (strip pat))

/-- `match`. -/
def matchesPattern (host pat : Text) : Bool :=
  let p := patternForm tables pat
  if ['*', '.'].isPrefixOf p then
    p.tail.isSuffixOf host && decide (p.count '.' ≤ host.count '.')
  else decide (host = p)

/-- `_in_scope`. -/
def inScope (host : Text) (allow deny : List Text) : Bool :=
  if deny.any (matchesPattern tables host) then false
  else if allow.isEmpty then false
  else allow.any (matchesPattern tables host)

/-! ## What the lists mean -/

/-- A sequence of labels, none of them empty. -/
def Labelled (t : Text) : Prop := ∀ l ∈ t.splitOn '.', l ≠ []

instance (t : Text) : Decidable (Labelled t) := inferInstanceAs (Decidable (∀ l ∈ t.splitOn '.', l ≠ []))

/-- A pattern `*.s` covers the strict subdomains of the canonical form of `s`, any other pattern its
own canonical form. -/
def Covers (host pat : Text) : Prop :=
  match strip pat with
  | '*' :: '.' :: s => ∃ c pre, canonicalHost tables idna s = some c ∧ Labelled pre ∧ host = pre ++ '.' :: c
  | _ => canonicalHost tables idna pat = some host

/-- The host is covered by an allow pattern and by no deny pattern. -/
def Authorized (host : Text) (allow deny : List Text) : Prop :=
  (∀ pat ∈ deny, ¬ Covers tables idna host pat) ∧ ∃ pat ∈ allow, Covers tables idna host pat

/-- The host ends in the suffix. -/
def Under (host t : Text) : Prop := ∃ pre, host = pre ++ '.' :: t

/-- The host is read for the pattern and not covered by it. -/
inductive Overread (host pat : Text) : Prop where
  /-- `*.` is taken for the name `*`. -/
  | star {s : Text} (hp : strip pat = '*' :: '.' :: s) (ht : rstripDots (tables.lower s) = [])
      (hh : host = ['*'])
  /-- An empty label stands before the suffix of a wildcard. -/
  | emptyLabel {s pre : Text} (hp : strip pat = '*' :: '.' :: s) (ht : rstripDots (tables.lower s) ≠ [])
      (hc : canonicalHost tables idna s = some (rstripDots (tables.lower s)))
      (hh : host = pre ++ '.' :: rstripDots (tables.lower s)) (hl : ¬ Labelled pre)
  /-- The suffix is written in another way than its canonical form, the host ends in it as it is
  written, and is no subdomain of the canonical form. -/
  | suffix {s pre : Text} (hp : strip pat = '*' :: '.' :: s) (ht : rstripDots (tables.lower s) ≠ [])
      (hc : canonicalHost tables idna s ≠ some (rstripDots (tables.lower s)))
      (hh : host = pre ++ '.' :: rstripDots (tables.lower s))
      (hn : ∀ c pre, canonicalHost tables idna s = some c → Labelled pre → host ≠ pre ++ '.' :: c)
  /-- A name is written in another way than its canonical form, and the host is the name as it is
  written. -/
  | name (hp : ¬ ∃ s, strip pat = '*' :: '.' :: s)
      (hc : canonicalHost tables idna pat ≠ some (patternForm tables pat))
      (hh : host = patternForm tables pat)

/-- The host is covered by the pattern and not read for it. -/
inductive Underread (host pat : Text) : Prop where
  /-- The host is a subdomain of the canonical form of the suffix, and does not end in the suffix as
  it is written. -/
  | suffix {s c pre : Text} (hp : strip pat = '*' :: '.' :: s) (hc : canonicalHost tables idna s = some c)
      (hl : Labelled pre) (hh : host = pre ++ '.' :: c) (hn : ¬ Under host (rstripDots (tables.lower s)))
  /-- The host is the canonical form of a name that is written in another way. -/
  | name (hp : ¬ ∃ s, strip pat = '*' :: '.' :: s) (hc : canonicalHost tables idna pat = some host)
      (hn : host ≠ patternForm tables pat)

/-- The lists do what they are meant to do, although patterns are overread or underread. -/
structure Sound (host : Text) (allow deny : List Text) : Prop where
  /-- A host that is denied: a deny pattern that covers it is not underread, or another one is
  overread, or no allow pattern is read for it. -/
  denied : (∃ pat ∈ deny, Covers tables idna host pat) →
    (∃ pat ∈ deny, Covers tables idna host pat ∧ ¬ Underread tables idna host pat ∨
      Overread tables idna host pat) ∨
    ∀ pat ∈ allow, ¬ Overread tables idna host pat ∧
      (Covers tables idna host pat → Underread tables idna host pat)
  /-- A host that is allowed: no deny pattern is overread, and an allow pattern that covers it is not
  underread, or another one is overread. -/
  allowed : (∀ pat ∈ deny, ¬ Covers tables idna host pat) → (∃ pat ∈ allow, Covers tables idna host pat) →
    (∀ pat ∈ deny, ¬ Overread tables idna host pat) ∧
      ∃ pat ∈ allow, Covers tables idna host pat ∧ ¬ Underread tables idna host pat ∨
        Overread tables idna host pat
  /-- A host that no pattern covers: no allow pattern is overread, or a deny pattern is as well. -/
  outside : (∀ pat ∈ deny, ¬ Covers tables idna host pat) → (∀ pat ∈ allow, ¬ Covers tables idna host pat) →
    (∃ pat ∈ deny, Overread tables idna host pat) ∨ ∀ pat ∈ allow, ¬ Overread tables idna host pat

end

variable {tables : CharTables} {idna : Text → Option Bytes}

/-! ## One pattern -/

theorem patternForm_wildcard {pat s : Text} (hp : strip pat = '*' :: '.' :: s) :
    patternForm tables pat =
      if rstripDots (tables.lower s) = [] then ['*'] else '*' :: '.' :: rstripDots (tables.lower s) := by
  unfold patternForm
  rw [hp, tables.lower_cons _ _ (by decide) (by decide), tables.lower_cons _ _ (by decide) (by decide)]
  unfold rstripDots
  rw [Trim.rdropWhile_cons, Trim.rdropWhile_cons]
  split <;> simp

/-- Only a wildcard pattern is read as one. -/
theorem wildcard_of_patternForm {pat r : Text} (h : patternForm tables pat = '*' :: '.' :: r) :
    ∃ s, strip pat = '*' :: '.' :: s := by
  obtain ⟨dots, hdots⟩ : patternForm tables pat <+: tables.lower (strip pat) :=
    List.rdropWhile_prefix _ _
  rw [h, List.cons_append, List.cons_append] at hdots
  obtain ⟨u, hu⟩ := tables.of_lower_cons (by decide) (by decide) hdots.symm
  rw [hu, tables.lower_cons _ _ (by decide) (by decide)] at hdots
  obtain ⟨v, hv⟩ := tables.of_lower_cons (by decide) (by decide) (List.cons.inj hdots).2.symm
  exact ⟨v, by rw [hu, hv]⟩

theorem prefix_star_iff {p : Text} : ['*', '.'].isPrefixOf p = true ↔ ∃ r, p = '*' :: '.' :: r := by
  rw [List.isPrefixOf_iff_prefix]
  constructor
  · rintro ⟨r, rfl⟩
    exact ⟨r, rfl⟩
  · rintro ⟨r, rfl⟩
    exact ⟨r, rfl⟩

/-- A pattern that is read as a name. -/
theorem matches_name {host pat : Text} (h : ¬ ∃ r, patternForm tables pat = '*' :: '.' :: r) :
    matchesPattern tables host pat = true ↔ host = patternForm tables pat := by
  unfold matchesPattern
  simp only
  rw [if_neg fun hp => h (prefix_star_iff.1 hp), decide_eq_true_eq]

/-- A pattern that is read as a wildcard: the number of dots decides nothing. -/
theorem matches_wildcard {host pat t : Text} (h : patternForm tables pat = '*' :: '.' :: t) :
    matchesPattern tables host pat = true ↔ Under host t := by
  unfold matchesPattern
  simp only [h]
  rw [if_pos (prefix_star_iff.2 ⟨t, rfl⟩), Bool.and_eq_true, List.isSuffixOf_iff_suffix, decide_eq_true_eq,
    List.tail_cons]
  constructor
  · rintro ⟨⟨pre, hpre⟩, -⟩
    exact ⟨pre, hpre.symm⟩
  · rintro ⟨pre, rfl⟩
    refine ⟨⟨pre, rfl⟩, ?_⟩
    simp

/-- Nothing is canonical about dots. -/
theorem canonicalHost_dots {s : Text} (h : rstripDots (tables.lower s) = []) :
    canonicalHost tables idna s = none := by
  have hdots : ∀ c ∈ tables.lower s, c = '.' := by
    unfold rstripDots at h
    rw [List.rdropWhile_eq_nil_iff] at h
    simpa using h
  have hall : ∀ u : Text, (∀ c ∈ tables.lower u, c = '.') → ∀ c ∈ u, c = '.' := by
    intro u
    induction u with
    | nil => exact fun _ _ hc => absurd hc List.not_mem_nil
    | cons c u ih =>
      intro hu
      obtain ⟨d, l, hl⟩ := List.exists_cons_of_ne_nil (tables.lower_ne_nil (List.cons_ne_nil c u))
      obtain rfl : d = '.' := hu d (by rw [hl]; exact List.mem_cons_self)
      obtain ⟨v, hv⟩ := tables.of_lower_cons (by decide) (by decide) hl
      obtain ⟨rfl, rfl⟩ := List.cons.inj hv
      rw [tables.lower_cons _ _ (by decide) (by decide)] at hu
      intro e he
      rcases List.mem_cons.1 he with rfl | he
      · rfl
      · exact ih (fun c hc => hu c (List.mem_cons_of_mem _ hc)) e he
  have hs := hall s hdots
  cases hx : canonicalHost tables idna s with
  | none => rfl
  | some out =>
    obtain ⟨-, hne, -⟩ := canonicalHost_some hx
    refine absurd ?_ hne
    have hmem : ∀ c ∈ prepare tables s, c = '.' := by
      intro c hc
      have hc := mem_unbracket (Trim.mem_of_mem_rdropWhile hc)
      have hascii : Ascii (strip s) := by
        intro d hd
        rw [hs d (Trim.mem_of_mem_trim hd)]
        decide
      rw [tables.lower_ascii _ hascii] at hc
      obtain ⟨d, hd, rfl⟩ := List.mem_map.1 hc
      rw [hs d (Trim.mem_of_mem_trim hd)]
      decide
    by_contra hcontra
    have hlast := List.getLast_mem hcontra
    have hundot : (prepare tables s).getLast? ≠ some '.' := undotted_prepare s
    refine hundot ?_
    rw [List.getLast?_eq_some_getLast hcontra, hmem _ hlast]

theorem covers_wildcard {host pat s : Text} (hp : strip pat = '*' :: '.' :: s) :
    Covers tables idna host pat ↔
      ∃ c pre, canonicalHost tables idna s = some c ∧ Labelled pre ∧ host = pre ++ '.' :: c := by
  unfold Covers
  rw [hp]
  rfl

theorem covers_name {host pat : Text} (hp : ¬ ∃ s, strip pat = '*' :: '.' :: s) :
    Covers tables idna host pat ↔ canonicalHost tables idna pat = some host := by
  unfold Covers
  split
  · rename_i s hs
    exact absurd ⟨s, hs⟩ hp
  · rfl

theorem not_covers_star {host pat s : Text} (hp : strip pat = '*' :: '.' :: s)
    (ht : rstripDots (tables.lower s) = []) : ¬ Covers tables idna host pat := by
  rw [covers_wildcard hp, canonicalHost_dots ht]
  rintro ⟨c, pre, hc, -⟩
  cases hc

/-- A pattern whose suffix is nothing but dots. -/
theorem matches_star {host pat s : Text} (hp : strip pat = '*' :: '.' :: s)
    (ht : rstripDots (tables.lower s) = []) : matchesPattern tables host pat = true ↔ host = ['*'] := by
  have hform : patternForm tables pat = ['*'] := (patternForm_wildcard hp).trans (if_pos ht)
  rw [matches_name (by rw [hform]; simp), hform]

theorem matches_suffix {host pat s : Text} (hp : strip pat = '*' :: '.' :: s)
    (ht : rstripDots (tables.lower s) ≠ []) :
    matchesPattern tables host pat = true ↔ Under host (rstripDots (tables.lower s)) :=
  matches_wildcard ((patternForm_wildcard hp).trans (if_neg ht))

theorem matches_plain {host pat : Text} (hp : ¬ ∃ s, strip pat = '*' :: '.' :: s) :
    matchesPattern tables host pat = true ↔ host = patternForm tables pat :=
  matches_name fun ⟨_, hr⟩ => hp (wildcard_of_patternForm hr)

/-- **What the code reads and the pattern does not cover.** -/
theorem overread_iff {host pat : Text} : Overread tables idna host pat ↔
    matchesPattern tables host pat = true ∧ ¬ Covers tables idna host pat := by
  constructor
  · intro h
    cases h with
    | star hp ht hh => exact ⟨(matches_star hp ht).2 hh, not_covers_star hp ht⟩
    | emptyLabel hp ht hc hh hl =>
      refine ⟨(matches_suffix hp ht).2 ⟨_, hh⟩, fun hcover => ?_⟩
      obtain ⟨c, pre, hc', hlab, heq⟩ := (covers_wildcard hp).1 hcover
      cases hc.symm.trans hc'
      rw [hh] at heq
      obtain rfl := List.append_cancel_right heq
      exact hl hlab
    | suffix hp ht hc hh hn =>
      refine ⟨(matches_suffix hp ht).2 ⟨_, hh⟩, fun hcover => ?_⟩
      obtain ⟨c, pre, hc', hlab, heq⟩ := (covers_wildcard hp).1 hcover
      exact hn c pre hc' hlab heq
    | name hp hc hh =>
      refine ⟨(matches_plain hp).2 hh, fun hcover => hc ?_⟩
      rw [← hh]
      exact (covers_name hp).1 hcover
  · rintro ⟨hmatch, hcover⟩
    by_cases hw : ∃ s, strip pat = '*' :: '.' :: s
    · obtain ⟨s, hp⟩ := hw
      by_cases ht : rstripDots (tables.lower s) = []
      · exact .star hp ht ((matches_star hp ht).1 hmatch)
      obtain ⟨pre, hh⟩ := (matches_suffix hp ht).1 hmatch
      have hsub : ∀ c pre, canonicalHost tables idna s = some c → Labelled pre → host ≠ pre ++ '.' :: c :=
        fun c pre hc hlab heq => hcover ((covers_wildcard hp).2 ⟨c, pre, hc, hlab, heq⟩)
      by_cases hc : canonicalHost tables idna s = some (rstripDots (tables.lower s))
      · exact .emptyLabel hp ht hc hh fun hlab => hsub _ pre hc hlab hh
      · exact .suffix hp ht hc hh hsub
    · have hh := (matches_plain hw).1 hmatch
      exact .name hw (fun hc => hcover ((covers_name hw).2 (hh ▸ hc))) hh

/-- **What the pattern covers and the code does not read.** -/
theorem underread_iff {host pat : Text} : Underread tables idna host pat ↔
    ¬ matchesPattern tables host pat = true ∧ Covers tables idna host pat := by
  constructor
  · intro h
    cases h with
    | suffix hp hc hl hh hn =>
      have ht : rstripDots (tables.lower _) ≠ [] := fun ht => by
        rw [canonicalHost_dots ht] at hc
        cases hc
      exact ⟨fun hm => hn ((matches_suffix hp ht).1 hm), (covers_wildcard hp).2 ⟨_, _, hc, hl, hh⟩⟩
    | name hp hc hn => exact ⟨fun hm => hn ((matches_plain hp).1 hm), (covers_name hp).2 hc⟩
  · rintro ⟨hmatch, hcover⟩
    by_cases hw : ∃ s, strip pat = '*' :: '.' :: s
    · obtain ⟨s, hp⟩ := hw
      obtain ⟨c, pre, hc, hlab, hh⟩ := (covers_wildcard hp).1 hcover
      have ht : rstripDots (tables.lower s) ≠ [] := fun ht => not_covers_star hp ht hcover
      exact .suffix hp hc hlab hh fun hu => hmatch ((matches_suffix hp ht).2 hu)
    · exact .name hw ((covers_name hw).1 hcover) fun hh => hmatch ((matches_plain hw).2 hh)

/-- A pattern is read for the hosts that it covers and that are not underread, and for the overread
ones. -/
theorem matches_iff {host pat : Text} : matchesPattern tables host pat = true ↔
    Covers tables idna host pat ∧ ¬ Underread tables idna host pat ∨ Overread tables idna host pat := by
  rw [underread_iff, overread_iff]
  tauto

/-- Patterns in their canonical spelling are read as they are meant, for hosts without empty
labels. -/
theorem canonical_read {host pat : Text} (hhost : Labelled host)
    (hwild : ∀ s, strip pat = '*' :: '.' :: s →
      canonicalHost tables idna s = some (rstripDots (tables.lower s)))
    (hname : (¬ ∃ s, strip pat = '*' :: '.' :: s) →
      canonicalHost tables idna pat = some (patternForm tables pat)) :
    ¬ Overread tables idna host pat ∧ ¬ Underread tables idna host pat := by
  constructor
  · intro h
    cases h with
    | star hp ht _ =>
      have hc := hwild _ hp
      rw [canonicalHost_dots ht] at hc
      cases hc
    | emptyLabel hp _ _ hh hl =>
      refine hl fun l hmem => hhost l ?_
      rw [hh, List.splitOn_append_cons_self]
      exact List.mem_append_left _ hmem
    | suffix hp _ hc _ => exact hc (hwild _ hp)
    | name hp hc _ => exact hc (hname hp)
  · intro h
    cases h with
    | suffix hp hc _ hh hn =>
      cases (hwild _ hp).symm.trans hc
      exact hn ⟨_, hh⟩
    | name hp hc hn =>
      cases (hname hp).symm.trans hc
      exact hn rfl

/-! ## The lists -/

theorem inScope_true {host : Text} {allow deny : List Text} : inScope tables host allow deny = true ↔
    (∀ pat ∈ deny, ¬ matchesPattern tables host pat = true) ∧
      ∃ pat ∈ allow, matchesPattern tables host pat = true := by
  unfold inScope
  split
  · rename_i hdeny
    obtain ⟨pat, hpat, hm⟩ := List.any_eq_true.1 hdeny
    constructor
    · nofun
    · rintro ⟨hall, -⟩
      exact absurd hm (hall pat hpat)
  · rename_i hdeny
    have hall : ∀ pat ∈ deny, ¬ matchesPattern tables host pat = true :=
      fun pat hpat hm => hdeny (List.any_eq_true.2 ⟨pat, hpat, hm⟩)
    rw [and_iff_right hall]
    cases allow with
    | nil => simp
    | cons a allow =>
      rw [if_neg (by simp), List.any_eq_true]

theorem exists_matches {host : Text} {pats : List Text} :
    (∃ pat ∈ pats, matchesPattern tables host pat = true) ↔
      ∃ pat ∈ pats, Covers tables idna host pat ∧ ¬ Underread tables idna host pat ∨
        Overread tables idna host pat :=
  exists_congr fun _ => and_congr_right fun _ => matches_iff

/-- Where no pattern covers the host, it is only read for overread ones. -/
theorem exists_matches_uncovered {host : Text} {pats : List Text}
    (h : ∀ pat ∈ pats, ¬ Covers tables idna host pat) :
    (∃ pat ∈ pats, matchesPattern tables host pat = true) ↔ ∃ pat ∈ pats, Overread tables idna host pat := by
  refine exists_congr fun pat => and_congr_right fun hpat => ?_
  rw [@matches_iff tables idna]
  exact or_iff_right fun hc => h pat hpat hc.1

end StrixPEP
