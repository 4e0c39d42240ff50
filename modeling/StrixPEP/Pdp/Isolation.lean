import StrixPEP.Pdp.Ledger
import StrixPEP.Pdp.OpenPolicy

/-!
# Budgets of two programs

The counter of a program has the program id as key, the counter of an asset of it the program id, a
slash and the asset; the asset is a header of the client.

* `KeyOf` — the keys of a program;
* `Apart` — neither program id, with a slash, begins the other.

Principal result: `budget_isolation_iff`.
-/

namespace StrixPEP.Pdp

open Threads

/-- The keys that are consulted for a program. -/
def KeyOf (pid key : String) : Prop := key = pid ∨ ∃ asset, asset ≠ "" ∧ key = s!"{pid}/{asset}"

/-- Neither program id, with a slash, begins the other. -/
def Apart (p q : String) : Prop := ¬ (p ++ "/").toList <+: q.toList ∧ ¬ (q ++ "/").toList <+: p.toList

instance (p q : String) : Decidable (Apart p q) :=
  inferInstanceAs (Decidable (¬ (p ++ "/").toList <+: q.toList ∧ ¬ (q ++ "/").toList <+: p.toList))

/-! ## The keys -/

theorem assetKey_toList (pid asset : String) :
    (s!"{pid}/{asset}").toList = (pid ++ "/").toList ++ asset.toList := by
  simp [String.toList_append, ToString.toString]

theorem toList_slash (p : String) : (p ++ "/").toList = p.toList ++ ['/'] := by
  rw [String.toList_append]
  rfl

/-- An id with a slash that begins another id with a slash is that id, or begins it. -/
theorem slash_prefix {p q : String} {t : List Char} (h : (q ++ "/").toList = (p ++ "/").toList ++ t) :
    p = q ∨ (p ++ "/").toList <+: q.toList := by
  rcases List.eq_nil_or_concat t with rfl | ⟨t', c, rfl⟩
  · left
    rw [List.append_nil, toList_slash, toList_slash] at h
    exact (String.toList_injective (List.append_cancel_right h)).symm
  · right
    rw [toList_slash q, List.concat_eq_append, ← List.append_assoc] at h
    exact ⟨t', (List.append_inj_left' h rfl).symm⟩

/-- The keys of programs whose ids are apart are different. -/
theorem keys_disjoint {p q key : String} (hne : p ≠ q) (hapart : Apart p q) (hp : KeyOf p key) :
    ¬ KeyOf q key := by
  intro hq
  rcases hp with rfl | ⟨x, -, rfl⟩
  · rcases hq with rfl | ⟨y, -, hy⟩
    · exact hne rfl
    · refine hapart.2 ⟨y.toList, ?_⟩
      rw [← assetKey_toList, ← hy]
  · rcases hq with hx | ⟨y, -, hxy⟩
    · refine hapart.1 ⟨x.toList, ?_⟩
      rw [← assetKey_toList, hx]
    · have hlists := congrArg String.toList hxy
      rw [assetKey_toList, assetKey_toList] at hlists
      rcases List.append_eq_append_iff.1 hlists with ⟨t, hq, -⟩ | ⟨t, hp, -⟩
      · rcases slash_prefix hq with he | hprefix
        · exact hne he
        · exact hapart.1 hprefix
      · rcases slash_prefix hp with he | hprefix
        · exact hne he.symm
        · exact hapart.2 hprefix

/-- Programs whose ids are not apart share a key of an asset. -/
theorem keys_shared {p q : String} (h : ¬ Apart p q) :
    ∃ asset, asset ≠ "" ∧ KeyOf q s!"{p}/{asset}" := by
  have hslash : ∀ x : List Char, String.ofList (x ++ ['/', 'x']) ≠ "" := by
    intro x he
    have hlists := congrArg String.toList he
    rw [String.toList_ofList] at hlists
    simp at hlists
  unfold Apart at h
  rw [not_and_or, not_not, not_not] at h
  rcases h with ⟨t, ht⟩ | ⟨t, ht⟩
  · refine ⟨String.ofList (t ++ ['/', 'x']), hslash t, Or.inr ⟨"x", by decide, ?_⟩⟩
    apply String.toList_injective
    rw [assetKey_toList, assetKey_toList, String.toList_ofList, ← List.append_assoc, ht, toList_slash q]
    simp
  · refine ⟨"x", by decide, Or.inr ⟨String.ofList (t ++ ['/', 'x']), hslash t, ?_⟩⟩
    apply String.toList_injective
    rw [assetKey_toList, assetKey_toList, String.toList_ofList, toList_slash p, ← ht]
    simp

/-! ## The calls of one program -/

section

variable (P : Platform) (policy : Json) (p : String)

/-- Only keys of the program are charged. -/
def isolation : Protocol (machine P (only policy)) where
  inv s := ∀ key ∈ s.charged, KeyOf p key
  req _ q _ :=
    match q with
    | .reserve specs => ∀ key ∈ specs.map Prod.fst, KeyOf p key
    | _ => True
  rely _ _ _ := True
  rely_refl _ _ := trivial
  rely_trans _ _ := trivial
  step_inv := by
    intro i q s r s' hinv hreq he
    rcases exec_budgets he with ⟨-, hgrants⟩ | ⟨specs, rfl, -, hgrants⟩
    · unfold Desk.charged at hinv ⊢
      rwa [hgrants]
    · unfold Desk.charged at hinv ⊢
      intro key hkey
      rw [hgrants, List.flatMap_append, List.mem_append, List.flatMap_singleton] at hkey
      rcases hkey with hkey | hkey
      · exact hinv key hkey
      · exact hreq key hkey
  step_rely _ _ _ _ := trivial

end

variable {P : Platform} {policy : Json} {p : String}

/-- What is reserved for a program are keys of it. -/
theorem reservation_keys {pid asset : String} {program : Json} {specs : Specs}
    (h : reservation pid program asset = .ok specs) {key : String} (hkey : key ∈ specs.map Prod.fst) :
    KeyOf pid key := by
  unfold reservation at h
  obtain ⟨cap, -, h1⟩ := Except.bind_eq_ok.1 h
  split at h1
  · cases h1
    exact Or.inl (List.mem_singleton.1 hkey)
  · rename_i akey hakey
    obtain ⟨assetCap, -, h2⟩ := Except.bind_eq_ok.1 h1
    cases h2
    unfold assetKey at hakey
    split at hakey
    · cases hakey
    · rename_i hasset
      cases hakey
      rcases List.mem_cons.1 hkey with rfl | hkey
      · exact Or.inl rfl
      · exact Or.inr ⟨asset, hasset, List.mem_singleton.1 hkey⟩

/-- The source of the call belongs to the program. -/
def From (policy : Json) (p : String) (call : Call) : Prop :=
  ∃ program, programForSource call.srcIp policy = .ok (some (p, program))

theorem keeps_isolation {i : Nat} {call : Call} (hfrom : From policy p call) :
    Keeps P (only policy) (isolation P policy p) i call (fun _ => True) (fun _ _ _ => True) where
  stable _ _ _ := trivial
  due _ _ _ := trivial
  quiet := by
    intro q s hq _ _
    refine ⟨?_, fun _ _ _ => trivial⟩
    cases q with
    | reserve specs => cases hq
    | _ => trivial
  reserve := by
    intro pid specs s hdue _ _
    refine ⟨?_, fun _ _ _ => ⟨fun _ => trivial, fun _ => trivial⟩⟩
    obtain ⟨policy', program, hpolicy, hid, hspecs⟩ := hdue
    obtain rfl := only_iff.1 hpolicy
    obtain ⟨program', hid'⟩ := hfrom
    cases hid'.symm.trans hid
    exact fun key hkey => reservation_keys hspecs hkey

/-- The calls of a program charge keys of it only. -/
theorem charged_own {b : Budgets} {calls : Nat → List Call} (hfrom : ∀ i, ∀ call ∈ calls i, From policy p call)
    {cfg : Config Halt Query (Answer P.floats) Desk}
    (h : Reach (machine P (only policy)) ⟨⟨b, []⟩, fun i => serve P (calls i)⟩ cfg) :
    ∀ key ∈ cfg.state.charged, KeyOf p key := by
  have hinv : (isolation P policy p).inv ⟨b, []⟩ := by
    intro key hkey
    cases hkey
  have hwp : ∀ i, (isolation P policy p).wp i (serve P (calls i)) (fun _ _ => True) (fun _ _ => True)
      ⟨b, []⟩ := by
    intro i
    refine wp_serve (fun call hcall => keeps_isolation (hfrom i call hcall)) ?_ (fun _ _ _ => trivial)
      trivial hinv
    exact fun _ _ _ _ _ _ => ⟨trivial, fun _ _ _ => trivial⟩
  exact (Protocol.sound hinv hwp h).1

/-! ## When the budgets of two programs are apart -/

/-- A call under the open policy charges the key of its asset. -/
theorem open_charges (P : Platform) (b : Budgets) {p asset : String} (hasset : asset ≠ "") :
    ∃ cfg, Reach (machine P (only (openPolicy p .null)))
        ⟨⟨b, []⟩, fun i => serve P (if i = 0 then [openCall asset] else [])⟩ cfg ∧
      cfg.state.budgets.count s!"{p}/{asset}" ≠ b.count s!"{p}/{asset}" := by
  obtain ⟨pool, hreach⟩ := open_reach (P := P) (only_iff.2 rfl) (open_uncapped b p asset)
  refine ⟨_, hreach, ?_⟩
  show (b.charge (openSpecs p asset .null)).count _ ≠ _
  have hmem : s!"{p}/{asset}" ∈ (openSpecs p asset .null).map Prod.fst := by
    unfold openSpecs
    rw [if_neg hasset]
    exact List.mem_cons_of_mem _ List.mem_cons_self
  have hpos := List.count_pos_iff.2 hmem
  rw [Budgets.count_charge]
  omega

/-- **When the calls of a program leave the counters of another alone**: whatever the policy, the calls,
their assets and the interleaving, they do exactly if neither id, with a slash, begins the other. -/
theorem budget_isolation_iff (P : Platform) {p q : String} (hne : p ≠ q) :
    (∀ (policy : Json) (b : Budgets) (calls : Nat → List Call)
        (cfg : Config Halt Query (Answer P.floats) Desk), (∀ i, ∀ call ∈ calls i, From policy p call) →
        Reach (machine P (only policy)) ⟨⟨b, []⟩, fun i => serve P (calls i)⟩ cfg →
        ∀ key, KeyOf q key → cfg.state.budgets.count key = b.count key) ↔ Apart p q := by
  constructor
  · intro h
    by_contra hapart
    obtain ⟨asset, hasset, hkey⟩ := keys_shared hapart
    obtain ⟨cfg, hreach, hcount⟩ := open_charges P [] hasset
    refine hcount (h _ _ _ cfg ?_ hreach _ hkey)
    intro i call hcall
    split at hcall
    · obtain rfl := List.mem_singleton.1 hcall
      exact ⟨_, open_source p .null⟩
    · cases hcall
  · intro hapart policy b calls cfg hfrom hreach key hkey
    have hb : Balanced b (Desk.mk b []) := fun key => (Nat.add_zero _).symm
    have hc : Capped (Desk.mk b []) := fun key cap => Nat.zero_le _
    have hcount := (reach_balanced hb hc hreach).1 key
    have hnot : key ∉ cfg.state.charged :=
      fun hmem => keys_disjoint hne hapart (charged_own hfrom hreach key hmem) hkey
    rw [hcount, List.count_eq_zero.2 hnot, Nat.add_zero]

/-- The calls of the program `a` with the asset `b` use up the budget of the program `a/b`. -/
theorem asset_charges_program :
    (∀ call ∈ [openCall "b"], From (openPolicy "a" .null) "a" call) ∧ KeyOf "a/b" "a/b" ∧
      ∃ cfg, Reach (machine asciiPlatform (only (openPolicy "a" .null)))
        ⟨⟨[], []⟩, fun i => serve asciiPlatform (if i = 0 then [openCall "b"] else [])⟩ cfg ∧
        cfg.state.budgets.count "a/b" ≠ Budgets.count [] "a/b" := by
  refine ⟨?_, Or.inl rfl, open_charges asciiPlatform [] (by decide)⟩
  intro call hcall
  obtain rfl := List.mem_singleton.1 hcall
  exact ⟨_, open_source "a" .null⟩

/-- Programs in one directory are apart. -/
theorem budget_isolation_iff_demo :
    Apart "lab/a" "lab/b" ∧ ∀ (policy : Json) (b : Budgets) (calls : Nat → List Call)
      (cfg : Config Halt Query (Answer asciiPlatform.floats) Desk),
      (∀ i, ∀ call ∈ calls i, From policy "lab/a" call) →
      Reach (machine asciiPlatform (only policy)) ⟨⟨b, []⟩, fun i => serve asciiPlatform (calls i)⟩ cfg →
      ∀ key, KeyOf "lab/b" key → cfg.state.budgets.count key = b.count key :=
  ⟨by decide, (budget_isolation_iff asciiPlatform (by decide)).2 (by decide)⟩

end StrixPEP.Pdp
