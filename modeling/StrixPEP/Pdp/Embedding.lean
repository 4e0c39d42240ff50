import StrixPEP.Pdp.Addressing

/-!
# Embedded IPv4 addresses

An IPv6 address that carries an IPv4 address is judged by it.

* `Encodes` — the IPv6 addresses that carry an IPv4 address, as the encodings lay them out;
* `Hard`, `Soft` — the classes that no exemption admits, and those that one admits;
* `classify_ok` — what `classify` decides.

Principal result: `no_family_bypass`.
-/

namespace StrixPEP

open IpAddress (Text Address Scope)

/-! ## The encodings -/

/-- `w` carries `a`: IPv4-mapped, 6to4, as the client of Teredo, or in NAT64. -/
inductive Encodes (a : BitVec 32) : BitVec 128 → Prop where
  | mapped : Encodes a (0xFFFF#96 ++ a)
  | sixToFour (low : BitVec 80) : Encodes a (0x2002#16 ++ a ++ low)
  | teredo (server : BitVec 32) (flags port : BitVec 16) :
      Encodes a (0x20010000#32 ++ server ++ flags ++ port ++ ~~~a)
  | nat64 : Encodes a (0x64FF9B0000000000000000#96 ++ a)

theorem toNat_append {n m : Nat} (x : BitVec n) (y : BitVec m) :
    (x ++ y).toNat = x.toNat * 2 ^ m + y.toNat := by
  rw [BitVec.toNat_append, ← Nat.shiftLeft_add_eq_or_of_lt y.isLt, Nat.shiftLeft_eq]

/-- The bits above the last `k` spell `v`. -/
theorem above_iff {w : BitVec 128} {k v : Nat} (hv : v < 2 ^ 128) :
    w >>> k = BitVec.ofNat 128 v ↔ w.toNat / 2 ^ k = v := by
  rw [← BitVec.toNat_inj, BitVec.toNat_ushiftRight, BitVec.toNat_ofNat, Nat.mod_eq_of_lt hv,
    Nat.shiftRight_eq_div_pow]

/-- The forms are told apart by the number that the address is. -/
theorem unwrap_v6 (w : BitVec 128) (scope : Option Scope) : unwrapEmbeddedV4 (.v6 w scope) =
    if w.toNat / 2 ^ 32 = 0xFFFF then (.v4 (w.setWidth 32), some "ipv4_mapped")
    else if w.toNat / 2 ^ 112 = 0x2002 then (.v4 ((w >>> 80).setWidth 32), some "6to4")
    else if w.toNat / 2 ^ 96 = 0x20010000 then (.v4 (~~~ w.setWidth 32), some "teredo")
    else if w.toNat / 2 ^ 32 = 0x64FF9B0000000000000000 then (.v4 (w.setWidth 32), some "nat64")
    else (.v6 w scope, none) := by
  have h1 : w >>> 32 = 0xFFFF ↔ w.toNat / 2 ^ 32 = 0xFFFF := above_iff (v := 0xFFFF) (by decide)
  have h2 : w >>> 112 = 0x2002 ↔ w.toNat / 2 ^ 112 = 0x2002 := above_iff (v := 0x2002) (by decide)
  have h3 : w >>> 96 = 0x20010000 ↔ w.toNat / 2 ^ 96 = 0x20010000 := above_iff (v := 0x20010000) (by decide)
  have h4 : inNet (0x0064FF9B000000000000000000000000, 96) w = true ↔
      w.toNat / 2 ^ 32 = 0x64FF9B0000000000000000 := by
    unfold inNet
    rw [beq_iff_eq]
    exact above_iff (v := 0x64FF9B0000000000000000) (by decide)
  unfold unwrapEmbeddedV4
  simp only [h1, h2, h3, h4]

/-- **The decoder finds the address that is carried.** -/
theorem unwrap_encodes {a : BitVec 32} {w : BitVec 128} (h : Encodes a w) (scope : Option Scope) :
    ∃ kind, unwrapEmbeddedV4 (.v6 w scope) = (.v4 a, some kind) := by
  have ha := a.isLt
  cases h with
  | mapped =>
    have hn : ((0xFFFF#96 ++ a : BitVec 128).toNat) / 2 ^ 32 = 0xFFFF := by
      rw [toNat_append, BitVec.toNat_ofNat]
      omega
    refine ⟨"ipv4_mapped", ?_⟩
    rw [unwrap_v6, if_pos hn, BitVec.setWidth_append_eq_right]
  | sixToFour low =>
    have hl := low.isLt
    have hn : ((0x2002#16 ++ a ++ low : BitVec 128).toNat) / 2 ^ 112 = 0x2002 := by
      rw [toNat_append, toNat_append, BitVec.toNat_ofNat]
      omega
    have hbody : ((0x2002#16 ++ a ++ low : BitVec 128) >>> 80).setWidth 32 = a := by
      apply BitVec.eq_of_toNat_eq
      rw [BitVec.toNat_setWidth, BitVec.toNat_ushiftRight, toNat_append, toNat_append, BitVec.toNat_ofNat,
        Nat.shiftRight_eq_div_pow]
      omega
    refine ⟨"6to4", ?_⟩
    rw [unwrap_v6, if_neg (by omega), if_pos hn, hbody]
  | teredo server flags port =>
    have hs := server.isLt
    have hf := flags.isLt
    have hp := port.isLt
    have hc := (~~~a).isLt
    have hn : ((0x20010000#32 ++ server ++ flags ++ port ++ ~~~a : BitVec 128).toNat) / 2 ^ 96 = 0x20010000 := by
      rw [toNat_append, toNat_append, toNat_append, toNat_append, BitVec.toNat_ofNat]
      omega
    refine ⟨"teredo", ?_⟩
    rw [unwrap_v6, if_neg (by omega), if_neg (by omega), if_pos hn, BitVec.setWidth_append_eq_right,
      BitVec.not_not]
  | nat64 =>
    have hn : ((0x64FF9B0000000000000000#96 ++ a : BitVec 128).toNat) / 2 ^ 32 = 0x64FF9B0000000000000000 := by
      rw [toNat_append, BitVec.toNat_ofNat]
      omega
    refine ⟨"nat64", ?_⟩
    rw [unwrap_v6, if_neg (by omega), if_neg (by omega), if_neg (by omega), if_pos hn,
      BitVec.setWidth_append_eq_right]

/-! ## What `classify` decides -/

/-- Loopback, link-local, unspecified, multicast or reserved. -/
def Hard (judged : Address) : Prop := ∃ d ∈ hardDenials, d.1 judged = true

/-- Site-local, unique-local or private. -/
def Soft (judged : Address) : Prop := ∃ d ∈ softDenials, d.1 judged = true

theorem exists_of_find {classes : List ((Address → Bool) × String)} {judged : Address}
    {d : (Address → Bool) × String} (h : (classes.find? fun e => e.1 judged) = some d) :
    ∃ e ∈ classes, e.1 judged = true :=
  ⟨d, List.mem_of_find?_eq_some h, by simpa using List.find?_some h⟩

/-- **The decision**, from the address that is judged. -/
theorem classify_ok {t : Text} {raw judged : Address} {kind : Option String}
    (hparse : IpAddress.parse t = some raw) (hjudged : unwrapEmbeddedV4 raw = (judged, kind))
    (exemptions : List Text) :
    ((classify t exemptions).ok = true ↔
      ¬ Hard judged ∧ (Soft judged → t ∈ exemptions ∨ judged.text ∈ exemptions)) ∧
    (classify t exemptions).effectiveIp = some judged.text := by
  unfold classify
  rw [hparse]
  simp only [hjudged]
  cases hhard : hardDenials.find? fun d => d.1 judged with
  | some d =>
    have h : Hard judged := exists_of_find hhard
    cases kind <;> simp [h]
  | none =>
    have h : ¬ Hard judged := by
      rintro ⟨d, hd, hx⟩
      exact List.find?_eq_none.1 hhard d hd hx
    cases hsoft : softDenials.find? fun d => d.1 judged with
    | some d =>
      have hs : Soft judged := exists_of_find hsoft
      simp only
      split
      · rename_i hex
        simp [h, hex]
      · rename_i hex
        cases kind <;> simp [h, hs, hex]
    | none =>
      have hs : ¬ Soft judged := by
        rintro ⟨d, hd, hx⟩
        exact List.find?_eq_none.1 hsoft d hd hx
      cases kind <;> simp [h, hs]

theorem classify_malformed {t : Text} (h : IpAddress.parse t = none) (exemptions : List Text) :
    (classify t exemptions).ok = false := by
  unfold classify
  rw [h]

/-- A text of an IPv4 address is judged as it is. -/
theorem classify_v4 {t : Text} {a : BitVec 32} (h : IpAddress.parse t = some (.v4 a)) (exemptions : List Text) :
    ((classify t exemptions).ok = true ↔ ¬ Hard (.v4 a) ∧ (Soft (.v4 a) → t ∈ exemptions)) ∧
    (classify t exemptions).effectiveIp = some t := by
  have htext : (Address.v4 a).text = t := by
    unfold IpAddress.parse at h
    split at h
    · rename_i ip hip
      cases h
      exact IpAddress.text4_parse4 hip
    · split at h
      · cases h
      · split at h
        · cases h
        · rename_i body scope _
          cases hb : IpAddress.parse6 body with
          | none => rw [hb] at h; cases h
          | some ip => rw [hb] at h; cases h
  have hdecided := classify_ok h rfl exemptions
  rw [htext, or_self] at hdecided
  exact hdecided

/-- More exemptions admit no fewer addresses. -/
theorem classify_mono {t : Text} {small large : List Text} (hsub : ∀ x ∈ small, x ∈ large)
    (h : (classify t small).ok = true) : (classify t large).ok = true := by
  cases hparse : IpAddress.parse t with
  | none =>
    rw [classify_malformed hparse] at h
    cases h
  | some raw =>
    obtain ⟨hhard, hsoft⟩ := (classify_ok hparse rfl small).1.1 h
    refine (classify_ok hparse rfl large).1.2 ⟨hhard, fun hs => ?_⟩
    rcases hsoft hs with hx | hx
    · exact Or.inl (hsub _ hx)
    · exact Or.inr (hsub _ hx)

/-- **No address family bypasses the classification.**  Whatever text stands for an IPv6 address that carries
`a`, it is judged as `a` is, unless it is itself exempted; in a hard class nothing is exempted; and the
decision is monotone in the exemptions. -/
theorem no_family_bypass :
    (∀ (a : BitVec 32) (w : BitVec 128) (scope : Option Scope) (ta tw : Text) (exemptions : List Text),
      IpAddress.parse ta = some (.v4 a) → IpAddress.parse tw = some (.v6 w scope) → Encodes a w →
      (tw ∉ exemptions → (classify tw exemptions).ok = (classify ta exemptions).ok) ∧
        (classify tw exemptions).effectiveIp = some ta ∧
        (Hard (.v4 a) → (classify ta exemptions).ok = false ∧ (classify tw exemptions).ok = false)) ∧
    ∀ (t : Text) (small large : List Text), (∀ x ∈ small, x ∈ large) →
      (classify t small).ok = true → (classify t large).ok = true := by
  refine ⟨?_, fun t small large hsub => classify_mono hsub⟩
  intro a w scope ta tw exemptions hta htw hw
  obtain ⟨kind, hunwrap⟩ := unwrap_encodes hw scope
  obtain ⟨hok4, heff4⟩ := classify_v4 hta exemptions
  obtain ⟨hok6, heff6⟩ := classify_ok htw hunwrap exemptions
  have htext : (Address.v4 a).text = ta := by
    have heff := (classify_ok hta rfl exemptions).2
    rw [heff4] at heff
    exact (Option.some.inj heff).symm
  rw [htext] at hok6 heff6
  refine ⟨fun hex => ?_, heff6, fun hhard => ⟨?_, ?_⟩⟩
  · rw [Bool.eq_iff_iff, hok6, hok4]
    simp [hex]
  · rw [← Bool.not_eq_true, hok4]
    exact fun hx => hx.1 hhard
  · rw [← Bool.not_eq_true, hok6]
    exact fun hx => hx.1 hhard

/-- `no_family_bypass` at the loopback address and its IPv4-mapped form. -/
theorem no_family_bypass_loopback :
    (classify "::ffff:127.0.0.1".toList ["127.0.0.1".toList]).ok = false := by
  have hhard : Hard (.v4 (quad 127 0 0 1)) := ⟨(isLoopback, "loopback"), by simp [hardDenials], by decide⟩
  exact ((no_family_bypass.1 (quad 127 0 0 1) (0xFFFF#96 ++ quad 127 0 0 1) none "127.0.0.1".toList
    "::ffff:127.0.0.1".toList ["127.0.0.1".toList] (by decide +kernel) (by decide +kernel) .mapped).2.2 hhard).2

end StrixPEP
