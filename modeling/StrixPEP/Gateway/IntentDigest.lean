import StrixPEP.Gateway.Exchange
import StrixPEP.Json.Bytes
import StrixPEP.Lib.IpAddress

/-!
# The intent digest (`request_intent_digest` of `pep/lifecycle.py`)

`intentText` is the text that is hashed.  The method and the authority end at the first line feeds, and
the body length is what stands behind the last `=`; so the path may hold anything, line feeds and
`body_len=` included.

Principal result: `intent_digest_injective`.
-/

namespace StrixPEP

/-- `canon`, with the `upper` of the interpreter. -/
def intentText (upper : String → String) (method authority path : String) (bodyLen : Nat) : String :=
  s!"v2\n{upper method}\n{authority}\n{path}\nbody_len={bodyLen}"

/-- `request_intent_digest`. -/
def intentDigest (upper : String → String) (method authority path : String) (bodyLen : Nat) : String :=
  "sha256:" ++ Sha256.hexdigest (intentText upper method authority path bodyLen).toUTF8.toList

/-- The gateway calls it with a Latin-1 method. -/
theorem requestIntentDigest_eq (method authority path : String) (bodyLen : Nat) :
    requestIntentDigest method (some authority) path bodyLen =
      intentDigest PyText.upper method authority path bodyLen := rfl

/-- What stands before the first separator, and what behind it. -/
theorem first_cut {α : Type} {sep : α} {xs ys : List α} (hx : sep ∉ xs) (hy : sep ∉ ys) {r s : List α}
    (h : xs ++ sep :: r = ys ++ sep :: s) : xs = ys ∧ r = s := by
  induction xs generalizing ys with
  | nil =>
    cases ys with
    | nil => exact ⟨rfl, (List.cons.inj h).2⟩
    | cons y ys =>
      rw [List.nil_append, List.cons_append, List.cons.injEq] at h
      exact absurd (h.1 ▸ List.mem_cons_self) hy
  | cons x xs ih =>
    cases ys with
    | nil =>
      rw [List.nil_append, List.cons_append, List.cons.injEq] at h
      exact absurd (h.1 ▸ List.mem_cons_self) hx
    | cons y ys =>
      rw [List.cons_append, List.cons_append, List.cons.injEq] at h
      obtain ⟨h1, h2⟩ := ih (fun hm => hx (List.mem_cons_of_mem _ hm))
        (fun hm => hy (List.mem_cons_of_mem _ hm)) h.2
      exact ⟨by rw [h.1, h1], h2⟩

/-- What stands before the last separator, and what behind it. -/
theorem last_cut {α : Type} {sep : α} {r s : List α} (hr : sep ∉ r) (hs : sep ∉ s) {xs ys : List α}
    (h : xs ++ sep :: r = ys ++ sep :: s) : xs = ys ∧ r = s := by
  have hrev : r.reverse ++ sep :: xs.reverse = s.reverse ++ sep :: ys.reverse := by
    simpa using congrArg List.reverse h
  obtain ⟨h1, h2⟩ := first_cut (by simpa using hr) (by simpa using hs) hrev
  exact ⟨List.reverse_injective h2, List.reverse_injective h1⟩

theorem intentText_toList (upper : String → String) (method authority path : String) (bodyLen : Nat) :
    (intentText upper method authority path bodyLen).toList =
      "v2\n".toList ++ ((upper method).toList ++ '\n' :: (authority.toList ++ '\n' ::
        ((path.toList ++ "\nbody_len".toList) ++ '=' :: bodyLen.repr.toList))) := by
  unfold intentText
  simp [toString]

theorem repr_plain {n : Nat} : '=' ∉ n.repr.toList := by
  intro h
  rw [Nat.toList_repr] at h
  obtain ⟨d, hd, he⟩ := IpAddress.mem_toDigits (by decide) h
  have hdigit := (IpAddress.digitChar_decimal hd).1
  rw [← he] at hdigit
  cases hdigit

/-- The text spells its four fields. -/
theorem intentText_injective {upper : String → String} {m m' a a' p p' : String} {n n' : Nat}
    (hm : '\n' ∉ (upper m).toList) (hm' : '\n' ∉ (upper m').toList)
    (ha : '\n' ∉ a.toList) (ha' : '\n' ∉ a'.toList)
    (h : intentText upper m a p n = intentText upper m' a' p' n') :
    upper m = upper m' ∧ a = a' ∧ p = p' ∧ n = n' := by
  have hlist := congrArg String.toList h
  rw [intentText_toList, intentText_toList, List.append_cancel_left_eq] at hlist
  obtain ⟨h1, hlist⟩ := first_cut hm hm' hlist
  obtain ⟨h2, hlist⟩ := first_cut ha ha' hlist
  obtain ⟨h3, h4⟩ := last_cut repr_plain repr_plain hlist
  refine ⟨String.toList_injective h1, String.toList_injective h2,
    String.toList_injective (List.append_cancel_right h3), ?_⟩
  rw [Nat.toList_repr, Nat.toList_repr] at h4
  have hn := congrArg (IpAddress.number 10) h4
  rwa [IpAddress.number_toDigits (by decide) (by decide), IpAddress.number_toDigits (by decide) (by decide)] at hn

/-- **The intent digest commits to its four fields.**  `upper` brings no line feed in, and the texts of the two
requests are no collision of the hash. -/
theorem intent_digest_injective {upper : String → String} {m m' a a' p p' : String} {n n' : Nat}
    (hupper : ∀ s, '\n' ∈ (upper s).toList → '\n' ∈ s.toList)
    (hfree : Sha256.hexdigest (intentText upper m a p n).toUTF8.toList =
        Sha256.hexdigest (intentText upper m' a' p' n').toUTF8.toList →
      (intentText upper m a p n).toUTF8.toList = (intentText upper m' a' p' n').toUTF8.toList)
    (hm : '\n' ∉ m.toList) (hm' : '\n' ∉ m'.toList) (ha : '\n' ∉ a.toList) (ha' : '\n' ∉ a'.toList) :
    intentDigest upper m a p n = intentDigest upper m' a' p' n' ↔
      upper m = upper m' ∧ a = a' ∧ p = p' ∧ n = n' := by
  constructor
  · intro h
    have hash : Sha256.hexdigest (intentText upper m a p n).toUTF8.toList =
        Sha256.hexdigest (intentText upper m' a' p' n').toUTF8.toList := by
      have hlist := congrArg String.toList h
      unfold intentDigest at hlist
      rw [String.toList_append, String.toList_append, List.append_cancel_left_eq] at hlist
      exact String.toList_injective hlist
    exact intentText_injective (fun hx => hm (hupper m hx)) (fun hx => hm' (hupper m' hx)) ha ha'
      (Json.toUTF8_toList_injective (hfree hash))
  · rintro ⟨h1, rfl, rfl, rfl⟩
    unfold intentDigest intentText
    rw [h1]

/-- `upper` of the Latin-1 characters brings no line feed in. -/
theorem upper_newline (s : String) (h : '\n' ∈ (PyText.upper s).toList) : '\n' ∈ s.toList := by
  unfold PyText.upper at h
  rw [String.toList_ofList, List.mem_flatMap] at h
  obtain ⟨c, hc, hx⟩ := h
  simp only at hx
  have hn : '\n'.toNat = 10 := rfl
  split at hx
  · rename_i hrange
    have he := congrArg Char.toNat (List.mem_singleton.1 hx)
    have hnat : (Char.ofNat (c.toNat - 32)).toNat = c.toNat - 32 := by
      unfold Char.ofNat
      rw [dif_pos (Or.inl (by omega))]
      rfl
    omega
  · split at hx
    · simp at hx
    · split at hx
      · exact absurd hx (by decide)
      · split at hx
        · exact absurd hx (by decide)
        · rw [List.mem_singleton.1 hx]
          exact hc

/-- `intent_digest_injective` at two requests of which one hides the end of the other in its path. -/
theorem intent_digest_injective_path :
    intentDigest PyText.upper "get" "h" "/\nbody_len=1" 0 ≠ intentDigest PyText.upper "GET" "h" "/" 1 := by
  have hcut : intentDigest PyText.upper "get" "h" "/\nbody_len=1" 0 =
      intentDigest PyText.upper "GET" "h" "/" 1 ↔ _ :=
    intent_digest_injective upper_newline (fun h => absurd h (by decide +kernel)) (by decide) (by decide)
      (by decide) (by decide)
  rw [Ne, hcut]
  decide

end StrixPEP
