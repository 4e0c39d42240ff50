import StrixPEP.Verifier.AttemptGrammar
import StrixPEP.Lib.Url

/-!
# The URLs of accepted histories

The verifier compares a URL with the intent by a prefix test on the text (`urlBinds`).

* `UrlBound` — what the URL of a record should be: scheme `https`, no user information, the
  canonical host of the intent, its port;
* `UrlExact` — the same as a condition on the text that follows the prefix;
* `url_binding_iff` — in an accepted history the URLs are bound exactly where their texts are exact.
-/

namespace StrixPEP

namespace VerifyE10

/-- The URL of the record, read structurally, is the authority of the intent. -/
def UrlBound (r auth : Record) : Prop :=
  ∃ url host port parts, r.get? "url" = some (.str url) ∧
    auth.get? "canonical_host" = some (.str host) ∧ auth.get? "pin_port" = some (.int port) ∧
    Url.parse url.toList = some parts ∧ parts.scheme = "https".toList ∧ parts.userinfo = none ∧
    parts.host = host.toList ∧ (Url.portOf 443 parts.port).map Int.ofNat = some port

/-- The text after `https://` and the canonical host is a port text for the pinned port and the end
of the authority, and nothing in the host ends it before. -/
def UrlExact (r auth : Record) : Prop :=
  ∃ url host port text tail, r.get? "url" = some (.str url) ∧
    auth.get? "canonical_host" = some (.str host) ∧ auth.get? "pin_port" = some (.int port) ∧
    Url.PlainHost host.toList ∧
    (∀ c ∈ host.toList ++ Url.portText text, Url.isEnd c = false ∧ c ≠ '@') ∧
    url.toList.drop ("https://".toList ++ host.toList).length = Url.portText text ++ tail ∧
    (∀ c ∈ tail.head?, Url.isEnd c = true) ∧ (Url.portOf 443 text).map Int.ofNat = some port

/-- A record that carries a URL, and its intent. -/
def Reports (records : List Record) (r auth : Record) : Prop :=
  r ∈ records ∧ (r.kind? = some .allow ∨ r.kind? = some .connectionTerminated) ∧ auth ∈ records ∧
    auth.kind? = some .auth ∧ ∃ aid, r.carries aid = true ∧ auth.carries aid = true

/-! ## What the prefix test gives -/

theorem urlBinds_true {r auth : Record} (h : urlBinds r auth = .ok true) :
    ∃ url host rest, r.get? "url" = some (.str url) ∧
      auth.get? "canonical_host" = some (.str host) ∧
      url.toList = "https://".toList ++ (host.toList ++ rest) := by
  unfold urlBinds at h
  cases hurl : r.str "url" with
  | error e => rw [hurl] at h; cases h
  | ok url =>
    cases hhost : auth.str "canonical_host" with
    | error e =>
      simp only [hurl, hhost, bind, Except.bind] at h
      cases h
    | ok host =>
      simp only [hurl, hhost, bind, Except.bind, pure, Except.pure, Except.ok.injEq,
        List.isPrefixOf_iff_prefix] at h
      obtain ⟨rest, hrest⟩ := h
      refine ⟨url, host, rest, Record.str_ok.1 hurl, Record.str_ok.1 hhost, ?_⟩
      rw [← hrest, String.toList_append, List.append_assoc]

theorem allowBinds_url {r auth t : Record} {att : Option Record}
    (h : allowBinds r auth t att = .ok true) : urlBinds r auth = .ok true := by
  unfold allowBinds at h
  cases hd : auth.str "request_intent_digest" with
  | error e => rw [hd] at h; cases h
  | ok d =>
    cases hq : afterColon d with
    | error e =>
      simp only [hd, hq, bind, Except.bind] at h
      cases h
    | ok q =>
      simp only [hd, hq, bind, Except.bind] at h
      exact (allOf_true.1 h) (urlBinds r auth) (by simp)

theorem terminationBindings_url {r auth t : Record}
    (h : ∀ x ∈ terminationBindings r auth t, x = .ok false) : urlBinds r auth = .ok true := by
  have hx := h (do pure (!(← urlBinds r auth))) (by simp [terminationBindings])
  cases hu : urlBinds r auth with
  | error e =>
    simp only [hu, bind, Except.bind] at hx
    cases hx
  | ok b =>
    simp only [hu, bind, Except.bind, pure, Except.pure, Except.ok.injEq, Bool.not_eq_false'] at hx
    rw [hx]

/-- The URLs of an entry pass the prefix test. -/
structure Prefixed (a : Attempt) : Prop where
  allow : ∀ r, a.allow = some r → urlBinds r a.auth = .ok true
  terminated : ∀ r, a.connectionTerminated = some r → urlBinds r a.auth = .ok true

theorem advance_prefixed {cancel : Option Record} {late : Bool} {r : Record} {aid : String} {k : Kind}
    {o : Option Attempt} {a : Attempt} {own : List (Int × String)}
    (h : Advance cancel late r aid k o a own) (hsome : ∀ b, o = some b → Prefixed b) :
    Prefixed a := by
  cases h with
  | auth hseq hcancel => exact ⟨nofun, nofun⟩
  | permit => exact { hsome _ rfl with }
  | attempted => exact { hsome _ rfl with }
  | terminal => exact { hsome _ rfl with }
  | allow ht hend hnew hbinds =>
    refine { hsome _ rfl with allow := ?_ }
    rintro r' ⟨⟩
    exact allowBinds_url hbinds
  | released => exact { hsome _ rfl with }
  | connectionTerminated ht hend hatt hnew hbinds =>
    refine { hsome _ rfl with terminated := ?_ }
    rintro r' ⟨⟩
    exact terminationBindings_url hbinds

theorem accepts_prefixed {s s' : Scan} {r : Record}
    (I : ∀ aid a, s.attempts.lookup aid = some a → Prefixed a) (h : Accepts s r s') :
    ∀ aid a, s'.attempts.lookup aid = some a → Prefixed a := by
  cases h with
  | attempt hk hrun hkill hstep hown =>
    intro aid b hl
    by_cases he : aid = r.textOr "attempt_id"
    · subst he
      rw [Dict.lookup_set_self] at hl
      cases hl
      exact advance_prefixed hstep (I _)
    · rw [Dict.lookup_set_ne _ _ he] at hl
      exact I aid b hl
  | _ => exact I

/-- Every reported URL of an accepted history passes the prefix test against its intent. -/
theorem accepted_startsWith {records : List Record} {runId : String} (h : accepts records runId = true)
    {r auth : Record} (hr : Reports records r auth) : urlBinds r auth = .ok true := by
  obtain ⟨s, hacc⟩ := valid_accepted h
  have I := accepted_entries hacc
  have hpre : ∀ aid a, s.attempts.lookup aid = some a → Prefixed a :=
    scan_induct (P := fun _ s => ∀ aid a, s.attempts.lookup aid = some a → Prefixed a)
      (W := fun _ => True) (fun _ _ h => by cases h) (fun I _ h => accepts_prefixed I h)
      (fun _ _ => trivial) hacc.scanned
  obtain ⟨hmem, hk, hauth, hka, aid, hc, hca⟩ := hr
  cases ha : s.attempts.lookup aid with
  | none =>
    have hin : r ∈ ofAttempt aid records := List.mem_filter.2 ⟨hmem, hc⟩
    rw [I.absent aid ha] at hin
    cases hin
  | some a =>
    have hshape := I.present aid a ha
    have hae : auth = a.auth := (hshape.field_of_kind (List.mem_filter.2 ⟨hauth, hca⟩)).1 hka
    have hterm : a.terminal ≠ some r := by
      intro ht
      obtain ⟨k, hkt, hterm, -⟩ := hshape.phase.outcome ht
      rw [hkt] at hk
      rcases hk with hk | hk <;> (cases hk; cases hterm)
    have K := hshape.kinds
    rw [hae]
    rcases hshape.mem_field (List.mem_filter.2 ⟨hmem, hc⟩) with hf | hf | hf | hf | hf | hf | hf
    · rw [hf, K.auth] at hk
      simp at hk
    · rw [K.permit r hf] at hk
      simp at hk
    · rw [K.attempted r hf] at hk
      simp at hk
    · exact absurd hf hterm
    · exact (hpre aid a ha).allow r hf
    · rw [K.release r hf] at hk
      simp at hk
    · exact (hpre aid a ha).terminated r hf

/-! ## The exact condition -/

/-- Past the prefix test, a URL is bound exactly where its text is exact. -/
theorem urlBound_iff_exact {r auth : Record} (h : urlBinds r auth = .ok true) :
    UrlBound r auth ↔ UrlExact r auth := by
  obtain ⟨url, host, rest, hurl, hhost, htext⟩ := urlBinds_true h
  have hdrop : url.toList.drop ("https://".toList ++ host.toList).length = rest := by
    rw [htext, ← List.append_assoc, List.drop_left]
  constructor
  · rintro ⟨url', host', port, ⟨scheme, userinfo, h', text⟩, hu, hh, hp, hparse, rfl, rfl, rfl, hport⟩
    cases hurl.symm.trans hu
    cases hhost.symm.trans hh
    rw [htext] at hparse
    obtain ⟨hplain, hends, tail, hrest, htail⟩ := Url.parse_iff.1 hparse
    exact ⟨url, host, port, text, tail, hurl, hhost, hp, hplain, hends, hdrop.trans hrest, htail,
      hport⟩
  · rintro ⟨url', host', port, text, tail, hu, hh, hp, hplain, hends, hrest, htail, hport⟩
    cases hurl.symm.trans hu
    cases hhost.symm.trans hh
    refine ⟨url, host, port, ⟨"https".toList, none, host.toList, text⟩, hurl, hhost, hp, ?_, rfl, rfl,
      rfl, hport⟩
    rw [htext]
    exact Url.parse_iff.2 ⟨hplain, hends, tail, hdrop.symm.trans hrest, htail⟩

/-- **URL binding.** In an accepted history every reported URL is bound to its intent's authority if
and only if every reported URL's text is exact. -/
theorem url_binding_iff {records : List Record} {runId : String} (h : accepts records runId = true) :
    (∀ r auth, Reports records r auth → UrlBound r auth) ↔
      ∀ r auth, Reports records r auth → UrlExact r auth := by
  constructor
  · intro hb r auth hr
    exact (urlBound_iff_exact (accepted_startsWith h hr)).1 (hb r auth hr)
  · intro hb r auth hr
    exact (urlBound_iff_exact (accepted_startsWith h hr)).2 (hb r auth hr)

theorem url_binding_iff_sample : accepts Sample.history "run-1" = true ∧
    ((∀ r auth, Reports Sample.history r auth → UrlBound r auth) ↔
      ∀ r auth, Reports Sample.history r auth → UrlExact r auth) :=
  ⟨Sample.history_accepted, url_binding_iff Sample.history_accepted⟩

namespace Sample

/-- The sample run, with another host in the URL of the termination record. -/
def spoofed : List Record :=
  history.map fun (r : Record) =>
    if r.kind? = some .connectionTerminated then
      Dict.set r "url" (.str "https://api.example.evil/")
    else r

end Sample

/-- The verifier accepts a history whose termination record names a longer host. -/
theorem url_spoof_accepted : accepts Sample.spoofed "run-1" = true ∧
    ¬ ∀ r auth, Reports Sample.spoofed r auth → UrlBound r auth := by
  refine ⟨by decide +kernel, fun hb => ?_⟩
  have hfind : ∃ r ∈ Sample.spoofed, ∃ auth ∈ Sample.spoofed,
      r.kind? = some .connectionTerminated ∧ auth.kind? = some .auth ∧
      r.carries "attempt-1" = true ∧ auth.carries "attempt-1" = true ∧
      r.get? "url" = some (.str "https://api.example.evil/") ∧
      auth.get? "canonical_host" = some (.str "api.example") := by
    decide +kernel
  obtain ⟨r, hr, auth, ha, hk, hka, hc, hca, hurl, hhost⟩ := hfind
  obtain ⟨url, host, port, parts, hu, hh, -, hparse, -, -, hph, -⟩ :=
    hb r auth ⟨hr, Or.inr hk, ha, hka, "attempt-1", hc, hca⟩
  cases hurl.symm.trans hu
  cases hhost.symm.trans hh
  have hparsed : Url.parse "https://api.example.evil/".toList =
      some ⟨"https".toList, none, "api.example.evil".toList, none⟩ := by decide +kernel
  cases hparsed.symm.trans hparse
  exact absurd hph (by decide)

end VerifyE10

end StrixPEP
