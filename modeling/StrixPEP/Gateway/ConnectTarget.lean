import Mathlib.Data.Nat.Digits.Lemmas
import StrixPEP.Gateway.ReadHead
import StrixPEP.Gateway.SlotFree

/-!
# The target of a CONNECT request

`do_CONNECT` asks `isdigit()` whether the part after the last colon is a port and then converts it
with `int()`.  The target is Latin-1 text, in which `isdigit()` also accepts three superscripts that
`int()` refuses, and `int()` refuses more than 4300 digits; both raise `ValueError` where no handler
of `do_CONNECT` is, and nothing is audited.

* `connectWith` — `do_CONNECT` with what follows the parsing left open (`doConnect_eq`).
* `TargetHandled` — what a request is owed: no exception before there is a `ConnectionState`, the
  host and the port that the target spells, or else exactly one record, and the slot given back.
* `target_handled_iff` — it holds exactly where the digits of the port part can be converted.
* `path_slot` — a slot that was taken is given back once, on every path.
-/

namespace StrixPEP

open Threads GProg Fields

/-! ## What a path shows -/

/-- A run of a handler: the steps and what they returned. -/
abbrev Run := List (Sigma Cmd.Resp)

namespace Run

/-- The dict of a call of `audit.write`. -/
def entry? : Sigma Cmd.Resp → Option Entry
  | ⟨.write e, _⟩ => some e
  | _ => none

/-- The records that were handed to `audit.write`. -/
def writes (tr : Run) : List Entry := tr.filterMap entry?

/-- The call of `audit.write` returned. -/
def durable : Sigma Cmd.Resp → Bool
  | ⟨.write _, (o : Outcome)⟩ => o.ok
  | _ => true

/-- The audit sink is healthy throughout. -/
def Healthy (tr : Run) : Prop := ∀ x ∈ tr, durable x = true

/-- A `ConnectionState` was made. -/
def Connected (tr : Run) : Prop := ∃ x ∈ tr, x.1 = .newConnId

/-- `registry.acquire()` returned true. -/
def Acquired (tr : Run) : Prop := ⟨.acquireSlot, (true : Bool)⟩ ∈ tr

def releases : Cmd → Bool
  | .releaseSlot => true
  | _ => false

/-- How often `registry.release()` was called. -/
def released (tr : Run) : Nat := tr.countP fun x => releases x.1

end Run

open Run

section Shape

variable {α : Type} {p : GProg α} {tr : Run} {out : Except Exn α}

theorem Run.released_append (t₁ t₂ : Run) : released (t₁ ++ t₂) = released t₁ + released t₂ :=
  List.countP_append

/-- What leaves the slots alone takes none and gives none back. -/
theorem Keeps.path (hp : Keeps p) (h : p.Path tr out) : ¬ Acquired tr ∧ released tr = 0 := by
  have hall := Prog.Issues.of_path hp h
  refine ⟨fun hacq => ?_, List.countP_eq_zero.2 fun x hx hrel => ?_⟩
  · cases hall _ hacq
  · have hx' := hall x hx
    obtain ⟨c, r⟩ := x
    cases c with
    | releaseSlot => cases hx'
    | _ => cases hrel

theorem path_onNet {q : NetProg α} (h : (onNet q).Path tr out) : ∃ a, out = .ok a := by
  induction q generalizing tr with
  | ret a => exact ⟨a, h.2⟩
  | raise e => exact nomatch e
  | cmd c k ih =>
    obtain ⟨r, tr', rfl, h⟩ := h
    exact ih r h

/-- With a healthy sink a call of `audit.write` returns. -/
theorem path_auditWrite {e : Entry} {tr : Run} {out : Except Exn Unit} (h : (auditWrite e).Path tr out)
    (hh : Healthy tr) : out = .ok () ∧ writes tr = [e] := by
  obtain ⟨(o : Outcome), tr', rfl, hraised⟩ := Prog.path_perform.1 h
  have ho : o.ok = true := hh _ List.mem_cons_self
  cases o with
  | written ts order =>
    obtain ⟨htr', hout⟩ := Prog.path_pure.1 hraised
    exact ⟨hout, by rw [htr']; rfl⟩
  | _ => cases ho

end Shape

namespace Gateway

/-- A refusal is audited once. -/
theorem path_deny {reason url method src : String} {s : Option ConnectionState} {tr : Run}
    {out : Except Exn Unit} (h : (deny reason url method src s).Path tr out) (hh : Healthy tr) :
    out = .ok () ∧ writes tr = [.blocked ([("reason", str reason), ("url", str url),
      ("method", str method), ("src", str src)] ++ (s.map labels).getD [])] := by
  rcases Prog.path_bind.1 h with ⟨e, he, -⟩ | ⟨⟨⟩, t₁, t₂, rfl, h₁, h₂⟩
  · obtain ⟨r, tr', -, hr⟩ := Prog.path_perform.1 he
    cases hr.2
  · obtain ⟨r, tr', rfl, rfl, -⟩ := Prog.path_perform.1 h₁
    obtain ⟨hout, hw⟩ := path_auditWrite h₂ fun x hx => hh x (List.mem_append_right _ hx)
    exact ⟨hout, hw⟩

theorem denyEarly_keeps (reason url method src : String) : Keeps (denyEarly reason url method src) :=
  keeps_bind (deny_keeps _ _ _ _ _) fun _ => keeps_pure true

/-- So is one before there is a connection; the client goes on. -/
theorem path_denyEarly {reason url method src : String} {tr : Run} {out : Except Exn Bool}
    (h : (denyEarly reason url method src).Path tr out) (hh : Healthy tr) :
    out = .ok true ∧ writes tr = [.blocked [("reason", str reason), ("url", str url),
      ("method", str method), ("src", str src)]] := by
  rcases Prog.path_bind.1 h with ⟨e, he, -⟩ | ⟨⟨⟩, t₁, t₂, rfl, h₁, h₂⟩
  · cases (path_deny he hh).1
  · obtain ⟨rfl, rfl⟩ := Prog.path_pure.1 h₂
    rw [List.append_nil] at hh ⊢
    exact ⟨rfl, (path_deny h₁ hh).2⟩

section

variable (canonicalHost : String → Option String)

/-! ## The slot -/

/-- The `finally` gives one slot back and does not raise. -/
theorem path_cleanUp {c : String} {tr : Run} {out : Except Exn Unit} (h : (cleanUp c).Path tr out) :
    out = .ok () ∧ ¬ Acquired tr ∧ released tr = 1 := by
  rcases Prog.path_bind.1 h with ⟨e, he, -⟩ | ⟨torn, t₁, t₂, rfl, h₁, h₂⟩
  · obtain ⟨a, ha⟩ := path_onNet he
    cases ha
  obtain ⟨r, t₃, rfl, h₃⟩ := Prog.path_perform.1 h₂
  obtain ⟨r', t₄, rfl, rfl, rfl⟩ := Prog.path_perform.1 h₃
  obtain ⟨hacq, hrel⟩ := (keeps_onNet (NetProg.terminate c)).path h₁
  refine ⟨rfl, fun hmem => ?_, ?_⟩
  · rcases List.mem_append.1 hmem with hmem | hmem
    · exact hacq hmem
    · rcases List.mem_cons.1 hmem with hmem | hmem
      · cases hmem
      · cases List.mem_singleton.1 hmem
  · rw [released_append, hrel]
    rfl

/-- The body of `do_CONNECT` with a slot. -/
def guarded (state : ConnectionState) (r : ConnectRequest) (host : String) (port : Nat) : GProg Unit :=
  Prog.tryCatch
    (do
      let added : Bool ← issue (.net (.add state.connId))
      if !added then refuse state r "KILL_SWITCH_ACTIVE"
      else connectFlow canonicalHost state r host port)
    fun e => refuse state r s!"INTERNAL_FAILURE:{e.name}"

theorem guarded_keeps (state : ConnectionState) (r : ConnectRequest) (host : String) (port : Nat) :
    Keeps (guarded canonicalHost state r host port) := by
  refine keeps_tryCatch (keeps_bind (keeps_issue rfl) fun (added : Bool) => ?_) fun _ => keeps_auditWrite _
  cases added
  · exact keeps_auditWrite _
  · exact connectFlow_keeps canonicalHost state r host port

/-- A connection gives its slot back once; nothing escapes before it has a state. -/
theorem path_connection {r : ConnectRequest} {host : String} {port : Nat} {tr : Run}
    {out : Except Exn Unit} (h : (connection canonicalHost r host port).Path tr out) :
    Connected tr ∧ ¬ Acquired tr ∧ released tr = 1 := by
  obtain ⟨(c : String), t, rfl, hrest⟩ := Prog.path_perform.1 h
  obtain ⟨t₁, t₂, body, last, rfl, hbody, hlast, -⟩ := Prog.path_tryFinally hrest
  obtain ⟨-, hacq₂, hrel₂⟩ := path_cleanUp hlast
  let state : ConnectionState := ⟨r.clientIp, c, r.nonce, r.row, none, none, none, "", ""⟩
  obtain ⟨hacq₁, hrel₁⟩ := (guarded_keeps canonicalHost state r host port).path hbody
  refine ⟨⟨_, List.mem_cons_self, rfl⟩, fun hmem => ?_, ?_⟩
  · rcases List.mem_cons.1 hmem with hmem | hmem
    · cases hmem
    rcases List.mem_append.1 hmem with hmem | hmem
    · exact hacq₁ hmem
    · exact hacq₂ hmem
  · show released ([⟨.newConnId, c⟩] ++ (t₁ ++ t₂)) = 1
    rw [released_append, released_append, hrel₁, hrel₂]
    rfl

/-! ## The target -/

/-- `do_CONNECT` from `registry.acquire()` on. -/
def admission (r : ConnectRequest) (host : String) (port : Nat) : GProg Bool := do
  let acquired : Bool ← issue .acquireSlot
  if !acquired then denyEarly "CONCURRENCY_LIMIT_REACHED" s!"CONNECT {r.target}" "CONNECT" r.clientIp
  else
    connection canonicalHost r host port
    return false

/-- A slot that was taken is given back once; only a connection without a state is refused. -/
theorem path_admission {r : ConnectRequest} {host : String} {port : Nat} {tr : Run}
    {out : Except Exn Bool} (h : (admission canonicalHost r host port).Path tr out) :
    (Acquired tr → released tr = 1) ∧ (Healthy tr → out = .ok true ∨ Connected tr) := by
  obtain ⟨(acquired : Bool), t, rfl, hrest⟩ := Prog.path_perform.1 h
  cases acquired with
  | false =>
    refine ⟨fun hacq => ?_, fun hh => .inl (path_denyEarly hrest fun x hx =>
      hh x (List.mem_cons_of_mem _ hx)).1⟩
    rcases List.mem_cons.1 hacq with hacq | hacq
    · cases hacq
    · exact absurd hacq ((denyEarly_keeps _ _ _ _).path hrest).1
  | true =>
    obtain ⟨body, hbody⟩ : ∃ body, (connection canonicalHost r host port).Path t body := by
      rcases Prog.path_bind.1 hrest with ⟨e, he, -⟩ | ⟨⟨⟩, t₁, t₂, rfl, h₁, h₂⟩
      · exact ⟨_, he⟩
      · obtain ⟨rfl, -⟩ := Prog.path_pure.1 h₂
        exact ⟨_, by rwa [List.append_nil]⟩
    obtain ⟨⟨x, hx, hnew⟩, -, hrel⟩ := path_connection canonicalHost hbody
    refine ⟨fun _ => ?_, fun _ => .inr ⟨x, List.mem_cons_of_mem _ hx, hnew⟩⟩
    show released ([⟨.acquireSlot, (true : Bool)⟩] ++ t) = 1
    rw [released_append, hrel]
    rfl

end

/-- `do_CONNECT`, with what follows the parsing of the target left open. -/
def connectWith (serve : String → Nat → GProg Bool) (r : ConnectRequest) : GProg Bool :=
  let url := s!"CONNECT {r.target}"
  match PyText.rpartition ':' r.target.toList with
  | none => denyEarly "MALFORMED_CONNECT_TARGET" url "CONNECT" r.clientIp
  | some (host, p) =>
    if !PyText.isDigits p then denyEarly "MALFORMED_CONNECT_TARGET" url "CONNECT" r.clientIp
    else
      match PyText.toPort p with
      | none => fail .valueError
      | some port => serve (String.ofList host) port

theorem doConnect_eq (canonicalHost : String → Option String) (r : ConnectRequest) :
    doConnect canonicalHost r = connectWith (admission canonicalHost r) r := rfl

/-- `do_CONNECT` goes on with this host and this port. -/
def Proceeds (r : ConnectRequest) (host : String) (port : Nat) : Prop :=
  ∀ serve, connectWith serve r = serve host port

/-- The record of a target that is refused. -/
def malformed (r : ConnectRequest) : Entry :=
  .blocked [("reason", str "MALFORMED_CONNECT_TARGET"), ("url", str s!"CONNECT {r.target}"),
    ("method", str "CONNECT"), ("src", str r.clientIp)]

end Gateway

namespace ConnectTarget

/-- The number that decimal digits denote. -/
def decimal (d : String) : Nat := Nat.ofDigits 10 (d.toList.reverse.map fun c => c.toNat - '0'.toNat)

/-- The target spells a host and a port. -/
def Spells (target host : String) (port : Nat) : Prop :=
  ∃ d : String, d ≠ "" ∧ (∀ c ∈ d.toList, PyText.isAsciiDigit c = true) ∧ decimal d = port ∧
    target = host ++ ":" ++ d

/-- Superscript one, two or three. -/
def superscript (c : Char) : Prop := c.toNat = 0xB2 ∨ c.toNat = 0xB3 ∨ c.toNat = 0xB9

instance : DecidablePred superscript := fun c =>
  inferInstanceAs (Decidable (c.toNat = 0xB2 ∨ c.toNat = 0xB3 ∨ c.toNat = 0xB9))

/-- Where the port part consists of digits in the sense of `isdigit()`, it has no superscript and at
most 4300 of them. -/
def Convertible (target : String) : Prop :=
  ∀ host d : String, target = host ++ ":" ++ d → d ≠ "" →
    (∀ c ∈ d.toList, PyText.isAsciiDigit c = true ∨ superscript c) →
    (∀ c ∈ d.toList, PyText.isAsciiDigit c = true) ∧ d.length ≤ 4300

/-! ## Python's readings -/

section Readings

variable {text host p : List Char}

theorem rpartition_some {sep : Char} :
    PyText.rpartition sep text = some (host, p) ↔ sep ∉ p ∧ text = host ++ sep :: p := by
  unfold PyText.rpartition
  constructor
  · intro h
    obtain ⟨⟨a, b⟩, hcut, hr⟩ := Option.map_eq_some_iff.1 h
    obtain ⟨hmem, ht⟩ := cut_one hcut
    cases hr
    refine ⟨fun hm => hmem (List.mem_reverse.1 hm), ?_⟩
    rw [← List.reverse_reverse text, ht]
    simp
  · rintro ⟨hmem, rfl⟩
    have hcut : PyText.cut [sep] (p.reverse ++ ([sep] ++ host.reverse)) =
        some (p.reverse, host.reverse) := cut_first fun hm => hmem (List.mem_reverse.1 hm)
    simp only [List.reverse_append, List.reverse_cons, List.append_assoc]
    rw [hcut]
    simp

theorem isDigits_iff : PyText.isDigits p = true ↔
    p ≠ [] ∧ ∀ c ∈ p, PyText.isAsciiDigit c = true ∨ superscript c := by
  unfold PyText.isDigits superscript
  simp

theorem toPort_iff {n : Nat} : PyText.toPort p = some n ↔
    (∀ c ∈ p, PyText.isAsciiDigit c = true) ∧ p.length ≤ 4300 ∧ PyText.ofDigits p = n := by
  unfold PyText.toPort
  split
  · rename_i h
    rw [Option.some.injEq]
    exact ⟨fun hn => ⟨List.all_eq_true.1 h.1, h.2, hn⟩, fun h' => h'.2.2⟩
  · rename_i h
    simp only [reduceCtorEq, false_iff]
    exact fun h' => h ⟨List.all_eq_true.2 h'.1, h'.2.1⟩

theorem toPort_none : PyText.toPort p = none ↔
    ¬ ((∀ c ∈ p, PyText.isAsciiDigit c = true) ∧ p.length ≤ 4300) := by
  unfold PyText.toPort
  simp

/-- The value that `int()` computes is the one that the digits denote. -/
theorem ofDigits_eq (p : List Char) : PyText.ofDigits p = decimal (String.ofList p) := by
  unfold PyText.ofDigits decimal
  rw [String.toList_ofList]
  induction p using List.reverseRecOn with
  | nil => rfl
  | append_singleton p c ih =>
    rw [List.foldl_append, ih, List.reverse_append]
    simp only [List.foldl_cons, List.foldl_nil, List.reverse_cons, List.reverse_nil, List.nil_append,
      List.cons_append, List.map_cons, Nat.ofDigits_cons]
    have hzero : '0'.toNat = 48 := rfl
    omega

/-- A colon is not a digit. -/
theorem colon_notMem (h : ∀ c ∈ p, PyText.isAsciiDigit c = true ∨ superscript c) : ':' ∉ p := by
  intro hm
  rcases h _ hm with hd | hs
  · cases hd
  · rcases hs with hs | hs | hs <;> cases hs

end Readings

/-! ## What a target leads to -/

open Gateway

/-- What is owed to a CONNECT request. -/
structure TargetHandled (canonicalHost : String → Option String) (r : ConnectRequest) : Prop where
  /-- No exception escapes before there is a `ConnectionState`. -/
  contained : ∀ tr e, (doConnect canonicalHost r).Path tr (.error e) → Healthy tr → Connected tr
  proceeds : ∀ host port, Proceeds r host port ↔ Spells r.target host port
  refused : (∀ host port, ¬ Spells r.target host port) →
    ∀ tr out, (doConnect canonicalHost r).Path tr out → Healthy tr → writes tr = [malformed r]
  slot : ∀ tr out, (doConnect canonicalHost r).Path tr out → Acquired tr → released tr = 1

section

variable {canonicalHost : String → Option String} {r : ConnectRequest}

/-- The ways through the parsing: the target goes on, or is refused, or cannot be converted. -/
theorem connectWith_cases (r : ConnectRequest) :
    (∃ host port, Spells r.target host port ∧ ∀ serve, connectWith serve r = serve host port) ∨
    ((∀ host port, ¬ Spells r.target host port) ∧ ∀ serve, connectWith serve r =
      denyEarly "MALFORMED_CONNECT_TARGET" s!"CONNECT {r.target}" "CONNECT" r.clientIp) ∨
    ¬ Convertible r.target := by
  have hspelt : ∀ host port, Spells r.target host port → ∃ d : List Char, d ≠ [] ∧
      (∀ c ∈ d, PyText.isAsciiDigit c = true) ∧
      PyText.rpartition ':' r.target.toList = some (host.toList, d) := by
    rintro host port ⟨d, hne, hdig, -, ht⟩
    refine ⟨d.toList, fun hd => hne (String.toList_injective hd), hdig, rpartition_some.2 ⟨?_, ?_⟩⟩
    · exact colon_notMem fun c hc => .inl (hdig c hc)
    · rw [ht]
      simp
  cases hr : PyText.rpartition ':' r.target.toList with
  | none =>
    refine .inr (.inl ⟨fun host port hs => ?_, fun serve => ?_⟩)
    · obtain ⟨d, -, -, hd⟩ := hspelt host port hs
      rw [hr] at hd
      cases hd
    · unfold connectWith
      rw [hr]
  | some parts =>
    obtain ⟨host, p⟩ := parts
    have ht : r.target = String.ofList host ++ ":" ++ String.ofList p := by
      refine String.toList_injective ?_
      rw [(rpartition_some.1 hr).2]
      simp
    cases hd : PyText.isDigits p with
    | false =>
      refine .inr (.inl ⟨fun host' port hs => ?_, fun serve => ?_⟩)
      · obtain ⟨d, hne, hdig, hd'⟩ := hspelt host' port hs
        rw [hr] at hd'
        cases hd'
        rw [isDigits_iff.2 ⟨hne, fun c hc => .inl (hdig c hc)⟩] at hd
        cases hd
      · unfold connectWith
        rw [hr]
        simp [hd]
    | true =>
      obtain ⟨hne, hchars⟩ := isDigits_iff.1 hd
      cases hp : PyText.toPort p with
      | none =>
        refine .inr (.inr fun hconv => toPort_none.1 hp ?_)
        have h := hconv (String.ofList host) (String.ofList p) ht
          (fun he => hne (by simpa using congrArg String.toList he)) (by simpa using hchars)
        simpa using h
      | some port =>
        obtain ⟨hdig, -, hval⟩ := toPort_iff.1 hp
        refine .inl ⟨String.ofList host, port, ⟨String.ofList p, ?_, ?_, ?_, ht⟩, fun serve => ?_⟩
        · exact fun he => hne (by simpa using congrArg String.toList he)
        · simpa using hdig
        · rw [← ofDigits_eq, hval]
        · unfold connectWith
          rw [hr]
          simp [hd, hp]

/-- A target spells at most one host and one port. -/
theorem Spells.unique {t h h' : String} {n n' : Nat} (hs : Spells t h n) (hs' : Spells t h' n') :
    h = h' ∧ n = n' := by
  obtain ⟨d, -, hdig, rfl, rfl⟩ := hs
  obtain ⟨d', -, hdig', rfl, ht⟩ := hs'
  have hcut := congrArg String.toList ht
  have hr := rpartition_some.2 ⟨colon_notMem fun c hc => .inl (hdig c hc),
    show (h ++ ":" ++ d).toList = h.toList ++ ':' :: d.toList by simp⟩
  have hr' := rpartition_some.2 ⟨colon_notMem fun c hc => .inl (hdig' c hc),
    show (h' ++ ":" ++ d').toList = h'.toList ++ ':' :: d'.toList by simp⟩
  rw [← hcut, hr, Option.some.injEq, Prod.mk.injEq] at hr'
  have hd : d = d' := String.toList_injective hr'.2
  exact ⟨String.toList_injective hr'.1, by rw [hd]⟩

/-- `int()` raises. -/
theorem not_convertible (h : ¬ Convertible r.target) :
    ∀ serve, connectWith serve r = fail .valueError := by
  obtain ⟨host, hd⟩ := not_forall.1 h
  obtain ⟨d, hd⟩ := not_forall.1 hd
  simp only [Classical.not_imp] at hd
  obtain ⟨ht, hne, hchars, hbad⟩ := hd
  have hr : PyText.rpartition ':' r.target.toList = some (host.toList, d.toList) := by
    refine rpartition_some.2 ⟨colon_notMem hchars, ?_⟩
    rw [ht]
    simp
  have hdigits : PyText.isDigits d.toList = true :=
    isDigits_iff.2 ⟨fun he => hne (String.toList_injective he), hchars⟩
  have hport : PyText.toPort d.toList = none := by
    rw [toPort_none, String.length_toList]
    exact hbad
  intro serve
  unfold connectWith
  rw [hr]
  simp [hdigits, hport]

/-- What goes on goes on with one host and one port. -/
theorem proceeds_unique {h h' : String} {n n' : Nat} (hp : Proceeds r h n) (hp' : Proceeds r h' n') :
    h = h' ∧ n = n' := by
  by_contra hne
  let serve : String → Nat → GProg Bool := fun a b =>
    if a = h ∧ b = n then .ret true else .raise .valueError
  have hsame : serve h n = serve h' n' := (hp serve).symm.trans (hp' serve)
  have hother : ¬ (h' = h ∧ n' = n) := fun he => hne ⟨he.1.symm, he.2.symm⟩
  simp only [serve, and_self, if_true, if_neg hother] at hsame
  cases hsame

/-- What ends whatever follows does not go on. -/
theorem not_proceeds {p : GProg Bool} (hp : ∀ serve, connectWith serve r = p) {host : String} {port : Nat} :
    ¬ Proceeds r host port := by
  intro h
  have hret : p = .ret true := (hp fun _ _ => .ret true).symm.trans (h fun _ _ => .ret true)
  have hraise : p = .raise .valueError :=
    (hp fun _ _ => .raise .valueError).symm.trans (h fun _ _ => .raise .valueError)
  cases hret.symm.trans hraise

/-- **A slot that was taken** is given back once, whatever the target. -/
theorem path_slot {tr : Run} {out : Except Exn Bool} (h : (doConnect canonicalHost r).Path tr out)
    (hacq : Acquired tr) : released tr = 1 := by
  rw [doConnect_eq] at h
  rcases connectWith_cases r with ⟨host, port, -, hgo⟩ | ⟨-, hgo⟩ | hbad
  · rw [hgo] at h
    exact (path_admission canonicalHost h).1 hacq
  · rw [hgo] at h
    exact absurd hacq ((denyEarly_keeps _ _ _ _).path h).1
  · rw [not_convertible hbad] at h
    obtain ⟨rfl, -⟩ := h
    exact absurd hacq List.not_mem_nil

/-- Where `int()` raises, nothing is recorded and the exception escapes. -/
theorem not_handled (canonicalHost : String → Option String) (hconv : ¬ Convertible r.target) :
    ¬ TargetHandled canonicalHost r := by
  intro h
  have hraise : doConnect canonicalHost r = fail .valueError := by
    rw [doConnect_eq]
    exact not_convertible hconv _
  have hpath : (doConnect canonicalHost r).Path [] (.error .valueError) := by
    rw [hraise]
    exact ⟨rfl, rfl⟩
  obtain ⟨x, hx, -⟩ := h.contained [] _ hpath fun x hx => absurd hx List.not_mem_nil
  exact absurd hx List.not_mem_nil

/-- **A CONNECT target is handled as it should be** exactly where its port part, when `isdigit()`
accepts it, is one that `int()` accepts: no superscripts, and at most 4300 digits. -/
theorem target_handled_iff (canonicalHost : String → Option String) (r : ConnectRequest) :
    TargetHandled canonicalHost r ↔ Convertible r.target := by
  constructor
  · intro h
    by_contra hconv
    exact not_handled canonicalHost hconv h
  · intro hconv
    rcases connectWith_cases r with ⟨host, port, hspell, hgo⟩ | ⟨hnone, hgo⟩ | hbad
    · refine ⟨fun tr e hp hh => ?_, fun host' port' => ⟨fun hgo' => ?_, fun hs => ?_⟩, fun hnone => ?_,
        fun tr out => path_slot⟩
      · rw [doConnect_eq, hgo] at hp
        rcases (path_admission canonicalHost hp).2 hh with he | hc
        · cases he
        · exact hc
      · obtain ⟨rfl, rfl⟩ := proceeds_unique hgo hgo'
        exact hspell
      · obtain ⟨rfl, rfl⟩ := hspell.unique hs
        exact hgo
      · exact absurd hspell (hnone host port)
    · refine ⟨fun tr e hp hh => ?_, fun host port => ⟨fun hgo' => ?_, fun hs => absurd hs (hnone host port)⟩,
        fun _ tr out hp hh => ?_, fun tr out => path_slot⟩
      · rw [doConnect_eq, hgo] at hp
        cases (path_denyEarly hp hh).1
      · exact absurd hgo' (not_proceeds hgo)
      · rw [doConnect_eq, hgo] at hp
        exact (path_denyEarly hp hh).2
    · exact absurd hconv hbad

/-- `CONNECT h:²` leaves `do_CONNECT` with a `ValueError`, and nothing is recorded. -/
theorem superscript_port : ¬ TargetHandled (fun _ => none) ⟨"h:²", 5, "10.0.0.2", "", "", "", "", ""⟩ := by
  refine not_handled _ fun hconv => ?_
  have hdigits := (hconv "h" "²" (by decide) (by decide) (by decide)).1
  exact absurd hdigits (by decide)

end

end ConnectTarget

end StrixPEP
