import StrixPEP.Lib.Bounded
import Mathlib.Data.List.TakeWhile

/-!
# The authority of a URL

`Url.parse` reads the scheme and the authority of a URL text (generic syntax: `scheme://`, then the
authority up to the first `/`, `?` or `#`; user information before the last `@`; a host that is
bracketed or free of colons; a port after the colon).

Principal result: `parse_iff` — which texts that begin with `https://host` have exactly this host,
no user information and a given port text.
-/

namespace Url

/-! ## Cutting a text -/

/-- The parts before and after the first occurrence. -/
def cut (sep : Char) : List Char → Option (List Char × List Char)
  | [] => none
  | c :: text => if c = sep then some ([], text) else (cut sep text).map fun r => (c :: r.1, r.2)

theorem cut_eq_some {sep : Char} {text a b : List Char} :
    cut sep text = some (a, b) ↔ text = a ++ sep :: b ∧ sep ∉ a := by
  induction text generalizing a with
  | nil => simp [cut]
  | cons c text ih =>
    unfold cut
    split
    · rename_i hc
      subst hc
      cases a with
      | nil => simp [eq_comm]
      | cons d a =>
        simp only [Option.some.injEq, Prod.mk.injEq, List.cons_append, List.cons.injEq,
          List.mem_cons, not_or]
        constructor
        · rintro ⟨h, -⟩
          cases h
        · rintro ⟨⟨rfl, -⟩, hne, -⟩
          exact absurd rfl hne
    · rename_i hc
      cases a with
      | nil =>
        simp only [Option.map_eq_some_iff, Prod.mk.injEq, List.nil_append, List.cons.injEq]
        constructor
        · rintro ⟨r, -, h, -⟩
          cases h
        · rintro ⟨⟨rfl, -⟩, -⟩
          exact absurd rfl hc
      | cons d a =>
        simp only [Option.map_eq_some_iff, Prod.mk.injEq, List.cons.injEq, List.cons_append,
          List.mem_cons, not_or]
        constructor
        · rintro ⟨⟨a', b'⟩, hr, ⟨rfl, rfl⟩, rfl⟩
          obtain ⟨rfl, hn⟩ := ih.1 hr
          exact ⟨⟨rfl, rfl⟩, Ne.symm hc, hn⟩
        · rintro ⟨⟨rfl, rfl⟩, -, hn⟩
          exact ⟨(a, b), ih.2 ⟨rfl, hn⟩, ⟨rfl, rfl⟩, rfl⟩

theorem cut_eq_none {sep : Char} {text : List Char} : cut sep text = none ↔ sep ∉ text := by
  induction text with
  | nil => simp [cut]
  | cons c text ih =>
    unfold cut
    split
    · rename_i hc
      simp [hc]
    · rename_i hc
      rw [Option.map_eq_none_iff, ih, List.mem_cons, not_or]
      exact ⟨fun h => ⟨Ne.symm hc, h⟩, fun h => h.2⟩

/-! ## The parts of a URL -/

/-- A character that ends the authority. -/
def isEnd (c : Char) : Bool := c = '/' || c = '?' || c = '#'

structure Parts where
  scheme : List Char
  userinfo : Option (List Char)
  host : List Char
  port : Option (List Char)
  deriving DecidableEq, Repr

/-- The parts before and after the first `://`. -/
def splitScheme : List Char → Option (List Char × List Char)
  | ':' :: '/' :: '/' :: rest => some ([], rest)
  | c :: rest => (splitScheme rest).map fun r => (c :: r.1, r.2)
  | [] => none

/-- The host and the port of an authority without user information. -/
def hostPort : List Char → Option (List Char × Option (List Char))
  | '[' :: text =>
    match cut ']' text with
    | some (inner, []) => some ('[' :: inner ++ [']'], none)
    | some (inner, ':' :: port) => some ('[' :: inner ++ [']'], some port)
    | _ => none
  | text =>
    match cut ':' text with
    | none => some (text, none)
    | some (host, port) => some (host, some port)

/-- The user information, which the last `@` ends, and the rest of an authority. -/
def userHost (authority : List Char) : Option (List Char) × List Char :=
  match cut '@' authority.reverse with
  | none => (none, authority)
  | some (host, user) => (some user.reverse, host.reverse)

def parse (text : List Char) : Option Parts :=
  match splitScheme text with
  | none => none
  | some (scheme, rest) =>
    let (userinfo, host) := userHost (rest.takeWhile fun c => !isEnd c)
    (hostPort host).map fun r => ⟨scheme, userinfo, r.1, r.2⟩

def ofDigits (text : List Char) : Nat := text.foldl (fun n c => 10 * n + (c.toNat - 48)) 0

/-- The port that a port text stands for. -/
def portOf (default : Nat) : Option (List Char) → Option Nat
  | none | some [] => some default
  | some text => if text.all Char.isDigit then some (ofDigits text) else none

/-! ## Texts that begin with a host -/

/-- A host as it stands in an authority: nothing in it ends the host. -/
def PlainHost (host : List Char) : Prop :=
  (∃ inner, host = '[' :: inner ++ [']'] ∧ ']' ∉ inner) ∨ (host.head? ≠ some '[' ∧ ':' ∉ host)

/-- What stands between the host and the end of the authority. -/
def portText : Option (List Char) → List Char
  | none => []
  | some port => ':' :: port

theorem hostPort_iff {text host : List Char} {port : Option (List Char)} :
    hostPort text = some (host, port) ↔ text = host ++ portText port ∧ PlainHost host := by
  constructor
  · intro h
    unfold hostPort at h
    split at h
    · split at h
      · rename_i inner hc
        obtain ⟨rfl, hn⟩ := cut_eq_some.1 hc
        cases h
        exact ⟨by simp [portText], Or.inl ⟨inner, rfl, hn⟩⟩
      · rename_i inner port hc
        obtain ⟨rfl, hn⟩ := cut_eq_some.1 hc
        cases h
        exact ⟨by simp [portText], Or.inl ⟨inner, rfl, hn⟩⟩
      · cases h
    · rename_i hbr
      split at h
      · rename_i hc
        cases h
        refine ⟨by simp [portText], Or.inr ⟨fun hh => ?_, cut_eq_none.1 hc⟩⟩
        cases text with
        | nil => cases hh
        | cons c text =>
          cases hh
          exact hbr text rfl
      · rename_i host' port' hc
        obtain ⟨rfl, hn⟩ := cut_eq_some.1 hc
        cases h
        refine ⟨rfl, Or.inr ⟨fun hh => ?_, hn⟩⟩
        cases host with
        | nil => cases hh
        | cons c host =>
          cases hh
          exact hbr _ rfl
  · rintro ⟨rfl, ⟨inner, rfl, hn⟩ | ⟨hhead, hcolon⟩⟩
    · cases port with
      | none =>
        have hc : cut ']' (inner ++ [']']) = some (inner, []) := cut_eq_some.2 ⟨rfl, hn⟩
        simp [hostPort, portText, hc]
      | some port =>
        have hc : cut ']' (inner ++ ']' :: ':' :: port) = some (inner, ':' :: port) :=
          cut_eq_some.2 ⟨rfl, hn⟩
        simp [hostPort, portText, hc]
    · have hne : ∀ rest, host ++ portText port ≠ '[' :: rest := by
        intro rest he
        cases host with
        | nil => cases port <;> cases he
        | cons c host =>
          cases he
          exact hhead rfl
      unfold hostPort
      split
      · rename_i rest he
        exact absurd he (hne rest)
      · cases port with
        | none =>
          have hc : cut ':' host = none := cut_eq_none.2 hcolon
          simp [portText, hc]
        | some port =>
          have hc : cut ':' (host ++ ':' :: port) = some (host, port) := cut_eq_some.2 ⟨rfl, hcolon⟩
          simp [portText, hc]

theorem userHost_none {authority host : List Char} :
    userHost authority = (none, host) ↔ authority = host ∧ '@' ∉ authority := by
  unfold userHost
  split
  · rename_i hc
    rw [cut_eq_none, List.mem_reverse] at hc
    simp [hc]
  · rename_i h u hc
    have hm : '@' ∈ authority := by
      rw [← List.mem_reverse, (cut_eq_some.1 hc).1]
      simp
    simp [hm]

theorem takeWhile_eq {text a : List Char} : text.takeWhile (fun c => !isEnd c) = a ↔
    ∃ tail, text = a ++ tail ∧ (∀ c ∈ a, isEnd c = false) ∧ ∀ c ∈ tail.head?, isEnd c = true := by
  constructor
  · rintro rfl
    refine ⟨text.dropWhile fun c => !isEnd c, List.takeWhile_append_dropWhile.symm, ?_, ?_⟩
    · intro c hc
      simpa using List.mem_takeWhile_imp hc
    · intro c hc
      have := List.head?_dropWhile_not (fun c => !isEnd c) text
      rw [Option.mem_def.1 hc] at this
      simpa using this
  · rintro ⟨tail, rfl, ha, htail⟩
    rw [List.takeWhile_append_of_pos fun c hc => by simp [ha c hc]]
    cases tail with
    | nil => simp
    | cons c tail =>
      have := htail c rfl
      simp [this]

theorem splitScheme_https (rest : List Char) :
    splitScheme ("https://".toList ++ rest) = some ("https".toList, rest) := rfl

/-- **The texts with a given host.** A text that begins with `https://host` has this host, no user
information and the port text `port` exactly where the host is plain and is followed by this port
text and the end of the authority. -/
theorem parse_iff {host rest : List Char} {port : Option (List Char)} :
    parse ("https://".toList ++ (host ++ rest)) = some ⟨"https".toList, none, host, port⟩ ↔
      PlainHost host ∧ (∀ c ∈ host ++ portText port, isEnd c = false ∧ c ≠ '@') ∧
        ∃ tail, rest = portText port ++ tail ∧ ∀ c ∈ tail.head?, isEnd c = true := by
  have hparse : parse ("https://".toList ++ (host ++ rest)) =
      some ⟨"https".toList, none, host, port⟩ ↔
      ∃ a, (host ++ rest).takeWhile (fun c => !isEnd c) = a ∧ userHost a = (none, a) ∧
        hostPort a = some (host, port) := by
    unfold parse
    rw [splitScheme_https]
    simp only [Option.map_eq_some_iff, Parts.mk.injEq, true_and]
    constructor
    · rintro ⟨r, hr, hu, hhost, hport⟩
      have hrp : r = (host, port) := Prod.ext hhost hport
      rw [hrp] at hr
      have hu' : userHost ((host ++ rest).takeWhile fun c => !isEnd c) =
          (none, (userHost ((host ++ rest).takeWhile fun c => !isEnd c)).2) := Prod.ext hu rfl
      have he := (userHost_none.1 hu').1
      refine ⟨_, rfl, ?_, ?_⟩
      · rw [← he] at hu'
        exact hu'
      · rw [he]
        exact hr
    · rintro ⟨a, rfl, hu, hh⟩
      refine ⟨(host, port), ?_, ?_, rfl, rfl⟩
      · rw [hu]
        exact hh
      · rw [hu]
  rw [hparse]
  constructor
  · rintro ⟨a, ha, hu, hh⟩
    obtain ⟨rfl, hplain⟩ := hostPort_iff.1 hh
    obtain ⟨tail, htext, hends, htail⟩ := takeWhile_eq.1 ha
    refine ⟨hplain, fun c hc => ⟨hends c hc, fun h => ?_⟩, tail, ?_, htail⟩
    · subst h
      exact (userHost_none.1 hu).2 hc
    · rw [List.append_assoc] at htext
      exact List.append_cancel_left htext
  · rintro ⟨hplain, hends, tail, rfl, htail⟩
    refine ⟨host ++ portText port, ?_, ?_, hostPort_iff.2 ⟨rfl, hplain⟩⟩
    · exact takeWhile_eq.2 ⟨tail, by rw [List.append_assoc], fun c hc => (hends c hc).1, htail⟩
    · exact userHost_none.2 ⟨rfl, fun h => (hends '@' h).2 rfl⟩

end Url
