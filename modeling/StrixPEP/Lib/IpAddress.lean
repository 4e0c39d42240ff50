import StrixPEP.Lib.Bounded
import Mathlib.Data.List.TakeWhile
import Mathlib.Data.BitVec
import Mathlib.Tactic.IntervalCases

/-!
# Internet addresses and their texts

Python's `ipaddress` (3.12): addresses, what `ip_address` reads and what `str` writes.

* `Address` — an IPv4 or an IPv6 address; the scope of an IPv6 address is part of it;
* `parse`, `Address.text` — `ip_address(text)` and `str(address)`;
* `Net`, `parseNet`, `Net.contains` — a network, `ip_network(text)` and `address in network`.

Principal result: `parse_text`, what is written is read back.
-/

namespace IpAddress

abbrev Text := List Char

/-- What may stand behind the `%` of an IPv6 address. -/
abbrev Scope := { t : Text // t ≠ [] ∧ '%' ∉ t ∧ '/' ∉ t }

/-- `IPv4Address` and `IPv6Address`. -/
inductive Address where
  | v4 (ip : BitVec 32)
  | v6 (ip : BitVec 128) (scope : Option Scope)
  deriving DecidableEq

/-! ## Numbers and their pieces -/

/-- The number with these digits, the most significant one first. -/
def assemble (base : Nat) (digits : List Nat) : Nat := digits.foldl (fun n d => base * n + d) 0

/-- The last `count` digits of a number, the most significant one first. -/
def pieces (base : Nat) : (count n : Nat) → List Nat
  | 0, _ => []
  | count + 1, n => pieces base count (n / base) ++ [n % base]

@[simp] theorem length_pieces (base count n : Nat) : (pieces base count n).length = count := by
  induction count generalizing n with
  | zero => rfl
  | succ count ih => rw [pieces, List.length_append, ih, List.length_singleton]

theorem pieces_lt {base count n d : Nat} (hb : 0 < base) (h : d ∈ pieces base count n) : d < base := by
  induction count generalizing n with
  | zero => cases h
  | succ count ih =>
    rcases List.mem_append.1 h with h | h
    · exact ih h
    · rw [List.mem_singleton.1 h]
      exact Nat.mod_lt _ hb

theorem assemble_append (base : Nat) (xs : List Nat) (d : Nat) :
    assemble base (xs ++ [d]) = base * assemble base xs + d := by
  unfold assemble
  rw [List.foldl_append]
  rfl

theorem assemble_pieces {base count n : Nat} (h : n < base ^ count) :
    assemble base (pieces base count n) = n := by
  induction count generalizing n with
  | zero =>
    rw [Nat.pow_zero] at h
    obtain rfl : n = 0 := by omega
    rfl
  | succ count ih =>
    have hdiv : n / base < base ^ count := by
      refine Nat.div_lt_of_lt_mul ?_
      rwa [← Nat.pow_succ']
    rw [pieces, assemble_append, ih hdiv]
    exact Nat.div_add_mod n base

theorem assemble_lt {base : Nat} {digits : List Nat} (h : ∀ d ∈ digits, d < base) :
    assemble base digits < base ^ digits.length := by
  induction digits using List.reverseRecOn with
  | nil => exact Nat.one_pos
  | append_singleton digits d ih =>
    have hd := h d (by simp)
    have hrest := ih fun e he => h e (List.mem_append_left _ he)
    rw [assemble_append, List.length_append, List.length_singleton, Nat.pow_succ']
    calc base * assemble base digits + d < base * assemble base digits + base := by omega
      _ = base * (assemble base digits + 1) := (Nat.mul_succ _ _).symm
      _ ≤ base * base ^ digits.length := Nat.mul_le_mul_left _ hrest

theorem pieces_assemble {base : Nat} {digits : List Nat} (h : ∀ d ∈ digits, d < base) :
    pieces base digits.length (assemble base digits) = digits := by
  induction digits using List.reverseRecOn with
  | nil => rfl
  | append_singleton digits d ih =>
    have hd := h d (by simp)
    have hpos : 0 < base := by omega
    rw [assemble_append, List.length_append, List.length_singleton, pieces,
      Nat.mul_add_div hpos, Nat.div_eq_of_lt hd, Nat.add_zero, Nat.mul_add_mod,
      Nat.mod_eq_of_lt hd, ih fun e he => h e (List.mem_append_left _ he)]

/-! ## Numerals -/

/-- The value of a hexadecimal digit. -/
def digitValue (c : Char) : Nat :=
  if c.isDigit then c.toNat - 48 else if 'a' ≤ c ∧ c ≤ 'f' then c.toNat - 87 else c.toNat - 55

def isHexDigit (c : Char) : Bool :=
  c.isDigit || decide ('a' ≤ c ∧ c ≤ 'f') || decide ('A' ≤ c ∧ c ≤ 'F')

/-- `int(text, base)`. -/
def number (base : Nat) (t : Text) : Nat := assemble base (t.map digitValue)

theorem digitValue_digitChar {d : Nat} (h : d < 16) : digitValue d.digitChar = d := by
  interval_cases d <;> rfl

theorem number_toDigits {base : Nat} (hb : 1 < base) (hb' : base ≤ 16) (n : Nat) :
    number base (Nat.toDigits base n) = n := by
  induction n using Nat.strongRecOn with
  | ind n ih =>
    rw [Nat.toDigits_eq_if hb]
    split
    · rename_i hlt
      have hone : number base [n.digitChar] = base * 0 + digitValue n.digitChar := rfl
      rw [hone, digitValue_digitChar (by omega)]
      omega
    · rename_i hge
      have hlast : n % base < 16 := (Nat.mod_lt n (by omega)).trans_le hb'
      have hrest := ih (n / base) (Nat.div_lt_self (by omega) hb)
      unfold number at hrest ⊢
      rw [List.map_append, List.map_singleton, assemble_append, hrest, digitValue_digitChar hlast]
      exact Nat.div_add_mod n base

theorem digitChar_digitValue {c : Char} (h : c.isDigit = true) : (digitValue c).digitChar = c := by
  have hrange : ∀ n, 48 ≤ n → n ≤ 57 → (n - 48).digitChar = Char.ofNat n := by
    intro n h1 h2
    interval_cases n <;> rfl
  unfold digitValue
  rw [if_pos h]
  simp only [Char.isDigit, Bool.and_eq_true, decide_eq_true_eq] at h
  rw [hrange c.toNat h.1 h.2, Char.ofNat_toNat]

theorem digitValue_lt {c : Char} (h : c.isDigit = true) : digitValue c < 10 := by
  unfold digitValue
  rw [if_pos h]
  simp only [Char.isDigit, Bool.and_eq_true, decide_eq_true_eq] at h
  have := h.2
  have h2 : c.toNat ≤ 57 := this
  omega

/-- A decimal numeral without leading zeros is the numeral of its value. -/
theorem toDigits_number {t : Text} (hne : t ≠ []) (hdigits : ∀ c ∈ t, c.isDigit = true)
    (hzero : t = ['0'] ∨ t.head? ≠ some '0') : Nat.toDigits 10 (number 10 t) = t := by
  induction t using List.reverseRecOn with
  | nil => exact absurd rfl hne
  | append_singleton l c ih =>
    have hc := hdigits c (by simp)
    have hv := digitValue_lt hc
    have hchar : Nat.toDigits 10 (digitValue c) = [c] := by
      rw [Nat.toDigits_of_lt_base hv, digitChar_digitValue hc]
    have hnum : number 10 (l ++ [c]) = 10 * number 10 l + digitValue c := by
      unfold number
      rw [List.map_append, List.map_singleton, assemble_append]
    rw [hnum]
    cases l with
    | nil => simpa [number, assemble] using hchar
    | cons x l =>
      have hhead : x ≠ '0' := by
        rcases hzero with h | h
        · simp at h
        · simpa using h
      have hrest := ih (List.cons_ne_nil x l) (fun d hd => hdigits d (List.mem_append_left _ hd))
        (Or.inr (by simpa using hhead))
      have hpos : 0 < number 10 (x :: l) := by
        rw [Nat.pos_iff_ne_zero]
        intro hzero
        rw [hzero, Nat.toDigits_zero] at hrest
        exact hhead (List.cons.inj hrest).1.symm
      rw [← Nat.toDigits_append_toDigits (by decide) hpos hv, hrest, hchar]

theorem mem_toDigits {base n : Nat} (hb : 1 < base) {c : Char} (h : c ∈ Nat.toDigits base n) : ∃ d < base, c = d.digitChar := by
  induction n using Nat.strongRecOn with
  | ind n ih =>
    rw [Nat.toDigits_eq_if hb] at h
    split at h
    · rename_i hlt
      exact ⟨n, hlt, List.mem_singleton.1 h⟩
    · rename_i hge
      rcases List.mem_append.1 h with h | h
      · exact ih (n / base) (Nat.div_lt_self (by omega) hb) h
      · exact ⟨n % base, Nat.mod_lt n (by omega), List.mem_singleton.1 h⟩

theorem digitChar_hex {d : Nat} (h : d < 16) :
    isHexDigit d.digitChar = true ∧ d.digitChar ≠ ':' ∧ d.digitChar ≠ '.' ∧ d.digitChar ≠ '%' ∧
      d.digitChar ≠ '/' := by
  interval_cases d <;> decide

theorem digitChar_decimal {d : Nat} (h : d < 10) : d.digitChar.isDigit = true ∧ d.digitChar ≠ '.' := by
  interval_cases d <;> decide

/-! ## Texts of addresses -/

/-- `_parse_octet`. -/
def octet (t : Text) : Option Nat :=
  if t = [] ∨ !t.all Char.isDigit ∨ 3 < t.length then none
  else if t ≠ ['0'] ∧ t.head? = some '0' then none
  else if 255 < number 10 t then none
  else some (number 10 t)

/-- `IPv4Address(text)`. -/
def parse4 (t : Text) : Option (BitVec 32) :=
  if (t.splitOn '.').length = 4 then
    ((t.splitOn '.').mapM octet).map fun octets => BitVec.ofNat 32 (assemble 256 octets)
  else none

/-- `str(ip)` of an IPv4 address. -/
def text4 (ip : BitVec 32) : Text :=
  List.intercalate ['.'] ((pieces 256 4 ip.toNat).map (Nat.toDigits 10))

/-- `_parse_hextet`, and the `int` of an empty text. -/
def hextet (t : Text) : Option Nat :=
  if t ≠ [] ∧ t.all isHexDigit ∧ t.length ≤ 4 then some (number 16 t) else none

/-- An IPv4 address in the place of the last two hextets. -/
def expandSuffix (parts : List Text) : Option (List Text) :=
  match parts.getLast? with
  | none => none
  | some last =>
    if '.' ∈ last then
      (parse4 last).map fun ip =>
        parts.dropLast ++ (pieces 65536 2 ip.toNat).map (Nat.toDigits 16)
    else some parts

/-- The hextets before or after a `::`; `edge` is the outermost part, which is empty where the
`::` is at the end of the text. -/
def flank (edge : Text) (inner flank : List Text) : Option (List Text) :=
  if edge = [] then if inner = [] then some [] else none else some flank

/-- The hextets that the parts between the colons spell. -/
def hextets (parts : List Text) : Option (List Nat) :=
  match parts with
  | [] => none
  | first :: rest =>
    match rest.getLast? with
    | none => none
    | some last =>
      match rest.dropLast.splitOn [] with
      | [_] => if parts.length = 8 then parts.mapM hextet else none
      | [before, after] =>
        match flank first before (first :: before), flank last after (after ++ [last]) with
        | some hi, some lo =>
          if 8 ≤ hi.length + lo.length then none
          else
            match hi.mapM hextet, lo.mapM hextet with
            | some hs, some ls =>
              some (hs ++ List.replicate (8 - (hi.length + lo.length)) 0 ++ ls)
            | _, _ => none
        | _, _ => none
      | _ => none

/-- `_ip_int_from_string`. -/
def parse6 (t : Text) : Option (BitVec 128) :=
  if (t.splitOn ':').length < 3 then none
  else
    match expandSuffix (t.splitOn ':') with
    | none => none
    | some parts =>
      if 9 < parts.length then none
      else (hextets parts).map fun hs => BitVec.ofNat 128 (assemble 65536 hs)

/-- `_split_scope_id`, for a text without a slash. -/
def splitScope (t : Text) : Option (Text × Option Scope) :=
  match t.dropWhile (· ≠ '%') with
  | [] => some (t, none)
  | _ :: scope =>
    if h : scope ≠ [] ∧ '%' ∉ scope ∧ '/' ∉ scope then
      some (t.takeWhile (· ≠ '%'), some ⟨scope, h⟩)
    else none

/-- `ip_address(text)`. -/
def parse (t : Text) : Option Address :=
  match parse4 t with
  | some ip => some (.v4 ip)
  | none =>
    if '/' ∈ t then none
    else
      match splitScope t with
      | none => none
      | some (body, scope) => (parse6 body).map fun ip => .v6 ip scope

/-- The loop of `_compress_hextets`: the start and the length of the first longest run of zeros
that is longer than `best`. -/
def zeroRun (index start len : Nat) (best : Nat × Nat) : List Text → Nat × Nat
  | [] => best
  | part :: parts =>
    if part = ['0'] then
      let start' := if len = 0 then index else start
      zeroRun (index + 1) start' (len + 1) (if best.2 < len + 1 then (start', len + 1) else best) parts
    else zeroRun (index + 1) start 0 best parts

/-- `_compress_hextets`. -/
def compress (parts : List Text) : List Text :=
  let run := zeroRun 0 0 0 (0, 0) parts
  if 1 < run.2 then
    (if run.1 = 0 then [[]] else []) ++ parts.take run.1 ++ [[]] ++ parts.drop (run.1 + run.2) ++
      (if run.1 + run.2 = parts.length then [[]] else [])
  else parts

/-- `_string_from_ip_int`. -/
def text6 (ip : BitVec 128) : Text :=
  List.intercalate [':'] (compress ((pieces 65536 8 ip.toNat).map (Nat.toDigits 16)))

/-- `str(address)`. -/
def Address.text : Address → Text
  | .v4 ip => text4 ip
  | .v6 ip none => text6 ip
  | .v6 ip (some scope) => text6 ip ++ '%' :: scope.1

/-! ## Networks -/

/-- `IPv4Network` and `IPv6Network`: an address and the length of the prefix. -/
inductive Net where
  | v4 (ip : BitVec 32) (prefixlen : Nat)
  | v6 (ip : BitVec 128) (prefixlen : Nat)
  deriving DecidableEq

/-- `_prefix_from_prefix_string`. -/
def prefixLength (max : Nat) (t : Text) : Option Nat :=
  if t = [] ∨ !t.all Char.isDigit ∨ 4300 < t.length then none
  else if max < number 10 t then none
  else some (number 10 t)

/-- `_prefix_from_ip_int`. -/
def prefixOfMask (mask : BitVec 32) : Option Nat :=
  (List.range 33).find? fun n => mask = BitVec.allOnes 32 <<< (32 - n)

/-- `_make_netmask` of IPv4: a length, a netmask or a hostmask. -/
def netmask4 (t : Text) : Option Nat :=
  match prefixLength 32 t with
  | some n => some n
  | none =>
    match parse4 t with
    | none => none
    | some mask => (prefixOfMask mask).orElse fun _ => prefixOfMask (~~~ mask)

/-- Only the bits of the prefix are set. -/
def noHostBits {w : Nat} (ip : BitVec w) (n : Nat) : Bool := ip >>> (w - n) <<< (w - n) == ip

/-- `ip_network(text)`. -/
def parseNet (t : Text) : Option Net :=
  match t.splitOn '/' with
  | [] => none
  | addr :: mask =>
    if 1 < mask.length then none
    else
      match parse addr with
      | none => none
      | some (.v4 ip) =>
        match mask.head?.elim (some 32) netmask4 with
        | none => none
        | some n => if noHostBits ip n then some (.v4 ip n) else none
      | some (.v6 ip _) =>
        match mask.head?.elim (some 128) (prefixLength 128) with
        | none => none
        | some n => if noHostBits ip n then some (.v6 ip n) else none

/-- `address in network`. -/
def Net.contains : Net → Address → Bool
  | .v4 net n, .v4 ip => ip >>> (32 - n) == net >>> (32 - n)
  | .v6 net n, .v6 ip _ => ip >>> (128 - n) == net >>> (128 - n)
  | _, _ => false

/-! ## What is written is read back -/

theorem mapM_of_forall {α β : Type} {f : β → Option α} {g : α → β} {xs : List α}
    (h : ∀ x ∈ xs, f (g x) = some x) : (xs.map g).mapM f = some xs := by
  induction xs with
  | nil => rfl
  | cons x xs ih =>
    rw [List.map_cons, List.mapM_cons, h x List.mem_cons_self,
      ih fun y hy => h y (List.mem_cons_of_mem _ hy)]
    rfl

theorem some_of_mapM {α β : Type} {f : α → Option β} {xs : List α} {ys : List β}
    (h : xs.mapM f = some ys) : ∀ x ∈ xs, ∃ y, f x = some y := by
  induction xs generalizing ys with
  | nil => nofun
  | cons x xs ih =>
    rw [List.mapM_cons] at h
    cases hx : f x with
    | none => simp [hx] at h
    | some y =>
      cases hxs : xs.mapM f with
      | none => simp [hx, hxs] at h
      | some zs =>
        intro z hz
        rcases List.mem_cons.1 hz with rfl | hz
        · exact ⟨y, hx⟩
        · exact ih hxs z hz

theorem octet_toDigits {n : Nat} (h : n < 256) : octet (Nat.toDigits 10 n) = some n := by
  have hne : Nat.toDigits 10 n ≠ [] := Nat.toDigits_ne_nil
  have hdigits : (Nat.toDigits 10 n).all Char.isDigit = true := by
    rw [List.all_eq_true]
    exact fun c hc => Nat.isDigit_of_mem_toDigits (by decide) (by decide) hc
  have hlen : (Nat.toDigits 10 n).length ≤ 3 :=
    (Nat.length_toDigits_le_iff (by decide) (by decide)).2 (by omega)
  have hzero : ¬ (Nat.toDigits 10 n ≠ ['0'] ∧ (Nat.toDigits 10 n).head? = some '0') := by
    have : ∀ m < 256, ¬ (Nat.toDigits 10 m ≠ ['0'] ∧ (Nat.toDigits 10 m).head? = some '0') := by
      decide +kernel
    exact this n h
  have hnum : number 10 (Nat.toDigits 10 n) = n := number_toDigits (by decide) (by decide) n
  unfold octet
  rw [hnum, if_neg, if_neg hzero, if_neg (by omega)]
  rw [hdigits]
  simp [hne]
  omega

theorem parse4_text4 (ip : BitVec 32) : parse4 (text4 ip) = some ip := by
  have hfree : ∀ l ∈ (pieces 256 4 ip.toNat).map (Nat.toDigits 10), '.' ∉ l := by
    intro l hl hdot
    obtain ⟨n, -, rfl⟩ := List.mem_map.1 hl
    obtain ⟨d, hd, hc⟩ := mem_toDigits (by decide) hdot
    exact (digitChar_decimal hd).2 hc.symm
  have hsplit : (text4 ip).splitOn '.' = (pieces 256 4 ip.toNat).map (Nat.toDigits 10) :=
    List.splitOn_intercalate '.' hfree (by simp [pieces])
  have hoctets : ((pieces 256 4 ip.toNat).map (Nat.toDigits 10)).mapM octet =
      some (pieces 256 4 ip.toNat) :=
    mapM_of_forall fun n hn => octet_toDigits (pieces_lt (by decide) hn)
  have hlt : ip.toNat < 256 ^ 4 := ip.isLt
  unfold parse4
  rw [hsplit, if_pos (by simp), hoctets, Option.map_some, assemble_pieces hlt, BitVec.ofNat_toNat,
    BitVec.setWidth_eq]

theorem toDigits_octet {t : Text} {n : Nat} (h : octet t = some n) : Nat.toDigits 10 n = t ∧ n < 256 := by
  unfold octet at h
  split at h
  · cases h
  rename_i hform
  split at h
  · cases h
  rename_i hzero
  split at h
  · cases h
  rename_i hle
  cases h
  simp only [not_or, Bool.not_eq_true, Bool.not_eq_false', List.all_eq_true] at hform
  refine ⟨toDigits_number hform.1 hform.2.1 ?_, by omega⟩
  by_cases ht : t = ['0']
  · exact Or.inl ht
  · exact Or.inr fun hh => hzero ⟨ht, hh⟩

theorem map_of_mapM {α β : Type} {f : α → Option β} {g : β → α} {xs : List α} {ys : List β}
    (h : xs.mapM f = some ys) (hfg : ∀ x y, f x = some y → g y = x) : ys.map g = xs := by
  induction xs generalizing ys with
  | nil =>
    cases h
    rfl
  | cons x xs ih =>
    rw [List.mapM_cons] at h
    cases hx : f x with
    | none => simp [hx] at h
    | some y =>
      cases hxs : xs.mapM f with
      | none => simp [hx, hxs] at h
      | some zs =>
        simp only [hx, hxs, Option.bind_eq_bind, Option.bind_some, Option.pure_def,
          Option.some.injEq] at h
        rw [← h, List.map_cons, hfg x y hx, ih hxs]

/-- An IPv4 address has one text. -/
theorem text4_parse4 {t : Text} {ip : BitVec 32} (h : parse4 t = some ip) : text4 ip = t := by
  unfold parse4 at h
  split at h
  · rename_i hlen
    obtain ⟨octets, hoctets, rfl⟩ := Option.map_eq_some_iff.1 h
    have hback : octets.map (Nat.toDigits 10) = t.splitOn '.' :=
      map_of_mapM hoctets fun _ _ ho => (toDigits_octet ho).1
    have hcount : octets.length = 4 := by rw [← hlen, ← hback, List.length_map]
    have hbound : ∀ d ∈ octets, d < 256 := by
      intro d hd
      have hl : Nat.toDigits 10 d ∈ t.splitOn '.' := by
        rw [← hback]
        exact List.mem_map_of_mem hd
      obtain ⟨n, hn⟩ := some_of_mapM hoctets _ hl
      obtain ⟨hsame, hn256⟩ := toDigits_octet hn
      have hnum := congrArg (number 10) hsame
      rw [number_toDigits (by decide) (by decide), number_toDigits (by decide) (by decide)] at hnum
      omega
    have hlt := assemble_lt hbound
    rw [hcount] at hlt
    have hpieces := pieces_assemble hbound
    rw [hcount] at hpieces
    unfold text4
    rw [BitVec.toNat_ofNat, Nat.mod_eq_of_lt (show assemble 256 octets < 2 ^ 32 from hlt), hpieces, hback]
    exact List.intercalate_splitOn '.'
  · cases h

theorem hextet_toDigits {n : Nat} (h : n < 65536) : hextet (Nat.toDigits 16 n) = some n := by
  have hhex : (Nat.toDigits 16 n).all isHexDigit = true := by
    rw [List.all_eq_true]
    intro c hc
    obtain ⟨d, hd, rfl⟩ := mem_toDigits (by decide) hc
    exact (digitChar_hex hd).1
  have hlen : (Nat.toDigits 16 n).length ≤ 4 :=
    (Nat.length_toDigits_le_iff (by decide) (by decide)).2 (by omega)
  unfold hextet
  rw [if_pos ⟨Nat.toDigits_ne_nil, hhex, hlen⟩, number_toDigits (by decide) (by decide)]

/-- A run of zeros in a list of hextets. -/
def ZeroRun (parts : List Text) (run : Nat × Nat) : Prop :=
  ∃ pre post, parts = pre ++ List.replicate run.2 ['0'] ++ post ∧ pre.length = run.1

/-- The loop finds a run of zeros: `len` zeros that begin at `start` precede the rest. -/
theorem zeroRun_spec {rest : List Text} (pre : List Text) {start len : Nat} {best : Nat × Nat}
    (hstart : len = 0 ∨ start = pre.length)
    (hbest : ZeroRun (pre ++ List.replicate len ['0'] ++ rest) best) :
    ZeroRun (pre ++ List.replicate len ['0'] ++ rest)
      (zeroRun (pre.length + len) start len best rest) := by
  induction rest generalizing pre start len best with
  | nil => exact hbest
  | cons part rest ih =>
    unfold zeroRun
    split
    · rename_i hzero
      subst hzero
      have hrun : (if len = 0 then pre.length + len else start) = pre.length := by
        split
        · omega
        · exact hstart.resolve_left (by assumption)
      have hassoc : pre ++ List.replicate len ['0'] ++ ['0'] :: rest =
          pre ++ List.replicate (len + 1) ['0'] ++ rest := by
        rw [List.replicate_succ', List.append_assoc, List.append_assoc, List.append_assoc,
          List.singleton_append]
      rw [hassoc] at hbest
      rw [hrun, hassoc]
      refine ih pre (Or.inr rfl) ?_
      split
      · exact ⟨pre, rest, rfl, rfl⟩
      · exact hbest
    · have hassoc : pre ++ List.replicate len ['0'] ++ part :: rest =
          (pre ++ List.replicate len ['0'] ++ [part]) ++ List.replicate 0 ['0'] ++ rest := by
        simp
      have hlen : pre.length + len + 1 = (pre ++ List.replicate len ['0'] ++ [part]).length + 0 := by
        simp [Nat.add_assoc]
      rw [hassoc] at hbest ⊢
      rw [hlen]
      exact ih _ (Or.inl rfl) hbest

/-- Nothing is left out, or one run of at least two zeros is. -/
theorem compress_cases (parts : List Text) :
    compress parts = parts ∨
      ∃ pre n post, parts = pre ++ List.replicate (n + 2) ['0'] ++ post ∧
        compress parts = (if pre = [] then [[]] else pre) ++ [[]] ++ (if post = [] then [[]] else post) := by
  obtain ⟨pre, post, hparts, hpre⟩ : ZeroRun parts (zeroRun 0 0 0 (0, 0) parts) :=
    zeroRun_spec [] (Or.inl rfl) ⟨[], parts, rfl, rfl⟩
  unfold compress
  generalize zeroRun 0 0 0 (0, 0) parts = run at hparts hpre
  obtain ⟨start, len⟩ := run
  simp only at hparts hpre ⊢
  split
  · rename_i hlen
    obtain ⟨n, rfl⟩ : ∃ n, len = n + 2 := ⟨len - 2, by omega⟩
    refine Or.inr ⟨pre, n, post, hparts, ?_⟩
    have htake : parts.take start = pre := by
      rw [hparts, List.append_assoc, ← hpre, List.take_left]
    have hdrop : parts.drop (start + (n + 2)) = post := by
      have hl : start + (n + 2) = (pre ++ List.replicate (n + 2) ['0']).length := by simp [hpre]
      rw [hparts, hl, List.drop_left]
    have hend : start + (n + 2) = parts.length ↔ post = [] := by
      rw [← List.length_eq_zero_iff, hparts]
      simp only [List.length_append, List.length_replicate, hpre]
      omega
    have hbegin : start = 0 ↔ pre = [] := by
      rw [← List.length_eq_zero_iff, hpre]
    rw [htake, hdrop]
    simp only [hend, hbegin]
    by_cases h1 : pre = [] <;> by_cases h2 : post = [] <;> simp [h1, h2]
  · exact Or.inl rfl

theorem length_side (side : List Text) :
    1 ≤ (if side = [] then [[]] else side).length ∧
      (if side = [] then [[]] else side).length ≤ side.length + 1 := by
  split
  · rename_i h
    simp [h]
  · rename_i h
    have := List.length_pos_iff.2 h
    omega

theorem mem_side {side : List Text} {t : Text} (h : t ∈ if side = [] then [[]] else side) :
    t = [] ∨ t ∈ side := by
  split at h
  · exact Or.inl (List.mem_singleton.1 h)
  · exact Or.inr h

theorem mem_compress {parts : List Text} {t : Text} (h : t ∈ compress parts) : t = [] ∨ t ∈ parts := by
  rcases compress_cases parts with hsame | ⟨pre, n, post, hparts, hcut⟩
  · exact Or.inr (hsame ▸ h)
  · rw [hcut, List.mem_append, List.mem_append, List.mem_singleton] at h
    rw [hparts, List.mem_append, List.mem_append]
    rcases h with (h | h) | h
    · exact (mem_side h).imp_right fun h => Or.inl (Or.inl h)
    · exact Or.inl h
    · exact (mem_side h).imp_right Or.inr

theorem length_compress {parts : List Text} (h : parts.length = 8) :
    3 ≤ (compress parts).length ∧ (compress parts).length ≤ 9 := by
  rcases compress_cases parts with hsame | ⟨pre, n, post, hparts, hcut⟩
  · rw [hsame]
    omega
  · have h1 := length_side pre
    have h2 := length_side post
    rw [hparts] at h
    rw [hcut]
    simp only [List.length_append, List.length_replicate, List.length_singleton] at h ⊢
    omega

/-- What stands beside a `::` is read as it is. -/
theorem flank_of {edge : Text} {inner whole : List Text} (h : edge ≠ []) :
    flank edge inner whole = some whole := if_neg h

/-- The hextets of a text, without an interior empty part. -/
theorem hextets_whole {parts : List Text} (hlen : parts.length = 8) (hne : ∀ t ∈ parts, t ≠ []) :
    hextets parts = parts.mapM hextet := by
  unfold hextets
  match parts, hlen with
  | [first, b, c, d, e, f, g, last], _ =>
    have hsplit : [b, c, d, e, f, g].splitOn ([] : Text) = [[b, c, d, e, f, g]] := by
      refine List.splitOn_eq_singleton ?_
      intro hmem
      exact hne [] (by simp only [List.mem_cons] at hmem ⊢; tauto) rfl
    have hlast : [b, c, d, e, f, g, last].getLast? = some last := rfl
    have hinit : [b, c, d, e, f, g, last].dropLast = [b, c, d, e, f, g] := rfl
    simp only [hlast, hinit, hsplit]
    rfl

/-- A list of parts that stands before a `::`. -/
theorem hi_cases (pre : List Text) (hne : ∀ t ∈ pre, t ≠ []) :
    ∃ first inner, (if pre = [] then [[]] else pre) = first :: inner ∧ [] ∉ inner ∧
      flank first inner (first :: inner) = some pre := by
  cases pre with
  | nil => exact ⟨[], [], rfl, List.not_mem_nil, rfl⟩
  | cons first inner =>
    refine ⟨first, inner, rfl, ?_, flank_of (hne first List.mem_cons_self)⟩
    intro hmem
    exact hne [] (List.mem_cons_of_mem _ hmem) rfl

/-- A list of parts that stands after a `::`. -/
theorem lo_cases (post : List Text) (hne : ∀ t ∈ post, t ≠ []) :
    ∃ inner last, (if post = [] then [[]] else post) = inner ++ [last] ∧ [] ∉ inner ∧
      flank last inner (inner ++ [last]) = some post := by
  rcases List.eq_nil_or_concat post with rfl | ⟨inner, last, rfl⟩
  · exact ⟨[], [], rfl, List.not_mem_nil, rfl⟩
  · rw [List.concat_eq_append] at hne ⊢
    refine ⟨inner, last, by simp, ?_, flank_of (hne last (by simp))⟩
    intro hmem
    exact hne [] (List.mem_append_left _ hmem) rfl

/-- The hextets of a text with a `::`. -/
theorem hextets_compressed {pre post : List Text} {n : Nat} (hpre : ∀ t ∈ pre, t ≠ [])
    (hpost : ∀ t ∈ post, t ≠ []) (hlen : pre.length + (n + 2) + post.length = 8) {hs ls : List Nat}
    (hhs : pre.mapM hextet = some hs) (hls : post.mapM hextet = some ls) :
    hextets ((if pre = [] then [[]] else pre) ++ [[]] ++ (if post = [] then [[]] else post)) =
      some (hs ++ List.replicate (n + 2) 0 ++ ls) := by
  obtain ⟨first, before, heq, hb, hhi⟩ := hi_cases pre hpre
  obtain ⟨after, last, heq', ha, hlo⟩ := lo_cases post hpost
  rw [heq, heq']
  have hlast : (before ++ [[]] ++ (after ++ [last])).getLast? = some last := by
    rw [← List.append_assoc, List.getLast?_concat]
  have hinit : (before ++ [[]] ++ (after ++ [last])).dropLast = before ++ [] :: after := by
    rw [← List.append_assoc, List.dropLast_concat, List.append_assoc, List.singleton_append]
  have hsplit : (before ++ [] :: after).splitOn ([] : Text) = [before, after] := by
    rw [List.splitOn_append_cons_self_of_not_mem hb, List.splitOn_eq_singleton ha]
  have hskip : 8 - (pre.length + post.length) = n + 2 := by omega
  rw [List.cons_append, List.cons_append]
  unfold hextets
  simp only [hlast, hinit, hsplit, hhi, hlo, hhs, hls, hskip]
  rw [if_neg (by omega)]

/-- A part of a text that `hextet` reads or that is empty. -/
def Plain (t : Text) : Prop := ∀ c ∈ t, c ≠ ':' ∧ c ≠ '.'

theorem plain_toDigits (n : Nat) : Plain (Nat.toDigits 16 n) := by
  intro c hc
  obtain ⟨d, hd, rfl⟩ := mem_toDigits (by decide) hc
  exact ⟨(digitChar_hex hd).2.1, (digitChar_hex hd).2.2.1⟩

/-- Plain parts that spell hextets, joined by colons. -/
theorem parse6_join {parts : List Text} {ns : List Nat} (hplain : ∀ t ∈ parts, Plain t)
    (h3 : 3 ≤ parts.length) (h9 : parts.length ≤ 9) (h : hextets parts = some ns) :
    parse6 (List.intercalate [':'] parts) = some (BitVec.ofNat 128 (assemble 65536 ns)) := by
  have hne : parts ≠ [] := by
    rintro rfl
    cases h3
  have hsplit : (List.intercalate [':'] parts).splitOn ':' = parts :=
    List.splitOn_intercalate ':' (fun t ht hc => (hplain t ht _ hc).1 rfl) hne
  have hlast := List.getLast?_eq_some_getLast hne
  have hsuffix : expandSuffix parts = some parts := by
    unfold expandSuffix
    rw [hlast]
    exact if_neg fun hc => (hplain _ (List.getLast_mem hne) _ hc).2 rfl
  unfold parse6
  rw [hsplit, if_neg (by omega), hsuffix]
  simp only [if_neg (show ¬ 9 < parts.length by omega), h, Option.map_some]

/-- Zeros are the hextets with the text `0`. -/
theorem eq_replicate_of_toDigits {ns : List Nat} {n : Nat}
    (h : ns.map (Nat.toDigits 16) = List.replicate n ['0']) : ns = List.replicate n 0 := by
  rw [List.eq_replicate_iff] at h ⊢
  refine ⟨by simpa using h.1, ?_⟩
  intro x hx
  have htext := h.2 _ (List.mem_map_of_mem hx)
  have hnum : number 16 (Nat.toDigits 16 x) = x := number_toDigits (by decide) (by decide) x
  rw [htext] at hnum
  exact hnum.symm

theorem parse6_text6 (ip : BitVec 128) : parse6 (text6 ip) = some ip := by
  have hlt : ip.toNat < 65536 ^ 8 := ip.isLt
  have hnum := assemble_pieces hlt
  have hlen := length_pieces 65536 8 ip.toNat
  have hbound : ∀ n ∈ pieces 65536 8 ip.toNat, n < 65536 := fun n => pieces_lt (by decide)
  unfold text6
  generalize pieces 65536 8 ip.toNat = ns at hnum hlen hbound
  suffices h : parse6 (List.intercalate [':'] (compress (ns.map (Nat.toDigits 16)))) =
      some (BitVec.ofNat 128 (assemble 65536 ns)) by
    rw [h, hnum, BitVec.ofNat_toNat, BitVec.setWidth_eq]
  have hplain : ∀ t ∈ ns.map (Nat.toDigits 16), Plain t := by
    intro t ht
    obtain ⟨n, -, rfl⟩ := List.mem_map.1 ht
    exact plain_toDigits n
  have hne : ∀ t ∈ ns.map (Nat.toDigits 16), t ≠ [] := by
    intro t ht
    obtain ⟨n, -, rfl⟩ := List.mem_map.1 ht
    exact Nat.toDigits_ne_nil
  have hread : ∀ xs : List Nat, (∀ n ∈ xs, n < 65536) →
      (xs.map (Nat.toDigits 16)).mapM hextet = some xs :=
    fun xs hxs => mapM_of_forall fun n hn => hextet_toDigits (hxs n hn)
  have hlen' : (ns.map (Nat.toDigits 16)).length = 8 := by rw [List.length_map, hlen]
  obtain ⟨h3, h9⟩ := length_compress hlen'
  refine parse6_join ?_ h3 h9 ?_
  · intro t ht
    rcases mem_compress ht with rfl | ht
    · nofun
    · exact hplain t ht
  rcases compress_cases (ns.map (Nat.toDigits 16)) with hsame | ⟨pre, n, post, hsplit, hcut⟩
  · rw [hsame, hextets_whole hlen' hne, hread ns hbound]
  · -- the zeros that are left out are filled in again
    obtain ⟨xs, zs, rfl, hxs, hzs⟩ := List.map_eq_append_iff.1 hsplit
    obtain ⟨ys, os, rfl, hys, hos⟩ := List.map_eq_append_iff.1 hxs
    subst hys hzs
    obtain rfl := eq_replicate_of_toDigits hos
    simp only [List.length_append, List.length_replicate] at hlen
    rw [hcut]
    refine hextets_compressed ?_ ?_ ?_ (hread ys ?_) (hread zs ?_)
    · intro t ht
      exact hne t (by rw [hsplit]; simp only [List.mem_append]; tauto)
    · intro t ht
      exact hne t (by rw [hsplit]; simp only [List.mem_append]; tauto)
    · simp only [List.length_map]
      omega
    · exact fun n hn => hbound n (by simp [hn])
    · exact fun n hn => hbound n (by simp [hn])

/-! ## Addresses -/

theorem mem_intercalate {sep c : Char} {parts : List Text} (h : c ∈ List.intercalate [sep] parts) :
    c = sep ∨ ∃ t ∈ parts, c ∈ t := by
  induction parts with
  | nil => cases h
  | cons t parts ih =>
    cases parts with
    | nil => exact Or.inr ⟨t, List.mem_cons_self, by simpa using h⟩
    | cons u parts =>
      rw [List.intercalate_cons_cons, List.mem_append, List.mem_append, List.mem_singleton] at h
      rcases h with (h | h) | h
      · exact Or.inr ⟨t, List.mem_cons_self, h⟩
      · exact Or.inl h
      · exact (ih h).imp_right fun ⟨v, hv, hc⟩ => ⟨v, List.mem_cons_of_mem _ hv, hc⟩

theorem sep_mem_intercalate {sep : Char} {parts : List Text} (h : 2 ≤ parts.length) :
    sep ∈ List.intercalate [sep] parts := by
  match parts, h with
  | t :: u :: parts, _ =>
    rw [List.intercalate_cons_cons]
    simp

/-- The characters of an IPv6 address. -/
theorem mem_text6 {ip : BitVec 128} {c : Char} (h : c ∈ text6 ip) :
    c = ':' ∨ ∃ d < 16, c = d.digitChar := by
  rcases mem_intercalate h with h | ⟨t, ht, hc⟩
  · exact Or.inl h
  · rcases mem_compress ht with rfl | ht
    · cases hc
    · obtain ⟨n, -, rfl⟩ := List.mem_map.1 ht
      exact Or.inr (mem_toDigits (by decide) hc)

theorem colon_mem_text6 (ip : BitVec 128) : ':' ∈ text6 ip := by
  have hlen : ((pieces 65536 8 ip.toNat).map (Nat.toDigits 16)).length = 8 := by simp
  refine sep_mem_intercalate ?_
  exact le_trans (by omega) (length_compress hlen).1

theorem parse4_parts {t : Text} {ip : BitVec 32} (h : parse4 t = some ip) :
    (t.splitOn '.').length = 4 ∧ ∀ l ∈ t.splitOn '.', ∃ n, octet l = some n := by
  unfold parse4 at h
  split at h
  · rename_i hlen
    obtain ⟨octets, hoctets, -⟩ := Option.map_eq_some_iff.1 h
    exact ⟨hlen, some_of_mapM hoctets⟩
  · cases h

/-- An octet has digits, and no leading zero. -/
theorem octet_form {t : Text} {n : Nat} (h : octet t = some n) :
    t ≠ [] ∧ (∀ c ∈ t, c.isDigit = true) ∧ ¬ (1 < t.length ∧ t.head? = some '0') := by
  unfold octet at h
  split at h
  · cases h
  rename_i hform
  split at h
  · cases h
  rename_i hzero
  simp only [not_or, Bool.not_eq_true, Bool.not_eq_false', List.all_eq_true] at hform
  refine ⟨hform.1, hform.2.1, ?_⟩
  rintro ⟨hlen, hhead⟩
  refine hzero ⟨?_, hhead⟩
  rintro rfl
  simp at hlen

/-- An IPv4 address consists of digits and dots. -/
theorem parse4_chars {t : Text} {ip : BitVec 32} (h : parse4 t = some ip) {c : Char} (hc : c ∈ t) :
    c = '.' ∨ c.isDigit = true := by
  have hjoin : List.intercalate ['.'] (t.splitOn '.') = t := List.intercalate_splitOn '.'
  rw [← hjoin] at hc
  rcases mem_intercalate hc with hc | ⟨l, hl, hc⟩
  · exact Or.inl hc
  · obtain ⟨n, hn⟩ := (parse4_parts h).2 l hl
    exact Or.inr ((octet_form hn).2.1 c hc)

theorem parse4_of_colon {t : Text} (h : ':' ∈ t) : parse4 t = none := by
  cases hp : parse4 t with
  | none => rfl
  | some ip =>
    rcases parse4_chars hp h with hc | hc
    · cases hc
    · cases hc

theorem mem_flank {edge l : Text} {inner whole out : List Text} (h : flank edge inner whole = some out)
    (hl : l ∈ whole) (hw : ∀ m ∈ whole, m = edge ∨ m ∈ inner) : l = [] ∨ l ∈ out := by
  unfold flank at h
  split at h
  · rename_i hedge
    split at h
    · rename_i hinner
      subst hinner
      rcases hw l hl with rfl | hm
      · exact Or.inl hedge
      · cases hm
    · cases h
  · cases h
    exact Or.inr hl

/-- Every part of an IPv6 address is empty or a hextet. -/
theorem hextets_parts {parts : List Text} {ns : List Nat} (h : hextets parts = some ns) :
    ∀ l ∈ parts, l = [] ∨ ∃ n, hextet l = some n := by
  unfold hextets at h
  split at h
  · cases h
  rename_i first rest
  split at h
  · cases h
  rename_i last hlast
  have hrest : rest = rest.dropLast ++ [last] := (List.dropLast_append_getLast? last hlast).symm
  split at h
  · split at h
    · intro l hl
      exact Or.inr (some_of_mapM h l hl)
    · cases h
  · rename_i before after hsplit
    split at h
    · rename_i hi lo hhi hlo
      split at h
      · cases h
      split at h
      · rename_i hs ls hhs hls
        have hmid : List.intercalate [[]] [before, after] = rest.dropLast := by
          rw [← hsplit]
          exact List.intercalate_splitOn []
        rw [List.intercalate_cons_cons, List.intercalate_singleton] at hmid
        intro l hl
        rw [hrest, ← hmid] at hl
        have hcases : l = [] ∨ l ∈ first :: before ∨ l ∈ after ++ [last] := by
          simp only [List.mem_cons, List.mem_append, List.not_mem_nil, or_false] at hl ⊢
          tauto
        rcases hcases with hl | hl | hl
        · exact Or.inl hl
        · exact (mem_flank hhi hl fun m hm => List.mem_cons.1 hm).imp_right (some_of_mapM hhs l)
        · refine (mem_flank hlo hl fun m hm => ?_).imp_right (some_of_mapM hls l)
          rw [List.mem_append, List.mem_singleton] at hm
          exact hm.symm
      · cases h
    · cases h
  · cases h

theorem hextet_digits {t : Text} {n : Nat} (h : hextet t = some n) : ∀ c ∈ t, isHexDigit c = true := by
  unfold hextet at h
  split at h
  · rename_i hform
    exact List.all_eq_true.1 hform.2.1
  · cases h

/-- An IPv6 address consists of hexadecimal digits, colons and dots. -/
theorem parse6_chars {t : Text} {ip : BitVec 128} (h : parse6 t = some ip) {c : Char} (hc : c ∈ t) :
    c = ':' ∨ c = '.' ∨ isHexDigit c = true := by
  have hjoin : List.intercalate [':'] (t.splitOn ':') = t := List.intercalate_splitOn ':'
  rw [← hjoin] at hc
  rcases mem_intercalate hc with hc | ⟨l, hl, hc⟩
  · exact Or.inl hc
  refine Or.inr ?_
  unfold parse6 at h
  split at h
  · cases h
  split at h
  · cases h
  rename_i parts hparts
  split at h
  · cases h
  obtain ⟨ns, hns, -⟩ := Option.map_eq_some_iff.1 h
  have hpart : ∀ m ∈ parts, c ∈ m → isHexDigit c = true := by
    intro m hm hcm
    rcases hextets_parts hns m hm with rfl | ⟨n, hn⟩
    · cases hcm
    · exact hextet_digits hn c hcm
  unfold expandSuffix at hparts
  split at hparts
  · cases hparts
  rename_i last hlast
  split at hparts
  · -- the last part is an IPv4 address
    obtain ⟨ip4, hip4, rfl⟩ := Option.map_eq_some_iff.1 hparts
    rw [← List.dropLast_append_getLast? last hlast, List.mem_append, List.mem_singleton] at hl
    rcases hl with hl | rfl
    · exact Or.inr (hpart l (List.mem_append_left _ hl) hc)
    · rcases parse4_chars hip4 hc with rfl | hd
      · exact Or.inl rfl
      · exact Or.inr (by simp [isHexDigit, hd])
  · cases hparts
    exact Or.inr (hpart l hl hc)

theorem parse6_nil : parse6 [] = none := by decide

/-- What an IPv6 text consists of. -/
theorem parse_v6 {t : Text} {ip : BitVec 128} {scope : Option Scope} (h : parse t = some (.v6 ip scope)) :
    ∃ body, parse6 body = some ip ∧ t = body ++ (scope.elim [] fun s => '%' :: s.1) := by
  unfold parse at h
  split at h
  · cases h
  split at h
  · cases h
  split at h
  · cases h
  rename_i body scope' hscope
  obtain ⟨ip', hip, heq⟩ := Option.map_eq_some_iff.1 h
  cases heq
  refine ⟨body, hip, ?_⟩
  unfold splitScope at hscope
  split at hscope
  · rename_i hdrop
    cases hscope
    simp
  · rename_i c sc hdrop
    split at hscope
    · cases hscope
      have hhead := List.head?_dropWhile_not (fun c => decide (c ≠ '%')) t
      rw [hdrop] at hhead
      obtain rfl : c = '%' := by simpa using hhead
      exact (List.takeWhile_append_dropWhile.symm.trans (by rw [hdrop]) : t = _)
    · cases hscope

/-- **What `str` writes of an address, `ip_address` reads back.** -/
theorem parse_text (a : Address) : parse a.text = some a := by
  cases a with
  | v4 ip =>
    unfold parse Address.text
    rw [parse4_text4]
  | v6 ip scope =>
    have hbody : ∀ c ∈ text6 ip, c ≠ '%' ∧ c ≠ '/' := by
      intro c hc
      rcases mem_text6 hc with rfl | ⟨d, hd, rfl⟩
      · decide
      · exact ⟨(digitChar_hex hd).2.2.2.1, (digitChar_hex hd).2.2.2.2⟩
    cases scope with
    | none =>
      have hscope : splitScope (text6 ip) = some (text6 ip, none) := by
        have hdrop : (text6 ip).dropWhile (· ≠ '%') = [] := by
          rw [List.dropWhile_eq_nil_iff]
          exact fun c hc => decide_eq_true (hbody c hc).1
        unfold splitScope
        rw [hdrop]
      unfold parse Address.text
      rw [parse4_of_colon (colon_mem_text6 ip), hscope]
      simp only [if_neg (show '/' ∉ text6 ip from fun h => (hbody _ h).2 rfl), parse6_text6,
        Option.map_some]
    | some scope =>
      obtain ⟨scope, hs⟩ := scope
      have hall : ∀ c ∈ text6 ip, decide (c ≠ '%') = true := fun c hc => decide_eq_true (hbody c hc).1
      have hscope : splitScope (text6 ip ++ '%' :: scope) = some (text6 ip, some ⟨scope, hs⟩) := by
        have hdrop : (text6 ip ++ '%' :: scope).dropWhile (· ≠ '%') = '%' :: scope := by
          rw [List.dropWhile_append_of_pos hall]
          rfl
        have htake : (text6 ip ++ '%' :: scope).takeWhile (· ≠ '%') = text6 ip := by
          rw [List.takeWhile_append_of_pos hall]
          simp
        unfold splitScope
        rw [hdrop, htake]
        exact dif_pos hs
      have hslash : '/' ∉ text6 ip ++ '%' :: scope := by
        rw [List.mem_append, List.mem_cons]
        rintro (h | h | h)
        · exact (hbody _ h).2 rfl
        · cases h
        · exact hs.2.2 h
      unfold parse Address.text
      rw [parse4_of_colon (List.mem_append_left _ (colon_mem_text6 ip)), hscope]
      simp only [if_neg hslash, parse6_text6, Option.map_some]

example : parse "2001:DB8:0:0:1::1".toList = some (.v6 0x20010db8000000000001000000000001 none) := by
  decide +kernel

end IpAddress
