import StrixPEP.Gateway.Exchange
import StrixPEP.Json.Bytes
import StrixPEP.Lib.IpAddress
import StrixPEP.Lib.Trim

/-!
# Addresses and hosts (`pep/addressing.py`)

* `canonicalHost` — `canonical_host`;
* `unwrapEmbeddedV4`, `classify` — `unwrap_embedded_v4` and `classify`.

A text is a list of characters.  What Python's character database says (`lower`, `isdigit`) is the
parameter `CharTables`, whose laws are those of the database; the `idna` codec is a parameter of
`canonicalHost`, with its laws as hypotheses of the theorems that need them.
-/

namespace StrixPEP

open IpAddress (Text Address)

/-! ## Texts -/

/-- `isspace` of a character. -/
def isWhite (c : Char) : Bool :=
  let n := c.toNat
  decide (9 ≤ n ∧ n ≤ 13 ∨ 28 ≤ n ∧ n ≤ 32 ∨ 0x2000 ≤ n ∧ n ≤ 0x200A) ||
    decide (n ∈ [0x85, 0xA0, 0x1680, 0x2028, 0x2029, 0x202F, 0x205F, 0x3000])

/-- `isascii`. -/
def Ascii (t : Text) : Prop := ∀ c ∈ t, c.toNat < 128

instance (t : Text) : Decidable (Ascii t) := inferInstanceAs (Decidable (∀ c ∈ t, c.toNat < 128))

/-- What the character database says of texts. -/
structure CharTables where
  lower : Text → Text
  /-- `c.lower() == c`. -/
  lowered : Char → Bool
  /-- `c.isdigit()`. -/
  isDigit : Char → Bool
  lower_ascii : ∀ t, Ascii t → lower t = t.map Char.toLower
  lowered_of_mem : ∀ {t c}, c ∈ lower t → lowered c = true
  lower_of_lowered : ∀ {t}, (∀ c ∈ t, lowered c = true) → lower t = t
  lower_ne_nil : ∀ {t}, t ≠ [] → lower t ≠ []
  lower_cons : ∀ c t, c.toNat < 128 → c.isAlpha = false → lower (c :: t) = c :: lower t
  of_lower_cons : ∀ {c t l}, c.toNat < 128 → c.isAlpha = false → lower t = c :: l → ∃ u, t = c :: u
  lowered_ascii : ∀ c, c.toNat < 128 → lowered c = !c.isUpper
  isDigit_ascii : ∀ c, c.toNat < 128 → isDigit c = c.isDigit

/-- `strip()`. -/
def strip (t : Text) : Text := Trim.trim isWhite t

/-- `rstrip(".")`. -/
def rstripDots (t : Text) : Text := t.rdropWhile (· = '.')

/-- The text stands in brackets. -/
def Enclosed (t : Text) : Prop := t.head? = some '[' ∧ t.getLast? = some ']'

instance (t : Text) : Decidable (Enclosed t) :=
  inferInstanceAs (Decidable (t.head? = some '[' ∧ t.getLast? = some ']'))

/-! ## `canonical_host` -/

section

variable (tables : CharTables) (idna : Text → Option Bytes)

/-- The text that is looked at: stripped, in lower case, out of its brackets, without final dots. -/
def prepare (raw : Text) : Text :=
  let h := tables.lower (strip raw)
  rstripDots (if Enclosed h then h.tail.dropLast else h)

/-- `all(c.isdigit() or c == ".")`. -/
def Numeric (h : Text) : Prop := ∀ c ∈ h, tables.isDigit c = true ∨ c = '.'

instance (h : Text) : Decidable (Numeric tables h) :=
  inferInstanceAs (Decidable (∀ c ∈ h, tables.isDigit c = true ∨ c = '.'))

/-- The dotted-quad form of an IPv4 address. -/
def dottedQuad (h : Text) : Option Text :=
  let parts := h.splitOn '.'
  if parts.length = 4 ∧ ∀ p ∈ parts, p ≠ [] ∧ ∀ c ∈ p, tables.isDigit c = true then
    if ∃ p ∈ parts, 1 < p.length ∧ p.head? = some '0' then none
    else (IpAddress.parse4 h).map IpAddress.text4
  else none

/-- `decode("ascii")`. -/
def decodeAscii (b : Bytes) : Option Text :=
  if ∀ x ∈ b, x.toNat < 128 then some (latin1 b) else none

/-- `h.encode("idna").decode("ascii")`, and `h` where that raises and `h` is ASCII. -/
def hostName (h : Text) : Option Text :=
  match (idna h).bind decodeAscii with
  | some name => some name
  | none => if Ascii h then some h else none

/-- `canonical_host`. -/
def canonicalHost (raw : Text) : Option Text :=
  if raw = [] then none
  else
    let h := prepare tables raw
    if h = [] ∨ '/' ∈ h ∨ ' ' ∈ h ∨ '\\' ∈ h then none
    else if ':' ∈ h then (IpAddress.parse h).map Address.text
    else if Numeric tables h then dottedQuad tables h
    else hostName idna h

end

/-- `is_ip_literal`. -/
def isIpLiteral (host : Text) : Bool := (IpAddress.parse host).isSome

/-- The labels of an ASCII name that the `idna` codec accepts. -/
def GoodLabels (t : Text) : Prop := ∀ l ∈ t.splitOn '.', 1 ≤ l.length ∧ l.length ≤ 63

instance (t : Text) : Decidable (GoodLabels t) :=
  inferInstanceAs (Decidable (∀ l ∈ t.splitOn '.', 1 ≤ l.length ∧ l.length ≤ 63))

/-- The codec leaves ASCII names with good labels alone. -/
def KeepsNames (idna : Text → Option Bytes) : Prop :=
  ∀ t, Ascii t → GoodLabels t → idna t = some (t.map Json.asciiByte)

/-- The codec raises on other ASCII names. -/
def RefusesNames (idna : Text → Option Bytes) : Prop :=
  ∀ t, Ascii t → ¬ GoodLabels t → idna t = none

/-! ## `unwrap_embedded_v4` and `classify` -/

/-- The addresses of a network: those that agree with its address on the first bits. -/
def inNet {w : Nat} (net : BitVec w × Nat) (ip : BitVec w) : Bool :=
  ip >>> (w - net.2) == net.1 >>> (w - net.2)

/-- An address as its octets. -/
def quad (a b c d : Nat) : BitVec 32 := BitVec.ofNat 32 (IpAddress.assemble 256 [a, b, c, d])

/-- `family_of`. -/
def familyOf : Address → Family
  | .v4 _ => .ipv4
  | .v6 _ _ => .ipv6

/-- `unwrap_embedded_v4`: the address to judge, and how it was embedded. -/
def unwrapEmbeddedV4 : Address → Address × Option String
  | .v4 ip => (.v4 ip, none)
  | .v6 ip scope =>
    if ip >>> 32 = 0xFFFF then (.v4 (ip.setWidth 32), some "ipv4_mapped")
    else if ip >>> 112 = 0x2002 then (.v4 ((ip >>> 80).setWidth 32), some "6to4")
    else if ip >>> 96 = 0x20010000 then (.v4 (~~~ ip.setWidth 32), some "teredo")
    else if inNet (0x0064FF9B000000000000000000000000, 96) ip then (.v4 (ip.setWidth 32), some "nat64")
    else (.v6 ip scope, none)

/-- `_private_networks` of IPv4, and the exceptions. -/
def private4 : List (BitVec 32 × Nat) :=
  [(quad 0 0 0 0, 8), (quad 10 0 0 0, 8), (quad 127 0 0 0, 8), (quad 169 254 0 0, 16),
    (quad 172 16 0 0, 12), (quad 192 0 0 0, 24), (quad 192 0 0 170, 31), (quad 192 0 2 0, 24),
    (quad 192 168 0 0, 16), (quad 198 18 0 0, 15), (quad 198 51 100 0, 24), (quad 203 0 113 0, 24),
    (quad 240 0 0 0, 4), (quad 255 255 255 255, 32)]

def privateExceptions4 : List (BitVec 32 × Nat) := [(quad 192 0 0 9, 32), (quad 192 0 0 10, 32)]

/-- An IPv6 address as its first hextets. -/
def hex6 (hextets : List Nat) : BitVec 128 :=
  BitVec.ofNat 128 (IpAddress.assemble 65536 (hextets ++ List.replicate (8 - hextets.length) 0))

/-- `_private_networks` of IPv6, and the exceptions. -/
def private6 : List (BitVec 128 × Nat) :=
  [(1, 128), (0, 128), (0xFFFF00000000, 96), (hex6 [0x64, 0xFF9B, 1], 48), (hex6 [0x100], 64),
    (hex6 [0x2001], 23), (hex6 [0x2001, 0xDB8], 32), (hex6 [0x2002], 16), (hex6 [0x3FFF], 20),
    (hex6 [0xFC00], 7), (hex6 [0xFE80], 10)]

def privateExceptions6 : List (BitVec 128 × Nat) :=
  [(hex6 [0x2001, 1, 0, 0, 0, 0, 0, 1], 128), (hex6 [0x2001, 1, 0, 0, 0, 0, 0, 2], 128),
    (hex6 [0x2001, 3], 32), (hex6 [0x2001, 4, 0x112], 48), (hex6 [0x2001, 0x20], 28),
    (hex6 [0x2001, 0x30], 28)]

/-- `_reserved_networks` of IPv6. -/
def reserved6 : List (BitVec 128 × Nat) :=
  [(0, 8), (hex6 [0x100], 8), (hex6 [0x200], 7), (hex6 [0x400], 6), (hex6 [0x800], 5),
    (hex6 [0x1000], 4), (hex6 [0x4000], 3), (hex6 [0x6000], 3), (hex6 [0x8000], 3), (hex6 [0xA000], 3),
    (hex6 [0xC000], 3), (hex6 [0xE000], 4), (hex6 [0xF000], 5), (hex6 [0xF800], 6), (hex6 [0xFE00], 9)]

def isLoopback : Address → Bool
  | .v4 ip => inNet (quad 127 0 0 0, 8) ip
  | .v6 ip _ => ip == 1

def isLinkLocal : Address → Bool
  | .v4 ip => inNet (quad 169 254 0 0, 16) ip
  | .v6 ip _ => inNet (hex6 [0xFE80], 10) ip

def isUnspecified : Address → Bool
  | .v4 ip => ip == 0
  | .v6 ip _ => ip == 0

def isMulticast : Address → Bool
  | .v4 ip => inNet (quad 224 0 0 0, 4) ip
  | .v6 ip _ => inNet (hex6 [0xFF00], 8) ip

def isReserved : Address → Bool
  | .v4 ip => inNet (quad 240 0 0 0, 4) ip
  | .v6 ip _ => reserved6.any fun net => inNet net ip

/-- `judged.version == 6 and judged.is_site_local`. -/
def isSiteLocal : Address → Bool
  | .v4 _ => false
  | .v6 ip _ => inNet (hex6 [0xFEC0], 10) ip

/-- `judged.version == 6 and judged in _ULA`. -/
def isUniqueLocal : Address → Bool
  | .v4 _ => false
  | .v6 ip _ => inNet (hex6 [0xFC00], 7) ip

def isPrivate : Address → Bool
  | .v4 ip => (private4.any fun net => inNet net ip) && !privateExceptions4.any fun net => inNet net ip
  | .v6 ip _ =>
    (private6.any fun net => inNet net ip) && !privateExceptions6.any fun net => inNet net ip

/-- `Verdict`. -/
structure Verdict where
  ok : Bool
  reason : String
  family : Option Family
  effectiveIp : Option Text
  deriving DecidableEq

/-- The classes that no exemption admits, in the order in which they are tried. -/
def hardDenials : List ((Address → Bool) × String) :=
  [(isLoopback, "loopback"), (isLinkLocal, "link_local"), (isUnspecified, "unspecified"),
    (isMulticast, "multicast"), (isReserved, "reserved")]

/-- The classes that an exemption admits, in the order in which they are tried. -/
def softDenials : List ((Address → Bool) × String) :=
  [(isSiteLocal, "site_local"), (isUniqueLocal, "unique_local"), (isPrivate, "private")]

/-- `classify`. -/
def classify (ipStr : Text) (exemptions : List Text) : Verdict :=
  match IpAddress.parse ipStr with
  | none => ⟨false, "malformed_ip", none, none⟩
  | some raw =>
    let (judged, embedding) := unwrapEmbeddedV4 raw
    let fam := familyOf raw
    let eff := judged.text
    let deny (kind : String) : Verdict :=
      match embedding with
      | none => ⟨false, s!"{kind}_denied", some fam, some eff⟩
      | some e => ⟨false, s!"{kind}_denied_via_{e}", some fam, some eff⟩
    match hardDenials.find? fun d => d.1 judged with
    | some d => deny d.2
    | none =>
      match softDenials.find? fun d => d.1 judged with
      | some d =>
        if ipStr ∈ exemptions ∨ eff ∈ exemptions then ⟨true, s!"{d.2}_exempted", some fam, some eff⟩
        else deny d.2
      | none =>
        match embedding with
        | none => ⟨true, "public_ok", some fam, some eff⟩
        | some e => ⟨true, s!"public_ok_via_{e}", some fam, some eff⟩

example : classify "::ffff:127.0.0.1".toList [] =
    ⟨false, "loopback_denied_via_ipv4_mapped", some .ipv6, some "127.0.0.1".toList⟩ := by
  decide +kernel

end StrixPEP
