import StrixPEP.Lib.Bounded
import Mathlib.Tactic.IntervalCases

/-!
# SHA-256

The hash of FIPS 180-4 on byte lists, its hexadecimal form, and HMAC with it.  Proofs use one
fact: a hexadecimal digest has 64 characters, each of them in `[0-9a-f]`.
-/

namespace Sha256

/-- The eight working variables. -/
structure State where
  a : UInt32
  b : UInt32
  c : UInt32
  d : UInt32
  e : UInt32
  f : UInt32
  g : UInt32
  h : UInt32
  deriving DecidableEq, Repr

def State.words (s : State) : List UInt32 := [s.a, s.b, s.c, s.d, s.e, s.f, s.g, s.h]

def initial : State :=
  ⟨0x6a09e667, 0xbb67ae85, 0x3c6ef372, 0xa54ff53a, 0x510e527f, 0x9b05688c, 0x1f83d9ab, 0x5be0cd19⟩

def roundConstants : List UInt32 :=
  [0x428a2f98, 0x71374491, 0xb5c0fbcf, 0xe9b5dba5, 0x3956c25b, 0x59f111f1, 0x923f82a4, 0xab1c5ed5,
    0xd807aa98, 0x12835b01, 0x243185be, 0x550c7dc3, 0x72be5d74, 0x80deb1fe, 0x9bdc06a7, 0xc19bf174,
    0xe49b69c1, 0xefbe4786, 0x0fc19dc6, 0x240ca1cc, 0x2de92c6f, 0x4a7484aa, 0x5cb0a9dc, 0x76f988da,
    0x983e5152, 0xa831c66d, 0xb00327c8, 0xbf597fc7, 0xc6e00bf3, 0xd5a79147, 0x06ca6351, 0x14292967,
    0x27b70a85, 0x2e1b2138, 0x4d2c6dfc, 0x53380d13, 0x650a7354, 0x766a0abb, 0x81c2c92e, 0x92722c85,
    0xa2bfe8a1, 0xa81a664b, 0xc24b8b70, 0xc76c51a3, 0xd192e819, 0xd6990624, 0xf40e3585, 0x106aa070,
    0x19a4c116, 0x1e376c08, 0x2748774c, 0x34b0bcb5, 0x391c0cb3, 0x4ed8aa4a, 0x5b9cca4f, 0x682e6ff3,
    0x748f82ee, 0x78a5636f, 0x84c87814, 0x8cc70208, 0x90befffa, 0xa4506ceb, 0xbef9a3f7, 0xc67178f2]

def rotr (x : UInt32) (n : UInt32) : UInt32 := (x >>> n) ||| (x <<< (32 - n))

/-- The message, a one bit, zeros up to 56 modulo 64, and the length in bits. -/
def pad (message : List UInt8) : List UInt8 :=
  let zeros := (119 - message.length % 64) % 64
  let bits := 8 * message.length
  message ++ 0x80 :: List.replicate zeros 0 ++
    (List.range 8).map fun i => UInt8.ofNat (bits / 256 ^ (7 - i))

/-- Big-endian words. -/
def toWords : List UInt8 → List UInt32
  | p :: q :: r :: s :: rest =>
    (p.toUInt32 <<< 24 ||| q.toUInt32 <<< 16 ||| r.toUInt32 <<< 8 ||| s.toUInt32) :: toWords rest
  | _ => []

/-- The message schedule, newest word first. -/
def extend : Nat → List UInt32 → List UInt32
  | 0, ws => ws
  | n + 1, ws =>
    let w2 := ws.getD 1 0
    let w7 := ws.getD 6 0
    let w15 := ws.getD 14 0
    let w16 := ws.getD 15 0
    let s0 := rotr w15 7 ^^^ rotr w15 18 ^^^ (w15 >>> 3)
    let s1 := rotr w2 17 ^^^ rotr w2 19 ^^^ (w2 >>> 10)
    extend n ((w16 + s0 + w7 + s1) :: ws)

def round (s : State) (kw : UInt32 × UInt32) : State :=
  let s1 := rotr s.e 6 ^^^ rotr s.e 11 ^^^ rotr s.e 25
  let ch := (s.e &&& s.f) ^^^ (~~~s.e &&& s.g)
  let t1 := s.h + s1 + ch + kw.1 + kw.2
  let s0 := rotr s.a 2 ^^^ rotr s.a 13 ^^^ rotr s.a 22
  let maj := (s.a &&& s.b) ^^^ (s.a &&& s.c) ^^^ (s.b &&& s.c)
  ⟨t1 + (s0 + maj), s.a, s.b, s.c, s.d + t1, s.e, s.f, s.g⟩

/-- One block of 16 words. -/
def compress (s : State) (block : List UInt32) : State :=
  let schedule := (extend 48 block.reverse).reverse
  let t := (roundConstants.zip schedule).foldl round s
  ⟨s.a + t.a, s.b + t.b, s.c + t.c, s.d + t.d, s.e + t.e, s.f + t.f, s.g + t.g, s.h + t.h⟩

/-- The blocks of the padded message; `n` bounds their number. -/
def blocks : Nat → State → List UInt32 → State
  | 0, s, _ => s
  | n + 1, s, ws => if ws.isEmpty then s else blocks n (compress s (ws.take 16)) (ws.drop 16)

def digest (message : List UInt8) : State :=
  let ws := toWords (pad message)
  blocks (ws.length / 16) initial ws

def hexDigit (n : Nat) : Char := Char.ofNat (if n < 10 then 48 + n else 87 + n)

def hexWord (w : UInt32) : List Char :=
  (List.range 8).map fun i => hexDigit (w.toNat / 16 ^ (7 - i) % 16)

/-- `hashlib.sha256(message).hexdigest()`. -/
def hexdigest (message : List UInt8) : String :=
  String.ofList ((digest message).words.flatMap hexWord)

/-- `hashlib.sha256(message).digest()`. -/
def digestBytes (message : List UInt8) : List UInt8 :=
  (digest message).words.flatMap fun (w : UInt32) =>
    [(w >>> 24).toUInt8, (w >>> 16).toUInt8, (w >>> 8).toUInt8, w.toUInt8]

/-- The key of HMAC, in one block of 64 bytes. -/
def hmacKey (key : List UInt8) : List UInt8 :=
  let short := if 64 < key.length then digestBytes key else key
  short ++ List.replicate (64 - short.length) 0

/-- `hmac.new(key, message, hashlib.sha256).hexdigest()`. -/
def hmacHexdigest (key message : List UInt8) : String :=
  let block := hmacKey key
  hexdigest (block.map (· ^^^ 0x5c) ++ digestBytes (block.map (· ^^^ 0x36) ++ message))

/-- A character of `[0-9a-f]`. -/
def IsHex (c : Char) : Prop := 48 ≤ c.toNat ∧ c.toNat ≤ 57 ∨ 97 ≤ c.toNat ∧ c.toNat ≤ 102

theorem isHex_hexDigit {n : Nat} (h : n < 16) : IsHex (hexDigit n) := by
  unfold IsHex hexDigit
  interval_cases n <;> decide

theorem isHex_hexWord {w : UInt32} {c : Char} (h : c ∈ hexWord w) : IsHex c := by
  obtain ⟨i, -, rfl⟩ := List.mem_map.1 h
  exact isHex_hexDigit (Nat.mod_lt _ (by decide))

theorem hexdigest_length (message : List UInt8) : (hexdigest message).toList.length = 64 := by
  simp [hexdigest, State.words, hexWord]

theorem hexdigest_isHex {message : List UInt8} {c : Char} (h : c ∈ (hexdigest message).toList) :
    IsHex c := by
  rw [hexdigest, String.toList_ofList] at h
  obtain ⟨w, -, hw⟩ := List.mem_flatMap.1 h
  exact isHex_hexWord hw

theorem hmacHexdigest_isHex {key message : List UInt8} {c : Char}
    (h : c ∈ (hmacHexdigest key message).toList) : IsHex c := hexdigest_isHex h

end Sha256
