import StrixPEP.Gateway.ReadHead
import StrixPEP.Json.Bytes
import Std.Data.String.ToNat

/-!
# The request that goes upstream

* `rawRequest` — `raw_req` of `_inside`: the head that is built anew, and the body;
* `readMessage` — a reader of requests that ends a line at LF, with an optional CR before it.

Principal result: `forwarded_iff`, the reader finds exactly the one request of the client, with the
headers of the gateway, exactly if method and path are ASCII and no LF stands in the method, the path,
the host or the secret.
-/

namespace StrixPEP

open PyText

/-! ## `raw_req` -/

/-- `out`. -/
def requestLines (method path canon : String) (secret : Option String) (bodyLen : Nat) : List String :=
  [s!"{method} {path} HTTP/1.1", s!"Host: {canon}", "Connection: close", "Accept: */*"] ++
    secret.toList.map (fun s => s!"Authorization: Bearer {s}") ++
    (if bodyLen = 0 then [] else [s!"Content-Length: {bodyLen}"])

/-- `raw_req`. -/
def rawRequest (method path canon : String) (secret : Option String) (body : Bytes) : Bytes :=
  ("\r\n".intercalate (requestLines method path canon secret body.length) ++ "\r\n\r\n").toUTF8.toList ++ body

/-! ## A reader of requests -/

/-- A line less the CR at its end. -/
def stripCR (line : Bytes) : Bytes := if line.getLast? = some 13 then line.dropLast else line

/-- The lines up to the empty one, and what follows it; `acc` is the line so far. -/
def scanLines (acc : Bytes) : Bytes → Option (List Bytes × Bytes)
  | [] => none
  | b :: bs =>
    if b = 10 then
      if stripCR acc = [] then some ([], bs)
      else (scanLines [] bs).map fun r => (stripCR acc :: r.1, r.2)
    else scanLines (acc ++ [b]) bs

/-- A request as it is read. -/
structure Message where
  method : Bytes
  path : Bytes
  headers : List (Bytes × Bytes)
  body : Bytes
  deriving DecidableEq, Repr

def ascii (s : String) : Bytes := s.toList.map Json.asciiByte

/-- The method and the path of a request line. -/
def readRequestLine (line : Bytes) : Option (Bytes × Bytes) :=
  match split [32] 2 line with
  | [method, path, version] => if version = ascii "HTTP/1.1" then some (method, path) else none
  | _ => none

/-- The name and the value of a header. -/
def readField (line : Bytes) : Option (Bytes × Bytes) := cut (ascii ": ") line

/-- The length of the body. -/
def readLength (headers : List (Bytes × Bytes)) : Option Nat :=
  match headers.find? fun f => lower (latin1 f.1) = "content-length".toList with
  | none => some 0
  | some f => (String.ofList (latin1 f.2)).toNat?

/-- The first request, and what follows it. -/
def readMessage (raw : Bytes) : Option (Message × Bytes) :=
  match scanLines [] raw with
  | some (first :: fields, rest) =>
    match readRequestLine first, fields.mapM readField with
    | some (method, path), some headers =>
      match readLength headers with
      | some n => if rest.length < n then none else some (⟨method, path, headers, rest.take n⟩, rest.drop n)
      | none => none
    | _, _ => none
  | _ => none

/-! ## Encodings -/

/-- `encode()`. -/
def encode (t : List Char) : Bytes := t.flatMap String.utf8EncodeChar

theorem encode_append (t u : List Char) : encode (t ++ u) = encode t ++ encode u := List.flatMap_append

theorem encode_string (s : String) : s.toUTF8.toList = encode s.toList := Json.toUTF8_toList s

theorem encode_ascii {t : List Char} (h : ∀ c ∈ t, c.toNat < 128) : encode t = t.map Json.asciiByte := by
  unfold encode
  induction t with
  | nil => rfl
  | cons c t ih =>
    rw [List.flatMap_cons, Json.utf8EncodeChar_ascii (h c List.mem_cons_self),
      ih fun d hd => h d (List.mem_cons_of_mem _ hd), List.map_cons, List.singleton_append]

/-- The bytes of a character beyond ASCII are no ASCII bytes. -/
theorem high_bytes {c : Char} (hc : 128 ≤ c.toNat) {b : UInt8} (hb : b ∈ String.utf8EncodeChar c) :
    128 ≤ b.toNat := by
  have hor : ∀ (x y : UInt8), 128 ≤ y.toNat → 128 ≤ (x ||| y).toNat := by
    intro x y hy
    rw [UInt8.toNat_or]
    exact hy.trans Nat.right_le_or
  have hbig : ¬ c.val ≤ 0x7f := by
    rw [UInt32.le_iff_toNat_le]
    have : c.toNat = c.val.toNat := rfl
    have h7 : (0x7f : UInt32).toNat = 127 := rfl
    omega
  rw [String.utf8EncodeChar_eq_utf8EncodeCharFast] at hb
  unfold String.utf8EncodeCharFast at hb
  simp only [hbig, if_false] at hb
  split_ifs at hb
  all_goals
    simp only [List.mem_cons, List.not_mem_nil, or_false] at hb
    rcases hb with rfl | rfl | rfl | rfl <;> exact hor _ _ (by decide)

/-- An ASCII character stands for itself only. -/
theorem mem_encode {c : Char} (hc : c.toNat < 128) {t : List Char} :
    Json.asciiByte c ∈ encode t ↔ c ∈ t := by
  unfold encode
  rw [List.mem_flatMap]
  constructor
  · rintro ⟨d, hd, hb⟩
    by_cases hsmall : d.toNat < 128
    · rw [Json.utf8EncodeChar_ascii hsmall, List.mem_singleton] at hb
      have hnat := congrArg UInt8.toNat hb
      rw [Json.asciiByte_toNat hsmall, Json.asciiByte_toNat hc] at hnat
      obtain rfl : c = d := Char.ext (UInt32.toNat_inj.1 hnat)
      exact hd
    · have := high_bytes (by omega) hb
      rw [Json.asciiByte_toNat hc] at this
      omega
  · intro h
    refine ⟨c, h, ?_⟩
    rw [Json.utf8EncodeChar_ascii hc]
    exact List.mem_singleton.2 rfl

/-- `encode("latin-1")` of a text of Latin-1 characters. -/
def encodeLatin1 (s : String) : Bytes := s.toList.map Json.asciiByte

/-- The two encodings agree on ASCII texts only. -/
theorem encode_eq_latin1 {s : String} : encode s.toList = encodeLatin1 s ↔ ∀ c ∈ s.toList, c.toNat < 128 := by
  unfold encodeLatin1
  constructor
  · intro h
    have hlen : (s.toList.map Char.utf8Size).sum = (s.toList.map fun _ => 1).sum := by
      have := congrArg List.length h
      unfold encode at this
      simpa [List.length_flatMap] using this
    have hall : ∀ t : List Char, (t.map Char.utf8Size).sum = (t.map fun _ => 1).sum →
        ∀ c ∈ t, c.toNat < 128 := by
      intro t
      have hmin : ∀ u : List Char, (u.map fun _ => 1).sum ≤ (u.map Char.utf8Size).sum := by
        intro u
        induction u with
        | nil => exact Nat.le_refl _
        | cons e u ihu =>
          rw [List.map_cons, List.map_cons, List.sum_cons, List.sum_cons]
          have := Char.utf8Size_pos e
          omega
      induction t with
      | nil => exact fun _ c hc => by cases hc
      | cons d t ih =>
        intro hsum c hc
        rw [List.map_cons, List.map_cons, List.sum_cons, List.sum_cons] at hsum
        have := hmin t
        have hpos := Char.utf8Size_pos d
        rcases List.mem_cons.1 hc with rfl | hc
        · have hone : c.utf8Size = 1 := by omega
          rw [Char.utf8Size_eq_one_iff, UInt32.le_iff_toNat_le] at hone
          have h7 : (127 : UInt32).toNat = 127 := rfl
          have hval : c.toNat = c.val.toNat := rfl
          omega
        · exact ih (by omega) c hc
    exact hall s.toList hlen
  · exact encode_ascii

theorem latin1_encodeLatin1 {t : List Char} (h : ∀ c ∈ t, c.toNat < 256) :
    latin1 (t.map Json.asciiByte) = t := by
  unfold latin1
  rw [List.map_map]
  refine (List.map_congr_left fun c hc => ?_).trans (List.map_id t)
  show Char.ofNat (Json.asciiByte c).toNat = c
  unfold Json.asciiByte
  rw [UInt8.toNat_ofNat_of_lt' (h c hc)]
  exact Char.ofNat_toNat c

/-! ## Reading lines -/

theorem scanLines_run {acc l bs : Bytes} (h : 10 ∉ l) : scanLines acc (l ++ bs) = scanLines (acc ++ l) bs := by
  induction l generalizing acc with
  | nil => rw [List.append_nil, List.nil_append]
  | cons b l ih =>
    rw [List.mem_cons, not_or] at h
    rw [List.cons_append, scanLines, if_neg (Ne.symm h.1), ih h.2, List.append_assoc, List.singleton_append]

theorem stripCR_crlf (l : Bytes) : stripCR (l ++ [13]) = l := by
  unfold stripCR
  rw [if_pos (by simp), List.dropLast_concat]

theorem scanLines_line {l bs : Bytes} (h : 10 ∉ l) (hne : l ≠ []) :
    scanLines [] (l ++ crlf ++ bs) = (scanLines [] bs).map fun r => (l :: r.1, r.2) := by
  have hcr : (10 : UInt8) ∉ l ++ [13] := by
    rw [List.mem_append, not_or]
    exact ⟨h, by decide⟩
  have hshape : l ++ crlf ++ bs = l ++ [13] ++ 10 :: bs := by simp [crlf]
  rw [hshape, scanLines_run hcr, List.nil_append, scanLines, if_pos rfl, stripCR_crlf, if_neg hne]

theorem scanLines_lines {ls : List Bytes} (h : ∀ l ∈ ls, 10 ∉ l ∧ l ≠ []) (bs : Bytes) :
    scanLines [] (ls.flatMap (· ++ crlf) ++ (crlf ++ bs)) = some (ls, bs) := by
  induction ls with
  | nil =>
    show scanLines [] (13 :: 10 :: bs) = _
    simp [scanLines, stripCR]
  | cons l ls ih =>
    have hl := h l List.mem_cons_self
    rw [List.flatMap_cons, List.append_assoc, scanLines_line hl.1 hl.2,
      ih fun m hm => h m (List.mem_cons_of_mem _ hm)]
    rfl

/-- No line holds the byte that ends it. -/
theorem scanLines_clean {acc bs rest : Bytes} {ls : List Bytes} (h : scanLines acc bs = some (ls, rest))
    (hacc : 10 ∉ acc) : ∀ l ∈ ls, 10 ∉ l := by
  have hstrip : ∀ {l : Bytes}, 10 ∉ l → 10 ∉ stripCR l := by
    intro l hl
    unfold stripCR
    split
    · exact fun hm => hl (List.dropLast_subset l hm)
    · exact hl
  induction bs generalizing acc ls with
  | nil => cases h
  | cons b bs ih =>
    unfold scanLines at h
    split at h
    · split at h
      · cases h
        exact fun l hl => by cases hl
      · cases hs : scanLines [] bs with
        | none => rw [hs] at h; cases h
        | some r =>
          rw [hs] at h
          cases h
          intro l hl
          rcases List.mem_cons.1 hl with rfl | hl
          · exact hstrip hacc
          · exact ih hs List.not_mem_nil l hl
    · rename_i hb
      refine ih h ?_
      rw [List.mem_append, not_or, List.mem_singleton]
      exact ⟨hacc, Ne.symm hb⟩

theorem mem_of_mapM {α β : Type} {f : α → Option β} {xs : List α} {ys : List β} (h : xs.mapM f = some ys)
    {y : β} (hy : y ∈ ys) : ∃ x ∈ xs, f x = some y := by
  induction xs generalizing ys with
  | nil =>
    cases h
    cases hy
  | cons x xs ih =>
    rw [List.mapM_cons] at h
    cases hx : f x with
    | none => rw [hx] at h; cases h
    | some z =>
      cases hm : xs.mapM f with
      | none => rw [hx, hm] at h; cases h
      | some zs =>
        rw [hx, hm] at h
        cases h
        rcases List.mem_cons.1 hy with rfl | hy
        · exact ⟨x, List.mem_cons_self, hx⟩
        · obtain ⟨w, hw, hfw⟩ := ih hm hy
          exact ⟨w, List.mem_cons_of_mem _ hw, hfw⟩

/-- What is read of a request holds no LF. -/
theorem readMessage_clean {raw rest : Bytes} {m : Message} (h : readMessage raw = some (m, rest)) :
    10 ∉ m.method ∧ 10 ∉ m.path ∧ ∀ f ∈ m.headers, 10 ∉ f.2 := by
  unfold readMessage at h
  split at h
  · rename_i first fields rest' hs
    have hclean := scanLines_clean hs List.not_mem_nil
    split at h
    · rename_i method path headers hline hfields
      split at h
      · split at h
        · cases h
        · cases h
          have hfirst := hclean first List.mem_cons_self
          unfold readRequestLine at hline
          split at hline
          · rename_i p q v hsplit
            obtain ⟨-, -, rfl⟩ := split_three.1 hsplit
            split at hline
            · cases hline
              simp only [List.mem_append, List.mem_cons, not_or] at hfirst
              refine ⟨hfirst.1, hfirst.2.2.1, fun f hf => ?_⟩
              obtain ⟨line, hmem, hread⟩ := mem_of_mapM hfields hf
              have hvalue := hclean line (List.mem_cons_of_mem _ hmem)
              rw [cut_eq hread] at hvalue
              simp only [List.mem_append, not_or] at hvalue
              exact hvalue.2.2
            · cases hline
          · cases hline
      · cases h
    · cases h
  · cases h

/-! ## The lines of the gateway, read back -/

/-- `f"{name}: {value}"`. -/
def fieldLine (f : Bytes × Bytes) : Bytes := f.1 ++ (ascii ": " ++ f.2)

theorem mapM_fieldLine {fs : List (Bytes × Bytes)} (h : ∀ f ∈ fs, 58 ∉ f.1) :
    (fs.map fieldLine).mapM readField = some fs := by
  induction fs with
  | nil => rfl
  | cons f fs ih =>
    have hf : readField (fieldLine f) = some f := cut_first (h f List.mem_cons_self)
    rw [List.map_cons, List.mapM_cons, hf, ih fun g hg => h g (List.mem_cons_of_mem _ hg)]
    rfl

/-- The headers of the gateway. -/
def forwardedHeaders (canon : String) (secret : Option String) (bodyLen : Nat) : List (Bytes × Bytes) :=
  [(ascii "Host", encode canon.toList), (ascii "Connection", ascii "close"), (ascii "Accept", ascii "*/*")] ++
    secret.toList.map (fun s => (ascii "Authorization", encode ("Bearer " ++ s).toList)) ++
    (if bodyLen = 0 then [] else [(ascii "Content-Length", encode (toString bodyLen).toList)])

/-- The lines of the gateway, as bytes. -/
theorem requestLines_bytes (method path canon : String) (secret : Option String) (bodyLen : Nat) :
    (requestLines method path canon secret bodyLen).map (fun s => encode s.toList) =
      (encode method.toList ++ 32 :: (encode path.toList ++ 32 :: ascii "HTTP/1.1")) ::
        (forwardedHeaders canon secret bodyLen).map fieldLine := by
  have hrequest : encode (s!"{method} {path} HTTP/1.1").toList =
      encode method.toList ++ 32 :: (encode path.toList ++ 32 :: ascii "HTTP/1.1") := by
    show encode ("" ++ method ++ " " ++ path ++ " HTTP/1.1").toList = _
    simp only [String.toList_append, encode_append, List.append_assoc]
    rfl
  have hfield : ∀ name value : String, (∀ c ∈ (name ++ ": ").toList, c.toNat < 128) →
      encode (name ++ ": " ++ value).toList = fieldLine (ascii name, encode value.toList) := by
    intro name value hn
    unfold fieldLine ascii
    rw [String.toList_append, encode_append, encode_ascii hn, String.toList_append, List.map_append,
      List.append_assoc]
  have hhost : encode (s!"Host: {canon}").toList = fieldLine (ascii "Host", encode canon.toList) :=
    hfield "Host" canon (by decide)
  have hconnection : encode "Connection: close".toList = fieldLine (ascii "Connection", ascii "close") := by
    decide
  have haccept : encode "Accept: */*".toList = fieldLine (ascii "Accept", ascii "*/*") := by decide
  have hsecret : ∀ s : String, encode (s!"Authorization: Bearer {s}").toList =
      fieldLine (ascii "Authorization", encode ("Bearer " ++ s).toList) := by
    intro s
    rw [← hfield "Authorization" ("Bearer " ++ s) (by decide), ← String.append_assoc]
    rfl
  have hlength : encode (s!"Content-Length: {bodyLen}").toList =
      fieldLine (ascii "Content-Length", encode (toString bodyLen).toList) :=
    hfield "Content-Length" (toString bodyLen) (by decide)
  unfold requestLines forwardedHeaders
  simp only [List.map_append, List.map_cons, List.map_nil]
  rw [hrequest, hhost, hconnection, haccept]
  have hauthorization : (secret.toList.map (fun s => s!"Authorization: Bearer {s}")).map
      (fun s : String => encode s.toList) =
      (secret.toList.map (fun s => (ascii "Authorization", encode ("Bearer " ++ s).toList))).map fieldLine := by
    rw [List.map_map, List.map_map]
    exact List.map_congr_left fun s _ => hsecret s
  have hbody : (if bodyLen = 0 then [] else [s!"Content-Length: {bodyLen}"]).map (fun s : String => encode s.toList) =
      (if bodyLen = 0 then [] else [(ascii "Content-Length", encode (toString bodyLen).toList)]).map
        fieldLine := by
    split
    · rfl
    · exact congrArg (fun l => [l]) hlength
  rw [hauthorization, hbody]
  rfl

/-- `raw_req` is its lines, the blank line, and the body. -/
theorem rawRequest_eq (method path canon : String) (secret : Option String) (body : Bytes) :
    rawRequest method path canon secret body =
      ((requestLines method path canon secret body.length).map (fun s => encode s.toList)).flatMap (· ++ crlf) ++
        (crlf ++ body) := by
  have hjoin : ∀ lines : List String, lines ≠ [] →
      encode ("\r\n".intercalate lines ++ "\r\n\r\n").toList =
        (lines.map (fun s => encode s.toList)).flatMap (· ++ crlf) ++ crlf := by
    intro lines hne
    have hend : encode "\r\n\r\n".toList = crlf ++ crlf := by decide
    have hsep : encode "\r\n".toList = crlf := by decide
    induction lines with
    | nil => exact absurd rfl hne
    | cons l lines ih =>
      cases lines with
      | nil =>
        rw [String.intercalate_singleton, String.toList_append, encode_append, hend]
        simp
      | cons l' lines =>
        have hrest := ih (List.cons_ne_nil _ _)
        rw [String.toList_append, encode_append, hend] at hrest
        rw [String.intercalate_cons_cons]
        simp only [String.toList_append, encode_append, hend, hsep, List.append_assoc, hrest]
        simp only [List.map_cons, List.flatMap_cons, List.append_assoc]
  unfold rawRequest
  rw [encode_string, hjoin _ (by simp [requestLines]), List.append_assoc]

theorem number_printable (n : Nat) : Json.Printable (toString n).toList := Json.toString_printable (Int.ofNat n)

/-- The reader finds the length that the gateway writes. -/
theorem readLength_forwarded (canon : String) (secret : Option String) (bodyLen : Nat) :
    readLength (forwardedHeaders canon secret bodyLen) = some bodyLen := by
  have hdigits : ∀ c ∈ (toString bodyLen).toList, c.toNat < 128 :=
    fun c hc => (number_printable bodyLen c hc).2.trans (by decide)
  have hvalue : (String.ofList (latin1 (encode (toString bodyLen).toList))).toNat? = some bodyLen := by
    rw [encode_ascii hdigits, latin1_encodeLatin1 fun c hc => (hdigits c hc).trans (by decide),
      String.ofList_toList]
    exact Nat.toNat?_repr bodyLen
  have hhost : decide (lower (latin1 (ascii "Host")) = "content-length".toList) = false := by decide
  have hconnection : decide (lower (latin1 (ascii "Connection")) = "content-length".toList) = false := by decide
  have haccept : decide (lower (latin1 (ascii "Accept")) = "content-length".toList) = false := by decide
  have hauth : decide (lower (latin1 (ascii "Authorization")) = "content-length".toList) = false := by decide
  have hlength : decide (lower (latin1 (ascii "Content-Length")) = "content-length".toList) = true := by decide
  unfold readLength forwardedHeaders
  cases secret <;> by_cases hzero : bodyLen = 0
  all_goals simp only [hzero, if_true, if_false, List.append_nil, List.cons_append, List.nil_append,
    Option.toList_none, Option.toList_some, List.map_nil, List.map_cons, List.find?_cons, List.find?_nil, hhost,
    hconnection, haccept, hauth, hlength, hvalue]

/-! ## What goes upstream, as the reader finds it -/

/-- No LF stands in the parts of the head. -/
structure Clean (method path canon : String) (secret : Option String) : Prop where
  method : '\n' ∉ method.toList
  path : '\n' ∉ path.toList
  canon : '\n' ∉ canon.toList
  secret : ∀ s ∈ secret, '\n' ∉ s.toList

theorem lf_notMem_encode {t : List Char} (h : '\n' ∉ t) : 10 ∉ encode t :=
  fun hm => h ((mem_encode (by decide)).1 hm)

/-- The names of the headers of the gateway. -/
def headerNames : List Bytes :=
  [ascii "Host", ascii "Connection", ascii "Accept", ascii "Authorization", ascii "Content-Length"]

theorem headerNames_clean : ∀ n ∈ headerNames, 10 ∉ n ∧ 58 ∉ n := by decide

theorem mem_forwardedHeaders {canon : String} {secret : Option String} {bodyLen : Nat} {f : Bytes × Bytes}
    (hf : f ∈ forwardedHeaders canon secret bodyLen) :
    f = (ascii "Host", encode canon.toList) ∨ f = (ascii "Connection", ascii "close") ∨
      f = (ascii "Accept", ascii "*/*") ∨
      (∃ s ∈ secret, f = (ascii "Authorization", encode ("Bearer " ++ s).toList)) ∨
      f = (ascii "Content-Length", encode (toString bodyLen).toList) := by
  unfold forwardedHeaders at hf
  simp only [List.mem_append, List.mem_cons, List.not_mem_nil, or_false, List.mem_map, Option.mem_toList] at hf
  rcases hf with ((hf | hf | hf) | ⟨s, hs, rfl⟩) | hf
  · exact Or.inl hf
  · exact Or.inr (Or.inl hf)
  · exact Or.inr (Or.inr (Or.inl hf))
  · exact Or.inr (Or.inr (Or.inr (Or.inl ⟨s, hs, rfl⟩)))
  · split at hf
    · cases hf
    · exact Or.inr (Or.inr (Or.inr (Or.inr (List.mem_singleton.1 hf))))

theorem forwarded_name {canon : String} {secret : Option String} {bodyLen : Nat} {f : Bytes × Bytes}
    (hf : f ∈ forwardedHeaders canon secret bodyLen) : f.1 ∈ headerNames := by
  unfold headerNames
  rcases mem_forwardedHeaders hf with rfl | rfl | rfl | ⟨s, -, rfl⟩ | rfl <;> simp

theorem forwarded_value {method path canon : String} {secret : Option String}
    (hc : Clean method path canon secret) {bodyLen : Nat} {f : Bytes × Bytes}
    (hf : f ∈ forwardedHeaders canon secret bodyLen) : 10 ∉ f.2 := by
  rcases mem_forwardedHeaders hf with rfl | rfl | rfl | ⟨s, hs, rfl⟩ | rfl
  · exact lf_notMem_encode hc.canon
  · decide
  · decide
  · refine lf_notMem_encode ?_
    rw [String.toList_append, List.mem_append, not_or]
    exact ⟨by decide, hc.secret s hs⟩
  · refine lf_notMem_encode fun hm => ?_
    exact absurd (number_printable bodyLen _ hm).1 (by decide)

theorem requestLines_clean {method path canon : String} {secret : Option String}
    (hc : Clean method path canon secret) (bodyLen : Nat) :
    ∀ l ∈ (requestLines method path canon secret bodyLen).map (fun s => encode s.toList), 10 ∉ l ∧ l ≠ [] := by
  rw [requestLines_bytes]
  intro l hl
  rcases List.mem_cons.1 hl with rfl | hl
  · refine ⟨?_, by simp⟩
    simp only [List.mem_append, List.mem_cons, not_or]
    exact ⟨lf_notMem_encode hc.method, by decide, lf_notMem_encode hc.path, by decide, by decide⟩
  · obtain ⟨f, hf, rfl⟩ := List.mem_map.1 hl
    unfold fieldLine
    refine ⟨?_, by simp [ascii]⟩
    simp only [List.mem_append, not_or]
    exact ⟨(headerNames_clean f.1 (forwarded_name hf)).1, by decide, forwarded_value hc hf⟩

/-- A clean head is read as it was written. -/
theorem readMessage_raw {method path canon : String} {secret : Option String} (hc : Clean method path canon secret)
    (hm : ' ' ∉ method.toList) (hp : ' ' ∉ path.toList) (body : Bytes) :
    readMessage (rawRequest method path canon secret body) =
      some (⟨encode method.toList, encode path.toList, forwardedHeaders canon secret body.length, body⟩, []) := by
  have hspace : ∀ {t : List Char}, ' ' ∉ t → (32 : UInt8) ∉ encode t :=
    fun h hx => h ((mem_encode (by decide)).1 hx)
  have hlines := scanLines_lines (requestLines_clean hc body.length) body
  have hfirst : readRequestLine (encode method.toList ++ 32 :: (encode path.toList ++ 32 :: ascii "HTTP/1.1")) =
      some (encode method.toList, encode path.toList) := by
    unfold readRequestLine
    rw [split_three.2 ⟨hspace hm, hspace hp, rfl⟩]
    simp
  have hnames : ∀ f ∈ forwardedHeaders canon secret body.length, (58 : UInt8) ∉ f.1 :=
    fun f hf => (headerNames_clean f.1 (forwarded_name hf)).2
  rw [rawRequest_eq]
  unfold readMessage
  rw [hlines, requestLines_bytes]
  simp only [hfirst, mapM_fieldLine hnames, readLength_forwarded]
  rw [if_neg (Nat.lt_irrefl _), List.take_length, List.drop_length]

/-- The reader finds exactly one request: the method and the path bytes of the client, the headers of
the gateway, and the body. -/
def Forwarded (h : Head) (canon : String) (secret : Option String) : Prop :=
  readMessage (rawRequest h.method h.path canon secret h.preBody) =
    some (⟨encodeLatin1 h.method, encodeLatin1 h.path, forwardedHeaders canon secret h.preBody.length, h.preBody⟩, [])

theorem split_head {α : Type} [BEq α] [LawfulBEq α] {sep : List α} (n : Nat) (t : List α) :
    (split sep n t).headD [] <+: t := by
  cases n with
  | zero => exact List.prefix_refl t
  | succ n =>
    unfold split
    split
    · exact List.prefix_refl t
    · rename_i before after hc
      exact ⟨sep ++ after, (cut_eq hc).symm⟩

/-- The method and the path of an accepted head are bytes of the client. -/
theorem head_bytes {chunks : List Bytes} {h : Head} (hread : readRequest chunks = some h) :
    (encodeLatin1 h.method ++ 32 :: (encodeLatin1 h.path ++ [32]) <+: chunks.flatten) ∧
      ' ' ∉ h.method.toList ∧ ' ' ∉ h.path.toList := by
  unfold readRequest at hread
  split at hread
  · rename_i found hr
    cases hread
    obtain ⟨pre, post, head, rest, hsplit, -, hcut, hp⟩ := readHead_head hr
    obtain ⟨⟨v, hline⟩, hm, hq, -⟩ := parseHead_ok hp
    refine ⟨?_, hm, hq⟩
    have hlatin : (latin1 head).map Json.asciiByte = head := by
      unfold latin1
      rw [List.map_map]
      refine (List.map_congr_left fun b _ => ?_).trans (List.map_id head)
      show Json.asciiByte (Char.ofNat b.toNat) = b
      have hvalid : b.toNat.isValidChar := Or.inl (b.toNat_lt.trans (by decide))
      have hnat : (Char.ofNat b.toNat).toNat = b.toNat := by
        unfold Char.ofNat
        rw [dif_pos hvalid]
        rfl
      unfold Json.asciiByte
      rw [hnat, UInt8.ofNat_toNat]
    have hfirst : (headLines head).headD [] <+: latin1 head := split_head _ _
    rw [hline] at hfirst
    have hbytes := hfirst.map Json.asciiByte
    rw [hlatin] at hbytes
    have hshort : encodeLatin1 h.method ++ 32 :: (encodeLatin1 h.path ++ [32]) <+: head := by
      refine List.IsPrefix.trans ⟨v.map Json.asciiByte, ?_⟩ hbytes
      unfold encodeLatin1
      simp [Json.asciiByte]
    have hstream : chunks.flatten = head ++ (blankLine ++ rest ++ post) := by
      have := hsplit
      rw [List.nil_append, cut_eq hcut] at this
      rw [this]
      simp only [List.append_assoc]
    rw [hstream]
    exact hshort.trans (List.prefix_append _ _)
  · cases hread
  · cases hread

/-- **When the bytes that go upstream are the request of the client and nothing else**: for every accepted
head, host and secret, exactly if method and path are ASCII and no part holds an LF. -/
theorem forwarded_iff {chunks : List Bytes} {h : Head} (hread : readRequest chunks = some h) (canon : String)
    (secret : Option String) :
    (encodeLatin1 h.method ++ 32 :: (encodeLatin1 h.path ++ [32]) <+: chunks.flatten) ∧
      (Forwarded h canon secret ↔
        (∀ c ∈ h.method.toList, c.toNat < 128) ∧ (∀ c ∈ h.path.toList, c.toNat < 128) ∧
          Clean h.method h.path canon secret) := by
  obtain ⟨hbytes, hspaces⟩ := head_bytes hread
  refine ⟨hbytes, ?_, ?_⟩
  · intro hf
    obtain ⟨hm, hp, hheaders⟩ := readMessage_clean hf
    have hlf : ∀ {s : String}, 10 ∉ encodeLatin1 s → '\n' ∉ s.toList :=
      fun hs hx => hs (List.mem_map.2 ⟨'\n', hx, by decide⟩)
    have hencoded : ∀ {t : List Char}, 10 ∉ encode t → '\n' ∉ t :=
      fun ht hx => ht ((mem_encode (by decide)).2 hx)
    have hc : Clean h.method h.path canon secret := by
      refine ⟨hlf hm, hlf hp, ?_, ?_⟩
      · exact hencoded (hheaders (ascii "Host", encode canon.toList) (by simp [forwardedHeaders]))
      · intro s hs hx
        have hmem : (ascii "Authorization", encode ("Bearer " ++ s).toList) ∈
            forwardedHeaders canon secret h.preBody.length := by
          have := Option.mem_def.1 hs
          simp [forwardedHeaders, this]
        refine hencoded (hheaders _ hmem) ?_
        rw [String.toList_append]
        exact List.mem_append_right _ hx
    have hsame := (readMessage_raw hc hspaces.1 hspaces.2 h.preBody).symm.trans hf
    simp only [Option.some.injEq, Prod.mk.injEq, Message.mk.injEq, and_true] at hsame
    exact ⟨encode_eq_latin1.1 hsame.1, encode_eq_latin1.1 hsame.2, hc⟩
  · rintro ⟨hm, hp, hc⟩
    unfold Forwarded
    rw [readMessage_raw hc hspaces.1 hspaces.2, encode_eq_latin1.2 hm, encode_eq_latin1.2 hp]

/-- `forwarded_iff` at a plain request with a body. -/
theorem forwarded_iff_posted :
    Forwarded ⟨"POST", "/x", [("host", "a"), ("content-length", "2")], [104, 105]⟩ "a" (some "key") := by
  have hread : readRequest [postedStream] =
      some ⟨"POST", "/x", [("host", "a"), ("content-length", "2")], [104, 105]⟩ := by decide +kernel
  refine (forwarded_iff hread "a" (some "key")).2.2 ⟨by decide, by decide, ⟨by decide, by decide, by decide, ?_⟩⟩
  rintro s hs
  obtain rfl : s = "key" := (Option.mem_some_iff.1 hs).symm
  decide

/-- A request whose path holds a line end. -/
def splitStream : Bytes := "GET /a\nX-Admin:1 HTTP/1.1\r\nhost: a\r\n\r\n".toUTF8.toList

/-- The line end in the path goes upstream as it is: the request has another path, and no such header
was asked for. -/
theorem path_splits_head :
    readRequest [splitStream] = some ⟨"GET", "/a\nX-Admin:1", [("host", "a")], []⟩ ∧
      ¬ Forwarded ⟨"GET", "/a\nX-Admin:1", [("host", "a")], []⟩ "a" none := by
  unfold Forwarded
  decide +kernel

end StrixPEP
