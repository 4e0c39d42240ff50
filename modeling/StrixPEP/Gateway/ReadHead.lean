import StrixPEP.Gateway.Exchange

/-!
# Reading a request head from a stream

`readRequest` is `_read_head` on a whole stream: the chunks that `recv` returns, and then the end.

* `Segments` — a way to split a stream into chunks;
* `Carries` — the body is the whole body that the head declares;
* `PlainStream` — a condition on the bytes: nothing follows the head, and it declares no body.

Principal result: `read_head_iff`, the request depends only on the bytes, and carries its body, exactly
for streams that are rejected in every segmentation and for plain ones.
-/

namespace StrixPEP

open PyText

/-! ## The first occurrence of a separator -/

section Cut

variable {α : Type} [BEq α] [LawfulBEq α] {sep t u a b : List α}

theorem cut_eq (h : cut sep t = some (a, b)) : t = a ++ (sep ++ b) := by
  induction t generalizing a b with
  | nil => cases h
  | cons x xs ih =>
    unfold cut at h
    split at h
    · rename_i hp
      obtain ⟨r, hr⟩ := List.isPrefixOf_iff_prefix.1 hp
      cases h
      rw [← hr, List.drop_left, List.nil_append]
    · cases hc : cut sep xs with
      | none => rw [hc] at h; cases h
      | some r =>
        rw [hc] at h
        cases h
        rw [List.cons_append, ← ih hc]

theorem length_of_cut (h : cut sep t = some (a, b)) : t.length = a.length + sep.length + b.length := by
  rw [cut_eq h, List.length_append, List.length_append, Nat.add_assoc]

/-- More input does not move the first occurrence. -/
theorem cut_append (h : cut sep t = some (a, b)) : cut sep (t ++ u) = some (a, b ++ u) := by
  induction t generalizing a b with
  | nil => cases h
  | cons x xs ih =>
    rw [List.cons_append]
    unfold cut at h ⊢
    split at h
    · rename_i hp
      obtain ⟨r, hr⟩ := List.isPrefixOf_iff_prefix.1 hp
      cases h
      have hlong : sep.isPrefixOf (x :: (xs ++ u)) = true :=
        List.isPrefixOf_iff_prefix.2 ⟨r ++ u, by rw [← List.append_assoc, hr, List.cons_append]⟩
      rw [if_pos hlong, ← List.cons_append, ← hr, List.append_assoc, List.drop_left, List.drop_left]
    · rename_i hp
      cases hc : cut sep xs with
      | none => rw [hc] at h; cases h
      | some r =>
        rw [hc] at h
        cases h
        have hshort : ¬ sep.isPrefixOf (x :: (xs ++ u)) = true := by
          intro hlong
          refine hp (List.isPrefixOf_iff_prefix.2 ?_)
          refine List.prefix_of_prefix_length_le (List.isPrefixOf_iff_prefix.1 hlong)
            (List.prefix_append (x :: xs) u) ?_
          rw [List.length_cons, length_of_cut hc]
          omega
        rw [if_neg hshort, ih hc]
        rfl

/-- Before the separator has arrived there is no occurrence. -/
theorem cut_short (h : cut sep (t ++ u) = some (a, b)) (hlen : t.length < a.length + sep.length) :
    cut sep t = none := by
  cases hc : cut sep t with
  | none => rfl
  | some r =>
    obtain ⟨a', b'⟩ := r
    have hlong := cut_append (u := u) hc
    rw [h, Option.some.injEq, Prod.mk.injEq] at hlong
    have := length_of_cut hc
    rw [← hlong.1] at this
    omega

/-- Once it has arrived there is one. -/
theorem cut_long (hsep : sep ≠ []) (h : cut sep (t ++ u) = some (a, b))
    (hlen : a.length + sep.length ≤ t.length) : ∃ b', cut sep t = some (a, b') ∧ b = b' ++ u := by
  induction t generalizing a b with
  | nil =>
    have hpos := List.length_pos_iff.2 hsep
    rw [List.length_nil] at hlen
    omega
  | cons x xs ih =>
    rw [List.cons_append] at h
    unfold cut at h ⊢
    split at h
    · rename_i hp
      cases h
      rw [List.length_nil, Nat.zero_add] at hlen
      have hshort : sep <+: x :: xs :=
        List.prefix_of_prefix_length_le (List.isPrefixOf_iff_prefix.1 hp) (List.prefix_append (x :: xs) u) hlen
      obtain ⟨r, hr⟩ := hshort
      rw [if_pos (List.isPrefixOf_iff_prefix.2 ⟨r, hr⟩), ← List.cons_append, ← hr, List.append_assoc,
        List.drop_left, List.drop_left]
      exact ⟨r, rfl, rfl⟩
    · rename_i hp
      cases hc : cut sep (xs ++ u) with
      | none => rw [hc] at h; cases h
      | some r =>
        rw [hc] at h
        cases h
        rw [List.length_cons, List.length_cons] at hlen
        obtain ⟨b', hb', hb⟩ := ih hc (by omega)
        have hshort : ¬ sep.isPrefixOf (x :: xs) = true := by
          intro hlong
          obtain ⟨w, hw⟩ := List.isPrefixOf_iff_prefix.1 hlong
          exact hp (List.isPrefixOf_iff_prefix.2 ⟨w ++ u, by rw [← List.append_assoc, hw, List.cons_append]⟩)
        rw [if_neg hshort, hb']
        exact ⟨b', rfl, hb⟩

theorem cut_one {c : α} (h : cut [c] t = some (a, b)) : c ∉ a ∧ t = a ++ c :: b := by
  refine ⟨?_, cut_eq h⟩
  induction t generalizing a b with
  | nil => cases h
  | cons x xs ih =>
    unfold cut at h
    split at h
    · cases h
      exact List.not_mem_nil
    · rename_i hx
      cases hc : cut [c] xs with
      | none => rw [hc] at h; cases h
      | some r =>
        rw [hc] at h
        cases h
        intro hm
        rcases List.mem_cons.1 hm with rfl | hm
        · exact hx (by simp)
        · exact ih hc hm

theorem cut_one_none {c : α} (h : cut [c] t = none) : c ∉ t := by
  induction t with
  | nil => exact List.not_mem_nil
  | cons x xs ih =>
    unfold cut at h
    split at h
    · cases h
    · rename_i hx
      cases hc : cut [c] xs with
      | some r => rw [hc] at h; cases h
      | none =>
        intro hm
        rcases List.mem_cons.1 hm with rfl | hm
        · exact hx (by simp)
        · exact ih hc hm

/-- The first occurrence is where the separator begins first. -/
theorem cut_first {c : α} (h : c ∉ a) : cut (c :: sep) (a ++ (c :: sep ++ b)) = some (a, b) := by
  induction a with
  | nil =>
    rw [List.nil_append, List.cons_append]
    unfold cut
    rw [← List.cons_append, if_pos (List.isPrefixOf_iff_prefix.2 (List.prefix_append (c :: sep) b)), List.drop_left]
  | cons x a ih =>
    rw [List.mem_cons, not_or] at h
    rw [List.cons_append]
    unfold cut
    have hx : ¬ (c :: sep).isPrefixOf (x :: (a ++ (c :: sep ++ b))) = true := by
      rw [List.isPrefixOf_iff_prefix, List.cons_prefix_cons]
      exact fun hp => h.1 hp.1
    rw [if_neg hx, ih h.2]
    rfl

/-- A text with three parts. -/
theorem split_three {c : α} {m p v : List α} :
    split [c] 2 t = [m, p, v] ↔ c ∉ m ∧ c ∉ p ∧ t = m ++ c :: (p ++ c :: v) := by
  constructor
  · intro h
    unfold split at h
    cases hc : cut [c] t with
    | none => rw [hc] at h; simp at h
    | some r =>
      obtain ⟨a, after⟩ := r
      rw [hc] at h
      obtain ⟨ha, rfl⟩ := cut_one hc
      simp only [List.cons.injEq] at h
      obtain ⟨rfl, h⟩ := h
      unfold split at h
      cases hd : cut [c] after with
      | none => rw [hd] at h; simp at h
      | some r =>
        obtain ⟨b, last⟩ := r
        rw [hd] at h
        obtain ⟨hb, rfl⟩ := cut_one hd
        simp only [split, List.cons.injEq, and_true] at h
        obtain ⟨rfl, rfl⟩ := h
        exact ⟨ha, hb, rfl⟩
  · rintro ⟨hm, hp, rfl⟩
    have h1 : cut [c] (m ++ c :: (p ++ c :: v)) = some (m, p ++ c :: v) := cut_first hm
    have h2 : cut [c] (p ++ c :: v) = some (p, v) := cut_first hp
    simp only [split, h1, h2]

end Cut

/-! ## A stream and its segmentations -/

/-- The blank line at the end of a head. -/
def blankLine : Bytes := crlf ++ crlf

/-- `_read_head` on a stream that ends after these chunks. -/
def readRequest (chunks : List Bytes) : Option Head :=
  match readHead [] chunks with
  | .head h => some h
  | .malformed | .more => none

/-- The chunks that `recv` can return of a stream. -/
def Segments (stream : Bytes) (chunks : List Bytes) : Prop :=
  chunks.flatten = stream ∧ ∀ c ∈ chunks, c ≠ [] ∧ c.length ≤ 65536

/-- The length that the value of a header says. -/
def lengthOf : Option String → Nat
  | none => 0
  | some text => if text.toList.all isAsciiDigit then ofDigits text.toList else 0

/-- The length of the body that the headers declare. -/
def declaredLength (headers : List (String × String)) : Nat := lengthOf (headers.lookup "content-length")

/-- The body is the whole body that the head declares: so many bytes after the blank line. -/
def Carries (stream : Bytes) (h : Head) : Prop :=
  ∃ head rest, cut blankLine stream = some (head, h.preBody ++ rest) ∧
    h.preBody.length = declaredLength h.headers

/-- The lines of a head. -/
def headLines (head : Bytes) : List (List Char) := splitAll ['\r', '\n'] (latin1 head)

/-- The spaces of the request line. -/
def lineSpaces (head : Bytes) : Nat := ((headLines head).headD []).count ' '

/-- The name and the value of a header line. -/
def headerField (line : List Char) : Option (String × String) :=
  (cut [':'] line).map fun (k, v) => (String.ofList (lower (strip k)), String.ofList (strip v))

/-- The length of the body that a head declares: its last such line decides. -/
def headLength (head : Bytes) : Nat :=
  declaredLength (((headLines head).tail.filterMap headerField).reverse)

/-- If the head comes within the limit and its request line has two spaces, nothing follows the head
and it declares no body. -/
def PlainStream (stream : Bytes) : Prop :=
  ∀ head rest, cut blankLine stream = some (head, rest) → head.length + 4 ≤ 262144 →
    2 ≤ lineSpaces head → rest = [] ∧ headLength head = 0

theorem length_blankLine : blankLine.length = 4 := rfl

theorem blankLine_ne : blankLine ≠ [] := by decide

/-- What follows the head is no part of it. -/
theorem parseHead_rest (head rest rest' : Bytes) :
    parseHead head rest' = (parseHead head rest).map fun h => { h with preBody := rest' } := by
  unfold parseHead
  split
  · rfl
  · split <;> rfl

/-- A request line has its three parts exactly if it has two spaces. -/
theorem split_spaces (t : List Char) : (∃ m p v, split [' '] 2 t = [m, p, v]) ↔ 2 ≤ t.count ' ' := by
  constructor
  · rintro ⟨m, p, v, h⟩
    obtain ⟨-, -, rfl⟩ := split_three.1 h
    simp only [List.count_append, List.count_cons_self]
    omega
  · intro hcount
    cases hc : cut [' '] t with
    | none =>
      have := List.count_eq_zero.2 (cut_one_none hc)
      omega
    | some r =>
      obtain ⟨m, after⟩ := r
      obtain ⟨hm, rfl⟩ := cut_one hc
      rw [List.count_append, List.count_eq_zero.2 hm, List.count_cons_self] at hcount
      cases hd : cut [' '] after with
      | none =>
        have := List.count_eq_zero.2 (cut_one_none hd)
        omega
      | some r =>
        obtain ⟨p, v⟩ := r
        obtain ⟨hp, rfl⟩ := cut_one hd
        exact ⟨m, p, v, split_three.2 ⟨hm, hp, rfl⟩⟩

/-- The headers as they are read, line by line. -/
theorem lookup_headers (lines : List (List Char)) (d : List (String × String)) (name : String) :
    (lines.foldl (fun d line =>
        match cut [':'] line with
        | none => d
        | some (k, v) => Dict.set d (String.ofList (lower (strip k))) (String.ofList (strip v))) d).lookup name =
      ((lines.filterMap headerField).reverse.lookup name).or (d.lookup name) := by
  induction lines generalizing d with
  | nil => rfl
  | cons line lines ih =>
    rw [List.foldl_cons, ih]
    unfold headerField
    cases hc : cut [':'] line with
    | none => simp only [List.filterMap_cons, hc, Option.map_none]
    | some r =>
      obtain ⟨k, v⟩ := r
      simp only [List.filterMap_cons, hc, Option.map_some, List.reverse_cons, List.lookup_append,
        Option.or_assoc]
      congr 1
      by_cases hk : name = String.ofList (lower (strip k))
      · rw [hk, Dict.lookup_set_self]
        simp
      · have hb : (name == String.ofList (lower (strip k))) = false := beq_eq_false_iff_ne.2 hk
        rw [Dict.lookup_set_ne d _ hk]
        simp [List.lookup_cons, hb]

/-- What an accepted head says: its request line, and the declared length. -/
theorem parseHead_ok {head rest : Bytes} {h : Head} (hp : parseHead head rest = some h) :
    (∃ v, (headLines head).headD [] = h.method.toList ++ ' ' :: (h.path.toList ++ ' ' :: v)) ∧
      ' ' ∉ h.method.toList ∧ ' ' ∉ h.path.toList ∧
      declaredLength h.headers = headLength head ∧ h.preBody = rest := by
  unfold parseHead at hp
  unfold headLength headLines
  split at hp
  · cases hp
  · rename_i first lines hlines
    rw [hlines]
    split at hp
    · rename_i m p v hsplit
      cases hp
      obtain ⟨hm, hp', hfirst⟩ := split_three.1 hsplit
      refine ⟨⟨v, ?_⟩, ?_, ?_, ?_, rfl⟩
      · rw [String.toList_ofList, String.toList_ofList]
        exact hfirst
      · rw [String.toList_ofList]
        exact hm
      · rw [String.toList_ofList]
        exact hp'
      · refine congrArg lengthOf ((lookup_headers lines [] "content-length").trans ?_)
        rw [List.lookup_nil, Option.or_none, List.tail_cons]
    · cases hp

/-- A head is accepted exactly if its request line has two spaces. -/
theorem parseHead_some_iff {head rest : Bytes} :
    (∃ h, parseHead head rest = some h) ↔ 2 ≤ lineSpaces head := by
  constructor
  · rintro ⟨h, hp⟩
    obtain ⟨⟨v, hline⟩, -⟩ := parseHead_ok hp
    unfold lineSpaces
    rw [hline]
    simp only [List.count_append, List.count_cons_self]
    omega
  · intro hcount
    unfold lineSpaces headLines at hcount
    unfold parseHead
    cases hlines : splitAll ['\r', '\n'] (latin1 head) with
    | nil =>
      rw [hlines] at hcount
      simp at hcount
    | cons first lines =>
      rw [hlines, List.headD_cons] at hcount
      obtain ⟨m, p, v, hs⟩ := (split_spaces first).2 hcount
      simp only [hs]
      exact ⟨_, rfl⟩

theorem endHead_eq (buf : Bytes) : endHead buf =
    (cut blankLine buf).map fun r => (parseHead r.1 r.2).elim .malformed .head := by
  unfold endHead
  split
  · rename_i h
    have h : cut blankLine buf = none := h
    rw [h]
    rfl
  · rename_i head rest h
    have h : cut blankLine buf = some (head, rest) := h
    rw [h, Option.map_some]
    cases parseHead head rest <;> rfl

theorem readHead_done {buf : Bytes} {r : HeadRead} (h : endHead buf = some r) (chunks : List Bytes) :
    readHead buf chunks = r := by
  cases chunks with
  | nil =>
    unfold readHead
    rw [h, Option.getD_some]
  | cons c chunks =>
    unfold readHead
    rw [h]

theorem readHead_next {buf c : Bytes} (h : cut blankLine buf = none)
    (hlen : (buf ++ c).length ≤ 262144) (chunks : List Bytes) :
    readHead buf (c :: chunks) = readHead (buf ++ c) chunks := by
  have hend : endHead buf = none := by rw [endHead_eq, h, Option.map_none]
  rw [readHead.eq_def]
  simp only [hend]
  rw [if_neg (by omega)]

/-! ## Where a segmentation ends the head -/

/-- A head that is accepted has arrived within the limit. -/
theorem readHead_head {buf : Bytes} {chunks : List Bytes} {h : Head} (hr : readHead buf chunks = .head h) :
    ∃ pre post head rest, buf ++ chunks.flatten = pre ++ post ∧ (pre = buf ∨ pre.length ≤ 262144) ∧
      cut blankLine pre = some (head, rest) ∧ parseHead head rest = some h := by
  have hdone : ∀ b : Bytes, endHead b = some (.head h) →
      ∃ head rest, cut blankLine b = some (head, rest) ∧ parseHead head rest = some h := by
    intro b hb
    rw [endHead_eq] at hb
    cases hc : cut blankLine b with
    | none => rw [hc] at hb; cases hb
    | some r =>
      rw [hc, Option.map_some, Option.some.injEq] at hb
      cases hp : parseHead r.1 r.2 with
      | none => rw [hp] at hb; cases hb
      | some h' =>
        rw [hp] at hb
        cases hb
        exact ⟨r.1, r.2, rfl, hp⟩
  induction chunks generalizing buf with
  | nil =>
    unfold readHead at hr
    cases he : endHead buf with
    | none => rw [he] at hr; cases hr
    | some r =>
      rw [he, Option.getD_some] at hr
      subst hr
      obtain ⟨head, rest, hcut, hp⟩ := hdone buf he
      exact ⟨buf, [], head, rest, rfl, Or.inl rfl, hcut, hp⟩
  | cons c chunks ih =>
    unfold readHead at hr
    split at hr
    · rename_i r he
      subst hr
      obtain ⟨head, rest, hcut, hp⟩ := hdone buf he
      exact ⟨buf, _, head, rest, rfl, Or.inl rfl, hcut, hp⟩
    · split at hr
      · cases hr
      · rename_i hlen
        obtain ⟨pre, post, head, rest, hsplit, hlim, hcut, hp⟩ := ih hr
        refine ⟨pre, post, head, rest, ?_, Or.inr ?_, hcut, hp⟩
        · rw [List.flatten_cons, ← List.append_assoc, hsplit]
        · rcases hlim with rfl | hlim
          · omega
          · exact hlim

/-- The chunk with which the head is complete decides what is returned. -/
theorem readHead_arrive {buf c head rest : Bytes} {pre post : List Bytes}
    (hcut : cut blankLine (buf ++ pre.flatten ++ c) = some (head, rest))
    (hshort : (buf ++ pre.flatten).length < head.length + 4)
    (hlim : (buf ++ pre.flatten ++ c).length ≤ 262144) :
    readHead buf (pre ++ c :: post) = (parseHead head rest).elim .malformed .head := by
  induction pre generalizing buf with
  | nil =>
    rw [List.flatten_nil, List.append_nil] at hcut hshort hlim
    rw [List.nil_append, readHead_next (cut_short hcut hshort) hlim]
    refine readHead_done ?_ post
    rw [endHead_eq, hcut, Option.map_some]
  | cons d pre ih =>
    rw [List.flatten_cons] at hcut hshort hlim
    have hassoc : buf ++ (d ++ pre.flatten) = buf ++ d ++ pre.flatten := (List.append_assoc _ _ _).symm
    rw [hassoc] at hcut hshort hlim
    simp only [List.length_append] at hshort hlim
    have hnone : cut blankLine buf = none := by
      refine cut_short (u := d ++ pre.flatten ++ c) (a := head) (b := rest) ?_ ?_
      · rw [← hcut]
        simp only [List.append_assoc]
      · rw [length_blankLine]
        omega
    rw [List.cons_append, readHead_next hnone (by rw [List.length_append]; omega)]
    refine ih hcut ?_ ?_
    · simp only [List.length_append]
      omega
    · simp only [List.length_append]
      omega

/-- Nothing is returned once too much has arrived. -/
theorem readHead_overflow {buf c head rest : Bytes} {pre post : List Bytes}
    (hcut : cut blankLine (buf ++ pre.flatten ++ c) = some (head, rest))
    (hshort : (buf ++ pre.flatten).length < head.length + 4)
    (hover : 262144 < (buf ++ pre.flatten ++ c).length) : readHead buf (pre ++ c :: post) = .malformed := by
  have hstop : ∀ {b d : Bytes} {cs : List Bytes}, cut blankLine b = none → 262144 < (b ++ d).length →
      readHead b (d :: cs) = .malformed := by
    intro b d cs hnone hlen
    have hend : endHead b = none := by rw [endHead_eq, hnone, Option.map_none]
    rw [readHead.eq_def]
    simp only [hend]
    rw [if_pos hlen]
  induction pre generalizing buf with
  | nil =>
    rw [List.flatten_nil, List.append_nil] at hcut hshort hover
    rw [List.nil_append]
    exact hstop (cut_short hcut hshort) hover
  | cons d pre ih =>
    rw [List.flatten_cons] at hcut hshort hover
    have hassoc : buf ++ (d ++ pre.flatten) = buf ++ d ++ pre.flatten := (List.append_assoc _ _ _).symm
    rw [hassoc] at hcut hshort hover
    have hnone : cut blankLine buf = none := by
      refine cut_short (u := d ++ pre.flatten ++ c) (a := head) (b := rest) ?_ ?_
      · rw [← hcut]
        simp only [List.append_assoc]
      · simp only [List.length_append] at hshort
        rw [length_blankLine]
        omega
    rw [List.cons_append]
    by_cases hlen : (buf ++ d).length ≤ 262144
    · rw [readHead_next hnone hlen]
      exact ih hcut hshort hover
    · exact hstop hnone (by omega)

/-! ## Streams that decide the request -/

/-- A stream whose head is not accepted is rejected in every segmentation. -/
theorem rejected {stream : Bytes} {chunks : List Bytes} (hs : Segments stream chunks)
    (h : ∀ head rest h, cut blankLine stream = some (head, rest) → head.length + 4 ≤ 262144 →
      parseHead head rest ≠ some h) : readRequest chunks = none := by
  unfold readRequest
  split
  · rename_i found hr
    obtain ⟨pre, post, head, rest, hsplit, hlim, hcut, hp⟩ := readHead_head hr
    rw [List.nil_append, hs.1] at hsplit
    have hlong : cut blankLine stream = some (head, rest ++ post) := hsplit ▸ cut_append hcut
    have hlen := length_of_cut hcut
    rw [length_blankLine] at hlen
    have hbound : head.length + 4 ≤ 262144 := by
      rcases hlim with rfl | hlim
      · rw [List.length_nil] at hlen
        omega
      · omega
    refine absurd ?_ (h head (rest ++ post) { found with preBody := rest ++ post } hlong hbound)
    rw [parseHead_rest head rest, hp]
    rfl
  · rfl
  · rfl

/-- A head with nothing after it is returned in every segmentation. -/
theorem bare_head {stream head : Bytes} {chunks : List Bytes} (hs : Segments stream chunks)
    (hcut : cut blankLine stream = some (head, [])) (hlim : head.length + 4 ≤ 262144) :
    readRequest chunks = parseHead head [] := by
  have hlen := length_of_cut hcut
  rw [length_blankLine, List.length_nil] at hlen
  have hne : chunks ≠ [] := by
    rintro rfl
    have hnil : stream = [] := hs.1.symm
    rw [hnil, List.length_nil] at hlen
    omega
  -- the last chunk is not empty, so the head is complete with it and not before
  obtain ⟨pre, c, rfl⟩ := List.eq_nil_or_concat chunks |>.resolve_left hne
  rw [List.concat_eq_append] at hs ⊢
  have hflat : pre.flatten ++ c = stream := by
    have := hs.1
    rw [List.flatten_append, List.flatten_singleton] at this
    exact this
  have hc := (hs.2 c (by simp)).1
  have hpos := List.length_pos_iff.2 hc
  have hlens := congrArg List.length hflat
  rw [List.length_append] at hlens
  have hcut' : cut blankLine ([] ++ pre.flatten ++ c) = some (head, []) := by
    rw [List.nil_append, hflat, hcut]
  have harrive : readHead [] (pre ++ [c]) = (parseHead head []).elim .malformed .head := by
    refine readHead_arrive hcut' ?_ ?_
    · rw [List.nil_append]
      omega
    · rw [List.nil_append, List.length_append]
      omega
  unfold readRequest
  rw [harrive]
  cases parseHead head [] <;> rfl

/-- A stream byte by byte, with one chunk in its midst. -/
def spread (before chunk after : Bytes) : List Bytes :=
  (before.map fun x => [x]) ++ chunk :: after.map fun x => [x]

theorem flatten_singles (b : Bytes) : (b.map fun x => [x]).flatten = b := by
  induction b with
  | nil => rfl
  | cons x b ih => rw [List.map_cons, List.flatten_cons, ih, List.singleton_append]

theorem spread_segments {before chunk after : Bytes} (hne : chunk ≠ []) (hlen : chunk.length ≤ 65536) :
    Segments (before ++ chunk ++ after) (spread before chunk after) := by
  unfold spread
  refine ⟨?_, ?_⟩
  · rw [List.flatten_append, List.flatten_cons, flatten_singles, flatten_singles, List.append_assoc]
  · intro c hc
    have hone : ∀ b : Bytes, c ∈ b.map (fun x => [x]) → c ≠ [] ∧ c.length ≤ 65536 := by
      intro b hb
      obtain ⟨x, -, rfl⟩ := List.mem_map.1 hb
      exact ⟨List.cons_ne_nil x [], by simp⟩
    rcases List.mem_append.1 hc with hc | hc
    · exact hone before hc
    · rcases List.mem_cons.1 hc with rfl | hc
      · exact ⟨hne, hlen⟩
      · exact hone after hc

/-- What a segmentation returns that ends the head with this chunk. -/
theorem readRequest_spread {head before chunk after rest : Bytes}
    (hcut : cut blankLine (before ++ chunk) = some (head, rest)) (hshort : before.length < head.length + 4) :
    readRequest (spread before chunk after) =
      if (before ++ chunk).length ≤ 262144 then parseHead head rest else none := by
  unfold readRequest spread
  have hcut' : cut blankLine ([] ++ (before.map fun x => [x]).flatten ++ chunk) = some (head, rest) := by
    rw [List.nil_append, flatten_singles, hcut]
  have hshort' : ([] ++ (before.map fun x => [x]).flatten).length < head.length + 4 := by
    rw [List.nil_append, flatten_singles]
    exact hshort
  split_ifs with hlim
  · rw [readHead_arrive hcut' hshort' (by rw [List.nil_append, flatten_singles]; exact hlim)]
    cases parseHead head rest <;> rfl
  · rw [readHead_overflow hcut' hshort' (by rw [List.nil_append, flatten_singles]; omega)]

/-- **When the request depends only on the bytes of the client, and carries its whole declared body**:
for every stream, in all segmentations, exactly if the stream is plain. -/
theorem read_head_iff (stream : Bytes) :
    ((∀ chunks chunks', Segments stream chunks → Segments stream chunks' →
        readRequest chunks = readRequest chunks') ∧
      ∀ chunks h, Segments stream chunks → readRequest chunks = some h → Carries stream h) ↔
    PlainStream stream := by
  constructor
  · rintro ⟨hsame, hcarry⟩ head rest hcut hlim hspaces
    obtain ⟨h, hp⟩ := parseHead_some_iff.2 hspaces
    have hstream : stream = head ++ [13, 10, 13] ++ [10] ++ rest := by
      rw [cut_eq hcut]
      simp [blankLine, crlf]
    have hwhole : cut blankLine (head ++ [13, 10, 13] ++ [10] ++ rest) = some (head, rest) := hstream ▸ hcut
    have hhead : cut blankLine (head ++ [13, 10, 13] ++ [10]) = some (head, []) := by
      obtain ⟨b', hb', hb⟩ := cut_long blankLine_ne hwhole (by simp [length_blankLine])
      have hlen := length_of_cut hb'
      simp only [List.length_append, List.length_cons, List.length_nil, length_blankLine] at hlen
      obtain rfl : b' = [] := List.length_eq_zero_iff.1 (by omega)
      exact hb'
    have hfirst : readRequest (spread (head ++ [13, 10, 13]) [10] rest) = some { h with preBody := [] } := by
      rw [readRequest_spread hhead (by simp), if_pos (by simpa using hlim), parseHead_rest head rest, hp]
      rfl
    have hseg : Segments stream (spread (head ++ [13, 10, 13]) [10] rest) := by
      rw [hstream]
      exact spread_segments (List.cons_ne_nil _ _) (by decide)
    constructor
    · cases rest with
      | nil => rfl
      | cons x xs =>
        exfalso
        have hstream' : stream = head ++ [13, 10, 13] ++ [10, x] ++ xs := by
          rw [hstream]
          simp
        have htwo : cut blankLine (head ++ [13, 10, 13] ++ [10, x]) = some (head, [x]) := by
          have := cut_append (u := [x]) hhead
          simpa using this
        have hsecond : Segments stream (spread (head ++ [13, 10, 13]) [10, x] xs) := by
          rw [hstream']
          exact spread_segments (List.cons_ne_nil _ _) (by simp)
        have he := hsame _ _ hseg hsecond
        rw [hfirst, readRequest_spread htwo (by simp)] at he
        split_ifs at he
        rw [parseHead_rest head (x :: xs), hp, Option.map_some, Option.some.injEq, Head.mk.injEq] at he
        exact List.cons_ne_nil x [] he.2.2.2.symm
    · obtain ⟨head', rest', -, hlen⟩ := hcarry _ _ hseg hfirst
      rw [← (parseHead_ok hp).2.2.2.1]
      exact hlen.symm
  · intro hplain
    by_cases hacc : ∃ head rest h, cut blankLine stream = some (head, rest) ∧ head.length + 4 ≤ 262144 ∧
        parseHead head rest = some h
    · obtain ⟨head, rest, h, hcut, hlim, hp⟩ := hacc
      obtain ⟨rfl, hlen⟩ := hplain head rest hcut hlim (parseHead_some_iff.1 ⟨h, hp⟩)
      refine ⟨fun chunks chunks' hs hs' => ?_, fun chunks h' hs hr => ?_⟩
      · rw [bare_head hs hcut hlim, bare_head hs' hcut hlim]
      · rw [bare_head hs hcut hlim, hp] at hr
        cases hr
        obtain ⟨-, -, -, hdeclared, hbody⟩ := parseHead_ok hp
        refine ⟨head, [], ?_, ?_⟩
        · rw [hbody]
          exact hcut
        · rw [hbody, hdeclared, hlen]
          rfl
    · have hnone : ∀ head rest h, cut blankLine stream = some (head, rest) → head.length + 4 ≤ 262144 →
          parseHead head rest ≠ some h := fun head rest h hcut hlim hp => hacc ⟨head, rest, h, hcut, hlim, hp⟩
      refine ⟨fun chunks chunks' hs hs' => ?_, fun chunks h hs hr => ?_⟩
      · rw [rejected hs hnone, rejected hs' hnone]
      · rw [rejected hs hnone] at hr
        cases hr

/-- A request with a body of two bytes. -/
def postedStream : Bytes := "POST /x HTTP/1.1\r\nhost: a\r\ncontent-length: 2\r\n\r\nhi".toUTF8.toList

/-- It comes in one chunk, or its head and its body come in two. -/
theorem segmentation_matters :
    Segments postedStream [postedStream] ∧ Segments postedStream [postedStream.take 48, postedStream.drop 48] ∧
      (readRequest [postedStream]).map Head.preBody = some [104, 105] ∧
      (readRequest [postedStream.take 48, postedStream.drop 48]).map Head.preBody = some [] := by
  unfold Segments
  decide +kernel

end StrixPEP
