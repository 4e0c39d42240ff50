import StrixPEP.Audit.Storage

/-!
# Redaction (`_scrub` of `pep/audit.py`)

`_scrub` goes into texts, lists and dicts; a tuple and the keys of a dict stay as they are.

* `PyValue` — what `write` is handed: any nesting of dicts, lists, tuples, texts and numbers;
* `scrubbed`, `dumped`, `persisted` — `_scrub`, what `json.dumps` makes of a value, and the record;
* `infix_replace`, `replaced_free` — what a replacement leaves and what it removes;
* `Exposed` — the texts that no replacement reaches.

Principal result: `redaction_iff`.
-/

namespace StrixPEP

namespace Redaction

/-! ## Values -/

/-- A key that `json.dumps` accepts. -/
inductive Key where
  | null
  | bool (b : Bool)
  | int (n : Int)
  | float (repr : String)
  | str (s : String)
  deriving DecidableEq, Repr

/-- The text that `json.dumps` makes of a key. -/
def Key.text : Key → String
  | .null => "null"
  | .bool b => if b then "true" else "false"
  | .int n => toString n
  | .float r => r
  | .str s => s

def Key.isStr : Key → Bool
  | .str _ => true
  | _ => false

def Key.isNumber : Key → Bool
  | .bool _ | .int _ | .float _ => true
  | _ => false

inductive PyValue where
  | null
  | bool (b : Bool)
  | int (n : Int)
  | float (repr : String) (finite : Bool)
  | str (s : String)
  | list (xs : List PyValue)
  | tuple (xs : List PyValue)
  | dict (kvs : List (Key × PyValue))

/-- With `sort_keys` the keys have to be comparable. -/
def sortable (keys : List Key) : Bool :=
  decide (keys.length ≤ 1) || keys.all Key.isStr || keys.all Key.isNumber

mutual

/-- `json.dumps` returns. -/
def serializes : PyValue → Bool
  | .list xs | .tuple xs => serializesList xs
  | .dict kvs => sortable (kvs.map Prod.fst) && serializesFields kvs
  | .null | .bool _ | .int _ | .float _ _ | .str _ => true

def serializesList : List PyValue → Bool
  | [] => true
  | x :: xs => serializes x && serializesList xs

def serializesFields : List (Key × PyValue) → Bool
  | [] => true
  | (_, v) :: kvs => serializes v && serializesFields kvs

end

mutual

/-- What `json.dumps` writes, up to the order of the keys. -/
def dumped : PyValue → Json
  | .null => .null
  | .bool b => .bool b
  | .int n => .int n
  | .float r f => .float r f
  | .str s => .str s
  | .list xs | .tuple xs => .arr (dumpedList xs)
  | .dict kvs => .obj (dumpedFields kvs)

def dumpedList : List PyValue → List Json
  | [] => []
  | x :: xs => dumped x :: dumpedList xs

def dumpedFields : List (Key × PyValue) → List (String × Json)
  | [] => []
  | (k, v) :: kvs => (k.text, dumped v) :: dumpedFields kvs

end

mutual

/-- `_scrub`, through the set in the order `order`. -/
def scrubbed (order : List String) : PyValue → PyValue
  | .str s => .str (redact order s)
  | .dict kvs => .dict (scrubbedFields order kvs)
  | .list xs => .list (scrubbedList order xs)
  | .tuple xs => .tuple xs
  | .null => .null
  | .bool b => .bool b
  | .int n => .int n
  | .float r f => .float r f

def scrubbedList (order : List String) : List PyValue → List PyValue
  | [] => []
  | x :: xs => scrubbed order x :: scrubbedList order xs

def scrubbedFields (order : List String) : List (Key × PyValue) → List (Key × PyValue)
  | [] => []
  | (k, v) :: kvs => (k, scrubbed order v) :: scrubbedFields order kvs

end

/-- The dict that `write` is handed. -/
structure Entry where
  fields : List (Key × PyValue)
  distinct : (fields.map Prod.fst).Nodup

/-- The keys that `write` assigns to. -/
def ownKeys : List Key := [.str "ts", .str "run_id", .str "prev"]

/-- The record of `write`: `rec` after its three assignments. -/
def recordOf (order : List String) (runId prev ts : String) (entry : Entry) : List (Key × PyValue) :=
  Dict.set (Dict.set (Dict.set (scrubbedFields order entry.fields) (.str "ts") (.float ts true))
    (.str "run_id") (.str runId)) (.str "prev") (.str prev)

/-- The record in the file; `none` where `json.dumps` raises. -/
def persisted (order : List String) (runId prev ts : String) (entry : Entry) : Option Json :=
  let rec_ := PyValue.dict (recordOf order runId prev ts entry)
  if serializes rec_ then some (dumped rec_) else none

mutual

/-- The strings of a record, as keys and as values. -/
def strings : Json → List String
  | .str s => [s]
  | .arr xs => stringsList xs
  | .obj kvs => stringsFields kvs
  | .null | .bool _ | .int _ | .float _ _ => []

def stringsList : List Json → List String
  | [] => []
  | x :: xs => strings x ++ stringsList xs

def stringsFields : List (String × Json) → List String
  | [] => []
  | (k, v) :: kvs => k :: strings v ++ stringsFields kvs

end

mutual

/-- The strings that `_scrub` does not go into. -/
def exposed : PyValue → List String
  | .dict kvs => exposedFields kvs
  | .list xs => exposedList xs
  | .tuple xs => stringsList (dumpedList xs)
  | .str _ | .null | .bool _ | .int _ | .float _ _ => []

def exposedList : List PyValue → List String
  | [] => []
  | x :: xs => exposed x ++ exposedList xs

def exposedFields : List (Key × PyValue) → List String
  | [] => []
  | (k, v) :: kvs => k.text :: exposed v ++ exposedFields kvs

end

/-- The fields that `write` does not assign to. -/
def Entry.others (entry : Entry) : List (Key × PyValue) := entry.fields.filter fun e => e.1 ∉ ownKeys

/-- `json.dumps` takes the entry: next to the keys of `write`, every key has to be a text. -/
def Entry.writable (entry : Entry) : Bool := entry.others.all fun e => e.1.isStr && serializes e.2

/-- The strings of the record that `_scrub` does not go into. -/
def Entry.exposed (entry : Entry) : List String := ownKeys.map Key.text ++ exposedFields entry.others

/-! ## Replacements -/

section

variable {secret text : List Char}

/-- The secret shares no character with the mark. -/
def Apart (secret : List Char) : Prop := ∀ c ∈ secret, c ∉ redactionMark

instance (secret : List Char) : Decidable (Apart secret) :=
  inferInstanceAs (Decidable (∀ c ∈ secret, c ∉ redactionMark))

/-- An occurrence begins behind what shares no character with the secret. -/
theorem infix_behind {front : List Char} (hne : secret ≠ []) (hapart : ∀ c ∈ secret, c ∉ front)
    (h : secret <:+: front ++ text) : secret <:+: text := by
  induction front with
  | nil => exact h
  | cons c front ih =>
    rw [List.cons_append, List.infix_cons_iff] at h
    rcases h with h | h
    · cases secret with
      | nil => exact absurd rfl hne
      | cons d secret =>
        obtain ⟨rest, hrest⟩ := h
        rw [List.cons_append, List.cons.injEq] at hrest
        exact absurd (hrest.1 ▸ List.mem_cons_self) (hapart d List.mem_cons_self)
    · exact ih (fun d hd hm => hapart d hd (List.mem_cons_of_mem _ hm)) h

theorem prefix_replace {other : List Char} (hapart : Apart secret)
    (h : secret <+: replaceFrom other 0 text) : secret <+: text := by
  induction text generalizing secret with
  | nil => exact h
  | cons c text ih =>
    cases secret with
    | nil => exact List.nil_prefix
    | cons d secret =>
      unfold replaceFrom at h
      split at h
      · obtain ⟨rest, hrest⟩ := h
        have hd : d = '«' := (List.cons.inj hrest).1
        exact absurd (hd ▸ by decide) (hapart d List.mem_cons_self)
      · rw [List.cons_prefix_cons] at h ⊢
        exact ⟨h.1, ih (fun e he => hapart e (List.mem_cons_of_mem _ he)) h.2⟩

/-- **A replacement brings no occurrence in.** -/
theorem infix_replace {other : List Char} (hne : secret ≠ []) (hapart : Apart secret) {skip : Nat}
    (h : secret <:+: replaceFrom other skip text) : secret <:+: text := by
  induction text generalizing skip with
  | nil =>
    cases skip <;> exact h
  | cons c text ih =>
    cases skip with
    | succ skip => exact (ih h).trans (List.suffix_cons c text).isInfix
    | zero =>
      unfold replaceFrom at h
      split at h
      · exact (ih (infix_behind hne hapart h)).trans (List.suffix_cons c text).isInfix
      · rename_i hother
        rw [List.infix_cons_iff] at h
        rcases h with h | h
        · have hwhole : secret <+: replaceFrom other 0 (c :: text) := by
            unfold replaceFrom
            rwa [if_neg hother]
          exact (prefix_replace hapart hwhole).isInfix
        · exact (ih h).trans (List.suffix_cons c text).isInfix

/-- **A replacement removes every occurrence.** -/
theorem replaced_free (hne : secret ≠ []) (hapart : Apart secret) {skip : Nat} :
    ¬ secret <:+: replaceFrom secret skip text := by
  induction text generalizing skip with
  | nil =>
    cases skip <;> exact fun h => hne (List.infix_nil.1 h)
  | cons c text ih =>
    cases skip with
    | succ skip => exact ih
    | zero =>
      intro h
      unfold replaceFrom at h
      split at h
      · exact ih (infix_behind hne hapart h)
      · rename_i hsecret
        rw [List.infix_cons_iff] at h
        rcases h with h | h
        · have hwhole : secret <+: replaceFrom secret 0 (c :: text) := by
            unfold replaceFrom
            rwa [if_neg hsecret]
          exact hsecret (List.isPrefixOf_iff_prefix.2 (prefix_replace hapart hwhole))
        · exact ih h

end

/-- A secret that redaction is answerable for. -/
structure Eligible (runId prev secret : String) : Prop where
  nonempty : secret ≠ ""
  apart : Apart secret.toList
  runId : ¬ secret.toList <:+: runId.toList
  prev : ¬ secret.toList <:+: prev.toList

theorem redactOne_infix {secret other : String} {text : List Char} (hne : secret.toList ≠ [])
    (hapart : Apart secret.toList) (h : secret.toList <:+: redactOne other text) : secret.toList <:+: text := by
  unfold redactOne at h
  split at h
  · exact h
  · exact infix_replace hne hapart h

/-- **No secret of the set is left in a scrubbed text**, in whatever order they are replaced. -/
theorem redact_free {order : List String} {secret : String} (hsecret : secret ∈ order)
    (hne : secret.toList ≠ []) (hapart : Apart secret.toList) (text : String) :
    ¬ secret.toList <:+: (redact order text).toList := by
  have hstay : ∀ (order : List String) (out : List Char),
      secret.toList <:+: order.foldl (fun out s => redactOne s out) out → secret.toList <:+: out := by
    intro order
    induction order with
    | nil => exact fun _ h => h
    | cons s order ih => exact fun out h => redactOne_infix hne hapart (ih (redactOne s out) h)
  obtain ⟨before, after, rfl⟩ := List.append_of_mem hsecret
  unfold redact
  rw [String.toList_ofList, List.foldl_append, List.foldl_cons]
  intro h
  have hone := hstay after _ h
  unfold redactOne at hone
  split at hone
  · rename_i hempty
    exact hne (List.isEmpty_iff.1 hempty)
  · exact replaced_free hne hapart hone

/-! ## The record -/

theorem mem_scrubbedFields {order : List String} {kvs : List (Key × PyValue)} {e : Key × PyValue} :
    e ∈ scrubbedFields order kvs ↔ ∃ v, (e.1, v) ∈ kvs ∧ e.2 = scrubbed order v := by
  induction kvs with
  | nil => simp [scrubbedFields]
  | cons x kvs ih =>
    obtain ⟨k, v⟩ := x
    rw [scrubbedFields, List.mem_cons, ih]
    constructor
    · rintro (rfl | ⟨w, hw, he⟩)
      · exact ⟨v, List.mem_cons_self, rfl⟩
      · exact ⟨w, List.mem_cons_of_mem _ hw, he⟩
    · rintro ⟨w, hw, he⟩
      rcases List.mem_cons.1 hw with hw | hw
      · left
        obtain ⟨h1, h2⟩ := Prod.mk.inj hw
        exact Prod.ext h1 (by rw [he, h2])
      · exact Or.inr ⟨w, hw, he⟩

theorem map_fst_scrubbedFields (order : List String) (kvs : List (Key × PyValue)) :
    (scrubbedFields order kvs).map Prod.fst = kvs.map Prod.fst := by
  induction kvs with
  | nil => rfl
  | cons x kvs ih =>
    obtain ⟨k, v⟩ := x
    rw [scrubbedFields, List.map_cons, List.map_cons, ih]

theorem runKey_ne : Key.str "run_id" ≠ .str "prev" := by decide

theorem tsKey_ne : Key.str "ts" ≠ .str "run_id" ∧ Key.str "ts" ≠ .str "prev" := by decide

/-- The entries of the record: the three of `write`, and the scrubbed ones of the other keys. -/
theorem mem_recordOf {order : List String} {runId prev ts : String} {entry : Entry} {e : Key × PyValue} :
    e ∈ recordOf order runId prev ts entry ↔
      e = (.str "prev", .str prev) ∨ e = (.str "run_id", .str runId) ∨ e = (.str "ts", .float ts true) ∨
        ∃ v, (e.1, v) ∈ entry.others ∧ e.2 = scrubbed order v := by
  have h0 : ((scrubbedFields order entry.fields).map Prod.fst).Nodup := by
    rw [map_fst_scrubbedFields]
    exact entry.distinct
  have h1 := Dict.nodup_set h0 (.str "ts") (.float ts true)
  have h2 := Dict.nodup_set h1 (.str "run_id") (.str runId)
  unfold recordOf
  rw [Dict.mem_set h2, Dict.mem_set h1, Dict.mem_set h0, mem_scrubbedFields]
  have hothers : ∀ v, (e.1, v) ∈ entry.others ↔
      (e.1, v) ∈ entry.fields ∧ e.1 ≠ .str "ts" ∧ e.1 ≠ .str "run_id" ∧ e.1 ≠ .str "prev" := by
    intro v
    simp [Entry.others, ownKeys]
  constructor
  · rintro (h | ⟨h | ⟨h | ⟨⟨v, hv, he⟩, hts⟩, hrun⟩, hprev⟩)
    · exact Or.inl h
    · exact Or.inr (Or.inl h)
    · exact Or.inr (Or.inr (Or.inl h))
    · exact Or.inr (Or.inr (Or.inr ⟨v, (hothers v).2 ⟨hv, hts, hrun, hprev⟩, he⟩))
  · rintro (rfl | rfl | rfl | ⟨v, hv, he⟩)
    · exact Or.inl rfl
    · exact Or.inr ⟨Or.inl rfl, runKey_ne⟩
    · exact Or.inr ⟨Or.inr ⟨Or.inl rfl, tsKey_ne.1⟩, tsKey_ne.2⟩
    · obtain ⟨hmem, hts, hrun, hprev⟩ := (hothers v).1 hv
      exact Or.inr ⟨Or.inr ⟨Or.inr ⟨⟨v, hmem, he⟩, hts⟩, hrun⟩, hprev⟩

mutual

/-- Redaction leaves a value as serializable as it is. -/
theorem serializes_scrubbed (order : List String) : ∀ v, serializes (scrubbed order v) = serializes v
  | .null | .bool _ | .int _ | .float _ _ | .str _ | .tuple _ => rfl
  | .list xs => serializesList_scrubbed order xs
  | .dict kvs => by
    rw [scrubbed, serializes, serializes, map_fst_scrubbedFields, serializesFields_scrubbed order kvs]

theorem serializesList_scrubbed (order : List String) :
    ∀ xs, serializesList (scrubbedList order xs) = serializesList xs
  | [] => rfl
  | x :: xs => by
    rw [scrubbedList, serializesList, serializesList, serializes_scrubbed order x,
      serializesList_scrubbed order xs]

theorem serializesFields_scrubbed (order : List String) :
    ∀ kvs, serializesFields (scrubbedFields order kvs) = serializesFields kvs
  | [] => rfl
  | (k, v) :: kvs => by
    rw [scrubbedFields, serializesFields, serializesFields, serializes_scrubbed order v,
      serializesFields_scrubbed order kvs]

end

theorem serializesFields_iff {kvs : List (Key × PyValue)} :
    serializesFields kvs = true ↔ ∀ e ∈ kvs, serializes e.2 = true := by
  induction kvs with
  | nil => simp [serializesFields]
  | cons x kvs ih =>
    obtain ⟨k, v⟩ := x
    rw [serializesFields, Bool.and_eq_true, ih, List.forall_mem_cons]

theorem eq_of_short {α : Type} {l : List α} (h : l.length ≤ 1) {x y : α} (hx : x ∈ l) (hy : y ∈ l) :
    x = y := by
  match l, h with
  | [], _ => cases hx
  | [z], _ => rw [List.mem_singleton.1 hx, List.mem_singleton.1 hy]

/-- **When the record is written.** -/
theorem serializes_record {order : List String} {runId prev ts : String} {entry : Entry} :
    serializes (.dict (recordOf order runId prev ts entry)) = true ↔ entry.writable = true := by
  have hprev : (Key.str "prev", PyValue.str prev) ∈ recordOf order runId prev ts entry :=
    mem_recordOf.2 (Or.inl rfl)
  have hrun : (Key.str "run_id", PyValue.str runId) ∈ recordOf order runId prev ts entry :=
    mem_recordOf.2 (Or.inr (Or.inl rfl))
  have hsortable : sortable ((recordOf order runId prev ts entry).map Prod.fst) = true ↔
      ∀ e ∈ recordOf order runId prev ts entry, e.1.isStr = true := by
    unfold sortable
    rw [Bool.or_eq_true, Bool.or_eq_true, decide_eq_true_eq, List.all_eq_true, List.all_eq_true, List.length_map]
    constructor
    · rintro ((hlen | hstr) | hnum)
      · exact absurd (congrArg Prod.fst (eq_of_short hlen hrun hprev)) runKey_ne
      · exact fun e he => hstr _ (List.mem_map_of_mem he)
      · exact absurd (hnum _ (List.mem_map_of_mem hprev)) Bool.false_ne_true
    · intro h
      refine Or.inl (Or.inr fun k hk => ?_)
      obtain ⟨e, he, rfl⟩ := List.mem_map.1 hk
      exact h e he
  rw [serializes, Bool.and_eq_true, hsortable, serializesFields_iff]
  unfold Entry.writable
  rw [List.all_eq_true]
  constructor
  · rintro ⟨hstr, hser⟩ e he
    have hmem : (e.1, scrubbed order e.2) ∈ recordOf order runId prev ts entry :=
      mem_recordOf.2 (Or.inr (Or.inr (Or.inr ⟨e.2, he, rfl⟩)))
    have hkey : e.1.isStr = true := hstr (e.1, scrubbed order e.2) hmem
    have hvalue : serializes (scrubbed order e.2) = true := hser _ hmem
    rw [serializes_scrubbed] at hvalue
    rw [hkey, hvalue]
    rfl
  · intro h
    refine ⟨fun e he => ?_, fun e he => ?_⟩
    · rcases mem_recordOf.1 he with rfl | rfl | rfl | ⟨v, hv, -⟩
      · rfl
      · rfl
      · rfl
      · exact (Bool.and_eq_true_iff.1 (h _ hv)).1
    · rcases mem_recordOf.1 he with rfl | rfl | rfl | ⟨v, hv, hx⟩
      · rfl
      · rfl
      · rfl
      · rw [hx, serializes_scrubbed]
        exact (Bool.and_eq_true_iff.1 (h _ hv)).2

theorem mem_stringsFields {kvs : List (Key × PyValue)} {t : String} : t ∈ stringsFields (dumpedFields kvs) ↔
    ∃ e ∈ kvs, t = e.1.text ∨ t ∈ strings (dumped e.2) := by
  induction kvs with
  | nil => simp [dumpedFields, stringsFields]
  | cons x kvs ih =>
    obtain ⟨k, v⟩ := x
    rw [dumpedFields, stringsFields, List.cons_append, List.mem_cons, List.mem_append, ih]
    simp [or_assoc]

theorem mem_exposedFields {kvs : List (Key × PyValue)} {t : String} : t ∈ exposedFields kvs ↔
    ∃ e ∈ kvs, t = e.1.text ∨ t ∈ exposed e.2 := by
  induction kvs with
  | nil => simp [exposedFields]
  | cons x kvs ih =>
    obtain ⟨k, v⟩ := x
    rw [exposedFields, List.cons_append, List.mem_cons, List.mem_append, ih]
    simp [or_assoc]

mutual

/-- **A string of a scrubbed value** is one that `_scrub` does not go into, or a scrubbed text. -/
theorem strings_scrubbed {order : List String} {t : String} : ∀ v, t ∈ strings (dumped (scrubbed order v)) →
    t ∈ exposed v ∨ ∃ u, t = redact order u
  | .null, h | .bool _, h | .int _, h | .float _ _, h => absurd h List.not_mem_nil
  | .str s, h => Or.inr ⟨s, List.mem_singleton.1 h⟩
  | .tuple _, h => Or.inl h
  | .list xs, h => stringsList_scrubbed xs h
  | .dict kvs, h => stringsFields_scrubbed kvs h

theorem stringsList_scrubbed {order : List String} {t : String} : ∀ xs,
    t ∈ stringsList (dumpedList (scrubbedList order xs)) → t ∈ exposedList xs ∨ ∃ u, t = redact order u
  | [], h => absurd h List.not_mem_nil
  | x :: xs, h => by
    rw [scrubbedList, dumpedList, stringsList, List.mem_append] at h
    rw [exposedList, List.mem_append]
    rcases h with h | h
    · exact (strings_scrubbed x h).imp_left Or.inl
    · exact (stringsList_scrubbed xs h).imp_left Or.inr

theorem stringsFields_scrubbed {order : List String} {t : String} : ∀ kvs,
    t ∈ stringsFields (dumpedFields (scrubbedFields order kvs)) →
      t ∈ exposedFields kvs ∨ ∃ u, t = redact order u
  | [], h => absurd h List.not_mem_nil
  | (k, v) :: kvs, h => by
    rw [scrubbedFields, dumpedFields, stringsFields, List.cons_append, List.mem_cons, List.mem_append] at h
    rw [exposedFields, List.cons_append, List.mem_cons, List.mem_append]
    rcases h with h | h | h
    · exact Or.inl (Or.inl h)
    · exact (strings_scrubbed v h).imp_left fun hx => Or.inr (Or.inl hx)
    · exact (stringsFields_scrubbed kvs h).imp_left fun hx => Or.inr (Or.inr hx)

end

mutual

/-- What `_scrub` does not go into is written as it is. -/
theorem exposed_strings {order : List String} {t : String} : ∀ v, t ∈ exposed v →
    t ∈ strings (dumped (scrubbed order v))
  | .null, h | .bool _, h | .int _, h | .float _ _, h | .str _, h => absurd h List.not_mem_nil
  | .tuple _, h => h
  | .list xs, h => exposedList_strings xs h
  | .dict kvs, h => exposedFields_strings kvs h

theorem exposedList_strings {order : List String} {t : String} : ∀ xs, t ∈ exposedList xs →
    t ∈ stringsList (dumpedList (scrubbedList order xs))
  | [], h => absurd h List.not_mem_nil
  | x :: xs, h => by
    rw [exposedList, List.mem_append] at h
    rw [scrubbedList, dumpedList, stringsList, List.mem_append]
    exact h.imp (exposed_strings x) (exposedList_strings xs)

theorem exposedFields_strings {order : List String} {t : String} : ∀ kvs, t ∈ exposedFields kvs →
    t ∈ stringsFields (dumpedFields (scrubbedFields order kvs))
  | [], h => absurd h List.not_mem_nil
  | (k, v) :: kvs, h => by
    rw [exposedFields, List.cons_append, List.mem_cons, List.mem_append] at h
    rw [scrubbedFields, dumpedFields, stringsFields, List.cons_append, List.mem_cons, List.mem_append]
    exact h.imp_right (Or.imp (exposed_strings v) (exposedFields_strings kvs))

end

/-- The strings of the record. -/
theorem strings_record {order : List String} {runId prev ts : String} {entry : Entry} {t : String}
    (h : t ∈ strings (dumped (.dict (recordOf order runId prev ts entry)))) :
    t ∈ entry.exposed ∨ t = runId ∨ t = prev ∨ ∃ u, t = redact order u := by
  unfold Entry.exposed
  rw [List.mem_append, mem_exposedFields]
  obtain ⟨e, he, ht⟩ := mem_stringsFields.1 h
  rcases mem_recordOf.1 he with rfl | rfl | rfl | ⟨v, hv, hx⟩
  · rcases ht with rfl | ht
    · exact Or.inl (Or.inl (List.mem_map_of_mem (a := Key.str "prev") (by decide)))
    · exact Or.inr (Or.inr (Or.inl (List.mem_singleton.1 ht)))
  · rcases ht with rfl | ht
    · exact Or.inl (Or.inl (List.mem_map_of_mem (a := Key.str "run_id") (by decide)))
    · exact Or.inr (Or.inl (List.mem_singleton.1 ht))
  · rcases ht with rfl | ht
    · exact Or.inl (Or.inl (List.mem_map_of_mem (a := Key.str "ts") (by decide)))
    · exact absurd ht List.not_mem_nil
  · rcases ht with rfl | ht
    · exact Or.inl (Or.inr ⟨_, hv, Or.inl rfl⟩)
    · rw [hx] at ht
      rcases strings_scrubbed v ht with ht | ht
      · exact Or.inl (Or.inr ⟨_, hv, Or.inr ht⟩)
      · exact Or.inr (Or.inr (Or.inr ht))

theorem exposed_record {order : List String} {runId prev ts : String} {entry : Entry} {t : String}
    (h : t ∈ entry.exposed) : t ∈ strings (dumped (.dict (recordOf order runId prev ts entry))) := by
  refine mem_stringsFields.2 ?_
  unfold Entry.exposed at h
  rw [List.mem_append, mem_exposedFields] at h
  rcases h with h | ⟨e, he, ht⟩
  · simp only [ownKeys, List.map_cons, List.map_nil, List.mem_cons, List.not_mem_nil, or_false] at h
    rcases h with rfl | rfl | rfl
    · exact ⟨_, mem_recordOf.2 (Or.inr (Or.inr (Or.inl rfl))), Or.inl rfl⟩
    · exact ⟨_, mem_recordOf.2 (Or.inr (Or.inl rfl)), Or.inl rfl⟩
    · exact ⟨_, mem_recordOf.2 (Or.inl rfl), Or.inl rfl⟩
  · refine ⟨(e.1, scrubbed order e.2), mem_recordOf.2 (Or.inr (Or.inr (Or.inr ⟨e.2, he, rfl⟩))), ?_⟩
    exact ht.imp_right (exposed_strings e.2)

/-- **When no secret reaches the log**: exactly if none occurs in what `_scrub` does not go into, a key or a
string in a tuple. -/
theorem redaction_iff (order : List String) (runId prev ts : String) (entry : Entry) :
    (∀ record, persisted order runId prev ts entry = some record → ∀ t ∈ strings record,
      ∀ secret ∈ order, Eligible runId prev secret → ¬ secret.toList <:+: t.toList) ↔
    (entry.writable = true → ∀ t ∈ entry.exposed,
      ∀ secret ∈ order, Eligible runId prev secret → ¬ secret.toList <:+: t.toList) := by
  unfold persisted
  simp only [serializes_record]
  constructor
  · intro h hw t ht
    exact h _ (if_pos hw) t (exposed_record ht)
  · intro h record hrecord t ht secret hsecret he
    split at hrecord
    · rename_i hw
      cases hrecord
      rcases strings_record ht with ht | rfl | rfl | ⟨u, rfl⟩
      · exact h hw t ht secret hsecret he
      · exact he.runId
      · exact he.prev
      · refine redact_free hsecret ?_ he.apart u
        exact fun hnil => he.nonempty (String.toList_eq_nil_iff.1 hnil)
    · cases hrecord

/-- An entry with a secret in a tuple. -/
def tupleEntry : Entry := ⟨[(.str "header", .tuple [.str "Bearer", .str "s3cret"])], by decide⟩

/-- The secret in the tuple is in the record. -/
theorem tuple_not_redacted : Eligible "r" "p" "s3cret" ∧
    persisted ["s3cret"] "r" "p" "0.0" tupleEntry = some (.obj [("header", .arr [.str "Bearer", .str "s3cret"]),
      ("ts", .float "0.0" true), ("run_id", .str "r"), ("prev", .str "p")]) ∧
    "s3cret" ∈ strings (.obj [("header", .arr [.str "Bearer", .str "s3cret"]), ("ts", .float "0.0" true),
      ("run_id", .str "r"), ("prev", .str "p")]) :=
  ⟨⟨by decide, by decide, by decide, by decide⟩, by decide +kernel, by decide⟩

/-! ## The entries of the gateway -/

mutual

def ofJson : Json → PyValue
  | .null => .null
  | .bool b => .bool b
  | .int n => .int n
  | .float r f => .float r f
  | .str s => .str s
  | .arr xs => .list (ofJsonList xs)
  | .obj kvs => .dict (ofJsonFields kvs)

def ofJsonList : List Json → List PyValue
  | [] => []
  | x :: xs => ofJson x :: ofJsonList xs

def ofJsonFields : List (String × Json) → List (Key × PyValue)
  | [] => []
  | (k, v) :: kvs => (.str k, ofJson v) :: ofJsonFields kvs

end

def ofValue : Value → PyValue
  | .json v => ofJson v
  | .tuple xs => .tuple (ofJsonList xs)

def ofFields (fields : Fields) : List (Key × PyValue) := fields.map fun e => (.str e.1, ofValue e.2)

mutual

theorem dumped_ofJson : ∀ v, dumped (ofJson v) = v
  | .null | .bool _ | .int _ | .float _ _ | .str _ => rfl
  | .arr xs => by rw [ofJson, dumped, dumpedList_ofJson xs]
  | .obj kvs => by rw [ofJson, dumped, dumpedFields_ofJson kvs]

theorem dumpedList_ofJson : ∀ xs, dumpedList (ofJsonList xs) = xs
  | [] => rfl
  | x :: xs => by rw [ofJsonList, dumpedList, dumped_ofJson x, dumpedList_ofJson xs]

theorem dumpedFields_ofJson : ∀ kvs, dumpedFields (ofJsonFields kvs) = kvs
  | [] => rfl
  | (k, v) :: kvs => by rw [ofJsonFields, dumpedFields, dumped_ofJson v, dumpedFields_ofJson kvs]; rfl

end

mutual

theorem dumped_scrubbed (order : List String) : ∀ v, dumped (scrubbed order (ofJson v)) = scrub order v
  | .null | .bool _ | .int _ | .float _ _ | .str _ => rfl
  | .arr xs => by rw [ofJson, scrubbed, dumped, dumpedList_scrubbed order xs, scrub]
  | .obj kvs => by rw [ofJson, scrubbed, dumped, dumpedFields_scrubbed order kvs, scrub]

theorem dumpedList_scrubbed (order : List String) :
    ∀ xs, dumpedList (scrubbedList order (ofJsonList xs)) = scrubList order xs
  | [] => rfl
  | x :: xs => by
    rw [ofJsonList, scrubbedList, dumpedList, dumped_scrubbed order x, dumpedList_scrubbed order xs, scrubList]

theorem dumpedFields_scrubbed (order : List String) :
    ∀ kvs, dumpedFields (scrubbedFields order (ofJsonFields kvs)) = scrubFields order kvs
  | [] => rfl
  | (k, v) :: kvs => by
    rw [ofJsonFields, scrubbedFields, dumpedFields, dumped_scrubbed order v, dumpedFields_scrubbed order kvs,
      scrubFields]
    rfl

end

theorem dumped_ofValue (order : List String) (v : Value) :
    dumped (scrubbed order (ofValue v)) = v.scrubbed order := by
  cases v with
  | json v => exact dumped_scrubbed order v
  | tuple xs => exact congrArg Json.arr (dumpedList_ofJson xs)

/-- Assigning to a text key and writing commute. -/
theorem dumpedFields_set {kvs : List (Key × PyValue)} (h : ∀ e ∈ kvs, e.1.isStr = true) (k : String)
    (v : PyValue) :
    dumpedFields (Dict.set kvs (.str k) v) = Dict.set (dumpedFields kvs) k (dumped v) := by
  induction kvs with
  | nil => rfl
  | cons x kvs ih =>
    obtain ⟨k', w⟩ := x
    obtain ⟨hkey, hrest⟩ := List.forall_mem_cons.1 h
    cases k' with
    | str s =>
      rw [dumpedFields, Dict.set, Dict.set]
      change _ = if s = k then _ else _
      by_cases hs : s = k
      · rw [if_pos (congrArg Key.str hs), if_pos hs, dumpedFields]
        rfl
      · rw [if_neg fun he => hs (Key.str.inj he), if_neg hs, dumpedFields, ih hrest]
    | _ => cases hkey

theorem isStr_set {kvs : List (Key × PyValue)} (h : ∀ e ∈ kvs, e.1.isStr = true) (k : String) (v : PyValue) :
    ∀ e ∈ Dict.set kvs (.str k) v, e.1.isStr = true := by
  induction kvs with
  | nil => exact fun e he => by rw [List.mem_singleton.1 he]; rfl
  | cons x kvs ih =>
    obtain ⟨hkey, hrest⟩ := List.forall_mem_cons.1 h
    rw [Dict.set]
    split
    · exact List.forall_mem_cons.2 ⟨rfl, hrest⟩
    · exact List.forall_mem_cons.2 ⟨hkey, ih hrest⟩

theorem dumpedFields_ofFields (order : List String) (fields : Fields) :
    dumpedFields (scrubbedFields order (ofFields fields)) = fields.map fun e => (e.1, e.2.scrubbed order) := by
  induction fields with
  | nil => rfl
  | cons e fields ih =>
    unfold ofFields at ih ⊢
    rw [List.map_cons, scrubbedFields, dumpedFields, dumped_ofValue, ih, List.map_cons]
    rfl

/-- **The record of the log is the record here**, for the entries that the gateway writes. -/
theorem dumped_recordOf (order : List String) (runId prev ts : String) {entry : Entry} {fields : Fields}
    (h : entry.fields = ofFields fields) :
    dumped (.dict (recordOf order runId prev ts entry)) = .obj (StrixPEP.recordOf runId prev fields ts order) := by
  have h0 : ∀ e ∈ scrubbedFields order (ofFields fields), e.1.isStr = true := by
    intro e he
    obtain ⟨v, hv, -⟩ := mem_scrubbedFields.1 he
    obtain ⟨x, -, hx⟩ := List.mem_map.1 hv
    rw [← congrArg Prod.fst hx]
    rfl
  have h1 := isStr_set h0 "ts" (.float ts true)
  have h2 := isStr_set h1 "run_id" (.str runId)
  unfold recordOf StrixPEP.recordOf
  rw [h, dumped, dumpedFields_set h2, dumpedFields_set h1, dumpedFields_set h0, dumpedFields_ofFields]
  rfl

end Redaction

end StrixPEP
