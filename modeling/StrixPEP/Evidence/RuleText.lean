import StrixPEP.Lib.IpAddress
import StrixPEP.Lib.Splitting

/-!
# The text of a packet filter rule

`iptables-save` writes a rule as an argument list: arguments between single blanks, a comment in double
quotes with backslash escapes.

* `arguments` — the arguments, as they are spelled;
* `HasOption` — an option that is not negated, with its value;
* `Stands` — the text of the option and its value stands in the rule where arguments begin and end;
* `Defect` — what is wrong with a place where that text occurs.

Principal results: `hasOption_iff`, and `stands_iff` for the places.
-/

namespace StrixPEP

namespace Evidence

open IpAddress (Text)
open Splitting (run parts)

namespace RuleText

inductive Mode where
  | plain
  | quoted
  | escaped
  deriving DecidableEq, Repr

def step : Mode → Char → Mode
  | .plain, c => if c = '"' then .quoted else .plain
  | .quoted, c => if c = '"' then .plain else if c = '\\' then .escaped else .quoted
  | .escaped, _ => .quoted

/-- A blank outside quotes. -/
def blank (m : Mode) (c : Char) : Bool := m = .plain ∧ c = ' '

/-- The argument list of a rule. -/
def arguments (rule : Text) : List Text := parts step blank .plain rule

/-- The value of an argument: without its quotes and escapes. -/
def unquote : Mode → Text → Text
  | _, [] => []
  | .plain, c :: t => if c = '"' then unquote .quoted t else c :: unquote .plain t
  | .quoted, c :: t =>
    if c = '"' then unquote .plain t else if c = '\\' then unquote .escaped t else c :: unquote .quoted t
  | .escaped, c :: t => c :: unquote .quoted t

/-- The argument `arg` follows `option`, and no `!` stands before the option. -/
def HasOption (args : List Text) (option arg : Text) : Prop :=
  ∃ before after, args = before ++ option :: arg :: after ∧ before.getLast? ≠ some ['!']

/-- A single argument, its quotes closed. -/
structure Argument (t : Text) : Prop where
  single : arguments t = [t]
  closed : run step .plain t = .plain

instance (t : Text) : Decidable (Argument t) :=
  decidable_of_iff (arguments t = [t] ∧ run step .plain t = .plain) ⟨fun h => ⟨h.1, h.2⟩, fun h => ⟨h.1, h.2⟩⟩

/-- The last argument of the text is a `!`. -/
def Negates (t : Text) : Prop := t = ['!'] ∨ ∃ u, t = u ++ [' ', '!'] ∧ run step .plain u = .plain

/-- An argument begins behind the text, and it is not negated. -/
def Front (t : Text) : Prop := t = [] ∨ ∃ u, t = u ++ [' '] ∧ run step .plain u = .plain ∧ ¬ Negates u

/-- The option and the argument stand in the rule as two arguments of their own. -/
structure Stands (rule option arg : Text) : Prop where
  single : arguments arg = [arg]
  place : ∃ front back, rule = front ++ (option ++ ' ' :: arg) ++ back ∧ Front front ∧
    (back = [] ∨ run step .plain arg = .plain ∧ ∃ rest, back = ' ' :: rest)

/-- What is wrong with an occurrence of an option and its argument, between these two texts. -/
inductive Defect (front arg back : Text) : Prop where
  /-- A longer argument ends with the option. -/
  | left (hne : front ≠ []) (hlast : front.getLast? ≠ some ' ')
  /-- The option stands inside quotes. -/
  | quoted {u : Text} (hfront : front = u ++ [' ']) (hmode : run step .plain u ≠ .plain)
  /-- A `!` stands before it. -/
  | negated {u : Text} (hfront : front = u ++ [' ']) (hmode : run step .plain u = .plain) (hneg : Negates u)
  /-- A longer argument begins with the argument. -/
  | right (hne : back ≠ []) (hhead : back.head? ≠ some ' ')
  /-- The argument is not one argument, or what follows it stands inside its quotes. -/
  | broken (h : arguments arg ≠ [arg] ∨ back ≠ [] ∧ run step .plain arg ≠ .plain)

/-! ## Arguments -/

/-- A blank outside quotes ends an argument. -/
theorem arguments_append {p : Text} (h : run step .plain p = .plain) (q : Text) :
    arguments (p ++ ' ' :: q) = arguments p ++ arguments q := by
  have hb : blank (run step .plain p) ' ' = true := by
    rw [h]
    rfl
  have hparts := Splitting.parts_append (q := q) hb
  rw [h] at hparts
  exact hparts

/-- Between two arguments the text has a blank outside quotes. -/
theorem cut_arguments {t : Text} {xs ys : List Text} (hx : xs ≠ []) (hy : ys ≠ []) (h : arguments t = xs ++ ys) :
    ∃ p q, t = p ++ ' ' :: q ∧ run step .plain p = .plain ∧ arguments p = xs ∧ arguments q = ys := by
  obtain ⟨p, c, q, rfl, hb, hp, hq⟩ := Splitting.parts_eq_append hx hy h
  unfold blank at hb
  rw [decide_eq_true_eq] at hb
  obtain ⟨hmode, rfl⟩ := hb
  rw [hmode] at hq
  exact ⟨p, q, rfl, hmode, hp, hq⟩

theorem negates_iff {t : Text} (h : run step .plain t = .plain) :
    (arguments t).getLast? = some ['!'] ↔ Negates t := by
  constructor
  · intro hlast
    obtain ⟨xs, hxs⟩ := List.getLast?_eq_some_iff.1 hlast
    rcases List.eq_nil_or_concat xs with rfl | ⟨ys, y, rfl⟩
    · exact Or.inl (Splitting.parts_singleton hxs)
    · right
      obtain ⟨p, q, rfl, hp, -, hq⟩ := cut_arguments (by simp) (List.cons_ne_nil _ _) hxs
      rw [← Splitting.parts_singleton hq]
      exact ⟨p, rfl, hp⟩
  · rintro (rfl | ⟨u, rfl, hu⟩)
    · rfl
    · rw [arguments_append hu]
      simp [arguments, parts, blank, Splitting.extend]

/-- Behind the front, the arguments of the rest follow. -/
theorem arguments_front {front : Text} (h : Front front) (rest : Text) : ∃ before,
    arguments (front ++ rest) = before ++ arguments rest ∧ before.getLast? ≠ some ['!'] := by
  rcases h with rfl | ⟨u, rfl, hu, hneg⟩
  · exact ⟨[], rfl, by simp⟩
  · refine ⟨arguments u, ?_, fun hlast => hneg ((negates_iff hu).1 hlast)⟩
    rw [List.append_assoc]
    exact arguments_append hu rest

/-- **An option of the argument list is a piece of the text**, between blanks outside quotes. -/
theorem hasOption_iff {rule option arg : Text} (h : Argument option) :
    HasOption (arguments rule) option arg ↔ Stands rule option arg := by
  constructor
  · rintro ⟨before, after, hargs, hneg⟩
    -- the text behind the front holds the option, the argument and what follows
    have hfront : ∃ front rest, rule = front ++ rest ∧ Front front ∧ arguments rest = option :: arg :: after := by
      cases before with
      | nil => exact ⟨[], rule, rfl, Or.inl rfl, hargs⟩
      | cons b before =>
        obtain ⟨p, q, rfl, hp, hb, hq⟩ := cut_arguments (List.cons_ne_nil b before) (List.cons_ne_nil _ _) hargs
        refine ⟨p ++ [' '], q, by simp, Or.inr ⟨p, rfl, hp, fun hn => hneg ?_⟩, hq⟩
        rw [← hb]
        exact (negates_iff hp).2 hn
    obtain ⟨front, rest, rfl, hf, hrest⟩ := hfront
    have hoption : arguments rest = [option] ++ arg :: after := hrest
    obtain ⟨o, tail, rfl, -, ho, htail⟩ := cut_arguments (List.cons_ne_nil _ _) (List.cons_ne_nil _ _) hoption
    obtain rfl := Splitting.parts_singleton ho
    cases after with
    | nil =>
      obtain rfl := Splitting.parts_singleton htail
      exact ⟨htail, front, [], by simp, hf, Or.inl rfl⟩
    | cons a after =>
      have harg : arguments tail = [arg] ++ a :: after := htail
      obtain ⟨p, q, rfl, hp, hb, -⟩ := cut_arguments (List.cons_ne_nil _ _) (List.cons_ne_nil _ _) harg
      obtain rfl := Splitting.parts_singleton hb
      exact ⟨hb, front, ' ' :: q, by simp, hf, Or.inr ⟨hp, q, rfl⟩⟩
  · rintro ⟨hsingle, front, back, rfl, hf, hback⟩
    rw [List.append_assoc]
    obtain ⟨before, hargs, hneg⟩ := arguments_front hf ((option ++ ' ' :: arg) ++ back)
    rw [List.append_assoc, List.cons_append, arguments_append h.closed, h.single] at hargs
    rcases hback with rfl | ⟨hclosed, rest, rfl⟩
    · refine ⟨before, [], ?_, hneg⟩
      rw [List.append_assoc, List.cons_append, hargs, List.append_nil, hsingle]
      rfl
    · refine ⟨before, arguments rest, ?_, hneg⟩
      rw [List.append_assoc, List.cons_append, hargs, arguments_append hclosed, hsingle]
      rfl

theorem front_iff {front : Text} : Front front ↔
    (front = [] ∨ front.getLast? = some ' ') ∧
      ∀ u, front = u ++ [' '] → run step .plain u = .plain ∧ ¬ Negates u := by
  constructor
  · rintro (rfl | ⟨u, rfl, hmode, hneg⟩)
    · exact ⟨Or.inl rfl, fun u hu => by simp at hu⟩
    · refine ⟨Or.inr (by simp), fun v hv => ?_⟩
      obtain rfl := List.append_cancel_right hv
      exact ⟨hmode, hneg⟩
  · rintro ⟨rfl | hlast, hall⟩
    · exact Or.inl rfl
    · obtain ⟨u, rfl⟩ := List.getLast?_eq_some_iff.1 hlast
      exact Or.inr ⟨u, rfl, hall u rfl⟩

theorem not_defect_iff {front arg back : Text} : ¬ Defect front arg back ↔
    arguments arg = [arg] ∧ Front front ∧
      (back = [] ∨ run step .plain arg = .plain ∧ ∃ rest, back = ' ' :: rest) := by
  rw [front_iff]
  constructor
  · intro h
    refine ⟨?_, ⟨?_, fun u hu => ⟨?_, fun hneg => ?_⟩⟩, ?_⟩
    · by_contra hsingle
      exact h (.broken (Or.inl hsingle))
    · by_contra hfront
      rw [not_or] at hfront
      exact h (.left hfront.1 hfront.2)
    · by_contra hmode
      exact h (.quoted hu hmode)
    · by_cases hmode : run step .plain u = .plain
      · exact h (.negated hu hmode hneg)
      · exact h (.quoted hu hmode)
    · cases back with
      | nil => exact Or.inl rfl
      | cons c rest =>
        refine Or.inr ⟨?_, rest, ?_⟩
        · by_contra hmode
          exact h (.broken (Or.inr ⟨List.cons_ne_nil c rest, hmode⟩))
        · by_contra hhead
          refine h (.right (List.cons_ne_nil c rest) fun hc => hhead ?_)
          rw [List.head?_cons, Option.some.injEq] at hc
          rw [hc]
  · rintro ⟨hsingle, ⟨hfront, hall⟩, hback⟩ h
    cases h with
    | left hne hlast => exact hfront.elim hne hlast
    | quoted hu hmode => exact hmode (hall _ hu).1
    | negated hu hmode hneg => exact (hall _ hu).2 hneg
    | right hne hhead =>
      rcases hback with rfl | ⟨-, rest, rfl⟩
      · exact hne rfl
      · exact hhead rfl
    | broken h =>
      rcases h with h | ⟨hne, hmode⟩
      · exact h hsingle
      · exact hback.elim hne fun hb => hmode hb.1

/-- **An option stands in the rule** if its text occurs in a place with which nothing is wrong. -/
theorem stands_iff {rule option arg : Text} : Stands rule option arg ↔
    ∃ front back, rule = front ++ (option ++ ' ' :: arg) ++ back ∧ ¬ Defect front arg back := by
  constructor
  · rintro ⟨hsingle, front, back, hrule, hfront, hback⟩
    exact ⟨front, back, hrule, not_defect_iff.2 ⟨hsingle, hfront, hback⟩⟩
  · rintro ⟨front, back, hrule, hplace⟩
    obtain ⟨hsingle, hfront, hback⟩ := not_defect_iff.1 hplace
    exact ⟨hsingle, front, back, hrule, hfront, hback⟩

end RuleText

end Evidence

end StrixPEP
