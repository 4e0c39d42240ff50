import StrixPEP.Lib.Dict
import StrixPEP.Pdp.Values

/-!
# The budget counters

`reserve` is `Budgets.reserve`: one pass over the caps, which changes nothing, and one over the
counters.

Principal results:

* `reserve_none` — a reservation that succeeds was below every cap and adds one to every counter;
* `reserve_some` — one that fails changes nothing.
-/

namespace StrixPEP.Pdp

/-- `Budgets._n`. -/
abbrev Budgets := List (String × Nat)

/-- The keys to charge, with their caps. -/
abbrev Specs := List (String × Json)

namespace Budgets

/-- `_n.get(key, 0)`. -/
def count (b : Budgets) (key : String) : Nat := (b.lookup key).getD 0

/-- `n >= cap`, of a cap that is not `None`. -/
def reached (floats : Floats) (n : Nat) : Json → Except PyError Bool
  | .int cap => .ok (decide (cap ≤ n))
  | .bool cap => .ok (decide (cap.toNat ≤ n))
  | .float cap _ => .ok (floats.atMost cap n)
  | _ => .error .typeError

/-- The first loop of `reserve`. -/
def exceeded (floats : Floats) (b : Budgets) : Specs → Except PyError (Option String)
  | [] => .ok none
  | (key, cap) :: specs =>
    if cap = .null then exceeded floats b specs
    else
      match reached floats (b.count key) cap with
      | .error e => .error e
      | .ok true => .ok (some key)
      | .ok false => exceeded floats b specs

/-- The second loop of `reserve`. -/
def charge (b : Budgets) : Specs → Budgets
  | [] => b
  | (key, _) :: specs => charge (Dict.set b key (b.count key + 1)) specs

/-- `reserve`: what it returns, and the counters after it. -/
def reserve (floats : Floats) (b : Budgets) (specs : Specs) :
    Except PyError (Option String) × Budgets :=
  match exceeded floats b specs with
  | .ok none => (.ok none, b.charge specs)
  | answer => (answer, b)

variable {floats : Floats} {b : Budgets} {specs : Specs}

theorem count_set (b : Budgets) (key other : String) (n : Nat) :
    count (Dict.set b key n) other = if other = key then n else b.count other := by
  unfold count
  split
  · rename_i h
    rw [h, Dict.lookup_set_self, Option.getD_some]
  · rename_i h
    rw [Dict.lookup_set_ne b n h]

/-- Every counter grows by the number of times its key is charged. -/
theorem count_charge (b : Budgets) (specs : Specs) (key : String) :
    (b.charge specs).count key = b.count key + (specs.map Prod.fst).count key := by
  induction specs generalizing b with
  | nil => rfl
  | cons spec specs ih =>
    obtain ⟨k, cap⟩ := spec
    rw [charge, ih, count_set, List.map_cons, List.count_cons]
    by_cases h : key = k
    · subst h
      rw [if_pos rfl, if_pos (beq_self_eq_true key)]
      omega
    · rw [if_neg h, if_neg (by simpa using fun e => h e.symm)]
      omega

theorem exceeded_none (h : exceeded floats b specs = .ok none) {key : String} {cap : Json}
    (hmem : (key, cap) ∈ specs) (hcap : cap ≠ .null) :
    reached floats (b.count key) cap = .ok false := by
  induction specs with
  | nil => cases hmem
  | cons spec specs ih =>
    obtain ⟨k, c⟩ := spec
    unfold exceeded at h
    split at h
    · rename_i hc
      rcases List.mem_cons.1 hmem with he | hmem
      · cases he
        exact absurd hc hcap
      · exact ih h hmem
    · split at h
      · cases h
      · cases h
      · rename_i hreached
        rcases List.mem_cons.1 hmem with he | hmem
        · cases he
          exact hreached
        · exact ih h hmem

/-- **A reservation that succeeds** was below every cap, and charges every key. -/
theorem reserve_none {b' : Budgets} (h : reserve floats b specs = (.ok none, b')) :
    b' = b.charge specs ∧ ∀ key cap, (key, cap) ∈ specs → cap ≠ .null →
      reached floats (b.count key) cap = .ok false := by
  unfold reserve at h
  split at h
  · rename_i he
    cases h
    exact ⟨rfl, fun key cap hmem hcap => exceeded_none he hmem hcap⟩
  · rename_i hne
    exact absurd (Prod.mk.inj h).1 hne

/-- **A reservation that fails** changes nothing. -/
theorem reserve_some {answer : Except PyError (Option String)} {b' : Budgets}
    (h : reserve floats b specs = (answer, b')) (hne : answer ≠ .ok none) : b' = b := by
  unfold reserve at h
  split at h
  · cases h
    exact absurd rfl hne
  · cases h
    rfl

theorem reached_int {n : Nat} {cap : Int} (h : reached floats n (.int cap) = .ok false) : n < cap.toNat := by
  simp only [reached, Except.ok.injEq, decide_eq_false_iff_not] at h
  omega

end Budgets

end StrixPEP.Pdp
