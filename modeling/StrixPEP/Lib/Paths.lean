import StrixPEP.Lib.Threads

/-!
# Paths of a program

A path is what one run of a program does: its commands with the responses they got, and how it
ends.  The responses are arbitrary, so the paths of a program include what it does among any other
threads.

* `Path` — the paths of a program; one rule for each construction (`path_bind`, `path_tryCatch`,
  `path_tryFinally`, `path_perform`).
* `Issues.of_path` — a condition on every command holds along every path.
-/

namespace Threads

namespace Prog

variable {ε C : Type} {R : C → Type} {α β : Type}

/-- The runs of a program: what it issues, what it is told, and how it ends. -/
def Path : Prog ε C R α → List (Sigma R) → Except ε α → Prop
  | ret a, tr, out => tr = [] ∧ out = .ok a
  | raise e, tr, out => tr = [] ∧ out = .error e
  | cmd c k, tr, out => ∃ r tr', tr = ⟨c, r⟩ :: tr' ∧ Path (k r) tr' out

section Path

variable {p : Prog ε C R α} {f : α → Prog ε C R β} {h : ε → Prog ε C R α} {tr : List (Sigma R)}

@[simp] theorem path_ret {a : α} {out : Except ε α} :
    (ret a : Prog ε C R α).Path tr out ↔ tr = [] ∧ out = .ok a := Iff.rfl

@[simp] theorem path_pure {a : α} {out : Except ε α} :
    (pure a : Prog ε C R α).Path tr out ↔ tr = [] ∧ out = .ok a := Iff.rfl

@[simp] theorem path_raise {e : ε} {out : Except ε α} :
    (raise e : Prog ε C R α).Path tr out ↔ tr = [] ∧ out = .error e := Iff.rfl

/-- A sequence ends where its first part raises, or goes on. -/
theorem path_bind {out : Except ε β} : (p >>= f).Path tr out ↔
    (∃ e, p.Path tr (.error e) ∧ out = .error e) ∨
      ∃ a t₁ t₂, tr = t₁ ++ t₂ ∧ p.Path t₁ (.ok a) ∧ (f a).Path t₂ out := by
  change (p.bind f).Path tr out ↔ _
  induction p generalizing tr with
  | ret a =>
    constructor
    · exact fun hf => .inr ⟨a, [], tr, rfl, ⟨rfl, rfl⟩, hf⟩
    · rintro (⟨e, ⟨-, he⟩, -⟩ | ⟨a', t₁, t₂, rfl, ⟨rfl, ha⟩, hf⟩)
      · cases he
      · cases ha
        exact hf
  | raise e =>
    constructor
    · exact fun h => .inl ⟨e, ⟨h.1, rfl⟩, h.2⟩
    · rintro (⟨e', ⟨ht, he⟩, hout⟩ | ⟨a', t₁, t₂, -, ⟨-, ha⟩, -⟩)
      · cases he
        exact ⟨ht, hout⟩
      · cases ha
  | cmd c k ih =>
    constructor
    · rintro ⟨r, tr', rfl, hp⟩
      rcases (ih r).1 hp with ⟨e, he, hout⟩ | ⟨a, t₁, t₂, rfl, h₁, h₂⟩
      · exact .inl ⟨e, ⟨r, tr', rfl, he⟩, hout⟩
      · exact .inr ⟨a, ⟨c, r⟩ :: t₁, t₂, rfl, ⟨r, t₁, rfl, h₁⟩, h₂⟩
    · rintro (⟨e, ⟨r, tr', rfl, he⟩, hout⟩ | ⟨a, -, t₂, rfl, ⟨r, t₁, rfl, h₁⟩, h₂⟩)
      · exact ⟨r, tr', rfl, (ih r).2 (.inl ⟨e, he, hout⟩)⟩
      · exact ⟨r, t₁ ++ t₂, rfl, (ih r).2 (.inr ⟨a, t₁, t₂, rfl, h₁, h₂⟩)⟩

/-- One command and what comes after it. -/
theorem path_perform {c : C} {f : R c → Prog ε C R β} {out : Except ε β} :
    (perform c >>= f).Path tr out ↔ ∃ r tr', tr = ⟨c, r⟩ :: tr' ∧ (f r).Path tr' out := Iff.rfl

/-- `try` ends as its body does, or as the handler of what the body raises. -/
theorem path_tryCatch {out : Except ε α} : (p.tryCatch h).Path tr out ↔
    (∃ a, p.Path tr (.ok a) ∧ out = .ok a) ∨
      ∃ e t₁ t₂, tr = t₁ ++ t₂ ∧ p.Path t₁ (.error e) ∧ (h e).Path t₂ out := by
  induction p generalizing tr with
  | ret a =>
    constructor
    · exact fun h => .inl ⟨a, ⟨h.1, rfl⟩, h.2⟩
    · rintro (⟨a', ⟨ht, ha⟩, hout⟩ | ⟨e, t₁, t₂, -, ⟨-, he⟩, -⟩)
      · cases ha
        exact ⟨ht, hout⟩
      · cases he
  | raise e =>
    constructor
    · exact fun hh => .inr ⟨e, [], tr, rfl, ⟨rfl, rfl⟩, hh⟩
    · rintro (⟨a, ⟨-, ha⟩, -⟩ | ⟨e', t₁, t₂, rfl, ⟨rfl, he⟩, hh⟩)
      · cases ha
      · cases he
        exact hh
  | cmd c k ih =>
    constructor
    · rintro ⟨r, tr', rfl, hp⟩
      rcases (ih r).1 hp with ⟨a, ha, hout⟩ | ⟨e, t₁, t₂, rfl, h₁, h₂⟩
      · exact .inl ⟨a, ⟨r, tr', rfl, ha⟩, hout⟩
      · exact .inr ⟨e, ⟨c, r⟩ :: t₁, t₂, rfl, ⟨r, t₁, rfl, h₁⟩, h₂⟩
    · rintro (⟨a, ⟨r, tr', rfl, ha⟩, hout⟩ | ⟨e, -, t₂, rfl, ⟨r, t₁, rfl, h₁⟩, h₂⟩)
      · exact ⟨r, tr', rfl, (ih r).2 (.inl ⟨a, ha, hout⟩)⟩
      · exact ⟨r, t₁ ++ t₂, rfl, (ih r).2 (.inr ⟨e, t₁, t₂, rfl, h₁, h₂⟩)⟩

/-- `finally` runs once, however the body ends; what it raises itself wins. -/
theorem path_tryFinally {q : Prog ε C R Unit} {out : Except ε α} (h : (p.tryFinally q).Path tr out) :
    ∃ t₁ t₂ body last, tr = t₁ ++ t₂ ∧ p.Path t₁ body ∧ q.Path t₂ last ∧
      out = last.bind fun _ => body := by
  change (tryCatch p (fun e => q >>= fun _ => raise e) >>= fun a => q >>= fun _ => ret a).Path tr out at h
  rcases path_bind.1 h with ⟨e, he, rfl⟩ | ⟨a, t₁, t₂, rfl, ha, hq⟩
  · rcases path_tryCatch.1 he with ⟨a, -, ha⟩ | ⟨e', t₁, t₂, rfl, hp, hq⟩
    · cases ha
    rcases path_bind.1 hq with ⟨e'', hq', he''⟩ | ⟨⟨⟩, t₃, t₄, rfl, hq', hr⟩
    · cases he''
      exact ⟨t₁, t₂, .error e', .error e, rfl, hp, hq', rfl⟩
    · obtain ⟨rfl, he''⟩ := path_raise.1 hr
      cases he''
      exact ⟨t₁, t₃, .error e, .ok (), by simp, hp, hq', rfl⟩
  · rcases path_tryCatch.1 ha with ⟨a', hp, ha'⟩ | ⟨e', t₃, t₄, rfl, -, hr⟩
    · cases ha'
      rcases path_bind.1 hq with ⟨e'', hq', rfl⟩ | ⟨⟨⟩, t₃, t₄, rfl, hq', hr⟩
      · exact ⟨t₁, t₂, .ok a, .error e'', rfl, hp, hq', rfl⟩
      · obtain ⟨rfl, rfl⟩ := path_ret.1 hr
        exact ⟨t₁, t₃, .ok a, .ok (), by simp, hp, hq', rfl⟩
    · rcases path_bind.1 hr with ⟨e'', -, he''⟩ | ⟨⟨⟩, t₅, t₆, -, -, hr⟩
      · cases he''
      · cases (path_raise.1 hr).2

/-- What every command satisfies, every command of a path satisfies. -/
theorem Issues.of_path {T : C → Prop} {out : Except ε α} (hp : p.Issues T) (h : p.Path tr out) :
    ∀ x ∈ tr, T x.1 := by
  induction p generalizing tr with
  | ret a =>
    obtain ⟨rfl, -⟩ := h
    simp
  | raise e =>
    obtain ⟨rfl, -⟩ := h
    simp
  | cmd c k ih =>
    obtain ⟨r, tr', rfl, h⟩ := h
    intro x hx
    rcases List.mem_cons.1 hx with rfl | hx
    · exact hp.1
    · exact ih r (hp.2 r) h x hx

theorem issues_tryFinally {T : C → Prop} {q : Prog ε C R Unit} (hp : p.Issues T) (hq : q.Issues T) :
    (p.tryFinally q).Issues T :=
  issues_bind (issues_tryCatch hp fun _ => issues_bind hq fun _ => trivial) fun _ =>
    issues_bind hq fun _ => trivial

end Path

end Prog

end Threads
