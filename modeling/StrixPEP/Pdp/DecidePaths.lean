import StrixPEP.Lib.Trails
import StrixPEP.Pdp.DecideSpec

/-!
# What a call of `decide` does

`Grounds.steps` — what a call with these grounds asks, and what it is told.

Principal result: `path_decide`, a call that allows asks for the policy, the kill file and the clock,
for the resolver and the budgets exactly if it has no pin, and for nothing else.
-/

namespace StrixPEP.Pdp

open Threads Threads.Prog

variable {P : Platform}

instance (floats : Floats) : (q : Query) → Inhabited (Answer floats q)
  | .policy => ⟨(.error "" : Except String Json)⟩
  | .killed => ⟨false⟩
  | .now => ⟨floats.zero⟩
  | .resolve _ => ⟨(.error "" : Except String Resolution)⟩
  | .reserve _ => ⟨(.ok none : Except PyError (Option String))⟩
  | .returned _ _ => ⟨()⟩

/-- The calls of a decision, with what they return. -/
abbrev Steps (P : Platform) := List (Sigma (Answer P.floats))

namespace Grounds

variable {call : Call}

/-- The resolver and the budgets, where the connection has no pin yet. -/
def connecting (g : Grounds P call) : Steps P :=
  match g.resolution with
  | none => []
  | some res =>
    [⟨.resolve (String.ofList g.host), (.ok res : Except String Resolution)⟩,
      ⟨.reserve g.specs, (.ok none : Except PyError (Option String))⟩]

/-- What a call with these grounds asks, and what it is told. -/
def steps (g : Grounds P call) : Steps P :=
  ⟨.policy, (.ok g.policy : Except String Json)⟩ :: ⟨.killed, false⟩ :: ⟨.now, g.now⟩ :: g.connecting

theorem connecting_pinned (g : Grounds P call) {given : Pin} (h : call.pin = some given) :
    g.connecting = [] := by
  unfold connecting
  rw [(g.pinned given h).2.1]

/-- Without a pin the resolver and the budgets are asked. -/
theorem steps_unpinned (g : Grounds P call) (h : call.pin = none) : ∃ res, g.steps =
    [⟨.policy, (.ok g.policy : Except String Json)⟩, ⟨.killed, false⟩, ⟨.now, g.now⟩,
      ⟨.resolve (String.ofList g.host), (.ok res : Except String Resolution)⟩,
      ⟨.reserve g.specs, (.ok none : Except PyError (Option String))⟩] := by
  obtain ⟨res, hres, -⟩ := g.resolved h
  refine ⟨res, ?_⟩
  unfold steps connecting
  rw [hres]

/-- With a pin neither is. -/
theorem steps_pinned (g : Grounds P call) {given : Pin} (h : call.pin = some given) : g.steps =
    [⟨.policy, (.ok g.policy : Except String Json)⟩, ⟨.killed, false⟩, ⟨.now, g.now⟩] := by
  unfold steps
  rw [g.connecting_pinned h]

/-- With the answers given out again, a call has seen its own steps. -/
theorem seen_replay {g : Grounds P call} {tr : Steps P} :
    g.Seen replay (some tr) (some []) ↔ tr = g.steps := by
  constructor
  · rintro ⟨s₁, s₂, s₃, hpolicy, hkilled, hnow, hconn⟩
    have hrest : s₃ = some g.connecting := by
      rcases hconn with ⟨given, hgiven, hs⟩ | ⟨-, res, t, hres, hresolve, hreserve⟩
      · rw [g.connecting_pinned hgiven, hs]
      · obtain rfl := replay_some.1 hreserve
        obtain rfl := replay_some.1 hresolve
        unfold connecting
        rw [hres]
    subst hrest
    obtain rfl := replay_some.1 hnow
    obtain rfl := replay_some.1 hkilled
    exact Option.some.inj (replay_some.1 hpolicy)
  · rintro rfl
    refine ⟨_, _, _, replay_some.2 rfl, replay_some.2 rfl, replay_some.2 rfl, ?_⟩
    cases hpin : call.pin with
    | some given => exact .inl ⟨given, hpin, by rw [g.connecting_pinned hpin]⟩
    | none =>
      obtain ⟨res, hres, -⟩ := g.resolved hpin
      refine .inr ⟨hpin, res, _, hres, replay_some.2 ?_, replay_some.2 rfl⟩
      unfold connecting
      rw [hres]

end Grounds

/-- **What a call that allows does**: it has grounds, returns their decision, and asks for nothing but
their steps. -/
theorem path_decide {call : Call} {tr : Steps P} {d : Decision} :
    (decide P call).Path tr (.ok d) ∧ d.allow = true ↔
      ∃ g : Grounds P call, d = g.decision ∧ tr = g.steps := by
  rw [← runWith_replay]
  exact allows_iff.trans (exists_congr fun g => and_congr_right fun _ => Grounds.seen_replay)

/-- A call that allows, with what it has asked. -/
def Allows (P : Platform) (call : Call) (tr : Steps P) (d : Decision) : Prop :=
  (decide P call).Path tr (.ok d) ∧ d.allow = true

theorem Grounds.allows {call : Call} (g : Grounds P call) : Allows P call g.steps g.decision :=
  path_decide.2 ⟨g, rfl, rfl⟩

end StrixPEP.Pdp
