import StrixPEP.Lifecycle.Linearization

/-!
# What one operation of the permit authority does

`Effect` lists every way in which an operation can change the state, `step_effect` derives it from
`step`, and the rest of the module reads single components off it: the in-flight map, the
authorizations, the cells and the cancellation.
-/

namespace StrixPEP.Lifecycle

open StrixPEP

/-- The state after `_release` of a cell that becomes `c`. -/
def releasedState (st : RunState) (ref : Nat) (a : String) (c : PermitCell) : RunState :=
  (⟨(st.ctx.release a).2, st.cells⟩ : RunState).setCell ref c

/-- Every way in which an operation ends. -/
inductive Effect (st : RunState) : Op → Event → RunState → Prop where
  /-- Refused, or done before. -/
  | same (op : Op) : Effect st op .nothing st
  | authorized (a : String) (e : Nat) (hc : st.ctx.cancelled = false)
      (ha : a ∉ st.ctx.authorizations.map Prod.fst) :
      Effect st (.authorize a e) (.authorized a (st.ctx.sequence + 1))
        { st with ctx := { st.ctx with
          sequence := st.ctx.sequence + 1
          authorizations := st.ctx.authorizations ++ [(a, e, st.ctx.sequence + 1)] } }
  | permitted (p : EffectPermit) (href : p.ref = st.cells.length)
      (hc : st.ctx.cancelled = false) (ha : p.attemptId ∉ st.ctx.permittedAttempts) :
      Effect st (.issuePermit p.attemptId p.epoch false p.policyGeneration p.budgetBinding)
        (.permitted p)
        ⟨{ st.ctx with
            sequence := st.ctx.sequence + 1
            permittedAttempts := st.ctx.permittedAttempts ++ [p.attemptId]
            inflight := st.ctx.inflight ++ [(p.attemptId, p)] }, st.cells ++ [PermitCell.new p]⟩
  | bound (ref : Nat) (conn : String) (c : PermitCell) (hc : st.cells[ref]? = some c) :
      Effect st (.bindDurableRelease ref conn) .nothing
        (st.setCell ref { c with durableConn := some conn })
  | released (op : Op) (ref : Nat) (c d : PermitCell) (hc : st.cells[ref]? = some c)
      (hop : op = .release ref ∨ op = .abandonUndurable ref) (hd : d.permit = c.permit) :
      Effect st op (.ofRelease (st.ctx.release c.permit.attemptId).1)
        (releasedState st ref c.permit.attemptId d)
  | exited (ref : Nat) (ok : Bool) (c : PermitCell) (hc : st.cells[ref]? = some c) :
      Effect st (.releaseWrite ref ok) (.recorded ref ok)
        (st.setCell ref { c with locked := false, releaseFailed := !ok })
  | cancelled (now : ℚ) :
      Effect st (.cancel now) (.cancelled (st.ctx.cancel now).1)
        { st with ctx := (st.ctx.cancel now).2 }

/-- **What an operation can do.** -/
theorem step_effect {st st' : RunState} {op : Op} {ev : Event} (h : step st op = some (ev, st')) :
    Effect st op ev st' := by
  cases op with
  | authorize a e =>
    simp only [step, RunContext.authorize] at h
    split at h
    · rename_i s ctx heq
      split at heq
      · cases heq
      · rename_i hno
        cases heq
        cases h
        rw [not_or, not_or, Bool.not_eq_true] at hno
        exact .authorized a e hno.1 hno.2.2
    · rename_i ctx heq
      cases h
      split at heq
      · cases heq
        exact .same _
      · cases heq
  | issuePermit a e term gen bud =>
    simp only [step] at h
    split at h
    · rename_i p st₁ heq
      cases h
      unfold RunState.issuePermit RunContext.issuePermit at heq
      split at heq
      · rename_i q ctx hq
        cases heq
        split at hq
        · cases hq
        rename_i hlive
        split at hq
        · cases hq
        rename_i hterm
        split at hq
        · cases hq
        split at hq
        · cases hq
        rename_i hper
        cases hq
        rw [not_or, Bool.not_eq_true] at hlive
        rw [not_or] at hper
        rw [Bool.not_eq_true] at hterm
        subst hterm
        exact .permitted ⟨st.cells.length, a, e, st.ctx.sequence + 1, gen, bud⟩ rfl hlive.1 hper.2
      · cases heq
    · rename_i st₁ heq
      cases h
      rw [issuePermit_none heq]
      exact .same _
  | bindDurableRelease ref conn =>
    simp only [step, RunState.bindDurableRelease] at h
    split at h
    · cases h
    rename_i c hc
    split at h
    · cases h
    split at h
    · cases h
      exact .same _
    · cases h
      exact .bound ref conn c hc
  | release ref =>
    simp only [step, RunState.releaseEnter] at h
    split at h
    · cases h
    rename_i c hc
    split at h
    · cases h
    split at h
    · cases h
      exact .same _
    split at h
    · rename_i t ctx connId hrel _
      cases h
      have he := Effect.released (.release ref) ref c
        { c with released := true, releaseTransition := some t, locked := true } hc (Or.inl rfl) rfl
      unfold releasedState at he
      rw [hrel] at he
      exact he
    · rename_i transition ctx hrel _
      cases h
      have he := Effect.released (.release ref) ref c
        { c with released := true, releaseTransition := transition } hc (Or.inl rfl) rfl
      unfold releasedState at he
      rw [hrel] at he
      exact he
  | releaseWrite ref ok =>
    simp only [step, RunState.releaseExit] at h
    split at h
    · cases h
    rename_i c hc
    split at h
    · cases h
      exact .exited ref ok c hc
    · cases h
  | abandonUndurable ref =>
    simp only [step, RunState.abandonUndurable] at h
    split at h
    · cases h
    rename_i c hc
    split at h
    · cases h
    split at h
    · cases h
      exact .same _
    · cases h
      exact .released _ ref c _ hc (Or.inr rfl) rfl
  | cancel now =>
    simp only [step] at h
    cases h
    exact .cancelled now

/-- The attempt that an event authorizes. -/
def Event.newAttempts : Event → List String
  | .authorized a _ => [a]
  | _ => []

/-- The permits that an event issues. -/
def Event.newPermits : Event → List EffectPermit
  | .permitted p => [p]
  | _ => []

/-- What an event does to the in-flight map. -/
def Event.fly (inflight : List (String × EffectPermit)) : Event → List (String × EffectPermit)
  | .permitted p => inflight ++ [(p.attemptId, p)]
  | .released t => inflight.filter fun e => e.1 ≠ t.attemptId
  | _ => inflight

/-- The permit object that an operation is about. -/
def Op.ref? : Op → Option Nat
  | .bindDurableRelease ref _ | .release ref | .releaseWrite ref _ | .abandonUndurable ref =>
    some ref
  | .authorize _ _ | .issuePermit _ _ _ _ _ | .cancel _ => none

@[simp] theorem History.push_permits (h : History) (ev : Event) :
    (h.push ev).permits = h.permits ++ ev.newPermits := by
  cases ev <;> simp [History.push, Event.newPermits]

section Read

variable {st st' : RunState} {op : Op} {ev : Event}

/-- The attempts that have been authorized. -/
theorem Effect.authorizations (h : Effect st op ev st') :
    st'.ctx.authorizations.map Prod.fst =
      st.ctx.authorizations.map Prod.fst ++ ev.newAttempts := by
  have hrel : ∀ a, (st.ctx.release a).2.authorizations = st.ctx.authorizations := by
    intro a
    unfold RunContext.release
    split <;> rfl
  have hcan : ∀ now, (st.ctx.cancel now).2.authorizations = st.ctx.authorizations := by
    intro now
    unfold RunContext.cancel
    split <;> rfl
  cases h with
  | authorized a e => simp [Event.newAttempts]
  | released op r c d hc hop hd =>
    cases (st.ctx.release c.permit.attemptId).1 <;>
      simp [releasedState, hrel, Event.ofRelease, Event.newAttempts]
  | cancelled now => simp [hcan, Event.newAttempts]
  | _ => simp [Event.newAttempts]

/-- The in-flight map follows the event. -/
theorem Effect.inflight (h : Effect st op ev st') :
    st'.ctx.inflight = ev.fly st.ctx.inflight := by
  have hcan : ∀ now, (st.ctx.cancel now).2.inflight = st.ctx.inflight := by
    intro now
    unfold RunContext.cancel
    split <;> rfl
  cases h with
  | released op r c d hc hop hd =>
    simp only [releasedState, RunState.setCell_ctx]
    unfold RunContext.release
    split <;> rfl
  | cancelled now => exact hcan now
  | _ => rfl

/-- An operation on one permit object leaves the others alone. -/
theorem Effect.cells_other (h : Effect st op ev st') {ref : Nat} {c : PermitCell}
    (hc : st.cells[ref]? = some c) (hne : op.ref? ≠ some ref) : st'.cells[ref]? = some c := by
  have hset : ∀ (r : Nat) (f : PermitCell), r ≠ ref → (st.cells.set r f)[ref]? = some c := by
    intro r f hr
    rw [List.getElem?_set_ne hr, hc]
  cases h with
  | permitted p =>
    obtain ⟨hlt, -⟩ := List.getElem?_eq_some_iff.1 hc
    simpa only [List.getElem?_append_left hlt] using hc
  | bound r conn e he => exact hset r _ fun hr => hne (congrArg some hr)
  | released op r e d he hop hd =>
    refine hset r d fun hr => ?_
    rcases hop with rfl | rfl <;> exact hne (congrArg some hr)
  | exited r ok e he => exact hset r _ fun hr => hne (congrArg some hr)
  | _ => exact hc

/-- A release is of the attempt of its permit object. -/
theorem Effect.released_attempt (h : Effect st op ev st') {t : ReleaseTransition}
    (hev : ev = .released t) : ∃ ref c, op.ref? = some ref ∧ st.cells[ref]? = some c ∧
      t.attemptId = c.permit.attemptId := by
  cases h with
  | released op r c d hc hop hd =>
    refine ⟨r, c, by rcases hop with rfl | rfl <;> rfl, hc, ?_⟩
    unfold RunContext.release at hev
    split at hev
    · cases hev
    · cases hev
      rfl
  | _ => cases hev

/-- A permit is issued for the attempt of the call. -/
theorem Effect.issued_attempt (h : Effect st op ev st') {p : EffectPermit}
    (hev : ev = .permitted p) : p.attemptId ∉ st.ctx.permittedAttempts ∧
      p.ref = st.cells.length ∧ st'.cells = st.cells ++ [PermitCell.new p] ∧
      op = .issuePermit p.attemptId p.epoch false p.policyGeneration p.budgetBinding := by
  cases h with
  | permitted q href hc ha =>
    cases hev
    exact ⟨ha, href, rfl, rfl⟩
  | released op r c d hc hop hd =>
    exfalso
    cases hr : (st.ctx.release c.permit.attemptId).1 <;> rw [hr] at hev <;> cases hev
  | _ => cases hev

/-- A recorded cancellation stays. -/
theorem Effect.cancellation (h : Effect st op ev st') :
    st'.ctx.cancellation = st.ctx.cancellation ∨ ∃ now, op = .cancel now := by
  cases h with
  | released op r c d hc hop hd =>
    left
    simp only [releasedState, RunState.setCell_ctx]
    unfold RunContext.release
    split <;> rfl
  | cancelled now => exact Or.inr ⟨now, rfl⟩
  | _ => exact Or.inl rfl

theorem Effect.cancellation_some (h : Effect st op ev st') {t : CancellationTransition}
    (ht : st.ctx.cancellation = some t) : st'.ctx.cancellation = some t := by
  rcases h.cancellation with hc | ⟨now, rfl⟩
  · rw [hc, ht]
  · cases h with
    | same => exact ht
    | cancelled => simp [RunContext.cancel, ht]
    | released op r c d hc hop hd => rcases hop with hop | hop <;> cases hop

end Read

end StrixPEP.Lifecycle
