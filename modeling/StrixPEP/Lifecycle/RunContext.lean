import StrixPEP.Lib.Bounded
import Mathlib.Data.Rat.Defs

/-!
# The permit / cancellation authority (`pep/lifecycle.py`)

Model of `RunContext` and `EffectPermit`.

* `RunContext` — the fields of the Python object; `authorize`, `issuePermit`, `release` and
  `cancel` are the bodies of the methods, each of which runs under `_cv`.
* `EffectPermit` — the attributes of a permit object that never change after construction;
  `ref` is the identity of the object.  `PermitCell` is the object itself: those attributes
  and the mutable ones, which `_lock` protects.  Cells sit in a heap indexed by `ref`.
* `release()` keeps the permit lock across its audit write, so it is two steps here:
  `releaseEnter` (take the lock, mark released, `RunContext._release`) and `releaseExit`
  (the outcome of the `PERMIT_RELEASED` write, give the lock back).  A permit whose lock is
  held blocks every other operation on that permit and nothing else.

`issue_permit` reads `conn.is_terminal()` under `_cv`; nothing can observe the context between
that read and the end of the method, so the read value is an argument of `issuePermit`.
-/

namespace StrixPEP

/-- `CancellationTransition`. -/
structure CancellationTransition where
  cancelledEpoch : Nat
  newEpoch : Nat
  lifecycleSeq : Nat
  inflightAtLinearization : Nat
  monotonicTime : ℚ
  newlyCancelled : Bool
  deriving DecidableEq, Repr

/-- `ReleaseTransition`. -/
structure ReleaseTransition where
  attemptId : String
  epoch : Nat
  permitSeq : Nat
  lifecycleSeq : Nat
  deriving DecidableEq, Repr

/-- The immutable attributes of an `EffectPermit`; `ref` is the object's identity. -/
structure EffectPermit where
  ref : Nat
  attemptId : String
  epoch : Nat
  lifecycleSeq : Nat
  policyGeneration : String
  budgetBinding : String
  deriving DecidableEq, Repr

/-- An `EffectPermit` object: its attributes and the state its `_lock` protects. -/
structure PermitCell where
  permit : EffectPermit
  /-- `_lock` is held by a `release()` that has not finished its audit write. -/
  locked : Bool
  released : Bool
  releaseTransition : Option ReleaseTransition
  /-- `_release_error is not None`. -/
  releaseFailed : Bool
  /-- `_conn_id` once `_audit` has been bound by `bind_durable_release`. -/
  durableConn : Option String
  deriving DecidableEq, Repr

/-- `EffectPermit.__init__`. -/
def PermitCell.new (p : EffectPermit) : PermitCell := ⟨p, false, false, none, false, none⟩

/-- `RunContext`; dictionaries are association lists in insertion order. -/
structure RunContext where
  epoch : Nat
  cancelled : Bool
  sequence : Nat
  inflight : List (String × EffectPermit)
  authorizations : List (String × Nat × Nat)
  permittedAttempts : List String
  cancellation : Option CancellationTransition
  deriving DecidableEq, Repr

namespace RunContext

/-- `RunContext.__init__`. -/
def fresh : RunContext := ⟨0, false, 0, [], [], [], none⟩

/-- `live`. -/
def live (rc : RunContext) (epoch : Nat) : Bool := !rc.cancelled && epoch == rc.epoch

/-- `authorize`. -/
def authorize (rc : RunContext) (attemptId : String) (epoch : Nat) : Option Nat × RunContext :=
  if rc.cancelled ∨ epoch ≠ rc.epoch ∨ attemptId ∈ rc.authorizations.map Prod.fst then (none, rc)
  else
    (some (rc.sequence + 1),
      { rc with
        sequence := rc.sequence + 1
        authorizations := rc.authorizations ++ [(attemptId, epoch, rc.sequence + 1)] })

/-- `issue_permit`; `ref` is the identity the new object will have. -/
def issuePermit (rc : RunContext) (ref : Nat) (attemptId : String) (epoch : Nat)
    (connTerminal : Bool) (policyGeneration budgetBinding : String) :
    Option EffectPermit × RunContext :=
  if rc.cancelled ∨ epoch ≠ rc.epoch then (none, rc)
  else if connTerminal then (none, rc)
  else match rc.authorizations.lookup attemptId with
  | none => (none, rc)
  | some authorization =>
    if authorization.1 ≠ epoch ∨ attemptId ∈ rc.permittedAttempts then (none, rc)
    else
      let permit : EffectPermit :=
        ⟨ref, attemptId, epoch, rc.sequence + 1, policyGeneration, budgetBinding⟩
      (some permit,
        { rc with
          sequence := rc.sequence + 1
          permittedAttempts := rc.permittedAttempts ++ [attemptId]
          inflight := rc.inflight ++ [(attemptId, permit)] })

/-- `_release`: pop the permit of the attempt and allocate its release sequence. -/
def release (rc : RunContext) (attemptId : String) : Option ReleaseTransition × RunContext :=
  match rc.inflight.lookup attemptId with
  | none => (none, rc)
  | some permit =>
    (some ⟨attemptId, permit.epoch, permit.lifecycleSeq, rc.sequence + 1⟩,
      { rc with
        sequence := rc.sequence + 1
        inflight := rc.inflight.filter (fun e => e.1 ≠ attemptId) })

/-- `cancel`; `now` is `time.monotonic()`. -/
def cancel (rc : RunContext) (now : ℚ) : CancellationTransition × RunContext :=
  match rc.cancellation with
  | some prior => ({ prior with newlyCancelled := false }, rc)
  | none =>
    let transition : CancellationTransition :=
      ⟨rc.epoch, rc.epoch + 1, rc.sequence + 1, rc.inflight.length, now, true⟩
    (transition,
      { rc with
        epoch := rc.epoch + 1
        cancelled := true
        sequence := rc.sequence + 1
        cancellation := some transition })

end RunContext

/-- A `RunContext` together with the heap of permit objects it has handed out. -/
structure RunState where
  ctx : RunContext
  cells : List PermitCell
  deriving DecidableEq, Repr

namespace RunState

def fresh : RunState := ⟨RunContext.fresh, []⟩

/-- The cell of `ref`, replaced. -/
def setCell (st : RunState) (ref : Nat) (c : PermitCell) : RunState :=
  { st with cells := st.cells.set ref c }

@[simp] theorem setCell_ctx (st : RunState) (ref : Nat) (c : PermitCell) :
    (st.setCell ref c).ctx = st.ctx := rfl

@[simp] theorem setCell_cells (st : RunState) (ref : Nat) (c : PermitCell) :
    (st.setCell ref c).cells = st.cells.set ref c := rfl

/-- `RunContext.issue_permit`, allocating the cell of the new object. -/
def issuePermit (st : RunState) (attemptId : String) (epoch : Nat) (connTerminal : Bool)
    (policyGeneration budgetBinding : String) : Option EffectPermit × RunState :=
  match st.ctx.issuePermit st.cells.length attemptId epoch connTerminal policyGeneration
      budgetBinding with
  | (some p, ctx) => (some p, ⟨ctx, st.cells ++ [PermitCell.new p]⟩)
  | (none, ctx) => (none, ⟨ctx, st.cells⟩)

/-- `bind_durable_release`; the Boolean is `false` where the method raises. -/
def bindDurableRelease (st : RunState) (ref : Nat) (connId : String) :
    Option (Bool × RunState) :=
  match st.cells[ref]? with
  | none => none
  | some c =>
    if c.locked then none
    else if c.released ∨ c.durableConn.isSome then some (false, st)
    else some (true, st.setCell ref { c with durableConn := some connId })

/-- How `release()` continues after the section in which it takes both locks. -/
inductive ReleaseEntry where
  /-- `_released` was already set: return the stored transition, or raise the stored error. -/
  | again (failed : Bool) (transition : Option ReleaseTransition)
  /-- Released now, and nothing has to be recorded. -/
  | silent (transition : Option ReleaseTransition)
  /-- Released now; the `PERMIT_RELEASED` record of this connection is written next, with the
  permit lock still held. -/
  | write (transition : ReleaseTransition) (connId : String)
  deriving DecidableEq, Repr

/-- `release()` up to its audit write. -/
def releaseEnter (st : RunState) (ref : Nat) : Option (ReleaseEntry × RunState) :=
  match st.cells[ref]? with
  | none => none
  | some c =>
    if c.locked then none
    else if c.released then some (.again c.releaseFailed c.releaseTransition, st)
    else
      match st.ctx.release c.permit.attemptId, c.durableConn with
      | (some t, ctx), some connId =>
        some (.write t connId,
          (⟨ctx, st.cells⟩ : RunState).setCell ref
            { c with released := true, releaseTransition := some t, locked := true })
      | (transition, ctx), _ =>
        some (.silent transition,
          (⟨ctx, st.cells⟩ : RunState).setCell ref
            { c with released := true, releaseTransition := transition })

/-- The end of `release()`: the audit write succeeded or raised. -/
def releaseExit (st : RunState) (ref : Nat) (ok : Bool) : Option RunState :=
  match st.cells[ref]? with
  | none => none
  | some c =>
    if c.locked then some (st.setCell ref { c with locked := false, releaseFailed := !ok })
    else none

/-- `abandon_undurable`; the method returns nothing, the transition is what it stores. -/
def abandonUndurable (st : RunState) (ref : Nat) :
    Option (Option ReleaseTransition × RunState) :=
  match st.cells[ref]? with
  | none => none
  | some c =>
    if c.locked then none
    else if c.released then some (none, st)
    else
      match st.ctx.release c.permit.attemptId with
      | (transition, ctx) =>
        some (transition,
          (⟨ctx, st.cells⟩ : RunState).setCell ref
            { c with released := true, releaseTransition := transition })

end RunState

end StrixPEP
