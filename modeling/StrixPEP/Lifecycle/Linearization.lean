import StrixPEP.Lifecycle.RunContext
import Mathlib.Tactic

/-!
# Runs of the permit / cancellation authority

Every operation of `RunContext` and `EffectPermit` is one atomic step (`release()` is two, see
`RunContext.lean`), so an interleaving by any number of threads is a list of operations.
`execute` runs such a list and collects what the run hands out (`History`): every sequence
number, every `PERMIT_RELEASED` write and every value returned by `cancel()`.

Principal results:

* `step_inv` — each operation keeps `Inv`, which reads the whole state back from the history;
* `execute_inv` — hence so does every list of operations;
* `execute_cancelled` — after `cancel()` nothing is authorized or permitted and the in-flight
  set only shrinks;
* `lifecycle_order` — the global sequence equations for every run.
-/

namespace StrixPEP.Lifecycle

open StrixPEP

/-- One call, or one half of a `release()` call. -/
inductive Op where
  | authorize (attemptId : String) (epoch : Nat)
  | issuePermit (attemptId : String) (epoch : Nat) (connTerminal : Bool)
      (policyGeneration budgetBinding : String)
  | bindDurableRelease (ref : Nat) (connId : String)
  | release (ref : Nat)
  /-- The audit write inside a `release()` that holds its permit's lock. -/
  | releaseWrite (ref : Nat) (ok : Bool)
  | abandonUndurable (ref : Nat)
  | cancel (now : ℚ)
  deriving DecidableEq, Repr

/-- What one operation hands out. -/
inductive Event where
  | authorized (attemptId : String) (seq : Nat)
  | permitted (p : EffectPermit)
  | released (t : ReleaseTransition)
  /-- A `PERMIT_RELEASED` write, successful or not. -/
  | recorded (ref : Nat) (ok : Bool)
  | cancelled (t : CancellationTransition)
  | nothing
  deriving DecidableEq, Repr

def Event.ofRelease : Option ReleaseTransition → Event
  | some t => .released t
  | none => .nothing

/-- One operation; `none` where the caller would block on a permit lock. -/
def step (st : RunState) : Op → Option (Event × RunState)
  | .authorize a e =>
    match st.ctx.authorize a e with
    | (some s, ctx) => some (.authorized a s, { st with ctx := ctx })
    | (none, ctx) => some (.nothing, { st with ctx := ctx })
  | .issuePermit a e term gen bud =>
    match st.issuePermit a e term gen bud with
    | (some p, st') => some (.permitted p, st')
    | (none, st') => some (.nothing, st')
  | .bindDurableRelease ref conn => (st.bindDurableRelease ref conn).map fun r => (.nothing, r.2)
  | .release ref =>
    (st.releaseEnter ref).map fun r =>
      (match r.1 with
        | .again _ _ => .nothing
        | .silent t => .ofRelease t
        | .write t _ => .released t, r.2)
  | .releaseWrite ref ok => (st.releaseExit ref ok).map fun r => (.recorded ref ok, r)
  | .abandonUndurable ref => (st.abandonUndurable ref).map fun r => (.ofRelease r.1, r.2)
  | .cancel now =>
    match st.ctx.cancel now with
    | (t, ctx) => some (.cancelled t, { st with ctx := ctx })

/-- Everything a run has handed out, in order. -/
structure History where
  /-- Every sequence number; a repeated `cancel()` allocates none. -/
  sequences : List Nat
  auths : List (String × Nat)
  permits : List EffectPermit
  releases : List ReleaseTransition
  /-- `PERMIT_RELEASED` writes by permit identity, failed ones included. -/
  records : List (Nat × Bool)
  /-- Every value returned by `cancel()`. -/
  cancels : List CancellationTransition
  deriving DecidableEq, Repr

namespace History

def empty : History := ⟨[], [], [], [], [], []⟩

def push (h : History) : Event → History
  | .authorized a s =>
    { h with sequences := h.sequences ++ [s], auths := h.auths ++ [(a, s)] }
  | .permitted p =>
    { h with sequences := h.sequences ++ [p.lifecycleSeq], permits := h.permits ++ [p] }
  | .released t =>
    { h with sequences := h.sequences ++ [t.lifecycleSeq], releases := h.releases ++ [t] }
  | .recorded ref ok => { h with records := h.records ++ [(ref, ok)] }
  | .cancelled t =>
    { h with
      sequences := if t.newlyCancelled then h.sequences ++ [t.lifecycleSeq] else h.sequences
      cancels := h.cancels ++ [t] }
  | .nothing => h

/-- The attempts that have a release. -/
def releasedAttempts (h : History) : List String := h.releases.map (·.attemptId)

/-- The `PERMIT_RELEASED` writes of one permit. -/
def recordsOf (h : History) (ref : Nat) : List (Nat × Bool) := h.records.filter (·.1 = ref)

/-- The permit was issued before `c` and has no release before it. -/
def inflightAt (h : History) (c : Nat) (p : EffectPermit) : Bool :=
  decide (p.lifecycleSeq < c ∧ ∀ t ∈ h.releases, t.attemptId = p.attemptId → c < t.lifecycleSeq)

end History

/-- A run: the operations in the order in which they take their locks. -/
def execute : List Op → RunState → History → Option (RunState × History)
  | [], st, h => some (st, h)
  | op :: ops, st, h =>
    match step st op with
    | none => none
    | some (ev, st') => execute ops st' (h.push ev)

/-! ## The invariant -/

/-- The state, read back from what the run has handed out. -/
structure Inv (st : RunState) (h : History) : Prop where
  seqs : h.sequences = List.range' 1 st.ctx.sequence
  auths_eq : st.ctx.authorizations.map (fun e => (e.1, e.2.2)) = h.auths
  auths_nodup : (h.auths.map Prod.fst).Nodup
  auth_seq : ∀ a ∈ h.auths, a.2 ≤ st.ctx.sequence
  permitted_eq : st.ctx.permittedAttempts = h.permits.map (·.attemptId)
  permits_nodup : (h.permits.map (·.attemptId)).Nodup
  permit_seq : ∀ p ∈ h.permits, p.lifecycleSeq ≤ st.ctx.sequence
  permit_auth : ∀ p ∈ h.permits, ∃ s, (p.attemptId, s) ∈ h.auths ∧ s < p.lifecycleSeq
  cells_eq : st.cells.map (·.permit) = h.permits
  cells_ref : ∀ (ref : Nat) (c : PermitCell), st.cells[ref]? = some c → c.permit.ref = ref
  inflight_eq : st.ctx.inflight =
    (h.permits.filter (fun p => p.attemptId ∉ h.releasedAttempts)).map fun p => (p.attemptId, p)
  released_iff : ∀ c ∈ st.cells, (c.released = true ↔ c.permit.attemptId ∈ h.releasedAttempts)
  releases_nodup : h.releasedAttempts.Nodup
  release_seq : ∀ t ∈ h.releases, t.lifecycleSeq ≤ st.ctx.sequence
  release_permit : ∀ t ∈ h.releases, ∃ p ∈ h.permits, p.attemptId = t.attemptId ∧
    p.epoch = t.epoch ∧ p.lifecycleSeq = t.permitSeq ∧ p.lifecycleSeq < t.lifecycleSeq
  unrecorded : ∀ (ref : Nat) (c : PermitCell), st.cells[ref]? = some c →
    (c.locked = true → c.released = true) ∧
    (c.locked = true ∨ c.released = false → h.recordsOf ref = [])
  records_le : ∀ ref, (h.recordsOf ref).length ≤ 1
  records_ref : ∀ r ∈ h.records, r.1 < st.cells.length
  cancelled_eq : st.ctx.cancelled = st.ctx.cancellation.isSome
  cancels_none : st.ctx.cancellation = none → h.cancels = []
  cancels_some : ∀ c, st.ctx.cancellation = some c →
    c.newlyCancelled = true ∧ c ∈ h.cancels ∧ ∀ t ∈ h.cancels, { t with newlyCancelled := true } = c
  before_cancel : ∀ c, st.ctx.cancellation = some c →
    (∀ a ∈ h.auths, a.2 < c.lifecycleSeq) ∧ (∀ p ∈ h.permits, p.lifecycleSeq < c.lifecycleSeq) ∧
    c.lifecycleSeq ≤ st.ctx.sequence ∧
    c.inflightAtLinearization = (h.permits.filter (h.inflightAt c.lifecycleSeq)).length

theorem inv_fresh : Inv RunState.fresh History.empty := by
  constructor <;> simp [RunState.fresh, RunContext.fresh, History.empty, History.releasedAttempts,
    History.recordsOf]

section
variable {st : RunState} {h : History}

theorem Inv.live_none (I : Inv st h) (hc : ¬ st.ctx.cancelled = true) :
    st.ctx.cancellation = none := by
  have := I.cancelled_eq
  rw [Bool.not_eq_true] at hc
  rw [hc] at this
  simpa using this.symm

theorem Inv.push_seq (I : Inv st h) :
    h.sequences ++ [st.ctx.sequence + 1] = List.range' 1 (st.ctx.sequence + 1) := by
  rw [I.seqs, List.range'_1_concat, Nat.add_comm]

/-- A permit is determined by its attempt. -/
theorem Inv.permit_unique (I : Inv st h) {p q : EffectPermit} (hp : p ∈ h.permits)
    (hq : q ∈ h.permits) (e : p.attemptId = q.attemptId) : p = q :=
  List.inj_on_of_nodup_map I.permits_nodup hp hq e

/-- An attempt with a release has a permit. -/
theorem Inv.released_permitted (I : Inv st h) {a : String} (ha : a ∈ h.releasedAttempts) :
    a ∈ h.permits.map (·.attemptId) := by
  obtain ⟨t, ht, rfl⟩ := List.mem_map.mp ha
  obtain ⟨p, hp, hpt, _⟩ := I.release_permit t ht
  exact List.mem_map.mpr ⟨p, hp, hpt⟩

theorem Inv.cell_permit (I : Inv st h) {c : PermitCell} (hc : c ∈ st.cells) :
    c.permit ∈ h.permits := by
  rw [← I.cells_eq]
  exact List.mem_map_of_mem hc

/-- Distinct objects belong to distinct attempts. -/
theorem Inv.cell_attempt_ne (I : Inv st h) {i j : Nat} {c d : PermitCell}
    (hc : st.cells[i]? = some c) (hd : st.cells[j]? = some d) (hij : i ≠ j) :
    d.permit.attemptId ≠ c.permit.attemptId := by
  intro heq
  have hp := I.permit_unique (I.cell_permit (List.mem_of_getElem? hd))
    (I.cell_permit (List.mem_of_getElem? hc)) heq
  apply hij
  rw [← I.cells_ref i c hc, ← I.cells_ref j d hd, hp]

/-- The in-flight map holds exactly the unreleased permits. -/
theorem Inv.mem_inflight (I : Inv st h) {a : String} {p : EffectPermit} :
    (a, p) ∈ st.ctx.inflight ↔ p ∈ h.permits ∧ p.attemptId = a ∧ a ∉ h.releasedAttempts := by
  rw [I.inflight_eq, List.mem_map]
  constructor
  · rintro ⟨q, hq, heq⟩
    obtain ⟨rfl, rfl⟩ := Prod.mk.inj heq
    obtain ⟨hqp, hqu⟩ := List.mem_filter.mp hq
    exact ⟨hqp, rfl, by simpa using hqu⟩
  · rintro ⟨hp, rfl, hu⟩
    exact ⟨p, List.mem_filter.mpr ⟨hp, by simpa using hu⟩, rfl⟩

/-- An unreleased cell's attempt is in flight, with that cell's permit. -/
theorem Inv.lookup_cell (I : Inv st h) {c : PermitCell} (hc : c ∈ st.cells)
    (hr : c.released = false) : st.ctx.inflight.lookup c.permit.attemptId = some c.permit := by
  have hu : c.permit.attemptId ∉ h.releasedAttempts := fun hm => by
    have := (I.released_iff c hc).2 hm
    rw [hr] at this
    cases this
  have hm : (c.permit.attemptId, c.permit) ∈ st.ctx.inflight :=
    I.mem_inflight.2 ⟨I.cell_permit hc, rfl, hu⟩
  cases hl : st.ctx.inflight.lookup c.permit.attemptId with
  | none =>
    have := List.lookup_eq_none_iff.mp hl _ hm
    simp at this
  | some q =>
    obtain ⟨l₁, l₂, hsplit, _⟩ := List.lookup_eq_some_iff.mp hl
    have hqm : (c.permit.attemptId, q) ∈ st.ctx.inflight := by rw [hsplit]; simp
    obtain ⟨hq, he, _⟩ := I.mem_inflight.1 hqm
    rw [I.permit_unique hq (I.cell_permit hc) he]

/-! ## One operation -/

theorem inv_authorize (I : Inv st h) {a : String} {e s : Nat} {ctx : RunContext}
    (hs : st.ctx.authorize a e = (some s, ctx)) :
    Inv { st with ctx := ctx } (h.push (.authorized a s)) := by
  unfold RunContext.authorize at hs
  split at hs
  · cases hs
  rename_i hg
  cases hs
  simp only [not_or] at hg
  have hnone := I.live_none hg.1
  have hnew : a ∉ h.auths.map Prod.fst := by
    rw [← I.auths_eq, List.map_map]
    exact hg.2.2
  exact {
    I with
    seqs := I.push_seq
    auths_eq := by simp [History.push, ← I.auths_eq]
    auths_nodup := by
      simp only [History.push, List.map_append, List.nodup_append]
      refine ⟨I.auths_nodup, by simp, ?_⟩
      rintro x hx y hy rfl
      simp only [List.map_cons, List.map_nil, List.mem_singleton] at hy
      exact hnew (hy ▸ hx)
    auth_seq := by
      intro x hx
      rcases List.mem_append.mp hx with hx | hx
      · exact Nat.le_succ_of_le (I.auth_seq x hx)
      · rw [List.mem_singleton.mp hx]
    permit_seq := fun p hp => Nat.le_succ_of_le (I.permit_seq p hp)
    permit_auth := fun p hp =>
      let ⟨t, ht, hlt⟩ := I.permit_auth p hp
      ⟨t, List.mem_append_left _ ht, hlt⟩
    release_seq := fun t ht => Nat.le_succ_of_le (I.release_seq t ht)
    before_cancel := fun c hc => by rw [show st.ctx.cancellation = some c from hc] at hnone; cases hnone }

theorem inv_issuePermit (I : Inv st h) {a : String} {e : Nat} {term : Bool} {gen bud : String}
    {p : EffectPermit} {st' : RunState} (hs : st.issuePermit a e term gen bud = (some p, st')) :
    Inv st' (h.push (.permitted p)) := by
  unfold RunState.issuePermit RunContext.issuePermit at hs
  split at hs
  · rename_i q ctx heq
    cases hs
    split at heq
    · cases heq
    rename_i hlive
    split at heq
    · cases heq
    split at heq
    · cases heq
    rename_i authorization hauth
    split at heq
    · cases heq
    rename_i hg
    cases heq
    simp only [not_or] at hlive hg
    have hnone := I.live_none hlive.1
    have hnew : a ∉ h.permits.map (·.attemptId) := by rw [← I.permitted_eq]; exact hg.2
    have hunrel : a ∉ h.releasedAttempts := fun hm => hnew (I.released_permitted hm)
    obtain ⟨l₁, l₂, hsplit, _⟩ := List.lookup_eq_some_iff.mp hauth
    have hmem : (a, authorization.2) ∈ h.auths := by rw [← I.auths_eq, hsplit]; simp
    have hle := I.auth_seq _ hmem
    exact {
      I with
      seqs := I.push_seq
      auth_seq := fun x hx => Nat.le_succ_of_le (I.auth_seq x hx)
      permitted_eq := by simp [History.push, I.permitted_eq]
      permits_nodup := by
        simp only [History.push, List.map_append, List.nodup_append]
        refine ⟨I.permits_nodup, by simp, ?_⟩
        rintro x hx y hy rfl
        simp only [List.map_cons, List.map_nil, List.mem_singleton] at hy
        exact hnew (hy ▸ hx)
      permit_seq := by
        intro x hx
        rcases List.mem_append.mp hx with hx | hx
        · exact Nat.le_succ_of_le (I.permit_seq x hx)
        · rw [List.mem_singleton.mp hx]
      permit_auth := by
        intro x hx
        rcases List.mem_append.mp hx with hx | hx
        · exact I.permit_auth x hx
        · rw [List.mem_singleton.mp hx]
          exact ⟨authorization.2, hmem, Nat.lt_succ_of_le hle⟩
      cells_eq := by simp [History.push, PermitCell.new, I.cells_eq]
      cells_ref := by
        intro ref c hc
        rw [List.getElem?_append] at hc
        split at hc
        · exact I.cells_ref ref c hc
        · rw [List.getElem?_singleton] at hc
          split at hc
          · cases hc
            simp only [PermitCell.new]
            omega
          · cases hc
      inflight_eq := by
        show st.ctx.inflight ++ [(a, _)] =
          ((h.permits ++ [_]).filter (fun q : EffectPermit => q.attemptId ∉ h.releasedAttempts)).map _
        rw [List.filter_append, List.map_append, ← I.inflight_eq,
          List.filter_cons_of_pos (by simpa using hunrel)]
        rfl
      released_iff := by
        intro c hc
        rcases List.mem_append.mp hc with hc | hc
        · exact I.released_iff c hc
        · rw [List.mem_singleton.mp hc]
          simp only [PermitCell.new, Bool.false_eq_true, false_iff]
          exact hunrel
      release_seq := fun t ht => Nat.le_succ_of_le (I.release_seq t ht)
      release_permit := fun t ht =>
        let ⟨q, hq, hqt⟩ := I.release_permit t ht
        ⟨q, List.mem_append_left _ hq, hqt⟩
      unrecorded := by
        intro ref c hc
        rw [List.getElem?_append] at hc
        split at hc
        · exact I.unrecorded ref c hc
        · rename_i hlt
          rw [List.getElem?_singleton] at hc
          split at hc
          · cases hc
            refine ⟨fun hl => (by cases hl), fun _ => ?_⟩
            rw [History.recordsOf, List.filter_eq_nil_iff]
            intro r hr hrr
            have := I.records_ref r hr
            simp only [decide_eq_true_eq] at hrr
            omega
          · cases hc
      records_ref := fun r hr => by
        have := I.records_ref r hr
        simp only [List.length_append, List.length_singleton]
        omega
      before_cancel := fun c hc => by
        rw [show st.ctx.cancellation = some c from hc] at hnone; cases hnone }
  · cases hs

/-- A refused call leaves the state as it was. -/
theorem authorize_none {a : String} {e : Nat} {ctx : RunContext}
    (hs : st.ctx.authorize a e = (none, ctx)) : ctx = st.ctx := by
  unfold RunContext.authorize at hs
  split at hs
  · cases hs; rfl
  · cases hs

theorem issuePermit_none {a : String} {e : Nat} {term : Bool} {gen bud : String} {st' : RunState}
    (hs : st.issuePermit a e term gen bud = (none, st')) : st' = st := by
  unfold RunState.issuePermit RunContext.issuePermit at hs
  split at hs
  · cases hs
  rename_i ctx heq
  cases hs
  split at heq
  · cases heq; rfl
  split at heq
  · cases heq; rfl
  split at heq
  · cases heq; rfl
  split at heq
  · cases heq; rfl
  · cases heq

/-- Replacing a cell by one of the same permit keeps the permits of the heap. -/
theorem map_permit_set {ref : Nat} {c e : PermitCell} (hc : st.cells[ref]? = some c)
    (hp : e.permit = c.permit) :
    (st.cells.set ref e).map (·.permit) = st.cells.map (·.permit) := by
  apply List.ext_getElem?
  intro i
  rw [List.getElem?_map, List.getElem?_map, List.getElem?_set]
  split
  · rename_i hi
    subst hi
    have hlt : ref < st.cells.length := (List.getElem?_eq_some_iff.mp hc).1
    rw [if_pos hlt, hc]
    simp [hp]
  · rfl

/-- What a heap with one replaced cell holds. -/
theorem getElem?_setCell {ref i : Nat} {c e d : PermitCell} (hc : st.cells[ref]? = some c)
    (hi : (st.cells.set ref e)[i]? = some d) :
    (i = ref ∧ d = e) ∨ (i ≠ ref ∧ st.cells[i]? = some d) := by
  have hlt : ref < st.cells.length := (List.getElem?_eq_some_iff.mp hc).1
  rw [List.getElem?_set, if_pos hlt] at hi
  split at hi
  · rename_i hij
    cases hi
    exact Or.inl ⟨hij.symm, rfl⟩
  · rename_i hij
    exact Or.inr ⟨fun e => hij e.symm, hi⟩

/-- A change of a cell that leaves its permit and its flags alone. -/
theorem inv_setCell (I : Inv st h) {ref : Nat} {c e : PermitCell} (hc : st.cells[ref]? = some c)
    (hp : e.permit = c.permit) (hr : e.released = c.released) (hl : e.locked = c.locked) :
    Inv (st.setCell ref e) h :=
  { I with
    cells_eq := (map_permit_set hc hp).trans I.cells_eq
    cells_ref := by
      intro i d hd
      rcases getElem?_setCell hc hd with ⟨rfl, rfl⟩ | ⟨_, hd⟩
      · rw [hp]; exact I.cells_ref i c hc
      · exact I.cells_ref i d hd
    released_iff := by
      intro d hd
      rcases List.mem_or_eq_of_mem_set hd with hd | rfl
      · exact I.released_iff d hd
      · rw [hr, hp]; exact I.released_iff c (List.mem_of_getElem? hc)
    unrecorded := by
      intro i d hd
      rcases getElem?_setCell hc hd with ⟨rfl, rfl⟩ | ⟨_, hd⟩
      · rw [hr, hl]; exact I.unrecorded i c hc
      · exact I.unrecorded i d hd
    records_ref := by simpa using I.records_ref }

/-- The effect of `RunContext._release` for an unreleased permit: the sequence it allocates is
new and the permit leaves the in-flight map, whatever the object looks like afterwards. -/
theorem inv_releaseCell (I : Inv st h) {ref : Nat} {c e : PermitCell}
    (hc : st.cells[ref]? = some c) (hr : c.released = false) (hp : e.permit = c.permit)
    (hr' : e.released = true) :
    ∃ t, (st.ctx.release c.permit.attemptId).1 = some t ∧
      Inv ((⟨(st.ctx.release c.permit.attemptId).2, st.cells⟩ : RunState).setCell ref e)
        (h.push (.released t)) := by
  have hmem : c ∈ st.cells := List.mem_of_getElem? hc
  have hl := I.lookup_cell hmem hr
  have hpm := I.cell_permit hmem
  have hple := I.permit_seq _ hpm
  have hunrel : c.permit.attemptId ∉ h.releasedAttempts := fun hm => by
    have := (I.released_iff c hmem).2 hm
    rw [hr] at this
    cases this
  refine ⟨⟨c.permit.attemptId, c.permit.epoch, c.permit.lifecycleSeq, st.ctx.sequence + 1⟩,
    by simp [RunContext.release, hl], ?_⟩
  unfold RunContext.release
  simp only [hl]
  exact {
    seqs := I.push_seq
    auths_eq := I.auths_eq
    auths_nodup := I.auths_nodup
    auth_seq := fun x hx => Nat.le_succ_of_le (I.auth_seq x hx)
    permitted_eq := I.permitted_eq
    permits_nodup := I.permits_nodup
    permit_seq := fun p hp => Nat.le_succ_of_le (I.permit_seq p hp)
    permit_auth := I.permit_auth
    cells_eq := (map_permit_set hc hp).trans I.cells_eq
    cells_ref := by
      intro i d hd
      rcases getElem?_setCell hc hd with ⟨rfl, rfl⟩ | ⟨_, hd⟩
      · rw [hp]; exact I.cells_ref i c hc
      · exact I.cells_ref i d hd
    inflight_eq := by
      show st.ctx.inflight.filter _ = _
      rw [I.inflight_eq, List.filter_map, List.filter_filter]
      congr 1
      apply List.filter_congr
      intro q _
      simp [History.push, History.releasedAttempts, Bool.and_comm]
    released_iff := by
      intro d hd
      obtain ⟨i, hi⟩ := List.mem_iff_getElem?.mp hd
      simp only [History.push, History.releasedAttempts, List.map_append, List.mem_append]
      rcases getElem?_setCell hc hi with ⟨rfl, rfl⟩ | ⟨hij, hi⟩
      · simp [hr', hp]
      · rw [I.released_iff d (List.mem_of_getElem? hi)]
        have hne := I.cell_attempt_ne hc hi (Ne.symm hij)
        simp [History.releasedAttempts, hne]
    releases_nodup := by
      simp only [History.push, History.releasedAttempts, List.map_append, List.nodup_append]
      refine ⟨I.releases_nodup, by simp, ?_⟩
      rintro x hx y hy rfl
      simp only [List.map_cons, List.map_nil, List.mem_singleton] at hy
      exact hunrel (hy ▸ hx)
    release_seq := by
      intro t ht
      rcases List.mem_append.mp ht with ht | ht
      · exact Nat.le_succ_of_le (I.release_seq t ht)
      · rw [List.mem_singleton.mp ht]
        exact Nat.le_refl _
    release_permit := by
      intro t ht
      rcases List.mem_append.mp ht with ht | ht
      · exact I.release_permit t ht
      · rw [List.mem_singleton.mp ht]
        exact ⟨c.permit, hpm, rfl, rfl, rfl, Nat.lt_succ_of_le hple⟩
    unrecorded := by
      intro i d hd
      rcases getElem?_setCell hc hd with ⟨rfl, rfl⟩ | ⟨_, hd⟩
      · exact ⟨fun _ => hr', fun _ => (I.unrecorded i c hc).2 (Or.inr hr)⟩
      · exact I.unrecorded i d hd
    records_le := I.records_le
    records_ref := by simpa [History.push] using I.records_ref
    cancelled_eq := I.cancelled_eq
    cancels_none := I.cancels_none
    cancels_some := I.cancels_some
    before_cancel := by
      intro d hd
      obtain ⟨h1, h2, h3, h4⟩ := I.before_cancel d hd
      refine ⟨h1, h2, Nat.le_succ_of_le h3, h4.trans ?_⟩
      congr 1
      -- the new release lies after the cancellation: it changes nobody's state at that point
      apply List.filter_congr
      intro q _
      apply decide_eq_decide.mpr
      simp only [History.push, List.mem_append]
      refine and_congr_right fun _ => ⟨fun hq t ht => ?_, fun hq t ht => hq t (Or.inl ht)⟩
      rcases ht with ht | ht
      · exact hq t ht
      · rw [List.mem_singleton.mp ht]
        intro _
        exact Nat.lt_succ_of_le h3 }

/-- The outcome of the audit write of a locked permit. -/
theorem inv_releaseExit (I : Inv st h) {ref : Nat} {c : PermitCell}
    (hc : st.cells[ref]? = some c) (hl : c.locked = true) (ok : Bool) :
    Inv (st.setCell ref { c with locked := false, releaseFailed := !ok })
      (h.push (.recorded ref ok)) := by
  obtain ⟨hrel, hrec⟩ := I.unrecorded ref c hc
  have hlt : ref < st.cells.length := (List.getElem?_eq_some_iff.mp hc).1
  have hsplit : ∀ i, (h.push (.recorded ref ok)).recordsOf i =
      h.recordsOf i ++ if ref = i then [(ref, ok)] else [] := by
    intro i
    simp only [History.push, History.recordsOf, List.filter_append, List.filter_cons,
      List.filter_nil, decide_eq_true_eq]
  exact {
    I with
    cells_eq := (map_permit_set (e := { c with locked := false, releaseFailed := !ok })
      hc rfl).trans I.cells_eq
    cells_ref := by
      intro i d hd
      rcases getElem?_setCell hc hd with ⟨rfl, rfl⟩ | ⟨_, hd⟩
      · exact I.cells_ref i c hc
      · exact I.cells_ref i d hd
    released_iff := by
      intro d hd
      rcases List.mem_or_eq_of_mem_set hd with hd | rfl
      · exact I.released_iff d hd
      · exact I.released_iff c (List.mem_of_getElem? hc)
    unrecorded := by
      intro i d hd
      rcases getElem?_setCell hc hd with ⟨rfl, rfl⟩ | ⟨hij, hd⟩
      · refine ⟨fun hf => (by cases hf), ?_⟩
        rintro (hf | hf)
        · cases hf
        · rw [show _ = false from hf] at hrel
          exact absurd (hrel hl) (by simp)
      · rw [hsplit i, if_neg (Ne.symm hij), List.append_nil]
        exact I.unrecorded i d hd
    records_le := by
      intro i
      rw [hsplit i]
      split
      · rename_i hi
        subst hi
        rw [hrec (Or.inl hl)]
        simp
      · simpa using I.records_le i
    records_ref := by
      intro r hr
      simp only [RunState.setCell_cells, List.length_set]
      rcases List.mem_append.mp hr with hr | hr
      · exact I.records_ref r hr
      · rw [List.mem_singleton.mp hr]
        exact hlt }

theorem inv_cancel (I : Inv st h) {now : ℚ} {t : CancellationTransition} {ctx : RunContext}
    (hs : st.ctx.cancel now = (t, ctx)) :
    Inv { st with ctx := ctx } (h.push (.cancelled t)) := by
  unfold RunContext.cancel at hs
  split at hs
  · -- a repeated `cancel()` only returns the first transition again
    rename_i prior hprior
    cases hs
    obtain ⟨hnew, hmem, hall⟩ := I.cancels_some prior hprior
    exact {
      I with
      seqs := I.seqs
      cancels_none := fun hn => by rw [show st.ctx.cancellation = none from hn] at hprior; cases hprior
      cancels_some := by
        intro c hc
        have hcp : prior = c := Option.some.inj (hprior.symm.trans hc)
        subst hcp
        refine ⟨hnew, List.mem_append_left _ hmem, fun t ht => ?_⟩
        rcases List.mem_append.mp ht with ht | ht
        · exact hall t ht
        · rw [List.mem_singleton.mp ht]
          exact hall prior hmem }
  · rename_i hnone
    cases hs
    have hcs := I.cancels_none hnone
    exact {
      I with
      seqs := I.push_seq
      auth_seq := fun x hx => Nat.le_succ_of_le (I.auth_seq x hx)
      permit_seq := fun p hp => Nat.le_succ_of_le (I.permit_seq p hp)
      release_seq := fun t ht => Nat.le_succ_of_le (I.release_seq t ht)
      cancelled_eq := rfl
      cancels_none := fun hn => by cases hn
      cancels_some := by
        intro c hc
        cases hc
        refine ⟨rfl, by simp [History.push], ?_⟩
        intro t ht
        simp only [History.push, hcs, List.nil_append, List.mem_singleton] at ht
        rw [ht]
      before_cancel := by
        intro c hc
        cases hc
        refine ⟨fun a ha => Nat.lt_succ_of_le (I.auth_seq a ha),
          fun p hp => Nat.lt_succ_of_le (I.permit_seq p hp), Nat.le_refl _, ?_⟩
        -- every sequence so far is below the new one: in flight now = in flight at it
        have hfil : h.permits.filter (h.inflightAt (st.ctx.sequence + 1)) =
            h.permits.filter (fun p => p.attemptId ∉ h.releasedAttempts) := by
          apply List.filter_congr
          intro p hp
          simp only [History.inflightAt, History.releasedAttempts, List.mem_map, not_exists,
            not_and, decide_eq_decide]
          constructor
          · rintro ⟨_, hall⟩ t ht hta
            have h1 := hall t ht hta
            have h2 := I.release_seq t ht
            omega
          · intro hall
            exact ⟨Nat.lt_succ_of_le (I.permit_seq p hp), fun t ht hta => absurd hta (hall t ht)⟩
        show st.ctx.inflight.length = (h.permits.filter (h.inflightAt _)).length
        rw [hfil, I.inflight_eq, List.length_map] }

/-! ## Every run -/

/-- **Each operation keeps the invariant.** -/
theorem step_inv (I : Inv st h) {op : Op} {ev : Event} {st' : RunState}
    (hs : step st op = some (ev, st')) : Inv st' (h.push ev) := by
  cases op with
  | authorize a e =>
    simp only [step] at hs
    split at hs
    · rename_i s ctx heq; cases hs; exact inv_authorize I heq
    · rename_i ctx heq; cases hs; rw [authorize_none heq]; exact I
  | issuePermit a e term gen bud =>
    simp only [step] at hs
    split at hs
    · rename_i p st₁ heq; cases hs; exact inv_issuePermit I heq
    · rename_i st₁ heq; cases hs; rw [issuePermit_none heq]; exact I
  | bindDurableRelease ref conn =>
    simp only [step, RunState.bindDurableRelease] at hs
    split at hs
    · cases hs
    rename_i c hc
    split at hs
    · cases hs
    split at hs
    · cases hs; exact I
    · cases hs; exact inv_setCell I hc rfl rfl rfl
  | release ref =>
    simp only [step, RunState.releaseEnter] at hs
    split at hs
    · cases hs
    rename_i c hc
    split at hs
    · cases hs
    split at hs
    · cases hs; exact I
    rename_i hnr
    rw [Bool.not_eq_true] at hnr
    split at hs
    · rename_i t ctx connId hrel _
      cases hs
      obtain ⟨t', ht', I'⟩ := inv_releaseCell I hc hnr
        (e := { c with released := true, releaseTransition := some t, locked := true }) rfl rfl
      rw [hrel] at ht' I'
      cases ht'
      exact I'
    · rename_i transition ctx hrel _
      cases hs
      obtain ⟨t', ht', I'⟩ := inv_releaseCell I hc hnr
        (e := { c with released := true, releaseTransition := transition }) rfl rfl
      rw [hrel] at ht' I'
      cases ht'
      exact I'
  | releaseWrite ref ok =>
    simp only [step, RunState.releaseExit] at hs
    split at hs
    · cases hs
    rename_i c hc
    split at hs
    · rename_i hl; cases hs; exact inv_releaseExit I hc hl ok
    · cases hs
  | abandonUndurable ref =>
    simp only [step, RunState.abandonUndurable] at hs
    split at hs
    · cases hs
    rename_i c hc
    split at hs
    · cases hs
    split at hs
    · cases hs; exact I
    rename_i hnr
    rw [Bool.not_eq_true] at hnr
    cases hs
    obtain ⟨t', ht', I'⟩ := inv_releaseCell I hc hnr
      (e := { c with
        released := true
        releaseTransition := (st.ctx.release c.permit.attemptId).1 }) rfl rfl
    simp only [ht', Event.ofRelease] at I' ⊢
    exact I'
  | cancel now =>
    simp only [step] at hs
    cases hs
    exact inv_cancel I rfl

end

/-- **Every run keeps the invariant.** -/
theorem execute_inv : ∀ (ops : List Op) {st st' : RunState} {h h' : History}, Inv st h →
    execute ops st h = some (st', h') → Inv st' h'
  | [], st, st', h, h', I, he => by cases he; exact I
  | op :: ops, st, st', h, h', I, he => by
    simp only [execute] at he
    split at he
    · cases he
    · rename_i ev st₁ hs
      exact execute_inv ops (step_inv I hs) he

/-- After `cancel()` an operation authorizes nothing and the in-flight map only loses entries. -/
theorem step_cancelled {st st' : RunState} {op : Op} {ev : Event}
    (hc : st.ctx.cancelled = true) (hs : step st op = some (ev, st')) :
    st'.ctx.cancelled = true ∧ st'.ctx.inflight.Sublist st.ctx.inflight := by
  have hrelease : ∀ a, (st.ctx.release a).2.cancelled = true ∧
      (st.ctx.release a).2.inflight.Sublist st.ctx.inflight := by
    intro a
    unfold RunContext.release
    split
    · exact ⟨hc, List.Sublist.refl _⟩
    · exact ⟨hc, List.filter_sublist⟩
  cases op with
  | authorize a e =>
    simp only [step, RunContext.authorize, hc, true_or, if_true] at hs
    cases hs
    exact ⟨hc, List.Sublist.refl _⟩
  | issuePermit a e term gen bud =>
    simp only [step, RunState.issuePermit, RunContext.issuePermit, hc, true_or, if_true] at hs
    cases hs
    exact ⟨hc, List.Sublist.refl _⟩
  | bindDurableRelease ref conn =>
    simp only [step, RunState.bindDurableRelease] at hs
    split at hs
    · cases hs
    split at hs
    · cases hs
    split at hs <;> cases hs <;> exact ⟨hc, List.Sublist.refl _⟩
  | release ref =>
    simp only [step, RunState.releaseEnter] at hs
    split at hs
    · cases hs
    rename_i c _
    split at hs
    · cases hs
    split at hs
    · cases hs
      exact ⟨hc, List.Sublist.refl _⟩
    have hr := hrelease c.permit.attemptId
    split at hs
    · rename_i hrel _
      cases hs
      rw [hrel] at hr
      exact hr
    · rename_i hrel _
      cases hs
      rw [hrel] at hr
      exact hr
  | releaseWrite ref ok =>
    simp only [step, RunState.releaseExit] at hs
    split at hs
    · cases hs
    split at hs <;> cases hs
    exact ⟨hc, List.Sublist.refl _⟩
  | abandonUndurable ref =>
    simp only [step, RunState.abandonUndurable] at hs
    split at hs
    · cases hs
    rename_i c _
    split at hs
    · cases hs
    split at hs
    · cases hs
      exact ⟨hc, List.Sublist.refl _⟩
    · cases hs
      exact hrelease c.permit.attemptId
  | cancel now =>
    simp only [step, RunContext.cancel] at hs
    cases hs
    split
    · exact ⟨hc, List.Sublist.refl _⟩
    · exact ⟨rfl, List.Sublist.refl _⟩

theorem execute_cancelled : ∀ (ops : List Op) {st st' : RunState} {h h' : History},
    st.ctx.cancelled = true → execute ops st h = some (st', h') →
    st'.ctx.inflight.Sublist st.ctx.inflight
  | [], _, _, _, _, _, he => by cases he; exact List.Sublist.refl _
  | op :: ops, st, st', h, h', hc, he => by
    simp only [execute] at he
    split at he
    · cases he
    · rename_i ev st₁ hs
      obtain ⟨hc₁, hsub⟩ := step_cancelled hc hs
      exact (execute_cancelled ops hc₁ he).trans hsub

/-- Entries of a list with distinct keys that share a key are one entry. -/
theorem length_filter_key_le {α : Type} {f : α → String} :
    ∀ {l : List α} (_ : (l.map f).Nodup) (a : String), (l.filter (fun x => f x = a)).length ≤ 1
  | [], _, _ => by simp
  | x :: l, hnd, a => by
    rw [List.map_cons, List.nodup_cons] at hnd
    rw [List.filter_cons]
    split
    · rename_i hx
      have hnil : l.filter (fun y => decide (f y = a)) = [] := by
        rw [List.filter_eq_nil_iff]
        intro y hy hya
        rw [decide_eq_true_eq] at hx hya
        exact hnd.1 (List.mem_map.mpr ⟨y, hy, hya.trans hx.symm⟩)
      rw [hnil]
      simp
    · exact length_filter_key_le hnd.2 a

/-- **The global sequence equations.**  For every interleaving of `authorize`, `issue_permit`,
`release`, `abandon_undurable` and `cancel` on a fresh `RunContext`, with any outcome of the
`PERMIT_RELEASED` writes. -/
theorem lifecycle_order (ops : List Op) {st : RunState} {h : History}
    (hrun : execute ops RunState.fresh History.empty = some (st, h)) :
    -- the numbers handed out are positive and pairwise distinct
    (h.sequences.Nodup ∧ ∀ n ∈ h.sequences, 0 < n) ∧
    -- one A, one P and one R for each attempt, in this order
    (∀ a, (h.auths.filter (fun x => x.1 = a)).length ≤ 1 ∧
      (h.permits.filter (fun p => p.attemptId = a)).length ≤ 1 ∧
      (h.releases.filter (fun t => t.attemptId = a)).length ≤ 1) ∧
    (∀ p ∈ h.permits, ∃ x ∈ h.auths, x.1 = p.attemptId ∧ x.2 < p.lifecycleSeq) ∧
    (∀ t ∈ h.releases, ∃ p ∈ h.permits, p.attemptId = t.attemptId ∧
      p.lifecycleSeq = t.permitSeq ∧ p.lifecycleSeq < t.lifecycleSeq) ∧
    -- cancellation
    (∀ c ∈ h.cancels,
      (∀ x ∈ h.auths, x.2 < c.lifecycleSeq) ∧ (∀ p ∈ h.permits, p.lifecycleSeq < c.lifecycleSeq) ∧
      (∀ d ∈ h.cancels, d.cancelledEpoch = c.cancelledEpoch ∧ d.newEpoch = c.newEpoch ∧
        d.lifecycleSeq = c.lifecycleSeq ∧
        d.inflightAtLinearization = c.inflightAtLinearization) ∧
      c.inflightAtLinearization = (h.permits.filter (h.inflightAt c.lifecycleSeq)).length ∧
      ∀ more st' h', execute more st h = some (st', h') →
        st'.ctx.inflight.Sublist st.ctx.inflight) ∧
    -- one release record for each permit, and the permit is gone whether or not it was written
    (∀ ref, (h.recordsOf ref).length ≤ 1) ∧
    (∀ r ∈ h.records, ∀ e ∈ st.ctx.inflight, e.2.ref ≠ r.1) := by
  have I := execute_inv ops inv_fresh hrun
  refine ⟨⟨?_, ?_⟩, ?_, ?_, ?_, ?_, I.records_le, ?_⟩
  · rw [I.seqs]; exact List.nodup_range'
  · intro n hn
    rw [I.seqs, List.mem_range'_1] at hn
    omega
  · intro a
    exact ⟨length_filter_key_le I.auths_nodup a, length_filter_key_le I.permits_nodup a,
      length_filter_key_le I.releases_nodup a⟩
  · intro p hp
    obtain ⟨s, hs, hlt⟩ := I.permit_auth p hp
    exact ⟨(p.attemptId, s), hs, rfl, hlt⟩
  · intro t ht
    obtain ⟨p, hp, h1, _, h3, h4⟩ := I.release_permit t ht
    exact ⟨p, hp, h1, h3, h4⟩
  · intro c hc
    cases hcan : st.ctx.cancellation with
    | none =>
      rw [I.cancels_none hcan] at hc
      cases hc
    | some c₀ =>
      obtain ⟨_, _, hall⟩ := I.cancels_some c₀ hcan
      obtain ⟨hA, hP, _, hcount⟩ := I.before_cancel c₀ hcan
      have hcancelled : st.ctx.cancelled = true := by rw [I.cancelled_eq, hcan]; rfl
      have e := hall c hc
      subst e
      refine ⟨hA, hP, fun d hd => ?_, hcount, fun more st' h' => execute_cancelled more hcancelled⟩
      have hd' := hall d hd
      simp only [CancellationTransition.mk.injEq] at hd'
      exact ⟨hd'.1, hd'.2.1, hd'.2.2.1, hd'.2.2.2.1⟩
  · rintro ⟨ref, ok⟩ hr ⟨a, p⟩ he href
    obtain ⟨hp, rfl, hunrel⟩ := I.mem_inflight.1 he
    rw [← I.cells_eq] at hp
    obtain ⟨c, hc, rfl⟩ := List.mem_map.mp hp
    obtain ⟨i, hi⟩ := List.mem_iff_getElem?.mp hc
    have hii : i = ref := (I.cells_ref i c hi).symm.trans href
    subst hii
    -- a permit with a write attempt is released, so it cannot be in flight
    have hrel : c.released = false := by
      cases hb : c.released with
      | false => rfl
      | true => exact absurd ((I.released_iff c hc).1 hb) hunrel
    have hnil := (I.unrecorded i c hi).2 (Or.inr hrel)
    rw [History.recordsOf, List.filter_eq_nil_iff] at hnil
    exact hnil _ hr (by simp)

/-- A schedule in which the release record fails after the cancellation, followed by a second
`release()` and a second `cancel()`. -/
def failedRelease : List Op :=
  [.authorize "att-1" 0, .issuePermit "att-1" 0 false "g" "b", .authorize "att-2" 0,
    .bindDurableRelease 0 "conn-1", .cancel 0, .release 0, .releaseWrite 0 false,
    .issuePermit "att-2" 0 false "g" "b", .release 0, .cancel 1]

theorem lifecycle_order_failedRelease :
    ∃ r, execute failedRelease RunState.fresh History.empty = some r ∧
      r.2.sequences = [1, 2, 3, 4, 5] ∧ r.2.records = [(0, false)] ∧ r.1.ctx.inflight = [] ∧
      r.2.cancels.map (·.inflightAtLinearization) = [1, 1] ∧ (r.2.recordsOf 0).length ≤ 1 := by
  have hs : (execute failedRelease RunState.fresh History.empty).isSome = true := by decide
  have he : execute failedRelease RunState.fresh History.empty =
      some ((execute failedRelease RunState.fresh History.empty).get hs) := (Option.some_get hs).symm
  refine ⟨_, he, rfl, rfl, rfl, rfl, ?_⟩
  exact (lifecycle_order failedRelease he).2.2.2.2.2.1 0

end StrixPEP.Lifecycle
