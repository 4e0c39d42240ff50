import StrixPEP.Gateway.Registry

/-!
# Kill enforcement

Any number of threads run any sequences of `add`, `remove`, `track_or_reject`, `transfer` and
`terminate` (`KillOp`), and thread 0 runs one `terminate_all` up to `on_linearized`.

* `NetInv` — what holds of the connections and of the events in every state;
* `netProtocol` — the protocol of these threads: the kill and the linearization belong to
  thread 0, a terminal connection keeps its sockets, a closed socket stays closed;
* `wp_terminateAll`, `wp_script` — each thread follows it;
* `reach_kill` — the step that sets the kill flag takes the snapshot of what is registered;
* `kill_enforced` — what holds once `on_linearized` has been invoked.
-/

namespace StrixPEP

open Threads

namespace KillSwitch

/-- The operations of the other threads. -/
inductive KillOp where
  | add (conn : String)
  | remove (conn : String)
  | track (conn : String) (sock : Nat)
  | transfer (conn : String) (old new : Nat)
  | terminate (conn : String)
  | close (sock : Nat)
  deriving DecidableEq, Repr

open NetProg in
def KillOp.program : KillOp → NetProg Unit
  | .add c => do
    let _ ← issue (.add c)
  | .remove c => do
    let _ ← issue (.remove c)
  | .track c sock => do
    let ok ← trackOrReject c sock
    let _ ← issue (.answer c sock ok)
  | .transfer c old new => do
    let ok ← NetProg.transfer c old new
    let _ ← issue (.answer c new ok)
  | .terminate c => do
    let _ ← NetProg.terminate c
  | .close sock => do
    let _ ← issue (.close sock)

def script : List KillOp → NetProg Unit
  | [] => return ()
  | op :: ops => do
    op.program
    script ops

/-- `terminate_all` up to the invocation of `on_linearized`. -/
def terminateAll : NetProg Unit := do
  let (torn, victims) ← NetProg.enforce
  let _ ← NetProg.issue (.linearized torn victims)

/-- The shared connections as a machine. -/
def netMachine : Machine NetCmd NetCmd.Resp Net := ⟨Net.exec⟩

/-! ## The invariant -/

/-- What holds of the victims when `on_linearized` is invoked. -/
structure Enforced (n : Net) (torn victims : List String) : Prop where
  killed : .killed victims ∈ n.events
  victims : ∀ c ∈ victims, (n.lifecycles c).terminal = true ∧
    ∀ s ∈ (n.lifecycles c).sockets, n.closed s = true
  torn : ∀ c, c ∈ torn ↔ ∃ s, .shutdown 0 c s true ∈ n.events

structure NetInv (n : Net) : Prop where
  conns_nodup : n.registry.conns.Nodup
  killed_iff : n.registry.killed = true ↔ ∃ v, .killed v ∈ n.events
  noAdd : n.events.Pairwise fun x y => ∀ v i c, x = .killed v → y ≠ .added i c true
  marked_iff : ∀ c, (n.lifecycles c).terminal = true ↔ ∃ i, .marked i c ∈ n.events
  noAccept : n.events.Pairwise fun x y => ∀ i j c s, x = .marked i c → y ≠ .offered j c s true
  accepted : ∀ i c s, .offered i c s true ∈ n.events → s ∈ (n.lifecycles c).sockets
  refused : n.events.Pairwise fun x y => ∀ i c s c' s' ok, x = .offered i c s false →
    y = .answered i c' s' ok → n.closed s = true
  enforced : ∀ torn victims, .linearized torn victims ∈ n.events → Enforced n torn victims
  linearizedLast : n.events.Pairwise fun x y => ∀ t v,
    x = .linearized t v → (∀ w, y ≠ .killed w) ∧ ∀ c s, y ≠ .shutdown 0 c s true
  markedFirst : ∀ pre post t v, n.events = pre ++ .linearized t v :: post →
    .killed v ∈ pre ∧ ∀ c ∈ v, ∃ i, .marked i c ∈ pre

theorem netInv_fresh (m : Nat) : NetInv (Net.fresh m) := by
  constructor <;> simp [Net.fresh, Registry.fresh, ConnectionLifecycle.fresh]

theorem pairwise_push {α : Type} {R : α → α → Prop} {l : List α} {e : α} (h : l.Pairwise R)
    (he : ∀ x ∈ l, R x e) : (l ++ [e]).Pairwise R := by
  rw [List.pairwise_append]
  exact ⟨h, by simp, fun x hx y hy => by cases List.mem_singleton.1 hy; exact he x hx⟩

theorem append_singleton_split {α : Type} {l pre post : List α} {e x : α}
    (h : l ++ [e] = pre ++ x :: post) :
    (∃ post', l = pre ++ x :: post' ∧ post = post' ++ [e]) ∨ (l = pre ∧ x = e ∧ post = []) := by
  rcases List.eq_nil_or_concat post with rfl | ⟨post', y, rfl⟩
  · obtain ⟨h1, h2⟩ := List.append_inj' h rfl
    exact Or.inr ⟨h1, (List.cons.inj h2).1.symm, rfl⟩
  · rw [List.concat_eq_append] at h ⊢
    rw [← List.cons_append, ← List.append_assoc] at h
    obtain ⟨h1, h2⟩ := List.append_inj' h rfl
    cases h2
    exact Or.inl ⟨post', h1, rfl⟩

section Push

variable {n : Net}

/-- Recording one more event, other than the kill and a mark. -/
theorem NetInv.push (I : NetInv n) {e : NetEvent} (hk : ∀ v, e ≠ .killed v)
    (hm : ∀ i c, e ≠ .marked i c) (ha : ∀ i c, e = .added i c true → n.registry.killed = false)
    (ho : ∀ i c s, e = .offered i c s true →
      s ∈ (n.lifecycles c).sockets ∧ ∀ j, .marked j c ∉ n.events)
    (hr : ∀ i c s ok, e = .answered i c s ok →
      ∀ d t, .offered i d t false ∈ n.events → n.closed t = true)
    (hl : ∀ t v, e = .linearized t v → Enforced n t v)
    (hs : ∀ c s, e = .shutdown 0 c s true → ∀ t v, .linearized t v ∉ n.events) :
    NetInv (n.push e) where
  conns_nodup := I.conns_nodup
  killed_iff := by
    simp only [Net.push, List.mem_append, List.mem_singleton]
    rw [I.killed_iff]
    constructor
    · rintro ⟨v, hv⟩
      exact ⟨v, Or.inl hv⟩
    · rintro ⟨v, hv | hv⟩
      · exact ⟨v, hv⟩
      · exact absurd hv.symm (hk v)
  noAdd := by
    refine pairwise_push I.noAdd fun x hx v i c hxv hec => ?_
    have := I.killed_iff.2 ⟨v, hxv ▸ hx⟩
    rw [ha i c hec] at this
    cases this
  marked_iff := by
    intro c
    simp only [Net.push, List.mem_append, List.mem_singleton]
    rw [I.marked_iff]
    constructor
    · rintro ⟨i, hi⟩
      exact ⟨i, Or.inl hi⟩
    · rintro ⟨i, hi | hi⟩
      · exact ⟨i, hi⟩
      · exact absurd hi.symm (hm i c)
  noAccept := by
    refine pairwise_push I.noAccept fun x hx i j c s hxm hec => ?_
    exact (ho j c s hec).2 i (hxm ▸ hx)
  accepted := by
    intro i c s h
    rcases List.mem_append.1 h with h | h
    · exact I.accepted i c s h
    · exact (ho i c s (List.mem_singleton.1 h).symm).1
  refused := by
    refine pairwise_push I.refused fun x hx i c s d t ok hxo hea => ?_
    exact hr i d t ok hea c s (hxo ▸ hx)
  enforced := by
    intro t v h
    have hE : Enforced n t v := by
      rcases List.mem_append.1 h with h | h
      · exact I.enforced t v h
      · exact hl t v (List.mem_singleton.1 h).symm
    refine ⟨List.mem_append_left _ hE.killed, hE.victims, fun c => ?_⟩
    rw [hE.torn]
    constructor
    · rintro ⟨s, h⟩
      exact ⟨s, List.mem_append_left _ h⟩
    · rintro ⟨s, h'⟩
      rcases List.mem_append.1 h' with h' | h'
      · exact ⟨s, h'⟩
      · have he := (List.mem_singleton.1 h').symm
        rcases List.mem_append.1 h with h | h
        · exact absurd h (hs c s he t v)
        · rw [← List.mem_singleton.1 h] at he
          cases he
  linearizedLast := by
    refine pairwise_push I.linearizedLast fun x hx t v hxl => ⟨hk, fun c s he => ?_⟩
    exact hs c s he t v (hxl ▸ hx)
  markedFirst := by
    intro pre post t v h
    rcases append_singleton_split h with ⟨post', h', -⟩ | ⟨rfl, he, -⟩
    · exact I.markedFirst pre post' t v h'
    · have hE := hl t v he.symm
      exact ⟨hE.killed, fun c hc => (I.marked_iff c).1 (hE.victims c hc).1⟩

/-- A lifecycle that is not terminal takes more sockets. -/
theorem NetInv.grow (I : NetInv n) {c : String} {l : ConnectionLifecycle}
    (ht : (n.lifecycles c).terminal = false) (hl : l.terminal = false)
    (hs : (n.lifecycles c).sockets ⊆ l.sockets) : NetInv (n.setLifecycle c l) := by
  have hterm : ∀ d, ((n.setLifecycle c l).lifecycles d).terminal = (n.lifecycles d).terminal := by
    intro d
    by_cases hd : d = c
    · subst hd; simp [Net.setLifecycle, hl, ht]
    · simp [Net.setLifecycle, hd]
  have hsock : ∀ d, (n.lifecycles d).sockets ⊆ ((n.setLifecycle c l).lifecycles d).sockets := by
    intro d
    by_cases hd : d = c
    · subst hd; simpa [Net.setLifecycle] using hs
    · simp [Net.setLifecycle, hd]
  exact {
    I with
    marked_iff := fun d => by rw [hterm]; exact I.marked_iff d
    accepted := fun i d s h => hsock d (I.accepted i d s h)
    enforced := by
      intro t v h
      have hE := I.enforced t v h
      refine { hE with victims := fun d hd => ?_ }
      obtain ⟨h1, h2⟩ := hE.victims d hd
      have hne : d ≠ c := by
        rintro rfl
        rw [ht] at h1
        cases h1
      simpa [Net.setLifecycle, hne] using And.intro h1 h2 }

end Push

/-! ## The protocol -/

/-- What a thread establishes before a step. -/
def NetReq (i : Nat) : NetCmd → Net → Prop
  | .kill, n => i = 0 ∧ n.registry.killed = false
  | .linearized torn victims, n => i = 0 ∧ Enforced n torn victims
  | .shutdown _ _, n => i = 0 → ∀ t v, .linearized t v ∉ n.events
  | .answer _ _ _, n => ∀ c s, .offered i c s false ∈ n.events → n.closed s = true
  | _, _ => True

/-- The events that only thread `i` records. -/
def Owned (i : Nat) : NetEvent → Prop
  | .killed _ | .linearized _ _ => i = 0
  | .shutdown j _ _ _ | .offered j _ _ _ => i = j
  | _ => False

/-- What the other threads may do to the connections. -/
structure NetRely (i : Nat) (n n' : Net) : Prop where
  terminal : ∀ c, (n.lifecycles c).terminal = true → (n'.lifecycles c) = n.lifecycles c
  sockets : ∀ c, (n.lifecycles c).sockets ⊆ (n'.lifecycles c).sockets
  closed : ∀ s, n.closed s = true → n'.closed s = true
  killed : i = 0 → n'.registry.killed = n.registry.killed
  mine : ∀ e, Owned i e → (e ∈ n'.events ↔ e ∈ n.events)

theorem NetRely.refl (i : Nat) (n : Net) : NetRely i n n :=
  ⟨fun _ _ => rfl, fun _ => List.Subset.refl _, fun _ h => h, fun _ => rfl, fun _ _ => Iff.rfl⟩

theorem NetRely.trans {i : Nat} {n n' n'' : Net} (h : NetRely i n n') (h' : NetRely i n' n'') :
    NetRely i n n'' where
  terminal c hc := by
    have h1 := h.terminal c hc
    rw [h'.terminal c (by rw [h1]; exact hc), h1]
  sockets c := List.Subset.trans (h.sockets c) (h'.sockets c)
  closed s hs := h'.closed s (h.closed s hs)
  killed hi := (h'.killed hi).trans (h.killed hi)
  mine e he := (h'.mine e he).trans (h.mine e he)

section Step

variable {i : Nat} {n n' : Net}

theorem not_marked (I : NetInv n) {c : String} (h : (n.lifecycles c).terminal = false) :
    ∀ j, .marked j c ∉ n.events := by
  intro j hj
  have := (I.marked_iff c).2 ⟨j, hj⟩
  rw [h] at this
  cases this

theorem setLifecycle_self (n : Net) (c : String) : n.setLifecycle c (n.lifecycles c) = n := by
  simp [Net.setLifecycle]

/-- The lock section of `track_or_reject` or `transfer`. -/
theorem inv_offer (I : NetInv n) {c : String} {sock : Nat} {ok : Bool} {l : ConnectionLifecycle}
    (h : (n.lifecycles c).terminal = true ∧ ok = false ∧ l = n.lifecycles c ∨
      (n.lifecycles c).terminal = false ∧ ok = true ∧ l.terminal = false ∧
        (n.lifecycles c).sockets ⊆ l.sockets ∧ sock ∈ l.sockets) :
    NetInv ((n.setLifecycle c l).push (.offered i c sock ok)) := by
  rcases h with ⟨-, rfl, rfl⟩ | ⟨ht, rfl, hl, hs, hsock⟩
  · rw [setLifecycle_self]
    exact I.push (by simp) (by simp) (by simp) (by simp) (by simp) (by simp) (by simp)
  · refine (I.grow ht hl hs).push (by simp) (by simp) (by simp) ?_ (by simp) (by simp) (by simp)
    rintro j d s ⟨⟩
    exact ⟨by simpa [Net.setLifecycle] using hsock, not_marked I ht⟩

theorem track_cases (l : ConnectionLifecycle) (sock : Nat) :
    l.terminal = true ∧ (l.track sock).1 = false ∧ (l.track sock).2 = l ∨
      l.terminal = false ∧ (l.track sock).1 = true ∧ (l.track sock).2.terminal = false ∧
        l.sockets ⊆ (l.track sock).2.sockets ∧ sock ∈ (l.track sock).2.sockets := by
  unfold ConnectionLifecycle.track
  cases hl : l.terminal <;> simp [hl]

theorem transfer_cases (l : ConnectionLifecycle) (old new : Nat) :
    l.terminal = true ∧ (l.transfer old new).1 = false ∧ (l.transfer old new).2 = l ∨
      l.terminal = false ∧ (l.transfer old new).1 = true ∧
        (l.transfer old new).2.terminal = false ∧
        l.sockets ⊆ (l.transfer old new).2.sockets ∧ new ∈ (l.transfer old new).2.sockets := by
  unfold ConnectionLifecycle.transfer
  cases hl : l.terminal
  · by_cases h : old ∈ l.sockets <;> simp [h]
  · simp

/-- Marking a connection terminal. -/
theorem inv_mark (I : NetInv n) (c : String) :
    NetInv ((n.setLifecycle c { n.lifecycles c with terminal := true }).push (.marked i c)) where
  conns_nodup := I.conns_nodup
  killed_iff := by
    simpa [Net.push, Net.setLifecycle] using I.killed_iff
  noAdd := pairwise_push I.noAdd (by simp)
  marked_iff := by
    intro d
    by_cases hd : d = c
    · subst hd
      simp only [Net.push, Net.setLifecycle, Function.update_self, true_iff]
      exact ⟨i, by simp⟩
    · simp only [Net.push, Net.setLifecycle, Function.update_of_ne hd, List.mem_append,
        List.mem_singleton, NetEvent.marked.injEq, hd, and_false, or_false]
      exact I.marked_iff d
  noAccept := pairwise_push I.noAccept (by simp)
  accepted := by
    intro j d s h
    have h' : .offered j d s true ∈ n.events := by simpa [Net.push, Net.setLifecycle] using h
    have := I.accepted j d s h'
    by_cases hd : d = c
    · subst hd; simpa [Net.push, Net.setLifecycle] using this
    · simpa [Net.push, Net.setLifecycle, hd] using this
  refused := pairwise_push I.refused (by simp)
  enforced := by
    intro t v h
    have h' : .linearized t v ∈ n.events := by simpa [Net.push, Net.setLifecycle] using h
    have hE := I.enforced t v h'
    refine ⟨by simpa [Net.push, Net.setLifecycle] using hE.killed, fun d hd => ?_, fun d => ?_⟩
    · have := hE.victims d hd
      by_cases hdc : d = c
      · subst hdc; simpa [Net.push, Net.setLifecycle] using this.2
      · simpa [Net.push, Net.setLifecycle, hdc] using this
    · simpa [Net.push, Net.setLifecycle] using hE.torn d
  linearizedLast := pairwise_push I.linearizedLast (by simp)
  markedFirst := by
    intro pre post t v h
    rcases append_singleton_split h with ⟨post', h', -⟩ | ⟨-, he, -⟩
    · exact I.markedFirst pre post' t v h'
    · cases he

/-- The lock section of `terminate_all`. -/
theorem inv_kill (I : NetInv n) (hk : n.registry.killed = false) :
    NetInv (Net.push { n with registry := n.registry.kill.2 } (.killed n.registry.conns)) := by
  have hnone : ∀ t v, .linearized t v ∉ n.events := by
    intro t v h
    have := I.killed_iff.2 ⟨v, (I.enforced t v h).killed⟩
    rw [hk] at this
    cases this
  exact {
    conns_nodup := List.nodup_nil
    killed_iff := by simp [Net.push, Registry.kill]
    noAdd := pairwise_push I.noAdd (by simp)
    marked_iff := by simpa [Net.push] using I.marked_iff
    noAccept := pairwise_push I.noAccept (by simp)
    accepted := by simpa [Net.push] using I.accepted
    refused := pairwise_push I.refused (by simp)
    enforced := by
      intro t v h
      exact absurd (by simpa [Net.push] using h) (hnone t v)
    linearizedLast := pairwise_push I.linearizedLast fun x hx t v hxl =>
      absurd (hxl ▸ hx) (hnone t v)
    markedFirst := by
      intro pre post t v h
      rcases append_singleton_split h with ⟨post', h', -⟩ | ⟨-, he, -⟩
      · exact I.markedFirst pre post' t v h'
      · cases he }

theorem inv_step {c : NetCmd} {r : c.Resp} (I : NetInv n) (hreq : NetReq i c n)
    (he : Net.exec i c n r = some n') : NetInv n' := by
  cases c with
  | add c =>
    obtain ⟨hr, rfl⟩ := Net.exec_add he
    unfold Registry.add
    split
    · exact I.push (by simp) (by simp) (by simp) (by simp) (by simp) (by simp) (by simp)
    · rename_i hk
      have hgrow : NetInv { n with registry := { n.registry with
          conns := if c ∈ n.registry.conns then n.registry.conns else n.registry.conns ++ [c] } } :=
        { I with
          conns_nodup := by
            show (if c ∈ n.registry.conns then n.registry.conns else n.registry.conns ++ [c]).Nodup
            split
            · exact I.conns_nodup
            · rename_i hc
              rw [List.nodup_append]
              exact ⟨I.conns_nodup, by simp, fun x hx y hy => by
                cases List.mem_singleton.1 hy
                rintro rfl
                exact hc hx⟩
          enforced := fun t v h => { I.enforced t v h with } }
      exact hgrow.push (by simp) (by simp) (fun _ _ _ => by simpa using hk) (by simp) (by simp)
        (by simp) (by simp)
  | remove c =>
    simp only [Net.exec, Option.some.injEq] at he
    subst he
    exact { I with
      conns_nodup := I.conns_nodup.filter _
      enforced := fun t v h => { I.enforced t v h with } }
  | track c sock =>
    obtain ⟨hr, rfl⟩ := Net.exec_track he
    exact inv_offer I (hr ▸ track_cases _ _)
  | transfer c old new =>
    obtain ⟨hr, rfl⟩ := Net.exec_transfer he
    exact inv_offer I (hr ▸ transfer_cases _ _ _)
  | isTerminal c =>
    obtain ⟨hr, rfl⟩ := Net.exec_isTerminal he
    exact I
  | beginTermination c =>
    obtain ⟨hr, rfl⟩ := Net.exec_beginTermination he
    exact inv_mark I c
  | shutdown c sock =>
    obtain ⟨hr, rfl⟩ := Net.exec_shutdown he
    refine I.push (by simp) (by simp) (by simp) (by simp) (by simp) (by simp) ?_
    rintro d s ⟨⟩
    exact hreq rfl
  | close sock =>
    simp only [Net.exec, Option.some.injEq] at he
    subst he
    have hclosed : ∀ s, n.closed s = true → Function.update n.closed sock true s = true := by
      intro s hs
      by_cases h : s = sock
      · subst h; simp
      · simpa [h] using hs
    exact { I with
      refused := I.refused.imp fun h j c s d t ok hx hy => hclosed s (h j c s d t ok hx hy)
      enforced := fun t v h =>
        { I.enforced t v h with
          victims := fun c hc => ⟨((I.enforced t v h).victims c hc).1,
            fun s hs => hclosed s (((I.enforced t v h).victims c hc).2 s hs)⟩ } }
  | kill =>
    obtain ⟨hr, rfl⟩ := Net.exec_kill he
    subst hr
    exact inv_kill I hreq.2
  | answer c sock ok =>
    simp only [Net.exec, Option.some.injEq] at he
    subst he
    refine I.push (by simp) (by simp) (by simp) (by simp) ?_ (by simp) (by simp)
    rintro j d s ok' ⟨⟩
    exact hreq
  | linearized torn victims =>
    simp only [Net.exec, Option.some.injEq] at he
    subst he
    refine I.push (by simp) (by simp) (by simp) (by simp) (by simp) ?_ (by simp)
    rintro t v ⟨⟩
    exact hreq.2

/-- A step that records one event of another thread and leaves terminal lifecycles alone. -/
theorem rely_push {m : Net} {e : NetEvent}
    (hterm : ∀ c, (n.lifecycles c).terminal = true → m.lifecycles c = n.lifecycles c)
    (hsock : ∀ c, (n.lifecycles c).sockets ⊆ (m.lifecycles c).sockets)
    (hclosed : ∀ s, n.closed s = true → m.closed s = true)
    (hkilled : i = 0 → m.registry.killed = n.registry.killed) (hev : m.events = n.events)
    (he : ¬ Owned i e) : NetRely i n (m.push e) where
  terminal := hterm
  sockets := hsock
  closed := hclosed
  killed := hkilled
  mine e' he' := by
    have hne : e' ≠ e := by
      rintro rfl
      exact he he'
    simp [Net.push, hev, hne]

/-- A lock section that keeps the sockets, and everything of a terminal connection. -/
theorem rely_setLifecycle (n : Net) (c : String) (l : ConnectionLifecycle)
    (hterm : (n.lifecycles c).terminal = true → l = n.lifecycles c)
    (hsock : (n.lifecycles c).sockets ⊆ l.sockets) :
    (∀ d, (n.lifecycles d).terminal = true →
        (n.setLifecycle c l).lifecycles d = n.lifecycles d) ∧
      ∀ d, (n.lifecycles d).sockets ⊆ ((n.setLifecycle c l).lifecycles d).sockets := by
  constructor
  · intro d hd
    by_cases h : d = c
    · subst h
      simpa [Net.setLifecycle] using hterm hd
    · simp [Net.setLifecycle, h]
  · intro d
    by_cases h : d = c
    · subst h
      simpa [Net.setLifecycle] using hsock
    · simp [Net.setLifecycle, h]

theorem rely_step {j : Nat} {c : NetCmd} {r : c.Resp} (hreq : NetReq j c n)
    (he : Net.exec j c n r = some n') (hij : i ≠ j) : NetRely i n n' := by
  cases c with
  | add c =>
    obtain ⟨-, rfl⟩ := Net.exec_add he
    have hk : (n.registry.add c).2.killed = n.registry.killed := by
      unfold Registry.add
      split <;> rfl
    exact rely_push (fun _ _ => rfl) (fun _ => List.Subset.refl _) (fun _ h => h)
      (fun _ => hk) rfl id
  | remove c =>
    simp only [Net.exec, Option.some.injEq] at he
    subst he
    exact { NetRely.refl i n with }
  | track c sock =>
    obtain ⟨-, rfl⟩ := Net.exec_track he
    have h := track_cases (n.lifecycles c) sock
    obtain ⟨h1, h2⟩ := rely_setLifecycle n c ((n.lifecycles c).track sock).2
      (by intro ht; simp [ht] at h; exact h.2)
      (by rcases h with h | h; · rw [h.2.2]; exact List.Subset.refl _
          · exact h.2.2.2.1)
    exact rely_push h1 h2 (fun _ h => h) (fun _ => rfl) rfl hij
  | transfer c old new =>
    obtain ⟨-, rfl⟩ := Net.exec_transfer he
    have h := transfer_cases (n.lifecycles c) old new
    obtain ⟨h1, h2⟩ := rely_setLifecycle n c ((n.lifecycles c).transfer old new).2
      (by intro ht; simp [ht] at h; exact h.2)
      (by rcases h with h | h; · rw [h.2.2]; exact List.Subset.refl _
          · exact h.2.2.2.1)
    exact rely_push h1 h2 (fun _ h => h) (fun _ => rfl) rfl hij
  | isTerminal c =>
    obtain ⟨-, rfl⟩ := Net.exec_isTerminal he
    exact NetRely.refl i n'
  | beginTermination c =>
    obtain ⟨-, rfl⟩ := Net.exec_beginTermination he
    obtain ⟨h1, h2⟩ := rely_setLifecycle n c { n.lifecycles c with terminal := true }
      (by intro ht; rw [← ht]) (List.Subset.refl _)
    exact rely_push h1 h2 (fun _ h => h) (fun _ => rfl) rfl id
  | shutdown c sock =>
    obtain ⟨-, rfl⟩ := Net.exec_shutdown he
    exact rely_push (fun _ _ => rfl) (fun _ => List.Subset.refl _) (fun _ h => h)
      (fun _ => rfl) rfl hij
  | close sock =>
    simp only [Net.exec, Option.some.injEq] at he
    subst he
    refine { NetRely.refl i n with closed := fun s hs => ?_ }
    by_cases h : s = sock
    · subst h
      simp
    · simpa [h] using hs
  | kill =>
    obtain ⟨-, rfl⟩ := Net.exec_kill he
    have hi : i ≠ 0 := fun h => hij (h.trans hreq.1.symm)
    exact rely_push (fun _ _ => rfl) (fun _ => List.Subset.refl _) (fun _ h => h)
      (fun h => absurd h hi) rfl hi
  | answer c sock ok =>
    simp only [Net.exec, Option.some.injEq] at he
    subst he
    exact rely_push (fun _ _ => rfl) (fun _ => List.Subset.refl _) (fun _ h => h)
      (fun _ => rfl) rfl id
  | linearized torn victims =>
    simp only [Net.exec, Option.some.injEq] at he
    subst he
    have hi : i ≠ 0 := fun h => hij (h.trans hreq.1.symm)
    exact rely_push (fun _ _ => rfl) (fun _ => List.Subset.refl _) (fun _ h => h)
      (fun _ => rfl) rfl hi

end Step

/-- The protocol of the threads on the connections. -/
def netProtocol : Protocol netMachine where
  inv := NetInv
  req := NetReq
  rely := NetRely
  rely_refl := NetRely.refl
  rely_trans := NetRely.trans
  step_inv := inv_step
  step_rely _ hreq he hij := rely_step hreq he hij

/-! ## The threads -/

section Scripts

variable {i : Nat} {n : Net} {E : Empty → Net → Prop}

/-- Every socket that thread `i` had refused is closed. -/
def Settled (i : Nat) (n : Net) : Prop := ∀ c s, .offered i c s false ∈ n.events → n.closed s = true

theorem Settled.rely {n' : Net} (h : Settled i n) (hr : NetRely i n n') : Settled i n' := by
  intro c s hs
  exact hr.closed s (h c s ((hr.mine (.offered i c s false) rfl).1 hs))

/-- Every socket that thread `i` had refused is closed, except perhaps this one. -/
def SettledBut (i sock : Nat) (n : Net) : Prop :=
  ∀ c s, .offered i c s false ∈ n.events → s = sock ∨ n.closed s = true

/-- A thread other than thread 0 tears a socket down. -/
theorem wp_shutdownClose_other (hi : i ≠ 0) (c : String) (sock : Nat) (h : SettledBut i sock n) :
    netProtocol.wp i (NetProg.shutdownClose c sock) (fun _ => Settled i) E n := by
  refine Protocol.wp_perform fun m hm _ => ⟨fun h0 => absurd h0 hi, fun r m' he => ?_⟩
  obtain ⟨-, rfl⟩ := Net.exec_shutdown he
  refine Protocol.wp_perform fun m' hm' _ => ⟨trivial, fun _ m'' he => ?_⟩
  cases he
  intro u hu _
  refine Settled.rely (fun d s hs => ?_) hu
  have hs' := (hm'.mine (.offered i d s false) rfl).1 hs
  simp only [Net.push, List.mem_append, List.mem_singleton, reduceCtorEq, or_false] at hs'
  by_cases heq : s = sock
  · simp [heq]
  · have := (h d s ((hm.mine (.offered i d s false) rfl).1 hs')).resolve_left heq
    simpa [heq] using hm'.closed s (hm.closed s this)

theorem wp_shutdownRetained_other (hi : i ≠ 0) (c : String) (socks : List Nat) (hn : NetInv n)
    (h : Settled i n) :
    netProtocol.wp i (NetProg.shutdownRetained c socks) (fun _ => Settled i) E n := by
  induction socks generalizing n with
  | nil => exact fun m hm _ => h.rely hm
  | cons sock socks ih =>
    have hbut : SettledBut i sock n := fun d s hs => Or.inr (h d s hs)
    refine Protocol.wp_seq (wp_shutdownClose_other hi c sock hbut) hn fun torn m hm hset => ?_
    refine Protocol.wp_seq (ih hm hset) hm fun rest m _ hset => ?_
    exact fun u hu _ => hset.rely hu

/-- The rest of `track_or_reject` or `transfer` after its lock section, and its return. -/
theorem wp_reject (hi : i ≠ 0) (c : String) (sock : Nat) (ok : Bool) (hn : NetInv n)
    (h : if ok then Settled i n else SettledBut i sock n) :
    netProtocol.wp i
      ((if ok then return true else do
          let _ ← NetProg.shutdownClose c sock
          return false) >>= fun ok => do
        let _ ← NetProg.issue (.answer c sock ok))
      (fun _ => Settled i) E n := by
  have hanswer : ∀ ok m, NetInv m → Settled i m →
      netProtocol.wp i (do let _ ← NetProg.issue (.answer c sock ok)) (fun _ => Settled i) E m := by
    intro ok m _ hset
    refine Protocol.wp_perform fun u hu _ => ⟨hset.rely hu, fun _ u' he => ?_⟩
    cases he
    intro v hv _
    refine Settled.rely (fun d s hs => ?_) hv
    exact hset.rely hu d s (by simpa [Net.push] using hs)
  cases ok with
  | true => exact hanswer true n hn h
  | false =>
    refine Protocol.wp_seq (Protocol.wp_seq (wp_shutdownClose_other hi c sock h) hn ?_) hn hanswer
    exact fun _ m _ hset u hu _ => hset.rely hu

/-- The lock section of an offer, by thread `i`. -/
theorem settled_offered {m : Net} {c : String} {sock : Nat} {l : ConnectionLifecycle} (ok : Bool)
    (h : Settled i m) :
    if ok then Settled i ((m.setLifecycle c l).push (.offered i c sock ok))
    else SettledBut i sock ((m.setLifecycle c l).push (.offered i c sock ok)) := by
  cases ok with
  | true => exact fun d s hs => h d s (by simpa [Net.push, Net.setLifecycle] using hs)
  | false =>
    intro d s hs
    rcases List.mem_append.1 hs with hs | hs
    · exact Or.inr (h d s hs)
    · cases List.mem_singleton.1 hs
      exact Or.inl rfl

theorem wp_program (hi : i ≠ 0) (op : KillOp) (h : Settled i n) :
    netProtocol.wp i op.program (fun _ => Settled i) E n := by
  cases op with
  | add c =>
    refine Protocol.wp_perform fun m hm _ => ⟨trivial, fun r m' he => ?_⟩
    obtain ⟨-, rfl⟩ := Net.exec_add he
    intro u hu _
    refine Settled.rely (fun d s hs => ?_) hu
    exact h.rely hm d s (by simpa [Net.push] using hs)
  | remove c =>
    refine Protocol.wp_perform fun m hm _ => ⟨trivial, fun r m' he => ?_⟩
    cases he
    have hset : Settled i m := h.rely hm
    have hset' : Settled i { m with registry := m.registry.remove c } := hset
    exact fun u hu _ => hset'.rely hu
  | track c sock =>
    intro m hm hmi
    refine ⟨trivial, fun r m' he => ?_⟩
    have hmi' := inv_step (c := .track c sock) (i := i) hmi trivial he
    obtain ⟨-, rfl⟩ := Net.exec_track he
    exact wp_reject hi c sock r hmi' (settled_offered r (h.rely hm))
  | transfer c old new =>
    intro m hm hmi
    refine ⟨trivial, fun r m' he => ?_⟩
    have hmi' := inv_step (c := .transfer c old new) (i := i) hmi trivial he
    obtain ⟨-, rfl⟩ := Net.exec_transfer he
    exact wp_reject hi c new r hmi' (settled_offered r (h.rely hm))
  | terminate c =>
    intro m hm hmi
    refine ⟨trivial, fun r m' he => ?_⟩
    have hmi' := inv_step (c := .beginTermination c) (i := i) hmi trivial he
    obtain ⟨-, rfl⟩ := Net.exec_beginTermination he
    refine Protocol.wp_seq (wp_shutdownRetained_other hi c r hmi' ?_) hmi' ?_
    · exact fun d s hs => h.rely hm d s (by simpa [Net.push, Net.setLifecycle] using hs)
    · exact fun _ m _ hset u hu _ => hset.rely hu
  | close sock =>
    refine Protocol.wp_perform fun m hm _ => ⟨trivial, fun _ m' he => ?_⟩
    cases he
    intro u hu _
    refine Settled.rely (fun d s hs => ?_) hu
    by_cases heq : s = sock
    · simp [heq]
    · simpa [heq] using h.rely hm d s hs

theorem wp_script (hi : i ≠ 0) (ops : List KillOp) (hn : NetInv n) (h : Settled i n) :
    netProtocol.wp i (script ops) (fun _ => Settled i) E n := by
  induction ops generalizing n with
  | nil => exact fun m hm _ => h.rely hm
  | cons op ops ih =>
    exact Protocol.wp_seq (wp_program hi op h) hn fun _ m hm hset => ih hm hset

end Scripts

/-! ## The canceller -/

section Canceller

variable {n n' : Net} {victims : List String} {marks : List (String × List Nat)}
  {torn : String → Prop} {shut : List Nat} {E : Empty → Net → Prop}

/-- Thread 0 between its lock section and `on_linearized`: the connections marked with the sockets
they retained, those torn down so far, and the sockets closed so far. -/
structure Working (n : Net) (victims : List String) (marks : List (String × List Nat))
    (torn : String → Prop) (shut : List Nat) : Prop where
  killed : .killed victims ∈ n.events
  notYet : ∀ t v, .linearized t v ∉ n.events
  torn : ∀ c, (∃ s, .shutdown 0 c s true ∈ n.events) ↔ torn c
  marks : ∀ c socks, (c, socks) ∈ marks → n.lifecycles c = ⟨true, socks⟩
  shut : ∀ s ∈ shut, n.closed s = true

theorem Working.rely (h : Working n victims marks torn shut) (hr : NetRely 0 n n') :
    Working n' victims marks torn shut where
  killed := (hr.mine (.killed victims) rfl).2 h.killed
  notYet t v hv := h.notYet t v ((hr.mine (.linearized t v) rfl).1 hv)
  torn c := by
    rw [← h.torn]
    constructor
    · rintro ⟨s, hs⟩
      exact ⟨s, (hr.mine (.shutdown 0 c s true) rfl).1 hs⟩
    · rintro ⟨s, hs⟩
      exact ⟨s, (hr.mine (.shutdown 0 c s true) rfl).2 hs⟩
  marks c socks hc := by
    have := h.marks c socks hc
    rw [hr.terminal c (by rw [this]), this]
  shut s hs := hr.closed s (h.shut s hs)

theorem Enforced.rely {torn victims : List String} (h : Enforced n torn victims)
    (hr : NetRely 0 n n') : Enforced n' torn victims where
  killed := (hr.mine (.killed victims) rfl).2 h.killed
  victims c hc := by
    obtain ⟨h1, h2⟩ := h.victims c hc
    rw [hr.terminal c h1]
    exact ⟨h1, fun s hs => hr.closed s (h2 s hs)⟩
  torn c := by
    rw [h.torn]
    constructor
    · rintro ⟨s, hs⟩
      exact ⟨s, (hr.mine (.shutdown 0 c s true) rfl).2 hs⟩
    · rintro ⟨s, hs⟩
      exact ⟨s, (hr.mine (.shutdown 0 c s true) rfl).1 hs⟩

theorem wp_shutdownClose_canceller (c : String) (sock : Nat)
    (h : Working n victims marks torn shut) :
    netProtocol.wp 0 (NetProg.shutdownClose c sock)
      (fun r m => Working m victims marks (fun d => torn d ∨ d = c ∧ r = true) (sock :: shut))
      E n := by
  refine Protocol.wp_perform fun m hm _ => ⟨fun _ => (h.rely hm).notYet, fun (r : Bool) m' he => ?_⟩
  obtain ⟨-, rfl⟩ := Net.exec_shutdown he
  have hpush : Working (m.push (.shutdown 0 c sock r)) victims marks
      (fun d => torn d ∨ d = c ∧ r = true) shut := by
    have hW := h.rely hm
    refine ⟨List.mem_append_left _ hW.killed, ?_, fun d => ?_, hW.marks, hW.shut⟩
    · simpa [Net.push] using hW.notYet
    · rw [← hW.torn]
      simp only [Net.push, List.mem_append, List.mem_singleton, NetEvent.shutdown.injEq, true_and]
      constructor
      · rintro ⟨s, hs | ⟨rfl, -, rfl⟩⟩
        · exact Or.inl ⟨s, hs⟩
        · exact Or.inr ⟨rfl, rfl⟩
      · rintro (⟨s, hs⟩ | ⟨rfl, rfl⟩)
        · exact ⟨s, Or.inl hs⟩
        · exact ⟨sock, Or.inr ⟨rfl, rfl, rfl⟩⟩
  refine Protocol.wp_perform fun m' hm' _ => ⟨trivial, fun _ m'' he => ?_⟩
  cases he
  have hW := hpush.rely hm'
  have hclose : Working { m' with closed := Function.update m'.closed sock true } victims marks
      (fun d => torn d ∨ d = c ∧ r = true) (sock :: shut) := by
    refine ⟨hW.killed, hW.notYet, hW.torn, hW.marks, fun s hs => ?_⟩
    by_cases heq : s = sock
    · simp [heq]
    · have hs' : s ∈ shut := (List.mem_cons.1 hs).resolve_left heq
      simpa [heq] using hW.shut s hs'
  exact fun u hu _ => hclose.rely hu

theorem Working.mono {torn' : String → Prop} {shut' : List Nat}
    (h : Working n victims marks torn shut) (ht : ∀ c, torn c ↔ torn' c) (hs : shut' ⊆ shut) :
    Working n victims marks torn' shut' :=
  { h with
    torn := fun c => (h.torn c).trans (ht c)
    shut := fun s hs' => h.shut s (hs hs') }

theorem wp_shutdownRetained_canceller (c : String) (socks : List Nat) (hn : NetInv n)
    (h : Working n victims marks torn shut) :
    netProtocol.wp 0 (NetProg.shutdownRetained c socks)
      (fun r m => Working m victims marks (fun d => torn d ∨ d = c ∧ r = true) (socks ++ shut))
      E n := by
  induction socks generalizing n torn shut with
  | nil => exact fun m hm _ => (h.rely hm).mono (by simp) (by simp)
  | cons sock socks ih =>
    refine Protocol.wp_seq (wp_shutdownClose_canceller c sock h) hn fun r m hm hW => ?_
    refine Protocol.wp_seq (ih hm hW) hm fun rest m _ hW u hu _ => ?_
    refine (hW.rely hu).mono (fun d => ?_) (by simp)
    cases r <;> cases rest <;> simp

theorem wp_markAll (todo : List String) (h : Working n victims marks torn shut) (hn : NetInv n) :
    netProtocol.wp 0 (NetProg.markAll todo)
      (fun retained m => retained.map Prod.fst = todo ∧
        Working m victims (retained ++ marks) torn shut) E n := by
  induction todo generalizing n marks with
  | nil => exact fun m hm _ => ⟨rfl, h.rely hm⟩
  | cons c todo ih =>
    refine Protocol.wp_perform fun m hm hmi => ⟨trivial, fun r m' he => ?_⟩
    have hmi' := inv_step (c := .beginTermination c) (i := 0) hmi trivial he
    obtain ⟨hr, rfl⟩ := Net.exec_beginTermination he
    have hW := h.rely hm
    have hmark : Working ((m.setLifecycle c { m.lifecycles c with terminal := true }).push
        (.marked 0 c)) victims ((c, r) :: marks) torn shut := by
      refine ⟨List.mem_append_left _ hW.killed, ?_, ?_, fun d socks hd => ?_, hW.shut⟩
      · simpa [Net.push, Net.setLifecycle] using hW.notYet
      · simpa [Net.push, Net.setLifecycle] using hW.torn
      · by_cases heq : d = c
        · subst heq
          rcases List.mem_cons.1 hd with hd | hd
          · cases hd
            simp [Net.push, Net.setLifecycle, hr]
          · simp [Net.push, Net.setLifecycle, hW.marks d socks hd]
        · have hd' : (d, socks) ∈ marks := (List.mem_cons.1 hd).resolve_left
            fun h => heq (Prod.mk.inj h).1
          simpa [Net.push, Net.setLifecycle, heq] using hW.marks d socks hd'
    refine Protocol.wp_seq (ih hmark hmi') hmi' fun rest m _ hrest u hu _ => ?_
    refine ⟨by rw [← hrest.1]; rfl, { hrest.2.rely hu with marks := fun d socks hd => ?_ }⟩
    refine (hrest.2.rely hu).marks d socks ?_
    simp only [List.cons_append, List.mem_cons, List.mem_append] at hd ⊢
    tauto

theorem wp_tearAll (todo : List (String × List Nat)) (hn : NetInv n)
    (h : Working n victims marks torn shut) :
    netProtocol.wp 0 (NetProg.tearAll todo)
      (fun r m => Working m victims marks (fun d => torn d ∨ d ∈ r)
        (todo.flatMap Prod.snd ++ shut)) E n := by
  induction todo generalizing n torn shut with
  | nil => exact fun m hm _ => (h.rely hm).mono (by simp) (by simp)
  | cons x todo ih =>
    obtain ⟨c, socks⟩ := x
    refine Protocol.wp_seq (wp_shutdownRetained_canceller c socks hn h) hn fun r m hm hW => ?_
    refine Protocol.wp_seq (ih hm hW) hm fun rest m _ hW u hu _ => ?_
    refine (hW.rely hu).mono (fun d => ?_) (fun s hs => ?_)
    · cases r <;> simp
      tauto
    · simp only [List.flatMap_cons, List.mem_append] at hs ⊢
      tauto

/-- The enforcement, from a registry that has not been killed. -/
theorem wp_enforce (hk : n.registry.killed = false)
    (hs : ∀ c s, .shutdown 0 c s true ∉ n.events) :
    netProtocol.wp 0 NetProg.enforce (fun r m => Enforced m r.1 r.2) E n := by
  refine Protocol.wp_perform fun m hm hmi => ?_
  have hkm : m.registry.killed = false := (hm.killed rfl).trans hk
  refine ⟨⟨rfl, hkm⟩, fun r m' he => ?_⟩
  have hmi' := inv_step (c := .kill) (i := 0) hmi ⟨rfl, hkm⟩ he
  obtain ⟨-, rfl⟩ := Net.exec_kill (i := 0) he
  have hW : Working (Net.push { m with registry := m.registry.kill.2 } (.killed r)) r []
      (fun _ => False) [] := by
    refine ⟨by simp [Net.push], fun t v hv => ?_, fun c => ?_, by simp, by simp⟩
    · have hv' : .linearized t v ∈ m.events := by simpa [Net.push] using hv
      have := hmi.killed_iff.2 ⟨v, (hmi.enforced t v hv').killed⟩
      rw [hkm] at this
      cases this
    · refine ⟨fun ⟨s, hc⟩ => ?_, False.elim⟩
      have hc' : .shutdown 0 c s true ∈ m.events := by simpa [Net.push] using hc
      exact hs c s ((hm.mine (.shutdown 0 c s true) rfl).1 hc')
  refine Protocol.wp_seq (wp_markAll r hW hmi') hmi' fun retained m hm hret => ?_
  refine Protocol.wp_seq (wp_tearAll retained hm hret.2) hm fun torn m _ hW u hu _ => ?_
  obtain ⟨hfst, -⟩ := hret
  have hW := hW.rely hu
  refine ⟨hW.killed, fun c hc => ?_, fun c => by simp [hW.torn]⟩
  rw [← hfst] at hc
  obtain ⟨⟨d, socks⟩, hd, rfl⟩ := List.mem_map.1 hc
  have hd' := hW.marks d socks (List.mem_append_left _ hd)
  refine ⟨by simp [hd'], fun s hs => hW.shut s ?_⟩
  simp only [hd'] at hs
  exact List.mem_append_left _ (List.mem_flatMap.2 ⟨(d, socks), hd, hs⟩)

/-- `terminate_all` from a registry that has not been killed. -/
theorem wp_terminateAll (hn : NetInv n) (hk : n.registry.killed = false)
    (hs : ∀ c s, .shutdown 0 c s true ∉ n.events) :
    netProtocol.wp 0 terminateAll (fun _ _ => True) E n := by
  refine Protocol.wp_seq (wp_enforce hk hs) hn fun r m _ hE => ?_
  exact Protocol.wp_perform fun m hm _ => ⟨⟨rfl, hE.rely hm⟩, fun _ _ _ _ _ _ => trivial⟩

end Canceller

/-! ## Every interleaving -/

/-- Thread 0 runs `terminate_all`, every other thread its operations. -/
def pool (ops : Nat → List KillOp) : Nat → NetProg Unit
  | 0 => terminateAll
  | i + 1 => script (ops i)

/-- How every run starts. -/
def start (maxConnections : Nat) (ops : Nat → List KillOp) : Config Empty NetCmd NetCmd.Resp Net :=
  ⟨Net.fresh maxConnections, pool ops⟩

section

variable {maxConnections : Nat} {ops : Nat → List KillOp} {cfg : Config Empty NetCmd NetCmd.Resp Net}

theorem wp_pool (maxConnections : Nat) (ops : Nat → List KillOp) (i : Nat) :
    netProtocol.wp i (pool ops i) (fun _ _ => True) (fun _ _ => True) (Net.fresh maxConnections) := by
  have hinv : netProtocol.inv (Net.fresh maxConnections) := netInv_fresh maxConnections
  cases i with
  | zero => exact wp_terminateAll hinv rfl (by simp [Net.fresh])
  | succ i =>
    have hset : Settled (i + 1) (Net.fresh maxConnections) := by simp [Settled, Net.fresh]
    exact Protocol.wp_mono (wp_script (Nat.succ_ne_zero i) (ops i) hinv hset)
      (fun _ _ _ _ => trivial) fun _ _ _ h => h

theorem inv_start : netProtocol.inv (start maxConnections ops).state := netInv_fresh maxConnections

theorem reachable_inv (h : Reach netMachine (start maxConnections ops) cfg) : NetInv cfg.state :=
  (Protocol.sound inv_start (wp_pool maxConnections ops) h).1

/-- A step records at most one event, and a kill with the registry that it finds. -/
theorem exec_event {i : Nat} {c : NetCmd} {r : c.Resp} {n n' : Net} (h : Net.exec i c n r = some n') :
    n'.events = n.events ∨ ∃ e, n'.events = n.events ++ [e] ∧
      ∀ victims, e = .killed victims → c = .kill ∧ n.registry.conns = victims := by
  cases c with
  | kill =>
    obtain ⟨rfl, rfl⟩ := Net.exec_kill h
    refine Or.inr ⟨_, rfl, fun victims hv => ⟨rfl, ?_⟩⟩
    cases hv
    rfl
  | remove c | close sock =>
    cases h
    exact Or.inl rfl
  | isTerminal c =>
    obtain ⟨-, rfl⟩ := Net.exec_isTerminal h
    exact Or.inl rfl
  | answer c sock ok | linearized torn victims =>
    cases h
    exact Or.inr ⟨_, rfl, nofun⟩
  | add c =>
    obtain ⟨-, rfl⟩ := Net.exec_add h
    exact Or.inr ⟨_, rfl, nofun⟩
  | track c sock =>
    obtain ⟨-, rfl⟩ := Net.exec_track h
    exact Or.inr ⟨_, rfl, nofun⟩
  | transfer c old new =>
    obtain ⟨-, rfl⟩ := Net.exec_transfer h
    exact Or.inr ⟨_, rfl, nofun⟩
  | beginTermination c =>
    obtain ⟨-, rfl⟩ := Net.exec_beginTermination h
    exact Or.inr ⟨_, rfl, nofun⟩
  | shutdown c sock =>
    obtain ⟨-, rfl⟩ := Net.exec_shutdown h
    exact Or.inr ⟨_, rfl, nofun⟩

theorem reach_events {cfg' : Config Empty NetCmd NetCmd.Resp Net} (h : Reach netMachine cfg cfg') :
    cfg.state.events <+: cfg'.state.events := by
  induction h with
  | refl => exact List.prefix_refl _
  | tail _ hstep ih =>
    cases hstep with
    | mk hp he =>
      refine ih.trans ?_
      rcases exec_event he with hsame | ⟨e, happend, -⟩
      · exact ⟨[], by rw [hsame, List.append_nil]⟩
      · exact ⟨[e], happend.symm⟩

/-- The step of a run that records the kill finds these connections in the registry. -/
structure KillStep (maxConnections : Nat) (ops : Nat → List KillOp) (victims : List String)
    (kill killed : Config Empty NetCmd NetCmd.Resp Net) : Prop where
  reach : Reach netMachine (start maxConnections ops) kill
  step : Step netMachine kill killed
  first : kill.state.registry.killed = false
  conns : kill.state.registry.conns = victims
  events : killed.state.events = kill.state.events ++ [.killed victims]

theorem reach_kill (h : Reach netMachine (start maxConnections ops) cfg) {victims : List String}
    (hv : .killed victims ∈ cfg.state.events) :
    ∃ kill killed, KillStep maxConnections ops victims kill killed ∧ Reach netMachine killed cfg := by
  induction h with
  | refl => cases hv
  | @tail mid last hreach hstep ih =>
    have hlast : Step netMachine mid last := hstep
    cases hstep with
    | @mk i c k r s hp he =>
      have hearlier : .killed victims ∈ mid.state.events → ∃ kill killed,
          KillStep maxConnections ops victims kill killed ∧ Reach netMachine killed _ := fun hold => by
        obtain ⟨kill, killed, hkill, hrest⟩ := ih hold
        exact ⟨kill, killed, hkill, hrest.tail hlast⟩
      rcases exec_event he with hsame | ⟨e, hevents, hkills⟩
      · exact hearlier (hsame ▸ hv)
      rcases List.mem_append.1 (hevents ▸ hv) with hold | hnew
      · exact hearlier hold
      · obtain rfl := List.mem_singleton.1 hnew
        obtain ⟨rfl, hconns⟩ := hkills victims rfl
        have hreq : NetReq i .kill mid.state :=
          Protocol.sound_req inv_start (wp_pool maxConnections ops) hreach hp
        exact ⟨mid, _, ⟨hreach, hlast, hreq.2, hconns, hevents⟩, Relation.ReflTransGen.refl⟩

/-- The kill comes before the linearization with its snapshot. -/
theorem KillStep.before {victims torn : List String} {kill killed : Config Empty NetCmd NetCmd.Resp Net}
    (h : KillStep maxConnections ops victims kill killed) (hr : Reach netMachine killed cfg)
    {before after : List NetEvent} (hev : cfg.state.events = before ++ .linearized torn victims :: after)
    (hkilled : .killed victims ∈ before) : killed.state.events <+: before := by
  have hgrow : killed.state.events <+: cfg.state.events := reach_events hr
  have hpre : before <+: cfg.state.events := by
    rw [hev]
    exact List.prefix_append _ _
  rcases Nat.lt_or_ge before.length killed.state.events.length with hlt | hge
  · -- otherwise the kill would be on record before its own step
    have hshort : before <+: kill.state.events := by
      have hle : before.length ≤ kill.state.events.length := by
        rw [h.events, List.length_append, List.length_singleton] at hlt
        omega
      refine List.prefix_of_prefix_length_le hpre (List.IsPrefix.trans ?_ hgrow) hle
      rw [h.events]
      exact List.prefix_append _ _
    have hflag := (reachable_inv h.reach).killed_iff.2 ⟨victims, hshort.subset hkilled⟩
    rw [h.first] at hflag
    cases hflag
  · exact List.prefix_of_prefix_length_le hgrow hpre hge

/-- **Kill enforcement.** In every interleaving, once `on_linearized` has been invoked: the snapshot
is what was registered when the kill flag was set; no later `add` succeeds; every connection of the
snapshot is terminal, every socket ever accepted for it is closed, every later offer to it is refused,
and closed when the offering call has returned; and `terminated_conn_ids` lists the connections of
which `terminate_all` itself shut a socket down. -/
theorem kill_enforced (h : Reach netMachine (start maxConnections ops) cfg)
    (before after : List NetEvent) (torn victims : List String)
    (hev : cfg.state.events = before ++ .linearized torn victims :: after) :
    (∃ kill killed, KillStep maxConnections ops victims kill killed ∧ Reach netMachine killed cfg ∧
      killed.state.events <+: before) ∧ (∀ i c, .added i c true ∉ after) ∧
    (∀ c ∈ victims, (cfg.state.lifecycles c).terminal = true ∧
      (∀ i s, .offered i c s true ∈ cfg.state.events → cfg.state.closed s = true) ∧
      ∀ i s ok, .offered i c s ok ∈ after → ok = false ∧
        ∀ pre post d t ok', cfg.state.events = pre ++ .offered i c s ok :: post →
          .answered i d t ok' ∈ post → cfg.state.closed s = true) ∧
    ∀ c, c ∈ torn ↔ ∃ s, .shutdown 0 c s true ∈ before := by
  have I := reachable_inv h
  have hmem : .linearized torn victims ∈ cfg.state.events := by simp [hev]
  obtain ⟨hkilled, hmarked⟩ := I.markedFirst before after torn victims hev
  have hE := I.enforced torn victims hmem
  -- an event after the linearization comes after everything before it
  have hafter : ∀ {R : NetEvent → NetEvent → Prop}, cfg.state.events.Pairwise R →
      ∀ x ∈ before, ∀ y ∈ after, R x y := by
    intro R hR x hx y hy
    rw [hev, List.pairwise_append] at hR
    exact hR.2.2 x hx y (List.mem_cons_of_mem _ hy)
  refine ⟨?_, fun i c hc => ?_, fun c hc => ⟨(hE.victims c hc).1, fun i s hs => ?_,
    fun i s ok hs => ⟨?_, ?_⟩⟩, fun c => ?_⟩
  · obtain ⟨kill, killed, hkill, hr⟩ := reach_kill h (hE.killed)
    exact ⟨kill, killed, hkill, hr, hkill.before hr hev hkilled⟩
  · exact hafter I.noAdd _ hkilled _ hc victims i c rfl rfl
  · exact (hE.victims c hc).2 s (I.accepted i c s hs)
  · obtain ⟨j, hj⟩ := hmarked c hc
    cases ok with
    | false => rfl
    | true => exact absurd rfl (hafter I.noAccept _ hj _ hs j i c s rfl)
  · intro pre post d t ok' hsplit hans
    obtain ⟨j, hj⟩ := hmarked c hc
    cases ok with
    | true => exact absurd rfl (hafter I.noAccept _ hj _ hs j i c s rfl)
    | false =>
      have hR := I.refused
      rw [hsplit, List.pairwise_append] at hR
      exact (List.pairwise_cons.1 hR.2.1).1 _ hans i c s d t ok' rfl rfl
  · rw [hE.torn, hev]
    constructor
    · rintro ⟨s, hs⟩
      rcases List.mem_append.1 hs with hs | hs
      · exact ⟨s, hs⟩
      · have hlast := I.linearizedLast
        rw [hev, List.pairwise_append] at hlast
        have hs : .shutdown 0 c s true ∈ after := by simpa using hs
        have := ((List.pairwise_cons.1 hlast.2.1).1 _ hs torn victims rfl).2 c s
        exact absurd rfl this
    · rintro ⟨s, hs⟩
      exact ⟨s, List.mem_append_left _ hs⟩

end

namespace Sample

/-- One handler: its connection, a socket before the kill and one after it. -/
def ops : Nat → List KillOp
  | 0 => [.add "conn-1", .track "conn-1" 5, .track "conn-1" 6]
  | _ => []

/-- The response of each step. -/
def respond (_ : Nat) : (c : NetCmd) → Net → Option c.Resp
  | .add c, n => some (n.registry.add c).1
  | .track c sock, n => some ((n.lifecycles c).track sock).1
  | .transfer c old new, n => some ((n.lifecycles c).transfer old new).1
  | .isTerminal c, n => some (n.lifecycles c).terminal
  | .beginTermination c, n => some (n.lifecycles c).sockets
  | .shutdown _ sock, n => some (!n.closed sock)
  | .kill, n => some n.registry.conns
  | .remove _, _ | .close _, _ | .answer _ _ _, _ | .linearized _ _, _ => some ()

/-- The kill falls between the two sockets. -/
def order : List Nat := [1, 1, 1, 0, 0, 0, 0, 0, 1, 1, 1, 1]

def events : List NetEvent :=
  [.added 1 "conn-1" true, .offered 1 "conn-1" 5 true, .answered 1 "conn-1" 5 true,
    .killed ["conn-1"], .marked 0 "conn-1", .shutdown 0 "conn-1" 5 true,
    .linearized ["conn-1"] ["conn-1"],
    .offered 1 "conn-1" 6 false, .shutdown 1 "conn-1" 6 true, .answered 1 "conn-1" 6 false]

theorem reachable : ∃ cfg, Reach netMachine (start 4 ops) cfg ∧ cfg.state.events = events := by
  obtain ⟨cfg, hcfg, hev⟩ : ∃ cfg,
      schedule netMachine respond order (start 4 ops) = some cfg ∧ cfg.state.events = events :=
    ⟨_, rfl, rfl⟩
  exact ⟨cfg, schedule_reach hcfg, hev⟩

end Sample

theorem kill_enforced_lateOffer :
    ∃ cfg, Reach netMachine (start 4 Sample.ops) cfg ∧ cfg.state.events = Sample.events ∧
      (cfg.state.lifecycles "conn-1").terminal = true ∧ cfg.state.closed 5 = true ∧
      cfg.state.closed 6 = true := by
  obtain ⟨cfg, hr, hev⟩ := Sample.reachable
  have h := kill_enforced hr (Sample.events.take 6) (Sample.events.drop 7)
    ["conn-1"] ["conn-1"] (by rw [hev]; rfl)
  obtain ⟨hterm, haccepted, hlate⟩ := h.2.2.1 "conn-1" (by simp)
  refine ⟨cfg, hr, hev, hterm, haccepted 1 5 (by rw [hev]; decide), ?_⟩
  refine (hlate 1 6 false (by decide)).2 (Sample.events.take 7) (Sample.events.drop 8)
    "conn-1" 6 false (by rw [hev]; rfl) (by decide)

end KillSwitch

end StrixPEP
