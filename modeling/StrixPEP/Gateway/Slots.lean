import StrixPEP.Lib.Monitors
import StrixPEP.Gateway.Consults
import StrixPEP.Gateway.Runs
import StrixPEP.Gateway.ConnectTarget

/-!
# The slots over a whole run (`Registry.acquire`, `Registry.release`, `do_CONNECT`)

`path_slot` says that one handler gives back what it took.  Here all of them share the semaphore, and
a `release` above its bound would be swallowed (`except ValueError`).

* `Tenure`, `slotMonitor` — how far a handler is with its slot, and what it may do there;
* `handle_follows` — every handler keeps to it, whatever it is told;
* `Seats` — the invariant: slots, registered connections and handlers agree; `seats_step`.

Principal result: `bounded_concurrency`.
-/

namespace StrixPEP

open Threads GProg Gateway

/-- How far a handler is with its slot. -/
inductive Tenure where
  /-- It may ask for one; where it is refused one it stays here, and its client may try again. -/
  | outside
  | seated
  /-- The connection has its name; whether it is in the registry. -/
  | serving (connId : String) (registered : Bool)
  | left
  deriving DecidableEq, Repr

namespace Tenure

def holds : Tenure → Bool
  | seated | serving _ _ => true
  | outside | left => false

def named : Tenure → Bool
  | serving _ _ => true
  | _ => false

/-- Where a response leads. -/
def next : Tenure → (c : Cmd) → c.Resp → Tenure
  | _, .acquireSlot, (r : Bool) => if r then seated else outside
  | _, .newConnId, (c : String) => serving c false
  | serving c b, .net (.add d), (r : Bool) => serving c (b || (r && decide (d = c)))
  | serving c b, .net (.remove d), _ => serving c (b && !decide (d = c))
  | _, .releaseSlot, _ => left
  | t, _, _ => t

end Tenure

/-- What a handler does for a connection only. -/
def Cmd.serves : Cmd → Bool
  | .env (.decide _) | .env .leafFor | .env .wrapClient | .env .recvHead | .env .createSocket
  | .env .wrapUpstream | .env .sendRequest | .env .stream | .connect _ _ _ => true
  | _ => false

namespace Tenure

/-- What a handler may do there. -/
def permits : Tenure → Cmd → Prop
  | t, .acquireSlot => t = outside
  | t, .newConnId => t = seated
  | t, .releaseSlot => ∃ c, t = serving c false
  | t, .net (.add _) | t, .net (.remove _) => t ≠ left
  | t, c => c.serves = true → t.named = true

end Tenure

def slotMonitor : Monitor Cmd Cmd.Resp Tenure := ⟨Tenure.permits, Tenure.next⟩

/-- How far thread `i` is. -/
def tenure (log : List (Nat × Sigma Cmd.Resp)) (i : Nat) : Tenure :=
  slotMonitor.run .outside (Traces.own log i)

/-! ## The programs -/

section Programs

variable {α : Type} {p : GProg α} {Q : α → Tenure → Prop} {E : Exn → Tenure → Prop} {c : String}

/-- A named connection. -/
def Serving (c : String) (t : Tenure) : Prop := ∃ b, t = .serving c b

theorem serving_step {c : String} {cmd : Cmd} {t : Tenure} (hc : cmd.admits = false) (ht : Serving c t) :
    slotMonitor.permits t cmd ∧ ∀ r, Serving c (slotMonitor.next t cmd r) := by
  obtain ⟨b, rfl⟩ := ht
  cases cmd with
  | acquireSlot | releaseSlot | newConnId => cases hc
  | net n =>
    cases n with
    | add d => exact ⟨by simp [slotMonitor, Tenure.permits], fun r => ⟨_, rfl⟩⟩
    | remove d => exact ⟨by simp [slotMonitor, Tenure.permits], fun r => ⟨_, rfl⟩⟩
    | _ => exact ⟨fun _ => rfl, fun r => ⟨b, rfl⟩⟩
  | _ => exact ⟨fun _ => rfl, fun r => ⟨b, rfl⟩⟩

/-- What leaves the slots to its caller may run for a named connection. -/
theorem Keeps.serving (hp : Keeps p) {t : Tenure} (ht : Serving c t) :
    p.Follows slotMonitor (fun _ => Serving c) (fun _ => Serving c) t :=
  Prog.follows_issues hp serving_step ht

/-- A step that asks nothing for a connection. -/
def Cmd.bystands (c : Cmd) : Bool := !c.admits && !c.serves

theorem bystands_step {cmd : Cmd} {t : Tenure} (hc : cmd.bystands = true) (ht : t = .outside) :
    slotMonitor.permits t cmd ∧ ∀ r, slotMonitor.next t cmd r = .outside := by
  subst ht
  unfold Cmd.bystands at hc
  rw [Bool.and_eq_true, Bool.not_eq_true', Bool.not_eq_true'] at hc
  obtain ⟨hadmits, hserves⟩ := hc
  have hquiet : cmd.serves = true → Tenure.outside.named = true := fun h =>
    absurd (h.symm.trans hserves) nofun
  cases cmd with
  | acquireSlot | releaseSlot | newConnId => cases hadmits
  | net n =>
    cases n with
    | add d | remove d => exact ⟨fun h => absurd h nofun, fun r => rfl⟩
    | _ => exact ⟨hquiet, fun r => rfl⟩
  | _ => exact ⟨hquiet, fun r => rfl⟩

/-- What asks nothing for a connection may run without a slot. -/
theorem bystands_follows (hp : p.Issues fun c => c.bystands = true) :
    p.Follows slotMonitor (fun _ u => u = .outside) (fun _ u => u = .outside) .outside :=
  Prog.follows_issues hp bystands_step rfl

theorem bystands_auditWrite (e : Entry) : (auditWrite e).Issues fun c => c.bystands = true := by
  refine Prog.issues_bind (Prog.issues_perform rfl) fun (o : Outcome) => ?_
  cases o <;> trivial

theorem bystands_denyEarly (reason url method src : String) :
    (denyEarly reason url method src).Issues fun c => c.bystands = true := by
  refine Prog.issues_bind ?_ fun _ => trivial
  refine Prog.issues_bind ?_ fun _ => bystands_auditWrite _
  exact Prog.issues_bind (Prog.issues_perform rfl) fun _ => trivial

/-- Steps on the connections do not raise. -/
theorem follows_onNet {q : NetProg α} {t : Tenure} (ht : Serving c t) :
    (onNet q).Follows slotMonitor (fun _ => Serving c) (fun _ _ => False) t := by
  induction q generalizing t with
  | ret a => exact Prog.follows_ret.2 ht
  | raise e => exact nomatch e
  | cmd n k ih =>
    have hstep : slotMonitor.permits t (.net n) ∧ ∀ r, Serving c (slotMonitor.next t (.net n) r) :=
      serving_step rfl ht
    exact Prog.follows_cmd.2 ⟨hstep.1, fun r => ih r (hstep.2 r)⟩

end Programs

/-- A handler that is done with its slot, or has got none. -/
def Unseated (t : Tenure) : Prop := t = .outside ∨ t = .left

theorem Unseated.holds {t : Tenure} (ht : Unseated t) : t.holds = false := by
  rcases ht with rfl | rfl <;> rfl

/-- A handler after a request: it goes on with the next one only if it has not had a slot. -/
def Turned (more : Bool) (t : Tenure) : Prop := Unseated t ∧ (more = true → t = .outside)

namespace Gateway

variable {canonicalHost : String → Option String} {t : Tenure}

/-- The `finally` takes the connection out of the registry, then gives the slot back. -/
theorem cleanUp_follows {c : String} (ht : Serving c t) :
    (cleanUp c).Follows slotMonitor (fun _ u => u = .left) (fun _ _ => False) t := by
  refine Prog.follows_seq (follows_onNet ht) fun torn u hu => ?_
  obtain ⟨b, rfl⟩ := hu
  refine Prog.follows_perform (by simp [slotMonitor, Tenure.permits]) fun _ => ?_
  have hremoved : slotMonitor.next (.serving c b) (.net (.remove c)) () = .serving c false := by
    simp [slotMonitor, Tenure.next]
  refine Prog.follows_perform ⟨c, hremoved⟩ fun _ => ?_
  exact Prog.follows_ret.2 rfl

theorem connection_follows (r : ConnectRequest) (host : String) (port : Nat) :
    (connection canonicalHost r host port).Follows slotMonitor (fun _ u => u = .left)
      (fun _ u => u = .left) .seated := by
  refine Prog.follows_perform rfl fun (c : String) => ?_
  let state : ConnectionState := ⟨r.clientIp, c, r.nonce, r.row, none, none, none, "", ""⟩
  have hbody : (guarded canonicalHost state r host port).Follows slotMonitor (fun _ => Serving c)
      (fun _ => Serving c) (.serving c false) :=
    (guarded_keeps canonicalHost state r host port).serving ⟨false, rfl⟩
  refine Protocol.wp_tryFinally (Protocol.wp_mono hbody (fun _ u _ hu => ?_) fun e u _ hu => ?_) trivial
  · exact Protocol.wp_mono (cleanUp_follows hu) (fun _ _ _ h => h) fun _ _ _ h => h.elim
  · exact Protocol.wp_mono (cleanUp_follows hu) (fun _ _ _ h => h) fun _ _ _ h => h.elim

theorem denyEarly_follows (reason url method src : String) :
    (denyEarly reason url method src).Follows slotMonitor Turned (fun _ => Unseated) .outside :=
  Protocol.wp_mono (bystands_follows (bystands_denyEarly reason url method src))
    (fun _ _ _ h => ⟨.inl h, fun _ => h⟩) fun _ _ _ h => .inl h

/-- A client that is refused a slot may ask again; one that had a slot may not. -/
theorem admission_follows (r : ConnectRequest) (host : String) (port : Nat) :
    (admission canonicalHost r host port).Follows slotMonitor Turned (fun _ => Unseated) .outside := by
  refine Prog.follows_perform rfl fun (acquired : Bool) => ?_
  cases acquired with
  | false => exact denyEarly_follows _ _ _ _
  | true =>
    refine Prog.follows_seq (Protocol.wp_mono (connection_follows r host port) (fun _ _ _ h => h)
      fun _ _ _ h => .inr h) fun _ u hu => ?_
    exact Prog.follows_ret.2 ⟨.inr hu, nofun⟩

theorem doConnect_follows (r : ConnectRequest) :
    (doConnect canonicalHost r).Follows slotMonitor Turned (fun _ => Unseated) .outside := by
  rw [doConnect_eq]
  unfold connectWith
  dsimp only
  split
  · exact denyEarly_follows _ _ _ _
  split
  · exact denyEarly_follows _ _ _ _
  split
  · exact Prog.follows_raise.2 (.inl rfl)
  · exact admission_follows r _ _

theorem dispatch_follows (r : Request) :
    (dispatch canonicalHost r).Follows slotMonitor Turned (fun _ => Unseated) .outside :=
  match r with
  | .none none => Prog.follows_ret.2 ⟨.inl rfl, fun _ => rfl⟩
  | .none (some _) => Prog.follows_raise.2 (.inl rfl)
  | .get _ _ => denyEarly_follows _ _ _ _
  | .other _ _ _ => denyEarly_follows _ _ _ _
  | .connect r => doConnect_follows r

/-- `flush`, `end_producer` and `begin_producer` may run with or without a slot. -/
theorem unseated_step {cmd : Cmd} (hc : cmd = .env .flush ∨ cmd = .endProducer ∨ cmd = .beginProducer) :
    slotMonitor.permits t cmd ∧ ∀ r, slotMonitor.next t cmd r = t := by
  rcases hc with rfl | rfl | rfl
  · exact ⟨fun h => absurd h nofun, fun r => by cases t <;> rfl⟩
  · exact ⟨fun h => absurd h nofun, fun r => by cases t <;> rfl⟩
  · exact ⟨fun h => absurd h nofun, fun r => by cases t <;> rfl⟩

theorem requests_follows (rs : List Request) :
    (requests canonicalHost rs).Follows slotMonitor (fun _ => Unseated) (fun _ => Unseated) .outside := by
  induction rs with
  | nil => exact Prog.follows_ret.2 (.inl rfl)
  | cons r rs ih =>
    refine Prog.follows_seq (J := Turned)
      (Protocol.wp_tryCatch (Prog.follows_seq (Protocol.wp_mono (dispatch_follows r) (fun _ _ _ h => h)
        fun e u _ hu => ?_) fun more u hu => ?_) trivial) fun more u hu => ?_
    · split
      · exact Prog.follows_ret.2 ⟨hu, nofun⟩
      · exact Prog.follows_raise.2 hu
    · obtain ⟨hperm, hnext⟩ := unseated_step (t := u) (.inl rfl)
      refine Prog.follows_seq (J := fun _ v => v = u) (Prog.follows_perform hperm fun answer => ?_)
        fun _ v hv => ?_
      · rw [hnext answer]
        cases answer with
        | ok a => exact Prog.follows_ret.2 rfl
        | error e =>
          refine Prog.follows_raise.2 ?_
          split
          · exact Prog.follows_ret.2 ⟨hu.1, nofun⟩
          · exact Prog.follows_raise.2 hu.1
      · subst hv
        exact Prog.follows_ret.2 hu
    · cases more with
      | false => exact Prog.follows_ret.2 hu.1
      | true =>
        obtain rfl := hu.2 rfl
        exact ih

/-- A handler keeps to its tenure, and has no slot when it has ended. -/
theorem handle_follows (rs : List Request) :
    (handle canonicalHost rs).Follows slotMonitor (fun _ => Unseated) (fun _ => Unseated) .outside := by
  have hend : ∀ (t : Tenure), Unseated t → endProducer.Follows slotMonitor (fun _ => Unseated)
      (fun _ => Unseated) t := by
    intro t ht
    obtain ⟨hperm, hnext⟩ := unseated_step (t := t) (.inr (.inl rfl))
    refine Prog.follows_perform hperm fun (ok : Bool) => ?_
    rw [hnext ok]
    cases ok
    · exact Prog.follows_raise.2 ht
    · exact Prog.follows_ret.2 ht
  obtain ⟨hperm, hnext⟩ := unseated_step (t := .outside) (.inr (.inr rfl))
  refine Prog.follows_perform hperm fun (ok : Bool) => ?_
  rw [hnext ok]
  cases ok with
  | false => exact Prog.follows_ret.2 (.inl rfl)
  | true =>
    exact Protocol.wp_tryFinally (Protocol.wp_mono (requests_follows rs) (fun _ u _ hu => hend u hu)
      fun _ u _ hu => hend u hu) trivial

end Gateway

/-! ## The invariant -/

/-- The slots, the registry and the handlers agree. -/
structure Seats (max : Nat) (f : Nat → Tenure) (w : World) : Prop where
  slots : ∃ seats : Finset Nat, (∀ i, i ∈ seats ↔ (f i).holds = true) ∧
    seats.card + w.net.registry.slots = max
  bound : w.maxConnections = max
  named : ∀ c i, (c, i) ∈ w.conns → f i = .left ∨ Serving c (f i)
  registered : ∀ c ∈ w.net.registry.conns, ∃ i, (c, i) ∈ w.conns ∧ f i = .serving c true
  nodup : w.net.registry.conns.Nodup

/-- Slots, registry and names are as they were. -/
def SameSeats (w w' : World) : Prop :=
  w'.net.registry.slots = w.net.registry.slots ∧ w'.net.registry.conns = w.net.registry.conns ∧
    w'.conns = w.conns ∧ w'.maxConnections = w.maxConnections

/-- The steps that move a handler, a connection or a slot. -/
def Cmd.moves : Cmd → Bool
  | .acquireSlot | .releaseSlot | .newConnId | .net (.add _) | .net (.remove _) | .net .kill => true
  | _ => false

theorem sameSeats_net {i : Nat} {n n' : Net} {c : NetCmd} {r : c.Resp} (hc : (Cmd.net c).moves = false)
    (h : Net.exec i c n r = some n') :
    n'.registry.slots = n.registry.slots ∧ n'.registry.conns = n.registry.conns := by
  cases c with
  | add d | remove d | kill => cases hc
  | track d sock =>
    obtain ⟨-, rfl⟩ := Net.exec_track h
    exact ⟨rfl, rfl⟩
  | transfer d old new =>
    obtain ⟨-, rfl⟩ := Net.exec_transfer h
    exact ⟨rfl, rfl⟩
  | isTerminal d =>
    obtain ⟨-, rfl⟩ := Net.exec_isTerminal h
    exact ⟨rfl, rfl⟩
  | beginTermination d =>
    obtain ⟨-, rfl⟩ := Net.exec_beginTermination h
    exact ⟨rfl, rfl⟩
  | shutdown d sock =>
    obtain ⟨-, rfl⟩ := Net.exec_shutdown h
    exact ⟨rfl, rfl⟩
  | close sock | answer d sock ok | linearized torn victims =>
    cases h
    exact ⟨rfl, rfl⟩

theorem sameSeats {i : Nat} {w w' : World} {c : Cmd} {r : c.Resp} (hc : c.moves = false)
    (h : World.exec i c w r = some w') : SameSeats w w' := by
  cases c with
  | acquireSlot | releaseSlot | newConnId => cases hc
  | net c =>
    obtain ⟨n, hn, rfl⟩ := exec_net h
    exact ⟨(sameSeats_net hc hn).1, (sameSeats_net hc hn).2, rfl, rfl⟩
  | checkTerminal c =>
    obtain ⟨-, rfl⟩ := Net.give_eq_some.1 h
    exact ⟨rfl, rfl, rfl, rfl⟩
  | beginProducer =>
    obtain ⟨-, rfl⟩ := Net.give_eq_some.1 h
    unfold Registry.beginProducer
    split <;> exact ⟨rfl, rfl, rfl, rfl⟩
  | endProducer =>
    obtain ⟨-, rfl⟩ := Net.give_eq_some.1 h
    unfold Registry.endProducer
    split <;> exact ⟨rfl, rfl, rfl, rfl⟩
  | epoch | runId | healthy | inflightCount | producerCount | waitForDrain | waitForProducerDrain | waitListener
  | permitCalled a =>
    obtain ⟨-, rfl⟩ := Net.give_eq_some.1 h
    exact ⟨rfl, rfl, rfl, rfl⟩
  | env q | newAttemptId | addSecret t | permitReturned a start granted | connect a c pin | endServing
  | setListenerClosed | quiesced b =>
    cases h
    exact ⟨rfl, rfl, rfl, rfl⟩
  | authorize a e =>
    obtain ⟨ev, run, -, -, rfl⟩ := exec_authorize h
    exact ⟨rfl, rfl, rfl, rfl⟩
  | issuePermit a e c gen bud =>
    obtain ⟨ev, run, -, -, rfl⟩ := exec_issuePermit h
    exact ⟨rfl, rfl, rfl, rfl⟩
  | bindDurableRelease ref c =>
    obtain ⟨ev, run, st, -, -, rfl⟩ := exec_bindDurableRelease h
    exact ⟨rfl, rfl, rfl, rfl⟩
  | abandonUndurable ref =>
    obtain ⟨ev, run, -, rfl⟩ := exec_abandonUndurable h
    exact ⟨rfl, rfl, rfl, rfl⟩
  | releaseEnter ref =>
    obtain ⟨ev, run, st, -, -, rfl⟩ := exec_releaseEnter h
    exact ⟨rfl, rfl, rfl, rfl⟩
  | releaseExit ref ok =>
    obtain ⟨ev, run, -, rfl⟩ := exec_releaseExit h
    exact ⟨rfl, rfl, rfl, rfl⟩
  | cancel =>
    obtain ⟨ev, run, -, -, rfl⟩ := exec_cancel h
    exact ⟨rfl, rfl, rfl, rfl⟩
  | write e =>
    obtain ⟨audit, -, rfl⟩ := exec_write h
    exact ⟨rfl, rfl, rfl, rfl⟩
  | sealWith e =>
    obtain ⟨audit, -, rfl⟩ := exec_sealWith h
    exact ⟨rfl, rfl, rfl, rfl⟩
  | stopListener =>
    simp only [World.exec] at h
    split at h
    · split at h
      · cases h
      · cases h
        exact ⟨rfl, rfl, rfl, rfl⟩
    · cases h
      exact ⟨rfl, rfl, rfl, rfl⟩

section Step

variable {max i : Nat} {f : Nat → Tenure} {w w' : World}

theorem Tenure.next_quiet {t : Tenure} {c : Cmd} {r : c.Resp} (hc : c.moves = false) : t.next c r = t := by
  cases c with
  | acquireSlot | releaseSlot | newConnId => cases hc
  | net c =>
    cases c with
    | add d | remove d | kill => cases hc
    | _ => cases t <;> rfl
  | _ => cases t <;> rfl

theorem Seats.same (hs : Seats max f w) (h : SameSeats w w') : Seats max f w' := by
  obtain ⟨hslots, hconns, hnames, hbound⟩ := h
  exact
    { slots := by rw [hslots]; exact hs.slots
      bound := hbound.trans hs.bound
      named := by rw [hnames]; exact hs.named
      registered := by rw [hconns, hnames]; exact hs.registered
      nodup := by rw [hconns]; exact hs.nodup }

/-- The connections of the registry have different handlers, and all of them hold a slot. -/
theorem Seats.conns_le (hs : Seats max f w) {seats : Finset Nat} (hseats : ∀ i, i ∈ seats ↔ (f i).holds = true) :
    w.net.registry.conns.length ≤ seats.card := by
  rw [← List.toFinset_card_of_nodup hs.nodup]
  have hex : ∀ c, ∃ i, c ∈ w.net.registry.conns → f i = .serving c true := by
    intro c
    by_cases hc : c ∈ w.net.registry.conns
    · obtain ⟨i, -, hi⟩ := hs.registered c hc
      exact ⟨i, fun _ => hi⟩
    · exact ⟨0, fun h => absurd h hc⟩
  choose owner howner using hex
  refine Finset.card_le_card_of_injOn owner (fun c hc => ?_) fun c hc d hd hcd => ?_
  · exact (hseats _).2 (by rw [howner c (List.mem_toFinset.1 hc)]; rfl)
  · have heq := (howner c (List.mem_toFinset.1 hc)).symm.trans (hcd ▸ howner d (List.mem_toFinset.1 hd))
    cases heq
    rfl

/-- A handler takes a slot. -/
theorem Seats.acquire (hs : Seats max f w) (hi : f i = .outside) :
    Seats max (Function.update f i (if w.net.registry.acquire.1 then .seated else .outside))
      (w.setRegistry w.net.registry.acquire.2) := by
  obtain ⟨seats, hmem, hcard⟩ := hs.slots
  have hother : ∀ {c j t}, f j = .serving c t → j ≠ i := by
    rintro c j t hj rfl
    rw [hi] at hj
    cases hj
  have hnamed : ∀ c j, (c, j) ∈ w.conns → f j = .left ∨ Serving c (f j) := hs.named
  have hfree : ∀ c j, (c, j) ∈ w.conns → j ≠ i := by
    rintro c j hj rfl
    rcases hnamed c j hj with h | ⟨b, h⟩
    · rw [hi] at h
      cases h
    · rw [hi] at h
      cases h
  have hout : i ∉ seats := by
    rw [hmem, hi]
    decide
  have hconns : w.net.registry.acquire.2.conns = w.net.registry.conns := by
    unfold Registry.acquire
    split <;> rfl
  refine ⟨?_, hs.bound, fun c j hj => ?_, fun c hc => ?_, hconns ▸ hs.nodup⟩
  · unfold Registry.acquire
    split
    · rename_i hzero
      refine ⟨seats, fun j => ?_, hcard⟩
      by_cases hj : j = i
      · subst hj
        simp [hout, Tenure.holds]
      · simpa [Function.update_of_ne hj] using hmem j
    · rename_i hpos
      refine ⟨insert i seats, fun j => ?_, ?_⟩
      · by_cases hj : j = i
        · subst hj
          simp [Tenure.holds]
        · simpa [Function.update_of_ne hj, hj] using hmem j
      · rw [Finset.card_insert_of_notMem hout]
        show seats.card + 1 + (w.net.registry.slots - 1) = max
        omega
  · rw [Function.update_of_ne (hfree c j hj)]
    exact hnamed c j hj
  · rw [show (w.setRegistry w.net.registry.acquire.2).net.registry.conns = w.net.registry.conns from hconns] at hc
    obtain ⟨j, hown, hj⟩ := hs.registered c hc
    exact ⟨j, hown, by rw [Function.update_of_ne (hother hj)]; exact hj⟩

/-- A handler gives its slot back. -/
theorem Seats.release (hs : Seats max f w) {c : String} (hi : f i = .serving c false) :
    Seats max (Function.update f i .left) (w.setRegistry (w.net.registry.release w.maxConnections)) := by
  obtain ⟨seats, hmem, hcard⟩ := hs.slots
  have hin : i ∈ seats := (hmem i).2 (by rw [hi]; rfl)
  have hpos : 0 < seats.card := Finset.card_pos.2 ⟨i, hin⟩
  have hroom : w.net.registry.slots < w.maxConnections := by
    rw [hs.bound]
    omega
  unfold Registry.release
  rw [if_pos hroom]
  refine ⟨⟨seats.erase i, fun j => ?_, ?_⟩, hs.bound, fun d j hj => ?_, fun d hd => ?_, hs.nodup⟩
  · by_cases hj : j = i
    · subst hj
      simp [Tenure.holds]
    · simpa [Function.update_of_ne hj, hj] using hmem j
  · rw [Finset.card_erase_of_mem hin]
    show seats.card - 1 + (w.net.registry.slots + 1) = max
    omega
  · by_cases hji : j = i
    · subst hji
      exact .inl (Function.update_self ..)
    · rw [Function.update_of_ne hji]
      exact hs.named d j hj
  · obtain ⟨j, hown, hj⟩ := hs.registered d hd
    refine ⟨j, hown, ?_⟩
    rw [Function.update_of_ne]
    · exact hj
    · rintro rfl
      rw [hi] at hj
      cases hj

/-- A connection gets its name. -/
theorem Seats.name (hs : Seats max f w) (hi : f i = .seated) {c : String} :
    Seats max (Function.update f i (.serving c false)) { w with conns := w.conns ++ [(c, i)] } := by
  obtain ⟨seats, hmem, hcard⟩ := hs.slots
  refine ⟨⟨seats, fun j => ?_, hcard⟩, hs.bound, fun d j hj => ?_, fun d hd => ?_, hs.nodup⟩
  · by_cases hj : j = i
    · subst hj
      have hin : j ∈ seats := (hmem j).2 (by rw [hi]; rfl)
      simp [hin, Tenure.holds]
    · simpa [Function.update_of_ne hj] using hmem j
  · rcases List.mem_append.1 hj with hold | hnew
    · have hji : j ≠ i := by
        rintro rfl
        rcases hs.named d j hold with h | ⟨b, h⟩
        · rw [hi] at h
          cases h
        · rw [hi] at h
          cases h
      rw [Function.update_of_ne hji]
      exact hs.named d j hold
    · cases List.mem_singleton.1 hnew
      exact .inr ⟨false, Function.update_self ..⟩
  · obtain ⟨j, hown, hj⟩ := hs.registered d hd
    refine ⟨j, List.mem_append_left _ hown, ?_⟩
    rw [Function.update_of_ne]
    · exact hj
    · rintro rfl
      rw [hi] at hj
      cases hj

/-- The registry takes in or gives up the connection of a handler. -/
theorem Seats.register (hs : Seats max f w) {c : String} {b b' : Bool} (hi : f i = .serving c b)
    (hc : (c, i) ∈ w.conns) {n : Net} {live : List String} (hslots : n.registry.slots = w.net.registry.slots)
    (hconns : ∀ d ∈ n.registry.conns, (d = c ∧ b' = true) ∨ (d ≠ c ∧ d ∈ w.net.registry.conns))
    (hnodup : n.registry.conns.Nodup) :
    Seats max (Function.update f i (.serving c b')) { w with net := n, live := live } := by
  obtain ⟨seats, hmem, hcard⟩ := hs.slots
  refine ⟨⟨seats, fun j => ?_, hslots ▸ hcard⟩, hs.bound, fun d j hj => ?_, fun d hd => ?_, hnodup⟩
  · by_cases hj : j = i
    · subst hj
      have hin : j ∈ seats := (hmem j).2 (by rw [hi]; rfl)
      simp [hin, Tenure.holds]
    · simpa [Function.update_of_ne hj] using hmem j
  · by_cases hji : j = i
    · subst hji
      rcases hs.named d j hj with h | ⟨b₀, h⟩
      · rw [hi] at h
        cases h
      · rw [hi] at h
        cases h
        exact .inr ⟨b', Function.update_self ..⟩
    · rw [Function.update_of_ne hji]
      exact hs.named d j hj
  · rcases hconns d hd with ⟨rfl, rfl⟩ | ⟨hne, hd⟩
    · exact ⟨i, hc, Function.update_self ..⟩
    · obtain ⟨j, hown, hj⟩ := hs.registered d hd
      refine ⟨j, hown, ?_⟩
      rw [Function.update_of_ne]
      · exact hj
      · rintro rfl
        rw [hi] at hj
        cases hj
        exact hne rfl

/-- **One step** keeps slots, registry and handlers in agreement. -/
theorem seats_step (hs : Seats max f w) {c : Cmd} {r : c.Resp} (hnames : (w.conns.map Prod.fst).Nodup)
    (hreq : GatewayReq i c w) (hperm : (f i).permits c) (he : World.exec i c w r = some w') :
    Seats max (Function.update f i ((f i).next c r)) w' := by
  by_cases hc : c.moves = false
  · rw [Tenure.next_quiet hc, Function.update_eq_self]
    exact hs.same (sameSeats hc he)
  have howned : ∀ {d}, (d, i) ∈ w.conns → f i ≠ .left → ∃ b, f i = .serving d b := by
    intro d hd hleft
    rcases hs.named d i hd with h | h
    · exact absurd h hleft
    · exact h
  cases c with
  | acquireSlot =>
    obtain ⟨rfl, rfl⟩ := Net.give_eq_some.1 he
    rw [show f i = .outside from hperm]
    exact hs.acquire hperm
  | releaseSlot =>
    cases he
    obtain ⟨c, hi⟩ := hperm
    rw [hi]
    exact hs.release hi
  | newConnId =>
    have hi : f i = .seated := hperm
    simp only [World.exec] at he
    split at he
    · cases he
    cases he
    rw [hi]
    exact hs.name hi
  | net c =>
    obtain ⟨n, hn, rfl⟩ := exec_net he
    cases c with
    | add d =>
      obtain ⟨b, hi⟩ := howned hreq.2 hperm
      obtain ⟨rfl, rfl⟩ := Net.exec_add hn
      rw [hi]
      simp only [Tenure.next, decide_true, Bool.and_true]
      have hsame : ∀ x ∈ w.net.registry.conns, (x = d ∧ b = true) ∨ (x ≠ d ∧ x ∈ w.net.registry.conns) := by
        intro x hx
        by_cases hxd : x = d
        · subst hxd
          obtain ⟨j, hown, hj⟩ := hs.registered x hx
          obtain rfl : j = i := mem_unique hnames hown hreq.2
          rw [hi] at hj
          cases hj
          exact .inl ⟨rfl, rfl⟩
        · exact .inr ⟨hxd, hx⟩
      unfold Registry.add
      split
      · rw [Bool.or_false]
        exact hs.register hi hreq.2 rfl hsame hs.nodup
      · rw [Bool.or_true]
        refine hs.register hi hreq.2 rfl (fun x hx => ?_) ?_
        · have hx : x ∈ if d ∈ w.net.registry.conns then w.net.registry.conns
              else w.net.registry.conns ++ [d] := hx
          by_cases hxd : x = d
          · exact .inl ⟨hxd, rfl⟩
          · refine .inr ⟨hxd, ?_⟩
            split at hx
            · exact hx
            · rcases List.mem_append.1 hx with hx | hx
              · exact hx
              · exact absurd (List.mem_singleton.1 hx) hxd
        · show (if d ∈ w.net.registry.conns then w.net.registry.conns
            else w.net.registry.conns ++ [d]).Nodup
          split
          · exact hs.nodup
          · rename_i hd
            exact List.Nodup.append hs.nodup (List.nodup_singleton d) (List.disjoint_singleton.2 hd)
    | remove d =>
      obtain ⟨b, hi⟩ := howned hreq.2.1 hperm
      cases hn
      rw [hi]
      simp only [Tenure.next, decide_true, Bool.not_true, Bool.and_false]
      refine hs.register hi hreq.2.1 rfl (fun x hx => ?_) (hs.nodup.filter _)
      rw [Registry.remove, List.mem_filter] at hx
      exact .inr ⟨by simpa using hx.2, hx.1⟩
    | kill =>
      obtain ⟨rfl, rfl⟩ := Net.exec_kill hn
      have hnext : ∀ t : Tenure, t.next (.net .kill) w.net.registry.conns = t := fun t => by cases t <;> rfl
      rw [hnext, Function.update_eq_self]
      exact ⟨hs.slots, hs.bound, hs.named, fun d hd => absurd hd List.not_mem_nil, List.nodup_nil⟩
    | _ => exact absurd rfl hc
  | _ => exact absurd rfl hc

end Step

/-! ## Runs -/

/-- What the steps of a handler say of its slot. -/
def Tenure.Tells (tr : Run) : Tenure → Prop
  | .outside => ¬ Run.Acquired tr ∧ Run.released tr = 0
  | .seated | .serving _ _ => Run.Acquired tr ∧ Run.released tr = 0
  | .left => Run.Acquired tr ∧ Run.released tr = 1

theorem Run.acquired_append {tr : Run} {x : Sigma Cmd.Resp} (hx : ⟨.acquireSlot, (true : Bool)⟩ ≠ x) :
    Run.Acquired (tr ++ [x]) ↔ Run.Acquired tr := by
  unfold Run.Acquired
  rw [List.mem_append, List.mem_singleton]
  exact ⟨fun h => h.resolve_right hx, .inl⟩

/-- A permitted step keeps them true. -/
theorem Tenure.Tells.snoc {t : Tenure} {tr : Run} (ht : t.Tells tr) {c : Cmd} {r : c.Resp}
    (hperm : t.permits c) : (t.next c r).Tells (tr ++ [⟨c, r⟩]) := by
  have hquiet : c ≠ .acquireSlot → c ≠ .releaseSlot →
      (Run.Acquired (tr ++ [⟨c, r⟩]) ↔ Run.Acquired tr) ∧ Run.released (tr ++ [⟨c, r⟩]) = Run.released tr := by
    intro hacq hrel
    refine ⟨Run.acquired_append fun h => hacq (congrArg Sigma.fst h).symm, ?_⟩
    rw [Run.released_append]
    cases c with
    | releaseSlot => exact absurd rfl hrel
    | _ => rfl
  by_cases hacq : c = .acquireSlot
  · subst hacq
    obtain rfl : t = .outside := hperm
    obtain ⟨hnone, hzero⟩ := ht
    have hsame : Run.released (tr ++ [⟨.acquireSlot, r⟩]) = 0 := by
      rw [Run.released_append, hzero]
      rfl
    cases r with
    | false =>
      have hne : (⟨.acquireSlot, (true : Bool)⟩ : Sigma Cmd.Resp) ≠ ⟨.acquireSlot, (false : Bool)⟩ := by
        intro h
        cases h
      exact ⟨fun h => hnone ((Run.acquired_append hne).1 h), hsame⟩
    | true => exact ⟨List.mem_append_right _ List.mem_cons_self, hsame⟩
  by_cases hrel : c = .releaseSlot
  · subst hrel
    obtain ⟨d, rfl⟩ := hperm
    obtain ⟨hacq', hzero⟩ := ht
    refine ⟨List.mem_append_left _ hacq', ?_⟩
    rw [Run.released_append, hzero]
    rfl
  obtain ⟨hA, hR⟩ := hquiet hacq hrel
  have hsame : ∀ u : Tenure, u.Tells tr → u.Tells (tr ++ [⟨c, r⟩]) := by
    intro u hu
    cases u <;> exact ⟨by simpa [hA] using hu.1, hR.trans hu.2⟩
  by_cases hmoves : c.moves = false
  · rw [Tenure.next_quiet hmoves]
    exact hsame t ht
  cases c with
  | acquireSlot => exact absurd rfl hacq
  | releaseSlot => exact absurd rfl hrel
  | newConnId =>
    obtain rfl : t = .seated := hperm
    exact hsame (.serving _ _) ht
  | net n =>
    cases n with
    | add d | remove d => cases t <;> exact hsame _ ht
    | kill =>
      have hnext : t.next (.net .kill) r = t := by cases t <;> rfl
      rw [hnext]
      exact hsame t ht
    | _ => exact absurd rfl hmoves
  | _ => exact absurd rfl hmoves

theorem Tenure.Tells.holds {t : Tenure} {tr : Run} (ht : t.Tells tr) :
    t.holds = true ↔ Run.Acquired tr ∧ Run.released tr = 0 := by
  cases t with
  | outside => exact iff_of_false nofun fun h => ht.1 h.1
  | seated | serving c b => exact iff_of_true rfl ht
  | left => exact iff_of_false nofun fun h => by rw [ht.2] at h; cases h.2

/-- A configuration with the record of its steps. -/
abbrev Recorded := Config Exn Cmd Cmd.Resp (World × List (Nat × Sigma Cmd.Resp))

namespace Boot

/-- The first configuration, with nothing on record. -/
def recorded (B : Boot) : Recorded := ⟨(B.start.state, []), B.start.pool⟩

/-- Every thread keeps to its tenure. -/
theorem pool_follows (B : Boot) (i : Nat) :
    (B.start.pool i).Follows slotMonitor (fun _ => Unseated) (fun _ => Unseated) .outside := by
  have hbystands : ∀ c : Cmd, c.closes = true → c.bystands = true := by
    intro c hc
    cases c with
    | env q => cases hc
    | _ => first | rfl | cases hc
  have hwait : ∀ {p : GProg Unit}, (p.Issues fun c => c.closes = true) →
      p.Follows slotMonitor (fun _ => Unseated) (fun _ => Unseated) .outside := fun hp =>
    Protocol.wp_mono (bystands_follows (hp.mono hbystands)) (fun _ _ _ h => .inl h)
      fun _ _ _ h => .inl h
  match i with
  | 0 => exact hwait (Quiesce.closing_canceller B.args)
  | 1 => exact hwait Quiesce.closing_listener
  | j + 2 => exact handle_follows (B.clients j)

variable {B : Boot} {cfg : Recorded}

theorem follows (h : Reach gatewayMachine.recorded B.recorded cfg) (i : Nat) :
    (cfg.pool i).Follows slotMonitor (fun _ => Unseated) (fun _ => Unseated) (tenure cfg.state.2 i) :=
  follows_of_reach h rfl (B.pool_follows i)

theorem seats (h : Reach gatewayMachine.recorded B.recorded cfg) :
    Seats B.maxConnections (tenure cfg.state.2) cfg.state.1 ∧
      ∀ i, (tenure cfg.state.2 i).Tells (Traces.own cfg.state.2 i) := by
  induction h with
  | refl =>
    refine ⟨⟨⟨∅, fun i => iff_of_false (Finset.notMem_empty i) nofun, Nat.zero_add _⟩, rfl, ?_, ?_,
      List.nodup_nil⟩, fun i => ⟨nofun, rfl⟩⟩
    · exact fun c i hc => absurd hc List.not_mem_nil
    · exact fun c hc => absurd hc List.not_mem_nil
  | @tail mid cfg' hreach hstep ih =>
    obtain ⟨hseats, htells⟩ := ih
    have hrun : B.Reachable ⟨mid.state.1, mid.pool⟩ := reach_of_recorded hreach
    cases hstep with
    | @mk i c k r s hp he =>
      obtain ⟨w, hw, rfl⟩ := Option.map_eq_some_iff.1 he
      have hfollow := follows hreach i
      rw [hp] at hfollow
      have hperm : (tenure mid.state.2 i).permits c := (Prog.follows_cmd.1 hfollow).1
      have hnext : tenure (mid.state.2 ++ [(i, ⟨c, r⟩)]) =
          Function.update (tenure mid.state.2) i ((tenure mid.state.2 i).next c r) := by
        funext j
        unfold tenure
        by_cases hj : j = i
        · subst hj
          rw [Function.update_self, Traces.own_append_self, Monitor.run_append]
          rfl
        · rw [Function.update_of_ne hj, Traces.own_append_ne _ _ (Ne.symm hj)]
      rw [hnext]
      refine ⟨seats_step hseats hrun.inv.conns (hrun.req hp) hperm hw, fun j => ?_⟩
      by_cases hj : j = i
      · subst hj
        rw [Function.update_self, Traces.own_append_self]
        exact (htells j).snoc hperm
      · rw [Function.update_of_ne hj, Traces.own_append_ne _ _ (Ne.symm hj)]
        exact htells j

end Boot

/-- **Bounded concurrency, no leaked slot.**  In every interleaving the free slots and the holders, the
handlers that took one and have not given it back, are `MAX_CONNECTIONS` together.  Only holders decide,
mint, read from the client, open a socket or connect, the registry has no more connections than there are
holders, and no handler that has ended is one of them. -/
theorem bounded_concurrency {B : Boot} {cfg : Recorded} (h : Reach gatewayMachine.recorded B.recorded cfg) :
    ∃ holders : Finset Nat,
      (∀ i, i ∈ holders ↔ Run.Acquired (Traces.own cfg.state.2 i) ∧ Run.released (Traces.own cfg.state.2 i) = 0) ∧
      holders.card + cfg.state.1.net.registry.slots = B.maxConnections ∧
      cfg.state.1.net.registry.conns.length ≤ holders.card ∧
      (∀ i c k, cfg.pool i = .cmd c k → c.serves = true → i ∈ holders) ∧
      ∀ i out, cfg.pool i = Prog.ofExcept out → i ∉ holders := by
  obtain ⟨hseats, htells⟩ := Boot.seats h
  obtain ⟨holders, hmem, hcard⟩ := hseats.slots
  refine ⟨holders, fun i => (hmem i).trans (htells i).holds, hcard, hseats.conns_le hmem, ?_, ?_⟩
  · intro i c k hp hserves
    have hfollow := Boot.follows h i
    rw [hp] at hfollow
    have hperm : (tenure cfg.state.2 i).permits c := (Prog.follows_cmd.1 hfollow).1
    have hnamed : (tenure cfg.state.2 i).named = true := by
      cases c with
      | env q => exact hperm hserves
      | connect a c pin => exact hperm hserves
      | _ => cases hserves
    rw [hmem]
    generalize tenure cfg.state.2 i = t at hnamed
    cases t <;> first | rfl | cases hnamed
  · intro i out hp
    have hfollow := Boot.follows h i
    rw [hp] at hfollow
    have hunseated : Unseated (tenure cfg.state.2 i) := Prog.follows_ended (A := Unseated) hfollow
    rw [hmem, hunseated.holds]
    exact nofun

/-- Thread `2` has registered its connection, and its next step serves it. -/
def Replay.seated (cfg : Config Exn Cmd Cmd.Resp (World × List (Nat × Sigma Cmd.Resp))) : Bool :=
  match cfg.pool 2 with
  | .cmd c _ => c.serves && decide (cfg.state.1.net.registry.conns = ["conn-1"])
  | _ => false

/-- A handler has registered its connection and is about to ask for a decision: it is the one holder. -/
theorem bounded_concurrency_replay : ∃ cfg c k, Reach gatewayMachine.recorded Replay.boot.recorded cfg ∧
    cfg.pool 2 = .cmd c k ∧ c.serves = true ∧ cfg.state.1.net.registry.conns = ["conn-1"] ∧
    ∃ holders : Finset Nat, 2 ∈ holders ∧ holders.card + cfg.state.1.net.registry.slots = 8 := by
  have hrun : (schedule gatewayMachine.recorded (fun i c s => Replay.reply Replay.fair Replay.accept i c s.1)
      (List.replicate 4 2) Replay.boot.recorded).any Replay.seated = true := by
    decide +kernel
  rw [Option.any_eq_true] at hrun
  obtain ⟨cfg, hrun, hseated⟩ := hrun
  have hreach := schedule_reach hrun
  unfold Replay.seated at hseated
  split at hseated
  · rename_i c k hnext
    rw [Bool.and_eq_true, decide_eq_true_eq] at hseated
    obtain ⟨hserves, hconns⟩ := hseated
    obtain ⟨holders, -, hcard, -, hserving, -⟩ := bounded_concurrency hreach
    exact ⟨cfg, c, k, hreach, hnext, hserves, hconns, holders, hserving 2 c k hnext hserves, hcard⟩
  · cases hseated

end StrixPEP
