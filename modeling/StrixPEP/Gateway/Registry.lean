import StrixPEP.Lib.Threads
import Mathlib.Data.List.Basic
import Mathlib.Data.List.Nodup

/-!
# Connections and their registry (`Registry` of `pep/gateway.py`, `ConnectionLifecycle`)

* `ConnectionLifecycle`, `Registry` — the fields of the Python objects; each function is the body
  of one `with self._lock` section.
* `Net` — the registry, the lifecycle of every connection and the state of every socket, as the
  threads share them; `NetCmd` are their atomic steps.  What follows a lock section outside the
  lock (closing a rejected socket, tearing down retained handles) is a program.
* `enforce` — `terminate_all` from its lock section to the last shutdown.

A connection is named by its `conn_id`.  A socket is open or closed: `shutdown` succeeds on an open
one and raises on a closed one; `close` closes it.  `Net.events` records what happened; no program
reads it.
-/

namespace StrixPEP

open Threads

/-- `ConnectionLifecycle`. -/
structure ConnectionLifecycle where
  terminal : Bool
  sockets : List Nat
  deriving DecidableEq, Repr

namespace ConnectionLifecycle

def fresh : ConnectionLifecycle := ⟨false, []⟩

/-- The lock section of `track_or_reject`. -/
def track (c : ConnectionLifecycle) (sock : Nat) : Bool × ConnectionLifecycle :=
  if c.terminal then (false, c) else (true, { c with sockets := c.sockets ++ [sock] })

/-- The lock section of `transfer`. -/
def transfer (c : ConnectionLifecycle) (old new : Nat) : Bool × ConnectionLifecycle :=
  if c.terminal then (false, c)
  else
    (true, { c with
      sockets := (if old ∈ c.sockets then c.sockets else c.sockets ++ [old]) ++ [new] })

/-- `begin_termination`. -/
def beginTermination (c : ConnectionLifecycle) : List Nat × ConnectionLifecycle :=
  (c.sockets, { c with terminal := true })

end ConnectionLifecycle

/-- `Registry`; `slots` is the value of `_sem`. -/
structure Registry where
  conns : List String
  slots : Nat
  killed : Bool
  producerAdmission : Bool
  activeProducers : Nat
  deriving DecidableEq, Repr

namespace Registry

def fresh (maxConnections : Nat) : Registry := ⟨[], maxConnections, false, true, 0⟩

/-- `acquire`. -/
def acquire (g : Registry) : Bool × Registry :=
  if g.slots = 0 then (false, g) else (true, { g with slots := g.slots - 1 })

/-- `release`; a release above the bound is ignored. -/
def release (g : Registry) (maxConnections : Nat) : Registry :=
  if g.slots < maxConnections then { g with slots := g.slots + 1 } else g

/-- `add`. -/
def add (g : Registry) (c : String) : Bool × Registry :=
  if g.killed then (false, g)
  else (true, { g with conns := if c ∈ g.conns then g.conns else g.conns ++ [c] })

/-- `remove`. -/
def remove (g : Registry) (c : String) : Registry :=
  { g with conns := g.conns.filter (· ≠ c) }

/-- `begin_producer`. -/
def beginProducer (g : Registry) : Bool × Registry :=
  if g.killed ∨ ¬ g.producerAdmission then (false, g)
  else (true, { g with activeProducers := g.activeProducers + 1 })

/-- `end_producer`; the Boolean is `false` where the method raises. -/
def endProducer (g : Registry) : Bool × Registry :=
  if g.activeProducers = 0 then (false, g)
  else (true, { g with activeProducers := g.activeProducers - 1 })

/-- The lock section of `terminate_all`. -/
def kill (g : Registry) : List String × Registry :=
  (g.conns, { g with killed := true, producerAdmission := false, conns := [] })

end Registry

/-- What happened to the connections. -/
inductive NetEvent where
  | added (tid : Nat) (conn : String) (ok : Bool)
  /-- The lock section of `track_or_reject` or `transfer` took or refused the socket. -/
  | offered (tid : Nat) (conn : String) (sock : Nat) (ok : Bool)
  /-- The call that offered the socket returned. -/
  | answered (tid : Nat) (conn : String) (sock : Nat) (ok : Bool)
  | marked (tid : Nat) (conn : String)
  /-- `shutdown` of a socket, on behalf of the connection. -/
  | shutdown (tid : Nat) (conn : String) (sock : Nat) (ok : Bool)
  | killed (victims : List String)
  /-- `on_linearized` is invoked; `terminated_conn_ids` and the snapshot are known. -/
  | linearized (torn victims : List String)
  deriving DecidableEq, Repr

/-- The registry, the connections and the sockets. -/
structure Net where
  registry : Registry
  lifecycles : String → ConnectionLifecycle
  closed : Nat → Bool
  events : List NetEvent

/-- The atomic steps on connections. -/
inductive NetCmd where
  | add (conn : String)
  | remove (conn : String)
  | track (conn : String) (sock : Nat)
  | transfer (conn : String) (old new : Nat)
  | isTerminal (conn : String)
  | beginTermination (conn : String)
  | shutdown (conn : String) (sock : Nat)
  | close (sock : Nat)
  | kill
  | answer (conn : String) (sock : Nat) (ok : Bool)
  | linearized (torn victims : List String)

/-- What each step returns. -/
def NetCmd.Resp : NetCmd → Type
  | .add _ | .track _ _ | .transfer _ _ _ | .isTerminal _ | .shutdown _ _ => Bool
  | .beginTermination _ => List Nat
  | .kill => List String
  | .remove _ | .close _ | .answer _ _ _ | .linearized _ _ => Unit

namespace Net

def fresh (maxConnections : Nat) : Net :=
  { registry := Registry.fresh maxConnections
    lifecycles := fun _ => ConnectionLifecycle.fresh
    closed := fun _ => false
    events := [] }

def setLifecycle (n : Net) (c : String) (l : ConnectionLifecycle) : Net :=
  { n with lifecycles := Function.update n.lifecycles c l }

def push (n : Net) (e : NetEvent) : Net := { n with events := n.events ++ [e] }

/-- The step returns `x` and leads to `n`. -/
def give {α S : Type} [DecidableEq α] (r x : α) (s : S) : Option S := if r = x then some s else none

theorem give_eq_some {α S : Type} [DecidableEq α] {r x : α} {s s' : S} :
    give r x s = some s' ↔ r = x ∧ s = s' := by
  unfold give
  split <;> simp_all

/-- One atomic step of thread `i`. -/
def exec (i : Nat) : (c : NetCmd) → Net → c.Resp → Option Net
  | .add c, n, (r : Bool) =>
    let (ok, registry) := n.registry.add c
    give r ok (push { n with registry := registry } (.added i c ok))
  | .remove c, n, _ => some { n with registry := n.registry.remove c }
  | .track c sock, n, (r : Bool) =>
    let (ok, l) := (n.lifecycles c).track sock
    give r ok ((n.setLifecycle c l).push (.offered i c sock ok))
  | .transfer c old new, n, (r : Bool) =>
    let (ok, l) := (n.lifecycles c).transfer old new
    give r ok ((n.setLifecycle c l).push (.offered i c new ok))
  | .isTerminal c, n, (r : Bool) => give r (n.lifecycles c).terminal n
  | .beginTermination c, n, (r : List Nat) =>
    let (socks, l) := (n.lifecycles c).beginTermination
    give r socks ((n.setLifecycle c l).push (.marked i c))
  | .shutdown c sock, n, (r : Bool) =>
    give r (!n.closed sock) (n.push (.shutdown i c sock (!n.closed sock)))
  | .close sock, n, _ => some { n with closed := Function.update n.closed sock true }
  | .kill, n, (r : List String) =>
    let (victims, registry) := n.registry.kill
    give r victims (push { n with registry := registry } (.killed victims))
  | .answer c sock ok, n, _ => some (n.push (.answered i c sock ok))
  | .linearized torn victims, n, _ => some (n.push (.linearized torn victims))

section Exec

variable {i : Nat} {n n' : Net} {c : String} {sock old new : Nat}

theorem exec_add {r : Bool} (h : exec i (.add c) n r = some n') :
    r = (n.registry.add c).1 ∧
      n' = push { n with registry := (n.registry.add c).2 } (.added i c (n.registry.add c).1) :=
  ⟨(give_eq_some.1 h).1, (give_eq_some.1 h).2.symm⟩

theorem exec_track {r : Bool} (h : exec i (.track c sock) n r = some n') :
    r = ((n.lifecycles c).track sock).1 ∧
      n' = (n.setLifecycle c ((n.lifecycles c).track sock).2).push (.offered i c sock r) := by
  have hr : r = ((n.lifecycles c).track sock).1 := (give_eq_some.1 h).1
  subst hr
  exact ⟨rfl, (give_eq_some.1 h).2.symm⟩

theorem exec_transfer {r : Bool} (h : exec i (.transfer c old new) n r = some n') :
    r = ((n.lifecycles c).transfer old new).1 ∧
      n' = (n.setLifecycle c ((n.lifecycles c).transfer old new).2).push (.offered i c new r) := by
  have hr : r = ((n.lifecycles c).transfer old new).1 := (give_eq_some.1 h).1
  subst hr
  exact ⟨rfl, (give_eq_some.1 h).2.symm⟩

theorem exec_isTerminal {r : Bool} (h : exec i (.isTerminal c) n r = some n') :
    r = (n.lifecycles c).terminal ∧ n' = n :=
  ⟨(give_eq_some.1 h).1, (give_eq_some.1 h).2.symm⟩

theorem exec_beginTermination {r : List Nat} (h : exec i (.beginTermination c) n r = some n') :
    r = (n.lifecycles c).sockets ∧
      n' = (n.setLifecycle c { n.lifecycles c with terminal := true }).push (.marked i c) :=
  ⟨(give_eq_some.1 h).1, (give_eq_some.1 h).2.symm⟩

theorem exec_shutdown {r : Bool} (h : exec i (.shutdown c sock) n r = some n') :
    r = !n.closed sock ∧ n' = n.push (.shutdown i c sock r) := by
  obtain ⟨h1, h2⟩ := give_eq_some.1 h
  exact ⟨h1, by rw [← h2, h1]⟩

theorem exec_kill {r : List String} (h : exec i .kill n r = some n') :
    r = n.registry.conns ∧ n' = push { n with registry := n.registry.kill.2 } (.killed r) := by
  obtain ⟨h1, h2⟩ := give_eq_some.1 h
  exact ⟨h1, by rw [← h2, h1]; rfl⟩

end Exec

end Net

/-! ## The programs -/

/-- A program over the connections; nothing in it raises. -/
abbrev NetProg := Prog Empty NetCmd NetCmd.Resp

namespace NetProg

/-- One step on the connections. -/
def issue (c : NetCmd) : NetProg c.Resp := Prog.perform c

/-- `_shutdown_close(sock)`, on behalf of the connection. -/
def shutdownClose (conn : String) (sock : Nat) : NetProg Bool := do
  let torn : Bool ← issue (.shutdown conn sock)
  let _ ← issue (.close sock)
  return torn

/-- `track_or_reject`. -/
def trackOrReject (conn : String) (sock : Nat) : NetProg Bool := do
  let ok : Bool ← issue (.track conn sock)
  if ok then return true
  else
    let _ ← shutdownClose conn sock
    return false

/-- `transfer`. -/
def transfer (conn : String) (old new : Nat) : NetProg Bool := do
  let ok : Bool ← issue (.transfer conn old new)
  if ok then return true
  else
    let _ ← shutdownClose conn new
    return false

/-- `shutdown_retained`. -/
def shutdownRetained (conn : String) : List Nat → NetProg Bool
  | [] => return false
  | sock :: socks => do
    let torn ← shutdownClose conn sock
    let rest ← shutdownRetained conn socks
    return torn || rest

/-- `terminate`. -/
def terminate (conn : String) : NetProg Bool := do
  let socks : List Nat ← issue (.beginTermination conn)
  shutdownRetained conn socks

/-- `retained = [(c, c.begin_termination()) for c in victims]`. -/
def markAll : List String → NetProg (List (String × List Nat))
  | [] => return []
  | c :: victims => do
    let socks : List Nat ← issue (.beginTermination c)
    let rest ← markAll victims
    return (c, socks) :: rest

/-- `torn = [c.conn_id for c, sockets in retained if c.shutdown_retained(sockets)]`. -/
def tearAll : List (String × List Nat) → NetProg (List String)
  | [] => return []
  | (c, socks) :: retained => do
    let torn ← shutdownRetained c socks
    let rest ← tearAll retained
    return if torn then c :: rest else rest

/-- `terminate_all` from its lock section up to the last shutdown: `torn` and the snapshot. -/
def enforce : NetProg (List String × List String) := do
  let victims : List String ← issue .kill
  let retained ← markAll victims
  let torn ← tearAll retained
  return (torn, victims)

end NetProg

end StrixPEP
