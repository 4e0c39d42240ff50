import StrixPEP.Lib.Except
import StrixPEP.Lib.Threads
import StrixPEP.Pdp.Budgets
import StrixPEP.Pdp.Scope

/-!
# `PDP.decide`

* `Query` — what a decision asks of the world: the policy, the kill file, the clock, the resolver and
  the budgets; `Answer` is what it can get.  `returned` tells the world of a decision.
* `decide` — `PDP.decide`, a program over these.  Its checks are definitions of their own, in the order
  of the source; each returns, denies with a `Decision`, or raises what Python raises on a policy
  whose values have other types.
-/

namespace StrixPEP.Pdp

open IpAddress (Text Address)
open Threads

/-- `Resolution`. -/
structure Resolution where
  host : String
  v4 : List String
  v6 : List String
  source : String
  error : Option String
  deriving DecidableEq

/-- `Decision`. -/
structure Decision where
  allow : Bool
  reason : String
  pin : Option Pin
  secret : Json
  programId : Option String
  resolution : Option Resolution
  detail : Record
  deriving DecidableEq

/-- The arguments of `decide`. -/
structure Call where
  srcIp : String
  authority : String
  port : Nat
  method : String
  session : String
  asset : String
  credId : String
  pin : Option Pin
  deriving DecidableEq

/-- `Decision(False, reason, program_id=program_id, resolution=resolution)`. -/
structure Denial where
  reason : String
  programId : Option String
  resolution : Option Resolution
  deriving DecidableEq

def Denial.decision (d : Denial) : Decision :=
  ⟨false, d.reason, none, .null, d.programId, d.resolution, []⟩

/-- How a decision ends early. -/
inductive Halt where
  | denied (d : Denial)
  | raised (e : PyError)
  deriving DecidableEq

abbrev Check (α : Type) := Except Halt α

section

variable {α : Type}

/-- `return Decision(False, reason, program_id=program_id)`. -/
def deny (programId reason : String) : Check α := .error (.denied ⟨reason, some programId, none⟩)

/-- `if refused: return Decision(False, reason, program_id=program_id)`. -/
def denyIf (refused : Bool) (programId reason : String) : Check Unit :=
  if refused then deny programId reason else .ok ()

/-- An exception that `decide` does not catch. -/
def raising (x : Except PyError α) : Check α := x.mapError .raised

theorem denyIf_ok {refused : Bool} {programId reason : String} {u : Unit} :
    denyIf refused programId reason = .ok u ↔ refused = false := by
  unfold denyIf
  split
  · rename_i h
    simp [h, deny]
  · rename_i h
    simp [h]

theorem raising_ok {x : Except PyError α} {a : α} : raising x = .ok a ↔ x = .ok a :=
  Except.mapError_eq_ok

end

/-! ## `_program_for_source` -/

/-- A source that the kernel reports as an IPv4-mapped address. -/
def sourceAddress : Address → Address
  | .v4 ip => .v4 ip
  | .v6 ip scope => if ip >>> 32 = 0xFFFF then .v4 (ip.setWidth 32) else .v6 ip scope

/-- `(policy.get("programs") or {}).get(pid)`, if it is not `None`. -/
def programOf (policy pid : Json) : Except PyError (Option (String × Json)) := do
  let programs ← policy.field "programs" (.obj [])
  match programs, pid with
  | .obj kvs, .str id =>
    match Record.get? kvs id with
    | none | some .null => .ok none
    | some program => .ok (some (id, program))
  | .obj _, pid => if pid.hashable then .ok none else .error .typeError
  | _, _ => .error .attributeError

/-- The loop of `_program_for_source`. -/
def programIn (policy : Json) (src : Address) : Record → Except PyError (Option (String × Json))
  | [] => .ok none
  | (cidr, pid) :: networks =>
    match IpAddress.parseNet cidr.toList with
    | none => programIn policy src networks
    | some net => if net.contains src then programOf policy pid else programIn policy src networks

/-- `_program_for_source`, and `none` for every result without a program. -/
def programForSource (srcIp : String) (policy : Json) : Except PyError (Option (String × Json)) :=
  match IpAddress.parse srcIp.toList with
  | none => .ok none
  | some src => do
    match ← policy.field "networks" (.obj []) with
    | .obj networks => programIn policy (sourceAddress src) networks
    | _ => .error .attributeError

/-! ## The checks -/

section

variable (P : Platform)

/-- The program of the source. -/
def identify (srcIp : String) (policy : Json) : Check (String × Json) := do
  match ← raising (programForSource srcIp policy) with
  | none => .error (.denied ⟨"NO_PROGRAM_FOR_SOURCE", none, none⟩)
  | some found => .ok found

/-- The loop over the keys of the authorization record. -/
def complete (pid : String) (rec : Json) : List String → Check Unit
  | [] => .ok ()
  | key :: keys => do
    let found ← raising (rec.hasText key)
    denyIf (!found) pid "AUTHORIZATION_INCOMPLETE"
    complete pid rec keys

/-- The authorization record, and when it expires. -/
def authorization (pid : String) (program : Json) : Check (Json × P.floats.Value) := do
  let rec ← raising (program.field "authorization" (.obj []))
  complete pid rec ["program_id", "verified_by", "verified_at", "expires_at", "status"]
  let status ← raising (rec.get "status")
  denyIf (status ≠ .str "active") pid s!"AUTHORIZATION_STATUS_{status.display}"
  let expiresAt ← raising (rec.get "expires_at")
  match P.floats.ofJson expiresAt with
  | .ok expires => .ok (rec, expires)
  | .error .typeError | .error (.valueError _) => deny pid "AUTHORIZATION_MALFORMED"
  | .error e => .error (.raised e)

/-- The canonical host. -/
def canonicalTarget (pid authority : String) : Check Text :=
  match canonicalHost P.tables P.idna authority.toList with
  | none => deny pid "HOST_NOT_CANONICALIZABLE"
  | some host => .ok host

/-- `any(match(pat) for pat in patterns)`. -/
def anyMatch (host : Text) : List Json → Except PyError Bool
  | [] => .ok false
  | .str pat :: patterns =>
    if matchesPattern P.tables host pat.toList then .ok true else anyMatch host patterns
  | _ :: _ => .error .attributeError

/-- `_in_scope`, on the values of the policy. -/
def scopeAllows (host : Text) (allow deny : Json) : Except PyError Bool := do
  if ← anyMatch P host (← deny.elements) then
    .ok false
  else if !allow.truthy then
    .ok false
  else
    anyMatch P host (← allow.elements)

/-- `is_ip_literal(host) and host not in set(program.get("explicit_ip_allowlist") or [])`. -/
def literalRefused (program : Json) (host : Text) : Except PyError Bool :=
  if isIpLiteral host then do
    let listed ← (← program.field "explicit_ip_allowlist" (.arr [])).textSet
    .ok (decide (String.ofList host ∉ listed))
  else .ok false

/-- The checks of the host and the port; what they return are the exemptions of private addresses. -/
def admitTarget (pid : String) (program : Json) (host : Text) (port : Nat) : Check (List Text) := do
  let exemptions ← raising (program.field "private_ip_exemptions" (.arr []) >>= Json.textSet)
  denyIf (← raising (literalRefused program host)) pid "IP_LITERAL_DENIED"
  let allow ← raising (program.field "scope_allow" (.arr []))
  let denied ← raising (program.field "scope_deny" (.arr []))
  denyIf (!(← raising (scopeAllows P host allow denied))) pid "OUT_OF_SCOPE"
  let ports ← raising (program.field "allowed_ports" (.arr []))
  denyIf (!(← raising (ports.hasPort P.floats port))) pid "PORT_DENIED"
  .ok (exemptions.map String.toList)

/-- The check of the method. -/
def admitMethod (pid : String) (program : Json) (method : String) : Check Unit := do
  if P.upper method = "CONNECT" then
    denyIf (!(← raising (program.get "allow_connect")).truthy) pid "CONNECT_DENIED_BY_POLICY"
  else
    let methods ← raising (program.field "allowed_methods" (.arr []))
    denyIf (!(← raising (methods.hasText (P.upper method)))) pid "METHOD_DENIED"

/-- `allowed_families`. -/
def allowedFamilies (program : Json) : Check (List String) :=
  raising (program.field "allowed_families" (.arr [.str "ipv4", .str "ipv6"]) >>= Json.textSet)

/-- `ip not in set(program.get("authorized_ips") or [])`. -/
def unauthorized (program : Json) (ip : String) : Except PyError Bool := do
  let listed ← (← program.field "authorized_ips" (.arr [])).textSet
  .ok (decide (ip ∉ listed))

/-- The checks of a pin that was given. -/
def pinnedDestination (pid : String) (program : Json) (exemptions : List Text) (families : List String)
    (pin : Pin) : Check Pin := do
  denyIf (decide (pin.family.text ∉ families)) pid s!"FAMILY_NOT_ALLOWED:{pin.family.text}"
  let v := classify pin.ip.toList exemptions
  denyIf (!v.ok) pid s!"PIN_REJECTED:{v.reason}"
  denyIf (← raising (unauthorized program pin.ip)) pid s!"IP_NOT_AUTHORIZED:{pin.ip}"
  .ok pin

/-- Every answer of the resolver, as it is tried. -/
def Resolution.answers (res : Resolution) : List (Family × String) :=
  res.v6.map (Family.ipv6, ·) ++ res.v4.map (Family.ipv4, ·)

/-- `return Decision(False, reason, program_id=program_id, resolution=resolution)`. -/
def refuse {α : Type} (pid : String) (res : Resolution) (reason : String) : Check α :=
  .error (.denied ⟨reason, some pid, some res⟩)

/-- `resolution.empty`. -/
def Resolution.empty (res : Resolution) : Bool := res.v4.isEmpty && res.v6.isEmpty

/-- The family and the address that are chosen. -/
def chooseAddress (pid : String) (families : List String) (res : Resolution) : Check (Family × String) :=
  if res.v6 ≠ [] ∧ "ipv6" ∉ families then refuse pid res "FAMILY_NOT_ALLOWED:ipv6_present_but_disabled"
  else
    match res.v6, res.v4 with
    | ip :: _, _ => .ok (.ipv6, ip)
    | [], ip :: _ =>
      if "ipv4" ∉ families then refuse pid res "FAMILY_NOT_ALLOWED:ipv4" else .ok (.ipv4, ip)
    | [], [] => refuse pid res "DNS_NO_USABLE_ANSWER"

/-- The checks of what the resolver answered, and the pin. -/
def resolvedDestination (pid : String) (program : Json) (exemptions : List Text) (families : List String)
    (port : Nat) (answer : Except String Resolution) : Check (Pin × Resolution) :=
  match answer with
  | .error name => deny pid s!"DNS_FAILURE:{name}"
  | .ok res =>
    let error := res.error.getD ""
    if error ≠ "" ∨ res.empty then
      let shown := orElse error "empty"
      refuse pid res s!"DNS_NO_ANSWER:{shown}"
    else
      match res.answers.find? fun a => !(classify a.2.toList exemptions).ok with
      | some (family, ip) =>
        refuse pid res
          s!"DNS_ANSWER_REJECTED:{family.text}:{(classify ip.toList exemptions).reason}:{ip}"
      | none => do
        let (family, ip) ← chooseAddress pid families res
        if ← raising (unauthorized program ip) then refuse pid res s!"IP_NOT_AUTHORIZED:{ip}"
        else .ok (⟨family, ip, port⟩, res)

/-- The credential of the request. -/
def credentialSecret (call : Call) (policy : Json) (pid : String) (host : Text) : Check Json :=
  if call.credId = "" then .ok .null
  else do
    let cred ← raising (policy.field "credentials" (.obj []) >>= fun credentials => credentials.get call.credId)
    denyIf (!cred.truthy) pid "UNKNOWN_CREDENTIAL"
    let program ← raising (cred.get "program_id")
    denyIf (program ≠ .str pid) pid "CREDENTIAL_WRONG_PROGRAM"
    let asset ← raising (cred.get "asset_id")
    denyIf (asset ≠ .str call.asset ∧ asset ≠ .str "*") pid "CREDENTIAL_WRONG_ASSET"
    let destinations ← raising (cred.field "destinations" (.arr []))
    let listed ← raising (destinations.hasText (String.ofList host))
    denyIf (!listed) pid "CREDENTIAL_WRONG_DESTINATION"
    raising (cred.get "secret")

/-- `akey`. -/
def assetKey (pid asset : String) : Option String := if asset = "" then none else some s!"{pid}/{asset}"

/-- What is to be reserved. -/
def reservation (pid : String) (program : Json) (asset : String) : Check Specs := do
  let cap ← raising (program.get "max_requests")
  match assetKey pid asset with
  | none => .ok [(pid, cap)]
  | some akey => do
    let assetCap ← raising (program.field "asset_max_requests" (.obj []) >>= fun caps => caps.get asset)
    .ok [(pid, cap), (akey, assetCap)]

/-- What the reservation returned. -/
def withinBudgets (pid asset : String) (answer : Except PyError (Option String)) : Check Unit := do
  match ← raising answer with
  | none => .ok ()
  | some key =>
    deny pid (if some key = assetKey pid asset then "BUDGET_EXHAUSTED_ASSET" else "BUDGET_EXHAUSTED_PROGRAM")

/-- The generation of the policy. -/
def policyGeneration (policy rec : Json) : Except PyError String := do
  let generation ← policy.get "policy_generation"
  if generation = .null ∨ generation = .str "" then do
    let verifiedAt ← rec.getOr "verified_at" (.str "")
    .ok s!"authorization-verified-at:{verifiedAt.display}"
  else .ok generation.display

/-- The binding of the reservation. -/
def budgetBinding (pid asset : String) : String :=
  let name := orElse asset "none"
  s!"program:{pid}|asset:{name}|reservation:connect"

/-- The decision that allows. -/
def approval (policy rec : Json) (pid asset : String) (host : Text) (secret : Json) (pin : Pin)
    (resolution : Option Resolution) : Check Decision := do
  let generation ← raising (policyGeneration policy rec)
  .ok
    { allow := true
      reason := "ALLOW"
      pin := some pin
      secret := secret
      programId := some pid
      resolution := resolution
      detail := [("canonical_host", .str (String.ofList host)), ("policy_generation", .str generation),
        ("budget_binding", .str (budgetBinding pid asset))] }

end

/-! ## The program -/

/-- What a decision asks of the world. -/
inductive Query where
  /-- `_policy_provider()`. -/
  | policy
  /-- `os.path.exists(kill_file)`. -/
  | killed
  /-- `time.time()`. -/
  | now
  /-- `_resolver.resolve(host)`. -/
  | resolve (host : String)
  /-- `budgets.reserve(specs)`. -/
  | reserve (specs : Specs)
  /-- The caller gets the decision. -/
  | returned (call : Call) (d : Decision)
  deriving DecidableEq

/-- What it gets; an exception of the policy provider and of the resolver by the name of its class. -/
def Answer (floats : Floats) : Query → Type
  | .policy => Except String Json
  | .killed => Bool
  | .now => floats.Value
  | .resolve _ => Except String Resolution
  | .reserve _ => Except PyError (Option String)
  | .returned _ _ => Unit

/-- A part of `decide`. -/
abbrev Deciding (P : Platform) (α : Type) := Prog Halt Query (Answer P.floats) α

section

variable (P : Platform)

def check {α : Type} (c : Check α) : Deciding P α := Prog.ofExcept c

def ask (q : Query) : Deciding P (Answer P.floats q) := Prog.perform q

/-- The policy. -/
def readPolicy : Deciding P Json := do
  let answer ← ask P .policy
  match (answer : Except String Json) with
  | .ok policy => pure policy
  | .error name => .raise (.denied ⟨s!"POLICY_UNAVAILABLE:{name}", none, none⟩)

/-- The kill switch. -/
def killSwitch : Deciding P Unit := do
  let killed ← ask P .killed
  match (killed : Bool) with
  | true => .raise (.denied ⟨"KILL_SWITCH_ACTIVE", none, none⟩)
  | false => pure ()

/-- The authorization record, if it has not expired. -/
def authorize (pid : String) (program : Json) : Deciding P Json := do
  let (rec, expires) ← check P (authorization P pid program)
  let now ← ask P .now
  check P (denyIf (P.floats.le expires now) pid "AUTHORIZATION_EXPIRED")
  pure rec

/-- The destination: the pin that was given, or a new one. -/
def destination (call : Call) (pid : String) (program : Json) (exemptions : List Text)
    (families : List String) (host : Text) : Deciding P (Pin × Option Resolution) := do
  match call.pin with
  | some pin => do
    let pin ← check P (pinnedDestination pid program exemptions families pin)
    pure (pin, none)
  | none => do
    let answer ← ask P (.resolve (String.ofList host))
    let (pin, res) ← check P (resolvedDestination pid program exemptions families call.port answer)
    pure (pin, some res)

/-- A connection is charged once: where it has no pin yet. -/
def chargeConnection (call : Call) (pid : String) (program : Json) : Deciding P Unit :=
  match call.pin with
  | some _ => pure ()
  | none => do
    let specs ← check P (reservation pid program call.asset)
    let answer ← ask P (.reserve specs)
    check P (withinBudgets pid call.asset answer)

/-- The body of `decide`. -/
def decideBody (call : Call) : Deciding P Decision := do
  let policy ← readPolicy P
  killSwitch P
  let (pid, program) ← check P (identify call.srcIp policy)
  let rec ← authorize P pid program
  let host ← check P (canonicalTarget P pid call.authority)
  let exemptions ← check P (admitTarget P pid program host call.port)
  check P (admitMethod P pid program call.method)
  let families ← check P (allowedFamilies program)
  let (pin, resolution) ← destination P call pid program exemptions families host
  let secret ← check P (credentialSecret call policy pid host)
  chargeConnection P call pid program
  check P (approval policy rec pid call.asset host secret pin resolution)

/-- `decide`. -/
def decide (call : Call) : Deciding P Decision := (decideBody P call).tryCatch fun
  | .denied d => .ret d.decision
  | .raised e => .raise (.raised e)

/-- The caller gets the decision. -/
def handOver (call : Call) (d : Decision) : Deciding P Unit := ask P (.returned call d)

/-- The calls of one thread, one after the other; an exception ends a call only. -/
def serve : List Call → Deciding P Unit
  | [] => pure ()
  | call :: calls => do
    Prog.tryCatch (do
      let d ← decide P call
      handOver P call d) fun _ => pure ()
    serve calls

end

end StrixPEP.Pdp
