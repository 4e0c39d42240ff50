import StrixPEP.Pdp.Canonical
import StrixPEP.Pdp.Desk

/-!
# A policy that admits one address

`openPolicy pid cap` maps every IPv4 source to the program `pid`, whose cap is `cap` and which may
reach `8.8.8.8` on port 443.

* `openGrounds` — the grounds of a call under it, on every platform, for every program id and asset;
* `open_decides` — where the reservation succeeds the call allows.
-/

namespace StrixPEP.Pdp

open IpAddress (Text)
open Threads

/-- The one address. -/
def openAddress : String := "8.8.8.8"

def openProgram (pid : String) (cap : Json) : Json :=
  .obj [("authorization", .obj [("program_id", .str pid), ("verified_by", .str "lab"),
      ("verified_at", .int 0), ("expires_at", .int 1), ("status", .str "active")]),
    ("explicit_ip_allowlist", .arr [.str openAddress]),
    ("scope_allow", .arr [.str openAddress]),
    ("allowed_ports", .arr [.int 443]),
    ("allow_connect", .bool true),
    ("authorized_ips", .arr [.str openAddress]),
    ("max_requests", cap)]

def openPolicy (pid : String) (cap : Json) : Json :=
  .obj [("networks", .obj [("0.0.0.0/0", .str pid)]), ("programs", .obj [(pid, openProgram pid cap)])]

def openCall (asset : String) : Call where
  srcIp := "10.0.0.1"
  authority := openAddress
  port := 443
  method := "CONNECT"
  session := ""
  asset := asset
  credId := ""
  pin := none

def openPin : Pin := ⟨.ipv4, openAddress, 443⟩

def openResolution (host : String) : Resolution := ⟨host, [openAddress], [], "zone", none⟩

def openSpecs (pid asset : String) (cap : Json) : Specs :=
  if asset = "" then [(pid, cap)] else [(pid, cap), (s!"{pid}/{asset}", .null)]

theorem open_source (pid : String) (cap : Json) : programForSource "10.0.0.1" (openPolicy pid cap) =
    .ok (some (pid, openProgram pid cap)) := by
  have hsource : IpAddress.parse "10.0.0.1".toList = some (.v4 (quad 10 0 0 1)) := by decide
  have hnet : IpAddress.parseNet "0.0.0.0/0".toList = some (.v4 (quad 0 0 0 0) 0) := by decide
  have hin : (IpAddress.Net.v4 (quad 0 0 0 0) 0).contains (.v4 (quad 10 0 0 1)) = true := by
    decide
  unfold programForSource
  rw [hsource]
  show programIn (openPolicy pid cap) (.v4 (quad 10 0 0 1)) [("0.0.0.0/0", .str pid)] = _
  unfold programIn
  simp only [hnet, hin, if_true]
  have hget : Record.get? [(pid, openProgram pid cap)] pid = some (openProgram pid cap) := by
    simp [Record.get?]
  have hprograms : (openPolicy pid cap).field "programs" (.obj []) =
      .ok (.obj [(pid, openProgram pid cap)]) := rfl
  unfold programOf
  rw [hprograms]
  simp only [bind, Except.bind, hget]
  rfl

variable {P : Platform}

theorem open_ascii : Ascii openAddress.toList := by decide

theorem open_lower : P.tables.lower openAddress.toList = openAddress.toList := by
  rw [P.tables.lower_ascii _ open_ascii]
  decide

theorem open_parse : IpAddress.parse4 openAddress.toList = some (quad 8 8 8 8) := by decide

theorem open_canonical :
    canonicalHost P.tables P.idna openAddress.toList = some openAddress.toList := by
  have hprepare : prepare P.tables openAddress.toList = openAddress.toList :=
    prepare_eq_self open_lower (by decide) (by decide +kernel) (by decide +kernel)
  rw [canonicalHost_eq hprepare (by decide) (by decide +kernel) (by decide +kernel)
    (by decide) (by decide +kernel), if_neg (by decide +kernel),
    if_pos (numeric_of_parse4 open_parse), dottedQuad_of_parse4 open_parse]

theorem open_pattern : matchesPattern P.tables openAddress.toList openAddress.toList = true := by
  have hform : patternForm P.tables openAddress.toList = openAddress.toList := by
    have hstrip : strip openAddress.toList = openAddress.toList := by decide
    unfold patternForm
    rw [hstrip, open_lower]
    decide
  refine (matches_name ?_).2 hform.symm
  rw [hform]
  rintro ⟨r, hr⟩
  have hhead : openAddress.toList.head? = some '*' := congrArg List.head? hr
  exact absurd hhead (by decide)

theorem open_classify : (classify openAddress.toList []).ok = true := by decide

def openRecord (pid : String) : Json :=
  .obj [("program_id", .str pid), ("verified_by", .str "lab"), ("verified_at", .int 0),
    ("expires_at", .int 1), ("status", .str "active")]

theorem open_authorized (pid : String) (cap : Json) :
    authorization P pid (openProgram pid cap) = .ok (openRecord pid, P.floats.one) := by
  have hrec : (openProgram pid cap).field "authorization" (.obj []) = .ok (openRecord pid) := rfl
  have hcomplete : complete pid (openRecord pid)
      ["program_id", "verified_by", "verified_at", "expires_at", "status"] = .ok () := rfl
  have hstatus : (openRecord pid).get "status" = .ok (.str "active") := rfl
  have hexpires : (openRecord pid).get "expires_at" = .ok (.int 1) := rfl
  have hactive : ∀ reason, denyIf (Json.str "active" ≠ .str "active") pid reason = .ok () :=
    fun _ => rfl
  unfold authorization
  simp only [hrec, raising, Except.mapError, bind, Except.bind, hcomplete, hstatus, hactive, hexpires,
    P.floats.ofJson_one]

theorem open_scope :
    scopeAllows P openAddress.toList (.arr [.str openAddress]) (.arr []) = .ok true := by
  show (if matchesPattern P.tables openAddress.toList openAddress.toList then Except.ok true
    else .ok false) = _
  rw [if_pos open_pattern]

theorem open_admitted (pid : String) (cap : Json) :
    admitTarget P pid (openProgram pid cap) openAddress.toList 443 = .ok [] := by
  have hliteral : literalRefused (openProgram pid cap) openAddress.toList = .ok false := by
    have hip : isIpLiteral openAddress.toList = true := by decide
    unfold literalRefused
    rw [if_pos hip]
    rfl
  unfold admitTarget
  refine Except.bind_eq_ok.2 ⟨[], rfl, Except.bind_eq_ok.2 ⟨false, raising_ok.2 hliteral, ?_⟩⟩
  refine Except.bind_eq_ok.2 ⟨(), rfl, Except.bind_eq_ok.2 ⟨.arr [.str openAddress], rfl, ?_⟩⟩
  refine Except.bind_eq_ok.2 ⟨.arr [], rfl, Except.bind_eq_ok.2 ⟨true, raising_ok.2 open_scope, ?_⟩⟩
  rfl

theorem open_permitted (pid : String) (cap : Json) :
    admitMethod P pid (openProgram pid cap) "CONNECT" = .ok () := by
  unfold admitMethod
  rw [if_pos P.upper_connect]
  rfl

theorem open_resolved (pid : String) (cap : Json) (host : String) :
    resolvedDestination pid (openProgram pid cap) [] ["ipv4", "ipv6"] 443 (.ok (openResolution host)) =
      .ok (openPin, openResolution host) := by
  refine resolvedDestination_ok.2 ⟨rfl, rfl, rfl, ?_, rfl, rfl, rfl⟩
  intro a ha
  obtain rfl : a = (Family.ipv4, openAddress) := List.mem_singleton.1 ha
  exact open_classify

theorem open_reservation (pid asset : String) (cap : Json) :
    reservation pid (openProgram pid cap) asset = .ok (openSpecs pid asset cap) := by
  unfold reservation assetKey openSpecs
  split
  · rename_i h
    split at h
    · rename_i hasset
      rw [if_pos hasset]
      rfl
    · cases h
  · rename_i akey h
    split at h
    · cases h
    · rename_i hasset
      cases h
      rw [if_neg hasset]
      rfl

/-- The grounds of a call under the open policy. -/
def openGrounds (P : Platform) (pid asset : String) (cap : Json) : Grounds P (openCall asset) where
  policy := openPolicy pid cap
  pid := pid
  program := openProgram pid cap
  record := openRecord pid
  expires := P.floats.one
  now := P.floats.zero
  host := openAddress.toList
  exemptions := []
  families := ["ipv4", "ipv6"]
  pin := openPin
  resolution := some (openResolution openAddress)
  secret := .null
  specs := openSpecs pid asset cap
  generation := "authorization-verified-at:0"
  identified := open_source pid cap
  authorized := open_authorized pid cap
  unexpired := P.floats.one_not_le
  canonical := open_canonical
  admitted := open_admitted pid cap
  permitted := open_permitted pid cap
  familyList := rfl
  pinned := nofun
  resolved _ := ⟨openResolution openAddress, rfl, open_resolved pid cap openAddress, open_reservation pid asset cap⟩
  credential := rfl
  generated := rfl

/-- The world of the open policy. -/
def openEnv (P : Platform) (pid : String) (cap : Json) : Env P.floats :=
  ⟨.ok (openPolicy pid cap), false, P.floats.zero, fun host => .ok (openResolution host)⟩

/-- The desk after a call that allows. -/
def openDesk (s : Desk) (i : Nat) (specs : Specs) : Desk :=
  (Desk.mk (s.budgets.charge specs) (s.note i (.resolved openAddress)).log).note i (.reserved specs (.ok none))

/-- **A call under the open policy allows** where its reservation succeeds. -/
theorem open_decides {pid asset : String} {cap : Json} {i : Nat} {s : Desk}
    (hfree : Budgets.exceeded P.floats s.budgets (openSpecs pid asset cap) = .ok none) :
    Prog.runWith ((openEnv P pid cap).answer P i) (decide P (openCall asset)) s =
      (.ok (openGrounds P pid asset cap).decision, openDesk s i (openSpecs pid asset cap)) := by
  refine (allows_iff.2 ⟨openGrounds P pid asset cap, rfl, s, s, s, rfl, rfl, rfl, Or.inr ?_⟩).1
  refine ⟨rfl, openResolution openAddress, s.note i (.resolved openAddress), rfl, ?_, ?_⟩
  · have hhost : String.ofList (openGrounds P pid asset cap).host = openAddress := String.ofList_toList
    rw [hhost]
    rfl
  · have hreserve : Budgets.reserve P.floats s.budgets (openSpecs pid asset cap) =
        (.ok none, s.budgets.charge (openSpecs pid asset cap)) := by
      unfold Budgets.reserve
      rw [hfree]
    show ((Budgets.reserve P.floats s.budgets (openSpecs pid asset cap)).1,
      (Desk.mk (Budgets.reserve P.floats s.budgets (openSpecs pid asset cap)).2
        (s.note i (.resolved openAddress)).log).note i (.reserved (openSpecs pid asset cap)
          (Budgets.reserve P.floats s.budgets (openSpecs pid asset cap)).1)) = _
    rw [hreserve]
    rfl

/-- A thread with one such call. -/
theorem open_serves {pid asset : String} {cap : Json} {i : Nat} {s : Desk}
    (hfree : Budgets.exceeded P.floats s.budgets (openSpecs pid asset cap) = .ok none) :
    Prog.runWith ((openEnv P pid cap).answer P i) (serve P [openCall asset]) s =
      (.ok (), (openDesk s i (openSpecs pid asset cap)).note i
        (.decided (openCall asset) (openGrounds P pid asset cap).decision)) := by
  unfold serve
  rw [Prog.runWith_bind, Prog.runWith_tryCatch, Prog.runWith_bind, open_decides hfree]
  rfl

/-- What one such call leaves behind is reachable. -/
theorem open_reach {provides : Json → Bool} {pid asset : String} {cap : Json} {b : Budgets}
    (hpolicy : provides (openPolicy pid cap) = true)
    (hfree : Budgets.exceeded P.floats b (openSpecs pid asset cap) = .ok none) :
    ∃ pool, Reach (machine P provides)
      ⟨⟨b, []⟩, fun i => serve P (if i = 0 then [openCall asset] else [])⟩
      ⟨(openDesk ⟨b, []⟩ 0 (openSpecs pid asset cap)).note 0
        (.decided (openCall asset) (openGrounds P pid asset cap).decision), pool⟩ := by
  have henv : ∀ policy, (openEnv P pid cap).policy = .ok policy → provides policy = true := by
    intro policy hp
    cases hp
    exact hpolicy
  have hreach := alone_reach (i := 0) henv
    ⟨⟨b, []⟩, fun i => serve P (if i = 0 then [openCall asset] else [])⟩
  have hrun := open_serves (s := ⟨b, []⟩) (i := 0) hfree
  simp only [if_true] at hreach
  rw [hrun] at hreach
  exact ⟨_, hreach⟩

/-- Without a cap every reservation succeeds. -/
theorem open_uncapped (b : Budgets) (pid asset : String) :
    Budgets.exceeded P.floats b (openSpecs pid asset .null) = .ok none := by
  unfold openSpecs
  split <;> rfl

/-- Whole numbers in place of `float`, and ASCII only. -/
def asciiPlatform : Platform where
  tables := asciiTables
  idna := asciiIdna
  upper := String.map Char.toUpper
  floats :=
    { Value := Int
      ofJson := fun
        | .int n => .ok n
        | .bool b => .ok b.toNat
        | .str s => .error (.valueError s)
        | _ => .error .typeError
      le := fun x y => x ≤ y
      equals := fun _ _ => false
      atMost := fun _ _ => false
      zero := 0
      one := 1
      ofJson_one := rfl
      one_not_le := rfl }
  upper_connect := by decide +kernel

end StrixPEP.Pdp
