import StrixPEP.Evidence.Loaders
import StrixPEP.Evidence.RuleText
import StrixPEP.Lib.Except
import StrixPEP.Pdp.Values

/-!
# The raw checks of E9 (`_raw_checks` of `pep/verify_b7_evidence.py`)

* `captured`, `ruled`, `placed` — the three parts of the function, and `rawChecks` itself;
* `Tested` — what it asks of the rule: the texts of the flow occur somewhere in it;
* `Exact` — the rule names the flow: each text is an option of it that is not negated;
* `Spurious` — a text that is asked for occurs only where something is wrong with the place;
* `Whole` — each text stands in the rule where arguments begin and end.

A text file is read as UTF-8.  The ends of its lines do not matter for what is read, so they are not
unified first.

Principal result: `raw_rule_exact_iff`.
-/

namespace StrixPEP

namespace Evidence

open IpAddress (Text)
open RuleText (HasOption Stands Argument Defect arguments unquote)

namespace RawChecks

/-- What the interpreter brings: the JSON parser, the digits of the character database and `==`. -/
structure Interp where
  reader : Json.Reader
  /-- The value of a decimal digit. -/
  decimal : Char → Option Nat
  equals : Json → Json → Bool

/-- The files of the raw directory that are files and no links. -/
abbrev RawDir := List (String × List UInt8)

/-- `REQUIRED_RAW`. -/
def requiredRaw : List String :=
  ["attempt.pcap", "receiver.jsonl", "cal_receiver.jsonl", "rules.before", "rules.after", "sandbox.inspect.json",
    "receiver.inspect.json", "network-in.inspect.json", "network-eg.inspect.json", "host-links.json",
    "sandbox-ipv6-addr.json", "sandbox-ipv6-route-before.json"]

def Complete (raw : RawDir) : Prop := ∀ n ∈ requiredRaw, (raw.lookup n).isSome = true

instance (raw : RawDir) : Decidable (Complete raw) :=
  inferInstanceAs (Decidable (∀ n ∈ requiredRaw, (raw.lookup n).isSome = true))

def bytes (raw : RawDir) (name : String) : List UInt8 := (raw.lookup name).getD []

/-! ## Texts -/

/-- The first bits that a first byte of UTF-8 brings, and the ranges of the bytes that follow it. -/
def lead (n : Nat) : Option (Nat × List (Nat × Nat)) :=
  let tail := (0x80, 0xBF)
  if 0xC2 ≤ n ∧ n ≤ 0xDF then some (n - 0xC0, [tail])
  else if n = 0xE0 then some (0, [(0xA0, 0xBF), tail])
  else if n = 0xED then some (13, [(0x80, 0x9F), tail])
  else if 0xE1 ≤ n ∧ n ≤ 0xEF then some (n - 0xE0, [tail, tail])
  else if n = 0xF0 then some (0, [(0x90, 0xBF), tail, tail])
  else if n = 0xF4 then some (4, [(0x80, 0x8F), tail, tail])
  else if 0xF1 ≤ n ∧ n ≤ 0xF3 then some (n - 0xF0, [tail, tail, tail])
  else none

/-- `decode("utf-8", "replace")`; `pending` are the ranges that a begun character waits for. -/
def decodeReplace (pending : List (Nat × Nat)) (bits : Nat) : List UInt8 → Text
  | [] => if pending = [] then [] else [Char.ofNat 0xFFFD]
  | b :: rest =>
    let n := b.toNat
    let bad : Text := if pending = [] then [] else [Char.ofNat 0xFFFD]
    let start : Text :=
      if n < 0x80 then bad ++ Char.ofNat n :: decodeReplace [] 0 rest
      else
        match lead n with
        | some (m, ranges) => bad ++ decodeReplace ranges m rest
        | none => bad ++ Char.ofNat 0xFFFD :: decodeReplace [] 0 rest
    match pending with
    | [] => start
    | (lo, hi) :: more =>
      if lo ≤ n ∧ n ≤ hi then
        let m := bits * 64 + (n - 0x80)
        if more = [] then Char.ofNat m :: decodeReplace [] 0 rest else decodeReplace more m rest
      else start

/-- A character that ends a line of a text. -/
def isLineBreak (c : Char) : Bool :=
  let n := c.toNat
  decide (n ∈ [0x0A, 0x0B, 0x0C, 0x0D, 0x1C, 0x1D, 0x1E, 0x85, 0x2028, 0x2029])

/-- A carriage return and a line feed end one line. -/
def unify : Text → Text
  | [] => []
  | '\r' :: '\n' :: rest => '\n' :: unify rest
  | c :: rest => c :: unify rest

/-- `splitlines()`. -/
def splitLines (t : Text) : List Text :=
  let parts := (unify t).splitOnP isLineBreak
  if parts.getLast? = some [] then parts.dropLast else parts

/-! ## Values -/

/-- `value[key]`. -/
def item (v : Json) (key : String) : Except PyError Json :=
  match v with
  | .obj kvs => Record.item kvs key
  | _ => .error .typeError

/-- `value[0]`. -/
def first : Json → Except PyError Json
  | .arr (v :: _) => .ok v
  | .arr [] => .error .indexError
  | .str s =>
    match s.toList with
    | c :: _ => .ok (.str (String.singleton c))
    | [] => .error .indexError
  | .obj _ => .error (.keyError "0")
  | .null | .bool _ | .int _ | .float _ _ => .error .typeError

/-- `value in names`, for a set of texts. -/
def inSet (v : Json) (names : List String) : Except PyError Bool :=
  if v.hashable then
    match v with
    | .str s => .ok (decide (s ∈ names))
    | _ => .ok false
  else .error .typeError

/-- `left and right`. -/
def both (left : Bool) (right : Except PyError Bool) : Except PyError Bool := if left then right else .ok false

/-- `value.get(key) in names`. -/
def seenBy (v : Json) (key : String) (names : List String) : Except PyError Bool := do
  let found ← v.get key
  inSet found names

/-- The codes of the checks that fail. -/
def needs (checks : List (Bool × String)) : List String :=
  checks.filterMap fun c => if c.1 then none else some c.2

section

variable (I : Interp) (e : Record) (raw : RawDir)

def parse (t : Text) : Except PyError Json :=
  match Json.loadsText I.reader t with
  | .ok v => .ok v
  | .error .valueError => .error (.valueError "JSONDecodeError")
  | .error .recursionError => .error .recursionError

/-- `Path(p(name)).read_text(encoding="utf-8")`. -/
def fileText (name : String) : Except PyError Text :=
  match readText (bytes raw name) with
  | some t => .ok t
  | none => .error (.valueError "UnicodeDecodeError")

def readJson (name : String) : Except PyError Json := do
  let t ← fileText raw name
  parse I t

/-- The loop of `nonces`. -/
def noncesOf : List Text → Except PyError (List String)
  | [] => .ok []
  | line :: lines => do
    let o ← parse I line
    let n ← o.get "nonce"
    let rest ← noncesOf lines
    match n with
    | .str s => .ok (s :: rest)
    | _ => .ok rest

/-- `nonces`. -/
def nonces (name : String) : Except PyError (List String) := do
  let t ← fileText raw name
  noncesOf I (splitLines t)

/-! ## The capture and the receivers -/

/-- `nonce.encode("ascii")`. -/
def encodeAscii : Json → Except PyError (List UInt8)
  | .str s => if Ascii s.toList then .ok (s.toList.map Json.asciiByte) else .error (.valueError "UnicodeEncodeError")
  | _ => .error .attributeError

/-- From the capture to the calibration. -/
def captured (nonce : Json) : Except PyError (List String) := do
  let attempt ← e.item "packet_attempt"
  let pcapHash ← attempt.get "pcap_sha256"
  let code ← encodeAscii nonce
  let rn ← nonces I raw "receiver.jsonl"
  let cn ← nonces I raw "cal_receiver.jsonl"
  let c ← e.item "controls"
  let cal ← e.item "calibration"
  let receiver ← e.item "receiver"
  let logHash ← receiver.get "raw_log_sha256"
  let seen1 ← seenBy c "c1_nonce" rn
  let seen ← both seen1 (seenBy c "c2_nonce" rn)
  let reached ← inSet nonce rn
  let calHash ← cal.get "raw_log_sha256"
  let delivered ← seenBy cal "nonce" cn
  .ok (needs [
    (pcapHash = .str (Sha256.hexdigest (bytes raw "attempt.pcap")), "PCAP_HASH_MISMATCH"),
    (decide (code <:+: bytes raw "attempt.pcap"), "NONCE_ABSENT_FROM_PCAP"),
    (logHash = .str (Sha256.hexdigest (bytes raw "receiver.jsonl")), "RECEIVER_RAW_HASH_MISMATCH"),
    (seen, "RAW_RECEIVER_CONTROL_FAILED"),
    (!reached, "RAW_MEASUREMENT_REACHED_RECEIVER"),
    (calHash = .str (Sha256.hexdigest (bytes raw "cal_receiver.jsonl")), "CAL_RAW_HASH_MISMATCH"),
    (delivered, "RAW_CALIBRATION_NOT_DELIVERED")])

/-! ## The rule -/

/-- `counter_pattern`, on a stripped line. -/
def counterLine (line : Text) : Option (Text × Text × Text) :=
  let digit := fun c => (I.decimal c).isSome
  match line with
  | '[' :: t =>
    match t.dropWhile digit with
    | ':' :: u =>
      match u.dropWhile digit with
      | ']' :: v =>
        let packets := t.takeWhile digit
        let octets := u.takeWhile digit
        let rule := v.dropWhile isWhite
        if packets ≠ [] ∧ octets ≠ [] ∧ rule.length < v.length then some (packets, octets, rule) else none
      | _ => none
    | _ => none
  | _ => none

/-- `int(text)` of decimal digits. -/
def count (t : Text) : Except PyError Nat :=
  if 4300 < t.length then .error (.valueError "int")
  else .ok (t.foldl (fun n c => 10 * n + (I.decimal c).getD 0) 0)

/-- The loop of `rules`. -/
def rulesOf : List Text → List (Text × (Nat × Nat)) → Except PyError (List (Text × (Nat × Nat)))
  | [], out => .ok out
  | line :: lines, out =>
    match counterLine I (strip line) with
    | none => rulesOf lines out
    | some (packets, octets, rule) => do
      let p ← count I packets
      let o ← count I octets
      rulesOf lines (Dict.set out rule (p, o))

/-- `rules`. -/
def rules (name : String) : Except PyError (List (Text × (Nat × Nat))) :=
  rulesOf I (splitLines (decodeReplace [] 0 (bytes raw name))) []

/-- The flow of the measurement. -/
structure Flow where
  src : Text
  dst : Text
  port : Text
  bridge : Text
  deriving DecidableEq, Repr

/-- `"br-" + nin["Id"][:12]`. -/
def defaultBridge (nin : Json) : Except PyError Json := do
  let id ← item nin "Id"
  match id with
  | .str s => .ok (.str (String.ofList ("br-".toList ++ s.toList.take 12)))
  | _ => .error .typeError

/-- `bridge`. -/
def bridgeOf (nin : Json) : Except PyError Json := do
  let options ← nin.field "Options" (.obj [])
  let name ← options.get "com.docker.network.bridge.name"
  if name.truthy then .ok name else defaultBridge nin

def flowOf : Except PyError Flow := do
  let sender ← e.item "sender"
  let target ← e.item "target"
  let src ← item sender "src_ip"
  let dst ← item target "ip"
  let port ← item target "port"
  let networks ← readJson I raw "network-in.inspect.json"
  let nin ← first networks
  let bridge ← bridgeOf nin
  .ok ⟨src.display.toList, dst.display.toList, port.display.toList, bridge.display.toList⟩

/-- The options of the flow, in the order of `exact_tokens`. -/
def Flow.options (f : Flow) : List (Text × Text) :=
  [("-A".toList, "PREROUTING".toList), ("-s".toList, f.src ++ "/128".toList), ("-d".toList, f.dst ++ "/128".toList),
    ("-p".toList, "udp".toList), ("--dport".toList, f.port), ("-j".toList, "DROP".toList), ("-i".toList, f.bridge)]

/-- `exact_tokens`. -/
def Flow.exactTokens (f : Flow) : List Text := f.options.map fun o => o.1 ++ ' ' :: o.2

/-- `rule`. -/
def ruleOf : Except PyError Json := do
  let enforcement ← e.item "enforcement"
  enforcement.getOr "rule_identity" (.str "")

/-- The rule, where it can be looked for and looked into. -/
def ruleText : Json → Except PyError Text
  | .str s => .ok s.toList
  | _ => .error .typeError

/-- `f"strix-b7:{e['run_id']}"`. -/
def labelOf : Except PyError Text := do
  let runId ← e.item "run_id"
  .ok ("strix-b7:".toList ++ runId.display.toList)

/-- From the snapshots to the counters. -/
def ruled : Except PyError (List String) := do
  let rb ← rules I raw "rules.before"
  let ra ← rules I raw "rules.after"
  let named ← ruleOf e
  let f ← flowOf I e raw
  let rule ← ruleText named
  let label ← labelOf e
  let counted := match rb.lookup rule, ra.lookup rule with
    | some b, some a => [(decide (a.1 = b.1 + 1), "RAW_EXACT_COUNTER_NOT_ONE")]
    | _, _ => []
  .ok (needs ([
    ((rb.lookup rule).isSome && (ra.lookup rule).isSome, "EXACT_RULE_NOT_IN_RAW_SNAPSHOTS"),
    (f.exactTokens.all fun t => decide (t <:+: rule), "RAW_RULE_NOT_EXACT_FLOW"),
    (decide (label <:+: rule), "RAW_RULE_RUN_LABEL_MISSING")] ++ counted))

/-! ## The topology -/

/-- `str(networks.get(name, {}).get("GlobalIPv6Address"))`, of the networks of a container. -/
def addressIn (container name : Json) : Except PyError String := do
  let settings ← container.field "NetworkSettings" (.obj [])
  let networks ← settings.field "Networks" (.obj [])
  match networks with
  | .obj kvs =>
    let entry ← match name with
      | .str s => .ok ((Record.get? kvs s).getD (.obj []))
      | v => if v.hashable then .ok (.obj []) else .error .typeError
    let address ← entry.get "GlobalIPv6Address"
    .ok address.display
  | _ => .error .attributeError

/-- `any(x.get("ifname", "").split("@")[0] == host_veth for x in links)`. -/
def hasLink (hostVeth : Json) : List Json → Except PyError Bool
  | [] => .ok false
  | x :: links => do
    let name ← x.getOr "ifname" (.str "")
    match name with
    | .str s =>
      if Json.str (String.ofList (s.toList.takeWhile (· ≠ '@'))) = hostVeth then .ok true
      else hasLink hostVeth links
    | _ => .error .attributeError

/-- `any(str(x.get("dst")) == text for x in routes)`. -/
def hasRoute (text : String) : List Json → Except PyError Bool
  | [] => .ok false
  | x :: routes => do
    let dst ← x.get "dst"
    if dst.display = text then .ok true else hasRoute text routes

/-- `(sbx.get("State") or {}).get("Pid") == sender.get("container_pid")`. -/
def samePid (sbx sender : Json) : Except PyError Bool := do
  let state ← sbx.field "State" (.obj [])
  let pid ← state.get "Pid"
  let containerPid ← sender.get "container_pid"
  .ok (I.equals pid containerPid)

/-- `network.get("Id") == id`. -/
def sameId (network id : Json) : Except PyError Bool := do
  let found ← network.get "Id"
  .ok (I.equals found id)

/-- From the identities to the routes. -/
def placed (sender target : Json) : Except PyError (List String) := do
  let networks ← readJson I raw "network-in.inspect.json"
  let nin ← first networks
  let containers ← readJson I raw "sandbox.inspect.json"
  let sbx ← first containers
  let receivers ← readJson I raw "receiver.inspect.json"
  let recv ← first receivers
  let egress ← readJson I raw "network-eg.inspect.json"
  let neg ← first egress
  let sbxId ← sbx.get "Id"
  let containerId ← sender.get "container_id"
  let sameContainer ← both (I.equals sbxId containerId) (samePid I sbx sender)
  let ninId ← nin.get "Id"
  let networkId ← sender.get "network_id"
  let targetNetwork ← target.get "network_id"
  let sameNetworks ← both (I.equals ninId networkId) (sameId I neg targetNetwork)
  let links ← readJson I raw "host-links.json"
  let linkList ← links.elements
  let hostVeth ← sender.get "host_veth"
  let linked ← hasLink hostVeth linkList
  let ninName ← nin.get "Name"
  let sbxAddress ← addressIn sbx ninName
  let srcIp ← sender.get "src_ip"
  let negName ← neg.get "Name"
  let recvAddress ← addressIn recv negName
  let dstIp ← target.get "ip"
  let routes ← readJson I raw "sandbox-ipv6-route-before.json"
  let routeList ← routes.elements
  let routed ← hasRoute (String.ofList (dstIp.display.toList ++ "/128".toList)) routeList
  .ok (needs [
    (sameContainer, "RAW_SENDER_IDENTITY_MISMATCH"),
    (sameNetworks, "RAW_NETWORK_ID_MISMATCH"),
    (linked, "RAW_HOST_VETH_ABSENT"),
    (Json.str sbxAddress = srcIp, "RAW_SENDER_IPV6_MISMATCH"),
    (!I.equals targetNetwork networkId, "RAW_TARGET_NOT_OFFLINK"),
    (Json.str recvAddress = dstIp, "RAW_TARGET_IPV6_MISMATCH"),
    (!routed, "RAW_TARGET_ALREADY_ROUTED")])

/-- `_raw_checks`. -/
def rawChecks : Except PyError (List String) :=
  if Complete raw then do
    let sender ← e.item "sender"
    let target ← e.item "target"
    let probe ← e.item "probe"
    let nonce ← item probe "nonce"
    let capture ← captured I e raw nonce
    let rule ← ruled I e raw
    let topology ← placed I raw sender target
    .ok (capture ++ rule ++ topology)
  else .ok ["RAW_ARTIFACTS_ABSENT_OR_UNSAFE"]

end

/-! ## What is asked of the rule -/

section

variable (I : Interp) (e : Record) (raw : RawDir)

/-- The flow of the measurement, the label of the run and the rule, where all of them can be read. -/
structure Read where
  rule : Text
  flow : Flow
  label : Text
  ruleValue : ∃ named, ruleOf e = .ok named ∧ ruleText named = .ok rule
  flowValue : flowOf I e raw = .ok flow
  labelValue : labelOf e = .ok label

variable {I e raw}

/-- The rule is in both snapshots, and the texts of the flow and the label occur in it. -/
structure Tested (r : Read I e raw) : Prop where
  snapshots : ∃ rb ra, rules I raw "rules.before" = .ok rb ∧ rules I raw "rules.after" = .ok ra ∧
    (rb.lookup r.rule).isSome = true ∧ (ra.lookup r.rule).isSome = true
  texts : ∀ t ∈ r.flow.exactTokens, t <:+: r.rule
  label : r.label <:+: r.rule

/-- **The rule names exactly the flow.** -/
structure Exact (r : Read I e raw) : Prop where
  options : ∀ o ∈ r.flow.options, HasOption (arguments r.rule) o.1 o.2
  comment : ∃ arg, HasOption (arguments r.rule) "--comment".toList arg ∧ unquote .plain arg = r.label

/-- Every text of the flow stands in the rule as an option of its own, and so does the label. -/
structure Whole (r : Read I e raw) : Prop where
  options : ∀ o ∈ r.flow.options, Stands r.rule o.1 o.2
  comment : ∃ arg, Stands r.rule "--comment".toList arg ∧ unquote .plain arg = r.label

/-- A text of the flow or the label occurs in the rule only where something is wrong with the place. -/
inductive Spurious (r : Read I e raw) : Prop where
  | option {o : Text × Text} (ho : o ∈ r.flow.options)
      (h : ∀ front back, r.rule = front ++ (o.1 ++ ' ' :: o.2) ++ back → Defect front o.2 back)
  | label (h : ∀ front arg back, r.rule = front ++ ("--comment".toList ++ ' ' :: arg) ++ back →
        unquote .plain arg = r.label → Defect front arg back)

end

/-- None of the codes about the rule is reported. -/
def Accepted (report : List String) : Prop :=
  ∀ code ∈ ["EXACT_RULE_NOT_IN_RAW_SNAPSHOTS", "RAW_RULE_NOT_EXACT_FLOW", "RAW_RULE_RUN_LABEL_MISSING"],
    code ∉ report

instance (report : List String) : Decidable (Accepted report) :=
  inferInstanceAs (Decidable (∀ code ∈ ["EXACT_RULE_NOT_IN_RAW_SNAPSHOTS", "RAW_RULE_NOT_EXACT_FLOW",
    "RAW_RULE_RUN_LABEL_MISSING"], code ∉ report))

theorem mem_needs {checks : List (Bool × String)} {code : String} :
    code ∈ needs checks ↔ (false, code) ∈ checks := by
  unfold needs
  rw [List.mem_filterMap]
  constructor
  · rintro ⟨⟨ok, c⟩, hc, hx⟩
    cases ok with
    | true => cases hx
    | false =>
      cases hx
      exact hc
  · exact fun h => ⟨_, h, rfl⟩

section

variable {I : Interp} {e : Record} {raw : RawDir}

theorem options_argument (f : Flow) : ∀ o ∈ f.options, Argument o.1 := by
  intro o ho
  have hnames : o.1 ∈ f.options.map Prod.fst := List.mem_map_of_mem ho
  have hall : ∀ n ∈ ["-A".toList, "-s".toList, "-d".toList, "-p".toList, "--dport".toList, "-j".toList,
      "-i".toList], Argument n := by decide
  exact hall o.1 hnames

/-- The options of the argument list are the texts that stand in the rule. -/
theorem exact_iff (r : Read I e raw) : Exact r ↔ Whole r := by
  have hcomment : Argument "--comment".toList := by decide
  constructor
  · rintro ⟨hoptions, arg, hc, hv⟩
    exact ⟨fun o ho => (RuleText.hasOption_iff (options_argument _ o ho)).1 (hoptions o ho),
      arg, (RuleText.hasOption_iff hcomment).1 hc, hv⟩
  · rintro ⟨hoptions, arg, hc, hv⟩
    exact ⟨fun o ho => (RuleText.hasOption_iff (options_argument _ o ho)).2 (hoptions o ho),
      arg, (RuleText.hasOption_iff hcomment).2 hc, hv⟩

/-- A list of checks that are not about the rule. -/
theorem needs_accepted {checks : List (Bool × String)} (h : Accepted (checks.map Prod.snd)) :
    Accepted (needs checks) := by
  intro code hcode hm
  exact h code hcode (List.mem_map_of_mem (mem_needs.1 hm))

theorem captured_codes (nonce : Json) : Except.Always Accepted (captured I e raw nonce) := by
  unfold captured
  repeat refine Except.always_bind fun _ => ?_
  exact Except.always_ok (needs_accepted (by simp only [List.map_cons, List.map_nil]; decide))

theorem placed_codes (sender target : Json) : Except.Always Accepted (placed I raw sender target) := by
  unfold placed
  repeat refine Except.always_bind fun _ => ?_
  exact Except.always_ok (needs_accepted (by simp only [List.map_cons, List.map_nil]; decide))

theorem ruled_codes {snapshots texts label : Bool} {counted : List (Bool × String)}
    (h : ∀ code, (false, code) ∈ counted → code = "RAW_EXACT_COUNTER_NOT_ONE") :
    Accepted (needs ([(snapshots, "EXACT_RULE_NOT_IN_RAW_SNAPSHOTS"), (texts, "RAW_RULE_NOT_EXACT_FLOW"),
      (label, "RAW_RULE_RUN_LABEL_MISSING")] ++ counted)) ↔ snapshots = true ∧ texts = true ∧ label = true := by
  constructor
  · intro hacc
    refine ⟨?_, ?_, ?_⟩
    · cases snapshots
      · exact absurd (mem_needs.2 (by simp)) (hacc "EXACT_RULE_NOT_IN_RAW_SNAPSHOTS" (by simp))
      · rfl
    · cases texts
      · exact absurd (mem_needs.2 (by simp)) (hacc "RAW_RULE_NOT_EXACT_FLOW" (by simp))
      · rfl
    · cases label
      · exact absurd (mem_needs.2 (by simp)) (hacc "RAW_RULE_RUN_LABEL_MISSING" (by simp))
      · rfl
  · rintro ⟨rfl, rfl, rfl⟩ code hcode hm
    rw [mem_needs, List.mem_append] at hm
    rcases hm with hm | hm
    · simp at hm
    · rw [h code hm] at hcode
      exact absurd hcode (by decide)

/-- **What the part about the rule asks.** -/
theorem ruled_accepted {codes : List String} (h : ruled I e raw = .ok codes) :
    ∃ r : Read I e raw, Accepted codes ↔ Tested r := by
  unfold ruled at h
  simp only [Except.bind_eq_ok, Except.ok.injEq] at h
  obtain ⟨rb, hrb, ra, hra, named, hnamed, f, hf, rule, hrule, label, hlabel, rfl⟩ := h
  refine ⟨⟨rule, f, label, ⟨named, hnamed, hrule⟩, hf, hlabel⟩, ?_⟩
  rw [ruled_codes, Bool.and_eq_true, List.all_eq_true, decide_eq_true_eq]
  · constructor
    · rintro ⟨⟨hb, ha⟩, htexts, hl⟩
      exact ⟨⟨rb, ra, hrb, hra, hb, ha⟩, fun t ht => of_decide_eq_true (htexts t ht), hl⟩
    · rintro ⟨⟨rb', ra', hrb', hra', hb, ha⟩, htexts, hl⟩
      rw [hrb] at hrb'
      rw [hra] at hra'
      cases hrb'
      cases hra'
      exact ⟨⟨hb, ha⟩, fun t ht => decide_eq_true (htexts t ht), hl⟩
  · intro code hcode
    split at hcode
    · exact congrArg Prod.snd (List.mem_singleton.1 hcode)
    · cases hcode

theorem accepted_append {xs ys : List String} : Accepted (xs ++ ys) ↔ Accepted xs ∧ Accepted ys := by
  unfold Accepted
  constructor
  · intro h
    exact ⟨fun c hc hm => h c hc (List.mem_append_left _ hm), fun c hc hm => h c hc (List.mem_append_right _ hm)⟩
  · rintro ⟨hx, hy⟩ c hc hm
    exact (List.mem_append.1 hm).elim (hx c hc) (hy c hc)

/-- The rule is read in one way. -/
theorem read_unique (r s : Read I e raw) : r = s := by
  obtain ⟨rule, f, label, ⟨named, h1, h2⟩, hf, hl⟩ := r
  obtain ⟨rule', f', label', ⟨named', h1', h2'⟩, hf', hl'⟩ := s
  rw [h1] at h1'
  cases h1'
  rw [h2] at h2'
  rw [hf] at hf'
  rw [hl] at hl'
  cases h2'
  cases hf'
  cases hl'
  rfl

theorem whole_iff {r : Read I e raw} : Whole r ↔ ¬ Spurious r := by
  constructor
  · rintro ⟨hoptions, arg, hcomment, hvalue⟩ h
    cases h with
    | option ho h =>
      obtain ⟨front, back, hrule, hplace⟩ := RuleText.stands_iff.1 (hoptions _ ho)
      exact hplace (h front back hrule)
    | label h =>
      obtain ⟨front, back, hrule, hplace⟩ := RuleText.stands_iff.1 hcomment
      exact hplace (h front arg back hrule hvalue)
  · intro h
    constructor
    · intro o ho
      by_contra hno
      refine h (.option ho fun front back hrule => ?_)
      by_contra hplace
      exact hno (RuleText.stands_iff.2 ⟨front, back, hrule, hplace⟩)
    · by_contra hno
      refine h (.label fun front arg back hrule hvalue => ?_)
      by_contra hplace
      exact hno ⟨arg, RuleText.stands_iff.2 ⟨front, back, hrule, hplace⟩, hvalue⟩

end

/-! ## A rule for another port -/

def sampleInterp : Interp where
  reader := ⟨8, fun _ => ("0.0", true)⟩
  decimal := fun c => if c.isDigit then some (c.toNat - 48) else none
  equals := fun v w => decide (v = w)

/-- The rule is for port 53000, the measurement for port 5300. -/
def wideRule : String :=
  "-A PREROUTING -i br -s fd00::1/128 -d fd01::2/128 -p udp -m udp --dport 53000 " ++
    "-m comment --comment \"strix-b7:r\" -j DROP"

def file (name text : String) : String × List UInt8 := (name, text.toUTF8.toList)

def sampleRaw : RawDir := [file "attempt.pcap" "n",
  file "receiver.jsonl" "\x7b\"nonce\": \"a\"\x7d\n\x7b\"nonce\": \"b\"\x7d\n",
  file "cal_receiver.jsonl" "\x7b\"nonce\": \"c\"\x7d\n", file "rules.before" ("[1:60] " ++ wideRule ++ "\n"),
  file "rules.after" ("[2:120] " ++ wideRule ++ "\n"),
  file "sandbox.inspect.json" ("[\x7b\"Id\": \"c\", \"State\": \x7b\"Pid\": 1\x7d, \"NetworkSettings\": " ++
    "\x7b\"Networks\": \x7b\"in\": \x7b\"GlobalIPv6Address\": \"fd00::1\"\x7d\x7d\x7d\x7d]"),
  file "receiver.inspect.json" ("[\x7b\"NetworkSettings\": \x7b\"Networks\": " ++
    "\x7b\"eg\": \x7b\"GlobalIPv6Address\": \"fd01::2\"\x7d\x7d\x7d\x7d]"),
  file "network-in.inspect.json" ("[\x7b\"Id\": \"ni\", \"Name\": \"in\", \"Options\": " ++
    "\x7b\"com.docker.network.bridge.name\": \"br\"\x7d\x7d]"),
  file "network-eg.inspect.json" "[\x7b\"Id\": \"ne\", \"Name\": \"eg\"\x7d]",
  file "host-links.json" "[\x7b\"ifname\": \"veth\"\x7d]", file "sandbox-ipv6-addr.json" "[]",
  file "sandbox-ipv6-route-before.json" "[]"]

def hashOf (name : String) : Json := .str (Sha256.hexdigest (bytes sampleRaw name))

def sampleEvidence : Record := [("run_id", .str "r"),
  ("sender", .obj [("src_ip", .str "fd00::1"), ("container_id", .str "c"), ("container_pid", .int 1),
    ("network_id", .str "ni"), ("host_veth", .str "veth")]),
  ("target", .obj [("ip", .str "fd01::2"), ("port", .int 5300), ("network_id", .str "ne")]),
  ("probe", .obj [("nonce", .str "n")]),
  ("packet_attempt", .obj [("pcap_sha256", hashOf "attempt.pcap")]),
  ("controls", .obj [("c1_nonce", .str "a"), ("c2_nonce", .str "b")]),
  ("receiver", .obj [("raw_log_sha256", hashOf "receiver.jsonl")]),
  ("calibration", .obj [("raw_log_sha256", hashOf "cal_receiver.jsonl"), ("nonce", .str "c")]),
  ("enforcement", .obj [("rule_identity", .str wideRule)])]

theorem sample_report : rawChecks sampleInterp sampleEvidence sampleRaw = .ok [] := by decide +kernel

theorem sample_read (r : Read sampleInterp sampleEvidence sampleRaw) : ¬ Exact r := by
  intro h
  have hflow : flowOf sampleInterp sampleEvidence sampleRaw =
      .ok ⟨"fd00::1".toList, "fd01::2".toList, "5300".toList, "br".toList⟩ := by decide +kernel
  have hrule : r.rule = wideRule.toList := by
    obtain ⟨named, hnamed, htext⟩ := r.ruleValue
    have hvalue : ruleOf sampleEvidence = .ok (.str wideRule) := by decide +kernel
    rw [hvalue] at hnamed
    cases hnamed
    exact (Except.ok.inj htext).symm
  have hport : r.flow.port = "5300".toList := by
    have hf := r.flowValue
    rw [hflow] at hf
    rw [← Except.ok.inj hf]
  obtain ⟨before, after, hargs, -⟩ := h.options ("--dport".toList, r.flow.port) (by simp [Flow.options])
  have hmem : "5300".toList ∈ arguments wideRule.toList := by
    rw [← hrule, ← hport, hargs]
    simp
  exact absurd hmem (by decide +kernel)

end RawChecks

end Evidence

end StrixPEP
