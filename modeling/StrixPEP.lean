import StrixPEP.Lib.Bounded
import StrixPEP.Lifecycle.RunContext
import StrixPEP.Lifecycle.Linearization
import StrixPEP.Lifecycle.Effects
import StrixPEP.Lib.Dict
import StrixPEP.Lib.Except
import StrixPEP.Lib.Linking
import StrixPEP.Lib.Threads
import StrixPEP.Lib.Trails
import StrixPEP.Lib.Monitors
import StrixPEP.Lib.Traces
import StrixPEP.Lib.Sha256
import StrixPEP.Audit.AuditLog
import StrixPEP.Json.Roundtrip
import StrixPEP.Json.Bytes
import StrixPEP.Audit.Storage
import StrixPEP.Json
import StrixPEP.Json.Text
import StrixPEP.Json.Extend
import StrixPEP.Json.Encoding
import StrixPEP.Verifier.Schema
import StrixPEP.Verifier.History
import StrixPEP.Verifier.Steps
import StrixPEP.Verifier.StepIff
import StrixPEP.Verifier.Simulation
import StrixPEP.Verifier.AppendOrder
import StrixPEP.Verifier.AttemptGrammar
import StrixPEP.Verifier.RunGrammar
import StrixPEP.Verifier.SequenceEquations
import StrixPEP.Verifier.Stops
import StrixPEP.Verifier.Anchor
import StrixPEP.Audit.Recovery
import StrixPEP.Audit.Refinement
import StrixPEP.Verifier.Verify
import StrixPEP.Verifier.AnchorBinding
import StrixPEP.Verifier.RoundTrip
import StrixPEP.Lib.Paths
import StrixPEP.Lib.Url
import StrixPEP.Lib.Trim
import StrixPEP.Lib.Pieces
import StrixPEP.Lib.Lines
import StrixPEP.Lib.HashChain
import StrixPEP.Lib.IpAddress
import StrixPEP.Pdp.Addressing
import StrixPEP.Pdp.Canonical
import StrixPEP.Pdp.Scope
import StrixPEP.Pdp.Values
import StrixPEP.Pdp.Budgets
import StrixPEP.Pdp.Decide
import StrixPEP.Pdp.DecideSpec
import StrixPEP.Pdp.DecidePaths
import StrixPEP.Service.Linked
import StrixPEP.Service.Egress
import StrixPEP.Service.AuthorizedDestination
import StrixPEP.Service.LogFile
import StrixPEP.Pdp.Desk
import StrixPEP.Pdp.OpenPolicy
import StrixPEP.Pdp.Pinned
import StrixPEP.Pdp.Ledger
import StrixPEP.Pdp.Isolation
import StrixPEP.Pdp.Ceiling
import StrixPEP.Verifier.UrlBinding
import StrixPEP.Gateway.Exchange
import StrixPEP.Gateway.ReadHead
import StrixPEP.Gateway.Forwarding
import StrixPEP.Gateway.Entries
import StrixPEP.Gateway.Registry
import StrixPEP.Gateway.KillSwitch
import StrixPEP.Gateway.World
import StrixPEP.Gateway.Handler
import StrixPEP.Gateway.Consults
import StrixPEP.Gateway.Destination
import StrixPEP.Gateway.Protocol
import StrixPEP.Gateway.Steps
import StrixPEP.Gateway.Interference
import StrixPEP.Gateway.SlotFree
import StrixPEP.Gateway.ConnectTarget
import StrixPEP.Gateway.HandlerState
import StrixPEP.Gateway.PermitSpec
import StrixPEP.Gateway.HandlerSpec
import StrixPEP.Gateway.CancellerSpec
import StrixPEP.Gateway.Runs
import StrixPEP.Gateway.Settlement
import StrixPEP.Gateway.Certification
import StrixPEP.Gateway.Slots
import StrixPEP.Evidence.Loaders
import StrixPEP.Evidence.AuditGate
import StrixPEP.Evidence.LayerB
import StrixPEP.Evidence.Pp18
import StrixPEP.Evidence.Printing
import StrixPEP.Evidence.Stamping
import StrixPEP.Audit.Redaction
import StrixPEP.Gateway.IntentDigest
import StrixPEP.Gateway.LeafStore
import StrixPEP.Pdp.Embedding
import StrixPEP.Evidence.Regression
import StrixPEP.Lib.Splitting
import StrixPEP.Evidence.RawChecks
import StrixPEP.Evidence.RuleText
import StrixPEP.Evidence.Walkers
import StrixPEP.Verifier.Written
import StrixPEP.Verifier.Quiet
import StrixPEP.Verifier.Totality
