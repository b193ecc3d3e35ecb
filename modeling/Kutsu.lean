import Kutsu.Lib.Run
import Kutsu.Lib.OrdMap
import Kutsu.Lib.Count
import Kutsu.Lib.Pipe
import Kutsu.Model.Types
import Kutsu.Model.Config
import Kutsu.Model.Store
import Kutsu.Model.Queue
import Kutsu.Model.Breaker
import Kutsu.Model.Resample
import Kutsu.Model.Pace
import Kutsu.Model.Driver
import Kutsu.Model.Live
import Kutsu.Model.Shared
import Kutsu.Model.RunCall
import Kutsu.Model.Engine
import Kutsu.Model.Bridge
import Kutsu.Model.Talk
import Kutsu.Proofs.Ledger
import Kutsu.Proofs.History
import Kutsu.Proofs.Drain
import Kutsu.Proofs.Goal
import Kutsu.Proofs.Stages
import Kutsu.Proofs.Steps
import Kutsu.Proofs.Custody
import Kutsu.Proofs.Life
import Kutsu.Proofs.Moves
import Kutsu.Proofs.Channels
import Kutsu.Proofs.Lifecycle
import Kutsu.Proofs.Scheduler
import Kutsu.Proofs.Park
import Kutsu.Proofs.Wake
import Kutsu.Proofs.Cancel
import Kutsu.Proofs.Guard
import Kutsu.Proofs.Parties
import Kutsu.Proofs.Closing
import Kutsu.Proofs.Probe
import Kutsu.Proofs.Retries
import Kutsu.Proofs.Metrics
import Kutsu.Proofs.Durable
import Kutsu.Lib.Window
import Kutsu.Proofs.Harvest
import Kutsu.Proofs.WrapUp
import Kutsu.Model.MainSupport
import Kutsu.Proofs.Secrets
import Kutsu.Model.Schema
import Kutsu.Proofs.Setup
import Kutsu.Lib.Tree
import Kutsu.Proofs.Nodes
import Kutsu.Lib.Serial
import Kutsu.Model.Uplink
import Kutsu.Proofs.Uplink
import Kutsu.Proofs.Turns
import Kutsu.Proofs.Goodbye
import Kutsu.Proofs.Cues
import Kutsu.Model.NetCheck
import Kutsu.Proofs.Preflight
import Kutsu.Model.Archive
import Kutsu.Proofs.Archive
import Kutsu.Proofs.Redial
import Kutsu.Model.Task
import Kutsu.Proofs.Sweep
import Kutsu.Model.Teardown
import Kutsu.Proofs.Teardown
import Kutsu.Lib.Buffer
import Kutsu.Proofs.Pacer
import Kutsu.Proofs.Fade
import Kutsu.Proofs.Prefill
import Kutsu.Model.Agc
import Kutsu.Proofs.Vad
import Kutsu.Lib.Smooth
import Kutsu.Proofs.Agc
import Kutsu.Proofs.Breaker
import Kutsu.Proofs.Watchdog
import Kutsu.Proofs.Summary
import Kutsu.Proofs.Budget
import Kutsu.Proofs.Queue
import Kutsu.Proofs.Eviction
import Kutsu.Proofs.Augment
import Kutsu.Proofs.Subset
import Kutsu.Lib.Numeral
import Kutsu.Proofs.Placement
import Kutsu.Lib.Quantizer
import Kutsu.Model.Egress
import Kutsu.Model.Ingress
import Kutsu.Model.Signalling
import Kutsu.Proofs.Egress
import Kutsu.Proofs.G711
import Kutsu.Proofs.Ingress
import Kutsu.Proofs.Signalling
import Kutsu.Lib.Sightings
import Kutsu.Model.Tools
import Kutsu.Proofs.Rest
import Kutsu.Proofs.Tools
import Kutsu.Lib.Exposition
import Kutsu.Lib.Wire
import Kutsu.Model.InviteTsx
import Kutsu.Model.Prometheus
import Kutsu.Proofs.InviteTsx
import Kutsu.Proofs.Patience
import Kutsu.Proofs.Prometheus
import Kutsu.Model.Transport
import Kutsu.Proofs.Transport
