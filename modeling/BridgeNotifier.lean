import BridgeNotifier.Calls
import BridgeNotifier.Chain.Client
import BridgeNotifier.ChainIds
import BridgeNotifier.CommandLine.Arguments
import BridgeNotifier.CommandLine.Flag
import BridgeNotifier.CommandLine.Start
import BridgeNotifier.Config.Document
import BridgeNotifier.Config.Form
import BridgeNotifier.Config.Load
import BridgeNotifier.Config.Placeholder
import BridgeNotifier.Config.Reader
import BridgeNotifier.Config.Settings
import BridgeNotifier.Config.Written
import BridgeNotifier.Dispatch
import BridgeNotifier.Error
import BridgeNotifier.Estimate
import BridgeNotifier.Failover
import BridgeNotifier.Interval
import BridgeNotifier.Json.Parser
import BridgeNotifier.Json.Value
import BridgeNotifier.Lock
import BridgeNotifier.Main
import BridgeNotifier.Metrics
import BridgeNotifier.Net.Address
import BridgeNotifier.Net.Url
import BridgeNotifier.Notice.Gateway
import BridgeNotifier.Notice.Update
import BridgeNotifier.Program
import BridgeNotifier.Proofs.Alike
import BridgeNotifier.Proofs.Announcements
import BridgeNotifier.Proofs.AtMostOnce
import BridgeNotifier.Proofs.BatchCoverage
import BridgeNotifier.Proofs.BatchSamples
import BridgeNotifier.Proofs.BetweenWrites
import BridgeNotifier.Proofs.Cancellation
import BridgeNotifier.Proofs.ChainIdTables
import BridgeNotifier.Proofs.CheckpointJoins
import BridgeNotifier.Proofs.CheckpointMarks
import BridgeNotifier.Proofs.CommitOrder
import BridgeNotifier.Proofs.Commutation
import BridgeNotifier.Proofs.Completion
import BridgeNotifier.Proofs.Conduct
import BridgeNotifier.Proofs.Decimals
import BridgeNotifier.Proofs.Deliveries
import BridgeNotifier.Proofs.DepthReload
import BridgeNotifier.Proofs.DispatchAccounts
import BridgeNotifier.Proofs.DispatchCalls
import BridgeNotifier.Proofs.Endpoints
import BridgeNotifier.Proofs.EnvelopeText
import BridgeNotifier.Proofs.Execution
import BridgeNotifier.Proofs.Feed
import BridgeNotifier.Proofs.FeedHistory
import BridgeNotifier.Proofs.FeedReading
import BridgeNotifier.Proofs.FeedRounds
import BridgeNotifier.Proofs.FeedTicks
import BridgeNotifier.Proofs.Footprint
import BridgeNotifier.Proofs.Gauges
import BridgeNotifier.Proofs.GlobalIndices
import BridgeNotifier.Proofs.HandOvers
import BridgeNotifier.Proofs.History
import BridgeNotifier.Proofs.IdleTicks
import BridgeNotifier.Proofs.JsonText
import BridgeNotifier.Proofs.LastValidFile
import BridgeNotifier.Proofs.LaterTicks
import BridgeNotifier.Proofs.Leases
import BridgeNotifier.Proofs.MaturityCoverage
import BridgeNotifier.Proofs.MaturityTicks
import BridgeNotifier.Proofs.NoTrace
import BridgeNotifier.Proofs.Ownership
import BridgeNotifier.Proofs.Paging
import BridgeNotifier.Proofs.Phases
import BridgeNotifier.Proofs.Placeholders
import BridgeNotifier.Proofs.Quantities
import BridgeNotifier.Proofs.Renewals
import BridgeNotifier.Proofs.Replay
import BridgeNotifier.Proofs.Replicas
import BridgeNotifier.Proofs.Rescans
import BridgeNotifier.Proofs.Retries
import BridgeNotifier.Proofs.Rotations
import BridgeNotifier.Proofs.Rounding
import BridgeNotifier.Proofs.Routine
import BridgeNotifier.Proofs.RowCounts
import BridgeNotifier.Proofs.Samples
import BridgeNotifier.Proofs.Scan
import BridgeNotifier.Proofs.Scanning
import BridgeNotifier.Proofs.Settlement
import BridgeNotifier.Proofs.SoleCalls
import BridgeNotifier.Proofs.StaleWrites
import BridgeNotifier.Proofs.StillScans
import BridgeNotifier.Proofs.StillWorld
import BridgeNotifier.Proofs.StoreAgreement
import BridgeNotifier.Proofs.StoreCalls
import BridgeNotifier.Proofs.StoreKeys
import BridgeNotifier.Proofs.Successive
import BridgeNotifier.Proofs.Sweep
import BridgeNotifier.Proofs.Tables
import BridgeNotifier.Proofs.Transports
import BridgeNotifier.Proofs.Turns
import BridgeNotifier.Proofs.ValidSettings
import BridgeNotifier.Proofs.WindowBound
import BridgeNotifier.Record.Deposit
import BridgeNotifier.Record.GlobalIndex
import BridgeNotifier.Record.Row
import BridgeNotifier.Records.Statement
import BridgeNotifier.Records.Table
import BridgeNotifier.Reload
import BridgeNotifier.Simulation.Scheduler
import BridgeNotifier.Simulation.Session
import BridgeNotifier.Simulation.StoreSession
import BridgeNotifier.Simulation.Timeline
import BridgeNotifier.Simulation.World
import BridgeNotifier.Store.Memory
import BridgeNotifier.Store.Remote
import BridgeNotifier.Store.Server
import BridgeNotifier.Sweep.Feed
import BridgeNotifier.Sweep.Scan
import BridgeNotifier.Sweep.Setup
import BridgeNotifier.Sweep.Tick
import BridgeNotifier.Text.Characters
import BridgeNotifier.Text.Numeral
import BridgeNotifier.Watermark
import BridgeNotifier.Word
import BridgeNotifier.Yaml.Cursor
import BridgeNotifier.Yaml.Node
import BridgeNotifier.Yaml.Scalar
import BridgeNotifier.Yaml.Tag
import BridgeNotifier.Yaml.Tokens
