import Treecast.Service.Actions
import Treecast.LogText
import Treecast.HttpRequest
import Treecast.Settings.Check
import Treecast.Settings.Load
import Treecast.Proofs.Places
import Treecast.Proofs.StoreCalls
import Treecast.Proofs.Replication
import Treecast.Proofs.View
import Treecast.Proofs.Hijacking
import Treecast.Proofs.Reading
import Treecast.Proofs.ChangeLog
import Treecast.Proofs.Deliveries
import Treecast.Proofs.InStep
import Treecast.Proofs.SessionSync
import Treecast.Proofs.Interleaving
import Treecast.Proofs.Convergence
import Treecast.Proofs.Deltas
import Treecast.Proofs.InterestIndex
import Treecast.Proofs.HubActs
import Treecast.Proofs.HubMeters
import Treecast.Proofs.Sweeps
import Treecast.Proofs.Idle
import Treecast.Proofs.References
import Treecast.Proofs.Orphans
import Treecast.Proofs.JsonText
import Treecast.Proofs.Metadata
import Treecast.Proofs.Declarations
import Treecast.Proofs.Evictions
import Treecast.Proofs.Ownership
import Treecast.Proofs.Trades
import Treecast.Proofs.Accounts
import Treecast.Proofs.SessionLeases
import Treecast.Proofs.Emissions
import Treecast.Proofs.Gauges
import Treecast.Proofs.LiveSessions
import Treecast.Proofs.OpenHolders
import Treecast.Proofs.SweepReports
import Treecast.Proofs.Streams
import Treecast.Proofs.Admission
import Treecast.Proofs.Checking
import Treecast.Proofs.StoreTree
import Treecast.Proofs.LifeCycle
import Treecast.Proofs.ChangeReplay
import Treecast.Proofs.Histories
import Treecast.Proofs.StartupGate
import Treecast.Proofs.Pins
import Treecast.Proofs.Overrides
import Treecast.Proofs.LinkWalks
import Treecast.Proofs.Diagnosis
import Treecast.Proofs.Bystanders
import Treecast.Proofs.Refusals
import Treecast.Proofs.ForcedRoutes
import Treecast.Proofs.Rewriting
import Treecast.Proofs.Framing
import Treecast.Proofs.Merging
import Treecast.Proofs.Pings
import Treecast.Proofs.ScopedEntries
import Treecast.Proofs.BodyText
import Treecast.Proofs.RequestBodies
import Treecast.Proofs.EzonePrefixes
import Treecast.Proofs.KeyListing
import Treecast.Proofs.ForcePatterns
import Treecast.Proofs.InterestTimeline
import Treecast.Proofs.Segments
import Treecast.Proofs.Pruning
