import TenantSync.Files.Tree
import TenantSync.Log.Filter
import TenantSync.Main
import TenantSync.Proofs.Push.Abort
import TenantSync.Proofs.Push.Convergence
import TenantSync.Proofs.Push.DryRun
import TenantSync.Proofs.Push.Report
import TenantSync.Proofs.Push.Scope
import TenantSync.Proofs.Config.Overlay
import TenantSync.Proofs.Push.Idempotence
import TenantSync.Proofs.Config.IncludeTree
import TenantSync.Proofs.Json.Reread
import TenantSync.Proofs.Tenant.Snapshot
import TenantSync.Proofs.Push.EveryCall
import TenantSync.Proofs.Push.Identifiers
import TenantSync.Proofs.Push.Reachable
import TenantSync.Proofs.Push.Additive
import TenantSync.Proofs.Config.IncludeGraph
import TenantSync.Proofs.Push.Names
import TenantSync.Proofs.Push.KeyDecisions
import TenantSync.Proofs.Push.Keys
import TenantSync.Proofs.Push.Invariant
import TenantSync.Proofs.Push.SideBySide
import TenantSync.Proofs.Push.Tolerance
import TenantSync.Proofs.Push.Meaning
import TenantSync.Proofs.Push.Decomposition
import TenantSync.Proofs.Push.KeysBeside
import TenantSync.Proofs.Push.Orders
import TenantSync.Proofs.Push.Conservation
import TenantSync.Proofs.Decoder
import TenantSync.Proofs.Config.RoundTrip
import TenantSync.Proofs.Tenant.RoundTrip
import TenantSync.Proofs.Push.Sessions
import TenantSync.Proofs.Files
import TenantSync.Proofs.Push.Provenance
import TenantSync.Proofs.Command.Refinement
import TenantSync.Proofs.Config.Relocation
import TenantSync.Proofs.Push.Diff
import TenantSync.Proofs.Push.KeyVisibility
import TenantSync.Proofs.Push.KeyCreation
import TenantSync.Proofs.Config.Reference
import TenantSync.Proofs.Config.Stack
import TenantSync.Proofs.Settings.Resolution
import TenantSync.Proofs.Config.Walk
import TenantSync.Proofs.Tenant.FaultHistory
