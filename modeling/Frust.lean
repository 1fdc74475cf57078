import Frust.Proofs.Orm.Rollout
import Frust.Proofs.Orm.Lock
import Frust.Proofs.Kernel.Passes
import Frust.Proofs.Kernel.Transition
import Frust.Proofs.Kernel.Edges
import Frust.Proofs.Kernel.Tenancy
import Frust.Proofs.Kernel.Routes
import Frust.Proofs.Kernel.Session
import Frust.Proofs.Kernel.Cancel
import Frust.Proofs.Kernel.Recompute
import Frust.Proofs.Kernel.Counters
import Frust.Proofs.Kernel.Budget
import Frust.Proofs.Kernel.Boot
import Frust.Proofs.Kernel.Rollups
import Frust.Proofs.Orm.Preview
import Frust.Proofs.Orm.Severity
import Frust.Proofs.Kernel.EngineFields
import Frust.Proofs.Kernel.AppUpdate
import Frust.Proofs.Kernel.Disable
import Frust.Proofs.Kernel.Export
import Frust.Proofs.Kernel.Rounded
import Frust.Proofs.Kernel.MoneyPath
import Frust.Proofs.Kernel.Meaning
import Frust.Proofs.Kernel.Orphans
import Frust.Proofs.Kernel.Workflow
import Frust.Proofs.Kernel.Subscriptions
import Frust.Proofs.Kernel.HookWrites
import Frust.Proofs.Kernel.Undo
import Frust.Proofs.Kernel.Hunks
import Frust.Proofs.Kernel.Boundary
import Frust.Proofs.Orm.Once
import Frust.Proofs.Orm.Statements
import Frust.Proofs.Orm.Topological
import Frust.Proofs.Kernel.RoundRobin
import Frust.Proofs.Kernel.Throttle
import Frust.Proofs.Kernel.Audit
import Frust.Proofs.Kernel.Endpoint
import Frust.Proofs.Kernel.Versions
import Frust.Proofs.Kernel.Migrations
import Frust.Proofs.Kernel.Wsrpc
import Frust.Proofs.Kernel.Template
import Frust.Proofs.Kernel.Methods
import Frust.Proofs.AppSdk.Tar
import Frust.Proofs.Kernel.Keyguard
import Frust.Proofs.Kernel.Conditions
import Frust.Proofs.Kernel.SurrealTool
import Frust.Proofs.Orm.Artifacts
import Frust.Proofs.Orm.Drift
import Frust.Proofs.Kernel.Query
import Frust.Proofs.Kernel.Provenance
import Frust.Proofs.Kernel.Credentials
import Frust.Proofs.Orm.TypeText
import Frust.Proofs.Orm.RunId
import Frust.Proofs.Mcp.Documents
import Frust.Proofs.Kernel.Scrape
