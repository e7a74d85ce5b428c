import HitlOps.Transaction.Progress
import HitlOps.Program
import HitlOps.Lifecycle.Revision
import HitlOps.Lifecycle.Contract
import HitlOps.Lifecycle.Rules
import HitlOps.Lifecycle.Creation
import HitlOps.Lifecycle.Decisions
import HitlOps.Lifecycle.Claim
import HitlOps.Lifecycle.Worker
import HitlOps.Lifecycle.Routes
import HitlOps.Lifecycle.Runs
import HitlOps.Lifecycle.Dispatch
import HitlOps.Transaction.Replay
import HitlOps.Properties.Execution
import HitlOps.Lifecycle.Versions
import HitlOps.Infrastructure.Outbox
import HitlOps.Properties.Log
import HitlOps.Properties.Policy
import HitlOps.Properties.Digest
import HitlOps.Infrastructure.Audit
import HitlOps.Properties.Audit
import HitlOps.Lifecycle.Provenance
import HitlOps.Properties.Approval
import HitlOps.Properties.Claim
import HitlOps.Transaction.Steps
import HitlOps.Transaction.History
import HitlOps.Transaction.Paths
import HitlOps.Lifecycle.Plain
import HitlOps.Lifecycle.Filing
import HitlOps.Lifecycle.Bookkeeping
import HitlOps.Lifecycle.Ledger
import HitlOps.Lifecycle.Rounds
import HitlOps.Properties.Outcome
import HitlOps.Transaction.Unique
import HitlOps.Lifecycle.InStep
import HitlOps.Properties.Rows
import HitlOps.Lifecycle.Polling
import HitlOps.Properties.Polling
import HitlOps.Infrastructure.AuditWriter
import HitlOps.Delivery.System
import HitlOps.Properties.Treatment
import HitlOps.Properties.Authority
import HitlOps.Properties.Canonical
import HitlOps.Properties.Grants
import HitlOps.Infrastructure.Constraints
import HitlOps.Properties.Content
import HitlOps.Properties.Scopes
import HitlOps.Api.Queries
import HitlOps.Infrastructure.Tenants
import HitlOps.Transaction.TwoRuns
import HitlOps.Lifecycle.Tenants
import HitlOps.Properties.Tenants
import HitlOps.Properties.Tick
import HitlOps.Delivery.Growth
import HitlOps.Delivery.Duties
import HitlOps.Delivery.Appends
import HitlOps.Delivery.Publisher
import HitlOps.Delivery.Chain
import HitlOps.Properties.Chain
import HitlOps.Delivery.Evidence
import HitlOps.Properties.Evidence
import HitlOps.Api.RateLimit
import HitlOps.Properties.RateLimit
import HitlOps.Properties.Revalidation
import HitlOps.Api.BodyLimit
import HitlOps.Properties.BodyLimit
import HitlOps.Properties.Proposal
import HitlOps.Properties.Risk
import HitlOps.Lifecycle.Keys
import HitlOps.Paging
import HitlOps.Properties.Events
import HitlOps.Properties.Refusal
import HitlOps.Lifecycle.Inner
import HitlOps.Transaction.Presence
import HitlOps.Lifecycle.Reservations
import HitlOps.Lifecycle.Idempotency
import HitlOps.Properties.Idempotency
import HitlOps.Transaction.Waiting
import HitlOps.Transaction.Rest
import HitlOps.Lifecycle.Footprint
import HitlOps.Lifecycle.Locking
import HitlOps.Properties.Waiting
import HitlOps.Adapters.Demo
import HitlOps.Lifecycle.Provider
import HitlOps.Properties.Provider
import HitlOps.Lifecycle.Fetches
import HitlOps.Properties.Target
import HitlOps.Lifecycle.Powers
import HitlOps.Lifecycle.Administration
import HitlOps.Properties.Administration
import HitlOps.Lifecycle.Judging
import HitlOps.Lifecycle.VerdictRuns
import HitlOps.Properties.Verdicts
import HitlOps.Properties.Items
import HitlOps.Properties.Isolation
