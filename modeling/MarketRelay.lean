import MarketRelay.Credentials
import MarketRelay.Redaction
import MarketRelay.KnownSecrets
import MarketRelay.ConsumerAuth
import MarketRelay.Models
import MarketRelay.Queue
import MarketRelay.Fencing
import MarketRelay.Lifecycle
import MarketRelay.JobTrail
import MarketRelay.Ports
import MarketRelay.CursorParse
import MarketRelay.Catalog
import MarketRelay.CatalogService
import MarketRelay.Selection
import MarketRelay.ObservationView
import MarketRelay.ObservationRange
import MarketRelay.Session
import MarketRelay.JobQueue
import MarketRelay.JobAlone
import MarketRelay.ClaimTiming
import MarketRelay.ClaimAlone
import MarketRelay.LeaseTiming
import MarketRelay.ProviderExecution
import MarketRelay.ObservationStore
import MarketRelay.Revisions
import MarketRelay.Ledger
import MarketRelay.StoredDecimals
import MarketRelay.PolicyTiming
import MarketRelay.PolicyRegister
import MarketRelay.Scheduler
import MarketRelay.SchedulerFencing
import MarketRelay.BatchIsolation
import MarketRelay.Planning
import MarketRelay.Dispatch
import MarketRelay.DedupeKeys
import MarketRelay.ColumnLimits
import MarketRelay.Redispatch
import MarketRelay.Refresh
import MarketRelay.Resumption
import MarketRelay.Delivery
import MarketRelay.FakeService
import MarketRelay.Endpoints
import MarketRelay.Revocation
import MarketRelay.CrashSafety
import MarketRelay.Validity
import MarketRelay.Overlap
import MarketRelay.RefreshBound
import MarketRelay.Quota
import MarketRelay.SchedulerCycle
import MarketRelay.Metrics
import MarketRelay.StatusEndpoints
import MarketRelay.ConsumerApi
import MarketRelay.Confinement
import MarketRelay.ErrorTexts
import MarketRelay.Partition
import MarketRelay.Outages
import MarketRelay.Replanning
import MarketRelay.BoundedJobs
import MarketRelay.FakeProvider
import MarketRelay.Priority
import MarketRelay.RowOrder
import MarketRelay.Superseded
import MarketRelay.RunnerPaths
import MarketRelay.RoundAlone
import MarketRelay.BatchAlone
import MarketRelay.Draining
import MarketRelay.Accountable
import MarketRelay.RowFates
import MarketRelay.Processed
import MarketRelay.AllMalformed
import MarketRelay.RowKeys
import MarketRelay.RowIsolation
import MarketRelay.RawValidation
import MarketRelay.Reprocessing
import MarketRelay.Published
import MarketRelay.Waiting
import MarketRelay.Migrations
