import Rlaas.Algorithm.IsolationProperties
import Rlaas.Algorithm.OverflowProperties
import Rlaas.Algorithm.QuotaProperties
import Rlaas.Algorithm.RefusalProperties
import Rlaas.Algorithm.SlidingLogProperties
import Rlaas.Algorithm.TokenBucketProperties
import Rlaas.Algorithm.WindowProperties
import Rlaas.Engine.EvaluatorProperties
import Rlaas.Engine.ResolutionProperties
import Rlaas.Store.LeaseProperties
import Rlaas.Engine.MatcherProperties
import Rlaas.Key.ScopeKeyProperties
import Rlaas.Engine.PrecedenceProperties
import Rlaas.Server.Auth
import Rlaas.Server.AuthProperties
import Rlaas.Engine.Acquire
import Rlaas.Engine.AcquireProperties
import Rlaas.Adapter.Enforcement
import Rlaas.Algorithm.Answers
import Rlaas.Adapter.EnforcementProperties
import Rlaas.Store.FilePolicyProperties
import Rlaas.Adapter.ControlPlane
import Rlaas.Adapter.ControlPlaneProperties
import Rlaas.Store.SweepProperties
import Rlaas.Engine.SlotProperties
import Rlaas.Adapter.Lease
import Rlaas.Adapter.LeaseProperties
import Rlaas.Adapter.LeaseSlotProperties
import Rlaas.Store.Redis
import Rlaas.Store.RedisProperties
import Rlaas.Lib.Snapshot
import Rlaas.Store.Oracle
import Rlaas.Store.OracleProperties
import Rlaas.Lib.RowLock
import Rlaas.Lib.RowLockProperties
import Rlaas.Store.Postgres
import Rlaas.Store.PostgresProperties
import Rlaas.Region.Allocator
import Rlaas.Region.AllocatorProperties
import Rlaas.Store.PolicyCache
import Rlaas.Store.PolicyCacheProperties
import Rlaas.Store.SingleFlight
import Rlaas.Store.SingleFlightProperties
import Rlaas.Store.InvalidationProperties
import Rlaas.Engine.StalenessProperties
import Rlaas.Store.CircuitBreaker
import Rlaas.Store.CircuitBreakerProperties
import Rlaas.Analytics.Audit
import Rlaas.Analytics.AuditProperties
import Rlaas.Agent.Sync
import Rlaas.Agent.SyncProperties
import Rlaas.Lib.Workers
import Rlaas.Adapter.Batch
import Rlaas.Adapter.BatchProperties
import Rlaas.Lib.Allowance
import Rlaas.Algorithm.BucketArithmetic
import Rlaas.Algorithm.RefillProperties
import Rlaas.Algorithm.BucketRuns
import Rlaas.Algorithm.ExpiryProperties
import Rlaas.Algorithm.LeakyBucketProperties
import Rlaas.Algorithm.SlidingCounterKeys
import Rlaas.Lib.Admission
import Rlaas.Lib.Sliding
import Rlaas.Algorithm.SlidingCounterRuns
import Rlaas.Algorithm.SlidingCounterProperties
import Rlaas.Algorithm.WindowRuns
import Rlaas.Algorithm.RetryProperties
import Rlaas.Adapter.ProviderAdapter
import Rlaas.Adapter.ProviderAdapterProperties
import Rlaas.Algorithm.SkewProperties
import Rlaas.Engine.RolloutProperties
import Rlaas.Lib.Apportion
import Rlaas.Region.SplitProperties
import Rlaas.Go.Search
import Rlaas.Lib.Buckets
import Rlaas.Metrics.Histogram
import Rlaas.Metrics.HistogramProperties
import Rlaas.Adapter.Routes
import Rlaas.Adapter.RoutesProperties
import Rlaas.Go.StringsProperties
import Rlaas.Engine.ExpressionProperties
import Rlaas.Lib.ReadCommitted
import Rlaas.Lib.ReadCommittedProperties
import Rlaas.Store.PostgresLog
import Rlaas.Store.PostgresLogProperties
import Rlaas.Lib.Expiring
import Rlaas.Store.Slots
import Rlaas.Store.MemorySlots
import Rlaas.Store.Sql
import Rlaas.Store.SqlProperties
import Rlaas.Engine.BackendProperties
import Rlaas.Adapter.Policies
import Rlaas.Adapter.PoliciesProperties
import Rlaas.Server.Dispatcher
import Rlaas.Server.DispatcherProperties
import Rlaas.Server.FreshnessProperties
