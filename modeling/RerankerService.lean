import RerankerService.Foundation.Run
import RerankerService.Cache
import RerankerService.Proof.CacheKey
import RerankerService.Batching.Process
import RerankerService.Proof.Process
import RerankerService.Proof.BatchLimits
import RerankerService.Proof.Progress
import RerankerService.Proof.Confinement
import RerankerService.Batching.Worker
import RerankerService.Proof.Worker
import RerankerService.Runtime.State
import RerankerService.Runtime.Lifecycle
import RerankerService.Proof.Concurrency
import RerankerService.Runtime.Slots
import RerankerService.Proof.Lifecycle
import RerankerService.Service.Application
import RerankerService.Proof.Serving
import RerankerService.Proof.Tracking
import RerankerService.Proof.Configuration
import RerankerService.Proof.Poisoning
import RerankerService.Proof.Answering
import RerankerService.Proof.Names
import RerankerService.Proof.OneModel
import RerankerService.Proof.Refinement
import RerankerService.Proof.Course
import RerankerService.Backend.Scores
import RerankerService.Proof.Finiteness
import RerankerService.Proof.Listwise
import RerankerService.Proof.Validation
import RerankerService.Proof.Readiness
import RerankerService.Proof.Truncation
import RerankerService.Proof.Switch
import RerankerService.Proof.Administration
import RerankerService.Proof.Fallback
import RerankerService.Artifact.Exporter
import RerankerService.Proof.Store
import RerankerService.Proof.Staging
import RerankerService.Proof.Publication
import RerankerService.Proof.Attempt
import RerankerService.Proof.AllOrNothing
import RerankerService.Proof.Faithful
import RerankerService.Foundation.SlidingWindow
import RerankerService.Security
import RerankerService.Proof.RateLimit
import RerankerService.Proof.Addressing
import RerankerService.Foundation.RankCorrelation
import RerankerService.Parity
import RerankerService.Proof.Parity
import RerankerService.Arithmetic
import RerankerService.Backend.Normalization
import RerankerService.Proof.Normalization
import RerankerService.Foundation.Grouping
import RerankerService.Service.Requests
import RerankerService.Proof.Timeseries
import RerankerService.Foundation.Pagination
import RerankerService.Console.Requests
import RerankerService.Proof.Paging
import RerankerService.Console.Csv
import RerankerService.Proof.Csv
import RerankerService.Foundation.Json
import RerankerService.Console.Import
import RerankerService.Proof.Restoring
import RerankerService.Console.Sections
import RerankerService.Proof.OptOut
import RerankerService.Proof.Gauge
import RerankerService.Runtime.Candidate
import RerankerService.Proof.Candidate
import RerankerService.Service.Benchmark
import RerankerService.Proof.Benchmark
import RerankerService.Proof.BenchmarkRuns
import RerankerService.Foundation.OrderStatistics
import RerankerService.Proof.BenchmarkResults
import RerankerService.Runtime.RemoteCode
import RerankerService.Proof.RemoteCode
import RerankerService.Foundation.KeyValue
import RerankerService.Service.Redis
import RerankerService.Proof.Redis
import RerankerService.Proof.CachedService
import RerankerService.Foundation.Table
import RerankerService.Service.Http
import RerankerService.Proof.Http
import RerankerService.Proof.Admission
import RerankerService.Proof.Noninterference
import RerankerService.Service.Recording
import RerankerService.Proof.Recording
import RerankerService.Service.Audit
import RerankerService.Proof.Audit
import RerankerService.Proof.Queue
import RerankerService.Proof.Rest
import RerankerService.Proof.Operation
