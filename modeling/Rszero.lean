import Rszero.TransitionSystem
import Rszero.Breaker
import Rszero.BreakerHistory
import Rszero.BreakerRecovery
import Rszero.BreakerGuard
import Rszero.BreakerAdmission
import Rszero.BreakerCooldown
import Rszero.BreakerSlots
import Rszero.BreakerProbes
import Rszero.BroadcastChannel
import Rszero.SingleFlightSteps
import Rszero.SingleFlightRegistry
import Rszero.SingleFlightSharing
import Rszero.SingleFlightEntries
import Rszero.SingleFlightProgress
import Rszero.SingleFlightIndependence
import Rszero.BreakerSolo
import Rszero.SagaWriteAhead
import Rszero.OutboxTerminal
import Rszero.OutboxIdentity
import Rszero.ApiChunks
import Rszero.ApiParser
import Rszero.CacheAsideKeys
import Rszero.ConcurrentPrograms
import Rszero.CacheAsideTransparency
import Rszero.Discovery
import Rszero.EvenRotation
import Rszero.Idempotency
import Rszero.LoadBalance
import Rszero.RoundRobin
import Rszero.RpcClient
import Rszero.ResponseCacheBodies
import Rszero.ResponseCacheTransparency
import Rszero.RestShutdown
import Rszero.RpcServer
import Rszero.RestRouter
import Rszero.Worker
import Rszero.WorkerDelivery
import Rszero.FifoQueues
import Rszero.QueueBackend
import Rszero.MemCacheRefinement
import Rszero.MemoryQueue
import Rszero.QueueNack
import Rszero.RedisStream
import Rszero.SignaturePayload
import Rszero.SignatureReplay
import Rszero.StreamsBackend
import Rszero.StreamsAck
import Rszero.StreamsAgreement
import Rszero.ApiGrammar
import Rszero.ApiCoverage
import Rszero.ApiPrinting
import Rszero.ApiUnique
import Rszero.ApiFaithful
import Rszero.ApiParses
import Rszero.ApiRoundTrip
import Rszero.ApiCodegen
import Rszero.ApiNames
import Rszero.ApiWellFormed
import Rszero.Migration
import Rszero.MigrationRun
import Rszero.MigrationRollback
import Rszero.MigrationAtomicity
import Rszero.WebSocket
import Rszero.WebSocketRooms
import Rszero.WebSocketDelivery
import Rszero.WebSocketAck
import Rszero.ExpiringKeys
import Rszero.RedisLock
import Rszero.RedisLockOwnership
import Rszero.RedisLockRefresh
import Rszero.AsyncBlock
import Rszero.RedisLockCalls
import Rszero.Shedder
import Rszero.ShedderHealth
import Rszero.Calendar
import Rszero.CronExpr
import Rszero.CronSearch
import Rszero.CronFields
import Rszero.CronForms
import Rszero.CronDays
import Rszero.CronScheduler
import Rszero.SchedulerJobs
import Rszero.BusinessMetrics
import Rszero.BusinessExport
import Rszero.Sql
import Rszero.SagaListing
import Rszero.DsnMasking
import Rszero.JsonText
import Rszero.WebSocketEnvelope
import Rszero.Fnv1a
import Rszero.HashRing
import Rszero.Sharding
import Rszero.ShardRouting
import Rszero.WeightedSlots
import Rszero.Experiment
import Rszero.ExperimentWeights
import Rszero.ExperimentRamp
import Rszero.ExperimentControl
import Rszero.Retry
import Rszero.Duration
import Rszero.Backoff
import Rszero.RetryPolicy
import Rszero.Batch
import Rszero.Completion
import Rszero.Semaphore
import Rszero.MapReduce
import Rszero.MapReduceRuns
import Rszero.ForkJoin
import Rszero.RunAll
import Rszero.MemCacheEviction
import Rszero.RedisLockLease
import Rszero.RedisLockReports
import Rszero.Masking
import Rszero.MaskingHides
import Rszero.TraceContext
import Rszero.TraceStrictness
import Rszero.TraceMiddleware
import Rszero.LogMasking
import Rszero.SignatureDrift
import Rszero.ErrorStatus
import Rszero.Schema
import Rszero.BodyStream
import Rszero.SchemaMiddleware
import Rszero.BodyLimit
import Rszero.Canary
import Rszero.Tenant
import Rszero.FilePath
import Rszero.SanitizedNames
import Rszero.Upload
import Rszero.Writes
import Rszero.UploadOverwrite
import Rszero.Dashboard
import Rszero.ConfigWatcher
import Rszero.FormUrlencoded
import Rszero.RequestParam
import Rszero.Interceptor
import Rszero.Loadtest
import Rszero.ShedderControl
import Rszero.ApiPositions
import Rszero.Cursor
import Rszero.ApiSliceParser
import Rszero.CursorStream
import Rszero.ApiSliceRefinement
import Rszero.StreamsReplies
import Rszero.Simulation
import Rszero.WorkQueue
import Rszero.RedisSubscribe
import Rszero.StreamsDelivery
import Rszero.ApiRegistration
import Rszero.FairLock
import Rszero.StoreLock
import Rszero.Ranking
import Rszero.OutboxSweeper
import Rszero.OutboxBacklog
import Rszero.OutboxProgress
import Rszero.SagaStatus
import Rszero.WebSocketHeartbeat
import Rszero.FixedWindow
import Rszero.PlatformView
import Rszero.TenantIsolation
import Rszero.TenantQuota
import Rszero.TenantRate
