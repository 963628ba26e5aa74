import QueQiao.Client.Voting
import QueQiao.Config.Reload
import QueQiao.Config.Types
import QueQiao.Db.ActiveExact
import QueQiao.Db.ArchiveFiles
import QueQiao.Db.ArchiveKept
import QueQiao.Db.ArchiveNames
import QueQiao.Db.BatchTransactions
import QueQiao.Db.CaughtUp
import QueQiao.Db.CutoverSafety
import QueQiao.Db.Facets
import QueQiao.Db.FailedRuns
import QueQiao.Db.FilterText
import QueQiao.Db.FingerprintForms
import QueQiao.Db.LegacyMigration
import QueQiao.Db.LegacyRows
import QueQiao.Db.MigrateCopy
import QueQiao.Db.MonthBoundary
import QueQiao.Db.Payload
import QueQiao.Db.Previews
import QueQiao.Db.ReaderPool
import QueQiao.Db.RecordsQuery
import QueQiao.Db.RequestFormats
import QueQiao.Db.RotateLocked
import QueQiao.Db.SessionFingerprint
import QueQiao.Db.StoreOpening
import QueQiao.Db.VerifiedCopies
import QueQiao.Db.WriterBarrier
import QueQiao.Db.WriterCounters
import QueQiao.Db.WriterIds
import QueQiao.Handlers.ActiveShard
import QueQiao.Handlers.AnalysisCache
import QueQiao.Handlers.AnthropicMessage
import QueQiao.Handlers.AudioUpload
import QueQiao.Handlers.AuditOnce
import QueQiao.Handlers.BodyLayers
import QueQiao.Handlers.ChatOutcome
import QueQiao.Handlers.ChatRecord
import QueQiao.Handlers.ChoiceStreams
import QueQiao.Handlers.CoveredArchives
import QueQiao.Handlers.DistinctAgreement
import QueQiao.Handlers.EffectiveKeys
import QueQiao.Handlers.ErrorLogFaults
import QueQiao.Handlers.ErrorLogTail
import QueQiao.Handlers.ErrorSources
import QueQiao.Handlers.ErrorStreams
import QueQiao.Handlers.FastPath
import QueQiao.Handlers.FingerprintTimeline
import QueQiao.Handlers.InboundModel
import QueQiao.Handlers.ListedTokens
import QueQiao.Handlers.LogFilters
import QueQiao.Handlers.LogScan
import QueQiao.Handlers.LoggedBodies
import QueQiao.Handlers.MessageFields
import QueQiao.Handlers.MetricsAlone
import QueQiao.Handlers.MetricsCache
import QueQiao.Handlers.ModelEcho
import QueQiao.Handlers.ModelHandler
import QueQiao.Handlers.ModelRequests
import QueQiao.Handlers.Percentiles
import QueQiao.Handlers.RawBodyTail
import QueQiao.Handlers.RecordDetail
import QueQiao.Handlers.RollupDates
import QueQiao.Handlers.RollupGroups
import QueQiao.Handlers.SessionTimeline
import QueQiao.Handlers.ShardRead
import QueQiao.Handlers.StreamFlush
import QueQiao.Handlers.StreamedMessages
import QueQiao.Handlers.ThinkRemoval
import QueQiao.Handlers.ThinkingAgreement
import QueQiao.Handlers.ThinkingBytes
import QueQiao.Handlers.ThinkingFields
import QueQiao.Handlers.ThinkingMessages
import QueQiao.Handlers.ThinkingTags
import QueQiao.Handlers.UpstreamModel
import QueQiao.Lib.Buckets
import QueQiao.Lib.FlatJson
import QueQiao.Lib.Slots
import QueQiao.Lib.TimedCache
import QueQiao.Logging.RollingLocal
import QueQiao.Metrics.LeastConnections
import QueQiao.Metrics.SlidingWindow
import QueQiao.Metrics.WindowGauges
import QueQiao.Middleware.LoggedEvents
import QueQiao.Middleware.QuotedText
import QueQiao.Models.JsonText
import QueQiao.Schedule
import QueQiao.Services.Accounting
import QueQiao.Services.BackoffLevel
import QueQiao.Services.BreakerRuns
import QueQiao.Services.CacheEviction
import QueQiao.Services.ChainLaw
import QueQiao.Services.Cooldown
import QueQiao.Services.FallbackLoop
import QueQiao.Services.ModelsCache
