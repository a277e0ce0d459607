import MarketDataEngine.Transition
import MarketDataEngine.OrderedMap
import MarketDataEngine.MarketTypes
import MarketDataEngine.Json
import MarketDataEngine.MessageParsers
import MarketDataEngine.StrictAcceptance
import MarketDataEngine.QuotedWords
import MarketDataEngine.JsonText
import MarketDataEngine.WireFormat
import MarketDataEngine.SpelledJson
import MarketDataEngine.BoundedFifo
import MarketDataEngine.SpscQueue
import MarketDataEngine.Pipeline
import MarketDataEngine.FeedHandler
import MarketDataEngine.MessageRouting
import MarketDataEngine.ReplayEngine
import MarketDataEngine.Shutdown
import MarketDataEngine.MessageConservation
import MarketDataEngine.OrderBook
import MarketDataEngine.SequenceGaps
import MarketDataEngine.LiveBook
import MarketDataEngine.Aggregator
import MarketDataEngine.TradeAggregator
import MarketDataEngine.CompletedWindows
import MarketDataEngine.SignalDetector
import MarketDataEngine.PriceSignals
import MarketDataEngine.ByteCodec
import MarketDataEngine.RecordFormat
import MarketDataEngine.DiskLogger
import MarketDataEngine.DiskReader
import MarketDataEngine.ProcessingThread
import MarketDataEngine.TradeWindow
import MarketDataEngine.SignalLog
import MarketDataEngine.SignalFiring
import MarketDataEngine.SymbolIsolation
import MarketDataEngine.SnapshotCuts
import MarketDataEngine.RecordingCompleteness
import MarketDataEngine.ReplayProgress
import MarketDataEngine.ReplaySchedule
import MarketDataEngine.RecordReplay
import MarketDataEngine.AcceptedRecords
import MarketDataEngine.ReplaySafety
import MarketDataEngine.RecordingFaults
import MarketDataEngine.ReplayDelivery
import MarketDataEngine.ReplaySpeed
import MarketDataEngine.ResetEquivalence
import MarketDataEngine.ExpiringQueue
import MarketDataEngine.TradeExpiry
import MarketDataEngine.RollingAverages
import MarketDataEngine.MetricRanges
import MarketDataEngine.WeightedMean
import MarketDataEngine.Vwap
import MarketDataEngine.PauseBound
import MarketDataEngine.QueueDepth
import MarketDataEngine.ReconnectPolicy
import MarketDataEngine.ZeroDivisors
import MarketDataEngine.WindowConservation
import MarketDataEngine.ReplayControl
import MarketDataEngine.ReplayMain
import MarketDataEngine.DrainWork
import MarketDataEngine.ReplayShutdown
import MarketDataEngine.ReplaySession
import MarketDataEngine.Subscriptions
import MarketDataEngine.WsServer
import MarketDataEngine.WsDelivery
import MarketDataEngine.WsStop
import MarketDataEngine.WsClient
import MarketDataEngine.LateMessages
import MarketDataEngine.LiveMain
import MarketDataEngine.LiveShutdown
import MarketDataEngine.LiveSession
import MarketDataEngine.LossyReplica
import MarketDataEngine.ExchangeBook
import MarketDataEngine.LossWarnings
import MarketDataEngine.StreamPath
import MarketDataEngine.StatsJson
import MarketDataEngine.Monitoring
import MarketDataEngine.MetricsServer
import MarketDataEngine.CommandLine
import MarketDataEngine.EndToEnd
import MarketDataEngine.ReplayLiveness
import MarketDataEngine.LiveLiveness
