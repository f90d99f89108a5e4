import Streamling.Checkpoints.AlignerBarrier
import Streamling.Checkpoints.AlignerRun
import Streamling.Checkpoints.AlignerSafety
import Streamling.Checkpoints.AlignerStacking
import Streamling.Checkpoints.Coordinator
import Streamling.Checkpoints.CoordinatorCompleteness
import Streamling.Checkpoints.CoordinatorSafety
import Streamling.Checkpoints.CoordinatorSteps
import Streamling.Checkpoints.CoordinatorTerminal
import Streamling.Checkpoints.MarkerAligner
import Streamling.Checkpoints.Message
import Streamling.Checkpoints.RecordBatch
import Streamling.Checkpoints.SinkGate
import Streamling.DynamicTable.CacheAgreement
import Streamling.DynamicTable.HashedKeySet
import Streamling.DynamicTable.KeySet
import Streamling.DynamicTable.KeySetExact
import Streamling.DynamicTable.KeySetRefines
import Streamling.DynamicTable.PostgresCache
import Streamling.Formats.ArrowAvro
import Streamling.Formats.AvroDecimals
import Streamling.Formats.AvroFields
import Streamling.Formats.AvroLeaves
import Streamling.Formats.AvroNumbers
import Streamling.Formats.AvroSchema
import Streamling.Formats.AvroTrees
import Streamling.Formats.CoerceRows
import Streamling.Formats.ConfluentDecoder
import Streamling.Formats.ConfluentFrames
import Streamling.Formats.ConfluentOrder
import Streamling.Formats.ConfluentRows
import Streamling.Formats.ConfluentRuns
import Streamling.Formats.DecimalText
import Streamling.Formats.DecimalTextBridge
import Streamling.Formats.DecimalTextLeaves
import Streamling.Formats.DecimalTextWalks
import Streamling.Functions.DecimalArbAggregates
import Streamling.Functions.DecimalArbAggregatesExact
import Streamling.Functions.DecimalArbClosure
import Streamling.Functions.DecimalArbExtreme
import Streamling.Functions.DecimalArbOps
import Streamling.Functions.DecimalArbPartials
import Streamling.Functions.DecimalArbStrings
import Streamling.Functions.DecimalArbUnify
import Streamling.Functions.DecimalArbUnifyExact
import Streamling.Operators.BatchAccumulator
import Streamling.Operators.BatchConservation
import Streamling.Operators.Broadcast
import Streamling.Operators.BroadcastDelivery
import Streamling.Operators.Dedup
import Streamling.Operators.DedupByVersion
import Streamling.Operators.DedupKeepLast
import Streamling.Operators.OffsetBudget
import Streamling.Operators.RebatchChain
import Streamling.Operators.RebatchOrdering
import Streamling.Operators.Repartition
import Streamling.Operators.RepartitionDelivery
import Streamling.Operators.RepartitionExchange
import Streamling.Operators.RepartitionRouting
import Streamling.Operators.StreamChain
import Streamling.Operators.StreamColumns
import Streamling.Operators.StreamOperators
import Streamling.Operators.Unnest
import Streamling.Operators.UnnestBatch
import Streamling.Operators.UnnestColumns
import Streamling.Operators.UnnestLabels
import Streamling.Operators.UnnestLevels
import Streamling.Operators.UnnestRows
import Streamling.Plugin.Sink
import Streamling.Plugin.SinkAcks
import Streamling.Plugin.Source
import Streamling.Plugin.SourceCut
import Streamling.Plugin.SourceFlow
import Streamling.Plugin.Transform
import Streamling.Plugin.TransformEnds
import Streamling.Plugin.TransformFlow
import Streamling.Plugin.TransformMarkers
import Streamling.Sinks.Postgres
import Streamling.Sinks.PostgresAggregate
import Streamling.Sinks.PostgresAggregateOnce
import Streamling.Sinks.PostgresBatching
import Streamling.Sinks.PostgresNumerics
import Streamling.Sources.BoundedProgress
import Streamling.Sources.ClickHouse
import Streamling.Sources.ClickHouseCoverage
import Streamling.Sources.ClickHouseCut
import Streamling.Sources.ClickHouseScan
import Streamling.Sources.FileProgress
import Streamling.Sources.FileProgressExact
import Streamling.Sources.FileWatermark
import Streamling.Sources.FileWatermarkRuns
import Streamling.Sources.Hybrid
import Streamling.Sources.HybridAgreement
import Streamling.Sources.HybridColumns
import Streamling.Sources.HybridCut
import Streamling.Sources.HybridForm
import Streamling.Sources.HybridJobMode
import Streamling.Sources.HybridPhases
import Streamling.Sources.HybridRecovery
import Streamling.Sources.HybridSchema
import Streamling.Sources.Kafka
import Streamling.Sources.KafkaCommit
import Streamling.Sources.KafkaCut
import Streamling.Sources.KafkaStartup
import Streamling.Sources.RangeProgress
import Streamling.Sources.RangeSizing
import Streamling.Sql.AliasClosure
import Streamling.Sql.DecimalArbNames
import Streamling.Sql.DecimalArbRewrite
import Streamling.Sql.NumberLiterals
import Streamling.Sql.Statements
import Streamling.Sql.TableChoice
import Streamling.Sql.TableReferences
import Streamling.Sql.TableScope
import Streamling.Support.Buckets
import Streamling.Support.Coalesce
import Streamling.Support.ColumnRows
import Streamling.Support.DecimalCodec
import Streamling.Support.HashIndex
import Streamling.Support.Kahn
import Streamling.Support.KeyedBatches
import Streamling.Support.Numeral
import Streamling.Support.OrderedMap
import Streamling.Support.PartialFolds
import Streamling.Support.RuleClosure
import Streamling.Support.Run
import Streamling.Support.StreamStages
import Streamling.Support.Tiling
import Streamling.Support.Tokens
import Streamling.Support.TwosComplement
import Streamling.Topology.SqlTokens
import Streamling.Topology.TopologySort
import Streamling.Types.Arrow
import Streamling.Types.ArrowArray
import Streamling.Types.ArrowCells
import Streamling.Types.ArrowConversion
import Streamling.Types.ArrowTree
import Streamling.Types.DecimalArb
import Streamling.Types.DecimalArbBytes
import Streamling.Types.DecimalArbCasts
import Streamling.Types.DecimalArbSortKey
import Streamling.Types.LegacyWideInt
import Streamling.Types.LegacyWideIntBridge
import Streamling.Types.LegacyWideIntWords
import Streamling.Types.NativeInt
import Streamling.Types.NativeIntExact
import Streamling.Types.NullArrays
import Streamling.Types.SafeTake
import Streamling.Types.SafeTakeRows
import Streamling.Checkpoints.SinkGateComplete
import Streamling.Sinks.ParallelSink
import Streamling.Sinks.ParallelSinkStreams
import Streamling.Sinks.ParallelSinkSafety
import Streamling.Sinks.ParallelSinkAcks
