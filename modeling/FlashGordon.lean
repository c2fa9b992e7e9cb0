import FlashGordon.TransportRun
import FlashGordon.PipelineRun
import FlashGordon.OutputHandoff
import FlashGordon.Reuse
import FlashGordon.QsaReplica
import FlashGordon.OwnerSessionSettle
import FlashGordon.RingPrefillRun
import FlashGordon.RingHopBatch
import FlashGordon.WireCodec
import FlashGordon.SessionFrontier
import FlashGordon.ChatIsolation
import FlashGordon.EngineQueue
import FlashGordon.UringRun
import FlashGordon.HttpConnection
import FlashGordon.QsaTileArena
import FlashGordon.QsaSelect
import FlashGordon.QsaEviction
import FlashGordon.QsaStateStore
import FlashGordon.FabricConnected
import FlashGordon.PenaltyCounts
import FlashGordon.DecodeBatchTorn
import FlashGordon.TopologyAtomic
import FlashGordon.TopologyBuild
import FlashGordon.NgramPlan
import FlashGordon.PackExperts
import FlashGordon.ChunkedFraming
import FlashGordon.ChatCompose
import FlashGordon.ToolUpdate
import FlashGordon.PublicPrefix
import FlashGordon.ApiLiteral
import FlashGordon.QsaOwnerRecovery
import FlashGordon.QsaBarrier
import FlashGordon.ChatGrammar
import FlashGordon.DecodeBatchSchedule
import FlashGordon.QsaPageRange
import FlashGordon.ExpertSchedule
import FlashGordon.FabricChecksum
import FlashGordon.TokenizerPiece
import FlashGordon.UringCounters
import FlashGordon.Sampler
import FlashGordon.Sha256
import FlashGordon.VisionPositions
import FlashGordon.NgramPrefill
import FlashGordon.QsaLocalityCache
