import Rivr.Core.AirtimeLaw
import Rivr.Core.AssignmentOrder
import Rivr.Core.CompilerKinds
import Rivr.Core.CompilerSources
import Rivr.Core.Debounce
import Rivr.Core.EngineTrace
import Rivr.Core.EventNumbers
import Rivr.Core.Feed
import Rivr.Core.FixedText
import Rivr.Core.Flush
import Rivr.Core.FlushAll
import Rivr.Core.GraphTable
import Rivr.Core.InjectionOrder
import Rivr.Core.Layout
import Rivr.Core.LayoutFree
import Rivr.Core.LayoutTokens
import Rivr.Core.MsOperators
import Rivr.Core.NodeArithmetic
import Rivr.Core.Parser
import Rivr.Core.ParserAscii
import Rivr.Core.ParserPhrases
import Rivr.Core.ParserSafety
import Rivr.Core.PositiveWindows
import Rivr.Core.RingBuf
import Rivr.Core.RoundRobin
import Rivr.Core.SchedulerRuns
import Rivr.Core.SourceNames
import Rivr.Core.StampOrder
import Rivr.Core.StreamMeaning
import Rivr.Core.StreamOrder
import Rivr.Core.Termination
import Rivr.Core.WindowGrouping
import Rivr.Firmware.Acknowledgement
import Rivr.Firmware.AirtimeClass
import Rivr.Firmware.AirtimeSched
import Rivr.Firmware.BeaconSched
import Rivr.Firmware.BestHop
import Rivr.Firmware.BleFrag
import Rivr.Firmware.Channel
import Rivr.Firmware.CliInput
import Rivr.Firmware.CrcBitwise
import Rivr.Firmware.CrcDetection
import Rivr.Firmware.Delivery
import Rivr.Firmware.DutyCycleAccount
import Rivr.Firmware.DutyCycleLaw
import Rivr.Firmware.EmbedEngine
import Rivr.Firmware.EngineRun
import Rivr.Firmware.Fabric
import Rivr.Firmware.FabricCongestion
import Rivr.Firmware.FloodCoverage
import Rivr.Firmware.FloodNetwork
import Rivr.Firmware.ForwardBudget
import Rivr.Firmware.ForwardSet
import Rivr.Firmware.FwdSet
import Rivr.Firmware.HmacSha256
import Rivr.Firmware.HoldOff
import Rivr.Firmware.HopAgreement
import Rivr.Firmware.MessageCopies
import Rivr.Firmware.NeighborPositions
import Rivr.Firmware.NeighborRuns
import Rivr.Firmware.NeighborUpdate
import Rivr.Firmware.OpfwdSuppress
import Rivr.Firmware.OtaReplay
import Rivr.Firmware.OtaRetry
import Rivr.Firmware.PacketBus
import Rivr.Firmware.ParamsSignature
import Rivr.Firmware.PendingConservation
import Rivr.Firmware.PolicyParams
import Rivr.Firmware.PolicyProgram
import Rivr.Firmware.PolicyRate
import Rivr.Firmware.ProgramReload
import Rivr.Firmware.ProgramStore
import Rivr.Firmware.RelayFairness
import Rivr.Firmware.RelayMesh
import Rivr.Firmware.RelayNode
import Rivr.Firmware.RelaySuppression
import Rivr.Firmware.RetryLifecycle
import Rivr.Firmware.RewrittenFrames
import Rivr.Firmware.RingBuffer
import Rivr.Firmware.Rml
import Rivr.Firmware.RmlCodec
import Rivr.Firmware.RmlDelta
import Rivr.Firmware.RmlNetwork
import Rivr.Firmware.RmlRejection
import Rivr.Firmware.RmlThreads
import Rivr.Firmware.RouteCount
import Rivr.Firmware.RouteFreshness
import Rivr.Firmware.RouteLoops
import Rivr.Firmware.RouteMap
import Rivr.Firmware.RoutingNeighbors
import Rivr.Firmware.SelfForwarding
import Rivr.Firmware.SendQueue
import Rivr.Firmware.ServiceRecords
import Rivr.Firmware.Sha256
import Rivr.Firmware.SignedUpdates
import Rivr.Firmware.SuppressionRing
import Rivr.Firmware.TimerNames
import Rivr.Firmware.UnicastForwarding
import Rivr.Firmware.UsbSlip
import Rivr.ForMathlib.Broadcast
import Rivr.ForMathlib.ByteParser
import Rivr.ForMathlib.ByteStuffing
import Rivr.ForMathlib.Interleave
import Rivr.ForMathlib.Json
import Rivr.ForMathlib.MerkleDamgard
import Rivr.ForMathlib.ParserSimulation
import Rivr.ForMathlib.ProcessNetwork
import Rivr.ForMathlib.RingLog
import Rivr.ForMathlib.Runs
import Rivr.ForMathlib.TokenBucket
import Rivr.ForMathlib.TumblingQuota
