import Portfolio.Kernel.ItemRegistry
import Portfolio.Kernel.SemaphoreExclusion
import Portfolio.Kernel.ReplyHeldRun
import Portfolio.Acrobat.DirectoryLookup
import Portfolio.Acrobat.FileDataRun
import Portfolio.File.CacheRun
import Portfolio.File.RawFileRun
import Portfolio.File.FileSearchExact
import Portfolio.Kernel.TimerRun
import Portfolio.Kernel.IoCompletionRun
import Portfolio.Kernel.ItemCallsRun
import Portfolio.Kernel.PagePoolRoundTrip
import Portfolio.Kernel.IoBuffersRun
import Portfolio.Kernel.LumberjackRun
import Portfolio.Loader.DaemonRun
import Portfolio.Streaming.DataAcqRun
import Portfolio.Audio.TemplateRun
import Portfolio.Audio.TimerRun
import Portfolio.Streaming.MarkerRun
import Portfolio.Streaming.ChunkRun
import Portfolio.Iff.ScopeRun
import Portfolio.Acrobat.SuperBlock
import Portfolio.Kernel.DdfBufferRun
import Portfolio.Kernel.DeviceStacksRun
import Portfolio.International.FormatNumberText
import Portfolio.FsUtils.DeleteTreeRun
import Portfolio.Kernel.SemaphoreWaiters
import Portfolio.Kernel.PagePoolTermination
import Portfolio.Kernel.MessageDelivery
import Portfolio.Kernel.PortSignalsRun
import Portfolio.Kernel.SignalWaits
import Portfolio.Kernel.QuantumRun
import Portfolio.Compression.RoundTrip
import Portfolio.Kernel.ListMemory
import Portfolio.Audio.ClockReading
import Portfolio.Date.Conversions
import Portfolio.Kernel.TaskArguments
import Portfolio.Kernel.TagWalk
import Portfolio.Kernel.TimeValues
import Portfolio.Streaming.MemPool
import Portfolio.FsUtils.Paths
import Portfolio.Kernel.TaskOwners
import Portfolio.Kernel.MemDebug
import Portfolio.Stdio.Scanset
import Portfolio.Audio.TableAlloc
