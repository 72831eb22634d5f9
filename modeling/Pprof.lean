import Pprof.Lib.Runs
import Pprof.Lib.Iter
import Pprof.Lib.FormalSum
import Pprof.Lib.AssocMap
import Pprof.Machine
import Pprof.Lib.TempFile
import Pprof.HashCounter
import Pprof.TempFdArray
import Pprof.Lib.Ledger
import Pprof.Collector
import Pprof.CollectorCounts
import Pprof.SpillFailure
import Pprof.Lib.Utf8
import Pprof.Frames
import Pprof.Profiler
import Pprof.Report
import Pprof.ReportCounts
import Pprof.Sessions
import Pprof.Attribution
import Pprof.ProfilerGuard
import Pprof.LifeCycle
import Pprof.Failures
import Pprof.Interleaving
import Pprof.Keeping
import Pprof.Races
import Pprof.Eviction
import Pprof.ReportKeys
import Pprof.Lib.Interning
import Pprof.Protobuf
import Pprof.ProfileDecoding
import Pprof.Flamegraph
import Pprof.FramePointer
import Pprof.Capture
import Pprof.AddrValidate
import Pprof.Lib.Sharing
import Pprof.ValidateRaces
import Pprof.PerfMap
import Pprof.PerfMapRefresh
import Pprof.PerfMapFreshness
import Pprof.ValidateAlone
import Pprof.FrameRecords
import Pprof.Blocklist
import Pprof.Lib.Digits
import Pprof.ThreadName
import Pprof.Lib.Skipping
import Pprof.FrameFilter
import Pprof.PerfMapLookup
import Pprof.Lib.Words
import Pprof.PerfMapRoundTrip
import Pprof.Period
import Pprof.Framehop
import Pprof.SpillOrder
import Pprof.KeyHashing
import Pprof.Lib.ByteMemory
import Pprof.SampleCounter
import Pprof.StackWords
import Pprof.Lib.Projection
import Pprof.ReportFaults
import Pprof.Reporting
import Pprof.ReportsAtomic
import Pprof.HeavyKeys
import Pprof.Exports
import Pprof.Criterion
import Pprof.Lib.Asking
import Pprof.SafeWalks
import Pprof.SampleLimits
import Pprof.SignalHandler
import Pprof.Lib.Progress
import Pprof.CallsReturn
import Pprof.Crowding
import Pprof.StackProfiles
