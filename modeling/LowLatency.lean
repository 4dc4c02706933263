import LowLatency.Spsc.Exclusivity
import LowLatency.Spsc.Boundary
import LowLatency.Spmc.Representation
import LowLatency.Spmc.Integrity
import LowLatency.Spmc.LapRecovery
import LowLatency.Spmc.Overrun
import LowLatency.Spmc.Interleavings
import LowLatency.Seqlock.Register
import LowLatency.Seqlock.Overrun
import LowLatency.Seqlock.Interleavings
import LowLatency.Seqlock.Termination
import LowLatency.Seqlock.SharedSystem
import LowLatency.Mem.Mapping
import LowLatency.Mem.Releases
import LowLatency.Bench.Handshake
import LowLatency.Bench.SpscResults
import LowLatency.Bench.SpmcReports
import LowLatency.Bench.SeqlockThreads
import LowLatency.Bench.PreflightRuns
import LowLatency.Bench.Interrupts
