import Loadmaster.Gpu.SweepCoverage
import Loadmaster.Lib.Run
import Loadmaster.Gpu.SweepTraffic
import Loadmaster.Gpu.PtxKernel
import Loadmaster.Gpu.Contention.Monitor
import Loadmaster.Gpu.Settings
import Loadmaster.Gpu.Contention.Sources
import Loadmaster.Gpu.Contention.Skipping
import Loadmaster.Gpu.Contention.Reports
import Loadmaster.Gpu.Contention.Parse
import Loadmaster.Gpu.Contention.DrmSource
import Loadmaster.Gpu.Contention.DrmClients
import Loadmaster.Gpu.Worker
import Loadmaster.Gpu.WorkerRules
import Loadmaster.Gpu.MakeRoom
import Loadmaster.Gpu.LinearDevice
import Loadmaster.Gpu.DeviceMemory
import Loadmaster.Gpu.BlockAndSweep
import Loadmaster.Gpu.ManagerRandomNormal
import Loadmaster.Lib.Hex
import Loadmaster.Lib.FirstSeen
import Loadmaster.Gpu.OpenCl.CollectDevices
import Loadmaster.Core.SignalFlag
import Loadmaster.Core.Runtime
import Loadmaster.Lib.LargestRemainder
import Loadmaster.Lib.WaterFill
import Loadmaster.Util.NormalSchedule
import Loadmaster.Lib.Cycle
import Loadmaster.Util.RandNormalWalk
import Loadmaster.Lib.Binary64
import Loadmaster.Cpu.LoadController
import Loadmaster.Cpu.LoadControllerDouble
import Loadmaster.Cpu.AntiWindup
import Loadmaster.Lib.Contraction
import Loadmaster.Cpu.LoadLoop
import Loadmaster.Cpu.ManagerRandomNormal
import Loadmaster.Gpu.Contention.DrmVerdict
import Loadmaster.Lib.Outcome
import Loadmaster.Util.NormalDist
import Loadmaster.Util.NormalScheduleInts
import Loadmaster.Core.Options
import Loadmaster.Cpu.Manager
import Loadmaster.Cpu.Sizing
import Loadmaster.Lib.Telescope
import Loadmaster.Util.ProcStat
import Loadmaster.Util.RollingSampler
import Loadmaster.Cpu.LoadSampling
import Loadmaster.Cpu.StatMacos
import Loadmaster.Lib.SlidingMax
import Loadmaster.Gpu.Contention.ShareGate
import Loadmaster.Gpu.SweepAccounting
import Loadmaster.Memory.Allocator
import Loadmaster.Memory.ManagerDefault
import Loadmaster.Memory.Ownership
import Loadmaster.Memory.Progress
import Loadmaster.Gpu.Calibration
import Loadmaster.Gpu.LinearCalibration
import Loadmaster.Gpu.Manager
import Loadmaster.Gpu.BringUp
import Loadmaster.Cli.Cli
import Loadmaster.Lib.Decimal
import Loadmaster.Cli.CommandLine
import Loadmaster.Gpu.DriftCorrection
import Loadmaster.Gpu.MemoryBlock
import Loadmaster.Gpu.GivingUp
import Loadmaster.Lib.Streak
import Loadmaster.Gpu.Contention.UnknownWarning
import Loadmaster.Lib.Scan
import Loadmaster.Gpu.Contention.PciBusId
import Loadmaster.Gpu.Contention.DrmFdinfo
import Loadmaster.Gpu.Contention.LinuxFs
import Loadmaster.Lib.MultiMap
import Loadmaster.Gpu.Contention.KfdQueues
import Loadmaster.Gpu.Contention.NvmlSource
import Loadmaster.Gpu.Contention.IoRegSource
import Loadmaster.Gpu.Contention.IoRegUsers
import Loadmaster.Lib.FloorDiv
import Loadmaster.Util.Clock
import Loadmaster.Lib.RingWindow
import Loadmaster.Lib.EvenSplit
import Loadmaster.Cpu.LoadSplit
import Loadmaster.Util.ProcStatSampling
import Loadmaster.Gpu.Contention.BusyFraction
import Loadmaster.Lib.Fgets
import Loadmaster.Lib.Scanf
import Loadmaster.Cpu.StatLinux
import Loadmaster.Cpu.ProcStatText
import Loadmaster.Util.ScheduleShape
import Loadmaster.Cpu.Worker
import Loadmaster.Cpu.DemandMonotone
import Loadmaster.Lib.Tiling
import Loadmaster.Gpu.SweepTiling
import Loadmaster.Gpu.KernelWork
import Loadmaster.Util.Obfuscate
import Loadmaster.Gpu.SpirvData
import Loadmaster.Lib.Occurrence
import Loadmaster.Gpu.Contention.EngineInstance
import Loadmaster.Core.GpuIndices
import Loadmaster.Core.SchedulingGrid
import Loadmaster.Lib.BlockHeap
import Loadmaster.Memory.BlockFill
import Loadmaster.Util.ProcPidStat
import Loadmaster.Cpu.CoreCount
import Loadmaster.Lib.Autoregression
import Loadmaster.Lib.NormalDraws
import Loadmaster.Gpu.MemTraffic
import Loadmaster.Lib.While
import Loadmaster.Lib.Bisection
import Loadmaster.Util.AxisSearch
import Loadmaster.Util.NormalQuantile
import Loadmaster.Lib.Custody
import Loadmaster.Gpu.DeviceLife
import Loadmaster.Gpu.DeviceCustody
import Loadmaster.Gpu.DeviceGivenBack
import Loadmaster.Core.Lifecycle
import Loadmaster.Cpu.LoopCountSearch
import Loadmaster.Cpu.WorkerLoop
import Loadmaster.Cpu.Schedule
import Loadmaster.Gpu.Contention.PdhSource
import Loadmaster.Gpu.NeverConcurrent
import Loadmaster.Util.Dl
import Loadmaster.Gpu.Drivers
