import TrainOS.ExtensionCompleteness
import TrainOS.BuddyCoalescing
import TrainOS.KernelHeap
import TrainOS.CopyRect
import TrainOS.TerminalRobustness
import TrainOS.ElfFaithful
import TrainOS.WasmGrowth
import TrainOS.Wasi
import TrainOS.CapabilityConfinement
import TrainOS.CapabilityCounts
import TrainOS.NumaRuns
import TrainOS.MessageQueues
import TrainOS.PriorityDonation
import TrainOS.ReadyThreads
import TrainOS.Wakeups
import TrainOS.KilledProcesses
import TrainOS.SyscallDispatch
import TrainOS.WxorxRepair
import TrainOS.MemorySealing
import TrainOS.FrameAccounting
import TrainOS.TransactionalMmu
import TrainOS.SandboxMediation
import TrainOS.WriteLaw
import TrainOS.ZoneMatrix
import TrainOS.FileDisk
import TrainOS.TcpStream
import TrainOS.Enclave
import TrainOS.Attestation
import TrainOS.Sm4
import TrainOS.Aes
import TrainOS.SecureStorage
import TrainOS.KvCache
import TrainOS.GpuWorkloads
import TrainOS.DeadlineScheduler
import TrainOS.IoUring
import TrainOS.VirtualMachines
import TrainOS.DistMessages
import TrainOS.RemotePool
import TrainOS.IommuContexts
