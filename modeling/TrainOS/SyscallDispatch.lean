import TrainOS.BoundedTable
import TrainOS.MachineWord

/-!
# The system call dispatcher (`syscall/mod.rs`)

The filter, the entry hook, the accounting and the arm of the number, in full; what the arms
call, the hooks and the scheduler are parameters (`Callees`).  `SYSCALL_COUNTERS` has 512 entries
and is indexed with the number that the process chose, so the dispatcher panics on every
larger number that the filter lets through (`dispatch_robust_iff`).
-/

namespace TrainOS.Syscall

open MachineWord

/-! ### The system call filter (`security/mod.rs`) -/

inductive SeccompAction where
  | allow | kill | log
deriving DecidableEq, Repr

structure SeccompRule where
  syscallNr : Nat
  action : SeccompAction
deriving DecidableEq, Repr

def SECCOMP_MAX_RULES : Nat := 16

def SECCOMP_MAX_PROCS : Nat := 32

/-- The rules of one process. -/
structure SeccompFilter where
  rules : Table SeccompRule SECCOMP_MAX_RULES
  pid : Nat

/-- Whether the call is allowed and whether the process is killed. -/
def SeccompAction.verdict : SeccompAction → Bool × Bool
  | .allow => (true, false)
  | .kill => (false, true)
  | .log => (true, false)

/-- The first rule for the number in a filter of the process decides. -/
def seccompCheck (filters : Table SeccompFilter SECCOMP_MAX_PROCS) (pid syscallNr : Nat) :
    Bool × Bool :=
  let rule := filters.entries.findSome? fun f =>
    if f.pid ≠ pid then none else f.rules.entries.find? fun r => r.syscallNr == syscallNr
  match rule with
  | some r => r.action.verdict
  | none => (true, false)

/-! ### Accounting -/

structure ProcTime where
  pid : Nat
  utime : Nat
  stime : Nat
  startTime : Nat
deriving DecidableEq, Repr

def accountStime (times : Table ProcTime 32) (pid : Nat) : Table ProcTime 32 :=
  times.updateFirst (fun p => p.pid == pid) fun p => { p with stime := wrapAdd p.stime 1 }

/-- `(pid, operation, slot, timestamp)`. -/
abbrev AuditEntry := Nat × Nat × Nat × Nat

/-- The ring of the last 256 audited operations; the index counts on. -/
structure AuditLog where
  log : Vector AuditEntry 256
  idx : Nat

def capAuditLog (l : AuditLog) (entry : AuditEntry) : AuditLog :=
  { log := l.log.set (l.idx % 256) entry (Nat.mod_lt _ (by decide)), idx := wrapAdd l.idx 1 }

/-! ### Trap frames and handlers -/

/-- The registers that the dispatcher reads and writes. -/
structure TrapFrame where
  a0 : Nat
  a1 : Nat
  a2 : Nat
  a3 : Nat
  a4 : Nat
  a5 : Nat
  a7 : Nat
  sepc : Nat
deriving DecidableEq, Repr

def u8 (x : Nat) : Nat := x % 2 ^ 8

def u16 (x : Nat) : Nat := x % 2 ^ 16

def u32 (x : Nat) : Nat := x % 2 ^ 32

/-- The functions that the arms call, under their own names. -/
inductive Handler where
  | sysEpCreate | sysSend | sysRecv | sysMint | sysCopy | sysMove | sysDelete | sysCapStats
  | sysMmioMap | sysExit | sysSpawn | sysExec | sysFork | sysOpen | sysRead | sysWrite | sysClose
  | sysStat | sysLseek | sysDup | sysGetcwd | sysMmioRead32 | sysMmioWrite32 | sysBlkRead
  | sysBlkWrite | sysProclist | sysShmMap | sysGetuid | sysSetuid | sysChmod | sysSignal
  | sysWaitpid | sysGetppid | sysGettid | sysNanosleep | sysClockGettime | sysUmask | sysSetsid
  | sysSysinfo | sysPipe | sysFcntl | sysIoctl | sysGetdents64 | sysMkdir | sysRmdir | sysUnlink
  | sysRename | sysChdir | sysAccess | sysTruncate | sysBrk | sysSocket | sysBind | sysListen
  | sysAccept | sysConnect | sysSendto | sysRecvfrom | sysEpollCreate | sysEpollCtl
  | sysEpollWait | sysUnshare | sysSethostname | sysGethostname | sysSetns | sysSchedSetaffinity
  | sysSchedGetaffinity | sysTimes | sysGetrusage | sysRegisterDrv | sysUnregisterDrv
  | sysListDrvs | sysSync | sysReboot | sysIoUringSetup | sysIoUringEnter | sysIoUringRegister
  | sysVmCreate | sysVmDestroy | sysVmStart | sysVmList | sysVmPause | sysVmResume
  | sysExtRegister | sysExtUnregister | sysExtList | sysNumaNodes | sysNumaAlloc | sysNumaMigrate
  | sysNumaInfo | sysNumaBalance | sysAslrInit | sysCheriCapCreate | sysCheriCapCheck
  | sysSandboxAdd | sysSandboxCheck | sysCheriCapDelete | sysSandboxNetAdd | sysSandboxUidMap
  | sysAslrEntropy | sysCheriStatus | sysWasmLoad | sysWasmUnload | sysWasmList | sysWasmExecute
  | sysWasmMemRead | sysWasmMemWrite | sysGpuRegister | sysGpuList | sysAiSubmit | sysAiNext
  | sysGpuSubmitCmd | sysGpuWaitFence | sysGpuAlloc | sysGpuFree | sysGpuUtilization
  | sysGpuActiveWl | sysAiComplete | sysAiPreempt | sysModelLoad | sysModelUnload | sysModelList
  | sysInferenceSubmit | sysInferenceStats | sysSemget | sysSemop | sysSemctl | sysMsgget
  | sysMsgsnd | sysMsgrcv | sysMsgctl | sysSigaction | sysSigprocmask | sysSigreturn
  | sysSigpending | sysSymlink | sysReadlink | sysFsync | sysFdatasync | sysFlock | sysFallocate
  | sysSendfile | sysPrctl | sysGetpriority | sysSetpriority | sysSchedGetparam
  | sysSchedSetparam | sysMadvise | sysMincore | sysMlock | sysMunlock | sysSettimeofday
  | sysTimerCreate | sysTimerDelete | sysTimerSettime | sysTimerGettime | sysGetsockopt
  | sysSetsockopt | sysGetpeername | sysGetsockname | sysShutdown | sysPoll | sysPpoll
  | sysPselect6 | sysCompatInit | sysCompatTranslate | sysCompatSetupAuxv | sysRemoteNodeAdd
  | sysRemoteEpPublish | sysRemoteEpLookup | sysRemoteSend | sysRemoteProbe | sysRemoteRecv
  | sysRemoteMemAlloc | sysRemoteMemFree | sysRemoteProclist | sysRemoteMint
  | sysRemoteMigratePage | sysNodeId | sysPdSubmit | sysPdNextDecode | sysPdNextPrefill
  | sysPdPreempt | sysPdResume | sysKvAlloc | sysKvFree | sysKvShare | sysKvStats
  | sysGpuHeteroSched | sysGpuMigrate | sysGpuBalance | sysAiSchedStats | sysAiSchedReset
  | sysSetSliceExt | sysMseal | sysReadv2 | sysWritev2 | sysCachestat | sysSeccompAdd
  | sysCapAudit | sysSyscallStats | sysCapVectorEnable | sysVectorStats | sysFbFlush
  | sysPerfRead | sysPerfConfig | sysPerfSample | sysDebugBreakpoint | sysDebugWatchpoint
  | sbiPutchar | sbiGetchar | sysMapMmio | schedule | sysKill | allocatedPages | tickCount
  | sysMmap | sysMunmap | sysMprotect | sysSchedSetpreempt | provideBuffers | removeBuffers
  | sysFbInfo | sysInputPoll | sysInputWait | sysFbMapPage | guiRedraw | createWindow
deriving DecidableEq

/-- What an arm does with the registers it is given. -/
inductive Arm where
  /-- The result is the one of the handler. -/
  | call (h : Handler) (args : List Nat)
  /-- The result of the handler is dropped for `Ok(0)`. -/
  | run (h : Handler) (args : List Nat)
  /-- The call is recorded in the audit log first. -/
  | audited (operation slot : Nat) (h : Handler) (args : List Nat)
  | value (v : Nat)
  | fail (err : String)
  /-- The three counters packed into one word. -/
  | perfStats
  /-- Read `count` page numbers of the caller, then call the handler for `Ok(0)`. -/
  | provideBuffers (ring group pagesPtr count size : Nat)

/-- The arms of the match in source order, with their numbers.  The second argument is
    the process of the current thread. -/
def arms : List (Nat × (TrapFrame → Nat → Arm)) :=
  [ (1, fun t _ => .run .sbiPutchar [t.a0]),
    (2, fun _ _ => .call .sbiGetchar []),
    (10, fun _ _ => .call .sysEpCreate []),
    (11, fun t _ => .call .sysSend [t.a0, u16 t.a1, t.a2, t.a3]),
    (12, fun t _ => .call .sysRecv [t.a0, t.a1, t.a2]),
    (30, fun t _ => .call .sysMint [t.a0, u8 t.a1]),
    (31, fun t _ => .call .sysCopy [t.a0, u32 t.a1, t.a2]),
    (32, fun t _ => .call .sysMove [t.a0, u32 t.a1, t.a2]),
    (33, fun t _ => .call .sysDelete [t.a0]),
    (34, fun _ _ => .call .sysCapStats []),
    (22, fun t _ =>
      if t.a0 = 0 ∨ t.a1 = 0 ∨ 0x1000 < t.a1 then .fail "invalid mmio args"
      else .call .sysMapMmio [t.a0, t.a1]),
    (20, fun t _ => .call .sysMmioMap [t.a0, t.a1]),
    (0, fun t _ => .call .sysExit [u32 t.a0]),
    (3, fun t _ => .call .sysSpawn [t.a0, t.a1]),
    (7, fun t _ => .call .sysExec [t.a0]),
    (4, fun t _ => .call .sysFork [t.sepc]),
    (5, fun _ pid => .value pid),
    (6, fun _ _ => .run .schedule []),
    (50, fun t _ => .call .sysOpen [t.a0, t.a1, t.a2]),
    (51, fun t _ => .call .sysRead [t.a0, t.a1, t.a2]),
    (52, fun t _ => .call .sysWrite [t.a0, t.a1, t.a2]),
    (53, fun t _ => .call .sysClose [t.a0]),
    (54, fun t _ => .call .sysStat [t.a0, t.a1]),
    (55, fun t _ => .call .sysLseek [t.a0, t.a1, t.a2]),
    (56, fun t _ => .call .sysDup [t.a0]),
    (57, fun t _ => .call .sysGetcwd [t.a0, t.a1]),
    (23, fun t _ => .call .sysMmioRead32 [t.a0]),
    (24, fun t _ => .call .sysMmioWrite32 [t.a0, t.a1]),
    (40, fun t _ => .call .sysBlkRead [t.a0, t.a1, t.a2]),
    (45, fun t _ => .call .sysBlkWrite [t.a0, t.a1, t.a2, t.a3]),
    (41, fun t _ => .call .sysProclist [t.a0, t.a1]),
    (42, fun t _ => .audited 10 (u32 t.a0) .sysKill [u32 t.a0]),
    (43, fun _ _ => .call .allocatedPages []),
    (44, fun _ _ => .perfStats),
    (46, fun _ _ => .call .tickCount []),
    (25, fun t _ => .call .sysShmMap [u32 t.a0, t.a1]),
    (60, fun _ _ => .call .sysGetuid []),
    (61, fun t _ => .call .sysSetuid [u32 t.a0]),
    (62, fun t _ => .call .sysChmod [t.a0, u16 t.a1]),
    (63, fun t _ => .call .sysSignal [u32 t.a0, t.a1]),
    (64, fun t _ => .call .sysWaitpid [u32 t.a0, t.a1, t.a2]),
    (65, fun _ _ => .call .sysGetppid []),
    (66, fun _ _ => .call .sysGettid []),
    (67, fun t _ => .call .sysNanosleep [t.a0, t.a1]),
    (68, fun t _ => .call .sysClockGettime [t.a0, t.a1]),
    (69, fun t _ => .call .sysUmask [u16 t.a0]),
    (70, fun _ _ => .call .sysSetsid []),
    (71, fun t _ => .call .sysSysinfo [t.a0]),
    (72, fun t _ => .call .sysPipe [t.a0]),
    (73, fun t _ => .call .sysFcntl [t.a0, t.a1, t.a2]),
    (74, fun t _ => .call .sysIoctl [t.a0, t.a1, t.a2]),
    (75, fun t _ => .call .sysGetdents64 [t.a0, t.a1, t.a2]),
    (76, fun t _ => .call .sysMkdir [t.a0, t.a1]),
    (77, fun t _ => .call .sysRmdir [t.a0]),
    (78, fun t _ => .call .sysUnlink [t.a0]),
    (79, fun t _ => .call .sysRename [t.a0, t.a1]),
    (80, fun t _ => .call .sysChdir [t.a0]),
    (81, fun t _ => .call .sysAccess [t.a0, t.a1]),
    (82, fun t _ => .call .sysTruncate [t.a0, t.a1]),
    (83, fun t _ => .audited 11 t.a1 .sysMmap [t.a0, t.a1, t.a2, t.a3, t.a4, t.a5]),
    (84, fun t _ => .audited 12 t.a0 .sysMunmap [t.a0, t.a1]),
    (85, fun t _ => .audited 13 t.a0 .sysMprotect [t.a0, t.a1, t.a2]),
    (86, fun t _ => .call .sysBrk [t.a0]),
    (90, fun t _ => .call .sysSocket [t.a0, t.a1, t.a2]),
    (91, fun t _ => .call .sysBind [t.a0, t.a1, t.a2]),
    (92, fun t _ => .call .sysListen [t.a0, t.a1]),
    (93, fun t _ => .call .sysAccept [t.a0]),
    (94, fun t _ => .call .sysConnect [t.a0, t.a1, t.a2]),
    (95, fun t _ => .call .sysSendto [t.a0, t.a1, t.a2, t.a3, t.a4, t.a5]),
    (96, fun t _ => .call .sysRecvfrom [t.a0, t.a1, t.a2, t.a3, t.a4, t.a5]),
    (100, fun t _ => .call .sysEpollCreate [t.a0]),
    (101, fun t _ => .call .sysEpollCtl [t.a0, t.a1, t.a2, t.a3]),
    (102, fun t _ => .call .sysEpollWait [t.a0, t.a1, t.a2, t.a3]),
    (110, fun t _ => .call .sysUnshare [t.a0]),
    (111, fun t _ => .call .sysSethostname [t.a0, t.a1]),
    (112, fun t _ => .call .sysGethostname [t.a0, t.a1]),
    (113, fun t _ => .call .sysSetns [t.a0, t.a1]),
    (114, fun t _ => .call .sysSchedSetaffinity [t.a0, t.a1, t.a2]),
    (115, fun t _ => .call .sysSchedGetaffinity [t.a0, t.a1, t.a2]),
    (116, fun t _ => .call .sysTimes [t.a0]),
    (117, fun t _ => .call .sysGetrusage [t.a0, t.a1]),
    (118, fun t _ => .call .sysRegisterDrv [t.a0, t.a1, t.a2]),
    (119, fun t _ => .call .sysUnregisterDrv [t.a0]),
    (120, fun t _ => .call .sysListDrvs [t.a0, t.a1]),
    (121, fun _ _ => .call .sysSync []),
    (122, fun t _ => .call .sysReboot [t.a0, t.a1]),
    (140, fun t _ => .call .sysIoUringSetup [t.a0]),
    (141, fun t _ => .call .sysIoUringEnter [t.a0, t.a1, t.a2]),
    (142, fun t _ => .call .sysIoUringRegister [t.a0, t.a1, t.a2]),
    (150, fun t _ => .call .sysVmCreate [t.a0]),
    (151, fun t _ => .call .sysVmDestroy [u32 t.a0]),
    (152, fun t _ => .call .sysVmStart [u32 t.a0, t.a1]),
    (153, fun t _ => .call .sysVmList [t.a0, t.a1]),
    (154, fun t _ => .call .sysVmPause [u32 t.a0]),
    (155, fun t _ => .call .sysVmResume [u32 t.a0]),
    (160, fun t _ => .call .sysExtRegister [t.a0, t.a1, t.a2, t.a3]),
    (161, fun t _ => .call .sysExtUnregister [t.a0]),
    (162, fun t _ => .call .sysExtList [t.a0, t.a1]),
    (170, fun t _ => .call .sysNumaNodes [t.a0, t.a1]),
    (171, fun t _ => .call .sysNumaAlloc [u8 t.a0]),
    (172, fun t _ => .call .sysNumaMigrate [t.a0, u8 t.a1, u8 t.a2]),
    (173, fun t _ => .call .sysNumaInfo [t.a0, t.a1]),
    (174, fun _ _ => .call .sysNumaBalance []),
    (200, fun _ _ => .call .sysAslrInit []),
    (201, fun t _ => .call .sysCheriCapCreate [t.a0, t.a1, u16 t.a2]),
    (202, fun t _ => .call .sysCheriCapCheck [t.a0, t.a1, u16 t.a2]),
    (203, fun t _ => .call .sysSandboxAdd [t.a0, t.a1]),
    (204, fun t _ => .call .sysSandboxCheck [t.a0, t.a1]),
    (205, fun t _ => .call .sysCheriCapDelete [u32 t.a0, u8 t.a1]),
    (206, fun t _ => .call .sysSandboxNetAdd [u32 t.a0, u16 t.a1, u16 t.a2, t.a3]),
    (207, fun t _ => .call .sysSandboxUidMap [u32 t.a0, u32 t.a1, u32 t.a2]),
    (208, fun _ _ => .call .sysAslrEntropy []),
    (209, fun t _ => .call .sysCheriStatus [t.a0, t.a1]),
    (210, fun t _ => .call .sysWasmLoad [t.a0, t.a1]),
    (211, fun t _ => .call .sysWasmUnload [t.a0]),
    (212, fun t _ => .call .sysWasmList [t.a0, t.a1]),
    (213, fun t _ => .call .sysWasmExecute [t.a0, t.a1]),
    (214, fun t _ => .call .sysWasmMemRead [t.a0, t.a1, t.a2]),
    (215, fun t _ => .call .sysWasmMemWrite [t.a0, t.a1, t.a2, t.a3]),
    (220, fun t _ => .call .sysGpuRegister [t.a0, t.a1, t.a2]),
    (221, fun t _ => .call .sysGpuList [t.a0, t.a1]),
    (222, fun t _ => .call .sysAiSubmit [u32 t.a0, t.a1, u8 t.a2, t.a3]),
    (223, fun t _ => .call .sysAiNext [t.a0, t.a1]),
    (224, fun t _ => .call .sysGpuSubmitCmd [u32 t.a0, t.a1, t.a2]),
    (225, fun t _ => .call .sysGpuWaitFence [u32 t.a0, t.a1]),
    (226, fun t _ => .call .sysGpuAlloc [u32 t.a0, t.a1]),
    (227, fun t _ => .call .sysGpuFree [u32 t.a0, t.a1]),
    (228, fun t _ => .call .sysGpuUtilization [u32 t.a0]),
    (229, fun t _ => .call .sysGpuActiveWl [u32 t.a0]),
    (230, fun t _ => .call .sysAiComplete [t.a0, t.a1]),
    (231, fun t _ => .call .sysAiPreempt [t.a0]),
    (232, fun t _ => .call .sysModelLoad [u32 t.a0, t.a1, t.a2]),
    (233, fun t _ => .call .sysModelUnload [u32 t.a0]),
    (234, fun t _ => .call .sysModelList [t.a0, t.a1]),
    (235, fun t _ => .call .sysInferenceSubmit [u32 t.a0, t.a1, t.a2]),
    (236, fun t _ => .call .sysInferenceStats [u32 t.a0, t.a1]),
    (240, fun t _ => .call .sysSemget [u32 t.a0, t.a1, t.a2]),
    (241, fun t _ => .call .sysSemop [u32 t.a0, t.a1, t.a2]),
    (242, fun t _ => .call .sysSemctl [u32 t.a0, u32 t.a1, t.a2, t.a3]),
    (243, fun t _ => .call .sysMsgget [u32 t.a0, t.a1]),
    (244, fun t _ => .call .sysMsgsnd [u32 t.a0, t.a1, t.a2, t.a3]),
    (245, fun t _ => .call .sysMsgrcv [u32 t.a0, t.a1, t.a2, t.a3, t.a4]),
    (246, fun t _ => .call .sysMsgctl [u32 t.a0, u32 t.a1, t.a2]),
    (247, fun t _ => .call .sysSigaction [u32 t.a0, t.a1, t.a2]),
    (248, fun t _ => .call .sysSigprocmask [u32 t.a0, t.a1, t.a2]),
    (249, fun _ _ => .call .sysSigreturn []),
    (250, fun t _ => .call .sysSigaction [u32 t.a0, t.a1, t.a2]),
    (251, fun t _ => .call .sysSigprocmask [u32 t.a0, t.a1, t.a2]),
    (252, fun t _ => .call .sysSigpending [t.a0]),
    (253, fun t _ => .call .sysSymlink [t.a0, t.a1]),
    (254, fun t _ => .call .sysReadlink [t.a0, t.a1, t.a2]),
    (255, fun t _ => .call .sysFsync [t.a0]),
    (256, fun t _ => .call .sysFdatasync [t.a0]),
    (257, fun t _ => .call .sysFlock [t.a0, t.a1]),
    (258, fun t _ => .call .sysFallocate [t.a0, t.a1, t.a2, t.a3]),
    (259, fun t _ => .call .sysSendfile [t.a0, t.a1, t.a2, t.a3]),
    (260, fun t _ => .call .sysPrctl [t.a0, t.a1, t.a2]),
    (261, fun t _ => .call .sysGetpriority [t.a0, t.a1]),
    (262, fun t _ => .call .sysSetpriority [t.a0, t.a1, t.a2]),
    (263, fun t _ => .call .sysSchedGetparam [u32 t.a0, t.a1]),
    (264, fun t _ => .call .sysSchedSetparam [u32 t.a0, t.a1]),
    (265, fun t _ => .call .sysMadvise [t.a0, t.a1, t.a2]),
    (266, fun t _ => .call .sysMincore [t.a0, t.a1, t.a2]),
    (267, fun t _ => .call .sysMlock [t.a0, t.a1]),
    (268, fun t _ => .call .sysMunlock [t.a0, t.a1]),
    (269, fun t _ => .call .sysSettimeofday [t.a0, t.a1]),
    (270, fun t _ => .call .sysTimerCreate [t.a0, t.a1, t.a2]),
    (271, fun t _ => .call .sysTimerDelete [t.a0]),
    (272, fun t _ => .call .sysTimerSettime [t.a0, t.a1, t.a2, t.a3]),
    (273, fun t _ => .call .sysTimerGettime [t.a0, t.a1]),
    (274, fun t _ => .call .sysGetsockopt [t.a0, t.a1, t.a2, t.a3, t.a4]),
    (275, fun t _ => .call .sysSetsockopt [t.a0, t.a1, t.a2, t.a3, t.a4]),
    (276, fun t _ => .call .sysGetpeername [t.a0, t.a1, t.a2]),
    (277, fun t _ => .call .sysGetsockname [t.a0, t.a1, t.a2]),
    (278, fun t _ => .call .sysShutdown [t.a0, t.a1]),
    (279, fun t _ => .call .sysPoll [t.a0, t.a1, t.a2]),
    (280, fun t _ => .call .sysPpoll [t.a0, t.a1, t.a2, t.a3]),
    (281, fun t _ => .call .sysPselect6 [t.a0, t.a1, t.a2, t.a3, t.a4]),
    (300, fun _ _ => .call .sysCompatInit []),
    (301, fun t _ => .call .sysCompatTranslate [t.a0]),
    (302, fun t _ => .call .sysCompatSetupAuxv [t.a0, t.a1, t.a2, t.a3, t.a4]),
    (180, fun t _ => .call .sysRemoteNodeAdd [t.a0, t.a1]),
    (181, fun t _ => .call .sysRemoteEpPublish [t.a0, t.a1, t.a2]),
    (182, fun t _ => .call .sysRemoteEpLookup [t.a0, t.a1]),
    (183, fun t _ => .call .sysRemoteSend [u32 t.a0, t.a1, t.a2, t.a3]),
    (184, fun t _ => .call .sysRemoteProbe [u32 t.a0]),
    (185, fun t _ => .call .sysRemoteRecv [t.a0, t.a1]),
    (186, fun t _ => .call .sysRemoteMemAlloc [u8 t.a0, t.a1]),
    (187, fun t _ => .call .sysRemoteMemFree [t.a0]),
    (188, fun t _ => .call .sysRemoteProclist [u32 t.a0, t.a1, t.a2]),
    (189, fun t _ => .call .sysRemoteMint [u32 t.a0, u32 t.a1, u32 t.a2]),
    (190, fun t _ => .call .sysRemoteMigratePage [t.a0, u8 t.a1, u8 t.a2]),
    (191, fun _ _ => .call .sysNodeId []),
    (282, fun t _ => .call .sysPdSubmit [t.a0, t.a1, u32 t.a2, u32 t.a3]),
    (283, fun _ _ => .call .sysPdNextDecode []),
    (284, fun t _ => .call .sysPdNextPrefill [t.a0, t.a1]),
    (285, fun t _ => .call .sysPdPreempt [t.a0]),
    (286, fun t _ => .call .sysPdResume [t.a0]),
    (287, fun t _ => .call .sysKvAlloc [t.a0]),
    (288, fun t _ => .call .sysKvFree [t.a0, t.a1]),
    (289, fun t _ => .call .sysKvShare [t.a0, t.a1]),
    (290, fun t _ => .call .sysKvStats [t.a0]),
    (291, fun t _ => .call .sysGpuHeteroSched [u32 t.a0, t.a1]),
    (292, fun t _ => .call .sysGpuMigrate [t.a0, u32 t.a1]),
    (293, fun _ _ => .call .sysGpuBalance []),
    (294, fun t _ => .call .sysAiSchedStats [t.a0]),
    (295, fun _ _ => .call .sysAiSchedReset []),
    (296, fun t _ => .call .sysSchedSetpreempt [u32 t.a0, t.a1]),
    (297, fun t _ => .call .sysSetSliceExt [if t.a0 = 0 then 0 else 1]),
    -- never reached: the number is taken by `sys_compat_translate` above
    (301, fun t _ => .call .sysMseal [t.a0, t.a1]),
    (305, fun t _ => .call .sysReadv2 [u32 t.a0, t.a1, t.a2, t.a3, u32 t.a4]),
    (306, fun t _ => .call .sysWritev2 [u32 t.a0, t.a1, t.a2, t.a3, u32 t.a4]),
    (307, fun t _ => .call .sysCachestat [u32 t.a0, t.a1, t.a2, t.a3]),
    (308, fun t _ =>
      if t.a2 = 0 then .fail "null pages"
      else .provideBuffers t.a0 (u16 t.a1) t.a2 (min t.a4 16) t.a3),
    (309, fun t _ => .run .removeBuffers [t.a0, u16 t.a1]),
    (130, fun t _ => .call .sysSeccompAdd [u32 t.a0, t.a1]),
    (131, fun t _ => .call .sysCapAudit [t.a0, t.a1]),
    (132, fun t _ => .call .sysSyscallStats [t.a0, t.a1]),
    (310, fun t _ => .call .sysCapVectorEnable [u32 t.a0]),
    (311, fun t _ => .call .sysVectorStats [t.a0, t.a1]),
    (350, fun t pid =>
      if pid = 0 then .fail "no process"
      else if t.a0 = 0 then .fail "null buffer"
      else .call .sysFbInfo [t.a0, t.a1]),
    (351, fun _ _ => .call .sysFbFlush []),
    (352, fun t _ => if t.a0 = 0 then .fail "null buffer" else .call .sysInputPoll [t.a0, t.a1]),
    (353, fun t _ => if t.a0 = 0 then .fail "null buffer" else .call .sysInputWait [t.a0, t.a1]),
    (354, fun t pid =>
      if pid = 0 then .fail "no process" else .call .sysFbMapPage [pid, u32 t.a0]),
    (355, fun _ _ => .run .guiRedraw []),
    (356, fun t pid =>
      if pid = 0 ∨ t.a0 = 0 then .fail "invalid args"
      else .call .createWindow [t.a0, min t.a1 64, u32 t.a2, u32 t.a3, u32 t.a4,
        u32 t.a5, pid]),
    (358, fun t _ => .call .sysPerfRead [t.a0, t.a1]),
    (359, fun t _ => .call .sysPerfConfig [t.a0, t.a1]),
    (360, fun t _ => .call .sysPerfSample [t.a0]),
    (361, fun t _ => .call .sysDebugBreakpoint [t.a0]),
    (362, fun t _ => .call .sysDebugWatchpoint [t.a0, t.a1]) ]

def armOf (nr : Nat) : Option (TrapFrame → Nat → Arm) := arms.lookup nr

/-! ### The dispatcher -/

/-- The tables of the dispatcher and the rest of the kernel. -/
structure State (σ : Type*) where
  filters : Table SeccompFilter SECCOMP_MAX_PROCS
  procTimes : Table ProcTime 32
  counters : Vector Nat 512
  audit : AuditLog
  errCount : Nat
  rest : σ

inductive Hook where
  | syscallEnter | syscallExit
deriving DecidableEq, Repr

/-- What the dispatcher calls or reads elsewhere. -/
structure Callees (σ : Type*) where
  /-- The owner of the current thread, 0 if there is none. -/
  currentPid : State σ → Nat
  tickCount : State σ → Nat
  /-- The counters of sends, receives and context switches. -/
  perfCounters : State σ → Nat × Nat × Nat
  /-- A 32-bit load from user memory. -/
  readU32 : State σ → Nat → Nat
  killProcessImpl : Nat → State σ → State σ
  runHook : Hook → Nat → Nat → State σ → State σ
  handler : Handler → List Nat → State σ → Except String Nat × State σ

variable {σ : Type*}

def packPerf (sends recvs ctx : Nat) : Nat :=
  (sends &&& 0xFFFFF) ||| ((recvs &&& 0xFFFFF) <<< 20) ||| ((ctx &&& 0xFFFFFF) <<< 40)

def Arm.exec (c : Callees σ) (s : State σ) : Arm → Except String Nat × State σ
  | .call h args => c.handler h args s
  | .run h args => (.ok 0, (c.handler h args s).2)
  | .audited operation slot h args =>
      let entry := (c.currentPid s, operation, slot, c.tickCount s)
      c.handler h args { s with audit := capAuditLog s.audit entry }
  | .value v => (.ok v, s)
  | .fail err => (.error err, s)
  | .perfStats =>
      let (sends, recvs, ctx) := c.perfCounters s
      (.ok (packPerf sends recvs ctx), s)
  | .provideBuffers ring group pagesPtr count size =>
      let pages := (List.range count).map fun i => c.readU32 s (wrapAdd pagesPtr (4 * i))
      (.ok 0, (c.handler .provideBuffers ([ring, group] ++ pages ++ [size]) s).2)

def countCall (counters : Vector Nat 512) (nr : Nat) : Option (Vector Nat 512) :=
  if h : nr < 512 then some (counters.set nr (wrapAdd (counters.get ⟨nr, h⟩) 1)) else none

/-- How far the call got. -/
inductive Outcome where
  /-- The filter refused it. -/
  | filtered
  /-- The arm of its number ran. -/
  | handled
  | unknown
deriving DecidableEq, Repr

def FAILED : Nat := WORD - 1

def finish (result : Except String Nat) (tf : TrapFrame) (s : State σ) : TrapFrame × State σ :=
  match result with
  | .ok val => ({ tf with a0 := val }, s)
  | .error _ => ({ tf with a0 := FAILED }, { s with errCount := wrapAdd s.errCount 1 })

def runArm (c : Callees σ) (tf : TrapFrame) (s : State σ) :
    Outcome × Except String Nat × State σ :=
  match armOf tf.a7 with
  | some arm => (.handled, (arm tf (c.currentPid s)).exec c s)
  | none => (.unknown, .error "unknown syscall", s)

def dispatchArm (c : Callees σ) (pid : Nat) (tf : TrapFrame) (s : State σ) :
    Option (Outcome × TrapFrame × State σ) :=
  match countCall s.counters tf.a7 with
  | none => none
  | some counters =>
      let (outcome, result, s) := runArm c tf { s with counters := counters }
      let (tf, s) := finish result tf s
      some (outcome, { tf with sepc := wrapAdd tf.sepc 4 },
        c.runHook .syscallExit tf.a7 pid s)

def syscallDispatch (c : Callees σ) (tf : TrapFrame) (s : State σ) :
    Option (Outcome × TrapFrame × State σ) :=
  let pid := c.currentPid s
  let (allowed, shouldKill) := seccompCheck s.filters pid tf.a7
  let s := if shouldKill then c.killProcessImpl pid s else s
  if !allowed then some (.filtered, { tf with a0 := FAILED }, s)
  else
    let s := c.runHook .syscallEnter tf.a7 pid s
    dispatchArm c pid tf { s with procTimes := accountStime s.procTimes (c.currentPid s) }

/-! ### Robustness -/

/-- Whether the filter refuses the call in this state. -/
def Refused (c : Callees σ) (tf : TrapFrame) (s : State σ) : Prop :=
  (seccompCheck s.filters (c.currentPid s) tf.a7).1 = false

instance (c : Callees σ) (tf : TrapFrame) (s : State σ) : Decidable (Refused c tf s) :=
  inferInstanceAs (Decidable (_ = false))

/-- The dispatcher returns: the filter refused the call, the arm of its number ran, or the
    number has no arm and the result is the one of an unknown system call. -/
def Robust (c : Callees σ) (tf : TrapFrame) (s : State σ) : Prop :=
  ∃ outcome tf' s', syscallDispatch c tf s = some (outcome, tf', s') ∧
    (outcome = .filtered ∧ Refused c tf s ∨
      outcome = .handled ∧ (armOf tf.a7).isSome ∨
      outcome = .unknown ∧ armOf tf.a7 = none ∧ tf'.a0 = FAILED)

variable {c : Callees σ} {tf : TrapFrame} {s : State σ}

theorem syscallDispatch_refused (h : Refused c tf s) :
    ∃ s', syscallDispatch c tf s = some (.filtered, { tf with a0 := FAILED }, s') := by
  unfold Refused at h
  simp [syscallDispatch, h]

theorem dispatchArm_of_lt (pid : Nat) (hnr : tf.a7 < 512) :
    ∃ outcome tf' s', dispatchArm c pid tf s = some (outcome, tf', s') ∧
      (outcome = .handled ∧ (armOf tf.a7).isSome ∨
        outcome = .unknown ∧ armOf tf.a7 = none ∧ tf'.a0 = FAILED) := by
  simp only [dispatchArm, countCall, dif_pos hnr, runArm]
  cases armOf tf.a7 with
  | some arm => exact ⟨_, _, _, rfl, .inl ⟨rfl, rfl⟩⟩
  | none => exact ⟨_, _, _, rfl, .inr ⟨rfl, rfl, rfl⟩⟩

theorem syscallDispatch_allowed (h : ¬ Refused c tf s) :
    ∃ s', syscallDispatch c tf s = dispatchArm c (c.currentPid s) tf s' := by
  rw [Refused, Bool.not_eq_false] at h
  simp only [syscallDispatch, h, Bool.not_true, Bool.false_eq_true, if_false]
  exact ⟨_, rfl⟩

theorem robust_of_refused (h : Refused c tf s) : Robust c tf s := by
  obtain ⟨s', hrun⟩ := syscallDispatch_refused h
  exact ⟨_, _, _, hrun, .inl ⟨rfl, h⟩⟩

theorem robust_of_lt (h : ¬ Refused c tf s) (hnr : tf.a7 < 512) : Robust c tf s := by
  obtain ⟨s1, hrun⟩ := syscallDispatch_allowed h
  obtain ⟨outcome, tf', s', hreturn, hreach⟩ := dispatchArm_of_lt (c.currentPid s) hnr
  exact ⟨outcome, tf', s', hrun.trans hreturn, .inr hreach⟩

theorem not_robust_of_le (h : ¬ Refused c tf s) (hnr : 512 ≤ tf.a7) : ¬ Robust c tf s := by
  obtain ⟨s1, hrun⟩ := syscallDispatch_allowed h
  rintro ⟨_, _, _, hreturn, -⟩
  rw [hrun, dispatchArm, countCall, dif_neg (Nat.not_lt.mpr hnr)] at hreturn
  cases hreturn

/-- **The dispatcher is robust on exactly the refused calls and the numbers below 512.** -/
theorem dispatch_robust_iff (c : Callees σ) (tf : TrapFrame) (s : State σ) :
    Robust c tf s ↔ Refused c tf s ∨ tf.a7 < 512 := by
  by_cases hrefused : Refused c tf s
  · exact iff_of_true (robust_of_refused hrefused) (.inl hrefused)
  · rw [or_iff_right hrefused]
    refine ⟨fun hrobust => ?_, robust_of_lt hrefused⟩
    by_contra hnr
    exact not_robust_of_le hrefused (Nat.not_lt.mp hnr) hrobust

def idleCallees : Callees Unit where
  currentPid := fun _ => 0
  tickCount := fun _ => 0
  perfCounters := fun _ => (0, 0, 0)
  readU32 := fun _ _ => 0
  killProcessImpl := fun _ s => s
  runHook := fun _ _ _ s => s
  handler := fun _ _ s => (.ok 0, s)

def bootState : State Unit where
  filters := .empty
  procTimes := .empty
  counters := Vector.replicate 512 0
  audit := ⟨Vector.replicate 256 (0, 0, 0, 0), 0⟩
  errCount := 0
  rest := ()

/-- The first number without a counter stops the kernel. -/
theorem dispatch_512_panics : ¬ Robust idleCallees ⟨0, 0, 0, 0, 0, 0, 512, 0⟩ bootState :=
  not_robust_of_le (by decide) le_rfl

end TrainOS.Syscall
