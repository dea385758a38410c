import Goshkik.Errno
import Goshkik.Lib.Run
import Goshkik.Lib.Linked
import Goshkik.Lib.RadixTree
import Goshkik.Memory.Pmm
import Goshkik.Memory.PmmRefinement
import Goshkik.Memory.Vmm
import Goshkik.Memory.VmmTree
import Goshkik.Memory.VmmRefinement
import Goshkik.Memory.PageWalk
import Goshkik.Memory.VmmPermissions
import Goshkik.Memory.HardwareWalk
import Goshkik.Memory.VmmLargePages
import Goshkik.Memory.Hashtable
import Goshkik.Memory.HashtableBuckets
import Goshkik.Memory.HashtableRefinement
import Goshkik.Lib.Cells
import Goshkik.Memory.Slab
import Goshkik.Memory.SlabGeometry
import Goshkik.Memory.SlabShape
import Goshkik.Memory.SlabInvariant
import Goshkik.Memory.SlabAlignment
import Goshkik.Memory.SlabPages
import Goshkik.Memory.SlabDestroy
import Goshkik.Memory.SlabRouting
import Goshkik.Memory.Kheap
import Goshkik.Memory.KheapChain
import Goshkik.Memory.KheapInvariant
import Goshkik.Memory.KheapCoalesce
import Goshkik.Memory.KheapGrowth
import Goshkik.Memory.KheapAlloc
import Goshkik.Memory.KheapSizes
import Goshkik.Memory.KheapAccess
import Goshkik.Memory.KheapHeaders
import Goshkik.Memory.KheapLeftovers
import Goshkik.Memory.KheapNodes
import Goshkik.Memory.KheapGrowing
import Goshkik.Memory.KheapReached
import Goshkik.Memory.KheapResumed
import Goshkik.Memory.KheapTaking
import Goshkik.Memory.KheapSearching
import Goshkik.Memory.KheapCutting
import Goshkik.Memory.KheapInterruptedAlloc
import Goshkik.Memory.KheapInterruptedGrowth
import Goshkik.Memory.KheapMerging
import Goshkik.Memory.KheapFreeing
import Goshkik.Memory.KheapInterruptedFree
import Goshkik.Memory.KheapInterrupted
import Goshkik.Scheduling.Kernel
import Goshkik.Scheduling.Scheduler
import Goshkik.Scheduling.Process
import Goshkik.Scheduling.Thread
import Goshkik.Scheduling.Tick
import Goshkik.Scheduling.QueueShape
import Goshkik.Scheduling.QueueInvariant
import Goshkik.Scheduling.ReadyQueue
import Goshkik.Scheduling.ProcessTable
import Goshkik.Scheduling.TickLoop
import Goshkik.Scheduling.TickLock
import Goshkik.Scheduling.TickLockSafe
import Goshkik.Scheduling.Mutex
import Goshkik.Scheduling.TickMutex
import Goshkik.Lib.SharedLists
import Goshkik.Scheduling.LockSystem
import Goshkik.Scheduling.LockLinks
import Goshkik.Scheduling.LockInvariant
import Goshkik.Scheduling.LockSteps
import Goshkik.Scheduling.LockTick
import Goshkik.Scheduling.LinkExclusivity
import Goshkik.Scheduling.WakeUp
import Goshkik.Lib.LockProgram
import Goshkik.Scheduling.LockPrograms
import Goshkik.Scheduling.LockOrder
import Goshkik.Lib.RefGraph
import Goshkik.Fs.Vnode
import Goshkik.Fs.VnodeCascade
import Goshkik.Fs.VnodeCounts
import Goshkik.Fs.VnodeRuns
import Goshkik.Lib.Multiplicity
import Goshkik.Memory.HashtableMap
import Goshkik.Fs.NameCache
import Goshkik.Fs.NameCacheRuns
import Goshkik.Fs.NameCacheSound
import Goshkik.Fs.NameCacheKeys
import Goshkik.Fs.NameCacheReuse
import Goshkik.Fs.Bytes
import Goshkik.Fs.VnodeTable
import Goshkik.Fs.Mount
import Goshkik.Fs.MountRuns
import Goshkik.Fs.Parentless
import Goshkik.Fs.VnodeTableRuns
import Goshkik.Fs.VnodeGet
import Goshkik.Fs.VnodeGetRuns
import Goshkik.Fs.VnodePurge
import Goshkik.Lib.Cascade
import Goshkik.Fs.VnodeRelease
import Goshkik.Fs.Unmount
import Goshkik.Lib.StrideWheel
import Goshkik.Scheduling.Account
import Goshkik.Scheduling.ProportionalShare
import Goshkik.Lib.X86
import Goshkik.Scheduling.ContextSwitch
import Goshkik.Scheduling.KernelThread
import Goshkik.Scheduling.Isolation
import Goshkik.Scheduling.Spinlock
import Goshkik.Scheduling.SpinlockFlag
import Goshkik.Scheduling.WaitLock
import Goshkik.Scheduling.Reap
import Goshkik.Scheduling.ReapInvariant
import Goshkik.Scheduling.ReapOnce
import Goshkik.Scheduling.ProcessLifetime
import Goshkik.Scheduling.ThreadSystem
import Goshkik.Scheduling.ThreadRoll
import Goshkik.Scheduling.ThreadHeap
import Goshkik.Scheduling.ThreadAccounting
import Goshkik.Scheduling.ThreadIds
import Goshkik.Scheduling.RunningStack
import Goshkik.Scheduling.ThreadReferences
import Goshkik.Scheduling.ThreadSound
import Goshkik.Scheduling.ThreadTicks
import Goshkik.Scheduling.ThreadEnlisting
import Goshkik.Scheduling.ThreadLifetime
import Goshkik.Scheduling.WakeWaiters
import Goshkik.Scheduling.Dispatch
import Goshkik.Scheduling.ZombieDispatch
import Goshkik.Scheduling.FirstCooled
import Goshkik.Scheduling.ProcessExit
import Goshkik.Scheduling.ExitCode
import Goshkik.Lib.CountedLoop
import Goshkik.Vterm.Vterm
import Goshkik.Vterm.Painting
import Goshkik.Lib.TextLines
import Goshkik.Vterm.Rendering
import Goshkik.Klibc.PrintfNumbers
import Goshkik.Klibc.PrintfFormat
import Goshkik.Klibc.PrintfScan
import Goshkik.Klibc.PrintfBounds
import Goshkik.Klibc.PrintfCount
import Goshkik.Memory.HashtableLoops
import Goshkik.Fs.VnodeBacking
import Goshkik.Fs.VnodePurgeExact
import Goshkik.Fs.NameCachePurge
import Goshkik.Fs.MountOutcome
import Goshkik.Fs.MountVisible
import Goshkik.Scheduling.WaitAny
import Goshkik.Memory.AddressSpace
import Goshkik.Scheduling.ProcessMemory
import Goshkik.Memory.PagedPlatform
import Goshkik.Memory.VmmSpares
import Goshkik.Memory.InitVmm
import Goshkik.Memory.KernelMemory
import Goshkik.Memory.DirectMap
import Goshkik.Lib.MappedBytes
import Goshkik.Klibc.Mem
import Goshkik.Klibc.String
import Goshkik.Klibc.StringCopy
import Goshkik.Klibc.StringBounds
import Goshkik.Klibc.StringSearch
import Goshkik.Lib.MaximalRun
import Goshkik.Klibc.StringTokens
import Goshkik.Klibc.Assert
import Goshkik.Cpu.Timer
import Goshkik.Cpu.Irq
import Goshkik.Memory.SharedKernel
import Goshkik.Lib.Processor
import Goshkik.Cpu.Descriptors
import Goshkik.Cpu.InterruptStubs
import Goshkik.Cpu.TimeSharing
import Goshkik.Cpu.SystemCalls
import Goshkik.Lib.InterruptController
import Goshkik.Cpu.Pic
import Goshkik.Cpu.Pit
import Goshkik.Lib.SerialController
import Goshkik.Cpu.Serial
import Goshkik.Vterm.Console
import Goshkik.Scheduling.MutexExclusion
import Goshkik.Memory.HashtableDestroy
import Goshkik.Klibc.StringCompare
