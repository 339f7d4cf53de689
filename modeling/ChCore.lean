import ChCore.Kernel.CapRights
import ChCore.Kernel.MemRuns
import ChCore.Kernel.SemRuns
import ChCore.Kernel.RunningThreads
import ChCore.Kernel.ThreadExit
import ChCore.Kernel.PageTableUnmap
import ChCore.Kernel.PmoReadWrite
import ChCore.Kernel.FaultSharing
import ChCore.Kernel.MappedRegions
import ChCore.Kernel.MunmapLaw
import ChCore.Kernel.AnonymousMemory
import ChCore.Userland.Fsm
import ChCore.Userland.TmpfsPaths
import ChCore.Userland.NaiveData
import ChCore.Kernel.BuddyConfluence
import ChCore.Kernel.SlotRuns
import ChCore.Userland.RadixMaps
import ChCore.Kernel.KmallocSizes
import ChCore.Kernel.FaultOutcomes
import ChCore.Kernel.SchedFifo
import ChCore.Kernel.PageTableFree
import ChCore.Userland.ProcmElf
import ChCore.Userland.Cpio
import ChCore.Kernel.HugeUnmapping
import ChCore.Userland.TmpfsScan
import ChCore.Userland.Malloc
import ChCore.Userland.FileCalls
import ChCore.Userland.ProcTable
import ChCore.Userland.Fakefs
import ChCore.Userland.LaunchEnv
import ChCore.Kernel.TicketLock
