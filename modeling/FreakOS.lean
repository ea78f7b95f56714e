import FreakOS.Base
import FreakOS.Lib.Extent
import FreakOS.Lib.FiberCount
import FreakOS.Lib.Forest
import FreakOS.Lib.Resumption
import FreakOS.Lib.Locking
import FreakOS.Lib.WriteBackCache
import FreakOS.Lib.Ring
import FreakOS.Lib.Fifo
import FreakOS.Lib.HandOff
import FreakOS.Lib.Coroutine
import FreakOS.Lib.Interning
import FreakOS.Lib.Ledger
import FreakOS.Lib.FueledLoop
import FreakOS.Lib.ByteWords
import FreakOS.Lib.CString
import FreakOS.Memory.PageAllocator
import FreakOS.Memory.PageAllocatorInv
import FreakOS.Memory.FirstFit
import FreakOS.Memory.DoubleFree
import FreakOS.Memory.Vma
import FreakOS.Memory.UserMem
import FreakOS.Memory.LegalStr
import FreakOS.Memory.Paging
import FreakOS.Memory.PagingInv
import FreakOS.Memory.PageOps
import FreakOS.Memory.PageRange
import FreakOS.Memory.PageRefs
import FreakOS.Memory.AddressSpace
import FreakOS.Memory.Kmalloc
import FreakOS.Memory.Boot
import FreakOS.Memory.BootWindow
import FreakOS.Memory.Fork
import FreakOS.Memory.PageFault
import FreakOS.Memory.MapArea
import FreakOS.Memory.Loader
import FreakOS.Memory.Teardown
import FreakOS.Memory.Footprint
import FreakOS.Memory.DupFailure
import FreakOS.Memory.FaultOutcome
import FreakOS.Memory.LoadSpace
import FreakOS.Memory.LoadRuns
import FreakOS.Memory.KernelStore
import FreakOS.Memory.UserStore
import FreakOS.Memory.ArgLayout
import FreakOS.Krnl.State
import FreakOS.Krnl.Sched
import FreakOS.Krnl.Process
import FreakOS.Krnl.System
import FreakOS.Krnl.Effects
import FreakOS.Krnl.TaskInv
import FreakOS.Krnl.TaskSteps
import FreakOS.Krnl.TaskIds
import FreakOS.Krnl.KernelStack
import FreakOS.Krnl.RunQueue
import FreakOS.Krnl.Status
import FreakOS.Krnl.Family
import FreakOS.Krnl.ExitStatus
import FreakOS.Krnl.SystemSteps
import FreakOS.Krnl.Dispatch
import FreakOS.Krnl.Semaphores
import FreakOS.Krnl.SemaphoreFifo
import FreakOS.Krnl.ProcessTree
import FreakOS.Krnl.ChildWait
import FreakOS.Krnl.ForkFailure
import FreakOS.Krnl.ArgBuffers
import FreakOS.Krnl.Stdin
import FreakOS.Krnl.StdinFifo
import FreakOS.Krnl.StdinReaders
import FreakOS.Krnl.Preemption
import FreakOS.Krnl.Interrupts
import FreakOS.Krnl.InterruptFlag
import FreakOS.Krnl.TrapFrames
import FreakOS.Krnl.InterruptRuns
import FreakOS.Fs.File
import FreakOS.Fs.FileTable
import FreakOS.Fs.FileRights
import FreakOS.Fs.FilePositions
import FreakOS.Fs.IoBuffer
import FreakOS.Fs.SysRead
import FreakOS.Fs.SysWrite
import FreakOS.Fs.FatSeek
import FreakOS.Fs.FatChains
import FreakOS.Fs.FatTruncate
import FreakOS.Fs.FatWindow
import FreakOS.Fs.FatEntry
import FreakOS.Fs.FatTable
import FreakOS.Fs.FatTableChains
import FreakOS.Fs.FatIo
import FreakOS.Fs.FatIoInv
import FreakOS.Fs.FatIoWrite
import FreakOS.Fs.FatIoFiles
import FreakOS.Fs.FatFree
import FreakOS.Fs.FatNames
import FreakOS.Driver.BlockCache
import FreakOS.Driver.BlockCacheInv
import FreakOS.Driver.BlockCacheLru
import FreakOS.Fs.Locks
import FreakOS.Fs.LockOrder
import FreakOS.Fs.FatExclusion
import FreakOS.Fs.FatInodes
import FreakOS.Fs.FatOps
import FreakOS.Fs.FatPaths
import FreakOS.Fs.FatResults
import FreakOS.Fs.Vdev
import FreakOS.Fs.VfsOpen
import FreakOS.Fs.VfsPath
import FreakOS.Fs.SysOpen
import FreakOS.Fs.EndSeek
import FreakOS.Fs.SeekRefusal
import FreakOS.Fs.Strcmp
import FreakOS.Memory.PageAddress
import FreakOS.Driver.Dec2str
import FreakOS.User.Shell
import FreakOS.Driver.Keyboard
import FreakOS.Driver.Vsprintf
import FreakOS.Memory.ListNodes
import FreakOS.Driver.Console
import FreakOS.Memory.DirectMap
import FreakOS.Memory.VmmMap
import FreakOS.Memory.Bucket
import FreakOS.Memory.BucketShape
import FreakOS.Memory.BucketInv
import FreakOS.Memory.BucketRuns
import FreakOS.Driver.VsprintfPieces
import FreakOS.Fs.FatIoRuns
