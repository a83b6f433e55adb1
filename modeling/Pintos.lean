import Pintos.Lib.Run
import Pintos.Lib.ListCursor
import Pintos.Lib.EState
import Pintos.Lib.Bytes
import Pintos.Lib.Octal
import Pintos.Lib.Heap
import Pintos.Lib.Arithmetic
import Pintos.Lib.String
import Pintos.Lib.Compare
import Pintos.Lib.Stdlib
import Pintos.Lib.WeakOrder
import Pintos.Lib.Ring
import Pintos.Threads.Vaddr
import Pintos.LibKernel.Bitmap
import Pintos.Threads.Kernel
import Pintos.LibKernel.ListSort
import Pintos.Devices.Intq
import Pintos.Devices.Partition
import Pintos.Lib.Stdio
import Pintos.Threads.Palloc
import Pintos.Lib.Extent
import Pintos.Threads.PallocPools
import Pintos.Threads.Malloc
import Pintos.Userprog.Pagedir
import Pintos.Lib.Word
import Pintos.LibKernel.BitmapWords
import Pintos.Userprog.PageTable
import Pintos.Userprog.PageTableSystem
import Pintos.Vm.State
import Pintos.Vm.FrameTable
import Pintos.Vm.Swap
import Pintos.Vm.Frame
import Pintos.Vm.Page
import Pintos.Vm.System
import Pintos.Vm.Ownership
import Pintos.Vm.Eviction
import Pintos.Vm.SwapSlots
import Pintos.Vm.Clock
import Pintos.Vm.SecondChance
import Pintos.Vm.Failures
import Pintos.Userprog.Process
import Pintos.Userprog.ProcInv
import Pintos.Userprog.Exec
import Pintos.Userprog.Wait
import Pintos.Userprog.Syscall
import Pintos.Userprog.PageFault
import Pintos.Userprog.Load
import Pintos.Userprog.Args
import Pintos.Userprog.Segment
import Pintos.Userprog.Pointers
import Pintos.Userprog.FileCalls
import Pintos.Filesys.Disk
import Pintos.Filesys.Inode
import Pintos.Filesys.InodeData
import Pintos.Filesys.Directory
import Pintos.Filesys.Filesys
import Pintos.Filesys.CreateLeak
import Pintos.Filesys.DirMap
import Pintos.Filesys.Layout
import Pintos.Filesys.Calls
import Pintos.Filesys.Create
import Pintos.Filesys.Ustar
import Pintos.Filesys.Fsutil
import Pintos.Filesys.OpenCounts
import Pintos.Filesys.Archive
import Pintos.Userprog.ExecFile
import Pintos.Userprog.Fds
import Pintos.Lib.DList
import Pintos.LibKernel.List
import Pintos.LibKernel.ListSystem
import Pintos.Lib.KeySet
import Pintos.LibKernel.Hash
import Pintos.LibKernel.HashSet
import Pintos.Vm.PageHash
import Pintos.Threads.Sched
import Pintos.Threads.SchedInv
import Pintos.Lib.Mealy
import Pintos.Lib.Random
import Pintos.LibKernel.HashIter
import Pintos.Lib.Snprintf
import Pintos.Devices.Vga
import Pintos.Devices.Kbd
import Pintos.Devices.Timer
import Pintos.Devices.Input
import Pintos.Lib.BitField
import Pintos.Lib.Descriptor
import Pintos.Threads.Interrupt
