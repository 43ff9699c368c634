import Mcsos.Lib.Bytes
import Mcsos.Lib.WriteLog
import Mcsos.Mcsfs1j.Device
import Mcsos.Mcsfs1j.Journal
import Mcsos.Mcsfs1j.Recovery
import Mcsos.Lib.CString
import Mcsos.Mcsfs1j.FileSystem
import Mcsos.Mcsfs1j.Consistency
import Mcsos.Mcsfs1j.Creation
import Mcsos.Mcsfs1j.CrashAtomicity
import Mcsos.Mcsfs1.Device
import Mcsos.Mcsfs1.FileSystem
import Mcsos.Lib.Outcome
import Mcsos.Mcsfs1.Invariant
import Mcsos.Mcsfs1.Effects
import Mcsos.Mcsfs1.Create
import Mcsos.Mcsfs1.Unlink
import Mcsos.Mcsfs1.Write
import Mcsos.Mcsfs1.Read
import Mcsos.Mcsfs1.Consistency
import Mcsos.Mcsfs1.Names
import Mcsos.Mcsfs1.Refinement
import Mcsos.Block.Device
import Mcsos.Block.Bcache
import Mcsos.Block.Coherence
import Mcsos.Block.Ramblk
import Mcsos.Lib.Record
import Mcsos.Lib.Tiling
import Mcsos.Kmem.Heap
import Mcsos.Kmem.Chain
import Mcsos.Kmem.Calls
import Mcsos.Kmem.Safety
import Mcsos.Lib.Bitmap
import Mcsos.Pmm.Frames
import Mcsos.Pmm.Refinement
import Mcsos.Lib.Radix
import Mcsos.Vmm.PageTable
import Mcsos.Vmm.Walk
import Mcsos.Vmm.Refinement
import Mcsos.Lib.LinkedQueue
import Mcsos.Sched.Thread
import Mcsos.Sched.Integrity
import Mcsos.Sched.Conservation
import Mcsos.Vfs.Ramfs
import Mcsos.Vfs.Fd
import Mcsos.Vfs.Extents
import Mcsos.Elf.Acceptance
import Mcsos.Lib.LockOrder
import Mcsos.Sync.Deadlock
import Mcsos.Kmem.Coalescing
import Mcsos.Kmem.Accounting
import Mcsos.Mcsfs1j.Allocation
import Mcsos.Mcsfs1j.FailClosed
import Mcsos.Mcsfs1.RoundTrip
import Mcsos.Mcsfs1.Accounting
import Mcsos.Mcsfs1.FailureAtomicity
import Mcsos.Pmm.BootMap
import Mcsos.Pmm.Reserved
import Mcsos.Elf.Safety
import Mcsos.Sched.Runs
import Mcsos.Sched.RoundRobin
import Mcsos.Block.WriteBack
import Mcsos.Kmem.Pointers
import Mcsos.Lib.Checksum
import Mcsos.Mcsfs1j.Corruption
import Mcsos.Mcsfs1j.FullDevice
import Mcsos.Vmm.Encoding
import Mcsos.Vmm.Rights
import Mcsos.Lib.ByteFile
import Mcsos.Mcsfs1.HostileRead
import Mcsos.Pmm.ReserveRange
import Mcsos.Vfs.Effects
import Mcsos.Vfs.Lseek
import Mcsos.Vfs.Chunks
import Mcsos.Vfs.Append
import Mcsos.Vfs.FailedCalls
import Mcsos.Vfs.Truncation
import Mcsos.Lib.PathWalk
import Mcsos.Vfs.PathNames
import Mcsos.Vfs.Paths
import Mcsos.Block.RamArray
import Mcsos.Syscall.Dispatch
import Mcsos.Syscall.UserRanges
import Mcsos.Sched.Validation
import Mcsos.Lib.Traced
import Mcsos.Mcsfs1.Lookup
import Mcsos.Mcsfs1.Check
import Mcsos.Mcsfs1.CleanImage
import Mcsos.Mcsfs1j.HostileRead
import Mcsos.Lib.Interleaving
import Mcsos.Sync.Mutex
import Mcsos.Sync.Exclusion
import Mcsos.Arch.ContextSwitch
import Mcsos.Arch.Idt
import Mcsos.Arch.Interrupt
import Mcsos.Arch.Ports
import Mcsos.Core.Irq
import Mcsos.Kmain.AddressSpace
import Mcsos.Kmain.Services
import Mcsos.Mcsfs1j.Remount
import Mcsos.Sync.Spinlock
import Mcsos.Syscall.Entry
import Mcsos.Core.Memory
