import MangoOS.Library.Words
import MangoOS.Library.Ring
import MangoOS.Library.Placement
import MangoOS.Kernel.Queue
import MangoOS.Kernel.Task
import MangoOS.Kernel.Represent
import MangoOS.Kernel.Schedule
import MangoOS.Kernel.Operations
import MangoOS.Kernel.Ipc
import MangoOS.Kernel.Reachable
import MangoOS.Kernel.Callers
import MangoOS.Kernel.MutexLaw
import MangoOS.Kernel.SemaphoreLaw
import MangoOS.Memory.Bitmap
import MangoOS.Memory.Pages
import MangoOS.Library.ByteMemory
import MangoOS.Memory.Heap
import MangoOS.Memory.WellFormed
import MangoOS.Memory.Kfree
import MangoOS.Memory.Kmalloc
import MangoOS.Memory.HeapState
import MangoOS.Memory.HeapRuns
import MangoOS.Memory.Ownership
import MangoOS.FileSystem.Device
import MangoOS.FileSystem.Buffer
import MangoOS.FileSystem.Coherence
import MangoOS.FileSystem.Ext2
import MangoOS.FileSystem.Position
import MangoOS.FileSystem.View
import MangoOS.FileSystem.ReadBack
import MangoOS.FileSystem.Bits
import MangoOS.FileSystem.AllocInode
import MangoOS.FileSystem.InodeCache
import MangoOS.FileSystem.Directory
import MangoOS.FileSystem.Unlink
import MangoOS.FileSystem.FileTable
import MangoOS.Memory.ByteCopy
import MangoOS.Memory.Paging
import MangoOS.Memory.UserCopy
import MangoOS.Memory.PhysicalMemory
import MangoOS.Memory.AddressSpace
import MangoOS.Memory.CopyMemory
import MangoOS.Memory.ForkCopy
import MangoOS.Kernel.Fork
import MangoOS.FileSystem.AllocBlock
import MangoOS.FileSystem.Sync
import MangoOS.FileSystem.Window
import MangoOS.FileSystem.Walk
import MangoOS.FileSystem.OpenInodes
import MangoOS.Memory.FirstFit
import MangoOS.Memory.Growth
import MangoOS.Memory.RequestSize
import MangoOS.Memory.BootBitmap
import MangoOS.Memory.CopyExact
import MangoOS.Memory.DestroyPde
import MangoOS.Memory.VirtualPages
import MangoOS.Kernel.LoadElf
import MangoOS.Memory.VpagesFrame
import MangoOS.Memory.VpagesUndo
import MangoOS.Kernel.RoundRobin
import MangoOS.Memory.BootPaging
import MangoOS.FileSystem.BlockTree
import MangoOS.FileSystem.CachedLookup
import MangoOS.FileSystem.Disk
import MangoOS.FileSystem.InodeCodec
import MangoOS.FileSystem.WriteBack
import MangoOS.FileSystem.Eviction
import MangoOS.FileSystem.ExactRead
import MangoOS.FileSystem.SizeLaw
import MangoOS.Kernel.ExecArgs
import MangoOS.Kernel.ForkFiles
import MangoOS.Kernel.SegmentImage
import MangoOS.FileSystem.Mount
import MangoOS.FileSystem.Remount
import MangoOS.FileSystem.BlockAddress
import MangoOS.FileSystem.MountGroups
import MangoOS.FileSystem.PathNames
import MangoOS.FileSystem.SyncDrain
import MangoOS.Kernel.DiskWait
import MangoOS.Kernel.DiskWaitLaw
import MangoOS.FileSystem.DirScan
import MangoOS.FileSystem.ScanEnds
import MangoOS.FileSystem.DirLookup
import MangoOS.FileSystem.FailedLoad
import MangoOS.FileSystem.UnlinkName
import MangoOS.FileSystem.DirtyList
import MangoOS.FileSystem.NewEntry
import MangoOS.FileSystem.UnusedEntry
import MangoOS.FileSystem.Creation
import MangoOS.Library.Ledger
import MangoOS.FileSystem.SpaceLaw
import MangoOS.Memory.Coalesce
import MangoOS.FileSystem.FileSlots
import MangoOS.Kernel.Clock
import MangoOS.Device.DeviceTable
import MangoOS.Device.DeviceLaw
import MangoOS.Device.DiskIrq
import MangoOS.Device.DiskCommand
import MangoOS.FileSystem.MountTable
import MangoOS.Kernel.SleepLaw
import MangoOS.Kernel.SliceLaw
import MangoOS.Kernel.TickAccount
import MangoOS.FileSystem.MountRelease
import MangoOS.FileSystem.RecycledSlot
import MangoOS.FileSystem.ZeroBits
import MangoOS.FileSystem.BaseName
import MangoOS.Kernel.ListLaw
import MangoOS.FileSystem.DescriptorBounds
import MangoOS.Device.Kprintf
import MangoOS.FileSystem.GroupAgreement
import MangoOS.Boot.DirSearch
import MangoOS.Library.Holdings
import MangoOS.Memory.SpaceSystem
import MangoOS.Memory.SpaceSteps
import MangoOS.Memory.SpaceCalls
import MangoOS.Memory.SpaceLaw
import MangoOS.Memory.PrivateMemory
import MangoOS.Library.StackMachine
import MangoOS.Kernel.SwitchTo
import MangoOS.Kernel.ExceptionFrame
import MangoOS.Kernel.Threads
import MangoOS.Kernel.ThreadRuns
import MangoOS.Kernel.ThreadReturns
import MangoOS.Kernel.SystemCall
import MangoOS.Library.Segments
import MangoOS.Kernel.Descriptors
import MangoOS.Kernel.DescriptorRuns
import MangoOS.Library.InterruptChips
import MangoOS.Device.InterruptController
import MangoOS.Library.LockOrder
import MangoOS.Kernel.LockOrder
import MangoOS.FileSystem.LockTraces
import MangoOS.Library.Overlay
import MangoOS.Boot.LoadKernel
import MangoOS.Boot.KernelFile
import MangoOS.Boot.PlaceKernel
