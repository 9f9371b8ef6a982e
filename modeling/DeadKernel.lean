import DeadKernel.Drivers.Acpi
import DeadKernel.Drivers.FirmwareTables
import DeadKernel.Drivers.Pci
import DeadKernel.Drivers.PciForTasks
import DeadKernel.Drivers.PciScan
import DeadKernel.Foundation.BoundedQueue
import DeadKernel.Foundation.ByteMemory
import DeadKernel.Foundation.Lineage
import DeadKernel.Foundation.MappedMemory
import DeadKernel.Foundation.Permits
import DeadKernel.Foundation.Rings
import DeadKernel.Foundation.Rounds
import DeadKernel.Foundation.Settling
import DeadKernel.Foundation.Simulation
import DeadKernel.Foundation.SoleHolders
import DeadKernel.Foundation.Turns
import DeadKernel.Foundation.Visits
import DeadKernel.Foundation.Words
import DeadKernel.Interrupts.DescriptorTables
import DeadKernel.Interrupts.Dispatch
import DeadKernel.Interrupts.FrameRoundTrip
import DeadKernel.Interrupts.Gates
import DeadKernel.Interrupts.InterruptContext
import DeadKernel.Interrupts.Nesting
import DeadKernel.Interrupts.UserCalls
import DeadKernel.Io.CommandFraming
import DeadKernel.Io.CommandLink
import DeadKernel.Io.CyclicBuffer
import DeadKernel.Io.FormatTermination
import DeadKernel.Io.FormattedOutput
import DeadKernel.Io.FormattedText
import DeadKernel.Io.Getch
import DeadKernel.Io.Keyboard
import DeadKernel.Io.LinkProtocol
import DeadKernel.Io.MemPrint
import DeadKernel.Io.PrintedItems
import DeadKernel.Io.Printf
import DeadKernel.Io.Retransmission
import DeadKernel.Io.RingContents
import DeadKernel.Io.Screen
import DeadKernel.Io.Typing
import DeadKernel.Loading.AddedPages
import DeadKernel.Loading.ElfTables
import DeadKernel.Loading.FilledSpace
import DeadKernel.Loading.Image
import DeadKernel.Loading.KernelMapping
import DeadKernel.Loading.LinkedNames
import DeadKernel.Loading.LoadedImage
import DeadKernel.Loading.LoaderAtWork
import DeadKernel.Loading.LoaderIsolation
import DeadKernel.Loading.MirroredRange
import DeadKernel.Loading.Modules
import DeadKernel.Loading.NearestSymbol
import DeadKernel.Loading.PageFaults
import DeadKernel.Loading.PageRanges
import DeadKernel.Loading.ReversedRange
import DeadKernel.Loading.SectionCoverage
import DeadKernel.Loading.TaskLife
import DeadKernel.Memory.AddressSpaces
import DeadKernel.Memory.AlignedAllocation
import DeadKernel.Memory.Bitmap
import DeadKernel.Memory.BitmapBounds
import DeadKernel.Memory.BlocksAside
import DeadKernel.Memory.Boot
import DeadKernel.Memory.BootOwnership
import DeadKernel.Memory.BoundaryTags
import DeadKernel.Memory.Cloning
import DeadKernel.Memory.Coalescing
import DeadKernel.Memory.Directory
import DeadKernel.Memory.DirectoryBalance
import DeadKernel.Memory.DirectoryBase
import DeadKernel.Memory.DirectoryClone
import DeadKernel.Memory.DirectoryRelease
import DeadKernel.Memory.FirstFree
import DeadKernel.Memory.FrameCalls
import DeadKernel.Memory.FrameOwnership
import DeadKernel.Memory.FrameSafety
import DeadKernel.Memory.FreeList
import DeadKernel.Memory.FreedPointers
import DeadKernel.Memory.FreeingLive
import DeadKernel.Memory.Heap
import DeadKernel.Memory.HeapAllocating
import DeadKernel.Memory.HeapExtent
import DeadKernel.Memory.HeapFreeing
import DeadKernel.Memory.HeapGaps
import DeadKernel.Memory.HeapLayout
import DeadKernel.Memory.HeapMemory
import DeadKernel.Memory.HeapRepresentation
import DeadKernel.Memory.HeapRequests
import DeadKernel.Memory.HeapRuns
import DeadKernel.Memory.HeapTaking
import DeadKernel.Memory.HeapWrites
import DeadKernel.Memory.KernelBlocks
import DeadKernel.Memory.Machine
import DeadKernel.Memory.OthersKept
import DeadKernel.Memory.Paging
import DeadKernel.Memory.Payloads
import DeadKernel.Memory.SoleFrames
import DeadKernel.Memory.TableSharing
import DeadKernel.Multitasking.ArrivalOrder
import DeadKernel.Multitasking.CurrentTask
import DeadKernel.Multitasking.FairSwitching
import DeadKernel.Multitasking.ForkedMemories
import DeadKernel.Multitasking.KernelStack
import DeadKernel.Multitasking.LastTask
import DeadKernel.Multitasking.MemoryLifetimes
import DeadKernel.Multitasking.OneRunning
import DeadKernel.Multitasking.PrivateMemories
import DeadKernel.Multitasking.QueueMembership
import DeadKernel.Multitasking.RegisterIsolation
import DeadKernel.Multitasking.RunQueue
import DeadKernel.Multitasking.Scan
import DeadKernel.Multitasking.SemaphoreConservation
import DeadKernel.Multitasking.SemaphoreIds
import DeadKernel.Multitasking.SemaphoreUnits
import DeadKernel.Multitasking.SemctlResults
import DeadKernel.Multitasking.Sleep
import DeadKernel.Multitasking.StackClone
import DeadKernel.Multitasking.SysCallTable
import DeadKernel.Multitasking.Tasks
import DeadKernel.Multitasking.UserCopies
import DeadKernel.Multitasking.Waiting
import DeadKernel.Multitasking.ZombieCollection
import DeadKernel.Shared.AnyBase
import DeadKernel.Shared.Numbers
import DeadKernel.Shared.Stdlib
import DeadKernel.Shared.Strings
import DeadKernel.Shared.TokenStrings
import DeadKernel.Shared.Tokens
import DeadKernel.Userland.Shell
import DeadKernel.Userland.ShellSession
