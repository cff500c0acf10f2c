import RetroOS.Lib.Assoc
import RetroOS.Lib.Bytes
import RetroOS.Lib.Disk
import RetroOS.Lib.Fields
import RetroOS.Lib.Insertion
import RetroOS.Lib.Machine
import RetroOS.Lib.Medium
import RetroOS.Lib.Memory
import RetroOS.Lib.Overlay
import RetroOS.Lib.Query
import RetroOS.Lib.RefCount
import RetroOS.Lib.Regions
import RetroOS.Lib.Search
import RetroOS.Lib.Strict
import RetroOS.Cpu.Monitor
import RetroOS.Ext.Allocation
import RetroOS.Ext.AllocationPlan
import RetroOS.Ext.Basic
import RetroOS.Ext.Contents
import RetroOS.Ext.ExtentBounds
import RetroOS.Ext.ExtentDecoding
import RetroOS.Ext.ExtentMapping
import RetroOS.Ext.ExtentOrder
import RetroOS.Ext.ExtentRefinement
import RetroOS.Ext.ExtentTree
import RetroOS.Ext.ExtentWalkers
import RetroOS.Ext.Filesystem
import RetroOS.Ext.GroupRecord
import RetroOS.Ext.Journal
import RetroOS.Ext.JournalCodec
import RetroOS.Ext.JournalCommit
import RetroOS.Ext.JournalReplay
import RetroOS.Ext.Readers
import RetroOS.Ext.Superblock
import RetroOS.Ext.Transaction
import RetroOS.Ext.Truncation
import RetroOS.Block.Cache
import RetroOS.Block.Disk
import RetroOS.Block.Nesting
import RetroOS.Block.Overlay
import RetroOS.Block.Partitions
import RetroOS.Block.Sessions
import RetroOS.Block.Storage
import RetroOS.Heap.Allocator
import RetroOS.Heap.Conservation
import RetroOS.Heap.Runs
import RetroOS.Kernel.DescriptorCounts
import RetroOS.Kernel.Descriptors
import RetroOS.Kernel.Pending
import RetroOS.Kernel.Pipe
import RetroOS.Kernel.Threads
import RetroOS.Kernel.Wait
import RetroOS.Hosted.CellCounts
import RetroOS.Hosted.Confinement
import RetroOS.Hosted.FrameCounts
import RetroOS.Hosted.Frames
import RetroOS.Hosted.Isolation
import RetroOS.Hosted.References
import RetroOS.Hosted.Spaces
import RetroOS.Vfs.Grants
import RetroOS.Vfs.Links
import RetroOS.Vfs.Mounts
import RetroOS.Vfs.Offsets
import RetroOS.Vfs.OverlayObjects
import RetroOS.Vfs.Paths
import RetroOS.Vfs.RamOverlay
import RetroOS.Vfs.Renames
import RetroOS.Vfs.Sharing
import RetroOS.Vfs.Tree
import RetroOS.Metal.CopyOnWrite
import RetroOS.Dos.Alias
import RetroOS.Dos.Descriptors
import RetroOS.Dos.DirectoryIndex
import RetroOS.Dos.DpmiMemory
import RetroOS.Dos.Ems
import RetroOS.Dos.EmsPages
import RetroOS.Dos.EmsPool
import RetroOS.Dos.EmsWindows
import RetroOS.Dos.HostSlots
import RetroOS.Dos.Mcb
import RetroOS.Dos.McbChain
import RetroOS.Dos.Registers
import RetroOS.Dos.VirtualPic
import RetroOS.Dos.Xms
import RetroOS.Dos.XmsMoves
import RetroOS.Linux.AddressSpace
import RetroOS.Linux.Collisions
import RetroOS.Linux.Elf
import RetroOS.Linux.ElfImage
import RetroOS.Linux.Getdents
import RetroOS.Personality.Allocations
import RetroOS.Hostfs.Attribution
import RetroOS.Hostfs.Frame
import RetroOS.Hostfs.Session
