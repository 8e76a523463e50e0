import Vdo.Lib.IndexCount
import Vdo.Base.JournalPoint
import Vdo.Base.RefCounts
import Vdo.Base.RefCountsSearch
import Vdo.Base.ReferenceBlockIO
import Vdo.Lib.Reachability
import Vdo.Base.RefCountsSpec
import Vdo.Base.RefCountsInvariant
import Vdo.Base.RefCountsAllocate
import Vdo.Base.RefCountsLinearScan
import Vdo.Base.RefCountsLoad
import Vdo.Base.RefCountsSystem
import Vdo.Lib.ExceptFold
import Vdo.Base.SlabScrubber
import Vdo.Lib.Redo
import Vdo.Base.ReferenceSemantics
import Vdo.Base.ScrubReplay
import Vdo.Base.SlabJournalCodec
import Vdo.Base.SlabJournal
import Vdo.Base.SlabJournalWindow
import Vdo.Base.SlabState
import Vdo.Base.SlabLocks
import Vdo.Base.SlabLocksSpec
import Vdo.Base.SlabLocksInvariant
import Vdo.Base.SlabLocksReference
import Vdo.Base.SlabLocksEntry
import Vdo.Base.SlabLocksRun
import Vdo.Base.LockCounter
import Vdo.Base.LockCounterInvariant
import Vdo.Base.LockCounterRun
import Vdo.Base.DirtyLists
import Vdo.Base.DirtyListsInvariant
import Vdo.Base.DirtyListsRun
import Vdo.Lib.TriangularProbe
import Vdo.Uds.OpenChapterZone
import Vdo.Uds.OpenChapterZoneInvariant
import Vdo.Uds.OpenChapterZoneRun
import Vdo.Uds.DeltaIndex
import Vdo.Uds.DeltaIndexSearch
import Vdo.Uds.MasterIndexRestore
import Vdo.Lib.ResidueCount
import Vdo.Base.Forest
import Vdo.Base.PbnLock
import Vdo.Lib.FifoLock
import Vdo.Base.LogicalBlockLock
import Vdo.Base.LogicalBlockLockInvariant
import Vdo.Base.LogicalBlockLockRun
import Vdo.Lib.ModularDistance
import Vdo.Uds.MasterIndexChapters
import Vdo.Uds.MasterIndexFlush
import Vdo.Uds.MasterIndexBackwards
import Vdo.Uds.MasterIndexSavePoints
import Vdo.Uds.MasterIndexSparse
import Vdo.Base.CompressedBlock
import Vdo.Uds.DeltaMemory
import Vdo.Uds.DeltaMemoryRebalance
import Vdo.Uds.DeltaIndexRestore
import Vdo.Uds.ChapterBoundaries
import Vdo.Uds.OpenChapterSave
import Vdo.Uds.ChapterWriter
import Vdo.Lib.SegmentSort
import Vdo.Uds.RadixSort
import Vdo.Uds.RadixSortPiles
import Vdo.Uds.RadixSortPlace
import Vdo.Uds.RadixSortRun
import Vdo.Lib.HeapTree
import Vdo.Uds.RecordPage
import Vdo.Base.PriorityTable
import Vdo.Base.SlabPriority
import Vdo.Base.SlabSummary
import Vdo.Lib.BinaryHeap
import Vdo.Base.Heap
import Vdo.Uds.DeltaIndexInsert
import Vdo.Base.WaitQueue
import Vdo.Base.WaitQueueRun
import Vdo.Lib.ByteStream
import Vdo.Base.FixedLayout
import Vdo.Base.IntMap
import Vdo.Lib.Adjacent
import Vdo.Uds.FunnelQueue
import Vdo.Uds.FunnelQueueRun
import Vdo.Uds.SparseCache
import Vdo.Uds.SparseCacheRun
import Vdo.Base.RecoveryPoint
import Vdo.Lib.BitField
import Vdo.Uds.Bits
import Vdo.Uds.FieldStores
import Vdo.Uds.DeltaCode
