import Ricerca.Foundation.Execution
import Ricerca.Foundation.Words
import Ricerca.Foundation.Blocks
import Ricerca.Foundation.Chain
import Ricerca.Foundation.Counting
import Ricerca.Foundation.LinkedList
import Ricerca.Foundation.Reachability
import Ricerca.Foundation.Placement
import Ricerca.Foundation.Descent
import Ricerca.Foundation.Reading
import Ricerca.Foundation.SelectionSort
import Ricerca.Foundation.Bytes
import Ricerca.Lib.Symmap
import Ricerca.Lib.SymmapRoundTrip
import Ricerca.Foundation.Stores
import Ricerca.Lib.Fmt
import Ricerca.Lib.FmtBounds
import Ricerca.Lib.FmtOverrun
import Ricerca.Lib.Intmap
import Ricerca.Lib.Queue
import Ricerca.User.Cookie
import Ricerca.User.CookieLife
import Ricerca.User.Shm
import Ricerca.User.ShmPermissions
import Ricerca.User.ShmLife
import Ricerca.User.ShmReferences
import Ricerca.User.ShmSteps
import Ricerca.User.ShmLifecycle
import Ricerca.User.Universe
import Ricerca.User.UniverseCells
import Ricerca.User.UniverseSteps
import Ricerca.User.UniverseTable
import Ricerca.User.UniverseHandles
import Ricerca.User.UniverseRepresentation
import Ricerca.User.UniversePins
import Ricerca.User.UniverseGraph
import Ricerca.User.UniverseOrder
import Ricerca.User.UniverseLocks
import Ricerca.User.UniverseDeadlock
import Ricerca.User.Notifications
import Ricerca.User.NotificationsDelivery
import Ricerca.User.NotificationsSleepers
import Ricerca.User.NotificationsLifetime
import Ricerca.User.Rpc
import Ricerca.User.RpcSteps
import Ricerca.User.RpcPlaces
import Ricerca.User.RpcReferences
import Ricerca.User.RpcConserved
import Ricerca.User.RpcShutdown
import Ricerca.User.RpcReclaim
import Ricerca.User.RpcMemory
import Ricerca.User.RpcLife
import Ricerca.User.RpcConservation
import Ricerca.User.RpcCorrelation
import Ricerca.Sys.Acpi
import Ricerca.Sys.AcpiWalkers
import Ricerca.Sys.Numa
import Ricerca.Sys.NumaNeighbours
import Ricerca.Sys.AcpiCpus
import Ricerca.Mem.Bootstrap
import Ricerca.Mem.BootstrapRanges
import Ricerca.Mem.PhysSlab
import Ricerca.Mem.PhysSlabSafety
import Ricerca.Mem.PhysSlabVisible
import Ricerca.Mem.Phys
import Ricerca.Mem.PhysRanges
import Ricerca.Mem.Invtlb
import Ricerca.Mem.InvtlbCountdown
import Ricerca.Mem.InvtlbSafety
import Ricerca.Mem.InvtlbCounter
import Ricerca.Mem.Paging
import Ricerca.Mem.PagingTables
import Ricerca.Mem.PagingLookup
import Ricerca.Mem.PagingMap
import Ricerca.Mem.PagingRefinement
import Ricerca.Mem.Heap
import Ricerca.Mem.HeapSafety
import Ricerca.Thread.Mutex
import Ricerca.Thread.MutexHandoff
import Ricerca.Thread.Rwlock
import Ricerca.Thread.RwlockExclusion
import Ricerca.Thread.RwlockWaiters
import Ricerca.Lib.Target
import Ricerca.Lib.TargetPlan
import Ricerca.Foundation.PairingForest
import Ricerca.Lib.PairingHeap
import Ricerca.Lib.PairingHeapOrder
import Ricerca.Thread.Localsched
import Ricerca.Thread.LocalschedTasks
import Ricerca.Thread.LocalschedIdle
import Ricerca.Thread.LocalschedEffects
import Ricerca.Thread.LocalschedLoad
import Ricerca.Thread.LocalschedStamps
import Ricerca.Thread.LocalschedTimeslice
import Ricerca.Foundation.Ring
import Ricerca.Thread.Topology
import Ricerca.Thread.Balancer
import Ricerca.User.RpcNotifications
import Ricerca.User.RpcAgreement
import Ricerca.Foundation.Triple
import Ricerca.User.UniverseCounts
import Ricerca.User.Entry
import Ricerca.User.EntryReferences
import Ricerca.User.EntryOperations
import Ricerca.User.EntryBalance
import Ricerca.Foundation.Accesses
import Ricerca.User.UniverseBalance
import Ricerca.User.UniverseFork
import Ricerca.User.UniverseFailures
import Ricerca.User.UniverseCopies
import Ricerca.User.EntryFork
import Ricerca.Foundation.Latest
import Ricerca.User.CookieGroups
import Ricerca.User.RpcMessages
import Ricerca.User.Callee
import Ricerca.User.CalleeCreation
import Ricerca.Foundation.Behaviour
import Ricerca.Thread.MutexTable
import Ricerca.User.CookieLocks
import Ricerca.User.CookieRelease
import Ricerca.Foundation.Slices
import Ricerca.User.ShmBytes
import Ricerca.User.EntryShmIds
import Ricerca.User.EntryShmPaths
import Ricerca.Mem.PagingUnmap
import Ricerca.Mem.PagingDispose
import Ricerca.Foundation.Custody
import Ricerca.Thread.Task
import Ricerca.Thread.TaskResources
import Ricerca.Mem.NumaRanges
import Ricerca.Sys.Timer
import Ricerca.Sys.AcpiTimer
import Ricerca.Lib.Log
import Ricerca.Lib.FmtRender
import Ricerca.Mem.PhysSpace
import Ricerca.Foundation.WordBytes
import Ricerca.Mem.HeapRealloc
import Ricerca.Mem.HeapClasses
import Ricerca.Mem.HeapReallocSafety
import Ricerca.Mem.PhysFrames
import Ricerca.Mem.HeapPages
import Ricerca.Mem.HeapPagesSafety
import Ricerca.Lib.Dynarray
import Ricerca.Lib.DynarrayRefinement
import Ricerca.User.CalleeBuckets
import Ricerca.Lib.Lists
import Ricerca.Lib.ListsRefinement
import Ricerca.Lib.IntmapBuckets
import Ricerca.User.Tls
import Ricerca.User.TlsMap
import Ricerca.Lib.FmtRoundTrip
import Ricerca.Foundation.FifoLock
import Ricerca.Thread.Spinlock
import Ricerca.Thread.SpinlockInterrupts
import Ricerca.Thread.SpinlockOrder
