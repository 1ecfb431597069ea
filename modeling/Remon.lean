import Remon.Lib.Bytes
import Remon.Lib.Links
import Remon.Lib.Tiling
import Remon.Lib.OrdMap
import Remon.Lib.IterList
import Remon.Lib.Slots
import Remon.Lib.Yields
import Remon.Lib.Double
import Remon.Lib.CInt
import Remon.Lib.Buckets
import Remon.Lib.Ring
import Remon.Lib.LockProg
import Remon.Lib.LockLogic
import Remon.Lib.LockOrder
import Remon.Heap.Allocator
import Remon.Heap.Abstract
import Remon.Heap.Image
import Remon.Heap.Refinement
import Remon.Heap.Queries
import Remon.Heap.Sessions
import Remon.Heap.SwapImage
import Remon.Pod.Pod
import Remon.Pod.Flush
import Remon.Pod.Models
import Remon.Remote.Client
import Remon.Remote.Save
import Remon.Remote.Fetch
import Remon.Remote.Sockets
import Remon.Remote.Wire
import Remon.Remote.Framing
import Remon.Remote.WholeMessages
import Remon.Pod.Swap
import Remon.Pod.Page
import Remon.Node.Server
import Remon.Node.LatestSave
import Remon.Node.Tenants
import Remon.Node.Handlers
import Remon.Node.FailedSaves
import Remon.Arena.TopLevelAllocator
import Remon.Arena.Abstract
import Remon.Arena.SizeLists
import Remon.Arena.Refinement
import Remon.Arena.Sessions
import Remon.Arena.Exhaustion
import Remon.Arena.PageCount
import Remon.Arena.Bundle
import Remon.Arena.Pages
import Remon.Arena.HeadPods
import Remon.Buffer.PodBoundedBuffer
import Remon.Buffer.Wakeups
import Remon.Vmm.Addresses
import Remon.Vmm.LruList
import Remon.Vmm.FaultWait
import Remon.Spl.SegregatedPageList
import Remon.Spl.Invariant
import Remon.Spl.Calls
import Remon.Spl.SmallRequests
import Remon.Vmm.Pager
import Remon.Vmm.PagerInvariant
import Remon.Vmm.PageMoves
import Remon.Vmm.Session
import Remon.Vmm.ListRuns
import Remon.Vmm.FreeLedger
import Remon.Vmm.Residents
import Remon.Vmm.Manager
import Remon.Vmm.ManagerInvariant
import Remon.Vmm.Trimming
import Remon.Vmm.PrefetchWalk
import Remon.Vmm.EntryPoints
import Remon.Vmm.LockBalance
import Remon.Vmm.PodMutex
import Remon.Vmm.MutexOrder
import Remon.Vmm.Embeddings
import Remon.Vmm.Startup
import Remon.Vmm.BufferFiller
import Remon.Vmm.CarvedBlocks
import Remon.Vmm.PageReach
import Remon.Vmm.Cleanup
import Remon.Remote.TailBuffer
import Remon.Vmm.Discards
import Remon.Vmm.Contract
import Remon.Lib.Coalesced
import Remon.Arena.Recovery
import Remon.Heap.Rank
import Remon.Spl.Ranks
import Remon.Pod.Emptied
import Remon.Pod.Mappings
import Remon.Vmm.Lookups
import Remon.Spl.Spares
import Remon.Vmm.Contents
import Remon.Vmm.SerialCalls
import Remon.Vmm.Reallocate
import Remon.Lib.Traces
import Remon.Lib.BlockStore
import Remon.Vmm.MovedBytes
import Remon.Vmm.BlockMemory
import Remon.Lib.Registry
import Remon.Vmm.Segregation
import Remon.Node.Exchanges
import Remon.Vmm.Cluster
