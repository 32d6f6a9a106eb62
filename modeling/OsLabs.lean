import OsLabs.Foundation.Transition
import OsLabs.Foundation.Links
import OsLabs.Foundation.Blocks
import OsLabs.Memory.Page
import OsLabs.Memory.DefaultPmm
import OsLabs.Memory.FirstFit
import OsLabs.Memory.PmmRefinement
import OsLabs.Memory.PmmRelease
import OsLabs.Memory.Allocator
import OsLabs.Memory.AllocatorRuns
import OsLabs.Foundation.Fibers
import OsLabs.Memory.Mmu
import OsLabs.Memory.PageTable
import OsLabs.Memory.AddressSpace
import OsLabs.Memory.PageTableSteps
import OsLabs.Memory.PageTableEdits
import OsLabs.Memory.PageTableRuns
import OsLabs.Paging.LruMatrix
import OsLabs.Foundation.MoveToBack
import OsLabs.Paging.Recency
import OsLabs.Paging.LruStackRefinement
import OsLabs.Paging.LruAgreement
import OsLabs.Foundation.ArrayHeap
import OsLabs.StaticList.Model
import OsLabs.StaticList.Threading
import OsLabs.StaticList.Swap
import OsLabs.StaticList.Transposition
import OsLabs.StaticList.Invariant
import OsLabs.StaticList.Operations
import OsLabs.StaticList.Runs
import OsLabs.Foundation.Filtering
import OsLabs.Peterson.FilterLock
import OsLabs.StaticList.HeapRuns
import OsLabs.Peterson.Exclusion
import OsLabs.Peterson.Counter
import OsLabs.Peterson.SharedMemory
import OsLabs.Peterson.HandOver
import OsLabs.Peterson.MissedThread
import OsLabs.Banker.Model
import OsLabs.Banker.Runs
import OsLabs.Foundation.CircularBuffer
import OsLabs.Foundation.Tokens
import OsLabs.ProducerConsumer.Model
import OsLabs.ProducerConsumer.Critical
import OsLabs.ProducerConsumer.Invariant
import OsLabs.ProducerConsumer.Exactness
import OsLabs.ProducerConsumer.Shutdown
import OsLabs.ProducerConsumer.Progress
import OsLabs.ThreadPool.Model
import OsLabs.ThreadPool.Queue
import OsLabs.ThreadPool.Runs
import OsLabs.Bbs.Frames
import OsLabs.Bbs.Nicknames
import OsLabs.Foundation.Chains
import OsLabs.Scheduler.Model
import OsLabs.Scheduler.Insertion
import OsLabs.Scheduler.Discipline
import OsLabs.Disk.Model
import OsLabs.Disk.Service
import OsLabs.Disk.Sweeps
import OsLabs.Memory.AllocationResult
import OsLabs.Memory.PageInit
import OsLabs.Disk.Look
import OsLabs.Paging.Fifo
import OsLabs.Paging.LruHistory
import OsLabs.Paging.SecondChance
import OsLabs.Paging.SecondChanceRefinement
import OsLabs.Paging.SecondChanceRuns
import OsLabs.Scheduler.Status
import OsLabs.Scheduler.ShortestRemaining
import OsLabs.StaticList.Flags
import OsLabs.TextQueue.Model
import OsLabs.TextQueue.Invariant
import OsLabs.TextQueue.Steps
import OsLabs.TextQueue.Runs
import OsLabs.Disk.CLook
import OsLabs.Disk.Scan
import OsLabs.Disk.NearestFirst
import OsLabs.Memory.BootMap
import OsLabs.Memory.PageTableListing
import OsLabs.StaticList.Capacity
import OsLabs.StaticList.Search
import OsLabs.Debug.Stab
import OsLabs.Debug.StabSteps
import OsLabs.Debug.StabSearch
import OsLabs.Debug.StabBrackets
import OsLabs.StaticList.PointerModel
import OsLabs.StaticList.PointerAgreement
import OsLabs.StaticList.PointerGrowth
import OsLabs.StaticList.PointerPop
import OsLabs.StaticList.PointerRuns
import OsLabs.Console.InputBuffer
import OsLabs.Monitor.Parse
import OsLabs.Printfmt.Number
import OsLabs.Printfmt.Model
import OsLabs.Printfmt.Formatted
import OsLabs.Printfmt.Termination
import OsLabs.Printfmt.Escapes
import OsLabs.Printfmt.Fields
import OsLabs.Printfmt.Snprintf
import OsLabs.Foundation.DemandPaging
import OsLabs.Paging.Conservative
import OsLabs.Paging.SecondChanceFaults
import OsLabs.Paging.Competitive
import OsLabs.Foundation.Paper
import OsLabs.Libs.MemMove
import OsLabs.Console.Screen
import OsLabs.Console.Output
import OsLabs.Console.Readline
import OsLabs.Console.Keyboard
import OsLabs.Console.Typing
import OsLabs.Foundation.FairRuns
import OsLabs.Peterson.Liveness
import OsLabs.Memory.Footprint
import OsLabs.Memory.SelfCheck
import OsLabs.Memory.DefaultCheck
import OsLabs.Memory.ScratchTable
import OsLabs.Memory.PgdirCheck
import OsLabs.Memory.Translation
import OsLabs.Memory.KernelMap
import OsLabs.Memory.BootCheck
import OsLabs.Memory.PmmInit
import OsLabs.Foundation.Tours
import OsLabs.Disk.Competitive
import OsLabs.Banker.Completion
import OsLabs.ThreadPool.Progress
import OsLabs.ThreadPool.Liveness
