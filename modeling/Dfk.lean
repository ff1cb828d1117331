import Dfk.Library.AvlShape
import Dfk.Library.AvlInsertion
import Dfk.Library.AvlErasure
import Dfk.Library.AvlOrder
import Dfk.Library.Cut
import Dfk.Fault
import Dfk.AvlTree.Source
import Dfk.AvlTree.Representation
import Dfk.AvlTree.Rotation
import Dfk.AvlTree.Placement
import Dfk.AvlTree.WellFormed
import Dfk.AvlTree.Insert
import Dfk.AvlTree.Erase
import Dfk.AvlTree.Traverse
import Dfk.Bytes
import Dfk.StrMap.Source
import Dfk.StrMap.FiniteMap
import Dfk.Socket
import Dfk.Http.Headers
import Dfk.Http.Response
import Dfk.Http.ResponseStream
import Dfk.Http.HeadGrammar
import Dfk.Http.ResponseHead
import Dfk.Http.Parser
import Dfk.Http.UrlEncoding
import Dfk.Http.Request
import Dfk.Http.Segmentation
import Dfk.Http.Accepted
import Dfk.Http.Body
import Dfk.Http.BodyDelivery
import Dfk.Http.HeaderBlock
import Dfk.Http.FramingAgreement
import Dfk.Http.QueryArguments
import Dfk.Arena.Source
import Dfk.Arena.Disjointness
import Dfk.Library.Chain
import Dfk.Library.Runs
import Dfk.Library.Fifo
import Dfk.LinkedList.Source
import Dfk.LinkedList.Representation
import Dfk.LinkedList.Traversal
import Dfk.LinkedList.Linking
import Dfk.LinkedList.Editing
import Dfk.LinkedList.Refinement
import Dfk.Library.XorChain
import Dfk.LinkedList.MemoryOptimized.Source
import Dfk.LinkedList.MemoryOptimized.Representation
import Dfk.LinkedList.MemoryOptimized.Traversal
import Dfk.LinkedList.MemoryOptimized.Linking
import Dfk.LinkedList.MemoryOptimized.Editing
import Dfk.LinkedList.MemoryOptimized.Operations
import Dfk.LinkedList.Layouts
import Dfk.LinkedList.FaithfulLayouts
import Dfk.LinkedList.Equivalence
import Dfk.Scheduler.Source
import Dfk.Scheduler.Loops
import Dfk.Scheduler.Placement
import Dfk.Scheduler.Queues
import Dfk.Scheduler.MutualExclusion
import Dfk.Scheduler.Waiting
import Dfk.Scheduler.Condition
import Dfk.TcpServer.Source
import Dfk.TcpServer.GracefulStop
import Dfk.TcpServer.RunningServers
import Dfk.Http.Protocol
import Dfk.Http.ConnectionHeader
import Dfk.AvlTree.Iteration
import Dfk.AvlTree.Ownership
import Dfk.Library.Loops
import Dfk.Http.BodyRounds
import Dfk.Http.BodyResult
import Dfk.Http.BodyFlush
import Dfk.Http.InPlace
import Dfk.Library.Paths
import Dfk.Middleware.FileServer
import Dfk.Middleware.Confinement
import Dfk.EventLoop.Select
import Dfk.EventLoop.SelectPass
import Dfk.EventLoop.WokenWaiters
import Dfk.Library.Ledger
import Dfk.Scheduler.Frame
import Dfk.Scheduler.WorkCycle
import Dfk.Scheduler.Lifetimes
import Dfk.EventLoop.WaitSet
import Dfk.Library.Tokens
import Dfk.UrlEncoding.Source
import Dfk.UrlEncoding.Grammar
import Dfk.UrlEncoding.Hints
import Dfk.UrlEncoding.RoundTrip
import Dfk.Http.Persistence
import Dfk.Http.HeadersBuffers
import Dfk.Http.ConnectionLoop
import Dfk.Http.HeadMemory
import Dfk.Http.HeadRounds
import Dfk.Http.HeaderSwitch
import Dfk.Http.HeadReport
import Dfk.Http.HeaderRoom
import Dfk.Http.HeaderAllocations
import Dfk.Http.HeaderLimits
import Dfk.UrlEncoding.SharedMemory
import Dfk.TcpSocket.VectoredIo
import Dfk.TcpSocket.Connect
import Dfk.Heap
import Dfk.Sponge.Source
import Dfk.Sponge.ByteStream
import Dfk.Arena.Alignment
import Dfk.Arena.Linked
import Dfk.Arena.Release
import Dfk.StrMap.ItemSource
import Dfk.StrMap.ItemCopies
import Dfk.TcpSocket.AcceptLoop
import Dfk.Scheduler.WorkResult
import Dfk.LinkedList.SurvivingIterators
import Dfk.Portable.Memmem
import Dfk.Strtoll
import Dfk.Http.QuerySlices
import Dfk.Signal.Source
import Dfk.Signal.WokenFibers
import Dfk.Signal.Registrations
import Dfk.Middleware.FileCopy
import Dfk.Library.Passes
import Dfk.Schedprof.Simulator
import Dfk.Schedprof.Dispatching
import Dfk.Schedprof.MutexWaiters
import Dfk.Schedprof.TimeAccounting
import Dfk.Schedprof.Progress
import Dfk.Schedprof.ElapsedTime
import Dfk.Library.Transducer
import Dfk.Library.Markup
import Dfk.Library.MarkupText
import Dfk.Library.MarkupElements
import Dfk.Middleware.Listing
import Dfk.Middleware.ListingMarkup
import Dfk.Http.RequestBoundaries
import Dfk.Http.ConnectionOutput
import Dfk.Library.TwoPointers
import Dfk.LinkedList.InvariantChecks
import Dfk.AvlTree.InvariantChecks
import Dfk.EventLoop.Epoll
import Dfk.EventLoop.EpollWaitSet
import Dfk.EventLoop.SelectLoop
import Dfk.EventLoop.SelectSimulation
import Dfk.Library.AvlHeight
import Dfk.AvlTree.SearchDepth
import Dfk.Middleware.Handling
import Dfk.Middleware.HandlingReturns
import Dfk.Middleware.FileService
