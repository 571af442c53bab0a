import LibMsf.Base.AsyncLogging
import LibMsf.Base.BarrierExclusion
import LibMsf.Base.Barriers
import LibMsf.Base.Base16Canonical
import LibMsf.Base.Base32Ranges
import LibMsf.Base.Base32RoundTrip
import LibMsf.Base.Base64
import LibMsf.Base.Base64Agreement
import LibMsf.Base.Base64RoundTrip
import LibMsf.Base.BatchWrites
import LibMsf.Base.BestFit
import LibMsf.Base.Bloom
import LibMsf.Base.BloomMembership
import LibMsf.Base.BoundedCopy
import LibMsf.Base.Buffer
import LibMsf.Base.BufferFifo
import LibMsf.Base.BufferLayout
import LibMsf.Base.BufferRefinement
import LibMsf.Base.Calendar
import LibMsf.Base.ChildEnvironment
import LibMsf.Base.CircularFifo
import LibMsf.Base.CircularLogging
import LibMsf.Base.Coroutine
import LibMsf.Base.Date
import LibMsf.Base.Encoding
import LibMsf.Base.EpochSeconds
import LibMsf.Base.FileContents
import LibMsf.Base.FileDetails
import LibMsf.Base.FilePosition
import LibMsf.Base.FileReading
import LibMsf.Base.FlowCtrl
import LibMsf.Base.FullTransfer
import LibMsf.Base.Latch
import LibMsf.Base.LatchWaits
import LibMsf.Base.LocalTime
import LibMsf.Base.LogConservation
import LibMsf.Base.LogDrain
import LibMsf.Base.LogFile
import LibMsf.Base.LogFormat
import LibMsf.Base.LogOrder
import LibMsf.Base.LogStream
import LibMsf.Base.LruCache
import LibMsf.Base.LruRefinement
import LibMsf.Base.MallocSize
import LibMsf.Base.MemPool
import LibMsf.Base.MemPoolBlocks
import LibMsf.Base.MemPoolConservation
import LibMsf.Base.PoolShutdown
import LibMsf.Base.SafeNumbers
import LibMsf.Base.Shm
import LibMsf.Base.ShmExclusion
import LibMsf.Base.ShmHandle
import LibMsf.Base.ShortWrites
import LibMsf.Base.Splitting
import LibMsf.Base.StringUtils
import LibMsf.Base.TaskQueue
import LibMsf.Base.Termination
import LibMsf.Base.ThreadPool
import LibMsf.Base.TimeZone
import LibMsf.Base.UrlRoundTrip
import LibMsf.Base.UtcTime
import LibMsf.Base.Utils
import LibMsf.Base.ZoneDecoding
import LibMsf.Base.ZoneFile
import LibMsf.Base.ZoneReading
import LibMsf.Base.ZoneRobustness
import LibMsf.Cxx.Exceptions
import LibMsf.Cxx.Files
import LibMsf.Cxx.Halt
import LibMsf.Cxx.Integers
import LibMsf.Cxx.Memory
import LibMsf.Cxx.NetworkOrder
import LibMsf.Cxx.Numbers
import LibMsf.Cxx.Semaphores
import LibMsf.Cxx.Strings
import LibMsf.Event.EPollPoller
import LibMsf.Event.EPollRegistration
import LibMsf.Event.EventLoop
import LibMsf.Event.HeapTimer
import LibMsf.Event.PendingFunctors
import LibMsf.Event.PollIndices
import LibMsf.Event.PollPoller
import LibMsf.Event.PollTimeout
import LibMsf.Event.Poller
import LibMsf.Event.TimerFiring
import LibMsf.Event.TimerLoop
import LibMsf.Fraft.DataTree
import LibMsf.Fraft.FileOrder
import LibMsf.Fraft.HostileImage
import LibMsf.Fraft.LastGxid
import LibMsf.Fraft.LogIterator
import LibMsf.Fraft.LogPaths
import LibMsf.Fraft.LogReading
import LibMsf.Fraft.LogRoundTrip
import LibMsf.Fraft.LogSegments
import LibMsf.Fraft.SnapDecoders
import LibMsf.Fraft.SnapLog
import LibMsf.Fraft.SnapRecovery
import LibMsf.Fraft.SortFiles
import LibMsf.Fraft.TornLog
import LibMsf.Fraft.TransactionLog
import LibMsf.Fraft.TreeImage
import LibMsf.Fraft.TreeInvariant
import LibMsf.Fraft.TreeLinks
import LibMsf.Fraft.TreePaths
import LibMsf.Fraft.TreeReload
import LibMsf.Fraft.TreeRoundTrip
import LibMsf.Frpc.CallCompletion
import LibMsf.Frpc.Channel
import LibMsf.Frpc.FrameBlocks
import LibMsf.Frpc.Framing
import LibMsf.Frpc.Message
import LibMsf.Frpc.PendingRequests
import LibMsf.Frpc.ReceiveBound
import LibMsf.Frpc.Server
import LibMsf.Frpc.ServerFraming
import LibMsf.Frpc.Turns
import LibMsf.Library.Assignment
import LibMsf.Library.BitTable
import LibMsf.Library.Bits
import LibMsf.Library.Census
import LibMsf.Library.Codec
import LibMsf.Library.Gregorian
import LibMsf.Library.Interleaving
import LibMsf.Library.LinkedList
import LibMsf.Library.Loop
import LibMsf.Library.Occurrence
import LibMsf.Library.OnesComplement
import LibMsf.Library.Path
import LibMsf.Library.PriorityQueue
import LibMsf.Library.Radix64
import LibMsf.Library.Records
import LibMsf.Library.Rewriting
import LibMsf.Library.Ring
import LibMsf.Library.Rotation
import LibMsf.Library.Run
import LibMsf.Library.Staircase
import LibMsf.Library.Threshold
import LibMsf.Library.Tiling
import LibMsf.Sock.Connection
import LibMsf.Sock.FdMessage
import LibMsf.Sock.IovecHandover
import LibMsf.Sock.PingUtils
import LibMsf.Sock.WriteLoss
import LibMsf.Stun.FifoBuffer
import LibMsf.Stun.FifoQueue
import LibMsf.Stun.FifoTape
import LibMsf.Stun.PseudoTcp
import LibMsf.Stun.PseudoTcpAcks
import LibMsf.Stun.PseudoTcpCalls
import LibMsf.Stun.PseudoTcpClock
import LibMsf.Stun.PseudoTcpInput
import LibMsf.Stun.PseudoTcpInvariant
import LibMsf.Stun.PseudoTcpNetwork
import LibMsf.Stun.PseudoTcpPackets
import LibMsf.Stun.PseudoTcpProcess
import LibMsf.Stun.PseudoTcpQueue
import LibMsf.Stun.PseudoTcpReceiving
import LibMsf.Stun.PseudoTcpSafety
import LibMsf.Stun.PseudoTcpSendLoop
import LibMsf.Stun.PseudoTcpSending
import LibMsf.Stun.PseudoTcpSteps
import LibMsf.Stun.PseudoTcpTransmit
import LibMsf.Upnp.NatMap
import LibMsf.Upnp.PortInvariant
import LibMsf.Upnp.PortRequests
