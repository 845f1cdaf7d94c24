import Blueth.Scan.Machine
import Blueth.Scan.Windows
import Blueth.Scan.Words
import Blueth.Io.IOBuffer
import Blueth.Http.ParserCommon
import Blueth.Http.Headers
import Blueth.Http.Message
import Blueth.Io.BufferScan
import Blueth.Http.RequestParser
import Blueth.Http.HeaderBlock
import Blueth.Http.RequestHead
import Blueth.Http.RequestRuns
import Blueth.Http.RequestRoundTrip
import Blueth.Http.ResponseParser
import Blueth.Http.ResponseHead
import Blueth.Http.ResponseRuns
import Blueth.Http.ResponseRoundTrip
import Blueth.Http.HeaderValues
import Blueth.Http.HeadSoundness
import Blueth.Http.WindowOnly
import Blueth.Transition.System
import Blueth.Io.RawBuffer
import Blueth.Io.ByteQueue
import Blueth.Io.BufferObjects
import Blueth.Concurrency.PeerIo
import Blueth.Concurrency.EventLoop
import Blueth.Concurrency.PeerLifeCycle
import Blueth.Concurrency.EventDispatch
import Blueth.Transition.Fairness
import Blueth.Concurrency.ThreadPool
import Blueth.Concurrency.ThreadPoolWork
import Blueth.Concurrency.ThreadPoolWakeups
import Blueth.Concurrency.ThreadPoolProgress
import Blueth.Concurrency.ThreadPoolShutdown
import Blueth.Scan.Memory
import Blueth.Utils.Simd
import Blueth.Scan.Cuts
import Blueth.Codec.LineBasedFrameDecoder
import Blueth.Codec.LineFrames
import Blueth.Codec.NewLineFrames
import Blueth.Codec.FrameReads
import Blueth.Http.RequestRecords
import Blueth.Utils.Base64
import Blueth.Net.NetworkStream
import Blueth.Http.HTTPProxy
import Blueth.Net.SyncNetworkStreamClient
import Blueth.Http.ProxyHandshake
import Blueth.Http.ProxyFlag
import Blueth.Http.ProxyTunnel
import Blueth.Transition.FirstWins
import Blueth.Http.HeaderHistory
import Blueth.Http.StatusLine
import Blueth.Http.ResponseReserialised
import Blueth.Net.SyncNetworkStreamClientSSL
import Blueth.Net.StreamReads
import Blueth.Net.MovedOutBuffer
import Blueth.Net.Socket
import Blueth.Containers.Block
import Blueth.Containers.Vector
import Blueth.Containers.PushFront
import Blueth.Http.ResponseTemplates
import Blueth.Io.GetOffset
import Blueth.Utils.UnixTime
import Blueth.Transition.Guarded
import Blueth.Transition.Simulation
import Blueth.Concurrency.MutexSynchronize
import Blueth.Concurrency.ThreadSafeQueue
import Blueth.Http.ConnectRequest
import Blueth.Concurrency.PeerScan
import Blueth.Http.PeerMessages
import Blueth.Concurrency.ThreadPoolOrder
import Blueth.Concurrency.ThreadPoolReturns
import Blueth.Http.ResponseReadBack
import Blueth.Net.ClientDescriptors
import Blueth.Concurrency.PeerSessions
import Blueth.Http.ServedRequests
import Blueth.Io.BufferBlocks
