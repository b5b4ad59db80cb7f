import LowLatency.Library.Runs
import LowLatency.Library.Words
import LowLatency.Library.RingWindow
import LowLatency.Library.BoundedFifo
import LowLatency.Library.ByteBuffer
import LowLatency.Library.Handles
import LowLatency.Library.Forests
import LowLatency.LFQueue.Steps
import LowLatency.LFQueue.Refinement
import LowLatency.LFQueue.Exclusion
import LowLatency.MemPool.Pool
import LowLatency.MemPool.FreeSearch
import LowLatency.MemPool.Refinement
import LowLatency.MemPool.Lifetimes
import LowLatency.MemPool.Reversal
import LowLatency.MemPool.Nesting
import LowLatency.MemPool.Ownership
import LowLatency.Logger.Format
import LowLatency.Logger.Threads
import LowLatency.Logger.Language
import LowLatency.Logger.Strings
import LowLatency.SocketUtils.Calls
import LowLatency.SocketUtils.CreateSocket
import LowLatency.TCPSocket.Socket
import LowLatency.TCPSocket.Buffers
import LowLatency.TCPSocket.Link
import LowLatency.TCPSocket.Reuse
import LowLatency.TCPSocket.Ranges
import LowLatency.TCPServer.Server
import LowLatency.TCPServer.Resources
import LowLatency.TCPServer.Operations
import LowLatency.TCPServer.Invariant
import LowLatency.TCPServer.Poll
import LowLatency.TCPServer.Rounds
import LowLatency.TCPServer.Ownership
import LowLatency.TCPServer.Service
import LowLatency.TCPServer.Listener
import LowLatency.TCPServer.Clients
import LowLatency.TCPServer.Replies
import LowLatency.TCPServer.Defaults
import LowLatency.TCPServer.Input
import LowLatency.TCPServer.Closing
import LowLatency.Library.Fairness
import LowLatency.Logger.Machine
import LowLatency.Logger.Liveness
import LowLatency.TCPServer.Reuse
import LowLatency.ThreadUtils.Start
import LowLatency.TCPServer.Isolation
import LowLatency.TCPSocket.Delivery
import LowLatency.TCPServer.Network
import LowLatency.Library.Decimal
import LowLatency.TimeUtils.TimeString
import LowLatency.TCPServer.Progress
import LowLatency.TCPServer.Table
import LowLatency.TCPServer.Refinement
import LowLatency.TCPServer.Disconnection
