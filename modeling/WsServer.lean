import WsServer.Buffer.Fifo
import WsServer.Buffer.Reclaim
import WsServer.Connection.Arming
import WsServer.Connection.CloseOption
import WsServer.Connection.Closing
import WsServer.Connection.Counters
import WsServer.Connection.EdgeTriggered
import WsServer.Connection.Oracle
import WsServer.Connection.Turns
import WsServer.Lib.History
import WsServer.Lib.Ledger
import WsServer.Lib.LexicalPath
import WsServer.Lib.Lossy
import WsServer.Lib.Memory
import WsServer.Lib.RoundRobin
import WsServer.Lib.SelfDelimiting
import WsServer.Lib.SignedWord
import WsServer.Logger.Closes
import WsServer.Logger.Conservation
import WsServer.Logger.Failures
import WsServer.Logger.Line
import WsServer.Logger.SizeBound
import WsServer.Loop.Quit
import WsServer.Model.MemoryPool
import WsServer.Model.Reactor
import WsServer.Model.Reactors
import WsServer.Model.Server
import WsServer.Model.Shutdown
import WsServer.Model.Timers
import WsServer.Model.TlsPools
import WsServer.Parser.Grammar
import WsServer.Parser.HeaderCount
import WsServer.Parser.LineLength
import WsServer.Parser.Retention
import WsServer.Pool.ChunkArithmetic
import WsServer.Pool.Classes
import WsServer.Pool.Growth
import WsServer.Pool.Threads
import WsServer.Reactor.Accounts
import WsServer.Reactor.IdleTimers
import WsServer.Reactor.TidyTimers
import WsServer.Reactors.Accounting
import WsServer.Reactors.EachLoop
import WsServer.Reactors.Limit
import WsServer.Reactors.Ownership
import WsServer.Reactors.Projection
import WsServer.Reactors.RoundRobin
import WsServer.Reactors.Shutdown
import WsServer.Reactors.Statistics
import WsServer.Reactors.TidyTimers
import WsServer.Server.ActiveConnections
import WsServer.Server.DocRoot
import WsServer.Server.EndToEnd
import WsServer.Server.Mirror
import WsServer.Timer.Cancelled
import WsServer.Timer.Timeout
import WsServer.Lib.Liveness
import WsServer.Reactors.Input
import WsServer.Reactors.Rounds
