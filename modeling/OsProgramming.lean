import OsProgramming.Reactor.EchoServer
import OsProgramming.Reactor.LoopCast
import OsProgramming.Reactor.PollRegistry
import OsProgramming.Reactor.StaleOperations
import OsProgramming.Reactor.Backends
import OsProgramming.Stream.Message
import OsProgramming.Stream.LineCalls
import OsProgramming.Stream.Transfer
import OsProgramming.Stream.HostileMessage
import OsProgramming.Stream.StreamServer
import OsProgramming.Servers.BlockQueue
import OsProgramming.Servers.ThreadsServer
import OsProgramming.Servers.Isolation
import OsProgramming.Servers.PingServer
import OsProgramming.Ipc.TwoSemaphore
import OsProgramming.Reactor.WakeUp
import OsProgramming.Reactor.FailedConnections
import OsProgramming.Reactor.EpollRegistry
import OsProgramming.Reactor.ClientDescriptors
import OsProgramming.Reactor.BufferFailures
import OsProgramming.Reactor.BufferSearch
import OsProgramming.Reactor.FdGuards
import OsProgramming.Reactor.PollDelivery
import OsProgramming.Stream.LineCapacity
import OsProgramming.Servers.NioBuffer
import OsProgramming.Servers.NioPass
import OsProgramming.Reactor.ReadFailures
import OsProgramming.Reactor.CallbackData
import OsProgramming.Reactor.WriteCompleted
import OsProgramming.Servers.EpollDrain
import OsProgramming.Servers.EpollEcho
import OsProgramming.Servers.PingClient
import OsProgramming.Reactor.MapGrowth
import OsProgramming.Stream.ReadnCount
import OsProgramming.Servers.NioTable
import OsProgramming.Reactor.Names
import OsProgramming.Reactor.ThreadStart
import OsProgramming.Library.Records
import OsProgramming.Reactor.CallsReturn
import OsProgramming.Stream.LineEcho
import OsProgramming.Servers.ForkServer
import OsProgramming.Servers.PollServer
import OsProgramming.Tlpi.PidFile
import OsProgramming.Library.Text
import OsProgramming.Ipc.MessageQueue
import OsProgramming.Io.ListFile
import OsProgramming.Tlpi.BinarySems
import OsProgramming.Servers.GraceShutdown
import OsProgramming.Library.Numeral
import OsProgramming.Tlpi.GetNum
import OsProgramming.Servers.UdpEcho
import OsProgramming.Library.Descriptors
import OsProgramming.Tlpi.Sockets
import OsProgramming.Tlpi.PtyFork
import OsProgramming.Tlpi.BecomeDaemon
import OsProgramming.Tlpi.ItimerSpec
import OsProgramming.Tlpi.ReadLine
import OsProgramming.Tlpi.Rdwrn
import OsProgramming.Servers.UdpConnect
import OsProgramming.Servers.ConnectedEcho
import OsProgramming.Io.ErrorText
import OsProgramming.Servers.SelectClient
