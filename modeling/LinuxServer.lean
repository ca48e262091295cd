import LinuxServer.Lib.System
import LinuxServer.Lib.Fault
import LinuxServer.Lib.Escape
import LinuxServer.Lib.DList
import LinuxServer.Lib.KeyOrder
import LinuxServer.Lib.Loop
import LinuxServer.Lib.CString
import LinuxServer.Lib.CInt
import LinuxServer.Lib.Printf
import LinuxServer.Lib.StdString
import LinuxServer.Lib.Semaphore
import LinuxServer.Lib.Path
import LinuxServer.Lib.SqlText
import LinuxServer.Lib.BoundedQueue
import LinuxServer.Lib.Decimal
import LinuxServer.Lib.Getopt
import LinuxServer.Lib.Inet
import LinuxServer.Timer.List
import LinuxServer.Timer.Refine
import LinuxServer.Timer.Calls
import LinuxServer.Timer.Queue
import LinuxServer.WebServer.MainLoop
import LinuxServer.WebServer.Connections
import LinuxServer.WebServer.Pool
import LinuxServer.WebServer.Armed
import LinuxServer.WebServer.Listen
import LinuxServer.WebServer.Handshake
import LinuxServer.CGImysql.ConnectionPool
import LinuxServer.CGImysql.Workers
import LinuxServer.CGImysql.Destroy
import LinuxServer.Threadpool.WorkQueue
import LinuxServer.Http.Conn
import LinuxServer.Http.Parse
import LinuxServer.Http.Lines
import LinuxServer.Http.Resume
import LinuxServer.Http.Receive
import LinuxServer.Http.ReadLoop
import LinuxServer.Http.Cursors
import LinuxServer.Http.Terminator
import LinuxServer.Http.ReadOnce
import LinuxServer.Http.Head
import LinuxServer.Http.Body
import LinuxServer.Http.Deliver
import LinuxServer.Http.Chunks
import LinuxServer.Http.Get
import LinuxServer.Http.RequestLine
import LinuxServer.Http.RootPage
import LinuxServer.Http.Response
import LinuxServer.Http.Builder
import LinuxServer.Http.Write
import LinuxServer.Http.DoRequest
import LinuxServer.Http.LocalPath
import LinuxServer.Http.Users
import LinuxServer.Http.Register
import LinuxServer.Http.Reading
import LinuxServer.Http.Fields
import LinuxServer.Http.Insert
import LinuxServer.Http.Process
import LinuxServer.Http.Rounds
import LinuxServer.Http.Framing
import LinuxServer.Http.Confined
import LinuxServer.Http.Session
import LinuxServer.Http.FileName
import LinuxServer.Http.KeepAlive
import LinuxServer.Http.Stages
import LinuxServer.Http.Progress
import LinuxServer.Http.Slot
import LinuxServer.Http.Reuse
import LinuxServer.Http.Mapping
import LinuxServer.HttpServer.Parser
import LinuxServer.HttpServer.Chunks
import LinuxServer.HttpServer.Headers
import LinuxServer.HttpServer.Headline
import LinuxServer.HttpServer.ContentLength
import LinuxServer.HttpServer.Serve
import LinuxServer.HttpServer.Respond
import LinuxServer.Log.BlockQueue
import LinuxServer.Log.Peek
import LinuxServer.Log.TimedPop
import LinuxServer.Log.WriteLog
import LinuxServer.Log.LineBuffer
import LinuxServer.Log.Rotation
import LinuxServer.CppServer.Epoll
import LinuxServer.CppServer.EventLoop
import LinuxServer.CppServer.ThreadPool
import LinuxServer.CppServer.Start
import LinuxServer.CppServer.Connection
import LinuxServer.CppServer.Teardown
import LinuxServer.CppServer.Connections
import LinuxServer.CppServer.Establish
import LinuxServer.CppServer.Send
import LinuxServer.CppServer.Echo
import LinuxServer.CppServer.Drain
import LinuxServer.CppServer.Dispatch
import LinuxServer.CppServer.Session
import LinuxServer.CppServer.Completion
import LinuxServer.CppServer.InetAddress
import LinuxServer.WebServer.Slots
import LinuxServer.WebServer.Signals
import LinuxServer.WebServer.Shutdown
import LinuxServer.WebServer.Ticks
import LinuxServer.WebServer.Logged
import LinuxServer.WebServer.Lifetime
import LinuxServer.WebServer.Config
import LinuxServer.WebServer.Startup
import LinuxServer.WebServer.Proactor
import LinuxServer.MiniSelect.SelectLoop
