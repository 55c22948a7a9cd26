import ZjhServer.Address.Text
import ZjhServer.ByteArray.File
import ZjhServer.ByteArray.Strings
import ZjhServer.Hook.Connect
import ZjhServer.Hook.Reuse
import ZjhServer.Hook.Sleep
import ZjhServer.Hook.Timeout
import ZjhServer.Http.Accessors
import ZjhServer.Http.Dump
import ZjhServer.Http.Hooked
import ZjhServer.Http.Limits
import ZjhServer.Http.Method
import ZjhServer.Http.Pipeline
import ZjhServer.Http.RoundTrip
import ZjhServer.Http.Servlet
import ZjhServer.Http.Storage
import ZjhServer.HttpClient.Chunk
import ZjhServer.HttpClient.Replies
import ZjhServer.IOManager.Dispatch
import ZjhServer.IOManager.Registrations
import ZjhServer.IOManager.Table
import ZjhServer.IOManager.Wakeups
import ZjhServer.Log.File
import ZjhServer.Log.Format
import ZjhServer.Mutex.Guards
import ZjhServer.Scheduler.Current
import ZjhServer.Scheduler.Fibers
import ZjhServer.Scheduler.Pool
import ZjhServer.Scheduler.Shutdown
import ZjhServer.Scheduler.Tasks
import ZjhServer.Stream.FixSize
import ZjhServer.Tcp.Accept
import ZjhServer.Tcp.Socket
import ZjhServer.Timer.Expire
import ZjhServer.Timer.Handle
import ZjhServer.Timer.Poll
