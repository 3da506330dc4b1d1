import ActionDB.Found.Area
import ActionDB.Net.Codec.Buffer
import ActionDB.Net.Codec.Decode
import ActionDB.Net.Codec.TcpRead
import ActionDB.Net.Codec.Lex
import ActionDB.Net.Codec.Head
import ActionDB.Net.Codec.Rows
import ActionDB.Net.Codec.Receive
import ActionDB.Net.Codec.Frame
import ActionDB.Net.Codec.Batch
import ActionDB.Net.Codec.Fragment
import ActionDB.Net.Codec.Failing
import ActionDB.Net.Codec.Stops
import ActionDB.Net.Codec.Fields
import ActionDB.Net.Codec.Declared
import ActionDB.Net.Codec.Positions
import ActionDB.Net.Codec.Limit
import ActionDB.Net.Codec.Copies
import ActionDB.Found.Known
import ActionDB.Net.Codec.Leak
import ActionDB.Found.KeyValue
import ActionDB.Kernel.Store
import ActionDB.Net.Reply
import ActionDB.Net.Write
import ActionDB.Found.Heap
import ActionDB.Found.RedBlack
import ActionDB.Net.Conn.RbTree
import ActionDB.Net.Conn.Rep
import ActionDB.Net.Conn.Rebalance
import ActionDB.Net.Conn.SearchTree
import ActionDB.Net.Conn.Table
import ActionDB.Net.Conn.Cells
import ActionDB.Net.Conn.Teardown
import ActionDB.Net.Event.Loop
import ActionDB.Net.Event.Bounds
import ActionDB.Net.Event.Register
import ActionDB.Net.Callback
import ActionDB.Net.Accept
import ActionDB.Net.Event.Agree
import ActionDB.Found.Spread
import ActionDB.Net.Sockets
import ActionDB.Net.Conn.Buffers
import ActionDB.Found.Height
import ActionDB.Net.Conn.Depth
import ActionDB.Net.Conn.Race
import ActionDB.Net.Event.Poll
import ActionDB.Net.Session
import ActionDB.Threads.Start
import ActionDB.Threads.Process
import ActionDB.Threads.Worker
import ActionDB.Threads.Interleave
import ActionDB.Threads.Safety
import ActionDB.Threads.Clients
import ActionDB.Threads.Protocol
import ActionDB.Found.Leads
import ActionDB.Threads.MainLoop
import ActionDB.Threads.Accept
import ActionDB.Threads.Answers
import ActionDB.Threads.LoadTest
import ActionDB.Threads.Listen
import ActionDB.Threads.Shutdown
import ActionDB.Threads.Timer
