import ActionDB.Kernel.Store
import ActionDB.Net.Conn.Buffers
import ActionDB.Net.Event.Agree
import ActionDB.Net.Event.Poll
import ActionDB.Net.Session

/-!
# The threads of the process

The server as it runs: the accept thread, and any number of workers that share one store. A worker
runs `mainLoop` of `threads/threads.c`: it polls, and for every event that fired calls
`tcpReadCallback`, which calls `tcpRead`, which executes commands. The accept thread hands each new
connection to a worker. Every thread may stop after each step and let the others run; a step is

* for the accept thread: `accept(2)` with the choice of a worker, `createFileEvent`,
  `aePollAddEvent`, `newConn`;
* for a worker (`Work`): a poll, the test of an event, the look-up of its connection, one `read(2)`,
  one message decoded and executed, the end of the inner loop, `deleteFileEvent`, `freeConn`.

The worker that a connection is given to is any of them: `minconnsindex` reads the counts of workers
that are running. As in `Net.Event`, `accept` returns a descriptor below `setsize` that is not open,
`epoll_create` succeeds, `epoll_ctl` fails only as `epollCtl` says, and the missing result of
`aePollDeleteEvent` is not `-1`.

What the model leaves out:

* **A step is taken as a whole.** For `newConn` and `freeConn` this is an assumption: `connLock` is
  held in `freeConn` only, so that the two may run at the same time on the tree of one worker.
  `Net.Conn.Race` says what follows then.
* **A step that would not return is no step**: when an access faults, an assertion fails, the log
  call behind a failed `epoll_ctl` runs into its missing argument, or the client sends `shutdown`,
  the run ends there. So it does when a reply is written to a client that has gone and `SIGPIPE`
  kills the process.
* **A reply is a call of `replay`.** The result of its `write(2)` is not looked at, by the code as
  by the model.

`History` records what happened. Connections are numbered in the order in which they were made.
-/

namespace ActionDB.Threads

open ActionDB.Found ActionDB.Kernel ActionDB.Net ActionDB.Net.Codec ActionDB.Net.Conn
open ActionDB.Net.Event

variable {n k : ℕ} {σ : Type}

/-! ## What has happened -/

/-- What has happened so far. No step looks at it. -/
structure History where
  /-- The number of connections that were made. -/
  count : ℕ
  /-- The number of the latest connection of a descriptor. -/
  conn : Int → ℕ
  /-- The results of the reads of a connection. -/
  reads : ℕ → List ReadResult
  /-- The messages that were executed, each with its connection and the `argv` it left. -/
  messages : List (ℕ × Area Byte argvSize)
  /-- The replies, each with its connection. -/
  replies : List (ℕ × List Byte)

namespace History

def empty : History := ⟨0, fun _ => 0, fun _ => [], [], []⟩

/-- A connection is made for the descriptor. -/
def connected (H : History) (fd : Int) : History :=
  { H with count := H.count + 1, conn := Function.update H.conn fd H.count }

/-- A read on the descriptor has this result. -/
def received (H : History) (fd : Int) (x : ReadResult) : History :=
  { H with reads := Function.update H.reads (H.conn fd) (H.reads (H.conn fd) ++ [x]) }

/-- A message from the descriptor is executed. -/
def executed (H : History) (fd : Int) (argv : Area Byte argvSize) (reply : Option (List Byte)) :
    History :=
  { H with
    messages := H.messages ++ [(H.conn fd, argv)]
    replies := H.replies ++ reply.toList.map fun text => (H.conn fd, text) }

/-- The messages of one connection. -/
def messagesOf (H : History) (c : ℕ) : List (Area Byte argvSize) :=
  (H.messages.filter fun m => m.1 = c).map Prod.snd

end History

/-- The store that all workers use, and the history. -/
structure Shared (σ : Type) where
  store : σ
  history : History

/-! ## A worker -/

/-- Where a worker is. -/
inductive Pc where
  /-- In `mainLoop`, at `aePollPoll`. -/
  | polling
  /-- In `mainLoop`; these events are still to be dispatched. -/
  | firing (fired : List (Int × Mask))
  /-- In `tcpRead`, at its `read(2)`. The buffer of the connection is at `buf`. -/
  | reading (fd : Int) (mask : Mask) (buf : Ptr) (fired : List (Int × Mask))
  /-- In `tcpRead`, in the loop that decodes and dispatches. -/
  | dispatching (fd : Int) (mask : Mask) (buf : Ptr) (fired : List (Int × Mask))
  /-- In `tcpReadCallback`; `tcpRead` has returned 0. -/
  | eof (fd : Int) (mask : Mask) (fired : List (Int × Mask))
  /-- In `tcpReadCallback`; `deleteFileEvent` has returned. -/
  | deleted (fd : Int) (fired : List (Int × Mask))

/-- Where `tcpRead` goes with the result of a `read(2)`.
Source: `net/tcpsocket.c`, `tcpRead`, lines 53-57, and `tcpReadCallback`. -/
def Pc.afterRead (fd : Int) (mask : Mask) (buf : Ptr) (fired : List (Int × Mask)) :
    ReadResult → Pc
  | .eof => .eof fd mask fired
  | .again => .firing fired
  | _ => .dispatching fd mask buf fired

/-- A worker thread: its event loop, its connections, and where it is. -/
structure Thread (n : ℕ) where
  loop : EventLoop n
  table : Table
  pc : Pc

/-- The event at the head of `fired` passes the test of `mainLoop`, and the callback that is called
is `tcpReadCallback`. Source: `threads/threads.c`, `mainLoop`, lines 59-67. -/
structure Thread.Calls (w : Thread n) (fd : Int) (mask : Mask) (fired : List (Int × Mask)) :
    Prop where
  pc : w.pc = .firing ((fd, mask) :: fired)
  test : ∃ i, at? n fd = .ok i ∧ ((w.loop.fEvents i).mask &&& mask).has READABLE ∧
    (w.loop.fEvents i).rfileProc = some .tcpReadCallback

/-- A buffer of the table is changed from `b` to `b'`, in place. -/
structure Changes (T : Table) (buf : Ptr) (b b' : Buffer) (T' : Table) : Prop where
  load : T.bufs.load buf = .ok b
  store : writeBuffer T buf b' = .ok T'

section Work

variable (db : KvStore σ (List Byte) (List Byte))

/-- **The steps of a worker.** Source: `threads/threads.c`, `mainLoop`, and `net/tcpsocket.c`,
`tcpReadCallback` and `tcpRead`. -/
inductive Work : Thread n → Shared σ → Thread n → Shared σ → Prop
  | poll {w : Thread n} {S : Shared σ} {answer : Option (List EpollEvent)}
      {fired : List (Int × Mask)} (hpc : w.pc = .polling)
      (hreports : Reports w.loop.epoll n answer) (hcall : aePollPoll n answer = .ok fired) :
      Work w S { w with pc := .firing fired } S
  /-- The event has been removed by now, or is not a read event. -/
  | skip {w : Thread n} {S : Shared σ} {fd : Int} {mask : Mask} {fired : List (Int × Mask)}
      {i : Fin n} (hpc : w.pc = .firing ((fd, mask) :: fired)) (hindex : at? n fd = .ok i)
      (hmask : ¬((w.loop.fEvents i).mask &&& mask).has READABLE) :
      Work w S { w with pc := .firing fired } S
  /-- `tcpReadCallback` finds no connection for the descriptor. -/
  | unknown {w : Thread n} {S : Shared σ} {fd : Int} {mask : Mask} {fired : List (Int × Mask)}
      (htest : w.Calls fd mask fired) (hcall : bufferOf w.table fd = .ok none) :
      Work w S { w with pc := .firing fired } S
  /-- `tcpReadCallback` finds the connection, and calls `tcpRead`. -/
  | call {w : Thread n} {S : Shared σ} {fd : Int} {mask : Mask} {fired : List (Int × Mask)}
      {buf : Ptr} {b b' : Buffer} {table : Table} (htest : w.Calls fd mask fired)
      (hcall : bufferOf w.table fd = .ok (some buf)) (hprep : prepare b = .ok b')
      (hbuf : Changes w.table buf b b' table) :
      Work w S { w with table, pc := .reading fd mask buf fired } S
  /-- A `read(2)`, of at most the bytes that are asked for. -/
  | recv {w : Thread n} {S : Shared σ} {fd : Int} {mask : Mask} {fired : List (Int × Mask)}
      {buf : Ptr} {b b' : Buffer} {table : Table} {x : ReadResult}
      (hpc : w.pc = .reading fd mask buf fired) (hfits : x.Fits b)
      (hrecv : (prepare b).bind (receive · x) = .ok b') (hbuf : Changes w.table buf b b' table) :
      Work w S { w with table, pc := .afterRead fd mask buf fired x }
        { S with history := S.history.received fd x }
  /-- A message is decoded and executed. -/
  | command {w : Thread n} {S : Shared σ} {fd : Int} {mask : Mask} {fired : List (Int × Mask)}
      {buf : Ptr} {b b' : Buffer} {table : Table} {ret : Int} {reply : Option (List Byte)}
      {store : σ} (hpc : w.pc = .dispatching fd mask buf fired)
      (hdecod : decod .record b = .ok (ret, b'))
      (hflag : ¬(b'.parseFlag = 1 ∨ b'.parseFlag = -1))
      (hserve : serveMessage db S.store b'.argv = .ok (reply, store))
      (hbuf : Changes w.table buf b b' table) :
      Work w S { w with table } ⟨store, S.history.executed fd b'.argv reply⟩
  /-- There is no message any more. -/
  | drained {w : Thread n} {S : Shared σ} {fd : Int} {mask : Mask} {fired : List (Int × Mask)}
      {buf : Ptr} {b b' : Buffer} {table : Table} (hpc : w.pc = .dispatching fd mask buf fired)
      (hdone : Drained b b') (hbuf : Changes w.table buf b b' table) :
      Work w S { w with table, pc := .reading fd mask buf fired } S
  | deleteFileEvent {w : Thread n} {S : Shared σ} {fd ret : Int} {mask : Mask}
      {fired : List (Int × Mask)} {r : Option Int} {loop : EventLoop n}
      (hpc : w.pc = .eof fd mask fired) (hret : ret ≠ -1)
      (hcall : deleteFileEvent w.loop fd mask ret = .ok (r, loop)) :
      Work w S { w with loop, pc := .deleted fd fired } S
  | freeConn {w : Thread n} {S : Shared σ} {fd ret : Int} {fired : List (Int × Mask)}
      {table : Table} (hpc : w.pc = .deleted fd fired)
      (hcall : freeConn w.table fd = .ok (ret, table)) :
      Work w S { w with table, pc := .firing fired } S
  | done {w : Thread n} {S : Shared σ} (hpc : w.pc = .firing []) :
      Work w S { w with pc := .polling } S

end Work

/-! ## The process -/

/-- Where the accept thread is, with the worker it has chosen and the descriptor. -/
inductive AcceptPc (k : ℕ) where
  | idle
  /-- `accept(2)` has returned. -/
  | accepted (i : Fin k) (fd : Int)
  /-- `createFileEvent` has returned. -/
  | created (i : Fin k) (fd : Int)
  /-- `aePollAddEvent` has returned. -/
  | added (i : Fin k) (fd : Int)

/-- The workers, the accept thread, the descriptors, and what the workers share. -/
structure Process (n k : ℕ) (σ : Type) where
  workers : Fin k → Thread n
  accept : AcceptPc k
  /-- The descriptors that are open. -/
  opened : Finset Int
  /-- Those of them that are sockets of the server. The code closes none of them. -/
  sockets : Finset Int
  shared : Shared σ

namespace Process

/-- The process when the threads start. Source: `server.cc`, `main`. -/
def init (n k : ℕ) (store : σ) : Process n k σ where
  workers := fun _ => ⟨createEventLoop n, .empty, .polling⟩
  accept := .idle
  opened := ∅
  sockets := ∅
  shared := ⟨store, .empty⟩

/-- The accept thread is in the middle of registering the descriptor. -/
def Accepting (P : Process n k σ) (fd : Int) : Prop :=
  ∃ i, P.accept = .accepted i fd ∨ P.accept = .created i fd ∨ P.accept = .added i fd

/-- The process with another worker `i`. -/
def setWorker (P : Process n k σ) (i : Fin k) (w : Thread n) : Process n k σ :=
  { P with workers := Function.update P.workers i w }

/-- The process with another worker `i` and other shared data. -/
def put (P : Process n k σ) (i : Fin k) (a : Thread n × Shared σ) : Process n k σ :=
  { P.setWorker i a.1 with shared := a.2 }

end Process

/-- **The steps of the process.** Source: `net/tcpsocket.c`, `tcpAcceptCallback`, for the accept
thread. -/
inductive Step (db : KvStore σ (List Byte) (List Byte)) :
    Process n k σ → Process n k σ → Prop
  | work {P : Process n k σ} {i : Fin k} {w : Thread n} {S : Shared σ}
      (hwork : Work db (P.workers i) P.shared w S) : Step db P (P.put i (w, S))
  /-- `accept(2)`: a descriptor that is not open, below `setsize`. The callback goes on if it is
  positive, with any worker. -/
  | accept {P : Process n k σ} {i : Fin k} {fd : Int} (hpc : P.accept = .idle) (hfd : IsFd fd)
      (hlt : fd < n) (hnew : fd ∉ P.opened) :
      Step db P { P with
        opened := insert fd P.opened
        sockets := insert fd P.sockets
        accept := if fd > 0 then .accepted i fd else .idle }
  | createFileEvent {P : Process n k σ} {i : Fin k} {fd ret : Int} {loop : EventLoop n}
      (hpc : P.accept = .accepted i fd)
      (hcall : createFileEvent (P.workers i).loop fd READABLE .tcpReadCallback = .ok (ret, loop)) :
      Step db P { P.setWorker i { P.workers i with loop } with
        accept := if ret = -1 then .idle else .created i fd }
  /-- When the call fails, the next one is the log call that has no argument. -/
  | aePollAddEvent {P : Process n k σ} {i : Fin k} {fd ret : Int} {loop : EventLoop n}
      (hpc : P.accept = .created i fd)
      (hcall : aePollAddEvent (P.workers i).loop fd READABLE false = .ok (ret, loop))
      (hret : ret ≠ -1) :
      Step db P { P.setWorker i { P.workers i with loop } with accept := .added i fd }
  /-- `malloc` returns addresses that are not in use. -/
  | newConn {P : Process n k σ} {i : Fin k} {fd : Int} {node conn buf : ℕ} {ret : Ptr}
      {table : Table} (hpc : P.accept = .added i fd)
      (hfresh : Fresh (P.workers i).table node conn buf)
      (hcall : newConn (P.workers i).table fd node conn buf = .ok (ret, table)) :
      Step db P { P.setWorker i { P.workers i with table } with
        accept := .idle
        shared := { P.shared with history := P.shared.history.connected fd } }
  /-- Other descriptors are opened and closed elsewhere: the files of the store, the listening
  socket, and the client sockets that `tcpAccept` gives up. -/
  | others {P : Process n k σ} {opened sockets : Finset Int} (hkept : P.sockets ⊆ sockets)
      (hopen : sockets ⊆ opened) : Step db P { P with opened, sockets }

/-- The states that a run from a store can reach. -/
def Reachable (db : KvStore σ (List Byte) (List Byte)) (store : σ) (P : Process n k σ) : Prop :=
  Relation.ReflTransGen (Step db) (.init n k store) P

end ActionDB.Threads
