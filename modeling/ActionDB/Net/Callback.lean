import ActionDB.Net.Codec.TcpRead
import ActionDB.Net.Conn.Table
import ActionDB.Net.Event.Loop

/-!
# The callbacks

`tcpReadCallback` and `tcpAcceptCallback` of `net/tcpsocket.c`, which tie the parts of a worker
together: its event loop, and its table of connections. A worker thread calls the first when a
connection can be read; the accept thread calls the second when a client connects, and hands the
connection to a worker.

What the kernel answers is an argument: the results of `read(2)` for the one, an `AcceptResult` for
the other. A callback does not return when a part of it crashes (`Crash`).
-/

namespace ActionDB.Net

open ActionDB.Found ActionDB.Net.Codec ActionDB.Net.Conn ActionDB.Net.Event

/-- The event loop and the connections of a worker thread. Source: `server.h`, `globalEloop` and
`globalconnTree`. -/
structure Worker (n : ℕ) where
  loop : EventLoop n
  table : Table

/-- Ways for a callback not to return. -/
inductive Crash where
  | memory (f : MemFault)
  | bounds (f : LoopFault)
  | stopped (s : Stop)
  /-- A call of `writeLog` that has no argument for its format does not return. -/
  | log

variable {n : ℕ} {α : Type}

def liftMem (m : Except MemFault α) : Except Crash α := m.mapError .memory

def liftLoop (m : Except LoopFault α) : Except Crash α := m.mapError .bounds

/-! ## Reading -/

/-- `tcpRead` on the connection of a descriptor: what it returned, and the table with the buffer it
left. `none` when the descriptor has no connection.
Source: `net/tcpsocket.c`, `tcpReadCallback`, lines 83-85. -/
def readConnection (T : Table) (fd : Int) (xs : List ReadResult) :
    Except Crash (Option (Int × Table)) := do
  let nd ← liftMem (rbSearch T.nodes fd T.root)
  if nd = none then return none
  else
    let c ← liftMem (T.conns.load (← liftMem (T.nodes.load nd)).data)
    let b ← liftMem (T.bufs.load c.buf)
    match (tcpRead b xs).2 with
    | .stop s => .error (.stopped s)
    | .ret code b _ =>
        let bufs ← liftMem (T.bufs.modify c.buf fun _ => b)
        return some (code, { T with bufs })

/-- `ret` is what `deleteFileEvent` takes for the result of `aePollDeleteEvent`.
Source: `net/tcpsocket.c`, `tcpReadCallback`. -/
def tcpReadCallback (w : Worker n) (fd : Int) (mask : Mask) (xs : List ReadResult) (ret : Int) :
    Except Crash (Int × Worker n) := do
  match ← readConnection w.table fd xs with
  | none => return (-1, w)
  | some (code, table) =>
      if code = 0 then
        let (_, loop) ← liftLoop (deleteFileEvent w.loop fd mask ret)
        let (_, table) ← liftMem (freeConn table fd)
        return (1, { loop, table })
      else return (1, { w with table })

section Read

variable {T T' : Table} {l : List Item} {v : Item} {fd code : Int} {xs : List ReadResult}

@[simp] lemma liftMem_ok (a : α) : liftMem (.ok a) = .ok a := rfl

@[simp] lemma liftLoop_ok (a : α) : liftLoop (.ok a) = .ok a := rfl

lemma liftLoop_eq_ok {m : Except LoopFault α} {a : α} (h : liftLoop m = .ok a) : m = .ok a := by
  cases m with
  | error f => cases h
  | ok b =>
      cases h
      rfl

lemma liftMem_eq_ok {m : Except MemFault α} {a : α} (h : liftMem m = .ok a) : m = .ok a := by
  cases m with
  | error f => cases h
  | ok b =>
      cases h
      rfl

/-- Reading from a connection is `tcpRead` on its buffer. -/
theorem readConnection_of_mem (hinv : TableInv T l) (hv : v ∈ l) (xs : List ReadResult) :
    ∃ b B, T.bufs.lookup b = some B ∧ readConnection T v.key xs =
      match (tcpRead B xs).2 with
      | .stop s => .error (.stopped s)
      | .ret code B' _ => .ok (some (code, { T with bufs := T.bufs.insert b B' })) := by
  obtain ⟨nd, hnd, -, hdata⟩ := hinv.holds.lookup hv
  obtain ⟨a, c, hva, hc, -⟩ := hinv.owns v hv
  obtain ⟨b, hcb, hlook⟩ := hinv.buffered.buffer a c hc
  obtain ⟨B, hB⟩ := Option.ne_none_iff_exists'.mp hlook
  refine ⟨b, B, hB, ?_⟩
  simp only [readConnection, hinv.holds.rbSearch_mem hv, liftMem_ok, ok_bind, reduceCtorEq,
    if_false, Heap.load_of_lookup hnd, hdata, hva, Heap.load_of_lookup hc, hcb,
    Heap.load_of_lookup hB, Heap.modify_of_lookup hB]
  cases (tcpRead B xs).2 <;> rfl

/-- Without a connection for the descriptor nothing is read. -/
theorem readConnection_of_not_mem (hinv : TableInv T l) (hfd : IsInt fd)
    (hnot : ∀ v ∈ l, v.key ≠ fd) (xs : List ReadResult) : readConnection T fd xs = .ok none := by
  rcases rbSearch_spec hinv.holds hfd with ⟨v, hv, hkey, -⟩ | ⟨-, hsearch⟩
  · exact absurd hkey (hnot v hv)
  · simp only [readConnection, hsearch, liftMem_ok, ok_bind, if_true]
    rfl

/-- Reading from a connection changes its buffer only. -/
theorem readConnection_spec (hinv : TableInv T l) (hfd : IsInt fd)
    (hcall : readConnection T fd xs = .ok (some (code, T'))) :
    TableInv T' l ∧ ∃ v ∈ l, v.key = fd := by
  by_cases hex : ∃ v ∈ l, v.key = fd
  · refine ⟨?_, hex⟩
    obtain ⟨v, hv, rfl⟩ := hex
    obtain ⟨b, B, hB, hrun⟩ := readConnection_of_mem hinv hv xs
    rw [hrun] at hcall
    cases hout : (tcpRead B xs).2 with
    | stop s =>
        rw [hout] at hcall
        cases hcall
    | ret code B' rest =>
        rw [hout] at hcall
        cases hcall
        exact ⟨hinv.holds, hinv.connCnt_eq, hinv.owns, hinv.buffered.write b B'⟩
  · rw [readConnection_of_not_mem hinv hfd fun v hv hkey => hex ⟨v, hv, hkey⟩] at hcall
    cases hcall

end Read

/-! ## Accepting -/

/-- What the system answers while a client is accepted. -/
structure AcceptResult where
  /-- What `accept(2)` returns. -/
  fd : Int
  /-- `fcntl` can make the socket non-blocking. -/
  nonBlock : Bool
  /-- `epoll_ctl` fails for a reason of its own. -/
  denied : Bool
  /-- The call `writeLog(1, "%s" "add tcpReadCallback failed!")` returns. Its format asks for a
  string that is not passed, so what it does is not determined. -/
  logged : Bool
  /-- The addresses `malloc` returns. -/
  node : ℕ
  conn : ℕ
  buf : ℕ

/-- The loop that chooses a worker, from `i` on: `cnts` are the counts from worker `i - 1` on.
Source: `net/tcpsocket.c`, `tcpAcceptCallback`, lines 129-137. The trees exist before the threads
start, so the tests for NULL pass. -/
def minconnsindexFrom (i minconnsindex : ℕ) : List Int → ℕ
  | prev :: cnt :: cnts =>
      minconnsindexFrom (i + 1) (if cnt < prev then i else minconnsindex) (cnt :: cnts)
  | _ => minconnsindex

def minconnsindex (cnts : List Int) : ℕ := minconnsindexFrom 1 0 cnts

/-- Source: `net/tcpsocket.c`, `genericTcpAccept` and `tcpAccept`. -/
def tcpAccept (x : AcceptResult) : Int :=
  if x.fd = -1 then -1
  else if x.nonBlock then x.fd
  else -1

/-- The part of `tcpAcceptCallback` that works on the chosen worker.
Source: `net/tcpsocket.c`, `tcpAcceptCallback`, lines 138-147. -/
def register (w : Worker n) (connfd : Int) (x : AcceptResult) : Except Crash (Int × Worker n) := do
  let (created, loop) ← liftLoop (createFileEvent w.loop connfd READABLE .tcpReadCallback)
  if created = -1 then return (-1, { w with loop })
  else
    let (added, loop) ← liftLoop (aePollAddEvent loop connfd READABLE x.denied)
    if added = -1 then
      if x.logged then return (-1, { w with loop }) else .error .log
    else
      let (connection, table) ← liftMem (newConn w.table connfd x.node x.conn x.buf)
      if connection = none then return (-1, { loop, table })
      else return (connfd, { loop, table })

/-- Source: `net/tcpsocket.c`, `tcpAcceptCallback`. -/
def tcpAcceptCallback (workers : List (Worker n)) (x : AcceptResult) :
    Except Crash (Int × List (Worker n)) := do
  let connfd := tcpAccept x
  if connfd > 0 then
    let i := minconnsindex (workers.map (·.table.connCnt))
    match workers[i]? with
    | none => .error (.bounds .outOfBounds)
    | some w =>
        let (ret, w) ← register w connfd x
        return (ret, workers.set i w)
  else return (connfd, workers)

/-- `tcpAcceptCallback` does nothing, or it registers the socket with the worker it chooses. -/
lemma tcpAcceptCallback_cases {ws ws' : List (Worker n)} {x : AcceptResult} {r : Int}
    (hcall : tcpAcceptCallback ws x = .ok (r, ws')) :
    ¬(x.nonBlock = true ∧ x.fd > 0) ∧ r = tcpAccept x ∧ ws' = ws ∨
      (x.nonBlock = true ∧ x.fd > 0) ∧
        ∃ w w', ws[minconnsindex (ws.map (·.table.connCnt))]? = some w ∧
          register w x.fd x = .ok (r, w') ∧
          ws' = ws.set (minconnsindex (ws.map (·.table.connCnt))) w' := by
  unfold tcpAcceptCallback at hcall
  by_cases hgood : x.nonBlock = true ∧ x.fd > 0
  · have hfd : tcpAccept x = x.fd := by
      unfold tcpAccept
      rw [if_neg (by omega), if_pos hgood.1]
    simp only [hfd, hgood.2, if_true] at hcall
    split at hcall
    · cases hcall
    · next w hw =>
        obtain ⟨⟨r', w'⟩, hreg, hdone⟩ := bind_eq_ok hcall
        cases hdone
        exact .inr ⟨hgood, w, w', hw, hreg, rfl⟩
  · have hfd : ¬tcpAccept x > 0 := by
      unfold tcpAccept
      split_ifs with hneg hnb
      · omega
      · exact fun hpos => hgood ⟨hnb, hpos⟩
      · omega
    simp only [hfd, if_false] at hcall
    cases hcall
    exact .inl ⟨hgood, rfl, rfl⟩

end ActionDB.Net
