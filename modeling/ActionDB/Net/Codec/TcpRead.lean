import ActionDB.Net.Codec.Decode

/-!
# `tcpRead`: reading and dispatching

`tcpRead` of `net/tcpsocket.c`. The kernel's side is a list of `ReadResult`s, one for each call of
`read(2)`; a call of `tcpRead` consumes results up to the first end of file or `EAGAIN`, and a
connection is a sequence of such calls (`serve`).

Running the model yields the `Event`s of the run: every state in which `decod` is called, and
every command that is dispatched, with its arguments read as C strings. A run stops early when an
access faults or when a client sends `shutdown`, which ends the process.
-/

namespace ActionDB.Net.Codec

open ActionDB.Found

/-! ## Dispatching a command -/

/-- `"set"`. -/
def strSet : List Byte := [115, 101, 116]
/-- `"get"`. -/
def strGet : List Byte := [103, 101, 116]
/-- `"shutdown"`. -/
def strShutdown : List Byte := [115, 104, 117, 116, 100, 111, 119, 110]

/-- What the dispatch loop does with a decoded message. -/
inductive Action where
  /-- `execSetCommand`, with `argv[1]` and `argv[2]`. -/
  | set (key val : List Byte)
  /-- `execGetCommand`, with `argv[1]`. -/
  | get (key : List Byte)
  /-- `execShutdownCommand`. -/
  | shutdown
  /-- No command has this name. -/
  | ignored
  deriving DecidableEq, Repr

/-- `argv[i]`, read as a C string. -/
def argString (argv : Area Byte argvSize) (i : ℕ) : Except Fault (List Byte) :=
  match cstr (argv.cells.drop (argumentCnt * i)) with
  | some s => .ok s
  | none => .error .argvUnterminated

/-- One pass of the dispatch chain. `argv[0]` is a row of an array, so the tests for NULL always
pass; `argCnt` is not looked at.
Source: `net/tcpsocket.c`, `tcpRead`, lines 60-73. -/
def dispatch (argv : Area Byte argvSize) : Except Fault Action :=
  if strcmpEq argv.cells strSet then
    match argString argv 2, argString argv 1 with
    | .ok val, .ok key => .ok (.set key val)
    | .error f, _ => .error f
    | _, .error f => .error f
  else if strcmpEq argv.cells strGet then
    match argString argv 1 with
    | .ok key => .ok (.get key)
    | .error f => .error f
  else if strcmpEq argv.cells strShutdown then .ok .shutdown
  else .ok .ignored

/-! ## The inner loop -/

/-- Why a run ends before the kernel's results are used up. -/
inductive Stop where
  /-- An access leaves the memory the code may touch. -/
  | fault (f : Fault)
  /-- `rocksShutdown` calls `exit(1)`. -/
  | exit
  /-- The fuel of the inner loop ran out. -/
  | outOfFuel
  deriving DecidableEq, Repr

/-- What can be observed of a run. -/
inductive Event where
  /-- `decod` is called in this state. -/
  | decod (b : Buffer)
  /-- This command is dispatched. -/
  | act (a : Action)
  deriving DecidableEq

/-- `decod`, then the loop that dispatches and decodes again while `parseFlag` is neither `1` nor
`-1`. One unit of fuel is one call of `decod`.
Source: `net/tcpsocket.c`, `tcpRead`, lines 58-75. -/
def drain (r : Region) : ℕ → Buffer → List Event × Except Stop Buffer
  | 0, _ => ([], .error .outOfFuel)
  | fuel + 1, b =>
      match decod r b with
      | .error f => ([.decod b], .error (.fault f))
      | .ok (_, b') =>
          if b'.parseFlag = 1 ∨ b'.parseFlag = -1 then ([.decod b], .ok b')
          else
            match dispatch b'.argv with
            | .error f => ([.decod b], .error (.fault f))
            | .ok .shutdown => ([.decod b, .act .shutdown], .error .exit)
            | .ok a => (.decod b :: .act a :: (drain r fuel b').1, (drain r fuel b').2)

/-! ## Reading -/

/-- One result of `read(2)` on the connection. -/
inductive ReadResult where
  /-- Bytes were received. -/
  | data (bytes : List Byte)
  /-- `0`: the peer has closed. -/
  | eof
  /-- `-1` with `EAGAIN`. -/
  | again
  /-- `-1` with another `errno`. -/
  | error
  deriving DecidableEq, Repr

/-- `nread`. -/
def ReadResult.nread : ReadResult → Int
  | data bytes => bytes.length
  | eof => 0
  | again => -1
  | error => -1

/-- Point `rpos` behind the kept bytes and clear the rest of `rBuf`.
Source: `net/tcpsocket.c`, `tcpRead`, lines 41-43 and 46-48. -/
def prepare (b : Buffer) : Except Fault Buffer :=
  let b := { b with
    rpos := b.corruptMessagelen, rBuflenRemain := b.rBuflen - b.corruptMessagelen }
  match b.rBuf.write b.rpos (List.replicate b.rBuflenRemain 0) with
  | some rBuf => .ok { b with rBuf }
  | none => .error .rBufOverflow

/-- `read(fd, rpos, READ_GRANULARITY - corruptMessagelen)` and the two assignments after it.
Source: `net/tcpsocket.c`, `tcpRead`, lines 50-52. -/
def receive (b : Buffer) (x : ReadResult) : Except Fault Buffer :=
  let b := { b with readDatalen := x.nread, parsedLen := 0 }
  match x with
  | .data bytes =>
      match b.rBuf.write b.rpos bytes with
      | some rBuf => .ok { b with rBuf }
      | none => .error .rBufOverflow
  | _ => .ok b

/-- `read` returns at least one byte and no more than were asked for. -/
def ReadResult.Fits (b : Buffer) : ReadResult → Prop
  | data bytes => 1 ≤ bytes.length ∧ bytes.length ≤ readGranularity - b.corruptMessagelen
  | _ => True

instance (b : Buffer) (x : ReadResult) : Decidable (x.Fits b) := by
  cases x <;> unfold ReadResult.Fits <;> infer_instance

/-- The fuel of the inner loop: a message takes at least six bytes of `rBuf`. -/
def drainFuel : ℕ := initBufferSize

/-- The body of the outer loop up to where it returns or starts again.
Source: `net/tcpsocket.c`, `tcpRead`, lines 46-75. -/
def readOnce (b : Buffer) (x : ReadResult) : List Event × Except Stop Buffer :=
  match (prepare b).bind (receive · x) with
  | .error f => ([], .error (.fault f))
  | .ok b =>
      match x with
      | .eof => ([], .ok b)
      | .again => ([], .ok b)
      | _ => drain .record drainFuel b

/-- How a call of `tcpRead` ends: with a return value, the buffer it leaves and the results it has
not used, or not at all. -/
inductive Outcome where
  | ret (code : Int) (b : Buffer) (rest : List ReadResult)
  | stop (s : Stop)

/-- The outer loop. When the results are used up there is nothing to read, and `read` says
`EAGAIN`.
Source: `net/tcpsocket.c`, `tcpRead`, lines 45-76. -/
def readLoop (b : Buffer) : List ReadResult → List Event × Outcome
  | [] =>
      match readOnce b .again with
      | (ev, .error s) => (ev, .stop s)
      | (ev, .ok b) => (ev, .ret (-1) b [])
  | x :: xs =>
      match readOnce b x with
      | (ev, .error s) => (ev, .stop s)
      | (ev, .ok b) =>
          match x with
          | .eof => (ev, .ret 0 b xs)
          | .again => (ev, .ret (-1) b xs)
          | _ => (ev ++ (readLoop b xs).1, (readLoop b xs).2)

/-- Source: `net/tcpsocket.c`, `tcpRead`. -/
def tcpRead (b : Buffer) (xs : List ReadResult) : List Event × Outcome :=
  match prepare b with
  | .error f => ([], .stop (.fault f))
  | .ok b => readLoop b xs

/-- A connection: `tcpRead` is called again as long as it returns `-1` and there are results. -/
def serve : ℕ → Buffer → List ReadResult → List Event
  | 0, _, _ => []
  | calls + 1, b, xs =>
      match tcpRead b xs with
      | (ev, .ret code b rest) =>
          if code = -1 ∧ rest ≠ [] then ev ++ serve calls b rest else ev
      | (ev, .stop _) => ev

/-- The events of a connection over all calls of `tcpRead`. -/
def connEvents (xs : List ReadResult) : List Event := serve (xs.length + 1) initBuf xs

/-- What the passes of the dispatch chain did, in order. -/
def dispatched (ev : List Event) : List Action :=
  ev.filterMap fun e => match e with
    | .act a => some a
    | .decod _ => none

/-- The states in which `decod` is called. -/
def calls (ev : List Event) : List Buffer :=
  ev.filterMap fun e => match e with
    | .decod b => some b
    | .act _ => none

end ActionDB.Net.Codec
