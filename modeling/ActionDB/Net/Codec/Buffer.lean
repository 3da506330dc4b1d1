import ActionDB.Found.Area

/-!
# The connection buffer

`net/buffer.h` and `initBuf` of `net/conn.c`. A `Buffer` holds the receive buffer `rBuf`, the
five argument rows `argv` and the positions the decoder keeps between calls. Pointers into `rBuf`
are offsets from its start; `argv` is one flat array whose row `i` starts at `10 * i`, since a long
argument runs from one row into the next.

**What memory may be read.** The decoder reads past `rBuf` on some inputs, so reads take a
`Region`:

* `Region.array` admits the bytes of `rBuf` only, and any other access is a `Fault`;
* `Region.record` is the machine the code runs on. `rBuf` is followed, inside `struct buffer`, by
  four bytes of padding and the pointer `wBuf`; `initBuf` clears both and nothing assigns them, so
  twelve more bytes read as zero. What lies behind them (`messageBeginpos` and on) is not
  determined, and reading it is a `Fault`.

`logFile` only copies bytes out, so under `Region.record` it may take any bytes of the struct:
`rBuf` starts at offset 64 of its 296 bytes.

**What memory may be written.** One standard holds everywhere: a write that leaves an array is
carried out as long as it stays in the allocated block, on bytes that nothing uses; what leaves the
block is a `Fault`. The five rows end at offset 270 of the struct, and the 26 bytes behind them,
padding and three pointers that `initBuf` clears and nothing reads, are counted with `argv`
(`argvSize`). The same standard gives `Kernel.usableSize` for the block of a reply.
-/

namespace ActionDB.Net.Codec

open ActionDB.Found

/-! ## Constants -/

/-- Source: `net/buffer.h`, `READ_GRANULARITY`. -/
abbrev readGranularity : ℕ := 100

/-- Source: `net/buffer.h`, `INIT_BUFFER_SIZE`. -/
abbrev initBufferSize : ℕ := 100

/-- Source: `net/buffer.h`, `ARGUMENTCNT`: the bytes of an argument row, and twice the rows. -/
abbrev argumentCnt : ℕ := 10

/-- The bytes of `argv[ARGUMENTCNT/2][ARGUMENTCNT]`, and behind them to the end of the struct those
of the padding, `expandBuf`, `fetchBufdec` and `putBufenc`. -/
abbrev argvSize : ℕ := argumentCnt / 2 * argumentCnt + 26

/-- `'\t'`, which separates the parts of a message. -/
def tab : Byte := 9
/-- `'\n'`, which may follow a message. -/
def newline : Byte := 10
/-- `'!'`, which ends a message. -/
def bang : Byte := 33
/-- `'*'`, which starts a message. -/
def star : Byte := 42

/-! ## Faults and regions -/

/-- Accesses that leave the memory the code may touch. -/
inductive Fault where
  /-- A byte outside the region is inspected. -/
  | overread
  /-- A byte range outside the region is handed to `logFile`. -/
  | overlog
  /-- A write leaves `rBuf`. -/
  | rBufOverflow
  /-- An argument is copied past the end of the struct. -/
  | argvOverflow
  /-- An argument read as a C string has no NUL before the end of the struct. -/
  | argvUnterminated
  deriving DecidableEq, Repr

/-- The memory that reads around `rBuf` may touch. -/
inductive Region where
  /-- The bytes of `rBuf` only. -/
  | array
  /-- The struct `rBuf` is a field of. -/
  | record
  deriving DecidableEq, Repr

/-- The readable bytes behind `rBuf`, all zero. -/
def Region.slack : Region → ℕ
  | array => 0
  | record => 12

/-- The bytes `logFile` may copy, counted from the start of `rBuf`. -/
def Region.logSize : Region → ℕ
  | array => initBufferSize
  | record => 232

/-! ## The buffer -/

/-- Source: `net/buffer.h`, `struct buffer`, without the fields no function reads. -/
structure Buffer where
  /-- Bytes of `rBuf` behind `rpos`. -/
  rBuflenRemain : ℕ
  /-- Result of the last `read(2)`. -/
  readDatalen : Int
  /-- Bytes the decoder has passed; also the offset of the next message. -/
  parsedLen : ℕ
  /-- `0` after a message, `1` after a cut one, `-1` when there is nothing to decode. -/
  parseFlag : Int
  copyMessageSeq : ℕ
  parseMessageSeq : ℕ
  /-- Bytes of a cut message kept at the front of `rBuf`. -/
  corruptMessagelen : ℕ
  rpos : ℕ
  rBuf : Area Byte initBufferSize
  messageBeginpos : ℕ
  argBeginpos : ℕ
  cursor : ℕ
  argCnt : ℕ
  argv : Area Byte argvSize
  deriving DecidableEq

namespace Buffer

/-- `buf->rBuflen`: `initBuf` sets it and nothing changes it. -/
def rBuflen (_ : Buffer) : ℕ := initBufferSize

/-- The bytes from `rBuf` on that may be inspected. -/
def mem (r : Region) (b : Buffer) : List Byte :=
  b.rBuf.cells ++ List.replicate r.slack 0

/-- Byte `i` of `rBuf`, for `i` inside it. -/
def byteAt (b : Buffer) (i : ℕ) : Byte := b.rBuf.cells.getD i 0

@[simp] lemma length_rBuf (b : Buffer) : b.rBuf.cells.length = 100 := b.rBuf.length_eq

end Buffer

/-- `*(buf->rBuf + i)`. -/
def Region.peek (r : Region) (b : Buffer) (i : ℕ) : Except Fault Byte :=
  match (b.mem r)[i]? with
  | some c => .ok c
  | none => .error .overread

lemma Region.peek_of_lt (r : Region) (b : Buffer) {i : ℕ} (h : i < 100) :
    r.peek b i = .ok (b.byteAt i) := by
  have hi : i < b.rBuf.cells.length := by simpa using h
  simp [Region.peek, Buffer.mem, Buffer.byteAt, List.getElem?_append_left hi,
    List.getElem?_eq_getElem hi]

/-- Source: `net/conn.c`, `initBuf`. The pointers start as NULL and are set before any use, so
they start here as offset zero. -/
def initBuf : Buffer where
  rBuflenRemain := initBufferSize
  readDatalen := 0
  parsedLen := 0
  parseFlag := -1
  copyMessageSeq := 0
  parseMessageSeq := 0
  corruptMessagelen := 0
  rpos := 0
  rBuf := .fill _ 0
  messageBeginpos := 0
  argBeginpos := 0
  cursor := 0
  argCnt := 0
  argv := .fill _ 0

/-- `logFile(rBuf + p, size)`: a size of zero stands for the length of the C string at `p`.
Source: `log/log.c`, `logFile`. -/
def logFile (r : Region) (b : Buffer) (p : ℕ) (size : Int) : Except Fault Unit :=
  if 0 < size then
    if p + size.toNat ≤ r.logSize then .ok () else .error .overlog
  else
    match cstr ((b.mem r).drop p) with
    | some _ => .ok ()
    | none => .error .overlog

/-- Keep the last `corruptMessagelen` bytes of `rBuf` as its first ones: clear what is before
them, then copy them to the front. `memset` and `memcpy` return their first argument, so the
error returns of the source are never taken. The two ranges of the copy overlap when more than
half of the buffer is kept; the copy is then read as `memmove`.
Source: `net/codec.c`, `repairLastCorruptMessage`. -/
def repairLastCorruptMessage (b : Buffer) (corruptMessagelen : Int) :
    Except Fault (Int × Buffer) :=
  let len := corruptMessagelen.toNat
  let kept := b.rBuf.cells.drop (b.rBuflen - len)
  if b.rBuflen < len then .error .rBufOverflow
  else
    match (b.rBuf.write 0 (List.replicate (b.rBuflen - len) 0)).bind (·.write 0 kept) with
    | some rBuf => .ok (1, { b with corruptMessagelen := len, rBuf, parsedLen := 0 })
    | none => .error .rBufOverflow

end ActionDB.Net.Codec
