import ActionDB.Net.Codec.Buffer

/-!
# The decoder

`parseOneMessage`, `catchOneMessagefromBuffer` and `decod` of `net/codec.c`, statement by
statement, over a `Region`. A message is `*`, one byte that is skipped, four digits and the
arguments, separated by tabs and ended by `!`.

The scan loop of `parseOneMessage` is `scan`. It recurses on the bytes of memory from `cursor`
on, so it is total: where the source would run on past the last readable byte, it ends with
`Fault.overread`. Besides the buffer it returns why the loop was left, which the source does not
record.
-/

namespace ActionDB.Net.Codec

open ActionDB.Found

/-! ## `parseOneMessage` -/

/-- The buffer and the local variables of `parseOneMessage`. -/
structure Scan where
  buf : Buffer
  argLen : ℕ
  preArgLen : ℕ
  separLen : ℕ
  argCnt : ℕ

namespace Scan

/-- `buf->cursor++`. -/
def advance (s : Scan) : Scan := { s with buf := { s.buf with cursor := s.buf.cursor + 1 } }

/-- The part the two argument-ending branches share: move `argBeginpos` and `parsedLen` to the
argument and copy its `argLen` bytes to row `argCnt`. Only the branch of the tab clears the row
first. -/
def copyArg (r : Region) (clear : Bool) (s : Scan) : Except Fault Scan :=
  let step := s.preArgLen + s.separLen
  let b := { s.buf with
    argBeginpos := s.buf.argBeginpos + step, parsedLen := s.buf.parsedLen + step }
  let row := argumentCnt * s.argCnt
  let src := ((s.buf.mem r).drop b.argBeginpos).take s.argLen
  let cleared := if clear then b.argv.write row (List.replicate argumentCnt 0) else some b.argv
  match cleared.bind (·.write row src) with
  | some argv => .ok { s with buf := { b with argv } }
  | none => .error .argvOverflow

/-- The rest of the branch of a tab that ends an argument. -/
def nextArg (s : Scan) : Scan :=
  { s.advance with preArgLen := s.argLen, argLen := 0, separLen := 1, argCnt := s.argCnt + 1 }

/-- The rest of the branch of `'!'`, before the look-ahead. -/
def endMessage (s : Scan) : Scan :=
  { s with
    argCnt := s.argCnt + 1
    buf := { s.buf with cursor := s.buf.cursor + 1, parsedLen := s.buf.parsedLen + 1 } }

/-- The look-ahead after `'!'`: a `'\n'` belongs to the message. -/
def skipNewline (s : Scan) (c : Byte) : Scan :=
  if c = newline then
    { s with buf := { s.buf with cursor := s.buf.cursor + 1, parsedLen := s.buf.parsedLen + 1 } }
  else s

end Scan

/-- Why the scan loop was left. -/
inductive Exit where
  /-- The loop condition `parsedLen != readDatalen` failed. -/
  | drained
  /-- A fourth argument was ended by a tab. -/
  | tooMany
  /-- A `'!'` was consumed. -/
  | bang
  deriving DecidableEq, Repr

/-- The scan loop, on the bytes from `cursor` on. `buf->cursor` points into `rBuf` and is never
NULL, so the second half of the loop condition always holds.
Source: `net/codec.c`, the `while` loop of `parseOneMessage`. -/
def scan (r : Region) : List Byte → Scan → Except Fault (Exit × Scan)
  | [], s => if (s.buf.parsedLen : Int) = s.buf.readDatalen then .ok (.drained, s)
      else .error .overread
  | c :: rest, s =>
      if (s.buf.parsedLen : Int) = s.buf.readDatalen then .ok (.drained, s)
      else if c = tab ∧ s.argLen = 0 then
        scan r rest { s.advance with preArgLen := s.preArgLen + 1 }
      else if c = tab then
        match s.copyArg r true with
        | .error f => .error f
        | .ok s' =>
            if 3 < s'.nextArg.argCnt then
              .ok (.tooMany, { s'.nextArg with buf := { s'.nextArg.buf with parseFlag := -1 } })
            else scan r rest s'.nextArg
      else if c = bang then
        match s.copyArg r false with
        | .error f => .error f
        | .ok s' =>
            match rest with
            | [] => .error .overread
            | c' :: _ => .ok (.bang, s'.endMessage.skipNewline c')
      else scan r rest { s.advance with argLen := s.argLen + 1 }

/-- The locals at the head of the loop, `argBeginpos` being at the cursor. -/
def Scan.start (b : Buffer) : Scan :=
  ⟨{ b with argBeginpos := b.cursor }, 0, 0, 0, 0⟩

/-- The scan that `parseOneMessage` makes. -/
def scanMessage (r : Region) (b : Buffer) : Except Fault (Exit × Scan) :=
  scan r ((b.mem r).drop b.cursor) (.start b)

/-- Source: `net/codec.c`, `parseOneMessage`. Whatever ended the loop, `parseFlag` becomes `0`. -/
def parseOneMessage (r : Region) (b : Buffer) : Except Fault (Int × Buffer) :=
  match scanMessage r b with
  | .error f => .error f
  | .ok (_, s) => .ok (s.argCnt,
      { s.buf with
        parseFlag := 0, argCnt := s.argCnt, parseMessageSeq := s.buf.parseMessageSeq + 1 })

/-! ## `catchOneMessagefromBuffer` -/

/-- The exit that finds no message: nothing is left, or the next byte is not `'*'`. -/
def Buffer.reject (b : Buffer) : Buffer :=
  { b with parseFlag := -1, parsedLen := 0, corruptMessagelen := 0 }

/-- The exit of a failed digit test. `parsedLen` is reset before it is used as the length to log,
and `messageLen` is still zero.
Source: `net/codec.c`, `catchOneMessagefromBuffer`, lines 126-155. -/
def rejectHeader (r : Region) (b : Buffer) : Except Fault (Int × Buffer) := do
  let b := b.reject
  logFile r b b.messageBeginpos (initBufferSize - b.parsedLen)
  logFile r b b.messageBeginpos 0
  return (-1, b)

/-- The exit of a cut message: keep it at the front of the buffer.
Source: `net/codec.c`, `catchOneMessagefromBuffer`, lines 120-124 and 158-162. -/
def keepCutMessage (b : Buffer) (parseRemainlen : Int) : Except Fault (Int × Buffer) :=
  match repairLastCorruptMessage { b with parseFlag := 1, parsedLen := b.parsedLen - 2 }
      (parseRemainlen + 2) with
  | .error f => .error f
  | .ok (_, b) => .ok (-1, b)

/-- `*p < '0' || *p > '9'`, negated. -/
def isDigit (c : Byte) : Bool := 48 ≤ c && c ≤ 57

/-- The digit tests, in order: the value of the digits at the offsets, or `none` at the first
byte that is not one. -/
def readDigits (r : Region) (b : Buffer) : List ℕ → ℕ → Except Fault (Option ℕ)
  | [], acc => .ok (some acc)
  | i :: is, acc =>
      match r.peek b i with
      | .error f => .error f
      | .ok c => if isDigit c then readDigits r b is (acc * 10 + (c.toNat - 48)) else .ok none

/-- Behind the `'*'` and the byte that is skipped: the length header, and the message if it ends
inside `rBuf`.
Source: `net/codec.c`, `catchOneMessagefromBuffer`, lines 118-169. -/
def catchBody (r : Region) (b : Buffer) : Except Fault (Int × Buffer) :=
  let parseRemainlen : Int := b.rBuflen - b.parsedLen
  if parseRemainlen ≤ 6 - 2 then keepCutMessage b parseRemainlen
  else
    match readDigits r b [b.cursor, b.cursor + 1, b.cursor + 2, b.cursor + 3] 0 with
    | .error f => .error f
    | .ok none => rejectHeader r b
    | .ok (some messageLen) =>
        if parseRemainlen < messageLen - 2 then keepCutMessage b parseRemainlen
        else parseOneMessage r { b with
          parsedLen := b.parsedLen + 4, cursor := b.cursor + 4
          copyMessageSeq := b.copyMessageSeq + 1 }

/-- Source: `net/codec.c`, `catchOneMessagefromBuffer`. -/
def catchOneMessagefromBuffer (r : Region) (b : Buffer) : Except Fault (Int × Buffer) :=
  let b := { b with messageBeginpos := b.parsedLen, cursor := b.parsedLen }
  if b.readDatalen ≤ b.parsedLen then .ok (-1, b.reject)
  else
    match r.peek b b.parsedLen with
    | .error f => .error f
    | .ok c =>
        if c ≠ star then .ok (-1, b.reject)
        else catchBody r { b with cursor := b.cursor + 2, parsedLen := b.parsedLen + 2 }

/-- Source: `net/codec.c`, `decod`. The division truncates towards zero. -/
def decod (r : Region) (b : Buffer) : Except Fault (Int × Buffer) :=
  match catchOneMessagefromBuffer r b with
  | .error f => .error f
  | .ok (ret, b) => .ok (ret.tdiv 3, b)

end ActionDB.Net.Codec
