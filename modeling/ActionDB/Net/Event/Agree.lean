import ActionDB.Net.Callback
import Mathlib.Logic.Relation

/-!
# The registries agree

A connection is recorded three times: in the event table of its worker, in the kernel's epoll set,
and in the connection tree. The accept thread writes them in this order, and the worker clears the
first two before the third. The two threads are modelled as the steps between which the other one
may run:

* the accept thread calls `accept(2)`, then `createFileEvent`, `aePollAddEvent` and `newConn`;
* the worker polls, and for every descriptor that fired runs `tcpReadCallback`: it reads, and at end
  of file calls `deleteFileEvent` and then `freeConn`;
* the rest of the process opens and closes descriptors that the worker does not hold.

`accept` returns a descriptor below `setsize` that is not open. `epoll_ctl` fails only as `epollCtl`
says, and the missing result of `aePollDeleteEvent` is not `-1`.

`SysInv` says for every descriptor what the three registries hold, in terms of the connections and
of where the two threads are. It is kept by every step (`SysInv.step`), so in every reachable state
the registries agree, but for a descriptor in the middle of its own accept or teardown
(`registries_agree`).
-/

namespace ActionDB.Net.Event

open ActionDB.Found ActionDB.Net.Codec ActionDB.Net.Conn

variable {n : ℕ}

/-! ## The threads -/

/-- Where the accept thread is, with the descriptor it is registering. -/
inductive AcceptPc where
  | idle
  /-- `accept(2)` has returned. -/
  | accepted (fd : Int)
  /-- `createFileEvent` has returned. -/
  | created (fd : Int)
  /-- `aePollAddEvent` has returned. -/
  | added (fd : Int)
  deriving DecidableEq

/-- Where the worker is. -/
inductive WorkerPc where
  | polling
  /-- These events have fired and are still to be dispatched. -/
  | firing (fired : List (Int × Mask))
  /-- `tcpRead` has returned 0. -/
  | eof (fd : Int) (mask : Mask) (fired : List (Int × Mask))
  /-- `deleteFileEvent` has returned. -/
  | deleted (fd : Int) (fired : List (Int × Mask))

/-- The accept thread, a worker, and the descriptors that are open. -/
structure Sys (n : ℕ) where
  loop : EventLoop n
  table : Table
  opened : Finset Int
  accept : AcceptPc
  worker : WorkerPc

/-- Before the first connection. -/
def Sys.init (n : ℕ) : Sys n := ⟨createEventLoop n, .empty, ∅, .idle, .polling⟩

/-- The accept thread is in the middle of registering the descriptor. -/
def Sys.Accepting (σ : Sys n) (fd : Int) : Prop :=
  σ.accept = .accepted fd ∨ σ.accept = .created fd ∨ σ.accept = .added fd

/-- The worker is in the middle of closing the connection of the descriptor. -/
def Sys.TearingDown (σ : Sys n) (fd : Int) : Prop :=
  (∃ mask fired, σ.worker = .eof fd mask fired) ∨ ∃ fired, σ.worker = .deleted fd fired

/-- The steps of the two threads, and of the rest of the process. -/
inductive Step : Sys n → Sys n → Prop
  /-- `accept(2)`: a descriptor that is not open, below `setsize`. The callback goes on if it is
  positive. -/
  | accept {σ : Sys n} {fd : Int} (hpc : σ.accept = .idle) (hfd : IsFd fd) (hlt : fd < n)
      (hnew : fd ∉ σ.opened) :
      Step σ { σ with
        opened := insert fd σ.opened
        accept := if fd > 0 then .accepted fd else .idle }
  | createFileEvent {σ : Sys n} {fd ret : Int} {loop : EventLoop n}
      (hpc : σ.accept = .accepted fd)
      (hcall : createFileEvent σ.loop fd READABLE .tcpReadCallback = .ok (ret, loop)) :
      Step σ { σ with loop, accept := if ret = -1 then .idle else .created fd }
  | aePollAddEvent {σ : Sys n} {fd ret : Int} {loop : EventLoop n} (hpc : σ.accept = .created fd)
      (hcall : aePollAddEvent σ.loop fd READABLE false = .ok (ret, loop)) :
      Step σ { σ with loop, accept := if ret = -1 then .idle else .added fd }
  /-- `malloc` returns addresses that are not in use. -/
  | newConn {σ : Sys n} {fd : Int} {node conn buf : ℕ} {ret : Ptr} {table : Table}
      (hpc : σ.accept = .added fd) (hnode : σ.table.nodes.lookup node = none)
      (hconn : σ.table.conns.lookup conn = none) (hbuf : σ.table.bufs.lookup buf = none)
      (hcall : newConn σ.table fd node conn buf = .ok (ret, table)) :
      Step σ { σ with table, accept := .idle }
  /-- `epoll_wait`: any of the descriptors that are watched, with any events. -/
  | poll {σ : Sys n} {fired : List (Int × Mask)} (hpc : σ.worker = .polling)
      (hfired : ∀ p ∈ fired, σ.loop.epoll p.1 ≠ none) :
      Step σ { σ with worker := .firing fired }
  /-- The event has been removed by now, or is not a read event. -/
  | skip {σ : Sys n} {fd : Int} {mask : Mask} {fired : List (Int × Mask)}
      (hpc : σ.worker = .firing ((fd, mask) :: fired))
      (hmask : ¬(σ.loop.mask fd &&& mask).has READABLE) :
      Step σ { σ with worker := .firing fired }
  /-- `tcpReadCallback` finds no connection for the descriptor. -/
  | unknown {σ : Sys n} {fd : Int} {mask : Mask} {fired : List (Int × Mask)} {xs : List ReadResult}
      (hpc : σ.worker = .firing ((fd, mask) :: fired))
      (hmask : (σ.loop.mask fd &&& mask).has READABLE)
      (hproc : σ.loop.rproc fd = some .tcpReadCallback)
      (hcall : readConnection σ.table fd xs = .ok none) :
      Step σ { σ with worker := .firing fired }
  /-- `tcpReadCallback` reads. -/
  | read {σ : Sys n} {fd code : Int} {mask : Mask} {fired : List (Int × Mask)}
      {xs : List ReadResult} {table : Table} (hpc : σ.worker = .firing ((fd, mask) :: fired))
      (hmask : (σ.loop.mask fd &&& mask).has READABLE)
      (hproc : σ.loop.rproc fd = some .tcpReadCallback)
      (hcall : readConnection σ.table fd xs = .ok (some (code, table))) :
      Step σ { σ with table, worker := if code = 0 then .eof fd mask fired else .firing fired }
  | done {σ : Sys n} (hpc : σ.worker = .firing []) : Step σ { σ with worker := .polling }
  | deleteFileEvent {σ : Sys n} {fd ret : Int} {mask : Mask} {fired : List (Int × Mask)}
      {r : Option Int} {loop : EventLoop n} (hpc : σ.worker = .eof fd mask fired) (hret : ret ≠ -1)
      (hcall : deleteFileEvent σ.loop fd mask ret = .ok (r, loop)) :
      Step σ { σ with loop, worker := .deleted fd fired }
  | freeConn {σ : Sys n} {fd ret : Int} {fired : List (Int × Mask)} {table : Table}
      (hpc : σ.worker = .deleted fd fired) (hcall : freeConn σ.table fd = .ok (ret, table)) :
      Step σ { σ with table, worker := .firing fired }
  /-- Descriptors are opened and closed elsewhere, but not those the worker holds. -/
  | others {σ : Sys n} {opened : Finset Int}
      (hheld : ∀ fd, σ.table.Has fd ∨ σ.Accepting fd → fd ∈ opened) :
      Step σ { σ with opened }

/-- The states that a run can reach. -/
def Reachable (σ : Sys n) : Prop := Relation.ReflTransGen Step (.init n) σ

/-! ## The event loop -/

/-- The event loop has `READABLE` for the descriptors of `R`, and the kernel watches those of
`W`. -/
structure LoopInv (loop : EventLoop n) (R W : Int → Prop) : Prop where
  mask_of : ∀ fd, R fd → loop.mask fd = READABLE
  mask_none : ∀ fd, ¬R fd → loop.mask fd = NONE
  proc_of : ∀ fd, R fd → loop.rproc fd = some .tcpReadCallback
  epoll_of : ∀ fd, W fd → loop.epoll fd = some READABLE
  epoll_none : ∀ fd, ¬W fd → loop.epoll fd = none

section Loop

variable {loop : EventLoop n} {R W R' W' : Int → Prop} {fd : Int}

lemma LoopInv.congr (hl : LoopInv loop R W) (hR : ∀ f, R' f ↔ R f) (hW : ∀ f, W' f ↔ W f) :
    LoopInv loop R' W' where
  mask_of f hf := hl.mask_of f ((hR f).mp hf)
  mask_none f hf := hl.mask_none f fun h => hf ((hR f).mpr h)
  proc_of f hf := hl.proc_of f ((hR f).mp hf)
  epoll_of f hf := hl.epoll_of f ((hW f).mp hf)
  epoll_none f hf := hl.epoll_none f fun h => hf ((hW f).mpr h)

/-- `createFileEvent` on a descriptor without events. -/
lemma LoopInv.create (hl : LoopInv loop R W) (h₀ : 0 ≤ fd) (h₁ : fd < n) (hR : ¬R fd) :
    ∃ loop', createFileEvent loop fd READABLE .tcpReadCallback = .ok (1, loop') ∧
      LoopInv loop' (fun f => R f ∨ f = fd) W := by
  obtain ⟨loop', hcall, hepoll, hmask, hproc⟩ :=
    createFileEvent_spec (e := loop) h₀ h₁ READABLE .tcpReadCallback
  have hne : ∀ f, R f → f ≠ fd := by
    rintro f hf rfl
    exact hR hf
  refine ⟨loop', hcall, ?_, ?_, ?_, ?_, ?_⟩
  · rintro f (hf | rfl)
    · rw [hmask, if_neg (hne f hf)]
      exact hl.mask_of f hf
    · rw [hmask, if_pos rfl, hl.mask_none f hR]
      rfl
  · intro f hf
    rw [not_or] at hf
    rw [hmask, if_neg hf.2]
    exact hl.mask_none f hf.1
  · rintro f (hf | rfl)
    · rw [hproc, if_neg fun h => hne f hf h.1]
      exact hl.proc_of f hf
    · rw [hproc, if_pos ⟨rfl, by decide⟩]
  · rw [hepoll]
    exact hl.epoll_of
  · rw [hepoll]
    exact hl.epoll_none

/-- `aePollAddEvent` on a descriptor that has `READABLE` and is not watched. -/
lemma LoopInv.add (hl : LoopInv loop R W) (h₀ : 0 ≤ fd) (h₁ : fd < n) (hR : R fd) (hW : ¬W fd) :
    ∃ loop', aePollAddEvent loop fd READABLE false = .ok (1, loop') ∧
      LoopInv loop' R fun f => W f ∨ f = fd := by
  refine ⟨_, aePollAddEvent_spec h₀ h₁ (hl.mask_of fd hR) (hl.epoll_none fd hW), hl.mask_of,
    hl.mask_none, hl.proc_of, ?_, ?_⟩
  · rintro f (hf | rfl)
    · have hne : f ≠ fd := by
        rintro rfl
        exact hW hf
      simp only [Function.update_of_ne hne]
      exact hl.epoll_of f hf
    · simp only [Function.update_self]
  · intro f hf
    rw [not_or] at hf
    simp only [Function.update_of_ne hf.2]
    exact hl.epoll_none f hf.1

/-- `deleteFileEvent` on a descriptor that is registered. -/
lemma LoopInv.delete {mask : Mask} {ret : Int} (hl : LoopInv loop R W) (h₀ : 0 ≤ fd) (h₁ : fd < n)
    (hR : R fd) (hW : W fd) (hread : mask.has READABLE) (hret : ret ≠ -1) :
    ∃ loop', deleteFileEvent loop fd mask ret = .ok (none, loop') ∧
      LoopInv loop' (fun f => R f ∧ f ≠ fd) fun f => W f ∧ f ≠ fd := by
  have hk : loop.epoll fd ≠ none := by
    rw [hl.epoll_of fd hW]
    simp
  obtain ⟨loop', hcall, hepoll, hmask, hproc⟩ :=
    deleteFileEvent_spec h₀ h₁ (hl.mask_of fd hR) hk hread hret
  refine ⟨loop', hcall, ?_, ?_, ?_, ?_, ?_⟩
  · rintro f ⟨hf, hne⟩
    rw [hmask, if_neg hne]
    exact hl.mask_of f hf
  · intro f hf
    rw [hmask]
    split_ifs with hne
    · rfl
    · exact hl.mask_none f fun h => hf ⟨h, hne⟩
  · rintro f ⟨hf, -⟩
    rw [hproc]
    exact hl.proc_of f hf
  · rintro f ⟨hf, hne⟩
    rw [hepoll, Function.update_of_ne hne]
    exact hl.epoll_of f hf
  · intro f hf
    rw [hepoll]
    by_cases hne : f = fd
    · rw [hne, Function.update_self]
    · rw [Function.update_of_ne hne]
      exact hl.epoll_none f fun h => hf ⟨h, hne⟩

end Loop

/-! ## The invariant -/

/-- The descriptor has a connection, and its events have not been deleted. -/
def Sys.Serving (σ : Sys n) (l : List Item) (fd : Int) : Prop :=
  (∃ v ∈ l, v.key = fd) ∧ ∀ fired, σ.worker ≠ .deleted fd fired

/-- The descriptors that have `READABLE` set. -/
def Sys.Registered (σ : Sys n) (l : List Item) (fd : Int) : Prop :=
  σ.Serving l fd ∨ σ.accept = .created fd ∨ σ.accept = .added fd

/-- The descriptors that the kernel watches. -/
def Sys.Watched (σ : Sys n) (l : List Item) (fd : Int) : Prop :=
  σ.Serving l fd ∨ σ.accept = .added fd

/-- **What the registries hold**, `l` being the connections. -/
structure SysInv (σ : Sys n) (l : List Item) : Prop where
  table : TableInv σ.table l
  conn_lt : ∀ v ∈ l, v.key < n
  conn_opened : ∀ v ∈ l, v.key ∈ σ.opened
  loop : LoopInv σ.loop (σ.Registered l) (σ.Watched l)
  /-- A descriptor that is being registered is new. -/
  accepting : ∀ fd, σ.Accepting fd → IsFd fd ∧ fd < n ∧ fd ∈ σ.opened ∧ ∀ v ∈ l, v.key ≠ fd
  /-- A descriptor that is being closed has a connection. -/
  tearing : ∀ fd, σ.TearingDown fd → ∃ v ∈ l, v.key = fd
  eof_mask : ∀ fd mask fired, σ.worker = .eof fd mask fired → mask.has READABLE

section Inv

variable {σ σ' : Sys n} {l : List Item} {fd : Int}

lemma sysInv_init : SysInv (.init n) [] where
  table := tableInv_empty
  conn_lt v hv := absurd hv List.not_mem_nil
  conn_opened v hv := absurd hv List.not_mem_nil
  loop := by
    have hmask : ∀ fd, (createEventLoop n).mask fd = NONE := by
      intro fd
      unfold EventLoop.mask
      cases slot n fd <;> rfl
    constructor
    · rintro fd (⟨⟨v, hv, -⟩, -⟩ | h | h)
      · exact absurd hv List.not_mem_nil
      · cases h
      · cases h
    · exact fun fd _ => hmask fd
    · rintro fd (⟨⟨v, hv, -⟩, -⟩ | h | h)
      · exact absurd hv List.not_mem_nil
      · cases h
      · cases h
    · rintro fd (⟨⟨v, hv, -⟩, -⟩ | h)
      · exact absurd hv List.not_mem_nil
      · cases h
    · exact fun fd _ => rfl
  accepting fd h := by rcases h with h | h | h <;> cases h
  tearing fd h := by
    rcases h with ⟨mask, fired, h⟩ | ⟨fired, h⟩
    · cases h
    · cases h
  eof_mask fd mask fired h := by cases h

/-- The steps of the worker that leave the registries alone. -/
lemma SysInv.work (hinv : SysInv σ l) {w : WorkerPc} {table : Table} (htable : TableInv table l)
    (hold : ∀ fd fired, σ.worker ≠ .deleted fd fired) (hnew : ∀ fd fired, w ≠ .deleted fd fired)
    (heof : ∀ fd mask fired, w = .eof fd mask fired →
      mask.has READABLE ∧ ∃ v ∈ l, v.key = fd) :
    SysInv { σ with table, worker := w } l where
  table := htable
  conn_lt := hinv.conn_lt
  conn_opened := hinv.conn_opened
  loop := by
    refine hinv.loop.congr (fun f => ?_) (fun f => ?_)
    · simp only [Sys.Registered, Sys.Serving, hold, hnew, ne_eq, not_false_eq_true, implies_true]
    · simp only [Sys.Watched, Sys.Serving, hold, hnew, ne_eq, not_false_eq_true, implies_true]
  accepting := hinv.accepting
  tearing := by
    rintro fd (⟨mask, fired, hw⟩ | ⟨fired, hw⟩)
    · exact (heof fd mask fired hw).2
    · exact absurd hw (hnew fd fired)
  eof_mask fd mask fired hw := (heof fd mask fired hw).1

/-- `accept(2)` returns a new descriptor. -/
lemma SysInv.accept (hinv : SysInv σ l) (hpc : σ.accept = .idle) (hfd : IsFd fd) (hlt : fd < n)
    (hnew : fd ∉ σ.opened) :
    SysInv { σ with
      opened := insert fd σ.opened, accept := if fd > 0 then .accepted fd else .idle } l where
  table := hinv.table
  conn_lt := hinv.conn_lt
  conn_opened v hv := Finset.mem_insert_of_mem (hinv.conn_opened v hv)
  loop := by
    refine hinv.loop.congr (fun f => ?_) (fun f => ?_)
    · simp only [Sys.Registered, Sys.Serving, hpc]
      split_ifs <;> simp
    · simp only [Sys.Watched, Sys.Serving, hpc]
      split_ifs <;> simp
  accepting := by
    intro fd' h
    obtain rfl : fd = fd' := by
      simp only [Sys.Accepting] at h
      split_ifs at h <;> simp_all
    refine ⟨hfd, hlt, Finset.mem_insert_self _ _, ?_⟩
    rintro v hv rfl
    exact hnew (hinv.conn_opened v hv)
  tearing := hinv.tearing
  eof_mask := hinv.eof_mask

/-- The accept thread registers the descriptor. -/
lemma SysInv.create (hinv : SysInv σ l) (hpc : σ.accept = .accepted fd) :
    ∃ loop, createFileEvent σ.loop fd READABLE .tcpReadCallback = .ok (1, loop) ∧
      SysInv { σ with loop, accept := .created fd } l := by
  obtain ⟨hfd, hlt, hopen, hnot⟩ := hinv.accepting fd (.inl hpc)
  have hR : ¬σ.Registered l fd := by
    rintro (⟨⟨v, hv, hkey⟩, -⟩ | h | h)
    · exact hnot v hv hkey
    · rw [hpc] at h
      cases h
    · rw [hpc] at h
      cases h
  obtain ⟨loop, hcall, hloop⟩ := hinv.loop.create hfd.1 hlt hR
  refine ⟨loop, hcall, hinv.table, hinv.conn_lt, hinv.conn_opened, ?_, ?_, hinv.tearing,
    hinv.eof_mask⟩
  · refine hloop.congr (fun f => ?_) (fun f => ?_)
    · simp only [Sys.Registered, Sys.Serving, hpc, AcceptPc.created.injEq, reduceCtorEq, or_false]
      rw [eq_comm (a := fd)]
    · simp only [Sys.Watched, Sys.Serving, hpc, reduceCtorEq]
  · intro fd' h
    obtain rfl : fd = fd' := by simpa [Sys.Accepting] using h
    exact ⟨hfd, hlt, hopen, hnot⟩

/-- The accept thread tells the kernel. -/
lemma SysInv.add (hinv : SysInv σ l) (hpc : σ.accept = .created fd) :
    ∃ loop, aePollAddEvent σ.loop fd READABLE false = .ok (1, loop) ∧
      SysInv { σ with loop, accept := .added fd } l := by
  obtain ⟨hfd, hlt, hopen, hnot⟩ := hinv.accepting fd (.inr (.inl hpc))
  have hW : ¬σ.Watched l fd := by
    rintro (⟨⟨v, hv, hkey⟩, -⟩ | h)
    · exact hnot v hv hkey
    · rw [hpc] at h
      cases h
  obtain ⟨loop, hcall, hloop⟩ := hinv.loop.add hfd.1 hlt (.inr (.inl hpc)) hW
  refine ⟨loop, hcall, hinv.table, hinv.conn_lt, hinv.conn_opened, ?_, ?_, hinv.tearing,
    hinv.eof_mask⟩
  · refine hloop.congr (fun f => ?_) (fun f => ?_)
    · simp only [Sys.Registered, Sys.Serving, hpc, AcceptPc.created.injEq, AcceptPc.added.injEq,
        reduceCtorEq, or_false, false_or]
    · simp only [Sys.Watched, Sys.Serving, hpc, AcceptPc.added.injEq, reduceCtorEq, or_false]
      rw [eq_comm (a := fd)]
  · intro fd' h
    obtain rfl : fd = fd' := by simpa [Sys.Accepting] using h
    exact ⟨hfd, hlt, hopen, hnot⟩

/-- The accept thread puts the connection into the tree. -/
lemma SysInv.newConn (hinv : SysInv σ l) (hpc : σ.accept = .added fd) {node conn buf : ℕ}
    (hnode : σ.table.nodes.lookup node = none) (hconn : σ.table.conns.lookup conn = none)
    (hbuf : σ.table.bufs.lookup buf = none) :
    ∃ table l', newConn σ.table fd node conn buf = .ok (some conn, table) ∧
      SysInv { σ with table, accept := .idle } l' := by
  obtain ⟨hfd, hlt, hopen, hnot⟩ := hinv.accepting fd (.inr (.inr hpc))
  obtain ⟨l₁, l₂, table, rfl, hcall, htable⟩ :=
    newConn_spec hinv.table hfd hnot hnode hconn hbuf
  have hkeys : ∀ f, (∃ v ∈ l₁ ++ ⟨node, fd, some conn⟩ :: l₂, v.key = f) ↔
      f = fd ∨ ∃ v ∈ l₁ ++ l₂, v.key = f := by
    intro f
    simp only [mem_middle, or_and_right, exists_or, exists_eq_left, eq_comm (a := fd)]
  -- a descriptor without a connection is not being torn down
  have hdel : ∀ fired, σ.worker ≠ .deleted fd fired := by
    intro fired hw
    obtain ⟨v, hv, hkey⟩ := hinv.tearing fd (.inr ⟨fired, hw⟩)
    exact hnot v hv hkey
  refine ⟨table, _, hcall, htable, ?_, ?_, ?_, ?_, ?_, hinv.eof_mask⟩
  · intro v hv
    rcases mem_middle.mp hv with rfl | hv
    · exact hlt
    · exact hinv.conn_lt v hv
  · intro v hv
    rcases mem_middle.mp hv with rfl | hv
    · exact hopen
    · exact hinv.conn_opened v hv
  · have hserving : ∀ f, Sys.Serving { σ with table, accept := .idle }
        (l₁ ++ ⟨node, fd, some conn⟩ :: l₂) f ↔ σ.Serving (l₁ ++ l₂) f ∨ fd = f := by
      intro f
      simp only [Sys.Serving, hkeys]
      constructor
      · rintro ⟨rfl | h, hw⟩
        · exact .inr rfl
        · exact .inl ⟨h, hw⟩
      · rintro (⟨h, hw⟩ | rfl)
        · exact ⟨.inr h, hw⟩
        · exact ⟨.inl rfl, hdel⟩
    refine hinv.loop.congr (fun f => ?_) (fun f => ?_)
    · simp only [Sys.Registered, hserving, hpc, AcceptPc.added.injEq, reduceCtorEq, or_false,
        false_or]
    · simp only [Sys.Watched, hserving, hpc, AcceptPc.added.injEq, reduceCtorEq, or_false]
  · intro fd' h
    simp [Sys.Accepting] at h
  · intro f hf
    exact (hkeys f).mpr (.inr (hinv.tearing f hf))

/-- The worker removes the events of a descriptor at end of file. -/
lemma SysInv.delete (hinv : SysInv σ l) {mask : Mask} {fired : List (Int × Mask)} {ret : Int}
    (hpc : σ.worker = .eof fd mask fired) (hret : ret ≠ -1) :
    ∃ loop, deleteFileEvent σ.loop fd mask ret = .ok (none, loop) ∧
      SysInv { σ with loop, worker := .deleted fd fired } l := by
  have hconn := hinv.tearing fd (.inl ⟨mask, fired, hpc⟩)
  have hserving : σ.Serving l fd := ⟨hconn, by simp [hpc]⟩
  obtain ⟨v, hv, rfl⟩ := hconn
  obtain ⟨loop, hcall, hloop⟩ := hinv.loop.delete (hinv.table.holds.keys v hv).1 (hinv.conn_lt v hv)
    (.inl hserving) (.inl hserving) (hinv.eof_mask _ mask fired hpc) hret
  have hserving' : ∀ f, Sys.Serving { σ with loop, worker := .deleted v.key fired } l f ↔
      σ.Serving l f ∧ f ≠ v.key := by
    intro f
    simp [Sys.Serving, hpc, eq_comm (a := f)]
  -- the descriptor that is being registered is another one
  have hother : ∀ f, σ.Accepting f → f ≠ v.key := by
    rintro f hf rfl
    exact (hinv.accepting _ hf).2.2.2 v hv rfl
  refine ⟨loop, hcall, hinv.table, hinv.conn_lt, hinv.conn_opened, ?_, hinv.accepting, ?_, ?_⟩
  · refine hloop.congr (fun f => ?_) (fun f => ?_)
    · simp only [Sys.Registered, hserving']
      constructor
      · rintro (⟨h, hne⟩ | h)
        · exact ⟨.inl h, hne⟩
        · exact ⟨.inr h, hother f (.inr h)⟩
      · rintro ⟨h | h, hne⟩
        · exact .inl ⟨h, hne⟩
        · exact .inr h
    · simp only [Sys.Watched, hserving']
      constructor
      · rintro (⟨h, hne⟩ | h)
        · exact ⟨.inl h, hne⟩
        · exact ⟨.inr h, hother f (.inr (.inr h))⟩
      · rintro ⟨h | h, hne⟩
        · exact .inl ⟨h, hne⟩
        · exact .inr h
  · rintro f (⟨mask', fired', hw⟩ | ⟨fired', hw⟩)
    · cases hw
    · cases hw
      exact ⟨v, hv, rfl⟩
  · intro f mask' fired' hw
    cases hw

/-- The worker frees the connection. -/
lemma SysInv.freeConn (hinv : SysInv σ l) {fired : List (Int × Mask)}
    (hpc : σ.worker = .deleted fd fired) :
    ∃ table l', freeConn σ.table fd = .ok (1, table) ∧
      SysInv { σ with table, worker := .firing fired } l' := by
  obtain ⟨v, hv, rfl⟩ := hinv.tearing fd (.inr ⟨fired, hpc⟩)
  have hint := (hinv.table.holds.keys v hv).isInt
  rcases freeConn_spec hinv.table hint with ⟨l₁, w, l₂, table, rfl, hkey, hcall, htable⟩ | ⟨hnot, -⟩
  swap
  · exact absurd rfl (hnot v hv)
  have hserving : ∀ f, Sys.Serving { σ with table, worker := .firing fired } (l₁ ++ l₂) f ↔
      σ.Serving (l₁ ++ w :: l₂) f := by
    intro f
    simp only [Sys.Serving, hpc, mem_middle, ne_eq, reduceCtorEq, not_false_eq_true, implies_true,
      and_true, WorkerPc.deleted.injEq]
    constructor
    · rintro ⟨u, hu, rfl⟩
      refine ⟨⟨u, .inr hu, rfl⟩, ?_⟩
      rintro fired' ⟨heq, -⟩
      exact hinv.table.holds.key_ne u hu (heq.symm.trans hkey.symm)
    · rintro ⟨⟨u, rfl | hu, rfl⟩, hne⟩
      · exact absurd ⟨hkey.symm, rfl⟩ (hne fired)
      · exact ⟨u, hu, rfl⟩
  refine ⟨table, l₁ ++ l₂, hcall, htable, ?_, ?_, ?_, ?_, ?_, ?_⟩
  · exact fun u hu => hinv.conn_lt u (mem_middle.mpr (.inr hu))
  · exact fun u hu => hinv.conn_opened u (mem_middle.mpr (.inr hu))
  · refine hinv.loop.congr (fun f => ?_) (fun f => ?_)
    · simp only [Sys.Registered, hserving]
    · simp only [Sys.Watched, hserving]
  · intro f hf
    obtain ⟨hfd, hlt, hopen, hnot⟩ := hinv.accepting f hf
    exact ⟨hfd, hlt, hopen, fun u hu => hnot u (mem_middle.mpr (.inr hu))⟩
  · rintro f (⟨mask', fired', hw⟩ | ⟨fired', hw⟩)
    · cases hw
    · cases hw
  · intro f mask' fired' hw
    cases hw

/-- A descriptor with `READABLE` set is a valid one. -/
lemma SysInv.isFd_of_mask (hinv : SysInv σ l) {mask : Mask}
    (hmask : (σ.loop.mask fd &&& mask).has READABLE) : IsFd fd := by
  by_contra hfd
  have hnone : σ.loop.mask fd = NONE := by
    apply hinv.loop.mask_none fd
    rintro (⟨⟨v, hv, rfl⟩, -⟩ | h | h)
    · exact hfd (hinv.table.holds.keys v hv)
    · exact hfd (hinv.accepting fd (.inr (.inl h))).1
    · exact hfd (hinv.accepting fd (.inr (.inr h))).1
  have hzero : ∀ m : Mask, ¬(NONE &&& m).has READABLE := by decide
  rw [hnone] at hmask
  exact hzero mask hmask

/-- **Every step keeps the registries as they should be.** -/
theorem SysInv.step (hinv : SysInv σ l) (hstep : Step σ σ') : ∃ l', SysInv σ' l' := by
  have hand : ∀ m m' : Mask, (m &&& m').has READABLE → m'.has READABLE := by decide
  cases hstep with
  | accept hpc hfd hlt hnew => exact ⟨l, hinv.accept hpc hfd hlt hnew⟩
  | createFileEvent hpc hcall =>
      obtain ⟨loop, hcall', hinv'⟩ := hinv.create hpc
      rw [hcall'] at hcall
      cases hcall
      exact ⟨l, hinv'⟩
  | aePollAddEvent hpc hcall =>
      obtain ⟨loop, hcall', hinv'⟩ := hinv.add hpc
      rw [hcall'] at hcall
      cases hcall
      exact ⟨l, hinv'⟩
  | newConn hpc hnode hconn hbuf hcall =>
      obtain ⟨table, l', hcall', hinv'⟩ := hinv.newConn hpc hnode hconn hbuf
      rw [hcall'] at hcall
      cases hcall
      exact ⟨l', hinv'⟩
  | poll hpc _ => exact ⟨l, hinv.work hinv.table (by simp [hpc]) (by simp) (by simp)⟩
  | skip hpc _ => exact ⟨l, hinv.work hinv.table (by simp [hpc]) (by simp) (by simp)⟩
  | unknown hpc _ _ _ => exact ⟨l, hinv.work hinv.table (by simp [hpc]) (by simp) (by simp)⟩
  | read hpc hmask _ hcall =>
      obtain ⟨htable, hconn⟩ := readConnection_spec hinv.table (hinv.isFd_of_mask hmask).isInt hcall
      refine ⟨l, hinv.work htable (by simp [hpc]) ?_ ?_⟩
      · intro f fired'
        split_ifs <;> simp
      · intro f mask' fired' hw
        split_ifs at hw with hcode
        cases hw
        exact ⟨hand _ _ hmask, hconn⟩
  | done hpc => exact ⟨l, hinv.work hinv.table (by simp [hpc]) (by simp) (by simp)⟩
  | deleteFileEvent hpc hret hcall =>
      obtain ⟨loop, hcall', hinv'⟩ := hinv.delete hpc hret
      rw [hcall'] at hcall
      cases hcall
      exact ⟨l, hinv'⟩
  | freeConn hpc hcall =>
      obtain ⟨table, l', hcall', hinv'⟩ := hinv.freeConn hpc
      rw [hcall'] at hcall
      cases hcall
      exact ⟨l', hinv'⟩
  | others hheld =>
      refine ⟨l, hinv.table, hinv.conn_lt, ?_, hinv.loop, ?_, hinv.tearing, hinv.eof_mask⟩
      · exact fun v hv => hheld v.key (.inl (hinv.table.linked.has_iff.mpr ⟨v, hv, rfl⟩))
      · intro f hf
        obtain ⟨hfd, hlt, -, hnot⟩ := hinv.accepting f hf
        exact ⟨hfd, hlt, hheld f (.inr hf), hnot⟩

lemma Reachable.inv (hreach : Reachable σ) : ∃ l, SysInv σ l := by
  induction hreach with
  | refl => exact ⟨[], sysInv_init⟩
  | tail _ hstep ih =>
      obtain ⟨l, hinv⟩ := ih
      exact hinv.step hstep

/-- **The registries agree** in every state that a run can reach: a descriptor in the tree has
`READABLE` set and is watched, unless it is in the middle of its own teardown; a descriptor that has
`READABLE` set or is watched is in the tree, unless it is in the middle of its own accept; and no
step of a registration fails. -/
theorem registries_agree (hreach : Reachable σ) :
    (∀ fd, σ.table.Has fd → ¬σ.TearingDown fd →
      (σ.loop.mask fd).has READABLE ∧ σ.loop.epoll fd ≠ none) ∧
      (∀ fd, (σ.loop.mask fd).has READABLE ∨ σ.loop.epoll fd ≠ none →
        σ.table.Has fd ∨ σ.Accepting fd) ∧
      (∀ fd, σ.accept = .accepted fd →
        ∃ loop, createFileEvent σ.loop fd READABLE .tcpReadCallback = .ok (1, loop)) ∧
      (∀ fd, σ.accept = .created fd →
        ∃ loop, aePollAddEvent σ.loop fd READABLE false = .ok (1, loop)) ∧
      ∀ fd node conn buf, σ.accept = .added fd → σ.table.nodes.lookup node = none →
        σ.table.conns.lookup conn = none → σ.table.bufs.lookup buf = none →
        ∃ ret table, ret ≠ none ∧ newConn σ.table fd node conn buf = .ok (ret, table) := by
  obtain ⟨l, hinv⟩ := hreach.inv
  refine ⟨?_, ?_, ?_, ?_, ?_⟩
  · intro fd hhas htear
    have hserving : σ.Serving l fd :=
      ⟨hinv.table.linked.has_iff.mp hhas, fun fired hw => htear (.inr ⟨fired, hw⟩)⟩
    rw [hinv.loop.mask_of fd (.inl hserving), hinv.loop.epoll_of fd (.inl hserving)]
    exact ⟨by decide, by simp⟩
  · intro fd hreg
    by_contra hnot
    rw [not_or, hinv.table.linked.has_iff] at hnot
    have hR : ¬σ.Registered l fd := by
      rintro (h | h)
      · exact hnot.1 h.1
      · exact hnot.2 (.inr h)
    have hW : ¬σ.Watched l fd := fun h => hR (h.imp_right .inr)
    rw [hinv.loop.mask_none fd hR, hinv.loop.epoll_none fd hW] at hreg
    rcases hreg with h | h
    · exact absurd h (by decide)
    · exact h rfl
  · intro fd hpc
    obtain ⟨loop, hcall, -⟩ := hinv.create hpc
    exact ⟨loop, hcall⟩
  · intro fd hpc
    obtain ⟨loop, hcall, -⟩ := hinv.add hpc
    exact ⟨loop, hcall⟩
  · intro fd node conn buf hpc hnode hconn hbuf
    obtain ⟨table, l', hcall, -⟩ := hinv.newConn hpc hnode hconn hbuf
    exact ⟨some conn, table, by simp, hcall⟩

/-- A client has connected. -/
lemma reachable_five :
    ∃ σ : Sys 10, Reachable σ ∧ σ.accept = .idle ∧ σ.worker = .polling ∧
      (σ.loop.mask 5).has READABLE := by
  have hfd : IsFd 5 := by constructor <;> decide
  have h₁ : Reachable (n := 10) _ := .tail .refl (.accept rfl hfd (by decide) (by decide))
  have h₂ := h₁.tail (.createFileEvent rfl rfl)
  have h₃ := h₂.tail (.aePollAddEvent rfl rfl)
  have h₄ := h₃.tail (.newConn rfl (rfl : Finmap.lookup 1 _ = none) (rfl : Finmap.lookup 2 _ = none)
    (rfl : Finmap.lookup 3 _ = none) rfl)
  exact ⟨_, h₄, rfl, rfl, by decide⟩

theorem registries_agree_five :
    ∃ σ : Sys 10, Reachable σ ∧ σ.table.Has 5 ∧ (σ.loop.mask 5).has READABLE ∧
      σ.loop.epoll 5 ≠ none := by
  obtain ⟨σ, hreach, hidle, hpolling, hmask⟩ := reachable_five
  obtain ⟨hfwd, hback, -⟩ := registries_agree hreach
  have hhas : σ.table.Has 5 := by
    apply (hback 5 (.inl hmask)).resolve_right
    simp [Sys.Accepting, hidle]
  exact ⟨σ, hreach, hhas, hfwd 5 hhas (by simp [Sys.TearingDown, hpolling])⟩

end Inv

end ActionDB.Net.Event
