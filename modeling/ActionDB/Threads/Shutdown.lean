import ActionDB.Threads.Safety

/-!
# Shutting down

`rocksShutdown` of `kernel/ds.cc`, which the worker that gets the command `shutdown` runs: it frees
the connections of all workers, and exits. No lock is taken, and the other workers run on until the
process is gone.

* In every state that a run can reach, the heaps of every worker hold its connections and nothing
  else (`Owned`): no interleaving leaks a block.
* So `rocksShutdown`, on the trees as they are in such a state, returns from every one of them, and
  leaves nothing behind. But a worker that is in `tcpRead` holds a pointer to a buffer, which was
  good before, and dangles now (`rocksShutdown_frees`).

As in all of `Threads`, `newConn` and `freeConn` have run as a whole. After the race of
`Net.Conn.Race`, `freeConns` dereferences `NULL`; and what the other threads do to a tree while
`rocksShutdown` runs is not part of the model.
-/

namespace ActionDB.Threads

open ActionDB.Found ActionDB.Kernel ActionDB.Net ActionDB.Net.Codec ActionDB.Net.Conn
open ActionDB.Net.Event

variable {n k : ℕ} {σ : Type} {db : KvStore σ (List Byte) (List Byte)} {store : σ}
  {P : Process n k σ}

/-- The loop of `rocksShutdown` over the trees of the workers. The database is deleted before it,
and the process exits behind it. Source: `kernel/ds.cc`, `rocksShutdown`. -/
def rocksShutdown : List Table → Except MemFault (List Table)
  | [] => .ok []
  | T :: Ts => do
      let (_, T) ← freeConns T
      let Ts ← rocksShutdown Ts
      return T :: Ts

/-! ## What is allocated -/

/-- The heaps hold the connections of the table and nothing else. -/
def Owned (T : Table) : Prop := ∃ l, Drifted T l 0 ∧ Covered T l

section Owned

variable {T T' : Table} {fd : Int}

/-- The empty table. -/
lemma owned_empty : Owned .empty := by
  obtain ⟨l, hinv, hcov⟩ := Run.nil.covered
  exact ⟨l, hinv, hcov⟩

/-- `newConn` allocates for the new connection only. -/
lemma Owned.newConn {node conn buf : ℕ} {ret : Ptr} (h : Owned T) (hfd : IsFd fd)
    (hnot : ¬T.Has fd) (hfresh : Fresh T node conn buf)
    (hcall : newConn T fd node conn buf = .ok (ret, T')) : Owned T' := by
  obtain ⟨l, hinv, hcov⟩ := h
  have hnot' : ∀ v ∈ l, v.key ≠ fd := fun v hv hkey =>
    hnot (hinv.toLinked.has_iff.mpr ⟨v, hv, hkey⟩)
  obtain ⟨l₁, l₂, root, nodes, rfl, hins, hnew, hlinked⟩ := hinv.toLinked.newConn_fresh hfd hnot'
    hfresh.node_free hfresh.conn_free hfresh.buf_free
  obtain ⟨-, rfl⟩ := ok_pair_inj hnew hcall
  refine ⟨_, ⟨hlinked, ?_⟩, hcov.newConn hfresh.conn_free hins⟩
  have hcnt := hinv.connCnt_eq
  simp only [List.length_append, List.length_cons] at hcnt ⊢
  omega

/-- `freeConn` frees all of a connection. -/
lemma Owned.freeConn {ret : Int} (h : Owned T) (hfd : IsInt fd)
    (hcall : freeConn T fd = .ok (ret, T')) : Owned T' := by
  obtain ⟨l, hinv, hcov⟩ := h
  rcases hinv.freeConn_cases hfd with
    ⟨l₁, v, l₂, r, T₁, rfl, rfl, hfree, hinv', hrel⟩ | ⟨-, hfree⟩
  · obtain ⟨-, rfl⟩ := ok_pair_inj hfree hcall
    exact ⟨_, hinv', hcov.released (hrel rfl)⟩
  · obtain ⟨-, rfl⟩ := ok_pair_inj hfree hcall
    exact ⟨l, hinv, hcov⟩

/-- A buffer that is changed in place is still owned. -/
lemma Owned.changes {buf : Ptr} {b b' : Buffer} (h : Owned T) (hch : Changes T buf b b' T') :
    Owned T' := by
  obtain ⟨l, hinv, hcov⟩ := h
  cases buf with
  | none => cases hch.load
  | some p =>
      obtain ⟨hlook, rfl⟩ := changes_iff.mp hch
      refine ⟨l, ⟨⟨hinv.holds, hinv.owns, hinv.buffered.write p b'⟩, hinv.connCnt_eq⟩, hcov.nodes,
        hcov.conns, ?_⟩
      intro q hq
      refine hcov.bufs q ?_
      by_cases hqp : q = p
      · rw [hqp, hlook]
        simp
      · rwa [withBuffer, Finmap.lookup_insert_of_ne _ hqp] at hq

/-- `freeConns` releases everything. -/
lemma Owned.freeConns (h : Owned T) : freeConns T = .ok (1, .empty) := by
  obtain ⟨l, hinv, hcov⟩ := h
  have hcnt := hinv.connCnt_eq
  obtain ⟨vs, T', hperm, hrels, hloop, hinv'⟩ :=
    freeConnsLoop_releases hinv (by omega : l.length < T.connCnt.toNat + 1)
  obtain rfl := (hrels.covered (hcov.perm hperm.symm)).eq_empty hinv'
  exact hloop

end Owned

/-- A step of a worker leaks nothing. -/
lemma Owned.work {w w' : Thread n} {S S' : Shared σ} {opened : Finset Int} {acc : Event.AcceptPc}
    {l : List Item} (h : Owned w.table) (hsys : SysInv (w.view opened acc) l)
    (hwork : Work db w S w' S') : Owned w'.table := by
  cases hwork with
  | poll | skip | unknown | deleteFileEvent | done => exact h
  | call _ _ _ hbuf => exact h.changes hbuf
  | recv _ _ _ hbuf => exact h.changes hbuf
  | command _ _ _ _ hbuf => exact h.changes hbuf
  | drained _ _ hbuf => exact h.changes hbuf
  | @freeConn fd _ fired _ hpc hcall =>
      have hview : (w.view opened acc).worker = .deleted fd fired := congrArg Pc.view hpc
      obtain ⟨v, hv, rfl⟩ := hsys.tearing fd (.inr ⟨fired, hview⟩)
      exact h.freeConn (hsys.table.holds.keys v hv).isInt hcall

/-- **No interleaving leaks a block.** -/
theorem Reachable.owned (hreach : Reachable db store P) (i : Fin k) :
    Owned (P.workers i).table := by
  induction hreach generalizing i with
  | refl => exact owned_empty
  | @tail P P' hrun hstep ih =>
      have hinv : Inv db store P := Reachable.inv hrun
      cases hstep with
      | @work j w S hwork =>
          obtain ⟨l, hsys⟩ := hinv.view j
          exact forall_setWorker (fun _ w => Owned w.table) ((ih j).work hsys hwork)
            (fun j' _ => ih j') i
      | accept | others => exact ih i
      | @createFileEvent j _ _ loop _ _ =>
          exact forall_setWorker (w := { P.workers j with loop }) (fun _ w => Owned w.table) (ih j)
            (fun j' _ => ih j') i
      | @aePollAddEvent j _ _ loop _ _ _ =>
          exact forall_setWorker (w := { P.workers j with loop }) (fun _ w => Owned w.table) (ih j)
            (fun j' _ => ih j') i
      | @newConn j fd _ _ _ _ table hpc hfresh hcall =>
          obtain ⟨l, hsys⟩ := hinv.view j
          have hview : (P.view j).accept = .added fd := AcceptPc.view_eq_added.mpr hpc
          obtain ⟨hfd, -, -, hnot⟩ := hsys.accepting fd (.inr (.inr hview))
          have hhas : ¬(P.workers j).table.Has fd := by
            intro h
            obtain ⟨v, hv, hkey⟩ := hsys.table.linked.has_iff.mp h
            exact hnot v hv hkey
          exact forall_setWorker (w := { P.workers j with table }) (fun _ w => Owned w.table)
            ((ih j).newConn hfd hhas hfresh hcall) (fun j' _ => ih j') i

/-! ## The command -/

/-- One tree after the other. -/
lemma rocksShutdown_of_owned {Ts : List Table} (h : ∀ T ∈ Ts, Owned T) :
    rocksShutdown Ts = .ok (List.replicate Ts.length .empty) := by
  induction Ts with
  | nil => rfl
  | cons T Ts ih =>
      have hfirst := (h T (.head _)).freeConns
      have hrest := ih fun T' hT' => h T' (.tail _ hT')
      simp only [rocksShutdown, hfirst, hrest, ok_bind, List.length_cons, List.replicate_succ]
      rfl

/-- **`rocksShutdown` frees everything, also what others use**: on the trees of any state that a run
can reach it returns and leaves them empty; and the buffer that a worker in `tcpRead` is working on,
which was allocated, is gone. -/
theorem rocksShutdown_frees (hreach : Reachable db store P) :
    rocksShutdown (List.ofFn fun i => (P.workers i).table) = .ok (List.replicate k .empty) ∧
      ∀ i fd mask buf fired, (P.workers i).pc = .reading fd mask buf fired ∨
          (P.workers i).pc = .dispatching fd mask buf fired →
        (∃ b, (P.workers i).table.bufs.load buf = .ok b) ∧
          Table.empty.bufs.load buf = .error .dangling := by
  constructor
  · rw [rocksShutdown_of_owned, List.length_ofFn]
    intro T hT
    obtain ⟨i, rfl⟩ := List.mem_ofFn.mp hT
    exact hreach.owned i
  · intro i fd mask buf fired hpc
    obtain ⟨-, p, rfl, hp⟩ := (hreach.inv.thread i).calling fd mask buf fired hpc
    obtain ⟨-, B, hB, -⟩ := (hreach.inv.thread i).session fd p hp
    exact ⟨⟨B, Heap.load_of_lookup hB⟩, rfl⟩

/-- Two workers, the second of which is reading. -/
theorem rocksShutdown_frees_received :
    ∃ P : Process 10 2 (List Byte → Option (List Byte)),
      Reachable (KvStore.map _ _) (fun _ => none) P ∧
      rocksShutdown (List.ofFn fun i => (P.workers i).table) = .ok [.empty, .empty] ∧
      (∃ b, (P.workers 1).table.bufs.load (some 3) = .ok b) ∧
      Table.empty.bufs.load (some 3) = .error .dangling := by
  obtain ⟨P, hP⟩ := exists_received [42, 9, 48, 48] (by decide) (by decide)
  obtain ⟨hfrees, hbuf⟩ := rocksShutdown_frees hP.reachable
  exact ⟨P, hP.reachable, hfrees, hbuf 1 5 READABLE (some 3) [] (.inr hP.pc)⟩

end ActionDB.Threads
