import ActionDB.Net.Accept
import ActionDB.Threads.Interleave

/-!
# The accept thread

`tcpAcceptCallback` as the program text has it, connected to the steps of the accept thread in
`Threads.Process`. In every state that a run can reach, whatever the workers are doing, a call on a
new client returns its descriptor, and is a run of four steps: to the state that
`tcpAcceptCallback` computes, with the connection in the worker that `minconnsindex` chooses
(`tcpAcceptCallback_steps`).
-/

namespace ActionDB.Threads

open ActionDB.Found ActionDB.Kernel ActionDB.Net ActionDB.Net.Codec ActionDB.Net.Conn
open ActionDB.Net.Event

variable {n k : ℕ} {σ : Type} {db : KvStore σ (List Byte) (List Byte)} {store : σ}
  {P : Process n k σ} {i : Fin k} {fd : Int}

/-- The index that is chosen is that of a worker. -/
lemma minconnsindex_lt {cnts : List Int} (hne : cnts ≠ []) : minconnsindex cnts < cnts.length := by
  rcases minconnsindexFrom_spec 0 0 cnts with ⟨h, -⟩ | ⟨k, c, c', h, -, -, hk, -⟩
  · rw [minconnsindex, h]
    exact List.length_pos_iff.mpr hne
  · obtain ⟨hlt, -⟩ := List.getElem?_eq_some_iff.mp hk
    rw [minconnsindex, h]
    omega

/-- The event loop and the connections of a worker. -/
def Thread.worker (w : Thread n) : Worker n := ⟨w.loop, w.table⟩

/-- The workers as `tcpAcceptCallback` sees them. -/
def Process.list (P : Process n k σ) : List (Worker n) := List.ofFn fun i => (P.workers i).worker

/-! ## The steps -/

/-- The process with another worker `i`, and the accept thread elsewhere. -/
def Process.accepting (P : Process n k σ) (i : Fin k) (w : Thread n) (acc : AcceptPc k) :
    Process n k σ :=
  { P.setWorker i w with accept := acc }

section Steps

variable {w : Thread n} {acc : AcceptPc k}

/-- The worker that was put. -/
lemma workers_accepting : (P.accepting i w acc).workers i = w := workers_setWorker_self w

/-- The later worker and the later place count. -/
lemma accepting_accepting (w' : Thread n) (acc' : AcceptPc k) :
    (P.accepting i w acc).accepting i w' acc' = P.accepting i w' acc' := by
  simp only [Process.accepting, Process.setWorker, Function.update_idem]

/-- What the worker that is chosen sees of the accept thread. -/
lemma exists_view (hinv : Inv db store (P.accepting i w acc)) :
    ∃ l, SysInv (w.view P.opened (acc.view i)) l := by
  obtain ⟨l, hsys⟩ := hinv.view i
  unfold Process.view at hsys
  rw [workers_accepting] at hsys
  exact ⟨l, hsys⟩

/-- `createFileEvent` succeeds. -/
lemma exists_create (hinv : Inv db store (P.accepting i w (.accepted i fd))) :
    ∃ loop, createFileEvent w.loop fd READABLE .tcpReadCallback = .ok (1, loop) ∧
      Step db (P.accepting i w (.accepted i fd))
        (P.accepting i { w with loop } (.created i fd)) := by
  obtain ⟨l, hsys⟩ := exists_view hinv
  obtain ⟨loop, hcall, -⟩ := hsys.create (if_pos rfl)
  refine ⟨loop, hcall, ?_⟩
  have hcall' : createFileEvent ((P.accepting i w (.accepted i fd)).workers i).loop fd READABLE
      .tcpReadCallback = .ok (1, loop) := by
    rwa [workers_accepting]
  have hstep : Step db _ ((P.accepting i w (.accepted i fd)).accepting i
    { (P.accepting i w (.accepted i fd)).workers i with loop } (.created i fd)) :=
    .createFileEvent rfl hcall'
  rwa [accepting_accepting, workers_accepting] at hstep

/-- `aePollAddEvent` succeeds. -/
lemma exists_add (hinv : Inv db store (P.accepting i w (.created i fd))) :
    ∃ loop, aePollAddEvent w.loop fd READABLE false = .ok (1, loop) ∧
      Step db (P.accepting i w (.created i fd)) (P.accepting i { w with loop } (.added i fd)) := by
  obtain ⟨l, hsys⟩ := exists_view hinv
  obtain ⟨loop, hcall, -⟩ := hsys.add (if_pos rfl)
  refine ⟨loop, hcall, ?_⟩
  have hcall' : aePollAddEvent ((P.accepting i w (.created i fd)).workers i).loop fd READABLE
      false = .ok (1, loop) := by
    rwa [workers_accepting]
  have hstep : Step db _ ((P.accepting i w (.created i fd)).accepting i
    { (P.accepting i w (.created i fd)).workers i with loop } (.added i fd)) :=
    .aePollAddEvent rfl hcall' (by decide)
  rwa [accepting_accepting, workers_accepting] at hstep

/-- `newConn` succeeds, with any addresses that are not in use. -/
lemma exists_newConn {node conn buf : ℕ} (hinv : Inv db store (P.accepting i w (.added i fd)))
    (hfresh : Fresh w.table node conn buf) :
    ∃ table, newConn w.table fd node conn buf = .ok (some conn, table) ∧
      Step db (P.accepting i w (.added i fd)) { P.accepting i { w with table } .idle with
        shared := { P.shared with history := P.shared.history.connected fd } } := by
  obtain ⟨l, hsys⟩ := exists_view hinv
  obtain ⟨table, -, hcall, -⟩ :=
    hsys.newConn (if_pos rfl) hfresh.node_free hfresh.conn_free hfresh.buf_free
  refine ⟨table, hcall, ?_⟩
  have hfresh' : Fresh ((P.accepting i w (.added i fd)).workers i).table node conn buf := by
    rwa [workers_accepting]
  have hcall' : newConn ((P.accepting i w (.added i fd)).workers i).table fd node conn buf =
      .ok (some conn, table) := by
    rwa [workers_accepting]
  have hstep : Step db _ { (P.accepting i w (.added i fd)).accepting i
      { (P.accepting i w (.added i fd)).workers i with table } .idle with
      shared := { P.shared with history := P.shared.history.connected fd } } :=
    .newConn rfl hfresh' hcall'
  rwa [accepting_accepting, workers_accepting] at hstep

/-- The registration with one worker. -/
lemma register_steps {x : AcceptResult} (hinv : Inv db store (P.accepting i w (.accepted i fd)))
    (hdenied : x.denied = false) (hfresh : Fresh w.table x.node x.conn x.buf) :
    ∃ w', register w.worker fd x = .ok (fd, w') ∧
      Relation.ReflTransGen (Step db) (P.accepting i w (.accepted i fd))
        { P.accepting i ⟨w'.loop, w'.table, w.pc⟩ .idle with
          shared := { P.shared with history := P.shared.history.connected fd } } := by
  obtain ⟨loop₁, hcreate, hstep₁⟩ := exists_create hinv
  have hinv₁ := hinv.step hstep₁
  obtain ⟨loop₂, hadd, hstep₂⟩ := exists_add hinv₁
  have hinv₂ := hinv₁.step hstep₂
  obtain ⟨table, hnew, hstep₃⟩ := exists_newConn hinv₂ hfresh
  refine ⟨⟨loop₂, table⟩, ?_, .tail (.tail (.single hstep₁) hstep₂) hstep₃⟩
  simp only [register, Thread.worker, hcreate, hadd, hdenied, hnew, liftLoop_ok, liftMem_ok,
    ok_bind]
  rfl

end Steps

/-! ## The call -/

/-- The process after worker `i`, now with the event loop and the connections of `w`, was given the
connection of a descriptor. -/
def Process.connect (P : Process n k σ) (i : Fin k) (fd : Int) (w : Worker n) : Process n k σ where
  workers := Function.update P.workers i ⟨w.loop, w.table, (P.workers i).pc⟩
  accept := .idle
  opened := insert fd P.opened
  sockets := insert fd P.sockets
  shared := { P.shared with history := P.shared.history.connected fd }

/-- What the call makes of the list of workers. -/
lemma list_connect (w : Worker n) : (P.connect i fd w).list = P.list.set i w := by
  refine List.ext_getElem (by simp [Process.list]) fun j h₁ h₂ => ?_
  simp only [Process.list, Process.connect, List.getElem_ofFn, List.getElem_set]
  by_cases hj : (i : ℕ) = j
  · subst hj
    simp [Thread.worker]
  · rw [if_neg hj, Function.update_of_ne]
    exact fun h => hj (by rw [← h])

/-- **A client is accepted in every state that a run can reach**, whatever the workers are doing:
`tcpAcceptCallback` returns the new descriptor, which the worker of index `minconnsindex` now
serves, and the call is a run of the steps of the accept thread. -/
theorem tcpAcceptCallback_steps (hreach : Reachable db store P) (hk : 0 < k)
    (hidle : P.accept = .idle) (x : AcceptResult) (hfd : IsFd x.fd) (hpos : x.fd > 0)
    (hlt : x.fd < n) (hnew : x.fd ∉ P.opened) (hnonBlock : x.nonBlock = true)
    (hdenied : x.denied = false) (hfresh : ∀ i, Fresh (P.workers i).table x.node x.conn x.buf) :
    ∃ (i : Fin k) (w : Worker n), i = minconnsindex (P.list.map (·.table.connCnt)) ∧
      tcpAcceptCallback P.list x = .ok (x.fd, (P.connect i x.fd w).list) ∧
      Relation.ReflTransGen (Step db) P (P.connect i x.fd w) := by
  have hne : P.list.map (·.table.connCnt) ≠ [] := by
    apply List.ne_nil_of_length_pos
    simp [Process.list, hk]
  have hi := minconnsindex_lt hne
  rw [List.length_map, Process.list, List.length_ofFn] at hi
  obtain ⟨i, hindex⟩ : ∃ i : Fin k, (i : ℕ) = minconnsindex (P.list.map (·.table.connCnt)) :=
    ⟨⟨_, hi⟩, rfl⟩
  -- the first step
  have hself : ∀ acc, Process.accepting { P with
      opened := insert x.fd P.opened, sockets := insert x.fd P.sockets } i (P.workers i) acc =
      { P with
        opened := insert x.fd P.opened, sockets := insert x.fd P.sockets, accept := acc } := by
    intro acc
    simp only [Process.accepting, Process.setWorker, Function.update_eq_self]
  have hstep : Step db P _ := .accept (i := i) hidle hfd hlt hnew
  rw [if_pos hpos, ← hself] at hstep
  obtain ⟨w, hregister, hrun⟩ := register_steps (hreach.inv.step hstep) hdenied (hfresh i)
  refine ⟨i, w, hindex, ?_, .head hstep hrun⟩
  have hget : P.list[(i : ℕ)]? = some (P.workers i).worker := by
    simp [Process.list]
  have haccept : tcpAccept x = x.fd := by
    unfold tcpAccept
    rw [if_neg (by omega), if_pos hnonBlock]
  simp only [tcpAcceptCallback, haccept, hpos, if_true, ← hindex, hget, hregister, ok_bind,
    list_connect]
  rfl

end ActionDB.Threads
