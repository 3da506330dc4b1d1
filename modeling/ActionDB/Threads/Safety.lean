import ActionDB.Net.Codec.Fragment
import ActionDB.Threads.Interleave

/-!
# What every interleaving guarantees

Three results about the process, for every run and every order in which its threads take their
steps.

* `executes_in_order`: the workers share one store, and yet the store and all the replies are those
  of the executed messages one after the other. Of these, the messages of one connection are the
  first of those that the connection, served alone, would have executed; and all of them, unless a
  worker is in the middle of dispatching them.
* `workers_agree`: the registries of every worker agree, and no descriptor is in two workers.
* `stuck_iff`: a worker gets stuck at one place only, at a message that it cannot decode, or that
  ends the process.
-/

namespace ActionDB.Threads

open ActionDB.Found ActionDB.Kernel ActionDB.Net ActionDB.Net.Codec ActionDB.Net.Conn
open ActionDB.Net.Event

variable {n k : ℕ} {σ : Type} {db : KvStore σ (List Byte) (List Byte)} {store : σ}
  {P : Process n k σ} {i : Fin k} {fd : Int}

/-! ## One order of the messages -/

/-- A worker is dispatching the messages of the connection. -/
def Process.Dispatching (P : Process n k σ) (c : ℕ) : Prop :=
  ∃ i fd mask buf fired, (P.workers i).pc = .dispatching fd mask buf fired ∧
    P.shared.history.conn fd = c

lemma phase_eq_dispatching {pc : Pc} (h : pc.phase fd = .dispatching) :
    ∃ mask buf fired, pc = .dispatching fd mask buf fired := by
  cases pc with
  | dispatching f mask buf fired =>
      simp only [Pc.phase] at h
      split_ifs at h with hf
      subst hf
      exact ⟨mask, buf, fired, rfl⟩
  | eof f mask fired | deleted f fired =>
      simp only [Pc.phase] at h
      split_ifs at h
  | polling | firing | reading => cases h

/-- Every connection that was made is where its own reads have led it. -/
lemma Inv.session (hinv : Inv db store P) {c : ℕ} (hc : c < P.shared.history.count) :
    ∃ ph B, Session (P.shared.history.reads c) (P.shared.history.messagesOf c) ph B ∧
      (ph = .dispatching → P.Dispatching c) := by
  rcases hinv.made c hc with ⟨i, f, p, hp, rfl⟩ | ⟨B, hs⟩
  · obtain ⟨-, B, -, hs⟩ := (hinv.thread i).session f p hp
    refine ⟨_, B, hs, fun hph => ?_⟩
    obtain ⟨mask, buf, fired, hpc⟩ := phase_eq_dispatching hph
    exact ⟨i, f, mask, buf, fired, hpc, rfl⟩
  · exact ⟨.closed, B, hs, by simp⟩

/-- **The messages are executed one after the other**, and those of each connection in the order in
which it sent them. -/
theorem executes_in_order (hreach : Reachable db store P) :
    serveAll db store P.shared.history.messages =
        (P.shared.history.replies, .ok P.shared.store) ∧
      ∀ c, (P.shared.history.messagesOf c).map dispatch <+:
          (dispatched (connEvents (P.shared.history.reads c))).map .ok ∧
        (¬P.Dispatching c → (P.shared.history.messagesOf c).map dispatch =
          (dispatched (connEvents (P.shared.history.reads c))).map .ok) := by
  have hinv := hreach.inv
  refine ⟨hinv.recorded.served, fun c => ?_⟩
  rcases lt_or_ge c P.shared.history.count with hc | hc
  · obtain ⟨ph, B, hs, hph⟩ := hinv.session hc
    exact ⟨hs.messages_prefix, fun hnot => hs.messages_eq fun h => hnot (hph h)⟩
  · obtain ⟨hreads, hmessages⟩ := hinv.recorded.unmade c hc
    rw [hreads, hmessages]
    exact ⟨List.nil_prefix, fun _ => rfl⟩

lemma prepare_initBuf : prepare initBuf = .ok (initBuf.cleared (Nat.zero_le _)) :=
  prepare_of_le (Nat.zero_le _)

lemma receive_initBuf (bytes : List Byte) (h : bytes.length ≤ 100) :
    (prepare (initBuf.cleared (Nat.zero_le _))).bind (receive · (.data bytes)) =
      .ok (received bytes h) := by
  have hkept : initBuf.corruptMessagelen ≤ 100 := Nat.zero_le _
  have hroom : initBuf.corruptMessagelen + (ReadResult.data bytes).bytes.length ≤ 100 := by
    show 0 + bytes.length ≤ 100
    omega
  rw [prepare_cleared hkept]
  exact receive_cleared hkept hroom

/-- Two workers on the empty store: a client has connected, worker 1 has its connection, and the
first `read(2)` has returned `bytes`. -/
structure Received (bytes : List Byte) (h : bytes.length ≤ 100)
    (P : Process 10 2 (List Byte → Option (List Byte))) : Prop where
  reachable : Reachable (KvStore.map _ _) (fun _ => none) P
  idle : P.accept = .idle
  opened : P.opened = {5}
  worker₀ : P.workers 0 = ⟨createEventLoop 10, .empty, .polling⟩
  pc : (P.workers 1).pc = .dispatching 5 READABLE (some 3) []
  buffer : (P.workers 1).table.bufs.lookup 3 = some (received bytes h)
  connCnt : (P.workers 1).table.connCnt = 1
  fresh : Fresh (P.workers 1).table 4 5 6
  mask : (P.workers 1).loop.mask 5 = READABLE
  store : P.shared.store = fun _ => none
  conn : P.shared.history.conn 5 = 0
  replies : P.shared.history.replies = []
  reads : P.shared.history.reads = Function.update (fun _ => []) 0 [.data bytes]

/-- The server gets there. -/
lemma exists_received (bytes : List Byte) (h : bytes.length ≤ 100) (hpos : 1 ≤ bytes.length) :
    ∃ P, Received bytes h P := by
  have hfd : IsFd 5 := by constructor <;> decide
  have h₁ : Reachable (n := 10) (k := 2) (KvStore.map (List Byte) (List Byte)) (fun _ => none) _ :=
    .tail .refl (.accept (i := 1) rfl hfd (by decide) (by decide))
  have h₂ := h₁.tail (.createFileEvent rfl rfl)
  have h₃ := h₂.tail (.aePollAddEvent rfl rfl (by decide))
  have hfresh : Fresh Table.empty 1 2 3 := ⟨rfl, rfl, rfl⟩
  have h₄ := h₃.tail (.newConn rfl hfresh rfl)
  have hpoll : aePollPoll 10 (some [⟨5, true, false, false, false⟩]) = .ok _ := rfl
  have h₅ := h₄.tail (.work (i := 1) (.poll rfl (by exact ⟨by decide, by decide⟩) hpoll))
  have h₆ := h₅.tail (.work (i := 1) (.call ⟨rfl, 5, rfl, by decide, rfl⟩ rfl prepare_initBuf
    ⟨rfl, rfl⟩))
  have h₇ := h₆.tail (.work (i := 1) (.recv (x := .data bytes) rfl (by exact ⟨hpos, h⟩)
    (receive_initBuf bytes h) ⟨rfl, rfl⟩))
  exact ⟨_, h₇, rfl, rfl, rfl, rfl, rfl, rfl, ⟨rfl, rfl, rfl⟩, rfl, rfl, rfl, rfl, rfl⟩

/-! ## The registries -/

/-- The worker is in the middle of closing the connection of the descriptor. -/
def Thread.TearingDown (w : Thread n) (fd : Int) : Prop :=
  (∃ mask fired, w.pc = .eof fd mask fired) ∨ ∃ fired, w.pc = .deleted fd fired

/-- The accept thread is in the middle of registering the descriptor with the worker. -/
def Process.AcceptingFor (P : Process n k σ) (i : Fin k) (fd : Int) : Prop := P.accept.Of i fd

/-- The worker has something about the descriptor, in its tree, in its table of events or in its
epoll instance, or is about to be given it. -/
def Process.Registered (P : Process n k σ) (i : Fin k) (fd : Int) : Prop :=
  (P.workers i).table.Has fd ∨ (P.workers i).loop.mask fd ≠ NONE ∨
    (P.workers i).loop.epoll fd ≠ none ∨ P.AcceptingFor i fd

/-- What is registered has a connection, or is being registered. -/
lemma Inv.has_or_accepting (hinv : Inv db store P) (h : P.Registered i fd) :
    (P.workers i).table.Has fd ∨ P.AcceptingFor i fd := by
  obtain ⟨l, hsys⟩ := hinv.view i
  by_contra hnot
  rw [not_or] at hnot
  have hR : ¬(P.view i).Registered l fd := by
    rintro (h | h)
    · exact hnot.1 (hsys.table.linked.has_iff.mpr h.1)
    · exact hnot.2 (accepting_of_view (.inr h))
  have hW : ¬(P.view i).Watched l fd := fun h => hR (h.imp_right .inr)
  rcases h with h | h | h | h
  · exact hnot.1 h
  · exact h (hsys.loop.mask_none fd hR)
  · exact h (hsys.loop.epoll_none fd hW)
  · exact hnot.2 h

/-- A connection that is not being closed is registered with its worker. -/
lemma Inv.readable (hinv : Inv db store P) (hhas : (P.workers i).table.Has fd)
    (htear : ¬(P.workers i).TearingDown fd) :
    (P.workers i).loop.mask fd = READABLE ∧ (P.workers i).loop.epoll fd = some READABLE ∧
      (P.workers i).loop.rproc fd = some .tcpReadCallback := by
  obtain ⟨l, hsys⟩ := hinv.view i
  have hserving : (P.view i).Serving l fd := by
    refine ⟨hsys.table.linked.has_iff.mp hhas, fun fired hpc => htear (.inr ?_)⟩
    change (P.workers i).pc.view = .deleted fd fired at hpc
    cases hw : (P.workers i).pc with
    | deleted f fired' =>
        rw [hw] at hpc
        cases hpc
        exact ⟨fired, rfl⟩
    | polling | firing | reading | dispatching | eof =>
        rw [hw] at hpc
        cases hpc
  exact ⟨hsys.loop.mask_of fd (.inl hserving), hsys.loop.epoll_of fd (.inl hserving),
    hsys.loop.proc_of fd (.inl hserving)⟩

/-- **The registries of all workers agree**: a connection is in the table of events and in the epoll
instance of its worker, unless it is being closed; and no two workers have anything about the same
descriptor, or are about to. -/
theorem workers_agree (hreach : Reachable db store P) :
    (∀ i fd, (P.workers i).table.Has fd → ¬(P.workers i).TearingDown fd →
      (P.workers i).loop.mask fd = READABLE ∧ (P.workers i).loop.epoll fd = some READABLE) ∧
      ∀ i j fd, P.Registered i fd → P.Registered j fd → i = j := by
  have hinv := hreach.inv
  constructor
  · intro i fd hhas htear
    obtain ⟨hmask, hepoll, -⟩ := hinv.readable hhas htear
    exact ⟨hmask, hepoll⟩
  · intro i j fd hi hj
    -- a descriptor that is being registered is in no tree
    have hnew : ∀ i j, P.AcceptingFor i fd → ¬(P.workers j).table.Has fd := by
      intro i j hacc hhas
      obtain ⟨p, hp⟩ := hinv.bufferAt_of_has hhas
      exact hinv.fresh fd ⟨i, hacc⟩ j p hp
    rcases hinv.has_or_accepting hi with hi | hi
    · rcases hinv.has_or_accepting hj with hj | hj
      · obtain ⟨p, hp⟩ := hinv.bufferAt_of_has hi
        obtain ⟨q, hq⟩ := hinv.bufferAt_of_has hj
        exact hinv.apart i j fd p q hp hq
      · exact absurd hi (hnew j i hj)
    · rcases hinv.has_or_accepting hj with hj | hj
      · exact absurd hj (hnew i j hi)
      · rcases hi with hi | hi | hi <;> rcases hj with hj | hj | hj <;>
          simpa using hi.symm.trans hj

/-- Nothing about the descriptor of the client is in worker 0. -/
theorem workers_agree_received :
    ∃ P : Process 10 2 (List Byte → Option (List Byte)),
      Reachable (KvStore.map _ _) (fun _ => none) P ∧ P.Registered 1 5 ∧ ¬P.Registered 0 5 := by
  obtain ⟨P, hP⟩ := exists_received [42, 9, 48, 48] (by decide) (by decide)
  have hreg : P.Registered 1 5 := by
    refine .inr (.inl ?_)
    rw [hP.mask]
    decide
  refine ⟨P, hP.reachable, hreg, fun hreg' => ?_⟩
  have h := (workers_agree hP.reachable).2 0 1 5 hreg' hreg
  exact absurd h (by decide)

/-! ## Where a worker stops -/

/-- The worker has a message before it that it cannot decode, or whose execution does not return:
a command that faults, or `shutdown`. -/
structure Stops (db : KvStore σ (List Byte) (List Byte)) (w : Thread n) (S : Shared σ) : Prop where
  stops : ∃ fd mask buf fired b, w.pc = .dispatching fd mask buf fired ∧
    w.table.bufs.load buf = .ok b ∧
    ((∃ f, decod .record b = .error f) ∨
      ∃ ret b' e, decod .record b = .ok (ret, b') ∧ ¬(b'.parseFlag = 1 ∨ b'.parseFlag = -1) ∧
        serveMessage db S.store b'.argv = .error e)

section Progress

variable {w : Thread n} {S : Shared σ} {opened : Finset Int} {acc : Event.AcceptPc}
  {l : List Item} {mask : Mask} {buf : Ptr} {fired : List (Int × Mask)}

/-- The buffer of a connection can be read and written. -/
lemma ThreadInv.exists_changes (hth : ThreadInv w S.history) {p : ℕ} (hp : w.BufferAt fd p) :
    ∃ B, w.table.bufs.load (some p) = .ok B ∧ B.corruptMessagelen ≤ 100 ∧
      ∀ B', Changes w.table (some p) B B' (withBuffer w.table p B') := by
  obtain ⟨-, B, hB, hs⟩ := hth.session fd p hp
  exact ⟨B, Heap.load_of_lookup hB, hs.kept_le.1, fun B' => changes_iff.mpr ⟨hB, rfl⟩⟩

/-- A poll may have any answer that the kernel can give. -/
lemma exists_work_polling (db : KvStore σ (List Byte) (List Byte)) (S : Shared σ)
    (hpc : w.pc = .polling) {answer : Option (List EpollEvent)}
    (hreports : Reports w.loop.epoll n answer) :
    ∃ fired, aePollPoll n answer = .ok fired ∧ Work db w S { w with pc := .firing fired } S := by
  obtain ⟨fired, hcall, -⟩ := aePollPoll_ok hreports
  exact ⟨fired, hcall, .poll hpc hreports hcall⟩

/-- An event is dispatched. -/
lemma exists_work_firing (hinv : SysInv (w.view opened acc) l) (hth : ThreadInv w S.history)
    (hpc : w.pc = .firing ((fd, mask) :: fired)) : ∃ w' S', Work db w S w' S' := by
  have hfired := hth.fired_lt
  rw [hpc] at hfired
  obtain ⟨h₀, h₁⟩ := hfired (fd, mask) (.head _)
  obtain ⟨i, hi⟩ := exists_slot h₀ h₁
  have hat := at?_of_slot hi
  by_cases hmask : ((w.loop.fEvents i).mask &&& mask).has READABLE
  swap
  · exact ⟨_, _, .skip hpc hat hmask⟩
  -- the callback of an event that can be read is `tcpReadCallback`
  have hread : (w.loop.mask fd &&& mask).has READABLE := by rwa [mask_of_slot hi]
  have hreg : (w.view opened acc).Registered l fd := by
    by_contra hnot
    have hnone : w.loop.mask fd = NONE := hinv.loop.mask_none fd hnot
    have hzero : ∀ m : Mask, ¬(NONE &&& m).has READABLE := by decide
    rw [hnone] at hread
    exact hzero mask hread
  have hproc : w.loop.rproc fd = some .tcpReadCallback := hinv.loop.proc_of fd hreg
  unfold EventLoop.rproc at hproc
  rw [hi] at hproc
  have hcalls : w.Calls fd mask fired := ⟨hpc, i, hat, hmask, hproc⟩
  obtain ⟨hfd, -⟩ := hcalls.isFd hinv
  rcases hinv.table.bufferOf_cases hfd.isInt with ⟨v, -, a, c, p, -, -, hp⟩ | ⟨-, hp⟩
  · obtain ⟨B, -, hfit, hch⟩ := hth.exists_changes ⟨hfd.isInt, hp⟩
    exact ⟨_, _, .call hcalls hp (prepare_of_le hfit) (hch _)⟩
  · exact ⟨_, _, .unknown hcalls hp⟩

/-- A read may have any result that fits. -/
lemma exists_work_reading (db : KvStore σ (List Byte) (List Byte)) (hth : ThreadInv w S.history)
    (hpc : w.pc = .reading fd mask buf fired) :
    ∃ b, w.table.bufs.load buf = .ok b ∧ ∀ x : ReadResult, x.Fits b →
      ∃ w', Work db w S w' { S with history := S.history.received fd x } := by
  obtain ⟨-, p, rfl, hp⟩ := hth.calling fd mask buf fired (.inl hpc)
  obtain ⟨B, hload, hfit, hch⟩ := hth.exists_changes hp
  refine ⟨B, hload, fun x hx => ?_⟩
  have hroom : B.corruptMessagelen + x.bytes.length ≤ 100 := hx.room hfit
  exact ⟨_, .recv hpc hx (by rw [prepare_receive, dif_pos hroom]) (hch _)⟩

/-- A message is executed, or there is none, or the worker stops at it. -/
lemma exists_work_dispatching (hth : ThreadInv w S.history)
    (hpc : w.pc = .dispatching fd mask buf fired) :
    (∃ w' S', Work db w S w' S') ∨ Stops db w S := by
  obtain ⟨-, p, rfl, hp⟩ := hth.calling fd mask buf fired (.inr hpc)
  obtain ⟨B, hload, -, hch⟩ := hth.exists_changes hp
  cases hd : decod .record B with
  | error f => exact .inr ⟨fd, mask, some p, fired, B, hpc, hload, .inl ⟨f, hd⟩⟩
  | ok r =>
      obtain ⟨ret, b'⟩ := r
      by_cases hflag : b'.parseFlag = 1 ∨ b'.parseFlag = -1
      · exact .inl ⟨_, _, .drained hpc ⟨⟨ret, hd⟩, hflag⟩ (hch b')⟩
      · cases hserve : serveMessage db S.store b'.argv with
        | ok r => exact .inl ⟨_, _, .command hpc hd hflag hserve (hch b')⟩
        | error e =>
            exact .inr ⟨fd, mask, some p, fired, B, hpc, hload,
              .inr ⟨ret, b', e, hd, hflag, hserve⟩⟩

/-- A worker goes on, wherever it is, unless it stops. -/
lemma exists_work (hinv : SysInv (w.view opened acc) l) (hth : ThreadInv w S.history) :
    (∃ w' S', Work db w S w' S') ∨ Stops db w S := by
  cases hpc : w.pc with
  | polling =>
      have hfails : Reports w.loop.epoll n none := trivial
      obtain ⟨fired, -, hwork⟩ := exists_work_polling db S hpc hfails
      exact .inl ⟨_, _, hwork⟩
  | firing fired =>
      cases fired with
      | nil => exact .inl ⟨_, _, .done hpc⟩
      | cons e fired => exact .inl (exists_work_firing hinv hth hpc)
  | reading fd mask buf fired =>
      obtain ⟨b, -, hx⟩ := exists_work_reading db hth hpc
      obtain ⟨w', hw⟩ := hx .again trivial
      exact .inl ⟨w', _, hw⟩
  | dispatching fd mask buf fired => exact exists_work_dispatching hth hpc
  | eof fd mask fired =>
      have hview : (w.view opened acc).worker = .eof fd mask fired := congrArg Pc.view hpc
      obtain ⟨loop, hcall, -⟩ := hinv.delete hview (show (0 : Int) ≠ -1 by decide)
      exact .inl ⟨_, _, .deleteFileEvent hpc (by decide) hcall⟩
  | deleted fd fired =>
      have hview : (w.view opened acc).worker = .deleted fd fired := congrArg Pc.view hpc
      obtain ⟨table, -, hcall, -⟩ := hinv.freeConn hview
      exact .inl ⟨_, _, .freeConn hpc hcall⟩

/-- A worker that stops takes no step. -/
lemma Stops.not_work {w' : Thread n} {S' : Shared σ} (hstop : Stops db w S) :
    ¬Work db w S w' S' := by
  obtain ⟨fd, mask, buf, fired, b, hpc, hload, hstop⟩ := hstop.stops
  have hne : ∀ b₁ ret b₂, w.table.bufs.load buf = .ok b₁ → decod .record b₁ = .ok (ret, b₂) →
      ¬(b₂.parseFlag = 1 ∨ b₂.parseFlag = -1) ∧
        ∃ e, serveMessage db S.store b₂.argv = .error e := by
    intro b₁ ret b₂ hb₁ hd
    obtain rfl := Except.ok.inj (hload.symm.trans hb₁)
    rcases hstop with ⟨f, hf⟩ | ⟨ret', b', e, hd', hflag, hserve⟩
    · cases hf.symm.trans hd
    · obtain ⟨-, rfl⟩ := ok_pair_inj hd' hd
      exact ⟨hflag, e, hserve⟩
  intro hwork
  cases hwork with
  | poll h | skip h | recv h | deleteFileEvent h | freeConn h | done h => cases hpc.symm.trans h
  | unknown h | call h => cases hpc.symm.trans h.pc
  | command h hd _ hserve hbuf =>
      cases hpc.symm.trans h
      obtain ⟨-, e, he⟩ := hne _ _ _ hbuf.load hd
      cases he.symm.trans hserve
  | drained h hdone hbuf =>
      cases hpc.symm.trans h
      obtain ⟨ret, hd⟩ := hdone.decodes
      exact (hne _ _ _ hbuf.load hd).1 hdone.flag

end Progress

/-- **A worker is stuck only at a message that it cannot decode, or that ends the process**: no
index is out of bounds, no callback is missing, and no pointer dangles, in any state that a run can
reach. It goes on with every answer that `epoll_wait` can give, for all events in it, and with every
result that a `read(2)` can have. -/
theorem stuck_iff (hreach : Reachable db store P) (i : Fin k) :
    ((¬∃ w S, Work db (P.workers i) P.shared w S) ↔ Stops db (P.workers i) P.shared) ∧
      (∀ answer, (P.workers i).pc = .polling → Reports (P.workers i).loop.epoll n answer →
        ∃ fired, aePollPoll n answer = .ok fired ∧
          Work db (P.workers i) P.shared { P.workers i with pc := .firing fired } P.shared) ∧
      ∀ fd mask buf fired, (P.workers i).pc = .reading fd mask buf fired →
        ∃ b, (P.workers i).table.bufs.load buf = .ok b ∧ ∀ x : ReadResult, x.Fits b →
          ∃ w, Work db (P.workers i) P.shared w
            { P.shared with history := P.shared.history.received fd x } := by
  have hth := hreach.inv.thread i
  obtain ⟨l, hsys⟩ := hreach.inv.view i
  refine ⟨⟨(exists_work hsys hth).resolve_left, ?_⟩, ?_, ?_⟩
  · rintro hstop ⟨w, S, hwork⟩
    exact hstop.not_work hwork
  · intro answer hpc hreports
    exact exists_work_polling db P.shared hpc hreports
  · intro fd mask buf fired hpc
    exact exists_work_reading db hth hpc

/-- `shutdown` stops it. -/
theorem stuck_shutdown :
    ∃ P : Process 10 2 (List Byte → Option (List Byte)),
      Reachable (KvStore.map _ _) (fun _ => none) P ∧
      ¬∃ w S, Work (KvStore.map _ _) (P.workers 1) P.shared w S := by
  obtain ⟨P, hP⟩ := exists_received
    [42, 9, 48, 48, 49, 55, 9, 115, 104, 117, 116, 100, 111, 119, 110, 9, 33, 10]
    (by decide) (by decide)
  refine ⟨P, hP.reachable, (stuck_iff hP.reachable 1).1.mpr ⟨5, READABLE, some 3, [], _, hP.pc,
    Heap.load_of_lookup hP.buffer, ?_⟩⟩
  rw [hP.store]
  exact .inr ⟨_, _, .exit, rfl, by decide, rfl⟩

end ActionDB.Threads
