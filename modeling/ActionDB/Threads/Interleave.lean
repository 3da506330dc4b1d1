import ActionDB.Threads.Worker

/-!
# Every interleaving

The invariant of the process (`Inv`): every worker keeps its own (`Work.spec`), no descriptor has
connections in two workers, no two connections have the same number, and a connection that was freed
had been read to its end. It is kept by every step (`Inv.step`), and so by every run, in whatever
order the threads take their steps.
-/

namespace ActionDB.Threads

open ActionDB.Found ActionDB.Kernel ActionDB.Net ActionDB.Net.Codec ActionDB.Net.Conn
open ActionDB.Net.Event

variable {n k : ℕ} {σ : Type} {db : KvStore σ (List Byte) (List Byte)} {store : σ}

/-- **The invariant of the process.** -/
structure Inv (db : KvStore σ (List Byte) (List Byte)) (store : σ) (P : Process n k σ) :
    Prop where
  view : ∀ i, ∃ l, SysInv (P.view i) l
  thread : ∀ i, ThreadInv (P.workers i) P.shared.history
  recorded : Recorded db store P.shared
  /-- A descriptor has a connection in one worker only. -/
  apart : ∀ i j fd p q, (P.workers i).BufferAt fd p → (P.workers j).BufferAt fd q → i = j
  /-- Connections have different numbers. -/
  numbered : ∀ i j f g p q, (P.workers i).BufferAt f p → (P.workers j).BufferAt g q →
    P.shared.history.conn f = P.shared.history.conn g → f = g
  /-- A connection that was made is there, or was closed by its client. -/
  made : ∀ c, c < P.shared.history.count →
    (∃ i fd p, (P.workers i).BufferAt fd p ∧ P.shared.history.conn fd = c) ∨
    ∃ B, Session (P.shared.history.reads c) (P.shared.history.messagesOf c) .closed B
  /-- A descriptor that is being registered has no connection yet. -/
  fresh : ∀ fd, P.Accepting fd → ∀ i p, ¬(P.workers i).BufferAt fd p
  /-- Connections and descriptors that are being registered are sockets of the server. -/
  held : ∀ fd, (∃ i p, (P.workers i).BufferAt fd p) ∨ P.Accepting fd → fd ∈ P.sockets
  sockets_opened : P.sockets ⊆ P.opened

/-- It holds when the threads start: there is no connection. -/
lemma inv_init (db : KvStore σ (List Byte) (List Byte)) (store : σ) :
    Inv db store (.init n k store) := by
  have hnone : ∀ (i : Fin k) fd p, ¬((Process.init n k store).workers i).BufferAt fd p := by
    rintro i fd p ⟨hfd, hp⟩
    have hno := tableInv_empty.bufferOf_none hfd fun _ hv => absurd hv List.not_mem_nil
    cases hno.symm.trans hp
  constructor
  · exact fun i => ⟨[], sysInv_init⟩
  · intro i
    refine ⟨fun fd p hp => absurd hp (hnone i fd p), ?_, ?_⟩
    · rintro fd mask buf fired (h | h) <;> cases h
    · exact fun q hq => absurd hq List.not_mem_nil
  · exact ⟨rfl, fun c _ => ⟨rfl, rfl⟩⟩
  · exact fun i _ fd p _ hp => absurd hp (hnone i fd p)
  · exact fun i _ f _ p _ hp => absurd hp (hnone i f p)
  · exact fun c hc => absurd hc (Nat.not_lt_zero c)
  · rintro fd ⟨i, h | h | h⟩ <;> cases h
  · rintro fd (⟨i, p, hp⟩ | ⟨i, h | h | h⟩)
    · exact absurd hp (hnone i fd p)
    all_goals cases h
  · exact Finset.Subset.refl _

section Steps

variable {P : Process n k σ} {i : Fin k} {fd : Int}

/-! ## The views -/

/-- The other workers do not change. -/
lemma workers_setWorker {j : Fin k} (w : Thread n) (h : j ≠ i) :
    (P.setWorker i w).workers j = P.workers j :=
  Function.update_of_ne h _ _

/-- Worker `i` is the new one. -/
lemma workers_setWorker_self (w : Thread n) : (P.setWorker i w).workers i = w :=
  Function.update_self _ _ _

/-- What holds of the new worker `i` and of all the others. -/
lemma forall_setWorker {w : Thread n} (Q : Fin k → Thread n → Prop) (hi : Q i w)
    (hothers : ∀ j, j ≠ i → Q j (P.workers j)) (j : Fin k) : Q j ((P.setWorker i w).workers j) :=
  (Function.forall_update_iff P.workers Q).mpr ⟨hi, hothers⟩ j

/-- What is put where it was. -/
lemma put_self : P.put i (P.workers i, P.shared) = P := by
  simp only [Process.put, Process.setWorker, Function.update_eq_self]

/-- The later worker counts. -/
lemma put_put (a b : Thread n × Shared σ) : (P.put i a).put i b = P.put i b := by
  simp only [Process.put, Process.setWorker, Function.update_idem]

/-- The worker that was put. -/
lemma workers_put (a : Thread n × Shared σ) : (P.put i a).workers i = a.1 :=
  workers_setWorker_self a.1

/-- A step of a worker that was put. -/
lemma step_put {w w' : Thread n} {S S' : Shared σ} (hwork : Work db w S w' S') :
    Step db (P.put i (w, S)) (P.put i (w', S')) := by
  have hwork' : Work db ((P.put i (w, S)).workers i) (P.put i (w, S)).shared w' S' := by
    rw [workers_put]
    exact hwork
  have hstep : Step db (P.put i (w, S)) ((P.put i (w, S)).put i (w', S')) := .work hwork'
  rwa [put_put] at hstep

/-- The descriptor of a connection is open. -/
lemma Inv.opened_of_bufferAt (hinv : Inv db store P) {p : ℕ} (hp : (P.workers i).BufferAt fd p) :
    fd ∈ P.opened :=
  hinv.sockets_opened (hinv.held fd (.inl ⟨i, p, hp⟩))

/-- A descriptor in the tree of a worker has a buffer there. -/
lemma Inv.bufferAt_of_has (hinv : Inv db store P) (h : (P.workers i).table.Has fd) :
    ∃ p, (P.workers i).BufferAt fd p := by
  obtain ⟨l, hsys⟩ := hinv.view i
  obtain ⟨v, hv, rfl⟩ := hsys.table.linked.has_iff.mp h
  obtain ⟨a, c, p, ho⟩ := hsys.table.linked.exists_owner hv
  exact ⟨p, (hsys.table.holds.keys v hv).isInt, hsys.table.bufferOf_owner hv ho⟩

/-- The accept thread is at some point of the registration of the descriptor with worker `i`. -/
def AcceptPc.Of (acc : AcceptPc k) (i : Fin k) (fd : Int) : Prop :=
  acc = .accepted i fd ∨ acc = .created i fd ∨ acc = .added i fd

/-- The other workers see an idle accept thread. -/
lemma AcceptPc.Of.view_eq_idle {acc : AcceptPc k} (h : acc.Of i fd) {j : Fin k} (hj : j ≠ i) :
    acc.view j = .idle := by
  rcases h with rfl | rfl | rfl <;> exact if_neg (Ne.symm hj)

/-- The accept thread as the workers see it. -/
lemma accepting_of_view {j : Fin k} (h : (P.view j).Accepting fd) : P.accept.Of j fd := by
  rcases h with h | h | h
  · exact .inl (AcceptPc.view_eq_accepted.mp h)
  · exact .inr (.inl (AcceptPc.view_eq_created.mp h))
  · exact .inr (.inr (AcceptPc.view_eq_added.mp h))

/-- Descriptors may be opened and closed, but not those that a worker needs. -/
lemma sysInv_opened {s : Sys n} {l : List Item} (hsys : SysInv s l) (opened : Finset Int)
    (hheld : ∀ fd, s.table.Has fd ∨ s.Accepting fd → fd ∈ opened) :
    ∃ l', SysInv { s with opened } l' :=
  hsys.step (.others hheld)

/-- What a worker needs is a socket of the server. -/
lemma Inv.sockets_of_view (hinv : Inv db store P) {j : Fin k}
    (h : (P.view j).table.Has fd ∨ (P.view j).Accepting fd) : fd ∈ P.sockets := by
  refine hinv.held fd (h.imp (fun hhas => ?_) fun hacc => ?_)
  · obtain ⟨p, hp⟩ := hinv.bufferAt_of_has (i := j) hhas
    exact ⟨j, p, hp⟩
  · exact ⟨j, accepting_of_view hacc⟩

/-! ## The steps -/

/-- What a worker frees was closed, and the connections of the others stay. -/
lemma Inv.made_work {w : Thread n} {S : Shared σ} (hinv : Inv db store P)
    (hspec : WorkSpec db (P.workers i) P.shared w S P.opened (P.accept.view i))
    (hconn : S.history.conn = P.shared.history.conn) {c : ℕ} (hc : c < P.shared.history.count) :
    (∃ j fd p, ((P.setWorker i w).workers j).BufferAt fd p ∧ S.history.conn fd = c) ∨
      ∃ B, Session (S.history.reads c) (S.history.messagesOf c) .closed B := by
  by_cases hheld : ∃ j fd p, (P.workers j).BufferAt fd p ∧ P.shared.history.conn fd = c
  · obtain ⟨j, f, p, hp, rfl⟩ := hheld
    rw [hconn]
    by_cases hj : j = i
    · subst hj
      rcases hspec.freed f p hp with h | h
      · exact .inl ⟨j, f, p, (workers_setWorker_self w).symm ▸ h, rfl⟩
      · exact .inr h
    · exact .inl ⟨j, f, p, (workers_setWorker w hj).symm ▸ hp, rfl⟩
  · right
    -- the history of this connection does not grow
    have hsame : S.history.reads c = P.shared.history.reads c ∧
        S.history.messagesOf c = P.shared.history.messagesOf c := by
      rcases hspec.advance with rfl | ⟨f, p, hp, hadv⟩
      · exact ⟨rfl, rfl⟩
      · have hne : c ≠ P.shared.history.conn f := fun h => hheld ⟨i, f, p, hp, h.symm⟩
        exact ⟨hadv.reads_eq c hne, hadv.messages_eq c hne⟩
    rw [hsame.1, hsame.2]
    exact (hinv.made c hc).resolve_left hheld

/-- A worker takes a step. -/
lemma Inv.work {w : Thread n} {S : Shared σ} (hinv : Inv db store P)
    (hwork : Work db (P.workers i) P.shared w S) :
    Inv db store (P.put i (w, S)) := by
  obtain ⟨l, hsys⟩ := hinv.view i
  have hspec := hwork.spec hsys (hinv.thread i) (hinv.numbered i i)
  -- no worker gets a connection
  have hheld := forall_setWorker (P := P)
    (fun j w => ∀ f p, w.BufferAt f p → (P.workers j).BufferAt f p) hspec.held
    fun j _ f p h => h
  have hkept : S.history.conn = P.shared.history.conn ∧
      S.history.count = P.shared.history.count := by
    rcases hspec.advance with rfl | ⟨f, p, -, hadv⟩
    · exact ⟨rfl, rfl⟩
    · exact ⟨hadv.conn_eq, hadv.count_eq⟩
  constructor
  · exact forall_setWorker (fun j w => ∃ l, SysInv (w.view P.opened (P.accept.view j)) l)
      hspec.registries fun j _ => hinv.view j
  · refine forall_setWorker (fun _ w => ThreadInv w S.history) hspec.thread fun j hj => ?_
    rcases hspec.advance with rfl | ⟨f, p, hp, hadv⟩
    · exact hinv.thread j
    · refine (hinv.thread j).advance hadv fun g q hq heq => hj ?_
      obtain rfl := hinv.numbered j i g f q p hq hp heq
      exact hinv.apart j i g q p hq hp
  · exact hspec.recorded store hinv.recorded
  · exact fun a b f p q hp hq => hinv.apart a b f p q (hheld a f p hp) (hheld b f q hq)
  · intro a b f g p q hp hq heq
    change S.history.conn f = S.history.conn g at heq
    rw [hkept.1] at heq
    exact hinv.numbered a b f g p q (hheld a f p hp) (hheld b g q hq) heq
  · intro c hc
    change c < S.history.count at hc
    rw [hkept.2] at hc
    exact hinv.made_work hspec hkept.1 hc
  · exact fun f hf j p hp => hinv.fresh f hf j p (hheld j f p hp)
  · rintro f (⟨j, p, hp⟩ | hacc)
    · exact hinv.held f (.inl ⟨j, p, hheld j f p hp⟩)
    · exact hinv.held f (.inr hacc)
  · exact hinv.sockets_opened

/-- `accept(2)` returns. -/
lemma Inv.accept (hinv : Inv db store P) (hpc : P.accept = .idle) (hfd : IsFd fd) (hlt : fd < n)
    (hnew : fd ∉ P.opened) :
    Inv db store { P with
      opened := insert fd P.opened, sockets := insert fd P.sockets
      accept := if fd > 0 then .accepted i fd else .idle } := by
  -- the only descriptor that may be registered now
  have honly : ∀ f, Process.Accepting { P with
      opened := insert fd P.opened, sockets := insert fd P.sockets
      accept := if fd > 0 then AcceptPc.accepted i fd else .idle } f → f = fd := by
    rintro f ⟨j, hf⟩
    simp only [] at hf
    split_ifs at hf <;> simp_all
  constructor
  · intro j
    obtain ⟨l, hsys⟩ := hinv.view j
    have hidle : (P.view j).accept = .idle := by
      show P.accept.view j = _
      rw [hpc]
      rfl
    by_cases hpos : fd > 0 ∧ i = j
    · -- the worker that is chosen
      obtain ⟨hpos, rfl⟩ := hpos
      have h := hsys.accept hidle hfd hlt hnew
      rw [if_pos hpos] at h
      refine ⟨l, ?_⟩
      unfold Process.view
      simp only [if_pos hpos, AcceptPc.view, if_true]
      exact h
    · have hview : AcceptPc.view j (if fd > 0 then AcceptPc.accepted i fd else .idle) = .idle := by
        split_ifs with h
        · exact if_neg fun hij => hpos ⟨h, hij⟩
        · rfl
      obtain ⟨l', h⟩ := sysInv_opened hsys (insert fd P.opened) fun f hf =>
        Finset.mem_insert_of_mem (hinv.sockets_opened (hinv.sockets_of_view hf))
      refine ⟨l', ?_⟩
      unfold Process.view at h hidle ⊢
      simp only [Thread.view] at h hidle ⊢
      rw [hview]
      rwa [hidle] at h
  · exact hinv.thread
  · exact hinv.recorded
  · exact hinv.apart
  · exact hinv.numbered
  · exact hinv.made
  · intro f hf a p hp
    obtain rfl := honly f hf
    exact hnew (hinv.opened_of_bufferAt hp)
  · rintro f (hp | hacc)
    · exact Finset.mem_insert_of_mem (hinv.held f (.inl hp))
    · obtain rfl := honly f hacc
      exact Finset.mem_insert_self _ _
  · exact Finset.insert_subset_insert fd hinv.sockets_opened

/-- The accept thread changes the event loop of the worker it has chosen, and goes on with the
registration. -/
lemma Inv.register {loop : EventLoop n} {acc : AcceptPc k} {l : List Item}
    (hinv : Inv db store P) (hold : P.accept.Of i fd) (hnew : acc.Of i fd)
    (hsys : SysInv ⟨loop, (P.workers i).table, P.opened, acc.view i, (P.workers i).pc.view⟩ l) :
    Inv db store { P.setWorker i { P.workers i with loop } with accept := acc } := by
  have honly : ∀ f, Process.Accepting
      { P.setWorker i { P.workers i with loop } with accept := acc } f → fd = f := by
    rintro f ⟨j, hf⟩
    rcases hnew with rfl | rfl | rfl <;> simp_all
  -- connections are not looked for in the event loop
  have hheld := forall_setWorker (P := P) (i := i) (w := { P.workers i with loop })
    (fun j w => ∀ f p, w.BufferAt f p ↔ (P.workers j).BufferAt f p) (fun f p => Iff.rfl)
    fun j _ f p => Iff.rfl
  constructor
  · refine forall_setWorker (fun j w => ∃ l, SysInv (w.view P.opened (acc.view j)) l) ⟨l, hsys⟩
      fun j hj => ?_
    rw [hnew.view_eq_idle hj, ← hold.view_eq_idle hj]
    exact hinv.view j
  · have hth := hinv.thread i
    exact forall_setWorker (fun _ w => ThreadInv w P.shared.history)
      ⟨hth.session, hth.calling, hth.fired_lt⟩ fun j _ => hinv.thread j
  · exact hinv.recorded
  · exact fun a b f p q hp hq => hinv.apart a b f p q ((hheld a f p).mp hp) ((hheld b f q).mp hq)
  · exact fun a b f g p q hp hq heq =>
      hinv.numbered a b f g p q ((hheld a f p).mp hp) ((hheld b g q).mp hq) heq
  · intro c hc
    refine (hinv.made c hc).imp ?_ id
    rintro ⟨j, f, p, hp, heq⟩
    exact ⟨j, f, p, (hheld j f p).mpr hp, heq⟩
  · intro f hf a p hp
    obtain rfl := honly f hf
    exact hinv.fresh fd ⟨i, hold⟩ a p ((hheld a fd p).mp hp)
  · rintro f (⟨j, p, hp⟩ | hacc)
    · exact hinv.held f (.inl ⟨j, p, (hheld j f p).mp hp⟩)
    · obtain rfl := honly f hacc
      exact hinv.held fd (.inr ⟨i, hold⟩)
  · exact hinv.sockets_opened

/-- The entry in the event table. -/
lemma Inv.createFileEvent {ret : Int} {loop : EventLoop n} (hinv : Inv db store P)
    (hpc : P.accept = .accepted i fd)
    (hcall : createFileEvent (P.workers i).loop fd READABLE .tcpReadCallback = .ok (ret, loop)) :
    Inv db store { P.setWorker i { P.workers i with loop } with
      accept := if ret = -1 then .idle else .created i fd } := by
  obtain ⟨l, hsys⟩ := hinv.view i
  obtain ⟨loop', hcall', hsys'⟩ := hsys.create (AcceptPc.view_eq_accepted.mpr hpc)
  obtain ⟨rfl, rfl⟩ := ok_pair_inj hcall' hcall
  rw [if_neg (by decide)]
  refine hinv.register (l := l) (.inl hpc) (.inr (.inl rfl)) ?_
  rw [AcceptPc.view_eq_created.mpr rfl]
  exact hsys'

/-- The kernel is told. -/
lemma Inv.aePollAddEvent {ret : Int} {loop : EventLoop n} (hinv : Inv db store P)
    (hpc : P.accept = .created i fd)
    (hcall : aePollAddEvent (P.workers i).loop fd READABLE false = .ok (ret, loop)) :
    Inv db store { P.setWorker i { P.workers i with loop } with accept := .added i fd } := by
  obtain ⟨l, hsys⟩ := hinv.view i
  obtain ⟨loop', hcall', hsys'⟩ := hsys.add (AcceptPc.view_eq_created.mpr hpc)
  obtain ⟨rfl, rfl⟩ := ok_pair_inj hcall' hcall
  refine hinv.register (l := l) (.inr (.inl hpc)) (.inr (.inr rfl)) ?_
  rw [AcceptPc.view_eq_added.mpr rfl]
  exact hsys'

/-- A descriptor without a connection is not being worked on. -/
lemma Inv.phase_of_fresh (hinv : Inv db store P) (hint : IsInt fd)
    (hnone : ∀ p, ¬(P.workers i).BufferAt fd p) : (P.workers i).pc.phase fd = .waiting := by
  obtain ⟨l, hsys⟩ := hinv.view i
  -- nor is it being closed
  have htear : ¬(P.view i).TearingDown fd := by
    intro h
    obtain ⟨v, hv, rfl⟩ := hsys.tearing fd h
    obtain ⟨a, c, p, ho⟩ := hsys.table.linked.exists_owner hv
    exact hnone p ⟨hint, hsys.table.bufferOf_owner hv ho⟩
  cases hpc : (P.workers i).pc with
  | polling | firing | reading => rfl
  | dispatching f mask buf fired =>
      refine if_neg ?_
      rintro rfl
      obtain ⟨-, p, -, hp⟩ := (hinv.thread i).calling fd mask buf fired (.inr hpc)
      exact hnone p hp
  | eof f mask fired =>
      refine if_neg ?_
      rintro rfl
      refine htear (.inl ⟨mask, fired, ?_⟩)
      show (P.workers i).pc.view = _
      rw [hpc]
      rfl
  | deleted f fired =>
      refine if_neg ?_
      rintro rfl
      refine htear (.inr ⟨fired, ?_⟩)
      show (P.workers i).pc.view = _
      rw [hpc]
      rfl

/-- A connection that is made does not touch the others. -/
lemma ThreadInv.connected {w : Thread n} {H : History} (hth : ThreadInv w H)
    (hnone : ∀ p, ¬w.BufferAt fd p) : ThreadInv w (H.connected fd) where
  session f p hp := by
    have hne : f ≠ fd := by
      rintro rfl
      exact hnone p hp
    obtain ⟨hlt, hs⟩ := hth.session f p hp
    have hconn : (H.connected fd).conn f = H.conn f := Function.update_of_ne hne _ _
    rw [hconn]
    exact ⟨Nat.lt_succ_of_lt hlt, hs⟩
  calling := hth.calling
  fired_lt := hth.fired_lt

/-- A new connection has sent nothing. -/
lemma Recorded.connected {S : Shared σ} (hrec : Recorded db store S) (fd : Int) :
    Recorded db store { S with history := S.history.connected fd } where
  served := hrec.served
  unmade c hc := hrec.unmade c (Nat.le_of_succ_le hc)

section Connected

variable {H : History}

/-- The new connection has the next number. -/
lemma conn_connected_self (H : History) (fd : Int) : (H.connected fd).conn fd = H.count :=
  Function.update_self _ _ _

/-- The others keep theirs. -/
lemma conn_connected_of_ne {f : Int} (h : f ≠ fd) : (H.connected fd).conn f = H.conn f :=
  Function.update_of_ne h _ _

end Connected

/-- The worker that is given the connection: it has the new one, at its beginning, and those it
had. -/
lemma ThreadInv.newConn {w : Thread n} {H : History} {table : Table} {buf : ℕ}
    (hth : ThreadInv w H) (hnone : ∀ p, ¬w.BufferAt fd p)
    (hnew : H.reads H.count = [] ∧ H.messagesOf H.count = [])
    (hphase : w.pc.phase fd = .waiting) (hfree : w.table.bufs.lookup buf = none)
    (hbufs : table.bufs = w.table.bufs.insert buf initBuf)
    (hheld : ∀ f p, Thread.BufferAt { w with table } f p ↔
      f = fd ∧ p = buf ∨ f ≠ fd ∧ w.BufferAt f p) :
    ThreadInv { w with table } (H.connected fd) where
  session f p hp := by
    rcases (hheld f p).mp hp with ⟨rfl, rfl⟩ | ⟨-, hp⟩
    · rw [conn_connected_self]
      refine ⟨Nat.lt_succ_self _, initBuf, ?_, ?_⟩
      · rw [hbufs, Finmap.lookup_insert]
      · show Session (H.reads _) (H.messagesOf _) _ _
        rw [hphase, hnew.1, hnew.2]
        exact .opened
    · obtain ⟨hlt, B, hB, hs⟩ := (hth.connected hnone).session f p hp
      refine ⟨hlt, B, ?_, hs⟩
      have hpb : p ≠ buf := by
        rintro rfl
        cases hB.symm.trans hfree
      rw [hbufs, Finmap.lookup_insert_of_ne _ hpb]
      exact hB
  calling f mask b fired h := by
    obtain ⟨hmask, p, rfl, hp⟩ := hth.calling f mask b fired h
    have hne : f ≠ fd := by
      rintro rfl
      exact hnone p hp
    exact ⟨hmask, p, rfl, (hheld f p).mpr (.inr ⟨hne, hp⟩)⟩
  fired_lt := hth.fired_lt

/-- What `newConn` does to the worker. -/
lemma Inv.newConn_worker {node conn buf : ℕ} {ret : Ptr} {table : Table} (hinv : Inv db store P)
    (hpc : P.accept = .added i fd) (hfresh : Fresh (P.workers i).table node conn buf)
    (hcall : newConn (P.workers i).table fd node conn buf = .ok (ret, table)) :
    (∃ l, SysInv (Thread.view { P.workers i with table } P.opened .idle) l) ∧
      table.bufs = (P.workers i).table.bufs.insert buf initBuf ∧ IsInt fd ∧
      ∀ f p, Thread.BufferAt { P.workers i with table } f p ↔
        f = fd ∧ p = buf ∨ f ≠ fd ∧ (P.workers i).BufferAt f p := by
  obtain ⟨l, hsys⟩ := hinv.view i
  have hview : (P.view i).accept = .added fd := AcceptPc.view_eq_added.mpr hpc
  obtain ⟨hfd, -, -, hnot⟩ := hsys.accepting fd (.inr (.inr hview))
  obtain ⟨table', l', hcall', hsys'⟩ :=
    hsys.newConn hview hfresh.node_free hfresh.conn_free hfresh.buf_free
  obtain ⟨-, rfl⟩ := ok_pair_inj hcall' hcall
  obtain ⟨-, -, T, -, hnew, -, hbufs, hmine, hold⟩ := newConn_bufferOf hsys.table hfd hnot
    hfresh.node_free hfresh.conn_free hfresh.buf_free
  obtain ⟨-, rfl⟩ := ok_pair_inj hnew hcall
  refine ⟨⟨l', hsys'⟩, hbufs, hfd.isInt, fun f p => ?_⟩
  by_cases hff : f = fd
  · subst hff
    constructor
    · rintro ⟨-, hp⟩
      have h := hmine.symm.trans hp
      exact .inl ⟨rfl, by simpa using h.symm⟩
    · rintro (⟨-, rfl⟩ | ⟨h, -⟩)
      · exact ⟨hfd.isInt, hmine⟩
      · exact absurd rfl h
  · constructor
    · rintro ⟨hf, hp⟩
      exact .inr ⟨hff, hf, (hold f hf hff).symm.trans hp⟩
    · rintro (⟨h, -⟩ | ⟨-, hf, hp⟩)
      · exact absurd h hff
      · exact ⟨hf, (hold f hf hff).trans hp⟩

/-- `newConn` makes the connection. -/
lemma Inv.newConn {node conn buf : ℕ} {ret : Ptr} {table : Table} (hinv : Inv db store P)
    (hpc : P.accept = .added i fd) (hfresh : Fresh (P.workers i).table node conn buf)
    (hcall : newConn (P.workers i).table fd node conn buf = .ok (ret, table)) :
    Inv db store { P.setWorker i { P.workers i with table } with
      accept := .idle
      shared := { P.shared with history := P.shared.history.connected fd } } := by
  have hnone := hinv.fresh fd ⟨i, .inr (.inr hpc)⟩
  obtain ⟨hsys, hbufs, hint, hmine⟩ := hinv.newConn_worker hpc hfresh hcall
  -- the connections of the workers: the new one, and those they had
  have hheld := forall_setWorker (P := P) (i := i) (w := { P.workers i with table })
    (fun j w => ∀ f p, w.BufferAt f p →
      f = fd ∧ j = i ∨ f ≠ fd ∧ (P.workers j).BufferAt f p)
    (fun f p h => ((hmine f p).mp h).imp (fun h => ⟨h.1, rfl⟩) id)
    fun j _ f p h => .inr ⟨fun hf => hnone j p (hf ▸ h), h⟩
  constructor
  · refine forall_setWorker (fun j w => ∃ l, SysInv (w.view P.opened .idle) l) hsys
      fun j hj => ?_
    have hother : P.accept.view j = .idle := by
      rw [hpc]
      exact if_neg (Ne.symm hj)
    exact hother ▸ hinv.view j
  · exact forall_setWorker (fun _ w => ThreadInv w (P.shared.history.connected fd))
      ((hinv.thread i).newConn (hnone i) (hinv.recorded.unmade _ le_rfl)
        (hinv.phase_of_fresh hint (hnone i)) hfresh.buf_free hbufs hmine)
      fun j _ => (hinv.thread j).connected (hnone j)
  · exact hinv.recorded.connected fd
  · intro a b f p q hp hq
    rcases hheld a f p hp with ⟨rfl, rfl⟩ | ⟨hne, hp⟩
    · rcases hheld b f q hq with ⟨-, rfl⟩ | ⟨hne, -⟩
      · rfl
      · exact absurd rfl hne
    · rcases hheld b f q hq with ⟨rfl, -⟩ | ⟨-, hq⟩
      · exact absurd rfl hne
      · exact hinv.apart a b f p q hp hq
  · intro a b f g p q hp hq heq
    simp only [] at heq
    rcases hheld a f p hp with ⟨rfl, rfl⟩ | ⟨hf, hp'⟩
    · rcases hheld b g q hq with ⟨rfl, -⟩ | ⟨hg, hq'⟩
      · rfl
      · rw [conn_connected_self, conn_connected_of_ne hg] at heq
        have := ((hinv.thread b).session g q hq').1
        omega
    · rcases hheld b g q hq with ⟨rfl, -⟩ | ⟨hg, hq'⟩
      · rw [conn_connected_self, conn_connected_of_ne hf] at heq
        have := ((hinv.thread a).session f p hp').1
        omega
      · rw [conn_connected_of_ne hf, conn_connected_of_ne hg] at heq
        exact hinv.numbered a b f g p q hp' hq' heq
  · intro c hc
    rcases Nat.lt_succ_iff_lt_or_eq.mp hc with hlt | rfl
    · refine (hinv.made c hlt).imp ?_ id
      rintro ⟨j, f, p, hp, rfl⟩
      have hf : f ≠ fd := fun h => hnone j p (h ▸ hp)
      refine ⟨j, f, p, ?_, conn_connected_of_ne hf⟩
      exact forall_setWorker (fun j w => (P.workers j).BufferAt f p → w.BufferAt f p)
        (fun hp => (hmine f p).mpr (.inr ⟨hf, hp⟩)) (fun _ _ hp => hp) j hp
    · refine .inl ⟨i, fd, buf, ?_, conn_connected_self _ fd⟩
      exact (workers_setWorker_self _).symm ▸ (hmine fd buf).mpr (.inl ⟨rfl, rfl⟩)
  · rintro f ⟨j, h | h | h⟩ <;> cases h
  · rintro f (⟨j, p, hp⟩ | ⟨j, h | h | h⟩)
    · rcases hheld j f p hp with ⟨rfl, -⟩ | ⟨-, hp⟩
      · exact hinv.held f (.inr ⟨i, .inr (.inr hpc)⟩)
      · exact hinv.held f (.inl ⟨j, p, hp⟩)
    all_goals cases h
  · exact hinv.sockets_opened

/-- **Every step keeps the invariant.** -/
theorem Inv.step {P' : Process n k σ} (hinv : Inv db store P) (hstep : Step db P P') :
    Inv db store P' := by
  cases hstep with
  | work hwork => exact hinv.work hwork
  | accept hpc hfd hlt hnew => exact hinv.accept hpc hfd hlt hnew
  | createFileEvent hpc hcall => exact hinv.createFileEvent hpc hcall
  | aePollAddEvent hpc hcall hret => exact hinv.aePollAddEvent hpc hcall
  | newConn hpc hfresh hcall => exact hinv.newConn hpc hfresh hcall
  | @others opened sockets hkept hopen =>
      refine ⟨fun j => ?_, hinv.thread, hinv.recorded, hinv.apart, hinv.numbered, hinv.made,
        hinv.fresh, fun f hf => hkept (hinv.held f hf), hopen⟩
      obtain ⟨l, hsys⟩ := hinv.view j
      exact sysInv_opened hsys opened fun f hf => hopen (hkept (hinv.sockets_of_view hf))

/-- It holds in every state that a run can reach. -/
lemma Reachable.inv (hreach : Reachable db store P) : Inv db store P := by
  induction hreach with
  | refl => exact inv_init db store
  | tail _ hstep ih => exact ih.step hstep

end Steps

end ActionDB.Threads
