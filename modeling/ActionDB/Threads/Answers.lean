import Mathlib.Order.Interval.Finset.Nat
import Mathlib.Data.Prod.Lex
import ActionDB.Threads.Accept
import ActionDB.Threads.Protocol

/-!
# No client waits in vain

The clients of `Threads.Protocol`, when they only set values: from every state that a run can reach,
whatever the threads are doing, there is a run that gives a client the reply it waits for
(`exists_reply`), and so one in which all of them finish (`can_finish`). As long as there are
descriptors for the clients that are not connected, the server never gets into a state in which a
client that does its part cannot be served any more. No socket is closed for that: the server closes
none. As in `Threads.Process`, `newConn` and `freeConn` run as a whole; a connection that is lost to
the race of `Net.Conn.Race` is not served.

The run is put together from the calls of one worker. A worker comes back to its poll by itself: it
is not stopped by the frames of these clients (`not_stops`), and what it has to do, `Thread.left`,
gets less with every step but a poll.
-/

namespace ActionDB.Threads

open ActionDB.Found ActionDB.Kernel ActionDB.Net ActionDB.Net.Codec ActionDB.Net.Conn
open ActionDB.Net.Event

variable {n k : ℕ} {σ : Type} {db : KvStore σ (List Byte) (List Byte)} {store : σ}
  {N : Network n k σ} {cs : ℕ → List Command} {i : Fin k}

/-- Clients whose commands can be executed, whatever is in the store. -/
structure Writers (cs : ℕ → List Command) : Prop where
  ok : ∀ c, ∀ cmd ∈ cs c, cmd.Ok
  sets : ∀ c, ∀ cmd ∈ cs c, ∃ key val, cmd = .set key val

/-! ## The worker does not stop -/

/-- An open connection has kept nothing when it has dealt with its reads. -/
lemma Exchanged.readOn_eq (hreach : Exchanged db store cs N) (hw : Writers cs) {c : ℕ}
    (hopen : .eof ∉ N.process.shared.history.reads c) :
    ∃ b, readOn initBuf (N.process.shared.history.reads c) = some b ∧ b.corruptMessagelen = 0 := by
  have hinv := hreach.inv hw.ok c
  obtain ⟨d, ys, -, -, hys, hframes⟩ := hinv.delivered
  have hys : N.process.shared.history.reads c = ys := by
    refine hys.resolve_right fun h => hopen ?_
    rw [h]
    exact List.mem_append_right _ (.head _)
  rw [hys]
  refine readOn_frames rfl (fun cmd hcmd => hw.ok c cmd ?_) hframes
  rw [← hinv.split]
  exact List.mem_append_left _ (List.mem_of_mem_take hcmd)

lemma Exchanged.kept_eq (hreach : Exchanged db store cs N) (hw : Writers cs) {c : ℕ}
    {ms : List (Area Byte argvSize)} {ph : Phase} {B : Buffer}
    (hs : Session (N.process.shared.history.reads c) ms ph B) (hph : ph ≠ .closed) :
    ∃ fuel, keptToCome fuel B ph [] = some 0 ∧
      (ph = .dispatching → (drain .record fuel B).2 ≠ .error .outOfFuel) := by
  obtain ⟨b, hb, hkept⟩ := hreach.readOn_eq hw fun h => hph (hs.eof_closed h)
  obtain ⟨fuel, heq, hfuel⟩ := hs.kept_eq
  refine ⟨fuel, ?_, hfuel⟩
  rw [← heq [], List.append_nil, keptOn, hb, ← hkept]
  rfl

/-- A `set` with a short value is executed. -/
lemma serveMessage_of_set (db : KvStore σ (List Byte) (List Byte)) {argv : Area Byte argvSize}
    {key val : List Byte} (hdis : dispatch argv = .ok (.set key val)) (hval : val.length ≤ 9)
    (s : σ) : ∃ s', serveMessage db s argv = .ok (some strSetOk, s') := by
  have hobj : createObj val = .ok ⟨val, 0, 0⟩ := by
    unfold createObj usableSize valObjectSize
    rw [if_neg (by omega), if_neg (by omega)]
  have hget : db.get (db.put s key val) key = some val := by
    rw [db.get_put, Function.update_self]
  simp only [serveMessage, hdis, execSetCommand, hobj, rocksSet, hget]
  exact ⟨_, rfl⟩

/-- What a worker dispatches is a command of the client. -/
lemma Exchanged.dispatches_set (hreach : Exchanged db store cs N) (hw : Writers cs) {c : ℕ}
    {ms : List (Area Byte argvSize)} {B B' : Buffer} {a : Action}
    (hs : Session (N.process.shared.history.reads c) ms .dispatching B) (hdis : Dispatches B B' a) :
    ∃ key val, a = .set key val ∧ val.length ≤ 9 := by
  have hinv := hreach.inv hw.ok c
  obtain ⟨as, -, hlin⟩ := hreach.reachable.exists_acts
  obtain ⟨d, e, hp⟩ := hinv.progress (hw.ok c) hlin
  have hmem : Except.ok a ∈ (ms ++ [B'.argv]).map dispatch := by
    rw [List.map_append, ← hdis.dispatch_eq]
    exact List.mem_append_right _ (.head _)
  have hact := List.IsPrefix.subset (Session.messages_prefix (hs.command hdis)) hmem
  rw [hp.sent.dispatched_eq, List.map_map] at hact
  obtain ⟨cmd, hcmd, heq⟩ := List.mem_map.mp hact
  have hmine : cmd ∈ cs c := hinv.split ▸ List.mem_append_left _ (List.mem_of_mem_take hcmd)
  obtain ⟨key, val, rfl⟩ := hw.sets c cmd hmine
  exact ⟨key, val, (Except.ok.inj heq).symm, (hw.ok c _ hmine).2.short⟩

/-- **The frames of these clients do not stop a worker.** -/
lemma Exchanged.not_stops (hreach : Exchanged db store cs N) (hw : Writers cs) :
    ¬Stops db (N.process.workers i) N.process.shared := by
  rintro ⟨fd, mask, buf, fired, b, hpc, hload, hstop⟩
  have hth := hreach.reachable.inv.thread i
  obtain ⟨-, p, rfl, hp⟩ := hth.calling fd mask buf fired (.inr hpc)
  obtain ⟨-, B, hB, hs⟩ := hth.session fd p hp
  obtain rfl := Except.ok.inj ((Heap.load_of_lookup hB).symm.trans hload)
  rw [hpc] at hs
  simp only [Pc.phase, if_true] at hs
  obtain ⟨fuel, hkept, hfuel⟩ := hreach.kept_eq hw hs (by simp)
  obtain ⟨m, rfl⟩ := exists_fuel (hfuel rfl)
  have hdrain := drain_step .record m B
  rw [keptToCome] at hkept
  generalize drain .record (m + 1) B = r at hdrain hkept
  cases hdrain with
  | overruns | unreadable | shuts => cases hkept
  | ends ret b' hd hflag =>
      rcases hstop with ⟨f, hf⟩ | ⟨ret', b'', e, hd', hflag', -⟩
      · cases hf.symm.trans hd
      · obtain ⟨-, rfl⟩ := ok_pair_inj hd hd'
        exact hflag' hflag
  | goes ret b' a hd hflag ha hstays =>
      obtain ⟨key, val, rfl, hval⟩ := hreach.dispatches_set hw hs ⟨⟨ret, hd⟩, hflag, ha, hstays⟩
      rcases hstop with ⟨f, hf⟩ | ⟨ret', b'', e, hd', -, hserve⟩
      · cases hf.symm.trans hd
      · obtain ⟨-, rfl⟩ := ok_pair_inj hd hd'
        obtain ⟨s', hs'⟩ := serveMessage_of_set db ha hval N.process.shared.store
        cases hs'.symm.trans hserve

/-! ## A worker by itself -/

/-- The network after a step of worker `i`. -/
def Network.put (N : Network n k σ) (i : Fin k) (a : Thread n × Shared σ) : Network n k σ :=
  { N with process := N.process.put i a }

/-- There is always a result that a `read(2)` can have. -/
lemma exists_delivers (pending : List Byte) (closed : Bool) {b : Buffer}
    (hb : b.corruptMessagelen = 0) :
    ∃ x, Delivers pending closed b x ∧ ∀ B : Buffer, B.corruptMessagelen = 0 → x.Fits B := by
  by_cases hpending : pending = []
  · cases closed with
    | false => exact ⟨.again, .again hpending rfl, fun _ _ => trivial⟩
    | true => exact ⟨.eof, .eof hpending rfl, fun _ _ => trivial⟩
  · refine ⟨_, .data hpending (by rw [hb]; decide), fun B hB => ?_⟩
    have hpos := List.length_pos_iff.mpr hpending
    show 1 ≤ _ ∧ _ ≤ 100 - B.corruptMessagelen
    rw [hb, hB, List.length_take]
    show 1 ≤ min 100 _ ∧ min 100 _ ≤ 100
    omega

/-- A worker that is not at a `read(2)` does not read. -/
lemma Work.reads_eq {w w' : Thread n} {S S' : Shared σ} (hwork : Work db w S w' S')
    (hpc : ∀ fd mask buf fired, w.pc ≠ .reading fd mask buf fired) :
    S'.history.reads = S.history.reads := by
  cases hwork with
  | recv h => exact absurd h (hpc _ _ _ _)
  | poll | skip | unknown | call | command | drained | deleteFileEvent | freeConn | done => rfl

lemma allows_of_reads_eq {S : Shared σ}
    (h : S.history.reads = N.process.shared.history.reads) : N.Allows S := by
  intro c x hx
  rw [h] at hx
  exact absurd hx.symm (by simp)

lemma Exchanged.exists_work (hreach : Exchanged db store cs N) (hw : Writers cs) :
    ∃ w S, Work db (N.process.workers i) N.process.shared w S ∧ N.Allows S := by
  have hinv := hreach.reachable.inv
  have hth := hinv.thread i
  by_cases hpc : ∃ fd mask buf fired, (N.process.workers i).pc = .reading fd mask buf fired
  · obtain ⟨fd, mask, buf, fired, hpc⟩ := hpc
    obtain ⟨-, p, rfl, hp⟩ := hth.calling fd mask buf fired (.inl hpc)
    obtain ⟨-, B, hB, hs⟩ := hth.session fd p hp
    rw [hpc] at hs
    have hs : Session _ _ .waiting B := hs
    obtain ⟨fuel, hkept, -⟩ := hreach.kept_eq hw hs (by simp)
    have hB0 : B.corruptMessagelen = 0 := Option.some.inj hkept
    obtain ⟨b, hb, hb0⟩ := hreach.readOn_eq hw (hinv.open_of_reading hpc)
    obtain ⟨x, hx, hfits⟩ := exists_delivers (N.pending (N.process.shared.history.conn fd))
      (N.clients (N.process.shared.history.conn fd)).closed hb0
    obtain ⟨b', hload, hwork⟩ := exists_work_reading db hth hpc
    obtain rfl := Except.ok.inj ((Heap.load_of_lookup hB).symm.trans hload)
    obtain ⟨w, hwork⟩ := hwork x (hfits B hB0)
    refine ⟨w, _, hwork, fun c y hy => ?_⟩
    -- the read is on this connection, with this result
    by_cases hc : c = N.process.shared.history.conn fd
    · subst hc
      have hreads : (N.process.shared.history.received fd x).reads
          (N.process.shared.history.conn fd) = _ := Function.update_self _ _ _
      rw [hreads] at hy
      obtain rfl : x = y := by simpa using hy
      exact ⟨b, hb, hx⟩
    · have hreads : (N.process.shared.history.received fd x).reads c = _ :=
        Function.update_of_ne hc _ _
      rw [hreads] at hy
      exact absurd hy.symm (by simp)
  · simp only [not_exists] at hpc
    obtain ⟨l, hsys⟩ := hinv.view i
    rcases Threads.exists_work hsys hth with ⟨w, S, hwork⟩ | hstop
    · exact ⟨w, S, hwork, allows_of_reads_eq (hwork.reads_eq hpc)⟩
    · exact absurd hstop (hreach.not_stops hw)

/-- What a worker has to do before its next poll: the events that are still to be dispatched, what
has arrived on the connection that it reads, and the bytes that are still to be decoded. -/
def Thread.left (w : Thread n) (pending : Int → ℕ) : ℕ ×ₗ ℕ ×ₗ ℕ :=
  match w.pc with
  | .polling => toLex (0, toLex (0, 0))
  | .firing fired => toLex (4 * fired.length + 1, toLex (0, 0))
  | .reading fd _ _ fired => toLex (4 * fired.length + 4, toLex (pending fd, 0))
  | .dispatching fd _ buf fired =>
      let unread := match w.table.bufs.load buf with
        | .ok b => b.unread
        | .error _ => 0
      toLex (4 * fired.length + 4, toLex (pending fd, unread + 1))
  | .eof _ _ fired => toLex (4 * fired.length + 3, toLex (0, 0))
  | .deleted _ fired => toLex (4 * fired.length + 2, toLex (0, 0))

/-- What has arrived on the connection of a descriptor. -/
def Network.pendingOn (N : Network n k σ) (fd : Int) : ℕ :=
  (N.pending (N.process.shared.history.conn fd)).length

/-- A read takes away what it delivers. -/
lemma pending_received (w : Thread n) (fd : Int) (x : ReadResult) :
    (N.put i (w, { N.process.shared with
        history := N.process.shared.history.received fd x })).pending
        (N.process.shared.history.conn fd) =
      (N.pending (N.process.shared.history.conn fd)).drop x.bytes.length := by
  have hreads : (N.process.shared.history.received fd x).reads (N.process.shared.history.conn fd) =
      N.process.shared.history.reads (N.process.shared.history.conn fd) ++ [x] :=
    Function.update_self _ _ _
  show (stream _).drop (payload ((N.process.shared.history.received fd x).reads _)).length = _
  rw [hreads, payload, List.flatMap_append, List.flatMap_singleton, List.length_append,
    ← List.drop_drop]
  rfl

/-- **Every step but a poll leaves less to do.** -/
lemma Exchanged.left_lt (hreach : Exchanged db store cs N) {w : Thread n} {S : Shared σ}
    (hwork : Work db (N.process.workers i) N.process.shared w S) (hallows : N.Allows S)
    (hpc : (N.process.workers i).pc ≠ .polling) :
    w.left (N.put i (w, S)).pendingOn < (N.process.workers i).left N.pendingOn := by
  have hth := hreach.reachable.inv.thread i
  cases hwork with
  | poll h => exact absurd h hpc
  | skip h | freeConn h | deleteFileEvent h | done h =>
      simp only [Thread.left, h, Prod.Lex.toLex_lt_toLex]
      simp
  | unknown h | call h =>
      simp only [Thread.left, h.pc, Prod.Lex.toLex_lt_toLex, List.length_cons]
      omega
  | @recv fd mask fired buf b b' table x h hrecv hbuf =>
      obtain ⟨b₀, -, hdel⟩ := hallows (N.process.shared.history.conn fd) x
        (Function.update_self _ _ _)
      cases hdel with
      | full | eof | again =>
          simp only [Thread.left, Pc.afterRead, h, Prod.Lex.toLex_lt_toLex]
          omega
      | data hpending hroom =>
          simp only [Thread.left, Pc.afterRead, h, Prod.Lex.toLex_lt_toLex]
          refine .inr ⟨trivial, .inl ?_⟩
          have hlen := List.length_pos_iff.mpr hpending
          show List.length (Network.pending _ (N.process.shared.history.conn fd)) < _
          rw [pending_received, List.length_drop, Network.pendingOn]
          simp only [ReadResult.bytes, List.length_take]
          omega
  | @command fd mask fired buf b b' table ret reply store h hd hflag hserve hbuf =>
      obtain ⟨-, p, rfl, hp⟩ := hth.calling fd mask buf fired (.inr h)
      obtain ⟨-, B, hB, hs⟩ := hth.session fd p hp
      obtain ⟨hlook, rfl⟩ := changes_iff.mp hbuf
      obtain rfl := Option.some.inj (hB.symm.trans hlook)
      rw [h] at hs
      have hrd := hs.kept_le.2 (if_pos rfl)
      obtain ⟨hpos, hleft, -⟩ := unread_of_pass hrd (pass_of_decod hrd hd hflag)
      have hload : (withBuffer (N.process.workers i).table p b').bufs.load (some p) = .ok b' :=
        Heap.load_of_lookup (Finmap.lookup_insert _)
      simp only [Thread.left, h, Prod.Lex.toLex_lt_toLex, hload, Heap.load_of_lookup hB]
      exact .inr ⟨trivial, .inr ⟨rfl, by omega⟩⟩
  | drained h hdone hbuf =>
      simp only [Thread.left, h, Prod.Lex.toLex_lt_toLex]
      exact .inr ⟨trivial, .inr ⟨rfl, Nat.succ_pos _⟩⟩

/-- The network after some steps of worker `i`. -/
structure Worked (db : KvStore σ (List Byte) (List Byte)) (i : Fin k) (N N' : Network n k σ) :
    Prop where
  run : Relation.ReflTransGen (Exchange db) N N'
  put : ∃ a, N' = N.put i a
  conn_eq : N'.process.shared.history.conn = N.process.shared.history.conn
  count_eq : N'.process.shared.history.count = N.process.shared.history.count
  reads : ∀ c, N.process.shared.history.reads c <+: N'.process.shared.history.reads c

lemma put_put_network (a b : Thread n × Shared σ) : (N.put i a).put i b = N.put i b := by
  simp only [Network.put, put_put]

lemma workers_put_network (a : Thread n × Shared σ) : (N.put i a).process.workers i = a.1 :=
  workers_put a

lemma Worked.refl (N : Network n k σ) : Worked db i N N :=
  ⟨.refl, ⟨_, (congrArg (fun P => Network.mk P N.clients) put_self).symm⟩, rfl, rfl,
    fun _ => List.prefix_refl _⟩

lemma Worked.trans {N₁ N₂ N₃ : Network n k σ} (h : Worked db i N₁ N₂) (h' : Worked db i N₂ N₃) :
    Worked db i N₁ N₃ := by
  obtain ⟨a, rfl⟩ := h.put
  obtain ⟨b, rfl⟩ := h'.put
  exact ⟨h.run.trans h'.run, ⟨b, put_put_network a b⟩, h'.conn_eq.trans h.conn_eq,
    h'.count_eq.trans h.count_eq, fun c => (h.reads c).trans (h'.reads c)⟩

lemma worked_of_work {w : Thread n} {S : Shared σ}
    (hwork : Work db (N.process.workers i) N.process.shared w S) (hallows : N.Allows S) :
    Worked db i N (N.put i (w, S)) := by
  have hstep : Step db N.process (N.process.put i (w, S)) := .work hwork
  refine ⟨.single (.serve hstep hallows), ⟨_, rfl⟩, ?_, ?_, hstep.reads_prefix⟩
  · cases hwork <;> rfl
  · cases hwork <;> rfl

lemma Worked.work {w w' : Thread n} {S S' : Shared σ} (h : Worked db i N (N.put i (w, S)))
    (hwork : Work db w S w' S') (hallows : (N.put i (w, S)).Allows S') :
    Worked db i N (N.put i (w', S')) := by
  have hwork' : Work db ((N.put i (w, S)).process.workers i) S w' S' := by
    rwa [workers_put_network]
  have hworked := worked_of_work hwork' hallows
  rw [put_put_network] at hworked
  exact h.trans hworked

/-- **A worker comes back to its poll.** -/
lemma Exchanged.leads_polling (hreach : Exchanged db store cs N) (hw : Writers cs) (i : Fin k) :
    ∃ N', Worked db i N N' ∧ (N'.process.workers i).pc = .polling := by
  induction hleft : (N.process.workers i).left N.pendingOn using WellFoundedLT.induction
    generalizing N with
  | ind left ih =>
      by_cases hpc : (N.process.workers i).pc = .polling
      · exact ⟨N, .refl N, hpc⟩
      · obtain ⟨w, S, hwork, hallows⟩ := hreach.exists_work (i := i) hw
        have hstep := worked_of_work hwork hallows
        have hlt := hreach.left_lt hwork hallows hpc
        rw [hleft] at hlt
        have hself : ((N.put i (w, S)).process.workers i) = w := workers_put _
        obtain ⟨N', hworked, hpolling⟩ := ih _ hlt (hreach.trans hstep.run) (by rw [hself])
        exact ⟨N', hstep.trans hworked, hpolling⟩

/-! ## The connection is made -/

/-- Steps of the process that do not read are steps of the network. -/
lemma exchange_of_run {P P' : Process n k σ} (clients : ℕ → Client)
    (hrun : Relation.ReflTransGen (Step db) P P')
    (hreads : P'.shared.history.reads = P.shared.history.reads) :
    Relation.ReflTransGen (Exchange db) ⟨P, clients⟩ ⟨P', clients⟩ := by
  induction hrun using Relation.ReflTransGen.head_induction_on with
  | refl => exact .refl
  | @head P P₁ hstep hrun ih =>
      have hgrows : ∀ c, P₁.shared.history.reads c <+: P'.shared.history.reads c := by
        intro c
        clear ih hreads
        induction hrun with
        | refl => exact List.prefix_refl _
        | tail _ hstep ih => exact ih.trans (hstep.reads_prefix c)
      have hsame : P₁.shared.history.reads = P.shared.history.reads := by
        funext c
        refine ((hstep.reads_prefix c).eq_of_length_le ?_).symm
        rw [← hreads]
        exact (hgrows c).length_le
      exact .head (.serve hstep (allows_of_reads_eq hsame)) (ih (hreads.trans hsame.symm))

section Connect

variable {P : Process n k σ} {fd : Int} {w : Thread n}

/-- `malloc` has addresses for all workers. -/
lemma exists_fresh (P : Process n k σ) :
    ∃ node conn buf, ∀ i, Fresh (P.workers i).table node conn buf := by
  have hfree : ∀ {α : Type} (h : Fin k → Heap α), ∃ a : ℕ, ∀ i, (h i).lookup a = none := by
    intro α h
    obtain ⟨a, ha⟩ := Infinite.exists_notMem_finset (Finset.univ.biUnion fun i => (h i).keys)
    refine ⟨a, fun i => Finmap.lookup_eq_none.mpr fun hmem => ha ?_⟩
    exact Finset.mem_biUnion.mpr ⟨i, Finset.mem_univ i, Finmap.mem_keys.mpr hmem⟩
  obtain ⟨node, hnode⟩ := hfree fun i => (P.workers i).table.nodes
  obtain ⟨conn, hconn⟩ := hfree fun i => (P.workers i).table.conns
  obtain ⟨buf, hbuf⟩ := hfree fun i => (P.workers i).table.bufs
  exact ⟨node, conn, buf, fun i => ⟨hnode i, hconn i, hbuf i⟩⟩

/-- The number of descriptors that `accept(2)` may still return: they are not open, and the event
table has a place for them. -/
def Process.free (P : Process n k σ) : ℕ :=
  ((Finset.range n).filter fun fd : ℕ => 0 < fd ∧ (fd : Int) ∉ P.opened).card

/-- The process after a registration that was under way, or a new one. -/
structure Connects (db : KvStore σ (List Byte) (List Byte)) (P P' : Process n k σ) : Prop where
  run : Relation.ReflTransGen (Step db) P P'
  reads_eq : P'.shared.history.reads = P.shared.history.reads
  count_eq : P'.shared.history.count = P.shared.history.count + 1
  /-- It takes at most one descriptor. -/
  free_le : P.free ≤ P'.free + 1

/-- One more step before it. -/
lemma Connects.head {P₁ P₂ : Process n k σ} (hstep : Step db P P₁)
    (hshared : P₁.shared = P.shared) (hopened : P₁.opened = P.opened) (h : Connects db P₁ P₂) :
    Connects db P P₂ := by
  have hfree : P₁.free = P.free := by rw [Process.free, hopened, Process.free]
  exact ⟨.head hstep h.run, hshared ▸ h.reads_eq, hshared ▸ h.count_eq, hfree ▸ h.free_le⟩

/-- Only `newConn` is left. -/
lemma connects_of_added (hinv : Inv db store (P.accepting i w (.added i fd))) :
    ∃ P', Connects db (P.accepting i w (.added i fd)) P' := by
  obtain ⟨node, conn, buf, hfresh⟩ := exists_fresh (P.accepting i w (.added i fd))
  have hfresh' := hfresh i
  rw [workers_accepting] at hfresh'
  obtain ⟨table, -, hstep⟩ := exists_newConn hinv hfresh'
  exact ⟨_, .single hstep, rfl, rfl, Nat.le_succ _⟩

/-- The kernel is still to be told. -/
lemma connects_of_created (hinv : Inv db store (P.accepting i w (.created i fd))) :
    ∃ P', Connects db (P.accepting i w (.created i fd)) P' := by
  obtain ⟨loop, -, hstep⟩ := exists_add hinv
  obtain ⟨P', hconn⟩ := connects_of_added (hinv.step hstep)
  exact ⟨P', hconn.head hstep rfl rfl⟩

/-- `accept(2)` has returned. -/
lemma connects_of_accepted (hinv : Inv db store (P.accepting i w (.accepted i fd))) :
    ∃ P', Connects db (P.accepting i w (.accepted i fd)) P' := by
  obtain ⟨loop, -, hstep⟩ := exists_create hinv
  obtain ⟨P', hconn⟩ := connects_of_created (hinv.step hstep)
  exact ⟨P', hconn.head hstep rfl rfl⟩

/-- The accept thread where it is. -/
lemma accepting_self (P : Process n k σ) (i : Fin k) :
    P.accepting i (P.workers i) P.accept = P := by
  simp only [Process.accepting, Process.setWorker, Function.update_eq_self]

/-- A registration that is under way can be finished. -/
lemma connects_of_busy (hinv : Inv db store P) (hbusy : P.accept ≠ .idle) :
    ∃ P', Connects db P P' := by
  cases hpc : P.accept with
  | idle => exact absurd hpc hbusy
  | accepted i fd =>
      rw [← accepting_self P i, hpc] at hinv ⊢
      exact connects_of_accepted hinv
  | created i fd =>
      rw [← accepting_self P i, hpc] at hinv ⊢
      exact connects_of_created hinv
  | added i fd =>
      rw [← accepting_self P i, hpc] at hinv ⊢
      exact connects_of_added hinv

/-- As long as there are descriptors, a client can be connected. -/
lemma connects_of_idle (hreach : Reachable db store P) (hk : 0 < k) (hn : n ≤ 2 ^ 31)
    (hidle : P.accept = .idle) (hfree : 0 < P.free) : ∃ P', Connects db P P' := by
  obtain ⟨fd, hfd⟩ := Finset.card_pos.mp hfree
  obtain ⟨hmem, hpos, hnew⟩ := Finset.mem_filter.mp hfd
  have hlt : fd < n := Finset.mem_range.mp hmem
  have hint : IsFd fd := ⟨by omega, by omega⟩
  obtain ⟨node, conn, buf, hfresh⟩ := exists_fresh P
  obtain ⟨i, w, -, -, hrun⟩ := tcpAcceptCallback_steps hreach hk hidle
    ⟨fd, true, false, true, node, conn, buf⟩ hint (Int.natCast_pos.mpr hpos)
    (Int.ofNat_lt.mpr hlt) hnew rfl rfl hfresh
  refine ⟨_, hrun, rfl, rfl, ?_⟩
  -- the descriptor is the only one that is not free any more
  refine (Finset.card_le_card fun f hf => ?_).trans (Finset.card_insert_le fd _)
  obtain ⟨hrange, hpos', hnew'⟩ := Finset.mem_filter.mp hf
  rcases eq_or_ne f fd with rfl | hne
  · exact Finset.mem_insert_self _ _
  · refine Finset.mem_insert_of_mem (Finset.mem_filter.mpr ⟨hrange, hpos', fun hmem' => ?_⟩)
    rcases Finset.mem_insert.mp hmem' with heq | hold
    · exact hne (Int.ofNat_inj.mp heq)
    · exact hnew' hold

/-- A client can be connected. -/
lemma exists_connects (hreach : Reachable db store P) (hk : 0 < k) (hn : n ≤ 2 ^ 31)
    (hfree : 0 < P.free) : ∃ P', Connects db P P' := by
  by_cases hidle : P.accept = .idle
  · exact connects_of_idle hreach hk hn hidle hfree
  · exact connects_of_busy hreach.inv hidle

end Connect

/-- **The first `m` clients can get their connections**, if there are descriptors for them: the
sockets that are open stay open. The induction is on the connections that are missing. -/
lemma Exchanged.leads_connected (hreach : Exchanged db store cs N) (hk : 0 < k) (hn : n ≤ 2 ^ 31)
    {m : ℕ} (hroom : m ≤ N.process.shared.history.count + N.process.free) :
    ∃ N', Relation.ReflTransGen (Exchange db) N N' ∧ m ≤ N'.process.shared.history.count := by
  induction hmissing : m - N.process.shared.history.count generalizing N with
  | zero => exact ⟨N, .refl, by omega⟩
  | succ missing ih =>
      obtain ⟨P', hconn⟩ := exists_connects hreach.reachable hk hn (by omega)
      have hrun : Relation.ReflTransGen (Exchange db) N ⟨P', N.clients⟩ :=
        exchange_of_run N.clients hconn.run hconn.reads_eq
      have hcount := hconn.count_eq
      have hfree := hconn.free_le
      obtain ⟨N', hrun', hle⟩ := @ih ⟨P', N.clients⟩ (hreach.trans hrun)
        (by show m ≤ P'.shared.history.count + P'.free; omega)
        (by show m - P'.shared.history.count = missing; omega)
      exact ⟨N', hrun.trans hrun', hle⟩

/-- Connections that were made stay made. -/
lemma count_le_of_run {N' : Network n k σ} (hrun : Relation.ReflTransGen (Exchange db) N N') :
    N.process.shared.history.count ≤ N'.process.shared.history.count := by
  induction hrun with
  | refl => exact le_rfl
  | tail _ hstep ih =>
      refine ih.trans ?_
      cases hstep with
      | write | read | close => exact le_rfl
      | serve hstep _ =>
          cases hstep with
          | newConn => exact Nat.le_succ _
          | accept | createFileEvent | aePollAddEvent | others => exact le_rfl
          | work hwork => cases hwork <;> exact le_rfl

/-! ## The reply -/

/-- The connection of a client that waits is open, with one of the workers. -/
lemma Exchanged.exists_bufferAt (hreach : Exchanged db store cs N) (hw : Writers cs) {c : ℕ}
    (hc : c < N.process.shared.history.count)
    (hwaits : (N.clients c).got.length < (N.clients c).written.length) :
    ∃ i fd p, (N.process.workers i).BufferAt fd p ∧ N.process.shared.history.conn fd = c ∧
      .eof ∉ N.process.shared.history.reads c := by
  have hinv := hreach.inv hw.ok c
  have hopen : .eof ∉ N.process.shared.history.reads c := fun h =>
    absurd (hinv.idle (hinv.finished h)).2 hwaits.ne
  rcases hreach.reachable.inv.made c hc with ⟨i, fd, p, hp, hconn⟩ | ⟨B, hs⟩
  · exact ⟨i, fd, p, hp, hconn, hopen⟩
  · exact absurd hs.eof_of_closed hopen

/-- A worker at its poll that has a connection can call `tcpRead` for it. -/
lemma Exchanged.leads_reading (hreach : Exchanged db store cs N) {fd : Int} {p : ℕ}
    (hp : (N.process.workers i).BufferAt fd p) (hpc : (N.process.workers i).pc = .polling) :
    ∃ N', Worked db i N N' ∧ (N'.process.workers i).BufferAt fd p ∧
      (N'.process.workers i).pc = .reading fd READABLE (some p) [] ∧
      N'.process.shared = N.process.shared := by
  have hinv := hreach.reachable.inv
  obtain ⟨l, hsys⟩ := hinv.view i
  obtain ⟨v, hv, -, -, rfl, -⟩ := hsys.table.owner_of_bufferOf hp.1 hp.2
  have hhas := hsys.table.linked.has_iff.mpr ⟨v, hv, rfl⟩
  obtain ⟨hmask, hepoll, hproc⟩ := hinv.readable hhas (by simp [Thread.TearingDown, hpc])
  obtain ⟨idx, hidx⟩ := exists_slot (hsys.table.holds.keys v hv).1 (hsys.conn_lt v hv)
  have hn : 0 < n := idx.pos
  -- the poll
  have hreports : Reports (N.process.workers i).loop.epoll n
      (some [⟨v.key, true, false, false, false⟩]) := by
    refine ⟨hn, fun e he => ?_⟩
    rw [List.mem_singleton.mp he, hepoll]
    exact Option.some_ne_none _
  have hpoll : aePollPoll n (some [⟨v.key, true, false, false, false⟩]) =
      .ok [(v.key, READABLE)] := if_pos hn
  have hwork₁ : Work db (N.process.workers i) N.process.shared
      { N.process.workers i with pc := .firing [(v.key, READABLE)] } N.process.shared :=
    .poll hpc hreports hpoll
  have hworked₁ := worked_of_work hwork₁ (allows_of_reads_eq rfl)
  -- the call
  obtain ⟨B, -, hfit, hch⟩ := (hinv.thread i).exists_changes hp
  rw [mask_of_slot hidx] at hmask
  unfold EventLoop.rproc at hproc
  rw [hidx] at hproc
  have htest : Thread.Calls { N.process.workers i with pc := .firing [(v.key, READABLE)] } v.key
      READABLE [] := ⟨rfl, idx, at?_of_slot hidx, by rw [hmask]; decide, hproc⟩
  have hwork₂ : Work db { N.process.workers i with pc := .firing [(v.key, READABLE)] }
      N.process.shared ⟨(N.process.workers i).loop, withBuffer (N.process.workers i).table p _,
        .reading v.key READABLE (some p) []⟩ N.process.shared :=
    .call htest hp.2 (prepare_of_le hfit) (hch _)
  refine ⟨_, hworked₁.work hwork₂ (allows_of_reads_eq rfl), ?_, ?_, rfl⟩
  · rw [workers_put_network]
    exact hp
  · rw [workers_put_network]

/-- A frame is not empty. -/
lemma stream_eq_nil {ds : List Command} (h : stream ds = []) : ds = [] := by
  cases ds with
  | nil => rfl
  | cons c ds =>
      have hlen := congrArg List.length h
      rw [stream, List.flatMap_cons, List.length_append, c.length_frame] at hlen
      simp [Command.frameLen] at hlen

/-- Nor is a reply. -/
lemma answer_ne_nil (cmd : Command) : answer cmd ≠ [] := by
  cases cmd with
  | set key val => exact (by decide : strSetOk ≠ [])
  | get key => exact (by decide : strNotFound ≠ [])

/-- A command that was read and is not being executed has been answered. -/
lemma Exchanged.read_reply (hreach : Exchanged db store cs N) (hw : Writers cs) {c : ℕ}
    (hwaits : (N.clients c).got.length < (N.clients c).written.length)
    (hpending : N.pending c = []) (hidle : ¬N.process.Dispatching c) :
    ∃ got, got.length = (N.clients c).written.length ∧
      Exchange db N (N.setClient c { N.clients c with got }) := by
  have hinv := hreach.inv hw.ok c
  obtain ⟨as, -, hlin⟩ := hreach.reachable.exists_acts
  obtain ⟨d, e, hp⟩ := hinv.progress (hw.ok c) hlin
  have hd : (N.clients c).written.length ≤ d := by
    rw [Network.pending, hp.sent.payload_eq, stream_drop_take] at hpending
    exact List.drop_eq_nil_iff.mp (stream_eq_nil hpending)
  have he : e = (N.clients c).written.length := by
    have hall := hp.actions.symm.trans (hlin.complete c hidle)
    rw [hp.sent.dispatched_eq] at hall
    have hlen := congrArg List.length hall
    have hexec := hp.executed_le
    have hdel := hp.delivered_le
    simp only [List.length_map, List.length_take] at hlen
    omega
  have hreplies := hp.replies
  rw [he, List.take_length] at hreplies
  have hunread : N.unread c ≠ [] := by
    obtain ⟨rest, hrest⟩ := hinv.got
    intro hnil
    rw [Network.unread, ← hrest, List.flatten_append, List.drop_left,
      List.flatten_eq_nil_iff] at hnil
    cases rest with
    | nil =>
        have hlen := congrArg List.length (hrest.trans hreplies)
        simp only [List.append_nil, List.length_map] at hlen
        omega
    | cons r rest =>
        have hmem : r ∈ (N.clients c).written.map answer := by
          rw [← hreplies, ← hrest]
          exact List.mem_append_right _ (.head _)
        obtain ⟨cmd, -, rfl⟩ := List.mem_map.mp hmem
        exact answer_ne_nil cmd (hnil _ (.head _))
  refine ⟨_, ?_, .read hwaits hunread⟩
  rw [hinv.unread_eq hreach.reachable (hw.ok c) hunread, hreplies, List.length_map]

/-- Worker `i` does not lose the connection to another one. -/
lemma Worked.worker_eq {N' : Network n k σ} (h : Worked db i N N')
    (hreach : Exchanged db store cs N) {j : Fin k} {f g : Int} {p q : ℕ}
    (hp : (N.process.workers i).BufferAt f p) (hq : (N'.process.workers j).BufferAt g q)
    (heq : N'.process.shared.history.conn g = N.process.shared.history.conn f) : j = i := by
  by_contra hne
  obtain ⟨a, rfl⟩ := h.put
  have hsame : (N.put i a).process.workers j = N.process.workers j := workers_setWorker _ hne
  rw [hsame] at hq
  rw [h.conn_eq] at heq
  have hinv := hreach.reachable.inv
  obtain rfl := hinv.numbered j i g f q p hq hp heq
  exact hne (hinv.apart j i g q p hq hp)

/-- What was read stays read. -/
lemma Worked.pending_nil {N' : Network n k σ} (h : Worked db i N N') {c : ℕ}
    (hpending : N.pending c = []) : N'.pending c = [] := by
  obtain ⟨a, rfl⟩ := h.put
  obtain ⟨xs, hxs⟩ := h.reads c
  rw [Network.pending, List.drop_eq_nil_iff] at hpending ⊢
  refine hpending.trans ?_
  rw [← hxs, payload, payload, List.flatMap_append, List.length_append]
  exact Nat.le_add_right _ _

/-- A client has at most one frame under way. -/
lemma Exchanged.length_pending_le (hreach : Exchanged db store cs N) (hw : Writers cs) (c : ℕ) :
    (N.pending c).length ≤ 100 := by
  have hinv := hreach.inv hw.ok c
  obtain ⟨as, -, hlin⟩ := hreach.reachable.exists_acts
  obtain ⟨d, e, hp⟩ := hinv.progress (hw.ok c) hlin
  rw [Network.pending, hp.sent.payload_eq, stream_drop_take]
  have hlen : ((N.clients c).written.drop d).length ≤ 1 := by
    have hle := hp.written_le
    rw [List.length_drop]
    omega
  rcases hrest : (N.clients c).written.drop d with _ | ⟨cmd, _ | ⟨cmd', rest⟩⟩
  · exact Nat.zero_le _
  · have hmem : cmd ∈ cs c := by
      rw [← hinv.split]
      refine List.mem_append_left _ (@List.mem_of_mem_drop _ _ d _ ?_)
      rw [hrest]
      exact .head _
    have hbounds := cmd.frameLen_bounds (hw.ok c cmd hmem)
    rw [stream, List.flatMap_singleton, cmd.length_frame]
    omega
  · rw [hrest, List.length_cons, List.length_cons] at hlen
    omega

/-- A worker at its `read(2)` takes what has arrived. -/
lemma Exchanged.leads_read (hreach : Exchanged db store cs N) (hw : Writers cs) {fd : Int}
    {mask : Mask} {buf : Ptr} {fired : List (Int × Mask)}
    (hpc : (N.process.workers i).pc = .reading fd mask buf fired) :
    ∃ N', Worked db i N N' ∧ N'.pending (N.process.shared.history.conn fd) = [] := by
  obtain ⟨w, S, hwork, hallows⟩ := hreach.exists_work (i := i) hw
  refine ⟨_, worked_of_work hwork hallows, ?_⟩
  cases hwork with
  | poll h | skip h | command h | drained h | deleteFileEvent h | freeConn h | done h =>
      cases hpc.symm.trans h
  | unknown h | call h => cases hpc.symm.trans h.pc
  | @recv fd' mask' fired' buf' b b' table x h _ hrecv hbuf =>
      cases hpc.symm.trans h
      obtain ⟨b₀, hb₀, hdel⟩ := hallows (N.process.shared.history.conn fd) x
        (Function.update_self _ _ _)
      obtain ⟨b₁, hb₁, hkept⟩ := hreach.readOn_eq hw (hreach.reachable.inv.open_of_reading hpc)
      obtain rfl := Option.some.inj (hb₁.symm.trans hb₀)
      rw [pending_received]
      cases hdel with
      | eof hpending | again hpending =>
          rw [hpending]
          rfl
      | full hroom =>
          rw [hkept] at hroom
          exact absurd hroom (by decide)
      | data hpending hroom =>
          have hlen := hreach.length_pending_le hw (N.process.shared.history.conn fd)
          rw [List.drop_eq_nil_iff, hkept]
          simp only [ReadResult.bytes, List.length_take]
          exact le_min hlen le_rfl

/-- The connections of worker `i` are dispatched by no other one. -/
lemma Exchanged.not_dispatching (hreach : Exchanged db store cs N) {fd : Int} {p : ℕ}
    (hp : (N.process.workers i).BufferAt fd p) (hpc : (N.process.workers i).pc = .polling) :
    ¬N.process.Dispatching (N.process.shared.history.conn fd) := by
  rintro ⟨j, g, mask, buf, fired, hpc', heq⟩
  have hinv := hreach.reachable.inv
  obtain ⟨-, q, -, hq⟩ := (hinv.thread j).calling g mask buf fired (.inr hpc')
  obtain rfl := hinv.numbered j i g fd q p hq hp heq
  obtain rfl := hinv.apart j i g q p hq hp
  cases hpc.symm.trans hpc'

/-- The connection of a client that waits stays with its worker. -/
lemma Worked.exists_bufferAt {N' : Network n k σ} (h : Worked db i N N')
    (hreach : Exchanged db store cs N) (hw : Writers cs) {f : Int} {p : ℕ}
    (hp : (N.process.workers i).BufferAt f p)
    (hwaits : (N.clients (N.process.shared.history.conn f)).got.length <
      (N.clients (N.process.shared.history.conn f)).written.length) :
    ∃ g q, (N'.process.workers i).BufferAt g q ∧
      N'.process.shared.history.conn g = N.process.shared.history.conn f := by
  have hclients : N'.clients = N.clients := by
    obtain ⟨a, rfl⟩ := h.put
    rfl
  have hlt : N.process.shared.history.conn f < N'.process.shared.history.count := by
    rw [h.count_eq]
    exact ((hreach.reachable.inv.thread i).session f p hp).1
  obtain ⟨j, g, q, hq, hconn, -⟩ := Exchanged.exists_bufferAt (hreach.trans h.run) hw hlt
    (by rwa [hclients])
  obtain rfl := h.worker_eq hreach hp hq hconn
  exact ⟨g, q, hq, hconn⟩

/-- **A client that waits can get its reply**, in every state that a run can reach. The worker that
has its connection finishes what it is doing, reads the frame, executes it, and comes back to its
poll. -/
lemma Exchanged.exists_reply (hreach : Exchanged db store cs N) (hw : Writers cs) {c : ℕ}
    (hc : c < N.process.shared.history.count)
    (hwaits : (N.clients c).got.length < (N.clients c).written.length) :
    ∃ P got, got.length = (N.clients c).written.length ∧ Relation.ReflTransGen (Exchange db) N
      (Network.setClient ⟨P, N.clients⟩ c { N.clients c with got }) := by
  obtain ⟨i, f, p, hp, rfl, -⟩ := hreach.exists_bufferAt hw hc hwaits
  -- the worker finishes what it is doing
  obtain ⟨N₁, hworked₁, hpc₁⟩ := hreach.leads_polling hw i
  have hreach₁ : Exchanged db store cs N₁ := hreach.trans hworked₁.run
  obtain ⟨g, q, hq, hconn⟩ := hworked₁.exists_bufferAt hreach hw hp hwaits
  -- it reads the frame
  obtain ⟨N₂, hworked₂, -, hpc₂, hshared⟩ := hreach₁.leads_reading hq hpc₁
  have hreach₂ : Exchanged db store cs N₂ := hreach₁.trans hworked₂.run
  obtain ⟨N₃, hworked₃, hpending⟩ := hreach₂.leads_read hw hpc₂
  rw [hshared, hconn] at hpending
  -- it executes the command
  obtain ⟨N₄, hworked₄, hpc₄⟩ := Exchanged.leads_polling (hreach₂.trans hworked₃.run) hw i
  have hworked := ((hworked₁.trans hworked₂).trans hworked₃).trans hworked₄
  have hreach₄ : Exchanged db store cs N₄ := hreach.trans hworked.run
  obtain ⟨g', q', hq', hconn'⟩ := hworked.exists_bufferAt hreach hw hp hwaits
  have hidle := hreach₄.not_dispatching hq' hpc₄
  rw [hconn'] at hidle
  have hpending₄ := hworked₄.pending_nil hpending
  obtain ⟨a, rfl⟩ := hworked.put
  obtain ⟨got, hgot, hread⟩ := hreach₄.read_reply hw hwaits hpending₄ hidle
  exact ⟨_, got, hgot, hworked.run.tail hread⟩

/-! ## All replies -/

/-- What a client has still to do: to write a command and to read the reply to it. -/
def Client.left (cl : Client) : ℕ := 2 * cl.todo.length + (cl.written.length - cl.got.length)

/-- A client has no more replies than it has written commands. -/
lemma Exchanged.length_got_le (hreach : Exchanged db store cs N) (hw : Writers cs) (c : ℕ) :
    (N.clients c).got.length ≤ (N.clients c).written.length := by
  obtain ⟨as, -, hlin⟩ := hreach.reachable.exists_acts
  obtain ⟨d, e, hp⟩ := (hreach.inv hw.ok c).progress (hw.ok c) hlin
  exact hp.read_le.trans (hp.executed_le.trans hp.delivered_le)

/-- A client that is connected can take its next step, and the others need not do anything. -/
lemma Exchanged.exists_left_lt (hreach : Exchanged db store cs N) (hw : Writers cs) {c : ℕ}
    (hc : c < N.process.shared.history.count) (hleft : (N.clients c).left ≠ 0) :
    ∃ N', Relation.ReflTransGen (Exchange db) N N' ∧ (∀ d, d ≠ c → N'.clients d = N.clients d) ∧
      (N'.clients c).left < (N.clients c).left := by
  by_cases hwaits : (N.clients c).got.length < (N.clients c).written.length
  · obtain ⟨P, got, hgot, hrun⟩ := hreach.exists_reply hw hc hwaits
    refine ⟨_, hrun, fun d hd => Function.update_of_ne hd _ _, ?_⟩
    simp only [Network.setClient, Function.update_self, Client.left, hgot]
    omega
  · have hle := hreach.length_got_le hw c
    have hidle : (N.clients c).got.length = (N.clients c).written.length := by omega
    cases htodo : (N.clients c).todo with
    | nil => simp [Client.left, htodo, hidle] at hleft
    | cons cmd rest =>
        refine ⟨_, .single (.write htodo hidle), fun d hd => Function.update_of_ne hd _ _, ?_⟩
        simp only [Network.setClient, Function.update_self, Client.left, htodo, hidle,
          List.length_cons, List.length_append, List.length_nil]
        omega

/-- A client that is connected can finish, and the others need not do anything. -/
lemma Exchanged.leads_done (hreach : Exchanged db store cs N) (hw : Writers cs) {c : ℕ}
    (hc : c < N.process.shared.history.count) :
    ∃ N', Relation.ReflTransGen (Exchange db) N N' ∧ (∀ d, d ≠ c → N'.clients d = N.clients d) ∧
      (N'.clients c).got.length = (cs c).length := by
  induction hleft : (N.clients c).left using Nat.strong_induction_on generalizing N with
  | _ left ih =>
      by_cases hzero : (N.clients c).left = 0
      · refine ⟨N, .refl, fun _ _ => rfl, ?_⟩
        have hsplit := congrArg List.length (hreach.inv hw.ok c).split
        have hle := hreach.length_got_le hw c
        rw [List.length_append] at hsplit
        rw [Client.left] at hzero
        omega
      · obtain ⟨N₁, hrun₁, hother₁, hlt⟩ := hreach.exists_left_lt hw hc hzero
        obtain ⟨N₂, hrun₂, hother₂, hdone⟩ :=
          ih _ (hleft ▸ hlt) (hreach.trans hrun₁) (hc.trans_le (count_le_of_run hrun₁)) rfl
        exact ⟨N₂, hrun₁.trans hrun₂, fun d hd => (hother₂ d hd).trans (hother₁ d hd), hdone⟩

/-- One client after the other. -/
lemma Exchanged.leads_all_done (hreach : Exchanged db store cs N) (hw : Writers cs) {m : ℕ}
    (hm : m ≤ N.process.shared.history.count) :
    ∃ N', Relation.ReflTransGen (Exchange db) N N' ∧
      ∀ c < m, (N'.clients c).got.length = (cs c).length := by
  induction m with
  | zero => exact ⟨N, .refl, fun c hc => absurd hc (Nat.not_lt_zero c)⟩
  | succ m ih =>
      obtain ⟨N₁, hrun₁, hdone₁⟩ := ih (by omega)
      have hm₁ : m < N₁.process.shared.history.count := hm.trans (count_le_of_run hrun₁)
      obtain ⟨N₂, hrun₂, hother, hdone₂⟩ := Exchanged.leads_done (hreach.trans hrun₁) hw hm₁
      refine ⟨N₂, hrun₁.trans hrun₂, fun c hc => ?_⟩
      by_cases hcm : c = m
      · exact hcm ▸ hdone₂
      · rw [hother c hcm]
        exact hdone₁ c (by omega)

/-- The first `m` clients are connected, and then served to the end. -/
lemma Exchanged.leads_finished (hreach : Exchanged db store cs N) (hw : Writers cs) (hk : 0 < k)
    (hn : n ≤ 2 ^ 31) {m : ℕ} (hroom : m ≤ N.process.shared.history.count + N.process.free) :
    ∃ N', Relation.ReflTransGen (Exchange db) N N' ∧
      ∀ c < m, (N'.clients c).got.length = (cs c).length := by
  obtain ⟨N₁, hrun₁, hm⟩ := hreach.leads_connected hk hn hroom
  obtain ⟨N₂, hrun₂, hdone⟩ := Exchanged.leads_all_done (hreach.trans hrun₁) hw hm
  exact ⟨N₂, hrun₁.trans hrun₂, hdone⟩

/-- **Every client can finish.** Whatever the process and its clients have done so far, the first
`m` clients can be served to the end, if the event table has free descriptors for those that are not
connected: each reads a reply to each of its commands. A client that waits is never stuck behind the
others. -/
theorem can_finish (hreach : Exchanged db store cs N) (hw : Writers cs) (hk : 0 < k)
    (hn : n ≤ 2 ^ 31) (m : ℕ)
    (hroom : m ≤ N.process.shared.history.count + N.process.free) :
    ∃ N', Relation.ReflTransGen (Exchange db) N N' ∧
      ∀ c < m, (N'.clients c).got = (cs c).map answer := by
  obtain ⟨N', hrun, hdone⟩ := hreach.leads_finished hw hk hn hroom
  have hreach' : Exchanged db store cs N' := hreach.trans hrun
  obtain ⟨as, -, hlin⟩ := hreach'.reachable.exists_acts
  refine ⟨N', hrun, fun c hc => ?_⟩
  obtain ⟨e, -, -, -, hgot⟩ := hreach'.executed hw.ok hlin c
  rw [hgot, hdone c hc, List.take_length]

/-- Two workers and a table of the size that `createEventLoop` gives it, with ten descriptors open:
the standard streams, the listening socket, and files of the store. -/
lemma exists_opened (db : KvStore σ (List Byte) (List Byte)) (store : σ) (cs : ℕ → List Command) :
    ∃ N : Network 10000 2 σ, Exchanged db store cs N ∧
      9990 ≤ N.process.shared.history.count + N.process.free := by
  have hstep : Step db (.init 10000 2 store) { Process.init 10000 2 store with
      opened := {0, 1, 2, 3, 4, 5, 6, 7, 8, 9}, sockets := {3} } :=
    .others (Finset.empty_subset _) (by decide)
  refine ⟨_, .single (.serve hstep (allows_of_reads_eq rfl)), ?_⟩
  have hsub : Finset.Ico 10 10000 ⊆ (Finset.range 10000).filter fun fd : ℕ =>
      0 < fd ∧ (fd : Int) ∉ ({0, 1, 2, 3, 4, 5, 6, 7, 8, 9} : Finset Int) := by
    intro fd hfd
    simp only [Finset.mem_Ico, Finset.mem_filter, Finset.mem_range, Finset.mem_insert,
      Finset.mem_singleton] at hfd ⊢
    omega
  have hcard := Finset.card_le_card hsub
  rw [Nat.card_Ico] at hcard
  exact hcard.trans (Nat.le_add_left _ _)

/-- Two clients that set the same key. -/
def rivals : ℕ → List Command
  | 0 => [.set [107] [118]]
  | 1 => [.set [107] [119]]
  | _ => []

lemma writers_rivals : Writers rivals where
  ok
    | 0 | 1 => by decide
    | c + 2 => fun _ h => absurd h List.not_mem_nil
  sets
    | 0 | 1 => fun _ h => ⟨_, _, List.mem_singleton.mp h⟩
    | c + 2 => fun _ h => absurd h List.not_mem_nil

theorem can_finish_rivals :
    ∃ N : Network 10000 2 (List Byte → Option (List Byte)),
      Exchanged (.map _ _) (fun _ => none) rivals N ∧
      ∀ c < 2, (N.clients c).got = (rivals c).map answer := by
  obtain ⟨N, hreach, hroom⟩ :=
    exists_opened (.map (List Byte) (List Byte)) (fun _ => none) rivals
  obtain ⟨N', hrun, hgot⟩ :=
    can_finish hreach writers_rivals (by decide) (by decide) 2 (by omega)
  exact ⟨N', hreach.trans hrun, hgot⟩

/-! ## Exactly once -/

/-- **Exactly once.** Whatever the interleaving, one order of actions explains the store and all
replies; in it each client has the first `e` of its commands, once and in order. A command that the
client has the reply to is among them, and at most one more is; and the replies are the answers to
the client's own commands. -/
theorem exactly_once (hreach : Exchanged db store cs N) (hok : ∀ c, ∀ cmd ∈ cs c, cmd.Ok) :
    ∃ as, Linearizes db store N.process as ∧ ∀ c, ∃ e,
      (N.clients c).got.length ≤ e ∧ e ≤ (N.clients c).got.length + 1 ∧
      actionsOf as c = ((cs c).take e).map Command.action ∧
      (N.clients c).got = ((cs c).take (N.clients c).got.length).map answer := by
  obtain ⟨as, -, hlin⟩ := hreach.reachable.exists_acts
  exact ⟨as, hlin, hreach.executed hok hlin⟩

theorem exactly_once_rivals :
    ∃ (N : Network 10000 2 (List Byte → Option (List Byte))) (as : List (ℕ × Action)),
      Exchanged (.map _ _) (fun _ => none) rivals N ∧
      Linearizes (.map _ _) (fun _ => none) N.process as ∧
      actionsOf as 0 = [.set [107] [118]] ∧ actionsOf as 1 = [.set [107] [119]] := by
  obtain ⟨N₀, hreach, hroom⟩ :=
    exists_opened (.map (List Byte) (List Byte)) (fun _ => none) rivals
  obtain ⟨N, hrun, hdone⟩ :=
    hreach.leads_finished (m := 2) writers_rivals (by decide) (by decide) (by omega)
  have hreach' : Exchanged _ _ rivals N := hreach.trans hrun
  obtain ⟨as, hlin, has⟩ := exactly_once hreach' writers_rivals.ok
  refine ⟨N, as, hreach', hlin, ?_, ?_⟩
  · obtain ⟨e, he, -, hacts, -⟩ := has 0
    rw [hacts, List.take_of_length_le (hdone 0 (by decide) ▸ he)]
    rfl
  · obtain ⟨e, he, -, hacts, -⟩ := has 1
    rw [hacts, List.take_of_length_le (hdone 1 (by decide) ▸ he)]
    rfl

end ActionDB.Threads
