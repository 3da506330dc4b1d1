import ActionDB.Found.Spread
import ActionDB.Net.Callback

/-!
# Who owns the sockets

The server as a whole: its workers, and the sockets that `accept(2)` has returned and that are still
open. Between callbacks every such socket should be in the connection tree of one worker. The code
never closes one: not when a step of the registration fails, and not at end of file, when `freeConn`
takes the connection out of the tree. Such a step loses a socket for good (`Lossy`), since `accept`
does not return a descriptor that is open.

`socketsOwned_iff` is exact: the sockets are all owned after a run if and only if no step of the run
was lossy.
-/

namespace ActionDB.Net

open ActionDB.Found ActionDB.Net.Codec ActionDB.Net.Conn ActionDB.Net.Event

variable {n : ℕ}

/-! ## The server -/

/-- The workers, and the open sockets that `accept(2)` has returned. -/
structure Server (n : ℕ) where
  workers : List (Worker n)
  opened : List Int

/-- The server with `k` workers, as `main` makes it. -/
def Server.init (n k : ℕ) : Server n := ⟨List.replicate k ⟨createEventLoop n, .empty⟩, []⟩

/-- A callback that runs, and what the system answers. -/
inductive Happening where
  /-- The accept thread runs `tcpAcceptCallback`. -/
  | accept (x : AcceptResult)
  /-- Worker `i` runs `tcpReadCallback` for an event that has fired. -/
  | read (i : ℕ) (fd : Int) (mask : Mask) (xs : List ReadResult) (ret : Int)

/-- `accept` fails or returns a descriptor that is not open, `malloc` returns addresses that are not
in use, and a read event passes the test in `mainLoop`. -/
def Possible (S : Server n) : Happening → Prop
  | .accept x => x.fd = -1 ∨ IsFd x.fd ∧ x.fd ∉ S.opened ∧ ∀ w ∈ S.workers,
      w.table.nodes.lookup x.node = none ∧ w.table.conns.lookup x.conn = none ∧
        w.table.bufs.lookup x.buf = none
  | .read i fd mask _ _ => IsInt fd ∧
      ∃ w, S.workers[i]? = some w ∧ (w.loop.mask fd &&& mask).has READABLE

/-- One callback. A socket is opened by `accept(2)`; no callback closes one. -/
def Server.step (S : Server n) : Happening → Except Crash (Server n)
  | .accept x => do
      let (_, workers) ← tcpAcceptCallback S.workers x
      return { workers, opened := if x.fd = -1 then S.opened else x.fd :: S.opened }
  | .read i fd mask xs ret =>
      match S.workers[i]? with
      | none => .error (.bounds .outOfBounds)
      | some w => do
          let (_, w) ← tcpReadCallback w fd mask xs ret
          return { S with workers := S.workers.set i w }

/-- The callbacks of a run, newest first, each with the state it ran in. -/
inductive ServerRun (n k : ℕ) : List (Server n × Happening) → Server n → Prop
  | nil : ServerRun n k [] (.init n k)
  | step {tr : List (Server n × Happening)} {S S' : Server n} {x : Happening} :
      ServerRun n k tr S → Possible S x → S.step x = .ok S' → ServerRun n k ((S, x) :: tr) S'

/-- Worker `i` has the socket in its connection tree. -/
def Server.Owns (S : Server n) (i : ℕ) (fd : Int) : Prop :=
  ∃ w, S.workers[i]? = some w ∧ w.table.Has fd

/-- Every open socket is in exactly one tree, and there are as many as there are connections. -/
def Server.SocketsOwned (S : Server n) : Prop :=
  (∀ fd ∈ S.opened, ∃! i, S.Owns i fd) ∧
    (S.opened.length : Int) = (S.workers.map fun w => w.table.connCnt).sum

/-! ## Lossy steps -/

/-- `read(2)` reports end of file before `EAGAIN`. -/
def SeesEof (xs : List ReadResult) : Prop := .eof ∈ xs.takeWhile (· ≠ .again)

/-- A socket is accepted and then not registered: it cannot be made non-blocking, it is descriptor
0, it is beyond the table, or the kernel refuses to watch it. Or a connection is at its end. -/
def Lossy (S : Server n) : Happening → Prop
  | .accept x => x.fd ≠ -1 ∧ (x.nonBlock = false ∨ x.fd = 0 ∨ x.fd > n ∨ x.denied = true)
  | .read i fd _ xs _ => S.Owns i fd ∧ SeesEof xs

/-- `tcpRead` returns 0 exactly at end of file. -/
lemma readLoop_eof {b b' : Buffer} {xs rest : List ReadResult} {code : Int}
    (hrun : (readLoop b xs).2 = .ret code b' rest) : code = 0 ↔ SeesEof xs := by
  induction xs generalizing b with
  | nil =>
      unfold readLoop at hrun
      split at hrun
      · cases hrun
      · cases hrun
        simp [SeesEof]
  | cons x xs ih =>
      unfold readLoop at hrun
      split at hrun
      · cases hrun
      · cases x with
        | eof =>
            cases hrun
            simp [SeesEof]
        | again =>
            cases hrun
            simp [SeesEof]
        | data bytes =>
            rw [ih hrun]
            simp [SeesEof]
        | error =>
            rw [ih hrun]
            simp [SeesEof]

lemma tcpRead_eof {b b' : Buffer} {xs rest : List ReadResult} {code : Int}
    (hrun : (tcpRead b xs).2 = .ret code b' rest) : code = 0 ↔ SeesEof xs := by
  unfold tcpRead at hrun
  split at hrun
  · cases hrun
  · exact readLoop_eof hrun

/-! ## What the callbacks do to the descriptors of a worker -/

/-- The worker has connections for these descriptors. -/
def Serves (w : Worker n) (fds : List Int) : Prop :=
  ∃ l, TableInv w.table l ∧ l.map Item.key = fds

section Callbacks

variable {w w' : Worker n} {fds : List Int} {fd r : Int}

lemma Serves.has_iff (hw : Serves w fds) : w.table.Has fd ↔ fd ∈ fds := by
  obtain ⟨l, hinv, rfl⟩ := hw
  rw [hinv.linked.has_iff, List.mem_map]

lemma Serves.connCnt_eq (hw : Serves w fds) : w.table.connCnt = fds.length := by
  obtain ⟨l, hinv, rfl⟩ := hw
  rw [hinv.connCnt_eq, List.length_map]

/-- **Registering** a new socket that the table has room for and the kernel admits gives it to the
worker; otherwise the connections stay as they are. -/
theorem register_spec {x : AcceptResult} (hw : Serves w fds) (hfd : IsFd fd) (hnot : fd ∉ fds)
    (hnode : w.table.nodes.lookup x.node = none) (hconn : w.table.conns.lookup x.conn = none)
    (hbuf : w.table.bufs.lookup x.buf = none) (hmask : w.loop.mask fd = NONE)
    (hk : w.loop.epoll fd = none) (hcall : register w fd x = .ok (r, w')) :
    w.loop.SameOff w'.loop fd ∧
      ((fd > n ∨ x.denied = true) ∧ Serves w' fds ∨
        ¬(fd > n ∨ x.denied = true) ∧ ∃ fds', Serves w' fds' ∧ fds'.Perm (fd :: fds)) := by
  rcases lt_trichotomy fd n with hlt | heq | hgt
  · obtain ⟨loop₁, hcreate, hepoll, hmasks, -⟩ :=
      createFileEvent_spec (e := w.loop) hfd.1 hlt READABLE .tcpReadCallback
    have hoff : w.loop.SameOff loop₁ fd := fun f hf => ⟨by rw [hmasks, if_neg hf], by rw [hepoll]⟩
    simp only [register, hcreate, liftLoop_ok, ok_bind] at hcall
    cases hden : x.denied with
    | true =>
        have hone : ¬(1 : Int) = -1 := by decide
        simp only [hden, aePollAddEvent_denied hfd.1 hlt, liftLoop_ok, ok_bind, if_true,
          if_neg hone] at hcall
        -- the call that logs the failure has returned
        cases hlog : x.logged with
        | false =>
            rw [hlog] at hcall
            cases hcall
        | true =>
            rw [hlog] at hcall
            cases hcall
            exact ⟨hoff, .inl ⟨.inr rfl, hw⟩⟩
    | false =>
        have hread : loop₁.mask fd = READABLE := by
          rw [hmasks, if_pos rfl, hmask]
          rfl
        obtain ⟨l, hinv, rfl⟩ := hw
        obtain ⟨l₁, l₂, T', rfl, hnew, hinv'⟩ := newConn_spec hinv hfd
          (fun v hv hkey => hnot (List.mem_map.mpr ⟨v, hv, hkey⟩)) hnode hconn hbuf
        simp only [hden, aePollAddEvent_spec hfd.1 hlt hread (hepoll ▸ hk), liftLoop_ok, ok_bind,
          hnew, liftMem_ok] at hcall
        cases hcall
        refine ⟨fun f hf => ⟨(hoff f hf).1, ?_⟩, ?_⟩
        · exact (Function.update_of_ne hf _ _).trans (hoff f hf).2
        · refine .inr ⟨?_, _, ⟨_, hinv', rfl⟩, List.perm_middle.map Item.key⟩
          rintro (hgt | hden)
          · omega
          · cases hden
  · unfold register at hcall
    rw [createFileEvent_last heq] at hcall
    cases hcall
  · unfold register at hcall
    unfold createFileEvent at hcall
    rw [if_pos hgt] at hcall
    cases hcall
    exact ⟨fun f _ => ⟨rfl, rfl⟩, .inl ⟨.inl hgt, hw⟩⟩

/-- **Reading** takes a descriptor from the worker exactly if it has a connection that is at its
end. -/
theorem tcpReadCallback_spec {mask : Mask} {xs : List ReadResult} {ret : Int} (hw : Serves w fds)
    (hfd : IsInt fd) (hcall : tcpReadCallback w fd mask xs ret = .ok (r, w')) :
    w.loop.SameOff w'.loop fd ∧
      (¬(fd ∈ fds ∧ SeesEof xs) ∧ Serves w' fds ∨
        (fd ∈ fds ∧ SeesEof xs) ∧ ∃ fds', Serves w' fds' ∧ fds.Perm (fd :: fds')) := by
  obtain ⟨l, hinv, rfl⟩ := hw
  by_cases hmem : ∃ v ∈ l, v.key = fd
  · obtain ⟨v, hv, rfl⟩ := hmem
    obtain ⟨b, B, hB, hread⟩ := readConnection_of_mem hinv hv xs
    cases hout : (tcpRead B xs).2 with
    | stop s =>
        unfold tcpReadCallback at hcall
        rw [hread, hout] at hcall
        cases hcall
    | ret code B' rest =>
        have heof := tcpRead_eof hout
        have hinv' : TableInv { w.table with bufs := w.table.bufs.insert b B' } l :=
          ⟨hinv.holds, hinv.connCnt_eq, hinv.owns, hinv.buffered.write b B'⟩
        simp only [tcpReadCallback, hread, hout, ok_bind] at hcall
        by_cases hcode : code = 0
        · rw [if_pos hcode] at hcall
          obtain ⟨⟨d, loop⟩, hdel, hcall⟩ := bind_eq_ok hcall
          rcases freeConn_spec hinv' hfd with ⟨l₁, v', l₂, T', rfl, hkey, hfree, hinv''⟩ | ⟨hno, -⟩
          · simp only [hfree, liftMem_ok, ok_bind] at hcall
            cases hcall
            refine ⟨deleteFileEvent_sameOff (liftLoop_eq_ok hdel), .inr ⟨⟨?_, heof.mp hcode⟩, ?_⟩⟩
            · exact List.mem_map_of_mem hv
            · exact ⟨_, ⟨_, hinv'', rfl⟩, hkey ▸ List.perm_middle.map Item.key⟩
          · exact absurd rfl (hno v hv)
        · rw [if_neg hcode] at hcall
          cases hcall
          exact ⟨fun f _ => ⟨rfl, rfl⟩, .inl ⟨fun h => hcode (heof.mpr h.2), l, hinv', rfl⟩⟩
  · rw [tcpReadCallback, readConnection_of_not_mem hinv hfd fun v hv hkey => hmem ⟨v, hv, hkey⟩]
      at hcall
    cases hcall
    refine ⟨fun f _ => ⟨rfl, rfl⟩, .inl ⟨fun h => hmem ?_, l, hinv, rfl⟩⟩
    exact List.mem_map.mp h.1

end Callbacks

/-! ## Runs -/

/-- No worker watches a descriptor that is not open. -/
def Quiet (ws : List (Worker n)) (opened : List Int) : Prop :=
  ∀ w ∈ ws, ∀ fd, fd ∉ opened → w.loop.mask fd = NONE ∧ w.loop.epoll fd = none

/-- **The open sockets between callbacks**: those the workers hold, and those nobody holds. -/
structure Accounted (S : Server n) (held lost : List Int) : Prop where
  spread : Spread Serves S.workers held
  perm : (held ++ lost).Perm S.opened
  nodup : S.opened.Nodup
  quiet : Quiet S.workers S.opened

section Runs

variable {k : ℕ} {S S' : Server n} {held lost : List Int}

lemma accounted_init (n k : ℕ) : Accounted (Server.init n k) [] [] := by
  refine ⟨?_, .refl _, List.nodup_nil, ?_⟩
  · unfold Server.init
    induction k with
    | zero => exact .nil
    | succ k ih =>
        have hw : Serves (⟨createEventLoop n, .empty⟩ : Worker n) [] := ⟨[], tableInv_empty, rfl⟩
        exact Spread.cons hw ih
  · intro w hw fd _
    obtain rfl := List.eq_of_mem_replicate hw
    refine ⟨?_, rfl⟩
    unfold EventLoop.mask
    split <;> rfl

/-- A worker that has changed on one descriptor, which is open now. -/
lemma Quiet.set {ws : List (Worker n)} {opened opened' : List Int} {i : ℕ} {w w' : Worker n}
    {fd : Int} (hq : Quiet ws opened) (hi : ws[i]? = some w) (hoff : w.loop.SameOff w'.loop fd)
    (hsub : opened ⊆ opened') (hfd : fd ∈ opened') : Quiet (ws.set i w') opened' := by
  intro v hv f hf
  rcases List.mem_or_eq_of_mem_set hv with hv | rfl
  · exact hq v hv f fun h => hf (hsub h)
  · obtain ⟨hmask, hepoll⟩ := hoff f fun h => hf (h ▸ hfd)
    rw [hmask, hepoll]
    exact hq w (List.mem_of_getElem? hi) f fun h => hf (hsub h)

/-- Accepting a socket gives it to a worker or loses it. -/
theorem Accounted.accept {x : AcceptResult} (hacc : Accounted S held lost)
    (hposs : Possible S (.accept x)) (hstep : S.step (.accept x) = .ok S') :
    ∃ held' lost', Accounted S' held' lost' ∧ (lost' = [] ↔ lost = [] ∧ ¬Lossy S (.accept x)) := by
  obtain ⟨⟨r, ws⟩, hcall, hdone⟩ := bind_eq_ok hstep
  cases hdone
  rcases hposs with hneg | ⟨hfd, hopened, hfresh⟩
  · -- `accept` has failed
    rcases tcpAcceptCallback_cases hcall with ⟨-, -, rfl⟩ | ⟨hgood, -⟩
    · rw [if_pos hneg]
      exact ⟨held, lost, hacc, by simp [Lossy, hneg]⟩
    · omega
  have hne : x.fd ≠ -1 := by
    have := hfd.1
    omega
  have hnodup : (x.fd :: S.opened).Nodup := List.nodup_cons.mpr ⟨hopened, hacc.nodup⟩
  rw [if_neg hne]
  rcases tcpAcceptCallback_cases hcall with ⟨hbad, -, rfl⟩ | ⟨hgood, w, w', hi, hreg, rfl⟩
  · -- the socket is not registered
    have hlossy : Lossy S (.accept x) := by
      refine ⟨hne, ?_⟩
      by_cases hnb : x.nonBlock = true
      · have hle : ¬x.fd > 0 := fun h => hbad ⟨hnb, h⟩
        have := hfd.1
        exact .inr (.inl (by omega))
      · exact .inl (Bool.eq_false_iff.mpr hnb)
    refine ⟨held, x.fd :: lost, ⟨hacc.spread, ?_, hnodup, ?_⟩, by simp [hlossy]⟩
    · exact List.perm_middle.trans (hacc.perm.cons x.fd)
    · intro w hw f hf
      exact hacc.quiet w hw f fun h => hf (.tail _ h)
  · have hmem := List.mem_of_getElem? hi
    obtain ⟨hnode, hconn, hbuf⟩ := hfresh w hmem
    obtain ⟨hmask, hepoll⟩ := hacc.quiet w hmem x.fd hopened
    obtain ⟨l, rest, hw, hperm, hset⟩ := hacc.spread.focus hi
    have hnot : x.fd ∉ l := by
      intro h
      have hheld : x.fd ∈ held := hperm.symm.subset (List.mem_append_left _ h)
      exact hopened (hacc.perm.subset (List.mem_append_left _ hheld))
    have hquiet : ∀ {v : Worker n}, w.loop.SameOff v.loop x.fd →
        Quiet (S.workers.set _ v) (x.fd :: S.opened) :=
      fun hoff => hacc.quiet.set hi hoff (List.subset_cons_self _ _) List.mem_cons_self
    obtain ⟨hoff, ⟨hbad, hw'⟩ | ⟨hok, l', hw', hperm'⟩⟩ :=
      register_spec hw hfd hnot hnode hconn hbuf hmask hepoll hreg
    · have hlossy : Lossy S (.accept x) := ⟨hne, .inr (.inr hbad)⟩
      obtain ⟨held', hspread', hheld'⟩ := hset w' l hw'
      refine ⟨held', x.fd :: lost, ⟨hspread', ?_, hnodup, hquiet hoff⟩, by simp [hlossy]⟩
      have hheld : held'.Perm held := hheld'.trans hperm.symm
      exact List.perm_middle.trans (((hheld.append_right lost).trans hacc.perm).cons x.fd)
    · have hlossy : ¬Lossy S (.accept x) := by
        rintro ⟨-, hnb | hzero | hbad⟩
        · rw [hgood.1] at hnb
          cases hnb
        · omega
        · exact hok hbad
      obtain ⟨held', hspread', hheld'⟩ := hset w' l' hw'
      refine ⟨held', lost, ⟨hspread', ?_, hnodup, hquiet hoff⟩, by rw [and_iff_left hlossy]⟩
      have hheld : held'.Perm (x.fd :: held) :=
        hheld'.trans ((hperm'.append_right rest).trans (hperm.symm.cons x.fd))
      exact (hheld.append_right lost).trans (hacc.perm.cons x.fd)

/-- Reading loses a socket at the end of its connection. -/
theorem Accounted.read {i : ℕ} {fd : Int} {mask : Mask} {xs : List ReadResult} {ret : Int}
    (hacc : Accounted S held lost) (hposs : Possible S (.read i fd mask xs ret))
    (hstep : S.step (.read i fd mask xs ret) = .ok S') :
    ∃ held' lost', Accounted S' held' lost' ∧
      (lost' = [] ↔ lost = [] ∧ ¬Lossy S (.read i fd mask xs ret)) := by
  obtain ⟨hfd, w, hi, hmask⟩ := hposs
  have hfd_open : fd ∈ S.opened := by
    by_contra hnot
    rw [(hacc.quiet w (List.mem_of_getElem? hi) fd hnot).1] at hmask
    exact absurd hmask (by simp [Mask.has, NONE])
  simp only [Server.step, hi] at hstep
  obtain ⟨⟨r, w'⟩, hcall, hdone⟩ := bind_eq_ok hstep
  cases hdone
  obtain ⟨l, rest, hw, hperm, hset⟩ := hacc.spread.focus hi
  have hlossy : Lossy S (.read i fd mask xs ret) ↔ fd ∈ l ∧ SeesEof xs := by
    refine and_congr_left fun _ => ?_
    rw [← hw.has_iff]
    constructor
    · rintro ⟨v, hv, hhas⟩
      rw [hi] at hv
      cases hv
      exact hhas
    · exact fun hhas => ⟨w, hi, hhas⟩
  rw [hlossy]
  obtain ⟨hoff, ⟨hno, hw'⟩ | ⟨heof, l', hw', hperm'⟩⟩ := tcpReadCallback_spec hw hfd hcall
  · obtain ⟨held', hspread', hheld'⟩ := hset w' l hw'
    refine ⟨held', lost, ⟨hspread', ?_, hacc.nodup, ?_⟩, ?_⟩
    · exact ((hheld'.trans hperm.symm).append_right lost).trans hacc.perm
    · exact hacc.quiet.set hi hoff (List.Subset.refl _) hfd_open
    · rw [and_iff_left hno]
  · obtain ⟨held', hspread', hheld'⟩ := hset w' l' hw'
    refine ⟨held', fd :: lost, ⟨hspread', ?_, hacc.nodup, ?_⟩, ?_⟩
    · have hheld : held.Perm (fd :: held') :=
        hperm.trans ((hperm'.append_right rest).trans (hheld'.symm.cons fd))
      exact List.perm_middle.trans ((hheld.symm.append_right lost).trans hacc.perm)
    · exact hacc.quiet.set hi hoff (List.Subset.refl _) hfd_open
    · simp [heof]

/-- **Every run accounts for the sockets**, and loses one if and only if a step is lossy. -/
theorem ServerRun.accounted {tr : List (Server n × Happening)} (hrun : ServerRun n k tr S) :
    ∃ held lost, Accounted S held lost ∧ (lost = [] ↔ ∀ p ∈ tr, ¬Lossy p.1 p.2) := by
  induction hrun with
  | nil => exact ⟨[], [], accounted_init n k, by simp⟩
  | @step tr S S' x _ hposs hstep ih =>
      obtain ⟨held, lost, hacc, hiff⟩ := ih
      have hnext : ∃ held' lost', Accounted S' held' lost' ∧
          (lost' = [] ↔ lost = [] ∧ ¬Lossy S x) := by
        cases x with
        | accept x => exact hacc.accept hposs hstep
        | read i fd mask xs ret => exact hacc.read hposs hstep
      obtain ⟨held', lost', hacc', hiff'⟩ := hnext
      refine ⟨held', lost', hacc', ?_⟩
      rw [hiff', hiff, List.forall_mem_cons, and_comm]

/-- The workers count what they hold. -/
lemma spread_connCnt {ws : List (Worker n)} (hs : Spread Serves ws held) :
    (ws.map fun w => w.table.connCnt).sum = held.length := by
  induction hs with
  | nil => rfl
  | cons hw _ ih =>
      rw [List.map_cons, List.sum_cons, ih, hw.connCnt_eq, List.length_append]
      push_cast
      rfl

/-- The sockets are owned when none is lost. -/
lemma Accounted.socketsOwned_iff_lost (hacc : Accounted S held lost) :
    S.SocketsOwned ↔ lost = [] := by
  have hlen : held.length + lost.length = S.opened.length := by
    rw [← List.length_append]
    exact hacc.perm.length_eq
  unfold Server.SocketsOwned
  rw [spread_connCnt hacc.spread]
  constructor
  · rintro ⟨-, hcnt⟩
    exact List.eq_nil_of_length_eq_zero (by omega)
  · rintro rfl
    rw [List.length_nil, Nat.add_zero] at hlen
    refine ⟨?_, by rw [hlen]⟩
    intro fd hfd
    have hperm : held.Perm S.opened := by simpa using hacc.perm
    exact hacc.spread.existsUnique (fun w l a hw => hw.has_iff) (hperm.nodup_iff.mpr hacc.nodup)
      (hperm.mem_iff.mpr hfd)

/-- **The sockets after a run** are all owned if and only if no step of the run was lossy. -/
theorem socketsOwned_iff {tr : List (Server n × Happening)} (hrun : ServerRun n k tr S) :
    S.SocketsOwned ↔ ∀ p ∈ tr, ¬Lossy p.1 p.2 := by
  obtain ⟨held, lost, hacc, hiff⟩ := hrun.accounted
  rw [hacc.socketsOwned_iff_lost, hiff]

/-- A client connects on descriptor 5, and nothing fails. -/
def acceptFive : AcceptResult := ⟨5, true, false, true, 1, 2, 3⟩

lemma possible_five : Possible (.init 10 1) (.accept acceptFive) := by
  refine .inr ⟨by constructor <;> decide, List.not_mem_nil, ?_⟩
  intro w hw
  obtain rfl := List.eq_of_mem_replicate hw
  exact ⟨rfl, rfl, rfl⟩

theorem socketsOwned_five :
    ∃ S : Server 10, ServerRun 10 1 [(.init 10 1, .accept acceptFive)] S ∧ S.SocketsOwned := by
  have hrun := ServerRun.step .nil possible_five rfl
  refine ⟨_, hrun, (socketsOwned_iff hrun).mpr ?_⟩
  rw [List.forall_mem_singleton]
  simp [Lossy, acceptFive]

/-- The client hangs up: the socket is open, and no worker has it. -/
theorem socket_lost_at_eof :
    ∃ (tr : List (Server 10 × Happening)) (S : Server 10), ServerRun 10 1 tr S ∧ S.opened = [5] ∧
      (∀ i, ¬S.Owns i 5) ∧ (S.workers.map fun w => w.table.connCnt).sum = 0 := by
  have hrun := ServerRun.step .nil possible_five rfl
  have hrun' := ServerRun.step (x := .read 0 5 READABLE [.eof] 0) hrun
    ⟨by constructor <;> decide, _, rfl, by decide⟩ rfl
  refine ⟨_, _, hrun', rfl, ?_, rfl⟩
  rintro i ⟨w, hi, t, hrep, v, hv, -⟩
  have hroot : w.table.root = none := by
    cases i with
    | zero =>
        cases hi
        rfl
    | succ i => cases hi
  rw [hrep.root_eq, ptr_eq_none] at hroot
  rw [hroot] at hv
  exact absurd hv List.not_mem_nil

end Runs

end ActionDB.Net
