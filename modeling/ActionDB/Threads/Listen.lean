import ActionDB.Threads.Accept
import ActionDB.Threads.Safety

/-!
# The listening socket and the loop of the accept thread

`tcpServer` of `net/tcpsocket.c` makes the listening socket, and `acceptThread` of
`threads/threads.c` registers it with an event loop of its own and then polls for ever.

* `acceptThread_listens`: `main` does not look at what `tcpServer` returns. The accept thread starts
  when all calls of `tcpServer` succeed, the socket is in its event table, and the two calls of
  `epoll` succeed. When a call of `tcpServer` fails, it accesses its event table at `-1`. Of the
  failing calls, those of `setsockopt` and `fcntl` leave the socket open.
* `acceptPass_steps`: once the thread has started, each pass of its loop returns, in every state
  that a run can reach, and is a run of the steps of the accept thread. As in `Threads.Process`,
  `accept(2)` returns descriptors below `setsize`, and `epoll_ctl` does not refuse them.
-/

namespace ActionDB.Threads

open ActionDB.Found ActionDB.Kernel ActionDB.Net ActionDB.Net.Codec ActionDB.Net.Conn
open ActionDB.Net.Event

variable {n k : ℕ} {σ : Type} {db : KvStore σ (List Byte) (List Byte)} {store : σ}
  {P : Process n k σ} {fd : Int}

/-! ## The program text -/

/-- What the system answers to the calls of `tcpServer`. -/
structure ListenResult where
  /-- What `socket(2)` returns. -/
  socket : Int
  setsockopt : Bool
  /-- The address can be parsed, if there is one. -/
  inetAton : Option Bool
  getfl : Bool
  setfl : Bool
  bind : Bool
  listen : Bool

/-- The result and the descriptors that are open. Source: `net/tcpsocket.c`, `createSocket`. -/
def createSocket (opened : Finset Int) (x : ListenResult) : Int × Finset Int :=
  if x.socket = -1 then (-1, opened)
  else if x.setsockopt then (x.socket, insert x.socket opened)
  else (-1, insert x.socket opened)

/-- Source: `net/tcpsocket.c`, `tcpSetBlock`, called by `tcpNonBlock`. -/
def tcpNonBlock (x : ListenResult) : Int :=
  if x.getfl then if x.setfl then 1 else -1 else -1

/-- Source: `net/tcpsocket.c`, `tcpListen`. -/
def tcpListen (opened : Finset Int) (s : Int) (x : ListenResult) : Int × Finset Int :=
  if x.bind then
    if x.listen then (1, opened) else (-1, opened.erase s)
  else (-1, opened.erase s)

/-- Source: `net/tcpsocket.c`, `tcpServer`. -/
def tcpServer (opened : Finset Int) (x : ListenResult) : Int × Finset Int :=
  let (s, opened) := createSocket opened x
  if s = -1 then (-1, opened)
  else if x.inetAton = some false then (-1, opened.erase s)
  else if tcpNonBlock x < 0 then (-1, opened)
  else
    let (ret, opened) := tcpListen opened s x
    if ret = -1 then (-1, opened) else (s, opened)

/-- What the system answers to the calls of `acceptThread`. -/
structure EpollResult where
  /-- The two `malloc` and `epoll_create` of `aePollCreate` succeed. -/
  created : Bool
  /-- `epoll_ctl` refuses the descriptor. -/
  denied : Bool

/-- Source: `net/aepoll.c`, `aePollCreate`. -/
def aePollCreate (x : EpollResult) : Int := if x.created then 1 else -1

/-- The event loop that the thread polls, if it gets there.
Source: `threads/threads.c`, `acceptThread`, lines 96-104. -/
def acceptThread (n : ℕ) (listenfd : Int) (x : EpollResult) :
    Except LoopFault (Option (EventLoop n)) := do
  let acceptEloop := createEventLoop n
  let (created, acceptEloop) ← createFileEvent acceptEloop listenfd READABLE .tcpAcceptCallback
  if created = -1 ∨ aePollCreate x = -1 then return none
  else
    let (added, acceptEloop) ← aePollAddEvent acceptEloop listenfd READABLE x.denied
    if added = -1 then return none else return some acceptEloop

/-- An event of the accept thread, and what the system answers while it is dispatched. -/
structure Arrival where
  event : EpollEvent
  result : AcceptResult

/-- The inner loop. It hands the callback `NULL` for a tree: `tcpAcceptCallback` does not look at
it, any other callback would dereference it. Source: `threads/threads.c`, `acceptThread`, lines
115-126. -/
def dispatchArrivals (e : EventLoop n) (ws : List (Worker n)) :
    List Arrival → Except Crash (List (Worker n))
  | [] => .ok ws
  | a :: as => do
      let i ← liftLoop (at? n a.event.fd)
      if ((e.fEvents i).mask &&& a.event.mask).has READABLE then
        match (e.fEvents i).rfileProc with
        | some .tcpAcceptCallback =>
            let (_, ws) ← tcpAcceptCallback ws a.result
            dispatchArrivals e ws as
        | _ => .error (.memory .nullDeref)
      else dispatchArrivals e ws as

/-- One pass of the outer loop. Source: `threads/threads.c`, `acceptThread`, lines 111-126. -/
def acceptPass (e : EventLoop n) (ws : List (Worker n)) (as : List Arrival) :
    Except Crash (List (Worker n)) := do
  let _ ← liftLoop (aePollPoll n (some (as.map Arrival.event)))
  dispatchArrivals e ws as

/-! ## The start -/

/-- All calls of `tcpServer` succeed. -/
structure ListenResult.Ok (x : ListenResult) : Prop where
  socket : x.socket ≠ -1
  setsockopt : x.setsockopt = true
  inetAton : x.inetAton ≠ some false
  nonBlock : 0 ≤ tcpNonBlock x
  bind : x.bind = true
  listen : x.listen = true

/-- A call fails after which the socket is not closed. -/
def ListenResult.Leaks (x : ListenResult) : Prop :=
  x.socket ≠ -1 ∧ (x.setsockopt = false ∨ x.inetAton ≠ some false ∧ tcpNonBlock x < 0)

lemma tcpServer_of_ok {x : ListenResult} (opened : Finset Int) (h : x.Ok) :
    tcpServer opened x = (x.socket, insert x.socket opened) := by
  unfold tcpServer createSocket tcpListen
  simp only [if_neg h.socket, h.setsockopt, if_true, if_neg h.inetAton, if_neg h.nonBlock.not_gt,
    h.bind, h.listen]
  rfl

/-- The calls in their order: the first that fails decides whether the socket is closed. -/
lemma tcpServer_of_not_ok {x : ListenResult} {opened : Finset Int} (hnew : x.socket ∉ opened)
    (h : ¬x.Ok) :
    (tcpServer opened x).1 = -1 ∧ (x.socket ∈ (tcpServer opened x).2 ↔ x.Leaks) := by
  unfold tcpServer createSocket tcpListen ListenResult.Leaks
  by_cases hsocket : x.socket = -1
  · rw [if_pos hsocket]
    exact ⟨rfl, iff_of_false hnew fun hleaks => hleaks.1 hsocket⟩
  rw [if_neg hsocket]
  cases hopt : x.setsockopt with
  | false => exact ⟨rfl, iff_of_true (Finset.mem_insert_self _ _) ⟨hsocket, .inl rfl⟩⟩
  | true =>
      simp only [if_true, if_neg hsocket]
      by_cases haton : x.inetAton = some false
      · rw [if_pos haton]
        exact ⟨rfl, iff_of_false (Finset.notMem_erase _ _) (by simp [haton])⟩
      rw [if_neg haton]
      by_cases hblock : tcpNonBlock x < 0
      · rw [if_pos hblock]
        exact ⟨rfl, iff_of_true (Finset.mem_insert_self _ _) ⟨hsocket, .inr ⟨haton, hblock⟩⟩⟩
      rw [if_neg hblock]
      have hnone : ¬(x.socket ≠ -1 ∧ (true = false ∨ x.inetAton ≠ some false ∧
          tcpNonBlock x < 0)) := by
        simp [hblock]
      cases hbind : x.bind with
      | false => exact ⟨rfl, iff_of_false (Finset.notMem_erase _ _) hnone⟩
      | true =>
          cases hlisten : x.listen with
          | false => exact ⟨rfl, iff_of_false (Finset.notMem_erase _ _) hnone⟩
          | true => exact absurd ⟨hsocket, hopt, haton, not_lt.mp hblock, hbind, hlisten⟩ h

/-- The event loop of the accept thread: its one event is that of the listening socket. -/
structure Listens (e : EventLoop n) (listenfd : Int) : Prop where
  mask : e.mask listenfd = READABLE
  rproc : e.rproc listenfd = some .tcpAcceptCallback
  epoll : ∀ fd, e.epoll fd ≠ none ↔ fd = listenfd

/-- `epoll_create` and `epoll_ctl` succeed. -/
structure EpollResult.Ok (x : EpollResult) : Prop where
  created : x.created = true
  denied : x.denied = false

/-- In the table the thread starts, or gives up. -/
lemma acceptThread_of_bounds (h₀ : 0 ≤ fd) (h₁ : fd < n) :
    ∃ e, Listens e fd ∧ ∀ x : EpollResult, (x.Ok → acceptThread n fd x = .ok (some e)) ∧
      (¬x.Ok → acceptThread n fd x = .ok none) := by
  obtain ⟨e, hcreate, hepoll, hmask, hrproc⟩ :=
    createFileEvent_spec (e := createEventLoop n) h₀ h₁ READABLE .tcpAcceptCallback
  have hread : e.mask fd = READABLE := by
    rw [hmask, if_pos rfl, mask_createEventLoop]
    exact BitVec.zero_or
  have hadd := aePollAddEvent_spec h₀ h₁ hread (congrFun hepoll fd)
  refine ⟨{ e with epoll := Function.update e.epoll fd (some READABLE) }, ⟨hread, ?_, ?_⟩, ?_⟩
  · exact (hrproc fd).trans (if_pos ⟨rfl, by decide⟩)
  · intro f
    change Function.update e.epoll fd (some READABLE) f ≠ none ↔ f = fd
    rcases eq_or_ne f fd with rfl | hne
    · rw [Function.update_self]
      exact iff_of_true (Option.some_ne_none _) rfl
    · rw [Function.update_of_ne hne, hepoll]
      exact iff_of_false (fun h => h rfl) hne
  · rintro ⟨created, denied⟩
    simp only [acceptThread, hcreate, ok_bind]
    cases created with
    | false => exact ⟨fun hok => absurd hok.created Bool.false_ne_true, fun _ => rfl⟩
    | true =>
        cases denied with
        | false =>
            rw [hadd]
            exact ⟨fun _ => rfl, fun hnot => absurd ⟨rfl, rfl⟩ hnot⟩
        | true =>
            rw [aePollAddEvent_denied h₀ h₁]
            exact ⟨fun hok => absurd hok.denied (by decide), fun _ => rfl⟩

/-- Outside the table the thread faults or, far above it, gives up. -/
lemma acceptThread_of_slot_none (hslot : slot n fd = none) (x : EpollResult) :
    acceptThread n fd x = if fd > n then .ok none else .error .outOfBounds := by
  unfold acceptThread createFileEvent
  by_cases hn : fd > n
  · simp only [if_pos hn, ok_bind]
    rfl
  · simp only [if_neg hn, at?, hslot]
    rfl

/-- What the thread polls, if it gets there. -/
lemma listens_of_acceptThread {e : EventLoop n} {x : EpollResult}
    (h : acceptThread n fd x = .ok (some e)) :
    Listens e fd ∧ x.Ok ∧ ∃ i, slot n fd = some i := by
  cases hslot : slot n fd with
  | none =>
      rw [acceptThread_of_slot_none hslot] at h
      split_ifs at h
      cases h
  | some i =>
      obtain ⟨h₀, h₁⟩ := bounds_of_slot hslot
      obtain ⟨e', hlistens, hstarts⟩ := acceptThread_of_bounds h₀ h₁
      by_cases hok : x.Ok
      · rw [(hstarts x).1 hok] at h
        cases h
        exact ⟨hlistens, hok, i, rfl⟩
      · rw [(hstarts x).2 hok] at h
        cases h

/-- **The accept thread starts** exactly when all calls of `tcpServer` succeed, the socket has a
place in the event table, and `epoll_create` and `epoll_ctl` succeed. When a call of `tcpServer`
fails, `listenfd` is `-1`, which `main` does not check, and the thread accesses its event table
there, as it does one behind its end; the socket stays open when `setsockopt` or `fcntl` failed. -/
theorem acceptThread_listens (opened : Finset Int) (x : ListenResult) (y : EpollResult)
    (hnew : x.socket ∉ opened) (hsocket : -1 ≤ x.socket) :
    ((∃ e, acceptThread n (tcpServer opened x).1 y = .ok (some e)) ↔
        x.Ok ∧ x.socket < n ∧ y.Ok) ∧
      (acceptThread n (tcpServer opened x).1 y = .error .outOfBounds ↔ ¬x.Ok ∨ x.socket = n) ∧
      (¬x.Ok → (x.socket ∈ (tcpServer opened x).2 ↔ x.Leaks)) := by
  by_cases hok : x.Ok
  swap
  · have hfault : acceptThread n (tcpServer opened x).1 y = .error .outOfBounds := by
      rw [(tcpServer_of_not_ok hnew hok).1, acceptThread_of_slot_none (dif_neg (by omega)),
        if_neg (by omega)]
    rw [hfault]
    refine ⟨iff_of_false ?_ fun h => hok h.1, iff_of_true rfl (.inl hok),
      fun _ => (tcpServer_of_not_ok hnew hok).2⟩
    rintro ⟨e, he⟩
    cases he
  have h₀ : 0 ≤ x.socket := by
    have hne := hok.socket
    omega
  rw [tcpServer_of_ok opened hok]
  refine ⟨?_, ?_, fun hnot => absurd hok hnot⟩
  · constructor
    · rintro ⟨e, he⟩
      obtain ⟨-, hy, i, hi⟩ := listens_of_acceptThread he
      exact ⟨hok, (bounds_of_slot hi).2, hy⟩
    · rintro ⟨-, h₁, hy⟩
      obtain ⟨e, -, hstarts⟩ := acceptThread_of_bounds h₀ h₁
      exact ⟨e, (hstarts y).1 hy⟩
  · rcases lt_or_ge x.socket n with h₁ | h₁
    · -- in the table no access faults
      obtain ⟨e, -, hstarts⟩ := acceptThread_of_bounds h₀ h₁
      refine iff_of_false (fun hfault => ?_) (by rintro (h | h) <;> [exact h hok; omega])
      by_cases hy : y.Ok
      · rw [(hstarts y).1 hy] at hfault
        cases hfault
      · rw [(hstarts y).2 hy] at hfault
        cases hfault
    · rw [acceptThread_of_slot_none (dif_neg (by omega))]
      split_ifs with hn
      · exact iff_of_false (by simp) (by rintro (h | h) <;> [exact h hok; omega])
      · exact iff_of_true rfl (.inr (by omega))

/-- The port is taken: `bind` fails, and the accept thread faults. -/
theorem acceptThread_listens_bind :
    acceptThread 10 (tcpServer ∅ ⟨3, true, none, true, true, false, true⟩).1 ⟨true, false⟩ =
      .error .outOfBounds := by
  have hfails : ¬ListenResult.Ok ⟨3, true, none, true, true, false, true⟩ := by
    rintro ⟨-, -, -, -, hbind, -⟩
    cases hbind
  exact (acceptThread_listens ∅ _ _ (Finset.notMem_empty _) (by decide)).2.1.mpr (.inl hfails)

/-! ## The loop -/

/-- What `accept(2)` may answer: it fails, or it returns a descriptor below `setsize` that is not
open. The addresses that `malloc` returns are not in use. -/
structure Offers (P : Process n k σ) (x : AcceptResult) : Prop where
  fd : x.fd = -1 ∨ IsFd x.fd ∧ x.fd < n ∧ x.fd ∉ P.opened
  denied : x.denied = false
  fresh : ∀ i, Fresh (P.workers i).table x.node x.conn x.buf

/-- What a call makes of the process. -/
structure Accepts (db : KvStore σ (List Byte) (List Byte)) (P : Process n k σ) (x : AcceptResult)
    (P' : Process n k σ) : Prop where
  steps : Relation.ReflTransGen (Step db) P P'
  idle : P'.accept = .idle
  /-- The client of a good socket is connected to the worker that is chosen. -/
  connects : x.nonBlock = true → x.fd > 0 → ∃ (i : Fin k) (w : Worker n),
    i = minconnsindex (P.list.map (·.table.connCnt)) ∧ P' = P.connect i x.fd w

/-- A socket is opened that is not handed to a worker. -/
lemma step_others (hinv : Inv db store P) (fd : Int) :
    Step db P { P with opened := insert fd P.opened, sockets := insert fd P.sockets } :=
  .others (Finset.subset_insert fd P.sockets) (Finset.insert_subset_insert fd hinv.sockets_opened)

/-- A call returns, with or without a client. -/
lemma tcpAcceptCallback_accepts (hreach : Reachable db store P) (hk : 0 < k)
    (hidle : P.accept = .idle) {x : AcceptResult} (hoffers : Offers P x) :
    ∃ r P', tcpAcceptCallback P.list x = .ok (r, P'.list) ∧ Accepts db P x P' := by
  by_cases hgood : x.nonBlock = true ∧ x.fd > 0
  · have hfd : IsFd x.fd ∧ x.fd < n ∧ x.fd ∉ P.opened :=
      hoffers.fd.resolve_left (by omega)
    obtain ⟨i, w, hindex, hcall, hsteps⟩ := tcpAcceptCallback_steps hreach hk hidle x hfd.1 hgood.2
      hfd.2.1 hfd.2.2 hgood.1 hoffers.denied hoffers.fresh
    exact ⟨_, _, hcall, hsteps, rfl, fun _ _ => ⟨i, w, hindex, rfl⟩⟩
  · -- nothing is handed to a worker
    have hneg : ¬ tcpAccept x > 0 := by
      unfold tcpAccept
      split_ifs with h₁ h₂
      · decide
      · exact fun hpos => hgood ⟨h₂, hpos⟩
      · decide
    have hcall : tcpAcceptCallback P.list x = .ok (tcpAccept x, P.list) := by
      simp only [tcpAcceptCallback, if_neg hneg]
      rfl
    by_cases hfails : x.fd = -1
    · exact ⟨_, P, hcall, .refl, hidle, fun h₁ h₂ => absurd ⟨h₁, h₂⟩ hgood⟩
    · exact ⟨_, { P with opened := insert x.fd P.opened, sockets := insert x.fd P.sockets }, hcall,
        .single (step_others hreach.inv x.fd), hidle, fun h₁ h₂ => absurd ⟨h₁, h₂⟩ hgood⟩

/-- **A pass of the accept thread** returns, in every state that a run can reach, and is a run of
the steps of the accept thread. When the kernel reports the listening socket readable and a client
is there, with a descriptor that `Offers` allows, it is connected to the worker of index
`minconnsindex`. -/
theorem acceptPass_steps {e : EventLoop n} {listenfd : Int} {y : EpollResult}
    (hstart : acceptThread n listenfd y = .ok (some e)) (hreach : Reachable db store P)
    (hk : 0 < k) (hidle : P.accept = .idle) (as : List Arrival)
    (hreports : Reports e.epoll n (some (as.map Arrival.event)))
    (hnodup : (as.map (·.event.fd)).Nodup) (hoffers : ∀ a ∈ as, Offers P a.result) :
    ∃ P', acceptPass e P.list as = .ok P'.list ∧ Relation.ReflTransGen (Step db) P P' ∧
      P'.accept = .idle ∧
      ∀ a ∈ as, a.event.epollin = true → a.result.nonBlock = true → a.result.fd > 0 →
        ∃ (i : Fin k) (w : Worker n), i = minconnsindex (P.list.map (·.table.connCnt)) ∧
          P' = P.connect i a.result.fd w := by
  obtain ⟨hlistens, -, i, hi⟩ := listens_of_acceptThread hstart
  have hfd : ∀ a ∈ as, a.event.fd = listenfd := fun a ha =>
    (hlistens.epoll _).mp (hreports.2 _ (List.mem_map_of_mem ha))
  have hpoll : acceptPass e P.list as = dispatchArrivals e P.list as := by
    simp only [acceptPass, aePollPoll, if_pos hreports.1, liftLoop_ok, ok_bind]
  rw [hpoll]
  match as, hnodup, hoffers, hfd with
  | [], _, _, _ => exact ⟨P, rfl, .refl, hidle, fun a ha => absurd ha List.not_mem_nil⟩
  | [a], _, hoffers, hfd =>
      have hat : at? n a.event.fd = .ok i := by
        rw [hfd a List.mem_cons_self]
        exact at?_of_slot hi
      have hmask : (e.fEvents i).mask = READABLE := (mask_of_slot hi).symm.trans hlistens.mask
      have hproc : (e.fEvents i).rfileProc = some .tcpAcceptCallback := by
        rw [← hlistens.rproc, EventLoop.rproc, hi]
      cases hin : a.event.epollin with
      | false =>
          refine ⟨P, ?_, .refl, hidle, ?_⟩
          · simp only [dispatchArrivals, hat, liftLoop_ok, ok_bind,
              if_neg (not_readable_of_fired hin _)]
          · intro b hb hin'
            rw [List.mem_singleton.mp hb, hin] at hin'
            cases hin'
      | true =>
          obtain ⟨r, P', hcall, hacc⟩ :=
            tcpAcceptCallback_accepts hreach hk hidle (hoffers a List.mem_cons_self)
          have htest : (READABLE &&& a.event.mask).has READABLE := by
            have hand : ∀ m : Mask, m.has READABLE → (READABLE &&& m).has READABLE := by decide
            exact hand _ (a.event.mask_has_readable.mpr hin)
          refine ⟨P', ?_, hacc.steps, hacc.idle, ?_⟩
          · simp only [dispatchArrivals, hat, liftLoop_ok, ok_bind, hmask, if_pos htest, hproc,
              hcall]
          · intro b hb _
            rw [List.mem_singleton.mp hb]
            exact hacc.connects
  | a :: b :: as, hnodup, _, hfd =>
      -- the kernel watches one descriptor, and reports it once
      have hne : a.event.fd ≠ b.event.fd := by
        intro h
        refine (List.nodup_cons.mp hnodup).1 ?_
        exact List.mem_map.mpr ⟨b, List.mem_cons_self, h.symm⟩
      exact absurd ((hfd a (by simp)).trans (hfd b (by simp)).symm) hne

/-- The second client of a server with two workers, whose listening socket is 3: the first one is
with worker 1, where a `read(2)` has just returned. -/
theorem acceptPass_steps_second :
    ∃ (e : EventLoop 10) (P P' : Process 10 2 (List Byte → Option (List Byte))) (w : Worker 10),
      Reachable (KvStore.map _ _) (fun _ => none) P ∧ (P.workers 1).table.connCnt = 1 ∧
      acceptThread 10 3 ⟨true, false⟩ = .ok (some e) ∧
      acceptPass e P.list [⟨⟨3, true, false, false, false⟩, ⟨6, true, false, true, 4, 5, 6⟩⟩] =
        .ok P'.list ∧ P' = P.connect 0 6 w := by
  have h₀ : (0 : Int) ≤ 3 := by decide
  obtain ⟨e, hlistens, hstarts⟩ := acceptThread_of_bounds (n := 10) h₀ (by decide)
  have hstart := (hstarts ⟨true, false⟩).1 ⟨rfl, rfl⟩
  obtain ⟨P, hP⟩ := exists_received [42, 9, 48, 48] (by decide) (by decide)
  have hfd : IsFd 6 := by constructor <;> decide
  have hoffers : Offers P ⟨6, true, false, true, 4, 5, 6⟩ := by
    refine ⟨.inr ⟨hfd, by decide, ?_⟩, rfl, fun i => ?_⟩
    · rw [hP.opened]
      decide
    · match i with
      | 0 => rw [hP.worker₀]; exact ⟨rfl, rfl, rfl⟩
      | 1 => exact hP.fresh
  obtain ⟨P', hpass, -, -, hconnects⟩ := acceptPass_steps hstart hP.reachable (by decide) hP.idle
    [⟨⟨3, true, false, false, false⟩, ⟨6, true, false, true, 4, 5, 6⟩⟩]
    ⟨by decide, by simpa using (hlistens.epoll 3).mpr rfl⟩ (by simp) (by simpa using hoffers)
  obtain ⟨i, w, hindex, hconnect⟩ := hconnects _ List.mem_cons_self rfl rfl (by decide)
  -- worker 0 has no connection
  have hcnts : P.list.map (·.table.connCnt) = [0, 1] := by
    simp [Process.list, Thread.worker, hP.worker₀, hP.connCnt, Table.empty]
  obtain rfl : i = 0 := by
    rw [hcnts] at hindex
    exact Fin.ext hindex
  exact ⟨e, P, P', w, hP.reachable, hP.connCnt, hstart, hpass, hconnect⟩

end ActionDB.Threads
