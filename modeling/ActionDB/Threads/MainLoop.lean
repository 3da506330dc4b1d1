import ActionDB.Found.Leads
import ActionDB.Threads.Safety

/-!
# A pass of `mainLoop`

`mainLoop` of `threads/threads.c` as the program text has it, one statement after the other: poll,
and for every event that fired test it and call `tcpReadCallback`, which returns when it has read
and executed everything. What the system answers in a pass is given: the events, and for each of
them the results of its reads. `PassStep` is a step of the worker in which the system answers just
this, and there is only one such step (`PassStep.unique`).

* `tcpReadCallback_leads`: a call of `tcpReadCallback` that returns is a run of these steps, to the
  same event loop and the same table.
* `mainLoopPass_leads`: so is a whole pass of `mainLoop`, from a poll to the next, and the other
  workers stay as they are.

The steps also execute the commands, which `tcpReadCallback` as modelled in `Net.Callback` only
records; one that does not return stops the run (`Stops`).
-/

namespace ActionDB.Threads

open ActionDB.Found ActionDB.Kernel ActionDB.Net ActionDB.Net.Codec ActionDB.Net.Conn
open ActionDB.Net.Event

variable {n k : ℕ} {σ : Type} {db : KvStore σ (List Byte) (List Byte)} {store : σ}

/-! ## The program text -/

/-- An event that fired, and what the system answers while it is dispatched: the results of
`read(2)`, and what `deleteFileEvent` takes for the result of `aePollDeleteEvent`. -/
structure Fired where
  event : EpollEvent
  reads : List ReadResult
  ret : Int

/-- The body of the inner loop. No worker has an event with another callback.
Source: `threads/threads.c`, `mainLoop`, lines 59-68. -/
def dispatchEvent (w : Worker n) (e : Fired) : Except Crash (Worker n) := do
  let i ← liftLoop (at? n e.event.fd)
  if ((w.loop.fEvents i).mask &&& e.event.mask).has READABLE then
    match (w.loop.fEvents i).rfileProc with
    | some .tcpReadCallback =>
        let (_, w) ← tcpReadCallback w e.event.fd e.event.mask e.reads e.ret
        return w
    | _ => .error (.memory .nullDeref)
  else return w

/-- The inner loop. Source: `threads/threads.c`, `mainLoop`, lines 58-69. -/
def dispatchEvents (w : Worker n) : List Fired → Except Crash (Worker n)
  | [] => .ok w
  | e :: es => do
      let w ← dispatchEvent w e
      dispatchEvents w es

/-- One pass of the outer loop. Source: `threads/threads.c`, `mainLoop`, lines 54-69. -/
def mainLoopPass (w : Worker n) (es : List Fired) : Except Crash (Worker n) := do
  let _ ← liftLoop (aePollPoll n (some (es.map Fired.event)))
  dispatchEvents w es

/-! ## The answers of the system -/

/-- A worker in a pass, what is shared, and what the system will answer for the events that are not
dispatched. -/
abbrev Passing (n : ℕ) (σ : Type) := Thread n × Shared σ × List Fired

/-- The result of the next `read(2)`. When the results are used up there is nothing to read. -/
def nextRead : List Fired → ReadResult × List Fired
  | [] => (.again, [])
  | e :: es =>
      match e.reads with
      | [] => (.again, e :: es)
      | x :: xs => (x, { e with reads := xs } :: es)

/-- What is left of the answers when the worker has come to `pc`: back in `mainLoop`, it has
dispatched an event. -/
def Pc.leaves : Pc → List Fired → List Fired
  | .firing _, es => es.tail
  | _, es => es

/-- Where the worker calls the system, which may answer one thing or another. -/
def Pc.Asks : Pc → Prop
  | .polling | .reading .. | .eof .. => True
  | .firing _ | .dispatching .. | .deleted .. => False

/-- **The steps of a worker in a pass**, in which the system answers as given. -/
inductive PassStep (db : KvStore σ (List Byte) (List Byte)) : Passing n σ → Passing n σ → Prop
  | poll {w : Thread n} {S : Shared σ} {es : List Fired} {fired : List (Int × Mask)}
      (hpc : w.pc = .polling) (hreports : Reports w.loop.epoll n (some (es.map Fired.event)))
      (hcall : aePollPoll n (some (es.map Fired.event)) = .ok fired) :
      PassStep db (w, S, es) ({ w with pc := .firing fired }, S, es)
  | recv {w : Thread n} {S : Shared σ} {es es' : List Fired} {fd : Int} {mask : Mask}
      {fired : List (Int × Mask)} {buf : Ptr} {b b' : Buffer} {table : Table} {x : ReadResult}
      (hpc : w.pc = .reading fd mask buf fired) (hnext : nextRead es = (x, es'))
      (hfits : x.Fits b) (hrecv : (prepare b).bind (receive · x) = .ok b')
      (hbuf : Changes w.table buf b b' table) :
      PassStep db (w, S, es) ({ w with table, pc := .afterRead fd mask buf fired x },
        { S with history := S.history.received fd x },
        (Pc.afterRead fd mask buf fired x).leaves es')
  | deleteFileEvent {w : Thread n} {S : Shared σ} {e : Fired} {es : List Fired} {fd : Int}
      {mask : Mask} {fired : List (Int × Mask)} {r : Option Int} {loop : EventLoop n}
      (hpc : w.pc = .eof fd mask fired) (hret : e.ret ≠ -1)
      (hcall : deleteFileEvent w.loop fd mask e.ret = .ok (r, loop)) :
      PassStep db (w, S, e :: es) ({ w with loop, pc := .deleted fd fired }, S, e :: es)
  /-- The worker goes on by itself. -/
  | own {w w' : Thread n} {S S' : Shared σ} {es : List Fired} (hasks : ¬w.pc.Asks)
      (hwork : Work db w S w' S') : PassStep db (w, S, es) (w', S', w'.pc.leaves es)

section Unique

variable {w w₁ w₂ : Thread n} {S S₁ S₂ : Shared σ} {T T₁ T₂ : Table} {buf : Ptr}
  {b b' b₁ b₂ : Buffer} {a a₁ a₂ : Passing n σ}

/-- A step of a pass is a step of the worker. -/
lemma PassStep.work (h : PassStep db a a₁) : Work db a.1 a.2.1 a₁.1 a₁.2.1 := by
  cases h with
  | poll hpc hreports hcall => exact .poll hpc hreports hcall
  | recv hpc _ hfits hrecv hbuf => exact .recv hpc hfits hrecv hbuf
  | deleteFileEvent hpc hret hcall => exact .deleteFileEvent hpc hret hcall
  | own _ hwork => exact hwork

/-- There is one buffer to change. -/
lemma Changes.same (h₁ : Changes T buf b b₁ T₁) (h₂ : Changes T buf b' b₂ T₂) : b = b' :=
  Except.ok.inj (h₁.load.symm.trans h₂.load)

/-- What a change makes of the table. -/
lemma Changes.unique (h₁ : Changes T buf b b' T₁) (h₂ : Changes T buf b₁ b' T₂) : T₁ = T₂ :=
  Except.ok.inj (h₁.store.symm.trans h₂.store)

/-- An event that passes the test is not skipped. -/
lemma Thread.Calls.not_skip {fd fd' : Int} {mask mask' : Mask} {fired fired' : List (Int × Mask)}
    {i : Fin n} (htest : w.Calls fd mask fired) (hpc : w.pc = .firing ((fd', mask') :: fired'))
    (hindex : at? n fd' = .ok i) : ((w.loop.fEvents i).mask &&& mask').has READABLE := by
  obtain ⟨j, hj, hmask, -⟩ := htest.test
  cases htest.pc.symm.trans hpc
  obtain rfl := Except.ok.inj (hindex.symm.trans hj)
  exact hmask

/-- In the inner loop of `mainLoop` the test and the search decide. -/
lemma Work.unique_firing {fired : List (Int × Mask)} (hpc : w.pc = .firing fired)
    (h₁ : Work db w S w₁ S₁) (h₂ : Work db w S w₂ S₂) : w₁ = w₂ ∧ S₁ = S₂ := by
  cases h₁ with
  | poll h | recv h | command h | drained h | deleteFileEvent h | freeConn h =>
      cases hpc.symm.trans h
  | skip hskip hindex hmask =>
      cases h₂ with
      | poll h | recv h | command h | drained h | deleteFileEvent h | freeConn h =>
          cases hpc.symm.trans h
      | skip hskip' =>
          cases hskip.symm.trans hskip'
          exact ⟨rfl, rfl⟩
      | unknown htest | call htest => exact absurd (htest.not_skip hskip hindex) hmask
      | done hdone => cases hskip.symm.trans hdone
  | unknown htest hcall =>
      cases h₂ with
      | poll h | recv h | command h | drained h | deleteFileEvent h | freeConn h =>
          cases hpc.symm.trans h
      | skip hskip hindex hmask => exact absurd (htest.not_skip hskip hindex) hmask
      | unknown htest' =>
          cases htest.pc.symm.trans htest'.pc
          exact ⟨rfl, rfl⟩
      | call htest' hcall' =>
          cases htest.pc.symm.trans htest'.pc
          cases hcall.symm.trans hcall'
      | done hdone => cases htest.pc.symm.trans hdone
  | call htest hcall hprep hbuf =>
      cases h₂ with
      | poll h | recv h | command h | drained h | deleteFileEvent h | freeConn h =>
          cases hpc.symm.trans h
      | skip hskip hindex hmask => exact absurd (htest.not_skip hskip hindex) hmask
      | unknown htest' hcall' =>
          cases htest.pc.symm.trans htest'.pc
          cases hcall.symm.trans hcall'
      | call htest' hcall' hprep' hbuf' =>
          cases htest.pc.symm.trans htest'.pc
          cases hcall.symm.trans hcall'
          cases hbuf.same hbuf'
          cases hprep.symm.trans hprep'
          cases hbuf.unique hbuf'
          exact ⟨rfl, rfl⟩
      | done hdone => cases htest.pc.symm.trans hdone
  | done hdone =>
      cases h₂ with
      | poll h | recv h | command h | drained h | deleteFileEvent h | freeConn h =>
          cases hpc.symm.trans h
      | skip hskip => cases hdone.symm.trans hskip
      | unknown htest | call htest => cases hdone.symm.trans htest.pc
      | done => exact ⟨rfl, rfl⟩

/-- In the inner loop of `tcpRead` the message decides. -/
lemma Work.unique_dispatching {fd : Int} {mask : Mask} {fired : List (Int × Mask)}
    (hpc : w.pc = .dispatching fd mask buf fired) (h₁ : Work db w S w₁ S₁)
    (h₂ : Work db w S w₂ S₂) : w₁ = w₂ ∧ S₁ = S₂ := by
  cases h₁ with
  | poll h | skip h | recv h | deleteFileEvent h | freeConn h | done h => cases hpc.symm.trans h
  | unknown h | call h => cases hpc.symm.trans h.pc
  | command h hd hflag hserve hbuf =>
      cases hpc.symm.trans h
      cases h₂ with
      | poll h' | skip h' | recv h' | deleteFileEvent h' | freeConn h' | done h' =>
          cases hpc.symm.trans h'
      | unknown h' | call h' => cases hpc.symm.trans h'.pc
      | command h' hd' _ hserve' hbuf' =>
          cases hpc.symm.trans h'
          cases hbuf.same hbuf'
          cases hd.symm.trans hd'
          cases hserve.symm.trans hserve'
          cases hbuf.unique hbuf'
          exact ⟨rfl, rfl⟩
      | drained h' hdone hbuf' =>
          cases hpc.symm.trans h'
          cases hbuf.same hbuf'
          obtain ⟨ret', hd'⟩ := hdone.decodes
          cases hd.symm.trans hd'
          exact absurd hdone.flag hflag
  | drained h hdone hbuf =>
      cases hpc.symm.trans h
      obtain ⟨ret, hd⟩ := hdone.decodes
      cases h₂ with
      | poll h' | skip h' | recv h' | deleteFileEvent h' | freeConn h' | done h' =>
          cases hpc.symm.trans h'
      | unknown h' | call h' => cases hpc.symm.trans h'.pc
      | command h' hd' hflag _ hbuf' =>
          cases hpc.symm.trans h'
          cases hbuf.same hbuf'
          cases hd.symm.trans hd'
          exact absurd hdone.flag hflag
      | drained h' hdone' hbuf' =>
          cases hpc.symm.trans h'
          cases hbuf.same hbuf'
          obtain ⟨ret', hd'⟩ := hdone'.decodes
          cases hd.symm.trans hd'
          cases hbuf.unique hbuf'
          exact ⟨rfl, rfl⟩

/-- The connection is freed. -/
lemma Work.unique_deleted {fd : Int} {fired : List (Int × Mask)} (hpc : w.pc = .deleted fd fired)
    (h₁ : Work db w S w₁ S₁) (h₂ : Work db w S w₂ S₂) : w₁ = w₂ ∧ S₁ = S₂ := by
  cases h₁ with
  | poll h | skip h | recv h | command h | drained h | deleteFileEvent h | done h =>
      cases hpc.symm.trans h
  | unknown h | call h => cases hpc.symm.trans h.pc
  | freeConn h hcall =>
      cases hpc.symm.trans h
      cases h₂ with
      | poll h' | skip h' | recv h' | command h' | drained h' | deleteFileEvent h' | done h' =>
          cases hpc.symm.trans h'
      | unknown h' | call h' => cases hpc.symm.trans h'.pc
      | freeConn h' hcall' =>
          cases hpc.symm.trans h'
          cases hcall.symm.trans hcall'
          exact ⟨rfl, rfl⟩

/-- A worker that the system does not answer can go on in one way only. -/
lemma Work.unique (hasks : ¬w.pc.Asks) (h₁ : Work db w S w₁ S₁) (h₂ : Work db w S w₂ S₂) :
    w₁ = w₂ ∧ S₁ = S₂ := by
  cases hpc : w.pc with
  | polling | reading | eof =>
      rw [hpc] at hasks
      exact absurd trivial hasks
  | firing => exact h₁.unique_firing hpc h₂
  | dispatching => exact h₁.unique_dispatching hpc h₂
  | deleted => exact h₁.unique_deleted hpc h₂

/-- **The answers determine the run.** -/
lemma PassStep.unique (h₁ : PassStep db a a₁) (h₂ : PassStep db a a₂) : a₁ = a₂ := by
  cases h₁ with
  | poll hpc _ hcall =>
      cases h₂ with
      | poll _ _ hcall' =>
          cases hcall.symm.trans hcall'
          rfl
      | recv h | deleteFileEvent h => cases hpc.symm.trans h
      | own hasks => exact absurd (by rw [hpc]; trivial) hasks
  | recv hpc hnext _ hrecv hbuf =>
      cases h₂ with
      | recv hpc' hnext' _ hrecv' hbuf' =>
          cases hpc.symm.trans hpc'
          cases hnext.symm.trans hnext'
          cases hbuf.same hbuf'
          cases hrecv.symm.trans hrecv'
          cases hbuf.unique hbuf'
          rfl
      | poll h | deleteFileEvent h => cases hpc.symm.trans h
      | own hasks => exact absurd (by rw [hpc]; trivial) hasks
  | deleteFileEvent hpc _ hcall =>
      cases h₂ with
      | deleteFileEvent hpc' _ hcall' =>
          cases hpc.symm.trans hpc'
          cases hcall.symm.trans hcall'
          rfl
      | poll h | recv h => cases hpc.symm.trans h
      | own hasks => exact absurd (by rw [hpc]; trivial) hasks
  | own hasks hwork =>
      cases h₂ with
      | poll hpc | recv hpc | deleteFileEvent hpc => exact absurd (by rw [hpc]; trivial) hasks
      | own _ hwork' =>
          obtain ⟨rfl, rfl⟩ := hwork.unique hasks hwork'
          rfl

end Unique

/-! ## One call of `tcpRead` -/

/-- A pass comes to a state of `Q`, unless it stops. -/
abbrev PassLeads (db : KvStore σ (List Byte) (List Byte)) (a : Passing n σ)
    (Q : Passing n σ → Prop) : Prop :=
  Leads (PassStep db) (fun a => Stops db a.1 a.2.1) a Q

/-- The worker goes on by itself. -/
lemma leads_own {w w' : Thread n} {S S' : Shared σ} {es : List Fired} {Q : Passing n σ → Prop}
    (hasks : ¬w.pc.Asks) (hwork : Work db w S w' S')
    (h : PassLeads db (w', S', w'.pc.leaves es) Q) : PassLeads db (w, S, es) Q :=
  Leads.step (PassStep.own hasks hwork) h

section TcpRead

variable {T : Table} {p : ℕ} {B B' : Buffer} {loop : EventLoop n} {fd : Int} {mask : Mask}
  {fired : List (Int × Mask)} {e : Fired} {es es' : List Fired}

/-- A run of a worker from a state in which the buffer of the call is `B`. -/
def Leaves (db : KvStore σ (List Byte) (List Byte)) (loop : EventLoop n) (T : Table) (p : ℕ)
    (B : Buffer) (pc : Pc) (S : Shared σ) (es : List Fired) (B' : Buffer) (pc' : Pc)
    (es' : List Fired) : Prop :=
  PassLeads db (⟨loop, withBuffer T p B, pc⟩, S, es)
    fun a => a.1 = ⟨loop, withBuffer T p B', pc'⟩ ∧ a.2.2 = es'

/-- The inner loop of `tcpRead`. -/
lemma leaves_drain {fuel : ℕ} {ev : List Codec.Event} (h : drain .record fuel B = (ev, .ok B'))
    (S : Shared σ) (es : List Fired) :
    Leaves db loop T p B (.dispatching fd mask (some p) fired) S es B'
      (.reading fd mask (some p) fired) es := by
  induction fuel generalizing B ev S with
  | zero => cases h
  | succ fuel ih =>
      have hstep := drain_step .record fuel B
      generalize drain .record (fuel + 1) B = x at h hstep
      subst h
      generalize hx : (ev, Except.ok B') = x at hstep
      cases hstep with
      | overruns | unreadable | shuts => cases hx
      | ends ret b' hd hflag =>
          cases hx
          have hbuf := changes_withBuffer T p B B'
          exact leads_own id (.drained rfl ⟨⟨ret, hd⟩, hflag⟩ hbuf) (.here ⟨rfl, rfl⟩)
      | goes ret b' a hd hflag ha hstays =>
          have hrest : drain .record fuel b' = ((drain .record fuel b').1, .ok B') :=
            Prod.ext rfl (Prod.mk.inj hx).2.symm
          cases hserve : serveMessage db S.store b'.argv with
          | error e =>
              refine .stop ⟨fd, mask, some p, fired, B, rfl, (changes_withBuffer T p B B).load, ?_⟩
              exact .inr ⟨ret, b', e, hd, hflag, hserve⟩
          | ok r =>
              have hbuf := changes_withBuffer T p B b'
              exact leads_own id (.command rfl hd hflag hserve hbuf) (ih hrest _)

/-- A `read(2)` of `tcpRead`, and what it does with the bytes. -/
lemma leaves_readOnce {x : ReadResult} {ev : List Codec.Event} (h : readOnce B x = (ev, .ok B'))
    (hdata : x ≠ .data []) (hnext : nextRead es = (x, es')) (S : Shared σ) :
    Leaves db loop T p B (.reading fd mask (some p) fired) S es B'
      (match x with
        | .eof => .eof fd mask fired
        | .again => .firing fired
        | _ => .reading fd mask (some p) fired)
      (if x = .again then es'.tail else es') := by
  rw [readOnce_eq] at h
  by_cases hfit : B.corruptMessagelen + x.bytes.length ≤ 100
  swap
  · rw [dif_neg hfit] at h
    cases h
  rw [dif_pos hfit] at h
  have hrecv : (prepare B).bind (receive · x) = .ok (B.filled x hfit) := by
    rw [prepare_receive, dif_pos hfit]
  have hfits : x.Fits B := by
    cases x with
    | data bytes =>
        have hpos : bytes ≠ [] := fun hnil => hdata (by rw [hnil])
        exact ⟨List.length_pos_iff.mpr hpos, Nat.le_sub_of_add_le' hfit⟩
    | eof | again | error => trivial
  refine Leads.step (PassStep.recv rfl hnext hfits hrecv (changes_withBuffer T p B _)) ?_
  cases x with
  | eof | again =>
      cases h
      exact .here ⟨rfl, rfl⟩
  | data bytes | error =>
      rw [if_neg (by simp)] at h
      exact leaves_drain h _ _

/-- The outer loop of `tcpRead`, with the reads of an event. -/
lemma leaves_readLoop {xs rest : List ReadResult} {ev : List Codec.Event} {code : Int}
    (h : readLoop B xs = (ev, .ret code B' rest)) (hdata : .data [] ∉ xs) (S : Shared σ) :
    Leaves db loop T p B (.reading fd mask (some p) fired) S ({ e with reads := xs } :: es) B'
      (if code = 0 then .eof fd mask fired else .firing fired)
      (if code = 0 then { e with reads := rest } :: es else es) := by
  induction xs generalizing B ev S with
  | nil =>
      simp only [readLoop] at h
      rcases hr : readOnce B .again with ⟨ev', s | b⟩
      · rw [hr] at h
        cases h
      · rw [hr] at h
        cases h
        have hnext : nextRead ({ e with reads := [] } :: es) =
            (.again, { e with reads := [] } :: es) := rfl
        exact leaves_readOnce hr (by simp) hnext S
  | cons x xs ih =>
      rw [List.mem_cons, not_or] at hdata
      obtain ⟨hx, hxs⟩ := hdata
      have hnext : nextRead ({ e with reads := x :: xs } :: es) =
          (x, { e with reads := xs } :: es) := rfl
      simp only [readLoop] at h
      rcases hr : readOnce B x with ⟨ev', s | b⟩
      · rw [hr] at h
        cases h
      · rw [hr] at h
        cases x with
        | eof | again =>
            cases h
            exact leaves_readOnce hr (Ne.symm hx) hnext S
        | data bytes | error =>
            have hrest : readLoop b xs = ((readLoop b xs).1, .ret code B' rest) :=
              Prod.ext rfl (Prod.mk.inj h).2
            refine (leaves_readOnce hr (Ne.symm hx) hnext S).bind ?_
            rintro ⟨w, S', es'⟩ ⟨rfl, rfl⟩
            exact ih hrest hxs S'

end TcpRead

/-! ## One call of `tcpReadCallback` -/

section Callback

variable {w : Thread n} {w' : Worker n} {l : List Item} {fd r : Int} {mask : Mask}
  {fired : List (Int × Mask)} {e : Fired} {es : List Fired}

/-- Reading from a connection is `tcpRead` on the buffer that is found. -/
lemma readConnection_of_bufferOf {T : Table} {p : ℕ} {B : Buffer}
    (hp : bufferOf T fd = .ok (some (some p))) (hB : T.bufs.lookup p = some B)
    (xs : List ReadResult) :
    readConnection T fd xs =
      match (tcpRead B xs).2 with
      | .stop s => .error (.stopped s)
      | .ret code B' _ => .ok (some (code, withBuffer T p B')) := by
  unfold bufferOf at hp
  obtain ⟨nd, hsearch, hp⟩ := bind_eq_ok hp
  by_cases hnone : nd = none
  · rw [if_pos hnone] at hp
    cases hp
  rw [if_neg hnone] at hp
  obtain ⟨cell, hcell, hp⟩ := bind_eq_ok hp
  obtain ⟨c, hc, hp⟩ := bind_eq_ok hp
  have hbuf : c.buf = some p := Option.some.inj (Except.ok.inj hp)
  simp only [readConnection, hsearch, hcell, hc, hbuf, liftMem_ok, ok_bind, if_neg hnone,
    Heap.load_of_lookup hB, Heap.modify_of_lookup hB]
  cases (tcpRead B xs).2 <;> rfl

/-- `tcpRead` from its call to its return. -/
lemma tcpRead_leads {p : ℕ} {B B' : Buffer} {ev : List Codec.Event} {code : Int}
    {rest : List ReadResult} (htest : w.Calls fd mask fired)
    (hp : bufferOf w.table fd = .ok (some (some p))) (hB : w.table.bufs.lookup p = some B)
    (hread : tcpRead B e.reads = (ev, .ret code B' rest)) (hdata : .data [] ∉ e.reads)
    (S : Shared σ) :
    PassLeads db (w, S, e :: es) fun a =>
      a.1 = ⟨w.loop, withBuffer w.table p B', if code = 0 then .eof fd mask fired
        else .firing fired⟩ ∧ a.2.2 = if code = 0 then { e with reads := rest } :: es else es := by
  unfold tcpRead at hread
  cases hprep : prepare B with
  | error f =>
      rw [hprep] at hread
      cases hread
  | ok B₁ =>
      rw [hprep] at hread
      have hbuf : Changes w.table (some p) B B₁ (withBuffer w.table p B₁) :=
        changes_iff.mpr ⟨hB, rfl⟩
      refine leads_own (by rw [htest.pc]; exact id) (.call htest hp hprep hbuf) ?_
      exact leaves_readLoop hread hdata S

/-- **A call of `tcpReadCallback` that returns is a run of the steps of the worker.** -/
theorem tcpReadCallback_leads (htable : TableInv w.table l) (hfd : IsInt fd)
    (htest : w.Calls fd mask fired) (hret : e.ret ≠ -1) (hdata : .data [] ∉ e.reads)
    (hcall : tcpReadCallback ⟨w.loop, w.table⟩ fd mask e.reads e.ret = .ok (r, w'))
    (S : Shared σ) :
    PassLeads db (w, S, e :: es)
      fun a => a.1 = ⟨w'.loop, w'.table, .firing fired⟩ ∧ a.2.2 = es := by
  have hasks : ¬w.pc.Asks := by
    rw [htest.pc]
    exact id
  unfold tcpReadCallback at hcall
  obtain ⟨res, hres, hcall⟩ := bind_eq_ok hcall
  rcases htable.bufferOf_cases hfd with ⟨v, -, a, c, p, -, ho, hp⟩ | ⟨hnot, hp⟩
  · obtain ⟨B, hB⟩ := Option.ne_none_iff_exists'.mp ho.buffer
    rw [readConnection_of_bufferOf hp hB] at hres
    rcases hread : tcpRead B e.reads with ⟨ev, ⟨code, B', rest⟩ | s⟩
    · rw [hread] at hres
      cases hres
      refine (tcpRead_leads htest hp hB hread hdata S).bind ?_
      rintro ⟨w₁, S₁, es₁⟩ ⟨rfl, rfl⟩
      simp only [] at hcall
      by_cases hcode : code = 0
      · rw [if_pos hcode] at hcall ⊢
        rw [if_pos hcode]
        obtain ⟨⟨r₁, loop⟩, hdelete, hcall⟩ := bind_eq_ok hcall
        obtain ⟨⟨r₂, table⟩, hfree, hcall⟩ := bind_eq_ok hcall
        cases hcall
        refine Leads.step (PassStep.deleteFileEvent rfl (by exact hret) (liftLoop_eq_ok hdelete)) ?_
        exact leads_own id (.freeConn rfl (liftMem_eq_ok hfree)) (.here ⟨rfl, rfl⟩)
      · rw [if_neg hcode] at hcall ⊢
        rw [if_neg hcode]
        cases hcall
        exact .here ⟨rfl, rfl⟩
    · rw [hread] at hres
      cases hres
  · rw [readConnection_of_not_mem htable hfd hnot] at hres
    cases hres
    cases hcall
    exact leads_own hasks (.unknown htest hp) (.here ⟨rfl, rfl⟩)

end Callback

/-! ## A pass -/

section Pass

variable {P : Process n k σ} {i : Fin k} {w : Thread n} {S : Shared σ} {w' : Worker n}

/-- A run of a pass is a run of the process, in which only the worker and what is shared change. -/
lemma steps_of_passSteps {es : List Fired} {a : Passing n σ}
    (h : Relation.ReflTransGen (PassStep db) (P.workers i, P.shared, es) a) :
    Relation.ReflTransGen (Step db) P (P.put i (a.1, a.2.1)) := by
  have hrun := h.lift (fun a => P.put i (a.1, a.2.1)) fun _ _ hstep => step_put hstep.work
  change Relation.ReflTransGen (Step db) (P.put i (P.workers i, P.shared)) _ at hrun
  rwa [put_self] at hrun

/-- A step of a pass keeps the invariant of the process. -/
lemma PassStep.inv {a b : Passing n σ} (hinv : Inv db store (P.put i (a.1, a.2.1)))
    (h : PassStep db a b) : Inv db store (P.put i (b.1, b.2.1)) :=
  hinv.step (step_put h.work)

/-- An event is dispatched. -/
lemma dispatchEvent_leads {e : Fired} {es : List Fired} {fired : List (Int × Mask)}
    (hinv : Inv db store (P.put i (w, S)))
    (hpc : w.pc = .firing ((e.event.fd, e.event.mask) :: fired)) (hret : e.ret ≠ -1)
    (hdata : .data [] ∉ e.reads) (hcall : dispatchEvent ⟨w.loop, w.table⟩ e = .ok w') :
    PassLeads db (w, S, e :: es)
      fun a => a.1 = ⟨w'.loop, w'.table, .firing fired⟩ ∧ a.2.2 = es := by
  obtain ⟨l, hsys⟩ := hinv.view i
  unfold Process.view at hsys
  rw [workers_put] at hsys
  unfold dispatchEvent at hcall
  obtain ⟨j, hj, hcall⟩ := bind_eq_ok hcall
  have hj := liftLoop_eq_ok hj
  split_ifs at hcall with hmask
  · cases hproc : (w.loop.fEvents j).rfileProc with
    | none =>
        rw [hproc] at hcall
        cases hcall
    | some proc =>
        rw [hproc] at hcall
        cases proc with
        | tcpAcceptCallback => cases hcall
        | tcpReadCallback =>
            obtain ⟨⟨r, w₁⟩, hcall, hw⟩ := bind_eq_ok hcall
            cases hw
            have htest : w.Calls e.event.fd e.event.mask fired := ⟨hpc, j, hj, hmask, hproc⟩
            exact tcpReadCallback_leads hsys.table (htest.isFd hsys).1.isInt htest hret hdata
              hcall S
  · cases hcall
    exact leads_own (by rw [hpc]; exact id) (.skip hpc hj hmask) (.here ⟨rfl, rfl⟩)

/-- All events are dispatched, one after the other. -/
lemma dispatchEvents_leads {es : List Fired} {w : Worker n} {S : Shared σ}
    (hinv : Inv db store (P.put i
      (⟨w.loop, w.table, .firing (es.map fun e => (e.event.fd, e.event.mask))⟩, S)))
    (hret : ∀ e ∈ es, e.ret ≠ -1) (hdata : ∀ e ∈ es, .data [] ∉ e.reads)
    (hcall : dispatchEvents w es = .ok w') :
    PassLeads db (⟨w.loop, w.table, .firing (es.map fun e => (e.event.fd, e.event.mask))⟩, S, es)
      fun a => a.1 = ⟨w'.loop, w'.table, .firing []⟩ ∧ a.2.2 = [] := by
  induction es generalizing w S with
  | nil =>
      cases hcall
      exact .here ⟨rfl, rfl⟩
  | cons e es ih =>
      obtain ⟨w₁, hfirst, hrest⟩ := bind_eq_ok hcall
      have hhead : PassLeads db (_, _, e :: es) _ := dispatchEvent_leads hinv rfl
        (hret e (.head _)) (hdata e (.head _)) hfirst
      refine (hhead.keeps (I := fun a => Inv db store (P.put i (a.1, a.2.1)))
        (fun _ _ => PassStep.inv) hinv).bind ?_
      rintro ⟨w₂, S₂, es₂⟩ ⟨hinv₂, rfl, hes⟩
      obtain rfl : es₂ = es := hes
      exact ih hinv₂ (fun e' he' => hret e' (.tail _ he')) (fun e' he' => hdata e' (.tail _ he'))
        hrest

/-- **A pass of `mainLoop` that returns is a run of the process**, whatever state the process is in
when the worker polls. While the system answers as it does in the pass, the run is determined, and
it leaves the worker as the program text does, and the others alone; unless one of the commands that
it executes on the way stops it. -/
theorem mainLoopPass_leads (hreach : Reachable db store P) (es : List Fired)
    (hpc : (P.workers i).pc = .polling)
    (hreports : Reports (P.workers i).loop.epoll n (some (es.map Fired.event)))
    (hret : ∀ e ∈ es, e.ret ≠ -1) (hdata : ∀ e ∈ es, .data [] ∉ e.reads)
    (hcall : mainLoopPass ⟨(P.workers i).loop, (P.workers i).table⟩ es = .ok w') :
    (∀ a, Relation.ReflTransGen (PassStep db) (P.workers i, P.shared, es) a →
        Relation.ReflTransGen (Step db) P (P.put i (a.1, a.2.1))) ∧
      (∀ a b c : Passing n σ, PassStep db a b → PassStep db a c → b = c) ∧
      PassLeads db (P.workers i, P.shared, es)
        fun a => a.1 = ⟨w'.loop, w'.table, .polling⟩ ∧ a.2.2 = [] := by
  refine ⟨fun a => steps_of_passSteps, fun a b c => PassStep.unique, ?_⟩
  obtain ⟨fired, hpoll, hcall⟩ := bind_eq_ok hcall
  have hpoll := liftLoop_eq_ok hpoll
  have hfired : fired = es.map fun e => (e.event.fd, e.event.mask) := by
    simp only [aePollPoll, if_pos hreports.1] at hpoll
    rw [← Except.ok.inj hpoll, List.map_map]
    rfl
  subst hfired
  have hinv : Inv db store (P.put i (P.workers i, P.shared)) := by
    rw [put_self]
    exact hreach.inv
  have hstart : PassStep db (P.workers i, P.shared, es) _ := .poll hpc hreports hpoll
  refine .step hstart ((dispatchEvents_leads (PassStep.inv hinv hstart) hret hdata hcall).bind ?_)
  rintro ⟨w₂, S₂, es₂⟩ ⟨rfl, rfl⟩
  exact leads_own id (.done rfl) (.here ⟨rfl, rfl⟩)

/-- A client connects, sets a key and closes: after the pass in which worker 1 notices, its tree is
empty. -/
theorem mainLoopPass_closed :
    ∃ (P : Process 10 2 (List Byte → Option (List Byte))) (w' : Worker 10),
      Reachable (KvStore.map _ _) (fun _ => none) P ∧ (P.workers 1).table.root ≠ none ∧
      w'.table.root = none ∧
      PassLeads (KvStore.map _ _) (P.workers 1, P.shared, [⟨⟨5, true, false, false, false⟩,
        [.data (stream [.set [107] [118]]), .eof], 0⟩])
        fun a => a.1 = ⟨w'.loop, w'.table, .polling⟩ ∧ a.2.2 = [] := by
  have hfd : IsFd 5 := by constructor <;> decide
  have h₁ : Reachable (n := 10) (k := 2) (KvStore.map (List Byte) (List Byte)) (fun _ => none) _ :=
    .tail .refl (.accept (i := 1) rfl hfd (by decide) (by decide))
  have h₂ := h₁.tail (.createFileEvent rfl rfl)
  have h₃ := h₂.tail (.aePollAddEvent rfl rfl (by decide))
  have hfresh : Fresh Table.empty 1 2 3 := ⟨rfl, rfl, rfl⟩
  have h₄ := h₃.tail (.newConn rfl hfresh rfl)
  have hpass := mainLoopPass_leads (i := 1) h₄ [⟨⟨5, true, false, false, false⟩,
    [.data (stream [.set [107] [118]]), .eof], 0⟩] rfl ⟨by decide, by decide⟩ (by decide)
    (by decide) rfl
  exact ⟨_, _, h₄, by decide, rfl, hpass.2.2⟩

end Pass

end ActionDB.Threads
