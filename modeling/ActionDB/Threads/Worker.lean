import ActionDB.Threads.Process

/-!
# What a worker keeps

The invariant of one worker, in three parts.

* **Registries.** A worker, together with the part of the accept thread that concerns it, is the
  system of `Net.Event` (`Process.view`), whose invariant `SysInv` it keeps.
* **Sessions.** The buffer that a worker finds for a descriptor is in a state that its connection
  could reach by itself, from its own reads and with its own messages (`ThreadInv`). A step of one
  worker leaves the connections of the others alone (`Advance`).
* **Record.** The store and the replies are those of the messages executed one after the other
  (`Recorded`).

`Work.spec` says once what a step of a worker does to the three.
-/

namespace ActionDB.Threads

open ActionDB.Found ActionDB.Kernel ActionDB.Net ActionDB.Net.Codec ActionDB.Net.Conn
open ActionDB.Net.Event

variable {n k : ℕ} {σ : Type} {db : KvStore σ (List Byte) (List Byte)}

/-! ## Registries -/

/-- The worker as the registries see it: a call of `tcpRead` that has not returned is an event that
is still to be dispatched. -/
def Pc.view : Pc → WorkerPc
  | .polling => .polling
  | .firing fired => .firing fired
  | .reading fd mask _ fired => .firing ((fd, mask) :: fired)
  | .dispatching fd mask _ fired => .firing ((fd, mask) :: fired)
  | .eof fd mask fired => .eof fd mask fired
  | .deleted fd fired => .deleted fd fired

/-- The accept thread as worker `i` sees it. -/
def AcceptPc.view (i : Fin k) : AcceptPc k → Event.AcceptPc
  | .idle => .idle
  | .accepted j fd => if j = i then .accepted fd else .idle
  | .created j fd => if j = i then .created fd else .idle
  | .added j fd => if j = i then .added fd else .idle

section View

variable {i : Fin k} {fd : Int} {acc : AcceptPc k}

lemma AcceptPc.view_eq_accepted : acc.view i = .accepted fd ↔ acc = .accepted i fd := by
  cases acc <;> grind [AcceptPc.view]

lemma AcceptPc.view_eq_created : acc.view i = .created fd ↔ acc = .created i fd := by
  cases acc <;> grind [AcceptPc.view]

lemma AcceptPc.view_eq_added : acc.view i = .added fd ↔ acc = .added i fd := by
  cases acc <;> grind [AcceptPc.view]

end View

/-- A worker, with the descriptors and its part of the accept thread. -/
def Thread.view (w : Thread n) (opened : Finset Int) (acc : Event.AcceptPc) : Sys n :=
  ⟨w.loop, w.table, opened, acc, w.pc.view⟩

/-- Worker `i` with its part of the accept thread. -/
def Process.view (P : Process n k σ) (i : Fin k) : Sys n :=
  (P.workers i).view P.opened (P.accept.view i)

/-! ## Sessions -/

/-- Where the connection of a descriptor is. -/
def Pc.phase : Pc → Int → Phase
  | .dispatching fd _ _ _, f => if f = fd then .dispatching else .waiting
  | .eof fd _ _, f => if f = fd then .closed else .waiting
  | .deleted fd _, f => if f = fd then .closed else .waiting
  | _, _ => .waiting

/-- The events that are still to be dispatched. -/
def Pc.fired : Pc → List (Int × Mask)
  | .polling => []
  | .firing fired | .reading _ _ _ fired | .dispatching _ _ _ fired | .eof _ _ fired
  | .deleted _ fired => fired

/-- The worker has a connection for the descriptor, with its buffer at `p`. -/
def Thread.BufferAt (w : Thread n) (fd : Int) (p : ℕ) : Prop :=
  IsInt fd ∧ bufferOf w.table fd = .ok (some (some p))

/-- **A worker and its connections.** -/
structure ThreadInv (w : Thread n) (H : History) : Prop where
  /-- Every connection is where its own reads have led it. -/
  session : ∀ fd p, w.BufferAt fd p → H.conn fd < H.count ∧ ∃ B, w.table.bufs.lookup p = some B ∧
    Session (H.reads (H.conn fd)) (H.messagesOf (H.conn fd)) (w.pc.phase fd) B
  /-- `tcpRead` works on the buffer of its descriptor. -/
  calling : ∀ fd mask buf fired,
    w.pc = .reading fd mask buf fired ∨ w.pc = .dispatching fd mask buf fired →
    mask.has READABLE ∧ ∃ p, buf = some p ∧ w.BufferAt fd p
  /-- What has fired is in the table of events. -/
  fired_lt : ∀ q ∈ w.pc.fired, 0 ≤ q.1 ∧ q.1 < n

/-- From `H` to `H'` only the history of connection `c` grows. -/
structure Advance (H H' : History) (c : ℕ) : Prop where
  conn_eq : H'.conn = H.conn
  count_eq : H'.count = H.count
  reads_eq : ∀ d, d ≠ c → H'.reads d = H.reads d
  messages_eq : ∀ d, d ≠ c → H'.messagesOf d = H.messagesOf d

section History

variable {H : History} {fd : Int}

/-- A message is executed for one connection. -/
lemma History.messagesOf_executed (argv : Area Byte argvSize) (reply : Option (List Byte)) (c : ℕ) :
    (H.executed fd argv reply).messagesOf c =
      if H.conn fd = c then H.messagesOf c ++ [argv] else H.messagesOf c := by
  simp only [History.messagesOf, History.executed, List.filter_append, List.map_append]
  split_ifs with hc <;> simp [hc]

/-- A read concerns one connection. -/
lemma advance_received (x : ReadResult) : Advance H (H.received fd x) (H.conn fd) where
  conn_eq := rfl
  count_eq := rfl
  reads_eq _ hd := Function.update_of_ne hd _ _
  messages_eq _ _ := rfl

/-- So does a message. -/
lemma advance_executed (argv : Area Byte argvSize) (reply : Option (List Byte)) :
    Advance H (H.executed fd argv reply) (H.conn fd) where
  conn_eq := rfl
  count_eq := rfl
  reads_eq _ _ := rfl
  messages_eq _ hd := by rw [History.messagesOf_executed, if_neg (Ne.symm hd)]

/-- Nothing happens. -/
lemma Advance.refl (H : History) (c : ℕ) : Advance H H c :=
  ⟨rfl, rfl, fun _ _ => rfl, fun _ _ => rfl⟩

end History

/-- The table with `B` in the place of a buffer. -/
def withBuffer (T : Table) (p : ℕ) (B : Buffer) : Table :=
  { T with bufs := T.bufs.insert p B }

/-- A buffer that is there can be changed, and nothing else is. -/
lemma changes_iff {T T' : Table} {p : ℕ} {b b' : Buffer} :
    Changes T (some p) b b' T' ↔ T.bufs.lookup p = some b ∧ T' = withBuffer T p b' := by
  constructor
  · rintro ⟨hload, hstore⟩
    have hlook : T.bufs.lookup p = some b := by
      simp only [Heap.load] at hload
      split at hload
      · next B hB =>
          rw [hB]
          exact congrArg some (Except.ok.inj hload)
      · cases hload
    rw [writeBuffer, Heap.modify_of_lookup hlook] at hstore
    exact ⟨hlook, (Except.ok.inj hstore).symm⟩
  · rintro ⟨hlook, rfl⟩
    refine ⟨Heap.load_of_lookup hlook, ?_⟩
    rw [writeBuffer, Heap.modify_of_lookup hlook]
    rfl

/-- A buffer that was changed can be changed again. -/
lemma changes_withBuffer (T : Table) (p : ℕ) (b b' : Buffer) :
    Changes (withBuffer T p b) (some p) b b' (withBuffer T p b') := by
  refine changes_iff.mpr ⟨Finmap.lookup_insert _, ?_⟩
  simp only [withBuffer, Finmap.insert_insert]

section Thread

variable {w : Thread n} {H H' : History} {fd : Int} {p : ℕ} {l : List Item}

/-- A worker does not notice what happens to a connection of another one. -/
lemma ThreadInv.advance {c : ℕ} (hinv : ThreadInv w H) (hadv : Advance H H' c)
    (hne : ∀ f q, w.BufferAt f q → H.conn f ≠ c) : ThreadInv w H' where
  session f q hq := by
    rw [hadv.conn_eq, hadv.count_eq, hadv.reads_eq _ (hne f q hq), hadv.messages_eq _ (hne f q hq)]
    exact hinv.session f q hq
  calling := hinv.calling
  fired_lt := hinv.fired_lt

/-- The worker changes the buffer of the descriptor, and goes on to `pc`. -/
lemma ThreadInv.change {B : Buffer} {pc : Pc} (hinv : ThreadInv w H) (htable : TableInv w.table l)
    (hp : w.BufferAt fd p) (hadv : Advance H H' (H.conn fd))
    (hnum : ∀ f q, w.BufferAt f q → H.conn f = H.conn fd → f = fd)
    (hphase : ∀ f, f ≠ fd → pc.phase f = w.pc.phase f)
    (hsession : Session (H'.reads (H.conn fd)) (H'.messagesOf (H.conn fd)) (pc.phase fd) B)
    (hcalling : ∀ fd' mask buf fired,
      pc = .reading fd' mask buf fired ∨ pc = .dispatching fd' mask buf fired →
      mask.has READABLE ∧ fd' = fd ∧ buf = some p)
    (hfired : ∀ q ∈ pc.fired, 0 ≤ q.1 ∧ q.1 < n) :
    ThreadInv ⟨w.loop, withBuffer w.table p B, pc⟩ H' where
  session := by
    rintro f q ⟨hf, hq⟩
    -- the walk to a buffer does not look at the buffers
    have hq : w.BufferAt f q := ⟨hf, hq⟩
    rw [hadv.conn_eq, hadv.count_eq]
    by_cases hff : f = fd
    · subst hff
      obtain rfl : p = q := by
        have h := hp.2.symm.trans hq.2
        simpa using h
      exact ⟨(hinv.session f p hp).1, B, Finmap.lookup_insert _, hsession⟩
    · have hne : H.conn f ≠ H.conn fd := fun heq => hff (hnum f q hq heq)
      have hqp : q ≠ p := htable.lookup_ne hp.1 hf hff hp.2 hq.2
      obtain ⟨hlt, B', hB', hs⟩ := hinv.session f q hq
      refine ⟨hlt, B', (Finmap.lookup_insert_of_ne _ hqp).trans hB', ?_⟩
      rw [hadv.reads_eq _ hne, hadv.messages_eq _ hne, hphase f hff]
      exact hs
  calling := by
    intro fd' mask buf fired hpc
    obtain ⟨hmask, rfl, rfl⟩ := hcalling fd' mask buf fired hpc
    exact ⟨hmask, p, rfl, hp⟩
  fired_lt := hfired

/-- The worker goes on to `pc`, with all its connections where they were. -/
lemma ThreadInv.goto {pc : Pc} (hinv : ThreadInv w H) (loop : EventLoop n)
    (hphase : ∀ f, pc.phase f = w.pc.phase f)
    (hcalling : ∀ fd mask buf fired,
      pc ≠ .reading fd mask buf fired ∧ pc ≠ .dispatching fd mask buf fired)
    (hfired : ∀ q ∈ pc.fired, 0 ≤ q.1 ∧ q.1 < n) : ThreadInv ⟨loop, w.table, pc⟩ H where
  session f q hq := by
    rw [hphase f]
    exact hinv.session f q hq
  calling fd mask buf fired hpc := by
    rcases hpc with hpc | hpc
    · exact absurd hpc (hcalling fd mask buf fired).1
    · exact absurd hpc (hcalling fd mask buf fired).2
  fired_lt := hfired

/-- What a step of `tcpRead` does to the table. -/
lemma Changes.spec {b b' : Buffer} {buf : Ptr} {T : Table} (hch : Changes w.table buf b b' T)
    (htable : TableInv w.table l) (hbuf : buf = some p) (hp : w.BufferAt fd p) :
    w.table.bufs.lookup p = some b ∧ T = withBuffer w.table p b' ∧ TableInv T l := by
  subst hbuf
  obtain ⟨hlook, rfl⟩ := changes_iff.mp hch
  exact ⟨hlook, rfl, (htable.writeBuffer hp.1 hp.2 b').2⟩

end Thread

/-! ## The record -/

/-- The store and the replies are those of the messages one after the other. -/
structure Recorded (db : KvStore σ (List Byte) (List Byte)) (store : σ) (S : Shared σ) :
    Prop where
  served : serveAll db store S.history.messages = (S.history.replies, .ok S.store)
  unmade : ∀ c, S.history.count ≤ c →
    S.history.reads c = [] ∧ S.history.messagesOf c = []

/-- One more message. -/
lemma serveAll_snoc {s s₁ s₂ : σ} {ms : List (ℕ × Area Byte argvSize)}
    {rs : List (ℕ × List Byte)} {c : ℕ} {argv : Area Byte argvSize} {reply : Option (List Byte)}
    (h : serveAll db s ms = (rs, .ok s₁)) (hserve : serveMessage db s₁ argv = .ok (reply, s₂)) :
    serveAll db s (ms ++ [(c, argv)]) =
      (rs ++ reply.toList.map fun text => (c, text), .ok s₂) := by
  induction ms generalizing s rs with
  | nil =>
      cases h
      simp only [List.nil_append, serveAll, hserve, List.append_nil]
  | cons m ms ih =>
      obtain ⟨d, argv'⟩ := m
      simp only [List.cons_append, serveAll] at h ⊢
      cases hm : serveMessage db s argv' with
      | error e =>
          rw [hm] at h
          cases h
      | ok r =>
          obtain ⟨reply', s'⟩ := r
          simp only [hm] at h ⊢
          obtain ⟨rfl, hrest⟩ := Prod.mk.inj h
          rw [ih (Prod.ext rfl hrest), List.append_assoc]

/-- What happens to a connection that was made keeps the record. -/
lemma Recorded.advance {store : σ} {S S' : Shared σ} {fd : Int} (hrec : Recorded db store S)
    (hadv : Advance S.history S'.history (S.history.conn fd))
    (hlt : S.history.conn fd < S.history.count)
    (hserved : serveAll db store S'.history.messages = (S'.history.replies, .ok S'.store)) :
    Recorded db store S' where
  served := hserved
  unmade c hc := by
    have hc' : S.history.count ≤ c := hadv.count_eq ▸ hc
    have hne : c ≠ S.history.conn fd := by omega
    rw [hadv.reads_eq c hne, hadv.messages_eq c hne]
    exact hrec.unmade c hc'

/-! ## A step of a worker -/

section Work

variable {w w' : Thread n} {S S' : Shared σ} {opened : Finset Int} {acc : Event.AcceptPc}
  {l : List Item} {fd : Int}

/-- What the kernel watches is in the table of events. -/
lemma bounds_of_watched (hinv : SysInv (w.view opened acc) l) (h : w.loop.epoll fd ≠ none) :
    0 ≤ fd ∧ fd < n := by
  by_contra hout
  apply h
  apply hinv.loop.epoll_none
  rintro (⟨⟨v, hv, rfl⟩, -⟩ | hadded)
  · exact hout ⟨(hinv.table.holds.keys v hv).1, hinv.conn_lt v hv⟩
  · obtain ⟨hfd, hlt, -⟩ := hinv.accepting fd (.inr (.inr hadded))
    exact hout ⟨hfd.1, hlt⟩

/-- The index of an access that goes well. -/
lemma slot_of_at? {i : Fin n} (h : at? n fd = .ok i) : slot n fd = some i := by
  unfold at? at h
  split at h
  · next j hj => rw [hj, Except.ok.inj h]
  · cases h

/-- An event that is dispatched is for a descriptor. -/
lemma Thread.Calls.isFd {mask : Mask} {fired : List (Int × Mask)} (h : w.Calls fd mask fired)
    (hinv : SysInv (w.view opened acc) l) : IsFd fd ∧ mask.has READABLE := by
  have hand : ∀ m m' : Mask, (m &&& m').has READABLE → m'.has READABLE := by decide
  obtain ⟨i, hi, hmask, -⟩ := h.test
  have hread : ((w.view opened acc).loop.mask fd &&& mask).has READABLE := by
    show (w.loop.mask fd &&& mask).has READABLE
    rwa [mask_of_slot (slot_of_at? hi)]
  exact ⟨hinv.isFd_of_mask hread, hand _ _ hmask⟩

/-- The steps that leave the registries alone. -/
lemma sysInv_work {table : Table} {pc : Pc} (hinv : SysInv (w.view opened acc) l)
    (htable : TableInv table l) (hold : ∀ fd fired, w.pc ≠ .deleted fd fired)
    (hnew : ∀ fd fired, pc ≠ .deleted fd fired)
    (heof : ∀ fd mask fired, pc = .eof fd mask fired →
      mask.has READABLE ∧ ∃ v ∈ l, v.key = fd) :
    SysInv (Thread.view ⟨w.loop, table, pc⟩ opened acc) l := by
  have hview : ∀ {pc : Pc}, (∀ fd fired, pc ≠ .deleted fd fired) →
      ∀ fd fired, pc.view ≠ .deleted fd fired := by
    intro pc hpc fd fired h
    cases pc with
    | deleted fd' fired' => exact hpc fd' fired' rfl
    | polling | firing | reading | dispatching | eof => cases h
  refine hinv.work htable (hview hold) (hview hnew) ?_
  intro fd mask fired h
  cases pc with
  | eof fd' mask' fired' =>
      cases h
      exact heof fd mask fired rfl
  | polling | firing | reading | dispatching | deleted => cases h

/-- A message that is executed is dispatched. -/
lemma dispatches_of_serveMessage {b b' : Buffer} {ret : Int} {s s' : σ}
    {reply : Option (List Byte)} (hd : decod .record b = .ok (ret, b'))
    (hflag : ¬(b'.parseFlag = 1 ∨ b'.parseFlag = -1))
    (hserve : serveMessage db s b'.argv = .ok (reply, s')) : ∃ a, Dispatches b b' a := by
  cases ha : dispatch b'.argv with
  | error f =>
      simp only [serveMessage, ha] at hserve
      cases hserve
  | ok a =>
      refine ⟨a, ⟨ret, hd⟩, hflag, ha, ?_⟩
      rintro rfl
      simp only [serveMessage, ha] at hserve
      cases hserve

/-- What a step of a worker does. -/
structure WorkSpec (db : KvStore σ (List Byte) (List Byte)) (w : Thread n) (S : Shared σ)
    (w' : Thread n) (S' : Shared σ) (opened : Finset Int) (acc : Event.AcceptPc) : Prop where
  registries : ∃ l, SysInv (w'.view opened acc) l
  thread : ThreadInv w' S'.history
  /-- It makes no connections. -/
  held : ∀ f p, w'.BufferAt f p → w.BufferAt f p
  /-- A connection that it frees is at its end. -/
  freed : ∀ f p, w.BufferAt f p → w'.BufferAt f p ∨
    ∃ B, Session (S'.history.reads (S.history.conn f)) (S'.history.messagesOf (S.history.conn f))
      .closed B
  /-- Only the history of one of its own connections grows. -/
  advance : S' = S ∨
    ∃ f p, w.BufferAt f p ∧ Advance S.history S'.history (S.history.conn f)
  recorded : ∀ store, Recorded db store S → Recorded db store S'

/-- The steps of `mainLoop`. -/
lemma workSpec_goto {pc : Pc} (hinv : SysInv (w.view opened acc) l) (hth : ThreadInv w S.history)
    (hphase : ∀ f, w.pc.phase f = .waiting) (hold : ∀ fd fired, w.pc ≠ .deleted fd fired)
    (hpc : pc = .polling ∨ ∃ fired, pc = .firing fired)
    (hfired : ∀ q ∈ pc.fired, 0 ≤ q.1 ∧ q.1 < n) :
    WorkSpec db w S { w with pc } S opened acc where
  registries := by
    refine ⟨l, sysInv_work hinv hinv.table hold ?_ ?_⟩
    · rcases hpc with rfl | ⟨fired, rfl⟩ <;> simp
    · rcases hpc with rfl | ⟨fired, rfl⟩ <;> simp
  thread := by
    refine hth.goto w.loop (fun f => ?_) ?_ hfired
    · rw [hphase f]
      rcases hpc with rfl | ⟨fired, rfl⟩ <;> rfl
    · rcases hpc with rfl | ⟨fired, rfl⟩ <;> simp
  held _ _ h := h
  freed _ _ h := .inl h
  advance := .inl rfl
  recorded _ h := h

/-- The next event, or the next poll. -/
lemma workSpec_next {fd : Int} {mask : Mask} {fired : List (Int × Mask)}
    (hinv : SysInv (w.view opened acc) l) (hth : ThreadInv w S.history)
    (hpc : w.pc = .firing ((fd, mask) :: fired)) :
    WorkSpec db w S { w with pc := .firing fired } S opened acc := by
  have hfired := hth.fired_lt
  rw [hpc] at hfired
  refine workSpec_goto hinv hth ?_ ?_ (.inr ⟨fired, rfl⟩) fun q hq => hfired q (.tail _ hq)
  · simp [hpc, Pc.phase]
  · simp [hpc]

/-- A step of `tcpRead` on the buffer of a descriptor, from `b` to `b'`, after which the worker is
at `pc`. -/
structure Reads (w : Thread n) (fd : Int) (p : ℕ) (b b' : Buffer) (table : Table) (pc : Pc) :
    Prop where
  at_buffer : w.BufferAt fd p
  changes : Changes w.table (some p) b b' table
  /-- The worker is in a call for this descriptor, or goes to its end of file. -/
  calling : ∀ fd' mask buf fired,
    pc = .reading fd' mask buf fired ∨ pc = .dispatching fd' mask buf fired →
    mask.has READABLE ∧ fd' = fd ∧ buf = some p
  eof : ∀ fd' mask fired, pc = .eof fd' mask fired → mask.has READABLE ∧ fd' = fd
  ne_deleted : ∀ fd fired, w.pc ≠ .deleted fd fired ∧ pc ≠ .deleted fd fired
  /-- The other connections stay where they are. -/
  phase : ∀ f, f ≠ fd → pc.phase f = w.pc.phase f
  fired : ∀ q ∈ pc.fired, 0 ≤ q.1 ∧ q.1 < n

/-- The steps of `tcpRead`: the buffer of the descriptor changes, and its session goes on. -/
lemma Reads.spec {b b' : Buffer} {p : ℕ} {table : Table} {pc : Pc}
    (hread : Reads w fd p b b' table pc) (hinv : SysInv (w.view opened acc) l)
    (hth : ThreadInv w S.history)
    (hnum : ∀ f g p q, w.BufferAt f p → w.BufferAt g q →
      S.history.conn f = S.history.conn g → f = g)
    (hadv : Advance S.history S'.history (S.history.conn fd))
    (hserved : ∀ store, Recorded db store S →
      serveAll db store S'.history.messages = (S'.history.replies, .ok S'.store))
    (hsession : Session (S.history.reads (S.history.conn fd))
        (S.history.messagesOf (S.history.conn fd)) (w.pc.phase fd) b →
      Session (S'.history.reads (S.history.conn fd))
        (S'.history.messagesOf (S.history.conn fd)) (pc.phase fd) b') :
    WorkSpec db w S ⟨w.loop, table, pc⟩ S' opened acc := by
  have hp := hread.at_buffer
  obtain ⟨hlook, rfl, htable⟩ := hread.changes.spec hinv.table rfl hp
  obtain ⟨hlt, B, hB, hs⟩ := hth.session fd p hp
  obtain rfl : B = b := Option.some.inj (hB.symm.trans hlook)
  constructor
  · refine ⟨l, sysInv_work hinv htable (fun f r => (hread.ne_deleted f r).1)
      (fun f r => (hread.ne_deleted f r).2) ?_⟩
    intro fd' mask fired hpc
    obtain ⟨hmask, rfl⟩ := hread.eof fd' mask fired hpc
    obtain ⟨v, hv, -, -, hkey, -⟩ := hinv.table.owner_of_bufferOf hp.1 hp.2
    exact ⟨hmask, v, hv, hkey⟩
  · have hnum' : ∀ f q, w.BufferAt f q → S.history.conn f = S.history.conn fd → f = fd :=
      fun f q hq heq => hnum f fd q p hq hp heq
    exact hth.change hinv.table hp hadv hnum' hread.phase (hsession hs) hread.calling hread.fired
  · exact fun f q hq => hq
  · exact fun f q hq => .inl hq
  · exact .inr ⟨fd, p, hp, hadv⟩
  · intro store hrec
    exact hrec.advance hadv hlt (hserved store hrec)

section Steps

variable {mask : Mask} {fired : List (Int × Mask)} {buf : Ptr} {b b' : Buffer} {table : Table}
  (hinv : SysInv (w.view opened acc) l) (hth : ThreadInv w S.history)
  (hnum : ∀ f g p q, w.BufferAt f p → w.BufferAt g q →
    S.history.conn f = S.history.conn g → f = g)
include hinv hth hnum

/-- The call of `tcpRead`. -/
lemma workSpec_call (htest : w.Calls fd mask fired) (hcall : bufferOf w.table fd = .ok (some buf))
    (hprep : prepare b = .ok b') (hbuf : Changes w.table buf b b' table) :
    WorkSpec db w S ⟨w.loop, table, .reading fd mask buf fired⟩ S opened acc := by
  have hpc := htest.pc
  have hfired := hth.fired_lt
  rw [hpc] at hfired
  obtain ⟨hfd, hread⟩ := htest.isFd hinv
  -- the buffer that is found is that of a connection
  obtain ⟨p, rfl⟩ : ∃ p, buf = some p := by
    rcases hinv.table.bufferOf_cases hfd.isInt with ⟨-, -, -, -, p, -, -, hp⟩ | ⟨-, hp⟩
    · exact ⟨p, Option.some.inj (Except.ok.inj (hcall.symm.trans hp))⟩
    · cases hcall.symm.trans hp
  have hreads : Reads w fd p b b' table (.reading fd mask (some p) fired) := by
    refine ⟨⟨hfd.isInt, hcall⟩, hbuf, ?_, by simp, by simp [hpc], by simp [hpc, Pc.phase],
      fun q hq => hfired q (.tail _ hq)⟩
    rintro fd' mask' buf' fired' (h | h)
    · cases h
      exact ⟨hread, rfl, rfl⟩
    · cases h
  refine hreads.spec hinv hth hnum (.refl _ _) (fun store hrec => hrec.served) fun hs => ?_
  rw [hpc] at hs
  exact hs.called hprep

/-- A `read(2)`. -/
lemma workSpec_recv {x : ReadResult} (hpc : w.pc = .reading fd mask buf fired)
    (hrecv : (prepare b).bind (receive · x) = .ok b') (hbuf : Changes w.table buf b b' table) :
    WorkSpec db w S ⟨w.loop, table, .afterRead fd mask buf fired x⟩
      { S with history := S.history.received fd x } opened acc := by
  obtain ⟨hread, p, rfl, hp⟩ := hth.calling fd mask buf fired (.inl hpc)
  have hfired := hth.fired_lt
  rw [hpc] at hfired
  have hreads : Reads w fd p b b' table (.afterRead fd mask (some p) fired x) := by
    refine ⟨hp, hbuf, ?_, ?_, ?_, ?_, ?_⟩
    · intro fd' mask' buf' fired' h
      cases x with
      | eof | again => rcases h with h | h <;> cases h
      | data bytes | error =>
          rcases h with h | h
          · cases h
          · cases h
            exact ⟨hread, rfl, rfl⟩
    · intro fd' mask' fired' h
      cases x with
      | eof =>
          cases h
          exact ⟨hread, rfl⟩
      | data bytes | again | error => cases h
    · cases x <;> simp [Pc.afterRead, hpc]
    · intro f hf
      cases x <;> simp [Pc.afterRead, Pc.phase, hf, hpc]
    · intro q hq
      refine hfired q ?_
      cases x <;> exact hq
  refine hreads.spec hinv hth hnum (advance_received x) (fun store hrec => hrec.served) fun hs => ?_
  rw [hpc] at hs
  have hlast : (S.history.received fd x).reads (S.history.conn fd) =
      S.history.reads (S.history.conn fd) ++ [x] := Function.update_self _ _ _
  rw [hlast]
  cases x with
  | eof =>
      simp only [Pc.afterRead, Pc.phase, if_true]
      exact hs.eof hrecv
  | again => exact hs.again hrecv
  | data bytes | error =>
      simp only [Pc.afterRead, Pc.phase, if_true]
      exact hs.read hrecv (by simp)

omit hinv hnum in
/-- In its inner loop `tcpRead` stays, or it goes back to its `read(2)`. -/
lemma reads_of_dispatching {p : ℕ} (hpc : w.pc = .dispatching fd mask (some p) fired)
    (hbuf : Changes w.table (some p) b b' table) {pc : Pc}
    (hnext : pc = w.pc ∨ pc = .reading fd mask (some p) fired) : Reads w fd p b b' table pc := by
  obtain ⟨hread, q, hq, hp⟩ := hth.calling fd mask (some p) fired (.inr hpc)
  obtain rfl := Option.some.inj hq
  have hfired := hth.fired_lt
  rw [hpc] at hnext hfired
  refine ⟨hp, hbuf, ?_, ?_, ?_, ?_, ?_⟩
  · intro fd' mask' buf' fired' h
    rcases hnext with rfl | rfl
    · rcases h with h | h <;> cases h
      exact ⟨hread, rfl, rfl⟩
    · rcases h with h | h <;> cases h
      exact ⟨hread, rfl, rfl⟩
  · rcases hnext with rfl | rfl <;> simp
  · rcases hnext with rfl | rfl <;> simp [hpc]
  · intro f hf
    rcases hnext with rfl | rfl <;> simp [hpc, Pc.phase, hf]
  · rcases hnext with rfl | rfl <;> exact hfired

/-- A message is executed. -/
lemma workSpec_command {ret : Int} {reply : Option (List Byte)} {store : σ}
    (hpc : w.pc = .dispatching fd mask buf fired) (hdecod : decod .record b = .ok (ret, b'))
    (hflag : ¬(b'.parseFlag = 1 ∨ b'.parseFlag = -1))
    (hserve : serveMessage db S.store b'.argv = .ok (reply, store))
    (hbuf : Changes w.table buf b b' table) :
    WorkSpec db w S ⟨w.loop, table, w.pc⟩ ⟨store, S.history.executed fd b'.argv reply⟩ opened
      acc := by
  obtain ⟨-, p, rfl, -⟩ := hth.calling fd mask buf fired (.inr hpc)
  obtain ⟨a, hdis⟩ := dispatches_of_serveMessage hdecod hflag hserve
  have hreads := reads_of_dispatching hth hpc hbuf (.inl rfl)
  refine hreads.spec hinv hth hnum (advance_executed b'.argv reply)
    (fun store₀ hrec => serveAll_snoc hrec.served hserve) fun hs => ?_
  rw [hpc] at hs ⊢
  simp only [Pc.phase, if_true] at hs ⊢
  rw [History.messagesOf_executed, if_pos rfl]
  exact hs.command hdis

/-- There is no message any more. -/
lemma workSpec_drained (hpc : w.pc = .dispatching fd mask buf fired) (hdone : Drained b b')
    (hbuf : Changes w.table buf b b' table) :
    WorkSpec db w S ⟨w.loop, table, .reading fd mask buf fired⟩ S opened acc := by
  obtain ⟨-, p, rfl, -⟩ := hth.calling fd mask buf fired (.inr hpc)
  have hreads := reads_of_dispatching hth hpc hbuf (.inr rfl)
  refine hreads.spec hinv hth hnum (.refl _ _) (fun store hrec => hrec.served) fun hs => ?_
  rw [hpc] at hs
  simp only [Pc.phase, if_true] at hs
  exact hs.drained hdone

omit hnum in
/-- The event is removed. -/
lemma workSpec_deleteFileEvent {ret : Int} {r : Option Int} {loop : EventLoop n}
    (hpc : w.pc = .eof fd mask fired) (hret : ret ≠ -1)
    (hcall : deleteFileEvent w.loop fd mask ret = .ok (r, loop)) :
    WorkSpec db w S ⟨loop, w.table, .deleted fd fired⟩ S opened acc := by
  have hview : (w.view opened acc).worker = .eof fd mask fired := congrArg Pc.view hpc
  obtain ⟨loop', hcall', hinv'⟩ := hinv.delete hview hret
  obtain ⟨rfl, rfl⟩ := ok_pair_inj hcall' hcall
  refine ⟨⟨l, hinv'⟩, hth.goto loop' ?_ (by simp) ?_, fun f q hq => hq, fun f q hq => .inl hq,
    .inl rfl, fun _ h => h⟩
  · simp [hpc, Pc.phase]
  · have hfired := hth.fired_lt
    rwa [hpc] at hfired

omit hnum in
/-- The connection is freed. -/
lemma workSpec_freeConn {ret : Int} (hpc : w.pc = .deleted fd fired)
    (hcall : freeConn w.table fd = .ok (ret, table)) :
    WorkSpec db w S ⟨w.loop, table, .firing fired⟩ S opened acc := by
  have hview : (w.view opened acc).worker = .deleted fd fired := congrArg Pc.view hpc
  obtain ⟨table', l', hcall', hinv'⟩ := hinv.freeConn hview
  obtain ⟨-, rfl⟩ := ok_pair_inj hcall' hcall
  obtain ⟨v, hv, rfl⟩ := hinv.tearing fd (.inr ⟨fired, hview⟩)
  have hint := (hinv.table.holds.keys v hv).isInt
  rcases freeConn_bufferOf hinv.table hint with
    ⟨l₁, v', l₂, p, T, -, -, hfree, -, hp, hbufs, hgone, hold⟩ | ⟨hnot, -⟩
  swap
  · exact absurd rfl (hnot v hv)
  obtain ⟨-, rfl⟩ := ok_pair_inj hfree hcall
  -- the other connections have their buffers still
  have hkeep : ∀ f q, Thread.BufferAt ⟨w.loop, T, .firing fired⟩ f q ↔
      f ≠ v.key ∧ w.BufferAt f q := by
    intro f q
    constructor
    · rintro ⟨hf, hq⟩
      have hne : f ≠ v.key := by
        rintro rfl
        cases hgone.symm.trans hq
      exact ⟨hne, hf, (hold f hf hne).symm.trans hq⟩
    · rintro ⟨hne, hf, hq⟩
      exact ⟨hf, (hold f hf hne).trans hq⟩
  refine ⟨⟨l', hinv'⟩, ⟨?_, by simp, ?_⟩, fun f q hq => ((hkeep f q).mp hq).2, ?_, .inl rfl,
    fun _ h => h⟩
  · intro f q hq
    obtain ⟨hne, hq⟩ := (hkeep f q).mp hq
    obtain ⟨hlt, B, hB, hs⟩ := hth.session f q hq
    refine ⟨hlt, B, ?_, ?_⟩
    · rw [hbufs, Finmap.lookup_erase_ne (hinv.table.lookup_ne hint hq.1 hne hp hq.2)]
      exact hB
    · rw [hpc] at hs
      simpa only [Pc.phase, if_neg hne] using hs
  · have hfired := hth.fired_lt
    rwa [hpc] at hfired
  · intro f q hq
    by_cases hne : f = v.key
    · subst hne
      obtain ⟨-, B, -, hs⟩ := hth.session _ q hq
      rw [hpc] at hs
      simp only [Pc.phase, if_true] at hs
      exact .inr ⟨B, hs⟩
    · exact .inl ((hkeep f q).mpr ⟨hne, hq⟩)

/-- **A step of a worker.** -/
theorem Work.spec (hwork : Work db w S w' S') : WorkSpec db w S w' S' opened acc := by
  cases hwork with
  | @poll answer fired hpc hreports hcall =>
      refine workSpec_goto hinv hth ?_ ?_ (.inr ⟨fired, rfl⟩) ?_
      · simp [hpc, Pc.phase]
      · simp [hpc]
      · intro q hq
        obtain ⟨fired', hok, hwatched⟩ := aePollPoll_ok hreports
        obtain rfl := Except.ok.inj (hok.symm.trans hcall)
        exact bounds_of_watched hinv (hwatched q hq)
  | skip hpc _ _ => exact workSpec_next hinv hth hpc
  | unknown htest _ => exact workSpec_next hinv hth htest.pc
  | call htest hcall hprep hbuf => exact workSpec_call hinv hth hnum htest hcall hprep hbuf
  | recv hpc _ hrecv hbuf => exact workSpec_recv hinv hth hnum hpc hrecv hbuf
  | command hpc hdecod hflag hserve hbuf =>
      exact workSpec_command hinv hth hnum hpc hdecod hflag hserve hbuf
  | drained hpc hdone hbuf => exact workSpec_drained hinv hth hnum hpc hdone hbuf
  | deleteFileEvent hpc hret hcall => exact workSpec_deleteFileEvent hinv hth hpc hret hcall
  | freeConn hpc hcall => exact workSpec_freeConn hinv hth hpc hcall
  | done hpc =>
      refine workSpec_goto hinv hth ?_ ?_ (.inl rfl) ?_
      · simp [hpc, Pc.phase]
      · simp [hpc]
      · simp [Pc.fired]

end Steps

end Work

end ActionDB.Threads
