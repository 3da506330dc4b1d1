import ActionDB.Net.Conn.Teardown

/-!
# The buffers of a table

What the connection table is for: it finds the receive buffer of a descriptor. In memory that is a
walk through a node of the tree, the `conn` it points to and the buffer that one points to
(`bufferOf`); for its users it is a map from descriptors to buffers (`Table.buffers`). This module
relates the two levels. Creating a connection puts a cleared buffer into the map, freeing one takes
its buffer out, and writing to a buffer changes the entry of its own descriptor (`newConn_buffers`,
`freeConn_buffers`, `writeBuffer_buffers`). So after any sequence of these operations a connection
finds in its buffer what was last written through its own descriptor (`table_refines_buffers`):
rotations, reused addresses and the other connections make no difference.
-/

namespace ActionDB.Net.Conn

open ActionDB.Found ActionDB.Net.Codec

/-! ## The two levels -/

/-- `connection->buf` for a descriptor; `none` when it has no connection.
Source: `net/tcpsocket.c`, `tcpReadCallback`, lines 83-85. -/
def bufferOf (T : Table) (fd : Int) : Except MemFault (Option Ptr) := do
  let nd ← rbSearch T.nodes fd T.root
  if nd = none then return none
  else
    let connection ← T.conns.load (← T.nodes.load nd).data
    return some connection.buf

/-- A buffer is written in place. -/
def writeBuffer (T : Table) (p : Ptr) (B : Buffer) : Except MemFault Table := do
  let bufs ← T.bufs.modify p fun _ => B
  return { T with bufs }

/-- **The table as a map** from descriptors to buffers. -/
def Table.buffers (T : Table) (fd : Int) : Option Buffer :=
  match bufferOf T fd with
  | .ok (some (some p)) => T.bufs.lookup p
  | _ => none

section Pointers

variable {T T' : Table} {l : List Item} {v : Item} {fd f : Int} {a b p : ℕ} {c : Connection}
  {node conn buf : ℕ}

/-- No connection was counted twice. -/
lemma TableInv.drifted (hinv : TableInv T l) : Drifted T l 0 :=
  ⟨hinv.linked, by rw [hinv.connCnt_eq]; simp⟩

/-- And the other way round. -/
lemma Drifted.tableInv (hinv : Drifted T l 0) : TableInv T l :=
  hinv.toLinked.tableInv (by rw [hinv.connCnt_eq]; simp)

/-- The walk from the root finds the buffer of a connection. -/
lemma TableInv.bufferOf_owner (hinv : TableInv T l) (hv : v ∈ l) (ho : Owner T v a c b) :
    bufferOf T v.key = .ok (some (some b)) := by
  obtain ⟨nd, hnd, -, hdata⟩ := hinv.holds.lookup hv
  simp only [bufferOf, hinv.holds.rbSearch_mem hv, ok_bind, reduceCtorEq, if_false,
    Heap.load_of_lookup hnd, hdata, ho.data, Heap.load_of_lookup ho.conn, ho.buf]
  rfl

/-- It finds none for a descriptor that is not in the tree. -/
lemma TableInv.bufferOf_none (hinv : TableInv T l) (hf : IsInt f) (hnot : ∀ v ∈ l, v.key ≠ f) :
    bufferOf T f = .ok none := by
  rcases rbSearch_spec hinv.holds hf with ⟨w, hw, hkey, -⟩ | ⟨-, hsearch⟩
  · exact absurd hkey (hnot w hw)
  · simp only [bufferOf, hsearch, ok_bind, if_true]
    rfl

/-- A descriptor has the buffer of its connection, or none. -/
lemma TableInv.bufferOf_cases (hinv : TableInv T l) (hf : IsInt f) :
    (∃ v ∈ l, ∃ a c b, v.key = f ∧ Owner T v a c b ∧ bufferOf T f = .ok (some (some b))) ∨
      (∀ v ∈ l, v.key ≠ f) ∧ bufferOf T f = .ok none := by
  by_cases hmem : ∃ v ∈ l, v.key = f
  · obtain ⟨v, hv, rfl⟩ := hmem
    obtain ⟨a, c, b, ho⟩ := hinv.linked.exists_owner hv
    exact .inl ⟨v, hv, a, c, b, rfl, ho, hinv.bufferOf_owner hv ho⟩
  · have hnot : ∀ v ∈ l, v.key ≠ f := fun v hv hkey => hmem ⟨v, hv, hkey⟩
    exact .inr ⟨hnot, hinv.bufferOf_none hf hnot⟩

/-- The buffer that is found is that of a connection. -/
lemma TableInv.owner_of_bufferOf (hinv : TableInv T l) (hf : IsInt f)
    (h : bufferOf T f = .ok (some (some p))) : ∃ v ∈ l, ∃ a c, v.key = f ∧ Owner T v a c p := by
  rcases hinv.bufferOf_cases hf with ⟨v, hv, a, c, b, hkey, ho, hb⟩ | ⟨-, hnone⟩
  · rw [h] at hb
    cases hb
    exact ⟨v, hv, a, c, hkey, ho⟩
  · rw [h] at hnone
    cases hnone

/-- No two descriptors have the same buffer. -/
lemma TableInv.bufferOf_inj (hinv : TableInv T l) (hfd : IsInt fd) (hf : IsInt f)
    (h : bufferOf T fd = .ok (some (some p))) (h' : bufferOf T f = .ok (some (some p))) :
    fd = f := by
  obtain ⟨v, -, a, c, rfl, ho⟩ := hinv.owner_of_bufferOf hfd h
  obtain ⟨v', -, a', c', rfl, ho'⟩ := hinv.owner_of_bufferOf hf h'
  obtain rfl := hinv.buffered.unshared a c a' c' ho.conn ho'.conn (ho.buf.trans ho'.buf.symm)
  obtain rfl : c = c' := Option.some.inj (ho.conn.symm.trans ho'.conn)
  exact ho.fd.symm.trans ho'.fd

/-- A descriptor keeps its buffer when its connection keeps its cells. -/
lemma bufferOf_frame {l' : List Item} (hinv : TableInv T l) (hinv' : TableInv T' l')
    (hmem : ∀ v, v.key ≠ fd → (v ∈ l' ↔ v ∈ l))
    (hcells : ∀ v a c b, v.key ≠ fd → Owner T v a c b → Owner T' v a c b) (hf : IsInt f)
    (hne : f ≠ fd) : bufferOf T' f = bufferOf T f := by
  rcases hinv.bufferOf_cases hf with ⟨v, hv, a, c, b, rfl, ho, hb⟩ | ⟨hno, hb⟩
  · rw [hb]
    exact hinv'.bufferOf_owner ((hmem v hne).mpr hv) (hcells v a c b hne ho)
  · rw [hb]
    refine hinv'.bufferOf_none hf fun v hv hkey => ?_
    exact hno v ((hmem v (hkey ▸ hne)).mp hv) hkey

/-- `newConn` gives the descriptor its buffer, and leaves the others theirs. -/
theorem newConn_bufferOf (hinv : TableInv T l) (hfd : IsFd fd) (hnot : ∀ v ∈ l, v.key ≠ fd)
    (hnode : T.nodes.lookup node = none) (hconn : T.conns.lookup conn = none)
    (hbuf : T.bufs.lookup buf = none) :
    ∃ l₁ l₂ T', l = l₁ ++ l₂ ∧ newConn T fd node conn buf = .ok (some conn, T') ∧
      TableInv T' (l₁ ++ ⟨node, fd, some conn⟩ :: l₂) ∧ T'.bufs = T.bufs.insert buf initBuf ∧
      bufferOf T' fd = .ok (some (some buf)) ∧
      ∀ f, IsInt f → f ≠ fd → bufferOf T' f = bufferOf T f := by
  obtain ⟨l₁, l₂, root, nodes, rfl, -, hrun, hlinked⟩ :=
    hinv.linked.newConn_fresh hfd hnot hnode hconn hbuf
  obtain ⟨T', hT'⟩ : ∃ T', T' = Table.mk (T.connCnt + 1) root nodes
      (T.conns.insert conn ⟨fd, some buf⟩) (T.bufs.insert buf initBuf) := ⟨_, rfl⟩
  rw [← hT'] at hrun hlinked
  have hconns : T'.conns = T.conns.insert conn ⟨fd, some buf⟩ := by rw [hT']
  have hbufs : T'.bufs = T.bufs.insert buf initBuf := by rw [hT']
  have hcnt : T'.connCnt = T.connCnt + 1 := by rw [hT']
  have hinv' := hlinked.tableInv (by
    rw [hcnt, hinv.connCnt_eq]
    simp only [List.length_append, List.length_cons]
    omega)
  refine ⟨l₁, l₂, T', rfl, hrun, hinv', hbufs, ?_, ?_⟩
  · have ho : Owner T' ⟨node, fd, some conn⟩ conn ⟨fd, some buf⟩ buf := by
      refine ⟨rfl, ?_, rfl, rfl, ?_⟩
      · rw [hconns, Finmap.lookup_insert]
      · rw [hbufs, Finmap.lookup_insert]
        simp
    have h := hinv'.bufferOf_owner (mem_middle.mpr (.inl rfl)) ho
    exact h
  · intro f hf hne
    refine bufferOf_frame hinv hinv' (fun v hv => ?_) (fun v a c b hv ho => ?_) hf hne
    · rw [mem_middle, or_iff_right]
      rintro rfl
      exact hv rfl
    · -- the cells of an old connection are not the new ones
      have hac : a ≠ conn := by
        rintro rfl
        exact absurd (ho.conn.symm.trans hconn) (by simp)
      have hbb : b ≠ buf := by
        rintro rfl
        exact ho.buffer hbuf
      refine ⟨ho.data, ?_, ho.fd, ho.buf, ?_⟩
      · rw [hconns, Finmap.lookup_insert_of_ne _ hac]
        exact ho.conn
      · rw [hbufs, Finmap.lookup_insert_of_ne _ hbb]
        exact ho.buffer

/-- `freeConn` takes the buffer of the descriptor, and leaves the others theirs. -/
theorem freeConn_bufferOf (hinv : TableInv T l) (hfd : IsInt fd) :
    (∃ l₁ v l₂ p T', l = l₁ ++ v :: l₂ ∧ v.key = fd ∧ freeConn T fd = .ok (1, T') ∧
      TableInv T' (l₁ ++ l₂) ∧ bufferOf T fd = .ok (some (some p)) ∧ T'.bufs = T.bufs.erase p ∧
      bufferOf T' fd = .ok none ∧ ∀ f, IsInt f → f ≠ fd → bufferOf T' f = bufferOf T f) ∨
      (∀ v ∈ l, v.key ≠ fd) ∧ freeConn T fd = .ok (1, T) := by
  rcases hinv.drifted.freeConn_cases hfd with
    ⟨l₁, v, l₂, ret, T', rfl, rfl, hcall, hdrift, hrel⟩ | hnot
  swap
  · exact .inr hnot
  obtain ⟨a, c, p, ho, hconns, hbufs⟩ := (hrel rfl).blocks
  have hinv' := hdrift.tableInv
  have hv : v ∈ l₁ ++ v :: l₂ := mem_middle.mpr (.inl rfl)
  have hret : ret = 1 := by
    rcases freeConn_spec hinv hfd with ⟨_, _, _, _, -, -, hspec, -⟩ | ⟨-, hspec⟩
    · exact (ok_pair_inj hcall hspec).1
    · exact (ok_pair_inj hcall hspec).1
  refine .inl ⟨l₁, v, l₂, p, T', rfl, rfl, hret ▸ hcall, hinv', hinv.bufferOf_owner hv ho, hbufs,
    hinv'.bufferOf_none hfd hinv.holds.key_ne, ?_⟩
  intro f hf hne
  refine bufferOf_frame hinv hinv' (fun w hw => ?_) (fun w a' c' b' hw ho' => ?_) hf hne
  · rw [mem_middle, or_iff_right]
    rintro rfl
    exact hw rfl
  · -- another connection has other cells
    have hne : a' ≠ a := by
      rintro rfl
      obtain rfl : c = c' := Option.some.inj (ho.conn.symm.trans ho'.conn)
      exact hw (ho'.fd.symm.trans ho.fd)
    have hbne : b' ≠ p := by
      rintro rfl
      exact hne (hinv.buffered.unshared a' c' a c ho'.conn ho.conn (ho'.buf.trans ho.buf.symm))
    refine ⟨ho'.data, ?_, ho'.fd, ho'.buf, ?_⟩
    · rw [hconns, Finmap.lookup_erase_ne hne]
      exact ho'.conn
    · rw [hbufs, Finmap.lookup_erase_ne hbne]
      exact ho'.buffer

/-- Writing to the buffer of a descriptor succeeds, and the table stays as it is. -/
lemma TableInv.writeBuffer (hinv : TableInv T l) (hfd : IsInt fd)
    (h : bufferOf T fd = .ok (some (some p))) (B : Buffer) :
    writeBuffer T (some p) B = .ok { T with bufs := T.bufs.insert p B } ∧
      TableInv { T with bufs := T.bufs.insert p B } l := by
  obtain ⟨v, -, a, c, -, ho⟩ := hinv.owner_of_bufferOf hfd h
  obtain ⟨B₀, hB₀⟩ := Option.ne_none_iff_exists'.mp ho.buffer
  refine ⟨?_, hinv.holds, hinv.connCnt_eq, hinv.owns, hinv.buffered.write p B⟩
  simp only [Conn.writeBuffer, Heap.modify_of_lookup hB₀, ok_bind]
  rfl

end Pointers

/-! ## The map -/

section Map

variable {T T' : Table} {l : List Item} {fd f : Int} {p : ℕ} {node conn buf : ℕ} {ret : Ptr}

lemma buffers_of_bufferOf (h : bufferOf T f = .ok (some (some p))) :
    T.buffers f = T.bufs.lookup p := by
  unfold Table.buffers
  rw [h]

lemma buffers_of_none (h : bufferOf T f = .ok none) : T.buffers f = none := by
  unfold Table.buffers
  rw [h]

/-- A buffer that is not written to stays as it is. -/
lemma TableInv.lookup_ne (hinv : TableInv T l) (hfd : IsInt fd) (hf : IsInt f) (hne : f ≠ fd)
    {q : ℕ} (h : bufferOf T fd = .ok (some (some p))) (h' : bufferOf T f = .ok (some (some q))) :
    q ≠ p := by
  rintro rfl
  exact hne (hinv.bufferOf_inj hf hfd h' h)

/-- `newConn` adds a fresh buffer. -/
theorem newConn_buffers (hinv : TableInv T l) (hfd : IsFd fd) (hnot : ∀ v ∈ l, v.key ≠ fd)
    (hnode : T.nodes.lookup node = none) (hconn : T.conns.lookup conn = none)
    (hbuf : T.bufs.lookup buf = none) (hcall : newConn T fd node conn buf = .ok (ret, T'))
    (hf : IsInt f) : T'.buffers f = Function.update T.buffers fd (some initBuf) f := by
  obtain ⟨l₁, l₂, T₁, rfl, hrun, -, hbufs, hnew, hold⟩ :=
    newConn_bufferOf hinv hfd hnot hnode hconn hbuf
  obtain ⟨-, rfl⟩ := ok_pair_inj hrun hcall
  by_cases hff : f = fd
  · subst hff
    rw [Function.update_self, buffers_of_bufferOf hnew, hbufs, Finmap.lookup_insert]
  · have hof := hold f hf hff
    rw [Function.update_of_ne hff]
    rcases hinv.bufferOf_cases hf with ⟨v, hv, a, c, b, rfl, ho, hb⟩ | ⟨-, hb⟩
    · have hbb : b ≠ buf := by
        rintro rfl
        exact ho.buffer hbuf
      rw [buffers_of_bufferOf hb, buffers_of_bufferOf (hof.trans hb), hbufs,
        Finmap.lookup_insert_of_ne _ hbb]
    · rw [buffers_of_none hb, buffers_of_none (hof.trans hb)]

/-- `freeConn` takes one away. -/
theorem freeConn_buffers {ret : Int} (hinv : TableInv T l) (hfd : IsInt fd)
    (hcall : freeConn T fd = .ok (ret, T')) (hf : IsInt f) :
    T'.buffers f = Function.update T.buffers fd none f := by
  rcases freeConn_bufferOf hinv hfd with
    ⟨l₁, v, l₂, p, T₁, rfl, hkey, hrun, -, hp, hbufs, hgone, hold⟩ | ⟨hnot, hrun⟩
  · obtain ⟨-, rfl⟩ := ok_pair_inj hrun hcall
    by_cases hff : f = fd
    · subst hff
      rw [Function.update_self, buffers_of_none hgone]
    · have hof := hold f hf hff
      rw [Function.update_of_ne hff]
      rcases hinv.bufferOf_cases hf with ⟨w, -, a, c, b, -, -, hb⟩ | ⟨-, hb⟩
      · rw [buffers_of_bufferOf hb, buffers_of_bufferOf (hof.trans hb), hbufs,
          Finmap.lookup_erase_ne (hinv.lookup_ne hfd hf hff hp hb)]
      · rw [buffers_of_none hb, buffers_of_none (hof.trans hb)]
  · obtain ⟨-, rfl⟩ := ok_pair_inj hrun hcall
    by_cases hff : f = fd
    · subst hff
      rw [Function.update_self, buffers_of_none (hinv.bufferOf_none hf hnot)]
    · rw [Function.update_of_ne hff]

/-- A write changes the buffer of its descriptor. -/
theorem writeBuffer_buffers (hinv : TableInv T l) (hfd : IsInt fd)
    (hp : bufferOf T fd = .ok (some (some p))) {B : Buffer}
    (hcall : writeBuffer T (some p) B = .ok T') (hf : IsInt f) :
    T'.buffers f = Function.update T.buffers fd (some B) f := by
  rw [(hinv.writeBuffer hfd hp B).1] at hcall
  cases hcall
  -- the walk to a buffer does not look at the buffers
  have hof : bufferOf { T with bufs := T.bufs.insert p B } f = bufferOf T f := rfl
  by_cases hff : f = fd
  · subst hff
    rw [Function.update_self, buffers_of_bufferOf (hof.trans hp), Finmap.lookup_insert]
  · rw [Function.update_of_ne hff]
    rcases hinv.bufferOf_cases hf with ⟨w, -, a, c, b, -, -, hb⟩ | ⟨-, hb⟩
    · rw [buffers_of_bufferOf hb, buffers_of_bufferOf (hof.trans hb),
        Finmap.lookup_insert_of_ne _ (hinv.lookup_ne hfd hf hff hp hb)]
    · rw [buffers_of_none hb, buffers_of_none (hof.trans hb)]

end Map

/-! ## Runs -/

/-- An operation on the table. -/
inductive TableOp where
  | newConn (fd : Int) (node conn buf : ℕ)
  | freeConn (fd : Int)
  /-- `tcpRead` leaves this in the buffer of the descriptor. -/
  | write (fd : Int) (B : Buffer)

/-- The operation in memory. -/
def TableOp.run (T : Table) : TableOp → Except MemFault Table
  | newConn fd node conn buf => do
      let (_, T) ← Conn.newConn T fd node conn buf
      return T
  | freeConn fd => do
      let (_, T) ← Conn.freeConn T fd
      return T
  | write fd B => do
      match ← bufferOf T fd with
      | none => return T
      | some p => writeBuffer T p B

/-- The operation on the map. -/
def TableOp.apply (m : Int → Option Buffer) : TableOp → Int → Option Buffer
  | newConn fd _ _ _ => Function.update m fd (some initBuf)
  | freeConn fd => Function.update m fd none
  | write fd B => if (m fd).isSome then Function.update m fd (some B) else m

/-- `newConn` is called on a descriptor that is not in the map, and `malloc` returns addresses that
are not in use. -/
def TableOp.Allowed (T : Table) (m : Int → Option Buffer) : TableOp → Prop
  | newConn fd node conn buf => IsFd fd ∧ m fd = none ∧ Fresh T node conn buf
  | freeConn fd => IsInt fd
  | write fd _ => IsInt fd

/-- The operations, oldest first, on both levels at once. -/
inductive Refines : List TableOp → Table → (Int → Option Buffer) → Prop
  | nil : Refines [] .empty fun _ => none
  | snoc {ops : List TableOp} {T T' : Table} {m : Int → Option Buffer} (op : TableOp) :
      Refines ops T m → op.Allowed T m → op.run T = .ok T' → Refines (ops ++ [op]) T' (op.apply m)

/-- The table holds what the map says. -/
structure Agrees (T : Table) (m : Int → Option Buffer) : Prop where
  inv : ∃ l, TableInv T l
  buffers_eq : ∀ f, IsInt f → T.buffers f = m f

section Runs

variable {T T' : Table} {m : Int → Option Buffer} {op : TableOp}

/-- The empty table is the empty map. -/
lemma agrees_empty : Agrees .empty fun _ => none where
  inv := ⟨[], tableInv_empty⟩
  buffers_eq _ hf :=
    buffers_of_none (tableInv_empty.bufferOf_none hf fun _ hv => absurd hv List.not_mem_nil)

/-- A descriptor that is not in the map is not in the tree. -/
lemma TableInv.not_mem_of_buffers {l : List Item} {f : Int} (hinv : TableInv T l) (hf : IsInt f)
    (h : T.buffers f = none) : ∀ v ∈ l, v.key ≠ f := by
  rcases hinv.bufferOf_cases hf with ⟨v, -, a, c, b, -, ho, hb⟩ | ⟨hno, -⟩
  · rw [buffers_of_bufferOf hb] at h
    exact absurd h ho.buffer
  · exact hno

/-- **One operation** does the same on both levels, and never fails in memory. -/
theorem Agrees.step (hag : Agrees T m) (hall : op.Allowed T m) :
    ∃ T', op.run T = .ok T' ∧ Agrees T' (op.apply m) := by
  obtain ⟨l, hinv⟩ := hag.inv
  cases op with
  | newConn fd node conn buf =>
      obtain ⟨hfd, hnone, hnew⟩ := hall
      have hnot := hinv.not_mem_of_buffers hfd.isInt ((hag.buffers_eq fd hfd.isInt).trans hnone)
      obtain ⟨l₁, l₂, T', rfl, hcall, hinv', -⟩ := newConn_bufferOf hinv hfd hnot hnew.node_free
        hnew.conn_free hnew.buf_free
      refine ⟨T', by simp only [TableOp.run, hcall, ok_bind]; rfl, ⟨_, hinv'⟩, fun f hf => ?_⟩
      rw [newConn_buffers hinv hfd hnot hnew.node_free hnew.conn_free hnew.buf_free hcall hf]
      simp only [TableOp.apply, Function.update_apply, hag.buffers_eq f hf]
  | freeConn fd =>
      have hfree : ∃ T' l', freeConn T fd = .ok (1, T') ∧ TableInv T' l' := by
        rcases freeConn_bufferOf hinv hall with
          ⟨l₁, v, l₂, p, T', -, -, hcall, hinv', -⟩ | ⟨-, hcall⟩
        · exact ⟨T', _, hcall, hinv'⟩
        · exact ⟨T, l, hcall, hinv⟩
      obtain ⟨T', l', hcall, hinv'⟩ := hfree
      refine ⟨T', by simp only [TableOp.run, hcall, ok_bind]; rfl, ⟨_, hinv'⟩, fun f hf => ?_⟩
      rw [freeConn_buffers hinv hall hcall hf]
      simp only [TableOp.apply, Function.update_apply, hag.buffers_eq f hf]
  | write fd B =>
      rcases hinv.bufferOf_cases hall with ⟨v, -, a, c, p, -, ho, hp⟩ | ⟨-, hnone⟩
      · obtain ⟨hcall, hinv'⟩ := hinv.writeBuffer hall hp B
        have hsome : (m fd).isSome := by
          rw [← hag.buffers_eq fd hall, buffers_of_bufferOf hp]
          exact Option.isSome_iff_ne_none.mpr ho.buffer
        refine ⟨_, by simp only [TableOp.run, hp, ok_bind, hcall], ⟨_, hinv'⟩, fun f hf => ?_⟩
        rw [writeBuffer_buffers hinv hall hp hcall hf]
        simp only [TableOp.apply, hsome, if_true, Function.update_apply, hag.buffers_eq f hf]
      · have hno : ¬(m fd).isSome := by
          rw [← hag.buffers_eq fd hall, buffers_of_none hnone]
          simp
        refine ⟨T, by simp only [TableOp.run, hnone, ok_bind]; rfl, ⟨l, hinv⟩, fun f hf => ?_⟩
        simp only [TableOp.apply, if_neg hno, hag.buffers_eq f hf]

/-- The table agrees with the map along every run. -/
lemma Refines.agrees {ops : List TableOp} (h : Refines ops T m) : Agrees T m := by
  induction h with
  | nil => exact agrees_empty
  | snoc op _ hall hrun ih =>
      obtain ⟨T', hrun', hag⟩ := ih.step hall
      rw [hrun] at hrun'
      cases hrun'
      exact hag

/-- **The table refines a map from descriptors to buffers.** After every sequence of operations a
descriptor has the buffer that the map says, and the next operation does not fail. -/
theorem table_refines_buffers {ops : List TableOp} (h : Refines ops T m) :
    (∀ f, IsInt f → T.buffers f = m f) ∧
      ∀ op : TableOp, op.Allowed T m → ∃ T', op.run T = .ok T' := by
  refine ⟨h.agrees.buffers_eq, fun op hall => ?_⟩
  obtain ⟨T', hrun, -⟩ := h.agrees.step hall
  exact ⟨T', hrun⟩

/-- Two connections, the second of which is in the tree above the first, and a message of the first
that is cut. -/
theorem table_refines_buffers_two :
    ∃ T : Table, T.buffers 5 = some { initBuf with corruptMessagelen := 3 } ∧
      T.buffers 4 = some initBuf ∧ T.buffers 6 = none := by
  have hfive : IsFd 5 := by constructor <;> decide
  have hfour : IsFd 4 := by constructor <;> decide
  have h₁ := Refines.snoc (.newConn 5 1 2 3) .nil ⟨hfive, rfl, rfl, rfl, rfl⟩ rfl
  have h₂ := Refines.snoc (.newConn 4 4 5 6) h₁ ⟨hfour, rfl, rfl, rfl, rfl⟩ rfl
  have h₃ :=
    Refines.snoc (.write 5 { initBuf with corruptMessagelen := 3 }) h₂ hfive.isInt rfl
  obtain ⟨hbufs, -⟩ := table_refines_buffers h₃
  refine ⟨_, (hbufs 5 hfive.isInt).trans rfl, (hbufs 4 hfour.isInt).trans rfl, ?_⟩
  exact (hbufs 6 (by constructor <;> decide)).trans rfl

end Runs

end ActionDB.Net.Conn
