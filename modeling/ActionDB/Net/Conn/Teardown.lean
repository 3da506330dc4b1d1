import ActionDB.Net.Conn.Cells
import ActionDB.Net.Conn.Table

/-!
# Freeing all connections, and the count

`freeConns` of `net/conn.c` frees the connection at the root for as long as `connCnt` is positive,
so it relies on `connCnt` being the number of nodes.

* In every run that calls `newConn` only on descriptors that are not in the table, it is, and
  `freeConns` releases every connection once and leaves nothing behind (`freeConns_releases`): each
  pass finds the descriptor of the root again, and the heaps hold the connections of the tree and
  nothing else (`Covered`).
* `newConn` on a descriptor that *is* in the table leaves the tree as it was, but `rb_insert` says
  so by returning the root, which `newConn` takes for success: it returns a connection that is not
  in the table, and counts it. `Drifted` is the table with a count that is ahead by `d`, and
  `Reached` are the runs of all calls, with `d` such calls of `newConn`. `allOrNothing_iff` says
  when a call of `newConn` is right, and `freeConns_of_drifted` that `freeConns` dereferences NULL
  once one was wrong.

The lock that `freeConn` takes is left out.
-/

namespace ActionDB.Net.Conn

open ActionDB.Found ActionDB.Net.Codec

/-! ## The function -/

/-- One pass of `freeConns`: free the connection at the root. -/
def freeRoot (T : Table) : Except MemFault Table := do
  let connection ← T.conns.load (← T.nodes.load T.root).data
  let (_, T) ← freeConn T connection.fd
  return T

/-- The loop of `freeConns`. -/
def freeConnsLoop : ℕ → Table → Except MemFault (Int × Table)
  | 0, _ => .error .endless
  | fuel + 1, T =>
      if T.connCnt > 0 then do
        freeConnsLoop fuel (← freeRoot T)
      else return (1, T)

/-- A pass that does not lower the count is made again and again.
Source: `net/conn.c`, `freeConns`. -/
def freeConns (T : Table) : Except MemFault (Int × Table) := freeConnsLoop (T.connCnt.toNat + 1) T

/-! ## Tables whose count is ahead -/

/-- From `T` to `T'` the connection `v` has been released: its node, its `conn` and its buffer were
allocated, and are freed, and nothing else is. -/
structure Released (T : Table) (v : Item) (T' : Table) : Prop where
  allocated : T.nodes.lookup v.addr ≠ none
  node : ∀ a, T'.nodes.lookup a = none ↔ a = v.addr ∨ T.nodes.lookup a = none
  blocks : ∃ a c b, Owner T v a c b ∧ T'.conns = T.conns.erase a ∧ T'.bufs = T.bufs.erase b

/-- The connections are `l`, and the count is ahead of them by `d`. -/
structure Drifted (T : Table) (l : List Item) (d : ℕ) : Prop extends Linked T l where
  connCnt_eq : T.connCnt = l.length + d

section Drift

variable {T T' : Table} {l : List Item} {d : ℕ} {fd : Int}

/-- `freeConn` on a table whose count is ahead. The drift stays; without one the connection is
released. -/
theorem Drifted.freeConn_cases (hinv : Drifted T l d) (hfd : IsInt fd) :
    (∃ l₁ v l₂ ret T', l = l₁ ++ v :: l₂ ∧ v.key = fd ∧ freeConn T fd = .ok (ret, T') ∧
      Drifted T' (l₁ ++ l₂) d ∧ (d = 0 → Released T v T')) ∨
      (∀ v ∈ l, v.key ≠ fd) ∧ freeConn T fd = .ok (1, T) := by
  have hpos : l ≠ [] → T.connCnt > 0 := by
    intro hne
    have := List.length_pos_iff.mpr hne
    rw [hinv.connCnt_eq]
    omega
  rcases hinv.toLinked.freeConn_cases hpos hfd with
    ⟨l₁, v, l₂, root, nodes, a, c, b, rfl, rfl, howner, herase, hholds, hrun⟩ | hnot
  · left
    have hv : v ∈ l₁ ++ v :: l₂ := List.mem_append_right _ List.mem_cons_self
    have hcnt : T.connCnt - 1 = (l₁ ++ l₂).length + d := by
      rw [hinv.connCnt_eq]
      simp only [List.length_append, List.length_cons]
      omega
    by_cases hbad : root = none ∧ T.connCnt - 1 ≠ 0
    · -- the last node is gone and the count is not zero: the `conn` is kept
      rw [if_pos hbad] at hrun
      refine ⟨l₁, v, l₂, _, _, rfl, rfl, hrun, ⟨⟨hholds, ?_, hinv.buffered⟩, hcnt⟩, ?_⟩
      · exact fun w hw => hinv.owns w (mem_middle.mpr (.inr hw))
      · rintro rfl
        refine absurd ?_ hbad.2
        rw [hcnt, hholds.root_eq_none.mp hbad.1]
        rfl
    · have hroot : (if T.connCnt - 1 = 0 then none else root) = root := by
        split_ifs with hzero
        · refine (hholds.root_eq_none.mpr (List.eq_nil_of_length_eq_zero ?_)).symm
          omega
        · rfl
      rw [if_neg hbad, hroot] at hrun
      refine ⟨l₁, v, l₂, _, _, rfl, rfl, hrun, ⟨hinv.toLinked.erase howner hholds _, hcnt⟩, ?_⟩
      intro _
      obtain ⟨n, hn, -⟩ := hinv.holds.lookup hv
      refine ⟨by simp [hn], ?_, a, c, b, howner, rfl, rfl⟩
      exact rbErase_cells (hinv.holds.rbSearch_mem hv) herase
  · exact .inr hnot

lemma Drifted.freeConn_run {ret : Int} (hinv : Drifted T l d) (hfd : IsInt fd)
    (hrun : freeConn T fd = .ok (ret, T')) : ∃ l', Drifted T' l' d := by
  rcases hinv.freeConn_cases hfd with ⟨l₁, v, l₂, ret', T₁, -, -, hcall, hinv', -⟩ | ⟨-, hcall⟩
  · obtain ⟨-, rfl⟩ := ok_pair_inj hcall hrun
    exact ⟨l₁ ++ l₂, hinv'⟩
  · obtain ⟨-, rfl⟩ := ok_pair_inj hcall hrun
    exact ⟨l, hinv⟩

/-- The root is the node of a connection. -/
lemma Holds.root_mem {h : RbHeap} {root : Ptr} (hh : Holds h root l) (hne : l ≠ []) :
    ∃ v ∈ l, root = some v.addr := by
  obtain ⟨t, hrep, rfl, -⟩ := hh.tree
  cases t with
  | nil => exact absurd rfl hne
  | node c x v y =>
      refine ⟨v, ?_, hrep.root_eq⟩
      rw [RBTree.toList]
      exact List.mem_append_right _ List.mem_cons_self

/-- One pass of `freeConns` takes out the connection at the root. -/
theorem Drifted.freeRoot_cases (hinv : Drifted T l d) (hne : l ≠ []) :
    ∃ l₁ v l₂ T', l = l₁ ++ v :: l₂ ∧ freeRoot T = .ok T' ∧ Drifted T' (l₁ ++ l₂) d ∧
      (d = 0 → Released T v T') := by
  obtain ⟨v, hv, hroot⟩ := hinv.holds.root_mem hne
  obtain ⟨n, hn, -, hdata⟩ := hinv.holds.lookup hv
  obtain ⟨a, c, b, howner⟩ := hinv.toLinked.exists_owner hv
  -- the descriptor in the `conn` is the key of the node
  have hpass : ∀ {ret T'}, freeConn T v.key = .ok (ret, T') → freeRoot T = .ok T' := by
    intro ret T' hrun
    simp only [freeRoot, hroot, Heap.load_of_lookup hn, ok_bind, hdata, howner.data,
      Heap.load_of_lookup howner.conn, howner.fd, hrun]
    rfl
  rcases hinv.freeConn_cases (hinv.holds.keys v hv).isInt with
    ⟨l₁, w, l₂, ret, T', rfl, -, hrun, hinv', hrel⟩ | ⟨hnot, -⟩
  · exact ⟨l₁, w, l₂, T', rfl, hpass hrun, hinv', hrel⟩
  · exact absurd rfl (hnot v hv)

/-- A count that is ahead sends the loop to a NULL root. -/
lemma freeConnsLoop_of_drifted {fuel : ℕ} (hinv : Drifted T l (d + 1)) (hfuel : l.length < fuel) :
    freeConnsLoop fuel T = .error .nullDeref := by
  induction fuel generalizing T l with
  | zero => exact absurd hfuel (Nat.not_lt_zero _)
  | succ fuel ih =>
      have hpos : T.connCnt > 0 := by
        rw [hinv.connCnt_eq]
        omega
      rw [freeConnsLoop, if_pos hpos]
      by_cases hne : l = []
      · have hroot := hinv.holds.root_eq_none.mpr hne
        simp only [freeRoot, hroot]
        rfl
      · obtain ⟨l₁, v, l₂, T', rfl, hrun, hinv', -⟩ := hinv.freeRoot_cases hne
        rw [hrun, ok_bind]
        apply ih hinv'
        simp only [List.length_append, List.length_cons] at hfuel ⊢
        omega

/-- **`freeConns` dereferences NULL** on a table whose count is ahead. -/
theorem freeConns_of_drifted (hinv : Drifted T l (d + 1)) :
    freeConns T = .error .nullDeref := by
  apply freeConnsLoop_of_drifted hinv
  have hcnt := hinv.connCnt_eq
  omega

/-! ## Releasing everything -/

/-- Passes of `freeConns` that release connections, one after the other. -/
inductive Releases : Table → List Item → Table → Prop
  | nil {T : Table} : Releases T [] T
  | cons {T T₁ T' : Table} {v : Item} {vs : List Item} :
      freeRoot T = .ok T₁ → Released T v T₁ → Releases T₁ vs T' → Releases T (v :: vs) T'

/-- Without a drift the loop releases all connections, each of them in one pass. -/
theorem freeConnsLoop_releases {fuel : ℕ} (hinv : Drifted T l 0) (hfuel : l.length < fuel) :
    ∃ vs T', vs.Perm l ∧ Releases T vs T' ∧ freeConnsLoop fuel T = .ok (1, T') ∧
      Drifted T' [] 0 := by
  induction fuel generalizing T l with
  | zero => exact absurd hfuel (Nat.not_lt_zero _)
  | succ fuel ih =>
      have hcnt := hinv.connCnt_eq
      rw [freeConnsLoop]
      by_cases hne : l = []
      · subst hne
        refine ⟨[], T, .nil, .nil, ?_, hinv⟩
        rw [if_neg]
        · rfl
        · rw [hcnt]
          simp
      · have hlen := List.length_pos_iff.mpr hne
        obtain ⟨l₁, v, l₂, T₁, rfl, hrun, hinv₁, hrel⟩ := hinv.freeRoot_cases hne
        obtain ⟨vs, T', hperm, hrels, hloop, hinv'⟩ := ih hinv₁ (by
          simp only [List.length_append, List.length_cons] at hfuel ⊢
          omega)
        refine ⟨v :: vs, T', ?_, .cons hrun (hrel rfl) hrels, ?_, hinv'⟩
        · exact (hperm.cons v).trans List.perm_middle.symm
        · rw [if_pos (by omega), hrun, ok_bind, hloop]

end Drift

/-! ## Nothing is left behind -/

/-- What is allocated belongs to the connections `l`. -/
structure Covered (T : Table) (l : List Item) : Prop where
  nodes : ∀ a, T.nodes.lookup a ≠ none → ∃ v ∈ l, v.addr = a
  conns : ∀ a, T.conns.lookup a ≠ none → ∃ v ∈ l, v.data = some a
  bufs : ∀ b, T.bufs.lookup b ≠ none → ∃ a c, T.conns.lookup a = some c ∧ c.buf = some b

section Covered

variable {T T' : Table} {l l₁ l₂ : List Item} {v : Item} {fd : Int}

/-- After a release, what is allocated belongs to the other connections. -/
lemma Covered.released (hcov : Covered T (l₁ ++ v :: l₂)) (hrel : Released T v T') :
    Covered T' (l₁ ++ l₂) := by
  obtain ⟨p, c, b, howner, hconns, hbufs⟩ := hrel.blocks
  constructor
  · intro a ha
    have hold := mt (hrel.node a).mpr ha
    rw [not_or] at hold
    obtain ⟨w, hw, hwa⟩ := hcov.nodes a hold.2
    rcases mem_middle.mp hw with rfl | hw
    · exact absurd hwa.symm hold.1
    · exact ⟨w, hw, hwa⟩
  · intro a ha
    obtain ⟨c', hc'⟩ := Option.ne_none_iff_exists'.mp ha
    rw [hconns] at hc'
    obtain ⟨hne, hc'⟩ := Heap.lookup_erase_some hc'
    obtain ⟨w, hw, hwa⟩ := hcov.conns a (by simp [hc'])
    rcases mem_middle.mp hw with rfl | hw
    · exact absurd (Option.some.inj (hwa.symm.trans howner.data)) hne
    · exact ⟨w, hw, hwa⟩
  · intro b' hb'
    obtain ⟨B, hB⟩ := Option.ne_none_iff_exists'.mp hb'
    rw [hbufs] at hB
    obtain ⟨hne, hB⟩ := Heap.lookup_erase_some hB
    obtain ⟨a, c', hc', hcb⟩ := hcov.bufs b' (by simp [hB])
    refine ⟨a, c', ?_, hcb⟩
    rw [hconns, Finmap.lookup_erase_ne, hc']
    -- the released `conn` has another buffer
    rintro rfl
    obtain rfl := Option.some.inj (hc'.symm.trans howner.conn)
    exact hne (Option.some.inj (hcb.symm.trans howner.buf))

/-- A new connection is covered. -/
lemma Covered.newConn {node conn buf : ℕ} {root : Ptr} {nodes : RbHeap} {cnt : Int}
    (hcov : Covered T (l₁ ++ l₂)) (hconn : T.conns.lookup conn = none)
    (hrun : rbInsert T.nodes node fd (some conn) T.root = .ok (root, nodes)) :
    Covered ⟨cnt, root, nodes, T.conns.insert conn ⟨fd, some buf⟩, T.bufs.insert buf initBuf⟩
      (l₁ ++ ⟨node, fd, some conn⟩ :: l₂) := by
  constructor
  · intro a ha
    rcases rbInsert_cells hrun a ha with rfl | hold
    · exact ⟨_, mem_middle.mpr (.inl rfl), rfl⟩
    · obtain ⟨v, hv, hva⟩ := hcov.nodes a hold
      exact ⟨v, mem_middle.mpr (.inr hv), hva⟩
  · intro a ha
    obtain ⟨c, hc⟩ := Option.ne_none_iff_exists'.mp ha
    rcases Heap.lookup_insert_some hc with ⟨rfl, -⟩ | ⟨-, hc⟩
    · exact ⟨_, mem_middle.mpr (.inl rfl), rfl⟩
    · obtain ⟨v, hv, hva⟩ := hcov.conns a (by simp [hc])
      exact ⟨v, mem_middle.mpr (.inr hv), hva⟩
  · intro b hb
    obtain ⟨B, hB⟩ := Option.ne_none_iff_exists'.mp hb
    rcases Heap.lookup_insert_some hB with ⟨rfl, -⟩ | ⟨-, hB⟩
    · exact ⟨conn, _, Finmap.lookup_insert _, rfl⟩
    · obtain ⟨a, c, hc, hcb⟩ := hcov.bufs b (by simp [hB])
      refine ⟨a, c, ?_, hcb⟩
      rw [Finmap.lookup_insert_of_ne, hc]
      rintro rfl
      rw [hconn] at hc
      cases hc

/-- A table without connections in which everything is covered is the empty table. -/
lemma Covered.eq_empty (hcov : Covered T []) (hinv : Drifted T [] 0) : T = .empty := by
  have hnone : ∀ {P : Item → Prop}, ¬∃ v ∈ ([] : List Item), P v := by
    rintro P ⟨v, hv, -⟩
    exact List.not_mem_nil hv
  have hconns : ∀ a, T.conns.lookup a = none := fun a => by_contra fun ha => hnone (hcov.conns a ha)
  obtain ⟨connCnt, root, nodes, conns, bufs⟩ := T
  unfold Table.empty
  congr 1
  · exact hinv.connCnt_eq
  · exact hinv.holds.root_eq_none.mpr rfl
  · refine Finmap.ext_lookup fun a => ?_
    exact by_contra fun ha => hnone (hcov.nodes a ha)
  · exact Finmap.ext_lookup fun a => hconns a
  · refine Finmap.ext_lookup fun b => by_contra fun hb => ?_
    obtain ⟨a, c, hc, -⟩ := hcov.bufs b hb
    exact Option.some_ne_none c (hc.symm.trans (hconns a))

lemma Covered.perm {l' : List Item} (hcov : Covered T l) (hperm : l.Perm l') : Covered T l' := by
  refine ⟨fun a ha => ?_, fun a ha => ?_, hcov.bufs⟩
  · obtain ⟨v, hv, hva⟩ := hcov.nodes a ha
    exact ⟨v, hperm.mem_iff.mp hv, hva⟩
  · obtain ⟨v, hv, hva⟩ := hcov.conns a ha
    exact ⟨v, hperm.mem_iff.mp hv, hva⟩

/-- Releasing all connections releases everything. -/
lemma Releases.covered {vs : List Item} (hrels : Releases T vs T') (hcov : Covered T vs) :
    Covered T' [] := by
  induction hrels with
  | nil => exact hcov
  | @cons T T₁ T' v vs _ hrel _ ih =>
      have hfirst : Covered T ([] ++ v :: vs) := hcov
      exact ih (hfirst.released hrel)

/-- **In every run the heaps hold the connections of the table and nothing else.** -/
theorem Run.covered {es : List Event} (hrun : Run es T) : ∃ l, Drifted T l 0 ∧ Covered T l := by
  induction hrun with
  | nil =>
      refine ⟨[], ⟨tableInv_empty.linked, rfl⟩, ?_, ?_, ?_⟩
      · exact fun a ha => absurd (Finmap.lookup_empty a) ha
      · exact fun a ha => absurd (Finmap.lookup_empty a) ha
      · exact fun a ha => absurd (Finmap.lookup_empty a) ha
  | created hrun hall hcall ih =>
      obtain ⟨l, hinv, hcov⟩ := ih
      have hnot : ∀ v ∈ l, v.key ≠ _ := fun v hv hkey =>
        hall.not_live (hrun.live_iff_has.mpr (hinv.toLinked.has_iff.mpr ⟨v, hv, hkey⟩))
      obtain ⟨l₁, l₂, root, nodes, rfl, hins, hnew, hlinked⟩ := hinv.toLinked.newConn_fresh
        hall.fd_nonneg hnot hall.node_free hall.conn_free hall.buf_free
      rw [hnew] at hcall
      cases hcall
      refine ⟨_, ⟨hlinked, ?_⟩, hcov.newConn hall.conn_free hins⟩
      have hcnt := hinv.connCnt_eq
      simp only [List.length_append, List.length_cons] at hcnt ⊢
      omega
  | freed hrun hfd hcall ih =>
      obtain ⟨l, hinv, hcov⟩ := ih
      rcases hinv.freeConn_cases hfd with
        ⟨l₁, v, l₂, ret, T', rfl, rfl, hfree, hinv', hrel⟩ | ⟨-, hfree⟩
      · rw [hfree] at hcall
        cases hcall
        exact ⟨_, hinv', hcov.released (hrel rfl)⟩
      · rw [hfree] at hcall
        cases hcall
        exact ⟨l, hinv, hcov⟩

end Covered

section Run

variable {es : List Event} {T : Table}

/-- **`freeConns` ends, and releases everything once.** After every run, its passes release the
connections of the tree, each of them in one pass and with everything it has; none of them faults,
and the table that is left has no count, no root and no block in its heaps. -/
theorem freeConns_releases (hrun : Run es T) :
    ∃ t vs, Represents T.nodes T.root t ∧ vs.Perm t.toList ∧ vs.Nodup ∧ Releases T vs .empty ∧
      freeConns T = .ok (1, .empty) := by
  obtain ⟨l, hinv, hcov⟩ := hrun.covered
  have hcnt := hinv.connCnt_eq
  obtain ⟨vs, T', hperm, hrels, hloop, hinv'⟩ :=
    freeConnsLoop_releases hinv (by omega : l.length < T.connCnt.toNat + 1)
  obtain rfl := (hrels.covered (hcov.perm hperm.symm)).eq_empty hinv'
  have hnodup : l.Nodup := hinv.holds.keys_nodup.of_map
  obtain ⟨t, hrep, rfl, -⟩ := hinv.holds.tree
  exact ⟨t, vs, hrep, hperm, hperm.nodup_iff.mpr hnodup, hrels, hloop⟩

/-- Three connections. -/
theorem freeConns_releases_three :
    ∃ T : Table, T.connCnt = 3 ∧ (∃ vs, vs.Nodup ∧ Releases T vs .empty) ∧
      freeConns T = .ok (1, .empty) := by
  obtain ⟨T, hrun, hcnt⟩ := run_three
  obtain ⟨t, vs, -, -, hnodup, hrels, hfree⟩ := freeConns_releases hrun
  exact ⟨T, hcnt, ⟨vs, hnodup, hrels⟩, hfree⟩

end Run

/-! ## Calls of `newConn` on any descriptor -/

/-- `malloc` may return these addresses. -/
structure Fresh (T : Table) (node conn buf : ℕ) : Prop where
  node_free : T.nodes.lookup node = none
  conn_free : T.conns.lookup conn = none
  buf_free : T.bufs.lookup buf = none

/-- The tables that calls of `newConn`, `freeConn` and `freeConns` lead to from the empty table, `d`
of the calls being `newConn` on a descriptor that was in the table. -/
inductive Reached : ℕ → Table → Prop
  | empty : Reached 0 .empty
  | created {d : ℕ} {T T' : Table} {fd : Int} {node conn buf : ℕ} {ret : Ptr} :
      Reached d T → IsFd fd → Fresh T node conn buf → ¬T.Has fd →
      newConn T fd node conn buf = .ok (ret, T') → Reached d T'
  | repeated {d : ℕ} {T T' : Table} {fd : Int} {node conn buf : ℕ} {ret : Ptr} :
      Reached d T → IsFd fd → Fresh T node conn buf → T.Has fd →
      newConn T fd node conn buf = .ok (ret, T') → Reached (d + 1) T'
  | freed {d : ℕ} {T T' : Table} {fd ret : Int} :
      Reached d T → IsInt fd → freeConn T fd = .ok (ret, T') → Reached d T'
  | cleared {d : ℕ} {T T' : Table} {ret : Int} :
      Reached d T → freeConns T = .ok (ret, T') → Reached d T'

/-- The tables that calls of `freeConn` and `freeConns` lead to. -/
inductive Frees : Table → Table → Prop
  | refl {T : Table} : Frees T T
  | freed {T T₁ T' : Table} {fd ret : Int} :
      Frees T T₁ → IsInt fd → freeConn T₁ fd = .ok (ret, T') → Frees T T'
  | cleared {T T₁ T' : Table} {ret : Int} :
      Frees T T₁ → freeConns T₁ = .ok (ret, T') → Frees T T'

/-- `connCnt` is the number of nodes. -/
def Table.Counted (T : Table) : Prop :=
  ∃ t, Represents T.nodes T.root t ∧ T.connCnt = t.toList.length

/-- `newConn` has returned a connection that is the data of the node for the descriptor, there is
one more node, and the count is one more. -/
structure Added (T : Table) (fd : Int) (p : Ptr) (T' : Table) : Prop where
  ne_null : p ≠ none
  found : ∃ a n, rbSearch T'.nodes fd T'.root = .ok (some a) ∧ T'.nodes.lookup a = some n ∧
    n.data = p
  nodes : ∃ t t', Represents T.nodes T.root t ∧ Represents T'.nodes T'.root t' ∧
    t'.toList.length = t.toList.length + 1
  connCnt_eq : T'.connCnt = T.connCnt + 1

/-- `newConn` has returned NULL, and the tree and the count are as they were. -/
structure Refused (T : Table) (p : Ptr) (T' : Table) : Prop where
  null : p = none
  root_eq : T'.root = T.root
  nodes_eq : T'.nodes = T.nodes
  connCnt_eq : T'.connCnt = T.connCnt

/-- The call of `newConn` adds a connection or does nothing. -/
def AllOrNothing (T : Table) (fd : Int) (node conn buf : ℕ) : Prop :=
  ∃ p T', newConn T fd node conn buf = .ok (p, T') ∧ (Added T fd p T' ∨ Refused T p T')

section Reached

variable {T T' : Table} {l : List Item} {d : ℕ} {fd : Int} {node conn buf : ℕ}

/-- `newConn` on a descriptor that is not in the table. -/
lemma Drifted.newConn_fresh (hinv : Drifted T l d) (hfd : IsFd fd) (hnot : ∀ v ∈ l, v.key ≠ fd)
    (hnew : Fresh T node conn buf) :
    ∃ l₁ l₂ T', l = l₁ ++ l₂ ∧ newConn T fd node conn buf = .ok (some conn, T') ∧
      T'.connCnt = T.connCnt + 1 ∧ Drifted T' (l₁ ++ ⟨node, fd, some conn⟩ :: l₂) d := by
  obtain ⟨l₁, l₂, root, nodes, rfl, -, hrun, hlinked⟩ := hinv.toLinked.newConn_fresh hfd hnot
    hnew.node_free hnew.conn_free hnew.buf_free
  refine ⟨l₁, l₂, _, rfl, hrun, rfl, hlinked, ?_⟩
  have hcnt := hinv.connCnt_eq
  simp only [List.length_append, List.length_cons] at hcnt ⊢
  omega

/-- `newConn` on a descriptor that is in the table: the tree stays, and the count grows. -/
lemma Drifted.newConn_repeated (hinv : Drifted T l d) (hhas : ∃ v ∈ l, v.key = fd)
    (hnew : Fresh T node conn buf) :
    ∃ T', newConn T fd node conn buf = .ok (some conn, T') ∧ T'.nodes = T.nodes ∧
      T'.root = T.root ∧ Drifted T' l (d + 1) := by
  obtain ⟨v, hv, rfl⟩ := hhas
  obtain ⟨⟨found, last⟩, haux, hfound⟩ := bind_eq_ok (hinv.holds.rbSearch_mem hv)
  obtain rfl : found = some v.addr := Except.ok.inj hfound
  have hins : rbInsert T.nodes node v.key (some conn) T.root = .ok (T.root, T.nodes) := by
    simp only [rbInsert, haux, ok_bind, ne_eq, reduceCtorEq, not_false_eq_true, if_true]
    rfl
  refine ⟨⟨T.connCnt + 1, T.root, T.nodes, T.conns.insert conn ⟨v.key, some buf⟩,
    T.bufs.insert buf initBuf⟩, ?_, rfl, rfl, ⟨hinv.holds, ?_, ?_⟩, ?_⟩
  · simp only [newConn, hins, ok_bind, rbInsert_root_ne hins, ne_eq, not_false_eq_true, if_true]
    rfl
  · intro w hw
    obtain ⟨a, c, hwa, hc, hcw⟩ := hinv.owns w hw
    refine ⟨a, c, hwa, ?_, hcw⟩
    rw [Finmap.lookup_insert_of_ne, hc]
    rintro rfl
    rw [hnew.conn_free] at hc
    cases hc
  · exact hinv.buffered.insert initBuf rfl hnew.buf_free
  · have hcnt := hinv.connCnt_eq
    push_cast
    omega

/-- When `freeConns` returns, the count was not ahead. -/
lemma Drifted.freeConns_cases {ret : Int} (hinv : Drifted T l d)
    (hrun : freeConns T = .ok (ret, T')) : Drifted T' [] d := by
  cases d with
  | zero =>
      have hcnt := hinv.connCnt_eq
      obtain ⟨vs, T₁, -, -, hloop, hinv'⟩ :=
        freeConnsLoop_releases hinv (by omega : l.length < T.connCnt.toNat + 1)
      obtain ⟨-, rfl⟩ := ok_pair_inj hloop hrun
      exact hinv'
  | succ d =>
      rw [freeConns_of_drifted hinv] at hrun
      cases hrun

/-- **In every run of calls the count is ahead by the number of repeated descriptors.** -/
theorem Reached.drifted (hreach : Reached d T) : ∃ l, Drifted T l d := by
  induction hreach with
  | empty => exact ⟨[], tableInv_empty.linked, rfl⟩
  | created _ hfd hnew hnot hrun ih =>
      obtain ⟨l, hinv⟩ := ih
      rw [hinv.toLinked.has_iff] at hnot
      obtain ⟨l₁, l₂, T', rfl, hcall, -, hinv'⟩ := hinv.newConn_fresh hfd
        (fun v hv hkey => hnot ⟨v, hv, hkey⟩) hnew
      obtain ⟨-, rfl⟩ := ok_pair_inj hcall hrun
      exact ⟨_, hinv'⟩
  | repeated _ hfd hnew hhas hrun ih =>
      obtain ⟨l, hinv⟩ := ih
      obtain ⟨T', hcall, -, -, hinv'⟩ := hinv.newConn_repeated (hinv.toLinked.has_iff.mp hhas) hnew
      obtain ⟨-, rfl⟩ := ok_pair_inj hcall hrun
      exact ⟨l, hinv'⟩
  | freed _ hfd hrun ih =>
      obtain ⟨l, hinv⟩ := ih
      exact hinv.freeConn_run hfd hrun
  | cleared _ hrun ih =>
      obtain ⟨l, hinv⟩ := ih
      exact ⟨[], hinv.freeConns_cases hrun⟩

/-- Freeing does not change the drift. -/
lemma Frees.drifted (hfrees : Frees T T') (hinv : Drifted T l d) : ∃ l', Drifted T' l' d := by
  induction hfrees with
  | refl => exact ⟨l, hinv⟩
  | freed _ hfd hrun ih =>
      obtain ⟨l', hinv'⟩ := ih
      exact hinv'.freeConn_run hfd hrun
  | cleared _ hrun ih =>
      obtain ⟨l', hinv'⟩ := ih
      exact ⟨[], hinv'.freeConns_cases hrun⟩

lemma Drifted.counted_iff (hinv : Drifted T l d) : T.Counted ↔ d = 0 := by
  obtain ⟨t, hrep, rfl, -⟩ := hinv.holds.tree
  have hcnt := hinv.connCnt_eq
  constructor
  · rintro ⟨t', hrep', hcnt'⟩
    rw [hrep.unique hrep'] at hcnt
    omega
  · rintro rfl
    exact ⟨t, hrep, by omega⟩

/-- A connection that is made for a new descriptor is added. -/
lemma Drifted.added {l₁ l₂ : List Item} (hinv : Drifted T (l₁ ++ l₂) d)
    (hcnt : T'.connCnt = T.connCnt + 1)
    (hinv' : Drifted T' (l₁ ++ ⟨node, fd, some conn⟩ :: l₂) d) : Added T fd (some conn) T' := by
  have hv : (⟨node, fd, some conn⟩ : Item) ∈ l₁ ++ ⟨node, fd, some conn⟩ :: l₂ :=
    mem_middle.mpr (.inl rfl)
  obtain ⟨n, hn, -, hdata⟩ := hinv'.holds.lookup hv
  obtain ⟨t, hrep, ht, -⟩ := hinv.holds.tree
  obtain ⟨t', hrep', ht', -⟩ := hinv'.holds.tree
  have hsearch := hinv'.holds.rbSearch_mem hv
  have hlen : t'.toList.length = t.toList.length + 1 := by
    rw [ht, ht', List.length_append, List.length_cons, List.length_append, Nat.add_assoc]
  exact ⟨Option.some_ne_none conn, ⟨node, n, hsearch, hn, hdata⟩, ⟨t, t', hrep, hrep', hlen⟩, hcnt⟩

/-- **Creation is all or nothing**, in every table that calls of `newConn`, `freeConn` and
`freeConns` lead to, exactly when the descriptor is not in the table; and after it the count is the
number of nodes, however connections are then freed, exactly when no earlier call was on a
descriptor in the table either. -/
theorem allOrNothing_iff (hreach : Reached d T) (hfd : IsFd fd) (hnew : Fresh T node conn buf) :
    (AllOrNothing T fd node conn buf ↔ ¬T.Has fd) ∧
      ∀ p T', newConn T fd node conn buf = .ok (p, T') →
        ((∀ T'', Frees T' T'' → T''.Counted) ↔ d = 0 ∧ ¬T.Has fd) := by
  obtain ⟨l, hinv⟩ := hreach.drifted
  by_cases hhas : T.Has fd
  · obtain ⟨T₁, hcall, hnodes, hroot, hinv₁⟩ :=
      hinv.newConn_repeated (hinv.toLinked.has_iff.mp hhas) hnew
    refine ⟨iff_of_false ?_ (not_not.mpr hhas), ?_⟩
    · rintro ⟨p, T', hrun, hres⟩
      obtain ⟨rfl, rfl⟩ := ok_pair_inj hcall hrun
      rcases hres with hadd | hno
      · obtain ⟨t, t', hrep, hrep', hlen⟩ := hadd.nodes
        rw [hnodes, hroot] at hrep'
        rw [hrep.unique hrep'] at hlen
        omega
      · exact Option.some_ne_none conn hno.null
    · intro p T' hrun
      obtain ⟨-, rfl⟩ := ok_pair_inj hcall hrun
      refine iff_of_false (fun hall => ?_) fun h => h.2 hhas
      exact absurd (hinv₁.counted_iff.mp (hall T₁ .refl)) (Nat.succ_ne_zero d)
  · have hnot : ∀ v ∈ l, v.key ≠ fd := fun v hv hkey =>
      hhas (hinv.toLinked.has_iff.mpr ⟨v, hv, hkey⟩)
    obtain ⟨l₁, l₂, T₁, rfl, hcall, hcnt, hinv₁⟩ := hinv.newConn_fresh hfd hnot hnew
    refine ⟨iff_of_true ⟨_, _, hcall, .inl (hinv.added hcnt hinv₁)⟩ hhas, ?_⟩
    intro p T' hrun
    obtain ⟨-, rfl⟩ := ok_pair_inj hcall hrun
    constructor
    · exact fun hall => ⟨hinv₁.counted_iff.mp (hall T₁ .refl), hhas⟩
    · rintro ⟨rfl, -⟩ T'' hfrees
      obtain ⟨l', hinv'⟩ := hfrees.drifted hinv₁
      exact hinv'.counted_iff.mpr rfl

end Reached

/-- One connection, for descriptor 5. -/
lemma reached_one :
    ∃ T, Reached 0 T ∧ (∀ fd, T.Has fd ↔ fd = 5) ∧ Fresh T 4 5 6 ∧ T.connCnt = 1 := by
  have hempty : Drifted .empty [] 0 := ⟨tableInv_empty.linked, rfl⟩
  have hnew : Fresh .empty 1 2 3 := ⟨rfl, rfl, rfl⟩
  have hfd : IsFd 5 := by constructor <;> decide
  obtain ⟨l₁, l₂, T, hl, hcall, hcnt, hinv⟩ :=
    hempty.newConn_fresh hfd (fun v hv => absurd hv List.not_mem_nil) hnew
  obtain ⟨rfl, rfl⟩ := List.append_eq_nil_iff.mp hl.symm
  have hnot : ¬Table.empty.Has 5 := by
    rw [hempty.toLinked.has_iff]
    simp
  have hfresh : Fresh T 4 5 6 := by
    obtain ⟨-, rfl⟩ := Prod.mk.inj (Except.ok.inj hcall)
    exact ⟨rfl, rfl, rfl⟩
  refine ⟨T, .created .empty hfd hnew hnot hcall, fun fd => ?_, hfresh, hcnt⟩
  rw [hinv.toLinked.has_iff]
  simp [eq_comm]

/-- A second connection, for another descriptor. -/
theorem allOrNothing_other : ∃ T : Table, T.connCnt = 1 ∧ AllOrNothing T 3 4 5 6 := by
  obtain ⟨T, hreach, hhas, hnew, hcnt⟩ := reached_one
  have hfd : IsFd 3 := by constructor <;> decide
  refine ⟨T, hcnt, (allOrNothing_iff hreach hfd hnew).1.mpr ?_⟩
  rw [hhas]
  decide

/-- **The same descriptor again.** The second `newConn` on descriptor 5 returns a connection, and
the count is 2, but the tree is as it was; and `freeConns` then dereferences NULL. -/
theorem newConn_repeated_counts :
    ∃ T T' : Table, Reached 0 T ∧ T.Has 5 ∧ newConn T 5 4 5 6 = .ok (some 5, T') ∧
      T'.nodes = T.nodes ∧ T'.root = T.root ∧ T'.connCnt = 2 ∧ ¬T'.Counted ∧
      freeConns T' = .error .nullDeref := by
  obtain ⟨T, hreach, hhas, hnew, hcnt⟩ := reached_one
  obtain ⟨l, hinv⟩ := hreach.drifted
  have hfive : T.Has 5 := (hhas 5).mpr rfl
  obtain ⟨T', hcall, hnodes, hroot, hinv'⟩ :=
    hinv.newConn_repeated (hinv.toLinked.has_iff.mp hfive) hnew
  refine ⟨T, T', hreach, hfive, hcall, hnodes, hroot, ?_, ?_, freeConns_of_drifted hinv'⟩
  · have h₁ := hinv.connCnt_eq
    have h₂ := hinv'.connCnt_eq
    omega
  · rw [hinv'.counted_iff]
    decide

end ActionDB.Net.Conn
